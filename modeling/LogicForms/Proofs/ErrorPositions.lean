import LogicForms.Proofs.Locality
import LogicForms.Proofs.SyntaxErrors
import LogicForms.Surface.Cursor

/-!
# Errors at the first token that cannot be continued

Where the reader fails, the tokens in front of the offending one begin a construct of the grammar
(`Begins`, by recursion like the reader's, where what has not been read yet is filled in), and no
continuation of the offending token would have helped: the reader, which does not see beyond it,
would fail on the tokens of every formula that starts in this way.

So the position of an error is the length of the longest beginning of a formula, and the error tells
whether this beginning is a formula itself (`readWhole_error`).
-/

set_option autoImplicit false

namespace LogicForms.Surface

/-! ### Beginnings of constructs -/

/-- The tokens in front of `rest` begin a construct. -/
def Begins (s : GrammarSymbol) (tokens rest : List Token) : Prop :=
  ∃ (tree : DerivationTree s) (front : List Token), front ++ rest = tokens ∧ front <+: tree.tokens

namespace Begins

variable {s s' : GrammarSymbol} {tokens rest : List Token}

/-- Without any tokens, each tree will do. -/
theorem refl (tree : DerivationTree s) (tokens : List Token) : Begins s tokens tokens :=
  ⟨tree, [], rfl, List.nil_prefix⟩

/-- What begins a part begins the whole together with what is in front of the part. -/
theorem part {behind : List Token} (h : Begins s behind rest) (front : List Token)
    (htokens : front ++ behind = tokens) (build : DerivationTree s → DerivationTree s')
    (hbuild : ∀ tree, front ++ tree.tokens <+: (build tree).tokens) : Begins s' tokens rest := by
  obtain ⟨tree, front', hfront, hprefix⟩ := h
  refine ⟨build tree, front ++ front', ?_, ?_⟩
  · rw [List.append_assoc, hfront, htokens]
  · exact ((List.prefix_append_right_inj front).2 hprefix).trans (hbuild tree)

end Begins

/-- A leaf of a kind. -/
def leaf (kind : TokenKind) (text : String) : TokenOf kind := ⟨⟨kind, text, 0⟩, rfl⟩

namespace DerivationTree

/-- The term `x`. -/
def sampleTerm : DerivationTree .term := .term (leaf .name "x") .noArguments

/-- The predicate `x`. -/
def sampleAtom : DerivationTree (.formula .atom) := .pred (leaf .name "x") .noArguments

/-- The argument list without arguments. -/
def sampleArguments : DerivationTree .arguments :=
  .emptyArguments (leaf .leftParen "(") (leaf .rightParen ")")

end DerivationTree

open DerivationTree (sampleTerm sampleAtom sampleArguments)

/-! ### Where the reader fails -/

/-- A token that is not of the kind is left. -/
theorem rest_of_readToken {kind : TokenKind} {tokens : List Token} {e : SyntaxError}
    (h : bare (readToken kind tokens) = .error e) : e.rest = tokens := by
  cases tokens with
  | nil =>
    cases h
    rfl
  | cons token rest =>
    rw [readToken] at h
    split at h
    · cases h
    · cases h
      rfl

/-- Bounds make no difference to errors. -/
theorem bare_eq_error {α : Type} {bound : Nat} {outcome : Except SyntaxError (Parsed α bound)}
    {e : SyntaxError} : bare outcome = .error e ↔ outcome = .error e := by
  cases outcome <;> simp [bare, Except.map]

/-- Behind a token there are fewer tokens. -/
theorem length_lt_of_eq_cons {token : Token} {tokens rest : List Token}
    (h : tokens = token :: rest) : rest.length < tokens.length := by
  rw [h, List.length_cons]
  exact Nat.lt_succ_self rest.length

/-- If the first token of an optional part is there, the part goes on behind it. -/
theorem exists_of_optional {α : Type} {kind : TokenKind} {tokens : List Token} {e : SyntaxError}
    {a : α × List Token} {next : Token × List Token → Except SyntaxError (α × List Token)}
    (h : (if startsWith kind tokens then bare (readToken kind tokens) >>= next else .ok a)
      = .error e) :
    ∃ (sign : TokenOf kind) (rest : List Token), tokens = sign.1 :: rest ∧
      next (sign.1, rest) = .error e := by
  split at h
  · rename_i hstart
    obtain ⟨sign, rest, rfl⟩ := exists_of_startsWith hstart
    rw [bare_readToken_cons, ok_bind] at h
    exact ⟨sign, rest, rfl, h⟩
  · cases h

-- The theorems recur like the functions of the reader. What is read before the failure is derived,
-- and what would come behind it is left out or made up of sample trees.

mutual

theorem begins_of_readTerm {tokens : List Token} {e : SyntaxError}
    (h : bare (readTerm tokens) = .error e) : Begins .term tokens e.rest := by
  rw [bare_readTerm] at h
  rcases bind_eq_error.1 h with hname | ⟨⟨token, rest⟩, hname, h⟩
  · rw [rest_of_readToken hname]
    exact .refl sampleTerm tokens
  have hlt := length_lt_of_bare hname
  obtain ⟨name, rfl, htokens⟩ := exists_of_bare_readToken hname
  rcases bind_eq_error.1 h with hargs | ⟨args, hargs, h⟩
  · exact (begins_of_readOptionalArguments hargs).part [name.1] htokens (.term name)
      fun tree => List.prefix_rfl
  · cases h
termination_by (tokens.length, 0)

theorem begins_of_readOptionalArguments {tokens : List Token} {e : SyntaxError}
    (h : bare (readOptionalArguments tokens) = .error e) :
    Begins .optionalArguments tokens e.rest := by
  rw [bare_readOptionalArguments] at h
  split at h
  · rcases bind_eq_error.1 h with hargs | ⟨args, hargs, h⟩
    · exact (begins_of_readArguments hargs).part [] rfl .someArguments
        fun tree => List.prefix_rfl
    · cases h
  · cases h
termination_by (tokens.length, 1)

theorem begins_of_readArguments {tokens : List Token} {e : SyntaxError}
    (h : bare (readArguments tokens) = .error e) : Begins .arguments tokens e.rest := by
  rw [bare_readArguments] at h
  rcases bind_eq_error.1 h with hleft | ⟨⟨token, inner⟩, hleft, h⟩
  · rw [rest_of_readToken hleft]
    exact .refl sampleArguments tokens
  have hlt := length_lt_of_bare hleft
  obtain ⟨left, rfl, htokens⟩ := exists_of_bare_readToken hleft
  rw [← htokens]
  dsimp only at h
  split at h
  · -- a right parenthesis that has been seen can be read
    rename_i hright
    obtain ⟨right, rest, rfl⟩ := exists_of_startsWith hright
    rw [bare_readToken_cons, ok_bind] at h
    cases h
  rcases bind_eq_error.1 h with hfirst | ⟨⟨_, rest₁⟩, hfirst, h⟩
  · exact (begins_of_readTermLike hfirst).part [left.1] rfl
      (fun tree => .arguments left tree .noMoreArguments (leaf .rightParen ")"))
      fun tree => ⟨[(leaf .rightParen ")").1], by simp⟩
  have hlt₁ := length_lt_of_bare hfirst
  obtain ⟨first, -, hinner⟩ := derives_of_readTermLike hfirst
  rcases bind_eq_error.1 h with hmore | ⟨⟨_, rest₂⟩, hmore, h⟩
  · exact (begins_of_readMoreArguments hmore).part (left.1 :: first.tokens)
      (congrArg (left.1 :: ·) hinner)
      (fun tree => .arguments left first tree (leaf .rightParen ")"))
      fun tree => ⟨[(leaf .rightParen ")").1], by simp⟩
  obtain ⟨more, -, hrest₁⟩ := derives_of_readMoreArguments hmore
  rcases bind_eq_error.1 h with hright | ⟨right, hright, h⟩
  · rw [rest_of_readToken hright]
    dsimp only at hinner hrest₁ ⊢
    refine ⟨.arguments left first more (leaf .rightParen ")"),
      left.1 :: (first.tokens ++ more.tokens), ?_, ⟨[(leaf .rightParen ")").1], by simp⟩⟩
    rw [List.cons_append, List.append_assoc, hrest₁, hinner]
  · cases h
termination_by (tokens.length, 0)

theorem begins_of_readMoreArguments {tokens : List Token} {e : SyntaxError}
    (h : bare (readMoreArguments tokens) = .error e) : Begins .moreArguments tokens e.rest := by
  rw [bare_readMoreArguments] at h
  obtain ⟨comma, rest, htokens, h⟩ := exists_of_optional h
  have hlt := length_lt_of_eq_cons htokens
  rw [htokens]
  rcases bind_eq_error.1 h with hnext | ⟨⟨_, rest₁⟩, hnext, h⟩
  · exact (begins_of_readTermLike hnext).part [comma.1] rfl
      (fun tree => .argument comma tree .noMoreArguments) fun tree => ⟨[], by simp⟩
  have hlt₁ := length_lt_of_bare hnext
  obtain ⟨next, -, hrest⟩ := derives_of_readTermLike hnext
  rcases bind_eq_error.1 h with hmore | ⟨more, hmore, h⟩
  · exact (begins_of_readMoreArguments hmore).part (comma.1 :: next.tokens)
      (congrArg (comma.1 :: ·) hrest) (.argument comma next) fun tree => List.prefix_rfl
  · cases h
termination_by (tokens.length, 0)

theorem begins_of_readTermLike {tokens : List Token} {e : SyntaxError}
    (h : bare (readTermLike tokens) = .error e) : Begins .termLike tokens e.rest := by
  rw [bare_readTermLike] at h
  rcases bind_eq_error.1 h with hlhs | ⟨⟨t, rest₁⟩, hlhs, h⟩
  · exact (begins_of_readTerm hlhs).part [] rfl .plain fun tree => List.prefix_rfl
  have hlt := length_lt_of_bare hlhs
  obtain ⟨lhs, -, htokens⟩ := derives_of_readTerm hlhs
  obtain ⟨sign, rest₂, hrest₁, h⟩ := exists_of_optional h
  dsimp only at hrest₁ htokens
  rw [hrest₁, List.append_cons] at htokens
  have hlt₁ := length_lt_of_eq_cons hrest₁
  rcases bind_eq_error.1 h with hrhs | ⟨rhs, hrhs, h⟩
  · exact (begins_of_readTerm hrhs).part (lhs.tokens ++ [sign.1]) htokens
      (.termEquation lhs sign) fun tree => ⟨[], by simp⟩
  · cases h
termination_by (tokens.length, 1)

end

mutual

theorem begins_of_readChain {op : Connective} {tokens : List Token} {e : SyntaxError}
    (h : bare (readChain op tokens) = .error e) : Begins (.formula (.chain op)) tokens e.rest := by
  rw [bare_readChain] at h
  rcases bind_eq_error.1 h with hfirst | ⟨⟨f, rest⟩, hfirst, hmore⟩
  · exact (begins_of_readOperand hfirst).part [] rfl
      (fun tree => .chain op tree (.noOperands op)) fun tree => ⟨[], by simp⟩
  have hlt := length_lt_of_bare hfirst
  obtain ⟨first, -, htokens⟩ := derives_of_readOperand hfirst
  exact (begins_of_readChainTail hmore).part first.tokens htokens (.chain op first)
    fun tree => List.prefix_rfl
termination_by (tokens.length, 2 * level op + 3)

theorem begins_of_readOperand {op : Connective} {tokens : List Token} {e : SyntaxError}
    (h : bare (readOperand op tokens) = .error e) :
    Begins (.formula (operandLevel op)) tokens e.rest := by
  match op with
  | .iff =>
    rw [readOperand] at h
    exact begins_of_readChain h
  | .implies =>
    rw [readOperand] at h
    exact begins_of_readChain h
  | .or =>
    rw [readOperand] at h
    exact begins_of_readChain h
  | .and =>
    rw [readOperand] at h
    exact begins_of_readUnary h
termination_by (tokens.length, 2 * level op + 2)
decreasing_by all_goals (simp [Prod.lex_def, level])

theorem begins_of_readChainTail {op : Connective} {f : Formula} {tokens : List Token}
    {e : SyntaxError} (h : bare (readChainTail op f tokens) = .error e) :
    Begins (.moreOperands op) tokens e.rest := by
  rw [bare_readChainTail] at h
  obtain ⟨sign, rest, htokens, h⟩ := exists_of_optional h
  have hlt := length_lt_of_eq_cons htokens
  rw [htokens]
  rcases bind_eq_error.1 h with hnext | ⟨⟨_, rest₁⟩, hnext, hmore⟩
  · exact (begins_of_readOperand hnext).part [sign.1] rfl
      (fun tree => .operand op sign tree (.noOperands op)) fun tree => ⟨[], by simp⟩
  have hlt₁ := length_lt_of_bare hnext
  obtain ⟨next, -, hrest⟩ := derives_of_readOperand hnext
  exact (begins_of_readChainTail hmore).part (sign.1 :: next.tokens)
    (congrArg (sign.1 :: ·) hrest) (.operand op sign next) fun tree => List.prefix_rfl
termination_by (tokens.length, 0)

theorem begins_of_readUnary {tokens : List Token} {e : SyntaxError}
    (h : bare (readUnary tokens) = .error e) : Begins (.formula .unary) tokens e.rest := by
  by_cases hnot : startsWith .not tokens = true
  · obtain ⟨sign, rest, htokens⟩ := exists_of_startsWith hnot
    have hlt := length_lt_of_eq_cons htokens
    rw [htokens, bare_readUnary_not] at h
    rw [htokens]
    rcases bind_eq_error.1 h with harg | ⟨arg, harg, h⟩
    · exact (begins_of_readUnary harg).part [sign.1] rfl (.not sign) fun tree => List.prefix_rfl
    · cases h
  by_cases hquantifier : ∃ q, startsWith (.quantifier q) tokens = true
  · obtain ⟨q, hq⟩ := hquantifier
    obtain ⟨sign, rest, htokens⟩ := exists_of_startsWith hq
    have hlt := length_lt_of_eq_cons htokens
    rw [htokens, bare_readUnary_quantifier] at h
    rw [htokens]
    rcases bind_eq_error.1 h with hx | ⟨⟨token, rest₁⟩, hx, h⟩
    · rw [rest_of_readToken hx]
      exact ⟨.quant q sign (leaf .name "x") .noDot (.atom sampleAtom), [sign.1], rfl, by simp⟩
    have hlt₁ := length_lt_of_bare hx
    obtain ⟨x, rfl, hrest⟩ := exists_of_bare_readToken hx
    rcases bind_eq_error.1 h with hdot | ⟨⟨_, rest₂⟩, hdot, h⟩
    · -- a dot that is not there is no error
      rw [bare_readOptionalDot] at hdot
      obtain ⟨_, _, -, hdot⟩ := exists_of_optional hdot
      cases hdot
    have hlt₂ := length_lt_of_bare hdot
    obtain ⟨dot, -, hrest₁⟩ := derives_of_readOptionalDot hdot
    rcases bind_eq_error.1 h with hscope | ⟨scope, hscope, h⟩
    · rw [← hrest]
      exact (begins_of_readUnary hscope).part (sign.1 :: x.1 :: dot.tokens)
        (congrArg (sign.1 :: x.1 :: ·) hrest₁) (.quant q sign x dot)
        fun tree => List.prefix_rfl
    · cases h
  · rw [readUnary_eq_readAtom (by simpa using hnot) (by simpa using hquantifier)] at h
    exact (begins_of_readAtom h).part [] rfl .atom fun tree => List.prefix_rfl
termination_by (tokens.length, 1)

theorem begins_of_readAtom {tokens : List Token} {e : SyntaxError}
    (h : bare (readAtom tokens) = .error e) : Begins (.formula .atom) tokens e.rest := by
  by_cases hname : startsWith .name tokens = true
  · obtain ⟨name, rest, htokens⟩ := exists_of_startsWith hname
    rw [htokens, bare_readAtom_name] at h
    rw [htokens]
    rcases bind_eq_error.1 h with hargs | ⟨⟨_, rest₁⟩, hargs, h⟩
    · exact (begins_of_readOptionalArguments hargs).part [name.1] rfl (.pred name)
        fun tree => List.prefix_rfl
    obtain ⟨args, -, hrest⟩ := derives_of_readOptionalArguments hargs
    obtain ⟨sign, rest₂, hrest₁, h⟩ := exists_of_optional h
    dsimp only at hrest hrest₁
    rw [hrest₁, List.append_cons] at hrest
    rcases bind_eq_error.1 h with hrhs | ⟨rhs, hrhs, h⟩
    · exact (begins_of_readTerm hrhs).part (name.1 :: (args.tokens ++ [sign.1]))
        (congrArg (name.1 :: ·) hrest) (.equation name args sign) fun tree => ⟨[], by simp⟩
    · cases h
  by_cases hparen : startsWith .leftParen tokens = true
  · obtain ⟨left, rest, htokens⟩ := exists_of_startsWith hparen
    have hlt := length_lt_of_eq_cons htokens
    rw [htokens, bare_readAtom_leftParen] at h
    rw [htokens]
    rcases bind_eq_error.1 h with hinner | ⟨⟨_, rest₁⟩, hinner, h⟩
    · exact (begins_of_readChain hinner).part [left.1] rfl
        (fun tree => .parens left tree (leaf .rightParen ")"))
        fun tree => ⟨[(leaf .rightParen ")").1], by simp⟩
    obtain ⟨inner, -, hrest⟩ := derives_of_readChain hinner
    rcases bind_eq_error.1 h with hright | ⟨right, hright, h⟩
    · rw [rest_of_readToken hright]
      refine ⟨.parens left inner (leaf .rightParen ")"), left.1 :: inner.tokens, ?_,
        ⟨[(leaf .rightParen ")").1], by simp⟩⟩
      rw [List.cons_append, hrest]
    · cases h
  · rw [readAtom_eq_error (by simpa using hname) (by simpa using hparen)] at h
    cases h
    exact .refl sampleAtom tokens
termination_by (tokens.length, 0)

end

/-! ### The position of an error -/

/-- The tokens are those of a formula. -/
def IsFormula (ts : List Token) : Prop :=
  ∃ tree : DerivationTree (.formula (.chain .iff)), tree.tokens = ts

/-- The tokens are those at the beginning of a formula. -/
def IsViable (ts : List Token) : Prop :=
  ∃ tree : DerivationTree (.formula (.chain .iff)), ts <+: tree.tokens

theorem isFormula_iff {ts : List Token} : IsFormula ts ↔ ∃ f, readAll ts = .ok f := by
  constructor
  · rintro ⟨tree, rfl⟩
    exact ⟨tree.value, readAll_eq_ok_iff_derives.2 ⟨tree, rfl, List.append_nil _⟩⟩
  · rintro ⟨f, h⟩
    obtain ⟨tree, -, htokens⟩ := readAll_eq_ok_iff_derives.1 h
    exact ⟨tree, by rw [← htokens, List.append_nil]⟩

theorem IsFormula.isViable {ts : List Token} (h : IsFormula ts) : IsViable ts := by
  obtain ⟨tree, rfl⟩ := h
  exact ⟨tree, List.prefix_rfl⟩

/-- All tokens are read if a formula is and leaves none. -/
theorem readAll_eq_bind (ts : List Token) :
    readAll ts = bare (readChain .iff ts) >>= fun parsed =>
      if parsed.2.isEmpty then .ok parsed.1 else .error (.trailing parsed.2) := by
  rw [readAll, readFormula]
  cases readChain .iff ts with
  | error e => rfl
  | ok parsed => rfl

/-- If no formula goes on with a token, the token does not belong to the beginning of one. -/
theorem not_isViable_append {front tail : List Token} {token : Token}
    (h : ∀ rest, rest ≠ [] → StartsLike (token :: tail) rest → ¬ IsFormula (front ++ rest)) :
    ¬ IsViable (front ++ [token]) := by
  rintro ⟨tree, more, htokens⟩
  refine h (token :: more) (by simp) (fun _ htoken => htoken) ⟨tree, ?_⟩
  rw [← htokens, List.append_assoc, List.singleton_append]

/-- If a token is not expected, what is in front of it begins a formula and is none, and it does not
matter what is behind the token. -/
theorem exists_of_unexpected {ts : List Token} {e : SyntaxError}
    (h : bare (readChain .iff ts) = .error e) :
    ∃ front expected, front ++ e.rest = ts ∧ e = .unexpected expected e.rest ∧ IsViable front ∧
      ∀ rest, StartsLike e.rest rest → ¬ IsFormula (front ++ rest) := by
  obtain ⟨expected, left, rfl⟩ := unexpected_readChain .iff ts e (bare_eq_error.1 h)
  obtain ⟨front, hfront, hread⟩ := (isLocal_readChain .iff ts).exists_of_error h
  obtain ⟨tree, front', hfront', hviable⟩ := begins_of_readChain h
  obtain rfl : front' = front := List.append_cancel_right (hfront'.trans hfront.symm)
  refine ⟨front', expected, hfront', rfl, ⟨tree, hviable⟩, fun rest hrest hformula => ?_⟩
  obtain ⟨f, hf⟩ := isFormula_iff.1 hformula
  rw [readAll_eq_bind, hread rest hrest] at hf
  cases hf

/-- If a formula leaves tokens, these do not make it longer, and neither do others that start like
them. -/
theorem exists_of_left {ts left : List Token} {f : Formula}
    (h : bare (readChain .iff ts) = .ok (f, left)) :
    ∃ front, front ++ left = ts ∧ IsFormula front ∧
      ∀ rest, rest ≠ [] → StartsLike left rest → ¬ IsFormula (front ++ rest) := by
  obtain ⟨front, hfront, hread⟩ := (isLocal_readChain .iff ts).exists_of_ok h
  obtain ⟨tree, -, htokens⟩ := derives_of_readChain h
  have htree : tree.tokens = front := List.append_cancel_right (htokens.trans hfront.symm)
  refine ⟨front, hfront, ⟨tree, htree⟩, fun rest hne hrest hformula => ?_⟩
  obtain ⟨f', hf⟩ := isFormula_iff.1 hformula
  have hempty : ¬ rest.isEmpty = true := by simpa using hne
  rw [readAll_eq_bind, hread rest hrest, ok_bind, if_neg hempty] at hf
  cases hf

/-- The tokens in front of an error are the longest beginning of a formula, and they tell which
error it is. -/
theorem exists_of_readAll_eq_error {ts : List Token} {e : SyntaxError}
    (h : readAll ts = .error e) :
    ∃ front, front ++ e.rest = ts ∧ IsViable front ∧
      (∀ token tail, e.rest = token :: tail → ¬ IsViable (front ++ [token])) ∧
      ((IsFormula front ∧ e.rest ≠ [] ∧ e = .trailing e.rest) ∨
        (¬ IsFormula front ∧ ∃ expected, e = .unexpected expected e.rest)) := by
  rw [readAll_eq_bind] at h
  rcases bind_eq_error.1 h with houtcome | ⟨⟨f, left⟩, houtcome, h⟩
  · obtain ⟨front, expected, hfront, he, hviable, hlocal⟩ := exists_of_unexpected houtcome
    have hformula : ¬ IsFormula front := by
      have hend := hlocal [] (fun _ htoken => absurd htoken (by simp))
      rwa [List.append_nil] at hend
    refine ⟨front, hfront, hviable, fun token tail hleft => ?_, Or.inr ⟨hformula, expected, he⟩⟩
    rw [hleft] at hlocal
    exact not_isViable_append fun rest _ => hlocal rest
  · obtain ⟨front, hfront, hformula, hlocal⟩ := exists_of_left houtcome
    dsimp only at h
    split at h
    · cases h
    · rename_i hne
      cases h
      have hleft : left ≠ [] := by simpa using hne
      refine ⟨front, hfront, hformula.isViable, fun token tail hleft => ?_,
        Or.inl ⟨hformula, hleft, rfl⟩⟩
      obtain rfl : left = token :: tail := hleft
      exact not_isViable_append hlocal

/-- After an error the cursor is behind the tokens in front of it. -/
theorem eq_of_readWhole_eq_error {ts : List Token} {e : SyntaxError} {c : Cursor}
    (h : (Cursor.start ts).read .whole = (.error e, c)) :
    readAll ts = .error e ∧ c = ⟨ts, e.rest⟩ := by
  rw [Cursor.read, Cursor.readWhole] at h
  split at h
  · cases h
  · rename_i e' hread
    cases h
    exact ⟨hread, rfl⟩

/-- **Errors are reported at the first token that cannot be continued.** What is in front of the
position is the beginning of a formula, and together with the token at the position it is not. The
tokens from the position on are reported as trailing if they are left behind a formula, and
otherwise the first of them, or the end, is reported as not expected. -/
theorem readWhole_error {ts : List Token} {e : SyntaxError} {c : Cursor}
    (h : (Cursor.start ts).read .whole = (.error e, c)) :
    c.position ≤ ts.length ∧ IsViable (ts.take c.position) ∧
      (c.position < ts.length → ¬ IsViable (ts.take (c.position + 1))) ∧
      (IsFormula (ts.take c.position) ∧ c.position < ts.length →
        e = .trailing (ts.drop c.position)) ∧
      (¬ (IsFormula (ts.take c.position) ∧ c.position < ts.length) →
        ∃ expected, e = .unexpected expected (ts.drop c.position)) ∧
      SyntaxError.foundLabel (ts.drop c.position)
        = (ts[c.position]?.map fun token => token.kind.label).getD "EOF" := by
  obtain ⟨hread, rfl⟩ := eq_of_readWhole_eq_error h
  obtain ⟨front, rfl, hviable, hmaximal, hkind⟩ := exists_of_readAll_eq_error hread
  have hposition : (Cursor.mk (front ++ e.rest) e.rest).position = front.length := by
    simp [Cursor.position]
  have hlt : front.length < (front ++ e.rest).length ↔ e.rest ≠ [] := by
    simp [List.length_pos_iff]
  have hnext : (front ++ e.rest)[front.length]? = e.rest.head? := by
    rw [List.getElem?_append_right (Nat.le_refl _), Nat.sub_self, List.head?_eq_getElem?]
  rw [hposition, List.take_left, List.drop_left, hlt, hnext]
  refine ⟨by simp, hviable, ?_, ?_, ?_, ?_⟩
  · intro hleft
    obtain ⟨token, tail, hrest⟩ := List.exists_cons_of_ne_nil hleft
    have htake : (front ++ e.rest).take (front.length + 1) = front ++ [token] := by
      rw [hrest, List.append_cons]
      exact List.take_left' List.length_append
    rw [htake]
    exact hmaximal token tail hrest
  · rintro ⟨hformula, -⟩
    rcases hkind with ⟨-, -, htrailing⟩ | ⟨hnot, -⟩
    · exact htrailing
    · exact absurd hformula hnot
  · intro hnot
    rcases hkind with ⟨hformula, hleft, -⟩ | ⟨-, hunexpected⟩
    · exact absurd ⟨hformula, hleft⟩ hnot
    · exact hunexpected
  · cases e.rest <;> rfl

/-- The tokens of `∃x. (P(x) ∧ f(y) = x B`, with a name where the parenthesis could be closed. -/
def unclosedTokens : List Token :=
  [⟨.quantifier .existential, "∃", 0⟩, ⟨.name, "x", 1⟩, ⟨.dot, ".", 2⟩, ⟨.leftParen, "(", 4⟩,
    ⟨.name, "P", 5⟩, ⟨.leftParen, "(", 6⟩, ⟨.name, "x", 7⟩, ⟨.rightParen, ")", 8⟩,
    ⟨.connective .and, "∧", 10⟩, ⟨.name, "f", 12⟩, ⟨.leftParen, "(", 13⟩, ⟨.name, "y", 14⟩,
    ⟨.rightParen, ")", 15⟩, ⟨.equals, "=", 17⟩, ⟨.name, "x", 19⟩, ⟨.name, "B", 21⟩]

/-- The tokens of `P(x)) Q`. -/
def closedTwiceTokens : List Token :=
  [⟨.name, "P", 0⟩, ⟨.leftParen, "(", 1⟩, ⟨.name, "x", 2⟩, ⟨.rightParen, ")", 3⟩,
    ⟨.rightParen, ")", 4⟩, ⟨.name, "Q", 6⟩]

theorem readWhole_error_samples :
    ((Cursor.start unclosedTokens).read .whole
        = (.error (.unexpected (.token .rightParen) [⟨.name, "B", 21⟩]),
          ⟨unclosedTokens, [⟨.name, "B", 21⟩]⟩) ∧
      IsViable (unclosedTokens.take 15) ∧ ¬ IsViable unclosedTokens ∧
      ¬ IsFormula (unclosedTokens.take 15)) ∧
    ((Cursor.start closedTwiceTokens).read .whole
        = (.error (.trailing [⟨.rightParen, ")", 4⟩, ⟨.name, "Q", 6⟩]),
          ⟨closedTwiceTokens, [⟨.rightParen, ")", 4⟩, ⟨.name, "Q", 6⟩]⟩) ∧
      IsFormula (closedTwiceTokens.take 4) ∧ ¬ IsViable (closedTwiceTokens.take 5)) := by
  have hunclosed : (Cursor.start unclosedTokens).read .whole
      = (.error (.unexpected (.token .rightParen) [⟨.name, "B", 21⟩]),
        ⟨unclosedTokens, [⟨.name, "B", 21⟩]⟩) := by cbv
  have hclosed : (Cursor.start closedTwiceTokens).read .whole
      = (.error (.trailing [⟨.rightParen, ")", 4⟩, ⟨.name, "Q", 6⟩]),
        ⟨closedTwiceTokens, [⟨.rightParen, ")", 4⟩, ⟨.name, "Q", 6⟩]⟩) := by cbv
  obtain ⟨-, hviable, hmaximal, htrailing, -, -⟩ := readWhole_error hunclosed
  obtain ⟨-, -, hmaximal', -, hunexpected, -⟩ := readWhole_error hclosed
  refine ⟨⟨hunclosed, hviable, hmaximal (by decide), fun h => ?_⟩, hclosed, ?_,
    hmaximal' (by decide)⟩
  · exact absurd (htrailing ⟨h, by decide⟩) (by simp)
  · refine Classical.byContradiction fun h => ?_
    obtain ⟨expected, he⟩ := hunexpected fun hformula => h hformula.1
    cases he

end LogicForms.Surface
