import LogicForms.Proofs.Reading
import LogicForms.Proofs.Unambiguity

/-!
# The reader accepts exactly the grammar

A derivation tree in front of tokens that stop it is read as what it stands for
(`DerivationTree.readsAs`, by induction on the tree). Conversely, all that is read comes from a
tree (`derives_of_readChain` and its companions, which recur like the reader). For all tokens
together this is `readAll_exact`.
-/

set_option autoImplicit false

namespace LogicForms.Surface

/-! ### All that is derived is read -/

/-- The reader reads a value of the symbol from the tokens and leaves `rest`. Further operands are
read behind a formula and put to it. -/
def ReadsAs : (s : GrammarSymbol) → s.Value → List Token → List Token → Prop
  | .formula (.chain op), f, tokens, rest => bare (readChain op tokens) = .ok (f, rest)
  | .formula .unary, f, tokens, rest => bare (readUnary tokens) = .ok (f, rest)
  | .formula .atom, f, tokens, rest => bare (readAtom tokens) = .ok (f, rest)
  | .moreOperands op, gs, tokens, rest =>
    ∀ f, bare (readChainTail op f tokens) = .ok (List.foldl (Formula.binary op) f gs, rest)
  | .optionalDot, u, tokens, rest => bare (readOptionalDot tokens) = .ok (u, rest)
  | .term, t, tokens, rest => bare (readTerm tokens) = .ok (t, rest)
  | .termLike, t, tokens, rest => bare (readTermLike tokens) = .ok (t, rest)
  | .optionalArguments, args, tokens, rest =>
    bare (readOptionalArguments tokens) = .ok (args, rest)
  | .arguments, ts, tokens, rest => bare (readArguments tokens) = .ok (ts, rest)
  | .moreArguments, ts, tokens, rest => bare (readMoreArguments tokens) = .ok (ts, rest)

/-- The operands of a connective are read on the next tighter level. -/
theorem readsAs_operandLevel_iff {op : Connective} {f : Formula} {tokens rest : List Token} :
    ReadsAs (.formula (operandLevel op)) f tokens rest ↔
      bare (readOperand op tokens) = .ok (f, rest) := by
  cases op <;> rw [readOperand] <;> rfl

namespace DerivationTree

/-- A tree in front of tokens that stop it is read as what it stands for, and these tokens are
left. -/
theorem readsAs {s : GrammarSymbol} (tree : DerivationTree s) {rest : List Token}
    (h : Stops s rest) : ReadsAs s tree.value (tree.tokens ++ rest) rest := by
  induction tree generalizing rest with
  | chain op first more ihfirst ihmore =>
    -- the first operand stops at the connective behind it, or at the end of the chain
    have hfirst := readsAs_operandLevel_iff.1 (ihfirst (stops_operand more h))
    change bare (readChain op (first.tokens ++ more.tokens ++ rest)) = .ok (_, rest)
    rw [List.append_assoc, bare_readChain, hfirst, ok_bind]
    exact ihmore h first.value
  | noOperands op =>
    intro f
    have hop : startsWith (.connective op) rest = false := h.startsWith (isContinuedBy_self op)
    rw [tokens, List.nil_append, bare_readChainTail, hop]
    rfl
  | operand op sign next more ihnext ihmore =>
    intro f
    have hnext := readsAs_operandLevel_iff.1 (ihnext (stops_operand more h))
    rw [tokens, List.cons_append, List.append_assoc, bare_readChainTail, startsWith_self,
      if_pos rfl, bare_readToken_cons, ok_bind, hnext, ok_bind]
    exact ihmore h (.binary op f next.value)
  | not sign arg ih =>
    have harg : bare (readUnary (arg.tokens ++ rest)) = .ok (arg.value, rest) := ih h
    simp only [ReadsAs, tokens, List.cons_append, bare_readUnary_not, harg, ok_bind]
    rfl
  | quant q sign x dot scope ihdot ihscope =>
    have hdot : bare (readOptionalDot (dot.tokens ++ (scope.tokens ++ rest)))
        = .ok (dot.value, scope.tokens ++ rest) := ihdot (stops_dot scope)
    have hscope : bare (readUnary (scope.tokens ++ rest)) = .ok (scope.value, rest) := ihscope h
    simp only [ReadsAs, tokens, List.cons_append, List.append_assoc, bare_readUnary_quantifier,
      bare_readToken_cons, hdot, hscope, ok_bind]
    rfl
  | atom a ih =>
    have ha : bare (readAtom (a.tokens ++ rest)) = .ok (a.value, rest) := ih h
    -- the first token shows that neither a negation nor a quantifier is read
    obtain ⟨token, tail, htokens, hkind⟩ := a.exists_tokens_atom
    have hother (kind : TokenKind) (hname : .name ≠ kind) (hparen : .leftParen ≠ kind) :
        startsWith kind (a.tokens ++ rest) = false := by
      rw [htokens, List.cons_append, startsWith_cons]
      rcases hkind with hkind | hkind
      · rw [hkind]
        exact beq_false_of_ne hname
      · rw [hkind]
        exact beq_false_of_ne hparen
    have hnot : startsWith .not (a.tokens ++ rest) = false := hother _ (by simp) (by simp)
    have hquantifier (q : Quantifier) : startsWith (.quantifier q) (a.tokens ++ rest) = false :=
      hother _ (by simp) (by simp)
    simp only [ReadsAs, tokens, readUnary_eq_readAtom hnot hquantifier, ha]
    rfl
  | noDot =>
    have hdot : startsWith .dot rest = false := h.startsWith rfl
    simp only [ReadsAs, tokens, List.nil_append, bare_readOptionalDot, hdot]
    rfl
  | someDot sign =>
    simp only [ReadsAs, tokens, List.cons_append, List.nil_append, bare_readOptionalDot,
      startsWith_self, if_true, bare_readToken_cons, ok_bind]
    rfl
  | pred name args ih =>
    have hargs : bare (readOptionalArguments (args.tokens ++ rest)) = .ok (args.value, rest) :=
      ih (stops_term_of_atom h)
    have hequals : startsWith .equals rest = false := h.startsWith rfl
    simp only [ReadsAs, tokens, List.cons_append, bare_readAtom_name, hargs, ok_bind, hequals]
    rfl
  | equation name args sign rhs ihargs ihrhs =>
    have hargs : bare (readOptionalArguments (args.tokens ++ (sign.1 :: (rhs.tokens ++ rest))))
        = .ok (args.value, sign.1 :: (rhs.tokens ++ rest)) := ihargs (stops_cons sign rfl)
    have hrhs : bare (readTerm (rhs.tokens ++ rest)) = .ok (rhs.value, rest) :=
      ihrhs (stops_term_of_atom h)
    rw [ReadsAs, tokens, List.cons_append, List.append_assoc, List.cons_append, bare_readAtom_name,
      hargs, ok_bind, startsWith_self, if_pos rfl, bare_readToken_cons, ok_bind, hrhs]
    rfl
  | parens left inner right ih =>
    have hinner : bare (readChain .iff (inner.tokens ++ (right.1 :: rest)))
        = .ok (inner.value, right.1 :: rest) := ih (stops_cons right rfl)
    rw [ReadsAs, tokens, List.cons_append, List.append_assoc, List.cons_append, List.nil_append,
      bare_readAtom_leftParen, hinner, ok_bind, bare_readToken_cons]
    rfl
  | term name args ih =>
    have hargs : bare (readOptionalArguments (args.tokens ++ rest)) = .ok (args.value, rest) :=
      ih h
    simp only [ReadsAs, tokens, List.cons_append, bare_readTerm, bare_readToken_cons, ok_bind,
      hargs]
    rfl
  | plain t ih =>
    have ht : bare (readTerm (t.tokens ++ rest)) = .ok (t.value, rest) :=
      ih (stops_term_of_termLike h)
    have hequals : startsWith .equals rest = false := h.startsWith rfl
    simp only [ReadsAs, tokens, bare_readTermLike, ht, ok_bind, hequals]
    rfl
  | termEquation lhs sign rhs ihlhs ihrhs =>
    have hlhs : bare (readTerm (lhs.tokens ++ (sign.1 :: (rhs.tokens ++ rest))))
        = .ok (lhs.value, sign.1 :: (rhs.tokens ++ rest)) := ihlhs (stops_cons sign rfl)
    have hrhs : bare (readTerm (rhs.tokens ++ rest)) = .ok (rhs.value, rest) :=
      ihrhs (stops_term_of_termLike h)
    rw [ReadsAs, tokens, List.append_assoc, List.cons_append, bare_readTermLike, hlhs, ok_bind,
      startsWith_self, if_pos rfl, bare_readToken_cons, ok_bind, hrhs]
    rfl
  | noArguments =>
    have hparen : startsWith .leftParen rest = false := h.startsWith rfl
    simp only [ReadsAs, tokens, List.nil_append, bare_readOptionalArguments, hparen]
    rfl
  | someArguments args ih =>
    -- nothing continues an argument list that is closed
    have hargs : bare (readArguments (args.tokens ++ rest)) = .ok (args.value, rest) :=
      ih fun _ _ => rfl
    obtain ⟨left, tail, htokens⟩ := args.exists_tokens_arguments
    have hparen : startsWith .leftParen (args.tokens ++ rest) = true := by
      rw [htokens, List.cons_append, startsWith_self]
    simp only [ReadsAs, tokens, bare_readOptionalArguments, hparen, if_true, hargs, ok_bind]
    rfl
  | emptyArguments left right =>
    simp only [ReadsAs, tokens, List.cons_append, List.nil_append, bare_readArguments,
      bare_readToken_cons, ok_bind, startsWith_self, if_true]
    rfl
  | arguments left first more right ihfirst ihmore =>
    have hright : Stops .moreArguments (right.1 :: rest) := stops_cons right rfl
    have hfirst : bare (readTermLike (first.tokens ++ (more.tokens ++ (right.1 :: rest))))
        = .ok (first.value, more.tokens ++ (right.1 :: rest)) :=
      ihfirst (stops_argument more hright)
    have hmore : bare (readMoreArguments (more.tokens ++ (right.1 :: rest)))
        = .ok (more.value, right.1 :: rest) := ihmore hright
    -- an argument starts with a name, so that the list is not taken for the empty one
    obtain ⟨name, tail, htokens⟩ := first.exists_tokens_termLike
    have hparen : startsWith .rightParen (first.tokens ++ (more.tokens ++ (right.1 :: rest)))
        = false := by
      rw [htokens, List.cons_append, startsWith_cons, name.2]
      rfl
    simp only [ReadsAs, tokens, List.cons_append, List.nil_append, List.append_assoc,
      bare_readArguments, bare_readToken_cons, ok_bind, hparen, hfirst, hmore]
    rfl
  | noMoreArguments =>
    have hcomma : startsWith .comma rest = false := h.startsWith rfl
    rw [ReadsAs, tokens, List.nil_append, bare_readMoreArguments, hcomma]
    rfl
  | argument comma next more ihnext ihmore =>
    have hnext : bare (readTermLike (next.tokens ++ (more.tokens ++ rest)))
        = .ok (next.value, more.tokens ++ rest) := ihnext (stops_argument more h)
    have hmore : bare (readMoreArguments (more.tokens ++ rest)) = .ok (more.value, rest) := ihmore h
    rw [ReadsAs, tokens, List.cons_append, bare_readMoreArguments, startsWith_self, if_pos rfl,
      bare_readToken_cons, ok_bind, List.append_assoc, hnext, ok_bind, hmore]
    rfl

end DerivationTree

/-! ### All that is read is derived -/

/-- A tree with the symbol at its root stands for the value, and its tokens are in front of `rest`.
-/
def Derives (s : GrammarSymbol) (v : s.Value) (tokens rest : List Token) : Prop :=
  ∃ tree : DerivationTree s, tree.value = v ∧ tree.tokens ++ rest = tokens

/-- A token that is read is a leaf. -/
theorem exists_of_bare_readToken {kind : TokenKind} {tokens rest : List Token} {token : Token}
    (h : bare (readToken kind tokens) = .ok (token, rest)) :
    ∃ leaf : TokenOf kind, leaf.1 = token ∧ leaf.1 :: rest = tokens := by
  obtain ⟨htokens, hkind⟩ := bare_readToken_eq_ok h
  exact ⟨⟨token, hkind⟩, rfl, htokens.symm⟩

-- The theorems recur like the functions of the reader: each call inside is on fewer tokens, or on
-- the same tokens in a function that comes later.

mutual

/-- A term that is read is derived. -/
theorem derives_of_readTerm {tokens rest : List Token} {t : Term}
    (h : bare (readTerm tokens) = .ok (t, rest)) : Derives .term t tokens rest := by
  rw [bare_readTerm] at h
  obtain ⟨⟨token, rest₁⟩, htoken, h⟩ := bind_eq_ok.1 h
  obtain ⟨⟨args, rest₂⟩, hargs, h⟩ := bind_eq_ok.1 h
  have hlt := length_lt_of_bare htoken
  obtain ⟨name, rfl, htokens⟩ := exists_of_bare_readToken htoken
  obtain ⟨tree, rfl, htree⟩ := derives_of_readOptionalArguments hargs
  cases h
  refine ⟨.term name tree, rfl, ?_⟩
  rw [DerivationTree.tokens, List.cons_append, htree, htokens]
termination_by (tokens.length, 0)

/-- An argument list that is read, or missed, is derived. -/
theorem derives_of_readOptionalArguments {tokens rest : List Token} {args : Option (List Term)}
    (h : bare (readOptionalArguments tokens) = .ok (args, rest)) :
    Derives .optionalArguments args tokens rest := by
  rw [bare_readOptionalArguments] at h
  split at h
  · obtain ⟨⟨ts, rest₁⟩, hts, h⟩ := bind_eq_ok.1 h
    obtain ⟨tree, rfl, htree⟩ := derives_of_readArguments hts
    cases h
    exact ⟨.someArguments tree, rfl, htree⟩
  · cases h
    exact ⟨.noArguments, rfl, rfl⟩
termination_by (tokens.length, 1)

/-- An argument list that is read is derived, with or without arguments in it. -/
theorem derives_of_readArguments {tokens rest : List Token} {ts : List Term}
    (h : bare (readArguments tokens) = .ok (ts, rest)) : Derives .arguments ts tokens rest := by
  rw [bare_readArguments] at h
  obtain ⟨⟨token, inner⟩, htoken, h⟩ := bind_eq_ok.1 h
  have hlt := length_lt_of_bare htoken
  obtain ⟨left, rfl, htokens⟩ := exists_of_bare_readToken htoken
  dsimp only at h
  split at h
  · obtain ⟨⟨token', rest₁⟩, htoken', h⟩ := bind_eq_ok.1 h
    obtain ⟨right, rfl, hinner⟩ := exists_of_bare_readToken htoken'
    cases h
    refine ⟨.emptyArguments left right, rfl, ?_⟩
    rw [DerivationTree.tokens, ← htokens, ← hinner]
    rfl
  · obtain ⟨⟨first, rest₁⟩, hfirst, h⟩ := bind_eq_ok.1 h
    obtain ⟨⟨others, rest₂⟩, hothers, h⟩ := bind_eq_ok.1 h
    obtain ⟨⟨token', rest₃⟩, htoken', h⟩ := bind_eq_ok.1 h
    have hlt₁ := length_lt_of_bare hfirst
    obtain ⟨tree, rfl, htree⟩ := derives_of_readTermLike hfirst
    obtain ⟨more, rfl, hmore⟩ := derives_of_readMoreArguments hothers
    obtain ⟨right, rfl, hrest₂⟩ := exists_of_bare_readToken htoken'
    cases h
    refine ⟨.arguments left tree more right, rfl, ?_⟩
    dsimp only at htree hmore hrest₂
    rw [DerivationTree.tokens, List.cons_append, List.append_assoc, List.append_assoc,
      List.cons_append, List.nil_append, hrest₂, hmore, htree, htokens]
termination_by (tokens.length, 0)

/-- The arguments that are read behind commas are derived. -/
theorem derives_of_readMoreArguments {tokens rest : List Token} {ts : List Term}
    (h : bare (readMoreArguments tokens) = .ok (ts, rest)) :
    Derives .moreArguments ts tokens rest := by
  rw [bare_readMoreArguments] at h
  split at h
  · obtain ⟨⟨token, rest₁⟩, htoken, h⟩ := bind_eq_ok.1 h
    obtain ⟨⟨next, rest₂⟩, hnext, h⟩ := bind_eq_ok.1 h
    obtain ⟨⟨others, rest₃⟩, hothers, h⟩ := bind_eq_ok.1 h
    have hlt := length_lt_of_bare htoken
    have hlt₁ := length_lt_of_bare hnext
    obtain ⟨comma, rfl, htokens⟩ := exists_of_bare_readToken htoken
    obtain ⟨tree, rfl, htree⟩ := derives_of_readTermLike hnext
    obtain ⟨more, rfl, hmore⟩ := derives_of_readMoreArguments hothers
    cases h
    refine ⟨.argument comma tree more, rfl, ?_⟩
    dsimp only at htree hmore
    rw [DerivationTree.tokens, List.cons_append, List.append_assoc, hmore, htree, htokens]
  · cases h
    exact ⟨.noMoreArguments, rfl, rfl⟩
termination_by (tokens.length, 0)

/-- An argument that is read is derived, be it a term or an equation. -/
theorem derives_of_readTermLike {tokens rest : List Token} {t : Term}
    (h : bare (readTermLike tokens) = .ok (t, rest)) : Derives .termLike t tokens rest := by
  rw [bare_readTermLike] at h
  obtain ⟨⟨lhs, rest₁⟩, hlhs, h⟩ := bind_eq_ok.1 h
  have hlt := length_lt_of_bare hlhs
  obtain ⟨tree, rfl, htree⟩ := derives_of_readTerm hlhs
  dsimp only at h
  split at h
  · obtain ⟨⟨token, rest₂⟩, htoken, h⟩ := bind_eq_ok.1 h
    obtain ⟨⟨rhs, rest₃⟩, hrhs, h⟩ := bind_eq_ok.1 h
    have hlt₁ := length_lt_of_bare htoken
    obtain ⟨sign, rfl, hrest₁⟩ := exists_of_bare_readToken htoken
    obtain ⟨right, rfl, hright⟩ := derives_of_readTerm hrhs
    cases h
    refine ⟨.termEquation tree sign right, rfl, ?_⟩
    dsimp only at hright
    rw [DerivationTree.tokens, List.append_assoc, List.cons_append, hright, hrest₁, htree]
  · cases h
    exact ⟨.plain tree, rfl, htree⟩
termination_by (tokens.length, 1)

end

/-- A dot that is read, or missed, is derived. -/
theorem derives_of_readOptionalDot {tokens rest : List Token} {u : Unit}
    (h : bare (readOptionalDot tokens) = .ok (u, rest)) : Derives .optionalDot u tokens rest := by
  rw [bare_readOptionalDot] at h
  split at h
  · obtain ⟨⟨token, rest₁⟩, htoken, h⟩ := bind_eq_ok.1 h
    obtain ⟨sign, rfl, htokens⟩ := exists_of_bare_readToken htoken
    cases h
    exact ⟨.someDot sign, rfl, htokens⟩
  · cases h
    exact ⟨.noDot, rfl, rfl⟩

mutual

/-- Operands that are read with their connective in between are derived. -/
theorem derives_of_readChain {op : Connective} {tokens rest : List Token} {f : Formula}
    (h : bare (readChain op tokens) = .ok (f, rest)) :
    Derives (.formula (.chain op)) f tokens rest := by
  rw [bare_readChain] at h
  obtain ⟨⟨g, rest₁⟩, hfirst, htail⟩ := bind_eq_ok.1 h
  have hlt := length_lt_of_bare hfirst
  obtain ⟨first, rfl, htokens⟩ := derives_of_readOperand hfirst
  obtain ⟨more, rfl, hmore⟩ := exists_of_readChainTail htail
  refine ⟨.chain op first more, rfl, ?_⟩
  dsimp only at hmore
  rw [DerivationTree.tokens, List.append_assoc, hmore, htokens]
termination_by (tokens.length, 2 * level op + 3)

/-- An operand that is read is derived on the next tighter level. -/
theorem derives_of_readOperand {op : Connective} {tokens rest : List Token} {f : Formula}
    (h : bare (readOperand op tokens) = .ok (f, rest)) :
    Derives (.formula (operandLevel op)) f tokens rest := by
  match op, h with
  | .iff, h =>
    rw [readOperand] at h
    exact derives_of_readChain h
  | .implies, h =>
    rw [readOperand] at h
    exact derives_of_readChain h
  | .or, h =>
    rw [readOperand] at h
    exact derives_of_readChain h
  | .and, h =>
    rw [readOperand] at h
    exact derives_of_readUnary h
termination_by (tokens.length, 2 * level op + 2)
decreasing_by all_goals (simp [Prod.lex_def, level])

/-- What is read behind `g` is put to it operand by operand. -/
theorem exists_of_readChainTail {op : Connective} {g f : Formula} {tokens rest : List Token}
    (h : bare (readChainTail op g tokens) = .ok (f, rest)) :
    ∃ more : DerivationTree (.moreOperands op),
      List.foldl (Formula.binary op) g more.value = f ∧ more.tokens ++ rest = tokens := by
  rw [bare_readChainTail] at h
  split at h
  · obtain ⟨⟨token, rest₁⟩, htoken, h⟩ := bind_eq_ok.1 h
    obtain ⟨⟨next, rest₂⟩, hnext, htail⟩ := bind_eq_ok.1 h
    have hlt := length_lt_of_bare htoken
    have hlt₁ := length_lt_of_bare hnext
    obtain ⟨sign, rfl, htokens⟩ := exists_of_bare_readToken htoken
    obtain ⟨tree, rfl, htree⟩ := derives_of_readOperand hnext
    obtain ⟨more, rfl, hmore⟩ := exists_of_readChainTail htail
    refine ⟨.operand op sign tree more, rfl, ?_⟩
    dsimp only at htree hmore
    rw [DerivationTree.tokens, List.cons_append, List.append_assoc, hmore, htree, htokens]
  · cases h
    exact ⟨.noOperands op, rfl, rfl⟩
termination_by (tokens.length, 0)

/-- A unary formula that is read is derived. -/
theorem derives_of_readUnary {tokens rest : List Token} {f : Formula}
    (h : bare (readUnary tokens) = .ok (f, rest)) : Derives (.formula .unary) f tokens rest := by
  -- the reader decides by the first token, and so does the proof
  by_cases hnot : startsWith .not tokens = true
  · obtain ⟨sign, rest₁, rfl⟩ := exists_of_startsWith hnot
    rw [bare_readUnary_not] at h
    obtain ⟨⟨arg, rest₂⟩, harg, h⟩ := bind_eq_ok.1 h
    obtain ⟨tree, rfl, htree⟩ := derives_of_readUnary harg
    cases h
    refine ⟨.not sign tree, rfl, ?_⟩
    rw [DerivationTree.tokens, List.cons_append, htree]
  by_cases hquantifier : ∃ q, startsWith (.quantifier q) tokens = true
  · obtain ⟨q, hq⟩ := hquantifier
    obtain ⟨sign, rest₁, rfl⟩ := exists_of_startsWith hq
    rw [bare_readUnary_quantifier] at h
    obtain ⟨⟨token, rest₂⟩, htoken, h⟩ := bind_eq_ok.1 h
    obtain ⟨⟨u, rest₃⟩, hdot, h⟩ := bind_eq_ok.1 h
    obtain ⟨⟨g, rest₄⟩, hscope, h⟩ := bind_eq_ok.1 h
    have hlt := length_lt_of_bare htoken
    have hlt₁ := length_lt_of_bare hdot
    obtain ⟨x, rfl, hrest₁⟩ := exists_of_bare_readToken htoken
    obtain ⟨dot, rfl, hrest₂⟩ := derives_of_readOptionalDot hdot
    obtain ⟨scope, rfl, hrest₃⟩ := derives_of_readUnary hscope
    cases h
    refine ⟨.quant q sign x dot scope, rfl, ?_⟩
    dsimp only at hrest₂ hrest₃
    rw [DerivationTree.tokens, List.cons_append, List.cons_append, List.append_assoc, hrest₃,
      hrest₂, hrest₁]
  · rw [readUnary_eq_readAtom (by simpa using hnot) (by simpa using hquantifier)] at h
    obtain ⟨tree, rfl, htree⟩ := derives_of_readAtom h
    exact ⟨.atom tree, rfl, htree⟩
termination_by (tokens.length, 1)

/-- An atom or a formula in parentheses that is read is derived. -/
theorem derives_of_readAtom {tokens rest : List Token} {f : Formula}
    (h : bare (readAtom tokens) = .ok (f, rest)) : Derives (.formula .atom) f tokens rest := by
  by_cases hname : startsWith .name tokens = true
  · obtain ⟨name, rest₁, rfl⟩ := exists_of_startsWith hname
    rw [bare_readAtom_name] at h
    obtain ⟨⟨args, rest₂⟩, hargs, h⟩ := bind_eq_ok.1 h
    obtain ⟨tree, rfl, htree⟩ := derives_of_readOptionalArguments hargs
    dsimp only at h htree
    split at h
    · obtain ⟨⟨token, rest₃⟩, htoken, h⟩ := bind_eq_ok.1 h
      obtain ⟨⟨rhs, rest₄⟩, hrhs, h⟩ := bind_eq_ok.1 h
      obtain ⟨sign, rfl, hrest₂⟩ := exists_of_bare_readToken htoken
      obtain ⟨right, rfl, hright⟩ := derives_of_readTerm hrhs
      cases h
      refine ⟨.equation name tree sign right, rfl, ?_⟩
      dsimp only at hright
      rw [DerivationTree.tokens, List.cons_append, List.append_assoc, List.cons_append, hright,
        hrest₂, htree]
    · cases h
      refine ⟨.pred name tree, rfl, ?_⟩
      rw [DerivationTree.tokens, List.cons_append, htree]
  by_cases hparen : startsWith .leftParen tokens = true
  · obtain ⟨left, rest₁, rfl⟩ := exists_of_startsWith hparen
    rw [bare_readAtom_leftParen] at h
    obtain ⟨⟨inner, rest₂⟩, hinner, h⟩ := bind_eq_ok.1 h
    obtain ⟨⟨token, rest₃⟩, htoken, h⟩ := bind_eq_ok.1 h
    obtain ⟨tree, rfl, htree⟩ := derives_of_readChain hinner
    obtain ⟨right, rfl, hrest₂⟩ := exists_of_bare_readToken htoken
    cases h
    refine ⟨.parens left tree right, rfl, ?_⟩
    dsimp only at htree hrest₂
    rw [DerivationTree.tokens, List.cons_append, List.append_assoc, List.cons_append,
      List.nil_append, hrest₂, htree]
  · rw [readAtom_eq_error (by simpa using hname) (by simpa using hparen)] at h
    exact absurd h (by simp [bare, Except.map])
termination_by (tokens.length, 0)

end

/-! ### All tokens together -/

/-- A formula is read from all tokens if it is derived from them. -/
theorem readAll_eq_ok_iff_derives {ts : List Token} {f : Formula} :
    readAll ts = .ok f ↔ Derives (.formula (.chain .iff)) f ts [] := by
  rw [readAll_eq_ok_iff]
  constructor
  · intro h
    exact derives_of_readChain h
  · rintro ⟨tree, rfl, rfl⟩
    exact tree.readsAs (stops_nil _)

/-- A name without arguments is a variable if it starts with a lower-case letter. -/
theorem termOf_none_eq_var_iff (name : String) :
    termOf name none = .var name ↔ ∃ c, name.toList.head? = some c ∧ 'a' ≤ c ∧ c ≤ 'z' := by
  rw [termOf, isVariableName]
  cases name.toList with
  | nil => simp
  | cons c cs => by_cases hc : 'a' ≤ c ∧ c ≤ 'z' <;> simp [hc]

/-- A name without arguments is a constant if it is no variable. -/
theorem termOf_none_eq_const_iff (name : String) :
    termOf name none = .const name ↔ ¬ termOf name none = .var name := by
  rw [termOf]
  split <;> simp

/-- **The reader accepts exactly the grammar**: from a list of tokens it gives a formula if and
only if the formula is that of a derivation tree with these leaves, and there is only one such
tree. In a tree, a name without arguments at the place of a term is a variable if it starts with a
lower-case letter, and a constant otherwise; the left side of an equation is such a place. -/
theorem readAll_exact (ts : List Token) :
    (∀ f : Formula, readAll ts = .ok f ↔
      ∃ tree : DerivationTree (.formula (.chain .iff)), tree.tokens = ts ∧ tree.value = f) ∧
    (∀ tree tree' : DerivationTree (.formula (.chain .iff)),
      tree.tokens = ts → tree'.tokens = ts → tree = tree') ∧
    (∀ name : TokenOf .name,
      ((DerivationTree.term name .noArguments).value = Term.var name.1.value ↔
        ∃ c, name.1.value.toList.head? = some c ∧ 'a' ≤ c ∧ c ≤ 'z') ∧
      ((DerivationTree.term name .noArguments).value = Term.const name.1.value ↔
        ¬ ∃ c, name.1.value.toList.head? = some c ∧ 'a' ≤ c ∧ c ≤ 'z')) ∧
    (∀ (name : TokenOf .name) (args : DerivationTree .optionalArguments) (sign : TokenOf .equals)
      (rhs : DerivationTree .term), (DerivationTree.equation name args sign rhs).value
        = Formula.eq (DerivationTree.term name args).value rhs.value) := by
  refine ⟨fun f => ?_, fun tree tree' h h' => ?_, fun name => ⟨?_, ?_⟩, fun _ _ _ _ => rfl⟩
  · rw [readAll_eq_ok_iff_derives]
    constructor
    · rintro ⟨tree, hvalue, htokens⟩
      exact ⟨tree, by rw [← htokens, List.append_nil], hvalue⟩
    · rintro ⟨tree, htokens, hvalue⟩
      exact ⟨tree, hvalue, by rw [htokens, List.append_nil]⟩
  · exact DerivationTree.tokens_injective (h.trans h'.symm)
  · exact termOf_none_eq_var_iff name.1.value
  · rw [← termOf_none_eq_var_iff]
    exact termOf_none_eq_const_iff name.1.value

end LogicForms.Surface
