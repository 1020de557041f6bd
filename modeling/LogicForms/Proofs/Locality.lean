import LogicForms.Proofs.Lookahead
import LogicForms.Proofs.Reading

/-!
# What reading depends on

The reader goes through the tokens from left to right and sees one token beyond those that it
consumes. So its outcome, be it a value or an error, stays the same when the tokens that it leaves
are replaced by others that start with the same token (`isLocal_readChain`). If there are no others,
it stays the same as well: where the reader goes on without an optional part, it also does so at the
end.

`IsLocal` says this of any way of reading. There is one rule for each step of the reader, and the
theorems about its functions recur like the functions.
-/

set_option autoImplicit false

namespace LogicForms.Surface

variable {α β : Type}

/-! ### Tokens that are left -/

/-- The other tokens start with the same token, or there are none. -/
def StartsLike (rest rest' : List Token) : Prop :=
  ∀ token ∈ rest'.head?, rest.head? = some token

theorem startsLike_refl (rest : List Token) : StartsLike rest rest := fun _ h => h

/-- Behind the same tokens it does not matter any more what starts. -/
theorem StartsLike.append {rest rest' : List Token} (h : StartsLike rest rest')
    (front : List Token) : StartsLike (front ++ rest) (front ++ rest') := by
  cases front with
  | nil => exact h
  | cons token front => exact fun _ htoken => htoken

/-- An optional part that is not there is not there for the other tokens either. -/
theorem StartsLike.startsWith_eq_false {kind : TokenKind} {rest rest' : List Token}
    (h : StartsLike rest rest') (hrest : startsWith kind rest = false) :
    startsWith kind rest' = false := by
  cases rest' with
  | nil => rfl
  | cons token tail =>
    have hhead : rest.head? = some token := h token rfl
    cases rest with
    | nil => exact absurd hhead (by simp)
    | cons first others =>
      rw [List.head?_cons, Option.some.injEq] at hhead
      rw [startsWith_cons, ← hhead]
      exact hrest

/-- The tokens that are left. -/
def leftTokens : Except SyntaxError (α × List Token) → List Token
  | .ok (_, rest) => rest
  | .error e => e.rest

/-- The same outcome with other tokens left. -/
def withLeftTokens (rest : List Token) :
    Except SyntaxError (α × List Token) → Except SyntaxError (α × List Token)
  | .ok (a, _) => .ok (a, rest)
  | .error (.unexpected expected _) => .error (.unexpected expected rest)
  | .error (.trailing _) => .error (.trailing rest)

/-! ### Rules -/

/-- Tokens are consumed from the front, and the outcome is the same for all tokens that start like
those that are left. -/
def IsLocal (read : List Token → Except SyntaxError (α × List Token)) (tokens : List Token) :
    Prop :=
  ∃ front, front ++ leftTokens (read tokens) = tokens ∧
    ∀ rest, StartsLike (leftTokens (read tokens)) rest →
      read (front ++ rest) = withLeftTokens rest (read tokens)

theorem isLocal_ok (a : α) (tokens : List Token) : IsLocal (fun ts => .ok (a, ts)) tokens :=
  ⟨[], rfl, fun _ _ => rfl⟩

theorem isLocal_error (expected : Expected) (tokens : List Token) :
    IsLocal (α := α) (fun ts => .error (.unexpected expected ts)) tokens :=
  ⟨[], rfl, fun _ _ => rfl⟩

theorem isLocal_readToken (kind : TokenKind) (tokens : List Token) :
    IsLocal (fun ts => bare (readToken kind ts)) tokens := by
  cases tokens with
  | nil =>
    refine ⟨[], rfl, fun rest hrest => ?_⟩
    cases rest with
    | nil => rfl
    | cons token tail =>
      have hhead : ([] : List Token).head? = some token := hrest token rfl
      exact absurd hhead (by simp)
  | cons token tail =>
    dsimp only [IsLocal]
    by_cases hkind : token.kind = kind
    · have hread (ts : List Token) : bare (readToken kind (token :: ts)) = .ok (token, ts) :=
        bare_readToken_cons ⟨token, hkind⟩ ts
      rw [hread]
      exact ⟨[token], rfl, fun rest _ => hread rest⟩
    · have hread (ts : List Token) : bare (readToken kind (token :: ts))
          = .error (.unexpected (.token kind) (token :: ts)) := by
        rw [readToken, if_neg hkind]
        rfl
      rw [hread]
      refine ⟨[], rfl, fun rest hrest => ?_⟩
      cases rest with
      | nil => rfl
      | cons first others =>
        obtain rfl : token = first := Option.some.inj (hrest first rfl)
        exact hread others

namespace IsLocal

variable {read read' : List Token → Except SyntaxError (α × List Token)} {tokens : List Token}

/-- What is read from the tokens is read in front of all others that start like those left. -/
theorem exists_of_ok (h : IsLocal read tokens) {a : α} {rest : List Token}
    (hread : read tokens = .ok (a, rest)) :
    ∃ front, front ++ rest = tokens ∧
      ∀ rest', StartsLike rest rest' → read (front ++ rest') = .ok (a, rest') := by
  dsimp only [IsLocal] at h
  rw [hread] at h
  exact h

/-- What is not expected is not expected in front of all others that start like those left. -/
theorem exists_of_error (h : IsLocal read tokens) {expected : Expected} {rest : List Token}
    (hread : read tokens = .error (.unexpected expected rest)) :
    ∃ front, front ++ rest = tokens ∧
      ∀ rest', StartsLike rest rest' →
        read (front ++ rest') = .error (.unexpected expected rest') := by
  dsimp only [IsLocal] at h
  rw [hread] at h
  exact h

/-- Two steps one after the other look at one token beyond what both of them consume. -/
theorem bind {next : α × List Token → Except SyntaxError (β × List Token)}
    (h : IsLocal read tokens)
    (h' : ∀ a rest, read tokens = .ok (a, rest) → IsLocal (fun ts => next (a, ts)) rest) :
    IsLocal (fun ts => read ts >>= next) tokens := by
  obtain ⟨front, hfront, hread⟩ := h
  dsimp only [IsLocal]
  cases houtcome : read tokens with
  | error e =>
    rw [houtcome] at hfront hread
    refine ⟨front, hfront, fun rest hrest => ?_⟩
    rw [hread rest hrest]
    cases e <;> rfl
  | ok parsed =>
    obtain ⟨a, rest₁⟩ := parsed
    rw [houtcome] at hfront hread
    obtain ⟨front', hfront', hnext⟩ := h' a rest₁ houtcome
    refine ⟨front ++ front', ?_, fun rest hrest => ?_⟩
    · rw [ok_bind, List.append_assoc, hfront']
      exact hfront
    · have hstart : StartsLike rest₁ (front' ++ rest) := by
        rw [ok_bind] at hrest
        have happend := hrest.append front'
        rw [hfront'] at happend
        exact happend
      rw [List.append_assoc, hread _ hstart]
      exact hnext rest hrest

/-- What is read behind a token may be read in another way if the token tells so. -/
theorem cons {token : Token} (h : ∀ ts, read (token :: ts) = read' ts)
    (hlocal : IsLocal read' tokens) : IsLocal read (token :: tokens) := by
  obtain ⟨front, hfront, hread⟩ := hlocal
  refine ⟨token :: front, ?_, fun rest hrest => ?_⟩
  · rw [h, List.cons_append, hfront]
  · rw [h] at hrest ⊢
    rw [List.cons_append, h]
    exact hread rest hrest

/-- What starts like the tokens may be read in another way. -/
theorem congr (h : ∀ ts, StartsLike tokens ts → read ts = read' ts)
    (hlocal : IsLocal read' tokens) : IsLocal read tokens := by
  obtain ⟨front, hfront, hread⟩ := hlocal
  have htokens := h tokens (startsLike_refl tokens)
  refine ⟨front, ?_, fun rest hrest => ?_⟩
  · rw [htokens, hfront]
  · rw [htokens] at hrest ⊢
    have happend := hrest.append front
    rw [hfront] at happend
    rw [h _ happend]
    exact hread rest hrest

/-- An optional part is read if its first token is there, and passed over otherwise. -/
theorem optional {kind : TokenKind}
    {next : Token × List Token → Except SyntaxError (α × List Token)}
    (hsome : ∀ (sign : TokenOf kind) (rest : List Token), rest.length < tokens.length →
      IsLocal (fun ts => next (sign.1, ts)) rest)
    (hnone : IsLocal read tokens) :
    IsLocal (fun ts => if startsWith kind ts then bare (readToken kind ts) >>= next else read ts)
      tokens := by
  by_cases hstart : startsWith kind tokens = true
  · obtain ⟨sign, rest, rfl⟩ := exists_of_startsWith hstart
    refine cons (fun ts => ?_) (hsome sign rest (by simp))
    rw [startsWith_self, if_pos rfl, bare_readToken_cons, ok_bind]
  · refine congr (fun ts hts => ?_) hnone
    rw [hts.startsWith_eq_false (by simpa using hstart)]
    rfl

end IsLocal

/-! ### Terms -/

-- as for the functions of the reader, each call inside is on fewer tokens, or on the same tokens in
-- a function that comes later

mutual

theorem isLocal_readTerm (tokens : List Token) :
    IsLocal (fun ts => bare (readTerm ts)) tokens := by
  rw [funext bare_readTerm]
  apply (isLocal_readToken .name tokens).bind
  intro name rest hname
  have hlt := length_lt_of_bare hname
  dsimp only
  apply (isLocal_readOptionalArguments rest).bind
  intro args rest' hargs
  exact isLocal_ok _ rest'
termination_by (tokens.length, 0)

theorem isLocal_readOptionalArguments (tokens : List Token) :
    IsLocal (fun ts => bare (readOptionalArguments ts)) tokens := by
  by_cases hparen : startsWith .leftParen tokens = true
  · obtain ⟨left, rest, rfl⟩ := exists_of_startsWith hparen
    have hlocal : IsLocal (fun ts => bare (readArguments (left.1 :: ts)) >>= fun args =>
        .ok (some args.1, args.2)) rest := by
      apply (isLocal_readArguments left rest).bind
      intro args rest' hargs
      exact isLocal_ok _ rest'
    refine hlocal.cons fun ts => ?_
    rw [bare_readOptionalArguments, startsWith_self, if_pos rfl]
  · refine (isLocal_ok none tokens).congr fun ts hts => ?_
    rw [bare_readOptionalArguments, hts.startsWith_eq_false (by simpa using hparen)]
    rfl
termination_by (tokens.length, 0)

/-- This is about the tokens behind the left parenthesis, where the list is told apart from the
empty one. -/
theorem isLocal_readArguments (left : TokenOf .leftParen) (tokens : List Token) :
    IsLocal (fun ts => bare (readArguments (left.1 :: ts))) tokens := by
  simp only [bare_readArguments, bare_readToken_cons, ok_bind]
  apply IsLocal.optional
  · intro right rest hlt
    exact isLocal_ok _ rest
  · apply (isLocal_readTermLike tokens).bind
    intro first rest₁ hfirst
    have hlt := length_lt_of_bare hfirst
    dsimp only
    apply (isLocal_readMoreArguments rest₁).bind
    intro more rest₂ hmore
    dsimp only
    apply (isLocal_readToken .rightParen rest₂).bind
    intro right rest hright
    exact isLocal_ok _ rest
termination_by (tokens.length, 2)

theorem isLocal_readMoreArguments (tokens : List Token) :
    IsLocal (fun ts => bare (readMoreArguments ts)) tokens := by
  rw [funext bare_readMoreArguments]
  apply IsLocal.optional
  · intro comma rest hlt
    dsimp only
    apply (isLocal_readTermLike rest).bind
    intro next rest₁ hnext
    have hlt₁ := length_lt_of_bare hnext
    dsimp only
    apply (isLocal_readMoreArguments rest₁).bind
    intro more rest₂ hmore
    exact isLocal_ok _ rest₂
  · exact isLocal_ok _ tokens
termination_by (tokens.length, 0)

theorem isLocal_readTermLike (tokens : List Token) :
    IsLocal (fun ts => bare (readTermLike ts)) tokens := by
  rw [funext bare_readTermLike]
  apply (isLocal_readTerm tokens).bind
  intro lhs rest₁ hlhs
  have hlt := length_lt_of_bare hlhs
  dsimp only
  apply IsLocal.optional
  · intro sign rest₂ hlt₁
    dsimp only
    apply (isLocal_readTerm rest₂).bind
    intro rhs rest hrhs
    exact isLocal_ok _ rest
  · exact isLocal_ok lhs rest₁
termination_by (tokens.length, 1)

end

/-! ### Formulas -/

theorem isLocal_readOptionalDot (tokens : List Token) :
    IsLocal (fun ts => bare (readOptionalDot ts)) tokens := by
  rw [funext bare_readOptionalDot]
  apply IsLocal.optional
  · intro sign rest hlt
    exact isLocal_ok _ rest
  · exact isLocal_ok _ tokens

mutual

/-- **The reader sees one token beyond the formula that it reads, or beyond the tokens that make it
fail.** -/
theorem isLocal_readChain (op : Connective) (tokens : List Token) :
    IsLocal (fun ts => bare (readChain op ts)) tokens := by
  rw [funext (bare_readChain op)]
  apply (isLocal_readOperand op tokens).bind
  intro first rest hfirst
  have hlt := length_lt_of_bare hfirst
  exact isLocal_readChainTail op first rest
termination_by (tokens.length, 2 * level op + 3)

theorem isLocal_readOperand (op : Connective) (tokens : List Token) :
    IsLocal (fun ts => bare (readOperand op ts)) tokens := by
  match op with
  | .iff =>
    simp only [readOperand]
    exact isLocal_readChain .implies tokens
  | .implies =>
    simp only [readOperand]
    exact isLocal_readChain .or tokens
  | .or =>
    simp only [readOperand]
    exact isLocal_readChain .and tokens
  | .and =>
    simp only [readOperand]
    exact isLocal_readUnary tokens
termination_by (tokens.length, 2 * level op + 2)
decreasing_by all_goals (simp [Prod.lex_def, level])

theorem isLocal_readChainTail (op : Connective) (f : Formula) (tokens : List Token) :
    IsLocal (fun ts => bare (readChainTail op f ts)) tokens := by
  rw [funext (bare_readChainTail op f)]
  apply IsLocal.optional
  · intro sign rest hlt
    dsimp only
    apply (isLocal_readOperand op rest).bind
    intro next rest₁ hnext
    have hlt₁ := length_lt_of_bare hnext
    exact isLocal_readChainTail op (.binary op f next) rest₁
  · exact isLocal_ok f tokens
termination_by (tokens.length, 0)

theorem isLocal_readUnary (tokens : List Token) :
    IsLocal (fun ts => bare (readUnary ts)) tokens := by
  by_cases hnot : startsWith .not tokens = true
  · obtain ⟨sign, rest, rfl⟩ := exists_of_startsWith hnot
    apply IsLocal.cons (bare_readUnary_not sign)
    apply (isLocal_readUnary rest).bind
    intro arg rest' harg
    exact isLocal_ok _ rest'
  by_cases hquantifier : ∃ q, startsWith (.quantifier q) tokens = true
  · obtain ⟨q, hq⟩ := hquantifier
    obtain ⟨sign, rest, htokens⟩ := exists_of_startsWith hq
    have hlt : rest.length < tokens.length := by rw [htokens, List.length_cons]; omega
    rw [htokens]
    apply IsLocal.cons (bare_readUnary_quantifier q sign)
    apply (isLocal_readToken .name rest).bind
    intro x rest₁ hx
    have hlt₁ := length_lt_of_bare hx
    dsimp only
    apply (isLocal_readOptionalDot rest₁).bind
    intro dot rest₂ hdot
    have hlt₂ := length_lt_of_bare hdot
    dsimp only
    apply (isLocal_readUnary rest₂).bind
    intro scope rest' hscope
    exact isLocal_ok _ rest'
  · -- neither sign is in front, nor is it for tokens that start in the same way
    refine (isLocal_readAtom tokens).congr fun ts hts => ?_
    have hq (q : Quantifier) : startsWith (.quantifier q) ts = false :=
      hts.startsWith_eq_false (by simpa using fun hq => hquantifier ⟨q, hq⟩)
    rw [readUnary_eq_readAtom (hts.startsWith_eq_false (by simpa using hnot)) hq]
termination_by (tokens.length, 1)

theorem isLocal_readAtom (tokens : List Token) :
    IsLocal (fun ts => bare (readAtom ts)) tokens := by
  by_cases hname : startsWith .name tokens = true
  · obtain ⟨name, rest, rfl⟩ := exists_of_startsWith hname
    apply IsLocal.cons (bare_readAtom_name name)
    apply (isLocal_readOptionalArguments rest).bind
    intro args rest₁ hargs
    dsimp only
    apply IsLocal.optional
    · intro sign rest₂ hlt₁
      dsimp only
      apply (isLocal_readTerm rest₂).bind
      intro rhs rest' hrhs
      exact isLocal_ok _ rest'
    · exact isLocal_ok _ rest₁
  by_cases hparen : startsWith .leftParen tokens = true
  · obtain ⟨left, rest, rfl⟩ := exists_of_startsWith hparen
    apply IsLocal.cons (bare_readAtom_leftParen left)
    apply (isLocal_readChain .iff rest).bind
    intro inner rest₁ hinner
    dsimp only
    apply (isLocal_readToken .rightParen rest₁).bind
    intro right rest' hright
    exact isLocal_ok _ rest'
  · refine (isLocal_error .atom tokens).congr fun ts hts => ?_
    rw [Bool.not_eq_true] at hname hparen
    have hname' := hts.startsWith_eq_false hname
    have hparen' := hts.startsWith_eq_false hparen
    rw [readAtom_eq_error hname' hparen']
    rfl
termination_by (tokens.length, 0)

end

end LogicForms.Surface
