import LogicForms.Proofs.Outcomes
import LogicForms.Surface.Grammar

/-!
# What the reader does

Each function of the reader gives a value with what is left of the tokens, and a proof that less is
left than a bound. `bare` forgets the bound, and there is one equation for each function that says
what it does without it: the functions that it calls one after the other, and what it makes of
their values. These equations are all that is used about the reader.
-/

set_option autoImplicit false

namespace LogicForms.Surface

variable {α β : Type} {bound bound' : Nat}

/-- What was read and what is left, or the error. -/
def bare (outcome : Except SyntaxError (Parsed α bound)) : Except SyntaxError (α × List Token) :=
  outcome.map fun parsed => (parsed.value, parsed.rest)

theorem bare_ok (a : α) (rest : List Token) (h : rest.length < bound) :
    bare (.ok ⟨a, rest, h⟩) = .ok (a, rest) := rfl

/-- Two steps one after the other need no bounds if the second one does not. -/
theorem bare_bind {m : Except SyntaxError (Parsed α bound)}
    {f : Parsed α bound → Except SyntaxError (Parsed β bound')}
    {g : α × List Token → Except SyntaxError (β × List Token)}
    (h : ∀ a rest hlt, bare (f ⟨a, rest, hlt⟩) = g (a, rest)) : bare (m >>= f) = bare m >>= g := by
  cases m with
  | error e => rfl
  | ok parsed => exact h parsed.value parsed.rest parsed.rest_lt

/-- Fewer tokens are left than the bound. -/
theorem length_lt_of_bare {outcome : Except SyntaxError (Parsed α bound)} {a : α}
    {rest : List Token} (h : bare outcome = .ok (a, rest)) : rest.length < bound := by
  cases outcome with
  | error e => exact absurd h (by simp [bare, Except.map])
  | ok parsed =>
    cases h
    exact parsed.rest_lt

/-! ### Tokens -/

/-- A token of the kind is read. -/
theorem bare_readToken_cons {kind : TokenKind} (token : TokenOf kind) (rest : List Token) :
    bare (readToken kind (token.1 :: rest)) = .ok (token.1, rest) := by
  rw [readToken, if_pos token.2, bare_ok]

/-- Only a token of the kind is read. -/
theorem bare_readToken_eq_ok {kind : TokenKind} {tokens rest : List Token} {token : Token}
    (h : bare (readToken kind tokens) = .ok (token, rest)) :
    tokens = token :: rest ∧ token.kind = kind := by
  cases tokens with
  | nil => exact absurd h (by simp [readToken, bare, Except.map])
  | cons first others =>
    rw [readToken] at h
    split at h
    · rename_i hkind
      cases h
      exact ⟨rfl, hkind⟩
    · exact absurd h (by simp [bare, Except.map])

/-! ### Terms -/

theorem bare_readTerm (tokens : List Token) :
    bare (readTerm tokens) = bare (readToken .name tokens) >>= fun name =>
      bare (readOptionalArguments name.2) >>= fun args =>
        .ok (termOf name.1.value args.1, args.2) := by
  rw [readTerm]
  exact bare_bind fun name rest h => bare_bind fun args rest' h' => rfl

theorem bare_readOptionalArguments (tokens : List Token) :
    bare (readOptionalArguments tokens) =
      if startsWith .leftParen tokens then
        bare (readArguments tokens) >>= fun args => .ok (some args.1, args.2)
      else .ok (none, tokens) := by
  rw [readOptionalArguments]
  split
  · exact bare_bind fun args rest h => rfl
  · rfl

theorem bare_readArguments (tokens : List Token) :
    bare (readArguments tokens) = bare (readToken .leftParen tokens) >>= fun left =>
      if startsWith .rightParen left.2 then
        bare (readToken .rightParen left.2) >>= fun right => .ok ([], right.2)
      else
        bare (readTermLike left.2) >>= fun first =>
          bare (readMoreArguments first.2) >>= fun more =>
            bare (readToken .rightParen more.2) >>= fun right =>
              .ok (first.1 :: more.1, right.2) := by
  rw [readArguments]
  refine bare_bind fun left inner h => ?_
  by_cases hright : startsWith .rightParen inner = true
  · simp only [if_pos hright]
    exact bare_bind fun right rest h' => rfl
  · simp only [if_neg hright]
    exact bare_bind fun first rest₁ h₁ => bare_bind fun more rest₂ h₂ =>
      bare_bind fun right rest h' => rfl

theorem bare_readMoreArguments (tokens : List Token) :
    bare (readMoreArguments tokens) =
      if startsWith .comma tokens then
        bare (readToken .comma tokens) >>= fun comma =>
          bare (readTermLike comma.2) >>= fun next =>
            bare (readMoreArguments next.2) >>= fun more => .ok (next.1 :: more.1, more.2)
      else .ok ([], tokens) := by
  rw [readMoreArguments]
  split
  · exact bare_bind fun comma rest₁ h₁ => bare_bind fun next rest₂ h₂ =>
      bare_bind fun more rest h => rfl
  · rfl

theorem bare_readTermLike (tokens : List Token) :
    bare (readTermLike tokens) = bare (readTerm tokens) >>= fun lhs =>
      if startsWith .equals lhs.2 then
        bare (readToken .equals lhs.2) >>= fun sign =>
          bare (readTerm sign.2) >>= fun rhs => .ok (.eq lhs.1 rhs.1, rhs.2)
      else .ok lhs := by
  rw [readTermLike]
  refine bare_bind fun lhs rest₁ h₁ => ?_
  by_cases hequals : startsWith .equals rest₁ = true
  · simp only [if_pos hequals]
    exact bare_bind fun sign rest₂ h₂ => bare_bind fun rhs rest h => rfl
  · simp only [if_neg hequals]
    rfl

/-! ### Formulas -/

theorem bare_readOptionalDot (tokens : List Token) :
    bare (readOptionalDot tokens) =
      if startsWith .dot tokens then
        bare (readToken .dot tokens) >>= fun sign => .ok ((), sign.2)
      else .ok ((), tokens) := by
  rw [readOptionalDot]
  split
  · exact bare_bind fun sign rest h => rfl
  · rfl

theorem bare_readChain (op : Connective) (tokens : List Token) :
    bare (readChain op tokens) = bare (readOperand op tokens) >>= fun first =>
      bare (readChainTail op first.1 first.2) := by
  rw [readChain]
  refine bare_bind fun first rest₁ h₁ => ?_
  have htail : bare (readChainTail op first rest₁)
      = bare (readChainTail op first rest₁) >>= fun tail => .ok tail :=
    (bind_pure _).symm
  rw [htail]
  exact bare_bind fun f rest h => rfl

theorem bare_readChainTail (op : Connective) (f : Formula) (tokens : List Token) :
    bare (readChainTail op f tokens) =
      if startsWith (.connective op) tokens then
        bare (readToken (.connective op) tokens) >>= fun sign =>
          bare (readOperand op sign.2) >>= fun next =>
            bare (readChainTail op (.binary op f next.1) next.2)
      else .ok (f, tokens) := by
  rw [readChainTail]
  split
  · refine bare_bind fun sign rest₁ h₁ => bare_bind fun next rest₂ h₂ => ?_
    have htail : bare (readChainTail op (.binary op f next) rest₂)
        = bare (readChainTail op (.binary op f next) rest₂) >>= fun tail => .ok tail :=
      (bind_pure _).symm
    rw [htail]
    exact bare_bind fun k rest h => rfl
  · rfl

/-- A negation sign is followed by what is negated. -/
theorem bare_readUnary_not (sign : TokenOf .not) (rest : List Token) :
    bare (readUnary (sign.1 :: rest)) =
      bare (readUnary rest) >>= fun arg => .ok (.not arg.1, arg.2) := by
  obtain ⟨⟨kind, value, position⟩, hkind⟩ := sign
  obtain rfl : kind = .not := hkind
  rw [readUnary]
  exact bare_bind fun arg rest' h => rfl

/-- A quantifier is followed by its variable, by a dot if there is one, and by its scope. -/
theorem bare_readUnary_quantifier (q : Quantifier) (sign : TokenOf (.quantifier q))
    (rest : List Token) :
    bare (readUnary (sign.1 :: rest)) =
      bare (readToken .name rest) >>= fun x =>
        bare (readOptionalDot x.2) >>= fun dot =>
          bare (readUnary dot.2) >>= fun scope => .ok (.quant q x.1.value scope.1, scope.2) := by
  obtain ⟨⟨kind, value, position⟩, hkind⟩ := sign
  obtain rfl : kind = .quantifier q := hkind
  rw [readUnary]
  exact bare_bind fun x rest₁ h₁ => bare_bind fun dot rest₂ h₂ => bare_bind fun scope rest' h => rfl

/-- Without a negation sign and without a quantifier, an atom is read. -/
theorem readUnary_eq_readAtom {tokens : List Token} (hnot : startsWith .not tokens = false)
    (hquantifier : ∀ q, startsWith (.quantifier q) tokens = false) :
    readUnary tokens = readAtom tokens := by
  rw [readUnary]
  · rintro value position rest rfl
    simp [startsWith] at hnot
  · rintro q value position rest rfl
    have h := hquantifier q
    simp [startsWith] at h

/-- A name is a predicate, or the left side of an equation if an equals sign comes behind its
arguments. -/
theorem bare_readAtom_name (name : TokenOf .name) (rest : List Token) :
    bare (readAtom (name.1 :: rest)) =
      bare (readOptionalArguments rest) >>= fun args =>
        if startsWith .equals args.2 then
          bare (readToken .equals args.2) >>= fun sign =>
            bare (readTerm sign.2) >>= fun rhs =>
              .ok (.eq (termOf name.1.value args.1) rhs.1, rhs.2)
        else .ok (.pred name.1.value (args.1.getD []), args.2) := by
  obtain ⟨⟨kind, value, position⟩, hkind⟩ := name
  obtain rfl : kind = .name := hkind
  rw [readAtom]
  refine bare_bind fun args rest₁ h₁ => ?_
  by_cases hequals : startsWith .equals rest₁ = true
  · simp only [if_pos hequals]
    exact bare_bind fun sign rest₂ h₂ => bare_bind fun rhs rest' h => rfl
  · simp only [if_neg hequals]
    rfl

/-- A left parenthesis is followed by a formula and a right parenthesis. -/
theorem bare_readAtom_leftParen (left : TokenOf .leftParen) (rest : List Token) :
    bare (readAtom (left.1 :: rest)) =
      bare (readChain .iff rest) >>= fun inner =>
        bare (readToken .rightParen inner.2) >>= fun right => .ok (inner.1, right.2) := by
  obtain ⟨⟨kind, value, position⟩, hkind⟩ := left
  obtain rfl : kind = .leftParen := hkind
  rw [readAtom]
  exact bare_bind fun inner rest₁ h₁ => bare_bind fun right rest' h => rfl

/-- Nothing else is an atom. -/
theorem readAtom_eq_error {tokens : List Token} (hname : startsWith .name tokens = false)
    (hparen : startsWith .leftParen tokens = false) :
    readAtom tokens = .error (.unexpected .atom tokens) := by
  rw [readAtom]
  · rintro name position rest rfl
    simp [startsWith] at hname
  · rintro value position rest rfl
    simp [startsWith] at hparen

/-- Everything is read if a formula is and nothing is left. -/
theorem readAll_eq_ok_iff {tokens : List Token} {f : Formula} :
    readAll tokens = .ok f ↔ bare (readChain .iff tokens) = .ok (f, []) := by
  rw [readAll, readFormula]
  cases readChain .iff tokens with
  | error e => simp [bare, Except.map, bind, Except.bind]
  | ok parsed =>
    obtain ⟨g, rest, h⟩ := parsed
    cases rest <;> simp [bare, Except.map, bind, Except.bind, pure, Except.pure]

end LogicForms.Surface
