import LogicForms.Surface.Grammar

/-!
# One token of lookahead

The reader never looks back: it takes an argument list, an equals sign, a dot or a further operand
as soon as it sees the first token of one. `Stops` says that what comes behind a construct does not
make it go on. Inside a derivation tree this is always the case, because no construct is followed
by a token with which it could be continued (`DerivationTree.stops_operand`, `stops_argument`,
`stops_dot`).
-/

set_option autoImplicit false

namespace LogicForms.Surface

/-! ### Tokens in front -/

theorem startsWith_cons (kind : TokenKind) (token : Token) (rest : List Token) :
    startsWith kind (token :: rest) = (token.kind == kind) := rfl

@[simp] theorem startsWith_self {kind : TokenKind} (token : TokenOf kind) (rest : List Token) :
    startsWith kind (token.1 :: rest) = true := by
  rw [startsWith_cons, token.2, beq_self_eq_true]

/-- A list that starts with a token of a kind has such a token in front. -/
theorem exists_of_startsWith {kind : TokenKind} {tokens : List Token}
    (h : startsWith kind tokens = true) :
    ∃ (token : TokenOf kind) (rest : List Token), tokens = token.1 :: rest := by
  cases tokens with
  | nil => exact absurd h (by simp [startsWith])
  | cons token rest =>
    rw [startsWith_cons, beq_iff_eq] at h
    exact ⟨⟨token, h⟩, rest, rfl⟩

/-! ### What a construct is not followed by -/

/-- Would a token of the kind behind a formula be taken for a further part of it? -/
def FormulaLevel.isContinuedBy : FormulaLevel → TokenKind → Bool
  | .chain op, .connective op' => level op' ≤ level op
  | _, kind => kind == .leftParen || kind == .equals

/-- Would a token of the kind be taken for a further part of what is in front of it? -/
def GrammarSymbol.isContinuedBy : GrammarSymbol → TokenKind → Bool
  | .formula level, kind => level.isContinuedBy kind
  | .moreOperands op, kind => (FormulaLevel.chain op).isContinuedBy kind
  | .optionalDot, kind => kind == .dot
  | .term, kind => kind == .leftParen
  | .termLike, kind => kind == .leftParen || kind == .equals
  | .optionalArguments, kind => kind == .leftParen
  | .arguments, _ => false
  | .moreArguments, kind => kind == .comma || kind == .leftParen || kind == .equals

/-- The tokens do not start with one that would be taken for a part of what is in front of them. -/
def Stops (s : GrammarSymbol) (rest : List Token) : Prop :=
  ∀ token ∈ rest.head?, s.isContinuedBy token.kind = false

section

variable {s s' : GrammarSymbol} {op : Connective} {kind : TokenKind} {rest : List Token}

theorem stops_nil (s : GrammarSymbol) : Stops s [] := by
  intro token h
  exact absurd h (by simp)

theorem stops_cons (token : TokenOf kind) (h : s.isContinuedBy kind = false) :
    Stops s (token.1 :: rest) := by
  intro token' htoken
  rw [List.head?_cons, Option.mem_some_iff] at htoken
  rw [← htoken, token.2]
  exact h

/-- The tokens do not start with a token of a kind that continues the construct. -/
theorem Stops.startsWith (h : Stops s rest) (hkind : s.isContinuedBy kind = true) :
    startsWith kind rest = false := by
  cases rest with
  | nil => rfl
  | cons token rest =>
    rw [startsWith_cons, beq_eq_false_iff_ne]
    rintro rfl
    have hstop := h token (by simp)
    rw [hkind] at hstop
    exact absurd hstop (by simp)

/-- What stops a construct stops every other one that is continued by fewer kinds of tokens. -/
theorem Stops.mono (h : Stops s rest)
    (hkinds : ∀ kind, s'.isContinuedBy kind = true → s.isContinuedBy kind = true) :
    Stops s' rest := by
  intro token htoken
  have hstop := h token htoken
  rw [← Bool.not_eq_true] at hstop ⊢
  exact fun hkind => hstop (hkinds _ hkind)

/-- A chain of operands is continued by its connective. -/
theorem isContinuedBy_self (op : Connective) :
    (FormulaLevel.chain op).isContinuedBy (.connective op) = true :=
  decide_eq_true (Nat.le_refl _)

/-- An operand is not continued by the connective behind it. -/
theorem isContinuedBy_operandLevel_self (op : Connective) :
    (operandLevel op).isContinuedBy (.connective op) = false := by
  cases op <;> rfl

/-- What continues an operand of a connective continues the chain of operands. -/
theorem isContinuedBy_chain (h : (operandLevel op).isContinuedBy kind = true) :
    (FormulaLevel.chain op).isContinuedBy kind = true := by
  cases kind with
  | connective op' =>
    cases op <;> cases op' <;> first | rfl | exact absurd h (by decide)
  | _ => cases op <;> exact h

end

namespace DerivationTree

/-! ### First tokens of trees -/

theorem exists_tokens_arguments (tree : DerivationTree .arguments) :
    ∃ (left : TokenOf .leftParen) (tail : List Token), tree.tokens = left.1 :: tail := by
  cases tree with
  | emptyArguments left right => exact ⟨left, _, rfl⟩
  | arguments left first more right => exact ⟨left, _, rfl⟩

theorem exists_tokens_term (tree : DerivationTree .term) :
    ∃ (name : TokenOf .name) (tail : List Token), tree.tokens = name.1 :: tail := by
  cases tree with
  | term name args => exact ⟨name, _, rfl⟩

theorem exists_tokens_termLike (tree : DerivationTree .termLike) :
    ∃ (name : TokenOf .name) (tail : List Token), tree.tokens = name.1 :: tail := by
  cases tree with
  | plain t => exact t.exists_tokens_term
  | termEquation lhs sign rhs =>
    obtain ⟨name, tail, h⟩ := lhs.exists_tokens_term
    exact ⟨name, _, by rw [tokens, h, List.cons_append]⟩

/-- An atom starts with a name or a left parenthesis. -/
theorem exists_tokens_atom (tree : DerivationTree (.formula .atom)) :
    ∃ (token : Token) (tail : List Token),
      tree.tokens = token :: tail ∧ (token.kind = .name ∨ token.kind = .leftParen) := by
  cases tree with
  | pred name args => exact ⟨name.1, _, rfl, Or.inl name.2⟩
  | equation name args sign rhs => exact ⟨name.1, _, rfl, Or.inl name.2⟩
  | parens left inner right => exact ⟨left.1, _, rfl, Or.inr left.2⟩

/-- A unary formula does not start with a dot. -/
theorem exists_tokens_unary (tree : DerivationTree (.formula .unary)) :
    ∃ (token : Token) (tail : List Token), tree.tokens = token :: tail ∧ token.kind ≠ .dot := by
  cases tree with
  | not sign arg => exact ⟨sign.1, _, rfl, by rw [sign.2]; simp⟩
  | quant q sign x dot scope => exact ⟨sign.1, _, rfl, by rw [sign.2]; simp⟩
  | atom a =>
    obtain ⟨token, tail, h, hkind⟩ := a.exists_tokens_atom
    refine ⟨token, tail, h, ?_⟩
    rcases hkind with hkind | hkind <;> rw [hkind] <;> simp

/-! ### Inside a tree, everything stops -/

variable {op : Connective} {rest : List Token}

/-- The first operand is followed by the connective, or by what follows the chain. -/
theorem stops_operand (more : DerivationTree (.moreOperands op))
    (h : Stops (.moreOperands op) rest) :
    Stops (.formula (operandLevel op)) (more.tokens ++ rest) := by
  cases more with
  | noOperands => exact h.mono fun kind hkind => isContinuedBy_chain hkind
  | operand _ sign next more => exact stops_cons sign (isContinuedBy_operandLevel_self op)

/-- The first argument is followed by a comma, or by what follows the arguments. -/
theorem stops_argument (more : DerivationTree .moreArguments) (h : Stops .moreArguments rest) :
    Stops .termLike (more.tokens ++ rest) := by
  cases more with
  | noMoreArguments =>
    refine h.mono fun kind hkind => ?_
    simp only [GrammarSymbol.isContinuedBy] at hkind ⊢
    rw [Bool.or_assoc, hkind, Bool.or_true]
  | argument comma next more => exact stops_cons comma rfl

/-- What may be a dot is followed by a formula, which does not start with one. -/
theorem stops_dot (scope : DerivationTree (.formula .unary)) :
    Stops .optionalDot (scope.tokens ++ rest) := by
  obtain ⟨token, tail, h, hkind⟩ := scope.exists_tokens_unary
  intro token' htoken
  rw [h, List.cons_append, List.head?_cons, Option.mem_some_iff] at htoken
  rw [← htoken]
  exact beq_false_of_ne hkind

theorem stops_term_of_termLike (h : Stops .termLike rest) : Stops .term rest := by
  refine h.mono fun kind hkind => ?_
  simp only [GrammarSymbol.isContinuedBy] at hkind ⊢
  rw [hkind, Bool.true_or]

theorem stops_term_of_atom (h : Stops (.formula .atom) rest) : Stops .term rest := by
  refine h.mono fun kind hkind => ?_
  rw [GrammarSymbol.isContinuedBy, beq_iff_eq] at hkind
  subst hkind
  rfl

end DerivationTree

end LogicForms.Surface
