import LogicForms.Proofs.Lookahead

/-!
# Derivation trees are determined by their leaves

Two trees with the same symbol at the root whose tokens stand at the front of the same list are
equal, as long as what follows stops them (`DerivationTree.determined`). This is an induction on
the first tree, with one lemma for each way to build a tree. In each of them the first tokens show
how the other tree is built, where a tree that is cut short is followed by a token that would
continue it.
-/

set_option autoImplicit false

namespace LogicForms.Surface

/-! ### Leaves -/

section

variable {kind kind' : TokenKind} {s : GrammarSymbol} {rest rest' : List Token}

/-- Lists with a leaf of one kind each in front are equal if the leaves are and the rests are. -/
theorem TokenOf.cons_injective {leaf leaf' : TokenOf kind} (h : leaf.1 :: rest = leaf'.1 :: rest') :
    leaf = leaf' ∧ rest = rest' := by
  rw [List.cons.injEq] at h
  exact ⟨Subtype.ext h.1, h.2⟩

/-- Lists with leaves in front are equal only if these are of one kind. -/
theorem TokenOf.kind_eq {leaf : TokenOf kind} {leaf' : TokenOf kind'}
    (h : leaf.1 :: rest = leaf'.1 :: rest') : kind = kind' := by
  rw [List.cons.injEq] at h
  rw [← leaf.2, h.1, leaf'.2]

/-- A leaf that stops a construct does not continue it. -/
theorem Stops.isContinuedBy {leaf : TokenOf kind} (h : Stops s (leaf.1 :: rest)) :
    s.isContinuedBy kind = false := by
  rw [← leaf.2]
  exact h leaf.1 rfl

end

namespace DerivationTree

/-- Where the tokens of the tree stand in front of tokens that stop it, there is no other tree. -/
def Determined {s : GrammarSymbol} (tree : DerivationTree s) : Prop :=
  ∀ (tree' : DerivationTree s) {rest rest' : List Token}, Stops s rest → Stops s rest' →
    tree.tokens ++ rest = tree'.tokens ++ rest' → tree = tree' ∧ rest = rest'

variable {op : Connective} {q : Quantifier}

/-! ### Terms -/

/-- An argument list would be taken for the one that is missing. -/
theorem not_stops_arguments (args : DerivationTree .arguments) {rest : List Token} :
    ¬ Stops .optionalArguments (args.tokens ++ rest) := by
  intro hstop
  obtain ⟨left, tail, htokens⟩ := args.exists_tokens_arguments
  rw [htokens] at hstop
  exact absurd hstop.isContinuedBy (by decide)

theorem determined_noArguments : Determined .noArguments := by
  intro tree' rest rest' hstop hstop' h
  cases tree' with
  | noArguments => exact ⟨rfl, h⟩
  | someArguments args =>
    obtain rfl : rest = args.tokens ++ rest' := h
    exact absurd hstop args.not_stops_arguments

theorem determined_someArguments {args : DerivationTree .arguments} (hargs : args.Determined) :
    Determined (.someArguments args) := by
  intro tree' rest rest' hstop hstop' h
  cases tree' with
  | noArguments =>
    obtain rfl : args.tokens ++ rest = rest' := h
    exact absurd hstop' args.not_stops_arguments
  | someArguments args' =>
    obtain ⟨rfl, hrest⟩ := hargs args' (fun _ _ => rfl) (fun _ _ => rfl) h
    exact ⟨rfl, hrest⟩

theorem determined_term {name : TokenOf .name} {args : DerivationTree .optionalArguments}
    (hargs : args.Determined) : Determined (.term name args) := by
  intro tree' rest rest' hstop hstop' h
  cases tree' with
  | term name' args' =>
    obtain ⟨rfl, hargs'⟩ := TokenOf.cons_injective h
    obtain ⟨rfl, hrest⟩ := hargs args' hstop hstop' hargs'
    exact ⟨rfl, hrest⟩

theorem determined_plain {t : DerivationTree .term} (ht : t.Determined) :
    Determined (.plain t) := by
  intro tree' rest rest' hstop hstop' h
  cases tree' with
  | plain t' =>
    obtain ⟨rfl, hrest⟩ := ht t' (stops_term_of_termLike hstop) (stops_term_of_termLike hstop') h
    exact ⟨rfl, hrest⟩
  | termEquation lhs sign rhs =>
    -- the equation goes on where the term ends, which is what must not follow the term
    simp only [tokens, List.append_assoc] at h
    obtain ⟨-, hrest⟩ := ht lhs (stops_term_of_termLike hstop) (stops_cons sign rfl) h
    rw [hrest] at hstop
    exact absurd hstop.isContinuedBy (by decide)

theorem determined_termEquation {lhs rhs : DerivationTree .term} {sign : TokenOf .equals}
    (hlhs : lhs.Determined) (hrhs : rhs.Determined) : Determined (.termEquation lhs sign rhs) := by
  intro tree' rest rest' hstop hstop' h
  cases tree' with
  | plain t =>
    simp only [tokens, List.append_assoc] at h
    obtain ⟨-, hrest⟩ := hlhs t (stops_cons sign rfl) (stops_term_of_termLike hstop') h
    rw [← hrest] at hstop'
    exact absurd hstop'.isContinuedBy (by decide)
  | termEquation lhs' sign' rhs' =>
    simp only [tokens, List.append_assoc] at h
    obtain ⟨rfl, hsign⟩ := hlhs lhs' (stops_cons sign rfl) (stops_cons sign' rfl) h
    obtain ⟨rfl, hright⟩ := TokenOf.cons_injective hsign
    obtain ⟨rfl, hrest⟩ :=
      hrhs rhs' (stops_term_of_termLike hstop) (stops_term_of_termLike hstop') hright
    exact ⟨rfl, hrest⟩

/-- Behind the left parenthesis stands a right one in one case, and a name in the other. -/
theorem emptyArguments_ne_arguments {left left' : TokenOf .leftParen}
    {right right' : TokenOf .rightParen} {first : DerivationTree .termLike}
    {more : DerivationTree .moreArguments} {rest rest' : List Token} :
    (emptyArguments left right).tokens ++ rest ≠
      (arguments left' first more right').tokens ++ rest' := by
  intro h
  obtain ⟨name, tail, htokens⟩ := first.exists_tokens_termLike
  obtain ⟨-, h⟩ := TokenOf.cons_injective h
  rw [htokens] at h
  exact absurd (TokenOf.kind_eq h) (by decide)

theorem determined_emptyArguments {left : TokenOf .leftParen} {right : TokenOf .rightParen} :
    Determined (.emptyArguments left right) := by
  intro tree' rest rest' hstop hstop' h
  cases tree' with
  | emptyArguments left' right' =>
    obtain ⟨rfl, hright⟩ := TokenOf.cons_injective h
    obtain ⟨rfl, hrest⟩ := TokenOf.cons_injective hright
    exact ⟨rfl, hrest⟩
  | arguments left' first more right' => exact absurd h emptyArguments_ne_arguments

theorem determined_arguments {left : TokenOf .leftParen} {right : TokenOf .rightParen}
    {first : DerivationTree .termLike} {more : DerivationTree .moreArguments}
    (hfirst : first.Determined) (hmore : more.Determined) :
    Determined (.arguments left first more right) := by
  intro tree' rest rest' hstop hstop' h
  cases tree' with
  | emptyArguments left' right' => exact absurd h.symm emptyArguments_ne_arguments
  | arguments left' first' more' right' =>
    have hright : Stops .moreArguments (right.1 :: rest) := stops_cons right rfl
    have hright' : Stops .moreArguments (right'.1 :: rest') := stops_cons right' rfl
    simp only [tokens, List.cons_append, List.append_assoc, List.nil_append] at h
    obtain ⟨rfl, hinner⟩ := TokenOf.cons_injective h
    obtain ⟨rfl, hothers⟩ :=
      hfirst first' (stops_argument more hright) (stops_argument more' hright') hinner
    obtain ⟨rfl, hclose⟩ := hmore more' hright hright' hothers
    obtain ⟨rfl, hrest⟩ := TokenOf.cons_injective hclose
    exact ⟨rfl, hrest⟩

theorem determined_noMoreArguments : Determined .noMoreArguments := by
  intro tree' rest rest' hstop hstop' h
  cases tree' with
  | noMoreArguments => exact ⟨rfl, h⟩
  | argument comma next more =>
    simp only [tokens, List.cons_append, List.nil_append] at h
    rw [h] at hstop
    exact absurd (Stops.isContinuedBy hstop) (by decide)

theorem determined_argument {comma : TokenOf .comma} {next : DerivationTree .termLike}
    {more : DerivationTree .moreArguments} (hnext : next.Determined) (hmore : more.Determined) :
    Determined (.argument comma next more) := by
  intro tree' rest rest' hstop hstop' h
  cases tree' with
  | noMoreArguments =>
    simp only [tokens, List.cons_append, List.nil_append] at h
    rw [← h] at hstop'
    exact absurd (Stops.isContinuedBy hstop') (by decide)
  | argument comma' next' more' =>
    simp only [tokens, List.cons_append, List.append_assoc] at h
    obtain ⟨rfl, hargs⟩ := TokenOf.cons_injective h
    obtain ⟨rfl, hothers⟩ :=
      hnext next' (stops_argument more hstop) (stops_argument more' hstop') hargs
    obtain ⟨rfl, hrest⟩ := hmore more' hstop hstop' hothers
    exact ⟨rfl, hrest⟩

/-! ### Formulas -/

theorem determined_noDot : Determined .noDot := by
  intro tree' rest rest' hstop hstop' h
  cases tree' with
  | noDot => exact ⟨rfl, h⟩
  | someDot sign =>
    obtain rfl : rest = sign.1 :: rest' := h
    exact absurd hstop.isContinuedBy (by decide)

theorem determined_someDot {sign : TokenOf .dot} : Determined (.someDot sign) := by
  intro tree' rest rest' hstop hstop' h
  cases tree' with
  | noDot =>
    obtain rfl : sign.1 :: rest = rest' := h
    exact absurd hstop'.isContinuedBy (by decide)
  | someDot sign' =>
    obtain ⟨rfl, hrest⟩ := TokenOf.cons_injective h
    exact ⟨rfl, hrest⟩

/-- Behind the arguments of a predicate stands no equals sign. -/
theorem pred_ne_equation {name name' : TokenOf .name}
    {args args' : DerivationTree .optionalArguments} {sign : TokenOf .equals}
    {rhs : DerivationTree .term} {rest rest' : List Token}
    (hargs : args.Determined) (hstop : Stops (.formula .atom) rest) :
    (pred name args).tokens ++ rest ≠ (equation name' args' sign rhs).tokens ++ rest' := by
  intro h
  simp only [tokens, List.cons_append, List.append_assoc] at h
  obtain ⟨-, hbehind⟩ := TokenOf.cons_injective h
  obtain ⟨-, rfl⟩ := hargs args' (stops_term_of_atom hstop) (stops_cons sign rfl) hbehind
  exact absurd hstop.isContinuedBy (by decide)

theorem determined_pred {name : TokenOf .name} {args : DerivationTree .optionalArguments}
    (hargs : args.Determined) : Determined (.pred name args) := by
  intro tree' rest rest' hstop hstop' h
  cases tree' with
  | pred name' args' =>
    obtain ⟨rfl, hbehind⟩ := TokenOf.cons_injective h
    obtain ⟨rfl, hrest⟩ :=
      hargs args' (stops_term_of_atom hstop) (stops_term_of_atom hstop') hbehind
    exact ⟨rfl, hrest⟩
  | equation name' args' sign rhs => exact absurd h (pred_ne_equation hargs hstop)
  | parens left inner right => exact absurd (TokenOf.kind_eq h) (by decide)

theorem determined_equation {name : TokenOf .name} {args : DerivationTree .optionalArguments}
    {sign : TokenOf .equals} {rhs : DerivationTree .term} (hargs : args.Determined)
    (hrhs : rhs.Determined) : Determined (.equation name args sign rhs) := by
  intro tree' rest rest' hstop hstop' h
  simp only [tokens, List.cons_append, List.append_assoc] at h
  cases tree' with
  | pred name' args' =>
    obtain ⟨-, hbehind⟩ := TokenOf.cons_injective h
    obtain ⟨-, rfl⟩ := hargs args' (stops_cons sign rfl) (stops_term_of_atom hstop') hbehind
    exact absurd hstop'.isContinuedBy (by decide)
  | equation name' args' sign' rhs' =>
    simp only [tokens, List.cons_append, List.append_assoc] at h
    obtain ⟨rfl, hbehind⟩ := TokenOf.cons_injective h
    obtain ⟨rfl, hsign⟩ := hargs args' (stops_cons sign rfl) (stops_cons sign' rfl) hbehind
    obtain ⟨rfl, hright⟩ := TokenOf.cons_injective hsign
    obtain ⟨rfl, hrest⟩ := hrhs rhs' (stops_term_of_atom hstop) (stops_term_of_atom hstop') hright
    exact ⟨rfl, hrest⟩
  | parens left inner right => exact absurd (TokenOf.kind_eq h) (by decide)

theorem determined_parens {left : TokenOf .leftParen} {right : TokenOf .rightParen}
    {inner : DerivationTree (.formula (.chain .iff))} (hinner : inner.Determined) :
    Determined (.parens left inner right) := by
  intro tree' rest rest' hstop hstop' h
  cases tree' with
  | pred name args => exact absurd (TokenOf.kind_eq h) (by decide)
  | equation name args sign rhs => exact absurd (TokenOf.kind_eq h) (by decide)
  | parens left' inner' right' =>
    simp only [tokens, List.cons_append, List.append_assoc, List.nil_append] at h
    obtain ⟨rfl, hinside⟩ := TokenOf.cons_injective h
    obtain ⟨rfl, hclose⟩ := hinner inner' (stops_cons right rfl) (stops_cons right' rfl) hinside
    obtain ⟨rfl, hrest⟩ := TokenOf.cons_injective hclose
    exact ⟨rfl, hrest⟩

/-- An atom starts with no sign. -/
theorem atom_ne_cons (a : DerivationTree (.formula .atom)) {kind : TokenKind} (sign : TokenOf kind)
    (hkind : kind ≠ .name ∧ kind ≠ .leftParen) {rest rest' : List Token} :
    a.tokens ++ rest ≠ sign.1 :: rest' := by
  intro h
  obtain ⟨token, tail, htokens, hfirst⟩ := a.exists_tokens_atom
  rw [htokens, List.cons_append, List.cons.injEq] at h
  rw [h.1, sign.2] at hfirst
  exact hfirst.elim hkind.1 hkind.2

theorem determined_atom {a : DerivationTree (.formula .atom)} (ha : a.Determined) :
    Determined (.atom a) := by
  intro tree' rest rest' hstop hstop' h
  cases tree' with
  | not sign arg => exact absurd h (a.atom_ne_cons sign (by decide))
  | quant q sign x dot scope => exact absurd h (a.atom_ne_cons sign (by simp))
  | atom a' =>
    obtain ⟨rfl, hrest⟩ := ha a' hstop hstop' h
    exact ⟨rfl, hrest⟩

theorem determined_not {sign : TokenOf .not} {arg : DerivationTree (.formula .unary)}
    (harg : arg.Determined) : Determined (.not sign arg) := by
  intro tree' rest rest' hstop hstop' h
  cases tree' with
  | not sign' arg' =>
    obtain ⟨rfl, hbehind⟩ := TokenOf.cons_injective h
    obtain ⟨rfl, hrest⟩ := harg arg' hstop hstop' hbehind
    exact ⟨rfl, hrest⟩
  | quant q sign' x dot scope => exact absurd (TokenOf.kind_eq h) (by simp)
  | atom a => exact absurd h.symm (a.atom_ne_cons sign (by decide))

theorem determined_quant {sign : TokenOf (.quantifier q)} {x : TokenOf .name}
    {dot : DerivationTree .optionalDot} {scope : DerivationTree (.formula .unary)}
    (hdot : dot.Determined) (hscope : scope.Determined) :
    Determined (.quant q sign x dot scope) := by
  intro tree' rest rest' hstop hstop' h
  cases tree' with
  | not sign' arg => exact absurd (TokenOf.kind_eq h) (by simp)
  | quant q' sign' x' dot' scope' =>
    simp only [tokens, List.cons_append, List.append_assoc] at h
    -- the sign in front tells which quantifier it is
    have hq := TokenOf.kind_eq h
    rw [TokenKind.quantifier.injEq] at hq
    subst hq
    obtain ⟨rfl, hvariable⟩ := TokenOf.cons_injective h
    obtain ⟨rfl, hbehind⟩ := TokenOf.cons_injective hvariable
    obtain ⟨rfl, hinside⟩ := hdot dot' (stops_dot scope) (stops_dot scope') hbehind
    obtain ⟨rfl, hrest⟩ := hscope scope' hstop hstop' hinside
    exact ⟨rfl, hrest⟩
  | atom a => exact absurd h.symm (a.atom_ne_cons sign (by simp))

theorem determined_noOperands : Determined (.noOperands op) := by
  intro tree' rest rest' hstop hstop' h
  cases tree' with
  | noOperands => exact ⟨rfl, h⟩
  | operand _ sign next more =>
    obtain rfl : rest = sign.1 :: (next.tokens ++ more.tokens) ++ rest' := h
    exact absurd hstop.isContinuedBy (by simp [GrammarSymbol.isContinuedBy, isContinuedBy_self])

theorem determined_operand {sign : TokenOf (.connective op)}
    {next : DerivationTree (.formula (operandLevel op))} {more : DerivationTree (.moreOperands op)}
    (hnext : next.Determined) (hmore : more.Determined) :
    Determined (.operand op sign next more) := by
  intro tree' rest rest' hstop hstop' h
  cases tree' with
  | noOperands =>
    obtain rfl : sign.1 :: (next.tokens ++ more.tokens) ++ rest = rest' := h
    exact absurd hstop'.isContinuedBy (by simp [GrammarSymbol.isContinuedBy, isContinuedBy_self])
  | operand _ sign' next' more' =>
    simp only [tokens, List.cons_append, List.append_assoc] at h
    obtain ⟨rfl, hbehind⟩ := TokenOf.cons_injective h
    obtain ⟨rfl, hothers⟩ :=
      hnext next' (stops_operand more hstop) (stops_operand more' hstop') hbehind
    obtain ⟨rfl, hrest⟩ := hmore more' hstop hstop' hothers
    exact ⟨rfl, hrest⟩

theorem determined_chain {first : DerivationTree (.formula (operandLevel op))}
    {more : DerivationTree (.moreOperands op)} (hfirst : first.Determined)
    (hmore : more.Determined) : Determined (.chain op first more) := by
  intro tree' rest rest' hstop hstop' h
  cases tree' with
  | chain _ first' more' =>
    simp only [tokens, List.append_assoc] at h
    obtain ⟨rfl, hothers⟩ :=
      hfirst first' (stops_operand more hstop) (stops_operand more' hstop') h
    obtain ⟨rfl, hrest⟩ := hmore more' hstop hstop' hothers
    exact ⟨rfl, hrest⟩

/-! ### All trees -/

/-- Every tree is the only one for its tokens, whatever stands behind them that stops it. -/
theorem determined {s : GrammarSymbol} (tree : DerivationTree s) : tree.Determined := by
  induction tree with
  | chain op first more ihfirst ihmore => exact determined_chain ihfirst ihmore
  | noOperands op => exact determined_noOperands
  | operand op sign next more ihnext ihmore => exact determined_operand ihnext ihmore
  | not sign arg ih => exact determined_not ih
  | quant q sign x dot scope ihdot ihscope => exact determined_quant ihdot ihscope
  | atom a ih => exact determined_atom ih
  | noDot => exact determined_noDot
  | someDot sign => exact determined_someDot
  | pred name args ih => exact determined_pred ih
  | equation name args sign rhs ihargs ihrhs => exact determined_equation ihargs ihrhs
  | parens left inner right ih => exact determined_parens ih
  | term name args ih => exact determined_term ih
  | plain t ih => exact determined_plain ih
  | termEquation lhs sign rhs ihlhs ihrhs => exact determined_termEquation ihlhs ihrhs
  | noArguments => exact determined_noArguments
  | someArguments args ih => exact determined_someArguments ih
  | emptyArguments left right => exact determined_emptyArguments
  | arguments left first more right ihfirst ihmore => exact determined_arguments ihfirst ihmore
  | noMoreArguments => exact determined_noMoreArguments
  | argument comma next more ihnext ihmore => exact determined_argument ihnext ihmore

/-- Trees with the same symbol at the root and the same leaves are equal. -/
theorem tokens_injective {s : GrammarSymbol} :
    Function.Injective (tokens : DerivationTree s → List Token) := by
  intro tree tree' h
  have happend : tree.tokens ++ [] = tree'.tokens ++ [] := by rw [h]
  exact (tree.determined tree' (stops_nil s) (stops_nil s) happend).1

end DerivationTree

end LogicForms.Surface
