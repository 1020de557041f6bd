import LogicForms.Proofs.Negation

/-!
# Pushing negations inward by rules

`Formula.Pushed` says, rule by rule, how a negation is pushed inward. The flag says whether there is
one. Implications and equivalences are rewritten first, and the result, which can be larger, is
treated again under the same flag. Every formula has exactly one result by these rules, its negation
normal form (`pushed_iff`).

Pushing negations inward twice is doing it once, with the flags taken together (`nnf_nnf`). To
resolve implications and equivalences beforehand takes other formulas on the way, but leads to the
same one (`nnf_expandArrows`). What has the form already stays as it is (`nnf_eq_self_iff`,
`expandArrows_eq_self_iff`).

`nnf_correct` puts together what the two conversions are for.
-/

set_option autoImplicit false

namespace LogicForms

universe u

/-! ### Flags -/

/-- Two negations in front of a connective make it its dual twice. -/
theorem Connective.under_under {op : Connective} (hop : op = .and ∨ op = .or) (n m : Bool) :
    (op.under n).under m = op.under (n ^^ m) := by
  rcases hop with rfl | rfl <;> cases n <;> cases m <;> rfl

theorem Quantifier.under_under (q : Quantifier) (n m : Bool) :
    (q.under n).under m = q.under (n ^^ m) := by
  cases q <;> cases n <;> cases m <;> rfl

namespace Formula

/-! ### The rules -/

/-- Pushing a negation inward if `negated`, and treating the formula as it is otherwise, gives
another formula. -/
inductive Pushed : (negated : Bool) → Formula → Formula → Prop
  | atom {negated : Bool} {f : Formula} (h : f.isAtomic = true) :
      Pushed negated f (literal f negated)
  | not {negated : Bool} {f g : Formula} (h : Pushed (!negated) f g) : Pushed negated (.not f) g
  | junction {negated : Bool} {op : Connective} {f g f' g' : Formula} (hop : op = .and ∨ op = .or)
      (hf : Pushed negated f f') (hg : Pushed negated g g') :
      Pushed negated (.binary op f g) (.binary (op.under negated) f' g')
  | implies {negated : Bool} {f g k : Formula} (h : Pushed negated (.or (.not f) g) k) :
      Pushed negated (.implies f g) k
  | iff {negated : Bool} {f g k : Formula}
      (h : Pushed negated (.and (.implies f g) (.implies g f)) k) : Pushed negated (.iff f g) k
  | quant {negated : Bool} {q : Quantifier} {x : String} {f g : Formula} (h : Pushed negated f g) :
      Pushed negated (.quant q x f) (.quant (q.under negated) x g)

/-- The rules lead to the negation normal form only. -/
theorem Pushed.eq_nnf {negated : Bool} {f g : Formula} (h : Pushed negated f g) :
    g = f.nnf negated := by
  induction h with
  | @atom negated f h =>
    cases f with
    | pred | eq => rfl
    | not | binary | quant => simp at h
  | not h ih => exact ih
  | junction hop hf hg ihf ihg => rw [nnf_junction hop, ihf, ihg]
  -- what is rewritten has the normal form of what it is rewritten into
  | implies h ih => exact ih
  | iff h ih => exact ih
  | @quant negated q x f g h ih => rw [ih, nnf]

/-- The rules come to an end for every formula, although implications and equivalences get larger.
-/
theorem pushed_nnf (f : Formula) (negated : Bool) : Pushed negated f (f.nnf negated) := by
  induction f generalizing negated with
  | pred p args => exact .atom rfl
  | eq s t => exact .atom rfl
  | not f ih => exact .not (ih !negated)
  | binary op f g ihf ihg =>
    have himplies {f g : Formula} (hf : Pushed (!negated) f (f.nnf !negated))
        (hg : Pushed negated g (g.nnf negated)) :
        Pushed negated (.implies f g) ((Formula.implies f g).nnf negated) :=
      .implies (.junction (Or.inr rfl) (.not hf) hg)
    cases op with
    | and => exact .junction (Or.inl rfl) (ihf negated) (ihg negated)
    | or => exact .junction (Or.inr rfl) (ihf negated) (ihg negated)
    | implies => exact himplies (ihf _) (ihg _)
    | iff =>
      exact .iff (.junction (Or.inl rfl) (himplies (ihf _) (ihg _)) (himplies (ihg _) (ihf _)))
  | quant q x f ih => exact .quant (ih negated)

/-- **The rules give the negation normal form, and nothing else.** -/
theorem pushed_iff {negated : Bool} {f g : Formula} : Pushed negated f g ↔ g = f.nnf negated := by
  constructor
  · exact Pushed.eq_nnf
  · rintro rfl
    exact f.pushed_nnf negated

/-! ### Conversions in a row -/

/-- A negation in front of a formula changes the flag. -/
theorem nnf_literal (f : Formula) (n m : Bool) : (literal f n).nnf m = f.nnf (n ^^ m) := by
  cases n with
  | false => rw [Bool.false_xor]; rfl
  | true => rw [Bool.true_xor]; rfl

/-- The rules are followed here and below, so that implications and equivalences, which are only
rewritten, leave nothing to prove. -/
theorem Pushed.nnf_eq {n : Bool} {f g : Formula} (h : Pushed n f g) (m : Bool) :
    g.nnf m = f.nnf (n ^^ m) := by
  induction h with
  | atom hf => exact nnf_literal _ _ m
  | not h ih => rw [ih, Bool.not_xor, nnf]
  | junction hop hf hg ihf ihg =>
    rw [nnf_junction (Connective.under_eq_and_or hop _), nnf_junction hop, ihf, ihg,
      Connective.under_under hop]
  | implies h ih => exact ih
  | iff h ih => exact ih
  | quant h ih => rw [nnf, nnf, ih, Quantifier.under_under]

/-- **Negations that are pushed inward one after the other count together.** -/
theorem nnf_nnf (f : Formula) (n m : Bool) : (f.nnf n).nnf m = f.nnf (n ^^ m) :=
  (f.pushed_nnf n).nnf_eq m

/-- Between conjunctions and disjunctions, both arguments are resolved. -/
theorem expandArrows_junction {op : Connective} (hop : op = .and ∨ op = .or) (f g : Formula) :
    (binary op f g).expandArrows = .binary op f.expandArrows g.expandArrows := by
  rcases hop with rfl | rfl <;> rfl

/-- An implication and the disjunction that it is rewritten into are resolved into the same formula,
and so is an equivalence. -/
theorem Pushed.nnf_expandArrows {n : Bool} {f g : Formula} (h : Pushed n f g) :
    f.expandArrows.nnf n = g := by
  induction h with
  | @atom n f hf =>
    cases f with
    | pred | eq => rfl
    | not | binary | quant => simp at hf
  | not h ih => exact ih
  | junction hop hf hg ihf ihg => rw [expandArrows_junction hop, nnf_junction hop, ihf, ihg]
  | implies h ih => exact ih
  | iff h ih => exact ih
  | quant h ih => rw [expandArrows, nnf, ih]

/-- **Resolving implications and equivalences beforehand leaves the negation normal form as it is**,
down to the order of the arguments. -/
theorem nnf_expandArrows (f : Formula) (negated : Bool) :
    f.expandArrows.nnf negated = f.nnf negated :=
  (f.pushed_nnf negated).nnf_expandArrows

/-! ### Formulas that stay as they are -/

/-- A formula in negation normal form stays as it is. -/
theorem nnf_eq_self {f : Formula} (h : f.isNnf = true) : f.nnf false = f := by
  induction f with
  | pred p args => rfl
  | eq s t => rfl
  | not f =>
    cases f with
    | pred | eq => rfl
    | not | binary | quant => simp [isNnf] at h
  | binary op f g ihf ihg =>
    obtain ⟨hop, hf, hg⟩ := isNnf_binary_iff.1 h
    rw [nnf_junction hop, ihf hf, ihg hg]
    rfl
  | quant q x f ih =>
    rw [nnf, ih h]
    rfl

/-- **The formulas that stay as they are are those in negation normal form.** -/
theorem nnf_eq_self_iff {f : Formula} : f.nnf false = f ↔ f.isNnf = true := by
  constructor
  · intro h
    rw [← h]
    exact f.isNnf_nnf false
  · exact nnf_eq_self

/-- Is the formula without implications and equivalences? Atoms are not looked into. -/
def isArrowFree : Formula → Bool
  | .pred _ _ => true
  | .eq _ _ => true
  | .not f => f.isArrowFree
  | .binary .iff _ _ => false
  | .binary .implies _ _ => false
  | .binary .and f g => f.isArrowFree && g.isArrowFree
  | .binary .or f g => f.isArrowFree && g.isArrowFree
  | .quant _ _ f => f.isArrowFree

theorem isArrowFree_binary_iff {op : Connective} {f g : Formula} :
    (binary op f g).isArrowFree = true ↔
      (op = .and ∨ op = .or) ∧ f.isArrowFree = true ∧ g.isArrowFree = true := by
  cases op <;> simp [isArrowFree]

/-- **Resolving implications and equivalences leaves none of them.** -/
theorem isArrowFree_expandArrows (f : Formula) : f.expandArrows.isArrowFree = true := by
  induction f with
  | pred p args => rfl
  | eq s t => rfl
  | not f ih => exact ih
  | binary op f g ihf ihg => cases op <;> simp [expandArrows, isArrowFree, ihf, ihg]
  | quant q x f ih => exact ih

/-- A formula without implications and equivalences stays as it is, and no other one does. -/
theorem expandArrows_eq_self_iff {f : Formula} : f.expandArrows = f ↔ f.isArrowFree = true := by
  constructor
  · intro h
    rw [← h]
    exact f.isArrowFree_expandArrows
  · intro h
    induction f with
    | pred p args => rfl
    | eq s t => rfl
    | not f ih => rw [expandArrows, ih h]
    | binary op f g ihf ihg =>
      obtain ⟨hop, hf, hg⟩ := isArrowFree_binary_iff.1 h
      rw [expandArrows_junction hop, ihf hf, ihg hg]
    | quant q x f ih => rw [expandArrows, ih h]

/-! ### Both conversions -/

/-- **Both conversions are correct, for both polarities and all connectives.** The rules for pushing
negations inward come to an end with the negation normal form, which is in negation normal form and
true exactly if the formula or, if `negated`, its negation is. A formula stays as it is exactly if
it is in negation normal form, so that a second conversion changes nothing. Resolving implications
and equivalences gives an equivalent formula without them, and changes no formula that has none. -/
theorem nnf_correct (f : Formula) (negated : Bool) :
    (∀ g, Pushed negated f g ↔ g = f.nnf negated) ∧
    (f.nnf negated).isNnf = true ∧
    (∀ {D : Type u} (M : Structure D) (v : Valuation D),
      (f.nnf negated).Holds M v ↔ if negated then ¬ f.Holds M v else f.Holds M v) ∧
    (f.nnf false = f ↔ f.isNnf = true) ∧
    (f.nnf negated).nnf false = f.nnf negated ∧
    Equivalent.{u} f.expandArrows f ∧
    f.expandArrows.isArrowFree = true ∧
    (f.expandArrows = f ↔ f.isArrowFree = true) := by
  have hholds {D : Type u} (M : Structure D) (v : Valuation D) :
      (f.nnf negated).Holds M v ↔ if negated then ¬ f.Holds M v else f.Holds M v := by
    rw [holds_nnf]
    cases negated <;> rfl
  have hidempotent : (f.nnf negated).nnf false = f.nnf negated := by
    rw [nnf_nnf, Bool.xor_false]
  exact ⟨fun _ => pushed_iff, f.isNnf_nnf negated, hholds, nnf_eq_self_iff, hidempotent,
    fun D _ M v => f.holds_expandArrows M v, f.isArrowFree_expandArrows, expandArrows_eq_self_iff⟩

end Formula

end LogicForms
