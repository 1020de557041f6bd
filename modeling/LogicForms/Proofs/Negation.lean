import Mathlib.Logic.Basic
import LogicForms.Forms.Negation
import LogicForms.Proofs.Coincidence

/-!
# Negation normal form keeps the meaning

The negation normal form of a formula is true if the formula is, and that of its negation if the
negation is (`holds_nnf`). It is what it is called, for both polarities and all connectives
(`isNnf_nnf`). Resolving implications and equivalences beforehand does not change the meaning either
(`holds_expandArrows`).

A quantifier in front of which a negation has been pushed inward becomes its dual, and so does a
conjunction or a disjunction; the induction is on the formula for both polarities at once. It needs
no more than the conditions for negations, connectives and quantifiers (`TruthConditions`), so that
it covers every notion of truth that has them, whatever it makes of atoms.

What is put together from the parts of a formula alike for all connectives and quantifiers, such as
its names and its free variables, is the same afterwards (`IsCollected`).
-/

set_option autoImplicit false

namespace LogicForms

universe u v

/-- The dual quantifier of the negated statements is the negation of the quantifier. -/
theorem Quantifier.holds_dual {D : Type u} (q : Quantifier) (p : D → Prop) :
    (q.dual.Holds fun d => ¬ p d) ↔ ¬ q.Holds p := by
  cases q with
  | universal => exact not_forall.symm
  | existential => exact not_exists.symm

/-- The two implications that an equivalence is resolved into hold if the equivalence does. -/
theorem Connective.holds_arrows (a b : Prop) :
    ((¬ a ∨ b) ∧ (¬ b ∨ a)) ↔ Connective.iff.Holds a b := by
  rw [or_comm (a := ¬ b)]
  exact iff_iff_not_or_and_or_not.symm

/-- A conjunction or disjunction stays one of them under a negation. -/
theorem Connective.under_eq_and_or {op : Connective} (hop : op = .and ∨ op = .or)
    (negated : Bool) : op.under negated = .and ∨ op.under negated = .or := by
  rcases hop with rfl | rfl <;> cases negated <;> simp [Connective.under, Connective.dual]

namespace Formula

/-- For conjunctions and disjunctions, negation normal forms are put together in the same way. -/
theorem nnf_junction {op : Connective} (hop : op = .and ∨ op = .or) (f g : Formula)
    (negated : Bool) :
    (binary op f g).nnf negated = .binary (op.under negated) (f.nnf negated) (g.nnf negated) := by
  rcases hop with rfl | rfl <;> rfl

/-! ### Truth -/

/-- A notion of truth in states that goes by the usual conditions for negations, connectives and
quantifiers, where a quantifier ranges over the states that it changes the given one into. About
atoms nothing is said. -/
structure TruthConditions {S : Type v} {D : Type u} (update : S → String → D → S)
    (truth : Formula → S → Prop) : Prop where
  not : ∀ f s, truth (.not f) s ↔ ¬ truth f s
  binary : ∀ op f g s, truth (.binary op f g) s ↔ op.Holds (truth f s) (truth g s)
  quant : ∀ q x f s, truth (.quant q x f) s ↔ q.Holds fun d => truth f (update s x d)

namespace TruthConditions

variable {S : Type v} {D : Type u} {update : S → String → D → S} {truth : Formula → S → Prop}

/-- Connectives do not distinguish arguments that are true together. -/
theorem binary_congr (h : TruthConditions update truth) (op : Connective) {f g : Formula}
    {a b : Prop} {s : S} (hf : truth f s ↔ a) (hg : truth g s ↔ b) :
    truth (.binary op f g) s ↔ op.Holds a b :=
  (h.binary op f g s).trans (op.holds_congr hf hg)

/-- Resolving implications and equivalences keeps the truth value. -/
theorem expandArrows_iff (h : TruthConditions update truth) (f : Formula) (s : S) :
    truth f.expandArrows s ↔ truth f s := by
  induction f generalizing s with
  | pred p args => rfl
  | eq t u => rfl
  | not f ih => rw [expandArrows, h.not, h.not, ih]
  | binary op f g ihf ihg =>
    have hnot (k : Formula) (hk : truth k.expandArrows s ↔ truth k s) :
        truth (.not k.expandArrows) s ↔ ¬ truth k s := (h.not _ s).trans (not_congr hk)
    rw [h.binary]
    cases op with
    | and => exact h.binary_congr .and (ihf s) (ihg s)
    | or => exact h.binary_congr .or (ihf s) (ihg s)
    | implies => exact (h.binary_congr .or (hnot f (ihf s)) (ihg s)).trans imp_iff_not_or.symm
    | iff =>
      exact (h.binary_congr .and (h.binary_congr .or (hnot f (ihf s)) (ihg s))
        (h.binary_congr .or (hnot g (ihg s)) (ihf s))).trans (Connective.holds_arrows _ _)
  | quant q x f ih =>
    rw [expandArrows, h.quant, h.quant]
    exact q.holds_congr fun d => ih (update s x d)

/-- The negation normal form of a formula or of its negation has the truth value of the formula or
of its negation. -/
theorem nnf_iff (h : TruthConditions update truth) (f : Formula) (negated : Bool) (s : S) :
    truth (f.nnf negated) s ↔ truth (literal f negated) s := by
  induction f generalizing negated s with
  | pred p args => rfl
  | eq t u => rfl
  | not f ih =>
    rw [nnf, ih]
    cases negated with
    | false => rfl
    | true =>
      calc truth f s ↔ ¬ ¬ truth f s := not_not.symm
        _ ↔ ¬ truth (.not f) s := not_congr (h.not f s).symm
        _ ↔ truth (.not (.not f)) s := (h.not _ s).symm
  | binary op f g ihf ihg =>
    have hf : truth (f.nnf false) s ↔ truth f s := ihf false s
    have hg : truth (g.nnf false) s ↔ truth g s := ihg false s
    have hf' : truth (f.nnf true) s ↔ ¬ truth f s := (ihf true s).trans (h.not f s)
    have hg' : truth (g.nnf true) s ↔ ¬ truth g s := (ihg true s).trans (h.not g s)
    cases negated with
    | false =>
      rw [literal, if_neg Bool.false_ne_true, h.binary]
      cases op with
      | and => exact h.binary_congr .and hf hg
      | or => exact h.binary_congr .or hf hg
      | implies => exact (h.binary_congr .or hf' hg).trans imp_iff_not_or.symm
      | iff =>
        exact (h.binary_congr .and (h.binary_congr .or hf' hg) (h.binary_congr .or hg' hf)).trans
          (Connective.holds_arrows _ _)
    | true =>
      rw [literal, if_pos rfl, h.not, h.binary]
      cases op with
      | and => exact (h.binary_congr .or hf' hg').trans not_and_or.symm
      | or => exact (h.binary_congr .and hf' hg').trans not_or.symm
      | implies => exact (h.binary_congr .and hf hg').trans Classical.not_imp.symm
      | iff =>
        -- negated, the two implications become the two ways in which the sides can differ
        exact (h.binary_congr .or (h.binary_congr .and hf hg')
          (h.binary_congr .and hg hf')).trans (xor_iff_not_iff _ _)
  | quant q x f ih =>
    cases negated with
    | false =>
      rw [literal, if_neg Bool.false_ne_true, nnf, h.quant, h.quant]
      exact q.holds_congr fun d => ih false (update s x d)
    | true =>
      rw [literal, if_pos rfl, nnf, h.not, h.quant, h.quant]
      have hscope (d : D) : truth (f.nnf true) (update s x d) ↔ ¬ truth f (update s x d) :=
        (ih true (update s x d)).trans (h.not f _)
      exact (q.dual.holds_congr hscope).trans (q.holds_dual fun d => truth f (update s x d))

end TruthConditions

section

variable {D : Type u} (M : Structure D)

/-- Truth in a structure is a notion of truth in valuations. -/
theorem truthConditions_holds : TruthConditions Valuation.update fun f v => f.Holds M v :=
  ⟨fun _ _ => Iff.rfl, fun _ _ _ _ => Iff.rfl, fun _ _ _ _ => Iff.rfl⟩

/-- Resolving implications and equivalences keeps the truth value. -/
theorem holds_expandArrows (f : Formula) (v : Valuation D) :
    f.expandArrows.Holds M v ↔ f.Holds M v :=
  (truthConditions_holds M).expandArrows_iff f v

/-- The negation normal form of a formula or of its negation has the truth value of the formula or
of its negation. -/
theorem holds_nnf (f : Formula) (negated : Bool) (v : Valuation D) :
    (f.nnf negated).Holds M v ↔ (literal f negated).Holds M v :=
  (truthConditions_holds M).nnf_iff f negated v

end

/-! ### What is collected from the parts -/

/-- A property that a binary formula has if both its arguments have it or, where `op` is a
disjunction, if one of them has it. Negations and the kinds of connectives and quantifiers do not
matter to it. -/
structure IsCollected (op : Connective) (p : Formula → Prop) : Prop where
  junction : op = .and ∨ op = .or
  not : ∀ f, p (.not f) ↔ p f
  binary : ∀ op' f g, p (.binary op' f g) ↔ op.Holds (p f) (p g)
  quant : ∀ q q' x {f g}, (p f ↔ p g) → (p (.quant q x f) ↔ p (.quant q' x g))

namespace IsCollected

variable {op : Connective} {p : Formula → Prop}

/-- The arguments of an equivalence occur twice when it is resolved, in both orders. -/
theorem holds_both_orders (h : IsCollected op p) (a b : Prop) :
    op.Holds (op.Holds a b) (op.Holds b a) ↔ op.Holds a b := by
  rcases h.junction with rfl | rfl
  · exact ⟨And.left, fun hab => ⟨hab, hab.symm⟩⟩
  · exact ⟨fun hab => hab.elim id Or.symm, Or.inl⟩

/-- When one argument is distributed over the other, it occurs twice. -/
theorem holds_distrib_right (h : IsCollected op p) (a b c : Prop) :
    op.Holds (op.Holds a b) c ↔ op.Holds (op.Holds a c) (op.Holds b c) := by
  rcases h.junction with rfl | rfl
  · exact and_and_right
  · exact or_or_distrib_right

theorem holds_distrib_left (h : IsCollected op p) (a b c : Prop) :
    op.Holds a (op.Holds b c) ↔ op.Holds (op.Holds a b) (op.Holds a c) := by
  rcases h.junction with rfl | rfl
  · exact and_and_left
  · exact or_or_distrib_left

theorem expandArrows_iff (h : IsCollected op p) (f : Formula) : p f.expandArrows ↔ p f := by
  induction f with
  | pred r args => rfl
  | eq s t => rfl
  | not f ih => rw [expandArrows, h.not, h.not, ih]
  | binary op' f g ihf ihg =>
    cases op' with
    | and | or => rw [expandArrows, h.binary, h.binary, ihf, ihg]
    | implies => rw [expandArrows, h.binary, h.binary, h.not, ihf, ihg]
    | iff =>
      simp only [expandArrows, h.binary, h.not, ihf, ihg]
      exact h.holds_both_orders _ _
  | quant q x f ih => exact h.quant q q x ih

theorem nnf_iff (h : IsCollected op p) (f : Formula) (negated : Bool) :
    p (f.nnf negated) ↔ p f := by
  induction f generalizing negated with
  | pred r args =>
    cases negated with
    | false => rfl
    | true => exact h.not _
  | eq s t =>
    cases negated with
    | false => rfl
    | true => exact h.not _
  | not f ih => rw [nnf, ih, h.not]
  | binary op' f g ihf ihg =>
    cases op' with
    | and | or | implies => rw [nnf, h.binary, h.binary, ihf, ihg]
    | iff =>
      simp only [nnf, h.binary, ihf, ihg]
      exact h.holds_both_orders _ _
  | quant q x f ih => exact h.quant (q.under negated) q x (ih negated)

end IsCollected

/-! ### Names and variables -/

/-- Occurrences of a name are collected. -/
theorem isCollected_mem_symbols (c : String) : IsCollected .or fun f => c ∈ f.symbols where
  junction := Or.inr rfl
  not _ := Iff.rfl
  binary _ _ _ := List.mem_append
  quant q q' x f g h := by rw [symbols_quant, symbols_quant, List.mem_cons, List.mem_cons, h]

/-- Free occurrences of a variable are collected. -/
theorem isCollected_mem_freeVars (x : String) : IsCollected .or fun f => x ∈ f.freeVars where
  junction := Or.inr rfl
  not _ := Iff.rfl
  binary _ _ _ := List.mem_append
  quant q q' y f g h := by rw [mem_freeVars_quant, mem_freeVars_quant, h]

/-- Resolving implications and equivalences neither adds nor loses a name, though it repeats some.
-/
@[simp] theorem mem_symbols_expandArrows {f : Formula} {c : String} :
    c ∈ f.expandArrows.symbols ↔ c ∈ f.symbols :=
  (isCollected_mem_symbols c).expandArrows_iff f

/-- A negation normal form has the names of the formula. -/
@[simp] theorem mem_symbols_nnf {f : Formula} {negated : Bool} {c : String} :
    c ∈ (f.nnf negated).symbols ↔ c ∈ f.symbols :=
  (isCollected_mem_symbols c).nnf_iff f negated

/-- A formula without quantifiers is put together from parts without quantifiers. -/
theorem isCollected_isQuantifierFree : IsCollected .and fun f => f.isQuantifierFree = true where
  junction := Or.inl rfl
  not _ := Iff.rfl
  binary _ _ _ := Bool.and_eq_true_iff
  quant _ _ _ _ _ _ := Iff.rfl

/-- Pushing negations inward brings in no quantifiers. -/
@[simp] theorem isQuantifierFree_nnf (f : Formula) (negated : Bool) :
    (f.nnf negated).isQuantifierFree = f.isQuantifierFree :=
  Bool.eq_iff_iff.2 (isCollected_isQuantifierFree.nnf_iff f negated)

/-! ### Shape -/

/-- In negation normal form, there are conjunctions and disjunctions only, of formulas in negation
normal form. -/
theorem isNnf_binary_iff {op : Connective} {f g : Formula} :
    (binary op f g).isNnf = true ↔
      (op = .and ∨ op = .or) ∧ f.isNnf = true ∧ g.isNnf = true := by
  cases op <;> simp [isNnf]

/-- An atom and its negation are in negation normal form. -/
theorem isNnf_literal {f : Formula} (h : f.isAtomic = true) (negated : Bool) :
    (literal f negated).isNnf = true := by
  cases negated with
  | false => exact isNnf_of_isLiteral (isLiteral_of_isAtomic h)
  | true => exact h

/-- A conjunction or disjunction of formulas in negation normal form, also where a negation turns
one into the other, is in negation normal form. -/
theorem isNnf_binary_under {op : Connective} (hop : op = .and ∨ op = .or) (negated : Bool)
    {f g : Formula} (hf : f.isNnf = true) (hg : g.isNnf = true) :
    (binary (op.under negated) f g).isNnf = true :=
  isNnf_binary_iff.2 ⟨Connective.under_eq_and_or hop negated, hf, hg⟩

/-- What is called negation normal form is in negation normal form. -/
theorem isNnf_nnf (f : Formula) (negated : Bool) : (f.nnf negated).isNnf = true := by
  induction f generalizing negated with
  | pred p args => exact isNnf_literal rfl negated
  | eq s t => exact isNnf_literal rfl negated
  | not f ih => exact ih !negated
  | binary op f g ihf ihg =>
    cases op with
    | and => exact isNnf_binary_under (Or.inl rfl) negated (ihf negated) (ihg negated)
    | or => exact isNnf_binary_under (Or.inr rfl) negated (ihf negated) (ihg negated)
    | implies => exact isNnf_binary_under (Or.inr rfl) negated (ihf !negated) (ihg negated)
    | iff =>
      exact isNnf_binary_under (Or.inl rfl) negated
        (isNnf_binary_under (Or.inr rfl) negated (ihf !negated) (ihg negated))
        (isNnf_binary_under (Or.inr rfl) negated (ihg !negated) (ihf negated))
  | quant q x f ih => exact ih negated

end Formula

end LogicForms
