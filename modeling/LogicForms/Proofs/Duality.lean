import LogicForms.Proofs.FixedPoints

/-!
# Duality of the normal forms

Conjunctive and disjunctive normal form differ in which of two dual connectives is the inner one.
So one of them is computed like the other one on the complement, where conjunctions and disjunctions
are exchanged and each literal is replaced by the opposite one (`Formula.complement`). The calls
correspond one by one: where the left argument is taken apart on one side it is taken apart on the
other one, and so on (`Distributes.complement`).

For a combination of literals, the complement is what pushing a negation inward gives
(`complement_eq_nnf`). Therefore one normal form of a negation is the complement of the other normal
form of the formula, with the same calls and with the same budgets that are enough
(`ofPrenex_not`).
-/

set_option autoImplicit false

namespace LogicForms

/-! ### Complements -/

namespace Formula

variable {f : Formula}

/-- The combination of literals with conjunctions and disjunctions exchanged and each literal
replaced by the opposite one. -/
def complement : Formula → Formula
  | .binary op f g => .binary op.dual f.complement g.complement
  | .not f => f
  | f => .not f

theorem complement_binary (op : Connective) (f g : Formula) :
    (binary op f g).complement = .binary op.dual f.complement g.complement := rfl

/-- The opposite of a literal is a literal. -/
theorem isLiteral_complement (h : f.isLiteral = true) : f.complement.isLiteral = true := by
  cases f with
  | pred | eq => rfl
  | not f =>
    cases f with
    | pred | eq => rfl
    | not | binary | quant => simp at h
  | binary | quant => simp at h

/-- What is not put together by a connective has a complement that is not put together by its dual.
-/
theorem arguments?_complement (h : f.IsCombination) {op : Connective}
    (hf : f.arguments? op = none) : f.complement.arguments? op.dual = none := by
  cases h with
  | literal h => exact NormalForm.arguments?_of_isLiteral (isLiteral_complement h) op.dual
  | @binary op' a b hop ha hb =>
    have hne : op' ≠ op := by
      rintro rfl
      simp [arguments?] at hf
    have hdual : op'.dual ≠ op.dual := by
      intro heq
      apply hne
      rw [← op'.dual_dual, heq, op.dual_dual]
    rw [complement_binary, arguments?, if_neg hdual]

/-- **The complement is what pushing a negation inward gives.** -/
theorem complement_eq_nnf (h : f.IsCombination) : f.complement = f.nnf true := by
  induction h with
  | @literal f h =>
    cases f with
    | pred | eq => rfl
    | not f =>
      cases f with
      | pred | eq => rfl
      | not | binary | quant => simp at h
    | binary | quant => simp at h
  | binary hop _ _ ihf ihg =>
    rw [complement_binary, nnf_junction hop, ihf, ihg]
    rfl

/-- Without quantifiers, a formula and its negation have complementary negation normal forms. -/
theorem complement_nnf (h : f.isQuantifierFree = true) (negated : Bool) :
    (f.nnf negated).complement = f.nnf !negated := by
  rw [complement_eq_nnf (IsCombination.nnf_of_isQuantifierFree h negated), nnf_nnf, Bool.xor_true]

/-- The complement of the complement is the formula itself. -/
theorem complement_complement (h : f.IsCombination) : f.complement.complement = f := by
  rw [complement_eq_nnf h, complement_nnf h.isQuantifierFree]
  exact nnf_eq_self h.isNnf

/-- A formula without quantifiers is its own matrix. -/
theorem matrix_of_isQuantifierFree (h : f.isQuantifierFree = true) :
    f.matrix = f ∧ f.leading = [] :=
  matrix_quantify (isQuantified_of_isQuantifierFree h) []

end Formula

/-! ### Distributions of complements -/

namespace NormalForm

open Formula

variable {form : NormalForm} {f g : Formula} {n : Nat}

theorem dual_dual (form : NormalForm) : form.dual.dual = form := by cases form <;> rfl

theorem dual_inner (form : NormalForm) : form.inner.dual = form.dual.inner := by
  cases form <;> rfl

theorem dual_outer (form : NormalForm) : form.outer.dual = form.dual.outer := by
  cases form <;> rfl

/-- **The complement is distributed to the complement**, for the dual normal form and in the same
number of calls. -/
theorem Distributes.complement (h : Distributes form f g n) :
    Distributes form.dual f.complement g.complement n := by
  have hfree {k l : Formula} {m : Nat} (hk : Distributes form k l m)
      (hl : l.arguments? form.outer = none) :
      l.complement.arguments? form.dual.outer = none := by
    rw [← dual_outer]
    exact arguments?_complement hk.isNormal.isCombination hl
  induction h with
  | literal h => exact .literal (isLiteral_complement h)
  | outer _ _ iha ihb =>
    rw [complement_binary, complement_binary, dual_outer]
    exact .outer iha ihb
  | left _ _ _ _ iha ihb ihk ihl =>
    rw [complement_binary, dual_outer] at iha
    rw [complement_binary, dual_inner] at ihk ihl
    rw [complement_binary, complement_binary, dual_inner, dual_outer]
    exact .left iha ihb ihk ihl
  | right ha hlhs _ _ _ iha ihb ihk ihl =>
    rw [complement_binary, dual_outer] at ihb
    rw [complement_binary, dual_inner] at ihk ihl
    rw [complement_binary, complement_binary, dual_inner, dual_outer]
    exact .right iha (hfree ha hlhs) ihb ihk ihl
  | inner ha hlhs hb hrhs iha ihb =>
    rw [complement_binary, complement_binary, dual_inner]
    exact .inner iha (hfree ha hlhs) ihb (hfree hb hrhs)

/-! ### Normal forms of negations -/

/-- The distribution for the negation of a formula is that for the formula and the dual normal form,
with complements. -/
theorem Distributes.not (hf : f.isQuantifierFree = true)
    (h : Distributes form.dual (f.nnf false) g n) :
    Distributes form ((Formula.not f).matrix.nnf false) g.complement n := by
  have hcomplement := h.complement
  rw [dual_dual, complement_nnf hf] at hcomplement
  exact hcomplement

/-- **The normal forms are dual to each other under negation.** For every formula without
quantifiers and every budget, the negation has a result if the formula has one for the dual normal
form, and conversely. Each result is then the complement of the other one, node by node. In any case
the same number of units is consumed: the budgets that are left are equal, also if they are
exceeded. -/
theorem ofPrenex_not (form : NormalForm) {f : Formula} (hf : f.isQuantifierFree = true)
    (budget : Budget) :
    (form.ofPrenex (.not f) budget).2 = (form.dual.ofPrenex f budget).2 ∧
      (∀ k, (form.ofPrenex (.not f) budget).1 = .ok k ↔
        ∃ g, (form.dual.ofPrenex f budget).1 = .ok g ∧ k = g.complement) ∧
      (∀ g, (form.dual.ofPrenex f budget).1 = .ok g ↔
        ∃ k, (form.ofPrenex (.not f) budget).1 = .ok k ∧ g = k.complement) ∧
      ((form.ofPrenex (.not f) budget).1 = .error (.exceeded ⟨form.label, budget.limit⟩) ↔
        (form.dual.ofPrenex f budget).1
          = .error (.exceeded ⟨form.dual.label, budget.limit⟩)) := by
  obtain ⟨hmatrix, hleading⟩ := matrix_of_isQuantifierFree hf
  obtain ⟨g, n, h⟩ :=
    exists_distributes form.dual (IsCombination.nnf_of_isQuantifierFree hf false)
  have hnot : Distributes form ((Formula.not f).matrix.nnf false) g.complement n := h.not hf
  have hinvolution := complement_complement h.isNormal.isCombination
  have hleading' : (Formula.not f).leading = [] := rfl
  rw [← hmatrix] at h
  -- there is one number of calls for both of them, and the limit is above it or not
  rcases Nat.lt_or_ge n budget.limit with hlimit | hlimit
  · rw [ofPrenex_of_lt hnot hlimit, ofPrenex_of_lt h hlimit, hleading, hleading']
    refine ⟨rfl, fun k => ?_, fun l => ?_, by simp⟩
    · constructor
      · rintro ⟨⟩
        exact ⟨g, rfl, rfl⟩
      · rintro ⟨_, ⟨⟩, rfl⟩
        rfl
    · constructor
      · rintro ⟨⟩
        exact ⟨g.complement, rfl, hinvolution.symm⟩
      · rintro ⟨_, ⟨⟩, rfl⟩
        exact congrArg Except.ok hinvolution.symm
  · rw [ofPrenex_of_le hnot hf hlimit, ofPrenex_of_le h (by rwa [hmatrix]) hlimit]
    exact ⟨rfl, by simp, by simp, by simp⟩

/-- The equivalence `P ↔ Q`, whose negation has its negations in other places. -/
def sampleEquivalence : Formula := .iff (.pred "P" []) (.pred "Q" [])

/-- The disjunctive normal form of the equivalence, which takes 29 calls. -/
def sampleCubes : Formula :=
  .or (.or (.and (.not (.pred "P" [])) (.not (.pred "Q" [])))
      (.and (.not (.pred "P" [])) (.pred "P" [])))
    (.or (.and (.pred "Q" []) (.not (.pred "Q" []))) (.and (.pred "Q" []) (.pred "P" [])))

/-- The conjunctive normal form of its negation, with the opposite literals in the same places. -/
def sampleClauses : Formula :=
  .and (.and (.or (.pred "P" []) (.pred "Q" []))
      (.or (.pred "P" []) (.not (.pred "P" []))))
    (.and (.or (.not (.pred "Q" [])) (.pred "Q" []))
      (.or (.not (.pred "Q" [])) (.not (.pred "P" []))))

theorem ofPrenex_not_sample :
    sampleEquivalence.isQuantifierFree = true ∧
      (conjunctive.dual.ofPrenex sampleEquivalence ⟨30, 30, by decide⟩).1 = .ok sampleCubes ∧
      (conjunctive.dual.ofPrenex sampleEquivalence ⟨30, 30, by decide⟩).2.remaining = 1 ∧
      (conjunctive.ofPrenex (.not sampleEquivalence) ⟨30, 30, by decide⟩).1 = .ok sampleClauses ∧
      (conjunctive.ofPrenex (.not sampleEquivalence) ⟨30, 30, by decide⟩).2.remaining = 1 := by
  have hfree : sampleEquivalence.isQuantifierFree = true := by decide
  have hcubes : conjunctive.dual.ofPrenex sampleEquivalence ⟨30, 30, by decide⟩
      = (.ok sampleCubes, ⟨30, 1, by decide⟩) := by cbv
  obtain ⟨hbudget, hresult, -, -⟩ := ofPrenex_not conjunctive hfree ⟨30, 30, by decide⟩
  rw [hbudget, hresult, hcubes]
  exact ⟨hfree, rfl, rfl, ⟨sampleCubes, rfl, by decide⟩, rfl⟩

end NormalForm

end LogicForms
