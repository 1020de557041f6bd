import LogicForms.Proofs.Checks
import LogicForms.Proofs.FreeVariables

/-!
# The substitution lemma

Terms are put in for several variables at once, and nothing is renamed. As long as no term that is
put in has a variable that the formula quantifies, this is a change of the valuation, and it is
known what occurs free afterwards (`Formula.substitution_lemma`). Only terms for variables that
occur free count here: a quantifier takes its own variable out of the substitution, and what is not
put in cannot be captured.
-/

set_option autoImplicit false

namespace LogicForms.Formula

universe u

variable {f : Formula} {σ : Substitution} {x : String}

/-- Without capture, what occurs free afterwards is what the substitution has no term for, and what
occurs in the terms that it has for the variables that are free. -/
theorem mem_freeVars_subst_iff (h : σ.AvoidsCapture f) :
    x ∈ (f.subst σ).freeVars ↔
      (x ∈ f.freeVars ∧ σ.find? x = none) ∨
        ∃ y ∈ f.freeVars, ∃ t, σ.find? y = some t ∧ x ∈ t.vars := by
  rw [mem_freeVars_subst h]
  constructor
  · rintro ⟨y, hy, hxy⟩
    cases hfind : σ.find? y with
    | none =>
      rw [hfind] at hxy
      obtain rfl : x = y := List.mem_singleton.1 hxy
      exact Or.inl ⟨hy, hfind⟩
    | some t =>
      rw [hfind] at hxy
      exact Or.inr ⟨y, hy, t, hfind, hxy⟩
  · rintro (⟨hx, hfind⟩ | ⟨y, hy, t, hfind, hxt⟩)
    · refine ⟨x, hx, ?_⟩
      rw [hfind]
      exact List.mem_singleton_self x
    · refine ⟨y, hy, ?_⟩
      rw [hfind]
      exact hxt

/-- **The substitution lemma.** If no term that is put in for a free variable has a variable that is
quantified in the formula, then the formula with the terms put in is true under a valuation exactly
if the formula is true under the valuation that gives each variable with a term the value of its
term, and every other variable the value that it had. Free afterwards are the free variables without
a term, and the variables of the terms for free variables. No check refuses the result if the
arguments of predicates and equations are terms and equations, in the formula and in the terms. -/
theorem substitution_lemma (h : σ.AvoidsCapture f) :
    (∀ (D : Type u) (M : Structure D) (v w : Valuation D),
      (∀ x t, σ.find? x = some t → w x = t.value M v) → (∀ x, σ.find? x = none → w x = v x) →
        ((f.subst σ).Holds M v ↔ f.Holds M w)) ∧
    (∀ x, x ∈ (f.subst σ).freeVars ↔
      (x ∈ f.freeVars ∧ σ.find? x = none) ∨
        ∃ y ∈ f.freeVars, ∃ t, σ.find? y = some t ∧ x ∈ t.vars) ∧
    (f.HasPlainArguments → (∀ e ∈ σ, e.2.IsPlain) → f.substChecked σ = .ok (f.subst σ)) := by
  refine ⟨fun D M v w hterm hkept => ?_, fun _ => mem_freeVars_subst_iff h, fun hf hσ => ?_⟩
  · rw [holds_subst M h]
    have hw : σ.valuation M v = w := by
      funext x
      rw [Substitution.valuation]
      cases hfind : σ.find? x with
      | none => exact (hkept x hfind).symm
      | some t => exact (hterm x t hfind).symm
    rw [hw]
  · rw [substChecked, hf.subst hσ]
    rfl

/-- The formula `Q(x, y) ∧ ∃z (R(x, z) ∧ ∃x P(x, y))`, in which `x` occurs free and bound. -/
def sampleOpen : Formula :=
  .and (.pred "Q" [.var "x", .var "y"])
    (.ex "z" (.and (.pred "R" [.var "x", .var "z"]) (.ex "x" (.pred "P" [.var "x", .var "y"]))))

/-- The substitution of `y` for `x` and of `g(u, y)` for `y`, which overlap. -/
def sampleTerms : Substitution := [("x", .var "y"), ("y", .func "g" [.var "u", .var "y"])]

theorem substitution_lemma_sample :
    sampleOpen.substChecked sampleTerms = .ok
        (.and (.pred "Q" [.var "y", .func "g" [.var "u", .var "y"]])
          (.ex "z" (.and (.pred "R" [.var "y", .var "z"])
            (.ex "x" (.pred "P" [.var "x", .func "g" [.var "u", .var "y"]]))))) ∧
      (∀ (D : Type u) (M : Structure D) (v : Valuation D),
        (sampleOpen.subst sampleTerms).Holds M v ↔
          sampleOpen.Holds M ((v.update "x" (v "y")).update "y" (M.func "g" [v "u", v "y"]))) ∧
      "u" ∈ (sampleOpen.subst sampleTerms).freeVars ∧
      "x" ∉ (sampleOpen.subst sampleTerms).freeVars := by
  have hfind (x : String) : sampleTerms.find? x =
      if x = "x" then some (.var "y")
      else if x = "y" then some (.func "g" [.var "u", .var "y"]) else none := by
    rw [sampleTerms, Substitution.find?_cons, Substitution.find?_singleton]
  -- the variables of the terms are not `z` or `x`, which are quantified
  have havoids : sampleTerms.AvoidsCapture sampleOpen := by
    intro x _ t ht
    rw [hfind] at ht
    split at ht
    · cases ht
      decide
    · split at ht
      · cases ht
        decide
      · cases ht
  obtain ⟨hholds, hfree, hchecked⟩ := substitution_lemma havoids
  have hplain : ∀ e ∈ sampleTerms, e.2.IsPlain :=
    List.forall_mem_cons.2 ⟨⟨rfl, rfl⟩, List.forall_mem_singleton.2 ⟨rfl, rfl⟩⟩
  refine ⟨hchecked rfl hplain, fun D M v => hholds D M v _ ?_ ?_, ?_, ?_⟩
  · intro x t ht
    rw [hfind] at ht
    split at ht
    · subst x
      cases ht
      rfl
    · split at ht
      · subst x
        cases ht
        rfl
      · cases ht
  · intro x hx
    rw [hfind] at hx
    split at hx
    · cases hx
    · split at hx
      · cases hx
      · rename_i hne hne'
        rw [Valuation.update_of_ne _ _ hne', Valuation.update_of_ne _ _ hne]
  · exact (hfree "u").2 (Or.inr ⟨"y", by decide, _, hfind "y", by decide⟩)
  · decide

end LogicForms.Formula
