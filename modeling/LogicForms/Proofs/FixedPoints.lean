import LogicForms.Proofs.Polarity
import LogicForms.Proofs.Spending

/-!
# What a budget bounds, and what stays as it is

A distribution takes at least one call for each connective and each literal of what comes out
(`Distributes.size_le`), although it takes apart again and again what it has put together. So a
budget does not only limit the time. It also bounds the size of the result, which is at most the
number of units that are consumed.

For a normal form this bound is exact: it is distributed to itself, with one call for each of its
parts. A formula is given back if it is a normal form and there are more units than parts, and in no
other case (`ofPrenex_eq_self_iff`). A budget that was enough for a normal form is therefore enough
to repeat the operation, which then changes nothing (`ofPrenex_stable`).
-/

set_option autoImplicit false

namespace LogicForms.NormalForm

open Formula

variable {form : NormalForm} {f g : Formula} {n : Nat} {budget : Budget}

/-- **There is a call for each part of the result.** -/
theorem Distributes.size_le (h : Distributes form f g n) : g.size ≤ n := by
  induction h with
  | literal h => exact Nat.le_of_eq (size_of_isLiteral h)
  | outer _ _ iha ihb =>
    rw [size]
    omega
  -- the calls for the arguments are not needed here, as those for the parts count again
  | left _ _ _ _ _ _ ihk ihl =>
    rw [size]
    omega
  | right _ _ _ _ _ _ _ ihk ihl =>
    rw [size]
    omega
  | inner _ _ _ _ iha ihb =>
    rw [size]
    omega

/-- The units that are consumed are the calls. -/
theorem consumed_ofPrenex (h : Distributes form (f.matrix.nnf false) g n)
    (hlimit : n < budget.limit) : (form.ofPrenex f budget).2.consumed = n := by
  rw [ofPrenex_of_lt h hlimit]
  change (budget.limit : Int) - (budget.limit - n) = n
  omega

/-- The matrix of a prenex formula in normal form is distributed to itself. -/
theorem distributes_of_holds (h : form.holds f = true) :
    Distributes form (f.matrix.nnf false) f.matrix f.matrix.size := by
  have hnormal : form.IsNormal f.matrix := isNormal_iff.2 h
  rw [nnf_eq_self hnormal.isCombination.isNnf]
  exact distributes_self hnormal

/-- With more units than parts, a normal form is given back, and the parts are counted. -/
theorem ofPrenex_of_size_lt (h : form.holds f = true) (hlimit : f.matrix.size < budget.limit) :
    (form.ofPrenex f budget).1 = .ok f ∧
      (form.ofPrenex f budget).2.consumed = f.matrix.size := by
  have hself := distributes_of_holds h
  refine ⟨?_, consumed_ofPrenex hself hlimit⟩
  rw [ofPrenex_of_lt hself hlimit, quantify_leading]

/-- A result is in normal form, its matrix has at most as many parts as units are consumed, and at
least one unit is left. -/
theorem size_matrix_le_consumed (h : (form.ofPrenex f budget).1 = .ok g) :
    form.holds g = true ∧ g.matrix.size ≤ (form.ofPrenex f budget).2.consumed ∧
      (form.ofPrenex f budget).2.consumed < budget.limit := by
  obtain ⟨r, hr, rfl⟩ := ofPrenex_eq_ok_iff.1 h
  obtain ⟨n, hdistributes, hleft, hpos⟩ := distributes_of_distributeWithin _ hr
  have hnormal := hdistributes.isNormal
  obtain ⟨hmatrix, -⟩ := matrix_quantify hnormal.isCombination.isQuantified_eq f.leading
  have hsize := hdistributes.size_le
  rw [consumed_ofPrenex hdistributes (by omega), holds, hmatrix]
  exact ⟨isNormal_iff.1 hnormal, by omega, by omega⟩

/-- **The formulas that are given back are the normal forms with fewer parts than there are units.**
-/
theorem ofPrenex_eq_self_iff :
    (form.ofPrenex f budget).1 = .ok f ↔
      form.holds f = true ∧ f.matrix.size < budget.limit := by
  constructor
  · intro h
    obtain ⟨hholds, hsize, hlimit⟩ := size_matrix_le_consumed h
    exact ⟨hholds, by omega⟩
  · rintro ⟨hholds, hlimit⟩
    exact (ofPrenex_of_size_lt hholds hlimit).1

/-- **The budget bounds the result, and normal forms are fixed points.** The matrix of a result has
at most as many parts as units have been consumed, and these are fewer than the limit. With any
budget that has at least this limit, the operation gives the result back and consumes exactly one
unit for each part of the matrix. This is not a matter of how the result was obtained: every prenex
formula with a matrix in normal form is given back at this cost, and exceeds only the budgets that
cannot pay for it. -/
theorem ofPrenex_stable (form : NormalForm) (f : Formula) (budget : Budget) :
    (∀ g, (form.ofPrenex f budget).1 = .ok g →
      g.matrix.size ≤ (form.ofPrenex f budget).2.consumed ∧
      (form.ofPrenex f budget).2.consumed < budget.limit ∧
      g.matrix.size < budget.limit ∧
      ∀ budget' : Budget, budget.limit ≤ budget'.limit →
        (form.ofPrenex g budget').1 = .ok g ∧
          (form.ofPrenex g budget').2.consumed = g.matrix.size) ∧
    (form.holds f = true →
      (f.matrix.size < budget.limit →
        (form.ofPrenex f budget).1 = .ok f ∧
          (form.ofPrenex f budget).2.consumed = f.matrix.size) ∧
      (budget.limit ≤ f.matrix.size →
        (form.ofPrenex f budget).1 = .error (.exceeded ⟨form.label, budget.limit⟩))) := by
  constructor
  · intro g hg
    obtain ⟨hholds, hsize, hlimit⟩ := size_matrix_le_consumed hg
    refine ⟨hsize, hlimit, by omega, ?_⟩
    intro budget' hlimit'
    exact ofPrenex_of_size_lt hholds (by omega)
  · intro hholds
    refine ⟨ofPrenex_of_size_lt hholds, ?_⟩
    intro hlimit
    have hfree := (isNormal_iff.2 hholds).isQuantifierFree
    rw [ofPrenex_of_le (distributes_of_holds hholds) hfree hlimit]

/-- The normal form of the sample has 15 parts. It takes 29 units to get it, so a limit of 30 is
enough for it, and repeating the operation takes 15 of these units. As a formula of its own it needs
a limit of 16. -/
theorem ofPrenex_stable_sample :
    (conjunctive.ofPrenex sampleFormula ⟨30, 30, by decide⟩).1 = .ok sampleNormalForm ∧
      sampleNormalForm.matrix.size = 15 ∧
      (conjunctive.ofPrenex sampleNormalForm ⟨30, 30, by decide⟩).1 = .ok sampleNormalForm ∧
      (conjunctive.ofPrenex sampleNormalForm ⟨30, 30, by decide⟩).2.consumed = 15 ∧
      (conjunctive.ofPrenex sampleNormalForm ⟨16, 16, by decide⟩).1 = .ok sampleNormalForm ∧
      (conjunctive.ofPrenex sampleNormalForm ⟨15, 15, by decide⟩).1
        = .error (.exceeded ⟨"CNF", 15⟩) := by
  have hsample : (conjunctive.ofPrenex sampleFormula ⟨30, 30, by decide⟩).1
      = .ok sampleNormalForm := by cbv
  have hholds : conjunctive.holds sampleNormalForm = true := by decide
  obtain ⟨-, -, -, hagain⟩ := (ofPrenex_stable conjunctive sampleFormula _).1 _ hsample
  obtain ⟨hself, hconsumed⟩ := hagain ⟨30, 30, by decide⟩ (by decide)
  have hsmall := (ofPrenex_stable conjunctive sampleNormalForm ⟨16, 16, by decide⟩).2 hholds
  have hexceeded := (ofPrenex_stable conjunctive sampleNormalForm ⟨15, 15, by decide⟩).2 hholds
  exact ⟨hsample, by decide, hself, hconsumed, (hsmall.1 (by decide)).1, hexceeded.2 (by decide)⟩

end LogicForms.NormalForm
