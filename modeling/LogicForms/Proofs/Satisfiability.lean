import LogicForms.Proofs.Shapes

/-!
# Satisfiability of Skolem forms

A Skolem form has only universal quantifiers, whatever the prefix of the formula is. It is true in
the structures in which the formula is true, up to the values of the new symbols, and so it is
satisfiable exactly if the formula is (`Formula.skolemize_equisatisfiable`), as long as no variable
that an existential quantifier binds or sees in front of it is bound again behind it. A prefix may
repeat variables otherwise.

Where such a variable is bound again, the term is put in for the wrong occurrences. Then a Skolem
form can be satisfiable although the formula is not, and the other way round
(`Formula.skolemize_shadowed`).
-/

set_option autoImplicit false

namespace LogicForms.Formula

universe u

variable {f : Formula} {names : NameSupply}

/-- Behind the universal quantifiers of the prefix, in their order, a Skolem form has no
quantifiers. -/
theorem exists_matrix_skolemize (hf : f.matrix.isQuantifierFree = true) (names : NameSupply) :
    ∃ m : Formula, m.isQuantifierFree = true ∧
      (f.skolemize names).1 = m.quantify (f.leading.universals.map (Binder.mk .universal)) := by
  have hsubst (g : Formula) (σ : Substitution) (hg : g.isQuantifierFree = true) :
      (g.subst σ).isQuantifierFree = true := by
    rw [isQuantifierFree_iff, quantifiedVars_subst, ← isQuantifierFree_iff]
    exact hg
  exact exists_skolemizeBehind hsubst [] f.leading _ hf

/-- If the leading quantifiers can be treated, a formula and its Skolem form have models over the
same domains and under the same valuations. -/
theorem satisfiable_skolemize_iff
    (hs : Skolemizable [] f.leading f.matrix (names.declare f.symbols)) :
    Satisfiable.{u} (f.skolemize names).1 ↔ Satisfiable.{u} f := by
  constructor
  · rintro ⟨D, hD, M, v, h⟩
    exact ⟨D, hD, M, v, holds_of_skolemize M hs h⟩
  · rintro ⟨D, hD, M, v, h⟩
    obtain ⟨N, -, hN⟩ := exists_holds_skolemize M hs h
    exact ⟨D, hD, N, v, hN⟩

/-- **A Skolem form has only universal quantifiers, and is satisfiable exactly if the prenex formula
is**, provided that no variable that an existential quantifier binds or sees in front of it is bound
again behind it. -/
theorem skolemize_equisatisfiable (hf : f.matrix.isQuantifierFree = true) (names : NameSupply) :
    (∃ m : Formula, m.isQuantifierFree = true ∧
      (f.skolemize names).1 = m.quantify (f.leading.universals.map (Binder.mk .universal))) ∧
    (f.leading.Unshadowed [] →
      (Satisfiable.{u} (f.skolemize names).1 ↔ Satisfiable.{u} f)) := by
  refine ⟨exists_matrix_skolemize hf names, fun hp => satisfiable_skolemize_iff ?_⟩
  refine skolemizable_of_unshadowed hp (fun y _ => ?_) names
  rw [f.matrix.isQuantifierFree_iff.1 hf]
  exact List.not_mem_nil

/-- The formula `∀x ∀x ∃x ∃y R(x, y)`, where only the last quantifier of `x` counts. -/
def repeatedFormula : Formula :=
  .all "x" (.all "x" (.ex "x" (.ex "y" (.pred "R" [.var "x", .var "y"]))))

theorem skolemize_equisatisfiable_repeated :
    repeatedFormula.matrix.isQuantifierFree = true ∧ repeatedFormula.leading.Unshadowed [] ∧
      (repeatedFormula.skolemize .standard).1 = .all "x" (.all "x"
        (.pred "R" [.func "SK1" [.var "x", .var "x"], .func "SK2" [.var "x", .var "x"]])) ∧
      (Satisfiable.{u} (repeatedFormula.skolemize .standard).1 ↔ Satisfiable.{u} repeatedFormula) :=
  have hmatrix : repeatedFormula.matrix.isQuantifierFree = true := by decide
  have hprefix : repeatedFormula.leading.Unshadowed [] := by
    simp [repeatedFormula, all, ex, leading, Prefix.Unshadowed]
  ⟨hmatrix, hprefix, by decide, (skolemize_equisatisfiable hmatrix .standard).2 hprefix⟩

/-! ### Variables that are bound again -/

/-- The formula `∃x ∀x ¬(x = A)`, which is not satisfiable. -/
def gainingFormula : Formula := .ex "x" (.all "x" (.not (.eq (.var "x") (.const "A"))))

/-- The formula `∃x ∀z ∃x (x = z ∧ ¬(A = B))`, which is satisfiable. -/
def losingFormula : Formula :=
  .ex "x" (.all "z" (.ex "x"
    (.and (.eq (.var "x") (.var "z")) (.not (.eq (.const "A") (.const "B"))))))

/-- A structure with two elements, one of which is the value of `A` and of no other constant. -/
def twoElements : Structure Bool where
  const c := c == "A"
  func _ _ := true
  equation _ _ := true
  predicate _ _ := true
  negation _ := true
  connective _ _ _ := true
  quantifier _ _ _ := true
  bound _ := true
  rel _ _ := False

/-- If a variable is bound again behind an existential quantifier, a formula that is not satisfiable
can have a Skolem form that is, `∀x ¬(SK1 = A)`, and conversely a satisfiable formula one that is
not, `∀z (SK1 = z ∧ ¬(A = B))`. -/
theorem skolemize_shadowed :
    (gainingFormula.matrix.isQuantifierFree = true ∧
      Satisfiable.{0} (gainingFormula.skolemize .standard).1 ∧ ¬ Satisfiable.{0} gainingFormula) ∧
    (losingFormula.matrix.isQuantifierFree = true ∧
      ¬ Satisfiable.{0} (losingFormula.skolemize .standard).1 ∧ Satisfiable.{0} losingFormula) := by
  have hgaining : (gainingFormula.skolemize .standard).1
      = .all "x" (.not (.eq (.const "SK1") (.const "A"))) := by decide
  have hlosing : (losingFormula.skolemize .standard).1 = .all "z"
      (.and (.eq (.const "SK1") (.var "z")) (.not (.eq (.const "A") (.const "B")))) := by decide
  have hA : twoElements.const "SK1" ≠ twoElements.const "A" := by decide
  have hB : twoElements.const "A" ≠ twoElements.const "B" := by decide
  rw [hgaining, hlosing]
  refine ⟨⟨by decide, ?_, ?_⟩, by decide, ?_, ?_⟩
  · exact ⟨Bool, inferInstance, twoElements, fun _ => true, fun _ => hA⟩
  · rintro ⟨D, -, M, v, d, h⟩
    -- the inner quantifier asks for all values, that of `A` included
    exact h (M.const "A") rfl
  · rintro ⟨D, -, M, v, h⟩
    -- one and the same value is equal to all values
    have hA : M.const "SK1" = M.const "A" := (h (M.const "A")).1
    have hB : M.const "SK1" = M.const "B" := (h (M.const "B")).1
    exact (h (M.const "A")).2 (hA.symm.trans hB)
  · exact ⟨Bool, inferInstance, twoElements, fun _ => true, true, fun d => ⟨d, rfl, hB⟩⟩

end LogicForms.Formula
