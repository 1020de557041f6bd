import LogicForms.Proofs.Coincidence

/-!
# Free and bound occurrences

The lists of free and of bound occurrences come from two passes over a formula. Here both are read
off one list, which gives each occurrence of a variable in the atoms together with the variables
bound around it (`Formula.scopedOccurrences`). An occurrence is bound if its variable is among
these, and free otherwise. So each occurrence is in exactly one of the two lists, and their orders
are those of the atoms (`Formula.free_and_bound_occurrences`).

`Complementary` is the relation of two lists that share out a third one.
-/

set_option autoImplicit false

namespace LogicForms

universe u

/-! ### Complementary subsequences -/

/-- The members of the third list, in their order, are shared out between the other two: each one,
at its place, goes to exactly one of them. -/
inductive Complementary {α : Type u} : List α → List α → List α → Prop where
  | nil : Complementary [] [] []
  /-- The first member goes to the first list. -/
  | left {a : α} {xs ys zs : List α} :
      Complementary xs ys zs → Complementary (a :: xs) ys (a :: zs)
  /-- The first member goes to the second list. -/
  | right {a : α} {xs ys zs : List α} :
      Complementary xs ys zs → Complementary xs (a :: ys) (a :: zs)

/-- What does not pass a test and what passes it are complementary. -/
theorem complementary_filter {α : Type u} (p : α → Bool) (zs : List α) :
    Complementary (zs.filter fun a => !p a) (zs.filter p) zs := by
  induction zs with
  | nil => exact .nil
  | cons a zs ih =>
    by_cases ha : p a = true
    · rw [List.filter_cons_of_neg (by simp [ha]), List.filter_cons_of_pos ha]
      exact ih.right
    · rw [List.filter_cons_of_pos (by simpa using ha), List.filter_cons_of_neg ha]
      exact ih.left

/-- Lists stay complementary if their members are replaced. -/
theorem Complementary.map {α β : Type u} (g : α → β) {xs ys zs : List α}
    (h : Complementary xs ys zs) : Complementary (xs.map g) (ys.map g) (zs.map g) := by
  induction h with
  | nil => exact .nil
  | left _ ih => exact ih.left
  | right _ ih => exact ih.right

namespace Formula

/-! ### Occurrences with their scopes -/

/-- Each occurrence of a variable in the atoms, from left to right, with the variables bound around
it: those of the quantifiers in whose scope it is, from the innermost to the outermost one, and then
those of `bound`. -/
def scopedOccurrences (bound : List String) : Formula → List (String × List String)
  | .pred _ args => (Term.varsList args).map fun x => (x, bound)
  | .eq s t => (s.vars ++ t.vars).map fun x => (x, bound)
  | .not f => f.scopedOccurrences bound
  | .binary _ f g => f.scopedOccurrences bound ++ g.scopedOccurrences bound
  | .quant _ x f => f.scopedOccurrences (x :: bound)

/-- Is an occurrence in the scope of a quantifier for its variable, or is this bound anyway? -/
def isBoundOccurrence (occurrence : String × List String) : Bool :=
  occurrence.2.contains occurrence.1

/-- The occurrences of a formula are those of its atoms. -/
theorem occurrences_eq_flatMap_atoms (f : Formula) :
    f.occurrences = f.atoms.flatMap occurrences := by
  induction f with
  | pred | eq => simp [atoms]
  | not f ih => exact ih
  | binary op f g ihf ihg => rw [occurrences_binary, atoms, List.flatMap_append, ihf, ihg]
  | quant q x f ih => exact ih

/-- Without the scopes, the occurrences are left. -/
theorem map_fst_scopedOccurrences (f : Formula) (bound : List String) :
    (f.scopedOccurrences bound).map Prod.fst = f.occurrences := by
  induction f generalizing bound with
  | pred | eq => simp [scopedOccurrences, Function.comp_def]
  | not f ih => exact ih bound
  | binary op f g ihf ihg => rw [scopedOccurrences, List.map_append, ihf, ihg, occurrences_binary]
  | quant q x f ih => exact ih (x :: bound)

/-- The free occurrences are those outside all scopes of their variables. -/
theorem freeVarsIn_eq_scoped (f : Formula) (bound : List String) :
    f.freeVarsIn bound =
      ((f.scopedOccurrences bound).filter fun o => !isBoundOccurrence o).map Prod.fst := by
  induction f generalizing bound with
  | pred | eq => simp [freeVarsIn, scopedOccurrences, List.filter_map, Function.comp_def,
      isBoundOccurrence]
  | not f ih => exact ih bound
  | binary op f g ihf ihg =>
    rw [freeVarsIn, scopedOccurrences, List.filter_append, List.map_append, ihf, ihg]
  | quant q x f ih => exact ih (x :: bound)

/-- The bound occurrences are those inside a scope of their variable. -/
theorem boundVarsIn_eq_scoped (f : Formula) (bound : List String) :
    f.boundVarsIn bound =
      ((f.scopedOccurrences bound).filter isBoundOccurrence).map Prod.fst := by
  induction f generalizing bound with
  | pred | eq => simp [boundVarsIn, scopedOccurrences, List.filter_map, Function.comp_def,
      isBoundOccurrence]
  | not f ih => exact ih bound
  | binary op f g ihf ihg =>
    rw [boundVarsIn, scopedOccurrences, List.filter_append, List.map_append, ihf, ihg]
  | quant q x f ih => exact ih (x :: bound)

/-! ### Main result -/

/-- **Every occurrence is free or bound, and truth depends on the free ones.** With the variables of
`bound` counted as bound, the free and the bound occurrences are complementary subsequences of the
occurrences in the atoms. An occurrence is among the bound ones exactly if its variable is one of
those bound around it. The free occurrences are those that are free anyway, without the variables of
`bound`. A formula has the same truth value for any two valuations that agree on its free
variables. -/
theorem free_and_bound_occurrences (f : Formula) (bound : List String) :
    Complementary (f.freeVarsIn bound) (f.boundVarsIn bound) (f.atoms.flatMap occurrences) ∧
    ((f.scopedOccurrences bound).map Prod.fst = f.atoms.flatMap occurrences ∧
      f.freeVarsIn bound =
        ((f.scopedOccurrences bound).filter fun o => !o.2.contains o.1).map Prod.fst ∧
      f.boundVarsIn bound =
        ((f.scopedOccurrences bound).filter fun o => o.2.contains o.1).map Prod.fst) ∧
    f.freeVarsIn bound = f.freeVars.filter (fun x => !bound.contains x) ∧
    ∀ (D : Type u) (M : Structure D) (v w : Valuation D),
      (∀ x ∈ f.freeVars, v x = w x) → (f.Holds M v ↔ f.Holds M w) := by
  have hall := (f.map_fst_scopedOccurrences bound).trans f.occurrences_eq_flatMap_atoms
  have hfree := f.freeVarsIn_eq_scoped bound
  have hbound := f.boundVarsIn_eq_scoped bound
  refine ⟨?_, ⟨hall, hfree, hbound⟩, f.freeVarsIn_eq_filter bound, ?_⟩
  · -- one list of occurrences with their scopes is filtered in two ways, before the scopes go
    rw [← hall, hfree, hbound]
    exact (complementary_filter isBoundOccurrence _).map Prod.fst
  · intro D M v w h
    exact holds_congr M h

/-- The formula `∃x (P(x, y) ∧ ∀y Q(y, z)) ∧ x = z`, where `x` and `y` occur free and bound. -/
def sampleScopes : Formula :=
  .and (.ex "x" (.and (.pred "P" [.var "x", .var "y"])
    (.all "y" (.pred "Q" [.var "y", .var "z"])))) (.eq (.var "x") (.var "z"))

theorem free_and_bound_occurrences_sample :
    sampleScopes.freeVarsIn ["z"] = ["y", "x"] ∧
      sampleScopes.boundVarsIn ["z"] = ["x", "y", "z", "z"] ∧
      Complementary ["y", "x"] ["x", "y", "z", "z"] ["x", "y", "y", "z", "x", "z"] ∧
      ∀ (D : Type u) (M : Structure D) (v : Valuation D) (d : D),
        sampleScopes.Holds M (v.update "u" d) ↔ sampleScopes.Holds M v := by
  obtain ⟨hcomplementary, -, -, hholds⟩ := free_and_bound_occurrences.{u} sampleScopes ["z"]
  refine ⟨by decide, by decide, hcomplementary, ?_⟩
  intro D M v d
  apply hholds
  intro x hx
  apply Valuation.update_of_ne
  -- `u` is not among the free variables `y`, `z`, `x`, `z`
  rintro rfl
  exact absurd hx (by decide)

end Formula

end LogicForms
