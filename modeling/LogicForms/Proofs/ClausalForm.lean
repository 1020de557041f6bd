import LogicForms.Proofs.Fitting

/-!
# The clausal form of a formula

A formula is split into clauses without a test of its shape: the universal quantifiers in front are
dropped, chains of conjunctions and then chains of disjunctions are taken apart, and what is left
has to be literals. The test for conjunctive normal form drops all quantifiers in front, and only
looks at connectives and their arguments. There are clauses exactly if all quantifiers in front are
universal and what is behind them passes the test; otherwise the first part that is no literal is
reported (`Formula.clausalForm_exact`).

The clauses say what the formula behind the universal quantifiers says
(`Formula.forall_holds_iff_withoutUniversals`), and for all values of the variables that have been
dropped what the formula itself says (`Formula.holds_iff_forall_clauses`).
-/

set_option autoImplicit false

namespace LogicForms

universe u

/-! ### Chains of chains -/

namespace NormalForm

open Formula

variable {form : NormalForm} {f g : Formula}

/-- Without an outer connective on top, a formula in normal form splits into literals. -/
theorem IsNormal.isLiteral_of_mem_split_inner (h : form.IsNormal f)
    (hfree : f.arguments? form.outer = none) :
    ∀ l ∈ f.split form.inner, l.isLiteral = true := by
  induction h with
  | literal h =>
    rw [split_of_isLiteral h]
    exact List.forall_mem_singleton.2 h
  | outer => simp [arguments?] at hfree
  | inner _ hf _ hg ihf ihg =>
    rw [split, if_pos rfl, List.forall_mem_append]
    exact ⟨ihf hf, ihg hg⟩

/-- A formula in normal form splits into literals in two steps. -/
theorem IsNormal.isLiteral_of_mem_split (h : form.IsNormal f) :
    ∀ c ∈ f.split form.outer, ∀ l ∈ c.split form.inner, l.isLiteral = true := by
  induction h with
  | literal h =>
    rw [split_of_isLiteral h, List.forall_mem_singleton, split_of_isLiteral h]
    exact List.forall_mem_singleton.2 h
  | outer _ _ ihf ihg =>
    rw [split, if_pos rfl, List.forall_mem_append]
    exact ⟨ihf, ihg⟩
  | inner hf hfree hg hfree' =>
    rw [split, if_neg form.outer_ne_inner.symm, List.forall_mem_singleton]
    refine (IsNormal.inner hf hfree hg hfree').isLiteral_of_mem_split_inner ?_
    simp [arguments?, form.outer_ne_inner.symm]

/-- Both arguments of an inner connective are in normal form, without an outer connective on top. -/
theorem IsNormal.arguments_inner (h : form.IsNormal (.binary form.inner f g)) :
    (form.IsNormal f ∧ f.arguments? form.outer = none) ∧
      form.IsNormal g ∧ g.arguments? form.outer = none := by
  rw [isNormal_iff, holdsBelow, if_pos rfl] at h
  simp only [Bool.and_eq_true, Option.isNone_iff_eq_none] at h
  obtain ⟨⟨⟨hfree, hfree'⟩, hf⟩, hg⟩ := h
  exact ⟨⟨isNormal_iff.2 hf, hfree⟩, isNormal_iff.2 hg, hfree'⟩

/-- A chain of inner connectives that has literals as its members is in normal form, and has no
outer connective on top. -/
theorem isNormal_of_split_inner (h : ∀ l ∈ f.split form.inner, l.isLiteral = true) :
    form.IsNormal f ∧ f.arguments? form.outer = none := by
  have hinner (f g : Formula) :
      form.IsNormal (.binary form.inner f g) ∧
          (binary form.inner f g).arguments? form.outer = none ↔
        (form.IsNormal f ∧ f.arguments? form.outer = none) ∧
          form.IsNormal g ∧ g.arguments? form.outer = none := by
    refine ⟨fun h => h.1.arguments_inner, ?_⟩
    rintro ⟨⟨hf, hfree⟩, hg, hfree'⟩
    exact ⟨.inner hf hfree hg hfree', by simp [arguments?, form.outer_ne_inner.symm]⟩
  exact (forall_split_iff (p := fun f => form.IsNormal f ∧ f.arguments? form.outer = none)
    hinner f).1 fun l hl => ⟨.literal (h l hl), arguments?_of_isLiteral (h l hl) form.outer⟩

/-- **The normal form, taken apart**: the members of the outer chain are chains of literals. -/
theorem isNormal_iff_split :
    form.IsNormal f ↔ ∀ c ∈ f.split form.outer, ∀ l ∈ c.split form.inner, l.isLiteral = true := by
  refine ⟨IsNormal.isLiteral_of_mem_split, fun h => ?_⟩
  have houter (f g : Formula) :
      form.IsNormal (.binary form.outer f g) ↔ form.IsNormal f ∧ form.IsNormal g :=
    ⟨IsNormal.arguments, fun h => .outer h.1 h.2⟩
  exact (forall_split_iff houter f).1 fun c hc => (isNormal_of_split_inner (h c hc)).1

end NormalForm

/-! ### Parts -/

namespace Clause

variable {fs : List Formula}

/-- A clause that is made has the given literals. -/
theorem literals_of_ofLiterals {c : Clause} (h : ofLiterals fs = .ok c) : c.literals = fs := by
  rw [ofLiterals] at h
  split at h
  · cases h
  · cases h
    rfl

/-- A clause is refused because of its first member that is no literal. -/
theorem ofLiterals_eq_error_iff {f : Formula} :
    ofLiterals fs = .error f ↔ fs.find? (fun f => !f.isLiteral) = some f := by
  unfold ofLiterals
  split <;> simp_all

end Clause

namespace Formula

variable {f g : Formula} {clauses : List Clause}

/-- What has to be literals: the disjuncts of the conjuncts behind the universal quantifiers, in
order. -/
def clauseParts (f : Formula) : List Formula := (f.withoutUniversals.split .and).flatMap (split .or)

/-- **The first part that is no literal is reported.** -/
theorem clausalForm_eq_error_iff :
    f.clausalForm = .error g ↔ f.clauseParts.find? (fun l => !l.isLiteral) = some g := by
  rw [clausalForm, clauseParts]
  induction f.withoutUniversals.split .and with
  | nil => simp [pure, Except.pure]
  | cons c cs ih =>
    rw [List.mapM_cons, List.flatMap_cons, List.find?_append]
    cases hc : Clause.ofLiterals (c.split .or) with
    | error g' =>
      -- the conjuncts behind it are not looked at
      rw [Clause.ofLiterals_eq_error_iff.1 hc]
      simp [bind, Except.bind]
    | ok clause =>
      have hnone : (c.split .or).find? (fun l => !l.isLiteral) = none := by
        rw [← Clause.literals_of_ofLiterals hc, List.find?_eq_none]
        intro l hl
        simp [clause.isLiteral_of_mem l hl]
      rw [hnone, Option.none_or, ← ih, ok_bind, bind_eq_error]
      simp [pure, Except.pure]

/-- There are clauses exactly if all parts are literals. -/
theorem exists_clausalForm_iff_clauseParts :
    (∃ clauses, f.clausalForm = .ok clauses) ↔ ∀ l ∈ f.clauseParts, l.isLiteral = true := by
  cases hf : f.clausalForm with
  | error g =>
    have hfind := clausalForm_eq_error_iff.1 hf
    have hg : g.isLiteral = false := by simpa using List.find?_some hfind
    constructor
    · rintro ⟨_, ⟨⟩⟩
    · intro h
      rw [h g (List.mem_of_find?_eq_some hfind)] at hg
      cases hg
  | ok clauses =>
    refine ⟨fun _ l hl => ?_, fun _ => ⟨clauses, rfl⟩⟩
    have hnone : f.clauseParts.find? (fun l => !l.isLiteral) = none := by
      refine Option.eq_none_iff_forall_ne_some.2 fun g hg => ?_
      rw [clausalForm_eq_error_iff.2 hg] at hf
      cases hf
    simpa using List.find?_eq_none.1 hnone l hl

/-! ### Universal quantifiers -/

/-- What is dropped are universal quantifiers in front. -/
theorem exists_quantify_withoutUniversals (f : Formula) :
    ∃ xs : List String, f = f.withoutUniversals.quantify (xs.map (Binder.mk .universal)) := by
  induction f with
  | pred | eq | not | binary => exact ⟨[], rfl⟩
  | quant q x f ih =>
    cases q with
    | existential => exact ⟨[], rfl⟩
    | universal =>
      obtain ⟨xs, hf⟩ := ih
      exact ⟨x :: xs, congrArg (Formula.all x) hf⟩

/-- Only universal quantifiers are in front, and the formula behind them is in conjunctive normal
form. -/
def IsUniversalCnf (f : Formula) : Prop :=
  (∀ b ∈ f.leading, b.quantifier = .universal) ∧ NormalForm.conjunctive.holds f = true

instance (f : Formula) : Decidable f.IsUniversalCnf := inferInstanceAs (Decidable (_ ∧ _))

/-- An existential quantifier that is left in front is no part of a normal form. -/
theorem isUniversalCnf_iff_isNormal :
    f.IsUniversalCnf ↔ NormalForm.conjunctive.IsNormal f.withoutUniversals := by
  rw [NormalForm.isNormal_iff]
  induction f with
  | pred | eq | not | binary =>
    simp [IsUniversalCnf, leading, withoutUniversals, NormalForm.holds, matrix]
  | quant q x f ih =>
    cases q with
    | universal =>
      simpa [IsUniversalCnf, leading, withoutUniversals, NormalForm.holds, matrix] using ih
    | existential => simp [IsUniversalCnf, leading, withoutUniversals, NormalForm.holdsBelow]

/-- A conjunctive normal form may have any universal quantifiers in front. -/
theorem isUniversalCnf_quantify (h : NormalForm.conjunctive.IsNormal f) (xs : List String) :
    (f.quantify (xs.map (Binder.mk .universal))).IsUniversalCnf := by
  obtain ⟨hmatrix, hleading⟩ := matrix_quantify h.isCombination.isQuantified_eq
    (xs.map (Binder.mk .universal))
  refine ⟨?_, ?_⟩
  · rw [hleading]
    exact List.forall_mem_map.2 fun _ _ => rfl
  · rw [NormalForm.holds, hmatrix]
    exact NormalForm.isNormal_iff.1 h

/-- A conjunctive normal form has no quantifiers in front, so that all of them have been dropped. -/
theorem IsUniversalCnf.leading_eq (h : f.IsUniversalCnf) :
    ∃ xs : List String, f = f.withoutUniversals.quantify (xs.map (Binder.mk .universal)) ∧
      f.leading.map Binder.var = xs := by
  obtain ⟨xs, hf⟩ := f.exists_quantify_withoutUniversals
  have hmatrix := (isUniversalCnf_iff_isNormal.1 h).isCombination.isQuantified_eq
  refine ⟨xs, hf, ?_⟩
  rw [hf, (matrix_quantify hmatrix _).2, List.map_map]
  exact List.map_id xs

/-- **There are clauses exactly for universal conjunctive normal forms.** -/
theorem exists_clausalForm_iff : (∃ clauses, f.clausalForm = .ok clauses) ↔ f.IsUniversalCnf := by
  rw [exists_clausalForm_iff_clauseParts, isUniversalCnf_iff_isNormal,
    NormalForm.isNormal_iff_split]
  exact List.forall_mem_flatMap

end Formula

/-! ### Truth of clauses -/

/-- A clause is true if one of its literals is. -/
def Clause.Holds {D : Type u} (M : Structure D) (v : Valuation D) (c : Clause) : Prop :=
  ∃ f ∈ c.literals, f.Holds M v

namespace Formula

variable {D : Type u} (M : Structure D) {f : Formula} {clauses : List Clause}

/-- A formula is true if all its conjuncts are. -/
theorem holds_iff_forall_split (f : Formula) (v : Valuation D) :
    f.Holds M v ↔ ∀ g ∈ f.split .and, g.Holds M v :=
  (forall_split_iff (p := fun g => g.Holds M v) (fun _ _ => Iff.rfl) f).symm

/-- A formula is true if one of its disjuncts is. -/
theorem holds_iff_exists_split (f : Formula) (v : Valuation D) :
    f.Holds M v ↔ ∃ g ∈ f.split .or, g.Holds M v := by
  -- it is false if all of them are
  have hfalse : (∀ g ∈ f.split .or, ¬ g.Holds M v) ↔ ¬ f.Holds M v := by
    refine forall_split_iff (p := fun g => ¬ g.Holds M v) (fun f g => ?_) f
    rw [holds_or, not_or]
  rw [← not_iff_not, ← hfalse, not_exists]
  exact forall_congr' fun g => not_and.symm

/-- The clauses of a formula are its conjuncts, split into disjuncts. -/
theorem map_literals_clausalForm (h : f.clausalForm = .ok clauses) :
    clauses.map Clause.literals = (f.withoutUniversals.split .and).map (split .or) :=
  map_of_mapM_eq_ok (fun _ _ => Clause.literals_of_ofLiterals) h

/-- There is a clause, and every clause has a literal. -/
theorem ne_nil_of_clausalForm (h : f.clausalForm = .ok clauses) :
    clauses ≠ [] ∧ ∀ c ∈ clauses, c.literals ≠ [] := by
  have hrows := map_literals_clausalForm h
  constructor
  · rintro rfl
    exact split_ne_nil .and f.withoutUniversals (List.map_eq_nil_iff.1 hrows.symm)
  · intro c hc
    have hmem : c.literals ∈ clauses.map Clause.literals := List.mem_map_of_mem hc
    rw [hrows] at hmem
    obtain ⟨g, -, hg⟩ := List.mem_map.1 hmem
    rw [← hg]
    exact split_ne_nil .or g

/-- The clauses are true if the formula behind the universal quantifiers is. -/
theorem forall_holds_iff_withoutUniversals (h : f.clausalForm = .ok clauses) (v : Valuation D) :
    (∀ c ∈ clauses, c.Holds M v) ↔ f.withoutUniversals.Holds M v := by
  calc (∀ c ∈ clauses, c.Holds M v)
      ↔ ∀ row ∈ clauses.map Clause.literals, ∃ l ∈ row, l.Holds M v := by
        rw [List.forall_mem_map]
        rfl
    _ ↔ ∀ g ∈ f.withoutUniversals.split .and, ∃ l ∈ g.split .or, l.Holds M v := by
        rw [map_literals_clausalForm h, List.forall_mem_map]
    _ ↔ ∀ g ∈ f.withoutUniversals.split .and, g.Holds M v :=
        forall₂_congr fun g _ => (holds_iff_exists_split M g v).symm
    _ ↔ f.withoutUniversals.Holds M v := (holds_iff_forall_split M _ v).symm

/-- **The clauses are true for all values of the dropped variables if the formula is true.** -/
theorem holds_iff_forall_clauses (h : f.clausalForm = .ok clauses) (v : Valuation D) :
    f.Holds M v ↔
      ∀ w, v.AgreesOutside (f.leading.map Binder.var) w → ∀ c ∈ clauses, c.Holds M w := by
  obtain ⟨xs, hf, hleading⟩ := (exists_clausalForm_iff.1 ⟨clauses, h⟩).leading_eq
  rw [hleading]
  calc f.Holds M v
      ↔ ∀ w, v.AgreesOutside xs w → f.withoutUniversals.Holds M w := by
        conv => lhs; rw [hf]
        exact holds_quantify_universal M _ xs v
    _ ↔ ∀ w, v.AgreesOutside xs w → ∀ c ∈ clauses, c.Holds M w :=
        forall₂_congr fun w _ => (forall_holds_iff_withoutUniversals M h w).symm

/-- **There are clauses exactly for universal conjunctive normal forms.** A formula has clauses if
and only if all quantifiers in front are universal and the formula behind them is in conjunctive
normal form; otherwise the first part that is no literal is reported. There is at least one clause,
no clause is empty, and the formula is true exactly if in every clause a literal is true, whatever
the values of the variables that have been dropped. -/
theorem clausalForm_exact (f : Formula) :
    ((∃ clauses, f.clausalForm = .ok clauses) ↔ f.IsUniversalCnf) ∧
      (¬ f.IsUniversalCnf →
        ∃ g, f.clausalForm = .error g ∧ f.clauseParts.find? (fun l => !l.isLiteral) = some g) ∧
      ∀ clauses, f.clausalForm = .ok clauses →
        clauses ≠ [] ∧ (∀ c ∈ clauses, c.literals ≠ []) ∧
          ∀ (D : Type u) (M : Structure D) (v : Valuation D),
            f.Holds M v ↔
              ∀ w, v.AgreesOutside (f.leading.map Binder.var) w → ∀ c ∈ clauses, c.Holds M w := by
  refine ⟨exists_clausalForm_iff, fun h => ?_, fun clauses hclauses => ?_⟩
  · cases hf : f.clausalForm with
    | error g => exact ⟨g, rfl, clausalForm_eq_error_iff.1 hf⟩
    | ok clauses => exact absurd (exists_clausalForm_iff.1 ⟨clauses, hf⟩) h
  · obtain ⟨hsome, hliterals⟩ := ne_nil_of_clausalForm hclauses
    exact ⟨hsome, hliterals, fun D M v => holds_iff_forall_clauses M hclauses v⟩

/-- The formula `∀x ∀y (S(x) ∧ ((Q(x, y) ∨ ¬P(y)) ∧ ¬R(y)))`. -/
def sampleUniversal : Formula :=
  .all "x" (.all "y" (.and (.pred "S" [.var "x"])
    (.and (.or (.pred "Q" [.var "x", .var "y"]) (.not (.pred "P" [.var "y"])))
      (.not (.pred "R" [.var "y"])))))

/-- The clauses `S(x)`, `Q(x, y) ∨ ¬P(y)` and `¬R(y)`. -/
def sampleUniversalClauses : List Clause :=
  [⟨[.pred "S" [.var "x"]], by decide⟩,
    ⟨[.pred "Q" [.var "x", .var "y"], .not (.pred "P" [.var "y"])], by decide⟩,
    ⟨[.not (.pred "R" [.var "y"])], by decide⟩]

/-- The formula `∀x (P(x) ∧ (Q(x) ∨ (R(x) ∨ (P(x) ∧ Q(x)))))`, where a conjunction is below two
disjunctions. -/
def sampleNested : Formula :=
  .all "x" (.and (.pred "P" [.var "x"]) (.or (.pred "Q" [.var "x"])
    (.or (.pred "R" [.var "x"]) (.and (.pred "P" [.var "x"]) (.pred "Q" [.var "x"])))))

/-- The formula `∀x ∃y Q(x, y)`, which has a literal as its matrix. -/
def sampleExistential : Formula :=
  .all "x" (.ex "y" (.pred "Q" [.var "x", .var "y"]))

theorem clausalForm_exact_samples :
    sampleUniversal.IsUniversalCnf ∧ sampleUniversal.clausalForm = .ok sampleUniversalClauses ∧
      (∀ (D : Type u) (M : Structure D) (v : Valuation D),
        sampleUniversal.Holds M v ↔
          ∀ w, v.AgreesOutside ["x", "y"] w → ∀ c ∈ sampleUniversalClauses, c.Holds M w) ∧
      ¬ sampleNested.IsUniversalCnf ∧
      sampleNested.clausalForm = .error (.and (.pred "P" [.var "x"]) (.pred "Q" [.var "x"])) ∧
      ¬ sampleExistential.IsUniversalCnf ∧
      sampleExistential.clausalForm = .error (.ex "y" (.pred "Q" [.var "x", .var "y"])) := by
  have hclauses : sampleUniversal.clausalForm = .ok sampleUniversalClauses := rfl
  have hnested : ¬ sampleNested.IsUniversalCnf := by decide
  have hexistential : ¬ sampleExistential.IsUniversalCnf := by decide
  obtain ⟨hiff, -, htrue⟩ := clausalForm_exact.{u} sampleUniversal
  obtain ⟨g, hg, hpart⟩ := (clausalForm_exact.{u} sampleNested).2.1 hnested
  obtain ⟨g', hg', hpart'⟩ := (clausalForm_exact.{u} sampleExistential).2.1 hexistential
  cases hpart
  cases hpart'
  exact ⟨hiff.1 ⟨_, hclauses⟩, hclauses, (htrue _ hclauses).2.2, hnested, hg, hexistential, hg'⟩

end Formula

end LogicForms
