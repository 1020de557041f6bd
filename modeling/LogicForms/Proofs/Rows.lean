import LogicForms.Proofs.Shapes

/-!
# The rows of a normal form

A formula in conjunctive normal form is a list of rows, its clauses, and each row is a list of
literals; the same is true of disjunctive normal form. `NormalForm.rows` gives the rows of a formula
that need not be in normal form: the outer connective puts the rows of its arguments one behind the
other, and the inner connective joins every row of its left argument to every row of its right
argument, the left one running slowest.

Distributing changes neither the rows nor their order (`Distributes.rows_eq`), and a formula in
normal form splits into its rows (`rows_eq_split`). So the parts of a normal form are known without
distributing anything (`ofPrenex_rows`).
-/

set_option autoImplicit false

namespace LogicForms

namespace Formula

/-! ### Literals and propositional truth -/

/-- The parts that conjunctions and disjunctions put together, from left to right. In a negation
normal form without quantifiers they are its literals. -/
def literals : Formula → List Formula
  | .binary .and f g => f.literals ++ g.literals
  | .binary .or f g => f.literals ++ g.literals
  | f => [f]

/-- Truth of a formula for given truth values of the atoms. Quantifiers are passed over; where there
are none, this is propositional truth. -/
def TrueUnder (truth : Formula → Prop) : Formula → Prop
  | .pred p args => truth (.pred p args)
  | .eq s t => truth (.eq s t)
  | .not f => ¬ f.TrueUnder truth
  | .binary op f g => op.Holds (f.TrueUnder truth) (g.TrueUnder truth)
  | .quant _ _ f => f.TrueUnder truth

/-- A quantifier that is passed over ranges over a single element. -/
theorem truthConditions_trueUnder :
    TruthConditions (fun truth _ (_ : Unit) => truth) fun f truth => f.TrueUnder truth where
  not _ _ := Iff.rfl
  binary _ _ _ _ := Iff.rfl
  quant q _ _ _ := by
    cases q with
    | universal => exact ⟨fun h _ => h, fun h => h ()⟩
    | existential => exact ⟨fun h => ⟨(), h⟩, fun ⟨_, h⟩ => h⟩

end Formula

namespace NormalForm

open Formula

/-! ### Rows -/

/-- Every row of the first list joined to every row of the second one. -/
def joinRows (rows rows' : List (List Formula)) : List (List Formula) :=
  rows.flatMap fun row => rows'.map fun row' => row ++ row'

/-- The rows of a formula. -/
def rows (form : NormalForm) : Formula → List (List Formula)
  | .binary op f g =>
    if op = form.outer then form.rows f ++ form.rows g
    else if op = form.inner then joinRows (form.rows f) (form.rows g)
    else [[.binary op f g]]
  | f => [[f]]

variable {form : NormalForm} {f g : Formula} {n : Nat}

theorem joinRows_append (r₁ r₂ rows : List (List Formula)) :
    joinRows (r₁ ++ r₂) rows = joinRows r₁ rows ++ joinRows r₂ rows :=
  List.flatMap_append

/-- A single row is joined to rows one after the other. -/
theorem joinRows_singleton (row : List Formula) (rows : List (List Formula)) :
    joinRows [row] rows = rows.map fun row' => row ++ row' := by
  rw [joinRows, List.flatMap_cons, List.flatMap_nil, List.append_nil]

theorem rows_of_isLiteral (h : f.isLiteral = true) : form.rows f = [[f]] := by
  cases f with
  | pred | eq | not => rfl
  | binary | quant => simp at h

theorem rows_outer (form : NormalForm) (f g : Formula) :
    form.rows (.binary form.outer f g) = form.rows f ++ form.rows g := by
  rw [rows, if_pos rfl]

theorem rows_inner (form : NormalForm) (f g : Formula) :
    form.rows (.binary form.inner f g) = joinRows (form.rows f) (form.rows g) := by
  rw [rows, if_neg form.outer_ne_inner.symm, if_pos rfl]

/-! ### Splitting into rows -/

/-- A formula in normal form without an outer connective on top is a single row, into which it
splits. -/
theorem rows_eq_singleton (h : form.IsNormal f) (hfree : f.arguments? form.outer = none) :
    form.rows f = [f.split form.inner] := by
  induction h with
  | literal h => rw [rows_of_isLiteral h, split_of_isLiteral h]
  | outer => simp [arguments?] at hfree
  | inner _ hf _ hg ihf ihg =>
    rw [rows_inner, ihf hf, ihg hg, joinRows_singleton, split, if_pos rfl]
    rfl

/-- **A formula in normal form splits into its rows.** -/
theorem rows_eq_split (h : form.IsNormal f) :
    form.rows f = (f.split form.outer).map (Formula.split form.inner) := by
  induction h with
  | literal h =>
    rw [rows_of_isLiteral h, split_of_isLiteral h, List.map_singleton, split_of_isLiteral h]
  | outer _ _ ihf ihg => rw [rows_outer, ihf, ihg, split, if_pos rfl, List.map_append]
  | @inner f g hf hfree hg hfree' =>
    have hsplit : (Formula.binary form.inner f g).split form.outer
        = [.binary form.inner f g] := by
      rw [split, if_neg form.outer_ne_inner.symm]
    have hrow := rows_eq_singleton (IsNormal.inner hf hfree hg hfree')
      (by simp [arguments?, form.outer_ne_inner.symm])
    rw [hsplit, hrow]
    rfl

/-! ### Distributing -/

/-- **Distributing keeps the rows and their order.** -/
theorem Distributes.rows_eq (h : form.Distributes f g n) : form.rows g = form.rows f := by
  induction h with
  | literal h => rfl
  | outer ha hb iha ihb => rw [rows_outer, rows_outer, iha, ihb]
  | @left a b c d rhs k l _ _ _ _ ha hb hk hl iha ihb ihk ihl =>
    -- the rows of the left argument come from `c` first and then from `d`
    calc form.rows (.binary form.outer k l)
        = joinRows (form.rows c) (form.rows rhs) ++ joinRows (form.rows d) (form.rows rhs) := by
          rw [rows_outer, ihk, ihl, rows_inner, rows_inner]
      _ = joinRows (form.rows (.binary form.outer c d)) (form.rows rhs) := by
          rw [rows_outer, joinRows_append]
      _ = form.rows (.binary form.inner a b) := by rw [iha, ihb, rows_inner]
  | @right a b c d lhs k l _ _ _ _ ha hlhs hb hk hl iha ihb ihk ihl =>
    -- the left argument is in one piece; with several rows in it, the order would be another one
    have hrow := rows_eq_singleton ha.isNormal hlhs
    calc form.rows (.binary form.outer k l)
        = joinRows (form.rows lhs) (form.rows c) ++ joinRows (form.rows lhs) (form.rows d) := by
          rw [rows_outer, ihk, ihl, rows_inner, rows_inner]
      _ = joinRows (form.rows lhs) (form.rows (.binary form.outer c d)) := by
          rw [hrow, joinRows_singleton, joinRows_singleton, joinRows_singleton, rows_outer,
            List.map_append]
      _ = form.rows (.binary form.inner a b) := by rw [iha, ihb, rows_inner]
  | inner ha hlhs hb hrhs iha ihb => rw [rows_inner, rows_inner, iha, ihb]

/-! ### Literals of rows -/

theorem joinRows_ne_nil {rows rows' : List (List Formula)} (h : rows ≠ []) (h' : rows' ≠ []) :
    joinRows rows rows' ≠ [] := by
  cases rows with
  | nil => exact absurd rfl h
  | cons row rows =>
    intro hnil
    rw [joinRows, List.flatMap_cons, List.append_eq_nil_iff, List.map_eq_nil_iff] at hnil
    exact h' hnil.1

/-- No formula is without rows. -/
theorem rows_ne_nil (form : NormalForm) (f : Formula) : form.rows f ≠ [] := by
  induction f with
  | pred | eq | not | quant => simp [rows]
  | binary op f g ihf ihg =>
    rw [rows]
    split
    · simp [ihf]
    · split
      · exact joinRows_ne_nil ihf ihg
      · simp

/-- Joining rows loses none of their members, as there are rows to join on both sides. -/
theorem mem_flatten_joinRows {rows rows' : List (List Formula)} (h : rows ≠ []) (h' : rows' ≠ [])
    {l : Formula} : l ∈ (joinRows rows rows').flatten ↔ l ∈ rows.flatten ∨ l ∈ rows'.flatten := by
  simp only [List.mem_flatten, joinRows, List.mem_flatMap, List.mem_map]
  constructor
  · rintro ⟨_, ⟨row, hrow, row', hrow', rfl⟩, hl⟩
    rcases List.mem_append.1 hl with hl | hl
    · exact Or.inl ⟨row, hrow, hl⟩
    · exact Or.inr ⟨row', hrow', hl⟩
  · rintro (⟨row, hrow, hl⟩ | ⟨row', hrow', hl⟩)
    · obtain ⟨row', hrow'⟩ := List.exists_mem_of_ne_nil rows' h'
      exact ⟨row ++ row', ⟨row, hrow, row', hrow', rfl⟩, List.mem_append_left row' hl⟩
    · obtain ⟨row, hrow⟩ := List.exists_mem_of_ne_nil rows h
      exact ⟨row ++ row', ⟨row, hrow, row', hrow', rfl⟩, List.mem_append_right row hl⟩

theorem literals_outer (form : NormalForm) (f g : Formula) :
    (Formula.binary form.outer f g).literals = f.literals ++ g.literals := by
  cases form <;> rfl

theorem literals_inner (form : NormalForm) (f g : Formula) :
    (Formula.binary form.inner f g).literals = f.literals ++ g.literals := by
  cases form <;> rfl

/-- The rows of a formula have the literals of the formula and no others. -/
theorem mem_flatten_rows {l : Formula} : l ∈ (form.rows f).flatten ↔ l ∈ f.literals := by
  induction f with
  | pred | eq | not | quant => simp [rows, literals]
  | binary op f g ihf ihg =>
    by_cases houter : op = form.outer
    · subst houter
      rw [rows_outer, literals_outer, List.flatten_append, List.mem_append, List.mem_append, ihf,
        ihg]
    by_cases hinner : op = form.inner
    · subst hinner
      rw [rows_inner, literals_inner, List.mem_append,
        mem_flatten_joinRows (rows_ne_nil form f) (rows_ne_nil form g), ihf, ihg]
    · -- an implication or an equivalence is taken as one literal on both sides
      have hliterals : (Formula.binary op f g).literals = [.binary op f g] := by
        cases form <;> cases op <;> first | rfl | exact absurd rfl houter | exact absurd rfl hinner
      rw [rows, if_neg houter, if_neg hinner, hliterals, List.flatten_singleton]

/-! ### Normal forms of prenex formulas -/

/-- **Distribution computes the rows of the negation normal form.** The quantifiers stay, the matrix
is in the normal form, and it splits into the rows in their order. So it is propositionally
equivalent to the matrix of the given formula, and has the same literals as the negation normal form
of this matrix. -/
theorem ofPrenex_rows {budget : Budget} (h : (form.ofPrenex f budget).1 = .ok g) :
    g.leading = f.leading ∧ form.holds g = true ∧
      (g.matrix.split form.outer).map (Formula.split form.inner)
        = form.rows (f.matrix.nnf false) ∧
      (∀ truth, g.matrix.TrueUnder truth ↔ f.matrix.TrueUnder truth) ∧
      ∀ l, l ∈ g.matrix.literals ↔ l ∈ (f.matrix.nnf false).literals := by
  obtain ⟨r, hr, rfl⟩ := ofPrenex_eq_ok_iff.1 h
  obtain ⟨n, hdistributes, -⟩ := distributes_of_distributeWithin _ hr
  have hnormal := hdistributes.isNormal
  have hrows := hdistributes.rows_eq
  have hquantified := isQuantified_of_isQuantifierFree hnormal.isQuantifierFree
  obtain ⟨hmatrix, hleading⟩ := matrix_quantify hquantified f.leading
  rw [holds, hmatrix]
  refine ⟨hleading, isNormal_iff.1 hnormal, ?_, fun truth => ?_, fun l => ?_⟩
  · rw [← rows_eq_split hnormal, hrows]
  · exact (hdistributes.truth_iff truthConditions_trueUnder truth).trans
      (truthConditions_trueUnder.nnf_iff f.matrix false truth)
  · rw [← mem_flatten_rows, hrows, mem_flatten_rows]

/-- The formula `∀x ((P(x) ∧ Q) ∨ ¬(R → P(x)))`, in which the inner connective of the conjunctive
normal form has two rows on each side. -/
def sampleFormula : Formula :=
  .all "x" (.or (.and (.pred "P" [.var "x"]) (.pred "Q" []))
    (.not (.implies (.pred "R" []) (.pred "P" [.var "x"]))))

/-- The rows of the matrix: the two rows with `P(x)` from the left argument come first. -/
def sampleRows : List (List Formula) :=
  [[.pred "P" [.var "x"], .pred "R" []], [.pred "P" [.var "x"], .not (.pred "P" [.var "x"])],
    [.pred "Q" [], .pred "R" []], [.pred "Q" [], .not (.pred "P" [.var "x"])]]

/-- The conjunctive normal form, with one clause for each row. -/
def sampleNormalForm : Formula :=
  .all "x" (.and
    (.and (.or (.pred "P" [.var "x"]) (.pred "R" []))
      (.or (.pred "P" [.var "x"]) (.not (.pred "P" [.var "x"]))))
    (.and (.or (.pred "Q" []) (.pred "R" [])) (.or (.pred "Q" []) (.not (.pred "P" [.var "x"])))))

theorem ofPrenex_sample :
    (conjunctive.ofPrenex sampleFormula Budget.standard).1 = .ok sampleNormalForm := by cbv

theorem ofPrenex_rows_sample :
    (conjunctive.ofPrenex sampleFormula Budget.standard).1 = .ok sampleNormalForm ∧
      conjunctive.rows (sampleFormula.matrix.nnf false) = sampleRows ∧
      (sampleNormalForm.matrix.split .and).map (Formula.split .or)
        = conjunctive.rows (sampleFormula.matrix.nnf false) :=
  ⟨ofPrenex_sample, by decide, (ofPrenex_rows ofPrenex_sample).2.2.1⟩

end NormalForm

end LogicForms
