import LogicForms.Proofs.Calls
import LogicForms.Proofs.Negation
import LogicForms.Proofs.Rebuilding
import LogicForms.Proofs.Skolem

/-!
# Nothing is refused during a run

`Report.ofTextChecked` computes a report with all checks that are made on the way. It gives what the
computation without these checks gives (`Report.ofTextChecked_eq`), so that none of them ever fails.

The invariant is that a formula has terms and equations only as arguments of its predicates and
equations (`Formula.HasPlainArguments`). What is read from a text has it, and every pass keeps it,
as the terms that are put in for variables are variables, constants, and function terms with
variables as arguments. The names in these terms are never empty.
-/

set_option autoImplicit false

namespace LogicForms

open ConstructionError (andThen_eq_ok_iff)

/-! ### Plain arguments -/

/-- The term passes the checks of arguments, and is no formula other than an equation. -/
def Term.IsPlain (t : Term) : Prop := t.isCompound = false ∧ t.checkArguments = .ok ()

namespace Term

theorem isPlain_var (x : String) : (var x).IsPlain := ⟨rfl, rfl⟩

/-- The term that stands for an existentially quantified variable is plain. -/
theorem isPlain_skolem (name : String) (universals : List String) :
    (skolem name universals).IsPlain := by
  cases universals with
  | nil => exact ⟨rfl, rfl⟩
  | cons x xs =>
    refine ⟨rfl, (checkArgumentsList_eq_ok_iff _).2 ?_⟩
    rw [List.forall_mem_map]
    exact fun y _ => rfl

/-- Terms that can be written are plain. -/
theorem isPlain_of_isWellFormed {t : Term} (h : t.isWellFormed = true) : t.IsPlain := by
  induction t using rec' with
  | hvar | hconst => exact ⟨rfl, rfl⟩
  | hfunc f args ih =>
    rw [isWellFormed_func, Bool.and_eq_true, areWellFormed_iff] at h
    exact ⟨rfl, (checkArgumentsList_eq_ok_iff args).2 fun t ht => (ih t ht (h.2 t ht)).2⟩
  | heq s u ihs ihu =>
    simp only [isWellFormed_eq, Bool.and_eq_true] at h
    have hs := ihs h.1.2
    have hu := ihu h.2
    refine ⟨rfl, ?_⟩
    simp only [checkArguments, andThen_eq_ok_iff, checkPlain_eq_ok_iff]
    exact ⟨hs.2, hu.2, hs.1, hu.1⟩
  | hpred | hnot | hbinary | hquant | hbound => simp at h

end Term

namespace Formula

/-- The arguments of predicates and equations are terms and equations. -/
def HasPlainArguments (f : Formula) : Prop := f.toTerm.checkArguments = .ok ()

namespace HasPlainArguments

variable {f g m : Formula} {p : Prefix}

theorem binary_iff {op : Connective} :
    (binary op f g).HasPlainArguments ↔ f.HasPlainArguments ∧ g.HasPlainArguments :=
  andThen_eq_ok_iff

/-- A formula that can be written has plain arguments. -/
theorem of_isWellFormed (h : f.isWellFormed = true) : f.HasPlainArguments := by
  induction f with
  | pred p args =>
    simp only [isWellFormed_pred, Bool.and_eq_true, Term.areWellFormed_iff] at h
    have hargs (t : Term) (ht : t ∈ args) := Term.isPlain_of_isWellFormed (h.2 t ht)
    simp only [HasPlainArguments, toTerm_pred, Term.checkArguments, andThen_eq_ok_iff,
      Term.checkArgumentsList_eq_ok_iff, Term.forM_checkPlain_eq_ok_iff]
    exact ⟨fun t ht => (hargs t ht).2, fun t ht => (hargs t ht).1⟩
  | eq s t => exact (Term.isPlain_of_isWellFormed h).2
  | not f ih => exact ih h
  | binary op f g ihf ihg =>
    rw [isWellFormed_binary, Bool.and_eq_true] at h
    exact binary_iff.2 ⟨ihf h.1, ihg h.2⟩
  | quant q x f ih =>
    rw [isWellFormed_quant, Bool.and_eq_true] at h
    exact ih h.2

/-- Plain terms for variables leave plain arguments. -/
theorem subst {σ : Substitution} (hσ : ∀ e ∈ σ, e.2.IsPlain) (h : f.HasPlainArguments) :
    (f.subst σ).HasPlainArguments := by
  induction f generalizing σ with
  | pred p args => exact Term.checkArguments_subst (t := .pred p args) hσ h
  | eq s t => exact Term.checkArguments_subst (t := .eq s t) hσ h
  | not f ih => exact ih hσ h
  | binary op f g ihf ihg =>
    rw [binary_iff] at h
    exact binary_iff.2 ⟨ihf hσ h.1, ihg hσ h.2⟩
  -- what the quantifier binds is not substituted, and all other terms stay plain
  | quant q x f ih => exact ih (fun e he => hσ e (List.mem_filter.1 he).1) h

/-- A plain term for one variable. -/
theorem subst_single {x : String} {t : Term} (ht : t.IsPlain) (h : f.HasPlainArguments) :
    (f.subst [(x, t)]).HasPlainArguments :=
  h.subst (by simpa using ht)

/-- It is the parts of a formula that have plain arguments. -/
theorem isCollected : IsCollected .and HasPlainArguments where
  junction := Or.inl rfl
  not _ := Iff.rfl
  binary _ _ _ := binary_iff
  quant _ _ _ _ _ h := h

theorem expandArrows (h : f.HasPlainArguments) : f.expandArrows.HasPlainArguments :=
  (isCollected.expandArrows_iff f).2 h

theorem nnf (h : f.HasPlainArguments) (negated : Bool) : (f.nnf negated).HasPlainArguments :=
  (isCollected.nnf_iff f negated).2 h

theorem quantify (h : f.HasPlainArguments) (p : Prefix) : (f.quantify p).HasPlainArguments := by
  induction p with
  | nil => exact h
  | cons b p ih => exact ih

theorem matrix (h : f.HasPlainArguments) : f.matrix.HasPlainArguments := by
  induction f with
  | quant q x f ih => exact ih h
  | pred | eq | not | binary => exact h

theorem of_extracts (hextracts : f.Extracts p m) (h : f.HasPlainArguments) :
    m.HasPlainArguments := by
  induction hextracts with
  | literal _ => exact h
  | binary _ _ _ ihf ihg =>
    rw [binary_iff] at h
    exact binary_iff.2 ⟨ihf h.1, ihg h.2⟩
  | quant q x _ ih => exact ih h

end HasPlainArguments

/-! ### Passes -/

variable {f : Formula}

/-- Renaming apart passes all checks and leaves plain arguments. -/
theorem renameApartChecked_eq (s : Avoiding) (h : f.HasPlainArguments) :
    f.renameApartChecked s = .ok (f.renameApart s) ∧ (f.renameApart s).1.HasPlainArguments := by
  fun_induction renameApart f s with
  | case1 | case2 => exact ⟨by rw [renameApartChecked], h⟩
  | case3 f s f' s' hf ih =>
    rw [hf] at ih
    obtain ⟨heq, hplain⟩ := ih h
    refine ⟨?_, hplain⟩
    rw [renameApartChecked, heq]
    rfl
  | case4 op f g s f' s' hf g' s'' hg ihf ihg =>
    rw [hf] at ihf
    rw [hg] at ihg
    obtain ⟨heqf, hplainf⟩ := ihf (HasPlainArguments.binary_iff.1 h).1
    obtain ⟨heqg, hplaing⟩ := ihg (HasPlainArguments.binary_iff.1 h).2
    refine ⟨?_, HasPlainArguments.binary_iff.2 ⟨hplainf, hplaing⟩⟩
    rw [renameApartChecked, heqf, ok_bind]
    simp only [heqg]
    rfl
  -- the only case with checks: the fresh variable is one, and it is put into the scope
  | case5 q x f s htaken y names hfresh f' s' hf ih =>
    have hscope : (f.subst [(x, .var y)]).HasPlainArguments :=
      HasPlainArguments.subst_single (Term.isPlain_var y) h
    have hname : y ≠ "" := by
      have hne := s.names.freshVariable_ne_empty x
      rwa [hfresh] at hne
    rw [hf] at ih
    obtain ⟨heq, hplain⟩ := ih hscope
    refine ⟨?_, hplain⟩
    rw [renameApartChecked, if_pos htaken, hfresh]
    simp only [Datum.toName_text hname, ok_bind]
    rw [hscope, ok_bind, heq]
    rfl
  | case6 q x f s htaken f' s' hf ih =>
    rw [hf] at ih
    obtain ⟨heq, hplain⟩ := ih h
    refine ⟨?_, hplain⟩
    rw [renameApartChecked, if_neg htaken, heq]
    rfl

theorem standardizeApartChecked_eq (names : NameSupply) (h : f.HasPlainArguments) :
    f.standardizeApartChecked names = .ok (f.standardizeApart names) := by
  rw [standardizeApartChecked, (renameApartChecked_eq _ h).1]
  rfl

theorem HasPlainArguments.standardizeApart (names : NameSupply) (h : f.HasPlainArguments) :
    (f.standardizeApart names).1.HasPlainArguments :=
  (renameApartChecked_eq _ h).2

/-- Treating a prefix passes all checks. -/
theorem skolemizeBehindChecked_eq (universals : List String) (p : Prefix) (names : NameSupply)
    (h : f.HasPlainArguments) :
    skolemizeBehindChecked universals p f names = .ok (skolemizeBehind universals p f names) := by
  induction p generalizing universals f names with
  | nil => rfl
  | cons b p ih =>
    obtain ⟨q, x⟩ := b
    cases q with
    | universal => exact ih (universals ++ [x]) names h
    | existential =>
      have hmatrix := h.subst_single (x := x) (Term.isPlain_skolem names.freshSkolem.1 universals)
      have hname := Datum.toName_text names.freshSkolem_ne_empty
      rw [skolemizeBehindChecked, skolemizeBehind_existential]
      simp only [hname, ok_bind, substChecked]
      rw [hmatrix]
      exact ih universals _ hmatrix

theorem skolemizeChecked_eq (names : NameSupply) (h : f.HasPlainArguments) :
    f.skolemizeChecked names = .ok (f.skolemize names) :=
  skolemizeBehindChecked_eq [] f.leading _ h.matrix

end Formula

/-! ### Reports -/

namespace Report

/-- The report on a text, with all checks: of the options, of what is read, and in the passes. -/
def ofTextChecked (o : Options) (text : String) : Except Failure Report := do
  let names ← (NameSupply.ofPrefix o.skolemPrefix).mapError .names
  let budget ← (Budget.ofLimit o.budget).mapError .budget
  let read ← (Formula.ofText text).mapError .reading
  let input ← read.recipe.buildFormula.mapError .ofBuild
  let nnf := input.expandArrows.nnf false
  let apart ← (nnf.standardizeApartChecked names).mapError .construction
  let extracted ← apart.1.extract.mapError .notNnf
  let prenex := extracted.2.quantify extracted.1
  let skolem ← (prenex.skolemizeChecked apart.2).mapError .construction
  let cnf ← (NormalForm.conjunctive.ofPrenex skolem.1 budget).1.mapError .distribution
  let clauses ← cnf.clausalForm.mapError .notLiteral
  let dnf ← (NormalForm.disjunctive.ofPrenex prenex budget).1.mapError .distribution
  return ofResults input nnf prenex cnf dnf clauses

/-- **Every check passes.** -/
theorem ofTextChecked_eq (o : Options) (text : String) : ofTextChecked o text = ofText o text := by
  have hnames : NameSupply.ofPrefix o.skolemPrefix = .ok (NameSupply.new o.skolemPrefix) :=
    if_neg o.skolemPrefix_ne
  have hbudget : Budget.ofLimit o.budget = .ok (Budget.full o.budget o.budget_pos) :=
    dif_pos o.budget_pos
  rw [ofTextChecked, ofText, hnames, hbudget]
  cases hread : Formula.ofText text with
  | error e => rfl
  | ok f =>
    have hwritable := Formula.isWellFormed_of_ofText hread
    have hbuild : f.recipe.buildFormula = .ok f := by
      rw [Recipe.buildFormula, Formula.build_recipe hwritable]
      rfl
    have hnnf : (f.expandArrows.nnf false).HasPlainArguments :=
      (Formula.HasPlainArguments.of_isWellFormed hwritable).expandArrows.nnf false
    have hapart := Formula.standardizeApartChecked_eq (NameSupply.new o.skolemPrefix) hnnf
    simp only [mapError_ok, ok_bind, hbuild, hapart]
    cases hextract : ((f.expandArrows.nnf false).standardizeApart
        (NameSupply.new o.skolemPrefix)).1.extract with
    | error e => rfl
    | ok extracted =>
      have hmatrix : extracted.2.HasPlainArguments :=
        .of_extracts (Formula.extract_eq_ok_iff.1 hextract) (hnnf.standardizeApart _)
      have hskolem := Formula.skolemizeChecked_eq ((f.expandArrows.nnf false).standardizeApart
        (NameSupply.new o.skolemPrefix)).2 (hmatrix.quantify extracted.1)
      simp only [mapError_ok, ok_bind, hskolem]

end Report

end LogicForms
