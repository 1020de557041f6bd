import LogicForms.Proofs.Checks
import LogicForms.Proofs.ClausalForm

/-!
# What can go wrong in a run

If a text can be read, `Report.Outcome` says how the run ends: the first of the two distributions
that does not fit the budget makes it fail, and if both fit there is a report
(`Report.outcome_ofText`). Altogether there are four kinds of failures
(`Report.kind_mem_runKinds`).

Every pass finds the shape that it relies on, because the pass before it gives this shape: a
negation normal form, a combination of literals behind a prefix, and a conjunctive normal form
behind universal quantifiers.
-/

set_option autoImplicit false

namespace LogicForms

/-! ### Runs on a formula -/

namespace Report

/-- The prenex form of a formula in a run, with the names in use afterwards. -/
def prenexOf (o : Options) (f : Formula) : Except NotNnf Formula × NameSupply :=
  (f.expandArrows.nnf false).prenex (NameSupply.new o.skolemPrefix) true

/-- How a run with a given prenex form and Skolem form ends. -/
inductive Outcome (o : Options) (prenex skolem : Formula) : Except Failure Report → Prop
  | exceededFirst (hcnf : ¬ NormalForm.conjunctive.Fits skolem o.budget) :
      Outcome o prenex skolem (.error (.distribution (.exceeded ⟨"CNF", o.budget⟩)))
  | exceededSecond (hcnf : NormalForm.conjunctive.Fits skolem o.budget)
      (hdnf : ¬ NormalForm.disjunctive.Fits prenex o.budget) :
      Outcome o prenex skolem (.error (.distribution (.exceeded ⟨"DNF", o.budget⟩)))
  | finished (hcnf : NormalForm.conjunctive.Fits skolem o.budget)
      (hdnf : NormalForm.disjunctive.Fits prenex o.budget) (report : Report) :
      Outcome o prenex skolem (.ok report)

/-- If both distributions fit, there is a report. -/
theorem Outcome.exists_report {o : Options} {prenex skolem : Formula}
    {result : Except Failure Report} (h : Outcome o prenex skolem result)
    (hcnf : NormalForm.conjunctive.Fits skolem o.budget)
    (hdnf : NormalForm.disjunctive.Fits prenex o.budget) : ∃ report, result = .ok report := by
  cases h with
  | exceededFirst hexceeded => exact absurd hcnf hexceeded
  | exceededSecond _ hexceeded => exact absurd hdnf hexceeded
  | finished _ _ report => exact ⟨report, rfl⟩

/-- A conjunctive normal form of a combination of literals behind universal quantifiers splits into
clauses. -/
theorem exists_clauses {m g : Formula} {xs : List String} {budget : Budget} (hm : m.IsCombination)
    (h : (NormalForm.conjunctive.ofPrenex (m.quantify (xs.map (Binder.mk .universal))) budget).1
      = .ok g) : ∃ clauses, g.clausalForm = .ok clauses := by
  obtain ⟨r, hr, rfl⟩ := NormalForm.ofPrenex_eq_ok_iff.1 h
  obtain ⟨n, hdistributes, -⟩ := NormalForm.distributes_of_distributeWithin _ hr
  rw [(Formula.matrix_quantify hm.isQuantified_eq _).2]
  exact Formula.exists_clausalForm_iff.2 (Formula.isUniversalCnf_quantify hdistributes.isNormal xs)

/-- The distributions of a run and the step from one to the other end as they should, if there are
combinations of literals behind the prefixes. -/
theorem outcome_distributions (o : Options) {m m' : Formula} (hm : m.IsCombination)
    (hm' : m'.IsCombination) (p : Prefix) (xs : List String)
    (report : Formula → Formula → List Clause → Report) :
    Outcome o (m.quantify p) (m'.quantify (xs.map (Binder.mk .universal))) (do
      let cnf ← (NormalForm.conjunctive.ofPrenex (m'.quantify (xs.map (Binder.mk .universal)))
        (Budget.full o.budget o.budget_pos)).1.mapError .distribution
      let clauses ← cnf.clausalForm.mapError .notLiteral
      let dnf ← (NormalForm.disjunctive.ofPrenex (m.quantify p)
        (Budget.full o.budget o.budget_pos)).1.mapError .distribution
      return report cnf dnf clauses) := by
  have hmatrix := (Formula.matrix_quantify hm.isQuantified_eq p).1
  have hmatrix' := (Formula.matrix_quantify hm'.isQuantified_eq (xs.map (Binder.mk .universal))).1
  -- each distribution starts with the full budget, so the second does not depend on the first
  by_cases hcnf : NormalForm.conjunctive.Fits (m'.quantify (xs.map (Binder.mk .universal))) o.budget
  · obtain ⟨cnf, hok⟩ := NormalForm.exists_ofPrenex (Budget.full o.budget o.budget_pos) hcnf
    obtain ⟨clauses, hclauses⟩ := exists_clauses hm' hok
    simp only [hok, mapError_ok, ok_bind, hclauses]
    by_cases hdnf : NormalForm.disjunctive.Fits (m.quantify p) o.budget
    · obtain ⟨dnf, hok'⟩ := NormalForm.exists_ofPrenex (Budget.full o.budget o.budget_pos) hdnf
      rw [hok']
      exact .finished hcnf hdnf _
    · rw [NormalForm.ofPrenex_eq_exceeded _ (by rw [hmatrix, hm.isQuantifierFree]) hdnf]
      exact .exceededSecond hcnf hdnf
  · rw [NormalForm.ofPrenex_eq_exceeded _ (by rw [hmatrix', hm'.isQuantifierFree]) hcnf]
    exact .exceededFirst hcnf

/-- **A run on a formula has a prenex form, and ends according to it and its Skolem form.** -/
theorem outcome_ofText (o : Options) {text : String} {f : Formula}
    (h : Formula.ofText text = .ok f) :
    ∃ prenex, (prenexOf o f).1 = .ok prenex ∧
      Outcome o prenex (prenex.skolemize (prenexOf o f).2).1 (ofText o text) := by
  have hnnf : ((f.expandArrows.nnf false).standardizeApart
      (NameSupply.new o.skolemPrefix)).1.isNnf = true :=
    Formula.isNnf_standardizeApart _ (Formula.isNnf_nnf _ false)
  obtain ⟨p, m, hextracts⟩ := Formula.exists_extracts hnnf
  have hextract := Formula.extract_eq_ok_iff.2 hextracts
  have hm := hextracts.isCombination
  refine ⟨m.quantify p, ?_, ?_⟩
  · simp only [prenexOf, Formula.prenex, if_true, Formula.withQuantifiersInFront, hextract]
    rfl
  · -- Skolem forms keep the shape: universal quantifiers in front of a combination of literals
    obtain ⟨m', hm', hskolem⟩ := Formula.exists_skolemize hm p (prenexOf o f).2
    have hends := outcome_distributions o hm hm' p p.universals
      (ofResults f (f.expandArrows.nnf false) (m.quantify p))
    rw [← hskolem] at hends
    rw [ofText, h]
    simp only [mapError_ok, ok_bind, hextract]
    exact hends

/-- A run fails because the text cannot be read, or because a distribution does not fit. -/
theorem failure_ofText {o : Options} {text : String} {e : Failure} (h : ofText o text = .error e) :
    (∃ error, Formula.ofText text = .error error ∧ e = .reading error) ∨
      ∃ form : NormalForm, e = .distribution (.exceeded ⟨form.label, o.budget⟩) := by
  cases hread : Formula.ofText text with
  | error error =>
    have hfailure : ofText o text = .error (.reading error) := by
      rw [ofText, hread]
      rfl
    rw [hfailure] at h
    cases h
    exact Or.inl ⟨error, rfl, rfl⟩
  | ok f =>
    obtain ⟨prenex, -, hends⟩ := outcome_ofText o hread
    rw [h] at hends
    cases hends with
    | exceededFirst => exact Or.inr ⟨.conjunctive, rfl⟩
    | exceededSecond => exact Or.inr ⟨.disjunctive, rfl⟩

end Report

/-! ### Kinds of failures -/

/-- The kinds of failures that a run can end with. -/
def Failure.runKinds : List String :=
  ["LexError", "UnexpectedToken", "TrailingTokens", "ResourceExceeded"]

/-- **A run that fails does so in one of four ways.** -/
theorem Report.kind_mem_runKinds {o : Options} {text : String} {e : Failure}
    (h : ofText o text = .error e) : e.kind ∈ Failure.runKinds := by
  rcases failure_ofText h with ⟨error, -, rfl⟩ | ⟨form, rfl⟩
  · rcases error with e | ⟨expected, rest⟩ | rest <;> simp [Failure.kind, Failure.runKinds]
  · simp [Failure.kind, Failure.runKinds]

end LogicForms
