import LogicForms.Proofs.Extraction
import LogicForms.Proofs.Outcomes
import LogicForms.Session

/-!
# What a call computes

Computations in a session read and change its state, log, and can fail. `Session.Gives` is the
outcome of a computation from a session on; it does not depend on what has been logged. There is
one rule for each operation, and one for each derivation: it gives what the function behind it
gives, and hands on the names and the budget.

Taken together, a call gives the report that is computed from the text by the functions on formulas
alone, with new names and a full budget (`Session.call_result`), unless its recursion limit cannot
be set. What has been done before in the session has no part in it, except for the options.
-/

set_option autoImplicit false

namespace LogicForms

/-! ### Reports without sessions -/

namespace Report

/-- The report with the given results and the labels of the steps that lead to them. -/
def ofResults (input nnf prenex cnf dnf : Formula) (clauses : List Clause) : Report where
  input := ⟨input, []⟩
  nnf := ⟨nnf, [Step.eliminate, Step.negations]⟩
  prenex := ⟨prenex, [Step.eliminate, Step.negations, Step.standardize, Step.prenex]⟩
  cnf := ⟨cnf, [Step.eliminate, Step.negations, Step.standardize, Step.prenex, Step.skolemize,
    Step.distributeOr]⟩
  dnf := ⟨dnf, [Step.eliminate, Step.negations, Step.standardize, Step.prenex,
    Step.distributeAnd]⟩
  clausal := ⟨clauses, [Step.dropUniversals, Step.splitConjunctions, Step.clauseCount clauses]⟩
  horn := HornPartition.derivation clauses

/-- The report on a text: each derivation works on the result of an earlier one, with new names and,
for each distribution, a full budget. -/
def ofText (o : Options) (text : String) : Except Failure Report := do
  let input ← (Formula.ofText text).mapError .reading
  let nnf := input.expandArrows.nnf false
  let apart := nnf.standardizeApart (NameSupply.new o.skolemPrefix)
  let extracted ← apart.1.extract.mapError .notNnf
  let prenex := extracted.2.quantify extracted.1
  let budget := Budget.full o.budget o.budget_pos
  let skolem := (prenex.skolemize apart.2).1
  let cnf ← (NormalForm.conjunctive.ofPrenex skolem budget).1.mapError .distribution
  let clauses ← cnf.clausalForm.mapError .notLiteral
  let dnf ← (NormalForm.disjunctive.ofPrenex prenex budget).1.mapError .distribution
  return ofResults input nnf prenex cnf dnf clauses

/-- The names in use when all quantifiers have variables of their own. -/
def namesApart (report : Report) (o : Options) : NameSupply :=
  (report.nnf.result.standardizeApart (NameSupply.new o.skolemPrefix)).2

/-- How the results in a report on a text hang together. -/
structure IsFor (o : Options) (text : String) (report : Report) : Prop where
  input : Formula.ofText text = .ok report.input.result
  nnf : report.nnf.result = report.input.result.expandArrows.nnf false
  /-- The prenex form is what is extracted, with the prefix in front of the matrix. -/
  prenex : ∃ p m, (report.nnf.result.standardizeApart
    (NameSupply.new o.skolemPrefix)).1.Extracts p m ∧ report.prenex.result = m.quantify p
  cnf : (NormalForm.conjunctive.ofPrenex (report.prenex.result.skolemize (report.namesApart o)).1
    (Budget.full o.budget o.budget_pos)).1 = .ok report.cnf.result
  clausal : report.cnf.result.clausalForm = .ok report.clausal.result
  dnf : (NormalForm.disjunctive.ofPrenex report.prenex.result
    (Budget.full o.budget o.budget_pos)).1 = .ok report.dnf.result
  horn : report.horn = HornPartition.derivation report.clausal.result

/-- The results of a report that is computed hang together. -/
theorem isFor_of_ofText {o : Options} {text : String} {report : Report}
    (h : ofText o text = .ok report) : report.IsFor o text := by
  obtain ⟨input, hinput, h⟩ := bind_eq_ok.1 h
  obtain ⟨⟨p, m⟩, hextract, h⟩ := bind_eq_ok.1 h
  obtain ⟨cnf, hcnf, h⟩ := bind_eq_ok.1 h
  obtain ⟨clauses, hclauses, h⟩ := bind_eq_ok.1 h
  obtain ⟨dnf, hdnf, h⟩ := bind_eq_ok.1 h
  rw [mapError_eq_ok] at hinput hextract hcnf hclauses hdnf
  cases h
  exact ⟨hinput, rfl, ⟨p, m, Formula.extract_eq_ok_iff.1 hextract, rfl⟩, hcnf, hclauses, hdnf, rfl⟩

end Report

/-! ### Budgets -/

namespace NormalForm

/-- Of a budget, distributing reads the limit only. -/
theorem ofPrenex_congr (form : NormalForm) (f : Formula) {budget budget' : Budget}
    (h : budget.limit = budget'.limit) :
    (form.ofPrenex f budget).1 = (form.ofPrenex f budget').1 := by
  obtain ⟨limit, remaining, hpos⟩ := budget
  obtain ⟨limit', remaining', hpos'⟩ := budget'
  obtain rfl : limit = limit' := h
  simp only [ofPrenex, distribute]
  cases form.distributeWithin (f.matrix.nnf false) limit with
  | ok r => rfl
  | error e => cases e <;> rfl

/-- Distributing does not change the limit of a budget. -/
@[simp] theorem ofPrenex_limit (form : NormalForm) (f : Formula) (budget : Budget) :
    (form.ofPrenex f budget).2.limit = budget.limit := by
  simp only [ofPrenex, distribute]
  cases form.distributeWithin (f.matrix.nnf false) budget.limit with
  | ok r => rfl
  | error e => cases e <;> rfl

end NormalForm

/-! ### Outcomes -/

namespace Session

variable {α β ε : Type}

/-- From the session on, the computation has the outcome, whatever has been logged before. -/
def Gives (s : Session) (m : SessionM α) (r : Except Failure α) : Prop :=
  ∀ entries, (m.run.run ⟨s, entries⟩).1 = r

namespace Gives

variable {s : Session} {r : Except Failure β}

/-! The operations -/

theorem pure (s : Session) (a : α) : Gives s (pure a) (.ok a) := fun _ => rfl

theorem log (level : LogLevel) (message : String) {m : Unit → SessionM β}
    (h : Gives s (m ()) r) : Gives s (Session.log level message >>= m) r :=
  fun entries => h (⟨level, message⟩ :: entries)

theorem change (g : Session → Session) {m : Unit → SessionM β} (h : Gives (g s) (m ()) r) :
    Gives s (Session.change g >>= m) r :=
  fun entries => h entries

theorem current {m : Session → SessionM β} (h : Gives s (m s) r) :
    Gives s (Session.current >>= m) r :=
  fun entries => h entries

/-- A failure ends the computation; otherwise it goes on with the value. -/
theorem orFail (wrap : ε → Failure) (x : Except ε α) {m : α → SessionM β}
    {k : α → Except Failure β} (h : ∀ a, x = .ok a → Gives s (m a) (k a)) :
    Gives s (Session.orFail wrap x >>= m) (x.mapError wrap >>= k) := by
  cases x with
  | ok a => exact h a rfl
  | error e => exact fun _ => rfl

/-- Timing a phase leaves names and budget alone. -/
theorem markTimed (f : Timings → Timings) {m : Unit → SessionM β}
    (h : ∀ s' : Session, s'.names = s.names → s'.budget = s.budget → Gives s' (m ()) r) :
    Gives s (Session.markTimed f >>= m) r :=
  change _ (h _ rfl rfl)

/-! The derivations -/

variable {names : NameSupply} {budget : Budget}

theorem parse (text : String) {m : Derivation Formula → SessionM β}
    {k : Formula → Except Failure β}
    (h : ∀ f s', s'.names = s.names → s'.budget = s.budget → Gives s' (m ⟨f, []⟩) (k f)) :
    Gives s (Session.parse text >>= m) ((Formula.ofText text).mapError .reading >>= k) := by
  simp only [Session.parse, bind_assoc, pure_bind]
  refine orFail _ _ fun f _ => ?_
  exact markTimed _ (h f)

theorem nnf (f : Formula) {m : Derivation Formula → SessionM β}
    (h : Gives s (m ⟨f.expandArrows.nnf false, [Step.eliminate, Step.negations]⟩) r) :
    Gives s (Session.nnf f >>= m) r := by
  simp only [Session.nnf, bind_assoc, pure_bind]
  exact log _ _ (log _ _ h)

/-- The prenex form uses up names. -/
theorem prenex (f : Formula) (hnames : s.names = names) {m : Derivation Formula → SessionM β}
    {k : Prefix × Formula → Except Failure β}
    (h : ∀ e s', s'.names = (f.standardizeApart names).2 → s'.budget = s.budget →
      Gives s' (m ⟨e.2.quantify e.1, [Step.eliminate, Step.negations, Step.standardize,
        Step.prenex]⟩) (k e)) :
    Gives s (Session.prenex f true >>= m)
      ((f.standardizeApart names).1.extract.mapError .notNnf >>= k) := by
  subst hnames
  simp only [Session.prenex, if_true, bind_assoc, pure_bind]
  refine log _ _ (current (change _ (log _ _ (orFail _ _ fun e _ => ?_))))
  exact log _ _ (h e _ rfl rfl)

/-- A distribution uses up the budget, of which only the limit counts. -/
theorem distribute (form : NormalForm) (f : Formula) (hlimit : s.budget.limit = budget.limit)
    {m : Formula → SessionM β} {k : Formula → Except Failure β}
    (h : ∀ g s', s'.budget.limit = budget.limit → Gives s' (m g) (k g)) :
    Gives s (Session.distribute form f >>= m)
      ((form.ofPrenex f budget).1.mapError .distribution >>= k) := by
  rw [← form.ofPrenex_congr f hlimit]
  simp only [Session.distribute, bind_assoc, pure_bind]
  refine current (change _ (orFail _ _ fun g _ => ?_))
  refine log _ _ (h g _ ?_)
  exact (form.ofPrenex_limit f s.budget).trans hlimit

theorem cnf (f : Formula) (hnames : s.names = names) (hlimit : s.budget.limit = budget.limit)
    {m : Derivation Formula → SessionM β} {k : Formula → Except Failure β}
    (h : ∀ g s', s'.budget.limit = budget.limit →
      Gives s' (m ⟨g, [Step.eliminate, Step.negations, Step.standardize, Step.prenex,
        Step.skolemize, Step.distributeOr]⟩) (k g)) :
    Gives s (Session.cnf f >>= m)
      ((NormalForm.conjunctive.ofPrenex (f.skolemize names).1 budget).1.mapError
        .distribution >>= k) := by
  subst hnames
  simp only [Session.cnf, bind_assoc, pure_bind]
  refine log _ _ (current (change _ (log _ _ (distribute _ _ ?_ h))))
  exact hlimit

theorem dnf (f : Formula) (hlimit : s.budget.limit = budget.limit)
    {m : Derivation Formula → SessionM β} {k : Formula → Except Failure β}
    (h : ∀ g s', Gives s' (m ⟨g, [Step.eliminate, Step.negations, Step.standardize,
      Step.prenex, Step.distributeAnd]⟩) (k g)) :
    Gives s (Session.dnf f >>= m)
      ((NormalForm.disjunctive.ofPrenex f budget).1.mapError .distribution >>= k) := by
  simp only [Session.dnf, bind_assoc, pure_bind]
  exact log _ _ (distribute _ _ hlimit fun g s' _ => h g s')

theorem clausal (f : Formula) {m : Derivation (List Clause) → SessionM β}
    {k : List Clause → Except Failure β}
    (h : ∀ clauses, Gives s
      (m ⟨clauses, [Step.dropUniversals, Step.splitConjunctions, Step.clauseCount clauses]⟩)
      (k clauses)) :
    Gives s (Session.clausal f >>= m) (f.clausalForm.mapError .notLiteral >>= k) := by
  simp only [Session.clausal, bind_assoc, pure_bind]
  refine log _ _ (log _ _ (orFail _ _ fun clauses _ => ?_))
  exact log _ _ (h clauses)

theorem horn (clauses : List Clause) {m : Derivation HornPartition → SessionM β}
    (h : Gives s (m (HornPartition.derivation clauses)) r) :
    Gives s (Session.horn clauses >>= m) r := by
  simp only [Session.horn, bind_assoc, pure_bind]
  exact log _ _ (log _ _ h)

end Gives

/-! ### Runs and calls -/

/-- A run in a new session gives the report that is computed from the text. -/
theorem gives_run (o : Options) (text : String) {m : Report → SessionM β}
    {k : Report → Except Failure β} (h : ∀ s report, Gives s (m report) (k report)) :
    Gives (ofOptions o) (run text >>= m) (Report.ofText o text >>= k) := by
  simp only [run, Report.ofText, bind_assoc, pure_bind]
  refine .parse text fun input s₁ hnames₁ hbudget₁ => .nnf input ?_
  refine .prenex _ hnames₁ fun extracted s₂ hnames₂ hbudget₂ => ?_
  have hlimit₂ : s₂.budget.limit = o.budget := by
    rw [hbudget₂, hbudget₁]
    rfl
  -- the budget is untouched up to here, and the names are those that renaming apart has left
  refine .cnf _ hnames₂ hlimit₂ fun cnf s₃ hlimit₃ => ?_
  refine .clausal cnf fun clauses => .horn clauses ?_
  refine .markTimed _ fun s₄ _ hbudget₄ => ?_
  -- the second distribution finds what the first one has left of the budget, and resets it
  have hlimit₄ : s₄.budget.limit = o.budget := by
    rw [hbudget₄, hlimit₃]
    rfl
  refine .dnf _ hlimit₄ fun dnf s₅ => ?_
  exact .markTimed _ fun s₆ _ _ => h s₆ _

/-- A call gives the report that is computed from the text with the new options, if their recursion
limit can be set. -/
theorem call_result (s : Session) (text : String) (settings : List Setting) :
    (s.call text settings).result
      = (s.options.update settings).mapError .options >>= fun o =>
          o.checkRecursionLimit.mapError .recursion >>= fun _ => Report.ofText o text := by
  rw [call]
  cases s.options.update settings with
  | error e => rfl
  | ok o =>
    have hrun : Gives (ofOptions o) (loggedRun text) (Report.ofText o text) := by
      rw [← bind_pure (Report.ofText o text)]
      refine .current (.log _ _ (gives_run o text fun s report => ?_))
      exact .log _ _ (.change _ (.pure _ report))
    rw [mapError_ok, ok_bind]
    dsimp only
    cases o.checkRecursionLimit with
    | error e => rfl
    | ok _ => exact hrun []

/-- If a call gives a report, the options are valid and the report is one on the text. -/
theorem isFor_of_call {s : Session} {text : String} {settings : List Setting} {report : Report}
    (h : (s.call text settings).result = .ok report) :
    ∃ o, s.options.update settings = .ok o ∧ report.IsFor o text := by
  rw [call_result, bind_eq_ok] at h
  obtain ⟨o, ho, h⟩ := h
  obtain ⟨_, -, hreport⟩ := bind_eq_ok.1 h
  exact ⟨o, mapError_eq_ok.1 ho, Report.isFor_of_ofText hreport⟩

/-- With options whose recursion limit can be set, a call in a new session gives the report that is
computed from the text. -/
theorem call_result_of_le {o : Options} (h : o.recursionLimit ≤ Options.highestRecursionLimit)
    (text : String) : ((ofOptions o).call text []).result = Report.ofText o text := by
  have hoptions : (ofOptions o).options.update [] = .ok o := o.update_nil
  rw [call_result, hoptions, mapError_ok, ok_bind, Options.checkRecursionLimit, if_pos h,
    mapError_ok, ok_bind]

end Session

end LogicForms
