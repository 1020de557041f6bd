import LogicForms.Proofs.ClausalForm
import LogicForms.Proofs.Hygiene

/-!
# What clauses say

A clause has no quantifiers any more, so it has to be said how its variables are meant. With the
universal quantifiers dropped, variables are read universally. But the variables that occur free in
the formula that was read are in the clauses as well, and no pass binds them: they are parameters,
with one value throughout. Read in this way, the clauses of a run can be true together exactly if
the formula can be true (`Session.call_clauses`).

Read universally as well, the parameters make the clauses say more. For formulas without free
variables this makes no difference; for others, clauses that can be true together still show that
the formula can be true, but not conversely (`Session.call_clauses_open`).
-/

set_option autoImplicit false

namespace LogicForms

open Formula

universe u

/-! ### Clauses that are true together -/

namespace Clause

variable {D : Type u}

/-- All clauses are true, whatever values their variables have; only the parameters have the values
that the valuation gives them. -/
def AllHold (parameters : List String) (clauses : List Clause) (M : Structure D)
    (v : Valuation D) : Prop :=
  ∀ w : Valuation D, (∀ x ∈ parameters, w x = v x) → ∀ c ∈ clauses, c.Holds M w

/-- The clauses are true together in some structure with a non-empty domain for some values of the
parameters. Without parameters, all variables are read universally. -/
def JointlySatisfiable (parameters : List String) (clauses : List Clause) : Prop :=
  ∃ (D : Type u) (_ : Nonempty D) (M : Structure D) (v : Valuation D),
    AllHold parameters clauses M v

/-- With fewer parameters, clauses say more. -/
theorem AllHold.mono {parameters parameters' : List String} {clauses : List Clause}
    {M : Structure D} {v : Valuation D} (h : AllHold parameters clauses M v)
    (hsubset : parameters ⊆ parameters') : AllHold parameters' clauses M v := by
  intro w hw
  exact h w fun x hx => hw x (hsubset hx)

theorem JointlySatisfiable.mono {parameters parameters' : List String} {clauses : List Clause}
    (h : JointlySatisfiable.{u} parameters clauses) (hsubset : parameters ⊆ parameters') :
    JointlySatisfiable.{u} parameters' clauses := by
  obtain ⟨D, hD, M, v, hall⟩ := h
  exact ⟨D, hD, M, v, hall.mono hsubset⟩

end Clause

namespace Formula

variable {D : Type u} (M : Structure D) {f : Formula} {clauses : List Clause}

/-- **The clauses of a formula say what the formula says**, if its free variables are the
parameters. -/
theorem allHold_freeVars_iff (h : f.clausalForm = .ok clauses) (v : Valuation D) :
    Clause.AllHold f.freeVars clauses M v ↔ f.Holds M v := by
  constructor
  · intro hall
    refine (holds_iff_forall_clauses M h v).2 fun w hw => hall w ?_
    -- the quantified variables are no parameters
    intro x hx
    rw [← quantify_leading f, mem_freeVars_quantify] at hx
    exact hw x hx.2
  · intro hv w hw
    have hfw : f.Holds M w := (holds_congr M hw).2 hv
    exact (holds_iff_forall_clauses M h w).1 hfw w fun _ _ => rfl

end Formula

/-! ### Clauses in reports -/

namespace Report.IsFor

variable {o : Options} {text : String} {report : Report}

/-- The conjunctive normal form can be true exactly if the formula that was read can. -/
theorem satisfiable_cnf_iff (h : report.IsFor o text) :
    Satisfiable.{u} report.cnf.result ↔ Satisfiable.{u} report.input.result := by
  constructor
  · rintro ⟨D, hD, M, v, hcnf⟩
    exact ⟨D, hD, M, v, h.holds_of_cnf M hcnf⟩
  · rintro ⟨D, hD, M, v, hinput⟩
    obtain ⟨N, -, hcnf⟩ := h.exists_holds_cnf M hinput
    exact ⟨D, hD, N, v, hcnf⟩

/-- With the free variables of the formula that was read as parameters, the clauses can be true
together exactly if the formula can be true. -/
theorem jointlySatisfiable_iff (h : report.IsFor o text) :
    Clause.JointlySatisfiable.{u} report.input.result.freeVars report.clausal.result ↔
      Satisfiable.{u} report.input.result := by
  rw [← h.satisfiable_cnf_iff]
  constructor
  · intro hclauses
    -- the conjunctive normal form has the same free variables
    obtain ⟨D, hD, M, v, hall⟩ := hclauses.mono fun x hx => h.mem_freeVars_cnf.2 hx
    exact ⟨D, hD, M, v, (allHold_freeVars_iff M h.clausal v).1 hall⟩
  · rintro ⟨D, hD, M, v, hcnf⟩
    have hall := (allHold_freeVars_iff M h.clausal v).2 hcnf
    exact ⟨D, hD, M, v, hall.mono fun x hx => h.mem_freeVars_cnf.1 hx⟩

end Report.IsFor

namespace Session

/-- **The clauses of a call can be true together exactly if the formula that was read can be true**,
where the free variables of the formula are parameters and all other variables are read universally.
If all variables are read universally, clauses that can be true together still show that the formula
can be true, and the converse holds for formulas without free variables. -/
theorem call_clauses {s : Session} {text : String} {settings : List Setting} {report : Report}
    (h : (s.call text settings).result = .ok report) :
    (Clause.JointlySatisfiable.{u} report.input.result.freeVars report.clausal.result ↔
        Satisfiable.{u} report.input.result) ∧
      (Clause.JointlySatisfiable.{u} [] report.clausal.result →
        Satisfiable.{u} report.input.result) ∧
      (report.input.result.freeVars = [] →
        (Clause.JointlySatisfiable.{u} [] report.clausal.result ↔
          Satisfiable.{u} report.input.result)) := by
  obtain ⟨o, -, hreport⟩ := isFor_of_call h
  have hiff := hreport.jointlySatisfiable_iff
  refine ⟨hiff, fun hclauses => hiff.1 (hclauses.mono (List.nil_subset _)), fun hclosed => ?_⟩
  rw [hclosed] at hiff
  exact hiff

theorem call_clauses_sample :
    ((ofOptions Options.standard).call "∃x ∀y R(x, y) → ∃y Q(y, z)" []).result
        = .ok sampleReport ∧
      (Clause.JointlySatisfiable.{u} ["z"] sampleReport.clausal.result ↔
        Satisfiable.{u} sampleReport.input.result) := by
  have hfree : sampleReport.input.result.freeVars = ["z"] := by decide
  have hclauses := (call_clauses call_sample).1
  rw [hfree] at hclauses
  exact ⟨call_sample, hclauses⟩

/-- The report on `P(x) ∧ ∃y ¬P(y)`, where `x` occurs free and gets into the clauses. -/
def openReport : Report :=
  let input : Formula := .and (.pred "P" [.var "x"]) (.ex "y" (.not (.pred "P" [.var "y"])))
  let prenex : Formula := .ex "y" (.and (.pred "P" [.var "x"]) (.not (.pred "P" [.var "y"])))
  let cnf : Formula := .and (.pred "P" [.var "x"]) (.not (.pred "P" [.const "SK1"]))
  .ofResults input input prenex cnf prenex
    [⟨[.pred "P" [.var "x"]], by decide⟩, ⟨[.not (.pred "P" [.const "SK1"])], by decide⟩]

/-- With free variables, the clauses need not be satisfiable with all variables read universally:
`P(x)` and `¬P(SK1)` are not, although `P(x) ∧ ∃y ¬P(y)` is true in a structure with two elements.
-/
theorem call_clauses_open :
    ((ofOptions Options.standard).call "P(x) ∧ ∃y ¬P(y)" []).result = .ok openReport ∧
      Satisfiable.{u} openReport.input.result ∧
      ¬ Clause.JointlySatisfiable.{u} [] openReport.clausal.result := by
  refine ⟨?_, ?_, ?_⟩
  · rw [call_result]
    cbv
  · let M : Structure (ULift.{u} Bool) :=
      { const := fun _ => ⟨true⟩, func := fun _ _ => ⟨true⟩, equation := fun _ _ => ⟨true⟩,
        predicate := fun _ _ => ⟨true⟩, negation := fun _ => ⟨true⟩,
        connective := fun _ _ _ => ⟨true⟩, quantifier := fun _ _ _ => ⟨true⟩,
        bound := fun _ => ⟨true⟩, rel := fun _ args => args = [⟨true⟩] }
    refine ⟨ULift.{u} Bool, ⟨⟨true⟩⟩, M, fun _ => ⟨true⟩, rfl, ⟨false⟩, ?_⟩
    intro hfalse
    exact absurd (congrArg ULift.down (List.head_eq_of_cons_eq hfalse)) (by decide)
  · rintro ⟨D, -, M, v, hall⟩
    -- the value of the symbol is one of the values of `x`
    have hclauses := hall (fun _ => M.const "SK1") (by simp)
    have hpos : Clause.Holds M (fun _ => M.const "SK1") ⟨[.pred "P" [.var "x"]], by decide⟩ :=
      hclauses _ (by decide)
    have hneg : Clause.Holds M (fun _ => M.const "SK1")
        ⟨[.not (.pred "P" [.const "SK1"])], by decide⟩ := hclauses _ (by decide)
    obtain ⟨l, hl, hholds⟩ := hpos
    obtain ⟨l', hl', hholds'⟩ := hneg
    cases List.mem_singleton.1 hl
    cases List.mem_singleton.1 hl'
    exact hholds' hholds

end Session

end LogicForms
