import LogicForms.Proofs.CallDepth
import LogicForms.Proofs.ErrorLines
import LogicForms.Proofs.Frame
import LogicForms.Proofs.Settings

/-!
# Failures of runs and of the program

`run_failures` puts together what can go wrong in a run, with any options and on any text. If there
is room on the stack, the text cannot be read, or one of the two distributions does not fit the
budget. No constructor refuses its arguments, and no pass meets a formula that it is not made for.
Otherwise the run fails because of the nesting of calls, and only then with any other kind of
failure.

For the command line program this means that it prints a report, or else one line on the error
channel, as long as there is room for the run, and after the run for the printing. The second
condition is not a consequence of the first one (`executeWithin_chain`). With room for everything,
the program does what it does without regard to the stack (`executeWithin_eq_execute`).
-/

set_option autoImplicit false

namespace LogicForms.CommandLine

open Session (ofOptions)

variable {stack : CallStack} {s : String}

/-! ### A single argument -/

/-- An argument without a hyphen in front is the formula. -/
theorem wish_single (h : s.toList.head? ≠ some '-') :
    Wish.ofList [s] = .ok (.run ⟨s, .standard, .standard, false⟩) := by
  have hseparator : s ≠ "--" := by
    rintro rfl
    exact h rfl
  -- only what begins with a hyphen can be an option
  have hclass : classify s = .ok .plain := by
    rw [classify]
    split <;> simp_all
  simp only [Wish.ofList, classifyAll, if_neg hseparator, hclass]
  rfl

/-- The settings without any option are those of the standard options. -/
theorem ofSettings_standard :
    Session.ofSettings [.budget Budget.standardLimit, .logLevel 0]
      = .ok (ofOptions Options.standard) := rfl

/-- With the standard options, nothing counts for the log. -/
theorem log_call_standard (s : String) :
    ((ofOptions Options.standard).call s []).log = [] := by
  have hlimit : (ofOptions Options.standard).options.checkRecursionLimit = .ok () := rfl
  -- the standard threshold is the level of warnings, and runs have none
  simp only [Session.call, Options.update_nil, hlimit]
  exact Session.perform_log (Session.Keeps.loggedRun s)

/-- With a formula only, the program prints what a call with the standard options gives. -/
theorem executeWithin_single (stack : CallStack) (h : s.toList.head? ≠ some '-') :
    executeWithin stack [s] = .ok (.ofResult stack false []
      ((ofOptions Options.standard).resultWithin stack s [])) := by
  have hsettings : (Arguments.mk s .standard .standard false).settings
      = .ok [.budget Budget.standardLimit, .logLevel 0] := rfl
  simp only [executeWithin, wish_single h, Arguments.executeWithin, hsettings, ok_bind,
    ofSettings_standard, log_call_standard]
  rfl

/-! ### Failures -/

/-- The program prints a line for every failure of a run that is not due to the nesting of calls. -/
theorem isHandled_of_ofText {o : Options} {e : Failure} (h : Report.ofText o s = .error e) :
    isHandled e = true := by
  rcases Report.failure_ofText h with ⟨error, -, rfl⟩ | ⟨form, rfl⟩ <;> rfl

/-- Failures due to the nesting of calls are of other kinds than those of runs with enough room. -/
theorem kind_recursion_not_mem_runKinds (e : RecursionError) :
    (Failure.recursion e).kind ∉ Failure.runKinds := by
  cases e with
  | limit n =>
    change "OverflowError" ∉ Failure.runKinds
    decide
  | exhausted => decide

/-- The execution shows the result of a run: it prints the report, or one line with the kind and the
message of one of the failures that are expected. -/
inductive Execution.Shows : Except Failure Report → Execution → Prop
  | report (report : Report) : Shows (.ok report) ⟨0, report.text false, "", []⟩
  | failure {e : Failure} (hkind : e.kind ∈ Failure.runKinds)
      (hline : Text.lines e.line.toList = [(e.kind ++ ": " ++ e.message).toList]) :
      Shows (.error e) ⟨1, "", e.line, []⟩

/-- With room for all parts, a report is printed. -/
theorem ofResult_ok {report : Report} {steps : Bool} (log : List LogEntry)
    (h : ∀ part ∈ report.parts steps, stack.CanPrint part.item) :
    Ending.ofResult stack steps log (.ok report)
      = .finished ⟨0, report.text steps, "", log⟩ := by
  simp only [Ending.ofResult, CallStack.print_of_forall h]
  rfl

/-- Without room for all parts, the program is ended by the stack. -/
theorem ofResult_eq_uncaught {report : Report} {steps : Bool} (log : List LogEntry)
    (h : ¬ ∀ part ∈ report.parts steps, stack.CanPrint part.item) :
    ∃ stdout, Ending.ofResult stack steps log (.ok report)
      = .uncaught stdout (.recursion .exhausted) := by
  obtain ⟨before, part, after, hparts, hbefore, hpart⟩ := CallStack.exists_of_not_forall h
  refine ⟨Report.ofLines (before.flatMap Report.Part.lines ++ part.head), ?_⟩
  simp only [Ending.ofResult, hparts, CallStack.print_append hbefore hpart]
  rfl

/-- The program ends by itself and shows the result of the run exactly if there is room for the run
and for printing the report. -/
theorem exists_shows_iff :
    (∃ x, Ending.ofResult stack false [] ((ofOptions Options.standard).resultWithin stack s [])
        = .finished x ∧
      x.Shows ((ofOptions Options.standard).resultWithin stack s [])) ↔
    stack.HasRoomFor Options.standard s ∧
      ∀ report, (ofOptions Options.standard).resultWithin stack s [] = .ok report →
        ∀ part ∈ report.parts false, stack.CanPrint part.item := by
  rw [Session.resultWithin_ofOptions, if_pos Options.recursionLimit_standard_le]
  by_cases hroom : stack.HasRoomFor Options.standard s
  · rw [if_pos hroom]
    simp only [hroom, true_and]
    cases hresult : Report.ofText Options.standard s with
    | error e =>
      simp only [reduceCtorEq, false_imp_iff, implies_true, iff_true]
      refine ⟨⟨1, "", e.line, []⟩, ?_, .failure (Report.kind_mem_runKinds hresult)
        (Report.lines_line_of_ofText hresult)⟩
      rw [Ending.ofResult, if_pos (isHandled_of_ofText hresult)]
    | ok report =>
      constructor
      · rintro ⟨x, hfinished, -⟩ report' ⟨⟩
        by_contra hprint
        obtain ⟨stdout, huncaught⟩ := ofResult_eq_uncaught [] hprint
        rw [huncaught] at hfinished
        cases hfinished
      · intro hprint
        exact ⟨_, ofResult_ok [] (hprint report rfl), .report report⟩
  · rw [if_neg hroom]
    simp only [hroom, false_and, iff_false]
    rintro ⟨x, hfinished, -⟩
    cases hfinished

/-! ### Room for everything -/

/-- There is room for the run that the arguments ask for, and for printing its report. -/
def Arguments.HasRoom (stack : CallStack) (a : Arguments) : Prop :=
  ∀ settings session, a.settings = .ok settings → Session.ofSettings settings = .ok session →
    stack.HasRoomFor session.options a.formula ∧
      ∀ report, (session.call a.formula []).result = .ok report →
        ∀ part ∈ report.parts a.steps, stack.CanPrint part.item

/-- The settings of arguments are a budget and a log level. -/
theorem settings_eq_ok {a : Arguments} {settings : List Setting} (h : a.settings = .ok settings) :
    ∃ budget level, settings = [.budget budget, .logLevel level] := by
  obtain ⟨level, -, h⟩ := bind_eq_ok.1 h
  obtain ⟨budget, -, h⟩ := bind_eq_ok.1 h
  cases h
  exact ⟨budget, level, rfl⟩

/-- A session with such settings has the standard recursion limit. -/
theorem ofSettings_eq_ok {budget level : Int} {session : Session}
    (h : Session.ofSettings [.budget budget, .logLevel level] = .ok session) :
    ∃ o, session = ofOptions o ∧ o.recursionLimit ≤ Options.highestRecursionLimit := by
  obtain ⟨o, ho, rfl⟩ := map_eq_ok.1 h
  refine ⟨o, rfl, ?_⟩
  have hlimit := congrArg Options.Draft.recursionLimit (Options.update_eq_ok_iff.1 ho).2
  change Options.standard.recursionLimit = o.recursionLimit at hlimit
  rw [← hlimit]
  exact Options.recursionLimit_standard_le

/-- Settings of arguments that are refused give a line. -/
theorem isHandled_of_ofSettings {budget level : Int} {e : OptionError}
    (h : Session.ofSettings [.budget budget, .logLevel level] = .error e) :
    isHandled (.options e) = true := by
  cases hupdate : Options.standard.update [.budget budget, .logLevel level] with
  | ok o =>
    rw [Session.ofSettings, hupdate] at h
    cases h
  | error e' =>
    rw [Session.ofSettings, hupdate] at h
    cases h
    -- both options exist, so that it is one of the values that is refused
    change Options.Draft.check ⟨budget, _, level, _⟩ = .error e at hupdate
    rw [Options.Draft.check] at hupdate
    split at hupdate
    · split at hupdate <;> cases hupdate
      rfl
    · cases hupdate
      rfl

/-- **With room for everything, the stack makes no difference.** -/
theorem executeWithin_eq_execute (arguments : List String)
    (h : ∀ a, Wish.ofList arguments = .ok (.run a) → a.HasRoom stack) :
    executeWithin stack arguments = (execute arguments).map .finished := by
  rw [executeWithin, execute]
  cases hwish : Wish.ofList arguments with
  | error e => rfl
  | ok wish =>
    cases wish with
    | help => rfl
    | run a =>
      simp only [Arguments.executeWithin, Arguments.execute]
      cases hsettings : a.settings with
      | error e => rfl
      | ok settings =>
        obtain ⟨budget, level, rfl⟩ := settings_eq_ok hsettings
        simp only [ok_bind]
        cases hsession : Session.ofSettings [.budget budget, .logLevel level] with
        | error e =>
          simp only [Ending.ofResult, isHandled_of_ofSettings hsession, if_true]
          rfl
        | ok session =>
          obtain ⟨hrun, hprint⟩ := h a hwish _ session hsettings hsession
          obtain ⟨o, rfl, hlimit⟩ := ofSettings_eq_ok hsession
          dsimp only
          rw [Session.resultWithin_of_hasRoomFor hlimit hrun]
          rw [Session.call_result_of_le hlimit] at hprint ⊢
          cases hresult : Report.ofText o a.formula with
          | error e =>
            simp only [Ending.ofResult, isHandled_of_ofText hresult, if_true]
            rfl
          | ok report =>
            simp only [ofResult_ok _ (hprint report hresult)]
            rfl

/-! ### Main result -/

/-- A stack for samples. A text and its formula take ten calls for each character and one for each
level, and printing takes one for each level, besides those for the atoms and those that are open
already. -/
def sampleStack : CallStack where
  limit := 1000
  runDepth _ text := 20 + 10 * text.length +
    match Formula.ofText text with
    | .ok f => f.depth
    | .error _ => 0
  printDepth
    | .formula f => 20 + f.depth
    | _ => 20
  limit_le := by decide
  depth_lt_runDepth o text f h := by
    rw [h]
    dsimp only
    omega
  depth_lt_printDepth f := by
    dsimp only
    omega

/-- **A report can be there and not be printed.** A chain of conjunctions comes through the run if
it has fewer parts than the budget has units. If it has at least as many conjunctions as calls can
be open outside of runs, the program prints the first title and is ended by the stack. -/
theorem executeWithin_chain {n : Nat} (hlimit : stack.limit ≤ n)
    (hbudget : 2 * n + 1 < Budget.standardLimit)
    (hroom : stack.HasRoomFor Options.standard (Formula.chain n).text) :
    executeWithin stack [(Formula.chain n).text]
      = .ok (.uncaught "original:\n" (.recursion .exhausted)) := by
  have hread := Formula.ofText_text (Formula.isWellFormed_chain n)
  have hsize : (Formula.chain n).size < Options.standard.budget := by
    rw [Formula.size_chain]
    exact hbudget
  obtain ⟨report, hreport⟩ := Report.exists_ofText hread (Formula.isNormal_chain .conjunctive n)
    (Formula.isNormal_chain .disjunctive n) hsize
  have hinput : Formula.chain n = report.input.result :=
    Except.ok.inj (hread.symm.trans (Report.isFor_of_ofText hreport).input)
  have hdepth : stack.limit ≤ report.input.result.depth := by
    rw [← hinput, Formula.depth_chain]
    exact hlimit
  have hhyphen : (Formula.chain n).text.toList.head? ≠ some '-' := by
    rw [Formula.head?_text_chain]
    decide
  rw [executeWithin_single stack hhyphen, Session.resultWithin_ofOptions,
    if_pos Options.recursionLimit_standard_le, if_pos hroom, hreport, ofResult_of_le_depth hdepth]

/-- On the sample stack there is room for runs on chains that are not too long. -/
theorem hasRoomFor_chain {n : Nat} (h : n ≤ 2000) :
    sampleStack.HasRoomFor Options.standard (Formula.chain n).text := by
  have hread := Formula.ofText_text (Formula.isWellFormed_chain n)
  have hdepth : sampleStack.runDepth Options.standard (Formula.chain n).text
      = 20 + 10 * (4 * n + 1) + n := by
    simp only [sampleStack, hread, Formula.length_text_chain, Formula.depth_chain]
  have hlimit : sampleStack.limitWithin Options.standard = 100000 := rfl
  rw [CallStack.HasRoomFor, hdepth, hlimit]
  omega

end LogicForms.CommandLine
