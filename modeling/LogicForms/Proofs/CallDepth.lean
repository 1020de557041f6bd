import LogicForms.CommandLine.Program
import LogicForms.Proofs.Failures
import LogicForms.Proofs.RoundTrip
import LogicForms.Proofs.Stability

/-!
# How deep calls nest

What a stack that can be exhausted changes about calls and about the program. A call on a stack has
the result that it has with all the room it needs, or fails because of the nesting of calls
(`Session.resultWithin_ofOptions`), and a report is printed up to the first result for which there
is no room (`CallStack.print_append`).

A report can be there and not be printed, as the limit during the run is higher than the limit
outside. This happens to every formula whose operators nest as deep as the limit outside
(`CommandLine.ofResult_of_le_depth`), and such formulas come through the run: formulas that are
normal forms already take one unit for each of their parts (`Report.exists_ofText`), and a chain of
conjunctions has only two parts for each level (`Formula.size_chain`).
-/

set_option autoImplicit false

namespace LogicForms

/-! ### Calls -/

namespace Session

variable {stack : CallStack} {o : Options} {text : String}

/-- A call in a new session computes the report from the text, if the recursion limit of the options
can be set and there is room for the run. -/
theorem resultWithin_ofOptions (stack : CallStack) (o : Options) (text : String) :
    (ofOptions o).resultWithin stack text [] =
      if o.recursionLimit ≤ Options.highestRecursionLimit then
        if stack.HasRoomFor o text then Report.ofText o text
        else .error (.recursion .exhausted)
      else .error (.recursion (.limit o.recursionLimit)) := by
  have hoptions : (ofOptions o).options.update [] = .ok o := o.update_nil
  rw [resultWithin, hoptions, mapError_ok, ok_bind]
  simp only [stack.limitWithin_le_iff]
  by_cases hlimit : o.recursionLimit ≤ Options.highestRecursionLimit
  · rw [if_pos hlimit, if_pos hlimit, call_result_of_le hlimit]
  · rw [if_neg hlimit, if_neg hlimit]

/-- With room for the run, the result is that of a call without regard to the stack. -/
theorem resultWithin_of_hasRoomFor (hlimit : o.recursionLimit ≤ Options.highestRecursionLimit)
    (hroom : stack.HasRoomFor o text) :
    (ofOptions o).resultWithin stack text [] = ((ofOptions o).call text []).result := by
  rw [resultWithin_ofOptions, if_pos hlimit, if_pos hroom, call_result_of_le hlimit]

end Session

/-! ### Printing -/

namespace CallStack

variable {stack : CallStack} {parts : List Report.Part}

/-- With room for all parts, all lines are printed. -/
theorem print_of_forall (h : ∀ part ∈ parts, stack.CanPrint part.item) :
    stack.print parts = (parts.flatMap Report.Part.lines, true) := by
  induction parts with
  | nil => rfl
  | cons part parts ih =>
    rw [List.forall_mem_cons] at h
    rw [print, if_pos h.1, ih h.2]
    rfl

/-- Printing ends at the first part for which there is no room, behind what stands in front of its
result. -/
theorem print_append {before after : List Report.Part} {part : Report.Part}
    (hbefore : ∀ p ∈ before, stack.CanPrint p.item) (hpart : ¬ stack.CanPrint part.item) :
    stack.print (before ++ part :: after)
      = (before.flatMap Report.Part.lines ++ part.head, false) := by
  induction before with
  | nil =>
    rw [List.nil_append, print, if_neg hpart]
    rfl
  | cons p before ih =>
    rw [List.forall_mem_cons] at hbefore
    rw [List.cons_append, print, if_pos hbefore.1, ih hbefore.2, List.flatMap_cons,
      List.append_assoc]

/-- Either there is room for all parts, or there is a first one without. -/
theorem exists_of_not_forall (h : ¬ ∀ part ∈ parts, stack.CanPrint part.item) :
    ∃ before part after, parts = before ++ part :: after ∧
      (∀ p ∈ before, stack.CanPrint p.item) ∧ ¬ stack.CanPrint part.item := by
  induction parts with
  | nil => exact absurd (List.forall_mem_nil _) h
  | cons p parts ih =>
    by_cases hp : stack.CanPrint p.item
    · have hparts : ¬ ∀ part ∈ parts, stack.CanPrint part.item :=
        fun hall => h (List.forall_mem_cons.2 ⟨hp, hall⟩)
      obtain ⟨before, part, after, rfl, hbefore, hpart⟩ := ih hparts
      exact ⟨p :: before, part, after, rfl, List.forall_mem_cons.2 ⟨hp, hbefore⟩, hpart⟩
    · exact ⟨[], p, parts, rfl, List.forall_mem_nil _, hp⟩

end CallStack

namespace CommandLine

variable {stack : CallStack}

/-- If the operators of the formula in a report nest as deep as the limit outside of runs, or
deeper, the program prints the first title and is ended by the stack. -/
theorem ofResult_of_le_depth {report : Report} (h : stack.limit ≤ report.input.result.depth)
    (log : List LogEntry) :
    Ending.ofResult stack false log (.ok report)
      = .uncaught "original:\n" (.recursion .exhausted) := by
  have hprint : stack.print (report.parts false) = (["original:"], false) :=
    CallStack.print_append (List.forall_mem_nil _) (stack.not_canPrint_of_le_depth h)
  simp only [Ending.ofResult, hprint]
  rfl

end CommandLine

/-! ### Deep formulas that come through a run -/

namespace Report

open Formula (matrix_quantify isHygienicPrenex_quantify prenex_eq_self nnf_eq_self)

/-- A formula without quantifiers that is in both normal forms comes through a run, if there are
more units for each distribution than the formula has parts. -/
theorem exists_ofText {o : Options} {text : String} {f : Formula}
    (hread : Formula.ofText text = .ok f) (hcnf : NormalForm.conjunctive.IsNormal f)
    (hdnf : NormalForm.disjunctive.IsNormal f) (hsize : f.size < o.budget) :
    ∃ report, ofText o text = .ok report := by
  have hcombination := hcnf.isCombination
  obtain ⟨hmatrix, hleading⟩ := matrix_quantify hcombination.isQuantified_eq []
  rw [Formula.quantify_nil] at hmatrix hleading
  have hhygienic : f.IsHygienicPrenex :=
    isHygienicPrenex_quantify (p := []) hcombination.isQuantifierFree List.nodup_nil
  -- no pass in front of the distributions changes the formula
  have hprenex : (prenexOf o f).1 = .ok f := by
    rw [prenexOf, Formula.nnf_expandArrows, nnf_eq_self hcombination.isNnf,
      prenex_eq_self hhygienic hcombination.isNnf]
  have hskolem (names : NameSupply) : (f.skolemize names).1 = f := by
    rw [Formula.skolemize, hleading, hmatrix]
    rfl
  have hfits {form : NormalForm} (h : form.IsNormal f) : form.Fits f o.budget := by
    refine ⟨f, f.size, ?_, hsize⟩
    rw [hmatrix, nnf_eq_self hcombination.isNnf]
    exact NormalForm.distributes_self h
  obtain ⟨prenex, hprenex', hends⟩ := outcome_ofText o hread
  obtain rfl : f = prenex := Except.ok.inj (hprenex.symm.trans hprenex')
  rw [hskolem] at hends
  exact hends.exists_report (hfits hcnf) (hfits hdnf)

end Report

namespace Formula

/-- The chain of conjunctions `P ∧ … ∧ P` with `n` conjunctions. -/
def chain : Nat → Formula
  | 0 => pred "P" []
  | n + 1 => and (chain n) (pred "P" [])

/-- Each conjunction has all earlier ones as its first argument. -/
theorem depth_chain (n : Nat) : (chain n).depth = n := by
  induction n with
  | zero => rfl
  | succ n ih => rw [chain, depth_binary, ih, depth_pred, Nat.max_zero]

theorem size_chain (n : Nat) : (chain n).size = 2 * n + 1 := by
  induction n with
  | zero => rfl
  | succ n ih =>
    rw [chain, size, ih, size_of_isLiteral rfl]
    omega

theorem isWellFormed_chain (n : Nat) : (chain n).isWellFormed = true := by
  induction n with
  | zero => decide
  | succ n ih =>
    rw [chain, isWellFormed_binary, ih]
    decide

/-- A chain of conjunctions of an atom is in both normal forms. -/
theorem isNormal_chain (form : NormalForm) (n : Nat) : form.IsNormal (chain n) := by
  induction n with
  | zero => exact .literal rfl
  | succ n ih =>
    cases form with
    | conjunctive => exact .outer ih (.literal rfl)
    | disjunctive =>
      refine .inner ih ?_ (.literal rfl) rfl
      cases n <;> rfl

/-- The text of a longer chain continues that of a shorter one. -/
theorem text_chain_succ (n : Nat) : (chain (n + 1)).text = (chain n).text ++ " ∧ P" := by
  have hfirst : ¬ (chain n).precedence < Connective.and.precedence := by
    cases n with
    | zero => decide
    | succ n => exact Nat.lt_irrefl Connective.and.precedence
  rw [chain, text_binary, decide_eq_false hfirst]
  simp only [String.append_assoc]
  rfl

theorem length_text_chain (n : Nat) : (chain n).text.length = 4 * n + 1 := by
  induction n with
  | zero => decide
  | succ n ih =>
    have hpart : " ∧ P".length = 4 := by decide
    rw [text_chain_succ, String.length_append, ih, hpart]
    omega

theorem head?_text_chain (n : Nat) : (chain n).text.toList.head? = some 'P' := by
  induction n with
  | zero => rfl
  | succ n ih =>
    rw [text_chain_succ, String.toList_append, List.head?_append, ih]
    rfl

end Formula

end LogicForms
