import LogicForms.Session

/-!
# Calls on a stack that can be exhausted

All passes call themselves for the parts of a formula, and so do the functions that print it. Only
so many calls can be open at the same time. A call of a session raises this limit for its run, and
the limit from before is in force again when the report is printed.

How many calls are open at most depends on how calls are carried out. This is left to the stack
(`CallStack`), of which it is only required that a formula takes a call for each operator on the way
to an atom, and one for the atom. On a given stack a run fails if it does not fit, and the parts of
a report are printed up to the first one that does not fit.

## What this module holds

* `CallStack`, with the limits in force outside and inside a run;
* `Session.resultWithin`, the result of a call on a stack;
* `CallStack.print`, the lines of a report that are printed on a stack.
-/

set_option autoImplicit false

namespace LogicForms

/-- A stack of calls. The numbers of open calls include the calls that are open at the start of the
work. -/
structure CallStack where
  /-- How many calls may be open at the same time, unless the limit is raised. -/
  limit : Nat
  /-- How many calls are open at most during a run with some options on a text. -/
  runDepth : Options → String → Nat
  /-- How many calls are open at most while the lines of a result are made. -/
  printDepth : Report.Item → Nat
  /-- The limit is one that can be set. -/
  limit_le : (limit : Int) ≤ Options.highestRecursionLimit
  /-- The passes of a run go through the operators of the formula from the outside. -/
  depth_lt_runDepth : ∀ (o : Options) (text : String) (f : Formula),
    Formula.ofText text = .ok f → f.depth < runDepth o text
  /-- The text of a formula is made from the texts of its parts. -/
  depth_lt_printDepth : ∀ f : Formula, f.depth < printDepth (.formula f)

namespace CallStack

variable (stack : CallStack)

/-- The limit during a run. The options can only raise it. -/
def limitWithin (o : Options) : Int := max stack.limit o.recursionLimit

/-- The limit of a run can be set exactly if the limit of its options can. -/
theorem limitWithin_le_iff (o : Options) :
    stack.limitWithin o ≤ Options.highestRecursionLimit ↔
      o.recursionLimit ≤ Options.highestRecursionLimit := by
  rw [limitWithin, Int.max_le]
  exact and_iff_right stack.limit_le

/-- The run fits under the limit of its options. -/
def HasRoomFor (o : Options) (text : String) : Prop :=
  (stack.runDepth o text : Int) ≤ stack.limitWithin o

/-- The result can be printed under the limit outside of runs. -/
def CanPrint (item : Report.Item) : Prop := stack.printDepth item ≤ stack.limit

instance (o : Options) (text : String) : Decidable (stack.HasRoomFor o text) :=
  inferInstanceAs (Decidable (_ ≤ _))

instance (item : Report.Item) : Decidable (stack.CanPrint item) :=
  inferInstanceAs (Decidable (_ ≤ _))

/-- There is no room for the run on a formula whose operators nest as deep as the limit of the run,
or deeper. -/
theorem not_hasRoomFor_of_le_depth {o : Options} {text : String} {f : Formula}
    (hread : Formula.ofText text = .ok f) (h : stack.limitWithin o ≤ f.depth) :
    ¬ stack.HasRoomFor o text := by
  have hrun := stack.depth_lt_runDepth o text f hread
  rw [HasRoomFor]
  omega

/-- A formula whose operators nest as deep as the limit outside of runs, or deeper, cannot be
printed. -/
theorem not_canPrint_of_le_depth {f : Formula} (h : stack.limit ≤ f.depth) :
    ¬ stack.CanPrint (.formula f) :=
  Nat.not_le_of_lt (Nat.lt_of_le_of_lt h (stack.depth_lt_printDepth f))

/-- The lines that are printed of some parts of a report, and whether they are all. The lines in
front of a result are printed before those of the result are made, and these are made before the
first of them is printed. -/
def print : List Report.Part → List String × Bool
  | [] => ([], true)
  | part :: parts =>
    if stack.CanPrint part.item then
      let (lines, complete) := print parts
      (part.lines ++ lines, complete)
    else (part.head, false)

end CallStack

namespace Session

/-- The result of a call on the stack. The options are checked first, then the limit for the run is
set, and then the run begins. -/
def resultWithin (stack : CallStack) (s : Session) (text : String) (settings : List Setting) :
    Except Failure Report := do
  let o ← (s.options.update settings).mapError .options
  if stack.limitWithin o ≤ Options.highestRecursionLimit then
    if stack.HasRoomFor o text then (s.call text settings).result
    else .error (.recursion .exhausted)
  else .error (.recursion (.limit o.recursionLimit))

end Session

end LogicForms
