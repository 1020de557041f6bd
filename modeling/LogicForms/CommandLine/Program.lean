import LogicForms.CommandLine.Arguments
import LogicForms.Session.CallStack
import LogicForms.Text.Lines

/-!
# The command line program

The program runs all derivations on the formula that is given and prints the report. A failure is
printed as one line on the error channel, with exit code 1; arguments that cannot be understood
give exit code 2. With an empty option no run can start, and there is no execution at all.

`execute` is the program with room for every run and every report on the stack. On a given stack
(`executeWithin`), the program can also be ended by a failure that it does not handle: if the stack
is exhausted during the run, or later on, when the limit of the run is not in force any more and
part of the report is printed already.
-/

set_option autoImplicit false

namespace LogicForms.CommandLine

/-- What the program does: its exit code, what it prints, and the log of the run. -/
structure Execution where
  /-- The exit code. -/
  code : Nat
  /-- The text on the output channel. -/
  stdout : String
  /-- The text on the error channel. -/
  stderr : String
  /-- The entries of the log. -/
  log : List LogEntry
  deriving DecidableEq, Repr, Inhabited

/-- The last line on the error channel. If arguments cannot be understood, this is where the message
ends. -/
def Execution.lastErrorLine (e : Execution) : String := Text.lastLine e.stderr

/-- The name of the program in messages. -/
def programName : String := "folnf"

/-- How the program is called. -/
def usage : String :=
  "usage: " ++ programName ++ " [-h] [--budget BUDGET] [--log-level LEVEL] [--steps] formula\n"

/-- The message about arguments that cannot be understood, with the usage in front. -/
def refusal (e : ArgumentError) : String :=
  usage ++ programName ++ ": error: " ++ e.message ++ "\n"

/-- Why no run can start. -/
inductive StartError where
  /-- The budget is empty. -/
  | emptyBudget
  /-- The log level is empty. -/
  | emptyLevel
  deriving DecidableEq, Repr, Inhabited

namespace StartError

/-- The kind of error. -/
def kind : StartError → String
  | .emptyBudget => "TypeError"
  | .emptyLevel => "TypeError"

/-- The message. -/
def message : StartError → String
  | .emptyBudget => "'<' not supported between instances of 'list' and 'int'"
  | .emptyLevel => "attribute name must be string, not 'list'"

/-- The error in one line. -/
def line (e : StartError) : String := e.kind ++ ": " ++ e.message ++ "\n"

end StartError

/-- The value to start with, unless the option is empty. -/
def OptionValue.resolve {α β : Type} (value : OptionValue α) (standard : β) (use : α → β)
    (e : StartError) : Except StartError β :=
  match value with
  | .standard => .ok standard
  | .given a => .ok (use a)
  | .empty => .error e

/-- The settings that the arguments stand for. The log level is looked at first. -/
def Arguments.settings (a : Arguments) : Except StartError (List Setting) := do
  let level ← a.logLevel.resolve 0 LogLevel.value .emptyLevel
  let budget ← a.budget.resolve (Budget.standardLimit : Int) id .emptyBudget
  return [.budget budget, .logLevel level]

/-- Run all derivations, with room for everything on the stack. -/
def Arguments.execute (a : Arguments) : Except StartError Execution := do
  match Session.ofSettings (← a.settings) with
  | .error e => return ⟨1, "", (Failure.options e).line, []⟩
  | .ok session =>
    let outcome := session.call a.formula []
    match outcome.result with
    | .error e => return ⟨1, "", e.line, outcome.log⟩
    | .ok report => return ⟨0, report.text a.steps, "", outcome.log⟩

/-- Run the program with the given arguments, with room for everything on the stack. -/
def execute (arguments : List String) : Except StartError Execution :=
  match Wish.ofList arguments with
  | .error e => .ok ⟨2, "", refusal e, []⟩
  | .ok .help => .ok ⟨0, usage, "", []⟩
  | .ok (.run a) => a.execute

/-! ### On a stack that can be exhausted -/

/-- How the program ends on a stack. -/
inductive Ending where
  /-- It ends by itself. -/
  | finished (e : Execution)
  /-- It is ended by a failure that it does not handle, after some text on the output channel. -/
  | uncaught (stdout : String) (e : Failure)
  deriving Inhabited

/-- Does the program print a line for the failure? The other failures end it. -/
def isHandled (e : Failure) : Bool := e.isInputFailure || e.kind == "ValueError"

/-- What becomes of the result of a run: a failure that is handled gives a line, and a report is
printed as far as there is room. -/
def Ending.ofResult (stack : CallStack) (steps : Bool) (log : List LogEntry) :
    Except Failure Report → Ending
  | .error e => if isHandled e then .finished ⟨1, "", e.line, log⟩ else .uncaught "" e
  | .ok report =>
    let (lines, complete) := stack.print (report.parts steps)
    if complete then .finished ⟨0, Report.ofLines lines, "", log⟩
    else .uncaught (Report.ofLines lines) (.recursion .exhausted)

/-- Run all derivations on the stack. -/
def Arguments.executeWithin (stack : CallStack) (a : Arguments) : Except StartError Ending := do
  match Session.ofSettings (← a.settings) with
  | .error e => return .ofResult stack a.steps [] (.error (.options e))
  | .ok session =>
    return .ofResult stack a.steps (session.call a.formula []).log
      (session.resultWithin stack a.formula [])

/-- Run the program with the given arguments on the stack. -/
def executeWithin (stack : CallStack) (arguments : List String) : Except StartError Ending :=
  match Wish.ofList arguments with
  | .error e => .ok (.finished ⟨2, "", refusal e, []⟩)
  | .ok .help => .ok (.finished ⟨0, usage, "", []⟩)
  | .ok (.run a) => a.executeWithin stack

end LogicForms.CommandLine
