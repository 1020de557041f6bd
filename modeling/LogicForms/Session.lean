import LogicForms.Forms.Skolem
import LogicForms.Session.Options
import LogicForms.Session.Report

/-!
# Sessions

A session runs normal form computations one after the other and carries the state between them: the
options, the names in use, the budget, and which phases have been timed. A call runs everything on
one text: it takes over new options, starts again with names, budget and timings, and goes through
all derivations. The single derivations are available as well and do not start anything again,
except that each distribution resets the budget. When a derivation fails, the changes of the state
before the failure stay.

Computations log what they do. Entries count only during a call, and only from the level that the
options ask for.

## What this module holds

* `Session`, `LogEntry`, and `SessionM`, computations that change a session, log, and can fail;
* the single derivations `Session.parse` to `Session.horn`;
* `Session.run` for all derivations and `Session.call` for a call with new options.
-/

set_option autoImplicit false

namespace LogicForms

/-! ### The log -/

/-- The levels of log entries. -/
inductive LogLevel where
  | debug
  | info
  | warning
  | error
  deriving DecidableEq, Repr, Inhabited

namespace LogLevel

/-- All levels, from the least to the most important one. -/
def all : List LogLevel := [.debug, .info, .warning, .error]

/-- The label in front of messages. -/
def label : LogLevel → String
  | .debug => "DEBUG"
  | .info => "INFO"
  | .warning => "WARNING"
  | .error => "ERROR"

/-- The place on the scale of levels. -/
def value : LogLevel → Int
  | .debug => 10
  | .info => 20
  | .warning => 30
  | .error => 40

/-- The level with a given label. -/
def ofLabel? (label : String) : Option LogLevel := all.find? fun level => level.label == label

end LogLevel

/-- An entry of the log. -/
structure LogEntry where
  /-- How important it is. -/
  level : LogLevel
  /-- What happened. -/
  message : String
  deriving DecidableEq, Repr, Inhabited

/-- The entry as text. -/
def LogEntry.text (e : LogEntry) : String := e.level.label ++ ": " ++ e.message

/-! ### The state -/

/-- Which phases have been timed since the last reset. -/
structure Timings where
  parse : Bool
  cnf : Bool
  dnf : Bool
  total : Bool
  deriving DecidableEq, Repr, Inhabited

/-- No phase has been timed. -/
def Timings.none : Timings := ⟨false, false, false, false⟩

/-- The state of a session. -/
structure Session where
  /-- The options. -/
  options : Options
  /-- The names in use. -/
  names : NameSupply
  /-- The budget for distributions. -/
  budget : Budget
  /-- The phases that have been timed. -/
  timed : Timings

namespace Session

/-- A new session with the given options. -/
def ofOptions (o : Options) : Session :=
  ⟨o, NameSupply.new o.skolemPrefix, Budget.full o.budget o.budget_pos, Timings.none⟩

instance : Inhabited Session := ⟨ofOptions Options.standard⟩

/-- A new session with the standard options changed by settings. -/
def ofSettings (settings : List Setting) : Except OptionError Session :=
  (Options.standard.update settings).map ofOptions

/-- Start again with names, budget and timings. -/
def reset (s : Session) : Session := ofOptions s.options

end Session

/-- A session with the log of the computation so far, the last entry first. -/
structure SessionLog where
  /-- The state. -/
  session : Session
  /-- The entries, the last one first. -/
  entries : List LogEntry

/-- Computations that change a session, log, and can fail. After a failure the state is the one
that was reached. -/
abbrev SessionM := ExceptT Failure (StateM SessionLog)

namespace Session

/-- Log an entry. -/
def log (level : LogLevel) (message : String) : SessionM Unit :=
  modify fun s => { s with entries := ⟨level, message⟩ :: s.entries }

/-- Change the session. -/
def change (f : Session → Session) : SessionM Unit :=
  modify fun s => { s with session := f s.session }

/-- The session. -/
def current : SessionM Session := return (← get).session

/-- Fail, or go on with a value. -/
def orFail {ε α : Type} (wrap : ε → Failure) (outcome : Except ε α) : SessionM α :=
  match outcome with
  | .ok a => pure a
  | .error e => throw (wrap e)

/-- Mark phases as timed. -/
def markTimed (f : Timings → Timings) : SessionM Unit :=
  change fun s => { s with timed := f s.timed }

/-! ### Single derivations -/

/-- Read a formula. -/
def parse (s : String) : SessionM (Derivation Formula) := do
  let f ← orFail .reading (Formula.ofText s)
  markTimed fun t => { t with parse := true }
  return ⟨f, []⟩

/-- The negation normal form. -/
def nnf (f : Formula) : SessionM (Derivation Formula) := do
  log .info Step.eliminate
  let g := f.expandArrows
  log .info Step.negations
  return ⟨g.nnf false, [Step.eliminate, Step.negations]⟩

/-- The prenex form. If `isNnf`, the formula is taken to be in negation normal form already. -/
def prenex (f : Formula) (isNnf : Bool) : SessionM (Derivation Formula) := do
  let g ← if isNnf then pure f else (Derivation.result <$> nnf f)
  log .info Step.standardize
  let (g, names) := g.standardizeApart (← current).names
  change fun s => { s with names := names }
  log .info Step.prenex
  let (p, m) ← orFail .notNnf g.extract
  log .debug ("prefix " ++ p.text ++ " of length " ++ toString p.length)
  return ⟨m.quantify p, [Step.eliminate, Step.negations, Step.standardize, Step.prenex]⟩

/-- Bring a prenex formula into a normal form with the budget of the session. -/
def distribute (form : NormalForm) (f : Formula) : SessionM Formula := do
  let (outcome, budget) := form.ofPrenex f (← current).budget
  change fun s => { s with budget := budget }
  let g ← orFail .distribution outcome
  log .debug (toString budget.consumed ++ " distribution steps")
  return g

/-- The Skolem form of a prenex formula in conjunctive normal form. -/
def cnf (f : Formula) : SessionM (Derivation Formula) := do
  log .info Step.skolemize
  let (g, names) := f.skolemize (← current).names
  change fun s => { s with names := names }
  log .info Step.distributeOr
  let g ← distribute .conjunctive g
  return ⟨g, [Step.eliminate, Step.negations, Step.standardize, Step.prenex, Step.skolemize,
    Step.distributeOr]⟩

/-- A prenex formula in disjunctive normal form. -/
def dnf (f : Formula) : SessionM (Derivation Formula) := do
  log .info Step.distributeAnd
  let g ← distribute .disjunctive f
  return ⟨g, [Step.eliminate, Step.negations, Step.standardize, Step.prenex, Step.distributeAnd]⟩

/-- The clauses of a Skolem form in conjunctive normal form. -/
def clausal (f : Formula) : SessionM (Derivation (List Clause)) := do
  log .info Step.dropUniversals
  log .info Step.splitConjunctions
  let clauses ← orFail .notLiteral f.clausalForm
  let result := Step.clauseCount clauses
  log .info result
  return ⟨clauses, [Step.dropUniversals, Step.splitConjunctions, result]⟩

/-- The Horn clauses among some clauses. -/
def horn (clauses : List Clause) : SessionM (Derivation HornPartition) := do
  log .info Step.checkHorn
  let d := HornPartition.derivation clauses
  log .info (Step.hornCount clauses d.result)
  return d

/-! ### Runs and calls -/

/-- All derivations for a text. -/
def run (s : String) : SessionM Report := do
  let input ← parse s
  let nnf ← nnf input.result
  let prenex ← prenex nnf.result true
  -- clauses are read off before the second distribution spends the budget again
  let cnf ← cnf prenex.result
  let clausal ← clausal cnf.result
  let horn ← horn clausal.result
  markTimed fun t => { t with cnf := true }
  let dnf ← dnf prenex.result
  markTimed fun t => { t with dnf := true }
  return ⟨input, nnf, prenex, cnf, dnf, clausal, horn⟩

/-- A run with entries on the options and on its end. -/
def loggedRun (s : String) : SessionM Report := do
  log .info (← current).options.explicitText
  let report ← run s
  log .info "finished"
  markTimed fun t => { t with total := true }
  return report

/-- What a computation in a session gives: its outcome, the session afterwards, and the log. -/
structure Outcome (α : Type) where
  /-- The value, or the failure. -/
  result : Except Failure α
  /-- The session afterwards. -/
  session : Session
  /-- The entries that count, in order. -/
  log : List LogEntry

/-- Carry out a computation and keep the entries from a level on. -/
def perform {α : Type} (s : Session) (threshold : Int) (m : SessionM α) : Outcome α :=
  let (result, after) := (m.run).run ⟨s, []⟩
  ⟨result, after.session,
    after.entries.reverse.filter fun e => decide (threshold ≤ e.level.value)⟩

/-- Carry out a single derivation. Without a call, only warnings and errors count. -/
def step {α : Type} (s : Session) (m : SessionM α) : Outcome α := s.perform 30 m

/-- Run everything on a text with new values for some options. If these are not valid, the session
stays as it is. Otherwise the options are taken over, and names, budget and timings start again. The
run begins if the limit for the nesting of calls can be set. It is not interrupted here, however
deep its calls nest; `Session.resultWithin` has the result on a stack that can be exhausted. -/
def call (s : Session) (text : String) (settings : List Setting) : Outcome Report :=
  match s.options.update settings with
  | .error e => ⟨.error (.options e), s, []⟩
  | .ok o =>
    match o.checkRecursionLimit with
    | .error e => ⟨.error (.recursion e), ofOptions o, []⟩
    | .ok () => (ofOptions o).perform o.threshold (loggedRun text)

end Session

end LogicForms
