import LogicForms.Failure

/-!
# Options of a session

Options fix the budget of each distribution, the beginning of Skolem symbols, how much is logged,
and how deep calls may nest during a run. They are changed by lists of settings; the settings are
checked as a whole before any of them takes effect. Whether the limit for the nesting of calls can
be set is not part of this check, and turns out when a run is about to start.
-/

set_option autoImplicit false

namespace LogicForms

/-- The options of a session. -/
structure Options where
  /-- The limit of the budget for each distribution. -/
  budget : Nat
  /-- The beginning of Skolem symbols. -/
  skolemPrefix : String
  /-- Entries below this level are not logged; with level zero, entries below warnings. -/
  logLevel : Int
  /-- How many calls may be open at the same time during a run. The limit that is in force is only
  raised to this number, never lowered, and it is in force again after the run. -/
  recursionLimit : Int
  /-- The budget is positive. -/
  budget_pos : 0 < budget
  /-- Skolem symbols have a beginning. -/
  skolemPrefix_ne : skolemPrefix ≠ ""

/-- A value for one option. -/
inductive Setting where
  | budget (n : Int)
  | skolemPrefix (s : String)
  | logLevel (n : Int)
  | recursionLimit (n : Int)
  /-- A value for an option that does not exist. -/
  | unknown (name : String)
  deriving DecidableEq, Repr, Inhabited

namespace Options

/-- The beginning of Skolem symbols that is used when none is given is not empty. -/
theorem standardPrefix_ne : NameSupply.standardPrefix ≠ "" := by decide

/-- The options that are used when none are given. -/
def standard : Options :=
  ⟨Budget.standardLimit, NameSupply.standardPrefix, 0, 100000, Budget.standardLimit_pos,
    standardPrefix_ne⟩

instance : Inhabited Options := ⟨standard⟩

/-- Values for all options that have not been checked. -/
structure Draft where
  budget : Int
  skolemPrefix : String
  logLevel : Int
  recursionLimit : Int
  deriving DecidableEq, Repr, Inhabited

/-- The values of valid options. -/
def draft (o : Options) : Draft := ⟨o.budget, o.skolemPrefix, o.logLevel, o.recursionLimit⟩

/-- Replace one value. -/
def Draft.set (d : Draft) : Setting → Except OptionError Draft
  | .budget n => .ok { d with budget := n }
  | .skolemPrefix s => .ok { d with skolemPrefix := s }
  | .logLevel n => .ok { d with logLevel := n }
  | .recursionLimit n => .ok { d with recursionLimit := n }
  | .unknown name => .error (.unknown name)

/-- Check the values: first the budget, then the beginning of Skolem symbols. -/
def Draft.check (d : Draft) : Except OptionError Options :=
  if h : 0 < d.budget.toNat then
    if h' : d.skolemPrefix = "" then .error (.names .emptyPrefix)
    else .ok ⟨d.budget.toNat, d.skolemPrefix, d.logLevel, d.recursionLimit, h, h'⟩
  else .error (.budget ⟨d.budget⟩)

/-- The options with some values replaced. An unknown option is reported first. -/
def update (o : Options) (settings : List Setting) : Except OptionError Options := do
  let d ← settings.foldlM Draft.set o.draft
  d.check

/-- The options in constructor notation. -/
def explicitText (o : Options) : String :=
  "Options(budget=" ++ toString o.budget ++ ", skolem_prefix=" ++ Text.quoted o.skolemPrefix ++
    ", log_level=" ++ toString o.logLevel ++ ", recursion_limit=" ++
    toString o.recursionLimit ++ ")"

/-- The level from which on entries are logged during a run. -/
def threshold (o : Options) : Int := if o.logLevel = 0 then 30 else o.logLevel

/-- The highest limit for the nesting of calls that can be set. -/
def highestRecursionLimit : Int := 2147483647

/-- The limit that is used when none is given can be set. -/
theorem recursionLimit_standard_le : standard.recursionLimit ≤ highestRecursionLimit := by decide

/-- Can the limit for the nesting of calls be set? A limit that is in force already can, so that it
does not matter here whether the limit of the options is higher. -/
def checkRecursionLimit (o : Options) : Except RecursionError Unit :=
  if o.recursionLimit ≤ highestRecursionLimit then .ok ()
  else .error (.limit o.recursionLimit)

/-- Replacing nothing changes nothing. -/
theorem update_nil (o : Options) : o.update [] = .ok o := by
  obtain ⟨budget, skolemPrefix, logLevel, recursionLimit, h, h'⟩ := o
  simp [update, draft, Draft.check, h, h']

end Options

end LogicForms
