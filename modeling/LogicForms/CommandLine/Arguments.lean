import LogicForms.Session
import LogicForms.Text.Numeral

/-!
# Arguments of the command line

The command line takes one formula and some options, in any order. An option can be abbreviated as
long as only one option begins that way, and its value can follow an equals sign. The letter of the
short spelling of help can be repeated, as in `-hh`. A double hyphen ends the options; behind an
equals sign it is dropped, and leaves the option empty. What starts with a hyphen is an option,
unless it is a single hyphen, looks like a negative number, or is no known option and has a space in
it.

Arguments are classified first, all of them up to the double hyphen, and then taken from left to
right. The first thing that goes wrong is reported; a missing formula and superfluous arguments are
noticed at the end. That an option is empty is noticed only when a run is to start with it.

## What this module holds

* `CommandOption`, `ArgumentClass` and `classify`;
* `ArgumentError`, with its message;
* `OptionValue`, `Arguments`, `Wish` and `Wish.ofList`.
-/

set_option autoImplicit false

namespace LogicForms.CommandLine

/-! ### Options -/

/-- The options of the command line. -/
inductive CommandOption where
  | help
  | budget
  | logLevel
  | steps
  deriving DecidableEq, Repr, Inhabited

/-- All spellings of options, in the order in which messages list them. -/
def spellings : List (String × CommandOption) :=
  [("-h", .help), ("--help", .help), ("--budget", .budget), ("--log-level", .logLevel),
   ("--steps", .steps)]

/-- The name of the option in messages. -/
def CommandOption.title : CommandOption → String
  | .help => "-h/--help"
  | .budget => "--budget"
  | .logLevel => "--log-level"
  | .steps => "--steps"

/-- Why arguments are refused. -/
inductive ArgumentError where
  /-- Several options begin like that. -/
  | ambiguous (argument : String) (candidates : List String)
  /-- A value is missing. -/
  | expectedOne (option : CommandOption)
  /-- A value is given to an option that takes none. -/
  | ignoredValue (option : CommandOption) (value : String)
  /-- The budget is no integer. -/
  | invalidNumber (value : String)
  /-- There is no such log level. -/
  | invalidLevel (value : String)
  /-- There is no formula. -/
  | missingFormula
  /-- There are arguments that mean nothing. -/
  | unrecognized (arguments : List String)
  deriving DecidableEq, Repr, Inhabited

/-- The message. -/
def ArgumentError.message : ArgumentError → String
  | .ambiguous argument candidates =>
    "ambiguous option: " ++ argument ++ " could match " ++ Text.commaSeparated candidates
  | .expectedOne option => "argument " ++ option.title ++ ": expected one argument"
  | .ignoredValue option value =>
    "argument " ++ option.title ++ ": ignored explicit argument " ++ Text.quoted value
  | .invalidNumber value =>
    "argument " ++ CommandOption.budget.title ++ ": invalid int value: " ++ Text.quoted value
  | .invalidLevel value =>
    "argument " ++ CommandOption.logLevel.title ++ ": invalid choice: " ++ Text.quoted value ++
      " (choose from " ++
      Text.commaSeparated (LogLevel.all.map fun level => Text.quoted level.label) ++ ")"
  | .missingFormula => "the following arguments are required: formula"
  | .unrecognized arguments => "unrecognized arguments: " ++ Text.joinWith " " arguments

/-! ### Classification -/

/-- What an argument is taken for. -/
inductive ArgumentClass where
  /-- The formula or the value of an option. -/
  | plain
  /-- The double hyphen that ends the options. -/
  | separator
  /-- An option, with the value that is attached to it. -/
  | option (option : CommandOption) (attached? : Option String)
  /-- An option that does not exist. -/
  | unknown
  deriving DecidableEq, Repr, Inhabited

/-- The part in front of the first equals sign, and the part behind it if there is one. -/
def splitAtEquals : List Char → List Char × Option (List Char)
  | [] => ([], none)
  | c :: rest =>
    if c = '=' then ([], some rest)
    else
      let (before, after?) := splitAtEquals rest
      (c :: before, after?)

/-- Are all characters decimal digits, and is there one at least? -/
def areDigits (s : List Char) : Bool := !s.isEmpty && s.all Text.isDecimalDigit

/-- A hyphen with digits behind it, or with a point in front of the last digits. A line feed at the
end is ignored. -/
def looksNegative (s : List Char) : Bool :=
  match s with
  | '-' :: rest =>
    let rest := if rest.getLast? = some '\n' then rest.dropLast else rest
    areDigits rest ||
      (match rest.dropWhile Text.isDecimalDigit with
        | '.' :: decimals => areDigits decimals
        | _ => false)
  | _ => false

/-- The options that an argument of the form `--name` or `--name=value` can stand for. -/
def longCandidates (s : List Char) : List (String × CommandOption) :=
  let (name, _) := splitAtEquals s
  spellings.filter fun spelling => name.isPrefixOf spelling.1.toList

/-- The class of an argument that is no option by its spelling. -/
def classifyOther (s : List Char) : ArgumentClass :=
  if looksNegative s then .plain
  else if s.contains ' ' then .plain
  else .unknown

/-- The class of an argument of the form `--name` or `--name=value`. A name can be the beginning of
a spelling if it is the beginning of no other one. -/
def classifyLong (argument : String) : Except ArgumentError ArgumentClass :=
  let (_, value?) := splitAtEquals argument.toList
  match longCandidates argument.toList with
  | [] => .ok (classifyOther argument.toList)
  | [(_, option)] => .ok (.option option (value?.map String.ofList))
  | candidates => .error (.ambiguous argument (candidates.map Prod.fst))

/-- The class of the short spelling of help with some text behind it. Each letter of the spelling
repeats the option, and the rest of the text is a value. -/
def classifyHelp (behind : List Char) : ArgumentClass :=
  match behind.dropWhile fun c => c == 'h' with
  | [] => .option .help none
  | value => .option .help (some (String.ofList value))

/-- The class of one argument in front of the double hyphen. -/
def classify (argument : String) : Except ArgumentError ArgumentClass :=
  match argument.toList with
  | ['-', 'h', '='] => .ok (.option .help (some ""))
  | '-' :: 'h' :: '=' :: behind => .ok (classifyHelp behind)
  | '-' :: 'h' :: behind => .ok (classifyHelp behind)
  | '-' :: '-' :: _ => classifyLong argument
  | '-' :: _ :: _ => .ok (classifyOther argument.toList)
  -- a single hyphen, or no hyphen in front
  | _ => .ok .plain

/-- The classes of all arguments. Everything behind the double hyphen is plain. -/
def classifyAll : List String → Except ArgumentError (List (String × ArgumentClass))
  | [] => .ok []
  | argument :: rest =>
    if argument = "--" then
      .ok ((argument, .separator) :: rest.map fun a => (a, .plain))
    else do
      let c ← classify argument
      return (argument, c) :: (← classifyAll rest)

/-! ### Taking arguments -/

/-- What is known of an option that takes a value. -/
inductive OptionValue (α : Type) where
  /-- The option is not given. -/
  | standard
  /-- The option is given with a value. -/
  | given (value : α)
  /-- The option is given, and its value has been dropped. -/
  | empty
  deriving DecidableEq, Repr, Inhabited

/-- The arguments of a run. -/
structure Arguments where
  /-- The text of the formula. -/
  formula : String
  /-- The budget. -/
  budget : OptionValue Int
  /-- The log level. -/
  logLevel : OptionValue LogLevel
  /-- Are the steps of derivations printed? -/
  steps : Bool
  deriving DecidableEq, Repr, Inhabited

/-- What has been taken so far. -/
structure Taken where
  formula? : Option String
  budget : OptionValue Int
  logLevel : OptionValue LogLevel
  steps : Bool
  /-- The arguments that mean nothing, in order. -/
  extras : List String
  deriving DecidableEq, Repr, Inhabited

/-- Nothing has been taken. -/
def Taken.initial : Taken := ⟨none, .standard, .standard, false, []⟩

/-- What the arguments ask for. -/
inductive Wish where
  | run (arguments : Arguments)
  | help
  deriving DecidableEq, Repr, Inhabited

namespace Taken

/-- Arguments that mean nothing. -/
def addExtras (t : Taken) (arguments : List String) : Taken :=
  { t with extras := t.extras ++ arguments }

/-- The value of an option that takes one, read from its text. A double hyphen is dropped. -/
def readValue {α : Type} (read? : String → Option α) (refuse : String → ArgumentError)
    (value : String) : Except ArgumentError (OptionValue α) :=
  if value = "--" then .ok .empty
  else
    match read? value with
    | some a => .ok (.given a)
    | none => .error (refuse value)

/-- A value for an option. The last value for an option counts. -/
def setValue (t : Taken) (option : CommandOption) (value : String) : Except ArgumentError Taken :=
  match option with
  | .budget => do
    let budget ← readValue Text.integer? .invalidNumber value
    return { t with budget }
  | .logLevel => do
    let logLevel ← readValue LogLevel.ofLabel? .invalidLevel value
    return { t with logLevel }
  | .steps => .error (.ignoredValue .steps value)
  | .help => .error (.ignoredValue .help value)

/-- Everything has been taken: is there a formula, and nothing else? -/
def finish (t : Taken) : Except ArgumentError Wish :=
  match t.formula?, t.extras with
  | none, _ => .error .missingFormula
  | some formula, [] => .ok (.run ⟨formula, t.budget, t.logLevel, t.steps⟩)
  | some _, extras => .error (.unrecognized extras)

/-- Take the arguments from left to right. -/
def takeAll (t : Taken) : List (String × ArgumentClass) → Except ArgumentError Wish
  | [] => t.finish
  | (argument, .plain) :: rest =>
    match t.formula? with
    -- there is room for one formula only
    | some _ => (t.addExtras [argument]).takeAll rest
    | none =>
      match rest with
      -- a double hyphen directly behind the formula disappears
      | (_, .separator) :: rest =>
        ({ t with formula? := some argument }.addExtras (rest.map Prod.fst)).finish
      | rest => takeAll { t with formula? := some argument } rest
  | (argument, .separator) :: rest =>
    match t.formula?, rest.map Prod.fst with
    | none, formula :: rest => ({ t with formula? := some formula }.addExtras rest).finish
    | _, rest => (t.addExtras (argument :: rest)).finish
  | (argument, .unknown) :: rest => (t.addExtras [argument]).takeAll rest
  | (_, .option .steps none) :: rest => takeAll { t with steps := true } rest
  -- help is given at once, whatever comes later
  | (_, .option .help none) :: _ => .ok .help
  | (_, .option option (some value)) :: rest => do
    let t ← t.setValue option value
    t.takeAll rest
  | (_, .option option none) :: (value, .plain) :: rest => do
    let t ← t.setValue option value
    t.takeAll rest
  | (_, .option option none) :: _ => .error (.expectedOne option)

end Taken

/-- What a list of arguments asks for. -/
def Wish.ofList (arguments : List String) : Except ArgumentError Wish := do
  Taken.initial.takeAll (← classifyAll arguments)

end LogicForms.CommandLine
