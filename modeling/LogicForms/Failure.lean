import LogicForms.Construction
import LogicForms.Forms.Distribution
import LogicForms.Forms.Prenex

/-!
# Failures

Each part of the library has its own type of errors. `Failure` unites them for callers that run
several parts one after the other. A failure has a kind and a message, and is printed as one line
with both.

Some failures are caused by the input alone: a text that cannot be read, and a formula whose normal
form outgrows its budget. These are expected in interactive use, and interactive shells print them
without further ado.
-/

set_option autoImplicit false

namespace LogicForms

/-- What is wrong with options. -/
inductive OptionError where
  /-- There is no option of that name. -/
  | unknown (name : String)
  /-- The budget is not positive. -/
  | budget (e : BudgetError)
  /-- The beginning of Skolem symbols is empty. -/
  | names (e : NameSupplyError)
  deriving DecidableEq, Repr, Inhabited

/-- The message. -/
def OptionError.message : OptionError → String
  | .unknown name => "Options.__init__() got an unexpected keyword argument '" ++ name ++ "'"
  | .budget e => e.message
  | .names e => e.message

/-- What is wrong with the nesting of calls. -/
inductive RecursionError where
  /-- The limit is higher than any that can be set. -/
  | limit (n : Int)
  /-- More calls would be open at the same time than the limit allows. -/
  | exhausted
  deriving DecidableEq, Repr, Inhabited

/-- The message. -/
def RecursionError.message : RecursionError → String
  | .limit _ => "\x50ython int too large to convert to C int"
  | .exhausted => "maximum recursion depth exceeded"

/-- Any failure of this library. -/
inductive Failure where
  | reading (e : ReadError)
  | construction (e : ConstructionError)
  | notNnf (e : NotNnf)
  | distribution (e : NormalForm.Failure)
  | exceeded (e : ResourceExceeded)
  /-- A part of a formula that should be a clause is no literal. -/
  | notLiteral (f : Formula)
  | budget (e : BudgetError)
  | names (e : NameSupplyError)
  | prefixes (e : PrefixError)
  | options (e : OptionError)
  | recursion (e : RecursionError)
  deriving Inhabited

namespace Failure

/-- A failure to build a value. -/
def ofBuild : BuildError → Failure
  | .reading e => .reading e
  | .refused e => .construction e

/-- The kind of failure. -/
def kind : Failure → String
  | .reading (.lexical _) => "LexError"
  | .reading (.grammatical (.unexpected _ _)) => "UnexpectedToken"
  | .reading (.grammatical (.trailing _)) => "TrailingTokens"
  | .construction _ => "ValueError"
  | .notNnf _ => "ValueError"
  | .distribution (.exceeded _) => "ResourceExceeded"
  | .distribution (.stuck _) => "AssertionError"
  | .exceeded _ => "ResourceExceeded"
  | .notLiteral _ => "ValueError"
  | .budget _ => "ValueError"
  | .names _ => "ValueError"
  | .prefixes _ => "IndexError"
  | .options (.unknown _) => "TypeError"
  | .options (.budget _) => "ValueError"
  | .options (.names _) => "ValueError"
  | .recursion (.limit _) => "OverflowError"
  | .recursion .exhausted => "RecursionError"

/-- The message. -/
def message : Failure → String
  | .reading e => e.message
  | .construction e => e.message
  | .notNnf e => e.message
  | .distribution e => e.message
  | .exceeded e => e.message
  | .notLiteral f => (ConstructionError.notLiteral f.explicitText).message
  | .budget e => e.message
  | .names e => e.message
  | .prefixes e => e.message
  | .options e => e.message
  | .recursion e => e.message

/-- Is the failure caused by the input alone? -/
def isInputFailure : Failure → Bool
  | .reading _ => true
  | .distribution (.exceeded _) => true
  | .exceeded _ => true
  | _ => false

/-- The failure in one line. -/
def line (e : Failure) : String := e.kind ++ ": " ++ e.message ++ "\n"

/-- What is printed for a failure that nobody handles: the line of the top-level handler and, if the
input alone is the cause, the same line of the handler of interactive shells. -/
def notices (e : Failure) : List String :=
  if e.isInputFailure then [e.line, e.line] else [e.line]

end Failure

end LogicForms
