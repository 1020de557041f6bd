import LogicForms.Forms.Clause
import LogicForms.Surface.Text
import LogicForms.Text.Quoted

/-!
# Building formulas with checks

`Formula` and `Term` admit every combination of their constructors. This module builds them from
values that may be of the wrong kind, and refuses what does not fit: names must not be empty,
arguments of predicates and equations must be terms or equations, operands of connectives must be
formulas, and a quantifier takes a variable, the name of one, or a list of these. A function symbol
takes terms and any formulas as arguments.

A `Recipe` says how a value is put together from constructors and from text. Its parts are built
from left to right, and the first one that fails decides. Then the constructor checks its own
arguments.

## What this module holds

* `Datum`, a value of any kind, and how it is shown in messages;
* `ConstructionError`, with its message;
* `Datum.quantify`, quantification over a variable or a list of variables;
* `Recipe` and `Recipe.build`.
-/

set_option autoImplicit false

namespace LogicForms

/-! ### Values of any kind -/

/-- A value that is handed to a constructor. An equation counts as a formula. -/
inductive Datum where
  | term (t : Term)
  | formula (f : Formula)
  | text (s : String)
  | number (n : Int)
  | truth (b : Bool)
  | nothing
  | sequence (items : List Datum)
  /-- A value of another kind that is no sequence, given by what messages show of it. -/
  | other (shown kind : String)
  deriving Inhabited

namespace Datum

/-- A term as a value; an equation becomes a formula. -/
def ofTerm : Term → Datum
  | .eq s t => .formula (.eq s t)
  | t => .term t

mutual
/-- The value as messages show it. -/
def shown : Datum → String
  | .term t => t.explicitText
  | .formula f => f.explicitText
  | .text s => Text.quoted s
  | .number n => toString n
  | .truth b => if b then "True" else "False"
  | .nothing => "None"
  | .sequence items => "[" ++ Text.commaSeparated (shownList items) ++ "]"
  | .other shown _ => shown
/-- The values of a list as messages show them. -/
def shownList : List Datum → List String
  | [] => []
  | v :: vs => shown v :: shownList vs
end

/-- The name of the kind of value. -/
def kind : Datum → String
  | .term (.var _) => "Var"
  | .term (.const _) => "Const"
  | .term _ => "Func"
  | .formula (.pred _ _) => "Pred"
  | .formula (.eq _ _) => "Eq"
  | .formula (.not _) => "Not"
  | .formula (.binary op _ _) => op.title
  | .formula (.quant q _ _) => q.title
  | .text _ => "str"
  | .number _ => "int"
  | .truth _ => "bool"
  | .nothing => "NoneType"
  | .sequence _ => "list"
  | .other _ kind => kind

/-- Are the values of one kind, and equal? Lists and values of other kinds are not compared. -/
def isSame : Datum → Datum → Bool
  | .term s, .term t => s == t
  | .formula f, .formula g => f == g
  | .text s, .text t => s == t
  | .number m, .number n => m == n
  | .truth a, .truth b => a == b
  | .nothing, .nothing => true
  | _, _ => false

end Datum

/-! ### Checks -/

/-- Why a value cannot be built. -/
inductive ConstructionError where
  /-- A name is empty or is no text. -/
  | badName (shown kind : String)
  /-- An argument is neither a term nor an equation. -/
  | notTerm (shown : String)
  /-- An operand is no formula. -/
  | notFormula (shown : String)
  /-- A quantifier is given something that is no variable. -/
  | notVariable (shown : String)
  /-- A member of a clause is no literal. -/
  | notLiteral (shown : String)
  deriving DecidableEq, Repr, Inhabited

/-- The message. -/
def ConstructionError.message : ConstructionError → String
  | .badName shown kind =>
    "expecting non-empty string as name; " ++ shown ++ " is <class '" ++ kind ++ "'>"
  | .notTerm shown => shown ++ " is not a term"
  | .notFormula shown => shown ++ " is not a Formula"
  | .notVariable shown => shown ++ " is not a Variable"
  | .notLiteral shown => shown ++ " is not a literal"

namespace Datum

/-- The value as a name. -/
def toName (v : Datum) : Except ConstructionError String :=
  match v with
  | .text s => if s = "" then .error (.badName v.shown v.kind) else .ok s
  | v => .error (.badName v.shown v.kind)

/-- The value as an argument of a predicate or an equation. -/
def toTerm : Datum → Except ConstructionError Term
  | .term t => .ok t
  | .formula (.eq s t) => .ok (.eq s t)
  | v => .error (.notTerm v.shown)

/-- The value as an argument of a function symbol. -/
def toArgument : Datum → Except ConstructionError Term
  | .term t => .ok t
  | .formula f => .ok f.asArgument
  | v => .error (.notTerm v.shown)

/-- The value as a formula. -/
def toFormula : Datum → Except ConstructionError Formula
  | .formula f => .ok f
  | v => .error (.notFormula v.shown)

/-- The value as a literal. -/
def toLiteral : Datum → Except ConstructionError Formula
  | .formula f => if f.isLiteral then .ok f else .error (.notLiteral f.explicitText)
  | v => .error (.notLiteral v.shown)

mutual
/-- Quantify over a variable, over the variable with a given name, or over a list. The quantifiers
of a list are put in front from the last to the first, so that the first one becomes outermost. -/
def quantify (q : Quantifier) : Datum → Formula → Except ConstructionError Formula
  | .term (.var x), f => .ok (.quant q x f)
  | .text s, f => do
    let x ← toName (.text s)
    return .quant q x f
  | .sequence [], _ => .error (.notVariable "[]")
  | .sequence (v :: vs), f => do
    let g ← quantifyAll q vs f
    quantify q v g
  | v, _ => .error (.notVariable v.shown)
/-- Quantify over the members of a list, from the last to the first. -/
def quantifyAll (q : Quantifier) : List Datum → Formula → Except ConstructionError Formula
  | [], f => .ok f
  | v :: vs, f => do
    let g ← quantifyAll q vs f
    quantify q v g
end

end Datum

/-- The clause with the given members, which must be literals. -/
def Clause.ofData (members : List Datum) : Except ConstructionError Clause := do
  let literals ← members.mapM Datum.toLiteral
  match Clause.ofLiterals literals with
  | .ok c => .ok c
  | .error f => .error (.notLiteral f.explicitText)

/-! ### Recipes -/

/-- How a value is put together. -/
inductive Recipe where
  | var (name : Recipe)
  | const (name : Recipe)
  | func (name : Recipe) (args : List Recipe)
  | pred (name : Recipe) (args : List Recipe)
  | eq (lhs rhs : Recipe)
  | not (arg : Recipe)
  | binary (op : Connective) (lhs rhs : Recipe)
  | quant (q : Quantifier) (vars scope : Recipe)
  /-- The formula that a text stands for. -/
  | formulaText (s : String)
  /-- The term at the beginning of a text. -/
  | termText (s : String)
  /-- A list of values. -/
  | sequence (items : List Recipe)
  /-- A value that is there already. -/
  | given (v : Datum)
  deriving Inhabited

/-- Why a recipe fails. -/
inductive BuildError where
  /-- A text cannot be read. -/
  | reading (e : ReadError)
  /-- A constructor refuses its arguments. -/
  | refused (e : ConstructionError)
  deriving DecidableEq, Repr, Inhabited

namespace Recipe

/-- A check of a constructor as a step of building. -/
def check {α : Type} (outcome : Except ConstructionError α) : Except BuildError α :=
  outcome.mapError .refused

mutual
/-- Build the value: first the parts from left to right, then the checks of the constructor. -/
def build : Recipe → Except BuildError Datum
  | .var name => do
    let name ← build name
    return .term (.var (← check name.toName))
  | .const name => do
    let name ← build name
    return .term (.const (← check name.toName))
  | .func name args => do
    let name ← build name
    let args ← buildList args
    let name ← check name.toName
    return .term (.func name (← check (args.mapM Datum.toArgument)))
  | .pred name args => do
    let name ← build name
    let args ← buildList args
    let name ← check name.toName
    return .formula (.pred name (← check (args.mapM Datum.toTerm)))
  | .eq lhs rhs => do
    let lhs ← build lhs
    let rhs ← build rhs
    let lhs ← check lhs.toTerm
    return .formula (.eq lhs (← check rhs.toTerm))
  | .not arg => do
    let arg ← build arg
    return .formula (.not (← check arg.toFormula))
  | .binary op lhs rhs => do
    let lhs ← build lhs
    let rhs ← build rhs
    let lhs ← check lhs.toFormula
    return .formula (.binary op lhs (← check rhs.toFormula))
  | .quant q vars scope => do
    let vars ← build vars
    let scope ← build scope
    let scope ← check scope.toFormula
    return .formula (← check (vars.quantify q scope))
  | .formulaText s => do
    let f ← (Formula.ofText s).mapError .reading
    return .formula f
  | .termText s => do
    let t ← (Term.ofText s).mapError .reading
    return .ofTerm t
  | .sequence items => do
    return .sequence (← buildList items)
  | .given v => .ok v
/-- Build the values of a list, from left to right. -/
def buildList : List Recipe → Except BuildError (List Datum)
  | [] => .ok []
  | r :: rs => do
    let v ← build r
    return v :: (← buildList rs)
end

/-- Build a formula. -/
def buildFormula (r : Recipe) : Except BuildError Formula := do
  check (← r.build).toFormula

end Recipe

end LogicForms
