import LogicForms.Text.Join

/-!
# Traces of recursive computations

A call tree records the calls of a recursive computation: each call with its arguments, its inner
calls in order, and its value unless it failed. Writing a tree keeps a running indentation: a call
writes a line on entry, raises the indentation by its own step for its inner calls, restores it, and
writes a line with its value on exit. A call that fails writes no line on exit but restores the
indentation like any other.
-/

set_option autoImplicit false

namespace LogicForms

/-- What is recorded of one call. -/
structure CallRecord where
  /-- The name of what is called. -/
  name : String
  /-- The arguments as they are shown. -/
  args : List String
  /-- The value as it is shown, or nothing if the call failed. -/
  value? : Option String
  /-- By how much inner calls are indented. -/
  indentStep : Int
  /-- Is the value written on exit? -/
  showValue : Bool
  deriving DecidableEq, Repr, Inhabited

/-- A call with its inner calls in order. -/
inductive CallTree where
  | node (record : CallRecord) (inner : List CallTree)
  deriving Inhabited

/-- A line of a trace. -/
inductive TraceLine where
  /-- A call is entered. -/
  | enter (indent : Int) (name : String) (args : List String)
  /-- A call is left with a value. -/
  | leave (indent : Int) (name value : String)
  deriving DecidableEq, Repr, Inhabited

namespace TraceLine

/-- Spaces in front of a line; a negative indentation counts as none. -/
def spaces (indent : Int) : String := String.ofList (List.replicate indent.toNat ' ')

/-- The indentation of the line. -/
def indent : TraceLine → Int
  | .enter indent _ _ => indent
  | .leave indent _ _ => indent

/-- The line as text. An empty line follows a value. -/
def text : TraceLine → String
  | .enter indent name args =>
    spaces indent ++ "--> " ++ name ++ "(" ++ Text.commaSeparated args ++ ")\n"
  | .leave indent name value => spaces indent ++ "<-- " ++ name ++ " == " ++ value ++ "\n\n"

end TraceLine

namespace CallRecord

/-- The line on entry. -/
def enterLine (r : CallRecord) (indent : Int) : TraceLine := .enter indent r.name r.args

/-- The line on exit, if there is one. -/
def leaveLines (r : CallRecord) (indent : Int) : List TraceLine :=
  match r.value? with
  | some value => if r.showValue then [.leave indent r.name value] else []
  | none => []

end CallRecord

namespace CallTree

mutual
/-- The lines of a call and the running indentation after it. -/
def write : CallTree → Int → List TraceLine × Int
  | .node record inner, indent =>
    let (lines, indent') := writeAll inner (indent + record.indentStep)
    (record.enterLine indent :: (lines ++ record.leaveLines indent), indent' - record.indentStep)
/-- The lines of calls one after the other and the running indentation after them. -/
def writeAll : List CallTree → Int → List TraceLine × Int
  | [], indent => ([], indent)
  | tree :: trees, indent =>
    let (lines, indent') := write tree indent
    let (lines', indent'') := writeAll trees indent'
    (lines ++ lines', indent'')
end

/-- The trace of calls one after the other as text, written from indentation zero. -/
def trace (trees : List CallTree) : String :=
  String.join ((writeAll trees 0).1.map TraceLine.text)

/-- The running indentation after the trace has been written from indentation zero. -/
def finalIndent (trees : List CallTree) : Int := (writeAll trees 0).2

end CallTree

end LogicForms
