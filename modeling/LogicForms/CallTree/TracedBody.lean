import LogicForms.CallTree

/-!
# Traced calls while they run

A call tree tells of calls that are over. Here the calls are made. `TracedCall.around` puts the
tracing around the body of a call: it writes the line on entry, raises the running indentation,
lowers it again whether the body succeeds or fails, and writes the line on exit if the body has
succeeded. The state of tracing outlives failures (`Tracing`).

A body succeeds, fails, or makes a traced call and goes on in a way that depends on how this has
ended (`TracedBody`). It passes a failure of the call on if it then fails with the same failure,
and catches it otherwise. `TracedBody.calls` gives the trees of the calls that a body makes, and
`CallTree.replay` a body that makes given calls.
-/

set_option autoImplicit false

namespace LogicForms

/-- What tracing keeps. -/
structure TraceState where
  /-- The running indentation. -/
  indent : Int
  /-- The lines written so far. -/
  lines : List TraceLine
  deriving DecidableEq, Repr, Inhabited

/-- What can fail with a failure in `ε` and traces. A failure does not take back the state. -/
abbrev Tracing (ε : Type) := ExceptT ε (StateM TraceState)

variable {ε α β : Type}

namespace Tracing

/-- Write a line. -/
def write (line : TraceLine) : Tracing ε Unit :=
  modify fun state => { state with lines := state.lines ++ [line] }

/-- Add to the running indentation. -/
def shift (step : Int) : Tracing ε Unit :=
  modify fun state => { state with indent := state.indent + step }

/-- The outcome and the state afterwards. -/
def runFrom (x : Tracing ε α) (state : TraceState) : Except ε α × TraceState := x.run.run state

@[simp] theorem runFrom_pure (a : α) (state : TraceState) :
    (pure a : Tracing ε α).runFrom state = (.ok a, state) := rfl

@[simp] theorem runFrom_throw (e : ε) (state : TraceState) :
    (throw e : Tracing ε α).runFrom state = (.error e, state) := rfl

@[simp] theorem runFrom_get (state : TraceState) :
    (get : Tracing ε TraceState).runFrom state = (.ok state, state) := rfl

@[simp] theorem runFrom_write (line : TraceLine) (state : TraceState) :
    (write line : Tracing ε Unit).runFrom state =
      (.ok (), { state with lines := state.lines ++ [line] }) := rfl

@[simp] theorem runFrom_shift (step : Int) (state : TraceState) :
    (shift step : Tracing ε Unit).runFrom state =
      (.ok (), { state with indent := state.indent + step }) := rfl

@[simp] theorem runFrom_bind (x : Tracing ε α) (next : α → Tracing ε β) (state : TraceState) :
    (x >>= next).runFrom state =
      match x.runFrom state with
      | (.ok a, state') => (next a).runFrom state'
      | (.error e, state') => (.error e, state') := by
  simp only [runFrom, ExceptT.run_bind, StateT.run_bind]
  rcases StateT.run x.run state with ⟨_ | _, _⟩ <;> rfl

/-- The indentation is changed at the end whatever the outcome. -/
@[simp] theorem runFrom_finally_shift (x : Tracing ε α) (step : Int) (state : TraceState) :
    (tryFinally x (shift step)).runFrom state =
      ((x.runFrom state).1,
        { (x.runFrom state).2 with indent := (x.runFrom state).2.indent + step }) := by
  simp only [runFrom, tryFinally, tryFinally', ExceptT.run_map, StateT.run_map]
  simp only [ExceptT.run, ExceptT.mk, StateT.run, bind, StateT.bind]
  rcases x state with ⟨_ | _, _⟩ <;> rfl

/-- What observes an outcome does not fail. -/
@[simp] theorem runFrom_observing (x : Tracing ε α) (state : TraceState) :
    (observing x).runFrom state = (.ok (x.runFrom state).1, (x.runFrom state).2) := by
  simp only [runFrom, observing, ExceptT.run_tryCatch, ExceptT.run_bind, StateT.run_bind]
  rcases StateT.run x.run state with ⟨_ | _, _⟩ <;> rfl

end Tracing

/-! ### Calls -/

/-- A call that is traced. -/
structure TracedCall (α : Type) where
  /-- The name of what is called. -/
  name : String
  /-- The arguments as they are shown. -/
  args : List String
  /-- By how much inner calls are indented. -/
  indentStep : Int
  /-- Is the value written on exit? -/
  showValue : Bool
  /-- A value as it is shown. -/
  shown : α → String

namespace TracedCall

/-- What is recorded of the call once its outcome is known. -/
def record (call : TracedCall α) (outcome : Except ε α) : CallRecord :=
  ⟨call.name, call.args, outcome.toOption.map call.shown, call.indentStep, call.showValue⟩

@[simp] theorem leaveLines_record_error (call : TracedCall α) (e : ε) (indent : Int) :
    (call.record (.error e : Except ε α)).leaveLines indent = [] := rfl

@[simp] theorem leaveLines_record_ok (call : TracedCall α) (value : α) (indent : Int) :
    (call.record (.ok value : Except ε α)).leaveLines indent =
      if call.showValue then [.leave indent call.name (call.shown value)] else [] := rfl

/-- The call with this body. The line on exit has the indentation that there was on entry. -/
def around (call : TracedCall α) (body : Tracing ε α) : Tracing ε α := do
  let indent := (← get).indent
  Tracing.write (.enter indent call.name call.args)
  Tracing.shift call.indentStep
  let value ← try body finally Tracing.shift (-call.indentStep)
  if call.showValue then
    Tracing.write (.leave indent call.name (call.shown value))
  return value

/-- The call of which this is recorded. Its values are texts, which are shown as they are. -/
def ofRecord (record : CallRecord) : TracedCall String :=
  ⟨record.name, record.args, record.indentStep, record.showValue, id⟩

end TracedCall

/-! ### Bodies -/

/-- What a called function does, as far as it is traced. -/
inductive TracedBody (ε α : Type) where
  /-- It succeeds with a value. -/
  | succeed (value : α)
  /-- It fails. -/
  | fail (failure : ε)
  /-- It makes a call with its body, and goes on depending on the outcome. -/
  | perform (call : TracedCall α) (body : TracedBody ε α) (next : Except ε α → TracedBody ε α)

namespace TracedBody

/-- What the body does. The failure of a call is handed to what comes next, like a value. -/
def run : TracedBody ε α → Tracing ε α
  | .succeed value => return value
  | .fail failure => throw failure
  | .perform call body next => do
    let outcome ← observing (call.around body.run)
    (next outcome).run

/-- How the body ends. -/
def outcome : TracedBody ε α → Except ε α
  | .succeed value => .ok value
  | .fail failure => .error failure
  | .perform _ body next => (next body.outcome).outcome

/-- The calls that the body makes, in order. -/
def calls : TracedBody ε α → List CallTree
  | .succeed _ => []
  | .fail _ => []
  | .perform call body next =>
    .node (call.record body.outcome) body.calls :: (next body.outcome).calls

/-- The body that ends with a value, or fails if there is none. -/
def ending : Option String → TracedBody Unit String
  | some value => .succeed value
  | none => .fail ()

end TracedBody

/-- The tree of a call with its body. -/
def TracedCall.tree (call : TracedCall α) (body : TracedBody ε α) : CallTree :=
  .node (call.record body.outcome) body.calls

namespace CallTree

mutual
/-- The body that makes the call of a tree, catches its failure, and goes on. -/
def replay : CallTree → (next : TracedBody Unit String) → TracedBody Unit String
  | .node record inner, next =>
    .perform (.ofRecord record) (replayAll inner (.ending record.value?)) fun _ => next
/-- The body that makes the calls of trees, catches their failures, and goes on. -/
def replayAll : List CallTree → (next : TracedBody Unit String) → TracedBody Unit String
  | [], next => next
  | tree :: trees, next => replay tree (replayAll trees next)
end

end CallTree

end LogicForms
