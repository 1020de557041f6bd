import LogicForms.Text.Join

/-!
# Work budgets

A budget limits the number of steps of a computation whose result can be much larger than its
input. Each step consumes one unit, and the step that consumes the last unit fails.
-/

set_option autoImplicit false

namespace LogicForms

/-- A positive limit, and how much of it is left. -/
structure Budget where
  /-- The number of units after a reset. -/
  limit : Nat
  /-- The number of units left, which is zero or negative after a failure. -/
  remaining : Int
  /-- The limit is positive. -/
  limit_pos : 0 < limit
  deriving DecidableEq

/-- The limit given for a budget is not positive. -/
structure BudgetError where
  /-- The limit. -/
  limit : Int
  deriving DecidableEq, Repr, Inhabited

/-- The message shows the limit. -/
def BudgetError.message (e : BudgetError) : String :=
  "budget must be positive; " ++ toString e.limit ++ " is not"

/-- A computation has used up its budget. -/
structure ResourceExceeded where
  /-- What was computed. -/
  stage : String
  /-- The limit of the budget. -/
  limit : Nat
  deriving DecidableEq, Repr, Inhabited

/-- The message shows what was computed and the limit. -/
def ResourceExceeded.message (e : ResourceExceeded) : String :=
  "formula grew too large during " ++ e.stage ++ " distribution (budget of " ++ toString e.limit ++
    " exhausted)"

namespace Budget

/-- The full budget with a given positive limit. -/
def full (limit : Nat) (h : 0 < limit) : Budget := ⟨limit, limit, h⟩

/-- The limit that is used when none is given. -/
def standardLimit : Nat := 5000

/-- The limit that is used when none is given is positive. -/
theorem standardLimit_pos : 0 < standardLimit := by decide

/-- The budget that is used when none is given. -/
def standard : Budget := full standardLimit standardLimit_pos

instance : Inhabited Budget := ⟨standard⟩

/-- The full budget with a given limit, which must be positive. -/
def ofLimit (limit : Int) : Except BudgetError Budget :=
  if h : 0 < limit.toNat then .ok (full limit.toNat h) else .error ⟨limit⟩

/-- All units are available again. -/
def reset (b : Budget) : Budget := full b.limit b.limit_pos

/-- Consume one unit. This fails if nothing is left afterwards. -/
def consume (b : Budget) (stage : String) : Except ResourceExceeded Unit × Budget :=
  let b' : Budget := { b with remaining := b.remaining - 1 }
  if b'.remaining ≤ 0 then (.error ⟨stage, b.limit⟩, b') else (.ok (), b')

/-- The number of units consumed since the last reset. -/
def consumed (b : Budget) : Int := b.limit - b.remaining

/-- A summary of the budget. -/
def summary (limit : Nat) (remaining : Int) : String :=
  "Budget(limit=" ++ toString limit ++ ", remaining=" ++ toString remaining ++ ")"

@[simp] theorem reset_limit (b : Budget) : b.reset.limit = b.limit := rfl
@[simp] theorem reset_remaining (b : Budget) : b.reset.remaining = b.limit := rfl
@[simp] theorem reset_reset (b : Budget) : b.reset.reset = b.reset := rfl

end Budget

end LogicForms
