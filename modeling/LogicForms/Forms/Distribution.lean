import LogicForms.Budget
import LogicForms.Forms.Negation
import LogicForms.Prefix

/-!
# Conjunctive and disjunctive normal form

A quantifier-free formula in negation normal form is brought into conjunctive normal form by
distributing disjunction over conjunction, and into disjunctive normal form by the dual
distribution. The connective that is distributed is the inner one of the normal form, the other one
the outer one.

The result can be exponentially larger than the input, so each recursive call takes one unit from a
budget. This also makes the recursion end: it distributes formulas that are put together anew and
can be larger than the input, but fewer units are left for them.

## What this module holds

* `NormalForm` with its inner and outer connective;
* `NormalForm.distributeWithin`, the distribution with a number of units;
* `NormalForm.distribute` and `NormalForm.ofPrenex` with a `Budget`;
* `NormalForm.holds`, the test for the normal form.
-/

set_option autoImplicit false

namespace LogicForms

/-- The two normal forms of Boolean combinations. -/
inductive NormalForm where
  | conjunctive
  | disjunctive
  deriving DecidableEq, Repr, Inhabited

/-- The arguments of a binary formula with the given connective. -/
def Formula.arguments? (op : Connective) : Formula → Option (Formula × Formula)
  | .binary op' f g => if op' = op then some (f, g) else none
  | _ => none

/-- Arguments are smaller than the formula. -/
theorem Formula.arguments?_eq_some {op : Connective} {k f g : Formula} :
    k.arguments? op = some (f, g) ↔ k = .binary op f g := by
  cases k with
  | binary op' f' g' =>
    by_cases h : op' = op
    · subst h; simp [arguments?]
    · simp [arguments?, h]
  | _ => simp [arguments?]

namespace NormalForm

/-- The connective that is distributed. -/
def inner : NormalForm → Connective
  | .conjunctive => .or
  | .disjunctive => .and

/-- The connective over which the inner one is distributed. -/
def outer : NormalForm → Connective
  | .conjunctive => .and
  | .disjunctive => .or

/-- The short name in messages. -/
def label : NormalForm → String
  | .conjunctive => "CNF"
  | .disjunctive => "DNF"

/-- The other normal form. -/
def dual : NormalForm → NormalForm
  | .conjunctive => .disjunctive
  | .disjunctive => .conjunctive

@[simp] theorem inner_dual (form : NormalForm) : form.dual.inner = form.outer := by
  cases form <;> rfl
@[simp] theorem outer_dual (form : NormalForm) : form.dual.outer = form.inner := by
  cases form <;> rfl

/-- Why a distribution ends without a result. -/
inductive Obstacle where
  /-- All units are used up. -/
  | exhausted
  /-- A formula is neither a literal nor a conjunction or disjunction; `left` units are left. -/
  | stuck (f : Formula) (left : Nat)
  deriving DecidableEq, Inhabited

/-- A distributed formula, with the number of units that are left: fewer than `bound`. -/
structure Distributed (bound : Nat) where
  /-- The formula. -/
  formula : Formula
  /-- The units that are left. -/
  left : Nat
  /-- At least one unit has been consumed. -/
  left_lt : left < bound

/-- Distribute the inner connective over the outer one within the given number of units. Both
arguments of an inner connective are distributed first; then the left one is taken apart if it has
the outer connective on top, and otherwise the right one, and the parts are distributed again. -/
def distributeWithin (form : NormalForm) (f : Formula) (units : Nat) :
    Except Obstacle (Distributed units) :=
  match units with
  | 0 => .error .exhausted
  -- the last unit pays for no result
  | 1 => .error .exhausted
  | units + 2 =>
    match f.arguments? form.inner with
    | some (a, b) => do
      let ⟨lhs, r₁, h₁⟩ ← form.distributeWithin a (units + 1)
      let ⟨rhs, r₂, h₂⟩ ← form.distributeWithin b r₁
      -- the left side is taken apart before the right one, which fixes the order of the parts
      match lhs.arguments? form.outer with
      | some (c, d) => do
        let ⟨k, r₃, h₃⟩ ← form.distributeWithin (.binary form.inner c rhs) r₂
        let ⟨l, r₄, h₄⟩ ← form.distributeWithin (.binary form.inner d rhs) r₃
        return ⟨.binary form.outer k l, r₄, by omega⟩
      | none =>
        match rhs.arguments? form.outer with
        | some (c, d) => do
          let ⟨k, r₃, h₃⟩ ← form.distributeWithin (.binary form.inner lhs c) r₂
          let ⟨l, r₄, h₄⟩ ← form.distributeWithin (.binary form.inner lhs d) r₃
          return ⟨.binary form.outer k l, r₄, by omega⟩
        | none => return ⟨.binary form.inner lhs rhs, r₂, by omega⟩
    | none =>
      match f.arguments? form.outer with
      | some (a, b) => do
        let ⟨k, r₁, h₁⟩ ← form.distributeWithin a (units + 1)
        let ⟨l, r₂, h₂⟩ ← form.distributeWithin b r₁
        return ⟨.binary form.outer k l, r₂, by omega⟩
      | none =>
        if f.isLiteral then return ⟨f, units + 1, by omega⟩
        else .error (.stuck f (units + 1))
termination_by units

/-- Why a distribution with a budget fails. -/
inductive Failure where
  /-- The budget is used up. -/
  | exceeded (e : ResourceExceeded)
  /-- A formula is neither a literal nor a conjunction or disjunction. -/
  | stuck (f : Formula)
  deriving DecidableEq, Inhabited

/-- The message. -/
def Failure.message : Failure → String
  | .exceeded e => e.message
  | .stuck f => f.text

/-- Distribute a quantifier-free formula in negation normal form with a budget, which is reset
first. -/
def distribute (form : NormalForm) (f : Formula) (budget : Budget) :
    Except Failure Formula × Budget :=
  match form.distributeWithin f budget.limit with
  | .ok result => (.ok result.formula, { budget with remaining := result.left })
  | .error .exhausted =>
    (.error (.exceeded ⟨form.label, budget.limit⟩), { budget with remaining := 0 })
  | .error (.stuck g left) => (.error (.stuck g), { budget with remaining := left })

/-- Bring the matrix of a prenex formula into negation normal form and then into the normal form,
and put its quantifiers back in front. -/
def ofPrenex (form : NormalForm) (f : Formula) (budget : Budget) :
    Except Failure Formula × Budget :=
  let (result, budget) := form.distribute (f.matrix.nnf false) budget
  (result.map fun g => g.quantify f.leading, budget)

/-- Does no inner connective have an outer one as an argument, and are all parts literals? -/
def holdsBelow (form : NormalForm) : Formula → Bool
  | .binary op f g =>
    if op = form.inner then
      (f.arguments? form.outer).isNone && (g.arguments? form.outer).isNone &&
        form.holdsBelow f && form.holdsBelow g
    else if op = form.outer then form.holdsBelow f && form.holdsBelow g
    else false
  | f => f.isLiteral

/-- Is the matrix of the formula in the normal form? -/
def holds (form : NormalForm) (f : Formula) : Bool := form.holdsBelow f.matrix

end NormalForm

end LogicForms
