/-!
# Logical operators

The four binary connectives and the two quantifiers, with their symbols, their names in constructor
notation, their precedences and their duals.
-/

set_option autoImplicit false

namespace LogicForms

/-- The binary connectives. -/
inductive Connective where
  | and
  | or
  | implies
  | iff
  deriving DecidableEq, Repr, Inhabited

namespace Connective

/-- The symbol between the two arguments. -/
def symbol : Connective → Char
  | .and => '∧'
  | .or => '∨'
  | .implies => '→'
  | .iff => '↔'

/-- The name in constructor notation. -/
def title : Connective → String
  | .and => "And"
  | .or => "Or"
  | .implies => "Implies"
  | .iff => "Iff"

/-- How tightly the connective binds; conjunction binds most tightly. -/
def precedence : Connective → Nat
  | .and => 40
  | .or => 30
  | .implies => 20
  | .iff => 10

/-- Conjunction and disjunction are dual to each other. The other connectives are left alone. -/
def dual : Connective → Connective
  | .and => .or
  | .or => .and
  | .implies => .implies
  | .iff => .iff

@[simp] theorem dual_dual (op : Connective) : op.dual.dual = op := by cases op <;> rfl

end Connective

/-- The two quantifiers. -/
inductive Quantifier where
  | universal
  | existential
  deriving DecidableEq, Repr, Inhabited

namespace Quantifier

/-- The symbol in front of the bound variable. -/
def symbol : Quantifier → Char
  | .universal => '∀'
  | .existential => '∃'

/-- The name in constructor notation. -/
def title : Quantifier → String
  | .universal => "Forall"
  | .existential => "Exists"

/-- The other quantifier. -/
def dual : Quantifier → Quantifier
  | .universal => .existential
  | .existential => .universal

@[simp] theorem dual_dual (q : Quantifier) : q.dual.dual = q := by cases q <;> rfl

end Quantifier

end LogicForms
