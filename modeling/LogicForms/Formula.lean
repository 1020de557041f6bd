import LogicForms.Term

/-!
# First-order formulas

Formulas are built from atoms, which are predicates applied to terms and equations between terms,
by negation, the four binary connectives, and the two quantifiers. A binary connective has exactly
two arguments, and a quantifier binds exactly one variable in exactly one scope.

## What this module holds

* `Formula`, with decidable equality and short names for its compound forms;
* the tests `isAtomic`, `isLiteral`, `isQuantified`, `isBinary`;
* `Formula.depth`, the number of operators on a longest path to an atom.
-/

set_option autoImplicit false

namespace LogicForms

/-- A first-order formula. -/
inductive Formula where
  /-- A predicate symbol applied to a list of arguments, which may be empty. -/
  | pred (name : String) (args : List Term)
  /-- An equation between two terms. -/
  | eq (lhs rhs : Term)
  /-- A negation. -/
  | not (arg : Formula)
  /-- A binary connective with its two arguments. -/
  | binary (op : Connective) (lhs rhs : Formula)
  /-- A quantifier with the variable that it binds and its scope. -/
  | quant (q : Quantifier) (x : String) (scope : Formula)
  deriving DecidableEq, Inhabited

namespace Formula

/-- Conjunction. -/
@[match_pattern] abbrev and (f g : Formula) : Formula := .binary .and f g

/-- Disjunction. -/
@[match_pattern] abbrev or (f g : Formula) : Formula := .binary .or f g

/-- Implication. -/
@[match_pattern] abbrev implies (f g : Formula) : Formula := .binary .implies f g

/-- Equivalence. -/
@[match_pattern] abbrev iff (f g : Formula) : Formula := .binary .iff f g

/-- Universal quantification. -/
@[match_pattern] abbrev all (x : String) (f : Formula) : Formula := .quant .universal x f

/-- Existential quantification. -/
@[match_pattern] abbrev ex (x : String) (f : Formula) : Formula := .quant .existential x f

/-- Is the formula a predicate or an equation? -/
def isAtomic : Formula → Bool
  | .pred _ _ => true
  | .eq _ _ => true
  | .not _ => false
  | .binary _ _ _ => false
  | .quant _ _ _ => false

/-- Is the formula an atom or the negation of an atom? -/
def isLiteral : Formula → Bool
  | .not f => f.isAtomic
  | f => f.isAtomic

/-- Is the outermost operator a quantifier? -/
def isQuantified : Formula → Bool
  | .quant _ _ _ => true
  | _ => false

/-- Is the outermost operator a binary connective? -/
def isBinary : Formula → Bool
  | .binary _ _ _ => true
  | _ => false

/-- Is the formula an equation? -/
def isEquation : Formula → Bool
  | .eq _ _ => true
  | _ => false

/-- Is the formula a negation? -/
def isNegation : Formula → Bool
  | .not _ => true
  | _ => false

/-- The number of operators on a longest path from the root to an atom. -/
def depth : Formula → Nat
  | .pred _ _ => 0
  | .eq _ _ => 0
  | .not f => f.depth + 1
  | .binary _ f g => max f.depth g.depth + 1
  | .quant _ _ f => f.depth + 1

@[simp] theorem isAtomic_pred (p : String) (args : List Term) : (pred p args).isAtomic = true := rfl
@[simp] theorem isAtomic_eq (s t : Term) : (eq s t).isAtomic = true := rfl
@[simp] theorem isAtomic_not (f : Formula) : (not f).isAtomic = false := rfl
@[simp] theorem isAtomic_binary (op : Connective) (f g : Formula) :
    (binary op f g).isAtomic = false := rfl
@[simp] theorem isAtomic_quant (q : Quantifier) (x : String) (f : Formula) :
    (quant q x f).isAtomic = false := rfl

@[simp] theorem isLiteral_pred (p : String) (args : List Term) :
    (pred p args).isLiteral = true := rfl
@[simp] theorem isLiteral_eq (s t : Term) : (eq s t).isLiteral = true := rfl
@[simp] theorem isLiteral_not (f : Formula) : (not f).isLiteral = f.isAtomic := rfl
@[simp] theorem isLiteral_binary (op : Connective) (f g : Formula) :
    (binary op f g).isLiteral = false := rfl
@[simp] theorem isLiteral_quant (q : Quantifier) (x : String) (f : Formula) :
    (quant q x f).isLiteral = false := rfl

/-- An atom is a literal. -/
theorem isLiteral_of_isAtomic {f : Formula} (h : f.isAtomic = true) : f.isLiteral = true := by
  cases f <;> simp_all

@[simp] theorem depth_pred (p : String) (args : List Term) : (pred p args).depth = 0 := rfl
@[simp] theorem depth_eq (s t : Term) : (eq s t).depth = 0 := rfl
@[simp] theorem depth_not (f : Formula) : (not f).depth = f.depth + 1 := rfl
@[simp] theorem depth_binary (op : Connective) (f g : Formula) :
    (binary op f g).depth = max f.depth g.depth + 1 := rfl
@[simp] theorem depth_quant (q : Quantifier) (x : String) (f : Formula) :
    (quant q x f).depth = f.depth + 1 := rfl

end Formula

end LogicForms
