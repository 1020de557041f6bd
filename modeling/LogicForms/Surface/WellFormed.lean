import LogicForms.Surface.Reader

/-!
# Formulas that can be written

A formula has a written form that reads as the same formula only if its names are identifiers, its
variables and constants can be told apart by their first characters, its equations stand between
terms, and no other formulas stand in argument position. `Formula.isWellFormed` is the conjunction
of these conditions. The variable of a quantifier can be any identifier.
-/

set_option autoImplicit false

namespace LogicForms

open Surface (isIdentifier isVariableName)

namespace Term

mutual
/-- Is the term one that can be written? Equations in argument position stand between terms. -/
def isWellFormed : Term → Bool
  | .var x => isIdentifier x && isVariableName x
  | .const c => isIdentifier c && !isVariableName c
  | .func f args => isIdentifier f && areWellFormed args
  | .eq s t => !s.isEquation && !t.isEquation && isWellFormed s && isWellFormed t
  | .pred _ _ => false
  | .not _ => false
  | .binary _ _ _ => false
  | .quant _ _ _ => false
  | .bound _ => false
/-- Are all arguments of a list terms that can be written? -/
def areWellFormed : List Term → Bool
  | [] => true
  | t :: ts => isWellFormed t && areWellFormed ts
end

@[simp] theorem isWellFormed_var (x : String) :
    isWellFormed (.var x) = (isIdentifier x && isVariableName x) := rfl
@[simp] theorem isWellFormed_const (c : String) :
    isWellFormed (.const c) = (isIdentifier c && !isVariableName c) := rfl
@[simp] theorem isWellFormed_func (f : String) (args : List Term) :
    isWellFormed (.func f args) = (isIdentifier f && areWellFormed args) := rfl
@[simp] theorem isWellFormed_eq (s t : Term) :
    isWellFormed (.eq s t) =
      (!s.isEquation && !t.isEquation && isWellFormed s && isWellFormed t) := rfl
@[simp] theorem isWellFormed_pred (p : String) (args : List Term) :
    isWellFormed (.pred p args) = false := rfl
@[simp] theorem isWellFormed_not (t : Term) : isWellFormed (.not t) = false := rfl
@[simp] theorem isWellFormed_binary (op : Connective) (s t : Term) :
    isWellFormed (.binary op s t) = false := rfl
@[simp] theorem isWellFormed_quant (q : Quantifier) (x : String) (t : Term) :
    isWellFormed (.quant q x t) = false := rfl
@[simp] theorem isWellFormed_bound (x : String) : isWellFormed (.bound x) = false := rfl
@[simp] theorem areWellFormed_nil : areWellFormed [] = true := rfl
@[simp] theorem areWellFormed_cons (t : Term) (ts : List Term) :
    areWellFormed (t :: ts) = (isWellFormed t && areWellFormed ts) := rfl

/-- An argument list can be written if all its members can. -/
theorem areWellFormed_iff (ts : List Term) :
    areWellFormed ts = true ↔ ∀ t ∈ ts, t.isWellFormed = true := by
  induction ts with
  | nil => simp
  | cons t ts ih => simp [ih]

end Term

namespace Formula

/-- Is the formula one that can be written? -/
def isWellFormed : Formula → Bool
  | .pred p args => isIdentifier p && Term.areWellFormed args
  | .eq s t => (Term.eq s t).isWellFormed
  | .not f => f.isWellFormed
  | .binary _ f g => f.isWellFormed && g.isWellFormed
  | .quant _ x f => isIdentifier x && f.isWellFormed

@[simp] theorem isWellFormed_pred (p : String) (args : List Term) :
    (pred p args).isWellFormed = (isIdentifier p && Term.areWellFormed args) := rfl
@[simp] theorem isWellFormed_eq (s t : Term) :
    (eq s t).isWellFormed = (Term.eq s t).isWellFormed := rfl
@[simp] theorem isWellFormed_not (f : Formula) : (not f).isWellFormed = f.isWellFormed := rfl
@[simp] theorem isWellFormed_binary (op : Connective) (f g : Formula) :
    (binary op f g).isWellFormed = (f.isWellFormed && g.isWellFormed) := rfl
@[simp] theorem isWellFormed_quant (q : Quantifier) (x : String) (f : Formula) :
    (quant q x f).isWellFormed = (isIdentifier x && f.isWellFormed) := rfl

end Formula

end LogicForms
