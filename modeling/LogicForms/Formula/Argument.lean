import LogicForms.Formula

/-!
# Formulas in argument position

Any formula may be an argument of a function symbol. `Formula.toTerm` is the formula as a term, node
by node, and `Formula.asArgument` is the formula as it stands among arguments, where the variables
that its own quantifiers bind are marked as bound. The mark keeps names and printed forms, and takes
the marked places out of every later substitution.

## What this module holds

* `Formula.toTerm`, the formula as a term, with the same occurrences of names;
* `Term.bindVars`, which marks what quantifiers in argument position bind;
* `Formula.asArgument`, both together.
-/

set_option autoImplicit false

namespace LogicForms

namespace Term

mutual
/-- Mark what quantifiers in argument position bind, where those around the term bind the variables
of `scope`. -/
def bindVars (scope : List String) : Term → Term
  | .var x => if scope.contains x then .bound x else .var x
  | .const c => .const c
  | .func f args => .func f (bindVarsList scope args)
  | .eq s t => .eq (bindVars scope s) (bindVars scope t)
  | .pred p args => .pred p (bindVarsList scope args)
  | .not t => .not (bindVars scope t)
  | .binary op s t => .binary op (bindVars scope s) (bindVars scope t)
  | .quant q x t => .quant q x (bindVars (x :: scope) t)
  | .bound x => .bound x
/-- Mark what quantifiers in argument position bind in an argument list. -/
def bindVarsList (scope : List String) : List Term → List Term
  | [] => []
  | t :: ts => bindVars scope t :: bindVarsList scope ts
end

@[simp] theorem bindVars_var (scope : List String) (x : String) :
    bindVars scope (.var x) = if scope.contains x then .bound x else .var x := rfl
@[simp] theorem bindVars_const (scope : List String) (c : String) :
    bindVars scope (.const c) = .const c := rfl
@[simp] theorem bindVars_func (scope : List String) (f : String) (args : List Term) :
    bindVars scope (.func f args) = .func f (bindVarsList scope args) := rfl
@[simp] theorem bindVars_eq (scope : List String) (s t : Term) :
    bindVars scope (.eq s t) = .eq (bindVars scope s) (bindVars scope t) := rfl
@[simp] theorem bindVars_pred (scope : List String) (p : String) (args : List Term) :
    bindVars scope (.pred p args) = .pred p (bindVarsList scope args) := rfl
@[simp] theorem bindVars_not (scope : List String) (t : Term) :
    bindVars scope (.not t) = .not (bindVars scope t) := rfl
@[simp] theorem bindVars_binary (scope : List String) (op : Connective) (s t : Term) :
    bindVars scope (.binary op s t) = .binary op (bindVars scope s) (bindVars scope t) := rfl
@[simp] theorem bindVars_quant (scope : List String) (q : Quantifier) (x : String) (t : Term) :
    bindVars scope (.quant q x t) = .quant q x (bindVars (x :: scope) t) := rfl
@[simp] theorem bindVars_bound (scope : List String) (x : String) :
    bindVars scope (.bound x) = .bound x := rfl
@[simp] theorem bindVarsList_nil (scope : List String) : bindVarsList scope [] = [] := rfl
@[simp] theorem bindVarsList_cons (scope : List String) (t : Term) (ts : List Term) :
    bindVarsList scope (t :: ts) = bindVars scope t :: bindVarsList scope ts := rfl

/-- Argument lists are marked member by member. -/
theorem bindVarsList_eq_map (scope : List String) (ts : List Term) :
    bindVarsList scope ts = ts.map (bindVars scope) := by
  induction ts with
  | nil => rfl
  | cons t ts ih => simp [ih]

end Term

namespace Formula

/-- The formula as a term, node by node. -/
def toTerm : Formula → Term
  | .pred p args => .pred p args
  | .eq s t => .eq s t
  | .not f => .not f.toTerm
  | .binary op f g => .binary op f.toTerm g.toTerm
  | .quant q x f => .quant q x f.toTerm

/-- The formula as an argument of a function symbol. -/
def asArgument (f : Formula) : Term := f.toTerm.bindVars []

@[simp] theorem toTerm_pred (p : String) (args : List Term) :
    (pred p args).toTerm = .pred p args := rfl
@[simp] theorem toTerm_eq (s t : Term) : (eq s t).toTerm = .eq s t := rfl
@[simp] theorem toTerm_not (f : Formula) : (not f).toTerm = .not f.toTerm := rfl
@[simp] theorem toTerm_binary (op : Connective) (f g : Formula) :
    (binary op f g).toTerm = .binary op f.toTerm g.toTerm := rfl
@[simp] theorem toTerm_quant (q : Quantifier) (x : String) (f : Formula) :
    (quant q x f).toTerm = .quant q x f.toTerm := rfl

@[simp] theorem isBinary_toTerm (f : Formula) : f.toTerm.isBinary = f.isBinary := by
  cases f <;> rfl

@[simp] theorem isEquation_toTerm (f : Formula) : f.toTerm.isEquation = f.isEquation := by
  cases f <;> rfl

end Formula

end LogicForms
