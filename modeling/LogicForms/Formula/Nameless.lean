import LogicForms.Formula

/-!
# Formulas without names of bound variables

Two formulas differ in the names of bound variables only if they have the same nameless form, in
which a bound occurrence is the number of quantifiers between it and the quantifier that binds it,
and a free occurrence keeps its name. Quantifiers in argument position are not counted, and keep
their variables.

## What this module holds

* `NamelessTerm` and `Nameless`, terms and formulas without names of bound variables;
* `Term.nameless` and `Formula.nameless`, behind a list of variables bound outside, innermost first;
* `Formula.AlphaEquivalent`, equality of nameless forms.
-/

set_option autoImplicit false

namespace LogicForms

/-- A term whose bound variables are numbers. -/
inductive NamelessTerm where
  /-- A bound variable, with the number of quantifiers between it and its own one. -/
  | bound (index : Nat)
  /-- A free variable. -/
  | free (name : String)
  | const (name : String)
  | func (name : String) (args : List NamelessTerm)
  | eq (lhs rhs : NamelessTerm)
  | pred (name : String) (args : List NamelessTerm)
  | not (arg : NamelessTerm)
  | binary (op : Connective) (lhs rhs : NamelessTerm)
  | quant (q : Quantifier) (x : String) (scope : NamelessTerm)
  /-- A variable that is bound by a quantifier in argument position, with its name. -/
  | inner (name : String)
  deriving Inhabited

/-- A formula whose bound variables are numbers. -/
inductive Nameless where
  | pred (name : String) (args : List NamelessTerm)
  | eq (lhs rhs : NamelessTerm)
  | not (arg : Nameless)
  | binary (op : Connective) (lhs rhs : Nameless)
  | quant (q : Quantifier) (scope : Nameless)
  deriving Inhabited

namespace Term

/-- An occurrence of a variable behind quantifiers with the given variables. -/
def namelessVar (scope : List String) (x : String) : NamelessTerm :=
  match scope.idxOf? x with
  | some index => .bound index
  | none => .free x

mutual
/-- The nameless form of a term. -/
def nameless (scope : List String) : Term → NamelessTerm
  | .var x => namelessVar scope x
  | .const c => .const c
  | .func f args => .func f (namelessList scope args)
  | .eq s t => .eq (nameless scope s) (nameless scope t)
  | .pred p args => .pred p (namelessList scope args)
  | .not t => .not (nameless scope t)
  | .binary op s t => .binary op (nameless scope s) (nameless scope t)
  | .quant q x t => .quant q x (nameless scope t)
  | .bound x => .inner x
/-- The nameless forms of an argument list. -/
def namelessList (scope : List String) : List Term → List NamelessTerm
  | [] => []
  | t :: ts => nameless scope t :: namelessList scope ts
end

@[simp] theorem nameless_var (scope : List String) (x : String) :
    nameless scope (.var x) = namelessVar scope x := rfl
@[simp] theorem nameless_const (scope : List String) (c : String) :
    nameless scope (.const c) = .const c := rfl
@[simp] theorem nameless_func (scope : List String) (f : String) (args : List Term) :
    nameless scope (.func f args) = .func f (namelessList scope args) := rfl
@[simp] theorem nameless_eq (scope : List String) (s t : Term) :
    nameless scope (.eq s t) = .eq (nameless scope s) (nameless scope t) := rfl
@[simp] theorem nameless_pred (scope : List String) (p : String) (args : List Term) :
    nameless scope (.pred p args) = .pred p (namelessList scope args) := rfl
@[simp] theorem nameless_not (scope : List String) (t : Term) :
    nameless scope (.not t) = .not (nameless scope t) := rfl
@[simp] theorem nameless_binary (scope : List String) (op : Connective) (s t : Term) :
    nameless scope (.binary op s t) = .binary op (nameless scope s) (nameless scope t) := rfl
@[simp] theorem nameless_quant (scope : List String) (q : Quantifier) (x : String) (t : Term) :
    nameless scope (.quant q x t) = .quant q x (nameless scope t) := rfl
@[simp] theorem nameless_bound (scope : List String) (x : String) :
    nameless scope (.bound x) = .inner x := rfl
@[simp] theorem namelessList_nil (scope : List String) : namelessList scope [] = [] := rfl
@[simp] theorem namelessList_cons (scope : List String) (t : Term) (ts : List Term) :
    namelessList scope (t :: ts) = nameless scope t :: namelessList scope ts := rfl

end Term

namespace Formula

/-- The nameless form of a formula behind quantifiers with the given variables. -/
def nameless : Formula → List String → Nameless
  | .pred p args, scope => .pred p (Term.namelessList scope args)
  | .eq s t, scope => .eq (s.nameless scope) (t.nameless scope)
  | .not f, scope => .not (f.nameless scope)
  | .binary op f g, scope => .binary op (f.nameless scope) (g.nameless scope)
  | .quant q x f, scope => .quant q (f.nameless (x :: scope))

/-- The formulas differ in the names of bound variables only. -/
def AlphaEquivalent (f g : Formula) : Prop := f.nameless [] = g.nameless []

@[simp] theorem nameless_pred (p : String) (args : List Term) (scope : List String) :
    (pred p args).nameless scope = .pred p (Term.namelessList scope args) := rfl
@[simp] theorem nameless_eq (s t : Term) (scope : List String) :
    (eq s t).nameless scope = .eq (s.nameless scope) (t.nameless scope) := rfl
@[simp] theorem nameless_not (f : Formula) (scope : List String) :
    (not f).nameless scope = .not (f.nameless scope) := rfl
@[simp] theorem nameless_binary (op : Connective) (f g : Formula) (scope : List String) :
    (binary op f g).nameless scope = .binary op (f.nameless scope) (g.nameless scope) := rfl
@[simp] theorem nameless_quant (q : Quantifier) (x : String) (f : Formula) (scope : List String) :
    (quant q x f).nameless scope = .quant q (f.nameless (x :: scope)) := rfl

end Formula

end LogicForms
