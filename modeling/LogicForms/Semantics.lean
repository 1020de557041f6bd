import LogicForms.Formula.Substitution

/-!
# Structures and truth

A structure interprets the names of an uninterpreted signature over a domain: constants by name, and
function and predicate symbols by name and list of arguments. An equation that stands for a formula
is equality in the domain. A formula in argument position has a value like any other argument, which
need not have to do with its truth; the structure gives an operation for each of its operators.

## What this module holds

* `Structure`, `Valuation`, and `Term.value`, the value of a term;
* `Formula.Holds`, truth of a formula in a structure under a valuation;
* `Formula.Equivalent` and `Formula.Satisfiable`, over structures with a non-empty domain.
-/

set_option autoImplicit false

namespace LogicForms

universe u

/-! ### Structures -/

/-- An interpretation of all names over the domain `D`. -/
structure Structure (D : Type u) where
  /-- The values of constants. -/
  const : String → D
  /-- The values of function symbols for arguments. -/
  func : String → List D → D
  /-- The value of an equation in argument position. -/
  equation : D → D → D
  /-- The value of a predicate symbol with its arguments, in argument position. -/
  predicate : String → List D → D
  /-- The value of a negation in argument position. -/
  negation : D → D
  /-- The value of a binary connective in argument position. -/
  connective : Connective → D → D → D
  /-- The value of a quantifier in argument position. -/
  quantifier : Quantifier → String → D → D
  /-- The value of a variable that is bound by a quantifier in argument position. -/
  bound : String → D
  /-- The lists of arguments for which a predicate symbol is true. -/
  rel : String → List D → Prop

/-- Values for all variables. -/
abbrev Valuation (D : Type u) := String → D

/-- The valuation with another value for one variable. -/
def Valuation.update {D : Type u} (v : Valuation D) (x : String) (d : D) : Valuation D :=
  fun y => if y = x then d else v y

@[simp] theorem Valuation.update_self {D : Type u} (v : Valuation D) (x : String) (d : D) :
    v.update x d x = d := by
  simp [update]

theorem Valuation.update_of_ne {D : Type u} (v : Valuation D) {x y : String} (d : D) (h : y ≠ x) :
    v.update x d y = v y := by
  simp [update, h]

/-! ### Values of terms -/

namespace Term

variable {D : Type u}

mutual
/-- The value of a term. -/
def value (M : Structure D) (v : Valuation D) : Term → D
  | .var x => v x
  | .const c => M.const c
  | .func f args => M.func f (valueList M v args)
  | .eq s t => M.equation (value M v s) (value M v t)
  | .pred p args => M.predicate p (valueList M v args)
  | .not t => M.negation (value M v t)
  | .binary op s t => M.connective op (value M v s) (value M v t)
  | .quant q x t => M.quantifier q x (value M v t)
  | .bound x => M.bound x
/-- The values of an argument list. -/
def valueList (M : Structure D) (v : Valuation D) : List Term → List D
  | [] => []
  | t :: ts => value M v t :: valueList M v ts
end

@[simp] theorem value_var (M : Structure D) (v : Valuation D) (x : String) :
    value M v (.var x) = v x := rfl
@[simp] theorem value_const (M : Structure D) (v : Valuation D) (c : String) :
    value M v (.const c) = M.const c := rfl
@[simp] theorem value_func (M : Structure D) (v : Valuation D) (f : String) (args : List Term) :
    value M v (.func f args) = M.func f (valueList M v args) := rfl
@[simp] theorem value_eq (M : Structure D) (v : Valuation D) (s t : Term) :
    value M v (.eq s t) = M.equation (value M v s) (value M v t) := rfl
@[simp] theorem value_pred (M : Structure D) (v : Valuation D) (p : String) (args : List Term) :
    value M v (.pred p args) = M.predicate p (valueList M v args) := rfl
@[simp] theorem value_not (M : Structure D) (v : Valuation D) (t : Term) :
    value M v (.not t) = M.negation (value M v t) := rfl
@[simp] theorem value_binary (M : Structure D) (v : Valuation D) (op : Connective) (s t : Term) :
    value M v (.binary op s t) = M.connective op (value M v s) (value M v t) := rfl
@[simp] theorem value_quant (M : Structure D) (v : Valuation D) (q : Quantifier) (x : String)
    (t : Term) : value M v (.quant q x t) = M.quantifier q x (value M v t) := rfl
@[simp] theorem value_bound (M : Structure D) (v : Valuation D) (x : String) :
    value M v (.bound x) = M.bound x := rfl
@[simp] theorem valueList_nil (M : Structure D) (v : Valuation D) : valueList M v [] = [] := rfl
@[simp] theorem valueList_cons (M : Structure D) (v : Valuation D) (t : Term) (ts : List Term) :
    valueList M v (t :: ts) = value M v t :: valueList M v ts := rfl

/-- An argument list is evaluated member by member. -/
theorem valueList_eq_map (M : Structure D) (v : Valuation D) (ts : List Term) :
    valueList M v ts = ts.map (value M v) := by
  induction ts with
  | nil => rfl
  | cons t ts ih => simp [ih]

end Term

/-! ### Truth of formulas -/

/-- Truth of a connective for the truth of its arguments. -/
def Connective.Holds : Connective → Prop → Prop → Prop
  | .and, a, b => a ∧ b
  | .or, a, b => a ∨ b
  | .implies, a, b => a → b
  | .iff, a, b => a ↔ b

/-- Truth of a quantifier over the domain. -/
def Quantifier.Holds {D : Type u} : Quantifier → (D → Prop) → Prop
  | .universal, p => ∀ d, p d
  | .existential, p => ∃ d, p d

namespace Formula

variable {D : Type u}

/-- Truth of a formula in a structure under a valuation. -/
def Holds (M : Structure D) : Formula → Valuation D → Prop
  | .pred p args, v => M.rel p (Term.valueList M v args)
  | .eq s t, v => s.value M v = t.value M v
  | .not f, v => ¬ f.Holds M v
  | .binary op f g, v => op.Holds (f.Holds M v) (g.Holds M v)
  | .quant q x f, v => q.Holds fun d => f.Holds M (v.update x d)

/-- Two formulas are true together in every structure with a non-empty domain under every
valuation. -/
def Equivalent (f g : Formula) : Prop :=
  ∀ (D : Type u) [Nonempty D] (M : Structure D) (v : Valuation D), f.Holds M v ↔ g.Holds M v

/-- The formula is true in some structure with a non-empty domain under some valuation. -/
def Satisfiable (f : Formula) : Prop :=
  ∃ (D : Type u) (_ : Nonempty D) (M : Structure D) (v : Valuation D), f.Holds M v

section

variable (M : Structure D) (v : Valuation D)

@[simp] theorem holds_pred (p : String) (args : List Term) :
    (pred p args).Holds M v = M.rel p (Term.valueList M v args) := rfl
@[simp] theorem holds_eq (s t : Term) : (eq s t).Holds M v = (s.value M v = t.value M v) := rfl
@[simp] theorem holds_not (f : Formula) : (not f).Holds M v = ¬ f.Holds M v := rfl
@[simp] theorem holds_and (f g : Formula) :
    (binary .and f g).Holds M v = (f.Holds M v ∧ g.Holds M v) := rfl
@[simp] theorem holds_or (f g : Formula) :
    (binary .or f g).Holds M v = (f.Holds M v ∨ g.Holds M v) := rfl
@[simp] theorem holds_implies (f g : Formula) :
    (binary .implies f g).Holds M v = (f.Holds M v → g.Holds M v) := rfl
@[simp] theorem holds_iff (f g : Formula) :
    (binary .iff f g).Holds M v = (f.Holds M v ↔ g.Holds M v) := rfl
@[simp] theorem holds_all (x : String) (f : Formula) :
    (quant .universal x f).Holds M v = ∀ d, f.Holds M (v.update x d) := rfl
@[simp] theorem holds_ex (x : String) (f : Formula) :
    (quant .existential x f).Holds M v = ∃ d, f.Holds M (v.update x d) := rfl

end

/-- Equivalence passes through a formula in the middle. -/
theorem Equivalent.trans {f g k : Formula} (h : Equivalent.{u} f g) (h' : Equivalent.{u} g k) :
    Equivalent.{u} f k :=
  fun D _ M v => (h D M v).trans (h' D M v)

end Formula

end LogicForms
