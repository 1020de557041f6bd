import LogicForms.Operator

/-!
# First-order terms

Terms over an uninterpreted signature: variables, constants, and function symbols applied to a
list of arguments. An equation between two terms may stand wherever an argument stands, and any
other formula may be an argument of a function symbol. In argument position a formula is a term
like any other, with its parts in it: no pass over formulas looks inside it for connectives.

A constant `f`, a function symbol `f` without arguments, a predicate symbol `f` without arguments,
and a variable `f` are four different terms.

A quantifier in argument position takes its variable out of the play altogether: what it binds is
written with `Term.bound`, which is no occurrence of a variable, so that nothing is substituted for
it. Everything else treats all terms alike.

## What this module holds

* `Term`, its induction principle `Term.rec'` through argument lists, and decidable equality;
* the tests `Term.isEquation`, `Term.isBinary` and `Term.isCompound`;
* `Term.vars` and `Term.symbols`, the occurrences of variables and of all names from left to right.
-/

set_option autoImplicit false

namespace LogicForms

/-- A first-order term, or a formula in argument position. -/
inductive Term where
  /-- A variable. -/
  | var (name : String)
  /-- A constant symbol. -/
  | const (name : String)
  /-- A function symbol with a list of arguments, which may be empty. -/
  | func (name : String) (args : List Term)
  /-- An equation that stands where an argument is expected. -/
  | eq (lhs rhs : Term)
  /-- A predicate symbol with its arguments, in argument position. -/
  | pred (name : String) (args : List Term)
  /-- A negation in argument position. -/
  | not (arg : Term)
  /-- A binary connective with its two operands, in argument position. -/
  | binary (op : Connective) (lhs rhs : Term)
  /-- A quantifier with its variable and its scope, in argument position. -/
  | quant (q : Quantifier) (x : String) (scope : Term)
  /-- A variable that is bound by a quantifier in argument position. -/
  | bound (name : String)
  deriving Inhabited

namespace Term

/-- Induction over terms that gives, for a symbol with arguments, the hypothesis on every
argument. -/
@[elab_as_elim]
theorem rec' {motive : Term → Prop}
    (hvar : ∀ x, motive (.var x))
    (hconst : ∀ c, motive (.const c))
    (hfunc : ∀ f args, (∀ t ∈ args, motive t) → motive (.func f args))
    (heq : ∀ s t, motive s → motive t → motive (.eq s t))
    (hpred : ∀ p args, (∀ t ∈ args, motive t) → motive (.pred p args))
    (hnot : ∀ t, motive t → motive (.not t))
    (hbinary : ∀ op s t, motive s → motive t → motive (.binary op s t))
    (hquant : ∀ q x t, motive t → motive (.quant q x t))
    (hbound : ∀ x, motive (.bound x)) :
    ∀ t, motive t := by
  intro t
  apply Term.rec (motive_1 := motive) (motive_2 := fun args => ∀ t ∈ args, motive t)
    hvar hconst hfunc heq hpred hnot hbinary hquant hbound
  · simp
  · intro t ts ht hts u hu
    rcases List.mem_cons.1 hu with rfl | hu
    · exact ht
    · exact hts u hu

/-! ### Equality -/

mutual
/-- Are the terms equal, node by node? -/
def beq : Term → Term → Bool
  | .var x, .var y => x == y
  | .const c, .const d => c == d
  | .func f args, .func g args' => f == g && beqList args args'
  | .eq s t, .eq s' t' => beq s s' && beq t t'
  | .pred p args, .pred r args' => p == r && beqList args args'
  | .not t, .not t' => beq t t'
  | .binary op s t, .binary op' s' t' => op == op' && beq s s' && beq t t'
  | .quant q x t, .quant q' x' t' => q == q' && x == x' && beq t t'
  | .bound x, .bound y => x == y
  | _, _ => false
/-- Are the argument lists equal, argument by argument? -/
def beqList : List Term → List Term → Bool
  | [], [] => true
  | s :: ss, t :: ts => beq s t && beqList ss ts
  | _, _ => false
end

/-- The test on argument lists decides equality if it does so for the arguments of the first. -/
theorem beqList_iff {ss : List Term} (h : ∀ s ∈ ss, ∀ t, beq s t = true ↔ s = t)
    (ts : List Term) : beqList ss ts = true ↔ ss = ts := by
  induction ss generalizing ts with
  | nil => cases ts <;> simp [beqList]
  | cons s ss ih =>
    cases ts with
    | nil => simp [beqList]
    | cons t ts =>
      have hs : beq s t = true ↔ s = t := h s (by simp) t
      have hss : beqList ss ts = true ↔ ss = ts := ih (fun u hu => h u (by simp [hu])) ts
      simp [beqList, hs, hss]

/-- The test decides equality. -/
theorem beq_iff (s t : Term) : beq s t = true ↔ s = t := by
  induction s using rec' generalizing t with
  | hvar x => cases t <;> simp [beq]
  | hconst c => cases t <;> simp [beq]
  | hfunc f args ih => cases t <;> simp [beq, beqList_iff ih]
  | heq s u ihs ihu => cases t <;> simp [beq, ihs, ihu]
  | hpred p args ih => cases t <;> simp [beq, beqList_iff ih]
  | hnot s ih => cases t <;> simp [beq, ih]
  | hbinary op s u ihs ihu => cases t <;> simp [beq, ihs, ihu, and_assoc]
  | hquant q x s ih => cases t <;> simp [beq, ih, and_assoc]
  | hbound x => cases t <;> simp [beq]

instance : DecidableEq Term := fun s t => decidable_of_iff (beq s t = true) (beq_iff s t)

/-! ### Kinds of terms -/

/-- The name of a variable or of a symbol; an operator has none. -/
def name? : Term → Option String
  | .var x => some x
  | .const c => some c
  | .func f _ => some f
  | .eq _ _ => none
  | .pred p _ => some p
  | .not _ => none
  | .binary _ _ _ => none
  | .quant _ _ _ => none
  | .bound x => some x

/-- Is the term an equation in argument position? -/
def isEquation : Term → Bool
  | .eq _ _ => true
  | _ => false

/-- Is the term a binary connective in argument position? -/
def isBinary : Term → Bool
  | .binary _ _ _ => true
  | _ => false

/-- Is the term a formula other than an equation, in argument position? -/
def isCompound : Term → Bool
  | .pred _ _ => true
  | .not _ => true
  | .binary _ _ _ => true
  | .quant _ _ _ => true
  | _ => false

/-! ### Occurrences -/

mutual
/-- The occurrences of variables, from left to right. -/
def vars : Term → List String
  | .var x => [x]
  | .const _ => []
  | .func _ args => varsList args
  | .eq s t => vars s ++ vars t
  | .pred _ args => varsList args
  | .not t => vars t
  | .binary _ s t => vars s ++ vars t
  | .quant _ _ t => vars t
  | .bound _ => []
/-- The occurrences of variables in an argument list. -/
def varsList : List Term → List String
  | [] => []
  | t :: ts => vars t ++ varsList ts
end

@[simp] theorem vars_var (x : String) : vars (.var x) = [x] := rfl
@[simp] theorem vars_const (c : String) : vars (.const c) = [] := rfl
@[simp] theorem vars_func (f : String) (args : List Term) : vars (.func f args) = varsList args :=
  rfl
@[simp] theorem vars_eq (s t : Term) : vars (.eq s t) = vars s ++ vars t := rfl
@[simp] theorem vars_pred (p : String) (args : List Term) : vars (.pred p args) = varsList args :=
  rfl
@[simp] theorem vars_not (t : Term) : vars (.not t) = vars t := rfl
@[simp] theorem vars_binary (op : Connective) (s t : Term) :
    vars (.binary op s t) = vars s ++ vars t := rfl
@[simp] theorem vars_quant (q : Quantifier) (x : String) (t : Term) :
    vars (.quant q x t) = vars t := rfl
@[simp] theorem vars_bound (x : String) : vars (.bound x) = [] := rfl
@[simp] theorem varsList_nil : varsList [] = [] := rfl
@[simp] theorem varsList_cons (t : Term) (ts : List Term) :
    varsList (t :: ts) = vars t ++ varsList ts := rfl

/-- The variables of an argument list are those of its members, in order. -/
theorem varsList_eq_flatMap (ts : List Term) : varsList ts = ts.flatMap vars := by
  induction ts with
  | nil => rfl
  | cons t ts ih => simp [ih]

mutual
/-- The occurrences of names of any kind, from left to right. -/
def symbols : Term → List String
  | .var x => [x]
  | .const c => [c]
  | .func f args => f :: symbolsList args
  | .eq s t => symbols s ++ symbols t
  | .pred p args => p :: symbolsList args
  | .not t => symbols t
  | .binary _ s t => symbols s ++ symbols t
  | .quant _ x t => x :: symbols t
  | .bound x => [x]
/-- The occurrences of names in an argument list. -/
def symbolsList : List Term → List String
  | [] => []
  | t :: ts => symbols t ++ symbolsList ts
end

@[simp] theorem symbols_var (x : String) : symbols (.var x) = [x] := rfl
@[simp] theorem symbols_const (c : String) : symbols (.const c) = [c] := rfl
@[simp] theorem symbols_func (f : String) (args : List Term) :
    symbols (.func f args) = f :: symbolsList args := rfl
@[simp] theorem symbols_eq (s t : Term) : symbols (.eq s t) = symbols s ++ symbols t := rfl
@[simp] theorem symbols_pred (p : String) (args : List Term) :
    symbols (.pred p args) = p :: symbolsList args := rfl
@[simp] theorem symbols_not (t : Term) : symbols (.not t) = symbols t := rfl
@[simp] theorem symbols_binary (op : Connective) (s t : Term) :
    symbols (.binary op s t) = symbols s ++ symbols t := rfl
@[simp] theorem symbols_quant (q : Quantifier) (x : String) (t : Term) :
    symbols (.quant q x t) = x :: symbols t := rfl
@[simp] theorem symbols_bound (x : String) : symbols (.bound x) = [x] := rfl
@[simp] theorem symbolsList_nil : symbolsList [] = [] := rfl
@[simp] theorem symbolsList_cons (t : Term) (ts : List Term) :
    symbolsList (t :: ts) = symbols t ++ symbolsList ts := rfl

/-- The names of an argument list are those of its members, in order. -/
theorem symbolsList_eq_flatMap (ts : List Term) : symbolsList ts = ts.flatMap symbols := by
  induction ts with
  | nil => rfl
  | cons t ts ih => simp [ih]

end Term

end LogicForms
