import LogicForms.Term

/-!
# Substitution in terms

A substitution is a finite map from variables to terms, and it is applied to all variables of a
term at once. In a term nothing has to be renamed or left out: what a quantifier in argument
position binds is no variable any more.
-/

set_option autoImplicit false

namespace LogicForms

/-- A finite map from variables to terms. The first entry for a variable counts. -/
abbrev Substitution := List (String × Term)

namespace Substitution

/-- The term for a variable, if the substitution has one. -/
def find? (σ : Substitution) (x : String) : Option Term := σ.lookup x

/-- The substitution that is written down entry by entry, where a later entry for a variable
replaces an earlier one. -/
def ofEntries (entries : List (String × Term)) : Substitution := entries.reverse

/-- The substitution without its entries for `x`. -/
def without (σ : Substitution) (x : String) : Substitution := σ.filter fun entry => entry.1 != x

/-- An entry that a substitution finds is one of its entries. -/
theorem mem_of_find? {σ : Substitution} {x : String} {u : Term} (h : find? σ x = some u) :
    (x, u) ∈ σ := by
  induction σ with
  | nil => simp [find?] at h
  | cons e σ ih =>
    obtain ⟨y, w⟩ := e
    by_cases hxy : x = y
    · subst hxy
      rw [find?, List.lookup_cons_self] at h
      simp [Option.some.inj h]
    · have hrest : find? σ x = some u := by
        have hne : (x == y) = false := by simpa using hxy
        rw [find?, List.lookup_cons, hne] at h
        exact h
      exact List.mem_cons_of_mem _ (ih hrest)

end Substitution

namespace Term

mutual
/-- Simultaneous substitution: every variable of `σ` is replaced by its term. -/
def subst (σ : Substitution) : Term → Term
  | .var x => (σ.find? x).getD (.var x)
  | .const c => .const c
  | .func f args => .func f (substList σ args)
  | .eq s t => .eq (subst σ s) (subst σ t)
  | .pred p args => .pred p (substList σ args)
  | .not t => .not (subst σ t)
  | .binary op s t => .binary op (subst σ s) (subst σ t)
  | .quant q x t => .quant q x (subst σ t)
  | .bound x => .bound x
/-- Simultaneous substitution in an argument list. -/
def substList (σ : Substitution) : List Term → List Term
  | [] => []
  | t :: ts => subst σ t :: substList σ ts
end

@[simp] theorem subst_var (σ : Substitution) (x : String) :
    subst σ (.var x) = (σ.find? x).getD (.var x) := rfl
@[simp] theorem subst_const (σ : Substitution) (c : String) : subst σ (.const c) = .const c := rfl
@[simp] theorem subst_func (σ : Substitution) (f : String) (args : List Term) :
    subst σ (.func f args) = .func f (substList σ args) := rfl
@[simp] theorem subst_eq (σ : Substitution) (s t : Term) :
    subst σ (.eq s t) = .eq (subst σ s) (subst σ t) := rfl
@[simp] theorem subst_pred (σ : Substitution) (p : String) (args : List Term) :
    subst σ (.pred p args) = .pred p (substList σ args) := rfl
@[simp] theorem subst_not (σ : Substitution) (t : Term) :
    subst σ (.not t) = .not (subst σ t) := rfl
@[simp] theorem subst_binary (σ : Substitution) (op : Connective) (s t : Term) :
    subst σ (.binary op s t) = .binary op (subst σ s) (subst σ t) := rfl
@[simp] theorem subst_quant (σ : Substitution) (q : Quantifier) (x : String) (t : Term) :
    subst σ (.quant q x t) = .quant q x (subst σ t) := rfl
@[simp] theorem subst_bound (σ : Substitution) (x : String) : subst σ (.bound x) = .bound x := rfl
@[simp] theorem substList_nil (σ : Substitution) : substList σ [] = [] := rfl
@[simp] theorem substList_cons (σ : Substitution) (t : Term) (ts : List Term) :
    substList σ (t :: ts) = subst σ t :: substList σ ts := rfl

/-- Substitution in an argument list works member by member. -/
theorem substList_eq_map (σ : Substitution) (ts : List Term) :
    substList σ ts = ts.map (subst σ) := by
  induction ts with
  | nil => rfl
  | cons t ts ih => simp [ih]

end Term

end LogicForms
