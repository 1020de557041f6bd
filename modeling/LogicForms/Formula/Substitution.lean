import LogicForms.Formula
import LogicForms.Term.Substitution

/-!
# Substitution in formulas

Terms are substituted for the free occurrences of variables, all at once. A quantifier takes its
own variable out of the substitution for its scope. Nothing is renamed: a variable of a substituted
term can become bound by a quantifier around the place where it lands, and callers choose names
for which this does not happen.
-/

set_option autoImplicit false

namespace LogicForms

namespace Formula

/-- Simultaneous substitution of terms for the free occurrences of variables. -/
def subst (σ : Substitution) : Formula → Formula
  | .pred p args => .pred p (Term.substList σ args)
  | .eq s t => .eq (s.subst σ) (t.subst σ)
  | .not f => .not (f.subst σ)
  | .binary op f g => .binary op (f.subst σ) (g.subst σ)
  | .quant q x f => .quant q x (f.subst (σ.without x))

-- The quantified variable is not replaced, and a variable in a substituted term can be captured.
example :
    subst [("x", .const "A"), ("y", .func "g" [.var "x"])]
        (and (pred "P" [.var "x"]) (ex "x" (pred "Q" [.var "x", .var "y"])))
      = and (pred "P" [.const "A"])
          (ex "x" (pred "Q" [.var "x", .func "g" [.var "x"]])) := by decide

@[simp] theorem subst_pred (σ : Substitution) (p : String) (args : List Term) :
    subst σ (.pred p args) = .pred p (Term.substList σ args) := rfl
@[simp] theorem subst_eq (σ : Substitution) (s t : Term) :
    subst σ (.eq s t) = .eq (s.subst σ) (t.subst σ) := rfl
@[simp] theorem subst_not (σ : Substitution) (f : Formula) :
    subst σ (.not f) = .not (f.subst σ) := rfl
@[simp] theorem subst_binary (σ : Substitution) (op : Connective) (f g : Formula) :
    subst σ (.binary op f g) = .binary op (f.subst σ) (g.subst σ) := rfl
@[simp] theorem subst_quant (σ : Substitution) (q : Quantifier) (x : String) (f : Formula) :
    subst σ (.quant q x f) = .quant q x (f.subst (σ.without x)) := rfl

/-- Substitution puts terms into atoms and does not change how operators are nested. -/
@[simp] theorem depth_subst (σ : Substitution) (f : Formula) : (f.subst σ).depth = f.depth := by
  induction f generalizing σ with
  | pred p args => rfl
  | eq s t => rfl
  | not f ih => rw [subst_not, depth_not, depth_not, ih]
  | binary op f g ihf ihg => rw [subst_binary, depth_binary, depth_binary, ihf, ihg]
  | quant q x f ih => rw [subst_quant, depth_quant, depth_quant, ih]

end Formula

end LogicForms
