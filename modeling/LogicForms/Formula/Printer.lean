import LogicForms.Formula.Argument
import LogicForms.Term.Printer

/-!
# Printed forms of formulas

A formula has three printed forms, which are those of the formula as a term: `Formula.text` in the
symbols of logic, `Formula.explicitText` with each operator named, and `Formula.sexpr` with every
node named. The equations below say how they are made up of the printed forms of the parts.
-/

set_option autoImplicit false

namespace LogicForms

namespace Formula

/-- How tightly the outermost operator binds. Everything but a binary connective binds more tightly
than all of them. -/
def precedence (f : Formula) : Nat := f.toTerm.precedence

/-- The printed form: `∀x (P(x) → ∃y R(x, y))`. -/
def text (f : Formula) : String := f.toTerm.text

-- A conjunction on the right of a conjunction needs parentheses, one on the left does not.
example : text (.and (.and (.pred "A" []) (.pred "B" [])) (.pred "C" [])) = "A ∧ B ∧ C" ∧
    text (.and (.pred "A" []) (.and (.pred "B" []) (.pred "C" []))) = "A ∧ (B ∧ C)" := by decide

/-- Constructor notation: `Forall(x, Implies(P(x), Exists(y, R(x, y))))`. -/
def explicitText (f : Formula) : String := f.toTerm.explicitText

/-- The form in which every node is named: `(Forall x (Pred P (Var x)))`. -/
def sexpr (f : Formula) : String := f.toTerm.sexpr

@[simp] theorem text_pred (p : String) (args : List Term) :
    text (.pred p args) = Term.predText p (Term.textList args) := rfl
@[simp] theorem text_eq (s t : Term) : text (.eq s t) = s.text ++ " = " ++ t.text := rfl
@[simp] theorem text_not (f : Formula) :
    text (.not f) = "¬" ++ Term.parenthesized (f.isBinary || f.isEquation) f.text := by
  simp [text]
@[simp] theorem text_binary (op : Connective) (f g : Formula) :
    text (.binary op f g) =
      Term.parenthesized (f.precedence < op.precedence) f.text ++ " " ++ op.symbol.toString ++
        " " ++ Term.parenthesized (g.precedence ≤ op.precedence) g.text := rfl
@[simp] theorem text_quant (q : Quantifier) (x : String) (f : Formula) :
    text (.quant q x f) =
      q.symbol.toString ++ x ++ " " ++ Term.parenthesized f.isBinary f.text := by
  simp [text]

@[simp] theorem explicitText_pred (p : String) (args : List Term) :
    explicitText (.pred p args) = text (.pred p args) := rfl
@[simp] theorem explicitText_eq (s t : Term) :
    explicitText (.eq s t) = text (.eq s t) := rfl
@[simp] theorem explicitText_not (f : Formula) :
    explicitText (.not f) = "Not(" ++ f.explicitText ++ ")" := rfl
@[simp] theorem explicitText_binary (op : Connective) (f g : Formula) :
    explicitText (.binary op f g) =
      op.title ++ "(" ++ f.explicitText ++ ", " ++ g.explicitText ++ ")" := rfl
@[simp] theorem explicitText_quant (q : Quantifier) (x : String) (f : Formula) :
    explicitText (.quant q x f) = q.title ++ "(" ++ x ++ ", " ++ f.explicitText ++ ")" := rfl

end Formula

end LogicForms
