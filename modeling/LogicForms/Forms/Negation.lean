import LogicForms.Formula

/-!
# Negation normal form

A formula is in negation normal form if negations stand at atoms only and there are no implications
and equivalences. `Formula.nnf` brings a formula, or its negation, into this form by pushing
negations inward; a negation in front of a connective or a quantifier turns it into its dual.
Implications and equivalences are resolved on the way, an equivalence into the conjunction of both
implications. `Formula.expandArrows` resolves implications and equivalences and keeps everything
else.
-/

set_option autoImplicit false

namespace LogicForms

/-- The connective, or its dual in front of which a negation has been pushed inward. -/
def Connective.under (op : Connective) (negated : Bool) : Connective :=
  if negated then op.dual else op

/-- The quantifier, or its dual in front of which a negation has been pushed inward. -/
def Quantifier.under (q : Quantifier) (negated : Bool) : Quantifier :=
  if negated then q.dual else q

namespace Formula

/-- An atom, or its negation. -/
def literal (atom : Formula) (negated : Bool) : Formula := if negated then .not atom else atom

/-- Resolve implications and equivalences: `A → B` becomes `¬A ∨ B`, and `A ↔ B` becomes
`(¬A ∨ B) ∧ (¬B ∨ A)`. -/
def expandArrows : Formula → Formula
  | .pred p args => .pred p args
  | .eq s t => .eq s t
  | .not f => .not f.expandArrows
  | .binary .iff f g =>
    .and (.or (.not f.expandArrows) g.expandArrows) (.or (.not g.expandArrows) f.expandArrows)
  | .binary .implies f g => .or (.not f.expandArrows) g.expandArrows
  | .binary .and f g => .and f.expandArrows g.expandArrows
  | .binary .or f g => .or f.expandArrows g.expandArrows
  | .quant q x f => .quant q x f.expandArrows

/-- The negation normal form of the formula or, if `negated`, of its negation. -/
def nnf : Formula → (negated : Bool) → Formula
  | .pred p args, negated => literal (.pred p args) negated
  | .eq s t, negated => literal (.eq s t) negated
  | .not f, negated => f.nnf !negated
  | .binary .iff f g, negated =>
    .binary (Connective.and.under negated)
      (.binary (Connective.or.under negated) (f.nnf !negated) (g.nnf negated))
      (.binary (Connective.or.under negated) (g.nnf !negated) (f.nnf negated))
  | .binary .implies f g, negated =>
    .binary (Connective.or.under negated) (f.nnf !negated) (g.nnf negated)
  | .binary .and f g, negated =>
    .binary (Connective.and.under negated) (f.nnf negated) (g.nnf negated)
  | .binary .or f g, negated =>
    .binary (Connective.or.under negated) (f.nnf negated) (g.nnf negated)
  | .quant q x f, negated => .quant (q.under negated) x (f.nnf negated)

/-- Is the formula in negation normal form? -/
def isNnf : Formula → Bool
  | .pred _ _ => true
  | .eq _ _ => true
  | .not f => f.isAtomic
  | .binary .iff _ _ => false
  | .binary .implies _ _ => false
  | .binary .and f g => f.isNnf && g.isNnf
  | .binary .or f g => f.isNnf && g.isNnf
  | .quant _ _ f => f.isNnf

/-- A literal is in negation normal form. -/
theorem isNnf_of_isLiteral {f : Formula} (h : f.isLiteral = true) : f.isNnf = true := by
  cases f <;> simp_all [isNnf]

end Formula

end LogicForms
