import LogicForms.Formula.Occurrences
import LogicForms.Formula.Substitution
import LogicForms.Forms.Negation
import LogicForms.NameSupply
import LogicForms.Prefix

/-!
# Prenex normal form

A prenex formula has all its quantifiers in front. A formula is brought into this form in three
steps: negation normal form, bound variables renamed apart, and quantifiers moved to the front in
the order in which they stand in the formula.

Renaming apart keeps a quantified variable at its first quantifier, unless the variable also occurs
free, and gives it a fresh name at all later ones. The variables to be avoided and the names in use
are carried from left to right through the formula. A renamed variable is replaced in its whole
scope before the scope is treated.

## What this module holds

* `Formula.renameApart` and `Formula.standardizeApart`;
* `Formula.extract`, which moves the quantifiers to the front and reports the first subformula that
  is not in negation normal form;
* `Formula.prenex`.
-/

set_option autoImplicit false

namespace LogicForms

/-! ### Renaming apart -/

/-- What renaming apart carries along: the variables that later quantifiers must not bind, and the
names in use. -/
structure Avoiding where
  /-- The free variables and the variables of all quantifiers so far. -/
  taken : List String
  /-- The supply of fresh names. -/
  names : NameSupply
  deriving DecidableEq, Repr, Inhabited

/-- A subformula that must not occur in negation normal form: an implication, an equivalence, or a
negation of anything but an atom. -/
structure NotNnf where
  /-- The subformula. -/
  offender : Formula
  deriving DecidableEq, Inhabited

/-- The message shows the subformula. -/
def NotNnf.message (e : NotNnf) : String :=
  "expecting a formula in NNF; " ++ e.offender.text ++ " is not"

namespace Formula

/-- Give each quantifier a variable of its own: its variable `x` stays if it is not taken, and is
replaced in the scope by a fresh variable made from it otherwise. The variable that the quantifier
ends up with is taken afterwards. -/
def renameApart : Formula → Avoiding → Formula × Avoiding
  | .pred p args, s => (.pred p args, s)
  | .eq t u, s => (.eq t u, s)
  | .not f, s =>
    let (f', s') := f.renameApart s
    (.not f', s')
  | .binary op f g, s =>
    let (f', s') := f.renameApart s
    let (g', s'') := g.renameApart s'
    (.binary op f' g', s'')
  | .quant q x f, s =>
    if s.taken.contains x then
      -- quantifiers further inside still have their old variables, which may be `x` again
      let (y, names) := s.names.freshVariable x
      let (f', s') := (f.subst [(x, .var y)]).renameApart ⟨y :: s.taken, names⟩
      (.quant q y f', s')
    else
      let (f', s') := f.renameApart ⟨x :: s.taken, s.names⟩
      (.quant q x f', s')
termination_by f => f.depth
decreasing_by all_goals (simp only [depth_not, depth_binary, depth_quant, depth_subst]; omega)

/-- Rename bound variables such that each quantifier binds a variable of its own, which does not
occur free. All names of the formula are marked as used first. -/
def standardizeApart (f : Formula) (names : NameSupply) : Formula × NameSupply :=
  let (g, s) := f.renameApart ⟨f.freeVars, names.declare f.symbols⟩
  (g, s.names)

/-! ### Moving quantifiers to the front -/

/-- The quantifiers of the formula, from left to right, and the formula without them. -/
def extract : Formula → Except NotNnf (Prefix × Formula)
  | .pred p args => .ok ([], .pred p args)
  | .eq s t => .ok ([], .eq s t)
  | .not f => if f.isAtomic then .ok ([], .not f) else .error ⟨.not f⟩
  | .binary .iff f g => .error ⟨.binary .iff f g⟩
  | .binary .implies f g => .error ⟨.binary .implies f g⟩
  | .binary op f g => do
    let (p, m) ← f.extract
    let (p', m') ← g.extract
    return (p ++ p', .binary op m m')
  | .quant q x f => do
    let (p, m) ← f.extract
    return (⟨q, x⟩ :: p, m)

/-- The prenex form of a formula whose quantifiers bind different variables. -/
def withQuantifiersInFront (f : Formula) : Except NotNnf Formula := do
  let (p, m) ← f.extract
  return m.quantify p

/-- The prenex form of a formula. If `isNnf`, the formula is taken to be in negation normal form
already. The supply has the names of the renamed formula also if moving quantifiers fails. -/
def prenex (f : Formula) (names : NameSupply) (isNnf : Bool) :
    Except NotNnf Formula × NameSupply :=
  let (g, names) := (if isNnf then f else f.nnf false).standardizeApart names
  (g.withQuantifiersInFront, names)

end Formula

end LogicForms
