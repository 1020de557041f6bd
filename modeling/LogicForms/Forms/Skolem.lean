import LogicForms.Formula.Occurrences
import LogicForms.Formula.Substitution
import LogicForms.NameSupply
import LogicForms.Prefix

/-!
# Skolem form

Each existential quantifier among the leading quantifiers of a formula is removed, and its variable
is replaced in the matrix by a term with a fresh symbol. The arguments of the term are the variables
of the universal quantifiers in front of it; without such quantifiers the term is a constant. The
universal quantifiers stay in their order.
-/

set_option autoImplicit false

namespace LogicForms

/-- The term that stands for an existentially quantified variable behind the given universally
quantified ones. -/
def Term.skolem (name : String) (universals : List String) : Term :=
  match universals with
  | [] => .const name
  | x :: xs => .func name ((x :: xs).map .var)

namespace Formula

/-- Treat the leading quantifiers of `p` one after the other, where `universals` are the variables
of the universal quantifiers treated so far and `f` is the matrix. -/
def skolemizeBehind (universals : List String) :
    Prefix → Formula → NameSupply → Formula × NameSupply
  | [], f, names => (f.quantify (universals.map (Binder.mk .universal)), names)
  | ⟨.universal, x⟩ :: p, f, names => skolemizeBehind (universals ++ [x]) p f names
  | ⟨.existential, x⟩ :: p, f, names =>
    let (name, names) := names.freshSkolem
    skolemizeBehind universals p (f.subst [(x, .skolem name universals)]) names

/-- Remove the leading existential quantifiers in favour of fresh symbols. All names of the formula
are marked as used first. -/
def skolemize (f : Formula) (names : NameSupply) : Formula × NameSupply :=
  skolemizeBehind [] f.leading f.matrix (names.declare f.symbols)

end Formula

end LogicForms
