import LogicForms.Construction.Substitution
import LogicForms.Forms.Prenex
import LogicForms.Forms.Skolem
import LogicForms.Surface.Cursor

/-!
# Passes with checks

Constructors check what they are given: names must not be empty, and the arguments of predicates and
equations must be terms or equations. Most passes put formulas together from formulas only, which
pass every check. There are three places where more is built: names from a text are put into terms
and atoms, a fresh variable takes the place of a bound one, and terms with fresh symbols take the
place of existentially quantified variables.

What is read is put together again by a `Recipe`, from the names in it. The other two passes are
given here with the checks that they make; the first value that is refused ends them.

## What this module holds

* `Term.recipe`, `Formula.recipe` and `Surface.Phrase.recipe`, with the values they should build;
* `Formula.standardizeApartChecked` and `Formula.skolemizeChecked`.
-/

set_option autoImplicit false

namespace LogicForms

/-! ### Putting together again -/

/-- A name as a part of a recipe. -/
def Recipe.name (s : String) : Recipe := .given (.text s)

namespace Term

mutual
/-- How the term is put together from names. -/
def recipe : Term → Recipe
  | .var x => .var (.name x)
  | .const c => .const (.name c)
  | .func f args => .func (.name f) (recipeList args)
  | .eq s t => .eq (recipe s) (recipe t)
  | .pred p args => .pred (.name p) (recipeList args)
  | .not t => .not (recipe t)
  | .binary op s t => .binary op (recipe s) (recipe t)
  | .quant q x t => .quant q (.var (.name x)) (recipe t)
  -- the quantifier around it takes it for a variable as well
  | .bound x => .var (.name x)
/-- How the members of an argument list are put together. -/
def recipeList : List Term → List Recipe
  | [] => []
  | t :: ts => recipe t :: recipeList ts
end

end Term

/-- How the formula is put together from names. -/
def Formula.recipe (f : Formula) : Recipe := f.toTerm.recipe

namespace Surface.Phrase

/-- How the phrase is put together from names. -/
def recipe : Phrase → Recipe
  | .formula f => f.recipe
  | .term t => t.recipe
  | .arguments ts => .sequence (Term.recipeList ts)

/-- The phrase as a value. -/
def datum : Phrase → Datum
  | .formula f => .formula f
  | .term t => .ofTerm t
  | .arguments ts => .sequence (ts.map .ofTerm)

end Surface.Phrase

/-! ### Putting in new terms -/

namespace Formula

/-- Give each quantifier a variable of its own, with a check of every fresh variable and of every
scope in which it has taken the place of another one. -/
def renameApartChecked : Formula → Avoiding → Except ConstructionError (Formula × Avoiding)
  | .pred p args, s => .ok (.pred p args, s)
  | .eq t u, s => .ok (.eq t u, s)
  | .not f, s => do
    let (f', s') ← f.renameApartChecked s
    return (.not f', s')
  | .binary op f g, s => do
    let (f', s') ← f.renameApartChecked s
    let (g', s'') ← g.renameApartChecked s'
    return (.binary op f' g', s'')
  | .quant q x f, s => do
    if s.taken.contains x then
      let (y, names) := s.names.freshVariable x
      let y ← (Datum.text y).toName
      Term.checkArguments (f.subst [(x, .var y)]).toTerm
      let (f', s') ← (f.subst [(x, .var y)]).renameApartChecked ⟨y :: s.taken, names⟩
      return (.quant q y f', s')
    else
      let (f', s') ← f.renameApartChecked ⟨x :: s.taken, s.names⟩
      return (.quant q x f', s')
termination_by f => f.depth
decreasing_by all_goals (simp only [depth_not, depth_binary, depth_quant, depth_subst]; omega)

/-- Rename bound variables such that each quantifier binds a variable of its own, with checks. -/
def standardizeApartChecked (f : Formula) (names : NameSupply) :
    Except ConstructionError (Formula × NameSupply) := do
  let (g, s) ← f.renameApartChecked ⟨f.freeVars, names.declare f.symbols⟩
  return (g, s.names)

/-- Treat the leading quantifiers of `p` one after the other, with a check of every fresh symbol and
of every matrix that a term is put into. -/
def skolemizeBehindChecked (universals : List String) :
    Prefix → Formula → NameSupply → Except ConstructionError (Formula × NameSupply)
  | [], f, names => .ok (f.quantify (universals.map (Binder.mk .universal)), names)
  | ⟨.universal, x⟩ :: p, f, names => skolemizeBehindChecked (universals ++ [x]) p f names
  | ⟨.existential, x⟩ :: p, f, names => do
    let (name, names) := names.freshSkolem
    let name ← (Datum.text name).toName
    let f ← f.substChecked [(x, .skolem name universals)]
    skolemizeBehindChecked universals p f names

/-- Remove the leading existential quantifiers in favour of fresh symbols, with checks. -/
def skolemizeChecked (f : Formula) (names : NameSupply) :
    Except ConstructionError (Formula × NameSupply) :=
  skolemizeBehindChecked [] f.leading f.matrix (names.declare f.symbols)

end Formula

end LogicForms
