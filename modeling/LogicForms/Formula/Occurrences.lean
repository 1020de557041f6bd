import LogicForms.Formula.Argument

/-!
# What occurs in a formula

Lists of occurrences, always from left to right and with repetitions: the atoms, the variables in
them, the free and the bound ones among these, the variables at the quantifiers, and the names of
any kind. An occurrence of a variable in a term is bound if an enclosing quantifier, or the list of
variables given to start with, has that variable, and free otherwise.
-/

set_option autoImplicit false

namespace LogicForms

namespace Formula

/-- The atoms. -/
def atoms : Formula → List Formula
  | .pred p args => [.pred p args]
  | .eq s t => [.eq s t]
  | .not f => f.atoms
  | .binary _ f g => f.atoms ++ g.atoms
  | .quant _ _ f => f.atoms

/-- All occurrences of variables in the atoms. -/
def occurrences : Formula → List String
  | .pred _ args => Term.varsList args
  | .eq s t => s.vars ++ t.vars
  | .not f => f.occurrences
  | .binary _ f g => f.occurrences ++ g.occurrences
  | .quant _ _ f => f.occurrences

/-- The free occurrences of variables, where the variables of `bound` count as bound. -/
def freeVarsIn (bound : List String) : Formula → List String
  | .pred _ args => (Term.varsList args).filter fun x => !bound.contains x
  | .eq s t => (s.vars ++ t.vars).filter fun x => !bound.contains x
  | .not f => f.freeVarsIn bound
  | .binary _ f g => f.freeVarsIn bound ++ g.freeVarsIn bound
  | .quant _ x f => f.freeVarsIn (x :: bound)

/-- The free occurrences of variables. -/
def freeVars (f : Formula) : List String := f.freeVarsIn []

/-- The bound occurrences of variables, where the variables of `bound` count as bound. -/
def boundVarsIn (bound : List String) : Formula → List String
  | .pred _ args => (Term.varsList args).filter fun x => bound.contains x
  | .eq s t => (s.vars ++ t.vars).filter fun x => bound.contains x
  | .not f => f.boundVarsIn bound
  | .binary _ f g => f.boundVarsIn bound ++ g.boundVarsIn bound
  | .quant _ x f => f.boundVarsIn (x :: bound)

/-- The bound occurrences of variables. -/
def boundVars (f : Formula) : List String := f.boundVarsIn []

-- The same variable can occur bound and free in one formula.
example : let f := and (ex "x" (pred "P" [.var "x", .var "y"])) (pred "Q" [.var "x"])
    f.freeVars = ["y", "x"] ∧ f.boundVars = ["x"] := by decide

/-- The variables at the quantifiers. -/
def quantifiedVars : Formula → List String
  | .pred _ _ => []
  | .eq _ _ => []
  | .not f => f.quantifiedVars
  | .binary _ f g => f.quantifiedVars ++ g.quantifiedVars
  | .quant _ x f => x :: f.quantifiedVars

/-- The names of any kind: of variables, also at quantifiers, constants, functions and
predicates. -/
def symbols : Formula → List String
  | .pred p args => p :: Term.symbolsList args
  | .eq s t => s.symbols ++ t.symbols
  | .not f => f.symbols
  | .binary _ f g => f.symbols ++ g.symbols
  | .quant _ x f => x :: f.symbols

/-- Is there no quantifier in the formula? -/
def isQuantifierFree : Formula → Bool
  | .pred _ _ => true
  | .eq _ _ => true
  | .not f => f.isQuantifierFree
  | .binary _ f g => f.isQuantifierFree && g.isQuantifierFree
  | .quant _ _ _ => false

@[simp] theorem occurrences_pred (p : String) (args : List Term) :
    (pred p args).occurrences = Term.varsList args := rfl
@[simp] theorem occurrences_eq (s t : Term) : (eq s t).occurrences = s.vars ++ t.vars := rfl
@[simp] theorem occurrences_not (f : Formula) : (not f).occurrences = f.occurrences := rfl
@[simp] theorem occurrences_binary (op : Connective) (f g : Formula) :
    (binary op f g).occurrences = f.occurrences ++ g.occurrences := rfl
@[simp] theorem occurrences_quant (q : Quantifier) (x : String) (f : Formula) :
    (quant q x f).occurrences = f.occurrences := rfl

@[simp] theorem quantifiedVars_pred (p : String) (args : List Term) :
    (pred p args).quantifiedVars = [] := rfl
@[simp] theorem quantifiedVars_eq (s t : Term) : (eq s t).quantifiedVars = [] := rfl
@[simp] theorem quantifiedVars_not (f : Formula) :
    (not f).quantifiedVars = f.quantifiedVars := rfl
@[simp] theorem quantifiedVars_binary (op : Connective) (f g : Formula) :
    (binary op f g).quantifiedVars = f.quantifiedVars ++ g.quantifiedVars := rfl
@[simp] theorem quantifiedVars_quant (q : Quantifier) (x : String) (f : Formula) :
    (quant q x f).quantifiedVars = x :: f.quantifiedVars := rfl

@[simp] theorem symbols_pred (p : String) (args : List Term) :
    (pred p args).symbols = p :: Term.symbolsList args := rfl
@[simp] theorem symbols_eq (s t : Term) : (eq s t).symbols = s.symbols ++ t.symbols := rfl
@[simp] theorem symbols_not (f : Formula) : (not f).symbols = f.symbols := rfl
@[simp] theorem symbols_binary (op : Connective) (f g : Formula) :
    (binary op f g).symbols = f.symbols ++ g.symbols := rfl
@[simp] theorem symbols_quant (q : Quantifier) (x : String) (f : Formula) :
    (quant q x f).symbols = x :: f.symbols := rfl

/-- A quantifier-free formula quantifies no variable, and conversely. -/
theorem isQuantifierFree_iff (f : Formula) :
    f.isQuantifierFree = true ↔ f.quantifiedVars = [] := by
  induction f with
  | pred | eq => simp [isQuantifierFree]
  | not f ih => simpa [isQuantifierFree] using ih
  | binary op f g ihf ihg => simp [isQuantifierFree, ihf, ihg]
  | quant q x f => simp [isQuantifierFree]

end Formula

end LogicForms
