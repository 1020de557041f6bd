import LogicForms.Forms.Clause

/-!
# Reports

A derivation is a result together with the labels of the steps that led to it. A report holds the
seven derivations of a run.
-/

set_option autoImplicit false

namespace LogicForms

/-! ### Labels of steps -/

namespace Step

/-- Implications and equivalences are resolved. -/
def eliminate : String := "1. Eliminate equivalences (↔) and implications (→)"
/-- Negations are pushed inward. -/
def negations : String := "2. Convert to NNF (push negations inward)"
/-- Bound variables are renamed apart. -/
def standardize : String := "3. Standardize bound variables apart (α-renaming)"
/-- Quantifiers are moved to the front. -/
def prenex : String := "4. Move quantifiers to prenex form"
/-- Existential quantifiers are removed. -/
def skolemize : String := "5. Skolemize (replace existentials by Skolem functions)"
/-- Disjunction is distributed. -/
def distributeOr : String := "6. Distribute OR over AND to obtain CNF"
/-- Conjunction is distributed. -/
def distributeAnd : String := "5. Distribute AND over OR to obtain DNF"
/-- Universal quantifiers are dropped. -/
def dropUniversals : String := "1. Drop universal quantifiers (implicit in clausal form)"
/-- The matrix is split into clauses. -/
def splitConjunctions : String := "2. Split conjunctions into separate clauses"
/-- Clauses are checked one by one. -/
def checkHorn : String := "1. Check each clause for the Horn property"
/-- A clause is a Horn clause. -/
def isHorn : String := "→ Horn clause (≤ 1 positive literal)"
/-- A clause is not a Horn clause. -/
def isNotHorn : String := "→ not a Horn clause (> 1 positive literal)"

/-- How many clauses there are. -/
def clauseCount (clauses : List Clause) : String :=
  "3. Result: " ++ toString clauses.length ++ " clause(s) extracted"

/-- The two steps for the clause with the given number. -/
def clauseSteps (index : Nat) (c : Clause) : List String :=
  ["Clause " ++ toString index ++ ": " ++ toString c.positives.length ++ " positive literal(s), " ++
      toString c.negatives.length ++ " negative",
   if c.isHorn then isHorn else isNotHorn]

/-- The steps for all clauses, which are counted from the given number on. -/
def clausesSteps (index : Nat) : List Clause → List String
  | [] => []
  | c :: cs => clauseSteps index c ++ clausesSteps (index + 1) cs

/-- How many of the clauses are Horn clauses. -/
def hornCount (clauses : List Clause) (p : HornPartition) : String :=
  if p.horn.length = clauses.length then "2. All clauses are Horn"
  else "2. " ++ toString p.horn.length ++ "/" ++ toString clauses.length ++ " clauses are Horn"

end Step

/-- A result with the steps that led to it. -/
structure Derivation (α : Type) where
  /-- The result. -/
  result : α
  /-- The labels of the steps. -/
  steps : List String
  deriving DecidableEq, Inhabited

/-- The partition of clauses with its steps. -/
def HornPartition.derivation (clauses : List Clause) : Derivation HornPartition :=
  let p := HornPartition.ofClauses clauses
  ⟨p, Step.checkHorn :: Step.clausesSteps 1 clauses ++ [Step.hornCount clauses p]⟩

/-- All derivations of a run. -/
structure Report where
  /-- The formula that was read. -/
  input : Derivation Formula
  /-- Its negation normal form. -/
  nnf : Derivation Formula
  /-- Its prenex form. -/
  prenex : Derivation Formula
  /-- The Skolem form of the prenex form in conjunctive normal form. -/
  cnf : Derivation Formula
  /-- The prenex form in disjunctive normal form. -/
  dnf : Derivation Formula
  /-- The clauses of the conjunctive normal form. -/
  clausal : Derivation (List Clause)
  /-- The Horn clauses among them. -/
  horn : Derivation HornPartition
  deriving DecidableEq, Inhabited

/-! ### Reports as text -/

namespace Report

/-- A formula as lines of a report. -/
def formulaLines (f : Formula) : List String := ["  " ++ f.text]

/-- Clauses as lines of a report, counted from the given number on. -/
def clauseLines (index : Nat) : List Clause → List String
  | [] => []
  | c :: cs => ("  " ++ toString index ++ ". " ++ c.text) :: clauseLines (index + 1) cs

/-- Clauses in brackets. -/
def bracketed (clauses : List Clause) : String :=
  Text.commaSeparated (clauses.map fun c => "[" ++ c.text ++ "]")

/-- A partition of clauses as lines of a report. -/
def hornLines (p : HornPartition) : List String :=
  ["  horn: " ++ bracketed p.horn, "  not horn: " ++ bracketed p.notHorn]

/-- A result that is printed. -/
inductive Item where
  | formula (f : Formula)
  | clauses (clauses : List Clause)
  | partition (p : HornPartition)
  deriving DecidableEq, Inhabited

/-- The lines of a result. -/
def Item.lines : Item → List String
  | .formula f => formulaLines f
  | .clauses cs => clauseLines 1 cs
  | .partition p => hornLines p

/-- A derivation in a report. -/
structure Part where
  /-- What stands in front of the result: the title and, if they are asked for, the steps. -/
  head : List String
  /-- The result. -/
  item : Item
  deriving DecidableEq, Inhabited

/-- The lines of a derivation. -/
def Part.lines (p : Part) : List String := p.head ++ p.item.lines

/-- A derivation under its title. -/
def Part.ofDerivation {α : Type} (withSteps : Bool) (title : String) (item : α → Item)
    (d : Derivation α) : Part :=
  ⟨(title ++ ":") :: if withSteps then d.steps.map fun step => "    " ++ step else [],
    item d.result⟩

/-- The derivations of a report, in the order in which they are printed. -/
def parts (r : Report) (withSteps : Bool) : List Part :=
  [.ofDerivation withSteps "original" .formula r.input,
   .ofDerivation withSteps "nnf" .formula r.nnf,
   .ofDerivation withSteps "prenex" .formula r.prenex,
   .ofDerivation withSteps "cnf" .formula r.cnf,
   .ofDerivation withSteps "dnf" .formula r.dnf,
   .ofDerivation withSteps "clausal" .clauses r.clausal,
   .ofDerivation withSteps "horn" .partition r.horn]

/-- Lines as text. -/
def ofLines (lines : List String) : String := String.join (lines.map fun line => line ++ "\n")

/-- The report as text. -/
def text (r : Report) (withSteps : Bool) : String :=
  ofLines ((r.parts withSteps).flatMap Part.lines)

end Report

end LogicForms
