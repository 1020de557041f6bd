import LogicForms.Prefix

/-!
# Clauses

A clause is a disjunction of literals, written as the list of its literals. The clausal form of a
formula in conjunctive normal form with universal quantifiers in front is the list of its clauses.
A Horn clause has at most one positive literal.

## What this module holds

* `Clause`, whose members are literals by construction, and `Clause.ofLiterals`;
* `Formula.split`, the arguments of a chain of one connective, and `Formula.clausalForm`;
* `HornPartition`, the Horn clauses among some clauses and the others.
-/

set_option autoImplicit false

namespace LogicForms

/-- A disjunction of literals. -/
structure Clause where
  /-- The literals, in order. -/
  literals : List Formula
  /-- All of them are literals. -/
  isLiteral_of_mem : ∀ f ∈ literals, f.isLiteral = true
  deriving DecidableEq

namespace Clause

/-- The clause without literals. -/
def empty : Clause := ⟨[], by simp⟩

instance : Inhabited Clause := ⟨empty⟩

/-- The clause with the given literals, or the first formula that is no literal. -/
def ofLiterals (fs : List Formula) : Except Formula Clause :=
  match h : fs.find? fun f => !f.isLiteral with
  | some f => .error f
  | none => .ok ⟨fs, fun f hf => by simpa using List.find?_eq_none.1 h f hf⟩

/-- The literals that are not negated, in order. -/
def positives (c : Clause) : List Formula := c.literals.filter Formula.isAtomic

/-- The negated literals, in order. -/
def negatives (c : Clause) : List Formula := c.literals.filter Formula.isNegation

/-- Is there at most one positive literal? -/
def isHorn (c : Clause) : Bool := c.positives.length ≤ 1

/-- The printed form, such as `¬P(x) ∨ Q(x)`; the clause without literals is `⊥`. -/
def text (c : Clause) : String :=
  match c.literals with
  | [] => "⊥"
  | f :: fs => Text.joinWith " ∨ " ((f :: fs).map Formula.text)

/-- Constructor notation, such as `Clause([Not(P(x)), Q(x)])`. -/
def explicitText (c : Clause) : String :=
  "Clause([" ++ Text.commaSeparated (c.literals.map Formula.explicitText) ++ "])"

end Clause

namespace Formula

/-- The arguments of the chain of the given connective at the top, from left to right. -/
def split (op : Connective) : Formula → List Formula
  | .binary op' f g => if op' = op then f.split op ++ g.split op else [.binary op' f g]
  | f => [f]

/-- The formula below the leading universal quantifiers. -/
def withoutUniversals : Formula → Formula
  | .quant .universal _ f => f.withoutUniversals
  | f => f

/-- The clauses of a formula: drop the leading universal quantifiers, and split the matrix into
conjuncts and each conjunct into literals. The first part that is no literal is reported. -/
def clausalForm (f : Formula) : Except Formula (List Clause) :=
  (f.withoutUniversals.split .and).mapM fun conjunct => Clause.ofLiterals (conjunct.split .or)

/-- Splitting never gives an empty list. -/
theorem split_ne_nil (op : Connective) (f : Formula) : f.split op ≠ [] := by
  induction f with
  | binary op' f g ihf ihg =>
    rw [split]
    split
    · simp [ihf]
    · simp
  | _ => simp [split]

end Formula

/-- Clauses separated into Horn clauses and others, both in their order. -/
structure HornPartition where
  /-- The Horn clauses. -/
  horn : List Clause
  /-- The other clauses. -/
  notHorn : List Clause
  deriving DecidableEq, Inhabited

namespace HornPartition

/-- Separate clauses. -/
def ofClauses (clauses : List Clause) : HornPartition :=
  ⟨clauses.filter Clause.isHorn, clauses.filter fun c => !c.isHorn⟩

/-- Constructor notation. -/
def explicitText (p : HornPartition) : String :=
  "HornPartition(horn=[" ++ Text.commaSeparated (p.horn.map Clause.explicitText) ++
    "], not_horn=[" ++ Text.commaSeparated (p.notHorn.map Clause.explicitText) ++ "])"

end HornPartition

end LogicForms
