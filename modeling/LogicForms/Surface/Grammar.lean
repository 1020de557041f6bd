import LogicForms.Surface.Reader

/-!
# Derivation trees of the grammar

The grammar of formulas as trees, independently of how a reader finds them: a tree has a symbol of
the grammar at its root, and tokens of the right kinds at its leaves.

    Formula  := Iff
    Iff      := Implies ( '↔' Implies )*
    Implies  := Or ( '→' Or )*
    Or       := And ( '∨' And )*
    And      := Unary ( '∧' Unary )*
    Unary    := '¬' Unary | ('∀' | '∃') NAME ['.'] Unary | Atom
    Atom     := NAME [Args] ['=' Term] | '(' Formula ')'
    Args     := '(' [TermLike (',' TermLike)*] ')'
    TermLike := Term ['=' Term]
    Term     := NAME [Args]

## What this module holds

* `GrammarSymbol`, and `DerivationTree`, the trees with a given symbol at the root;
* `DerivationTree.tokens`, the tokens at the leaves from left to right;
* `DerivationTree.value`, the formula, term or list that a tree stands for.
-/

set_option autoImplicit false

namespace LogicForms.Surface

/-- The levels of formulas, from the loosest to the tightest one. -/
inductive FormulaLevel where
  /-- Operands with the given connective between them. -/
  | chain (op : Connective)
  | unary
  | atom
  deriving DecidableEq, Repr, Inhabited

/-- The level of the operands of a connective. -/
def operandLevel : Connective → FormulaLevel
  | .iff => .chain .implies
  | .implies => .chain .or
  | .or => .chain .and
  | .and => .unary

/-- The symbols of the grammar. -/
inductive GrammarSymbol where
  | formula (level : FormulaLevel)
  /-- The further operands of a connective, each behind the connective. -/
  | moreOperands (op : Connective)
  /-- The dot behind the variable of a quantifier, or nothing. -/
  | optionalDot
  | term
  | termLike
  /-- An argument list, or nothing. -/
  | optionalArguments
  | arguments
  /-- The further arguments, each behind a comma. -/
  | moreArguments
  deriving DecidableEq, Repr, Inhabited

/-- What the trees with a given symbol at the root stand for. -/
def GrammarSymbol.Value : GrammarSymbol → Type
  | .formula _ => Formula
  | .moreOperands _ => List Formula
  | .optionalDot => Unit
  | .term => Term
  | .termLike => Term
  | .optionalArguments => Option (List Term)
  | .arguments => List Term
  | .moreArguments => List Term

/-- The tokens of one kind. -/
def TokenOf (kind : TokenKind) : Type := { token : Token // token.kind = kind }

/-- A derivation tree with a given symbol at the root. -/
inductive DerivationTree : GrammarSymbol → Type where
  | chain (op : Connective) (first : DerivationTree (.formula (operandLevel op)))
      (more : DerivationTree (.moreOperands op)) : DerivationTree (.formula (.chain op))
  | noOperands (op : Connective) : DerivationTree (.moreOperands op)
  | operand (op : Connective) (sign : TokenOf (.connective op))
      (next : DerivationTree (.formula (operandLevel op)))
      (more : DerivationTree (.moreOperands op)) : DerivationTree (.moreOperands op)
  | not (sign : TokenOf .not) (arg : DerivationTree (.formula .unary)) :
      DerivationTree (.formula .unary)
  | quant (q : Quantifier) (sign : TokenOf (.quantifier q)) (x : TokenOf .name)
      (dot : DerivationTree .optionalDot) (scope : DerivationTree (.formula .unary)) :
      DerivationTree (.formula .unary)
  | atom (atom : DerivationTree (.formula .atom)) : DerivationTree (.formula .unary)
  | noDot : DerivationTree .optionalDot
  | someDot (sign : TokenOf .dot) : DerivationTree .optionalDot
  | pred (name : TokenOf .name) (args : DerivationTree .optionalArguments) :
      DerivationTree (.formula .atom)
  | equation (name : TokenOf .name) (args : DerivationTree .optionalArguments)
      (sign : TokenOf .equals) (rhs : DerivationTree .term) : DerivationTree (.formula .atom)
  | parens (left : TokenOf .leftParen) (inner : DerivationTree (.formula (.chain .iff)))
      (right : TokenOf .rightParen) : DerivationTree (.formula .atom)
  | term (name : TokenOf .name) (args : DerivationTree .optionalArguments) : DerivationTree .term
  | plain (t : DerivationTree .term) : DerivationTree .termLike
  | termEquation (lhs : DerivationTree .term) (sign : TokenOf .equals)
      (rhs : DerivationTree .term) : DerivationTree .termLike
  | noArguments : DerivationTree .optionalArguments
  | someArguments (args : DerivationTree .arguments) : DerivationTree .optionalArguments
  | emptyArguments (left : TokenOf .leftParen) (right : TokenOf .rightParen) :
      DerivationTree .arguments
  | arguments (left : TokenOf .leftParen) (first : DerivationTree .termLike)
      (more : DerivationTree .moreArguments) (right : TokenOf .rightParen) :
      DerivationTree .arguments
  | noMoreArguments : DerivationTree .moreArguments
  | argument (comma : TokenOf .comma) (next : DerivationTree .termLike)
      (more : DerivationTree .moreArguments) : DerivationTree .moreArguments

namespace DerivationTree

/-- The tokens at the leaves, from left to right. -/
@[simp] def tokens {s : GrammarSymbol} : DerivationTree s → List Token
  | .chain _ first more => first.tokens ++ more.tokens
  | .noOperands _ => []
  | .operand _ sign next more => sign.1 :: (next.tokens ++ more.tokens)
  | .not sign arg => sign.1 :: arg.tokens
  | .quant _ sign x d scope => sign.1 :: x.1 :: (d.tokens ++ scope.tokens)
  | .atom a => a.tokens
  | .noDot => []
  | .someDot sign => [sign.1]
  | .pred name args => name.1 :: args.tokens
  | .equation name args sign rhs => name.1 :: (args.tokens ++ sign.1 :: rhs.tokens)
  | .parens left inner right => left.1 :: (inner.tokens ++ [right.1])
  | .term name args => name.1 :: args.tokens
  | .plain t => t.tokens
  | .termEquation lhs sign rhs => lhs.tokens ++ sign.1 :: rhs.tokens
  | .noArguments => []
  | .someArguments args => args.tokens
  | .emptyArguments left right => [left.1, right.1]
  | .arguments left first more right => left.1 :: (first.tokens ++ more.tokens ++ [right.1])
  | .noMoreArguments => []
  | .argument comma next more => comma.1 :: (next.tokens ++ more.tokens)

/-- What the tree stands for. Operands of a connective associate to the left. -/
def value {s : GrammarSymbol} : DerivationTree s → s.Value
  | .chain op first more =>
    let first : Formula := first.value
    let more : List Formula := more.value
    more.foldl (Formula.binary op) first
  | .noOperands _ => ([] : List Formula)
  | .operand _ _ next more =>
    let next : Formula := next.value
    let more : List Formula := more.value
    next :: more
  | .not _ arg => Formula.not arg.value
  | .quant q _ x _ scope => Formula.quant q x.1.value scope.value
  | .atom a => a.value
  | .noDot => ()
  | .someDot _ => ()
  | .pred name args =>
    let args : Option (List Term) := args.value
    Formula.pred name.1.value (args.getD [])
  | .equation name args _ rhs => Formula.eq (termOf name.1.value args.value) rhs.value
  | .parens _ inner _ => inner.value
  | .term name args => termOf name.1.value args.value
  | .plain t => t.value
  | .termEquation lhs _ rhs => Term.eq lhs.value rhs.value
  | .noArguments => (none : Option (List Term))
  | .someArguments args => some (args.value : List Term)
  | .emptyArguments _ _ => ([] : List Term)
  | .arguments _ first more _ =>
    let first : Term := first.value
    let more : List Term := more.value
    first :: more
  | .noMoreArguments => ([] : List Term)
  | .argument _ next more =>
    let next : Term := next.value
    let more : List Term := more.value
    next :: more

end DerivationTree

end LogicForms.Surface
