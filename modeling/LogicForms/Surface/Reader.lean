import LogicForms.Formula
import LogicForms.Surface.Token
import LogicForms.Text.Join

/-!
# Reading formulas from tokens

The reader follows the grammar of formulas, from the loosest to the tightest construct, where all
binary connectives associate to the left:

    Formula  := Iff
    Iff      := Implies ( '↔' Implies )*
    Implies  := Or ( '→' Or )*
    Or       := And ( '∨' And )*
    And      := Unary ( '∧' Unary )*
    Unary    := '¬' Unary | ('∀' | '∃') NAME ['.'] Unary | Atom
    Atom     := NAME [Args] ['=' Term] | '(' Formula ')'
    Args     := '(' [TermLike (',' TermLike)*] ')'
    TermLike := Term ['=' Term]
    Term     := NAME [Args]

A name without an argument list is a variable in a term if it starts with a lower-case letter, and
a constant otherwise. Each construct consumes tokens from the front of a list and returns what is
left; `Parsed` records that less is left than a given bound, and this makes the recursion end.

## What this module holds

* `SyntaxError`, with the tokens from the offending place on, and its message;
* `readTerm`, `readTermLike`, `readArguments` for terms;
* `readChain` for the four levels of binary connectives, `readUnary` and `readAtom`;
* `readAll`, a formula that takes all tokens.
-/

set_option autoImplicit false

namespace LogicForms.Surface

/-- What the reader was looking for. -/
inductive Expected where
  /-- A token of a kind. -/
  | token (kind : TokenKind)
  /-- The beginning of an atom or of a formula in parentheses. -/
  | atom
  deriving DecidableEq, Repr, Inhabited

/-- The label in messages. -/
def Expected.label : Expected → String
  | .token kind => kind.label
  | .atom => "atom"

/-- Why no formula could be read. -/
inductive SyntaxError where
  /-- The first token of `rest`, or the end if there is none, is not what was expected. -/
  | unexpected (expected : Expected) (rest : List Token)
  /-- A formula has been read, and `rest` is left. -/
  | trailing (rest : List Token)
  deriving DecidableEq, Repr, Inhabited

namespace SyntaxError

/-- The tokens from the offending place on. -/
def rest : SyntaxError → List Token
  | .unexpected _ rest => rest
  | .trailing rest => rest

/-- The label of the token found, or of the end. -/
def foundLabel (tokens : List Token) : String :=
  match tokens with
  | [] => "EOF"
  | token :: _ => token.kind.label

/-- The message. -/
def message : SyntaxError → String
  | .unexpected expected rest => "expected " ++ expected.label ++ ", found " ++ foundLabel rest
  | .trailing rest =>
    "trailing tokens: " ++ Text.joinWith " " (rest.map fun token => token.value)

end SyntaxError

/-- A value read from tokens, with what is left of them: fewer than `bound` tokens. -/
structure Parsed (α : Type) (bound : Nat) where
  /-- What was read. -/
  value : α
  /-- The tokens that are left. -/
  rest : List Token
  /-- There are fewer of them than the bound. -/
  rest_lt : rest.length < bound

/-- Does the list start with a token of the kind? -/
def startsWith (kind : TokenKind) : List Token → Bool
  | [] => false
  | token :: _ => token.kind == kind

/-- One token of the given kind. -/
def readToken (kind : TokenKind) (tokens : List Token) :
    Except SyntaxError (Parsed Token tokens.length) :=
  match tokens with
  | [] => .error (.unexpected (.token kind) [])
  | token :: rest =>
    if token.kind = kind then .ok ⟨token, rest, by simp⟩
    else .error (.unexpected (.token kind) (token :: rest))

/-- Is the name read as a variable? It is if its first character is a lower-case letter. -/
def isVariableName (name : String) : Bool :=
  match name.toList with
  | [] => false
  | c :: _ => 'a' ≤ c && c ≤ 'z'

/-- The term made of a name and, if there is one, its argument list. -/
def termOf (name : String) : Option (List Term) → Term
  | some args => .func name args
  | none => if isVariableName name then .var name else .const name

/-! ### Terms -/

mutual

/-- `Term := NAME [Args]` -/
def readTerm (tokens : List Token) : Except SyntaxError (Parsed Term tokens.length) := do
  let ⟨name, rest, h⟩ ← readToken .name tokens
  let ⟨args, rest', h'⟩ ← readOptionalArguments rest
  return ⟨termOf name.value args, rest', by omega⟩
termination_by (tokens.length, 0)

/-- `[Args]`, where an argument list is there if a left parenthesis is. -/
def readOptionalArguments (tokens : List Token) :
    Except SyntaxError (Parsed (Option (List Term)) (tokens.length + 1)) := do
  if startsWith .leftParen tokens then
    let ⟨args, rest, h⟩ ← readArguments tokens
    return ⟨some args, rest, by omega⟩
  else
    return ⟨none, tokens, by omega⟩
termination_by (tokens.length, 1)

/-- `Args := '(' [TermLike (',' TermLike)*] ')'` -/
def readArguments (tokens : List Token) :
    Except SyntaxError (Parsed (List Term) tokens.length) := do
  let ⟨_, inner, h⟩ ← readToken .leftParen tokens
  if startsWith .rightParen inner then
    let ⟨_, rest, h'⟩ ← readToken .rightParen inner
    return ⟨[], rest, by omega⟩
  else
    let ⟨first, rest₁, h₁⟩ ← readTermLike inner
    let ⟨others, rest₂, h₂⟩ ← readMoreArguments rest₁
    let ⟨_, rest, h'⟩ ← readToken .rightParen rest₂
    return ⟨first :: others, rest, by omega⟩
termination_by (tokens.length, 0)

/-- `(',' TermLike)*` -/
def readMoreArguments (tokens : List Token) :
    Except SyntaxError (Parsed (List Term) (tokens.length + 1)) := do
  if startsWith .comma tokens then
    let ⟨_, rest₁, h₁⟩ ← readToken .comma tokens
    let ⟨next, rest₂, h₂⟩ ← readTermLike rest₁
    let ⟨others, rest, h⟩ ← readMoreArguments rest₂
    return ⟨next :: others, rest, by omega⟩
  else
    return ⟨[], tokens, by omega⟩
termination_by (tokens.length, 0)

/-- `TermLike := Term ['=' Term]` -/
def readTermLike (tokens : List Token) : Except SyntaxError (Parsed Term tokens.length) := do
  let ⟨lhs, rest₁, h₁⟩ ← readTerm tokens
  if startsWith .equals rest₁ then
    let ⟨_, rest₂, h₂⟩ ← readToken .equals rest₁
    let ⟨rhs, rest, h⟩ ← readTerm rest₂
    return ⟨.eq lhs rhs, rest, by omega⟩
  else
    return ⟨lhs, rest₁, h₁⟩
termination_by (tokens.length, 1)

end

/-! ### Formulas -/

/-- The level of a connective, counted from the tightest one. The reader descends through the
levels without consuming tokens. -/
def level : Connective → Nat
  | .and => 0
  | .or => 1
  | .implies => 2
  | .iff => 3

/-- `['.']` -/
def readOptionalDot (tokens : List Token) : Except SyntaxError (Parsed Unit (tokens.length + 1)) :=
  do
  if startsWith .dot tokens then
    let ⟨_, rest, h⟩ ← readToken .dot tokens
    return ⟨(), rest, by omega⟩
  else
    return ⟨(), tokens, by omega⟩

mutual

/-- Operands with the connective between them, associated to the left. -/
def readChain (op : Connective) (tokens : List Token) :
    Except SyntaxError (Parsed Formula tokens.length) := do
  let ⟨f, rest₁, h₁⟩ ← readOperand op tokens
  let ⟨g, rest, h⟩ ← readChainTail op f rest₁
  return ⟨g, rest, by omega⟩
termination_by (tokens.length, 2 * level op + 3)

/-- The operands of a connective are the chains of the next tighter one, and those of conjunction
are unary formulas. -/
def readOperand (op : Connective) (tokens : List Token) :
    Except SyntaxError (Parsed Formula tokens.length) :=
  match op with
  | .iff => readChain .implies tokens
  | .implies => readChain .or tokens
  | .or => readChain .and tokens
  | .and => readUnary tokens
termination_by (tokens.length, 2 * level op + 2)
decreasing_by all_goals (simp [Prod.lex_def, level])

/-- The rest of a chain whose operands so far make up `f`. -/
def readChainTail (op : Connective) (f : Formula) (tokens : List Token) :
    Except SyntaxError (Parsed Formula (tokens.length + 1)) := do
  if startsWith (.connective op) tokens then
    let ⟨_, rest₁, h₁⟩ ← readToken (.connective op) tokens
    let ⟨g, rest₂, h₂⟩ ← readOperand op rest₁
    let ⟨k, rest, h⟩ ← readChainTail op (.binary op f g) rest₂
    return ⟨k, rest, by omega⟩
  else
    return ⟨f, tokens, by omega⟩
termination_by (tokens.length, 0)

/-- `Unary := '¬' Unary | ('∀' | '∃') NAME ['.'] Unary | Atom` -/
def readUnary (tokens : List Token) : Except SyntaxError (Parsed Formula tokens.length) :=
  match tokens with
  | ⟨.not, _, _⟩ :: rest => do
    let ⟨f, rest', h⟩ ← readUnary rest
    return ⟨.not f, rest', by simp only [List.length_cons]; omega⟩
  | ⟨.quantifier q, _, _⟩ :: rest => do
    let ⟨x, rest₁, h₁⟩ ← readToken .name rest
    let ⟨_, rest₂, h₂⟩ ← readOptionalDot rest₁
    let ⟨f, rest', h⟩ ← readUnary rest₂
    return ⟨.quant q x.value f, rest', by simp only [List.length_cons]; omega⟩
  | tokens => readAtom tokens
termination_by (tokens.length, 1)

/-- `Atom := NAME [Args] ['=' Term] | '(' Formula ')'` -/
def readAtom (tokens : List Token) : Except SyntaxError (Parsed Formula tokens.length) :=
  match tokens with
  | ⟨.name, name, _⟩ :: rest => do
    let ⟨args, rest₁, h₁⟩ ← readOptionalArguments rest
    -- only now is it known whether the name was a predicate or the left side of an equation
    if startsWith .equals rest₁ then
      let ⟨_, rest₂, h₂⟩ ← readToken .equals rest₁
      let ⟨rhs, rest', h⟩ ← readTerm rest₂
      return ⟨.eq (termOf name args) rhs, rest', by simp only [List.length_cons]; omega⟩
    else
      return ⟨.pred name (args.getD []), rest₁, by simp only [List.length_cons]; omega⟩
  | ⟨.leftParen, _, _⟩ :: rest => do
    let ⟨f, rest₁, h₁⟩ ← readChain .iff rest
    let ⟨_, rest', h⟩ ← readToken .rightParen rest₁
    return ⟨f, rest', by simp only [List.length_cons]; omega⟩
  | tokens => .error (.unexpected .atom tokens)
termination_by (tokens.length, 0)

end

/-- A formula. -/
def readFormula (tokens : List Token) : Except SyntaxError (Parsed Formula tokens.length) :=
  readChain .iff tokens

/-- A formula that takes all tokens. -/
def readAll (tokens : List Token) : Except SyntaxError Formula := do
  let ⟨f, rest, _⟩ ← readFormula tokens
  if rest.isEmpty then return f else .error (.trailing rest)

end LogicForms.Surface
