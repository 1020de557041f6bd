import LogicForms.Surface.Reader

/-!
# A reading position in a list of tokens

A cursor holds a list of tokens and the part of it that has not been read. It lets a caller look at
the next token and read one construct of the grammar after the other. After an error the cursor
stands at the offending token.
-/

set_option autoImplicit false

namespace LogicForms.Surface

/-- The constructs that can be read on their own. -/
inductive Construct where
  /-- A formula that takes all tokens that are left. -/
  | whole
  | formula
  /-- Operands with the given connective between them. -/
  | chain (op : Connective)
  | unary
  | atom
  | term
  | termLike
  | arguments
  deriving DecidableEq, Repr, Inhabited

/-- What a construct stands for. -/
inductive Phrase where
  | formula (f : Formula)
  | term (t : Term)
  | arguments (ts : List Term)
  deriving DecidableEq, Inhabited

/-- A list of tokens with a reading position in it. -/
structure Cursor where
  /-- All tokens. -/
  tokens : List Token
  /-- The tokens from the reading position on. -/
  rest : List Token
  deriving DecidableEq, Repr, Inhabited

namespace Cursor

/-- The cursor at the first token. -/
def start (tokens : List Token) : Cursor := ⟨tokens, tokens⟩

/-- The number of tokens in front of the reading position. -/
def position (c : Cursor) : Nat := c.tokens.length - c.rest.length

/-- The next token. -/
def peek? (c : Cursor) : Option Token := c.rest.head?

/-- Is the next token of one of the kinds? -/
def isAt (c : Cursor) (kinds : List TokenKind) : Bool :=
  match c.rest with
  | [] => false
  | token :: _ => kinds.contains token.kind

/-- The result of reading, and the cursor afterwards. -/
def advance {α β : Type} {bound : Nat} (c : Cursor) (wrap : α → β)
    (outcome : Except SyntaxError (Parsed α bound)) : Except SyntaxError β × Cursor :=
  match outcome with
  | .ok parsed => (.ok (wrap parsed.value), ⟨c.tokens, parsed.rest⟩)
  | .error e => (.error e, ⟨c.tokens, e.rest⟩)

/-- Read one token of the given kind. -/
def eat (c : Cursor) (kind : TokenKind) : Except SyntaxError Token × Cursor :=
  c.advance id (readToken kind c.rest)

/-- Read a formula that takes all tokens that are left. -/
def readWhole (c : Cursor) : Except SyntaxError Phrase × Cursor :=
  match readAll c.rest with
  | .ok f => (.ok (.formula f), ⟨c.tokens, []⟩)
  | .error e => (.error e, ⟨c.tokens, e.rest⟩)

/-- Read one construct. -/
def read (c : Cursor) : Construct → Except SyntaxError Phrase × Cursor
  | .whole => c.readWhole
  | .formula => c.advance .formula (readFormula c.rest)
  | .chain op => c.advance .formula (readChain op c.rest)
  | .unary => c.advance .formula (readUnary c.rest)
  | .atom => c.advance .formula (readAtom c.rest)
  | .term => c.advance .term (readTerm c.rest)
  | .termLike => c.advance .term (readTermLike c.rest)
  | .arguments => c.advance .arguments (readArguments c.rest)

end Cursor

end LogicForms.Surface
