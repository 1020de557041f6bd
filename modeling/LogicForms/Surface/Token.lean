import LogicForms.Operator
import LogicForms.Text.Quoted

/-!
# Tokens

Normalized text is cut into tokens from left to right: each symbol of the formula language is a
token, a name is a maximal run of letters, digits and underscores that does not start with a digit,
and spaces separate tokens. Reading stops with an error at the first place where no token starts.

## What this module holds

* `TokenKind`, `Token`, and `LexError` with its message;
* `tokensFrom`, the tokens of a list of characters with positions counted from a given number;
* `tokenize`, the tokens of a text.
-/

set_option autoImplicit false

namespace LogicForms.Surface

/-- The kinds of tokens. -/
inductive TokenKind where
  /-- The symbol of a quantifier. -/
  | quantifier (q : Quantifier)
  /-- The negation sign. -/
  | not
  /-- The symbol of a binary connective. -/
  | connective (op : Connective)
  | leftParen
  | rightParen
  | comma
  | dot
  | equals
  /-- A name. -/
  | name
  deriving DecidableEq, Repr, Inhabited

namespace TokenKind

/-- All kinds. -/
def all : List TokenKind :=
  [.quantifier .universal, .quantifier .existential, .not, .connective .and, .connective .or,
   .connective .implies, .connective .iff, .leftParen, .rightParen, .comma, .dot, .equals, .name]

/-- The label of the kind in messages. -/
def label : TokenKind → String
  | .quantifier .universal => "FORALL"
  | .quantifier .existential => "EXISTS"
  | .not => "NOT"
  | .connective .and => "AND"
  | .connective .or => "OR"
  | .connective .implies => "IMPLIES"
  | .connective .iff => "IFF"
  | .leftParen => "LPAREN"
  | .rightParen => "RPAREN"
  | .comma => "COMMA"
  | .dot => "DOT"
  | .equals => "EQ"
  | .name => "NAME"

/-- The kind with a given label. -/
def ofLabel? (label : String) : Option TokenKind := all.find? fun kind => kind.label == label

/-- The kind of token that a symbol makes up. -/
def ofSymbol? : Char → Option TokenKind
  | '∀' => some (.quantifier .universal)
  | '∃' => some (.quantifier .existential)
  | '¬' => some .not
  | '∧' => some (.connective .and)
  | '∨' => some (.connective .or)
  | '→' => some (.connective .implies)
  | '↔' => some (.connective .iff)
  | '(' => some .leftParen
  | ')' => some .rightParen
  | ',' => some .comma
  | '.' => some .dot
  | '=' => some .equals
  | _ => none

/-- The printed symbol of a quantifier is read as a quantifier token. -/
@[simp] theorem ofSymbol?_quantifier (q : Quantifier) :
    ofSymbol? q.symbol = some (.quantifier q) := by
  cases q <;> rfl

/-- The printed symbol of a connective is read as a connective token. -/
@[simp] theorem ofSymbol?_connective (op : Connective) :
    ofSymbol? op.symbol = some (.connective op) := by
  cases op <;> rfl

end TokenKind

/-- A token: its kind, the text that it covers, and where that text starts. -/
structure Token where
  /-- The kind. -/
  kind : TokenKind
  /-- The text. -/
  value : String
  /-- The number of characters in front of it. -/
  position : Nat
  deriving DecidableEq, Repr, Inhabited

/-- No token starts at a position. -/
structure LexError where
  /-- The number of characters in front of the place. -/
  position : Nat
  /-- The text from there on, ten characters at most. -/
  snippet : String
  deriving DecidableEq, Repr, Inhabited

/-- The message names the position and shows the text there. -/
def LexError.message (e : LexError) : String :=
  "invalid token at position " ++ toString e.position ++ " near " ++ Text.quoted e.snippet

/-- Can a name start with the character? -/
def isNameStart (c : Char) : Bool :=
  ('A' ≤ c && c ≤ 'Z') || ('a' ≤ c && c ≤ 'z') || c == '_'

/-- Can the character stand in a name behind its first character? -/
def isNameChar (c : Char) : Bool := isNameStart c || ('0' ≤ c && c ≤ '9')

/-- Is the list of characters a name: a start character followed by name characters? -/
def isIdentifierChars : List Char → Bool
  | [] => false
  | c :: rest => isNameStart c && rest.all isNameChar

/-- Is the text a name that the formula language can write? -/
def isIdentifier (name : String) : Bool := isIdentifierChars name.toList

/-- The tokens of a text that starts at the given position. -/
def tokensFrom (position : Nat) (s : List Char) : Except LexError (List Token) :=
  match s with
  | [] => .ok []
  | c :: rest =>
    if c = ' ' then tokensFrom (position + 1) rest
    else
      match TokenKind.ofSymbol? c with
      | some kind =>
        (tokensFrom (position + 1) rest).map fun tokens => ⟨kind, c.toString, position⟩ :: tokens
      | none =>
        -- a digit that no name precedes starts no token
        if isNameStart c then
          let tail := rest.takeWhile isNameChar
          (tokensFrom (position + 1 + tail.length) (rest.dropWhile isNameChar)).map fun tokens =>
            ⟨.name, String.ofList (c :: tail), position⟩ :: tokens
        else .error ⟨position, String.ofList ((c :: rest).take 10)⟩
termination_by s.length
decreasing_by
  · simp
  · simp
  · have := (List.dropWhile_suffix isNameChar (l := rest)).length_le
    simp only [List.length_cons]
    omega

/-- The tokens of a text. -/
def tokenize (s : String) : Except LexError (List Token) := tokensFrom 0 s.toList

@[simp] theorem tokensFrom_nil (position : Nat) : tokensFrom position [] = .ok [] := by
  rw [tokensFrom]

/-- Spaces are skipped. -/
theorem tokensFrom_space (position : Nat) (rest : List Char) :
    tokensFrom position (' ' :: rest) = tokensFrom (position + 1) rest := by
  rw [tokensFrom]; simp

/-- Symbols and start characters of names are different characters, and neither is a space. -/
theorem ofSymbol?_eq_none_of_isNameStart {c : Char} (h : isNameStart c = true) :
    TokenKind.ofSymbol? c = none ∧ c ≠ ' ' := by
  constructor
  · unfold TokenKind.ofSymbol?
    split <;> first | rfl | exact absurd h (by decide)
  · rintro rfl
    exact absurd h (by decide)

end LogicForms.Surface
