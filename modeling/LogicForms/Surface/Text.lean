import LogicForms.Surface.Normalizer
import LogicForms.Surface.Reader

/-!
# Formulas from text

A text is normalized, cut into tokens, and read as one formula that takes all of them.
-/

set_option autoImplicit false

namespace LogicForms

/-- Why a text is no formula. -/
inductive ReadError where
  /-- The normalized text cannot be cut into tokens. -/
  | lexical (e : Surface.LexError)
  /-- The tokens do not make up a formula. -/
  | grammatical (e : Surface.SyntaxError)
  deriving DecidableEq, Repr, Inhabited

/-- The message of the error. -/
def ReadError.message : ReadError → String
  | .lexical e => e.message
  | .grammatical e => e.message

/-- The tokens of a text after normalization. -/
def Surface.tokensOf (s : String) : Except ReadError (List Surface.Token) :=
  (Surface.tokenize (Surface.normalize s)).mapError .lexical

/-- The formula that a text stands for. -/
def Formula.ofText (s : String) : Except ReadError Formula := do
  let tokens ← Surface.tokensOf s
  (Surface.readAll tokens).mapError .grammatical

/-- The term, or equation in argument position, at the beginning of a text. What follows it is
ignored. -/
def Term.ofText (s : String) : Except ReadError Term := do
  let tokens ← Surface.tokensOf s
  match Surface.readTermLike tokens with
  | .ok parsed => .ok parsed.value
  | .error e => .error (.grammatical e)

end LogicForms
