/-!
# Joining texts

The one way in which this library puts several texts into one: a separator between neighbours, and
none in front of the first or behind the last.
-/

set_option autoImplicit false

namespace LogicForms.Text

/-- The texts of a list, in order, with `separator` between neighbours. -/
def joinWith (separator : String) : List String → String
  | [] => ""
  | [text] => text
  | text :: next :: rest => text ++ separator ++ joinWith separator (next :: rest)

@[simp] theorem joinWith_nil (separator : String) : joinWith separator [] = "" := rfl

@[simp] theorem joinWith_singleton (separator text : String) :
    joinWith separator [text] = text := rfl

@[simp] theorem joinWith_cons_cons (separator text next : String) (rest : List String) :
    joinWith separator (text :: next :: rest) =
      text ++ separator ++ joinWith separator (next :: rest) := rfl

/-- The form of every enumeration in formulas and messages: `A, B, C`. -/
def commaSeparated (texts : List String) : String := joinWith ", " texts

@[simp] theorem commaSeparated_nil : commaSeparated [] = "" := rfl

@[simp] theorem commaSeparated_singleton (text : String) : commaSeparated [text] = text := rfl

end LogicForms.Text
