/-!
# Lines

A line ends at a line feed, a carriage return, both in a row, a vertical tabulator, a form feed, one
of the three larger information separators, the next-line control, or the line and paragraph
separators of Unicode. What follows the last line end is a line if it is not empty.
-/

set_option autoImplicit false

namespace LogicForms.Text

/-- The characters that end a line. -/
def lineEnds : List Char :=
  ['\n', '\x0b', '\x0c', '\r', '\x1c', '\x1d', '\x1e', '\u0085', '\u2028', '\u2029']

/-- Does the character end a line? -/
def isLineEnd (c : Char) : Bool := lineEnds.contains c

/-- The lines of a text without their ends. -/
def lines : List Char → List (List Char)
  | [] => []
  -- a carriage return and the line feed behind it are one line end
  | '\r' :: '\n' :: rest => [] :: lines rest
  | c :: rest =>
    if isLineEnd c then [] :: lines rest
    else
      match lines rest with
      | [] => [[c]]
      | line :: others => (c :: line) :: others

/-- The last line of a text, without its end. -/
def lastLine (s : String) : String := String.ofList ((lines s.toList).getLast?.getD [])

end LogicForms.Text
