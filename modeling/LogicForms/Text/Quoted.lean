import LogicForms.Text.Printable

/-!
# Quoted text

Messages show pieces of input between quotation marks, so that blanks, controls and look-alikes
can be told apart. Single quotation marks are used unless the text has a single mark and no double
one. Inside, the backslash and the mark in use are escaped, tabulator and line ends have short
escapes, and every other unprintable character is written by its code point in hexadecimal.
-/

set_option autoImplicit false

namespace LogicForms.Text

/-- The last `width` digits of `n` to base sixteen, with lower-case letters. -/
def hex : Nat → Nat → List Char
  | 0, _ => []
  | width + 1, n => hex width (n / 16) ++ [Nat.digitChar (n % 16)]

/-- The quotation mark around a text: a double one exactly if the text has single ones only. -/
def quotationMark (s : List Char) : Char :=
  if s.contains '\x27' && !s.contains '\x22' then '\x22' else '\x27'

/-- One character of a quoted text between marks `mark`. -/
def escaped (mark c : Char) : List Char :=
  if c = '\\' ∨ c = mark then ['\\', c]
  else if c = '\t' then ['\\', 't']
  else if c = '\n' then ['\\', 'n']
  else if c = '\r' then ['\\', 'r']
  else if isPrintable c then [c]
  else if c.toNat < 0x100 then '\\' :: 'x' :: hex 2 c.toNat
  else if c.toNat < 0x10000 then '\\' :: 'u' :: hex 4 c.toNat
  else '\\' :: 'U' :: hex 8 c.toNat

/-- A text between quotation marks with its characters escaped. -/
def quoted (s : String) : String :=
  let mark := quotationMark s.toList
  String.ofList (mark :: s.toList.flatMap (escaped mark) ++ [mark])

@[simp] theorem length_hex (width n : Nat) : (hex width n).length = width := by
  induction width generalizing n with
  | zero => rfl
  | succ width ih => simp [hex, ih]

end LogicForms.Text
