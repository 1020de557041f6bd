import LogicForms.Text.Blank

/-!
# Decimal numerals

A numeral is read from text in any decimal script of Unicode. White space around it is ignored, a
sign may stand in front, and single underscores may stand between digits to group them. Numerals
of more than `maxDigits` digits are refused.
-/

set_option autoImplicit false

namespace LogicForms.Text

/-- The code points of the zeros of the decimal scripts; nine further digits follow each. -/
def zeroDigits : List Nat :=
  [0x30, 0x660, 0x6f0, 0x7c0, 0x966, 0x9e6, 0xa66, 0xae6, 0xb66, 0xbe6, 0xc66, 0xce6, 0xd66, 0xde6,
   0xe50, 0xed0, 0xf20, 0x1040, 0x1090, 0x17e0, 0x1810, 0x1946, 0x19d0, 0x1a80, 0x1a90, 0x1b50,
   0x1bb0, 0x1c40, 0x1c50, 0xa620, 0xa8d0, 0xa900, 0xa9d0, 0xa9f0, 0xaa50, 0xabf0, 0xff10, 0x104a0,
   0x10d30, 0x11066, 0x110f0, 0x11136, 0x111d0, 0x112f0, 0x11450, 0x114d0, 0x11650, 0x116c0,
   0x11730, 0x118e0, 0x11950, 0x11c50, 0x11d50, 0x11da0, 0x16a60, 0x16ac0, 0x16b50, 0x1d7ce,
   0x1d7d8, 0x1d7e2, 0x1d7ec, 0x1d7f6, 0x1e140, 0x1e2f0, 0x1e950, 0x1fbf0]

/-- The value of a decimal digit of any script. -/
def digitValue? (c : Char) : Option Nat :=
  (zeroDigits.find? fun start => start ≤ c.toNat && c.toNat < start + 10).map fun start =>
    c.toNat - start

/-- Is the character a decimal digit of some script? -/
def isDecimalDigit (c : Char) : Bool := (digitValue? c).isSome

/-- White space around numerals: the blanks without the information separators. -/
def isNumeralBlank (c : Char) : Bool :=
  isBlank c && !(['\x1c', '\x1d', '\x1e', '\x1f'].contains c)

/-- The digits of a numeral without its sign: digits with single underscores between them. -/
def numeralDigits? : List Char → Option (List Nat)
  | [] => none
  | [c] => (digitValue? c).map fun d => [d]
  | c :: '_' :: rest =>
    match digitValue? c, numeralDigits? rest with
    | some d, some ds => some (d :: ds)
    | _, _ => none
  | c :: rest =>
    match digitValue? c, numeralDigits? rest with
    | some d, some ds => some (d :: ds)
    | _, _ => none

/-- The number with the given decimal digits, the most significant one first. -/
def ofDigits (digits : List Nat) : Nat := digits.foldl (fun n d => 10 * n + d) 0

/-- The largest number of digits that a numeral may have. -/
def maxDigits : Nat := 4300

/-- The number written by an unsigned numeral. -/
def natural? (s : List Char) : Option Nat :=
  match numeralDigits? s with
  | none => none
  | some digits => if digits.length ≤ maxDigits then some (ofDigits digits) else none

/-- The text without white space around the numeral. -/
def trimNumeral (s : List Char) : List Char :=
  ((s.dropWhile isNumeralBlank).reverse.dropWhile isNumeralBlank).reverse

/-- The integer written by a numeral, or nothing if the text is no numeral. -/
def integer? (s : String) : Option Int :=
  match trimNumeral s.toList with
  | '-' :: rest => (natural? rest).map fun n => -(n : Int)
  | '+' :: rest => (natural? rest).map fun n => (n : Int)
  | rest => (natural? rest).map fun n => (n : Int)

end LogicForms.Text
