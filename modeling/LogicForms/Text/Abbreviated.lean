/-!
# Abbreviated text

A text that is longer than a given length is cut in the middle: a beginning and an end of it stay,
with three dots between them. The beginning and the end share the length that the dots leave, and
the end gets the odd character.
-/

set_option autoImplicit false

namespace LogicForms.Text

/-- The number of characters that stay at the beginning. -/
def keptInFront (maxLength : Int) : Nat := (Int.fdiv (maxLength - 3) 2).toNat

/-- The number of characters that stay at the end. -/
def keptBehind (maxLength : Int) : Nat := (maxLength - 3 - keptInFront maxLength).toNat

/-- The text, cut in the middle if it is longer than `maxLength`. -/
def abbreviated (maxLength : Int) (s : String) : String :=
  let chars := s.toList
  -- the comparison is one of integers, as the given length can be negative
  if (chars.length : Int) ≤ maxLength then s
  else
    String.ofList (chars.take (keptInFront maxLength)) ++ "..." ++
      String.ofList (chars.drop (chars.length - keptBehind maxLength))

end LogicForms.Text
