/-!
# Elapsed time

Messages of a run are stamped with the time that has passed since its beginning. A duration is
written as days, hours, minutes and seconds, with microseconds if there is a fraction of a second.
The stamp is this text without its last three characters: it ends with milliseconds if there is a
fraction, and with minutes otherwise.
-/

set_option autoImplicit false

namespace LogicForms

namespace ElapsedTime

/-- The last `width` decimal digits of a number, with leading zeros. -/
def padded (width n : Nat) : String :=
  let digits := toString n
  String.ofList (List.replicate (width - digits.length) '0') ++ digits

/-- The days of a duration, in front of the time of day. -/
def daysText (days : Nat) : String :=
  if days = 0 then ""
  else if days = 1 then "1 day, "
  else toString days ++ " days, "

/-- A duration in microseconds: `[D day(s), ]H:MM:SS[.ffffff]`. -/
def durationText (microseconds : Nat) : String :=
  let seconds := microseconds / 1000000
  let fraction := microseconds % 1000000
  let time := toString (seconds / 3600 % 24) ++ ":" ++ padded 2 (seconds / 60 % 60) ++ ":" ++
    padded 2 (seconds % 60)
  daysText (seconds / 86400) ++ time ++ if fraction = 0 then "" else "." ++ padded 6 fraction

/-- The milliseconds from a reference time, given in seconds, to a time in milliseconds; nothing has
passed before the reference time. -/
def sinceReference (referenceSeconds : Int) (createdMilliseconds : Int) : Nat :=
  (createdMilliseconds - 1000 * referenceSeconds).toNat

/-- The stamp for a number of milliseconds. -/
def stamp (milliseconds : Nat) : String :=
  -- without a fraction, the three characters are a colon and the seconds
  let text := (durationText (1000 * milliseconds)).toList
  String.ofList (text.take (text.length - 3))

/-- A message with its stamp in front. -/
def stampedLine (referenceSeconds createdMilliseconds : Int) (message : String) : String :=
  stamp (sinceReference referenceSeconds createdMilliseconds) ++ " " ++ message

end ElapsedTime

end LogicForms
