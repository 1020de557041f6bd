import LogicForms.ElapsedTime

/-!
# Stamps of elapsed time

A stamp shows the milliseconds if there is a fraction of a second, and leaves out the seconds
otherwise (`ElapsedTime.stamp_eq`). `ElapsedTime.readStamp?` reads the numbers in a stamp. For a
fraction of a second it gives the milliseconds back, and for whole seconds the beginning of their
minute (`ElapsedTime.readStamp?_stamp`). So different times have different stamps unless both are
whole seconds of one minute (`ElapsedTime.stamp_exact`).
-/

set_option autoImplicit false

namespace LogicForms.ElapsedTime

/-! ### Padded numbers -/

theorem toList_padded (width n : Nat) : (padded width n).toList =
    List.replicate (width - (Nat.toDigits 10 n).length) '0' ++ Nat.toDigits 10 n := by
  have hdigits : (toString n).toList = Nat.toDigits 10 n := by
    rw [Nat.toString_eq_repr, Nat.toList_repr]
  simp only [padded, String.toList_append, String.toList_ofList, ← String.length_toList, hdigits]

/-- A number that has no more digits than there are places fills exactly these places. -/
theorem length_padded {width n : Nat} (h : (Nat.toDigits 10 n).length ≤ width) :
    (padded width n).length = width := by
  rw [← String.length_toList, toList_padded, List.length_append, List.length_replicate]
  omega

/-- Minutes and seconds have two digits. -/
theorem length_padded_two {n : Nat} (h : n < 60) : (padded 2 n).length = 2 := by
  apply length_padded
  exact (Nat.length_toDigits_le_iff (by decide) (by decide)).2 (by omega)

/-- Milliseconds have three digits. -/
theorem length_padded_three {n : Nat} (h : n < 1000) : (padded 3 n).length = 3 := by
  apply length_padded
  exact (Nat.length_toDigits_le_iff (by decide) (by decide)).2 (by omega)

theorem isDigit_of_mem_padded {width n : Nat} {c : Char} (h : c ∈ (padded width n).toList) :
    c.isDigit = true := by
  rw [toList_padded, List.mem_append] at h
  rcases h with h | h
  · rw [(List.mem_replicate.1 h).2]
    rfl
  · exact Nat.isDigit_of_mem_toDigits (by decide) (by decide) h

/-- Leading zeros do not count. -/
theorem ofDigitChars_padded (width n : Nat) :
    Nat.ofDigitChars 10 (padded width n).toList 0 = n := by
  rw [toList_padded, Nat.ofDigitChars_append, Nat.ofDigitChars_replicate_zero, Nat.mul_zero,
    Nat.ofDigitChars_ten_toDigits]

/-- Numerals are numbers without leading zeros. -/
theorem padded_zero (n : Nat) : padded 0 n = toString n := by
  simp [padded]

/-- Each factor of ten is a zero at the end. -/
theorem toDigits_mul_thousand {n : Nat} (h : 0 < n) :
    Nat.toDigits 10 (1000 * n) = Nat.toDigits 10 n ++ ['0', '0', '0'] := by
  have hten {m : Nat} (hm : 0 < m) : Nat.toDigits 10 (10 * m) = Nat.toDigits 10 m ++ ['0'] :=
    (Nat.toDigits_append_toDigits (b := 10) (d := 0) (by decide) hm (by decide)).symm
  calc Nat.toDigits 10 (1000 * n)
      = Nat.toDigits 10 (10 * (10 * (10 * n))) := by congr 1; omega
    _ = Nat.toDigits 10 n ++ ['0', '0', '0'] := by
      rw [hten (by omega), hten (by omega), hten h, List.append_assoc, List.append_assoc]
      rfl

theorem padded_mul_thousand (width : Nat) {n : Nat} (h : 0 < n) :
    padded (width + 3) (1000 * n) = padded width n ++ "000" := by
  apply String.toList_injective
  rw [String.toList_append, toList_padded, toList_padded, toDigits_mul_thousand h,
    List.length_append, List.append_assoc]
  congr 2
  exact Nat.add_sub_add_right width 3 _

/-! ### The two forms of a stamp -/

/-- Days, hours and minutes of a number of milliseconds: `[D day(s), ]H:MM`. -/
def minutesText (ms : Nat) : String :=
  daysText (ms / 86400000) ++ toString (ms / 3600000 % 24) ++ ":" ++ padded 2 (ms / 60000 % 60)

/-- A number of milliseconds in full: `[D day(s), ]H:MM:SS.mmm`. -/
def fullText (ms : Nat) : String :=
  minutesText ms ++ ":" ++ padded 2 (ms / 1000 % 60) ++ "." ++ padded 3 (ms % 1000)

/-- A duration of whole milliseconds has a fraction of three digits and three zeros, or none. -/
theorem durationText_mul_thousand (ms : Nat) : durationText (1000 * ms) =
    minutesText ms ++ ":" ++ padded 2 (ms / 1000 % 60) ++
      if ms % 1000 = 0 then "" else "." ++ padded 3 (ms % 1000) ++ "000" := by
  have hseconds : 1000 * ms / 1000000 = ms / 1000 := by omega
  have hfraction : 1000 * ms % 1000000 = 1000 * (ms % 1000) := by omega
  have htext : (if 1000 * (ms % 1000) = 0 then "" else "." ++ padded 6 (1000 * (ms % 1000))) =
      if ms % 1000 = 0 then "" else "." ++ padded 3 (ms % 1000) ++ "000" := by
    by_cases hms : ms % 1000 = 0
    · rw [if_pos hms, if_pos (by omega)]
    · rw [if_neg hms, if_neg (by omega), padded_mul_thousand 3 (Nat.pos_of_ne_zero hms),
        String.append_assoc]
  simp only [durationText, hseconds, hfraction, htext, Nat.div_div_eq_div_mul, minutesText,
    String.append_assoc]

/-- The stamp is the text of the duration without its last three characters. -/
theorem stamp_of_append {ms : Nat} {text rest : String}
    (h : durationText (1000 * ms) = text ++ rest) (hrest : rest.length = 3) : stamp ms = text := by
  have hlength : (text ++ rest).toList.length - 3 = text.toList.length := by
    have hthree : rest.toList.length = 3 := String.length_toList.trans hrest
    rw [String.toList_append, List.length_append, hthree, Nat.add_sub_cancel]
  simp only [stamp, h, hlength]
  rw [String.toList_append, List.take_left, String.ofList_toList]

/-- **A stamp shows milliseconds if there is a fraction of a second, and no seconds otherwise.** -/
theorem stamp_eq (ms : Nat) :
    stamp ms = if ms % 1000 = 0 then minutesText ms else fullText ms := by
  have hduration := durationText_mul_thousand ms
  by_cases hms : ms % 1000 = 0
  · -- the three characters are a colon and the seconds
    rw [if_pos hms, String.append_empty, String.append_assoc] at hduration
    rw [if_pos hms]
    apply stamp_of_append hduration
    rw [String.length_append, length_padded_two (Nat.mod_lt _ (by decide))]
    rfl
  · -- the three characters are the zeros of the microseconds
    rw [if_neg hms, ← String.append_assoc, ← String.append_assoc] at hduration
    rw [if_neg hms]
    exact stamp_of_append hduration rfl

/-- The stamp is the text in full exactly if there is a fraction of a second. -/
theorem stamp_eq_fullText_iff (ms : Nat) : stamp ms = fullText ms ↔ ms % 1000 ≠ 0 := by
  rw [stamp_eq]
  by_cases hms : ms % 1000 = 0
  · rw [if_pos hms]
    constructor
    · -- the text in full is longer than the one up to the minutes
      intro h
      have hlength := congrArg String.length h
      simp only [fullText, String.length_append] at hlength
      have hcolon : ":".length = 1 := by decide
      omega
    · intro hne
      exact absurd hms hne
  · rw [if_neg hms]
    exact ⟨fun _ => hms, fun _ => rfl⟩

/-! ### Reading a stamp -/

/-- The numbers in a text: the values of its runs of digits, from left to right. -/
def numbersIn (text : List Char) : List Nat :=
  ((text.splitOnP fun c => !c.isDigit).filter fun run => !run.isEmpty).map
    fun run => Nat.ofDigitChars 10 run 0

/-- The milliseconds for days, if there are any, hours and minutes, and for seconds and
milliseconds, if there are any. -/
def ofNumbers? : List Nat → Option Nat
  | [hours, minutes] => some ((hours * 60 + minutes) * 60000)
  | [days, hours, minutes] => some (((days * 24 + hours) * 60 + minutes) * 60000)
  | [hours, minutes, seconds, ms] => some (((hours * 60 + minutes) * 60 + seconds) * 1000 + ms)
  | [days, hours, minutes, seconds, ms] =>
    some ((((days * 24 + hours) * 60 + minutes) * 60 + seconds) * 1000 + ms)
  | _ => none

/-- The milliseconds that a stamp stands for. -/
def readStamp? (text : String) : Option Nat := ofNumbers? (numbersIn text.toList)

section

variable {c : Char} {text : List Char}

theorem numbersIn_cons (hc : c.isDigit = false) : numbersIn (c :: text) = numbersIn text := by
  simp [numbersIn, List.splitOnP_cons_eq_if_modifyHead, hc]

/-- Text without digits does not count. -/
theorem numbersIn_append {front : List Char} (h : front.any Char.isDigit = false) :
    numbersIn (front ++ text) = numbersIn text := by
  induction front with
  | nil => rfl
  | cons c front ih =>
    rw [List.any_cons, Bool.or_eq_false_iff] at h
    rw [List.cons_append, numbersIn_cons h.1, ih h.2]

/-- A number in front of the text ends there: the text does not begin with a digit. -/
def EndsNumber (text : List Char) : Prop := ∀ c ∈ text.head?, c.isDigit = false

theorem endsNumber_nil : EndsNumber [] := by
  intro c hc
  cases hc

theorem endsNumber_append {front : List Char}
    (h : front.head?.any (fun c => !c.isDigit) = true) : EndsNumber (front ++ text) := by
  cases front with
  | nil => cases h
  | cons c front =>
    intro d hd
    cases hd
    simpa using h

theorem numbersIn_padded_append (width n : Nat) (h : EndsNumber text) :
    numbersIn ((padded width n).toList ++ text) = n :: numbersIn text := by
  have hdigits : ∀ c ∈ (padded width n).toList, (!c.isDigit) = false := by
    intro c hc
    rw [isDigit_of_mem_padded hc, Bool.not_true]
  have hne : (padded width n).toList ≠ [] := by simp [toList_padded, Nat.toDigits_ne_nil]
  cases text with
  | nil =>
    rw [List.append_nil, numbersIn, List.splitOnP_eq_singleton hdigits]
    simp [hne, ofDigitChars_padded, numbersIn]
  | cons c text =>
    have hc : c.isDigit = false := h c rfl
    rw [numbersIn_cons hc, numbersIn,
      List.splitOnP_append_cons_of_forall_mem hdigits c (by simp [hc])]
    simp [hne, ofDigitChars_padded, numbersIn]

/-- The days are the first number, unless there are none. -/
theorem numbersIn_daysText (days : Nat) :
    numbersIn ((daysText days).toList ++ text) =
      (if days = 0 then [] else [days]) ++ numbersIn text := by
  have hmany :
      numbersIn ((toString days ++ " days, ").toList ++ text) = days :: numbersIn text := by
    rw [← padded_zero, String.toList_append, List.append_assoc,
      numbersIn_padded_append 0 days (endsNumber_append (by decide)), numbersIn_append (by decide)]
  have hone : numbersIn ("1 day, ".toList ++ text) = 1 :: numbersIn text := by
    have hword : "1 day, ".toList = (padded 0 1).toList ++ " day, ".toList := by decide
    rw [hword, List.append_assoc, numbersIn_padded_append 0 1 (endsNumber_append (by decide)),
      numbersIn_append (by decide)]
  rw [daysText]
  by_cases hzero : days = 0
  · rw [if_pos hzero, if_pos hzero]
    rfl
  · rw [if_neg hzero, if_neg hzero]
    by_cases hdays : days = 1
    · subst hdays
      rw [if_pos rfl, hone]
      rfl
    · rw [if_neg hdays, hmany]
      rfl

/-- The numbers in front of the seconds. -/
def minuteNumbers (ms : Nat) : List Nat :=
  (if ms / 86400000 = 0 then [] else [ms / 86400000]) ++ [ms / 3600000 % 24, ms / 60000 % 60]

theorem numbersIn_minutesText (ms : Nat) (h : EndsNumber text) :
    numbersIn ((minutesText ms).toList ++ text) = minuteNumbers ms ++ numbersIn text := by
  have hminutes : numbersIn (":".toList ++ ((padded 2 (ms / 60000 % 60)).toList ++ text)) =
      ms / 60000 % 60 :: numbersIn text := by
    rw [numbersIn_append (by decide), numbersIn_padded_append 2 _ h]
  simp only [minutesText, ← padded_zero, String.toList_append, List.append_assoc]
  rw [numbersIn_daysText, numbersIn_padded_append 0 _ (endsNumber_append (by decide)), hminutes,
    minuteNumbers, List.append_assoc]
  rfl

end

theorem numbersIn_fullText (ms : Nat) :
    numbersIn (fullText ms).toList = minuteNumbers ms ++ [ms / 1000 % 60, ms % 1000] := by
  have hms : numbersIn (".".toList ++ (padded 3 (ms % 1000)).toList) = [ms % 1000] := by
    rw [numbersIn_append (by decide), ← List.append_nil (padded 3 _).toList,
      numbersIn_padded_append 3 _ endsNumber_nil]
    rfl
  simp only [fullText, String.toList_append, List.append_assoc]
  rw [numbersIn_minutesText ms (endsNumber_append (by decide)), numbersIn_append (by decide),
    numbersIn_padded_append 2 _ (endsNumber_append (by decide)), hms]

/-- **A stamp is read as the milliseconds that it shows, and without seconds as the beginning of its
minute.** -/
theorem readStamp?_stamp (ms : Nat) :
    readStamp? (stamp ms) = some (if ms % 1000 = 0 then 60000 * (ms / 60000) else ms) := by
  rw [stamp_eq]
  by_cases hms : ms % 1000 = 0
  · rw [if_pos hms, if_pos hms, readStamp?, ← List.append_nil (minutesText ms).toList,
      numbersIn_minutesText ms endsNumber_nil, minuteNumbers]
    by_cases hdays : ms / 86400000 = 0
    · rw [if_pos hdays]
      exact congrArg some (by omega)
    · rw [if_neg hdays]
      exact congrArg some (by omega)
  · rw [if_neg hms, if_neg hms, readStamp?, numbersIn_fullText, minuteNumbers]
    by_cases hdays : ms / 86400000 = 0
    · rw [if_pos hdays]
      exact congrArg some (by omega)
    · rw [if_neg hdays]
      exact congrArg some (by omega)

/-- The text up to the minutes depends on the minutes only. -/
theorem minutesText_congr {m n : Nat} (h : m / 60000 = n / 60000) :
    minutesText m = minutesText n := by
  have hhours : m / 3600000 = n / 3600000 := by omega
  have hdays : m / 86400000 = n / 86400000 := by omega
  rw [minutesText, minutesText, h, hhours, hdays]

/-- Two times have one stamp only if they are whole seconds of one minute, or equal. -/
theorem stamp_eq_stamp_iff (m n : Nat) : stamp m = stamp n ↔
    m = n ∨ (m % 1000 = 0 ∧ n % 1000 = 0 ∧ m / 60000 = n / 60000) := by
  constructor
  · intro h
    have hread := congrArg readStamp? h
    rw [readStamp?_stamp, readStamp?_stamp, Option.some.injEq] at hread
    by_cases hm : m % 1000 = 0
    · by_cases hn : n % 1000 = 0
      · rw [if_pos hm, if_pos hn] at hread
        exact Or.inr ⟨hm, hn, by omega⟩
      · rw [if_pos hm, if_neg hn] at hread
        omega
    · by_cases hn : n % 1000 = 0
      · rw [if_neg hm, if_pos hn] at hread
        omega
      · rw [if_neg hm, if_neg hn] at hread
        exact Or.inl hread
  · rintro (rfl | ⟨hm, hn, hminutes⟩)
    · rfl
    · rw [stamp_eq, stamp_eq, if_pos hm, if_pos hn, minutesText_congr hminutes]

/-! ### Main result -/

/-- **Elapsed times are shown to the millisecond exactly if there is a fraction of a second.** The
time that has passed is never negative. With a fraction of a second, its stamp is the full text,
with two digits for minutes and seconds and three for milliseconds, from which the time can be read
back. For whole seconds, the stamp is the text up to the minutes, from which the minute can be read
back. Different times have different stamps, unless both are whole seconds of one minute. -/
theorem stamp_exact (reference created : Int) (ms : Nat)
    (hms : (ms : Int) = max (created - 1000 * reference) 0) :
    (stamp (sinceReference reference created) = fullText ms ↔ ms % 1000 ≠ 0) ∧
    (ms % 1000 ≠ 0 → readStamp? (stamp (sinceReference reference created)) = some ms) ∧
    (ms % 1000 = 0 → stamp (sinceReference reference created) = minutesText ms ∧
      readStamp? (stamp (sinceReference reference created)) = some (60000 * (ms / 60000))) ∧
    ((padded 2 (ms / 60000 % 60)).length = 2 ∧ (padded 2 (ms / 1000 % 60)).length = 2 ∧
      (padded 3 (ms % 1000)).length = 3 ∧
      ∀ width n, ∀ c ∈ (padded width n).toList, c.isDigit = true) ∧
    ∀ n, stamp n = stamp (sinceReference reference created) ↔
      n = ms ∨ (n % 1000 = 0 ∧ ms % 1000 = 0 ∧ n / 60000 = ms / 60000) := by
  have helapsed : sinceReference reference created = ms := by
    rw [sinceReference]
    omega
  have hread := readStamp?_stamp ms
  rw [helapsed]
  refine ⟨stamp_eq_fullText_iff ms, ?_, ?_, ?_, fun n => stamp_eq_stamp_iff n ms⟩
  · intro hfraction
    rwa [if_neg hfraction] at hread
  · intro hwhole
    rw [if_pos hwhole] at hread
    exact ⟨(stamp_eq ms).trans (if_pos hwhole), hread⟩
  · exact ⟨length_padded_two (Nat.mod_lt _ (by decide)),
      length_padded_two (Nat.mod_lt _ (by decide)),
      length_padded_three (Nat.mod_lt _ (by decide)), fun _ _ _ => isDigit_of_mem_padded⟩

/-- A day, three hours, three minutes and four seconds, with and without a fraction. -/
theorem stamp_exact_samples :
    stamp (sinceReference 1000 98384005) = "1 day, 3:03:04.005" ∧
      readStamp? "1 day, 3:03:04.005" = some 97384005 ∧
      stamp (sinceReference 1000 98384000) = "1 day, 3:03" ∧
      readStamp? "1 day, 3:03" = some 97380000 := by
  obtain ⟨hfull, hread, -, -, -⟩ := stamp_exact 1000 98384005 97384005 (by decide)
  obtain ⟨-, -, hwhole, -, -⟩ := stamp_exact 1000 98384000 97384000 (by decide)
  have hfullText : fullText 97384005 = "1 day, 3:03:04.005" := by decide +kernel
  have hminutesText : minutesText 97384000 = "1 day, 3:03" := by decide +kernel
  have hstamp := (hfull.2 (by decide)).trans hfullText
  have hminutes := (hwhole (by decide)).1.trans hminutesText
  exact ⟨hstamp, hstamp ▸ hread (by decide), hminutes, hminutes ▸ (hwhole (by decide)).2⟩

/-- One minute and one minute and one second have the same stamp, which shows no seconds. -/
theorem stamp_whole_seconds :
    stamp (sinceReference 0 60000) = "0:01" ∧ fullText 60000 = "0:01:00.000" ∧
      stamp (sinceReference 0 61000) = "0:01" ∧ fullText 61000 = "0:01:01.000" := by
  decide +kernel

end LogicForms.ElapsedTime
