import LogicForms.Proofs.Normalization
import Mathlib.Data.List.TakeWhile

/-!
# Replacing what a pattern covers

A rule goes over the text once, from left to right (`Rule.apply_induction`). What it makes of a
text is made up of characters of the text and of its image (`Rule.mem_apply`), and of two pieces of
text it makes the two results, unless an occurrence could go over the boundary between them
(`Pattern.Separates`, `Rule.apply_append`). Where such an occurrence could not get past the first
character behind the boundary (`Pattern.stopsAt`), the pieces are separate.

`applyAll` applies rules one after the other.
-/

set_option autoImplicit false

namespace LogicForms.Surface

variable {p : Pattern} {r : Rule} {c : Char} {n : Nat} {s front back : List Char}

/-! ### One occurrence -/

/-- Is there an occurrence of the pattern at the beginning of the text? -/
def Pattern.Covers (p : Pattern) (s : List Char) : Prop := ∃ n, p.width? s = some (n + 1)

/-- A pattern covers only what is there. -/
theorem Pattern.width?_le (h : p.width? s = some n) : n ≤ s.length := by
  unfold width? at h
  split at h
  · split at h <;> simp_all
  · split at h
    · rename_i hprefix
      cases h
      exact (List.isPrefixOf_iff_prefix.1 hprefix).length_le
    · simp at h
  · split at h
    · cases h
      simp
    · simp at h
  · simp only at h
    split at h
    · cases h
      simpa using (List.takeWhile_prefix isLetter).length_le
    · simp at h
  · simp at h

/-- No occurrence starts with a character that does not start the pattern. -/
theorem Pattern.not_covers_of_not_mem (h : c ∉ p.starts) : ¬ p.Covers (c :: s) :=
  fun ⟨n, hn⟩ => width?_ne_some_succ h s n hn

/-- A pattern that starts with a backslash is nowhere else. -/
theorem Pattern.width?_eq_none (hp : p.starts = ['\\']) (hc : c ≠ '\\') (s : List Char) :
    p.width? (c :: s) = none := by
  cases p with
  | oneOf chars =>
    have hchars : chars = ['\\'] := hp
    simp [width?, hchars, hc]
  | literal chars =>
    cases chars with
    | nil => exact absurd hp (by simp [starts])
    | cons d chars =>
      have hd : d = '\\' := by simpa [starts] using hp
      simp [width?, hd, Ne.symm hc]
  | escaped chars =>
    unfold width?
    split <;> simp_all
  | command names =>
    unfold width?
    split <;> simp_all

namespace Rule

@[simp] theorem apply_nil (r : Rule) : r.apply [] = [] := r.applyFrom_nil 0

/-- A character with which no occurrence starts stays. -/
theorem apply_cons (h : ¬ r.pattern.Covers (c :: s)) : r.apply (c :: s) = c :: r.apply s := by
  rw [apply, applyFrom]
  split
  · rename_i n hn
    exact absurd ⟨n, hn⟩ h
  · rfl

/-- An occurrence is replaced by the image. -/
theorem apply_of_width? (h : r.pattern.width? s = some (n + 1)) :
    r.apply s = r.image ++ r.apply (s.drop (n + 1)) := by
  cases s with
  | nil => exact absurd (Pattern.width?_le h) (by simp)
  | cons c s =>
    rw [apply, applyFrom, h]
    exact congrArg (r.image ++ ·) (r.applyFrom_eq_apply_drop n s)

/-- **Induction over what a rule does**, from the front of the text on. -/
theorem apply_induction (r : Rule) {P : List Char → Prop} (nil : P [])
    (keep : ∀ c s, ¬ r.pattern.Covers (c :: s) → P s → P (c :: s))
    (replace : ∀ s n, r.pattern.width? s = some (n + 1) → P (s.drop (n + 1)) → P s)
    (s : List Char) : P s := by
  induction hlength : s.length using Nat.strongRecOn generalizing s with
  | _ k ih =>
    subst hlength
    by_cases hcovers : r.pattern.Covers s
    · obtain ⟨n, hn⟩ := hcovers
      have hle := Pattern.width?_le hn
      exact replace s n hn (ih _ (by rw [List.length_drop]; omega) _ rfl)
    · cases s with
      | nil => exact nil
      | cons c s => exact keep c s hcovers (ih s.length (by simp) s rfl)

/-- No other characters than those of the text and of the image. -/
theorem mem_apply (h : c ∈ r.apply s) : c ∈ s ∨ c ∈ r.image := by
  induction s using r.apply_induction with
  | nil => exact absurd h (by simp)
  | keep d s hcovers ih =>
    rw [apply_cons hcovers] at h
    rcases List.mem_cons.1 h with h | h
    · exact Or.inl (by simp [h])
    · exact (ih h).imp_left (List.mem_cons_of_mem d)
  | replace s n hn ih =>
    rw [apply_of_width? hn] at h
    rcases List.mem_append.1 h with h | h
    · exact Or.inr h
    · exact (ih h).imp_left List.mem_of_mem_drop

/-- A rule removes a character if an occurrence starts wherever the character is. -/
theorem not_mem_apply (hc : ∀ s, r.pattern.Covers (c :: s)) (himage : c ∉ r.image) :
    c ∉ r.apply s := by
  induction s using r.apply_induction with
  | nil => simp
  | keep d s hcovers ih =>
    have hne : c ≠ d := fun heq => hcovers (heq ▸ hc s)
    simp [apply_cons hcovers, hne, ih]
  | replace s n hn ih => simp [apply_of_width? hn, himage, ih]

/-- A rule with an image starts the text with what was there before, or with the image. -/
theorem head?_apply (himage : r.image ≠ []) (h : c ∈ (r.apply s).head?) :
    c ∈ s.head? ∨ c ∈ r.image.head? := by
  by_cases hcovers : r.pattern.Covers s
  · obtain ⟨n, hn⟩ := hcovers
    obtain ⟨d, image, heq⟩ := List.exists_cons_of_ne_nil himage
    rw [apply_of_width? hn, heq] at h
    exact Or.inr (heq ▸ h)
  · cases s with
    | nil => exact absurd h (by simp)
    | cons d s =>
      rw [apply_cons hcovers] at h
      exact Or.inl h

/-- A rule with an image leaves something of a text that is not empty. -/
theorem apply_ne_nil (himage : r.image ≠ []) (hs : s ≠ []) : r.apply s ≠ [] := by
  by_cases hcovers : r.pattern.Covers s
  · obtain ⟨n, hn⟩ := hcovers
    simp [apply_of_width? hn, himage]
  · obtain ⟨c, s, rfl⟩ := List.exists_cons_of_ne_nil hs
    simp [apply_cons hcovers]

/-- A rule with an image ends the text with what was there before, or with the image. -/
theorem getLast?_apply (himage : r.image ≠ []) (h : c ∈ (r.apply s).getLast?) :
    c ∈ s.getLast? ∨ c ∈ r.image := by
  induction s using r.apply_induction with
  | nil => exact absurd h (by simp)
  | keep d s hcovers ih =>
    rw [apply_cons hcovers] at h
    cases s with
    | nil => exact Or.inl h
    | cons e s =>
      -- the rest is not emptied, so that the last character is one of the rest
      have hne := apply_ne_nil himage (List.cons_ne_nil e s)
      obtain ⟨e', s', heq⟩ := List.exists_cons_of_ne_nil hne
      rw [heq, List.getLast?_cons_cons] at h
      rw [heq] at ih
      rw [List.getLast?_cons_cons]
      exact ih h
  | replace s n hn ih =>
    rw [apply_of_width? hn, List.getLast?_append] at h
    cases hlast : (r.apply (s.drop (n + 1))).getLast? with
    | none =>
      rw [hlast, Option.none_or] at h
      exact Or.inr (List.mem_of_getLast? h)
    | some d =>
      rw [hlast, Option.some_or] at h
      refine (ih (hlast ▸ h)).imp_left fun hc => ?_
      have hne : s.drop (n + 1) ≠ [] := fun hnil => by simp [hnil] at hc
      obtain ⟨front, hfront⟩ := List.drop_suffix (n + 1) s
      rw [← hfront, List.getLast?_append, hc, Option.some_or]
      rfl

/-- A rule that removes single characters leaves the other ones. -/
theorem apply_oneOf_nil (chars s : List Char) :
    (⟨.oneOf chars, []⟩ : Rule).apply s = s.filter fun c => !chars.contains c := by
  induction s with
  | nil => simp
  | cons c s ih =>
    by_cases hc : chars.contains c = true
    · have hwidth : (Pattern.oneOf chars).width? (c :: s) = some (0 + 1) := by
        rw [Pattern.width?, if_pos hc]
      rw [apply_of_width? hwidth, List.filter_cons_of_neg (by simpa using hc)]
      exact ih
    · have hcovers : ¬ (Pattern.oneOf chars).Covers (c :: s) :=
        Pattern.not_covers_of_not_mem (by simpa [Pattern.starts] using hc)
      rw [apply_cons hcovers, ih, List.filter_cons_of_pos (by simpa using hc)]

end Rule

/-! ### Two pieces of text -/

/-- No occurrence that starts in the first piece depends on what is in the second one. -/
def Pattern.Separates (p : Pattern) (front back : List Char) : Prop :=
  ∀ s, s <:+ front → s ≠ [] → p.width? (s ++ back) = p.width? s

/-- **Separate pieces are rewritten one after the other.** -/
theorem Rule.apply_append (h : r.pattern.Separates front back) :
    r.apply (front ++ back) = r.apply front ++ r.apply back := by
  induction front using r.apply_induction with
  | nil => simp
  | keep c s hcovers ih =>
    have hsame := h (c :: s) List.suffix_rfl (by simp)
    have hcovers' : ¬ r.pattern.Covers (c :: (s ++ back)) := fun ⟨n, hn⟩ =>
      hcovers ⟨n, hsame.symm.trans hn⟩
    rw [List.cons_append, apply_cons hcovers', apply_cons hcovers,
      ih fun t ht hne => h t (ht.trans (List.suffix_cons c s)) hne, List.cons_append]
  | replace s n hn ih =>
    have hle := Pattern.width?_le hn
    have hne : s ≠ [] := List.ne_nil_of_length_pos (by omega)
    have hsame := h s List.suffix_rfl hne
    rw [apply_of_width? hn, apply_of_width? (hsame.trans hn), List.drop_append_of_le_length hle,
      ih fun t ht hne => h t (ht.trans (List.drop_suffix _ s)) hne, List.append_assoc]

/-- Characters with which no occurrence starts stay at the front of a text. -/
theorem Rule.apply_append_of_forall (h : ∀ c ∈ front, c ∉ r.pattern.starts) (back : List Char) :
    r.apply (front ++ back) = front ++ r.apply back := by
  induction front with
  | nil => rfl
  | cons c front ih =>
    obtain ⟨hc, hfront⟩ := List.forall_mem_cons.1 h
    rw [List.cons_append, apply_cons (Pattern.not_covers_of_not_mem hc), ih hfront,
      List.cons_append]

/-- Can no occurrence contain the character, unless it starts with it? -/
def Pattern.stopsAt : Pattern → Char → Bool
  | .oneOf _, _ => true
  | .literal chars, c => !chars.tail.contains c
  | .escaped chars, c => !chars.contains c
  | .command _, c => !isLetter c

/-- What is at the front of a text, without some character, is in front of that character. -/
theorem prefix_append_cons_iff {chars : List Char} (hc : c ∉ chars) (s rest : List Char) :
    chars <+: s ++ c :: rest ↔ chars <+: s := by
  induction chars generalizing s with
  | nil => simp
  | cons d chars ih =>
    have hne : d ≠ c := fun heq => hc (by simp [heq])
    have hrest : c ∉ chars := fun h => hc (by simp [h])
    cases s with
    | nil => simp [hne]
    | cons e s => simp [ih hrest]

/-- No letters in front of the text would go on with it. -/
def EndsLetters (s : List Char) : Prop := ∀ c ∈ s.head?, isLetter c = false

theorem endsLetters_nil : EndsLetters [] := by
  intro c hc
  exact absurd hc (by simp)

theorem endsLetters_cons (h : isLetter c = false) : EndsLetters (c :: s) := by
  intro d hd
  obtain rfl : c = d := Option.some.inj hd
  exact h

/-- The letters at the front of a text end where there is another character. -/
theorem takeWhile_isLetter_append (h : s.takeWhile isLetter ≠ s ∨ EndsLetters back) :
    (s ++ back).takeWhile isLetter = s.takeWhile isLetter := by
  rw [List.takeWhile_append]
  split
  · rename_i hlength
    have hall := (List.takeWhile_prefix isLetter).eq_of_length hlength
    have hback := h.resolve_left (not_not_intro hall)
    cases back with
    | nil => simp [hall]
    | cons c back => simp [hall, hback c (by simp)]
  · rfl

/-- No letter stands behind the letters at the front of a text. -/
theorem endsLetters_dropWhile (s : List Char) : EndsLetters (s.dropWhile isLetter) := by
  intro c hc
  have hhead := List.head?_dropWhile_not isLetter s
  rw [hc] at hhead
  simpa using hhead

/-- **Pieces are separate if an occurrence stops at the second one.** -/
theorem Pattern.separates_of_stopsAt (h : p.stopsAt c = true) : p.Separates front (c :: back) := by
  intro s _ hne
  obtain ⟨d, s, rfl⟩ := List.exists_cons_of_ne_nil hne
  cases p with
  | oneOf chars => rfl
  | literal chars =>
    cases chars with
    | nil => simp [width?]
    | cons e chars =>
      have hc : c ∉ chars := by simpa [stopsAt] using h
      simp [width?, prefix_append_cons_iff hc]
  | escaped chars =>
    have hc : c ∉ chars := by simpa [stopsAt] using h
    by_cases hd : d = '\\'
    · subst hd
      cases s with
      | nil => simp [width?, hc]
      | cons e s => rfl
    · rw [List.cons_append, width?_eq_none rfl hd, width?_eq_none rfl hd]
  | command names =>
    have hc : isLetter c = false := by simpa [stopsAt] using h
    by_cases hd : d = '\\'
    · subst hd
      have hletters : (s ++ c :: back).takeWhile isLetter = s.takeWhile isLetter :=
        takeWhile_isLetter_append (Or.inr (endsLetters_cons hc))
      simp [width?, hletters]
    · rw [List.cons_append, width?_eq_none rfl hd, width?_eq_none rfl hd]

/-- Pieces are separate for an escape if the first one does not end in a backslash. -/
theorem Pattern.separates_escaped {chars : List Char} (h : front.getLast? ≠ some '\\') :
    (Pattern.escaped chars).Separates front back := by
  intro s hsuffix hne
  obtain ⟨d, s, rfl⟩ := List.exists_cons_of_ne_nil hne
  by_cases hd : d = '\\'
  · subst hd
    cases s with
    | nil =>
      obtain ⟨before, rfl⟩ := hsuffix
      exact absurd List.getLast?_concat h
    | cons e s => rfl
  · rw [List.cons_append, width?_eq_none rfl hd, width?_eq_none rfl hd]

/-- Pieces are separate for commands if the letters at the end of the first one are no name of a
command, neither alone nor with the letters at the front of the second one. -/
theorem Pattern.separates_command {names : List (List Char)}
    (h : ∀ w, '\\' :: w <:+ front → (∀ c ∈ w, isLetter c = true) →
      w ∉ names ∧ (w ++ back).takeWhile isLetter ∉ names) :
    (Pattern.command names).Separates front back := by
  intro s hsuffix hne
  obtain ⟨d, s, rfl⟩ := List.exists_cons_of_ne_nil hne
  by_cases hd : d = '\\'
  · subst hd
    by_cases hs : s.takeWhile isLetter = s
    · -- the letters reach the boundary, and may go on behind it
      obtain ⟨hshort, hlong⟩ := h s hsuffix (List.takeWhile_eq_self_iff.1 hs)
      simp [width?, hs, hshort, hlong]
    · simp [width?, takeWhile_isLetter_append (Or.inl hs)]
  · rw [List.cons_append, width?_eq_none rfl hd, width?_eq_none rfl hd]

/-! ### Rules one after the other -/

/-- The text after all of the rules, in order. -/
def applyAll (rs : List Rule) (s : List Char) : List Char := rs.foldl (fun s rule => rule.apply s) s

theorem applyAll_cons (r : Rule) (rs : List Rule) (s : List Char) :
    applyAll (r :: rs) s = applyAll rs (r.apply s) := rfl

theorem applyAll_append (rs rs' : List Rule) (s : List Char) :
    applyAll (rs ++ rs') s = applyAll rs' (applyAll rs s) := List.foldl_append

theorem applyAll_concat (rs : List Rule) (r : Rule) (s : List Char) :
    applyAll (rs ++ [r]) s = r.apply (applyAll rs s) := applyAll_append rs [r] s

/-- Of nothing, the rules make nothing. -/
theorem applyAll_empty (rs : List Rule) : applyAll rs [] = [] := by
  induction rs with
  | nil => rfl
  | cons r rs ih => rw [applyAll_cons, Rule.apply_nil, ih]

/-- A character that stops all occurrences and starts none separates the text. -/
theorem applyAll_append_cons {rs : List Rule}
    (h : ∀ r ∈ rs, r.pattern.stopsAt c = true ∧ c ∉ r.pattern.starts) (front back : List Char) :
    applyAll rs (front ++ c :: back) = applyAll rs front ++ c :: applyAll rs back := by
  induction rs generalizing front back with
  | nil => rfl
  | cons r rs ih =>
    obtain ⟨⟨hstops, hstarts⟩, hrs⟩ := List.forall_mem_cons.1 h
    rw [applyAll_cons, applyAll_cons, applyAll_cons,
      Rule.apply_append (Pattern.separates_of_stopsAt hstops),
      Rule.apply_cons (Pattern.not_covers_of_not_mem hstarts), ih hrs]

/-- A character that no image has and that some rule removes is not left. -/
theorem not_mem_applyAll {rs : List Rule} (himage : ∀ r ∈ rs, c ∉ r.image)
    (h : c ∉ s ∨ ∃ r ∈ rs, ∀ s, r.pattern.Covers (c :: s)) : c ∉ applyAll rs s := by
  induction rs generalizing s with
  | nil => exact h.resolve_right (by simp)
  | cons r rs ih =>
    obtain ⟨hr, hrs⟩ := List.forall_mem_cons.1 himage
    refine ih hrs ?_
    rcases h with hs | ⟨r', hmem, hcovers⟩
    · exact Or.inl fun hc => (Rule.mem_apply hc).elim hs hr
    · rcases List.mem_cons.1 hmem with rfl | hmem
      · exact Or.inl (Rule.not_mem_apply hcovers hr)
      · exact Or.inr ⟨r', hmem, hcovers⟩

end LogicForms.Surface
