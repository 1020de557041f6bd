import LogicForms.Proofs.Normalization

/-!
# Words of a text

A text is nothing, or starts with a blank, or starts with a word that goes up to the next blank or
to the end. `words_induction` is the induction over these cases, and the facts about collapsed text
follow it: collapsed text is tidy or empty (`collapse_eq_nil_or_isTidy`), and where spaces are the
only blanks, collapsing is splitting at spaces, leaving out the empty pieces, and joining again with
single spaces (`collapse_eq_intercalate`).
-/

set_option autoImplicit false

namespace LogicForms.Text

/-- Is the text a word: not empty, and without blanks? -/
structure IsWord (w : List Char) : Prop where
  /-- There is a character in it. -/
  ne_nil : w ≠ []
  /-- No character is blank. -/
  isBlank_eq_false : ∀ c ∈ w, isBlank c = false

section

variable {b c : Char} {w t : List Char}

/-- A word consists of its first character and, unless this is all, of a shorter word. -/
theorem IsWord.exists_cons (h : IsWord w) :
    ∃ c rest, w = c :: rest ∧ isBlank c = false ∧ (rest = [] ∨ IsWord rest) := by
  obtain ⟨c, rest, rfl⟩ := List.exists_cons_of_ne_nil h.ne_nil
  have hall := List.forall_mem_cons.1 h.isBlank_eq_false
  refine ⟨c, rest, rfl, hall.1, ?_⟩
  by_cases hrest : rest = []
  · exact Or.inl hrest
  · exact Or.inr ⟨hrest, hall.2⟩

/-- A word alone is its only word. -/
theorem IsWord.words_eq (h : IsWord w) : words w = [w] := by
  induction w with
  | nil => exact absurd rfl h.ne_nil
  | cons c w ih =>
    obtain ⟨c', rest, heq, hc, hrest⟩ := h.exists_cons
    obtain ⟨rfl, rfl⟩ := List.cons.inj heq
    rcases hrest with rfl | hrest
    · simp [words, hc]
    · obtain ⟨d, rest', rfl, hd, -⟩ := hrest.exists_cons
      rw [words]
      simp [hc, hd, ih hrest]

/-- A word in front of a blank is the first one. -/
theorem IsWord.words_append (h : IsWord w) (hb : isBlank b = true) (t : List Char) :
    words (w ++ b :: t) = w :: words t := by
  induction w with
  | nil => exact absurd rfl h.ne_nil
  | cons c w ih =>
    obtain ⟨c', rest, heq, hc, hrest⟩ := h.exists_cons
    obtain ⟨rfl, rfl⟩ := List.cons.inj heq
    rcases hrest with rfl | hrest
    · rw [List.singleton_append, words]
      simp [hc, hb, words_cons_of_isBlank]
    · have hwords := ih hrest
      obtain ⟨d, rest', rfl, hd, -⟩ := hrest.exists_cons
      rw [List.cons_append] at hwords
      rw [List.cons_append, List.cons_append, words]
      simp [hc, hd, hwords]

/-- **Induction over the words.** -/
theorem words_induction {P : List Char → Prop} (nil : P [])
    (blank : ∀ b t, isBlank b = true → P t → P (b :: t))
    (last : ∀ w, IsWord w → P w)
    (word : ∀ w b t, IsWord w → isBlank b = true → P t → P (w ++ b :: t)) (s : List Char) :
    P s := by
  induction hlength : s.length using Nat.strongRecOn generalizing s with
  | _ n ih =>
    subst hlength
    cases s with
    | nil => exact nil
    | cons c rest =>
      cases hc : isBlank c with
      | true => exact blank c rest hc (ih rest.length (by simp) rest rfl)
      | false =>
        -- the first word goes up to the next blank
        let w := (c :: rest).takeWhile fun d => !isBlank d
        have hw : IsWord w := by
          refine ⟨by simp [w, hc], fun d hd => ?_⟩
          simpa using List.all_eq_true.1 List.all_takeWhile d hd
        have hsplit : w ++ (c :: rest).dropWhile (fun d => !isBlank d) = c :: rest :=
          List.takeWhile_append_dropWhile
        rw [← hsplit]
        cases hleft : (c :: rest).dropWhile fun d => !isBlank d with
        | nil =>
          rw [List.append_nil]
          exact last w hw
        | cons b t =>
          have hb : isBlank b = true := by
            have hhead := List.head?_dropWhile_not (fun d => !isBlank d) (c :: rest)
            simpa [hleft] using hhead
          have hlt : t.length < (c :: rest).length := by
            have hle := (List.dropWhile_suffix (fun d => !isBlank d) (l := c :: rest)).length_le
            rw [hleft] at hle
            exact hle
          exact word w b t hw hb (ih t.length hlt t rfl)

/-! ### Collapsed text -/

/-- Leading blanks are dropped. -/
theorem collapse_cons_of_isBlank (hb : isBlank b = true) (t : List Char) :
    collapse (b :: t) = collapse t := by
  rw [collapse, words_cons_of_isBlank t hb, collapse]

/-- A word alone stays. -/
theorem IsWord.collapse_eq (h : IsWord w) : collapse w = w := by
  rw [collapse, h.words_eq, spaced_singleton]

/-- All words are words. -/
theorem isWord_of_mem_words (s : List Char) : ∀ w ∈ words s, IsWord w := by
  induction s using words_induction with
  | nil => simp
  | blank b t hb ih => rwa [words_cons_of_isBlank t hb]
  | last w hw =>
    rw [hw.words_eq]
    simpa using hw
  | word w b t hw hb ih =>
    rw [hw.words_append hb]
    exact List.forall_mem_cons.2 ⟨hw, ih⟩

/-- Collapsed text is empty only if there are no words. -/
theorem collapse_eq_nil_iff (s : List Char) : collapse s = [] ↔ words s = [] := by
  rw [collapse]
  rcases h : words s with _ | ⟨w, _ | ⟨next, rest⟩⟩
  · simp
  · have hw : IsWord w := isWord_of_mem_words s w (by simp [h])
    simpa using hw.ne_nil
  · simp

/-- A word in front of a blank is followed by one space, unless there are no other words. -/
theorem IsWord.collapse_append (h : IsWord w) (hb : isBlank b = true) (t : List Char) :
    collapse (w ++ b :: t) = if collapse t = [] then w else w ++ ' ' :: collapse t := by
  simp only [collapse_eq_nil_iff]
  rw [collapse, collapse, h.words_append hb]
  cases words t with
  | nil => rfl
  | cons next rest => rfl

/-- **Collapsed text is tidy**, unless it is empty. -/
theorem collapse_eq_nil_or_isTidy (s : List Char) : collapse s = [] ∨ IsTidy (collapse s) := by
  induction s using words_induction with
  | nil => exact Or.inl rfl
  | blank b t hb ih => rwa [collapse_cons_of_isBlank hb]
  | last w hw =>
    rw [hw.collapse_eq]
    exact Or.inr (IsTidy.of_forall hw.ne_nil hw.isBlank_eq_false)
  | word w b t hw hb ih =>
    have htidy : IsTidy w := IsTidy.of_forall hw.ne_nil hw.isBlank_eq_false
    rw [hw.collapse_append hb]
    rcases ih with hnil | ht
    · rw [if_pos hnil]
      exact Or.inr htidy
    · obtain ⟨c, rest, hcons, -⟩ := ht.exists_cons
      rw [if_neg (by simp [hcons])]
      exact Or.inr (htidy.append_space ht)

/-- Collapsing keeps every character that is not blank. -/
theorem mem_collapse_of_mem {s : List Char} (h : c ∈ s) (hc : isBlank c = false) :
    c ∈ collapse s := by
  induction s using words_induction with
  | nil => exact absurd h (by simp)
  | blank b t hb ih =>
    rcases List.mem_cons.1 h with rfl | h
    · exact absurd hb (by simp [hc])
    · rw [collapse_cons_of_isBlank hb]
      exact ih h
  | last w hw => rwa [hw.collapse_eq]
  | word w b t hw hb ih =>
    have hmem : c ∈ w ∨ c ∈ t := by
      rcases List.mem_append.1 h with h | h
      · exact Or.inl h
      · rcases List.mem_cons.1 h with rfl | h
        · exact absurd hb (by simp [hc])
        · exact Or.inr h
    rw [hw.collapse_append hb]
    split
    · rename_i hnil
      rcases hmem with h | h
      · exact h
      · exact absurd (ih h) (by simp [hnil])
    · rcases hmem with h | h
      · exact List.mem_append_left _ h
      · exact List.mem_append_right _ (List.mem_cons_of_mem _ (ih h))

/-- Collapsing adds no character but the space. -/
theorem mem_of_mem_collapse {s : List Char} (h : c ∈ collapse s) : c ∈ s ∨ c = ' ' := by
  induction s using words_induction with
  | nil => exact absurd h (by simp)
  | blank b t hb ih =>
    rw [collapse_cons_of_isBlank hb] at h
    exact (ih h).imp_left (List.mem_cons_of_mem b)
  | last w hw =>
    rw [hw.collapse_eq] at h
    exact Or.inl h
  | word w b t hw hb ih =>
    have hrest : c ∈ collapse t → c ∈ w ++ b :: t ∨ c = ' ' := fun h =>
      (ih h).imp_left fun h => List.mem_append_right _ (List.mem_cons_of_mem b h)
    rw [hw.collapse_append hb] at h
    split at h
    · exact Or.inl (List.mem_append_left _ h)
    · rcases List.mem_append.1 h with h | h
      · exact Or.inl (List.mem_append_left _ h)
      · rcases List.mem_cons.1 h with h | h
        · exact Or.inr h
        · exact hrest h

/-! ### Spaces as the only blanks -/

/-- The text with a space in the place of every blank. -/
def withSpaces (s : List Char) : List Char := s.map fun c => if isBlank c then ' ' else c

/-- A blank becomes a space. -/
theorem withSpaces_cons_of_isBlank (hb : isBlank b = true) (t : List Char) :
    withSpaces (b :: t) = ' ' :: withSpaces t := by
  simp [withSpaces, hb]

theorem withSpaces_append (s t : List Char) : withSpaces (s ++ t) = withSpaces s ++ withSpaces t :=
  List.map_append

/-- Text without other blanks than spaces stays. -/
theorem withSpaces_eq_self {s : List Char} (h : ∀ c ∈ s, isBlank c = true → c = ' ') :
    withSpaces s = s := by
  have hsame : ∀ c ∈ s, (if isBlank c then ' ' else c) = c := by
    intro c hc
    split
    · rename_i hb
      exact (h c hc hb).symm
    · rfl
  rw [withSpaces, List.map_congr_left hsame, List.map_id']

/-- A word stays. -/
theorem IsWord.withSpaces_eq (h : IsWord w) : withSpaces w = w :=
  withSpaces_eq_self fun c hc hb => absurd hb (by simp [h.isBlank_eq_false c hc])

/-- A word has no space in it. -/
theorem IsWord.splitOn_eq (h : IsWord w) : w.splitOn ' ' = [w] := by
  refine List.splitOn_eq_singleton fun hmem => ?_
  exact absurd (h.isBlank_eq_false ' ' hmem) (by decide)

/-- Where spaces are the only blanks, the words are the pieces between spaces that are not empty. -/
theorem words_eq_filter_splitOn {s : List Char} (h : ∀ c ∈ s, isBlank c = true → c = ' ') :
    words s = (s.splitOn ' ').filter fun piece => !piece.isEmpty := by
  induction s using words_induction with
  | nil => rfl
  | blank b t hb ih =>
    obtain ⟨hspace, ht⟩ := List.forall_mem_cons.1 h
    obtain rfl := hspace hb
    have hsplit : (' ' :: t).splitOn ' ' = [] :: t.splitOn ' ' := by
      simp [List.splitOn, List.splitOnP_cons_eq_if_modifyHead]
    rw [words_cons_of_isBlank t hb, hsplit, ih ht]
    rfl
  | last w hw =>
    rw [hw.words_eq, hw.splitOn_eq]
    simp [hw.ne_nil]
  | word w b t hw hb ih =>
    obtain ⟨-, hrest⟩ := List.forall_mem_append.1 h
    obtain ⟨hspace, ht⟩ := List.forall_mem_cons.1 hrest
    obtain rfl := hspace hb
    have hsplit : (w ++ ' ' :: t).splitOn ' ' = [w] ++ t.splitOn ' ' := by
      rw [← hw.splitOn_eq]
      exact List.splitOnP_append_cons w t (by simp)
    rw [hw.words_append hb, hsplit, ih ht]
    simp [hw.ne_nil]

/-- Words with single spaces between them. -/
theorem spaced_eq_intercalate (ws : List (List Char)) : spaced ws = [' '].intercalate ws := by
  induction ws with
  | nil => rfl
  | cons w ws ih =>
    cases ws with
    | nil => simp
    | cons next rest =>
      rw [spaced_cons_cons, ih, List.intercalate_cons_cons, List.append_assoc,
        List.singleton_append]

/-- **Where spaces are the only blanks, collapsing trims and collapses the spaces.** -/
theorem collapse_eq_intercalate {s : List Char} (h : ∀ c ∈ s, isBlank c = true → c = ' ') :
    collapse s = [' '].intercalate ((s.splitOn ' ').filter fun piece => !piece.isEmpty) := by
  rw [collapse, words_eq_filter_splitOn h, spaced_eq_intercalate]

end

end LogicForms.Text
