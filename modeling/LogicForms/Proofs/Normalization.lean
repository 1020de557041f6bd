import LogicForms.Surface.Normalizer

/-!
# Text that is normalized already

A rule can only change a text at a character with which its pattern starts. The rules of the
normalizer start with nine characters, the markup, none of which is a character of the formula
language. Collapsing leaves a text alone if it is tidy: no blank at either end, and no blank but
single spaces inside. So a tidy text without markup is its own normal form
(`normalizeChars_eq_self`).
-/

set_option autoImplicit false

namespace LogicForms.Text

/-! ### Tidy text -/

/-- Text that starts and ends with a character that is not blank, and has no blanks inside but
single spaces. -/
inductive IsTidy : List Char → Prop where
  | char {c : Char} : isBlank c = false → IsTidy [c]
  | cons {c : Char} {s : List Char} : isBlank c = false → IsTidy s → IsTidy (c :: s)
  | space {c : Char} {s : List Char} : isBlank c = false → IsTidy s → IsTidy (c :: ' ' :: s)

namespace IsTidy

variable {c : Char} {s t : List Char}

/-- The first character is not blank. -/
theorem exists_cons (h : IsTidy s) : ∃ c rest, s = c :: rest ∧ isBlank c = false := by
  cases h with
  | char hc => exact ⟨_, _, rfl, hc⟩
  | cons hc => exact ⟨_, _, rfl, hc⟩
  | space hc => exact ⟨_, _, rfl, hc⟩

/-- Tidy texts one behind the other. -/
theorem append (hs : IsTidy s) (ht : IsTidy t) : IsTidy (s ++ t) := by
  induction hs with
  | char hc => exact .cons hc ht
  | cons hc _ ih => exact .cons hc ih
  | space hc _ ih => exact .space hc ih

/-- Tidy texts with a space between them. -/
theorem append_space (hs : IsTidy s) (ht : IsTidy t) : IsTidy (s ++ ' ' :: t) := by
  induction hs with
  | char hc => exact .space hc ht
  | cons hc _ ih => exact .cons hc ih
  | space hc _ ih => exact .space hc ih

/-- Text without any blanks is tidy. -/
theorem of_forall (hne : s ≠ []) (h : ∀ c ∈ s, isBlank c = false) : IsTidy s := by
  induction s with
  | nil => exact absurd rfl hne
  | cons c s ih =>
    have hc : isBlank c = false := h c (by simp)
    by_cases hs : s = []
    · subst hs
      exact .char hc
    · exact .cons hc (ih hs fun d hd => h d (by simp [hd]))

end IsTidy

section

variable {c d : Char} {s : List Char}

/-- Text that starts with a character that is not blank has a first word. -/
theorem words_ne_nil (hc : isBlank c = false) : words (c :: s) ≠ [] := by
  unfold words
  simp only [hc, Bool.false_eq_true, if_false]
  repeat' split
  all_goals simp

/-- A character in front of another one belongs to the same word. -/
theorem collapse_cons_cons (hc : isBlank c = false) (hd : isBlank d = false) :
    collapse (c :: d :: s) = c :: collapse (d :: s) := by
  rcases h : words (d :: s) with _ | ⟨word, others⟩
  · exact absurd h (words_ne_nil hd)
  · have hwords : words (c :: d :: s) = (c :: word) :: others := by
      rw [words]
      simp [hc, hd, h]
    rw [collapse, collapse, hwords, h]
    cases others <;> rfl

/-- A character in front of a space is a word of its own. -/
theorem collapse_cons_space (hc : isBlank c = false) (hs : words s ≠ []) :
    collapse (c :: ' ' :: s) = c :: ' ' :: collapse s := by
  have hwords : words (c :: ' ' :: s) = [c] :: words s := by
    rw [words]
    simp [hc, words_cons_of_isBlank]
  rw [collapse, collapse, hwords]
  rcases h : words s with _ | ⟨word, others⟩
  · exact absurd h hs
  · rfl

end

/-- **Collapsing leaves tidy text alone.** -/
theorem IsTidy.collapse_eq {s : List Char} (h : IsTidy s) : collapse s = s := by
  induction h with
  | @char c hc => simp [collapse, words, hc]
  | @cons c s hc hs ih =>
    obtain ⟨d, rest, rfl, hd⟩ := hs.exists_cons
    rw [collapse_cons_cons hc hd, ih]
  | @space c s hc hs ih =>
    obtain ⟨d, rest, rfl, hd⟩ := hs.exists_cons
    rw [collapse_cons_space hc (words_ne_nil hd), ih]

end LogicForms.Text

namespace LogicForms.Surface

/-! ### What a rule can change -/

/-- The characters with which an occurrence of the pattern can start. -/
def Pattern.starts : Pattern → List Char
  | .oneOf chars => chars
  | .literal chars => chars.head?.toList
  | .escaped _ => ['\\']
  | .command _ => ['\\']

/-- At any other character, the pattern covers nothing. -/
theorem Pattern.width?_ne_some_succ {p : Pattern} {c : Char} (h : c ∉ p.starts) (rest : List Char)
    (n : Nat) : p.width? (c :: rest) ≠ some (n + 1) := by
  cases p with
  | oneOf chars =>
    have hc : c ∉ chars := h
    simp [width?, hc]
  | literal chars =>
    cases chars with
    | nil => simp [width?]
    | cons d chars =>
      have hne : d ≠ c := fun hd => h (by simp [starts, hd])
      simp [width?, hne]
  | escaped chars =>
    have hne : c ≠ '\\' := fun hc => h (by simp [starts, hc])
    unfold width?
    split <;> simp_all
  | command names =>
    have hne : c ≠ '\\' := fun hc => h (by simp [starts, hc])
    unfold width?
    split <;> simp_all

/-- A rule leaves a text alone if no character of it starts the pattern. -/
theorem Rule.apply_eq_self {r : Rule} {s : List Char} (h : ∀ c ∈ s, c ∉ r.pattern.starts) :
    r.apply s = s := by
  induction s with
  | nil => exact r.applyFrom_nil 0
  | cons c rest ih =>
    have hrest : r.applyFrom 0 rest = rest := ih fun d hd => h d (by simp [hd])
    have hc : ∀ n, r.pattern.width? (c :: rest) ≠ some (n + 1) :=
      Pattern.width?_ne_some_succ (h c (by simp)) rest
    rw [Rule.apply, Rule.applyFrom]
    split
    · rename_i n hn
      exact absurd hn (hc n)
    · rw [hrest]

/-- The characters with which the rules start. -/
def markup : List Char := ['$', '\\', '<', '-', '~', '|', '&', '\x7b', '\x7d']

/-- Every rule starts with markup. -/
theorem mem_markup_of_mem_starts :
    ∀ r ∈ rules, ∀ c ∈ r.pattern.starts, c ∈ markup := by
  have hall : (rules.all fun r => r.pattern.starts.all markup.contains) = true := by decide
  simpa using hall

/-- The rules leave a text without markup alone. -/
theorem applyRules_eq_self {s : List Char} (h : ∀ c ∈ s, c ∉ markup) : applyRules s = s := by
  have fold (rs : List Rule) (hrs : ∀ r ∈ rs, r ∈ rules) :
      rs.foldl (fun s rule => rule.apply s) s = s := by
    induction rs with
    | nil => rfl
    | cons r rs ih =>
      have hr : r.apply s = s := Rule.apply_eq_self fun c hc hstart =>
        h c hc (mem_markup_of_mem_starts r (hrs r (by simp)) c hstart)
      rw [List.foldl_cons, hr]
      exact ih fun r' hr' => hrs r' (by simp [hr'])
  exact fold rules fun r hr => hr

/-- **Tidy text without markup is its own normal form.** -/
theorem normalizeChars_eq_self {s : List Char} (hs : Text.IsTidy s) (h : ∀ c ∈ s, c ∉ markup) :
    normalizeChars s = s := by
  rw [normalizeChars, applyRules_eq_self h, hs.collapse_eq]

end LogicForms.Surface
