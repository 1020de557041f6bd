import LogicForms.Proofs.Lexemes
import LogicForms.Proofs.Replacing

/-!
# Text that normalization does not change any more

Normalized text is tidy, or empty, and without the characters that the rules remove one by one. It
need not be its own normal form, since removing braces can put together what is a command then, but
it is if it has tokens: then there is no markup in it at all. For the same reason, a text that has
tokens as it stands is changed by normalization only where it has spaces, so that it keeps the
kinds and the texts of its tokens (`normalize_stable`).
-/

set_option autoImplicit false

namespace LogicForms.Surface

open Text (IsTidy collapse)

/-! ### Characters that are removed -/

/-- The characters that the pattern covers alone, wherever they are. -/
def Pattern.singles : Pattern → List Char
  | .oneOf chars => chars
  | .literal [c] => [c]
  | _ => []

theorem Pattern.covers_of_mem_singles {p : Pattern} {c : Char} (h : c ∈ p.singles)
    (s : List Char) : p.Covers (c :: s) := by
  cases p with
  | oneOf chars =>
    have hc : c ∈ chars := h
    simp [Covers, width?, hc]
  | literal chars =>
    cases chars with
    | nil => exact absurd h (by simp [singles])
    | cons d chars =>
      cases chars with
      | nil =>
        have hc : c = d := by simpa [singles] using h
        simp [Covers, width?, hc]
      | cons e chars => exact absurd h (by simp [singles])
  | escaped chars => exact absurd h (by simp [singles])
  | command names => exact absurd h (by simp [singles])

/-- Marks, braces and shorthand of one character. -/
def removedChars : List Char := ['$', '\x7b', '\x7d', '~', '|', '&']

/-- The rules leave none of these characters. -/
theorem not_mem_applyRules {c : Char} (hc : c ∈ removedChars) (s : List Char) :
    c ∉ applyRules s := by
  have himages : (removedChars.all fun c => rules.all fun r => !(r.image.contains c)) = true := by
    decide +kernel
  have hsingles : (removedChars.all fun c => rules.any fun r => r.pattern.singles.contains c)
      = true := by decide +kernel
  obtain ⟨r, hr, hsingle⟩ := List.any_eq_true.1 (List.all_eq_true.1 hsingles c hc)
  refine not_mem_applyAll (fun r hr => ?_)
    (Or.inr ⟨r, hr, Pattern.covers_of_mem_singles (List.contains_iff_mem.1 hsingle)⟩)
  simpa using List.all_eq_true.1 (List.all_eq_true.1 himages c hc) r hr

/-- Nor does normalized text have any of them. -/
theorem not_mem_normalize {c : Char} (hc : c ∈ removedChars) (s : String) :
    c ∉ (normalize s).toList := by
  have hspace : ' ' ∉ removedChars := by decide
  rw [normalize, String.toList_ofList, normalizeChars]
  intro hmem
  -- collapsing puts in nothing but spaces
  rcases Text.mem_of_mem_collapse hmem with h | rfl
  · exact not_mem_applyRules hc s.toList h
  · exact hspace hc

/-- There are no blanks in normalized text but single spaces between other characters. -/
theorem normalize_eq_nil_or_isTidy (s : String) :
    (normalize s).toList = [] ∨ IsTidy (normalize s).toList := by
  rw [normalize, String.toList_ofList]
  exact Text.collapse_eq_nil_or_isTidy (applyRules s.toList)

/-! ### Text that has tokens -/

section

variable {s : String} {tokens : List Token}

/-- The rules leave a text alone that has tokens as it stands. -/
theorem applyRules_of_tokenize (h : tokenize s = .ok tokens) : applyRules s.toList = s.toList :=
  applyRules_eq_self fun c hc => not_mem_markup (isTokenChar_of_tokensFrom h c hc)

/-- A text that has tokens has no other blanks than spaces. -/
theorem eq_space_of_tokenize (h : tokenize s = .ok tokens) :
    ∀ c ∈ s.toList, Text.isBlank c = true → c = ' ' := by
  have hblanks : (Text.blanks.all fun c => !isTokenChar c || c == ' ') = true := by decide
  intro c hc hblank
  have hall := List.all_eq_true.1 hblanks c (List.contains_iff_mem.1 hblank)
  simpa [isTokenChar_of_tokensFrom h c hc] using hall

/-- Normalized text that has tokens is its own normal form. -/
theorem normalize_normalize (h : tokenize (normalize s) = .ok tokens) :
    normalize (normalize s) = normalize s := by
  have hcollapse : collapse (normalize s).toList = (normalize s).toList := by
    rcases normalize_eq_nil_or_isTidy s with hnil | htidy
    · rw [hnil]
      rfl
    · exact htidy.collapse_eq
  rw [normalize, normalizeChars, applyRules_of_tokenize h, hcollapse, String.ofList_toList]

/-- A text that has tokens keeps their kinds and texts when spaces are trimmed and collapsed. -/
theorem lexemes_normalize_of_tokenize (h : tokenize s = .ok tokens) :
    lexemes (normalize s) = some (tokens.map Token.lexeme) := by
  rw [lexemes_normalize, applyRules_of_tokenize h,
    Text.withSpaces_eq_self (eq_space_of_tokenize h)]
  exact lexemes_eq_some_iff.2 ⟨tokens, h, rfl⟩

end

/-- **Normalization is stable on text that has tokens**: it only trims and collapses the spaces of
a text that has tokens as it stands, and does not change normalized text that has tokens, from which
the same formula or the same error is read. Any normalized text is tidy and without the characters
that the rules remove. -/
theorem normalize_stable (s : String) :
    (∀ tokens, tokenize s = .ok tokens →
      (normalize s).toList
          = [' '].intercalate ((s.toList.splitOn ' ').filter fun piece => !piece.isEmpty) ∧
        lexemes (normalize s) = some (tokens.map Token.lexeme)) ∧
    (∀ tokens, tokenize (normalize s) = .ok tokens →
      normalize (normalize s) = normalize s ∧
        Formula.ofText (normalize s) = Formula.ofText s) ∧
    (∀ c ∈ ['$', '\x7b', '\x7d', '~', '|', '&'], c ∉ (normalize s).toList) ∧
    ((normalize s).toList = [] ∨ IsTidy (normalize s).toList) := by
  refine ⟨fun tokens h => ⟨?_, lexemes_normalize_of_tokenize h⟩,
    fun tokens h => ⟨normalize_normalize h, ?_⟩, fun c hc => not_mem_normalize hc s,
    normalize_eq_nil_or_isTidy s⟩
  · rw [normalize, String.toList_ofList, normalizeChars, applyRules_of_tokenize h,
      Text.collapse_eq_intercalate (eq_space_of_tokenize h)]
  · rw [Formula.ofText, Formula.ofText, tokensOf, tokensOf, normalize_normalize h]

/-- Spaces around and between the words, and a text whose normal form has tokens. -/
theorem normalize_stable_samples :
    ((normalize "  P  ∧ Q ").toList
        = [' '].intercalate (("  P  ∧ Q ".toList.splitOn ' ').filter fun piece => !piece.isEmpty) ∧
      lexemes (normalize "  P  ∧ Q ")
        = some [(.name, "P"), (.connective .and, "∧"), (.name, "Q")]) ∧
    (normalize (normalize "\\forall x\\,P") = normalize "\\forall x\\,P" ∧
      Formula.ofText (normalize "\\forall x\\,P") = Formula.ofText "\\forall x\\,P") := by
  have htokens : tokenize "  P  ∧ Q " = .ok [⟨.name, "P", 2⟩, ⟨.connective .and, "∧", 5⟩,
      ⟨.name, "Q", 7⟩] := by cbv
  have hnormal : normalize "\\forall x\\,P" = "∀ x P" := by decide +kernel
  have htokens' : tokenize (normalize "\\forall x\\,P") = .ok [⟨.quantifier .universal, "∀", 0⟩,
      ⟨.name, "x", 2⟩, ⟨.name, "P", 4⟩] := by
    rw [hnormal]
    cbv
  exact ⟨(normalize_stable "  P  ∧ Q ").1 _ htokens,
    (normalize_stable "\\forall x\\,P").2.1 _ htokens'⟩

/-- Without tokens it need not be stable: removing the braces puts a command together. -/
example : normalizeChars ['\\', '\x7b', 't', 'o', '\x7d'] = ['\\', 't', 'o'] ∧
    normalizeChars ['\\', 't', 'o'] = ['→'] := by
  decide +kernel

end LogicForms.Surface
