import LogicForms.Proofs.Tokens
import LogicForms.Proofs.Words
import LogicForms.Text.Join
import Mathlib.Data.List.TakeWhile
import Mathlib.Data.Option.NAry

/-!
# Tokens apart from their positions

What a text says depends on the kinds and the texts of its tokens, and not on where these stand.
`lexemesOf` gives them for a list of characters, if it can be cut into tokens at all. Where no name
goes over the boundary between two pieces of text, both can be read on their own
(`lexemesOf_append`); where one does, the two tokens at the boundary become one
(`exists_lexemesOf_append`). For reading, a text may be collapsed, or have its blanks replaced by
spaces (`lexemesOf_collapse`).
-/

set_option autoImplicit false

namespace LogicForms.Surface

open Text (isBlank collapse IsWord)

section

variable {position : Nat} {c : Char} {kind : TokenKind} {rest : List Char}

/-- Is the character a space, or does a token start with it? -/
def isStart (c : Char) : Bool := c == ' ' || (TokenKind.ofSymbol? c).isSome || isNameStart c

/-- A symbol is a token in front of anything. -/
theorem tokensFrom_symbol (h : TokenKind.ofSymbol? c = some kind) :
    tokensFrom position (c :: rest)
      = (tokensFrom (position + 1) rest).map fun tokens =>
          ⟨kind, c.toString, position⟩ :: tokens := by
  rw [tokensFrom]
  simp [h, (isNameChar_of_ofSymbol? h).1]

/-- A name goes as far as there are characters of names. -/
theorem tokensFrom_name (h : isNameStart c = true) :
    tokensFrom position (c :: rest)
      = (tokensFrom (position + 1 + (rest.takeWhile isNameChar).length)
          (rest.dropWhile isNameChar)).map fun tokens =>
            ⟨.name, String.ofList (c :: rest.takeWhile isNameChar), position⟩ :: tokens := by
  obtain ⟨hsymbol, hspace⟩ := ofSymbol?_eq_none_of_isNameStart h
  rw [tokensFrom]
  simp [hspace, hsymbol, h]

/-- Nothing can be read from a character on that starts no token. -/
theorem tokensFrom_of_not_isStart (h : isStart c = false) :
    tokensFrom position (c :: rest)
      = .error ⟨position, String.ofList ((c :: rest).take 10)⟩ := by
  simp only [isStart, Bool.or_eq_false_iff, beq_eq_false_iff_ne, Option.isSome_eq_false_iff,
    Option.isNone_iff_eq_none] at h
  obtain ⟨⟨hspace, hsymbol⟩, hname⟩ := h
  rw [tokensFrom]
  simp [hspace, hsymbol, hname]

end

/-! ### Kinds and texts -/

/-- What a token is apart from its place: its kind and its text. -/
abbrev Lexeme := TokenKind × String

/-- The kind and the text of a token. -/
def Token.lexeme (token : Token) : Lexeme := (token.kind, token.value)

/-- The kinds and texts of the tokens of a text that starts at the given position. -/
def lexemesFrom (position : Nat) (s : List Char) : Option (List Lexeme) :=
  (tokensFrom position s).toOption.map (List.map Token.lexeme)

/-- The kinds and texts of the tokens, or none if the characters cannot be cut into tokens. -/
def lexemesOf (s : List Char) : Option (List Lexeme) := lexemesFrom 0 s

/-- The kinds and texts of the tokens of a text, or none if it cannot be cut into tokens. -/
def lexemes (s : String) : Option (List Lexeme) := lexemesOf s.toList

/-- There are kinds and texts exactly if there are tokens. -/
theorem lexemes_eq_some_iff {s : String} {ls : List Lexeme} :
    lexemes s = some ls ↔ ∃ tokens, tokenize s = .ok tokens ∧ tokens.map Token.lexeme = ls := by
  rw [lexemes, lexemesOf, lexemesFrom, tokenize]
  cases tokensFrom 0 s.toList <;> simp [Except.toOption]

/-- A text without tokens is an error. -/
theorem lexemes_eq_none_iff {s : String} :
    lexemes s = none ↔ ∃ e, tokenize s = .error e := by
  rw [lexemes, lexemesOf, lexemesFrom, tokenize]
  cases tokensFrom 0 s.toList <;> simp [Except.toOption]

section

variable {position : Nat} {c : Char} {kind : TokenKind} {s rest : List Char}

theorem lexemesFrom_nil : lexemesFrom position [] = some [] := by
  rw [lexemesFrom, tokensFrom_nil]
  rfl

theorem lexemesFrom_space :
    lexemesFrom position (' ' :: rest) = lexemesFrom (position + 1) rest := by
  rw [lexemesFrom, tokensFrom_space, lexemesFrom]

theorem lexemesFrom_symbol (h : TokenKind.ofSymbol? c = some kind) :
    lexemesFrom position (c :: rest)
      = (lexemesFrom (position + 1) rest).map fun ls => (kind, c.toString) :: ls := by
  rw [lexemesFrom, tokensFrom_symbol h, lexemesFrom]
  cases tokensFrom (position + 1) rest <;> rfl

theorem lexemesFrom_name (h : isNameStart c = true) :
    lexemesFrom position (c :: rest)
      = (lexemesFrom (position + 1 + (rest.takeWhile isNameChar).length)
          (rest.dropWhile isNameChar)).map fun ls =>
            (.name, String.ofList (c :: rest.takeWhile isNameChar)) :: ls := by
  rw [lexemesFrom, tokensFrom_name h, lexemesFrom]
  cases tokensFrom (position + 1 + (rest.takeWhile isNameChar).length) (rest.dropWhile isNameChar)
    <;> rfl

theorem lexemesFrom_of_not_isStart (h : isStart c = false) :
    lexemesFrom position (c :: rest) = none := by
  rw [lexemesFrom, tokensFrom_of_not_isStart h]
  rfl

/-- **Induction over the tokens**, from the front of the text on. -/
theorem lexical_induction {P : List Char → Prop} (nil : P [])
    (space : ∀ rest, P rest → P (' ' :: rest))
    (symbol : ∀ c kind rest, TokenKind.ofSymbol? c = some kind → P rest → P (c :: rest))
    (name : ∀ c rest, isNameStart c = true → P (rest.dropWhile isNameChar) → P (c :: rest))
    (stray : ∀ c rest, isStart c = false → P (c :: rest)) (s : List Char) : P s := by
  induction (0 : Nat), s using tokensFrom.induct with
  | case1 => exact nil
  | case2 position rest ih => exact space rest ih
  | case3 position c rest hspace kind hkind ih => exact symbol c kind rest hkind ih
  | case4 position c rest hspace hkind hstart =>
    rename_i tail ih
    exact name c rest hstart ih
  | case5 position c rest hspace hkind hstart =>
    exact stray c rest (by simp [isStart, hspace, hkind, hstart])

/-- Where a text starts does not matter for the kinds and texts. -/
theorem lexemesFrom_eq (position : Nat) (s : List Char) : lexemesFrom position s = lexemesOf s := by
  have hany (s : List Char) : ∀ p q, lexemesFrom p s = lexemesFrom q s := by
    induction s using lexical_induction with
    | nil =>
      intro p q
      rw [lexemesFrom_nil, lexemesFrom_nil]
    | space rest ih =>
      intro p q
      rw [lexemesFrom_space, lexemesFrom_space]
      exact ih _ _
    | symbol c kind rest hkind ih =>
      intro p q
      rw [lexemesFrom_symbol hkind, lexemesFrom_symbol hkind, ih]
    | name c rest hstart ih =>
      intro p q
      rw [lexemesFrom_name hstart, lexemesFrom_name hstart, ih]
    | stray c rest hstart =>
      intro p q
      rw [lexemesFrom_of_not_isStart hstart, lexemesFrom_of_not_isStart hstart]
  exact hany s position 0

@[simp] theorem lexemesOf_nil : lexemesOf [] = some [] := lexemesFrom_nil

/-- Spaces are skipped. -/
@[simp] theorem lexemesOf_space (rest : List Char) : lexemesOf (' ' :: rest) = lexemesOf rest := by
  rw [lexemesOf, lexemesFrom_space, lexemesFrom_eq]

/-- A symbol comes first. -/
theorem lexemesOf_symbol (h : TokenKind.ofSymbol? c = some kind) (rest : List Char) :
    lexemesOf (c :: rest) = (lexemesOf rest).map fun ls => (kind, c.toString) :: ls := by
  rw [lexemesOf, lexemesFrom_symbol h, lexemesFrom_eq]

/-- A name comes first, as far as it goes. -/
theorem lexemesOf_name (h : isNameStart c = true) (rest : List Char) :
    lexemesOf (c :: rest) = (lexemesOf (rest.dropWhile isNameChar)).map fun ls =>
      (.name, String.ofList (c :: rest.takeWhile isNameChar)) :: ls := by
  rw [lexemesOf, lexemesFrom_name h, lexemesFrom_eq]

theorem lexemesOf_of_not_isStart (h : isStart c = false) (rest : List Char) :
    lexemesOf (c :: rest) = none := lexemesFrom_of_not_isStart h

end

/-! ### Two pieces of text -/

/-- No name goes over the boundary between two pieces of text. -/
def Parted (front back : List Char) : Prop :=
  (∀ c ∈ front.getLast?, isNameChar c = false) ∨ EndsNames back

section

variable {front front' back : List Char}

/-- A piece at the end of a text ends like the text. -/
theorem getLast?_of_suffix (h : front' <:+ front) (hne : front' ≠ []) :
    front'.getLast? = front.getLast? := by
  obtain ⟨before, rfl⟩ := h
  obtain ⟨c, hc⟩ := Option.ne_none_iff_exists'.1 (mt List.getLast?_eq_none_iff.1 hne)
  rw [List.getLast?_append, hc, Option.some_or]

/-- What is in front of the last characters does not matter. -/
theorem parted_iff_of_suffix (h : front' <:+ front) (hne : front' ≠ []) :
    Parted front' back ↔ Parted front back := by
  rw [Parted, Parted, getLast?_of_suffix h hne]

/-- Nothing goes over the front end of a text. -/
theorem parted_nil (back : List Char) : Parted [] back := Or.inl (by simp)

theorem Parted.of_suffix (h : Parted front back) (hsuffix : front' <:+ front) :
    Parted front' back := by
  by_cases hne : front' = []
  · rw [hne]
    exact parted_nil back
  · exact (parted_iff_of_suffix hsuffix hne).2 h

/-- Nothing goes on from a character that ends names. -/
theorem parted_singleton {c : Char} (hc : isNameChar c = false) (back : List Char) :
    Parted [c] back := Or.inl (by simpa using hc)

/-- A character that ends names makes no difference in front of a piece. -/
theorem Parted.cons {c : Char} (hc : isNameChar c = false) (h : Parted front back) :
    Parted (c :: front) back := by
  by_cases hne : front = []
  · rw [hne]
    exact parted_singleton hc back
  · exact (parted_iff_of_suffix (List.suffix_cons c front) hne).1 h

/-- A piece of name characters only is in front of a text with which no name goes on. -/
theorem Parted.endsNames (h : Parted front back) (hne : front ≠ [])
    (hall : ∀ c ∈ front, isNameChar c = true) : EndsNames back := by
  refine h.resolve_left fun hlast => ?_
  have hmem : front.getLast hne ∈ front := List.getLast_mem hne
  have hfalse := hlast _ (List.getLast_mem_getLast? hne)
  exact absurd (hall _ hmem) (by simp [hfalse])

/-- Where the characters of names end in the first piece, the second one does not matter. -/
theorem span_append_of_ne_nil (h : front.dropWhile isNameChar ≠ []) (back : List Char) :
    (front ++ back).takeWhile isNameChar = front.takeWhile isNameChar ∧
      (front ++ back).dropWhile isNameChar = front.dropWhile isNameChar ++ back := by
  have hlength : (front.takeWhile isNameChar).length ≠ front.length := by
    intro heq
    have hsplit := List.takeWhile_append_dropWhile (p := isNameChar) (l := front)
    have hsum := congrArg List.length hsplit
    rw [List.length_append, heq] at hsum
    exact h (List.length_eq_zero_iff.1 (by omega))
  rw [List.takeWhile_append, if_neg hlength, List.dropWhile_append, if_neg (by simpa using h)]
  exact ⟨rfl, rfl⟩

/-- **Pieces with no name over their boundary are read one after the other.** -/
theorem lexemesOf_append (h : Parted front back) :
    lexemesOf (front ++ back) = Option.map₂ (· ++ ·) (lexemesOf front) (lexemesOf back) := by
  induction front using lexical_induction with
  | nil => simp
  | space rest ih =>
    rw [List.cons_append, lexemesOf_space, lexemesOf_space]
    exact ih (h.of_suffix (List.suffix_cons ' ' rest))
  | symbol c kind rest hkind ih =>
    rw [List.cons_append, lexemesOf_symbol hkind, lexemesOf_symbol hkind,
      ih (h.of_suffix (List.suffix_cons c rest)), Option.map_map₂, Option.map₂_map_left]
    rfl
  | name c rest hstart ih =>
    rw [List.cons_append, lexemesOf_name hstart, lexemesOf_name hstart]
    by_cases hleft : rest.dropWhile isNameChar = []
    · -- the name is all of the first piece, so that it ends at the boundary
      have hall := List.dropWhile_eq_nil_iff.1 hleft
      have hback : EndsNames back := h.endsNames (by simp)
        (List.forall_mem_cons.2 ⟨by simp [isNameChar, hstart], hall⟩)
      obtain ⟨htake, hdrop⟩ := takeWhile_isNameChar hall hback
      rw [htake, hdrop, hleft, List.takeWhile_eq_self_iff.2 hall]
      cases lexemesOf back <;> simp
    · have hsuffix : rest.dropWhile isNameChar <:+ c :: rest :=
        (List.dropWhile_suffix isNameChar).trans (List.suffix_cons c rest)
      obtain ⟨htake, hdrop⟩ := span_append_of_ne_nil hleft back
      rw [htake, hdrop, ih (h.of_suffix hsuffix), Option.map_map₂, Option.map₂_map_left]
      rfl
  | stray c rest hstart =>
    rw [List.cons_append, lexemesOf_of_not_isStart hstart, lexemesOf_of_not_isStart hstart]
    rfl

/-- Text in front of a space is read on its own. -/
theorem lexemesOf_append_space (front back : List Char) :
    lexemesOf (front ++ ' ' :: back)
      = Option.map₂ (· ++ ·) (lexemesOf front) (lexemesOf back) := by
  rw [lexemesOf_append (Or.inr (endsNames_cons (by decide))), lexemesOf_space]

/-- A text that starts like a name can be read only if it starts with a name. -/
theorem exists_of_isNameChar {d : Char} {ls : List Lexeme} (hd : isNameChar d = true)
    (h : lexemesOf (d :: back) = some ls) :
    ∃ name others, ls = name :: others ∧
      lexemesOf ((d :: back).dropWhile isNameChar) = some others := by
  cases hstart : isNameStart d with
  | true =>
    rw [lexemesOf_name hstart, Option.map_eq_some_iff] at h
    obtain ⟨others, hothers, rfl⟩ := h
    refine ⟨_, others, rfl, ?_⟩
    rw [List.dropWhile_cons_of_pos hd]
    exact hothers
  | false =>
    -- a digit starts no token
    have hstray : isStart d = false := by
      cases hkind : TokenKind.ofSymbol? d with
      | none =>
        have hspace : d ≠ ' ' := fun heq => absurd hd (by rw [heq]; decide)
        simp [isStart, hkind, hstart, hspace]
      | some kind => exact absurd hd (by simp [(isNameChar_of_ofSymbol? hkind).2])
    rw [lexemesOf_of_not_isStart hstray] at h
    exact absurd h (by simp)

/-- **A name over the boundary makes one token out of two.** -/
theorem exists_lexemesOf_append {lfront lback : List Lexeme} (h : ¬ Parted front back)
    (hfront : lexemesOf front = some lfront) (hback : lexemesOf back = some lback) :
    ∃ ls, lexemesOf (front ++ back) = some ls ∧ ls.length + 1 = lfront.length + lback.length := by
  induction front using lexical_induction generalizing lfront with
  | nil => exact absurd (parted_nil back) h
  | space rest ih =>
    rw [lexemesOf_space] at hfront
    rw [List.cons_append, lexemesOf_space]
    exact ih (fun hparted => h (hparted.cons (by decide))) hfront
  | symbol c kind rest hkind ih =>
    rw [lexemesOf_symbol hkind, Option.map_eq_some_iff] at hfront
    obtain ⟨lrest, hrest, rfl⟩ := hfront
    obtain ⟨ls, hls, hlength⟩ :=
      ih (fun hparted => h (hparted.cons (isNameChar_of_ofSymbol? hkind).2)) hrest
    refine ⟨(kind, c.toString) :: ls, ?_, ?_⟩
    · rw [List.cons_append, lexemesOf_symbol hkind, hls, Option.map_some]
    · simp only [List.length_cons]
      omega
  | name c rest hstart ih =>
    rw [lexemesOf_name hstart, Option.map_eq_some_iff] at hfront
    obtain ⟨lrest, hrest, rfl⟩ := hfront
    rw [List.cons_append, lexemesOf_name hstart]
    by_cases hleft : rest.dropWhile isNameChar = []
    · -- the name is all of the first piece, and goes on into the second one
      rw [hleft, lexemesOf_nil, Option.some.injEq] at hrest
      rw [List.dropWhile_append_of_pos (List.dropWhile_eq_nil_iff.1 hleft)]
      cases back with
      | nil => exact absurd (Or.inr endsNames_nil) h
      | cons d back =>
        have hd : isNameChar d = true := by
          refine Bool.of_not_eq_false fun hd => h (Or.inr (endsNames_cons hd))
        obtain ⟨name, others, rfl, hothers⟩ := exists_of_isNameChar hd hback
        refine ⟨_, by rw [hothers, Option.map_some], ?_⟩
        simp only [← hrest, List.length_cons, List.length_nil]
        omega
    · have hsuffix : rest.dropWhile isNameChar <:+ c :: rest :=
        (List.dropWhile_suffix isNameChar).trans (List.suffix_cons c rest)
      obtain ⟨ls, hls, hlength⟩ := ih (mt (parted_iff_of_suffix hsuffix hleft).1 h) hrest
      refine ⟨_, by rw [(span_append_of_ne_nil hleft back).2, hls, Option.map_some], ?_⟩
      simp only [List.length_cons]
      omega
  | stray c rest hstart =>
    rw [lexemesOf_of_not_isStart hstart] at hfront
    exact absurd hfront (by simp)

/-- Two pieces that can be read can be read one behind the other, with as many tokens only if no
name goes over the boundary. -/
theorem lexemesOf_append_le {lfront lback : List Lexeme} (hfront : lexemesOf front = some lfront)
    (hback : lexemesOf back = some lback) :
    ∃ ls, lexemesOf (front ++ back) = some ls ∧ ls.length ≤ lfront.length + lback.length ∧
      (ls.length = lfront.length + lback.length → Parted front back) := by
  by_cases h : Parted front back
  · refine ⟨lfront ++ lback, ?_, by rw [List.length_append], fun _ => h⟩
    rw [lexemesOf_append h, hfront, hback]
    rfl
  · obtain ⟨ls, hls, hlength⟩ := exists_lexemesOf_append h hfront hback
    exact ⟨ls, hls, by omega, fun heq => by omega⟩

/-- **Three pieces are read one after the other exactly if no name goes over the boundaries.** -/
theorem lexemesOf_append_append_iff {middle : List Char} {lfront lmiddle lback : List Lexeme}
    (hfront : lexemesOf front = some lfront) (hmiddle : lexemesOf middle = some lmiddle)
    (hback : lexemesOf back = some lback) :
    lexemesOf (front ++ (middle ++ back)) = some (lfront ++ (lmiddle ++ lback)) ↔
      Parted front (middle ++ back) ∧ Parted middle back := by
  constructor
  · intro h
    obtain ⟨ls, hls, hle, hparted⟩ := lexemesOf_append_le hmiddle hback
    obtain ⟨ls', hls', hle', hparted'⟩ := lexemesOf_append_le hfront hls
    rw [hls', Option.some.injEq] at h
    rw [h, List.length_append, List.length_append] at hle' hparted'
    exact ⟨hparted' (by omega), hparted (by omega)⟩
  · rintro ⟨hfront', hmiddle'⟩
    rw [lexemesOf_append hfront', lexemesOf_append hmiddle', hfront, hmiddle, hback]
    rfl

end

/-! ### Collapsed text -/

/-- For reading, it does not matter whether a text is collapsed or has spaces for its blanks. -/
theorem lexemesOf_collapse (s : List Char) :
    lexemesOf (collapse s) = lexemesOf (Text.withSpaces s) := by
  induction s using Text.words_induction with
  | nil => rfl
  | blank b t hb ih =>
    rw [Text.collapse_cons_of_isBlank hb, Text.withSpaces_cons_of_isBlank hb, lexemesOf_space, ih]
  | last w hw => rw [hw.collapse_eq, hw.withSpaces_eq]
  | word w b t hw hb ih =>
    rw [hw.collapse_append hb, Text.withSpaces_append, hw.withSpaces_eq,
      Text.withSpaces_cons_of_isBlank hb, lexemesOf_append_space, ← ih]
    split
    · rename_i hnil
      rw [hnil, lexemesOf_nil]
      cases lexemesOf w <;> simp
    · exact lexemesOf_append_space w (collapse t)

/-- What is read from a normalized text. -/
theorem lexemes_normalize (s : String) :
    lexemes (normalize s) = lexemesOf (Text.withSpaces (applyRules s.toList)) := by
  rw [lexemes, normalize, String.toList_ofList, normalizeChars, lexemesOf_collapse]

/-- Texts of tokens that are read as these tokens can be joined with spaces. -/
theorem lexemes_joinWith {tokens : List Token}
    (h : ∀ token ∈ tokens, lexemesOf token.value.toList = some [token.lexeme]) :
    lexemes (Text.joinWith " " (tokens.map Token.value)) = some (tokens.map Token.lexeme) := by
  induction tokens with
  | nil => exact lexemesOf_nil
  | cons token tokens ih =>
    obtain ⟨htoken, htokens⟩ := List.forall_mem_cons.1 h
    have hrest := ih htokens
    cases tokens with
    | nil => exact htoken
    | cons next tokens =>
      rw [List.map_cons, List.map_cons, Text.joinWith_cons_cons, lexemes, String.toList_append,
        String.toList_append, List.append_assoc]
      rw [lexemes, List.map_cons] at hrest
      have hspace : " ".toList = [' '] := rfl
      rw [hspace, List.singleton_append, lexemesOf_append_space, htoken, hrest]
      rfl

end LogicForms.Surface
