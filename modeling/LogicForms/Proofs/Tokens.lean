import LogicForms.Proofs.Normalization
import LogicForms.Proofs.Outcomes
import LogicForms.Surface.Grammar
import LogicForms.Surface.Text

/-!
# Cutting text into tokens

`Cuts` says that a piece of text is cut into tokens independently of what follows it, and pieces
can be put together (`Cuts.append`). Spaces and symbols are pieces in front of anything, and a name
is one in front of everything with which no name goes on (`EndsNames`).

In the other direction, text that can be cut has no other characters than spaces, symbols and those
of names, so that it has no markup in it, and every token of a name carries an identifier.
-/

set_option autoImplicit false

namespace LogicForms.Surface

/-! ### Pieces of text -/

/-- At the position, the text in front of `rest` is cut into the tokens, and then `rest` is cut. -/
def Cuts (position : Nat) (text : List Char) (tokens : List Token) (rest : List Char) : Prop :=
  tokensFrom position (text ++ rest)
    = (tokensFrom (position + text.length) rest).map fun others => tokens ++ others

/-- No name in front of the text would go on with it. -/
def EndsNames (rest : List Char) : Prop := ∀ c ∈ rest.head?, isNameChar c = false

section

variable {position : Nat} {text text' rest : List Char} {tokens tokens' : List Token} {c : Char}

theorem endsNames_nil : EndsNames [] := by
  intro c h
  exact absurd h (by simp)

theorem endsNames_cons (h : isNameChar c = false) : EndsNames (c :: rest) := by
  intro d hd
  rw [List.head?_cons, Option.mem_some_iff] at hd
  rw [← hd]
  exact h

/-- Empty text leaves it to what follows. -/
theorem EndsNames.append (h : EndsNames text) (hrest : EndsNames rest) :
    EndsNames (text ++ rest) := by
  cases text with
  | nil => exact hrest
  | cons c text => exact endsNames_cons (h c (by simp))

theorem cuts_nil : Cuts position [] [] rest := by
  unfold Cuts
  rw [List.nil_append, List.length_nil, Nat.add_zero]
  cases tokensFrom position rest <;> rfl

/-- **Pieces one behind the other.** -/
theorem Cuts.append (h : Cuts position text tokens (text' ++ rest))
    (h' : Cuts (position + text.length) text' tokens' rest) :
    Cuts position (text ++ text') (tokens ++ tokens') rest := by
  unfold Cuts at *
  rw [List.append_assoc, h, h', List.length_append, ← Nat.add_assoc]
  cases tokensFrom (position + text.length + text'.length) rest <;> simp [Except.map]

/-- All of a text that is one piece. -/
theorem Cuts.tokensFrom_eq (h : Cuts position text tokens []) :
    tokensFrom position text = .ok tokens := by
  unfold Cuts at h
  simpa [Except.map] using h

/-- A space gives no token. -/
theorem cuts_space : Cuts position [' '] [] rest := by
  unfold Cuts
  rw [List.singleton_append, tokensFrom_space]
  cases tokensFrom (position + 1) rest <;> simp [Except.map]

/-- No symbol is a space or a character of a name. -/
theorem isNameChar_of_ofSymbol? {kind : TokenKind} (h : TokenKind.ofSymbol? c = some kind) :
    c ≠ ' ' ∧ isNameChar c = false := by
  unfold TokenKind.ofSymbol? at h
  split at h <;> first | decide | exact absurd h (by simp)

/-- A symbol gives one token of its kind. -/
theorem exists_cuts_symbol (c : Char) (kind : TokenKind) (h : TokenKind.ofSymbol? c = some kind)
    (position : Nat) (rest : List Char) :
    ∃ token : TokenOf kind, Cuts position [c] [token.1] rest := by
  refine ⟨⟨⟨kind, c.toString, position⟩, rfl⟩, ?_⟩
  unfold Cuts
  rw [List.singleton_append, tokensFrom]
  simp [h, (isNameChar_of_ofSymbol? h).1]

/-- A name takes its characters, and no more, in front of text with which it does not go on. -/
theorem takeWhile_isNameChar (hall : ∀ c ∈ text, isNameChar c = true) (hrest : EndsNames rest) :
    (text ++ rest).takeWhile isNameChar = text ∧ (text ++ rest).dropWhile isNameChar = rest := by
  induction text with
  | nil =>
    cases rest with
    | nil => exact ⟨rfl, rfl⟩
    | cons d rest =>
      have hd : isNameChar d = false := hrest d (by simp)
      simp [hd]
  | cons c text ih =>
    have hc : isNameChar c = true := hall c (by simp)
    have htext := ih fun d hd => hall d (by simp [hd])
    simp [hc, htext]

/-- An identifier gives one token, with the identifier as its text. -/
theorem exists_cuts_name {name : String} (h : isIdentifier name = true) (position : Nat)
    (hrest : EndsNames rest) :
    ∃ token : TokenOf .name, token.1.value = name ∧
      Cuts position name.toList [token.1] rest := by
  refine ⟨⟨⟨.name, name, position⟩, rfl⟩, rfl, ?_⟩
  obtain ⟨c, tail, hname⟩ : ∃ c tail, name.toList = c :: tail := by
    cases hchars : name.toList with
    | nil => simp [isIdentifier, isIdentifierChars, hchars] at h
    | cons c tail => exact ⟨c, tail, rfl⟩
  simp only [isIdentifier, hname, isIdentifierChars, Bool.and_eq_true, List.all_eq_true] at h
  obtain ⟨hstart, htail⟩ := h
  obtain ⟨hsymbol, hspace⟩ := ofSymbol?_eq_none_of_isNameStart hstart
  obtain ⟨htake, hdrop⟩ := takeWhile_isNameChar htail hrest
  have hvalue : String.ofList (c :: tail) = name := by rw [← hname, String.ofList_toList]
  have hlength : position + (c :: tail).length = position + 1 + tail.length := by
    rw [List.length_cons]
    omega
  unfold Cuts
  rw [hname, List.cons_append, tokensFrom, hlength]
  simp [hspace, hsymbol, hstart, htake, hdrop, hvalue]

end

/-! ### What the tokens of a text are like -/

section

variable {position : Nat} {s : List Char} {tokens : List Token}

/-- Is the character a space, a symbol, or one of a name? -/
def isTokenChar (c : Char) : Bool :=
  c == ' ' || (TokenKind.ofSymbol? c).isSome || isNameChar c

/-- Text that can be cut into tokens has no other characters. -/
theorem isTokenChar_of_tokensFrom (h : tokensFrom position s = .ok tokens) :
    ∀ c ∈ s, isTokenChar c = true := by
  fun_induction tokensFrom position s generalizing tokens with
  | case1 => simp
  | case2 position rest ih =>
    exact List.forall_mem_cons.2 ⟨rfl, ih h⟩
  | case3 position c rest hspace kind hkind ih =>
    obtain ⟨others, hothers, -⟩ := map_eq_ok.1 h
    exact List.forall_mem_cons.2 ⟨by simp [isTokenChar, hkind], ih hothers⟩
  | case4 position c rest hspace hkind hstart =>
    rename_i tail ih
    obtain ⟨others, hothers, -⟩ := map_eq_ok.1 h
    refine List.forall_mem_cons.2 ⟨by simp [isTokenChar, isNameChar, hstart], fun d hd => ?_⟩
    rw [← List.takeWhile_append_dropWhile (p := isNameChar) (l := rest)] at hd
    rcases List.mem_append.1 hd with hd | hd
    · have hname : isNameChar d = true := List.all_eq_true.1 List.all_takeWhile d hd
      simp [isTokenChar, hname]
    · exact ih hothers d hd
  | case5 => exact absurd h (by simp)

/-- The text of a token is made up of such characters as well. -/
theorem isTokenChar_of_mem_value (h : tokensFrom position s = .ok tokens) :
    ∀ token ∈ tokens, ∀ c ∈ token.value.toList, isTokenChar c = true := by
  fun_induction tokensFrom position s generalizing tokens with
  | case1 =>
    cases h
    simp
  | case2 position rest ih => exact ih h
  | case3 position c rest hspace kind hkind ih =>
    obtain ⟨others, hothers, rfl⟩ := map_eq_ok.1 h
    refine List.forall_mem_cons.2 ⟨?_, ih hothers⟩
    simp [Char.toString, isTokenChar, hkind]
  | case4 position c rest hspace hkind hstart =>
    rename_i tail ih
    obtain ⟨others, hothers, rfl⟩ := map_eq_ok.1 h
    refine List.forall_mem_cons.2 ⟨?_, ih hothers⟩
    have htail : ∀ d ∈ rest.takeWhile isNameChar, isNameChar d = true :=
      List.all_eq_true.1 List.all_takeWhile
    simp only [String.toList_ofList, List.forall_mem_cons]
    refine ⟨by simp [isTokenChar, isNameChar, hstart], ?_⟩
    intro d hd
    simp [isTokenChar, htail d hd]
  | case5 => exact absurd h (by simp)

/-- No character of a token is markup. -/
theorem not_mem_markup {c : Char} (h : isTokenChar c = true) : c ∉ markup := by
  have hmarkup : markup.any isTokenChar = false := by decide
  intro hc
  exact List.any_eq_false.1 hmarkup c hc h

/-- The tokens of names carry identifiers. -/
theorem isIdentifier_of_mem_tokensFrom (h : tokensFrom position s = .ok tokens) :
    ∀ token ∈ tokens, token.kind = .name → isIdentifier token.value = true := by
  fun_induction tokensFrom position s generalizing tokens with
  | case1 =>
    cases h
    simp
  | case2 position rest ih => exact ih h
  | case3 position c rest hspace kind hkind ih =>
    obtain ⟨others, hothers, rfl⟩ := map_eq_ok.1 h
    refine List.forall_mem_cons.2 ⟨fun hname => ?_, ih hothers⟩
    -- no symbol makes up a name
    unfold TokenKind.ofSymbol? at hkind
    split at hkind <;> simp_all
  | case4 position c rest hspace hkind hstart =>
    rename_i tail ih
    obtain ⟨others, hothers, rfl⟩ := map_eq_ok.1 h
    refine List.forall_mem_cons.2 ⟨fun _ => ?_, ih hothers⟩
    have htail : ∀ d ∈ rest.takeWhile isNameChar, isNameChar d = true :=
      List.all_eq_true.1 List.all_takeWhile
    simpa [isIdentifier, isIdentifierChars, hstart] using htail
  | case5 => exact absurd h (by simp)

end

section

variable {s : String} {tokens : List Token}

/-- The tokens of a text, after normalization, carry identifiers as names. -/
theorem isIdentifier_of_mem_tokensOf (h : tokensOf s = .ok tokens) :
    ∀ token ∈ tokens, token.kind = .name → isIdentifier token.value = true :=
  isIdentifier_of_mem_tokensFrom (mapError_eq_ok.1 h)

/-- **Tidy text that can be cut into tokens is its own normal form**, so that its tokens are those
of the text as it stands. -/
theorem tokensOf_eq_ok (hs : Text.IsTidy s.toList) (h : tokensFrom 0 s.toList = .ok tokens) :
    tokensOf s = .ok tokens := by
  have hmarkup : ∀ c ∈ s.toList, c ∉ markup := fun c hc =>
    not_mem_markup (isTokenChar_of_tokensFrom h c hc)
  have hnormal : normalize s = s := by
    rw [normalize, normalizeChars_eq_self hs hmarkup, String.ofList_toList]
  rw [tokensOf, hnormal]
  exact mapError_eq_ok.2 h

end

end LogicForms.Surface
