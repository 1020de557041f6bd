import LogicForms.Proofs.Lexemes

/-!
# Where tokens are, and where no token can be

A character is stray if it belongs to no token whatever stands around it, or if it is a digit that
does not go on with a name. `Scanned` is the record of a pass over a text: what has been cut into
tokens, and what is left. A pass goes over no stray character and stops only in front of one
(`Scanned.isStray_iff`), so that the first stray character is where reading fails; and the tokens
of a pass keep everything but the spaces (`IsExact`).
-/

set_option autoImplicit false

namespace LogicForms.Surface

/-! ### Stray characters -/

/-- Does the text have a character at the index that can be in no token there? This is a character
that no token has, or a digit without a character of a name directly in front of it. -/
def IsStray (s : List Char) (i : Nat) : Prop :=
  ∃ c, s[i]? = some c ∧
    (isTokenChar c = false ∨
      c.isDigit = true ∧ ∀ d ∈ (s.take i).getLast?, isNameChar d = false)

section

variable {c : Char} {front back : List Char} {i : Nat}

/-- The characters of names are those that names start with, and the digits. -/
theorem isNameChar_eq (c : Char) : isNameChar c = (isNameStart c || c.isDigit) := rfl

/-- A digit can stand in a name, but not at its start. -/
theorem isStart_of_isDigit (h : c.isDigit = true) : isStart c = false := by
  have hname : isNameChar c = true := by rw [isNameChar_eq, h, Bool.or_true]
  have hspace : c ≠ ' ' := fun heq => absurd h (by rw [heq]; decide)
  have hsymbol : TokenKind.ofSymbol? c = none := by
    cases hkind : TokenKind.ofSymbol? c with
    | none => rfl
    | some kind => exact absurd hname (by simp [(isNameChar_of_ofSymbol? hkind).2])
  have hle : c ≤ '9' := by
    simp only [Char.isDigit, Bool.and_eq_true, decide_eq_true_eq] at h
    exact h.2
  have hbelow (d : Char) (hd : ¬ d ≤ '9') : ¬ d ≤ c := fun hdc => hd (Char.le_trans hdc hle)
  have hstart : isNameStart c = false := by
    have hunderscore : c ≠ '_' := fun heq => absurd h (by rw [heq]; decide)
    simp [isNameStart, hbelow 'A' (by decide), hbelow 'a' (by decide), hunderscore]
  simp [isStart, hspace, hsymbol, hstart]

/-- The characters of tokens are those with which they start, and the digits. -/
theorem isTokenChar_eq (c : Char) : isTokenChar c = (isStart c || c.isDigit) := by
  rw [isTokenChar, isStart, isNameChar_eq, Bool.or_assoc, Bool.or_assoc, Bool.or_assoc]

/-- A text that starts with a character that starts no token is stray there. -/
theorem isStray_zero (h : isStart c = false) (rest : List Char) : IsStray (c :: rest) 0 := by
  refine ⟨c, rfl, ?_⟩
  rw [isTokenChar_eq, h, Bool.false_or]
  cases hdigit : c.isDigit with
  | false => exact Or.inl rfl
  | true => exact Or.inr ⟨rfl, by simp⟩

/-- The stray characters of a text are those of its pieces, if no name goes over the boundary. -/
theorem isStray_append (h : Parted front back) :
    IsStray (front ++ back) i ↔
      IsStray front i ∨ ∃ j, i = front.length + j ∧ IsStray back j := by
  by_cases hi : i < front.length
  · have hright : ¬ ∃ j, i = front.length + j ∧ IsStray back j := by
      rintro ⟨j, rfl, -⟩
      omega
    rw [or_iff_left hright, IsStray, IsStray, List.getElem?_append_left hi,
      List.take_append_of_le_length (Nat.le_of_lt hi)]
  · obtain ⟨j, rfl⟩ := Nat.exists_eq_add_of_le (Nat.le_of_not_lt hi)
    have hleft : ¬ IsStray front (front.length + j) := by
      rintro ⟨c, hc, -⟩
      rw [List.getElem?_eq_none (by omega)] at hc
      exact absurd hc (by simp)
    have hright : (∃ k, front.length + j = front.length + k ∧ IsStray back k) ↔ IsStray back j := by
      simp
    rw [or_iff_right hleft, hright, IsStray, IsStray, List.getElem?_append_right (by omega),
      Nat.add_sub_cancel_left, List.take_length_add_append, List.getLast?_append]
    refine exists_congr fun c => and_congr_right fun hc => or_congr_right
      (and_congr_right fun hdigit => ?_)
    cases hlast : (back.take j).getLast? with
    | some d => simp
    | none =>
      -- the digit is the first character behind the boundary
      have hj : j = 0 := by
        have hnil : back.take j = [] := List.getLast?_eq_none_iff.1 hlast
        have hlt : j < back.length := (List.getElem?_eq_some_iff.1 hc).1
        have hlength := congrArg List.length hnil
        rw [List.length_take, List.length_nil] at hlength
        omega
      subst hj
      have hname : isNameChar c = true := by rw [isNameChar_eq, hdigit, Bool.or_true]
      have hfront : ∀ d ∈ front.getLast?, isNameChar d = false := by
        refine h.resolve_right fun hends => ?_
        have hfalse := hends c (by rwa [List.head?_eq_getElem?])
        exact absurd hname (by simp [hfalse])
      simpa using hfront

end

/-- The characters of a name are not stray. -/
theorem not_isStray_name {name : String} (h : isIdentifier name = true) (i : Nat) :
    ¬ IsStray name.toList i := by
  rw [isIdentifier] at h
  cases hname : name.toList with
  | nil => simp [IsStray]
  | cons c rest =>
    rw [hname, isIdentifierChars, Bool.and_eq_true, List.all_eq_true] at h
    have hall : ∀ d ∈ c :: rest, isNameChar d = true :=
      List.forall_mem_cons.2 ⟨by simp [isNameChar, h.1], h.2⟩
    rintro ⟨d, hd, hbad⟩
    have hchar : isNameChar d = true := hall d (List.mem_of_getElem? hd)
    rcases hbad with hbad | ⟨hdigit, hlast⟩
    · exact absurd hbad (by simp [isTokenChar, hchar])
    · cases i with
      | zero =>
        obtain rfl : c = d := Option.some.inj hd
        exact absurd (isStart_of_isDigit hdigit) (by simp [isStart, h.1])
      | succ i =>
        -- a name character is directly in front of the digit
        have hne : (c :: rest).take (i + 1) ≠ [] := by simp
        have hmem := List.getLast_mem hne
        have hfalse := hlast _ (List.getLast_mem_getLast? hne)
        exact Bool.false_ne_true (hfalse.symm.trans (hall _ (List.mem_of_mem_take hmem)))

/-- A character that is no digit and can stand in a token is not stray. -/
theorem not_isStray_singleton {c : Char} (hstart : isStart c = true) (i : Nat) :
    ¬ IsStray [c] i := by
  rintro ⟨d, hd, hbad⟩
  have hmem : d ∈ [c] := List.mem_of_getElem? hd
  rw [List.mem_singleton] at hmem
  subst hmem
  rcases hbad with hbad | ⟨hdigit, -⟩
  · exact absurd hbad (by simp [isTokenChar_eq, hstart])
  · exact absurd (isStart_of_isDigit hdigit) (by simp [hstart])

/-! ### A pass over a text -/

/-- The record of a pass: from a position on, the text is cut into the tokens up to the place from
which on `left` is the rest of it. -/
inductive Scanned (left : List Char) : Nat → List Char → List Token → Prop where
  /-- Nothing is cut. -/
  | stop (position : Nat) : Scanned left position left []
  /-- A space is skipped. -/
  | space {position : Nat} {rest : List Char} {tokens : List Token} :
    Scanned left (position + 1) rest tokens → Scanned left position (' ' :: rest) tokens
  /-- A symbol is a token. -/
  | symbol {position : Nat} {c : Char} {kind : TokenKind} {rest : List Char}
    {tokens : List Token} : TokenKind.ofSymbol? c = some kind →
    Scanned left (position + 1) rest tokens →
    Scanned left position (c :: rest) (⟨kind, c.toString, position⟩ :: tokens)
  /-- A name is a token as far as it goes. -/
  | name {position : Nat} {name : String} {rest : List Char} {tokens : List Token} :
    isIdentifier name = true → EndsNames rest →
    Scanned left (position + name.length) rest tokens →
    Scanned left position (name.toList ++ rest) (⟨.name, name, position⟩ :: tokens)

section

variable {position : Nat} {s left : List Char} {tokens : List Token}

/-- A name that is cut off is an identifier, and does not go on. -/
theorem Scanned.name_of_isNameStart {c : Char} {rest : List Char} (h : isNameStart c = true)
    (hrest : Scanned left (position + 1 + (rest.takeWhile isNameChar).length)
      (rest.dropWhile isNameChar) tokens) :
    Scanned left position (c :: rest)
      (⟨.name, String.ofList (c :: rest.takeWhile isNameChar), position⟩ :: tokens) := by
  have hname : isIdentifier (String.ofList (c :: rest.takeWhile isNameChar)) = true := by
    rw [isIdentifier, String.toList_ofList, isIdentifierChars, h, List.all_takeWhile, Bool.true_and]
  have hends : EndsNames (rest.dropWhile isNameChar) := fun d hd => by
    simpa [Option.mem_def.1 hd] using List.head?_dropWhile_not isNameChar rest
  have hscanned : Scanned left (position + (String.ofList (c :: rest.takeWhile isNameChar)).length)
      (rest.dropWhile isNameChar) tokens := by
    rw [String.length_ofList, List.length_cons]
    rwa [Nat.add_assoc, Nat.add_comm 1] at hrest
  have hall := Scanned.name hname hends hscanned
  rwa [String.toList_ofList, List.cons_append, List.takeWhile_append_dropWhile] at hall

/-- Tokens come from a pass over the whole text. -/
theorem scanned_of_ok (h : tokensFrom position s = .ok tokens) : Scanned [] position s tokens := by
  fun_induction tokensFrom position s generalizing tokens with
  | case1 position =>
    cases h
    exact .stop position
  | case2 position rest ih => exact .space (ih h)
  | case3 position c rest hspace kind hkind ih =>
    obtain ⟨others, hothers, rfl⟩ := map_eq_ok.1 h
    exact .symbol hkind (ih hothers)
  | case4 position c rest hspace hkind hstart =>
    rename_i tail ih
    obtain ⟨others, hothers, rfl⟩ := map_eq_ok.1 h
    exact .name_of_isNameStart hstart (ih hothers)
  | case5 => exact absurd h (by simp)

/-- An error comes from a pass up to a character that starts no token. -/
theorem scanned_of_error {e : LexError} (h : tokensFrom position s = .error e) :
    ∃ tokens c rest, Scanned (c :: rest) position s tokens ∧ isStart c = false ∧
      e.position + (c :: rest).length = position + s.length ∧
      e.snippet = String.ofList ((c :: rest).take 10) := by
  fun_induction tokensFrom position s generalizing e with
  | case1 => cases h
  | case2 position rest ih =>
    obtain ⟨tokens, c, left, hscanned, hc, hposition, hsnippet⟩ := ih h
    refine ⟨tokens, c, left, .space hscanned, hc, ?_, hsnippet⟩
    rw [hposition, List.length_cons]
    omega
  | case3 position c rest hspace kind hkind ih =>
    obtain ⟨tokens, d, left, hscanned, hd, hposition, hsnippet⟩ := ih (map_eq_error.1 h)
    refine ⟨_, d, left, .symbol hkind hscanned, hd, ?_, hsnippet⟩
    rw [hposition, List.length_cons]
    omega
  | case4 position c rest hspace hkind hstart =>
    rename_i tail ih
    obtain ⟨tokens, d, left, hscanned, hd, hposition, hsnippet⟩ := ih (map_eq_error.1 h)
    refine ⟨_, d, left, .name_of_isNameStart hstart hscanned, hd, ?_, hsnippet⟩
    have htail : tail.length + (rest.dropWhile isNameChar).length = rest.length := by
      rw [← List.length_append, List.takeWhile_append_dropWhile]
    rw [hposition, List.length_cons]
    omega
  | case5 position c rest hspace hkind hstart =>
    cases h
    refine ⟨[], c, rest, .stop position, ?_, rfl, rfl⟩
    simp [isStart, hspace, hkind, hstart]

/-- **A pass goes over no stray character**: what is stray is stray in what is left. -/
theorem Scanned.isStray_iff (h : Scanned left position s tokens) :
    ∃ front, s = front ++ left ∧
      ∀ i, IsStray s i ↔ ∃ j, i = front.length + j ∧ IsStray left j := by
  have step (piece : List Char) {rest : List Char} (hpiece : ∀ i, ¬ IsStray piece i)
      (hparted : Parted piece rest)
      (ih : ∃ front, rest = front ++ left ∧
        ∀ i, IsStray rest i ↔ ∃ j, i = front.length + j ∧ IsStray left j) :
      ∃ front, piece ++ rest = front ++ left ∧
        ∀ i, IsStray (piece ++ rest) i ↔ ∃ j, i = front.length + j ∧ IsStray left j := by
    obtain ⟨front, rfl, hstray⟩ := ih
    refine ⟨piece ++ front, (List.append_assoc _ _ _).symm, fun i => ?_⟩
    rw [isStray_append hparted, or_iff_right (hpiece i)]
    constructor
    · rintro ⟨j, rfl, hj⟩
      obtain ⟨k, rfl, hk⟩ := (hstray j).1 hj
      exact ⟨k, by rw [List.length_append, Nat.add_assoc], hk⟩
    · rintro ⟨k, rfl, hk⟩
      exact ⟨front.length + k, by rw [List.length_append, Nat.add_assoc], (hstray _).2 ⟨k, rfl, hk⟩⟩
  induction h with
  | stop position => exact ⟨[], rfl, fun i => by simp⟩
  | space hscanned ih =>
    exact step [' '] (not_isStray_singleton (by decide)) (parted_singleton (by decide) _) ih
  | @symbol position c kind rest tokens hkind hscanned ih =>
    refine step [c] (not_isStray_singleton (by simp [isStart, hkind])) ?_ ih
    exact parted_singleton (isNameChar_of_ofSymbol? hkind).2 rest
  | name hname hends hscanned ih => exact step _ (not_isStray_name hname) (Or.inr hends) ih

/-! ### The tokens of a pass -/

/-- Does the text of a token fit its kind? The text of a name is an identifier, and every other
token is made up of the symbol of its kind. -/
def Token.IsProper (token : Token) : Prop :=
  token.kind = .name ∧ isIdentifier token.value = true ∨
    ∃ c, token.value = c.toString ∧ TokenKind.ofSymbol? c = some token.kind

/-- No symbol is a name. -/
theorem ofSymbol?_ne_name (c : Char) : TokenKind.ofSymbol? c ≠ some .name := by
  intro h
  unfold TokenKind.ofSymbol? at h
  split at h <;> simp_all

/-- The text of a name is a name. -/
theorem Token.IsProper.isIdentifier {token : Token} (h : token.IsProper)
    (hname : token.kind = .name) : isIdentifier token.value = true := by
  rcases h with h | ⟨c, -, hkind⟩
  · exact h.2
  · rw [hname] at hkind
    exact absurd hkind (ofSymbol?_ne_name c)

/-- A token is read from its own text. -/
theorem Token.IsProper.lexemesOf_value {token : Token} (h : token.IsProper) :
    lexemesOf token.value.toList = some [token.lexeme] := by
  obtain ⟨kind, value, position⟩ := token
  rcases h with ⟨rfl, hname⟩ | ⟨c, rfl, hkind⟩
  · dsimp only at hname ⊢
    rw [Surface.isIdentifier] at hname
    cases hchars : value.toList with
    | nil => simp [hchars, isIdentifierChars] at hname
    | cons c rest =>
      rw [hchars, isIdentifierChars, Bool.and_eq_true, List.all_eq_true] at hname
      have htake : rest.takeWhile isNameChar = rest := List.takeWhile_eq_self_iff.2 hname.2
      have hdrop : rest.dropWhile isNameChar = [] := List.dropWhile_eq_nil_iff.2 hname.2
      rw [lexemesOf_name hname.1, htake, hdrop, lexemesOf_nil, ← hchars, String.ofList_toList]
      rfl
  · dsimp only at hkind ⊢
    rw [Char.toString_eq_singleton, String.toList_singleton, lexemesOf_symbol hkind, lexemesOf_nil]
    rfl

/-- No token is empty. -/
theorem Token.IsProper.length_pos {token : Token} (h : token.IsProper) :
    0 < token.value.length := by
  refine Nat.pos_of_ne_zero fun hzero => ?_
  have hnil : token.value.toList = [] :=
    List.length_eq_zero_iff.1 (by rw [String.length_toList, hzero])
  have hlexemes := h.lexemesOf_value
  rw [hnil, lexemesOf_nil] at hlexemes
  cases hlexemes

/-- All tokens are proper ones. -/
theorem Scanned.isProper (h : Scanned left position s tokens) :
    ∀ token ∈ tokens, token.IsProper := by
  induction h with
  | stop position => simp
  | space hscanned ih => exact ih
  | symbol hkind hscanned ih => exact List.forall_mem_cons.2 ⟨Or.inr ⟨_, rfl, hkind⟩, ih⟩
  | name hname hends hscanned ih => exact List.forall_mem_cons.2 ⟨Or.inl ⟨rfl, hname⟩, ih⟩

/-- In front of a name that is parted from it, a piece does not end like a name. -/
theorem Parted.isNameChar_eq_false {piece back : List Char} {name : String}
    (h : Parted piece (name.toList ++ back)) (hname : isIdentifier name = true) :
    ∀ c ∈ piece.getLast?, isNameChar c = false := by
  refine h.resolve_right fun hends => ?_
  rw [isIdentifier] at hname
  cases hchars : name.toList with
  | nil => simp [hchars, isIdentifierChars] at hname
  | cons c rest =>
    rw [hchars, isIdentifierChars, Bool.and_eq_true] at hname
    have hfalse : isNameChar c = false := hends c (by simp [hchars])
    exact absurd hfalse (by simp [isNameChar, hname.1])

/-- **Every token stands at its place in the text**, and names go as far as they can. -/
theorem Scanned.exists_around (h : Scanned left position s tokens) :
    ∀ token ∈ tokens, ∃ front back, s = front ++ (token.value.toList ++ back) ∧
      token.position = position + front.length ∧
      (token.kind = .name →
        (∀ c ∈ front.getLast?, isNameChar c = false) ∧ EndsNames back) := by
  -- a piece in front of the text moves the tokens behind it
  have step {position : Nat} (piece : List Char) {rest : List Char} {tokens : List Token}
      (hparted : Parted piece rest) (hproper : ∀ token ∈ tokens, token.IsProper)
      (ih : ∀ token ∈ tokens, ∃ front back, rest = front ++ (token.value.toList ++ back) ∧
        token.position = position + piece.length + front.length ∧
        (token.kind = .name →
          (∀ c ∈ front.getLast?, isNameChar c = false) ∧ EndsNames back)) :
      ∀ token ∈ tokens, ∃ front back, piece ++ rest = front ++ (token.value.toList ++ back) ∧
        token.position = position + front.length ∧
        (token.kind = .name →
          (∀ c ∈ front.getLast?, isNameChar c = false) ∧ EndsNames back) := by
    intro token htoken
    obtain ⟨front, back, rfl, hposition, hname⟩ := ih token htoken
    refine ⟨piece ++ front, back, (List.append_assoc _ _ _).symm, ?_, fun hkind => ?_⟩
    · rw [hposition, List.length_append, Nat.add_assoc]
    · refine ⟨?_, (hname hkind).2⟩
      by_cases hfront : front = []
      · subst hfront
        rw [List.append_nil]
        exact hparted.isNameChar_eq_false ((hproper token htoken).isIdentifier hkind)
      · rw [← getLast?_of_suffix (List.suffix_append piece front) hfront]
        exact (hname hkind).1
  induction h with
  | stop position => simp
  | space hscanned ih =>
    exact step [' '] (parted_singleton (by decide) _) hscanned.isProper ih
  | @symbol position c kind rest tokens hkind hscanned ih =>
    have hparted : Parted [c] rest := parted_singleton (isNameChar_of_ofSymbol? hkind).2 rest
    refine List.forall_mem_cons.2 ⟨⟨[], rest, ?_, rfl, fun hname => ?_⟩,
      step [c] hparted hscanned.isProper ih⟩
    · simp
    · dsimp only at hname
      rw [hname] at hkind
      exact absurd hkind (ofSymbol?_ne_name c)
  | @name position name rest tokens hname hends hscanned ih =>
    rw [← String.length_toList] at ih
    exact List.forall_mem_cons.2 ⟨⟨[], rest, rfl, rfl, fun _ => ⟨by simp, hends⟩⟩,
      step _ (Or.inr hends) hscanned.isProper ih⟩

/-- Tokens do not overlap, and come in the order of their places. -/
theorem Scanned.pairwise (h : Scanned left position s tokens) :
    tokens.Pairwise fun a b => a.position + a.value.length ≤ b.position := by
  have le_position {position : Nat} {s : List Char} {tokens : List Token}
      (h : Scanned left position s tokens) : ∀ token ∈ tokens, position ≤ token.position := by
    intro token htoken
    obtain ⟨front, back, -, hposition, -⟩ := h.exists_around token htoken
    omega
  induction h with
  | stop position => exact List.Pairwise.nil
  | space hscanned ih => exact ih
  | @symbol position c kind rest tokens hkind hscanned ih =>
    have hlength : c.toString.length = 1 := by simp
    refine List.pairwise_cons.2 ⟨fun token htoken => ?_, ih⟩
    rw [hlength]
    exact le_position hscanned token htoken
  | name hname hends hscanned ih =>
    exact List.pairwise_cons.2 ⟨fun token htoken => le_position hscanned token htoken, ih⟩

/-- **Nothing but spaces is left out** by a pass over the whole text. -/
theorem Scanned.eq_space (h : Scanned [] position s tokens) {i : Nat} {c : Char}
    (hc : s[i]? = some c)
    (houtside : ∀ token ∈ tokens,
      ¬ (token.position ≤ position + i ∧ position + i < token.position + token.value.length)) :
    c = ' ' := by
  induction h generalizing i with
  | stop position => exact absurd hc (by simp)
  | @space position rest tokens hscanned ih =>
    cases i with
    | zero => exact (Option.some.inj hc).symm
    | succ i =>
      refine ih hc fun token htoken => ?_
      rw [Nat.add_assoc, Nat.add_comm 1]
      exact houtside token htoken
  | @symbol position d kind rest tokens hkind hscanned ih =>
    have hlength : d.toString.length = 1 := by simp
    obtain ⟨hhead, htokens⟩ := List.forall_mem_cons.1 houtside
    cases i with
    | zero =>
      dsimp only at hhead
      omega
    | succ i =>
      refine ih hc fun token htoken => ?_
      rw [Nat.add_assoc, Nat.add_comm 1]
      exact htokens token htoken
  | @name position name rest tokens hname hends hscanned ih =>
    obtain ⟨hhead, htokens⟩ := List.forall_mem_cons.1 houtside
    dsimp only at hhead
    have hle : name.length ≤ i := by omega
    obtain ⟨j, rfl⟩ := Nat.exists_eq_add_of_le hle
    rw [← String.length_toList, List.getElem?_append_right (by omega),
      Nat.add_sub_cancel_left] at hc
    refine ih hc fun token htoken => ?_
    rw [Nat.add_assoc]
    exact htokens token htoken

end

/-! ### Exactness -/

/-- The tokens keep everything of a text but its spaces, each token at its place. -/
structure IsExact (s : List Char) (tokens : List Token) : Prop where
  /-- Positions increase. -/
  increasing : tokens.Pairwise fun a b => a.position < b.position
  /-- Tokens do not overlap. -/
  apart : tokens.Pairwise fun a b => a.position + a.value.length ≤ b.position
  /-- The text of each token is what stands at its position. -/
  value_eq : ∀ token ∈ tokens,
    (s.drop token.position).take token.value.length = token.value.toList
  /-- The text of each token fits its kind. -/
  isProper : ∀ token ∈ tokens, token.IsProper
  /-- Where there is no token, there are only spaces. -/
  eq_space : ∀ i c, s[i]? = some c →
    (∀ token ∈ tokens,
      ¬ (token.position ≤ i ∧ i < token.position + token.value.length)) → c = ' '
  /-- Neither the character in front of a name nor the one behind it could be part of it. -/
  maximal : ∀ token ∈ tokens, token.kind = .name →
    (∀ c ∈ (s.take token.position).getLast?, isNameChar c = false) ∧
      EndsNames (s.drop (token.position + token.value.length))

/-- A pass over the whole text is exact. -/
theorem Scanned.isExact {s : List Char} {tokens : List Token} (h : Scanned [] 0 s tokens) :
    IsExact s tokens where
  increasing := by
    refine h.pairwise.imp_of_mem fun {a b} ha hb hle => ?_
    have hpos := (h.isProper a ha).length_pos
    omega
  apart := h.pairwise
  value_eq token htoken := by
    obtain ⟨front, back, rfl, hposition, -⟩ := h.exists_around token htoken
    rw [hposition, Nat.zero_add, List.drop_left, ← String.length_toList, List.take_left]
  isProper := h.isProper
  eq_space i c hc houtside := h.eq_space hc (by simpa using houtside)
  maximal token htoken hkind := by
    obtain ⟨front, back, rfl, hposition, hname⟩ := h.exists_around token htoken
    rw [hposition, Nat.zero_add, List.take_left, ← String.length_toList, ← List.drop_drop,
      List.drop_left, List.drop_left]
    exact hname hkind

/-- **The first stray character is where reading fails.** -/
theorem least_isStray_of_error {s : List Char} {e : LexError} (h : tokensFrom 0 s = .error e) :
    IsStray s e.position ∧ (∀ i < e.position, ¬ IsStray s i) ∧
      e.snippet = String.ofList ((s.drop e.position).take 10) := by
  obtain ⟨tokens, c, rest, hscanned, hc, hposition, hsnippet⟩ := scanned_of_error h
  obtain ⟨front, rfl, hstray⟩ := hscanned.isStray_iff
  have hfront : e.position = front.length := by
    rw [List.length_append, Nat.zero_add] at hposition
    omega
  rw [hfront, List.drop_left]
  refine ⟨(hstray _).2 ⟨0, rfl, isStray_zero hc rest⟩, fun i hi hbad => ?_, hsnippet⟩
  obtain ⟨j, rfl, -⟩ := (hstray i).1 hbad
  omega

/-- A text that can be read has no stray characters. -/
theorem not_isStray_of_ok {s : List Char} {tokens : List Token} (h : tokensFrom 0 s = .ok tokens)
    (i : Nat) : ¬ IsStray s i := by
  obtain ⟨front, -, hstray⟩ := (scanned_of_ok h).isStray_iff
  intro hbad
  obtain ⟨j, -, c, hc, -⟩ := (hstray i).1 hbad
  exact absurd hc (by simp)

/-- **The lexer is exact and lossless.** A text cannot be read exactly if it has stray characters,
and then the error reports the first of them. Otherwise the tokens keep everything but the spaces,
and their texts with single spaces between them read as the same kinds and texts. -/
theorem tokenize_exact (s : String) :
    ((∃ e, tokenize s = .error e) ↔ ∃ i, IsStray s.toList i) ∧
      (∀ e, tokenize s = .error e →
        IsStray s.toList e.position ∧ (∀ i < e.position, ¬ IsStray s.toList i) ∧
          e.snippet = String.ofList ((s.toList.drop e.position).take 10)) ∧
      (∀ tokens, tokenize s = .ok tokens →
        IsExact s.toList tokens ∧
          lexemes (Text.joinWith " " (tokens.map Token.value))
            = some (tokens.map Token.lexeme)) := by
  refine ⟨⟨?_, ?_⟩, fun e h => least_isStray_of_error h, fun tokens h => ?_⟩
  · rintro ⟨e, h⟩
    exact ⟨e.position, (least_isStray_of_error h).1⟩
  · rintro ⟨i, hi⟩
    cases h : tokenize s with
    | error e => exact ⟨e, rfl⟩
    | ok tokens => exact absurd hi (not_isStray_of_ok h i)
  · have hscanned := scanned_of_ok h
    exact ⟨hscanned.isExact,
      lexemes_joinWith fun token htoken => (hscanned.isProper token htoken).lexemesOf_value⟩

/-- In `f(x1) 2` the second digit is stray, as no name goes on with it; `¬ P_1` has two tokens. -/
theorem tokenize_exact_samples :
    (IsStray "f(x1) 2".toList 6 ∧ ∀ i < 6, ¬ IsStray "f(x1) 2".toList i) ∧
      IsExact "¬ P_1".toList [⟨.not, "¬", 0⟩, ⟨.name, "P_1", 2⟩] := by
  have herror : tokenize "f(x1) 2" = .error ⟨6, "2"⟩ := by cbv
  have hok : tokenize "¬ P_1" = .ok [⟨.not, "¬", 0⟩, ⟨.name, "P_1", 2⟩] := by cbv
  obtain ⟨-, hfails, -⟩ := tokenize_exact "f(x1) 2"
  obtain ⟨-, -, hreads⟩ := tokenize_exact "¬ P_1"
  obtain ⟨hstray, hleast, -⟩ := hfails _ herror
  exact ⟨⟨hstray, hleast⟩, (hreads _ hok).1⟩

end LogicForms.Surface
