import Mathlib.Tactic.SplitIfs
import LogicForms.Proofs.Failures
import LogicForms.Proofs.SyntaxErrors
import LogicForms.Text.Lines

/-!
# Failures in one line

A failure is printed as its kind and its message, with a line feed behind them. For the failures of
a run this is one line (`Report.lines_line_of_ofText`): no line end is in the message, whatever the
text is that could not be read. Where a message shows a piece of the text, line ends in it are
escaped, and the tokens that a message lists consist of symbols and characters of names only.
-/

set_option autoImplicit false

namespace LogicForms

namespace Text

/-- The text has no line end. -/
def IsOneLine (s : String) : Prop := ∀ c ∈ s.toList, isLineEnd c = false

instance : DecidablePred IsOneLine := fun s =>
  decidable_of_iff ((s.toList.any isLineEnd) = false) (by simp [IsOneLine])

namespace IsOneLine

variable {s t : String}

theorem append (hs : IsOneLine s) (ht : IsOneLine t) : IsOneLine (s ++ t) := by
  intro c hc
  rw [String.toList_append] at hc
  rcases List.mem_append.1 hc with hc | hc
  · exact hs c hc
  · exact ht c hc

/-- Texts on one line, joined by a text on one line. -/
theorem joinWith {separator : String} (hseparator : IsOneLine separator) {texts : List String}
    (h : ∀ text ∈ texts, IsOneLine text) : IsOneLine (joinWith separator texts) := by
  induction texts with
  | nil => exact List.forall_mem_nil _
  | cons text texts ih =>
    have htext := h text (by simp)
    have htexts := ih fun other hother => h other (by simp [hother])
    cases texts with
    | nil => exact htext
    | cons next rest => exact (htext.append hseparator).append htexts

end IsOneLine

/-- A text on one line is the only line, whether or not it is ended. -/
theorem lines_lineFeed {s : List Char} (h : ∀ c ∈ s, isLineEnd c = false) :
    lines (s ++ ['\n']) = [s] := by
  induction s with
  | nil => rfl
  | cons c s ih =>
    have hc := h c (by simp)
    have hs := ih fun d hd => h d (by simp [hd])
    rw [List.cons_append, lines, if_neg (by simp [hc]), hs]
    -- a carriage return would be a line end
    rintro rest rfl -
    exact absurd hc (by decide)

/-! ### Pieces of messages -/

/-- A character of a class without line ends is no line end. -/
theorem isLineEnd_eq_false {p : Char → Bool} {c : Char} (hp : lineEnds.any p = false)
    (h : p c = true) : isLineEnd c = false := by
  cases hc : isLineEnd c with
  | false => rfl
  | true => exact absurd h (List.any_eq_false.1 hp c (by simpa [isLineEnd] using hc))

theorem isOneLine_toString (n : Nat) : IsOneLine (toString n) := by
  intro c hc
  rw [Nat.toString_eq_repr, Nat.toList_repr] at hc
  have hdigit : c.isDigit = true := Nat.isDigit_of_mem_toDigits (by decide) (by decide) hc
  exact isLineEnd_eq_false (by decide) hdigit

/-- No line end is printable. -/
theorem isLineEnd_of_isPrintable {c : Char} (h : isPrintable c = true) : isLineEnd c = false :=
  isLineEnd_eq_false (by decide +kernel) h

/-- Hexadecimal numerals have digits and letters only. -/
theorem isLineEnd_of_mem_hex {width n : Nat} {c : Char} (h : c ∈ hex width n) :
    isLineEnd c = false := by
  have hdigits : ∀ d < 16, isLineEnd (Nat.digitChar d) = false := by decide
  induction width generalizing n with
  | zero => simp [hex] at h
  | succ width ih =>
    rw [hex, List.mem_append, List.mem_singleton] at h
    rcases h with h | rfl
    · exact ih h
    · exact hdigits (n % 16) (Nat.mod_lt n (by decide))

/-- An escape has no line end if there is none behind the backslash. -/
theorem isLineEnd_of_mem_escape {letter d : Char} {rest : List Char}
    (hletter : isLineEnd letter = false) (hrest : ∀ e ∈ rest, isLineEnd e = false)
    (h : d ∈ '\\' :: letter :: rest) : isLineEnd d = false := by
  rcases List.mem_cons.1 h with rfl | h
  · decide
  · rcases List.mem_cons.1 h with rfl | h
    · exact hletter
    · exact hrest d h

/-- Line ends are escaped, whatever the quotation mark is. -/
theorem isLineEnd_of_mem_escaped {mark c d : Char} (hmark : isLineEnd mark = false)
    (h : d ∈ escaped mark c) : isLineEnd d = false := by
  unfold escaped at h
  split_ifs at h with hspecial htab hfeed hreturn hprintable hbyte hplane
  · have hc : isLineEnd c = false := by
      rcases hspecial with rfl | rfl
      · decide
      · exact hmark
    exact isLineEnd_of_mem_escape hc (List.forall_mem_nil _) h
  · exact isLineEnd_of_mem_escape (by decide) (List.forall_mem_nil _) h
  · exact isLineEnd_of_mem_escape (by decide) (List.forall_mem_nil _) h
  · exact isLineEnd_of_mem_escape (by decide) (List.forall_mem_nil _) h
  · rw [List.mem_singleton.1 h]
    exact isLineEnd_of_isPrintable hprintable
  -- the code point follows in hexadecimal
  · exact isLineEnd_of_mem_escape (by decide) (fun _ => isLineEnd_of_mem_hex) h
  · exact isLineEnd_of_mem_escape (by decide) (fun _ => isLineEnd_of_mem_hex) h
  · exact isLineEnd_of_mem_escape (by decide) (fun _ => isLineEnd_of_mem_hex) h

/-- A quoted text is on one line. -/
theorem isOneLine_quoted (s : String) : IsOneLine (quoted s) := by
  have hmark : isLineEnd (quotationMark s.toList) = false := by
    unfold quotationMark
    split <;> decide
  intro c hc
  simp only [quoted, String.toList_ofList, List.cons_append, List.mem_cons, List.mem_append,
    List.mem_flatMap, List.not_mem_nil, or_false] at hc
  rcases hc with rfl | ⟨d, -, hd⟩ | rfl
  · exact hmark
  · exact isLineEnd_of_mem_escaped hmark hd
  · exact hmark

end Text

/-! ### Messages -/

open Text (IsOneLine isOneLine_toString isOneLine_quoted)

namespace Surface

theorem LexError.isOneLine_message (e : LexError) : IsOneLine e.message := by
  have hposition : IsOneLine "invalid token at position " := by decide
  have hnear : IsOneLine " near " := by decide
  exact ((hposition.append (isOneLine_toString _)).append hnear).append (isOneLine_quoted _)

theorem TokenKind.isOneLine_label (kind : TokenKind) : IsOneLine kind.label := by
  have hall : ∀ kind ∈ all, IsOneLine kind.label := by decide
  refine hall kind ?_
  -- the list of all kinds is complete
  rcases kind with (_ | _) | _ | (_ | _ | _ | _) | _ | _ | _ | _ | _ | _ <;> simp [all]

theorem SyntaxError.isOneLine_unexpected (expected : Expected) (rest : List Token) :
    IsOneLine (SyntaxError.unexpected expected rest).message := by
  have hexpected : IsOneLine "expected " := by decide
  have hfound : IsOneLine ", found " := by decide
  have hlabel : IsOneLine expected.label := by
    cases expected with
    | token kind => exact kind.isOneLine_label
    | atom => decide
  have hfoundLabel : IsOneLine (foundLabel rest) := by
    cases rest with
    | nil => decide
    | cons token rest => exact token.kind.isOneLine_label
  exact ((hexpected.append hlabel).append hfound).append hfoundLabel

theorem SyntaxError.isOneLine_trailing {rest : List Token}
    (h : ∀ token ∈ rest, IsOneLine token.value) :
    IsOneLine (SyntaxError.trailing rest).message := by
  have htrailing : IsOneLine "trailing tokens: " := by decide
  have hspace : IsOneLine " " := by decide
  refine htrailing.append (hspace.joinWith ?_)
  rw [List.forall_mem_map]
  exact h

/-- The tokens of a text are on one line each. -/
theorem isOneLine_of_mem_tokensOf {s : String} {tokens : List Token}
    (h : tokensOf s = .ok tokens) : ∀ token ∈ tokens, IsOneLine token.value := by
  intro token htoken c hc
  have hchar := isTokenChar_of_mem_value (mapError_eq_ok.1 h) token htoken c hc
  exact Text.isLineEnd_eq_false (by decide) hchar

end Surface

/-- **The message about a text that cannot be read is on one line.** -/
theorem Formula.isOneLine_of_ofText {s : String} {e : ReadError} (h : ofText s = .error e) :
    IsOneLine e.message := by
  rw [ofText] at h
  cases htokens : Surface.tokensOf s with
  | error error =>
    rw [htokens] at h
    cases h
    obtain ⟨e, -, rfl⟩ := mapError_eq_error.1 htokens
    exact e.isOneLine_message
  | ok tokens =>
    rw [htokens, ok_bind] at h
    obtain ⟨e, hread, rfl⟩ := mapError_eq_error.1 h
    cases e with
    | unexpected expected rest => exact Surface.SyntaxError.isOneLine_unexpected expected rest
    | trailing rest =>
      have hsuffix := Surface.suffix_of_readAll_eq_trailing hread
      refine Surface.SyntaxError.isOneLine_trailing fun token htoken => ?_
      exact Surface.isOneLine_of_mem_tokensOf htokens token (hsuffix.subset htoken)

/-- The message about a budget that is exceeded is on one line. -/
theorem ResourceExceeded.isOneLine_message {e : ResourceExceeded} (h : IsOneLine e.stage) :
    IsOneLine e.message := by
  have hduring : IsOneLine "formula grew too large during " := by decide
  have hbudget : IsOneLine " distribution (budget of " := by decide
  have hexhausted : IsOneLine " exhausted)" := by decide
  exact (((hduring.append h).append hbudget).append (isOneLine_toString _)).append hexhausted

namespace Report

/-- **The failure of a run is on one line.** -/
theorem isOneLine_of_ofText {o : Options} {text : String} {e : Failure}
    (h : ofText o text = .error e) : IsOneLine (e.kind ++ ": " ++ e.message) := by
  have hkind : IsOneLine e.kind := by
    have hall : ∀ kind ∈ Failure.runKinds, IsOneLine kind := by decide
    exact hall e.kind (kind_mem_runKinds h)
  have hcolon : IsOneLine ": " := by decide
  have hmessage : IsOneLine e.message := by
    rcases failure_ofText h with ⟨error, hread, rfl⟩ | ⟨form, rfl⟩
    · exact Formula.isOneLine_of_ofText hread
    · have hlabel : IsOneLine form.label := by cases form <;> decide
      exact ResourceExceeded.isOneLine_message hlabel
  exact (hkind.append hcolon).append hmessage

/-- The line that is printed for the failure of a run is one line. -/
theorem lines_line_of_ofText {o : Options} {text : String} {e : Failure}
    (h : ofText o text = .error e) :
    Text.lines e.line.toList = [(e.kind ++ ": " ++ e.message).toList] := by
  have hline : e.line.toList = (e.kind ++ ": " ++ e.message).toList ++ ['\n'] := by
    rw [Failure.line, String.toList_append]
    rfl
  rw [hline]
  exact Text.lines_lineFeed (isOneLine_of_ofText h)

end Report

end LogicForms
