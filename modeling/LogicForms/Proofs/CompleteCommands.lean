import LogicForms.Proofs.CommandImages
import LogicForms.Proofs.Lexemes

/-!
# Commands without spaces around them

A command that is written right behind a name, a symbol or another command and right in front of
what follows need not be read like one with spaces around it, since it is replaced before the text
is cut into tokens. Marks around mathematics are removed before anything else, so that they separate
nothing. Apart from them, the commands for quantifiers and connectives are read in the same way with
and without spaces, as they become symbols. Those for constants and comparators become names, which
run into names next to them, and into commands in front of them that are replaced later
(`lexemes_normalize_command`).
-/

set_option autoImplicit false

namespace LogicForms.Surface

variable {r rule : Rule} {earlier later : List Rule} {c : Char} {name s : List Char}

/-! ### What is read -/

/-- The text without the marks around mathematics. -/
def unmarked (s : String) : List Char := s.toList.filter fun c => !(['$'].contains c)

/-- The text without braces, and with spaces for blanks. -/
def visible (s : List Char) : List Char := Text.withSpaces (braceRule.apply s)

/-- The text of the command with the given name. -/
def command (name : List Char) : String := String.ofList ('\\' :: name)

theorem applyRules_eq_unmarked (s : String) :
    applyRules s.toList = braceRule.apply (applyAll innerRules (unmarked s)) := by
  rw [applyRules_eq, markRule, Rule.apply_oneOf_nil]
  rfl

theorem lexemes_eq_visible (s : String) :
    lexemes (normalize s) = lexemesOf (visible (applyAll innerRules (unmarked s))) := by
  rw [lexemes_normalize, applyRules_eq_unmarked, visible]

theorem visible_append (s t : List Char) : visible (s ++ t) = visible s ++ visible t := by
  simp only [visible, braceRule, Rule.apply_oneOf_nil, List.filter_append, Text.withSpaces_append]

theorem visible_space (s : List Char) : visible (' ' :: s) = ' ' :: visible s :=
  visible_append [' '] s

/-- A text with a backslash left in it cannot be read. -/
theorem lexemes_eq_none_of_mem {s : String} (h : '\\' ∈ applyAll innerRules (unmarked s)) :
    lexemes (normalize s) = none := by
  refine lexemes_eq_none_iff.2 (exists_error_of_mem ?_)
  rw [applyRules_eq_unmarked, braceRule, Rule.apply_oneOf_nil]
  exact List.mem_filter.2 ⟨h, by decide⟩

/-- The images of the rules for logic stay. -/
theorem visible_image (h : r ∈ symbolRules ++ nameRules) : visible r.image = r.image := by
  have hall : ∀ r ∈ symbolRules ++ nameRules, visible r.image = r.image := by decide +kernel
  exact hall r h

theorem unmarked_append (s t : String) : unmarked (s ++ t) = unmarked s ++ unmarked t := by
  rw [unmarked, String.toList_append, List.filter_append, unmarked, unmarked]

theorem unmarked_command (hname : name ∈ commandNames) :
    unmarked (command name) = '\\' :: name := by
  rw [unmarked, command, String.toList_ofList, List.filter_eq_self]
  refine List.forall_mem_cons.2 ⟨by decide, fun c hc => ?_⟩
  have hne : c ≠ '$' := by
    rintro rfl
    exact absurd ((isLetter_of_mem_commandNames hname).2 _ hc) (by decide)
  simp [hne]

/-- The command between two texts. -/
theorem unmarked_between (hname : name ∈ commandNames) (u v : String) :
    unmarked (u ++ command name ++ v) = unmarked u ++ '\\' :: (name ++ unmarked v) := by
  simp only [unmarked_append, unmarked_command hname, List.append_assoc, List.cons_append]

/-- The command with a space on either side. -/
theorem unmarked_between_spaces (hname : name ∈ commandNames) (u v : String) :
    unmarked (u ++ " " ++ command name ++ " " ++ v)
      = unmarked u ++ ' ' :: ('\\' :: (name ++ ' ' :: unmarked v)) := by
  have hspace : unmarked " " = [' '] := rfl
  simp only [unmarked_append, unmarked_command hname, hspace, List.append_assoc, List.cons_append,
    List.nil_append]

/-- A symbol is read in the same way with and without spaces around it. -/
theorem lexemesOf_symbol_spaced {kind : TokenKind} (h : TokenKind.ofSymbol? c = some kind)
    (front back : List Char) :
    lexemesOf (front ++ c :: back) = lexemesOf (front ++ ' ' :: (c :: ' ' :: back)) := by
  rw [lexemesOf_append (Or.inr (endsNames_cons (isNameChar_of_ofSymbol? h).2)),
    lexemesOf_append_space, lexemesOf_symbol h, lexemesOf_symbol h, lexemesOf_space]

/-- Blanks are no characters of names, so that it makes no difference if they are spaces. -/
theorem forall_isNameChar_withSpaces (o : Option Char) :
    (∀ c ∈ o.map fun c => if Text.isBlank c then ' ' else c, isNameChar c = false) ↔
      ∀ c ∈ o, isNameChar c = false := by
  have hblanks : (Text.blanks.all fun c => !isNameChar c) = true := by decide
  have hsame (c : Char) : isNameChar (if Text.isBlank c then ' ' else c) = isNameChar c := by
    split
    · rename_i hblank
      have hc := List.all_eq_true.1 hblanks c (List.contains_iff_mem.1 hblank)
      have hspace : isNameChar ' ' = false := by decide
      simp_all
    · rfl
  cases o with
  | none => simp
  | some c => simp [hsame]

/-- No other name goes on with the image of a rule for constants and comparators, or the other way
round, if there is no character of a name at either side. -/
theorem parted_image_iff (hrule : rule ∈ nameRules) (front back : List Char) :
    Parted (Text.withSpaces front) (rule.image ++ Text.withSpaces back) ∧
        Parted rule.image (Text.withSpaces back) ↔
      (∀ c ∈ front.getLast?, isNameChar c = false) ∧ EndsNames back := by
  obtain ⟨c, tail, himage, hletter, -⟩ := exists_letter hrule
  have hletters := (isLetter_image_of_mem (mem_innerRules_of_mem_nameRules hrule)
    (by simp [himage]) hletter).1
  have hstart : ¬ EndsNames (rule.image ++ Text.withSpaces back) := by
    intro h
    have hc := h c (by simp [himage])
    simp [isNameChar_of_isLetter hletter] at hc
  have hend : ¬ ∀ c ∈ rule.image.getLast?, isNameChar c = false := by
    intro h
    have hne : rule.image ≠ [] := by simp [himage]
    have hlast := h _ (List.getLast_mem_getLast? hne)
    simp [isNameChar_of_isLetter (hletters _ (List.getLast_mem hne))] at hlast
  rw [Parted, Parted, or_iff_left hstart, or_iff_right hend, EndsNames, EndsNames, Text.withSpaces,
    Text.withSpaces, List.getLast?_map, List.head?_map, forall_isNameChar_withSpaces,
    forall_isNameChar_withSpaces]

namespace Replaces

/-- If there is a letter behind the command when the turn of its rule comes, it is there in the
end. -/
theorem head?_applyRules (h : Replaces earlier rule later name) {v : String}
    (hc : c ∈ (applyAll earlier (unmarked v)).head?) (hletter : isLetter c = true) :
    c ∈ (applyRules v.toList).head? := by
  have hsubset : (rule :: later) ++ [braceRule] ⊆ rules := by
    intro r hr
    rw [rules_eq, h.innerRules_eq]
    exact List.mem_cons_of_mem _ (by simpa using Or.inr hr)
  rw [applyRules_eq_unmarked, h.innerRules_eq, applyAll_append, ← applyAll_concat]
  exact head?_applyAll_of_isLetter hsubset hc hletter

/-- What is read if the command is replaced on its own. -/
theorem lexemes_between (h : Replaces earlier rule later name)
    (hrule : rule ∈ symbolRules ++ nameRules) {u v : String}
    (heq : applyAll innerRules (unmarked u ++ '\\' :: (name ++ unmarked v))
      = applyAll innerRules (unmarked u) ++ (rule.image ++ applyAll innerRules (unmarked v))) :
    lexemes (normalize (u ++ command name ++ v))
      = lexemesOf (Text.withSpaces (applyRules u.toList) ++
          (rule.image ++ Text.withSpaces (applyRules v.toList))) := by
  rw [lexemes_eq_visible, unmarked_between h.mem_commandNames, heq, visible_append, visible_append,
    visible_image hrule, visible, visible, ← applyRules_eq_unmarked, ← applyRules_eq_unmarked]

/-- What is read if there are spaces around the command. -/
theorem lexemes_between_spaces (h : Replaces earlier rule later name)
    (hrule : rule ∈ symbolRules ++ nameRules)
    (himage : applyAll innerRules ('\\' :: name) = rule.image) {u : String}
    (hu : (unmarked u).getLast? ≠ some '\\') (v : String) :
    lexemes (normalize (u ++ " " ++ command name ++ " " ++ v))
      = lexemesOf (Text.withSpaces (applyRules u.toList) ++
          ' ' :: (rule.image ++ ' ' :: Text.withSpaces (applyRules v.toList))) := by
  rw [lexemes_eq_visible, unmarked_between_spaces h.mem_commandNames,
    applyAll_between_spaces h.mem_commandNames himage hu, visible_append, visible_space,
    visible_append, visible_space, visible_image hrule, visible, visible, ← applyRules_eq_unmarked,
    ← applyRules_eq_unmarked]

end Replaces

/-- A command for a quantifier or a connective is read in the same way with and without spaces. -/
theorem lexemes_symbol_command {u v : String} (hrule : rule ∈ symbolRules)
    (hname : name ∈ rule.pattern.names) (hu : (unmarked u).getLast? ≠ some '\\')
    (hv : EndsLetters (unmarked v)) :
    lexemes (normalize (u ++ command name ++ v))
      = lexemes (normalize (u ++ " " ++ command name ++ " " ++ v)) := by
  obtain ⟨earlier, later, hsplit⟩ := List.append_of_mem hrule
  have h : Replaces earlier rule (later ++ nameRules ++ shorthandRules ++ layoutRules) name :=
    ⟨by simp [innerRules, hsplit], hname⟩
  have hearlier : earlier ⊆ symbolRules := by
    rw [hsplit]
    exact List.subset_append_left ..
  have hlogic : rule ∈ symbolRules ++ nameRules := List.mem_append_left _ hrule
  obtain ⟨c, kind, hsymbol, hkind⟩ := exists_symbol hrule
  rw [h.lexemes_between hlogic (h.applyAll_symbol hearlier hrule hv _),
    h.lexemes_between_spaces hlogic (h.applyAll_symbol_alone hearlier hrule) hu, hsymbol,
    List.singleton_append, List.singleton_append]
  exact lexemesOf_symbol_spaced hkind _ _

/-- Three texts that are read with spaces between them. -/
theorem exists_lexemesOf_of_spaces {front middle back : List Char} {ls : List Lexeme}
    (h : lexemesOf (front ++ ' ' :: (middle ++ ' ' :: back)) = some ls) :
    ∃ lfront lmiddle lback, lexemesOf front = some lfront ∧ lexemesOf middle = some lmiddle ∧
      lexemesOf back = some lback ∧ ls = lfront ++ (lmiddle ++ lback) := by
  rw [lexemesOf_append_space, lexemesOf_append_space] at h
  obtain ⟨lfront, others, hfront, hothers, rfl⟩ := Option.map₂_eq_some_iff.1 h
  obtain ⟨lmiddle, lback, hmiddle, hback, rfl⟩ := Option.map₂_eq_some_iff.1 hothers
  exact ⟨lfront, lmiddle, lback, hfront, hmiddle, hback, rfl⟩

/-- Only commands can be pending. -/
theorem pending_shorthand_iff (rs rs' : List Rule) (s : List Char) :
    Pending (rs ++ shorthandRules ++ rs') s ↔ Pending (rs ++ rs') s := by
  have hnames : ∀ r ∈ shorthandRules, r.pattern.names = [] := by decide +kernel
  constructor
  · rintro ⟨r, hr, w, hw, hsuffix⟩
    simp only [List.mem_append] at hr
    rcases hr with (hr | hr) | hr
    · exact ⟨r, List.mem_append_left _ hr, w, hw, hsuffix⟩
    · simp [hnames r hr] at hw
    · exact ⟨r, List.mem_append_right _ hr, w, hw, hsuffix⟩
  · rintro ⟨r, hr, h⟩
    refine ⟨r, ?_, h⟩
    simp only [List.mem_append] at hr ⊢
    exact hr.imp_left Or.inl

/-- When a command for a constant or a comparator is read in the same way with and without spaces.
-/
theorem lexemes_name_command_iff {u v : String} {ls : List Lexeme}
    (hsplit : nameRules = earlier ++ rule :: later) (hname : name ∈ rule.pattern.names)
    (hu : (unmarked u).getLast? ≠ some '\\')
    (hv : EndsLetters (unmarked v))
    (hls : lexemes (normalize (u ++ " " ++ command name ++ " " ++ v)) = some ls) :
    lexemes (normalize (u ++ command name ++ v)) = some ls ↔
      ¬ Pending (later ++ layoutRules) (unmarked u) ∧
        (∀ c ∈ (applyRules u.toList).getLast?, isNameChar c = false) ∧
        (∀ c ∈ (applyRules v.toList).head?, isNameChar c = false) := by
  have h : Replaces (symbolRules ++ earlier) rule (later ++ shorthandRules ++ layoutRules) name :=
    ⟨by simp [innerRules, hsplit], hname⟩
  have hrule : rule ∈ nameRules := by simp [hsplit]
  have hlogic : rule ∈ symbolRules ++ nameRules := List.mem_append_right _ hrule
  have hearlier : symbolRules ++ earlier ⊆ symbolRules ++ nameRules := by
    simp [hsplit]
  rw [h.lexemes_between_spaces hlogic (h.applyAll_name_alone hearlier hrule) hu] at hls
  rw [← pending_shorthand_iff]
  by_cases hfree : EndsLetters (applyAll (symbolRules ++ earlier) (unmarked v))
  · by_cases hback : Pending (later ++ shorthandRules ++ layoutRules) (unmarked u)
    · -- the command in front gets longer
      have hmem := h.backslash_mem_of_pending hrule hv hfree hback
      rw [← unmarked_between h.mem_commandNames] at hmem
      rw [lexemes_eq_none_of_mem hmem]
      exact iff_of_false (by simp) fun hconditions => hconditions.1 hback
    · obtain ⟨lfront, lmiddle, lback, hlfront, hlmiddle, hlback, rfl⟩ :=
        exists_lexemesOf_of_spaces hls
      rw [h.lexemes_between hlogic (h.applyAll_name hearlier hrule hv hfree hback),
        lexemesOf_append_append_iff hlfront hlmiddle hlback, parted_image_iff hrule]
      exact (and_iff_right hback).symm
  · -- the command itself gets longer, and the letter behind it is still there in the end
    simp only [EndsLetters, not_forall, Bool.not_eq_false] at hfree
    obtain ⟨c, hc, hletter⟩ := hfree
    have hmem := h.backslash_mem_of_isLetter hv hc hletter (unmarked u)
    rw [← unmarked_between h.mem_commandNames] at hmem
    rw [lexemes_eq_none_of_mem hmem]
    refine iff_of_false (by simp) fun hconditions => ?_
    have hfalse := hconditions.2.2 c (h.head?_applyRules hc hletter)
    simp [isNameChar_of_isLetter hletter] at hfalse

/-! ### The main result -/

/-- **What is read from a command without spaces around it.** A command for a quantifier or a
connective is read in the same way as with spaces. A command for a constant or a comparator becomes
a name, which is read on its own exactly if the text in front of it does not end in a command that
is replaced later, nor, when the rules have been applied, in a character of a name, and the text
behind it does not start with one then. -/
theorem lexemes_normalize_command {u v : String} {name : List Char}
    (hu : (unmarked u).getLast? ≠ some '\\')
    (hv : EndsLetters (unmarked v)) :
    (∀ rule ∈ symbolRules, name ∈ rule.pattern.names →
      lexemes (normalize (u ++ command name ++ v))
        = lexemes (normalize (u ++ " " ++ command name ++ " " ++ v))) ∧
    (∀ earlier rule later ls, nameRules = earlier ++ rule :: later → name ∈ rule.pattern.names →
      lexemes (normalize (u ++ " " ++ command name ++ " " ++ v)) = some ls →
        (lexemes (normalize (u ++ command name ++ v)) = some ls ↔
          ¬ Pending (later ++ layoutRules) (unmarked u) ∧
            (∀ c ∈ (applyRules u.toList).getLast?, isNameChar c = false) ∧
            (∀ c ∈ (applyRules v.toList).head?, isNameChar c = false))) :=
  ⟨fun _ hrule hname => lexemes_symbol_command hrule hname hu hv,
    fun _ _ _ _ hsplit hname hls => lexemes_name_command_iff hsplit hname hu hv hls⟩

/-- A connective between names, and a constant behind a connective. -/
theorem lexemes_normalize_command_samples :
    lexemes (normalize ("P" ++ command "lor".toList ++ "(Q)"))
        = lexemes (normalize ("P" ++ " " ++ command "lor".toList ++ " " ++ "(Q)")) ∧
      lexemes (normalize ("P \\land" ++ command "top".toList ++ ""))
        = some [(.name, "P"), (.connective .and, "∧"), (.name, "Top")] := by
  have hspaced : lexemes (normalize ("P \\land" ++ " " ++ command "top".toList ++ " " ++ ""))
      = some [(.name, "P"), (.connective .and, "∧"), (.name, "Top")] := by
    have hnormal : normalize ("P \\land" ++ " " ++ command "top".toList ++ " " ++ "")
        = "P ∧ Top" := by decide +kernel
    rw [hnormal]
    cbv
  have hopen : EndsLetters (unmarked "(Q)") := by
    have hchars : unmarked "(Q)" = ['(', 'Q', ')'] := by decide +kernel
    rw [hchars]
    exact endsLetters_cons (by decide)
  have hlast : ∀ c ∈ (applyRules "P \\land".toList).getLast?, isNameChar c = false := by
    have hgetLast : (applyRules "P \\land".toList).getLast? = some '∧' := by decide +kernel
    rw [hgetLast]
    rintro c ⟨⟩
    decide
  have hor := (@lexemes_normalize_command "P" "(Q)" "lor".toList (by decide) hopen).1
    (.ofCommands ["lor", "vee"] "∨") (by simp [symbolRules]) (by decide)
  have htop := (@lexemes_normalize_command "P \\land" "" "top".toList (by decide)
    (fun _ hc => absurd hc (by simp [unmarked]))).2
    [] (.ofCommands ["top"] "Top") nameRules.tail _ rfl (by decide) hspaced
  exact ⟨hor, htop.2 ⟨by decide +kernel, hlast,
    fun _ hc => absurd hc (by simp [applyRules_eq, applyAll_empty])⟩⟩

/-- **A constant right behind a name is swallowed by the name**, one right behind a command for the
size of parentheses makes that command unknown, and a connective becomes another command together
with a name in marks. -/
theorem lexemes_normalize_command_merged :
    (lexemes (normalize ("\\forall x" ++ " " ++ command "top".toList ++ " " ++ ""))
        = some [(.quantifier .universal, "∀"), (.name, "x"), (.name, "Top")] ∧
      lexemes (normalize ("\\forall x" ++ command "top".toList ++ ""))
        = some [(.quantifier .universal, "∀"), (.name, "xTop")]) ∧
    (lexemes (normalize ("\\left" ++ " " ++ command "top".toList ++ " " ++ ""))
        = some [(.name, "Top")] ∧
      lexemes (normalize ("\\left" ++ command "top".toList ++ "")) = none) ∧
    (lexemes (normalize ("P" ++ " " ++ command "to".toList ++ " " ++ "$p$"))
        = some [(.name, "P"), (.connective .implies, "→"), (.name, "p")] ∧
      lexemes (normalize ("P" ++ command "to".toList ++ "$p$")) = some [(.name, "PTop")]) := by
  have hnormal :
      normalize ("\\forall x" ++ " " ++ command "top".toList ++ " " ++ "") = "∀ x Top" ∧
      normalize ("\\forall x" ++ command "top".toList ++ "") = "∀ xTop" ∧
      normalize ("\\left" ++ " " ++ command "top".toList ++ " " ++ "") = "Top" ∧
      normalize ("\\left" ++ command "top".toList ++ "") = "\\leftTop" ∧
      normalize ("P" ++ " " ++ command "to".toList ++ " " ++ "$p$") = "P → p" ∧
      normalize ("P" ++ command "to".toList ++ "$p$") = "PTop" := by decide +kernel
  obtain ⟨hname, hname', hsize, hsize', hmark, hmark'⟩ := hnormal
  rw [hname, hname', hsize, hsize', hmark, hmark']
  refine ⟨⟨?_, ?_⟩, ⟨?_, ?_⟩, ?_, ?_⟩ <;> cbv

end LogicForms.Surface
