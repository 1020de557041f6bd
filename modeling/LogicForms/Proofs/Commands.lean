import LogicForms.Proofs.Replacing
import LogicForms.Proofs.Tokens
import LogicForms.Proofs.Words
import Mathlib.Data.List.Basic
import Mathlib.Data.List.TakeWhile

/-!
# Commands that no rule names

A command is a backslash with the letters behind it. The rules between the first and the last one
keep a backslash that none of them covers (`IsKept`): its letters start no occurrence, and no
occurrence goes over a backslash. What stands behind the letters changes, so that the command can
get longer. If it does, it goes on with the image of a rule, a name in capitals that is in no name
of a command (`Behind`), so that it does not become the command of a later rule. Nor does an escape
come about, since the rules in front of the one for escapes have images that are none.

So the backslash is still there when all rules have been applied, and the text has no tokens
(`unknown_command_stays`).
-/

set_option autoImplicit false

namespace LogicForms.Surface

variable {p : Pattern} {r r' : Rule} {rs others : List Rule} {c : Char}
  {s letters rest before : List Char}

/-! ### The patterns of the rules -/

/-- The names of the commands that the pattern looks for. -/
def Pattern.names : Pattern → List (List Char)
  | .command names => names
  | _ => []

/-- The characters that the pattern looks for behind a backslash. -/
def Pattern.escapes : Pattern → List Char
  | .escaped chars => chars
  | _ => []

/-- Is there no other backslash in the pattern than the one in front of a name or an escaped
character? -/
def Pattern.isPlain : Pattern → Bool
  | .oneOf chars => !chars.contains '\\'
  | .literal chars => !chars.contains '\\'
  | .escaped chars => !chars.contains '\\'
  | .command _ => true

/-- The names of all commands that some rule replaces. -/
def commandNames : List (List Char) := rules.flatMap fun r => r.pattern.names

/-- The first rule, which removes the marks around mathematics. -/
def markRule : Rule := ⟨.oneOf ['$'], []⟩

/-- The last rule, which removes the grouping braces. -/
def braceRule : Rule := ⟨.oneOf ['\x7b', '\x7d'], []⟩

/-- The rules between the first and the last one, for commands and for shorthand. -/
def innerRules : List Rule := symbolRules ++ nameRules ++ shorthandRules ++ layoutRules

theorem rules_eq : rules = markRule :: (innerRules ++ [braceRule]) := by
  simp [rules, markRule, braceRule, innerRules]

theorem applyRules_eq (s : List Char) :
    applyRules s = braceRule.apply (applyAll innerRules (markRule.apply s)) := by
  have hall : applyRules s = applyAll rules s := rfl
  rw [hall, rules_eq, applyAll_cons, applyAll_concat]

theorem mem_rules_of_mem_innerRules (h : r ∈ innerRules) : r ∈ rules := by
  rw [rules_eq]
  exact List.mem_cons_of_mem _ (List.mem_append_left _ h)

/-- All patterns are plain. -/
theorem isPlain_of_mem (h : r ∈ rules) : r.pattern.isPlain = true := by
  have hall : (rules.all fun r => r.pattern.isPlain) = true := by decide +kernel
  exact List.all_eq_true.1 hall r h

theorem mem_commandNames {name : List Char} (hr : r ∈ rules) (h : name ∈ r.pattern.names) :
    name ∈ commandNames := List.mem_flatMap.2 ⟨r, hr, h⟩

/-- No pattern starts with a letter. -/
theorem not_mem_starts_of_isLetter (hr : r ∈ rules) (hc : isLetter c = true) :
    c ∉ r.pattern.starts := by
  have hmarkup : markup.all (fun c => !isLetter c) = true := by decide
  intro hstart
  have hfalse := List.all_eq_true.1 hmarkup c (mem_markup_of_mem_starts r hr c hstart)
  simp [hc] at hfalse

/-- Only commands are replaced by nothing. -/
theorem names_ne_nil_of_mem (h : r ∈ innerRules) (himage : r.image = []) :
    r.pattern.names ≠ [] := by
  have hall : (innerRules.all fun r => !r.image.isEmpty || !r.pattern.names.isEmpty) = true := by
    decide +kernel
  simpa [himage] using List.all_eq_true.1 hall r h

/-- The images that start like names have letters only, and are in no name of a command. -/
theorem isLetter_image_of_mem (hr : r ∈ innerRules) (hc : c ∈ r.image.head?)
    (hletter : isLetter c = true) :
    (∀ d ∈ r.image, isLetter d = true) ∧ ∀ name ∈ commandNames, ¬ r.image <:+: name := by
  have hall : (innerRules.all fun r => !(r.image.head?.any isLetter) ||
      (r.image.all isLetter && commandNames.all fun name => !decide (r.image <:+: name)))
        = true := by decide +kernel
  have hr := List.all_eq_true.1 hall r hr
  rw [Option.mem_def.1 hc] at hr
  simpa [hletter] using hr

/-- The characters that are escaped are those for spaces. -/
theorem mem_of_mem_escapes (hr : r ∈ rules) (hc : c ∈ r.pattern.escapes) :
    c ∈ [',', ';', ':', '!', ' '] := by
  have hall : (rules.all fun r => r.pattern.escapes.all fun c =>
      [',', ';', ':', '!', ' '].contains c) = true := by decide +kernel
  have hr := List.all_eq_true.1 hall r hr
  exact List.contains_iff_mem.1 (List.all_eq_true.1 hr c hc)

/-- The rules in front of the one for escapes have images that do not start like the end of an
escape. -/
theorem pairwise_rules :
    rules.tail.Pairwise fun r r' => r'.pattern.escapes ≠ [] →
      r.image ≠ [] ∧ ∀ c ∈ r.image.head?, c ∉ r'.pattern.escapes := by
  have hall : rules.tail.Pairwise fun r r' => r'.pattern.escapes = [] ∨
      (r.image.head?.any fun c => !(r'.pattern.escapes.contains c)) = true := by decide +kernel
  refine hall.imp fun {r r'} h hne => ?_
  have hany := h.resolve_left hne
  cases himage : r.image with
  | nil => simp [himage] at hany
  | cons c image => simpa [himage] using hany

/-! ### A backslash in the text -/

/-- An occurrence that starts in front of a backslash does not go over it. -/
theorem Pattern.stopsAt_backslash (h : p.isPlain = true) : p.stopsAt '\\' = true := by
  cases p with
  | oneOf chars => rfl
  | literal chars =>
    have hchars : '\\' ∉ chars := by simpa [isPlain] using h
    simpa [stopsAt] using fun hmem => hchars (List.mem_of_mem_tail hmem)
  | escaped chars => exact h
  | command names => rfl

/-- A backslash is covered with the name of a command or with an escaped character behind it. -/
theorem Pattern.covers_backslash_iff (h : p.isPlain = true) :
    p.Covers ('\\' :: s) ↔ s.takeWhile isLetter ∈ p.names ∨ ∃ c ∈ s.head?, c ∈ p.escapes := by
  cases p with
  | oneOf chars =>
    have hchars : '\\' ∉ chars := by simpa [isPlain] using h
    simp [Covers, width?, hchars, names, escapes]
  | literal chars =>
    have hchars : '\\' ∉ chars := by simpa [isPlain] using h
    cases chars with
    | nil => simp [Covers, width?, names, escapes]
    | cons d chars =>
      have hd : d ≠ '\\' := fun hd => hchars (by simp [hd])
      simp [Covers, width?, hd, names, escapes]
  | escaped chars =>
    cases s with
    | nil => simp [Covers, width?, names, escapes]
    | cons d s => simp [Covers, width?, names, escapes]
  | command command => simp [Covers, width?, names, escapes]

/-- An occurrence of a command is a backslash with the name, and no letter stands behind it. -/
theorem Pattern.exists_name_of_width? {n : Nat} (hnames : p.names ≠ [])
    (h : p.width? s = some (n + 1)) :
    (∃ name ∈ p.names, s = '\\' :: name ++ s.drop (n + 1)) ∧ EndsLetters (s.drop (n + 1)) := by
  cases p with
  | command names =>
    cases s with
    | nil => exact absurd (width?_le h) (by simp)
    | cons d s =>
      by_cases hd : d = '\\'
      · subst hd
        simp only [width?] at h
        split at h
        · rename_i hname
          have hn : n = (s.takeWhile isLetter).length := by simpa using h.symm
          have hdrop := @List.drop_left _ (s.takeWhile isLetter) (s.dropWhile isLetter)
          rw [List.takeWhile_append_dropWhile, ← hn] at hdrop
          rw [List.drop_succ_cons, hdrop]
          refine ⟨⟨_, List.contains_iff_mem.1 hname, ?_⟩, endsLetters_dropWhile s⟩
          rw [List.cons_append, List.takeWhile_append_dropWhile]
        · simp at h
      · rw [width?_eq_none rfl hd] at h
        simp at h
  | _ => exact absurd rfl hnames

/-- What can stand behind the letters of a command when some of the rules have been applied: no
letter, or a name that a rule has put there. -/
def Behind (rest : List Char) : Prop :=
  EndsLetters rest ∨
    ∃ r ∈ innerRules, (∃ c ∈ r.image.head?, isLetter c = true) ∧ r.image <+: rest

/-- The rules keep to this. -/
theorem Behind.apply (h : Behind rest) (hr : r ∈ innerRules) : Behind (r.apply rest) := by
  rcases h with hfree | ⟨r', hr', ⟨c, hc, hletter⟩, ⟨tail, rfl⟩⟩
  · induction rest using r.apply_induction with
    | nil => exact Or.inl hfree
    | keep c s hcovers ih =>
      rw [Rule.apply_cons hcovers]
      exact Or.inl hfree
    | replace s n hn ih =>
      rw [Rule.apply_of_width? hn]
      cases himage : r.image with
      | nil => exact ih (Pattern.exists_name_of_width? (names_ne_nil_of_mem hr himage) hn).2
      | cons d image =>
        cases hd : isLetter d with
        | false => exact Or.inl (endsLetters_cons hd)
        | true =>
          refine Or.inr ⟨r, hr, ⟨d, by simp [himage], hd⟩, ?_⟩
          rw [himage]
          exact List.prefix_append ..
  · have hletters := (isLetter_image_of_mem hr' hc hletter).1
    rw [Rule.apply_append_of_forall fun d hd =>
      not_mem_starts_of_isLetter (mem_rules_of_mem_innerRules hr) (hletters d hd)]
    exact Or.inr ⟨r', hr', ⟨c, hc, hletter⟩, List.prefix_append ..⟩

/-- A letter at the front stays there. -/
theorem apply_cons_of_isLetter (hr : r ∈ rules) (hc : isLetter c = true) (s : List Char) :
    r.apply (c :: s) = c :: r.apply s :=
  Rule.apply_cons (Pattern.not_covers_of_not_mem (not_mem_starts_of_isLetter hr hc))

theorem EndsLetters.of_apply (hr : r ∈ rules) (h : EndsLetters (r.apply rest)) :
    EndsLetters rest := by
  cases rest with
  | nil => exact endsLetters_nil
  | cons c rest =>
    cases hc : isLetter c with
    | false => exact endsLetters_cons hc
    | true =>
      rw [apply_cons_of_isLetter hr hc] at h
      have hfalse := h c rfl
      simp [hc] at hfalse

/-- Without a letter behind them, the letters are all. -/
theorem takeWhile_letters_append (hletters : ∀ c ∈ letters, isLetter c = true)
    (h : EndsLetters rest) : (letters ++ rest).takeWhile isLetter = letters := by
  rw [takeWhile_isLetter_append (Or.inr h), List.takeWhile_eq_self_iff.2 hletters]

/-- Letters that are the name of a command have not become longer. -/
theorem Behind.endsLetters (hletters : ∀ c ∈ letters, isLetter c = true) (h : Behind rest)
    (hname : (letters ++ rest).takeWhile isLetter ∈ commandNames) : EndsLetters rest := by
  refine h.resolve_right ?_
  rintro ⟨r, hr, ⟨c, hc, hletter⟩, tail, rfl⟩
  obtain ⟨himage, hinfix⟩ := isLetter_image_of_mem hr hc hletter
  rw [List.takeWhile_append_of_pos hletters, List.takeWhile_append_of_pos himage] at hname
  exact hinfix _ hname ⟨letters, tail.takeWhile isLetter, by simp⟩

/-- The backslash in front of the letters and of the rest is covered by none of the rules. -/
structure IsKept (rs : List Rule) (letters rest : List Char) : Prop where
  /-- The command has letters only. -/
  isLetter : ∀ c ∈ letters, isLetter c = true
  /-- It can have become longer by the image of a rule. -/
  behind : Behind rest
  /-- No rule replaces it. -/
  not_covers : ∀ r ∈ rs, ¬ r.pattern.Covers ('\\' :: (letters ++ rest))

theorem IsKept.mono (h : IsKept rs letters rest) (hsubset : others ⊆ rs) :
    IsKept others letters rest :=
  ⟨h.isLetter, h.behind, fun r hr => h.not_covers r (hsubset hr)⟩

/-- A rule that does not cover the backslash does not change the letters behind it. -/
theorem IsKept.apply_eq (h : IsKept (r :: rs) letters rest) (hr : r ∈ rules)
    (before : List Char) :
    r.apply (before ++ '\\' :: (letters ++ rest))
      = r.apply before ++ '\\' :: (letters ++ r.apply rest) := by
  rw [Rule.apply_append (Pattern.separates_of_stopsAt (Pattern.stopsAt_backslash
      (isPlain_of_mem hr))),
    Rule.apply_cons (h.not_covers r (by simp)),
    Rule.apply_append_of_forall fun c hc => not_mem_starts_of_isLetter hr (h.isLetter c hc)]

/-- **The backslash is not covered by the rules to come.** -/
theorem IsKept.step (h : IsKept (r :: rs) letters rest) (hr : r ∈ innerRules)
    (hsub : (r :: rs).Sublist rules.tail) : IsKept rs letters (r.apply rest) := by
  have hbehind := h.behind.apply hr
  refine ⟨h.isLetter, hbehind, fun r' hr' hcovers => ?_⟩
  have hmem : r' ∈ rules := List.mem_of_mem_tail (hsub.mem (List.mem_cons_of_mem r hr'))
  have hpair := (List.pairwise_cons.1 (pairwise_rules.sublist hsub)).1 r' hr'
  refine h.not_covers r' (List.mem_cons_of_mem r hr') ?_
  rw [Pattern.covers_backslash_iff (isPlain_of_mem hmem)] at hcovers ⊢
  rcases hcovers with hname | ⟨c, hc, hescape⟩
  · -- the letters behind the backslash are the same as before
    have hfree := hbehind.endsLetters h.isLetter (mem_commandNames hmem hname)
    have hfree' := EndsLetters.of_apply (mem_rules_of_mem_innerRules hr) hfree
    rw [takeWhile_letters_append h.isLetter hfree] at hname
    rw [takeWhile_letters_append h.isLetter hfree']
    exact Or.inl hname
  · refine Or.inr ⟨c, ?_, hescape⟩
    cases letters with
    | cons d letters => exact hc
    | nil =>
      obtain ⟨himage, hhead⟩ := hpair (List.ne_nil_of_mem hescape)
      exact (Rule.head?_apply himage hc).resolve_right fun hc => hhead c hc hescape

/-- **Uncovered commands stay under all of the rules.** -/
theorem IsKept.applyAll_eq (h : IsKept (rs ++ others) letters rest) (hrs : rs ⊆ innerRules)
    (hsub : (rs ++ others).Sublist rules.tail) (before : List Char) :
    applyAll rs (before ++ '\\' :: (letters ++ rest))
        = applyAll rs before ++ '\\' :: (letters ++ applyAll rs rest) ∧
      IsKept others letters (applyAll rs rest) := by
  induction rs generalizing before rest with
  | nil => exact ⟨rfl, h⟩
  | cons r rs ih =>
    obtain ⟨hr, hrs⟩ := List.cons_subset.1 hrs
    rw [applyAll_cons, applyAll_cons, applyAll_cons,
      IsKept.apply_eq h (mem_rules_of_mem_innerRules hr)]
    exact ih (h.step hr hsub) hrs ((List.sublist_cons_self r _).trans hsub) _

/-- The same where no other rules follow. -/
theorem IsKept.applyAll_self (h : IsKept rs letters rest) (hrs : rs ⊆ innerRules)
    (hsub : rs.Sublist rules.tail) (before : List Char) :
    applyAll rs (before ++ '\\' :: (letters ++ rest))
        = applyAll rs before ++ '\\' :: (letters ++ applyAll rs rest) ∧
      Behind (applyAll rs rest) := by
  rw [← List.append_nil rs] at h hsub
  obtain ⟨heq, hkept⟩ := h.applyAll_eq hrs hsub before
  exact ⟨heq, hkept.behind⟩

/-! ### Unknown commands -/

/-- A text with a backslash left in it has no tokens. -/
theorem exists_error_of_mem {s : String} (h : '\\' ∈ applyRules s.toList) :
    ∃ e, tokenize (normalize s) = .error e := by
  cases htokens : tokenize (normalize s) with
  | error e => exact ⟨e, rfl⟩
  | ok tokens =>
    have hmem : '\\' ∈ (normalize s).toList := by
      rw [normalize, String.toList_ofList]
      exact Text.mem_collapse_of_mem h (by decide)
    exact absurd (isTokenChar_of_tokensFrom htokens _ hmem) (by decide)

/-- No rule covers a backslash in front of the name of no command and of no escaped character. -/
theorem isKept_rules {after : List Char}
    (hescape : ∀ c ∈ after.head?, c ∉ [',', ';', ':', '!', ' '])
    (hname : after.takeWhile isLetter ∉ commandNames) :
    IsKept rules (after.takeWhile isLetter) (after.dropWhile isLetter) := by
  refine ⟨List.all_eq_true.1 List.all_takeWhile, Or.inl (endsLetters_dropWhile after),
    fun r hr hcovers => ?_⟩
  rw [List.takeWhile_append_dropWhile] at hcovers
  rcases (Pattern.covers_backslash_iff (isPlain_of_mem hr)).1 hcovers with h | ⟨c, hc, h⟩
  · exact hname (mem_commandNames hr h)
  · exact hescape c hc (mem_of_mem_escapes hr h)

/-- What has become of the text with the command when some of the rules after the first one have
been applied. -/
theorem IsKept.exists_applyAll {earlier later : List Rule} (h : IsKept rules.tail letters rest)
    (hsplit : rules.tail = earlier ++ later) (before : List Char) :
    ∃ after', applyAll earlier (before ++ '\\' :: (letters ++ rest))
        = applyAll earlier before ++ '\\' :: (letters ++ after') ∧
      ∀ r ∈ later, ¬ r.pattern.Covers ('\\' :: (letters ++ after')) := by
  have htail : rules.tail = innerRules ++ [braceRule] := by rw [rules_eq]; rfl
  rcases List.eq_nil_or_concat' later with rfl | ⟨later, last, rfl⟩
  · -- all rules have been applied, the one for braces as the last one
    have hearlier : earlier = innerRules ++ [braceRule] := by
      rw [← htail, hsplit, List.append_nil]
    rw [htail] at h
    obtain ⟨heq, hlast⟩ := h.applyAll_eq (List.Subset.refl _) (htail ▸ List.Sublist.refl _) before
    have hbrace := hlast.apply_eq (by rw [rules_eq]; simp) (applyAll innerRules before)
    refine ⟨braceRule.apply (applyAll innerRules rest), ?_, by simp⟩
    rw [hearlier, applyAll_concat, applyAll_concat, heq, hbrace]
  · have hinit : innerRules = earlier ++ later := by
      rw [htail, ← List.append_assoc] at hsplit
      exact List.append_inj_left' hsplit rfl
    rw [hsplit] at h
    obtain ⟨heq, hkept⟩ := h.applyAll_eq (hinit ▸ List.subset_append_left ..)
      (hsplit ▸ List.Sublist.refl _) before
    exact ⟨_, heq, hkept.not_covers⟩

/-- What has become of an unknown command when some of the rules have been applied. -/
theorem exists_applyAll_unknown {before after : List Char} {earlier later : List Rule}
    (hmarks : '$' ∉ before ++ '\\' :: after)
    (hescape : ∀ c ∈ after.head?, c ∉ [',', ';', ':', '!', ' '])
    (hname : after.takeWhile isLetter ∉ commandNames) (hsplit : rules = earlier ++ later) :
    ∃ before' after',
      applyAll earlier (before ++ '\\' :: after)
          = before' ++ '\\' :: (after.takeWhile isLetter ++ after') ∧
        ∀ r ∈ later, ¬ r.pattern.Covers ('\\' :: (after.takeWhile isLetter ++ after')) := by
  have hkept := isKept_rules hescape hname
  have hafter : after = after.takeWhile isLetter ++ after.dropWhile isLetter :=
    List.takeWhile_append_dropWhile.symm
  cases earlier with
  | nil =>
    rw [List.nil_append] at hsplit
    rw [← hsplit]
    exact ⟨before, after.dropWhile isLetter, by rw [← hafter]; rfl, hkept.not_covers⟩
  | cons mark earlier =>
    have htail : rules.tail = earlier ++ later := by rw [hsplit]; rfl
    rw [rules_eq, List.cons_append, List.cons.injEq] at hsplit
    obtain ⟨rfl, -⟩ := hsplit
    -- without marks, the first rule changes nothing
    have hmark : markRule.apply (before ++ '\\' :: after) = before ++ '\\' :: after := by
      refine Rule.apply_eq_self fun c hc hstart => hmarks ?_
      rwa [List.mem_singleton.1 hstart] at hc
    obtain ⟨after', heq, hlater⟩ := (hkept.mono fun _ => List.mem_of_mem_tail).exists_applyAll
      htail before
    rw [← hafter] at heq
    rw [applyAll_cons, hmark]
    exact ⟨_, after', heq, hlater⟩

/-- **No rule completes, shortens or removes an unknown command**, and the text has no tokens in
the end. -/
theorem unknown_command_stays {s : String} {before after : List Char} (hmarks : '$' ∉ s.toList)
    (hs : s.toList = before ++ '\\' :: after)
    (hescape : ∀ c ∈ after.head?, c ∉ [',', ';', ':', '!', ' '])
    (hname : after.takeWhile isLetter ∉ commandNames) :
    (∃ e, tokenize (normalize s) = .error e) ∧
      ∀ earlier later, rules = earlier ++ later →
        ∃ before' after',
          applyAll earlier s.toList = before' ++ '\\' :: (after.takeWhile isLetter ++ after') ∧
            ∀ r ∈ later, ¬ r.pattern.Covers ('\\' :: (after.takeWhile isLetter ++ after')) := by
  rw [hs] at hmarks
  refine ⟨exists_error_of_mem ?_, fun earlier later hsplit => ?_⟩
  · obtain ⟨before', after', heq, -⟩ :=
      exists_applyAll_unknown hmarks hescape hname (List.append_nil rules).symm
    have hall : applyRules s.toList = applyAll rules s.toList := rfl
    rw [hall, hs, heq]
    simp
  · rw [hs]
    exact exists_applyAll_unknown hmarks hescape hname hsplit

/-- A command for the size of parentheses in front, and a name that starts like a known one. -/
theorem unknown_command_stays_sample :
    "forallx".toList.takeWhile isLetter ∉ commandNames ∧
      (∃ e, tokenize (normalize "\\left\\forallx") = .error e) ∧
      ∃ before' after', applyAll rules "\\left\\forallx".toList
        = before' ++ '\\' :: ("forallx".toList.takeWhile isLetter ++ after') := by
  have hname : "forallx".toList.takeWhile isLetter ∉ commandNames := by decide +kernel
  have hs : "\\left\\forallx".toList = "\\left".toList ++ '\\' :: "forallx".toList := by decide
  have hescape : ∀ c ∈ "forallx".toList.head?, c ∉ [',', ';', ':', '!', ' '] := by
    rintro c ⟨⟩
    decide
  obtain ⟨herror, hstages⟩ := unknown_command_stays (by decide) hs hescape hname
  obtain ⟨before', after', heq, -⟩ := hstages rules [] (List.append_nil rules).symm
  exact ⟨hname, herror, before', after', heq⟩

end LogicForms.Surface
