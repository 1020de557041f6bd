import LogicForms.Proofs.Commands

/-!
# Where the image of a command ends up

`Replaces` says where the rule for a command stands among the others. If the text behind the command
starts with no letter, the rules in front of that rule keep the command, and what the rule makes of
it depends on what they have made of the text behind it by then: a letter makes the command longer,
so that it stays in the text. Otherwise the image of the rule stands between what has become of the
text in front of the command and of the text behind it.

The rules that follow leave it there. Nothing goes over a symbol (`Replaces.applyAll_symbol`). A
name makes a command in front of it longer that has not been replaced yet (`Pending`), which then
stays in the text (`Replaces.backslash_mem_of_pending`); if there is none, it is left alone as well
(`Replaces.applyAll_name`). A space separates the text, unless there is a backslash in front of it
(`applyAll_space`).
-/

set_option autoImplicit false

namespace LogicForms.Surface

variable {p : Pattern} {r r' rule : Rule} {rs rs' earlier later : List Rule} {c : Char}
  {name letters rest s t u v w : List Char}

/-! ### The names of commands -/

/-- The name of a command has letters, and nothing else. -/
theorem isLetter_of_mem_commandNames (h : name ∈ commandNames) :
    name ≠ [] ∧ ∀ c ∈ name, isLetter c = true := by
  have hall : (commandNames.all fun name => !name.isEmpty && name.all isLetter) = true := by
    decide +kernel
  simpa using List.all_eq_true.1 hall name h

/-- Letters are characters of names. -/
theorem isNameChar_of_isLetter (h : isLetter c = true) : isNameChar c = true := by
  simp only [isLetter, isNameChar, isNameStart, Bool.or_eq_true] at h ⊢
  exact Or.inl (Or.inl h)

/-- No command is replaced by two rules. -/
theorem pairwise_names :
    rules.Pairwise fun r r' => ∀ name ∈ r.pattern.names, name ∉ r'.pattern.names := by
  decide +kernel

/-- A backslash in front of a letter is covered only together with the name of a command. -/
theorem takeWhile_mem_names_of_covers (hr : r ∈ rules) (hc : c ∈ s.head?)
    (hletter : isLetter c = true) (h : r.pattern.Covers ('\\' :: s)) :
    s.takeWhile isLetter ∈ r.pattern.names := by
  refine ((Pattern.covers_backslash_iff (isPlain_of_mem hr)).1 h).resolve_right ?_
  rintro ⟨d, hd, hescape⟩
  have hall : [',', ';', ':', '!', ' '].all (fun c => !isLetter c) = true := by decide
  have hfalse := List.all_eq_true.1 hall d (mem_of_mem_escapes hr hescape)
  obtain rfl : c = d := Option.some.inj (hc.symm.trans hd)
  simp [hletter] at hfalse

/-- The name of a command is kept by the rules for other commands. -/
theorem isKept_name (hrs : rs ⊆ rules) (hname : name ∈ commandNames)
    (hother : ∀ r ∈ rs, name ∉ r.pattern.names) (hrest : EndsLetters rest) :
    IsKept rs name rest := by
  obtain ⟨hne, hletters⟩ := isLetter_of_mem_commandNames hname
  refine ⟨hletters, Or.inl hrest, fun r hr hcovers => hother r hr ?_⟩
  obtain ⟨c, tail, rfl⟩ := List.exists_cons_of_ne_nil hne
  have hmem := takeWhile_mem_names_of_covers (hrs hr) rfl (hletters c (by simp)) hcovers
  rwa [takeWhile_letters_append hletters hrest] at hmem

/-- A command that the image of a rule has made longer is kept by all rules. -/
theorem isKept_of_isLetter (hrs : rs ⊆ rules) (hletters : ∀ c ∈ letters, isLetter c = true)
    (h : Behind rest) (hc : c ∈ rest.head?) (hletter : isLetter c = true) :
    IsKept rs letters rest := by
  refine ⟨hletters, h, fun r hr hcovers => ?_⟩
  have hhead : ∃ d ∈ (letters ++ rest).head?, isLetter d = true := by
    cases letters with
    | nil => exact ⟨c, hc, hletter⟩
    | cons d letters => exact ⟨d, rfl, hletters d (by simp)⟩
  obtain ⟨d, hd, hdletter⟩ := hhead
  have hmem := takeWhile_mem_names_of_covers (hrs hr) hd hdletter hcovers
  have hfree := h.endsLetters hletters (mem_commandNames (hrs hr) hmem) c hc
  simp [hletter] at hfree

/-- A letter at the front of a text stays there under all rules. -/
theorem head?_applyAll_of_isLetter (hrs : rs ⊆ rules) (hc : c ∈ s.head?)
    (hletter : isLetter c = true) : c ∈ (applyAll rs s).head? := by
  induction rs generalizing s with
  | nil => exact hc
  | cons r rs ih =>
    obtain ⟨hr, hrs⟩ := List.cons_subset.1 hrs
    obtain ⟨tail, rfl⟩ := List.head?_eq_some_iff.1 hc
    rw [applyAll_cons, apply_cons_of_isLetter hr hletter]
    exact ih hrs rfl

/-- A pattern with the name of a command covers that command. -/
theorem Pattern.width?_of_mem_names (hname : name ∈ p.names)
    (hletters : ∀ c ∈ name, isLetter c = true) (hrest : EndsLetters rest) :
    p.width? ('\\' :: (name ++ rest)) = some (name.length + 1) := by
  cases p with
  | command names =>
    have hmem : name ∈ names := hname
    simp [width?, takeWhile_letters_append hletters hrest, hmem]
  | _ => exact absurd hname (by simp [names])

/-! ### A command among the rules -/

/-- The rule for a command, with the rules that are applied before and after it. -/
structure Replaces (earlier : List Rule) (rule : Rule) (later : List Rule)
    (name : List Char) : Prop where
  /-- All rules between the first and the last one. -/
  innerRules_eq : innerRules = earlier ++ rule :: later
  /-- The rule is for the command. -/
  mem_names : name ∈ rule.pattern.names

theorem innerRules_sublist : innerRules.Sublist rules.tail := by
  rw [rules_eq]
  exact List.sublist_append_left ..

namespace Replaces

theorem sublist (h : Replaces earlier rule later name) :
    (earlier ++ rule :: later).Sublist rules.tail := h.innerRules_eq ▸ innerRules_sublist

theorem subset (h : Replaces earlier rule later name) : earlier ++ rule :: later ⊆ innerRules :=
  h.innerRules_eq ▸ List.Subset.refl _

theorem front_subset (h : Replaces earlier rule later name) : earlier ++ [rule] ⊆ innerRules := by
  intro r hr
  refine h.subset ?_
  rcases List.mem_append.1 hr with hr | hr
  · exact List.mem_append_left _ hr
  · rw [List.mem_singleton.1 hr]
    simp

theorem later_subset (h : Replaces earlier rule later name) : later ⊆ innerRules :=
  fun _ hr => h.subset (List.mem_append_right _ (List.mem_cons_of_mem rule hr))

theorem mem_innerRules (h : Replaces earlier rule later name) : rule ∈ innerRules :=
  h.subset (by simp)

theorem mem_commandNames (h : Replaces earlier rule later name) : name ∈ commandNames :=
  Surface.mem_commandNames (mem_rules_of_mem_innerRules h.mem_innerRules) h.mem_names

theorem applyAll_innerRules (h : Replaces earlier rule later name) (s : List Char) :
    applyAll innerRules s = applyAll later (rule.apply (applyAll earlier s)) := by
  rw [h.innerRules_eq, applyAll_append, applyAll_cons]

/-- The rules in front of it do not replace the command. -/
theorem isKept_earlier (h : Replaces earlier rule later name)
    (hv : EndsLetters v) : IsKept earlier name v := by
  have hpairwise := List.pairwise_append.1 (pairwise_names.tail.sublist h.sublist)
  refine isKept_name (fun r hr => mem_rules_of_mem_innerRules (h.subset (by simp [hr])))
    h.mem_commandNames (fun r hr hname => ?_) hv
  exact hpairwise.2.2 r hr rule (by simp) name hname h.mem_names

/-- The command when the turn of its rule comes. -/
theorem applyAll_earlier (h : Replaces earlier rule later name)
    (hv : EndsLetters v) (u : List Char) :
    applyAll earlier (u ++ '\\' :: (name ++ v))
        = applyAll earlier u ++ '\\' :: (name ++ applyAll earlier v) ∧
      Behind (applyAll earlier v) := by
  have hsub : earlier.Sublist rules.tail := (List.sublist_append_left ..).trans h.sublist
  exact (h.isKept_earlier hv).applyAll_self (fun r hr => h.subset (by simp [hr])) hsub u

/-- If the command has got longer by then, a backslash is left in the end. -/
theorem backslash_mem_of_isLetter (h : Replaces earlier rule later name)
    (hv : EndsLetters v) (hc : c ∈ (applyAll earlier v).head?)
    (hletter : isLetter c = true) (u : List Char) :
    '\\' ∈ applyAll innerRules (u ++ '\\' :: (name ++ v)) := by
  obtain ⟨heq, hbehind⟩ := h.applyAll_earlier hv u
  have hsubset : rule :: later ⊆ innerRules := fun r hr => h.subset (List.mem_append_right _ hr)
  have hkept : IsKept (rule :: later) name (applyAll earlier v) :=
    isKept_of_isLetter (fun r hr => mem_rules_of_mem_innerRules (hsubset hr))
      (isLetter_of_mem_commandNames h.mem_commandNames).2 hbehind hc hletter
  have hsub : (rule :: later).Sublist rules.tail := (List.sublist_append_right ..).trans h.sublist
  rw [h.innerRules_eq, applyAll_append, heq, (hkept.applyAll_self hsubset hsub _).1]
  simp

/-- Otherwise it is replaced by the image of the rule. -/
theorem applyAll_eq (h : Replaces earlier rule later name)
    (hv : EndsLetters v) (hfree : EndsLetters (applyAll earlier v)) (u : List Char) :
    applyAll innerRules (u ++ '\\' :: (name ++ v))
      = applyAll later (rule.apply (applyAll earlier u) ++
          (rule.image ++ rule.apply (applyAll earlier v))) := by
  have hletters := (isLetter_of_mem_commandNames h.mem_commandNames).2
  have hstops := Pattern.stopsAt_backslash
    (isPlain_of_mem (mem_rules_of_mem_innerRules h.mem_innerRules))
  rw [h.applyAll_innerRules, (h.applyAll_earlier hv u).1,
    Rule.apply_append (Pattern.separates_of_stopsAt hstops),
    Rule.apply_of_width? (Pattern.width?_of_mem_names h.mem_names hletters hfree),
    List.drop_succ_cons, List.drop_left]

end Replaces

/-! ### Symbols -/

/-- The image of a rule for quantifiers and connectives is one symbol. -/
theorem exists_symbol (h : r ∈ symbolRules) :
    ∃ c kind, r.image = [c] ∧ TokenKind.ofSymbol? c = some kind := by
  have hall : (symbolRules.all fun r => r.image.length == 1 &&
      r.image.all fun c => (TokenKind.ofSymbol? c).isSome) = true := by decide +kernel
  have hr := List.all_eq_true.1 hall r h
  rw [Bool.and_eq_true, beq_iff_eq] at hr
  obtain ⟨c, himage⟩ := List.length_eq_one_iff.1 hr.1
  obtain ⟨kind, hkind⟩ := Option.isSome_iff_exists.1 (List.all_eq_true.1 hr.2 c (by simp [himage]))
  exact ⟨c, kind, himage, hkind⟩

/-- No occurrence goes over such a symbol, or starts with it. -/
theorem stopsAt_symbol (hr : r ∈ symbolRules) (hc : c ∈ r.image) (hr' : r' ∈ innerRules) :
    r'.pattern.stopsAt c = true ∧ c ∉ r'.pattern.starts := by
  have hall : (symbolRules.all fun r => r.image.all fun c => innerRules.all fun r' =>
      r'.pattern.stopsAt c && !(r'.pattern.starts.contains c)) = true := by decide +kernel
  have hr := List.all_eq_true.1 (List.all_eq_true.1 hall r hr) c hc
  simpa using List.all_eq_true.1 hr r' hr'

/-- Symbols at the front of a text are no letters. -/
theorem endsLetters_applyAll (hrs : rs ⊆ symbolRules) (hv : EndsLetters v) :
    EndsLetters (applyAll rs v) := by
  induction rs generalizing v with
  | nil => exact hv
  | cons r rs ih =>
    obtain ⟨hr, hrs⟩ := List.cons_subset.1 hrs
    obtain ⟨d, kind, himage, hkind⟩ := exists_symbol hr
    refine ih hrs fun c hc => ?_
    rcases Rule.head?_apply (by simp [himage]) hc with hc | hc
    · exact hv c hc
    · rw [himage] at hc
      obtain rfl : d = c := Option.some.inj hc
      exact Bool.eq_false_iff.2 fun hletter => absurd (isNameChar_of_isLetter hletter)
        (by simp [(isNameChar_of_ofSymbol? hkind).2])

namespace Replaces

/-- **A command for a quantifier or a connective is replaced on its own.** -/
theorem applyAll_symbol (h : Replaces earlier rule later name) (hearlier : earlier ⊆ symbolRules)
    (hrule : rule ∈ symbolRules) (hv : EndsLetters v) (u : List Char) :
    applyAll innerRules (u ++ '\\' :: (name ++ v))
      = applyAll innerRules u ++ (rule.image ++ applyAll innerRules v) := by
  obtain ⟨c, -, himage, -⟩ := exists_symbol hrule
  have hstops : ∀ r ∈ later, r.pattern.stopsAt c = true ∧ c ∉ r.pattern.starts := fun r hr =>
    stopsAt_symbol hrule (by simp [himage]) (h.later_subset hr)
  rw [h.applyAll_eq hv (endsLetters_applyAll hearlier hv), himage, List.singleton_append,
    List.singleton_append, applyAll_append_cons hstops, h.applyAll_innerRules u,
    h.applyAll_innerRules v]

theorem applyAll_symbol_alone (h : Replaces earlier rule later name)
    (hearlier : earlier ⊆ symbolRules) (hrule : rule ∈ symbolRules) :
    applyAll innerRules ('\\' :: name) = rule.image := by
  have heq := h.applyAll_symbol hearlier hrule endsLetters_nil []
  rwa [applyAll_empty, List.append_nil, List.append_nil, List.nil_append, List.nil_append] at heq

end Replaces

/-! ### Names -/

/-- The image of a rule for constants and comparators starts with a letter, and no occurrence of
anything but a command goes over it. -/
theorem exists_letter (h : r ∈ nameRules) :
    ∃ c tail, r.image = c :: tail ∧ isLetter c = true ∧
      ∀ r' ∈ innerRules, r'.pattern.names = [] → r'.pattern.stopsAt c = true := by
  have hall : (nameRules.all fun r => r.image.head?.any fun c => isLetter c &&
      innerRules.all fun r' => !r'.pattern.names.isEmpty || r'.pattern.stopsAt c) = true := by
    decide +kernel
  have hr := List.all_eq_true.1 hall r h
  cases himage : r.image with
  | nil => simp [himage] at hr
  | cons c tail =>
    simp only [himage, List.head?_cons, Option.any_some, Bool.and_eq_true] at hr
    refine ⟨c, tail, rfl, hr.1, fun r' hr' hnames => ?_⟩
    simpa [hnames] using List.all_eq_true.1 hr.2 r' hr'

/-- The rules for logic have images. -/
theorem image_ne_nil_of_mem (h : r ∈ symbolRules ++ nameRules) : r.image ≠ [] := by
  rcases List.mem_append.1 h with h | h
  · obtain ⟨c, -, himage, -⟩ := exists_symbol h
    simp [himage]
  · obtain ⟨c, tail, himage, -⟩ := exists_letter h
    simp [himage]

/-- A rule for constants and comparators is one of the inner rules. -/
theorem mem_innerRules_of_mem_nameRules (h : r ∈ nameRules) : r ∈ innerRules := by
  simp [innerRules, h]

/-- The name that such a rule puts in can stand behind the letters of a command. -/
theorem behind_image (h : r ∈ nameRules) (v : List Char) : Behind (r.image ++ v) := by
  obtain ⟨c, tail, himage, hletter, -⟩ := exists_letter h
  exact Or.inr ⟨r, mem_innerRules_of_mem_nameRules h, ⟨c, by simp [himage], hletter⟩,
    List.prefix_append ..⟩

/-- Does the text end in a command that one of the rules replaces? -/
def Pending (rs : List Rule) (s : List Char) : Prop :=
  ∃ r ∈ rs, ∃ w ∈ r.pattern.names, '\\' :: w <:+ s

instance (rs : List Rule) (s : List Char) : Decidable (Pending rs s) :=
  inferInstanceAs (Decidable (∃ r ∈ rs, ∃ w ∈ r.pattern.names, '\\' :: w <:+ s))

theorem Pending.mono (h : Pending rs s) (hsuffix : s <:+ t) : Pending rs t := by
  obtain ⟨r, hr, w, hw, hend⟩ := h
  exact ⟨r, hr, w, hw, hend.trans hsuffix⟩

/-- A command at the end of two pieces, where there is no backslash in the first one. -/
theorem suffix_of_suffix_append (h : '\\' :: w <:+ s ++ t) (hs : '\\' ∉ s) :
    '\\' :: w <:+ t := by
  induction s with
  | nil => exact h
  | cons c s ih =>
    obtain ⟨hc, hs⟩ := not_or.1 (mt List.mem_cons.2 hs)
    rcases List.suffix_cons_iff.1 h with heq | h
    · exact absurd (List.cons.inj heq).1 hc
    · exact ih h hs

/-- No image has a backslash in it. -/
theorem not_mem_image (h : r ∈ innerRules) : '\\' ∉ r.image := by
  have hall : (innerRules.all fun r => !r.image.contains '\\') = true := by decide +kernel
  simpa using List.all_eq_true.1 hall r h

/-- If nothing is left of a text, it ends in a command that is replaced by nothing. -/
theorem pending_of_apply_eq_nil (hr : r ∈ innerRules) (h : r.apply s = []) (hs : s ≠ []) :
    r.image = [] ∧ Pending [r] s := by
  induction s using r.apply_induction with
  | nil => exact absurd rfl hs
  | keep c s hcovers ih =>
    rw [Rule.apply_cons hcovers] at h
    exact absurd h (by simp)
  | replace s n hn ih =>
    rw [Rule.apply_of_width? hn, List.append_eq_nil_iff] at h
    obtain ⟨himage, hrest⟩ := h
    by_cases hdrop : s.drop (n + 1) = []
    · -- the occurrence is all of the text
      obtain ⟨⟨w, hw, hsplit⟩, -⟩ :=
        Pattern.exists_name_of_width? (names_ne_nil_of_mem hr himage) hn
      rw [hdrop, List.append_nil] at hsplit
      exact ⟨himage, r, by simp, w, hw, hsplit ▸ List.suffix_rfl⟩
    · exact ⟨himage, (ih hrest hdrop).2.mono (List.drop_suffix _ s)⟩

/-- The case of a command that is all of the text. -/
theorem cons_suffix_or_pending (hr : r ∈ innerRules) (hw : r.apply s ∈ commandNames) :
    '\\' :: r.apply s <:+ '\\' :: s ∨ (r.image = [] ∧ Pending [r] ('\\' :: s)) := by
  have hletters : ∀ c ∈ s.takeWhile isLetter, isLetter c = true :=
    List.all_eq_true.1 List.all_takeWhile
  have happly : r.apply s = s.takeWhile isLetter ++ r.apply (s.dropWhile isLetter) := by
    rw [← Rule.apply_append_of_forall fun c hc => not_mem_starts_of_isLetter
      (mem_rules_of_mem_innerRules hr) (hletters c hc), List.takeWhile_append_dropWhile]
  -- all characters are letters, but none is a letter that an image has put behind the others
  have hall := (isLetter_of_mem_commandNames hw).2
  have hnil : r.apply (s.dropWhile isLetter) = [] := by
    have hmem : (s.takeWhile isLetter ++ r.apply (s.dropWhile isLetter)).takeWhile isLetter
        ∈ commandNames := by
      rwa [← happly, List.takeWhile_eq_self_iff.2 hall]
    have hbehind : Behind (r.apply (s.dropWhile isLetter)) :=
      Behind.apply (Or.inl (endsLetters_dropWhile s)) hr
    have hends := hbehind.endsLetters hletters hmem
    rw [happly] at hall
    cases hrest : r.apply (s.dropWhile isLetter) with
    | nil => rfl
    | cons c rest =>
      have hc := hends c (by simp [hrest])
      simp [hall c (by simp [hrest])] at hc
  by_cases hrest : s.dropWhile isLetter = []
  · have hsame : r.apply s = s := by
      rw [happly, hnil, ← hrest, List.takeWhile_append_dropWhile]
    exact Or.inl ⟨[], by rw [hsame, List.nil_append]⟩
  · obtain ⟨himage, hpending⟩ := pending_of_apply_eq_nil hr hnil hrest
    exact Or.inr ⟨himage, hpending.mono ((List.dropWhile_suffix _).trans (List.suffix_cons _ s))⟩

/-- A command at the end of the text has been there before, or there has been one behind it that is
replaced by nothing. -/
theorem suffix_or_pending_of_apply (hr : r ∈ innerRules) (hw : w ∈ commandNames)
    (h : '\\' :: w <:+ r.apply s) : '\\' :: w <:+ s ∨ (r.image = [] ∧ Pending [r] s) := by
  induction s using r.apply_induction with
  | nil => exact absurd h (by simp)
  | keep c s hcovers ih =>
    rw [Rule.apply_cons hcovers] at h
    rcases List.suffix_cons_iff.1 h with heq | h
    · obtain ⟨rfl, rfl⟩ := List.cons.inj heq
      exact cons_suffix_or_pending hr hw
    · rcases ih h with h | ⟨himage, hpending⟩
      · exact Or.inl (h.trans (List.suffix_cons c s))
      · exact Or.inr ⟨himage, hpending.mono (List.suffix_cons c s)⟩
  | replace s n hn ih =>
    rw [Rule.apply_of_width? hn] at h
    rcases ih (suffix_of_suffix_append h (not_mem_image hr)) with h | ⟨himage, hpending⟩
    · exact Or.inl (h.trans (List.drop_suffix _ s))
    · exact Or.inr ⟨himage, hpending.mono (List.drop_suffix _ s)⟩

/-- A rule leaves no command at the end that it has not found there. -/
theorem Pending.of_apply (h : Pending rs (r.apply s)) (hr : r ∈ innerRules)
    (hrs : rs ⊆ innerRules) : Pending rs s ∨ (r.image = [] ∧ Pending [r] s) := by
  obtain ⟨r', hr', w, hw, hsuffix⟩ := h
  have hname := mem_commandNames (mem_rules_of_mem_innerRules (hrs hr')) hw
  rcases suffix_or_pending_of_apply hr hname hsuffix with h | h
  · exact Or.inl ⟨r', hr', w, hw, h⟩
  · exact Or.inr h

/-- Rules with images leave no command at the end that they have not found there. -/
theorem Pending.of_applyAll (h : Pending rs (applyAll rs' s))
    (hrs' : ∀ r ∈ rs', r ∈ innerRules ∧ r.image ≠ []) (hrs : rs ⊆ innerRules) : Pending rs s := by
  induction rs' generalizing s with
  | nil => exact h
  | cons r rs' ih =>
    obtain ⟨⟨hr, himage⟩, hrs'⟩ := List.forall_mem_cons.1 hrs'
    exact ((ih h hrs').of_apply hr hrs).resolve_right fun h => himage h.1

/-- A text that does not end in a command is separate from a name behind it. -/
theorem separates_image (hr : r ∈ innerRules) (hrule : rule ∈ nameRules) (hu : ¬ Pending [r] u)
    (v : List Char) : r.pattern.Separates u (rule.image ++ v) := by
  obtain ⟨c, tail, himage, hletter, hstops⟩ := exists_letter hrule
  cases hpattern : r.pattern with
  | command names =>
    refine Pattern.separates_command fun w hw hletters => ⟨fun hname => ?_, fun hname => ?_⟩
    · exact hu ⟨r, by simp, w, by rw [hpattern]; exact hname, hw⟩
    · -- the command has got longer, so that it is no name
      have hmem : (w ++ (rule.image ++ v)).takeWhile isLetter ∈ r.pattern.names := by
        rw [hpattern]
        exact hname
      have hfree := (behind_image hrule v).endsLetters hletters
        (mem_commandNames (mem_rules_of_mem_innerRules hr) hmem) c (by simp [himage])
      simp [hletter] at hfree
  | _ =>
    rw [himage, List.cons_append, ← hpattern]
    exact Pattern.separates_of_stopsAt (hstops r hr (by rw [hpattern]; rfl))

/-- **The image of a rule is left alone if no command is in front of it.** -/
theorem applyAll_append_image (hrs : rs ⊆ innerRules) (hrule : rule ∈ nameRules)
    (hu : ¬ Pending rs u) (v : List Char) :
    applyAll rs (u ++ (rule.image ++ v)) = applyAll rs u ++ (rule.image ++ applyAll rs v) := by
  induction rs generalizing u v with
  | nil => rfl
  | cons r rs ih =>
    obtain ⟨hr, hrs⟩ := List.cons_subset.1 hrs
    have hu' : ¬ Pending [r] u := fun ⟨r', hr', h⟩ => hu ⟨r', by simp_all, h⟩
    have hnext : ¬ Pending rs (r.apply u) := by
      intro h
      rcases h.of_apply hr hrs with ⟨r', hr', h⟩ | ⟨-, h⟩
      · exact hu ⟨r', List.mem_cons_of_mem r hr', h⟩
      · exact hu' h
    have himage : r.apply (rule.image ++ v) = rule.image ++ r.apply v := by
      obtain ⟨c, tail, hcons, hletter, -⟩ := exists_letter hrule
      have hletters := (isLetter_image_of_mem (mem_innerRules_of_mem_nameRules hrule)
        (by simp [hcons]) hletter).1
      exact Rule.apply_append_of_forall (fun d hd => not_mem_starts_of_isLetter
        (mem_rules_of_mem_innerRules hr) (hletters d hd)) v
    rw [applyAll_cons, applyAll_cons, applyAll_cons,
      Rule.apply_append (separates_image hr hrule hu' v), himage, ih hrs hnext]

namespace Replaces

/-- **A command for a constant or a comparator is replaced on its own**, if no command is in front
of it and it does not get longer. -/
theorem applyAll_name (h : Replaces earlier rule later name)
    (hearlier : earlier ⊆ symbolRules ++ nameRules) (hrule : rule ∈ nameRules) (hv : EndsLetters v)
    (hfree : EndsLetters (applyAll earlier v)) (hu : ¬ Pending later u) :
    applyAll innerRules (u ++ '\\' :: (name ++ v))
      = applyAll innerRules u ++ (rule.image ++ applyAll innerRules v) := by
  have hpending : ¬ Pending later (rule.apply (applyAll earlier u)) := by
    -- the rules so far have images, and bring no command to the end of the text
    rw [← applyAll_concat]
    intro hp
    refine hu (hp.of_applyAll (fun r hr => ⟨h.front_subset hr, image_ne_nil_of_mem ?_⟩)
      h.later_subset)
    rcases List.mem_append.1 hr with hr | hr
    · exact hearlier hr
    · exact List.mem_append_right _ (List.mem_singleton.1 hr ▸ hrule)
  rw [h.applyAll_eq hv hfree, applyAll_append_image h.later_subset hrule hpending,
    h.applyAll_innerRules u, h.applyAll_innerRules v]

theorem applyAll_name_alone (h : Replaces earlier rule later name)
    (hearlier : earlier ⊆ symbolRules ++ nameRules) (hrule : rule ∈ nameRules) :
    applyAll innerRules ('\\' :: name) = rule.image := by
  have hfree : EndsLetters (applyAll earlier []) := by
    rw [applyAll_empty]
    exact endsLetters_nil
  have hnone : ¬ Pending later [] := by simp [Pending]
  have heq := h.applyAll_name hearlier hrule endsLetters_nil hfree hnone
  rwa [applyAll_empty, List.append_nil, List.append_nil, List.nil_append, List.nil_append] at heq

/-- A command in front of it gets longer by the name, so that a backslash is left in the end. -/
theorem backslash_mem_of_pending (h : Replaces earlier rule later name) (hrule : rule ∈ nameRules)
    (hv : EndsLetters v) (hfree : EndsLetters (applyAll earlier v)) (hu : Pending later u) :
    '\\' ∈ applyAll innerRules (u ++ '\\' :: (name ++ v)) := by
  obtain ⟨r, hr, w, hw, x, rfl⟩ := hu
  have hname := Surface.mem_commandNames (mem_rules_of_mem_innerRules (h.later_subset hr)) hw
  have hsub : ((earlier ++ [rule]) ++ later).Sublist rules.tail := by
    rw [List.append_assoc]
    exact h.sublist
  have hpairwise := List.pairwise_append.1 (pairwise_names.tail.sublist hsub)
  have hfront : IsKept (earlier ++ [rule]) w [] :=
    isKept_name (fun r hr => mem_rules_of_mem_innerRules (h.front_subset hr)) hname
      (fun r' hr' hmem => hpairwise.2.2 r' hr' r hr w hmem hw) endsLetters_nil
  obtain ⟨heq, -⟩ := hfront.applyAll_self h.front_subset
    ((List.sublist_append_left ..).trans hsub) x
  -- the command in front is as it was, and now the image goes on with its letters
  rw [List.append_nil, applyAll_empty, List.append_nil, applyAll_concat] at heq
  obtain ⟨c, tail, himage, hletter, -⟩ := exists_letter hrule
  have hback : IsKept later w (rule.image ++ rule.apply (applyAll earlier v)) :=
    isKept_of_isLetter (fun r hr => mem_rules_of_mem_innerRules (h.later_subset hr))
      (isLetter_of_mem_commandNames hname).2 (behind_image hrule _) (by simp [himage]) hletter
  rw [h.applyAll_eq hv hfree, heq, List.append_assoc, List.cons_append,
    (hback.applyAll_self h.later_subset ((List.sublist_append_right ..).trans hsub) _).1]
  simp

end Replaces

/-! ### Spaces -/

/-- Rules with images leave no backslash at the end that they have not found there. -/
theorem getLast?_applyAll (hrs : ∀ r ∈ rs, r ∈ innerRules ∧ r.image ≠ [])
    (hu : u.getLast? ≠ some '\\') : (applyAll rs u).getLast? ≠ some '\\' := by
  induction rs generalizing u with
  | nil => exact hu
  | cons r rs ih =>
    obtain ⟨⟨hr, himage⟩, hrs⟩ := List.forall_mem_cons.1 hrs
    exact ih hrs fun h => (Rule.getLast?_apply himage h).elim hu (not_mem_image hr)

/-- A space separates what is in front of it from what is behind it, unless there is a backslash in
front of it. -/
theorem applyAll_space (hu : u.getLast? ≠ some '\\') (v : List Char) :
    applyAll innerRules (u ++ ' ' :: v)
      = applyAll innerRules u ++ ' ' :: applyAll innerRules v := by
  -- the rule for escapes is the only one that goes over a space, and it comes behind those with
  -- images, which put no backslash in front of the space
  have hfront : ∀ r ∈ symbolRules ++ nameRules ++ shorthandRules,
      (r.pattern.stopsAt ' ' = true ∧ ' ' ∉ r.pattern.starts) ∧ r.image ≠ [] := by decide +kernel
  obtain ⟨escape, sizes, hlayout, hescape, hsizes⟩ : ∃ escape sizes,
      layoutRules = escape :: sizes ∧ escape.pattern = .escaped [',', ';', ':', '!', ' '] ∧
        ∀ r ∈ sizes, r.pattern.stopsAt ' ' = true ∧ ' ' ∉ r.pattern.starts :=
    ⟨_, _, rfl, rfl, by decide +kernel⟩
  have hlast := getLast?_applyAll (fun r hr => ⟨List.mem_append_left _ hr, (hfront r hr).2⟩) hu
  have hcovers (s : List Char) : ¬ escape.pattern.Covers (' ' :: s) := by
    rw [hescape]
    exact Pattern.not_covers_of_not_mem (by decide)
  have hsplit (s : List Char) :
      applyAll innerRules s = applyAll sizes
        (escape.apply (applyAll (symbolRules ++ nameRules ++ shorthandRules) s)) := by
    rw [innerRules, applyAll_append, hlayout, applyAll_cons]
  rw [hsplit, hsplit, hsplit, applyAll_append_cons fun r hr => (hfront r hr).1,
    Rule.apply_append (hescape ▸ Pattern.separates_escaped hlast), Rule.apply_cons (hcovers _),
    applyAll_append_cons hsizes]

/-- With spaces around it, the command is replaced on its own. -/
theorem applyAll_between_spaces (hname : name ∈ commandNames)
    (himage : applyAll innerRules ('\\' :: name) = r.image) (hu : u.getLast? ≠ some '\\') :
    applyAll innerRules (u ++ ' ' :: ('\\' :: (name ++ ' ' :: v)))
      = applyAll innerRules u ++ ' ' :: (r.image ++ ' ' :: applyAll innerRules v) := by
  have hlast : ('\\' :: name).getLast? ≠ some '\\' := by
    obtain ⟨hne, hletters⟩ := isLetter_of_mem_commandNames hname
    obtain ⟨c, tail, rfl⟩ := List.exists_cons_of_ne_nil hne
    rw [List.getLast?_cons_cons]
    intro h
    exact absurd (hletters _ (List.mem_of_getLast? h)) (by decide)
  rw [applyAll_space hu, ← List.cons_append, applyAll_space hlast, himage]

end LogicForms.Surface
