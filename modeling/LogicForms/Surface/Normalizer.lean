import LogicForms.Text.Blank

/-!
# Normalized surface text

Formulas are written with the commands of a mathematical typesetter (`\forall x (P(x) \to Q(x))`),
with ASCII shorthand (`~A | B -> C`), or with the symbols of logic. Normalization turns all of
them into the symbols and removes what concerns the layout only.

The rules of `rules` are applied one after the other, each to the whole text, from left to right
and without overlaps. A command is a backslash with the maximal run of ASCII letters behind it, so
that a longer command is never mistaken for a shorter one. Commands that no rule names are left in
the text.

## What this module holds

* `Pattern` with `Pattern.width?`, what a rule looks for;
* `Rule` with `Rule.apply`, and the list `rules`;
* `normalizeChars` and `normalize`, all rules in order, with white space collapsed at the end.
-/

set_option autoImplicit false

namespace LogicForms.Surface

/-- Is the character one of the letters `A` to `Z` and `a` to `z`? -/
def isLetter (c : Char) : Bool := ('A' ≤ c && c ≤ 'Z') || ('a' ≤ c && c ≤ 'z')

/-- What a rule looks for at a place in the text. -/
inductive Pattern where
  /-- One of the given characters. -/
  | oneOf (chars : List Char)
  /-- The given characters in a row. -/
  | literal (chars : List Char)
  /-- A backslash followed by one of the given characters. -/
  | escaped (chars : List Char)
  /-- A command with one of the given names. -/
  | command (names : List (List Char))

/-- The number of characters that the pattern covers at the beginning of the text, if it is
there. -/
def Pattern.width? : Pattern → List Char → Option Nat
  | .oneOf chars, c :: _ => if chars.contains c then some 1 else none
  | .literal chars, s => if chars.isPrefixOf s then some chars.length else none
  | .escaped chars, '\\' :: c :: _ => if chars.contains c then some 2 else none
  | .command names, '\\' :: s =>
    let letters := s.takeWhile isLetter
    if names.contains letters then some (letters.length + 1) else none
  | _, _ => none

/-- A pattern with the text that replaces it. -/
structure Rule where
  /-- What is replaced. -/
  pattern : Pattern
  /-- What it is replaced by. -/
  image : List Char

namespace Rule

/-- Apply the rule from some place on, after leaving out the next `skip` characters, which belong to
an occurrence that has been replaced already. -/
def applyFrom (r : Rule) : Nat → List Char → List Char
  | _, [] => []
  | skip + 1, _ :: rest => r.applyFrom skip rest
  | 0, c :: rest =>
    match r.pattern.width? (c :: rest) with
    | some (n + 1) => r.image ++ r.applyFrom n rest
    | _ => c :: r.applyFrom 0 rest

/-- Replace all occurrences of the pattern, from left to right. -/
def apply (r : Rule) (s : List Char) : List Char := r.applyFrom 0 s

@[simp] theorem applyFrom_nil (r : Rule) (skip : Nat) : r.applyFrom skip [] = [] := by
  cases skip <;> rfl

@[simp] theorem applyFrom_succ_cons (r : Rule) (skip : Nat) (c : Char) (rest : List Char) :
    r.applyFrom (skip + 1) (c :: rest) = r.applyFrom skip rest := rfl

/-- Leaving out characters amounts to dropping them from the text. -/
theorem applyFrom_eq_apply_drop (r : Rule) (skip : Nat) (s : List Char) :
    r.applyFrom skip s = r.apply (s.drop skip) := by
  induction skip generalizing s with
  | zero => rfl
  | succ skip ih =>
    cases s with
    | nil => simp [apply]
    | cons c rest => simp [ih]

/-- The rule that replaces commands. -/
def ofCommands (names : List String) (image : String) : Rule :=
  ⟨.command (names.map String.toList), image.toList⟩

/-- The rule that replaces a fixed text. -/
def ofText (text image : String) : Rule := ⟨.literal text.toList, image.toList⟩

end Rule

/-- The commands for quantifiers and connectives with their symbols. -/
def symbolRules : List Rule :=
  [.ofCommands ["forall"] "∀",
   .ofCommands ["exists"] "∃",
   .ofCommands ["neg", "lnot"] "¬",
   .ofCommands ["land", "wedge"] "∧",
   .ofCommands ["lor", "vee"] "∨",
   .ofCommands ["to", "rightarrow", "longrightarrow", "Rightarrow", "implies"] "→",
   .ofCommands ["leftrightarrow", "longleftrightarrow", "Leftrightarrow", "iff"] "↔"]

/-- The commands for logical constants and comparators, which become names. -/
def nameRules : List Rule :=
  [.ofCommands ["top"] "Top",
   .ofCommands ["bot"] "Bot",
   .ofCommands ["neq"] "NEQ",
   .ofCommands ["leq"] "LE",
   .ofCommands ["geq"] "GE"]

/-- The ASCII shorthand for connectives; the double arrow comes before the single one. -/
def shorthandRules : List Rule :=
  [.ofText "<->" "↔", .ofText "->" "→", .ofText "~" "¬", .ofText "|" "∨", .ofText "&" "∧"]

/-- The commands for spaces and for the size of parentheses. -/
def layoutRules : List Rule :=
  [⟨.escaped [',', ';', ':', '!', ' '], [' ']⟩,
   .ofCommands ["left", "right"] "",
   .ofCommands ["bigl", "bigr", "Bigl", "Bigr", "biggl", "biggr", "Biggl", "Biggr"] ""]

/-- All rules, in the order of their application. Marks around mathematics go first, and grouping
braces last. -/
def rules : List Rule :=
  [⟨.oneOf ['$'], []⟩] ++ symbolRules ++ nameRules ++ shorthandRules ++ layoutRules ++
    [⟨.oneOf ['\x7b', '\x7d'], []⟩]

/-- The text after all rules, before white space is collapsed. -/
def applyRules (s : List Char) : List Char := rules.foldl (fun s rule => rule.apply s) s

/-- The normalized text, as a list of characters. -/
def normalizeChars (s : List Char) : List Char := Text.collapse (applyRules s)

/-- The normalized text: all rules in order, and white space collapsed. -/
def normalize (s : String) : String := String.ofList (normalizeChars s.toList)

-- A command with a longer name is not the shorter command followed by letters.
example : normalizeChars ['\\', 't', 'o', 'p'] = ['T', 'o', 'p'] ∧
    normalizeChars ['\\', 't', 'o', ' ', 'p'] = ['→', ' ', 'p'] := by decide +kernel

end LogicForms.Surface
