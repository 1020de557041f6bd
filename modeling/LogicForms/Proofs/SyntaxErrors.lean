import LogicForms.Proofs.Parsing

/-!
# Errors of the reader

Inside a formula the reader fails for one reason only: a token is not what was expected
(`unexpected_readChain`). That tokens are left is noticed when a formula has been read, and these
tokens are the last ones of the list (`suffix_of_readAll_eq_trailing`).
-/

set_option autoImplicit false

namespace LogicForms.Surface

variable {α β : Type}

/-- If the outcome is an error, then one about a token that was not expected. -/
def FailsOnlyUnexpected (outcome : Except SyntaxError α) : Prop :=
  ∀ e, outcome = .error e → ∃ expected rest, e = .unexpected expected rest

namespace FailsOnlyUnexpected

theorem ok (a : α) : FailsOnlyUnexpected (.ok a) := by
  intro e h
  cases h

theorem error (expected : Expected) (rest : List Token) :
    FailsOnlyUnexpected (.error (.unexpected expected rest) : Except SyntaxError α) := by
  intro e h
  cases h
  exact ⟨expected, rest, rfl⟩

/-- Steps one after the other fail as each of them does. -/
theorem bind {m : Except SyntaxError α} {f : α → Except SyntaxError β}
    (hm : FailsOnlyUnexpected m) (hf : ∀ a, FailsOnlyUnexpected (f a)) :
    FailsOnlyUnexpected (m >>= f) := by
  cases m with
  | error e =>
    intro e' h
    cases h
    exact hm e rfl
  | ok a => exact hf a

end FailsOnlyUnexpected

open FailsOnlyUnexpected (ok error)

theorem unexpected_readToken (kind : TokenKind) (tokens : List Token) :
    FailsOnlyUnexpected (readToken kind tokens) := by
  cases tokens with
  | nil => exact error _ _
  | cons token rest =>
    rw [readToken]
    split
    · exact ok _
    · exact error _ _

/-! ### Terms -/

-- as for the functions of the reader, each call inside is on fewer tokens, or on the same tokens in
-- a function that comes later

mutual

theorem unexpected_readTerm (tokens : List Token) : FailsOnlyUnexpected (readTerm tokens) := by
  rw [readTerm]
  apply (unexpected_readToken .name tokens).bind
  intro ⟨name, rest, h⟩
  apply (unexpected_readOptionalArguments rest).bind
  exact fun _ => ok _
termination_by (tokens.length, 0)

theorem unexpected_readOptionalArguments (tokens : List Token) :
    FailsOnlyUnexpected (readOptionalArguments tokens) := by
  rw [readOptionalArguments]
  split
  · apply (unexpected_readArguments tokens).bind
    exact fun _ => ok _
  · exact ok _
termination_by (tokens.length, 1)

theorem unexpected_readArguments (tokens : List Token) :
    FailsOnlyUnexpected (readArguments tokens) := by
  rw [readArguments]
  apply (unexpected_readToken .leftParen tokens).bind
  intro ⟨_, inner, h⟩
  dsimp only
  split
  · apply (unexpected_readToken .rightParen inner).bind
    exact fun _ => ok _
  · apply (unexpected_readTermLike inner).bind
    intro ⟨first, rest₁, h₁⟩
    apply (unexpected_readMoreArguments rest₁).bind
    intro ⟨others, rest₂, h₂⟩
    apply (unexpected_readToken .rightParen rest₂).bind
    exact fun _ => ok _
termination_by (tokens.length, 0)

theorem unexpected_readMoreArguments (tokens : List Token) :
    FailsOnlyUnexpected (readMoreArguments tokens) := by
  rw [readMoreArguments]
  split
  · apply (unexpected_readToken .comma tokens).bind
    intro ⟨_, rest₁, h₁⟩
    apply (unexpected_readTermLike rest₁).bind
    intro ⟨next, rest₂, h₂⟩
    apply (unexpected_readMoreArguments rest₂).bind
    exact fun _ => ok _
  · exact ok _
termination_by (tokens.length, 0)

theorem unexpected_readTermLike (tokens : List Token) :
    FailsOnlyUnexpected (readTermLike tokens) := by
  rw [readTermLike]
  apply (unexpected_readTerm tokens).bind
  intro ⟨lhs, rest₁, h₁⟩
  dsimp only
  split
  · apply (unexpected_readToken .equals rest₁).bind
    intro ⟨_, rest₂, h₂⟩
    apply (unexpected_readTerm rest₂).bind
    exact fun _ => ok _
  · exact ok _
termination_by (tokens.length, 1)

end

/-! ### Formulas -/

theorem unexpected_readOptionalDot (tokens : List Token) :
    FailsOnlyUnexpected (readOptionalDot tokens) := by
  rw [readOptionalDot]
  split
  · apply (unexpected_readToken .dot tokens).bind
    exact fun _ => ok _
  · exact ok _

mutual

theorem unexpected_readChain (op : Connective) (tokens : List Token) :
    FailsOnlyUnexpected (readChain op tokens) := by
  rw [readChain]
  apply (unexpected_readOperand op tokens).bind
  intro ⟨f, rest₁, h₁⟩
  apply (unexpected_readChainTail op f rest₁).bind
  exact fun _ => ok _
termination_by (tokens.length, 2 * level op + 3)

theorem unexpected_readOperand (op : Connective) (tokens : List Token) :
    FailsOnlyUnexpected (readOperand op tokens) := by
  match op with
  | .iff =>
    rw [readOperand]
    exact unexpected_readChain .implies tokens
  | .implies =>
    rw [readOperand]
    exact unexpected_readChain .or tokens
  | .or =>
    rw [readOperand]
    exact unexpected_readChain .and tokens
  | .and =>
    rw [readOperand]
    exact unexpected_readUnary tokens
termination_by (tokens.length, 2 * level op + 2)
decreasing_by all_goals (simp [Prod.lex_def, level])

theorem unexpected_readChainTail (op : Connective) (f : Formula) (tokens : List Token) :
    FailsOnlyUnexpected (readChainTail op f tokens) := by
  rw [readChainTail]
  split
  · apply (unexpected_readToken (.connective op) tokens).bind
    intro ⟨_, rest₁, h₁⟩
    apply (unexpected_readOperand op rest₁).bind
    intro ⟨g, rest₂, h₂⟩
    apply (unexpected_readChainTail op (.binary op f g) rest₂).bind
    exact fun _ => ok _
  · exact ok _
termination_by (tokens.length, 0)

theorem unexpected_readUnary (tokens : List Token) : FailsOnlyUnexpected (readUnary tokens) := by
  rw [readUnary.eq_def]
  split
  · rename_i rest
    apply (unexpected_readUnary rest).bind
    exact fun _ => ok _
  · rename_i q _ _ rest
    apply (unexpected_readToken .name rest).bind
    intro ⟨x, rest₁, h₁⟩
    apply (unexpected_readOptionalDot rest₁).bind
    intro ⟨_, rest₂, h₂⟩
    apply (unexpected_readUnary rest₂).bind
    exact fun _ => ok _
  · exact unexpected_readAtom tokens
termination_by (tokens.length, 1)
decreasing_by all_goals (simp_all [Prod.lex_def] <;> omega)

theorem unexpected_readAtom (tokens : List Token) : FailsOnlyUnexpected (readAtom tokens) := by
  rw [readAtom.eq_def]
  split
  · rename_i name _ rest
    apply (unexpected_readOptionalArguments rest).bind
    intro ⟨args, rest₁, h₁⟩
    dsimp only
    split
    · apply (unexpected_readToken .equals rest₁).bind
      intro ⟨_, rest₂, h₂⟩
      apply (unexpected_readTerm rest₂).bind
      exact fun _ => ok _
    · exact ok _
  · rename_i rest
    apply (unexpected_readChain .iff rest).bind
    intro ⟨f, rest₁, h₁⟩
    apply (unexpected_readToken .rightParen rest₁).bind
    exact fun _ => ok _
  · exact error _ _
termination_by (tokens.length, 0)

end

/-- **Only what is left behind a whole formula is reported as trailing**, and these are the last
tokens of the list. -/
theorem suffix_of_readAll_eq_trailing {tokens rest : List Token}
    (h : readAll tokens = .error (.trailing rest)) : rest <:+ tokens := by
  rw [readAll] at h
  cases hread : readFormula tokens with
  | error e =>
    rw [hread] at h
    obtain ⟨expected, rest', rfl⟩ := unexpected_readChain .iff tokens e hread
    cases h
  | ok parsed =>
    obtain ⟨f, left, hlt⟩ := parsed
    rw [hread, ok_bind] at h
    dsimp only at h
    split at h
    · cases h
    · cases h
      have hbare : bare (readChain .iff tokens) = .ok (f, rest) := by
        rw [← bare_ok f rest hlt, ← hread, readFormula]
      obtain ⟨tree, -, htokens⟩ := derives_of_readChain hbare
      exact ⟨tree.tokens, htokens⟩

end LogicForms.Surface
