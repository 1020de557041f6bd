import LogicForms.Formula.Printer
import LogicForms.Proofs.Tokens
import LogicForms.Surface.WellFormed

/-!
# Printed formulas are derived by the grammar

`Spells` says that a text is cut into the leaves of a derivation tree with a given value, whatever
comes behind it, as long as no name goes on there. There is one rule for each way in which the
printer puts texts together. Formulas are printed at a level of the grammar, `writtenLevel`, and a
text for a formula at one level is one at every looser level (`Spells.loosen`); where an operand is
printed at a level that is too loose, the printer puts parentheses around it, and a text in
parentheses is one at any level.

The main facts are `Term.spells` and `Formula.spells`: the printed form of a term or formula that
can be written spells it.
-/

set_option autoImplicit false

namespace LogicForms.Surface

/-- In front of everything with which no name goes on, the text is cut into the tokens of a
derivation tree with the symbol at its root that stands for the value. -/
def Spells (s : GrammarSymbol) (v : s.Value) (text : List Char) : Prop :=
  ∀ (position : Nat) (rest : List Char), EndsNames rest →
    ∃ tree : DerivationTree s, tree.value = v ∧ Cuts position text tree.tokens rest

section

variable {name : String} {text text' : List Char}

/-- A symbol with spaces around it gives one token. -/
theorem exists_cuts_padded (c : Char) (kind : TokenKind) (h : TokenKind.ofSymbol? c = some kind)
    (position : Nat) (rest : List Char) :
    ∃ token : TokenOf kind, Cuts position [' ', c, ' '] [token.1] rest := by
  obtain ⟨token, htoken⟩ := exists_cuts_symbol c kind h (position + 1) ([' '] ++ rest)
  have htail : Cuts (position + 1) [c, ' '] [token.1] rest := htoken.append cuts_space
  exact ⟨token, cuts_space.append htail⟩

/-! ### Terms and argument lists -/

section

variable {s t : Term} {ts : List Term} {args : Option (List Term)}

theorem spells_noArguments : Spells .optionalArguments (none : Option (List Term)) [] := by
  intro position rest _
  exact ⟨.noArguments, rfl, cuts_nil⟩

theorem Spells.someArguments (h : Spells .arguments ts text) :
    Spells .optionalArguments (some ts) text := by
  intro position rest hrest
  obtain ⟨tree, rfl, hcuts⟩ := h position rest hrest
  exact ⟨.someArguments tree, rfl, hcuts⟩

theorem spells_emptyArguments : Spells .arguments ([] : List Term) ['(', ')'] := by
  intro position rest _
  obtain ⟨left, hleft⟩ := exists_cuts_symbol '(' .leftParen rfl position ([')'] ++ rest)
  obtain ⟨right, hright⟩ := exists_cuts_symbol ')' .rightParen rfl (position + 1) rest
  exact ⟨.emptyArguments left right, rfl, hleft.append hright⟩

theorem Spells.arguments (h : Spells .termLike t text) (hmore : Spells .moreArguments ts text')
    (hends : EndsNames text') :
    Spells .arguments (t :: ts) ('(' :: (text ++ (text' ++ [')']))) := by
  intro position rest _
  have hclosed : EndsNames (')' :: rest) := endsNames_cons rfl
  obtain ⟨left, hleft⟩ :=
    exists_cuts_symbol '(' .leftParen rfl position (text ++ (text' ++ [')']) ++ rest)
  obtain ⟨first, rfl, hfirst⟩ := h (position + 1) (text' ++ [')'] ++ rest) <| by
    rw [List.append_assoc]
    exact hends.append hclosed
  obtain ⟨more, rfl, hcuts⟩ := hmore (position + 1 + text.length) ([')'] ++ rest) hclosed
  obtain ⟨right, hright⟩ :=
    exists_cuts_symbol ')' .rightParen rfl (position + 1 + text.length + text'.length) rest
  refine ⟨.arguments left first more right, rfl, ?_⟩
  rw [DerivationTree.tokens, List.append_assoc]
  exact hleft.append (hfirst.append (hcuts.append hright))

theorem spells_noMoreArguments : Spells .moreArguments ([] : List Term) [] := by
  intro position rest _
  exact ⟨.noMoreArguments, rfl, cuts_nil⟩

theorem Spells.argument (h : Spells .termLike t text) (hmore : Spells .moreArguments ts text')
    (hends : EndsNames text') :
    Spells .moreArguments (t :: ts) (',' :: ' ' :: (text ++ text')) := by
  intro position rest hrest
  obtain ⟨comma, hcomma⟩ :=
    exists_cuts_symbol ',' .comma rfl position ([' '] ++ (text ++ text') ++ rest)
  obtain ⟨next, rfl, hnext⟩ := h (position + 1 + 1) (text' ++ rest) (hends.append hrest)
  obtain ⟨more, rfl, hcuts⟩ := hmore (position + 1 + 1 + text.length) rest hrest
  exact ⟨.argument comma next more, rfl,
    hcomma.append (cuts_space.append (hnext.append hcuts))⟩

theorem Spells.term (hname : isIdentifier name = true) (h : Spells .optionalArguments args text)
    (hends : EndsNames text) : Spells .term (termOf name args) (name.toList ++ text) := by
  intro position rest hrest
  obtain ⟨token, rfl, htoken⟩ := exists_cuts_name hname position (hends.append hrest)
  obtain ⟨tree, rfl, hcuts⟩ := h (position + token.1.value.toList.length) rest hrest
  exact ⟨.term token tree, rfl, htoken.append hcuts⟩

theorem Spells.plain (h : Spells .term t text) : Spells .termLike t text := by
  intro position rest hrest
  obtain ⟨tree, rfl, hcuts⟩ := h position rest hrest
  exact ⟨.plain tree, rfl, hcuts⟩

/-- Two terms with an equals sign between them are cut one after the other. -/
theorem Spells.exists_cuts_equation (hs : Spells .term s text) (ht : Spells .term t text')
    (position : Nat) {rest : List Char} (hrest : EndsNames rest) :
    ∃ (lhs : DerivationTree .term) (sign : TokenOf .equals) (rhs : DerivationTree .term),
      lhs.value = s ∧ rhs.value = t ∧
        Cuts position (text ++ ([' ', '=', ' '] ++ text')) (lhs.tokens ++ sign.1 :: rhs.tokens)
          rest := by
  obtain ⟨lhs, hlhs, hleft⟩ := hs position ([' ', '=', ' '] ++ text' ++ rest)
    (endsNames_cons rfl)
  obtain ⟨sign, hsign⟩ :=
    exists_cuts_padded '=' .equals rfl (position + text.length) (text' ++ rest)
  obtain ⟨rhs, hrhs, hright⟩ := ht (position + text.length + 3) rest hrest
  exact ⟨lhs, sign, rhs, hlhs, hrhs, hleft.append (hsign.append hright)⟩

theorem Spells.termEquation (hs : Spells .term s text) (ht : Spells .term t text') :
    Spells .termLike (Term.eq s t) (text ++ ([' ', '=', ' '] ++ text')) := by
  intro position rest hrest
  obtain ⟨lhs, sign, rhs, rfl, rfl, hcuts⟩ := hs.exists_cuts_equation ht position hrest
  exact ⟨.termEquation lhs sign rhs, rfl, hcuts⟩

end

/-! ### Formulas -/

section

variable {f g : Formula} {op : Connective} {q : Quantifier}

theorem Spells.pred {args : Option (List Term)} (hname : isIdentifier name = true)
    (h : Spells .optionalArguments args text) (hends : EndsNames text) :
    Spells (.formula .atom) (Formula.pred name (args.getD [])) (name.toList ++ text) := by
  intro position rest hrest
  obtain ⟨token, rfl, htoken⟩ := exists_cuts_name hname position (hends.append hrest)
  obtain ⟨tree, rfl, hcuts⟩ := h (position + token.1.value.toList.length) rest hrest
  exact ⟨.pred token tree, rfl, htoken.append hcuts⟩

theorem Spells.equation {s t : Term} (hs : Spells .term s text) (ht : Spells .term t text') :
    Spells (.formula .atom) (Formula.eq s t) (text ++ ([' ', '=', ' '] ++ text')) := by
  intro position rest hrest
  obtain ⟨lhs, sign, rhs, rfl, rfl, hcuts⟩ := hs.exists_cuts_equation ht position hrest
  -- the name and the arguments on the left become parts of the atom
  cases lhs with
  | term token args => exact ⟨.equation token args sign rhs, rfl, hcuts⟩

theorem Spells.parens (h : Spells (.formula (.chain .iff)) f text) :
    Spells (.formula .atom) f ('(' :: (text ++ [')'])) := by
  intro position rest _
  obtain ⟨left, hleft⟩ := exists_cuts_symbol '(' .leftParen rfl position (text ++ [')'] ++ rest)
  obtain ⟨inner, rfl, hinner⟩ := h (position + 1) ([')'] ++ rest) (endsNames_cons rfl)
  obtain ⟨right, hright⟩ :=
    exists_cuts_symbol ')' .rightParen rfl (position + 1 + text.length) rest
  exact ⟨.parens left inner right, rfl, hleft.append (hinner.append hright)⟩

theorem Spells.not (h : Spells (.formula .unary) f text) :
    Spells (.formula .unary) (Formula.not f) ('¬' :: text) := by
  intro position rest hrest
  obtain ⟨sign, hsign⟩ := exists_cuts_symbol '¬' .not rfl position (text ++ rest)
  obtain ⟨arg, rfl, harg⟩ := h (position + 1) rest hrest
  exact ⟨.not sign arg, rfl, hsign.append harg⟩

theorem Spells.quant (hname : isIdentifier name = true) (h : Spells (.formula .unary) f text) :
    Spells (.formula .unary) (Formula.quant q name f)
      (q.symbol :: (name.toList ++ ' ' :: text)) := by
  intro position rest hrest
  obtain ⟨sign, hsign⟩ := exists_cuts_symbol q.symbol (.quantifier q)
    (TokenKind.ofSymbol?_quantifier q) position (name.toList ++ ([' '] ++ text) ++ rest)
  obtain ⟨x, rfl, hx⟩ := exists_cuts_name hname (position + 1)
    (show EndsNames ([' '] ++ text ++ rest) from endsNames_cons rfl)
  obtain ⟨scope, rfl, hscope⟩ := h (position + 1 + x.1.value.toList.length + 1) rest hrest
  exact ⟨.quant q sign x .noDot scope, rfl,
    hsign.append (hx.append (cuts_space.append hscope))⟩

/-! ### Levels -/

/-- The next tighter level. -/
def FormulaLevel.tighter : FormulaLevel → FormulaLevel
  | .chain op => operandLevel op
  | .unary => .atom
  | .atom => .atom

/-- The number of tighter levels. -/
def FormulaLevel.looseness : FormulaLevel → Nat
  | .chain op => level op + 2
  | .unary => 1
  | .atom => 0

/-- Levels are told apart by the number of tighter ones. -/
theorem FormulaLevel.looseness_injective {l l' : FormulaLevel} (h : l.looseness = l'.looseness) :
    l = l' := by
  rcases l with op | _ | _ <;> rcases l' with op' | _ | _ <;>
    simp only [looseness, Nat.add_right_cancel_iff] at h <;> try rfl
  · cases op <;> cases op' <;> first | rfl | exact absurd h (by decide)
  all_goals omega

/-- The next tighter level is tighter by one. -/
theorem FormulaLevel.looseness_tighter {l : FormulaLevel} {n : Nat} (h : l.looseness = n + 1) :
    l.tighter.looseness = n := by
  cases l with
  | chain op => cases op <;> simp_all [looseness, tighter, operandLevel, level]
  | unary => simp_all [looseness, tighter]
  | atom => simp [looseness] at h

/-- The chains of equivalences are the loosest level. -/
theorem FormulaLevel.looseness_le_loosest (l : FormulaLevel) :
    l.looseness ≤ (FormulaLevel.chain .iff).looseness := by
  rcases l with op | _ | _
  · cases op <;> decide
  · decide
  · decide

/-- A text at the next tighter level is one at the level itself. -/
theorem Spells.of_tighter {l : FormulaLevel} (h : Spells (.formula l.tighter) f text) :
    Spells (.formula l) f text := by
  intro position rest hrest
  obtain ⟨tree, rfl, hcuts⟩ := h position rest hrest
  cases l with
  | chain op =>
    refine ⟨.chain op tree (.noOperands op), rfl, ?_⟩
    change Cuts position text (tree.tokens ++ []) rest
    rwa [List.append_nil]
  | unary => exact ⟨.atom tree, rfl, hcuts⟩
  | atom => exact ⟨tree, rfl, hcuts⟩

/-- **A text at one level is one at every looser level.** -/
theorem Spells.loosen {l l' : FormulaLevel} (h : Spells (.formula l) f text)
    (hle : l.looseness ≤ l'.looseness) : Spells (.formula l') f text := by
  obtain ⟨n, hn⟩ := Nat.exists_eq_add_of_le hle
  clear hle
  induction n generalizing l' with
  | zero =>
    rw [← FormulaLevel.looseness_injective hn.symm]
    exact h
  | succ n ih => exact (ih (FormulaLevel.looseness_tighter hn)).of_tighter

/-- A text in parentheses is one at any level. -/
theorem Spells.parens_loosen {l l' : FormulaLevel} (h : Spells (.formula l) f text) :
    Spells (.formula l') f ('(' :: (text ++ [')'])) := by
  have hparens : Spells (.formula .atom) f ('(' :: (text ++ [')'])) :=
    (h.loosen l.looseness_le_loosest).parens
  exact hparens.loosen (Nat.zero_le _)

/-! ### Operands -/

/-- The formulas of the further operands of a connective. -/
def DerivationTree.operands (more : DerivationTree (.moreOperands op)) : List Formula := more.value

/-- The formula of a tree for one. -/
def DerivationTree.formula {l : FormulaLevel} (tree : DerivationTree (.formula l)) : Formula :=
  tree.value

/-- The formula of a chain is put together from the left. -/
theorem DerivationTree.formula_chain (first : DerivationTree (.formula (operandLevel op)))
    (more : DerivationTree (.moreOperands op)) :
    (chain op first more).formula = more.operands.foldl (Formula.binary op) first.formula := rfl

/-- One more operand can be put behind those of a chain. -/
theorem DerivationTree.exists_addOperand (sign : TokenOf (.connective op))
    (next : DerivationTree (.formula (operandLevel op))) :
    ∀ more : DerivationTree (.moreOperands op), ∃ more' : DerivationTree (.moreOperands op),
      more'.tokens = more.tokens ++ sign.1 :: next.tokens ∧
        more'.operands = more.operands ++ [next.formula]
  | .noOperands _ => ⟨.operand op sign next (.noOperands op), by simp, rfl⟩
  | .operand _ sign' next' more => by
    obtain ⟨more', htokens, hoperands⟩ := exists_addOperand sign next more
    refine ⟨.operand op sign' next' more', ?_, congrArg (List.cons next'.formula) hoperands⟩
    simp [htokens]
termination_by more => more.tokens.length
decreasing_by
  simp only [DerivationTree.tokens, List.length_cons, List.length_append]
  omega

/-- An operand behind a chain becomes its last one. -/
theorem Spells.binary (hf : Spells (.formula (.chain op)) f text)
    (hg : Spells (.formula (operandLevel op)) g text') :
    Spells (.formula (.chain op)) (Formula.binary op f g)
      (text ++ ([' ', op.symbol, ' '] ++ text')) := by
  intro position rest hrest
  obtain ⟨tree, rfl, hleft⟩ := hf position ([' ', op.symbol, ' '] ++ text' ++ rest)
    (endsNames_cons rfl)
  obtain ⟨sign, hsign⟩ := exists_cuts_padded op.symbol (.connective op)
    (TokenKind.ofSymbol?_connective op) (position + text.length) (text' ++ rest)
  obtain ⟨next, rfl, hright⟩ := hg (position + text.length + 3) rest hrest
  cases tree with
  | chain _ first more =>
    obtain ⟨more', htokens, hoperands⟩ := DerivationTree.exists_addOperand sign next more
    refine ⟨.chain op first more', ?_, ?_⟩
    · calc (DerivationTree.chain op first more').formula
          = (more.operands ++ [next.formula]).foldl (Formula.binary op) first.formula := by
            rw [DerivationTree.formula_chain, hoperands]
        _ = Formula.binary op (DerivationTree.chain op first more).formula next.formula := by
            rw [List.foldl_append, DerivationTree.formula_chain]
            rfl
    · have hall : (DerivationTree.chain op first more').tokens
          = (DerivationTree.chain op first more).tokens ++ ([sign.1] ++ next.tokens) := by
        simp [htokens]
      rw [hall]
      exact hleft.append (hsign.append hright)

end

end

end LogicForms.Surface

namespace LogicForms

open Surface

/-! ### Printed terms -/

namespace Term

/-- The texts of further arguments, each behind a comma. -/
def moreText (ts : List Term) : List Char := ts.flatMap fun t => ',' :: ' ' :: t.text.toList

theorem endsNames_moreText (ts : List Term) : EndsNames (moreText ts) := by
  cases ts with
  | nil => exact endsNames_nil
  | cons t ts => exact endsNames_cons rfl

/-- The texts of all arguments are the first one and the further ones. -/
theorem toList_commaSeparated (t : Term) (ts : List Term) :
    (Text.commaSeparated (textList (t :: ts))).toList = t.text.toList ++ moreText ts := by
  induction ts generalizing t with
  | nil => simp [moreText]
  | cons u us ih =>
    have hjoin : Text.commaSeparated (textList (t :: u :: us))
        = t.text ++ ", " ++ Text.commaSeparated (textList (u :: us)) := rfl
    rw [hjoin, String.toList_append, String.toList_append, ih u]
    simp [moreText]

variable {name : String} {args : List Term}

theorem spells_moreArguments (h : ∀ t ∈ args, Spells .termLike t t.text.toList) :
    Spells .moreArguments args (moreText args) := by
  induction args with
  | nil => exact spells_noMoreArguments
  | cons t ts ih =>
    have hmore : Spells .moreArguments ts (moreText ts) := ih fun u hu => h u (by simp [hu])
    have hcons : moreText (t :: ts) = ',' :: ' ' :: (t.text.toList ++ moreText ts) := by
      simp [moreText]
    rw [hcons]
    exact (h t (by simp)).argument hmore (endsNames_moreText ts)

/-- The text of an argument list, with its parentheses. -/
def argumentsText (args : List Term) : List Char :=
  '(' :: ((Text.commaSeparated (textList args)).toList ++ [')'])

theorem spells_arguments (h : ∀ t ∈ args, Spells .termLike t t.text.toList) :
    Spells .arguments args (argumentsText args) := by
  cases args with
  | nil => exact spells_emptyArguments
  | cons t ts =>
    have hmore : Spells .moreArguments ts (moreText ts) :=
      spells_moreArguments fun u hu => h u (by simp [hu])
    rw [argumentsText, toList_commaSeparated, List.append_assoc]
    exact (h t (by simp)).arguments hmore (endsNames_moreText ts)

theorem toList_text_func (name : String) (args : List Term) :
    (text (.func name args)).toList = name.toList ++ argumentsText args := by
  simp [argumentsText]

/-- **The printed form of a term spells it**, as an argument, and as a term if it is no equation. -/
theorem spells {t : Term} (h : t.isWellFormed = true) :
    Spells .termLike t t.text.toList ∧ (t.isEquation = false → Spells .term t t.text.toList) := by
  -- it is enough to spell a term as a term; only an equation is an argument in another way
  have plain {t : Term} (ht : Spells .term t t.text.toList) :
      Spells .termLike t t.text.toList ∧ (t.isEquation = false → Spells .term t t.text.toList) :=
    ⟨ht.plain, fun _ => ht⟩
  induction t using rec' with
  | hvar x =>
    simp only [isWellFormed_var, Bool.and_eq_true] at h
    have hterm := spells_noArguments.term h.1 endsNames_nil
    rw [termOf, if_pos h.2, List.append_nil] at hterm
    exact plain hterm
  | hconst c =>
    simp only [isWellFormed_const, Bool.and_eq_true, Bool.not_eq_true'] at h
    have hterm := spells_noArguments.term h.1 endsNames_nil
    rw [termOf, if_neg (by simp [h.2]), List.append_nil] at hterm
    exact plain hterm
  | hfunc f args ih =>
    simp only [isWellFormed_func, Bool.and_eq_true, areWellFormed_iff] at h
    have hargs : Spells .arguments args (argumentsText args) :=
      spells_arguments fun t ht => (ih t ht (h.2 t ht)).1
    refine plain ?_
    rw [toList_text_func]
    exact hargs.someArguments.term h.1 (endsNames_cons rfl)
  | heq s t ihs iht =>
    simp only [isWellFormed_eq, Bool.and_eq_true, Bool.not_eq_true'] at h
    obtain ⟨⟨⟨hs, ht⟩, hs'⟩, ht'⟩ := h
    refine ⟨?_, fun hne => absurd hne (by simp [isEquation])⟩
    have heq := ((ihs hs').2 hs).termEquation ((iht ht').2 ht)
    simpa using heq
  | hpred | hnot | hbinary | hquant | hbound => simp at h

end Term

/-! ### Printed formulas -/

namespace Formula

/-- The level of the grammar at which a formula is printed. -/
def writtenLevel : Formula → FormulaLevel
  | .pred _ _ => .atom
  | .eq _ _ => .atom
  | .not _ => .unary
  | .binary op _ _ => .chain op
  | .quant _ _ _ => .unary

variable {f : Formula} {op : Connective}

/-- What is not binary is printed at a tight level. -/
theorem looseness_writtenLevel (h : f.isBinary = false) : f.writtenLevel.looseness ≤ 1 := by
  cases f with
  | binary => simp [isBinary] at h
  | _ => simp [writtenLevel, FormulaLevel.looseness]

/-- The levels of connectives are in the order of their precedences, from the tightest one on. -/
theorem level_le_level_iff (op op' : Connective) :
    level op ≤ level op' ↔ op'.precedence ≤ op.precedence := by
  cases op <;> cases op' <;> decide

/-- What needs no parentheses on the left of a connective is printed like a chain, or tighter. -/
theorem looseness_le_chain (h : ¬ f.precedence < op.precedence) :
    f.writtenLevel.looseness ≤ (FormulaLevel.chain op).looseness := by
  by_cases hf : f.isBinary = true
  · cases f with
    | binary op' =>
      have hlevel : level op' ≤ level op := (level_le_level_iff op' op).2 (Nat.not_lt.1 h)
      exact Nat.add_le_add_right hlevel 2
    | _ => simp [isBinary] at hf
  · calc f.writtenLevel.looseness ≤ 1 := looseness_writtenLevel (by simpa using hf)
      _ ≤ (FormulaLevel.chain op).looseness := Nat.le_add_left 1 (level op + 1)

/-- What needs no parentheses on the right of a connective is printed like an operand, or
tighter. -/
theorem looseness_le_operandLevel (h : ¬ f.precedence ≤ op.precedence) :
    f.writtenLevel.looseness ≤ (operandLevel op).looseness := by
  have hoperand : (operandLevel op).looseness = level op + 1 :=
    FormulaLevel.looseness_tighter (l := .chain op) rfl
  rw [hoperand]
  by_cases hf : f.isBinary = true
  · cases f with
    | binary op' =>
      have hlevel : ¬ level op ≤ level op' := fun hle => h ((level_le_level_iff op op').1 hle)
      simp only [writtenLevel, FormulaLevel.looseness]
      omega
    | _ => simp [isBinary] at hf
  · calc f.writtenLevel.looseness ≤ 1 := looseness_writtenLevel (by simpa using hf)
      _ ≤ level op + 1 := Nat.le_add_left 1 (level op)

/-- With parentheses, a formula is printed at any level; without them, at every level that is not
tighter than its own. -/
theorem spells_parenthesized {l : FormulaLevel} {needed : Bool}
    (h : Spells (.formula f.writtenLevel) f f.text.toList)
    (hle : needed = false → f.writtenLevel.looseness ≤ l.looseness) :
    Spells (.formula l) f (Term.parenthesized needed f.text).toList := by
  cases needed with
  | false => exact h.loosen (hle rfl)
  | true =>
    have hparens : (Term.parenthesized true f.text).toList = '(' :: (f.text.toList ++ [')']) := by
      simp
    rw [hparens]
    exact h.parens_loosen

/-- **The printed form of a formula spells it.** -/
theorem spells {f : Formula} (h : f.isWellFormed = true) :
    Spells (.formula f.writtenLevel) f f.text.toList := by
  induction f with
  | pred p args =>
    simp only [isWellFormed_pred, Bool.and_eq_true, Term.areWellFormed_iff] at h
    have hargs : Spells .arguments args (Term.argumentsText args) :=
      Term.spells_arguments fun t ht => (Term.spells (h.2 t ht)).1
    cases args with
    | nil =>
      have hpred := Spells.pred h.1 spells_noArguments endsNames_nil
      rwa [List.append_nil] at hpred
    | cons t ts =>
      have htext : (text (.pred p (t :: ts))).toList
          = p.toList ++ Term.argumentsText (t :: ts) := by
        simp [Term.argumentsText, Term.predText]
      rw [htext]
      exact hargs.someArguments.pred h.1 (endsNames_cons rfl)
  | eq s t =>
    simp only [isWellFormed_eq, Term.isWellFormed_eq, Bool.and_eq_true, Bool.not_eq_true'] at h
    obtain ⟨⟨⟨hs, ht⟩, hs'⟩, ht'⟩ := h
    have heq := ((Term.spells hs').2 hs).equation ((Term.spells ht').2 ht)
    simpa [writtenLevel] using heq
  | not f ih =>
    have hle : (f.isBinary || f.isEquation) = false → f.writtenLevel.looseness ≤ 1 := by
      intro hneeded
      rw [Bool.or_eq_false_iff] at hneeded
      exact looseness_writtenLevel hneeded.1
    have harg : Spells (.formula .unary) f
        (Term.parenthesized (f.isBinary || f.isEquation) f.text).toList :=
      spells_parenthesized (ih h) hle
    simpa [writtenLevel] using harg.not
  | binary op f g ihf ihg =>
    simp only [isWellFormed_binary, Bool.and_eq_true] at h
    have hf : Spells (.formula (.chain op)) f
        (Term.parenthesized (f.precedence < op.precedence) f.text).toList :=
      spells_parenthesized (ihf h.1) fun hneeded => looseness_le_chain (of_decide_eq_false hneeded)
    have hg : Spells (.formula (operandLevel op)) g
        (Term.parenthesized (g.precedence ≤ op.precedence) g.text).toList :=
      spells_parenthesized (ihg h.2) fun hneeded =>
        looseness_le_operandLevel (of_decide_eq_false hneeded)
    simpa [writtenLevel] using hf.binary hg
  | quant q x f ih =>
    simp only [isWellFormed_quant, Bool.and_eq_true] at h
    have hscope : Spells (.formula .unary) f (Term.parenthesized f.isBinary f.text).toList :=
      spells_parenthesized (ih h.2) looseness_writtenLevel
    simpa [writtenLevel] using hscope.quant h.1

end Formula

end LogicForms
