import LogicForms.Proofs.Parsing
import LogicForms.Proofs.Printing
import Mathlib.Tactic.TFAE

/-!
# Printed formulas read back

Printed forms are tidy and without markup, so that normalization leaves them alone; they are cut
into the leaves of a derivation tree for the formula, and from these the reader gives the formula
again. Conversely, names are identifiers in every text that can be cut into tokens, and the grammar
puts nothing else in the place of a term, so that every formula that is read can be written.

Together, the formulas that can be written are exactly those that are read from some text, and
exactly those that are read from their own printed forms (`Formula.text_roundTrip`).
-/

set_option autoImplicit false

namespace LogicForms

open Surface

/-! ### Printed forms are tidy -/

namespace Term

open Text (IsTidy isBlank)

/-- Identifiers are tidy. -/
theorem isTidy_of_isIdentifier {name : String} (h : isIdentifier name = true) :
    IsTidy name.toList := by
  have hblank : Text.blanks.any isNameChar = false := by decide
  have hname (c : Char) (hc : isNameChar c = true) : isBlank c = false := by
    rw [isBlank, ← Bool.not_eq_true, List.contains_iff_mem]
    intro hmem
    exact List.any_eq_false.1 hblank c hmem hc
  rw [isIdentifier] at h
  cases hchars : name.toList with
  | nil =>
    rw [hchars] at h
    exact absurd h (by simp [isIdentifierChars])
  | cons c rest =>
    rw [hchars, isIdentifierChars, Bool.and_eq_true, List.all_eq_true] at h
    refine IsTidy.of_forall (by simp) (List.forall_mem_cons.2 ⟨?_, fun d hd => ?_⟩)
    · exact hname c (by simp [isNameChar, h.1])
    · exact hname d (h.2 d hd)

/-- Further arguments behind a tidy text. -/
theorem isTidy_append_moreText {s : List Char} {ts : List Term} (hs : IsTidy s)
    (h : ∀ t ∈ ts, IsTidy t.text.toList) : IsTidy (s ++ moreText ts) := by
  induction ts generalizing s with
  | nil => simpa [moreText] using hs
  | cons t ts ih =>
    have hnext : IsTidy (s ++ ',' :: ' ' :: t.text.toList) := hs.append (.space rfl (h t (by simp)))
    have hmore := ih hnext fun u hu => h u (by simp [hu])
    simpa [moreText] using hmore

/-- Argument lists are tidy if their members are. -/
theorem isTidy_argumentsText {ts : List Term} (h : ∀ t ∈ ts, IsTidy t.text.toList) :
    IsTidy (argumentsText ts) := by
  cases ts with
  | nil => exact .cons rfl (.char rfl)
  | cons t ts =>
    have hts : IsTidy (t.text.toList ++ moreText ts) :=
      isTidy_append_moreText (h t (by simp)) fun u hu => h u (by simp [hu])
    rw [argumentsText, toList_commaSeparated]
    exact .cons rfl (hts.append (.char rfl))

/-- An equals sign between tidy texts. -/
theorem isTidy_equation {s t : Term} (hs : IsTidy s.text.toList) (ht : IsTidy t.text.toList) :
    IsTidy (text (.eq s t)).toList := by
  have heq := hs.append_space (.space (c := '=') rfl ht)
  simpa using heq

/-- Printed terms are tidy. -/
theorem isTidy_text {t : Term} (h : t.isWellFormed = true) : IsTidy t.text.toList := by
  induction t using rec' with
  | hvar x =>
    rw [isWellFormed_var, Bool.and_eq_true] at h
    exact isTidy_of_isIdentifier h.1
  | hconst c =>
    rw [isWellFormed_const, Bool.and_eq_true] at h
    exact isTidy_of_isIdentifier h.1
  | hfunc f args ih =>
    rw [isWellFormed_func, Bool.and_eq_true, areWellFormed_iff] at h
    rw [toList_text_func]
    exact (isTidy_of_isIdentifier h.1).append
      (isTidy_argumentsText fun t ht => ih t ht (h.2 t ht))
  | heq s t ihs iht =>
    simp only [isWellFormed_eq, Bool.and_eq_true] at h
    exact isTidy_equation (ihs h.1.2) (iht h.2)
  | hpred | hnot | hbinary | hquant | hbound => simp at h

/-- Parentheses keep texts tidy. -/
theorem isTidy_parenthesized {s : String} (needed : Bool) (h : IsTidy s.toList) :
    IsTidy (parenthesized needed s).toList := by
  cases needed with
  | false => exact h
  | true =>
    have hparens : IsTidy ('(' :: (s.toList ++ [')'])) := .cons rfl (h.append (.char rfl))
    simpa using hparens

end Term

/-- Printed formulas are tidy. -/
theorem Formula.isTidy_text {f : Formula} (h : f.isWellFormed = true) :
    Text.IsTidy f.text.toList := by
  induction f with
  | pred p args =>
    rw [isWellFormed_pred, Bool.and_eq_true, Term.areWellFormed_iff] at h
    have hargs := Term.isTidy_argumentsText fun t ht => Term.isTidy_text (h.2 t ht)
    cases args with
    | nil => exact Term.isTidy_of_isIdentifier h.1
    | cons t ts =>
      have htext := (Term.isTidy_of_isIdentifier h.1).append hargs
      simpa [Term.predText, Term.argumentsText] using htext
  | eq s t =>
    simp only [isWellFormed_eq, Term.isWellFormed_eq, Bool.and_eq_true] at h
    exact Term.isTidy_equation (Term.isTidy_text h.1.2) (Term.isTidy_text h.2)
  | not f ih =>
    have harg := Term.isTidy_parenthesized (f.isBinary || f.isEquation) (ih h)
    have hnot := Text.IsTidy.cons (c := '¬') rfl harg
    simpa using hnot
  | binary op f g ihf ihg =>
    rw [isWellFormed_binary, Bool.and_eq_true] at h
    have hsymbol : Text.isBlank op.symbol = false := by cases op <;> decide
    have hf := Term.isTidy_parenthesized (f.precedence < op.precedence) (ihf h.1)
    have hg := Term.isTidy_parenthesized (g.precedence ≤ op.precedence) (ihg h.2)
    simpa using hf.append_space (.space hsymbol hg)
  | quant q x f ih =>
    rw [isWellFormed_quant, Bool.and_eq_true] at h
    have hsymbol : Text.isBlank q.symbol = false := by cases q <;> decide
    have hscope := Term.isTidy_parenthesized f.isBinary (ih h.2)
    have hquant := Text.IsTidy.cons hsymbol ((Term.isTidy_of_isIdentifier h.1).append_space hscope)
    simpa using hquant

/-! ### What is read can be written -/

namespace Surface

/-- The value can be written; where the grammar has a term, it is no equation. -/
def GrammarSymbol.IsWritable : (s : GrammarSymbol) → s.Value → Prop
  | .formula _ => fun f : Formula => f.isWellFormed = true
  | .moreOperands _ => fun fs : List Formula => ∀ f ∈ fs, f.isWellFormed = true
  | .optionalDot => fun _ => True
  | .term => fun t : Term => t.isWellFormed = true ∧ t.isEquation = false
  | .termLike => fun t : Term => t.isWellFormed = true
  | .optionalArguments => fun args : Option (List Term) =>
    Term.areWellFormed (args.getD []) = true
  | .arguments => fun args : List Term => Term.areWellFormed args = true
  | .moreArguments => fun args : List Term => Term.areWellFormed args = true

/-- A name with arguments that can be written is a term that can be written. -/
theorem isWritable_termOf {name : String} {args : Option (List Term)}
    (hname : isIdentifier name = true) (hargs : Term.areWellFormed (args.getD []) = true) :
    (termOf name args).isWellFormed = true ∧ (termOf name args).isEquation = false := by
  cases args with
  | none =>
    rw [termOf]
    split
    · rename_i hvar
      exact ⟨by simp [hname, hvar], rfl⟩
    · rename_i hconst
      exact ⟨by simp [hname, hconst], rfl⟩
  | some args => exact ⟨by simpa [termOf, hname] using hargs, rfl⟩

/-- Two terms that are no equations make up an equation that can be written. -/
theorem isWellFormed_equation {s t : Term} (hs : s.isWellFormed = true ∧ s.isEquation = false)
    (ht : t.isWellFormed = true ∧ t.isEquation = false) : (Term.eq s t).isWellFormed = true := by
  rw [Term.isWellFormed_eq, hs.1, hs.2, ht.1, ht.2]
  rfl

/-- Operands that can be written make up a chain that can be written. -/
theorem isWellFormed_foldl (op : Connective) {f : Formula} {fs : List Formula}
    (hf : f.isWellFormed = true) (hfs : ∀ g ∈ fs, g.isWellFormed = true) :
    (fs.foldl (Formula.binary op) f).isWellFormed = true := by
  induction fs generalizing f with
  | nil => exact hf
  | cons g gs ih =>
    have hg : (Formula.binary op f g).isWellFormed = true := by
      rw [Formula.isWellFormed_binary, hf, hfs g (by simp), Bool.and_self]
    exact ih hg fun k hk => hfs k (by simp [hk])

/-- **A tree with identifiers at the leaves stands for something that can be written.** -/
theorem DerivationTree.isWritable_value {s : GrammarSymbol} (tree : DerivationTree s)
    (h : ∀ token ∈ tree.tokens, token.kind = .name → isIdentifier token.value = true) :
    s.IsWritable tree.value := by
  induction tree with
  | chain op first more ihfirst ihmore =>
    rw [tokens, List.forall_mem_append] at h
    exact isWellFormed_foldl op (ihfirst h.1) (ihmore h.2)
  | noOperands op => exact List.forall_mem_nil _
  | operand op sign next more ihnext ihmore =>
    rw [tokens, List.forall_mem_cons, List.forall_mem_append] at h
    exact List.forall_mem_cons.2 ⟨ihnext h.2.1, ihmore h.2.2⟩
  | not sign arg ih =>
    rw [tokens, List.forall_mem_cons] at h
    exact ih h.2
  | quant q sign x dot scope ihdot ihscope =>
    rw [tokens, List.forall_mem_cons, List.forall_mem_cons, List.forall_mem_append] at h
    exact Bool.and_eq_true_iff.2 ⟨h.2.1 x.2, ihscope h.2.2.2⟩
  | atom a ih => exact ih h
  | noDot => trivial
  | someDot sign => trivial
  | pred name args ih =>
    rw [tokens, List.forall_mem_cons] at h
    exact Bool.and_eq_true_iff.2 ⟨h.1 name.2, ih h.2⟩
  | equation name args sign rhs ihargs ihrhs =>
    rw [tokens, List.forall_mem_cons, List.forall_mem_append, List.forall_mem_cons] at h
    exact isWellFormed_equation (isWritable_termOf (h.1 name.2) (ihargs h.2.1)) (ihrhs h.2.2.2)
  | parens left inner right ih =>
    rw [tokens, List.forall_mem_cons, List.forall_mem_append] at h
    exact ih h.2.1
  | term name args ih =>
    rw [tokens, List.forall_mem_cons] at h
    exact isWritable_termOf (h.1 name.2) (ih h.2)
  | plain t ih => exact (ih h).1
  | termEquation lhs sign rhs ihlhs ihrhs =>
    rw [tokens, List.forall_mem_append, List.forall_mem_cons] at h
    exact isWellFormed_equation (ihlhs h.1) (ihrhs h.2.2)
  | noArguments => rfl
  | someArguments args ih => exact ih h
  | emptyArguments left right => rfl
  | arguments left first more right ihfirst ihmore =>
    rw [tokens, List.forall_mem_cons, List.forall_mem_append, List.forall_mem_append] at h
    exact Bool.and_eq_true_iff.2 ⟨ihfirst h.2.1.1, ihmore h.2.1.2⟩
  | noMoreArguments => rfl
  | argument comma next more ihnext ihmore =>
    rw [tokens, List.forall_mem_cons, List.forall_mem_append] at h
    exact Bool.and_eq_true_iff.2 ⟨ihnext h.2.1, ihmore h.2.2⟩

end Surface

/-! ### Round trips -/

namespace Formula

/-- What is read from a text can be written. -/
theorem isWellFormed_of_ofText {s : String} {f : Formula} (h : ofText s = .ok f) :
    f.isWellFormed = true := by
  obtain ⟨tokens, htokens, hread⟩ := bind_eq_ok.1 h
  obtain ⟨tree, rfl, rfl⟩ := readAll_eq_ok_iff_derives.1 (mapError_eq_ok.1 hread)
  rw [List.append_nil] at htokens
  exact tree.isWritable_value (isIdentifier_of_mem_tokensOf htokens)

/-- What can be written is read from its printed form. -/
theorem ofText_text {f : Formula} (h : f.isWellFormed = true) : ofText f.text = .ok f := by
  have hspells : Spells (.formula (.chain .iff)) f f.text.toList :=
    (spells h).loosen f.writtenLevel.looseness_le_loosest
  obtain ⟨tree, hvalue, hcuts⟩ := hspells 0 [] endsNames_nil
  have htokens : tokensOf f.text = .ok tree.tokens :=
    tokensOf_eq_ok (isTidy_text h) hcuts.tokensFrom_eq
  have hread : readAll tree.tokens = .ok f :=
    readAll_eq_ok_iff_derives.2 ⟨tree, hvalue, List.append_nil _⟩
  exact bind_eq_ok.2 ⟨tree.tokens, htokens, mapError_eq_ok.2 hread⟩

/-- **Printing and reading are inverse on the formulas that can be written**: these are exactly the
formulas that are read from their own printed forms, and exactly those that are read from any text
at all. -/
theorem text_roundTrip (f : Formula) :
    [f.isWellFormed = true, ofText f.text = .ok f, ∃ s : String, ofText s = .ok f].TFAE := by
  tfae_have 1 → 2 := fun h => ofText_text h
  tfae_have 2 → 3 := fun h => ⟨f.text, h⟩
  tfae_have 3 → 1 := fun ⟨_, h⟩ => isWellFormed_of_ofText h
  tfae_finish

end Formula

end LogicForms
