import LogicForms.Proofs.Clauses
import LogicForms.Proofs.Failures
import LogicForms.Proofs.WrittenForms

/-!
# Reports that can be read again

All results in a report are printed, and the question is whether reading them gives them back. The
beginning of Skolem symbols decides about it: it has to be an identifier that does not start like a
variable, and then everything in every report can be read again, up to the arguments of Skolem terms
(`Session.call_readable_iff`).

These arguments are universally quantified variables. A quantifier may have any identifier as its
variable, but elsewhere a name that does not start with a lower-case letter is read as a constant.
So the conjunctive normal form and the clauses can be read again exactly if no such variable becomes
an argument; `∀X ∃y P(y)` is a formula for which one does (`Session.call_readable_capital`).
-/

set_option autoImplicit false

namespace LogicForms

open Surface (isIdentifier isVariableName)
open Formula

/-! ### Printed chains -/

/-- Two neighbours can be joined before the others. -/
theorem Text.joinWith_append_cons (separator text next : String) (rest : List String) :
    joinWith separator ((text ++ separator ++ next) :: rest)
      = joinWith separator (text :: next :: rest) := by
  cases rest with
  | nil => rfl
  | cons last rest => simp only [joinWith_cons_cons, String.append_assoc]

namespace Formula

variable {f : Formula} {x : String}

/-- A chain can be written exactly if its members can. -/
theorem forall_isWellFormed_split_iff (op : Connective) (f : Formula) :
    (∀ g ∈ f.split op, g.isWellFormed = true) ↔ f.isWellFormed = true := by
  refine forall_split_iff (fun f g => ?_) f
  rw [isWellFormed_binary, Bool.and_eq_true]

/-- A literal binds more tightly than all connectives. -/
theorem precedence_of_isLiteral (h : f.isLiteral = true) : f.precedence = 99 := by
  cases f with
  | pred | eq | not => rfl
  | binary | quant => simp at h

/-- A literal behind a formula that binds at least as tightly as a disjunction is printed without
parentheses. -/
theorem text_or_of_isLiteral {g : Formula} (hf : Connective.or.precedence ≤ f.precedence)
    (hg : g.isLiteral = true) : (Formula.or f g).text = f.text ++ " ∨ " ++ g.text := by
  have hleft : decide (f.precedence < Connective.or.precedence) = false :=
    decide_eq_false (Nat.not_lt.2 hf)
  have hright : decide (g.precedence ≤ Connective.or.precedence) = false := by
    rw [precedence_of_isLiteral hg]
    decide
  have hsymbol : " " ++ Connective.or.symbol.toString ++ " " = " ∨ " := by decide
  rw [text_binary, hleft, hright, Term.parenthesized_false, Term.parenthesized_false, ← hsymbol]
  simp only [String.append_assoc]

/-- A chain of literals is printed as its members, joined by the symbol of disjunction. -/
theorem text_foldl_or {fs : List Formula} (hf : Connective.or.precedence ≤ f.precedence)
    (hfs : ∀ g ∈ fs, g.isLiteral = true) :
    (fs.foldl Formula.or f).text = Text.joinWith " ∨ " (f.text :: fs.map text) := by
  induction fs generalizing f with
  | nil => rfl
  | cons g fs ih =>
    rw [List.forall_mem_cons] at hfs
    rw [List.foldl_cons, ih (Nat.le_refl _) hfs.2, text_or_of_isLiteral hf hfs.1,
      Text.joinWith_append_cons, List.map_cons]

/-- A chain of literals splits into its members. -/
theorem split_foldl_or {fs : List Formula} (hfs : ∀ g ∈ fs, g.isLiteral = true) :
    (fs.foldl Formula.or f).split .or = f.split .or ++ fs := by
  induction fs generalizing f with
  | nil => rw [List.foldl_nil, List.append_nil]
  | cons g fs ih =>
    rw [List.forall_mem_cons] at hfs
    rw [List.foldl_cons, ih hfs.2, split, if_pos rfl, split_of_isLiteral hfs.1, List.append_assoc,
      List.singleton_append]

/-! ### Reading back -/

/-- The formula is read from its printed form. -/
def ReadsBack (f : Formula) : Prop := ofText f.text = .ok f

theorem readsBack_iff : f.ReadsBack ↔ f.isWellFormed = true :=
  ⟨isWellFormed_of_ofText, ofText_text⟩

/-- The variables at the quantifiers of a formula that can be written are identifiers. -/
theorem isIdentifier_of_mem_quantifiedVars (h : f.isWellFormed = true)
    (hx : x ∈ f.quantifiedVars) : isIdentifier x = true := by
  induction f with
  | pred | eq => exact absurd hx List.not_mem_nil
  | not f ih => exact ih h hx
  | binary op f g ihf ihg =>
    rw [isWellFormed_binary, Bool.and_eq_true] at h
    rcases List.mem_append.1 hx with hx | hx
    · exact ihf h.1 hx
    · exact ihg h.2 hx
  | quant q y f ih =>
    rw [isWellFormed_quant, Bool.and_eq_true] at h
    rcases List.mem_cons.1 hx with rfl | hx
    · exact h.1
    · exact ih h.2 hx

/-- If all universally quantified variables in front are read as variables, so are all arguments. -/
theorem hasReadableArguments_of_universals
    (h : ∀ x ∈ f.leading.universals, isVariableName x = true) : f.HasReadableArguments := by
  intro outer y inner hsplit _ x hx
  refine h x ?_
  rw [hsplit, Prefix.universals_append]
  exact List.mem_append_left _ hx

end Formula

namespace Clause

/-- The literals of the clause are read from its printed form. -/
def ReadsBack (c : Clause) : Prop := ∃ f, Formula.ofText c.text = .ok f ∧ f.split .or = c.literals

/-- **The literals of a clause are read from its printed form exactly if they can be written.** -/
theorem readsBack_iff {c : Clause} (h : c.literals ≠ []) :
    c.ReadsBack ↔ ∀ l ∈ c.literals, l.isWellFormed = true := by
  constructor
  · rintro ⟨f, hread, hsplit⟩
    rw [← hsplit, forall_isWellFormed_split_iff]
    exact isWellFormed_of_ofText hread
  · intro hwritable
    obtain ⟨l, ls, hliterals⟩ := List.exists_cons_of_ne_nil h
    have hliteral := c.isLiteral_of_mem
    rw [hliterals, List.forall_mem_cons] at hwritable hliteral
    have hprecedence : Connective.or.precedence ≤ l.precedence := by
      rw [precedence_of_isLiteral hliteral.1]
      decide
    -- the clause is printed like the chain of its literals, which can be written
    have htext : c.text = (ls.foldl Formula.or l).text := by
      rw [text, hliterals, text_foldl_or hprecedence hliteral.2]
      rfl
    have hchain := Surface.isWellFormed_foldl .or hwritable.1 hwritable.2
    refine ⟨ls.foldl Formula.or l, ?_, ?_⟩
    · rw [htext]
      exact ofText_text hchain
    · rw [split_foldl_or hliteral.2, split_of_isLiteral hliteral.1, hliterals]
      rfl

end Clause

/-! ### Results of a run -/

namespace Report

/-- The formulas without Skolem terms are read from their printed forms. So are the conjunctive
normal form and the literals of all clauses, exactly if all arguments of Skolem terms are read as
variables. -/
structure IsReadable (report : Report) : Prop where
  input : report.input.result.ReadsBack
  nnf : report.nnf.result.ReadsBack
  prenex : report.prenex.result.ReadsBack
  dnf : report.dnf.result.ReadsBack
  cnf : report.cnf.result.ReadsBack ↔ report.prenex.result.HasReadableArguments
  clausal : (∀ c ∈ report.clausal.result, c.ReadsBack) ↔
    report.prenex.result.HasReadableArguments

namespace IsFor

variable {o : Options} {text : String} {report : Report}

theorem isWellFormed_nnf (h : report.IsFor o text) : report.nnf.result.isWellFormed = true := by
  have hcollected := isCollected_isWellFormed
  rw [h.nnf, hcollected.nnf_iff, hcollected.expandArrows_iff]
  exact isWellFormed_of_ofText h.input

theorem isWellFormed_prenex (h : report.IsFor o text) :
    report.prenex.result.isWellFormed = true := by
  obtain ⟨p, m, hextracts, hprenex⟩ := h.prenex
  rw [hprenex]
  exact hextracts.isWellFormed (isWellFormed_standardizeApart _ h.isWellFormed_nnf)

theorem isWellFormed_dnf (h : report.IsFor o text) : report.dnf.result.isWellFormed = true :=
  (NormalForm.ofPrenex_collected_iff isCollected_isWellFormed h.dnf).2 h.isWellFormed_prenex

/-- The conjunctive normal form can be written exactly if the Skolem form can. -/
theorem isWellFormed_cnf_iff_skolemize (h : report.IsFor o text) :
    report.cnf.result.isWellFormed = true ↔
      (report.prenex.result.skolemize (report.namesApart o)).1.isWellFormed = true :=
  NormalForm.ofPrenex_collected_iff isCollected_isWellFormed h.cnf

theorem isWellFormed_cnf_iff (h : report.IsFor o text)
    (hbegin : (Term.const o.skolemPrefix).isWellFormed = true) :
    report.cnf.result.isWellFormed = true ↔ report.prenex.result.HasReadableArguments := by
  rw [h.isWellFormed_cnf_iff_skolemize]
  refine isWellFormed_skolemize_iff ?_ h.nodup_quantifiedVars_prenex h.isWellFormed_prenex
  rw [namesApart, standardizeApart_skolemPrefix]
  exact hbegin

/-- The universal quantifiers in front of the conjunctive normal form can be written in any case. -/
theorem isWellFormed_withoutUniversals_cnf_iff (h : report.IsFor o text) :
    report.cnf.result.withoutUniversals.isWellFormed = true ↔
      report.cnf.result.isWellFormed = true := by
  obtain ⟨xs, hcnf⟩ := report.cnf.result.exists_quantify_withoutUniversals
  conv_rhs => rw [hcnf, isWellFormed_quantify, List.forall_mem_map]
  refine ⟨fun hmatrix => ⟨fun x hx => ?_, hmatrix⟩, And.right⟩
  -- they come from the prenex form
  refine isIdentifier_of_mem_quantifiedVars h.isWellFormed_prenex (h.quantifiedVars_cnf_subset ?_)
  rw [hcnf, quantifiedVars_quantify, List.map_map]
  exact List.mem_append_left _ (List.mem_map.2 ⟨x, hx, rfl⟩)

/-- The clauses can be read again exactly if the conjunctive normal form can be written. -/
theorem forall_readsBack_iff (h : report.IsFor o text) :
    (∀ c ∈ report.clausal.result, c.ReadsBack) ↔ report.cnf.result.isWellFormed = true := by
  calc (∀ c ∈ report.clausal.result, c.ReadsBack)
      ↔ ∀ c ∈ report.clausal.result, ∀ l ∈ c.literals, l.isWellFormed = true :=
        forall₂_congr fun c hc => Clause.readsBack_iff ((ne_nil_of_clausalForm h.clausal).2 c hc)
    _ ↔ ∀ row ∈ report.clausal.result.map Clause.literals, ∀ l ∈ row, l.isWellFormed = true := by
        rw [List.forall_mem_map]
    _ ↔ ∀ g ∈ report.cnf.result.withoutUniversals.split .and,
          ∀ l ∈ g.split .or, l.isWellFormed = true := by
        rw [map_literals_clausalForm h.clausal, List.forall_mem_map]
    _ ↔ ∀ g ∈ report.cnf.result.withoutUniversals.split .and, g.isWellFormed = true :=
        forall₂_congr fun g _ => forall_isWellFormed_split_iff .or g
    _ ↔ report.cnf.result.withoutUniversals.isWellFormed = true :=
        forall_isWellFormed_split_iff .and _
    _ ↔ report.cnf.result.isWellFormed = true := h.isWellFormed_withoutUniversals_cnf_iff

theorem isReadable (h : report.IsFor o text)
    (hbegin : (Term.const o.skolemPrefix).isWellFormed = true) : report.IsReadable where
  input := readsBack_iff.2 (isWellFormed_of_ofText h.input)
  nnf := readsBack_iff.2 h.isWellFormed_nnf
  prenex := readsBack_iff.2 h.isWellFormed_prenex
  dnf := readsBack_iff.2 h.isWellFormed_dnf
  cnf := readsBack_iff.trans (h.isWellFormed_cnf_iff hbegin)
  clausal := h.forall_readsBack_iff.trans (h.isWellFormed_cnf_iff hbegin)

end IsFor

end Report

/-! ### Beginnings of Skolem symbols -/

namespace Session

/-- The formula `∃x P(x)`, for which a run draws a single Skolem constant. -/
def constantFormula : Formula := .ex "x" (.pred "P" [.var "x"])

theorem ofText_constantFormula : Formula.ofText "∃x P(x)" = .ok constantFormula := by cbv

/-- There is nothing to rename in the formula. -/
theorem standardizeApart_constantFormula (names : NameSupply) :
    constantFormula.standardizeApart names
      = (constantFormula, names.declare constantFormula.symbols) := by
  have hfree : constantFormula.freeVars = [] := by decide
  rw [standardizeApart, hfree, constantFormula]
  simp [renameApart]

/-- The formula is in prenex form. -/
theorem prenex_of_isFor {o : Options} {report : Report} (h : report.IsFor o "∃x P(x)") :
    report.prenex.result = constantFormula := by
  have hinput : constantFormula = report.input.result :=
    Except.ok.inj (ofText_constantFormula.symm.trans h.input)
  have hnnf : report.nnf.result = constantFormula := by
    rw [h.nnf, ← hinput]
    rfl
  obtain ⟨p, m, hextracts, hprenex⟩ := h.prenex
  rw [hnnf, standardizeApart_constantFormula] at hextracts
  cases extract_eq_ok_iff.2 hextracts
  exact hprenex

/-- A run on the formula gives a report if there are two units for each distribution. -/
theorem exists_report (o : Options) (hbudget : 1 < o.budget) :
    ∃ report, Report.ofText o "∃x P(x)" = .ok report := by
  obtain ⟨prenex, hprenex, hends⟩ := Report.outcome_ofText o ofText_constantFormula
  have hsame : (Report.prenexOf o constantFormula).1 = .ok constantFormula := by
    have hnnf : constantFormula.expandArrows.nnf false = constantFormula := rfl
    rw [Report.prenexOf, hnnf, Formula.prenex, if_pos rfl, standardizeApart_constantFormula]
    rfl
  obtain rfl : constantFormula = prenex := Except.ok.inj (hsame.symm.trans hprenex)
  -- both matrices are atoms, which take one call
  have hcnf : NormalForm.conjunctive.Fits
      (constantFormula.skolemize (Report.prenexOf o constantFormula).2).1 o.budget :=
    ⟨_, 1, .literal rfl, hbudget⟩
  have hdnf : NormalForm.disjunctive.Fits constantFormula o.budget := ⟨_, 1, .literal rfl, hbudget⟩
  exact hends.exists_report hcnf hdnf

/-- If the conjunctive normal form of the formula can be read again, so can constants that begin
like its Skolem constant. -/
theorem isWellFormed_skolemPrefix {o : Options} {report : Report}
    (h : report.IsFor o "∃x P(x)") (hcnf : report.cnf.result.ReadsBack) :
    (Term.const o.skolemPrefix).isWellFormed = true := by
  have hskolem := h.isWellFormed_cnf_iff_skolemize.1 (readsBack_iff.1 hcnf)
  rw [prenex_of_isFor h] at hskolem
  -- the Skolem form is `P(c)` for a fresh symbol `c`
  let names := (report.namesApart o).declare constantFormula.symbols
  have hform : (constantFormula.skolemize (report.namesApart o)).1
      = .pred "P" [.const names.freshSkolem.1] := rfl
  rw [hform, isWellFormed_pred, Bool.and_eq_true, Term.areWellFormed_iff,
    List.forall_mem_singleton] at hskolem
  have hbegin : names.skolemPrefix = o.skolemPrefix := standardizeApart_skolemPrefix _ _
  have hne : names.skolemPrefix ≠ "" := hbegin ▸ o.skolemPrefix_ne
  rw [← hbegin, ← names.isWellFormed_freshSkolem hne]
  exact hskolem.2

/-- **Exactly the beginnings of Skolem symbols that are identifiers and do not start like variables
keep reports readable**, up to arguments of Skolem terms that are not read as variables: whatever
text is given, whatever the other options are and whatever the session has done before, all formulas
in the report and all clauses are read from their printed forms, the conjunctive normal form and the
clauses exactly if all these arguments are read as variables. -/
theorem call_readable_iff {p : String} (hp : p ≠ "") :
    (isIdentifier p = true ∧ isVariableName p = false) ↔
      ∀ (s : Session) (text : String) (settings : List Setting) (o : Options) (report : Report),
        s.options.update settings = .ok o → o.skolemPrefix = p →
          (s.call text settings).result = .ok report → report.IsReadable := by
  have hconst : (Term.const p).isWellFormed = true ↔
      isIdentifier p = true ∧ isVariableName p = false := by simp
  rw [← hconst]
  constructor
  · intro hbegin s text settings o report ho hop h
    obtain ⟨o', ho', hreport⟩ := isFor_of_call h
    obtain rfl : o = o' := Except.ok.inj (ho.symm.trans ho')
    subst hop
    exact hreport.isReadable hbegin
  · intro hall
    let o : Options := { Options.standard with skolemPrefix := p, skolemPrefix_ne := hp }
    have hbudget : 1 < Budget.standardLimit := by decide
    obtain ⟨report, hreport⟩ := exists_report o hbudget
    have hlimit : o.recursionLimit ≤ Options.highestRecursionLimit :=
      Options.recursionLimit_standard_le
    have hcall : ((ofOptions o).call "∃x P(x)" []).result = .ok report := by
      rw [call_result_of_le hlimit, hreport]
    have hreadable := hall (ofOptions o) _ [] o report (Options.update_nil o) rfl hcall
    have hisFor := Report.isFor_of_ofText hreport
    -- no universal quantifier stands in front, so that there are no arguments
    have harguments : report.prenex.result.HasReadableArguments := by
      refine hasReadableArguments_of_universals ?_
      rw [prenex_of_isFor hisFor]
      exact List.forall_mem_nil _
    exact isWellFormed_skolemPrefix hisFor (hreadable.cnf.2 harguments)

theorem call_readable_sample :
    (isIdentifier "SK" = true ∧ isVariableName "SK" = false) ∧
      ((ofOptions Options.standard).call "∃x ∀y R(x, y) → ∃y Q(y, z)" []).result
        = .ok sampleReport ∧
      sampleReport.IsReadable ∧ sampleReport.cnf.result.ReadsBack := by
  have hbegin : isIdentifier "SK" = true ∧ isVariableName "SK" = false := by decide
  have hreadable : sampleReport.IsReadable :=
    (call_readable_iff (by decide)).1 hbegin (ofOptions Options.standard) _ [] Options.standard _
      (Options.update_nil _) rfl call_sample
  have harguments : sampleReport.prenex.result.HasReadableArguments :=
    hasReadableArguments_of_universals (by decide)
  exact ⟨hbegin, call_sample, hreadable, hreadable.cnf.2 harguments⟩

/-- The report on `∀X ∃y P(y)`, where the variable `X` becomes an argument of a Skolem term. -/
def capitalReport : Report :=
  let input : Formula := .all "X" (.ex "y" (.pred "P" [.var "y"]))
  let atom : Formula := .pred "P" [.func "SK1" [.var "X"]]
  .ofResults input input input (.all "X" atom) input [⟨[atom], by decide⟩]

/-- A beginning of Skolem symbols that is an identifier and does not start like a variable does not
suffice: the Skolem term `SK1(X)` in the report on `∀X ∃y P(y)` is read as one with a constant. -/
theorem call_readable_capital :
    (isIdentifier "SK" = true ∧ isVariableName "SK" = false) ∧
      Options.standard.skolemPrefix = "SK" ∧
      ((ofOptions Options.standard).call "∀X ∃y P(y)" []).result = .ok capitalReport ∧
      ¬ capitalReport.cnf.result.ReadsBack := by
  refine ⟨by decide, rfl, ?_, ?_⟩
  · rw [call_result]
    cbv
  · rw [readsBack_iff]
    decide

end Session

end LogicForms
