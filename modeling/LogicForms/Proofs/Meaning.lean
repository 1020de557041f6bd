import Mathlib
import LogicForms.Proofs.Calls
import LogicForms.Proofs.Distribution
import LogicForms.Proofs.Renaming
import LogicForms.Proofs.Skolem

/-!
# What reports mean

Every derivation of a report except for the conjunctive normal form is equivalent to the formula
that was read (`Session.call_equivalent`). Renaming apart is what makes this work: it leaves
quantifiers with variables of their own, and only then may they be moved to the front.

The conjunctive normal form is a conservative extension of the formula
(`Session.call_conservative`). It implies the formula, and where the formula is true it can be made
true by interpreting the Skolem symbols of the run, which are not among the names of the formula.
-/

set_option autoImplicit false

namespace LogicForms

open Formula

universe u

namespace Report

/-- The Skolem symbols of a run: those that it draws for the existential quantifiers of the prenex
form, from the outermost to the innermost one. -/
def skolemSymbols (report : Report) (o : Options) : List String :=
  report.prenex.result.skolemSymbols (report.namesApart o)

namespace IsFor

variable {o : Options} {text : String} {report : Report}

/-! ### Equivalent results -/

/-- The negation normal form is equivalent to the formula that was read. -/
theorem nnf_equivalent (h : report.IsFor o text) :
    Equivalent.{u} report.nnf.result report.input.result := by
  intro D _ M v
  rw [h.nnf]
  exact (holds_nnf M _ false v).trans (holds_expandArrows M _ v)

/-- The prenex form is equivalent to the negation normal form. -/
theorem prenex_equivalent (h : report.IsFor o text) :
    Equivalent.{u} report.prenex.result report.nnf.result := by
  intro D _ M v
  obtain ⟨p, m, hextracts, hprenex⟩ := h.prenex
  have halpha := report.nnf.result.alphaEquivalent_standardizeApart (NameSupply.new o.skolemPrefix)
  rw [hprenex, halpha.equivalent D M v]
  exact hextracts.holds_quantify M (nodup_quantifiedVars_standardizeApart _ _)
    (fun _ => not_mem_freeVars_standardizeApart) v

/-- The disjunctive normal form is equivalent to the prenex form. -/
theorem dnf_equivalent (h : report.IsFor o text) :
    Equivalent.{u} report.dnf.result report.prenex.result :=
  fun _ _ M v => NormalForm.holds_ofPrenex M h.dnf v

/-! ### Names -/

/-- No variable is quantified twice in the prenex form. -/
theorem nodup_quantifiedVars_prenex (h : report.IsFor o text) :
    report.prenex.result.quantifiedVars.Nodup := by
  obtain ⟨p, m, hextracts, hprenex⟩ := h.prenex
  rw [hprenex, quantifiedVars_quantify, hextracts.quantifiedVars_matrix, List.append_nil,
    ← hextracts.quantifiedVars_eq]
  exact nodup_quantifiedVars_standardizeApart _ _

/-- All names of the formula that was read are in use when the Skolem form is computed. -/
theorem mem_used_of_mem_symbols (h : report.IsFor o text) {c : String}
    (hc : c ∈ report.input.result.symbols) : c ∈ (report.namesApart o).used := by
  obtain ⟨s, hs, hnames⟩ := report.nnf.result.standardizeApart_spec (NameSupply.new o.skolemPrefix)
  rw [namesApart, hnames]
  refine hs.used (NameSupply.mem_addNames.2 (Or.inr ?_))
  rw [h.nnf, mem_symbols_nnf, mem_symbols_expandArrows]
  exact hc

/-- No Skolem symbol of the run is a name of the formula that was read. -/
theorem skolemSymbols_new (h : report.IsFor o text) {c : String}
    (hc : c ∈ report.skolemSymbols o) : c ∉ report.input.result.symbols := by
  intro hmem
  exact (Formula.skolemSymbols_new hc).1 (h.mem_used_of_mem_symbols hmem)

/-! ### The conjunctive normal form -/

variable {D : Type u} [Nonempty D] (M : Structure D) {v : Valuation D}

/-- The formula that was read follows from the conjunctive normal form. -/
theorem holds_of_cnf (h : report.IsFor o text) (hcnf : report.cnf.result.Holds M v) :
    report.input.result.Holds M v := by
  have hskolem := (NormalForm.holds_ofPrenex M h.cnf v).1 hcnf
  have hprenex :=
    holds_of_skolemize M (skolemizable_leading h.nodup_quantifiedVars_prenex _) hskolem
  exact (h.nnf_equivalent D M v).1 ((h.prenex_equivalent D M v).1 hprenex)

/-- Where the formula that was read is true, the conjunctive normal form is true for some
interpretation of the Skolem symbols. -/
theorem exists_holds_cnf (h : report.IsFor o text) (hinput : report.input.result.Holds M v) :
    ∃ N, M.AgreesOutside (report.skolemSymbols o) N ∧ report.cnf.result.Holds N v := by
  have hprenex := (h.prenex_equivalent D M v).2 ((h.nnf_equivalent D M v).2 hinput)
  -- only the Skolem form needs another structure; distributing keeps the truth value in it
  obtain ⟨N, hN, hskolem⟩ :=
    exists_holds_skolemize M (skolemizable_leading h.nodup_quantifiedVars_prenex _) hprenex
  exact ⟨N, hN, (NormalForm.holds_ofPrenex N h.cnf v).2 hskolem⟩

end IsFor

end Report

namespace Session

/-- The report on `∃x ∀y R(x, y) → ∃y Q(y, z)`, where the second quantifier of `y` gets a variable
of its own, and each of the two existential quantifiers its Skolem symbol. -/
def sampleReport : Report :=
  let input : Formula := .implies (.ex "x" (.all "y" (.pred "R" [.var "x", .var "y"])))
    (.ex "y" (.pred "Q" [.var "y", .var "z"]))
  let nnf : Formula := .or (.all "x" (.ex "y" (.not (.pred "R" [.var "x", .var "y"]))))
    (.ex "y" (.pred "Q" [.var "y", .var "z"]))
  let prenex : Formula := .all "x" (.ex "y" (.ex "y_1"
    (.or (.not (.pred "R" [.var "x", .var "y"])) (.pred "Q" [.var "y_1", .var "z"]))))
  let lhs : Formula := .not (.pred "R" [.var "x", .func "SK1" [.var "x"]])
  let rhs : Formula := .pred "Q" [.func "SK2" [.var "x"], .var "z"]
  .ofResults input nnf prenex (.all "x" (.or lhs rhs)) prenex [⟨[lhs, rhs], by decide⟩]

theorem call_sample :
    ((ofOptions Options.standard).call "∃x ∀y R(x, y) → ∃y Q(y, z)" []).result
      = .ok sampleReport := by
  rw [call_result]
  cbv

/-- A call keeps the meaning: whatever the session has done before and whatever options are set,
the negation normal form, the prenex form and the disjunctive normal form in its report are
equivalent to the formula that was read. -/
theorem call_equivalent {s : Session} {text : String} {settings : List Setting} {report : Report}
    (h : (s.call text settings).result = .ok report) :
    Formula.ofText text = .ok report.input.result ∧
      Equivalent.{u} report.nnf.result report.input.result ∧
      Equivalent.{u} report.prenex.result report.input.result ∧
      Equivalent.{u} report.dnf.result report.input.result := by
  obtain ⟨o, -, hreport⟩ := isFor_of_call h
  have hnnf := hreport.nnf_equivalent
  have hprenex := hreport.prenex_equivalent.trans hnnf
  exact ⟨hreport.input, hnnf, hprenex, hreport.dnf_equivalent.trans hprenex⟩

theorem call_equivalent_sample :
    ((ofOptions Options.standard).call "∃x ∀y R(x, y) → ∃y Q(y, z)" []).result
        = .ok sampleReport ∧
      Equivalent.{u} sampleReport.nnf.result sampleReport.input.result ∧
      Equivalent.{u} sampleReport.prenex.result sampleReport.input.result ∧
      Equivalent.{u} sampleReport.dnf.result sampleReport.input.result :=
  ⟨call_sample, (call_equivalent call_sample).2⟩

/-- The conjunctive normal form in the report of a call is a conservative extension of the formula
that was read, by the Skolem symbols of the run. These are pairwise different, and no names of the
formula. -/
theorem call_conservative {s : Session} {text : String} {settings : List Setting} {o : Options}
    {report : Report} (ho : s.options.update settings = .ok o)
    (h : (s.call text settings).result = .ok report) :
    Formula.ofText text = .ok report.input.result ∧
      (report.skolemSymbols o).Nodup ∧
      (∀ c ∈ report.skolemSymbols o, c ∉ report.input.result.symbols) ∧
      ∀ (D : Type u) [Nonempty D] (M : Structure D) (v : Valuation D),
        (report.cnf.result.Holds M v → report.input.result.Holds M v) ∧
          (report.input.result.Holds M v →
            ∃ N, M.AgreesOutside (report.skolemSymbols o) N ∧ report.cnf.result.Holds N v) := by
  obtain ⟨o', ho', hreport⟩ := isFor_of_call h
  obtain rfl : o = o' := Except.ok.inj (ho.symm.trans ho')
  refine ⟨hreport.input, nodup_skolemSymbols _ _, fun c => hreport.skolemSymbols_new, ?_⟩
  intro D _ M v
  exact ⟨hreport.holds_of_cnf M, hreport.exists_holds_cnf M⟩

theorem call_conservative_sample :
    ((ofOptions Options.standard).call "∃x ∀y R(x, y) → ∃y Q(y, z)" []).result
        = .ok sampleReport ∧
      sampleReport.skolemSymbols Options.standard = ["SK1", "SK2"] ∧
      ∀ (D : Type u) [Nonempty D] (M : Structure D) (v : Valuation D),
        (sampleReport.cnf.result.Holds M v → sampleReport.input.result.Holds M v) ∧
          (sampleReport.input.result.Holds M v → ∃ N,
            M.AgreesOutside (sampleReport.skolemSymbols Options.standard) N ∧
              sampleReport.cnf.result.Holds N v) := by
  have hsymbols : sampleReport.skolemSymbols Options.standard = ["SK1", "SK2"] := by cbv
  have hoptions : (ofOptions Options.standard).options.update [] = .ok Options.standard :=
    Options.update_nil Options.standard
  exact ⟨call_sample, hsymbols, (call_conservative hoptions call_sample).2.2.2⟩

end Session

end LogicForms
