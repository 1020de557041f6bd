import LogicForms.Proofs.FreeVariables
import LogicForms.Proofs.Meaning

/-!
# Variables in reports

All formulas in a report have the free variables of the formula that was read. From the prenex form
on, no variable is quantified twice, none of those quantified occurs free, and all quantifiers are
in front: those of the prenex form in the disjunctive normal form, and the universal ones among them
in the conjunctive normal form (`Session.call_variables`).

Renaming apart starts this: it keeps the free variables, and it is the reason why moving quantifiers
to the front and Skolem terms capture nothing.
-/

set_option autoImplicit false

namespace LogicForms

open Formula

namespace Report.IsFor

variable {o : Options} {text : String} {report : Report} {x : String}

/-! ### Free variables -/

theorem mem_freeVars_nnf (h : report.IsFor o text) :
    x ∈ report.nnf.result.freeVars ↔ x ∈ report.input.result.freeVars := by
  have hcollected := isCollected_mem_freeVars x
  rw [h.nnf]
  exact (hcollected.nnf_iff _ false).trans (hcollected.expandArrows_iff _)

theorem mem_freeVars_prenex (h : report.IsFor o text) :
    x ∈ report.prenex.result.freeVars ↔ x ∈ report.input.result.freeVars := by
  obtain ⟨p, m, hextracts, hprenex⟩ := h.prenex
  have halpha := report.nnf.result.alphaEquivalent_standardizeApart (NameSupply.new o.skolemPrefix)
  rw [hprenex, hextracts.mem_freeVars_quantify fun _ => not_mem_freeVars_standardizeApart,
    ← halpha.freeVars_eq]
  exact h.mem_freeVars_nnf

theorem mem_freeVars_dnf (h : report.IsFor o text) :
    x ∈ report.dnf.result.freeVars ↔ x ∈ report.input.result.freeVars :=
  (NormalForm.ofPrenex_collected_iff (isCollected_mem_freeVars x) h.dnf).trans
    h.mem_freeVars_prenex

theorem mem_freeVars_cnf (h : report.IsFor o text) :
    x ∈ report.cnf.result.freeVars ↔ x ∈ report.input.result.freeVars := by
  have hskolem := mem_freeVars_skolemize (x := x) h.nodup_quantifiedVars_prenex
    (report.namesApart o)
  exact (NormalForm.ofPrenex_collected_iff (isCollected_mem_freeVars x) h.cnf).trans
    (hskolem.trans h.mem_freeVars_prenex)

/-! ### Quantifiers -/

/-- The prenex form is a combination of literals behind its quantifiers. -/
theorem exists_matrix_prenex (h : report.IsFor o text) :
    ∃ m : Formula, m.IsCombination ∧ m.isQuantifierFree = true ∧
      report.prenex.result = m.quantify report.prenex.result.leading := by
  obtain ⟨p, m, hextracts, hprenex⟩ := h.prenex
  have hm := hextracts.isCombination
  rw [hprenex, (matrix_quantify hm.isQuantified_eq p).2]
  exact ⟨m, hm, m.isQuantifierFree_iff.2 hextracts.quantifiedVars_matrix, rfl⟩

/-- No variable is bound twice in front of the prenex form. -/
theorem nodup_leading_prenex (h : report.IsFor o text) :
    (report.prenex.result.leading.map Binder.var).Nodup := by
  obtain ⟨m, -, -, hprenex⟩ := h.exists_matrix_prenex
  have hnodup := h.nodup_quantifiedVars_prenex
  rw [hprenex, quantifiedVars_quantify, List.nodup_append] at hnodup
  exact hnodup.1

/-- The conjunctive normal form has the universal quantifiers of the prenex form in front of a
formula without quantifiers. -/
theorem exists_matrix_cnf (h : report.IsFor o text) :
    ∃ m : Formula, m.isQuantifierFree = true ∧ report.cnf.result
      = m.quantify (report.prenex.result.leading.filter Binder.isUniversal) := by
  obtain ⟨m, hm, -, hprenex⟩ := h.exists_matrix_prenex
  obtain ⟨m', hm', hskolem⟩ := exists_skolemize hm report.prenex.result.leading
    (report.namesApart o)
  obtain ⟨k, hk, hcnf⟩ := NormalForm.exists_matrix_ofPrenex h.cnf
  rw [← hprenex, Prefix.map_universals] at hskolem
  refine ⟨k, hk, ?_⟩
  rw [hcnf, hskolem, (matrix_quantify hm'.isQuantified_eq _).2]

theorem isHygienicPrenex_prenex (h : report.IsFor o text) :
    report.prenex.result.IsHygienicPrenex := by
  obtain ⟨m, -, hm, hprenex⟩ := h.exists_matrix_prenex
  rw [hprenex]
  exact isHygienicPrenex_quantify hm h.nodup_leading_prenex

theorem isHygienicPrenex_dnf (h : report.IsFor o text) :
    report.dnf.result.IsHygienicPrenex := by
  obtain ⟨m, hm, hdnf⟩ := NormalForm.exists_matrix_ofPrenex h.dnf
  rw [hdnf]
  exact isHygienicPrenex_quantify hm h.nodup_leading_prenex

theorem isHygienicPrenex_cnf (h : report.IsFor o text) :
    report.cnf.result.IsHygienicPrenex := by
  obtain ⟨m, hm, hcnf⟩ := h.exists_matrix_cnf
  rw [hcnf]
  refine isHygienicPrenex_quantify hm (h.nodup_leading_prenex.sublist ?_)
  exact List.filter_sublist.map Binder.var

/-- Only variables of the prenex form are quantified in the conjunctive normal form. -/
theorem quantifiedVars_cnf_subset (h : report.IsFor o text) :
    report.cnf.result.quantifiedVars ⊆ report.prenex.result.quantifiedVars := by
  obtain ⟨m, -, -, hprenex⟩ := h.exists_matrix_prenex
  obtain ⟨k, hk, hcnf⟩ := h.exists_matrix_cnf
  rw [hcnf, quantifiedVars_quantify, k.isQuantifierFree_iff.1 hk, List.append_nil, hprenex,
    quantifiedVars_quantify, ← hprenex]
  intro x hx
  obtain ⟨b, hb, rfl⟩ := List.mem_map.1 hx
  exact List.mem_append_left _ (List.mem_map_of_mem (List.mem_filter.1 hb).1)

/-- The disjunctive normal form has the quantifiers of the prenex form. -/
theorem leading_dnf (h : report.IsFor o text) :
    report.dnf.result.leading = report.prenex.result.leading := by
  obtain ⟨m, hm, hdnf⟩ := NormalForm.exists_matrix_ofPrenex h.dnf
  rw [hdnf]
  exact (matrix_quantify (isQuantified_of_isQuantifierFree hm) _).2

/-- The conjunctive normal form has the universal quantifiers of the prenex form. -/
theorem leading_cnf (h : report.IsFor o text) :
    report.cnf.result.leading = report.prenex.result.leading.filter Binder.isUniversal := by
  obtain ⟨m, hm, hcnf⟩ := h.exists_matrix_cnf
  rw [hcnf]
  exact (matrix_quantify (isQuantified_of_isQuantifierFree hm) _).2

end Report.IsFor

namespace Session

/-- **Variables stay in order through a call.** No derivation gains or loses a free variable; where
quantifiers are in front, they bind pairwise different variables that do not occur free, and stand
in the order of the prenex form, without the existential ones in the conjunctive normal form. -/
theorem call_variables {s : Session} {text : String} {settings : List Setting} {report : Report}
    (h : (s.call text settings).result = .ok report) :
    (∀ g ∈ [report.nnf.result, report.prenex.result, report.cnf.result, report.dnf.result],
        ∀ x, x ∈ g.freeVars ↔ x ∈ report.input.result.freeVars) ∧
      (∀ g ∈ [report.prenex.result, report.cnf.result, report.dnf.result],
        g.IsHygienicPrenex) ∧
      report.dnf.result.leading = report.prenex.result.leading ∧
      report.cnf.result.leading = report.prenex.result.leading.filter Binder.isUniversal := by
  obtain ⟨o, -, hreport⟩ := isFor_of_call h
  refine ⟨?_, ?_, hreport.leading_dnf, hreport.leading_cnf⟩
  · simp only [List.forall_mem_cons]
    exact ⟨fun _ => hreport.mem_freeVars_nnf, fun _ => hreport.mem_freeVars_prenex,
      fun _ => hreport.mem_freeVars_cnf, fun _ => hreport.mem_freeVars_dnf, by simp⟩
  · simp only [List.forall_mem_cons]
    exact ⟨hreport.isHygienicPrenex_prenex, hreport.isHygienicPrenex_cnf,
      hreport.isHygienicPrenex_dnf, by simp⟩

theorem call_variables_sample :
    ((ofOptions Options.standard).call "∃x ∀y R(x, y) → ∃y Q(y, z)" []).result
        = .ok sampleReport ∧
      sampleReport.input.result.freeVars = ["z"] ∧
      (∀ x, x ∈ sampleReport.cnf.result.freeVars ↔ x ∈ sampleReport.input.result.freeVars) ∧
      sampleReport.cnf.result.IsHygienicPrenex ∧
      sampleReport.cnf.result.leading
        = sampleReport.prenex.result.leading.filter Binder.isUniversal := by
  have hvariables := call_variables call_sample
  exact ⟨call_sample, by decide, hvariables.1 _ (by simp), hvariables.2.1 _ (by simp),
    hvariables.2.2.2⟩

end Session

end LogicForms
