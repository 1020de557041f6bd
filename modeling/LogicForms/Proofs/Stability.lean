import LogicForms.Proofs.FreeVariables
import LogicForms.Proofs.Polarity
import LogicForms.Proofs.Renaming

/-!
# What renaming apart and prenex forms leave alone

Renaming apart gives a quantifier another variable only where this is needed: if no variable is
quantified twice and none of those quantified occurs free, nothing is renamed and no fresh name is
drawn (`renameApart_eq_self`), and for no other formula (`standardizeApart_eq_self_iff`).

The formulas that are their own prenex form are those in negation normal form with all quantifiers
in front, for pairwise different variables that do not occur free (`prenex_eq_self_iff`). Each of
the three passes leaves such a formula alone. As every prenex form is one, taking it twice gives the
same as taking it once, whatever names are in use the second time.
-/

set_option autoImplicit false

namespace LogicForms.Formula

variable {f g m : Formula} {p : Prefix}

/-! ### Renaming apart -/

/-- If no variable is quantified twice and none of those quantified is taken, every quantifier keeps
its variable. The variables are taken one after the other, and no name is drawn. -/
theorem renameApart_eq_self {s : Avoiding} (hnodup : f.quantifiedVars.Nodup)
    (htaken : ∀ x ∈ f.quantifiedVars, x ∉ s.taken) :
    f.renameApart s = (f, ⟨f.quantifiedVars.reverse ++ s.taken, s.names⟩) := by
  induction f generalizing s with
  | pred p args => rw [renameApart]; rfl
  | eq t u => rw [renameApart]; rfl
  | not f ih =>
    rw [renameApart, ih hnodup htaken]
    rfl
  | binary op f g ihf ihg =>
    rw [quantifiedVars_binary, List.nodup_append] at hnodup
    obtain ⟨hnf, hng, hdisjoint⟩ := hnodup
    rw [quantifiedVars_binary, List.forall_mem_append] at htaken
    -- what is taken on the left is not quantified on the right
    have hright : ∀ x ∈ g.quantifiedVars, x ∉ f.quantifiedVars.reverse ++ s.taken := by
      intro x hx hmem
      rcases List.mem_append.1 hmem with hmem | hmem
      · exact hdisjoint x (List.mem_reverse.1 hmem) x hx rfl
      · exact htaken.2 x hx hmem
    have hg : g.renameApart ⟨f.quantifiedVars.reverse ++ s.taken, s.names⟩ = _ := ihg hng hright
    rw [renameApart, ihf hnf htaken.1]
    simp only [hg]
    rw [quantifiedVars_binary, List.reverse_append, List.append_assoc]
  | quant q x f ih =>
    rw [quantifiedVars_quant, List.nodup_cons] at hnodup
    rw [quantifiedVars_quant, List.forall_mem_cons] at htaken
    have hscope : ∀ y ∈ f.quantifiedVars, y ∉ x :: s.taken := by
      intro y hy hmem
      rcases List.mem_cons.1 hmem with rfl | hmem
      · exact hnodup.1 hy
      · exact htaken.2 y hy hmem
    rw [renameApart, if_neg (by simpa using htaken.1), ih hnodup.2 hscope]
    simp

/-- With quantifiers that bind variables of their own, a formula stays as it is, and its names are
marked as used. -/
theorem standardizeApart_eq_self (hnodup : f.quantifiedVars.Nodup)
    (hfree : ∀ x ∈ f.quantifiedVars, x ∉ f.freeVars) (names : NameSupply) :
    f.standardizeApart names = (f, names.declare f.symbols) := by
  rw [standardizeApart, renameApart_eq_self hnodup hfree]

/-- **Exactly the formulas whose quantifiers bind variables of their own stay as they are.** -/
theorem standardizeApart_eq_self_iff {names : NameSupply} :
    (f.standardizeApart names).1 = f ↔
      f.quantifiedVars.Nodup ∧ ∀ x ∈ f.quantifiedVars, x ∉ f.freeVars := by
  constructor
  · intro h
    rw [← h]
    exact ⟨nodup_quantifiedVars_standardizeApart f names,
      fun _ => not_mem_freeVars_standardizeApart⟩
  · rintro ⟨hnodup, hfree⟩
    rw [standardizeApart_eq_self hnodup hfree]

/-! ### Quantifiers in front -/

/-- Quantifiers in front keep a negation normal form, and make none. -/
theorem isNnf_quantify (f : Formula) (p : Prefix) : (f.quantify p).isNnf = f.isNnf := by
  induction p with
  | nil => rfl
  | cons b p ih => exact ih

/-- From a combination of literals there is nothing to extract. -/
theorem IsCombination.extracts (h : m.IsCombination) : m.Extracts [] m := by
  induction h with
  | literal h => exact .literal h
  | binary hop _ _ ihf ihg => exact .binary hop ihf ihg

/-- From behind a prefix, the prefix is extracted as well. -/
theorem Extracts.quantify (h : f.Extracts p m) (p' : Prefix) :
    (f.quantify p').Extracts (p' ++ p) m := by
  induction p' with
  | nil => exact h
  | cons b p' ih => exact .quant b.quantifier b.var ih

/-- What is moved to the front is what is extracted. -/
theorem withQuantifiersInFront_eq_ok_iff :
    f.withQuantifiersInFront = .ok g ↔ ∃ p m, f.Extracts p m ∧ g = m.quantify p := by
  rw [withQuantifiersInFront, bind_eq_ok]
  constructor
  · rintro ⟨⟨p, m⟩, hextract, ⟨⟩⟩
    exact ⟨p, m, extracts_of_extract hextract, rfl⟩
  · rintro ⟨p, m, hextracts, rfl⟩
    exact ⟨(p, m), extract_eq_ok_iff.2 hextracts, rfl⟩

/-- A formula with all quantifiers in front stays as it is when they are moved there. -/
theorem withQuantifiersInFront_eq_self (hnnf : f.isNnf = true)
    (hmatrix : f.matrix.isQuantifierFree = true) : f.withQuantifiersInFront = .ok f := by
  have hcombination : f.matrix.IsCombination := by
    refine IsCombination.of_isNnf ?_ hmatrix
    rw [← isNnf_quantify f.matrix f.leading, quantify_leading]
    exact hnnf
  have hextracts := hcombination.extracts.quantify f.leading
  rw [quantify_leading] at hextracts
  refine withQuantifiersInFront_eq_ok_iff.2 ⟨_, _, hextracts, ?_⟩
  rw [List.append_nil, quantify_leading]

/-! ### Prenex forms -/

/-- A prenex form has all quantifiers in front of a negation normal form, for variables of their
own. -/
theorem isHygienicPrenex_of_prenex {names : NameSupply} {isNnf : Bool}
    (h : (f.prenex names isNnf).1 = .ok g) : g.IsHygienicPrenex ∧ g.isNnf = true := by
  obtain ⟨p, m, hextracts, rfl⟩ := withQuantifiersInFront_eq_ok_iff.1 h
  have hm := hextracts.isCombination
  refine ⟨isHygienicPrenex_quantify hm.isQuantifierFree ?_, ?_⟩
  · rw [← hextracts.quantifiedVars_eq]
    exact nodup_quantifiedVars_standardizeApart _ _
  · rw [isNnf_quantify]
    exact hm.isNnf

/-- Every formula has a prenex form. -/
theorem exists_prenex (f : Formula) (names : NameSupply) :
    ∃ g names', f.prenex names false = (.ok g, names') := by
  have hnnf := isNnf_standardizeApart names (f.isNnf_nnf false)
  obtain ⟨p, m, hextracts⟩ := exists_extracts hnnf
  have hfront := withQuantifiersInFront_eq_ok_iff.2 ⟨p, m, hextracts, rfl⟩
  refine ⟨m.quantify p, ((f.nnf false).standardizeApart names).2, ?_⟩
  rw [prenex, if_neg Bool.false_ne_true]
  simp only [hfront]

/-- Such a formula is its own prenex form, and its names are marked as used. -/
theorem prenex_eq_self (h : g.IsHygienicPrenex) (hnnf : g.isNnf = true) (names : NameSupply)
    (isNnf : Bool) : g.prenex names isNnf = (.ok g, names.declare g.symbols) := by
  have hpushed : (if isNnf then g else g.nnf false) = g := by
    rw [nnf_eq_self hnnf, ite_self]
  rw [prenex, hpushed, standardizeApart_eq_self h.nodup h.not_free]
  simp only [withQuantifiersInFront_eq_self hnnf h.matrix]

/-- **Exactly these formulas are their own prenex forms.** -/
theorem prenex_eq_self_iff {names : NameSupply} {isNnf : Bool} :
    (g.prenex names isNnf).1 = .ok g ↔ g.IsHygienicPrenex ∧ g.isNnf = true := by
  constructor
  · exact isHygienicPrenex_of_prenex
  · rintro ⟨h, hnnf⟩
    rw [prenex_eq_self h hnnf]

/-! ### Both passes -/

/-- **Renaming apart and prenex forms change nothing without need.** A formula is left alone by
renaming apart exactly if its quantifiers bind pairwise different variables, none of which occurs
free, and then no counter of the name supply moves. Renaming apart a second time changes nothing,
and neither does a second prenex form: every formula has a prenex form, which is its own prenex form
for all names in use, also if it is taken to be in negation normal form already. -/
theorem renaming_stable (f : Formula) (names names' : NameSupply) :
    ((f.standardizeApart names).1 = f ↔
      f.quantifiedVars.Nodup ∧ ∀ x ∈ f.quantifiedVars, x ∉ f.freeVars) ∧
    ((f.standardizeApart names).1 = f →
      (f.standardizeApart names).2.variableCounter = names.variableCounter ∧
      (f.standardizeApart names).2.skolemCounter = names.skolemCounter) ∧
    ((f.standardizeApart names).1.standardizeApart names').1 = (f.standardizeApart names).1 ∧
    ∃ g, (f.prenex names false).1 = .ok g ∧ ∀ isNnf, (g.prenex names' isNnf).1 = .ok g := by
  refine ⟨standardizeApart_eq_self_iff, fun h => ?_, ?_, ?_⟩
  · obtain ⟨hnodup, hfree⟩ := standardizeApart_eq_self_iff.1 h
    rw [standardizeApart_eq_self hnodup hfree]
    exact ⟨rfl, rfl⟩
  · exact standardizeApart_eq_self_iff.2
      ⟨nodup_quantifiedVars_standardizeApart f names, fun _ => not_mem_freeVars_standardizeApart⟩
  · obtain ⟨g, s, hprenex⟩ := f.exists_prenex names
    have hg : (f.prenex names false).1 = .ok g := by rw [hprenex]
    exact ⟨g, hg, fun isNnf => prenex_eq_self_iff.2 (isHygienicPrenex_of_prenex hg)⟩

/-- The formula `P(z) ∧ (∀x ∃y R(x, y) → ∃x Q(x))`, which quantifies `x` twice. -/
def sampleRepeated : Formula :=
  .and (.pred "P" [.var "z"])
    (.implies (.all "x" (.ex "y" (.pred "R" [.var "x", .var "y"])))
      (.ex "x" (.pred "Q" [.var "x"])))

/-- Its prenex form `∃x ∀y ∃x_1 (P(z) ∧ (¬R(x, y) ∨ Q(x_1)))`. -/
def samplePrenex : Formula :=
  .ex "x" (.all "y" (.ex "x_1" (.and (.pred "P" [.var "z"])
    (.or (.not (.pred "R" [.var "x", .var "y"])) (.pred "Q" [.var "x_1"])))))

/-- The formula is changed, since it quantifies a variable twice. Its prenex form is not changed any
more, also with `x_1` in use and a counter that has moved on. -/
theorem renaming_stable_sample :
    (sampleRepeated.prenex .standard false).1 = .ok samplePrenex ∧
      (sampleRepeated.standardizeApart .standard).1 ≠ sampleRepeated ∧
      (samplePrenex.standardizeApart ⟨"SK", ["x_1"], 7, 2⟩).1 = samplePrenex ∧
      (samplePrenex.standardizeApart ⟨"SK", ["x_1"], 7, 2⟩).2.variableCounter = 7 ∧
      (samplePrenex.prenex ⟨"SK", ["x_1"], 7, 2⟩ false).1 = .ok samplePrenex := by
  have hsample : (sampleRepeated.prenex .standard false).1 = .ok samplePrenex := by
    decide +kernel
  obtain ⟨hkept, -, -, -⟩ := renaming_stable sampleRepeated .standard .standard
  obtain ⟨hkept', hcounters, -, -⟩ :=
    renaming_stable samplePrenex ⟨"SK", ["x_1"], 7, 2⟩ .standard
  have hself := hkept'.2 (by decide)
  obtain ⟨-, -, -, g, hg, hstable⟩ :=
    renaming_stable sampleRepeated .standard ⟨"SK", ["x_1"], 7, 2⟩
  obtain rfl : g = samplePrenex := Except.ok.inj (hg.symm.trans hsample)
  exact ⟨hsample, fun h => absurd (hkept.1 h) (by decide), hself, (hcounters hself).1,
    hstable false⟩

end LogicForms.Formula
