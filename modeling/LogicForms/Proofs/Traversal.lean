import LogicForms.Proofs.Shapes

/-!
# Formulas in depth-first order

`Formula.places` lists the subformulas of a formula in depth-first order, from left to right, each
one with the formulas around it. It says what moving quantifiers to the front comes down to
(`Formula.extract_exact`): the prefix lists the quantifiers that are met in this order, the matrix
is the formula with all quantifiers deleted, and what is refused is the first outermost place that
must not occur in negation normal form.

The function itself goes another way. It puts prefixes together behind each argument, and it gives
up at the first failure of an argument. So the places of an argument count with the formulas around
it, and none of these offends as long as the function has not given up
(`Formula.firstOffenderAmong_places`).
-/

set_option autoImplicit false

namespace LogicForms

/-- A subformula together with the formulas around it, the innermost one first. -/
structure Place where
  /-- The formulas around the subformula. -/
  around : List Formula
  /-- The subformula. -/
  formula : Formula
  deriving DecidableEq, Inhabited

namespace Formula

variable {f g m : Formula} {p : Prefix} {around : List Formula}

/-! ### Places -/

/-- The places of a formula that stands inside the given ones, in depth-first order and from left to
right: each place comes before those inside it. Atoms are not looked into. -/
def places (around : List Formula) : Formula → List Place
  | .pred p args => [⟨around, .pred p args⟩]
  | .eq s t => [⟨around, .eq s t⟩]
  | .not f => ⟨around, .not f⟩ :: f.places (.not f :: around)
  | .binary op f g =>
    ⟨around, .binary op f g⟩ ::
      (f.places (.binary op f g :: around) ++ g.places (.binary op f g :: around))
  | .quant q x f => ⟨around, .quant q x f⟩ :: f.places (.quant q x f :: around)

/-- The subformulas in depth-first order, from left to right. -/
def subformulas (f : Formula) : List Formula := (f.places []).map Place.formula

/-- The subformulas do not depend on what stands around the formula. -/
theorem map_formula_places (f : Formula) (around : List Formula) :
    (f.places around).map Place.formula = f.subformulas := by
  rw [subformulas]
  generalize ([] : List Formula) = around'
  induction f generalizing around around' with
  | pred p args => rfl
  | eq s t => rfl
  | not f ih => exact congrArg (not f :: ·) (ih _ _)
  | binary op f g ihf ihg =>
    rw [places, places, List.map_cons, List.map_cons, List.map_append, List.map_append]
    exact congrArg (binary op f g :: ·) (congrArg₂ (· ++ ·) (ihf _ _) (ihg _ _))
  | quant q x f ih => exact congrArg (quant q x f :: ·) (ih _ _)

theorem subformulas_binary (op : Connective) (f g : Formula) :
    (binary op f g).subformulas = binary op f g :: (f.subformulas ++ g.subformulas) := by
  rw [subformulas, places, List.map_cons, List.map_append, map_formula_places, map_formula_places]

theorem subformulas_quant (q : Quantifier) (x : String) (f : Formula) :
    (quant q x f).subformulas = quant q x f :: f.subformulas :=
  congrArg (quant q x f :: ·) (f.map_formula_places [quant q x f])

/-! ### Quantifiers -/

/-- The quantifier on top of the formula, if there is one. -/
def binder? : Formula → Option Binder
  | .quant q x _ => some ⟨q, x⟩
  | _ => none

/-- All quantifiers with their variables, in depth-first order and from left to right. -/
def quantifiers (f : Formula) : Prefix := f.subformulas.filterMap binder?

/-- The formula with every quantifier deleted and everything else kept. -/
def withoutQuantifiers : Formula → Formula
  | .pred p args => .pred p args
  | .eq s t => .eq s t
  | .not f => .not f.withoutQuantifiers
  | .binary op f g => .binary op f.withoutQuantifiers g.withoutQuantifiers
  | .quant _ _ f => f.withoutQuantifiers

theorem quantifiers_binary (op : Connective) (f g : Formula) :
    (binary op f g).quantifiers = f.quantifiers ++ g.quantifiers := by
  rw [quantifiers, subformulas_binary, List.filterMap_cons_none rfl, List.filterMap_append]
  rfl

theorem quantifiers_quant (q : Quantifier) (x : String) (f : Formula) :
    (quant q x f).quantifiers = ⟨q, x⟩ :: f.quantifiers := by
  rw [quantifiers, subformulas_quant]
  rfl

/-- There is nothing to list and nothing to delete in a literal. -/
theorem quantifiers_of_isLiteral (h : f.isLiteral = true) :
    f.quantifiers = [] ∧ f.withoutQuantifiers = f := by
  cases f with
  | pred | eq => exact ⟨rfl, rfl⟩
  | not f =>
    cases f with
    | pred | eq => exact ⟨rfl, rfl⟩
    | not | binary | quant => simp at h
  | binary | quant => simp at h

/-- **The prefix lists the quantifiers, and the matrix is the formula without them.** -/
theorem Extracts.eq_quantifiers (h : f.Extracts p m) :
    p = f.quantifiers ∧ m = f.withoutQuantifiers := by
  induction h with
  | literal h => exact ⟨(quantifiers_of_isLiteral h).1.symm, (quantifiers_of_isLiteral h).2.symm⟩
  | binary hop _ _ ihf ihg =>
    rw [quantifiers_binary, withoutQuantifiers, ihf.1, ihf.2, ihg.1, ihg.2]
    exact ⟨rfl, rfl⟩
  | quant q x _ ih =>
    rw [quantifiers_quant, withoutQuantifiers, ih.1, ih.2]
    exact ⟨rfl, rfl⟩

/-- Quantifiers can be moved to the front of a negation normal form only. -/
theorem Extracts.isNnf (h : f.Extracts p m) : f.isNnf = true := by
  induction h with
  | literal h => exact isNnf_of_isLiteral h
  | binary hop _ _ ihf ihg => exact isNnf_binary_iff.2 ⟨hop, ihf, ihg⟩
  | quant q x _ ih => exact ih

/-! ### What is refused -/

/-- The formula is an implication, an equivalence, or a negation of anything but an atom. -/
def isOffending : Formula → Bool
  | .not f => !f.isAtomic
  | .binary op _ _ => op = .implies || op = .iff
  | _ => false

/-- The subformula that moving quantifiers to the front refuses, if it does. -/
def refused? (f : Formula) : Option Formula :=
  match f.extract with
  | .ok _ => none
  | .error e => some e.offender

theorem extract_eq_error_iff {e : NotNnf} :
    f.extract = .error e ↔ f.refused? = some e.offender := by
  rw [refused?]
  cases f.extract with
  | ok r => simp
  | error e' =>
    obtain ⟨k⟩ := e
    obtain ⟨k'⟩ := e'
    simp

/-- Of two arguments, the left one is refused first. -/
theorem refused?_binary {op : Connective} (hop : op = .and ∨ op = .or) (f g : Formula) :
    (binary op f g).refused? = f.refused?.or g.refused? := by
  rw [refused?, extract_binary hop, refused?, refused?]
  cases f.extract with
  | error e => rfl
  | ok r =>
    cases g.extract with
    | error e => rfl
    | ok r' => rfl

theorem refused?_quant (q : Quantifier) (x : String) (f : Formula) :
    (quant q x f).refused? = f.refused? := by
  rw [refused?, extract, refused?]
  cases f.extract with
  | error e => rfl
  | ok r => rfl

/-- An offending formula is refused itself, whatever there is inside it. -/
theorem refused?_of_isOffending (h : f.isOffending = true) : f.refused? = some f := by
  cases f with
  | pred | eq | quant => simp [isOffending] at h
  | not f =>
    have hatomic : f.isAtomic = false := by simpa [isOffending] using h
    rw [refused?, extract, if_neg (by simp [hatomic])]
  | binary op f g =>
    cases op with
    | and | or => simp [isOffending] at h
    | implies | iff => rfl

end Formula

/-- The subformula offends, and none of the formulas around it does. -/
def Place.isOutermostOffender (place : Place) : Bool :=
  place.formula.isOffending && place.around.all fun g => !g.isOffending

namespace Formula

variable {f : Formula} {around : List Formula}

/-- The subformula at the first of the places that is an outermost offender. -/
def firstOffenderAmong (places : List Place) : Option Formula :=
  (places.find? Place.isOutermostOffender).map Place.formula

/-- The first offending subformula in depth-first order, from left to right, among those that have
no offending formula around them. -/
def firstOffender? (f : Formula) : Option Formula := firstOffenderAmong (f.places [])

theorem firstOffenderAmong_append (ps ps' : List Place) :
    firstOffenderAmong (ps ++ ps') = (firstOffenderAmong ps).or (firstOffenderAmong ps') := by
  rw [firstOffenderAmong, List.find?_append, Option.map_or]
  rfl

/-- A place that does not offend is passed over. -/
theorem firstOffenderAmong_cons {place : Place} (h : place.formula.isOffending = false)
    (ps : List Place) : firstOffenderAmong (place :: ps) = firstOffenderAmong ps := by
  rw [firstOffenderAmong, List.find?_cons_of_neg (by simp [Place.isOutermostOffender, h])]
  rfl

/-- An offending formula with nothing offending around it comes before all its other places. -/
theorem firstOffenderAmong_of_isOffending (hf : f.isOffending = true)
    (h : ∀ g ∈ around, g.isOffending = false) (ps : List Place) :
    firstOffenderAmong (⟨around, f⟩ :: ps) = some f := by
  have hall : around.all (fun g => !g.isOffending) = true := by simpa using h
  rw [firstOffenderAmong, List.find?_cons_of_pos]
  · rfl
  · rw [Place.isOutermostOffender, hf, hall]
    rfl

/-- **What is refused is the first outermost offender**, as long as nothing around the formula
offends. -/
theorem firstOffenderAmong_places (f : Formula) (h : ∀ g ∈ around, g.isOffending = false) :
    firstOffenderAmong (f.places around) = f.refused? := by
  induction f generalizing around with
  | pred p args => exact firstOffenderAmong_cons rfl []
  | eq s t => exact firstOffenderAmong_cons rfl []
  | not f ih =>
    cases hf : (not f).isOffending with
    | true =>
      rw [refused?_of_isOffending hf]
      exact firstOffenderAmong_of_isOffending hf h _
    | false =>
      -- an atom has no other place than itself, and is not refused
      have hatomic : f.isAtomic = true := by simpa [isOffending] using hf
      rw [places, firstOffenderAmong_cons hf, ih (List.forall_mem_cons.2 ⟨hf, h⟩), refused?,
        refused?, extract, if_pos hatomic]
      cases f with
      | pred | eq => rfl
      | not | binary | quant => simp at hatomic
  | binary op f g ihf ihg =>
    cases hf : (binary op f g).isOffending with
    | true =>
      rw [refused?_of_isOffending hf]
      exact firstOffenderAmong_of_isOffending hf h _
    | false =>
      have hop : op = .and ∨ op = .or := by
        cases op <;> simp [isOffending] at hf ⊢
      have hinside : ∀ k ∈ binary op f g :: around, k.isOffending = false :=
        List.forall_mem_cons.2 ⟨hf, h⟩
      rw [places, firstOffenderAmong_cons hf, firstOffenderAmong_append, ihf hinside,
        ihg hinside, refused?_binary hop]
  | quant q x f ih =>
    rw [places, firstOffenderAmong_cons rfl, ih (List.forall_mem_cons.2 ⟨rfl, h⟩), refused?_quant]

/-! ### Both outcomes -/

/-- **Moving quantifiers to the front, exactly.** It fails for the formulas that are not in negation
normal form, and names the first subformula in depth-first order, from left to right, that is an
implication, an equivalence or a negation of anything but an atom and has no such formula around it.
For all others it gives the quantifiers in depth-first order, from left to right, and the formula
with every quantifier deleted and everything else kept. This has no quantifiers and is in negation
normal form, and putting the quantifiers in front and taking them away again gives both back. -/
theorem extract_exact (f : Formula) :
    ((∃ e, f.extract = .error e) ↔ f.isNnf = false) ∧
    (∀ e, f.extract = .error e ↔ f.firstOffender? = some e.offender) ∧
    (∀ e, f.extract = .error e →
      e.message = "expecting a formula in NNF; " ++ e.offender.text ++ " is not") ∧
    (f.isNnf = true →
      f.extract = .ok (f.quantifiers, f.withoutQuantifiers) ∧
      f.withoutQuantifiers.isQuantifierFree = true ∧
      f.withoutQuantifiers.isNnf = true ∧
      (f.withoutQuantifiers.quantify f.quantifiers).matrix = f.withoutQuantifiers ∧
      (f.withoutQuantifiers.quantify f.quantifiers).leading = f.quantifiers) := by
  have hok : f.isNnf = true → f.Extracts f.quantifiers f.withoutQuantifiers := by
    intro h
    obtain ⟨p, m, hextracts⟩ := exists_extracts h
    obtain ⟨rfl, rfl⟩ := hextracts.eq_quantifiers
    exact hextracts
  refine ⟨?_, fun e => ?_, fun _ _ => rfl, fun h => ?_⟩
  · cases hextract : f.extract with
    | ok r => simp [(extracts_of_extract hextract).isNnf]
    | error e =>
      have hnnf : f.isNnf ≠ true := by
        intro h
        rw [extract_eq_ok_iff.2 (hok h)] at hextract
        cases hextract
      simpa using hnnf
  · rw [extract_eq_error_iff, firstOffender?, firstOffenderAmong_places f (by simp)]
  · have hmatrix := (hok h).isCombination
    exact ⟨extract_eq_ok_iff.2 (hok h), hmatrix.isQuantifierFree, hmatrix.isNnf,
      matrix_quantify hmatrix.isQuantified_eq _⟩

/-- The formula `∀x (P(x) ∧ ∃y R(x, y)) ∨ ∀z ∃x ¬R(z, x)`, with quantifiers in both arguments. -/
def sampleScattered : Formula :=
  .or (.all "x" (.and (.pred "P" [.var "x"]) (.ex "y" (.pred "R" [.var "x", .var "y"]))))
    (.all "z" (.ex "x" (.not (.pred "R" [.var "z", .var "x"]))))

/-- The formula `∀x (P(x) ∧ ¬∃y (Q(y) → P(x))) ∨ (Q(x) ↔ P(x))`, which has three offending places:
the negation, the implication inside it and the equivalence. -/
def sampleRefused : Formula :=
  .or (.all "x" (.and (.pred "P" [.var "x"])
      (.not (.ex "y" (.implies (.pred "Q" [.var "y"]) (.pred "P" [.var "x"]))))))
    (.iff (.pred "Q" [.var "x"]) (.pred "P" [.var "x"]))

theorem extract_exact_samples :
    sampleScattered.isNnf = true ∧
      sampleScattered.extract = .ok
        ([⟨.universal, "x"⟩, ⟨.existential, "y"⟩, ⟨.universal, "z"⟩, ⟨.existential, "x"⟩],
          .or (.and (.pred "P" [.var "x"]) (.pred "R" [.var "x", .var "y"]))
            (.not (.pred "R" [.var "z", .var "x"]))) ∧
      sampleRefused.isNnf = false ∧
      ∃ e, sampleRefused.extract = .error e ∧
        e.message = "expecting a formula in NNF; ¬∃y (Q(y) → P(x)) is not" := by
  have hnnf : sampleScattered.isNnf = true := by decide
  have hrefused : sampleRefused.extract = .error
      ⟨.not (.ex "y" (.implies (.pred "Q" [.var "y"]) (.pred "P" [.var "x"])))⟩ :=
    ((extract_exact sampleRefused).2.1 _).2 (by decide)
  have hmessage := (extract_exact sampleRefused).2.2.1 _ hrefused
  exact ⟨hnnf, ((extract_exact sampleScattered).2.2.2 hnnf).1, by decide, _, hrefused, hmessage⟩

end Formula

end LogicForms
