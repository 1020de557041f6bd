import LogicForms.Failure
import LogicForms.Proofs.Outcomes

/-!
# Lists of variables

A quantifier takes a list of variables with lists in it at any depth. `Datum.parts` lists what is in
such a value from left to right, with every list in front of its members. Quantification over the
value is a fold over its parts from the right (`Datum.quantify_eq_foldrM`). So the variables become
quantified in the order in which they stand, and of all parts that do not fit, the last one decides
on the failure (`Datum.quantify_exact`).

A part fits if it is a variable, a name that is not empty, or a list that is not empty
(`Datum.fault?_eq_none_iff`).
-/

set_option autoImplicit false

namespace LogicForms.Datum

/-! ### What is in a value -/

mutual
/-- The value itself and, if it is a list, everything in it at any depth, from left to right. Each
list stands in front of what is in it. -/
def parts : Datum → List Datum
  | .term t => [.term t]
  | .formula f => [.formula f]
  | .text s => [.text s]
  | .number n => [.number n]
  | .truth b => [.truth b]
  | .nothing => [.nothing]
  | .sequence items => .sequence items :: partsList items
  | .other shown kind => [.other shown kind]
/-- The parts of the values in a list. -/
def partsList : List Datum → List Datum
  | [] => []
  | v :: vs => parts v ++ partsList vs
end

/-- Is the value a list? -/
def isSequence : Datum → Bool
  | .sequence _ => true
  | _ => false

/-- What is in a value and is no list, from left to right. -/
def leaves (v : Datum) : List Datum := v.parts.filter fun u => !u.isSequence

/-- The variable that a leaf stands for, given as such or by its name. -/
def varName? : Datum → Option String
  | .term (.var x) => some x
  | .text s => if s = "" then none else some s
  | _ => none

/-- Why a part of a value that should be a list of variables does not fit. A list is a part of its
own, which fits unless it is empty. -/
def fault? : Datum → Option ConstructionError
  | .term (.var _) => none
  | .text s => if s = "" then some (.badName "''" "str") else none
  | .sequence (_ :: _) => none
  | u => some (.notVariable u.shown)

/-- The parts that fit are the variables, the names that are not empty, and the lists that are not
empty. -/
theorem fault?_eq_none_iff (u : Datum) : u.fault? = none ↔
    (∃ x, u = .term (.var x)) ∨ (∃ s, s ≠ "" ∧ u = .text s) ∨
      ∃ items, items ≠ [] ∧ u = .sequence items := by
  cases u with
  | term t => cases t <;> simp [fault?]
  | text s => by_cases hs : s = "" <;> simp [fault?, hs]
  | sequence items => cases items <;> simp [fault?]
  | formula | number | truth | nothing | other => simp [fault?]

/-- The parts of a list all fit exactly if no list among them is empty and all others are variables
or names that are not empty. -/
theorem forall_fault?_iff (us : List Datum) : (∀ u ∈ us, u.fault? = none) ↔
    (∀ items, sequence items ∈ us → items ≠ []) ∧
      ∀ leaf ∈ us.filter fun u => !u.isSequence,
        (∃ x, leaf = .term (.var x)) ∨ ∃ s, s ≠ "" ∧ leaf = .text s := by
  constructor
  · intro h
    constructor
    · intro items hitems
      rintro rfl
      cases h _ hitems
    · intro leaf hleaf
      obtain ⟨hmem, hlist⟩ := List.mem_filter.1 hleaf
      rcases (fault?_eq_none_iff leaf).1 (h leaf hmem) with hx | hs | ⟨items, -, rfl⟩
      · exact Or.inl hx
      · exact Or.inr hs
      · cases hlist
  · rintro ⟨hlists, hleaves⟩ u hu
    apply (fault?_eq_none_iff u).2
    by_cases hlist : u.isSequence = true
    · cases u with
      | sequence items => exact Or.inr (Or.inr ⟨items, hlists items hu, rfl⟩)
      | term | formula | text | number | truth | nothing | other => cases hlist
    · have hleaf := hleaves u (List.mem_filter.2 ⟨hu, by simpa using hlist⟩)
      exact hleaf.imp_right Or.inl

/-- A part that does not fit is an empty name, or something that is no variable. -/
theorem message_of_fault? {u : Datum} {e : ConstructionError} (h : u.fault? = some e) :
    (u = .text "" ∧ e.message = "expecting non-empty string as name; '' is <class 'str'>") ∨
      (u ≠ .text "" ∧ e.message = u.shown ++ " is not a Variable") := by
  cases u with
  | term t =>
    cases t with
    | var x => cases h
    | const | func | eq | pred | not | binary | quant | bound =>
      cases h
      exact Or.inr ⟨by simp, rfl⟩
  | text s =>
    by_cases hs : s = ""
    · rw [fault?, if_pos hs] at h
      cases h
      exact Or.inl ⟨congrArg text hs, rfl⟩
    · rw [fault?, if_neg hs] at h
      cases h
  | sequence items =>
    cases items with
    | nil =>
      cases h
      exact Or.inr ⟨by simp, rfl⟩
    | cons v vs => cases h
  | formula | number | truth | nothing | other =>
    cases h
    exact Or.inr ⟨by simp, rfl⟩

/-! ### Quantification as a fold -/

/-- Quantify over a single part: what does not fit is refused, and a list adds nothing to what is in
it. -/
def quantifyPart (q : Quantifier) (u : Datum) (f : Formula) : Except ConstructionError Formula :=
  match u.fault? with
  | some e => .error e
  | none => .ok (f.quantify (u.varName?.toList.map (Binder.mk q)))

/-- A value that is no list is its only part. -/
theorem quantify_of_isSequence (q : Quantifier) {u : Datum} (h : u.isSequence = false)
    (f : Formula) : u.quantify q f = u.parts.foldrM (quantifyPart q) f := by
  have hparts : u.parts = [u] := by
    cases u with
    | sequence items => cases h
    | term | formula | text | number | truth | nothing | other => rfl
  rw [hparts, List.foldrM_cons, List.foldrM_nil, pure_bind]
  cases u with
  | term t => cases t <;> rfl
  | text s =>
    rw [quantify, toName, quantifyPart, fault?, varName?]
    by_cases hs : s = ""
    · subst hs
      rfl
    · simp only [if_neg hs]
      rfl
  | sequence items => cases h
  | formula | number | truth | nothing | other => rfl

mutual
/-- Quantification goes through the parts from the last to the first. -/
theorem quantify_eq_foldrM (q : Quantifier) :
    ∀ (v : Datum) (f : Formula), v.quantify q f = v.parts.foldrM (quantifyPart q) f
  | .term _, f => quantify_of_isSequence q rfl f
  | .formula _, f => quantify_of_isSequence q rfl f
  | .text _, f => quantify_of_isSequence q rfl f
  | .number _, f => quantify_of_isSequence q rfl f
  | .truth _, f => quantify_of_isSequence q rfl f
  | .nothing, f => quantify_of_isSequence q rfl f
  | .other _ _, f => quantify_of_isSequence q rfl f
  | .sequence [], _ => rfl
  | .sequence (v :: vs), f => by
    rw [parts, partsList, List.foldrM_cons, List.foldrM_append, ← quantifyAll_eq_foldrM q vs f]
    simp only [← quantify_eq_foldrM q v]
    -- the list comes last, and leaves what its members have given
    exact (bind_pure _).symm
/-- Quantification over the members of a list goes through their parts. -/
theorem quantifyAll_eq_foldrM (q : Quantifier) :
    ∀ (vs : List Datum) (f : Formula),
      quantifyAll q vs f = (partsList vs).foldrM (quantifyPart q) f
  | [], _ => rfl
  | v :: vs, f => by
    rw [partsList, List.foldrM_append, ← quantifyAll_eq_foldrM q vs f]
    simp only [← quantify_eq_foldrM q v]
    rfl
end

section

variable {q : Quantifier} {us : List Datum} {f g : Formula} {e : ConstructionError}

/-- Going through parts succeeds exactly if all of them fit. -/
theorem foldrM_eq_ok_iff : us.foldrM (quantifyPart q) f = .ok g ↔
    (∀ u ∈ us, u.fault? = none) ∧ g = f.quantify ((us.filterMap varName?).map (Binder.mk q)) := by
  induction us generalizing g with
  | nil => simp [pure, Except.pure, eq_comm]
  | cons u us ih =>
    rw [List.foldrM_cons, bind_eq_ok, List.forall_mem_cons]
    have hvars : (u :: us).filterMap varName? = u.varName?.toList ++ us.filterMap varName? := by
      cases h : u.varName? <;> simp [h]
    rw [hvars, List.map_append, Formula.quantify_append]
    simp only [ih, quantifyPart]
    constructor
    · rintro ⟨k, ⟨hus, rfl⟩, hu⟩
      cases hfault : u.fault? with
      | some e => simp [hfault] at hu
      | none =>
        rw [hfault] at hu
        exact ⟨⟨rfl, hus⟩, (Except.ok.inj hu).symm⟩
    · rintro ⟨⟨hu, hus⟩, rfl⟩
      exact ⟨_, ⟨hus, rfl⟩, by rw [hu]⟩

/-- Going through parts from the right fails at the first one that does not fit, which is the last
one in the list. -/
theorem foldrM_eq_error_iff : us.foldrM (quantifyPart q) f = .error e ↔
    ∃ (before : List Datum) (u : Datum) (after : List Datum),
      us = before ++ u :: after ∧ u.fault? = some e ∧ ∀ w ∈ after, w.fault? = none := by
  induction us with
  | nil => simp [pure, Except.pure]
  | cons u us ih =>
    rw [List.foldrM_cons, bind_eq_error, ih]
    constructor
    · rintro (⟨before, w, after, rfl, hw, hafter⟩ | ⟨k, hk, hu⟩)
      · exact ⟨u :: before, w, after, rfl, hw, hafter⟩
      · refine ⟨[], u, us, rfl, ?_, (foldrM_eq_ok_iff.1 hk).1⟩
        rw [quantifyPart] at hu
        cases hfault : u.fault? with
        | none => simp [hfault] at hu
        | some e' =>
          rw [hfault] at hu
          exact congrArg some (Except.error.inj hu)
    · rintro ⟨before, w, after, heq, hw, hafter⟩
      cases before with
      | nil =>
        obtain ⟨rfl, rfl⟩ := List.cons.inj heq
        exact Or.inr ⟨_, foldrM_eq_ok_iff.2 ⟨hafter, rfl⟩, by rw [quantifyPart, hw]⟩
      | cons b before =>
        obtain ⟨rfl, rfl⟩ := List.cons.inj heq
        exact Or.inl ⟨before, w, after, rfl, hw, hafter⟩

/-- If all parts fit, those that are no lists have variables. -/
theorem map_varName?_of_fault? (h : ∀ u ∈ us, u.fault? = none) :
    (us.filter fun u => !u.isSequence).map varName? = (us.filterMap varName?).map some := by
  induction us with
  | nil => rfl
  | cons u us ih =>
    rw [List.forall_mem_cons] at h
    have hus := ih h.2
    rcases (fault?_eq_none_iff u).1 h.1 with ⟨x, rfl⟩ | ⟨s, hs, rfl⟩ | ⟨items, -, rfl⟩
    · simpa [isSequence, varName?] using hus
    · simpa [isSequence, varName?, hs] using hus
    · rw [List.filter_cons_of_neg (by simp [isSequence]), List.filterMap_cons_none rfl]
      exact hus

end

/-! ### Main result -/

/-- **Quantification over a list takes its leaves from left to right, or fails at the last part that
does not fit.** It succeeds exactly if no list in the value is empty and all leaves are variables or
names that are not empty. Then each leaf has a variable, and these are quantified in front of the
formula, the leftmost one outermost. Otherwise the rightmost leaf or empty list that does not fit
decides: an empty name is refused as a name, and everything else is no variable. -/
theorem quantify_exact (q : Quantifier) (v : Datum) (f : Formula) :
    ((∃ g, v.quantify q f = .ok g) ↔
      (∀ items, sequence items ∈ v.parts → items ≠ []) ∧
      ∀ leaf ∈ v.leaves, (∃ x, leaf = .term (.var x)) ∨ ∃ s, s ≠ "" ∧ leaf = .text s) ∧
    (∀ g, v.quantify q f = .ok g →
      ∃ names : List String, v.leaves.map varName? = names.map some ∧
        g = f.quantify (names.map (Binder.mk q))) ∧
    (∀ e, v.quantify q f = .error e ↔
      ∃ (before : List Datum) (u : Datum) (after : List Datum),
        v.parts = before ++ u :: after ∧ u.fault? = some e ∧ ∀ w ∈ after, w.fault? = none) ∧
    ∀ (u : Datum) (e : ConstructionError), u.fault? = some e →
      (Failure.construction e).kind = "ValueError" ∧
      ((u = .text "" ∧ e.message = "expecting non-empty string as name; '' is <class 'str'>") ∨
        (u ≠ .text "" ∧ e.message = u.shown ++ " is not a Variable")) := by
  rw [leaves, ← forall_fault?_iff, quantify_eq_foldrM]
  refine ⟨?_, ?_, fun e => foldrM_eq_error_iff, ?_⟩
  · constructor
    · rintro ⟨g, hg⟩
      exact (foldrM_eq_ok_iff.1 hg).1
    · intro hfit
      exact ⟨_, foldrM_eq_ok_iff.2 ⟨hfit, rfl⟩⟩
  · intro g hg
    obtain ⟨hfit, rfl⟩ := foldrM_eq_ok_iff.1 hg
    exact ⟨_, map_varName?_of_fault? hfit, rfl⟩
  · intro u e he
    exact ⟨rfl, message_of_fault? he⟩

/-- The list `[x, ['y', [z]]]`. -/
def sampleNested : Datum :=
  .sequence [.term (.var "x"), .sequence [.text "y", .sequence [.term (.var "z")]]]

/-- The list `['', [5, []], 'y']`, in which three parts do not fit. -/
def sampleUnfit : Datum :=
  .sequence [.text "", .sequence [.number 5, .sequence []], .text "y"]

theorem quantify_exact_samples :
    sampleNested.quantify .universal (.pred "P" []) =
        .ok (.all "x" (.all "y" (.all "z" (.pred "P" [])))) ∧
      sampleUnfit.quantify .existential (.pred "P" []) = .error (.notVariable "[]") ∧
      (ConstructionError.notVariable "[]").message = "[] is not a Variable" := by
  obtain ⟨hok, hresult, -, -⟩ := quantify_exact .universal sampleNested (.pred "P" [])
  obtain ⟨-, -, herror, hmessage⟩ := quantify_exact .existential sampleUnfit (.pred "P" [])
  have hparts : sampleNested.parts =
      [sampleNested, .term (.var "x"), .sequence [.text "y", .sequence [.term (.var "z")]],
        .text "y", .sequence [.term (.var "z")], .term (.var "z")] := rfl
  have hleaves : sampleNested.leaves = [.term (.var "x"), .text "y", .term (.var "z")] := rfl
  obtain ⟨-, ⟨hempty, -⟩ | ⟨-, hnotVariable⟩⟩ := hmessage (.sequence []) _ rfl
  · cases hempty
  refine ⟨?_, ?_, hnotVariable⟩
  · have hsucceeds : ∃ g, sampleNested.quantify .universal (.pred "P" []) = .ok g := by
      apply hok.2
      rw [hparts, hleaves]
      constructor
      · intro items hitems
        rintro rfl
        simp [sampleNested] at hitems
      · simp
    obtain ⟨g, hg⟩ := hsucceeds
    obtain ⟨names, hnames, rfl⟩ := hresult g hg
    have hmap : names.map some = ["x", "y", "z"].map some := hnames.symm
    obtain rfl : names = ["x", "y", "z"] := (List.map_inj_right fun _ _ => Option.some.inj).1 hmap
    exact hg
  · -- the empty list is the last part that does not fit, behind the empty name and the number
    apply (herror _).2
    exact ⟨[sampleUnfit, .text "", .sequence [.number 5, .sequence []], .number 5],
      .sequence [], [.text "y"], rfl, rfl, by simp [fault?]⟩

end LogicForms.Datum
