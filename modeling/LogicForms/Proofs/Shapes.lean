import LogicForms.Forms.Clause
import LogicForms.Forms.Skolem
import LogicForms.Proofs.Distribution
import LogicForms.Proofs.Skolem

/-!
# Shapes of intermediate results

Every pass relies on the shape of what the pass before it gives. Renaming apart and substitution
keep a negation normal form, so that the quantifiers can be moved to the front. Behind them there
is a combination of literals by conjunctions and disjunctions (`Formula.IsCombination`), which
substitution and negation normal form keep, and Skolem forms have no existential quantifiers in
front of one. A distributed combination has no disjunction around a conjunction, or none the other
way round (`Distributes.isNormal`), which splitting into clauses relies on.
-/

set_option autoImplicit false

namespace LogicForms

namespace Formula

variable {f g m : Formula} {p : Prefix}

/-! ### Negation normal form -/

@[simp] theorem isAtomic_subst (σ : Substitution) (f : Formula) :
    (f.subst σ).isAtomic = f.isAtomic := by
  cases f <;> rfl

@[simp] theorem isLiteral_subst (σ : Substitution) (f : Formula) :
    (f.subst σ).isLiteral = f.isLiteral := by
  cases f <;> simp

/-- Substitution keeps a negation normal form. -/
@[simp] theorem isNnf_subst (σ : Substitution) (f : Formula) : (f.subst σ).isNnf = f.isNnf := by
  induction f generalizing σ with
  | pred p args => rfl
  | eq s t => rfl
  | not f => simp [isNnf]
  | binary op f g ihf ihg => cases op <;> simp [isNnf, ihf, ihg]
  | quant q x f ih => exact ih _

/-- Renaming apart leaves atoms alone. -/
theorem renameApart_of_isAtomic (h : f.isAtomic = true) (s : Avoiding) :
    f.renameApart s = (f, s) := by
  cases f with
  | pred | eq => rw [renameApart]
  | not | binary | quant => simp at h

/-- Renaming apart keeps a negation normal form. -/
theorem isNnf_renameApart (s : Avoiding) (h : f.isNnf = true) :
    (f.renameApart s).1.isNnf = true := by
  fun_induction renameApart f s with
  | case1 | case2 => rfl
  | case3 f s f' s' hf ih =>
    have hatomic : f.isAtomic = true := h
    rw [renameApart_of_isAtomic hatomic] at hf
    cases hf
    exact hatomic
  | case4 op f g s f' s' hf g' s'' hg ihf ihg =>
    rw [hf] at ihf
    rw [hg] at ihg
    obtain ⟨hop, hnnf, hnnf'⟩ := isNnf_binary_iff.1 h
    exact isNnf_binary_iff.2 ⟨hop, ihf hnnf, ihg hnnf'⟩
  | case5 q x f s _ y names _ f' s' hf ih =>
    rw [hf] at ih
    exact ih (by rw [isNnf_subst]; exact h)
  | case6 q x f s _ f' s' hf ih =>
    rw [hf] at ih
    exact ih h

theorem isNnf_standardizeApart (names : NameSupply) (h : f.isNnf = true) :
    (f.standardizeApart names).1.isNnf = true :=
  isNnf_renameApart _ h

/-- Quantifiers can be moved to the front of a negation normal form. -/
theorem exists_extracts (h : f.isNnf = true) : ∃ p m, f.Extracts p m := by
  induction f with
  | pred r args => exact ⟨[], _, .literal rfl⟩
  | eq s t => exact ⟨[], _, .literal rfl⟩
  | not f => exact ⟨[], _, .literal h⟩
  | binary op f g ihf ihg =>
    obtain ⟨hop, hnnf, hnnf'⟩ := isNnf_binary_iff.1 h
    obtain ⟨p, m, hf⟩ := ihf hnnf
    obtain ⟨p', m', hg⟩ := ihg hnnf'
    exact ⟨_, _, .binary hop hf hg⟩
  | quant q x f ih =>
    obtain ⟨p, m, hf⟩ := ih h
    exact ⟨_, _, .quant q x hf⟩

/-! ### Combinations of literals -/

/-- Literals that are put together by conjunctions and disjunctions. -/
inductive IsCombination : Formula → Prop
  | literal {f : Formula} (h : f.isLiteral = true) : IsCombination f
  | binary {op : Connective} {f g : Formula} (hop : op = .and ∨ op = .or) (hf : IsCombination f)
      (hg : IsCombination g) : IsCombination (.binary op f g)

/-- Without its quantifiers, a negation normal form is a combination of literals. -/
theorem Extracts.isCombination (h : f.Extracts p m) : m.IsCombination := by
  induction h with
  | literal h => exact .literal h
  | binary hop _ _ ihf ihg => exact .binary hop ihf ihg
  | quant q x _ ih => exact ih

/-- There are no quantifiers in a literal. -/
theorem isQuantifierFree_of_isLiteral (h : f.isLiteral = true) : f.isQuantifierFree = true :=
  f.isQuantifierFree_iff.2 (quantifiedVars_of_isLiteral h)

/-- Without quantifiers, a formula has none in front. -/
theorem isQuantified_of_isQuantifierFree (h : f.isQuantifierFree = true) :
    f.isQuantified = false := by
  cases f with
  | quant => exact absurd h (by simp [isQuantifierFree])
  | pred | eq | not | binary => rfl

namespace IsCombination

theorem subst (h : f.IsCombination) (σ : Substitution) : (f.subst σ).IsCombination := by
  induction h with
  | literal h => exact .literal (by rwa [isLiteral_subst])
  | binary hop _ _ ihf ihg => exact .binary hop ihf ihg

theorem isQuantifierFree (h : f.IsCombination) : f.isQuantifierFree = true := by
  induction h with
  | literal h => exact isQuantifierFree_of_isLiteral h
  | binary _ _ _ ihf ihg => exact Bool.and_eq_true_iff.2 ⟨ihf, ihg⟩

/-- A negation normal form without quantifiers is a combination of literals. -/
theorem of_isNnf (hnnf : f.isNnf = true) (hfree : f.isQuantifierFree = true) :
    f.IsCombination := by
  induction f with
  | pred p args => exact .literal rfl
  | eq s t => exact .literal rfl
  | not f => exact .literal hnnf
  | binary op f g ihf ihg =>
    obtain ⟨hop, hnnf, hnnf'⟩ := isNnf_binary_iff.1 hnnf
    obtain ⟨hfree, hfree'⟩ := Bool.and_eq_true_iff.1 hfree
    exact .binary hop (ihf hnnf hfree) (ihg hnnf' hfree')
  | quant q x f => exact absurd hfree (by simp [Formula.isQuantifierFree])

/-- Without quantifiers, a negation normal form is a combination of literals, whatever connectives
the formula has. -/
theorem nnf_of_isQuantifierFree (h : f.isQuantifierFree = true) (negated : Bool) :
    (f.nnf negated).IsCombination :=
  of_isNnf (isNnf_nnf f negated) (by rw [isQuantifierFree_nnf, h])

/-- A combination of literals is in negation normal form. -/
theorem isNnf (h : f.IsCombination) : f.isNnf = true := by
  induction h with
  | @literal f h =>
    cases f with
    | binary | quant => simp at h
    | pred | eq | not => exact h
  | binary hop _ _ ihf ihg => exact isNnf_binary_iff.2 ⟨hop, ihf, ihg⟩

/-- No quantifier stands in front of a combination of literals. -/
theorem isQuantified_eq (h : f.IsCombination) : f.isQuantified = false :=
  isQuantified_of_isQuantifierFree h.isQuantifierFree

end IsCombination

/-- The number of connectives and literals in a combination of literals, where a literal counts once
also if it is negated. -/
def size : Formula → Nat
  | .binary _ f g => f.size + g.size + 1
  | _ => 1

theorem size_of_isLiteral (h : f.isLiteral = true) : f.size = 1 := by
  cases f with
  | binary => simp at h
  | pred | eq | not | quant => rfl

/-- A formula without leading quantifiers is the matrix behind every prefix. -/
theorem matrix_quantify (hm : m.isQuantified = false) (p : Prefix) :
    (m.quantify p).matrix = m ∧ (m.quantify p).leading = p := by
  induction p with
  | nil => cases m <;> first | exact ⟨rfl, rfl⟩ | exact absurd hm (by simp [isQuantified])
  | cons b p ih =>
    rw [quantify_cons, matrix, leading, ih.1, ih.2]
    exact ⟨rfl, rfl⟩

/-- Treating a prefix leaves a formula behind the universal quantifiers, in their order. Whatever
substitutions keep, this formula has in common with the matrix. -/
theorem exists_skolemizeBehind {shape : Formula → Prop}
    (hsubst : ∀ f σ, shape f → shape (f.subst σ)) (universals : List String) (p : Prefix)
    (names : NameSupply) (h : shape m) :
    ∃ m' : Formula, shape m' ∧ (skolemizeBehind universals p m names).1
      = m'.quantify ((universals ++ p.universals).map (Binder.mk .universal)) := by
  induction p generalizing universals m names with
  | nil => exact ⟨m, h, by rw [Prefix.universals_nil, List.append_nil]; rfl⟩
  | cons b p ih =>
    obtain ⟨q, x⟩ := b
    cases q with
    | universal =>
      rw [Prefix.universals_universal, List.append_cons]
      exact ih (universals ++ [x]) names h
    | existential =>
      rw [skolemizeBehind_existential, Prefix.universals_existential]
      exact ih universals _ (hsubst m _ h)

/-- The Skolem form of a combination of literals behind a prefix is another one behind the universal
quantifiers of the prefix. -/
theorem exists_skolemize (h : m.IsCombination) (p : Prefix) (names : NameSupply) :
    ∃ m' : Formula, m'.IsCombination ∧ ((m.quantify p).skolemize names).1
      = m'.quantify (p.universals.map (Binder.mk .universal)) := by
  obtain ⟨hmatrix, hleading⟩ := matrix_quantify h.isQuantified_eq p
  rw [skolemize, hmatrix, hleading]
  exact exists_skolemizeBehind (fun _ σ hf => hf.subst σ) [] p _ h

end Formula

/-! ### Chains -/

namespace Formula

/-- A literal is a chain of one member. -/
theorem split_of_isLiteral {f : Formula} (h : f.isLiteral = true) (op : Connective) :
    f.split op = [f] := by
  cases f with
  | pred | eq | not => rfl
  | binary | quant => simp at h

/-- If a connective has a property exactly if both arguments have it, a chain has the property
exactly if all members have it. -/
theorem forall_split_iff {p : Formula → Prop} {op : Connective}
    (h : ∀ f g, p (.binary op f g) ↔ p f ∧ p g) (f : Formula) :
    (∀ g ∈ f.split op, p g) ↔ p f := by
  induction f with
  | pred | eq | not | quant => exact List.forall_mem_singleton
  | binary op' f g ihf ihg =>
    rw [split]
    split
    · rename_i hop
      subst hop
      rw [List.forall_mem_append, ihf, ihg, h]
    · exact List.forall_mem_singleton

end Formula

/-! ### Normal forms -/

namespace NormalForm

variable {form : NormalForm} {f g : Formula} {n : Nat}

theorem outer_ne_inner (form : NormalForm) : form.outer ≠ form.inner := by
  cases form <;> decide

theorem inner_eq_and_or (form : NormalForm) : form.inner = .and ∨ form.inner = .or := by
  cases form <;> decide

theorem outer_eq_and_or (form : NormalForm) : form.outer = .and ∨ form.outer = .or := by
  cases form <;> decide

/-- The formulas in normal form are made from literals: first by inner connectives, which have no
outer connective on top of an argument, and then by outer connectives. -/
inductive IsNormal (form : NormalForm) : Formula → Prop
  | literal {f : Formula} (h : f.isLiteral = true) : IsNormal form f
  | outer {f g : Formula} (hf : IsNormal form f) (hg : IsNormal form g) :
      IsNormal form (.binary form.outer f g)
  | inner {f g : Formula} (hf : IsNormal form f) (hfree : f.arguments? form.outer = none)
      (hg : IsNormal form g) (hfree' : g.arguments? form.outer = none) :
      IsNormal form (.binary form.inner f g)

/-- The predicate is decided by the check for normal forms. -/
theorem isNormal_iff : form.IsNormal f ↔ form.holdsBelow f = true := by
  constructor
  · intro h
    induction h with
    | @literal f h =>
      cases f with
      | binary => simp at h
      | _ => exact h
    | outer _ _ ihf ihg => simp [holdsBelow, outer_ne_inner, ihf, ihg]
    | inner _ hfree _ hfree' ihf ihg => simp [holdsBelow, hfree, hfree', ihf, ihg]
  · intro h
    induction f with
    | pred | eq | not => exact .literal h
    | quant => simp [holdsBelow] at h
    | binary op f g ihf ihg =>
      by_cases hinner : op = form.inner
      · subst hinner
        simp only [holdsBelow, if_pos, Bool.and_eq_true, Option.isNone_iff_eq_none] at h
        obtain ⟨⟨⟨hfree, hfree'⟩, hf⟩, hg⟩ := h
        exact .inner (ihf hf) hfree (ihg hg) hfree'
      · rw [holdsBelow, if_neg hinner] at h
        split at h
        · rename_i houter
          subst houter
          rw [Bool.and_eq_true] at h
          exact .outer (ihf h.1) (ihg h.2)
        · exact absurd h (by simp)

/-- **What is distributed is in the normal form.** -/
theorem Distributes.isNormal (h : form.Distributes f g n) : form.IsNormal g := by
  induction h with
  | literal h => exact .literal h
  | outer _ _ iha ihb => exact .outer iha ihb
  | left _ _ _ _ _ _ ihk ihl => exact .outer ihk ihl
  | right _ _ _ _ _ _ _ ihk ihl => exact .outer ihk ihl
  | inner _ hlhs _ hrhs iha ihb => exact .inner iha hlhs ihb hrhs

namespace IsNormal

/-- Both arguments of an outer connective are in normal form. -/
theorem arguments (h : form.IsNormal (.binary form.outer f g)) :
    form.IsNormal f ∧ form.IsNormal g := by
  simpa [isNormal_iff, holdsBelow, outer_ne_inner] using h

/-- A formula in normal form is a combination of literals. -/
theorem isCombination (h : form.IsNormal f) : f.IsCombination := by
  induction h with
  | literal h => exact .literal h
  | outer _ _ ihf ihg => exact .binary form.outer_eq_and_or ihf ihg
  | inner _ _ _ _ ihf ihg => exact .binary form.inner_eq_and_or ihf ihg

/-- There are no quantifiers in a formula in normal form. -/
theorem isQuantifierFree (h : form.IsNormal f) : f.isQuantifierFree = true :=
  h.isCombination.isQuantifierFree

end IsNormal

end NormalForm

end LogicForms
