import Mathlib.Logic.Basic
import LogicForms.Forms.Prenex
import LogicForms.Proofs.Coincidence
import LogicForms.Proofs.Outcomes

/-!
# Moving quantifiers to the front

`Formula.Extracts` says what moving quantifiers to the front does with each kind of formula in
negation normal form, and `extract_eq_ok_iff` that it does this and nothing else. What is known
about the prefix and the matrix is proved along this relation: the prefix has the variables of all
quantifiers from left to right, and the matrix is the formula without its quantifiers.

A prefix may be moved over the other argument of a conjunction or a disjunction if none of its
variables occurs free there, provided that the domain is not empty (`holds_quantify_left`). So the
matrix behind the prefix is equivalent to a formula whose quantifiers bind variables of their own
(`Extracts.holds_quantify`).
-/

set_option autoImplicit false

namespace LogicForms

universe u

/-! ### Quantifiers and connectives -/

/-- A quantifier may be moved over a statement in which its variable has no part. -/
theorem Quantifier.holds_op_left {D : Type u} [Nonempty D] (q : Quantifier) {op : Connective}
    (hop : op = .and ∨ op = .or) (p : D → Prop) (b : Prop) :
    (q.Holds fun d => op.Holds (p d) b) ↔ op.Holds (q.Holds p) b := by
  rcases hop with rfl | rfl
  · cases q with
    | universal => exact forall_and_right p b
    | existential => exact exists_and_right
  · cases q with
    | universal => exact forall_or_right
    | existential => exact exists_or.trans (or_congr_right (exists_const D))

theorem Connective.holds_comm {op : Connective} (hop : op = .and ∨ op = .or) (a b : Prop) :
    op.Holds a b ↔ op.Holds b a := by
  rcases hop with rfl | rfl
  · exact and_comm
  · exact or_comm

namespace Formula

/-! ### Formulas behind a prefix -/

theorem quantifiedVars_quantify (f : Formula) (p : Prefix) :
    (f.quantify p).quantifiedVars = p.map Binder.var ++ f.quantifiedVars := by
  induction p with
  | nil => rfl
  | cons b p ih => rw [quantify_cons, quantifiedVars_quant, ih, List.map_cons, List.cons_append]

theorem symbols_quantify (f : Formula) (p : Prefix) :
    (f.quantify p).symbols = p.map Binder.var ++ f.symbols := by
  induction p with
  | nil => rfl
  | cons b p ih => rw [quantify_cons, symbols_quant, ih, List.map_cons, List.cons_append]

@[simp] theorem occurrences_quantify (f : Formula) (p : Prefix) :
    (f.quantify p).occurrences = f.occurrences := by
  induction p with
  | nil => rfl
  | cons b p ih => rw [quantify_cons, occurrences_quant, ih]

section

variable {D : Type u} (M : Structure D)

/-- Formulas that are true together remain so behind the same prefix. -/
theorem holds_quantify_congr {f g : Formula} (h : ∀ v, f.Holds M v ↔ g.Holds M v) (p : Prefix)
    (v : Valuation D) : (f.quantify p).Holds M v ↔ (g.quantify p).Holds M v := by
  induction p generalizing v with
  | nil => exact h v
  | cons b p ih => exact b.quantifier.holds_congr fun d => ih (v.update b.var d)

variable [Nonempty D] {op : Connective} (hop : op = .and ∨ op = .or)

include hop

/-- A prefix in front of the left argument may be moved over the right argument. -/
theorem holds_quantify_left {f k : Formula} {p : Prefix} (h : ∀ b ∈ p, b.var ∉ k.freeVars)
    (v : Valuation D) :
    ((binary op f k).quantify p).Holds M v ↔ (binary op (f.quantify p) k).Holds M v := by
  induction p generalizing v with
  | nil => rfl
  | cons b p ih =>
    rw [List.forall_mem_cons] at h
    have hscope (d : D) : ((binary op f k).quantify p).Holds M (v.update b.var d)
        ↔ op.Holds ((f.quantify p).Holds M (v.update b.var d)) (k.Holds M v) :=
      (ih h.2 _).trans (op.holds_congr Iff.rfl (holds_update_of_not_mem M h.1 v d))
    exact (b.quantifier.holds_congr hscope).trans (b.quantifier.holds_op_left hop _ _)

/-- A prefix in front of the right argument may be moved over the left argument. -/
theorem holds_quantify_right {f k : Formula} {p : Prefix} (h : ∀ b ∈ p, b.var ∉ f.freeVars)
    (v : Valuation D) :
    ((binary op f k).quantify p).Holds M v ↔ (binary op f (k.quantify p)).Holds M v := by
  have hcomm (w : Valuation D) : (binary op f k).Holds M w ↔ (binary op k f).Holds M w :=
    Connective.holds_comm hop _ _
  calc ((binary op f k).quantify p).Holds M v
      ↔ ((binary op k f).quantify p).Holds M v := holds_quantify_congr M hcomm p v
    _ ↔ (binary op (k.quantify p) f).Holds M v := holds_quantify_left M hop h v
    _ ↔ (binary op f (k.quantify p)).Holds M v := Connective.holds_comm hop _ _

end

/-! ### What is extracted -/

/-- A literal has no quantifiers. -/
theorem quantifiedVars_of_isLiteral {f : Formula} (h : f.isLiteral = true) :
    f.quantifiedVars = [] := by
  cases f with
  | pred p args => rfl
  | eq s t => rfl
  | not f => cases f <;> simp_all
  | binary op f g => simp at h
  | quant q x f => simp at h

/-- The quantifiers of the formula are those of the prefix, from left to right, and the matrix is
the formula without them. There is nothing to extract from a literal. -/
inductive Extracts : Formula → Prefix → Formula → Prop
  | literal {f : Formula} (h : f.isLiteral = true) : Extracts f [] f
  | binary {op : Connective} {f g m m' : Formula} {p p' : Prefix} (hop : op = .and ∨ op = .or)
      (hf : Extracts f p m) (hg : Extracts g p' m') :
      Extracts (.binary op f g) (p ++ p') (.binary op m m')
  | quant {f m : Formula} {p : Prefix} (q : Quantifier) (x : String) (hf : Extracts f p m) :
      Extracts (.quant q x f) (⟨q, x⟩ :: p) m

/-- Both arguments of a conjunction or a disjunction are treated, the left one first. -/
theorem extract_binary {op : Connective} (hop : op = .and ∨ op = .or) (f g : Formula) :
    (binary op f g).extract = (do
      let (p, m) ← f.extract
      let (p', m') ← g.extract
      return (p ++ p', binary op m m')) := by
  rcases hop with rfl | rfl <;> rfl

/-- What `extract` gives is extracted. -/
theorem extracts_of_extract {f m : Formula} {p : Prefix} (h : f.extract = .ok (p, m)) :
    f.Extracts p m := by
  induction f generalizing p m with
  | pred r args =>
    cases h
    exact .literal rfl
  | eq s t =>
    cases h
    exact .literal rfl
  | not f ih =>
    rw [extract] at h
    split at h
    · rename_i hatomic
      cases h
      exact .literal hatomic
    · exact absurd h (by simp)
  | binary op f g ihf ihg =>
    -- in negation normal form, no other connectives are left
    have hop : op = .and ∨ op = .or := by
      cases op with
      | and => exact Or.inl rfl
      | or => exact Or.inr rfl
      | implies => exact absurd h (by simp [extract])
      | iff => exact absurd h (by simp [extract])
    rw [extract_binary hop, bind_eq_ok] at h
    obtain ⟨⟨p₁, m₁⟩, hf, h⟩ := h
    obtain ⟨⟨p₂, m₂⟩, hg, h⟩ := bind_eq_ok.1 h
    cases h
    exact .binary hop (ihf hf) (ihg hg)
  | quant q x f ih =>
    obtain ⟨⟨p₁, m₁⟩, hf, h⟩ := bind_eq_ok.1 h
    cases h
    exact .quant q x (ih hf)

/-- Quantifiers are moved to the front exactly as `Extracts` describes it. -/
theorem extract_eq_ok_iff {f m : Formula} {p : Prefix} :
    f.extract = .ok (p, m) ↔ f.Extracts p m := by
  refine ⟨extracts_of_extract, fun h => ?_⟩
  induction h with
  | @literal f h =>
    cases f with
    | pred p args => rfl
    | eq s t => rfl
    | not f => rw [extract, if_pos (by simpa using h)]
    | binary op f g => exact absurd h (by simp)
    | quant q x f => exact absurd h (by simp)
  | binary hop hf hg ihf ihg =>
    rw [extract_binary hop, ihf, ihg]
    rfl
  | quant q x hf ih =>
    rw [extract, ih]
    rfl

namespace Extracts

variable {f m : Formula} {p : Prefix}

/-- The prefix has the variables of all quantifiers, from left to right. -/
theorem quantifiedVars_eq (h : f.Extracts p m) : f.quantifiedVars = p.map Binder.var := by
  induction h with
  | literal h => rw [quantifiedVars_of_isLiteral h, List.map_nil]
  | binary hop hf hg ihf ihg => rw [quantifiedVars_binary, ihf, ihg, List.map_append]
  | quant q x hf ih => rw [quantifiedVars_quant, ih, List.map_cons]

/-- No quantifier is left in the matrix. -/
theorem quantifiedVars_matrix (h : f.Extracts p m) : m.quantifiedVars = [] := by
  induction h with
  | literal h => exact quantifiedVars_of_isLiteral h
  | binary hop hf hg ihf ihg => rw [quantifiedVars_binary, ihf, ihg, List.append_nil]
  | quant q x hf ih => exact ih

/-- The matrix has the variables of the formula, in the same places. -/
theorem occurrences_eq (h : f.Extracts p m) : m.occurrences = f.occurrences := by
  induction h with
  | literal h => rfl
  | binary hop hf hg ihf ihg => rw [occurrences_binary, occurrences_binary, ihf, ihg]
  | quant q x hf ih => exact ih

/-- The matrix and its prefix have no other names than the formula. -/
theorem mem_symbols (h : f.Extracts p m) {c : String} (hc : c ∈ (m.quantify p).symbols) :
    c ∈ f.symbols := by
  rw [symbols_quantify] at hc
  induction h with
  | literal h => exact hc
  | binary hop hf hg ihf ihg =>
    rw [symbols_binary, List.mem_append] at hc ⊢
    rw [List.map_append, List.mem_append, List.mem_append] at hc
    rcases hc with (hc | hc) | hc | hc
    · exact Or.inl (ihf (List.mem_append.2 (Or.inl hc)))
    · exact Or.inr (ihg (List.mem_append.2 (Or.inl hc)))
    · exact Or.inl (ihf (List.mem_append.2 (Or.inr hc)))
    · exact Or.inr (ihg (List.mem_append.2 (Or.inr hc)))
  | quant q x hf ih =>
    rcases List.mem_cons.1 hc with rfl | hc
    · exact List.mem_cons_self
    · exact List.mem_cons_of_mem x (ih hc)

/-- A variable that neither occurs free in the formula nor is quantified in it does not occur free
in the matrix, whatever prefix is put in front. -/
theorem not_mem_freeVars (h : f.Extracts p m) {x : String} (hfree : x ∉ f.freeVars)
    (hquant : x ∉ f.quantifiedVars) (p' : Prefix) : x ∉ (m.quantify p').freeVars := by
  intro hx
  have hocc : x ∈ f.occurrences := by
    rw [← h.occurrences_eq, ← occurrences_quantify m p']
    exact freeVars_subset_occurrences _ hx
  rcases mem_freeVars_or_mem_quantifiedVars hocc with hx | hx
  · exact hfree hx
  · exact hquant hx

/-- With all quantifiers in front, a formula says the same if its quantifiers bind pairwise
different variables, none of which occurs free. -/
theorem holds_quantify {D : Type u} [Nonempty D] (M : Structure D) (h : f.Extracts p m)
    (hnodup : f.quantifiedVars.Nodup) (hfree : ∀ x ∈ f.quantifiedVars, x ∉ f.freeVars)
    (v : Valuation D) : (m.quantify p).Holds M v ↔ f.Holds M v := by
  induction h generalizing v with
  | literal h => rfl
  | @binary op f g m m' p p' hop hf hg ihf ihg =>
    rw [quantifiedVars_binary, List.nodup_append] at hnodup
    obtain ⟨hnf, hng, hdisjoint⟩ := hnodup
    simp only [quantifiedVars_binary, freeVars_binary, List.mem_append, not_or] at hfree
    have hfreef (x : String) (hx : x ∈ f.quantifiedVars) := hfree x (Or.inl hx)
    have hfreeg (x : String) (hx : x ∈ g.quantifiedVars) := hfree x (Or.inr hx)
    -- the prefix of one side says nothing about the other side
    have hleft : ∀ b ∈ p, b.var ∉ (m'.quantify p').freeVars := by
      intro b hb
      have hbf : b.var ∈ f.quantifiedVars := by
        rw [hf.quantifiedVars_eq]
        exact List.mem_map_of_mem hb
      exact hg.not_mem_freeVars (hfreef _ hbf).2 (fun hbg => hdisjoint _ hbf _ hbg rfl) p'
    have hright : ∀ b ∈ p', b.var ∉ m.freeVars := by
      intro b hb
      have hbg : b.var ∈ g.quantifiedVars := by
        rw [hg.quantifiedVars_eq]
        exact List.mem_map_of_mem hb
      exact hf.not_mem_freeVars (hfreeg _ hbg).1 (fun hbf => hdisjoint _ hbf _ hbg rfl) []
    have ihf' (w : Valuation D) := ihf hnf (fun x hx => (hfreef x hx).1) w
    have ihg' (w : Valuation D) := ihg hng (fun x hx => (hfreeg x hx).2) w
    calc ((Formula.binary op m m').quantify (p ++ p')).Holds M v
        ↔ (((Formula.binary op m m').quantify p').quantify p).Holds M v := by
          rw [quantify_append]
      _ ↔ ((Formula.binary op m (m'.quantify p')).quantify p).Holds M v :=
          holds_quantify_congr M (holds_quantify_right M hop hright) p v
      _ ↔ (Formula.binary op (m.quantify p) (m'.quantify p')).Holds M v :=
          holds_quantify_left M hop hleft v
      _ ↔ (Formula.binary op f g).Holds M v := op.holds_congr (ihf' v) (ihg' v)
  | @quant f m p q x hf ih =>
    rw [quantifiedVars_quant, List.nodup_cons] at hnodup
    -- behind the quantifier `x` may occur free, but it is not quantified a second time
    refine q.holds_congr fun d => ih hnodup.2 (fun y hy hyf => ?_) (v.update x d)
    have hyx : y ≠ x := by
      rintro rfl
      exact hnodup.1 hy
    exact hfree y (List.mem_cons_of_mem x hy) (mem_freeVars_quant.2 ⟨hyf, hyx⟩)

end Extracts

end Formula

end LogicForms
