import LogicForms.Proofs.Shapes

/-!
# Free variables of results

What occurs free in a formula after substitution, behind a prefix, with its quantifiers moved to the
front, and in Skolem form. Where the quantified variables are pairwise different and none of them
occurs free, no pass gains or loses a free variable: moving quantifiers to the front
(`Extracts.mem_freeVars_quantify`) captures none, and the variables that Skolem terms bring into the
matrix are universally quantified in front of it (`mem_freeVars_skolemize`).

`Formula.IsHygienicPrenex` is what becomes of a prenex form under these circumstances.
-/

set_option autoImplicit false

namespace LogicForms

/-! ### Substitution -/

/-- A variable of a term with terms substituted comes from what is put in for a variable. -/
theorem Term.mem_vars_subst {σ : Substitution} {x : String} {t : Term} :
    x ∈ (t.subst σ).vars ↔ ∃ y ∈ t.vars, x ∈ ((σ.find? y).getD (.var y)).vars := by
  have list (ts : List Term) (ih : ∀ t ∈ ts, x ∈ (t.subst σ).vars ↔
      ∃ y ∈ t.vars, x ∈ ((σ.find? y).getD (.var y)).vars) :
      x ∈ varsList (substList σ ts) ↔
        ∃ y ∈ varsList ts, x ∈ ((σ.find? y).getD (.var y)).vars := by
    rw [substList_eq_map, mem_varsList]
    constructor
    · rintro ⟨u, hu, hx⟩
      obtain ⟨t, ht, rfl⟩ := List.mem_map.1 hu
      obtain ⟨y, hy, hxy⟩ := (ih t ht).1 hx
      exact ⟨y, mem_varsList.2 ⟨t, ht, hy⟩, hxy⟩
    · rintro ⟨y, hy, hxy⟩
      obtain ⟨t, ht, hyt⟩ := mem_varsList.1 hy
      exact ⟨t.subst σ, List.mem_map_of_mem ht, (ih t ht).2 ⟨y, hyt, hxy⟩⟩
  induction t using rec' with
  | hvar z => simp
  | hconst c => simp
  | hfunc f args ih => exact list args ih
  | heq s t ihs iht =>
    simp only [subst_eq, vars_eq, List.mem_append, ihs, iht, or_and_right, exists_or]
  | hpred p args ih => exact list args ih
  | hnot t ih => exact ih
  | hbinary op s t ihs iht =>
    simp only [subst_binary, vars_binary, List.mem_append, ihs, iht, or_and_right, exists_or]
  | hquant q z t ih => exact ih
  | hbound z => simp

namespace Formula

variable {f g m : Formula} {p : Prefix} {x : String}

/-- A variable that is free in a formula with terms substituted comes from what is put in for a free
variable. -/
theorem mem_freeVars_subst {σ : Substitution} (h : σ.AvoidsCapture f) :
    x ∈ (f.subst σ).freeVars ↔ ∃ y ∈ f.freeVars, x ∈ ((σ.find? y).getD (.var y)).vars := by
  induction f generalizing σ with
  | pred r args =>
    rw [subst_pred, freeVars_pred, freeVars_pred]
    exact Term.mem_vars_subst (t := .func r args)
  | eq s t =>
    rw [subst_eq, freeVars_eq, freeVars_eq]
    exact Term.mem_vars_subst (t := .eq s t)
  | not f ih => exact ih h
  | binary op f g ihf ihg =>
    have hf : σ.AvoidsCapture f := h.mono (by simp) (by simp)
    have hg : σ.AvoidsCapture g := h.mono (by simp) (by simp)
    simp only [subst_binary, freeVars_binary, List.mem_append, ihf hf, ihg hg, or_and_right,
      exists_or]
  | quant q z f ih =>
    rw [subst_quant, mem_freeVars_quant, ih h.scope]
    constructor
    · rintro ⟨⟨y, hy, hxy⟩, hxz⟩
      rw [Substitution.find?_without] at hxy
      by_cases hyz : y = z
      · -- nothing is put in for the variable of the quantifier itself
        rw [if_pos hyz] at hxy
        exact absurd ((List.mem_singleton.1 hxy).trans hyz) hxz
      · rw [if_neg hyz] at hxy
        exact ⟨y, mem_freeVars_quant.2 ⟨hy, hyz⟩, hxy⟩
    · rintro ⟨y, hy, hxy⟩
      obtain ⟨hyf, hyz⟩ := mem_freeVars_quant.1 hy
      have hfind : (σ.without z).find? y = σ.find? y := by
        rw [Substitution.find?_without, if_neg hyz]
      refine ⟨⟨y, hyf, by rwa [hfind]⟩, ?_⟩
      cases ht : σ.find? y with
      | none =>
        rw [ht] at hxy
        exact fun hxz => hyz ((List.mem_singleton.1 hxy).symm.trans hxz)
      | some t =>
        rw [ht] at hxy
        exact (h.of_mem_scope hyf (hfind.trans ht) x hxy).1

/-- With a term put in for one variable, this variable makes way for the variables of the term. -/
theorem mem_freeVars_subst_singleton {y : String} {t : Term}
    (h : ∀ z ∈ t.vars, z ∉ f.quantifiedVars) :
    x ∈ (f.subst [(y, t)]).freeVars ↔
      (x ∈ f.freeVars ∧ x ≠ y) ∨ (y ∈ f.freeVars ∧ x ∈ t.vars) := by
  rw [mem_freeVars_subst (Substitution.avoidsCapture_singleton y h)]
  simp only [Substitution.find?_singleton]
  constructor
  · rintro ⟨z, hz, hxz⟩
    by_cases hzy : z = y
    · rw [if_pos hzy] at hxz
      exact Or.inr ⟨hzy ▸ hz, hxz⟩
    · rw [if_neg hzy] at hxz
      obtain rfl : x = z := List.mem_singleton.1 hxz
      exact Or.inl ⟨hz, hzy⟩
  · rintro (⟨hx, hxy⟩ | ⟨hy, hxt⟩)
    · exact ⟨x, hx, by rw [if_neg hxy]; exact List.mem_singleton_self x⟩
    · exact ⟨y, hy, by rw [if_pos rfl]; exact hxt⟩

/-! ### Prefixes -/

theorem mem_freeVars_quantify :
    x ∈ (f.quantify p).freeVars ↔ x ∈ f.freeVars ∧ x ∉ p.map Binder.var := by
  induction p with
  | nil => simp
  | cons b p ih =>
    rw [quantify_cons, mem_freeVars_quant, ih, List.map_cons, List.mem_cons, not_or, and_assoc]
    exact and_congr_right fun _ => and_comm

/-- Moving quantifiers to the front changes no free variable if none of those quantified occurs
free. -/
theorem Extracts.mem_freeVars_quantify (h : f.Extracts p m)
    (hfree : ∀ y ∈ f.quantifiedVars, y ∉ f.freeVars) :
    x ∈ (m.quantify p).freeVars ↔ x ∈ f.freeVars := by
  rw [Formula.mem_freeVars_quantify, ← h.quantifiedVars_eq]
  constructor
  · rintro ⟨hxm, hxf⟩
    have hocc : x ∈ f.occurrences := by
      rw [← h.occurrences_eq]
      exact freeVars_subset_occurrences m hxm
    exact (mem_freeVars_or_mem_quantifiedVars hocc).resolve_right hxf
  · intro hx
    have hocc : x ∈ m.occurrences := by
      rw [h.occurrences_eq]
      exact freeVars_subset_occurrences f hx
    refine ⟨?_, fun hxf => hfree x hxf hx⟩
    refine (mem_freeVars_or_mem_quantifiedVars hocc).resolve_right ?_
    rw [h.quantifiedVars_matrix]
    exact List.not_mem_nil

/-! ### Skolem forms -/

/-- Treating a prefix changes no free variable of the formula behind the universal quantifiers
treated so far. -/
theorem mem_freeVars_skolemizeBehind {universals : List String} {names : NameSupply}
    (hs : Skolemizable universals p f names) :
    x ∈ (skolemizeBehind universals p f names).1.freeVars ↔
      x ∈ (f.quantify p).freeVars ∧ x ∉ universals := by
  induction p generalizing universals f names with
  | nil =>
    rw [skolemizeBehind, mem_freeVars_quantify, List.map_map]
    simp
  | cons b p ih =>
    obtain ⟨q, z⟩ := b
    rw [quantify_cons, mem_freeVars_quant]
    cases q with
    | universal =>
      rw [skolemizeBehind, ih hs.universal, List.mem_append, List.mem_singleton, not_or, and_assoc]
      exact and_congr_right fun _ => and_comm
    | existential =>
      rw [skolemizeBehind_existential, ih hs.existential, ← subst_quantify hs.not_mem_prefix,
        mem_freeVars_subst_singleton (hs.vars_not_mem_scope _), Term.vars_skolem]
      -- the variables of the Skolem term are among those in front, which do not count
      constructor
      · rintro ⟨hx | hx, hxu⟩
        · exact ⟨hx, hxu⟩
        · exact absurd hx.2 hxu
      · rintro ⟨hx, hxu⟩
        exact ⟨Or.inl hx, hxu⟩

/-- A Skolem form has the free variables of the formula. -/
theorem mem_freeVars_skolemize (h : f.quantifiedVars.Nodup) (names : NameSupply) :
    x ∈ (f.skolemize names).1.freeVars ↔ x ∈ f.freeVars := by
  rw [skolemize, mem_freeVars_skolemizeBehind (skolemizable_leading h names), quantify_leading]
  simp

/-! ### Hygienic prenex forms -/

/-- No variable is quantified twice, none of those quantified occurs free, and all quantifiers are
in front. -/
structure IsHygienicPrenex (f : Formula) : Prop where
  nodup : f.quantifiedVars.Nodup
  not_free : ∀ x ∈ f.quantifiedVars, x ∉ f.freeVars
  matrix : f.matrix.isQuantifierFree = true

/-- A formula without quantifiers is in hygienic prenex form behind quantifiers for pairwise
different variables. -/
theorem isHygienicPrenex_quantify (hm : m.isQuantifierFree = true) (hp : (p.map Binder.var).Nodup) :
    (m.quantify p).IsHygienicPrenex := by
  have hvars : (m.quantify p).quantifiedVars = p.map Binder.var := by
    rw [quantifiedVars_quantify, m.isQuantifierFree_iff.1 hm, List.append_nil]
  refine ⟨hvars ▸ hp, fun x hx hfree => ?_, ?_⟩
  · -- what the prefix binds is not free behind it
    rw [hvars] at hx
    exact (mem_freeVars_quantify.1 hfree).2 hx
  · rw [(matrix_quantify (isQuantified_of_isQuantifierFree hm) p).1]
    exact hm

end Formula

/-- A conjunctive or disjunctive normal form has the quantifiers of the prenex formula in front of a
formula without quantifiers. -/
theorem NormalForm.exists_matrix_ofPrenex {form : NormalForm} {f g : Formula} {budget : Budget}
    (h : (form.ofPrenex f budget).1 = .ok g) :
    ∃ m : Formula, m.isQuantifierFree = true ∧ g = m.quantify f.leading := by
  obtain ⟨r, hr, rfl⟩ := ofPrenex_eq_ok_iff.1 h
  obtain ⟨n, hdistributes, -⟩ := distributes_of_distributeWithin _ hr
  exact ⟨r.formula, hdistributes.isNormal.isQuantifierFree, rfl⟩

end LogicForms
