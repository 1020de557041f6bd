import LogicForms.Formula.Occurrences
import LogicForms.Semantics

/-!
# What truth depends on

The free occurrences of variables behind some bound variables are the free occurrences without these
variables (`Formula.freeVarsIn_eq_filter`). Truth depends on the values of the free variables only
(`Formula.holds_congr`), and on the interpretation of those names only that occur in the formula
(`Formula.holds_of_agreesOutside`).

Substitution of terms in which no variable gets captured is a change of the valuation
(`Formula.holds_subst`).
-/

set_option autoImplicit false

namespace LogicForms

universe u

/-! ### Free variables -/

namespace Formula

/-- Bound variables given to start with are filtered out of the free occurrences. -/
theorem freeVarsIn_eq_filter (f : Formula) (bound : List String) :
    f.freeVarsIn bound = f.freeVars.filter fun x => !bound.contains x := by
  induction f generalizing bound with
  | pred p args => simp [freeVars, freeVarsIn]
  | eq s t => simp [freeVars, freeVarsIn]
  | not f ih => exact ih bound
  | binary op f g ihf ihg =>
    have hf := ihf bound
    have hg := ihg bound
    simp only [freeVars, freeVarsIn, List.filter_append] at hf hg ⊢
    rw [hf, hg]
  | quant q x f ih =>
    have h₁ : f.freeVarsIn (x :: bound) = _ := ih (x :: bound)
    have h₂ : f.freeVarsIn [x] = _ := ih [x]
    simp only [freeVars, freeVarsIn] at h₁ h₂ ⊢
    -- filtering out `x` and then the variables outside is filtering out all of them at once
    rw [h₁, h₂, List.filter_filter]
    refine List.filter_congr fun y _ => ?_
    by_cases hy : y = x <;> simp [hy]

theorem mem_freeVarsIn {f : Formula} {bound : List String} {x : String} :
    x ∈ f.freeVarsIn bound ↔ x ∈ f.freeVars ∧ x ∉ bound := by
  simp [freeVarsIn_eq_filter f bound]

@[simp] theorem freeVars_pred (p : String) (args : List Term) :
    (pred p args).freeVars = Term.varsList args := by
  simp [freeVars, freeVarsIn]

@[simp] theorem freeVars_eq (s t : Term) : (eq s t).freeVars = s.vars ++ t.vars := by
  rw [freeVars, freeVarsIn]
  exact List.filter_eq_self.2 fun _ _ => rfl

@[simp] theorem freeVars_not (f : Formula) : (not f).freeVars = f.freeVars := rfl

@[simp] theorem freeVars_binary (op : Connective) (f g : Formula) :
    (binary op f g).freeVars = f.freeVars ++ g.freeVars := rfl

theorem mem_freeVars_quant {q : Quantifier} {x y : String} {f : Formula} :
    y ∈ (quant q x f).freeVars ↔ y ∈ f.freeVars ∧ y ≠ x := by
  have h : y ∈ f.freeVarsIn [x] ↔ y ∈ f.freeVars ∧ y ∉ [x] := mem_freeVarsIn
  rw [List.mem_singleton] at h
  exact h

/-- A free occurrence is an occurrence. -/
theorem freeVars_subset_occurrences (f : Formula) : f.freeVars ⊆ f.occurrences := by
  induction f with
  | pred p args => simp
  | eq s t => simp
  | not f ih => exact ih
  | binary op f g ihf ihg =>
    intro x hx
    simp only [freeVars_binary, occurrences_binary, List.mem_append] at hx ⊢
    exact hx.imp (fun h => ihf h) (fun h => ihg h)
  | quant q x f ih =>
    intro y hy
    exact ih (mem_freeVars_quant.1 hy).1

/-- A variable that occurs is free or quantified somewhere. -/
theorem mem_freeVars_or_mem_quantifiedVars {f : Formula} {x : String} (h : x ∈ f.occurrences) :
    x ∈ f.freeVars ∨ x ∈ f.quantifiedVars := by
  induction f with
  | pred p args => exact Or.inl (by simpa using h)
  | eq s t => exact Or.inl (by simpa using h)
  | not f ih => exact ih h
  | binary op f g ihf ihg =>
    simp only [occurrences_binary, freeVars_binary, quantifiedVars_binary, List.mem_append] at h ⊢
    rcases h with h | h
    · rcases ihf h with h | h <;> simp [h]
    · rcases ihg h with h | h <;> simp [h]
  | quant q y f ih =>
    rw [mem_freeVars_quant, quantifiedVars_quant, List.mem_cons]
    by_cases hxy : x = y
    · exact Or.inr (Or.inl hxy)
    · exact (ih h).imp (fun hf => ⟨hf, hxy⟩) Or.inr

end Formula

/-! ### Names that occur -/

namespace Term

theorem mem_varsList {ts : List Term} {x : String} : x ∈ varsList ts ↔ ∃ t ∈ ts, x ∈ t.vars := by
  rw [varsList_eq_flatMap, List.mem_flatMap]

theorem mem_symbolsList {ts : List Term} {c : String} :
    c ∈ symbolsList ts ↔ ∃ t ∈ ts, c ∈ t.symbols := by
  rw [symbolsList_eq_flatMap, List.mem_flatMap]

/-- The variables of a term are among its names. -/
theorem mem_symbols_of_mem_vars {t : Term} {x : String} (h : x ∈ t.vars) : x ∈ t.symbols := by
  induction t using rec' with
  | hvar y => simpa using h
  | hconst c => simp at h
  | hfunc f args ih =>
    obtain ⟨t, ht, hx⟩ := mem_varsList.1 h
    exact List.mem_cons_of_mem f (mem_symbolsList.2 ⟨t, ht, ih t ht hx⟩)
  | heq s t ihs iht =>
    rw [vars_eq, List.mem_append] at h
    rw [symbols_eq, List.mem_append]
    exact h.imp ihs iht
  | hpred p args ih =>
    obtain ⟨t, ht, hx⟩ := mem_varsList.1 h
    exact List.mem_cons_of_mem p (mem_symbolsList.2 ⟨t, ht, ih t ht hx⟩)
  | hnot t ih => exact ih h
  | hbinary op s t ihs iht =>
    rw [vars_binary, List.mem_append] at h
    rw [symbols_binary, List.mem_append]
    exact h.imp ihs iht
  | hquant q y t ih => exact List.mem_cons_of_mem y (ih h)
  | hbound y => simp at h

theorem mem_symbolsList_of_mem_varsList {ts : List Term} {x : String} (h : x ∈ varsList ts) :
    x ∈ symbolsList ts := by
  obtain ⟨t, ht, hx⟩ := mem_varsList.1 h
  exact mem_symbolsList.2 ⟨t, ht, mem_symbols_of_mem_vars hx⟩

end Term

namespace Formula

/-- The variables of a formula are among its names. -/
theorem mem_symbols_of_mem_occurrences {f : Formula} {x : String} (h : x ∈ f.occurrences) :
    x ∈ f.symbols := by
  induction f with
  | pred p args => exact List.mem_cons_of_mem _ (Term.mem_symbolsList_of_mem_varsList h)
  | eq s t =>
    rw [occurrences_eq, List.mem_append] at h
    rw [symbols_eq, List.mem_append]
    exact h.imp Term.mem_symbols_of_mem_vars Term.mem_symbols_of_mem_vars
  | not f ih => exact ih h
  | binary op f g ihf ihg =>
    rw [occurrences_binary, List.mem_append] at h
    rw [symbols_binary, List.mem_append]
    exact h.imp ihf ihg
  | quant q y f ih => exact List.mem_cons_of_mem _ (ih h)

theorem mem_symbols_of_mem_freeVars {f : Formula} {x : String} (h : x ∈ f.freeVars) :
    x ∈ f.symbols :=
  mem_symbols_of_mem_occurrences (f.freeVars_subset_occurrences h)

theorem mem_symbols_of_mem_quantifiedVars {f : Formula} {x : String}
    (h : x ∈ f.quantifiedVars) : x ∈ f.symbols := by
  induction f with
  | pred p args => simp at h
  | eq s t => simp at h
  | not f ih => exact ih h
  | binary op f g ihf ihg =>
    rw [quantifiedVars_binary, List.mem_append] at h
    rw [symbols_binary, List.mem_append]
    exact h.imp ihf ihg
  | quant q y f ih =>
    rw [quantifiedVars_quant, List.mem_cons] at h
    rw [symbols_quant, List.mem_cons]
    exact h.imp id ih

end Formula

/-! ### Values of variables -/

namespace Term

variable {D : Type u} (M : Structure D)

/-- The value of a term depends on the values of its variables only. -/
theorem value_congr {v w : Valuation D} {t : Term} (h : ∀ x ∈ t.vars, v x = w x) :
    t.value M v = t.value M w := by
  induction t using rec' with
  | hvar x => exact h x (by simp)
  | hconst c => rfl
  | hfunc f args ih =>
    have hargs : ∀ t ∈ args, t.value M v = t.value M w := fun t ht =>
      ih t ht fun x hx => h x (mem_varsList.2 ⟨t, ht, hx⟩)
    rw [value_func, value_func, valueList_eq_map, valueList_eq_map, List.map_congr_left hargs]
  | heq s t ihs iht =>
    simp only [vars_eq, List.forall_mem_append] at h
    rw [value_eq, value_eq, ihs h.1, iht h.2]
  | hpred p args ih =>
    have hargs : ∀ t ∈ args, t.value M v = t.value M w := fun t ht =>
      ih t ht fun x hx => h x (mem_varsList.2 ⟨t, ht, hx⟩)
    rw [value_pred, value_pred, valueList_eq_map, valueList_eq_map, List.map_congr_left hargs]
  | hnot t ih => rw [value_not, value_not, ih h]
  | hbinary op s t ihs iht =>
    simp only [vars_binary, List.forall_mem_append] at h
    rw [value_binary, value_binary, ihs h.1, iht h.2]
  | hquant q x t ih => rw [value_quant, value_quant, ih h]
  | hbound x => rfl

theorem valueList_congr {v w : Valuation D} {ts : List Term} (h : ∀ x ∈ varsList ts, v x = w x) :
    valueList M v ts = valueList M w ts := by
  rw [valueList_eq_map, valueList_eq_map]
  exact List.map_congr_left fun t ht => value_congr M fun x hx => h x (mem_varsList.2 ⟨t, ht, hx⟩)

end Term

/-- A connective does not distinguish statements that are true together. -/
theorem Connective.holds_congr (op : Connective) {a a' b b' : Prop} (ha : a ↔ a') (hb : b ↔ b') :
    op.Holds a b ↔ op.Holds a' b' := by
  rw [propext ha, propext hb]

/-- A quantifier does not distinguish properties that the same elements have. -/
theorem Quantifier.holds_congr {D : Type u} (q : Quantifier) {p p' : D → Prop}
    (h : ∀ d, p d ↔ p' d) : q.Holds p ↔ q.Holds p' := by
  rw [funext fun d => propext (h d)]

namespace Formula

variable {D : Type u} (M : Structure D)

/-- Truth depends on the values of the free variables only. -/
theorem holds_congr {f : Formula} {v w : Valuation D} (h : ∀ x ∈ f.freeVars, v x = w x) :
    f.Holds M v ↔ f.Holds M w := by
  induction f generalizing v w with
  | pred p args =>
    rw [freeVars_pred] at h
    rw [holds_pred, holds_pred, Term.valueList_congr M h]
  | eq s t =>
    simp only [freeVars_eq, List.forall_mem_append] at h
    rw [holds_eq, holds_eq, Term.value_congr M h.1, Term.value_congr M h.2]
  | not f ih => exact not_congr (ih h)
  | binary op f g ihf ihg =>
    simp only [freeVars_binary, List.forall_mem_append] at h
    exact op.holds_congr (ihf h.1) (ihg h.2)
  | quant q x f ih =>
    refine q.holds_congr fun d => ih fun y hy => ?_
    -- in the scope `x` has the same new value on both sides, also if it had different ones before
    by_cases hyx : y = x
    · subst hyx
      rw [Valuation.update_self, Valuation.update_self]
    · rw [Valuation.update_of_ne v d hyx, Valuation.update_of_ne w d hyx]
      exact h y (mem_freeVars_quant.2 ⟨hy, hyx⟩)

/-- The value of a variable that does not occur free is irrelevant. -/
theorem holds_update_of_not_mem {f : Formula} {x : String} (h : x ∉ f.freeVars) (v : Valuation D)
    (d : D) : f.Holds M (v.update x d) ↔ f.Holds M v := by
  refine holds_congr M fun y hy => Valuation.update_of_ne v d ?_
  rintro rfl
  exact h hy

end Formula

/-! ### Interpretations of names -/

/-- The structures differ at most in what constants and function symbols with the given names stand
for. -/
structure Structure.AgreesOutside {D : Type u} (names : List String) (M N : Structure D) :
    Prop where
  const : ∀ c, c ∉ names → N.const c = M.const c
  func : ∀ f, f ∉ names → N.func f = M.func f
  equation : N.equation = M.equation
  predicate : N.predicate = M.predicate
  negation : N.negation = M.negation
  connective : N.connective = M.connective
  quantifier : N.quantifier = M.quantifier
  bound : N.bound = M.bound
  rel : N.rel = M.rel

namespace Structure.AgreesOutside

variable {D : Type u} {M N K : Structure D} {names names' : List String}

theorem refl (names : List String) (M : Structure D) : M.AgreesOutside names M :=
  ⟨fun _ _ => rfl, fun _ _ => rfl, rfl, rfl, rfl, rfl, rfl, rfl, rfl⟩

/-- Two changes one after the other change at most the names of both. -/
theorem append (h : M.AgreesOutside names N) (h' : N.AgreesOutside names' K) :
    M.AgreesOutside (names ++ names') K where
  const c hc := by
    rw [List.mem_append, not_or] at hc
    rw [h'.const c hc.2, h.const c hc.1]
  func f hf := by
    rw [List.mem_append, not_or] at hf
    rw [h'.func f hf.2, h.func f hf.1]
  equation := h'.equation.trans h.equation
  predicate := h'.predicate.trans h.predicate
  negation := h'.negation.trans h.negation
  connective := h'.connective.trans h.connective
  quantifier := h'.quantifier.trans h.quantifier
  bound := h'.bound.trans h.bound
  rel := h'.rel.trans h.rel

end Structure.AgreesOutside

namespace Term

variable {D : Type u} {M N : Structure D} {names : List String}

/-- The value of a term depends on the names in it only. -/
theorem value_of_agreesOutside (h : M.AgreesOutside names N) (v : Valuation D) {t : Term}
    (ht : ∀ c ∈ t.symbols, c ∉ names) : t.value N v = t.value M v := by
  induction t using rec' with
  | hvar x => rfl
  | hconst c => exact h.const c (ht c (by simp))
  | hfunc f args ih =>
    simp only [symbols_func, List.forall_mem_cons] at ht
    have hargs : ∀ t ∈ args, t.value N v = t.value M v := fun t h =>
      ih t h fun c hc => ht.2 c (mem_symbolsList.2 ⟨t, h, hc⟩)
    rw [value_func, value_func, h.func f ht.1, valueList_eq_map, valueList_eq_map,
      List.map_congr_left hargs]
  | heq s t ihs iht =>
    simp only [symbols_eq, List.forall_mem_append] at ht
    rw [value_eq, value_eq, h.equation, ihs ht.1, iht ht.2]
  | hpred p args ih =>
    simp only [symbols_pred, List.forall_mem_cons] at ht
    have hargs : ∀ t ∈ args, t.value N v = t.value M v := fun t h =>
      ih t h fun c hc => ht.2 c (mem_symbolsList.2 ⟨t, h, hc⟩)
    rw [value_pred, value_pred, h.predicate, valueList_eq_map, valueList_eq_map,
      List.map_congr_left hargs]
  | hnot t ih => rw [value_not, value_not, h.negation, ih ht]
  | hbinary op s t ihs iht =>
    simp only [symbols_binary, List.forall_mem_append] at ht
    rw [value_binary, value_binary, h.connective, ihs ht.1, iht ht.2]
  | hquant q x t ih =>
    simp only [symbols_quant, List.forall_mem_cons] at ht
    rw [value_quant, value_quant, h.quantifier, ih ht.2]
  | hbound x => rw [value_bound, value_bound, h.bound]

theorem valueList_of_agreesOutside (h : M.AgreesOutside names N) (v : Valuation D)
    {ts : List Term} (hts : ∀ c ∈ symbolsList ts, c ∉ names) :
    valueList N v ts = valueList M v ts := by
  rw [valueList_eq_map, valueList_eq_map]
  exact List.map_congr_left fun t ht =>
    value_of_agreesOutside h v fun c hc => hts c (mem_symbolsList.2 ⟨t, ht, hc⟩)

end Term

/-- Truth depends on what the names in the formula stand for only. -/
theorem Formula.holds_of_agreesOutside {D : Type u} {M N : Structure D} {names : List String}
    (h : M.AgreesOutside names N) {f : Formula} (hf : ∀ c ∈ f.symbols, c ∉ names)
    (v : Valuation D) : f.Holds N v ↔ f.Holds M v := by
  induction f generalizing v with
  | pred p args =>
    simp only [symbols_pred, List.forall_mem_cons] at hf
    rw [holds_pred, holds_pred, h.rel, Term.valueList_of_agreesOutside h v hf.2]
  | eq s t =>
    simp only [symbols_eq, List.forall_mem_append] at hf
    rw [holds_eq, holds_eq, Term.value_of_agreesOutside h v hf.1,
      Term.value_of_agreesOutside h v hf.2]
  | not f ih => exact not_congr (ih hf v)
  | binary op f g ihf ihg =>
    simp only [symbols_binary, List.forall_mem_append] at hf
    exact op.holds_congr (ihf hf.1 v) (ihg hf.2 v)
  | quant q x f ih =>
    simp only [symbols_quant, List.forall_mem_cons] at hf
    exact q.holds_congr fun d => ih hf.2 (v.update x d)

/-! ### Substitution -/

/-- What is left of a substitution without the entries for a variable. -/
theorem Substitution.find?_without (σ : Substitution) (x y : String) :
    (σ.without x).find? y = if y = x then none else σ.find? y := by
  induction σ with
  | nil => simp [without, find?]
  | cons e σ ih =>
    obtain ⟨z, t⟩ := e
    simp only [without, find?] at ih ⊢
    by_cases hzx : z = x
    · rw [List.filter_cons_of_neg (by simpa using hzx), ih, List.lookup_cons]
      by_cases hyx : y = x
      · rw [if_pos hyx, if_pos hyx]
      · have hyz : (y == z) = false := by simpa [hzx] using hyx
        rw [if_neg hyx, if_neg hyx, hyz]
    · rw [List.filter_cons_of_pos (by simpa using hzx), List.lookup_cons, List.lookup_cons, ih]
      by_cases hyz : y = z
      · simp [hyz, hzx]
      · have hne : (y == z) = false := by simpa using hyz
        rw [hne]

/-- The first entry of a substitution counts for its variable only. -/
theorem Substitution.find?_cons (x : String) (t : Term) (σ : Substitution) (y : String) :
    find? ((x, t) :: σ) y = if y = x then some t else σ.find? y := by
  by_cases hyx : y = x
  · simp [find?, hyx]
  · have hne : (y == x) = false := by simpa using hyx
    simp [find?, List.lookup_cons, hne, hyx]

/-- A substitution for one variable finds the term for this variable only. -/
theorem Substitution.find?_singleton (x : String) (t : Term) (y : String) :
    find? [(x, t)] y = if y = x then some t else none :=
  find?_cons x t [] y

/-- What holds of the names in the members of an argument list with terms substituted holds of the
names in the list. -/
theorem Term.mem_symbolsList_or {σ : Substitution} {c : String} {ts : List Term} {a : Prop}
    (ih : ∀ t ∈ ts, c ∈ (t.subst σ).symbols → c ∈ t.symbols ∨ a)
    (h : c ∈ symbolsList (substList σ ts)) : c ∈ symbolsList ts ∨ a := by
  obtain ⟨u, hu, hc⟩ := mem_symbolsList.1 h
  rw [substList_eq_map] at hu
  obtain ⟨t, ht, rfl⟩ := List.mem_map.1 hu
  exact (ih t ht hc).imp_left fun hct => mem_symbolsList.2 ⟨t, ht, hct⟩

/-- A name in a term with terms substituted comes from the term or from a term put in. -/
theorem Term.mem_symbols_subst {σ : Substitution} {c : String} {t : Term}
    (h : c ∈ (t.subst σ).symbols) : c ∈ t.symbols ∨ ∃ e ∈ σ, c ∈ e.2.symbols := by
  induction t using rec' with
  | hvar x =>
    rw [subst_var] at h
    cases hx : σ.find? x with
    | none =>
      rw [hx] at h
      exact Or.inl h
    | some u =>
      rw [hx] at h
      exact Or.inr ⟨(x, u), Substitution.mem_of_find? hx, h⟩
  | hconst d => exact Or.inl h
  | hfunc f args ih =>
    rcases List.mem_cons.1 h with rfl | h
    · exact Or.inl (by simp)
    · exact (mem_symbolsList_or ih h).imp_left (List.mem_cons_of_mem f)
  | heq s t ihs iht =>
    rw [subst_eq, symbols_eq, List.mem_append] at h
    rw [symbols_eq, List.mem_append]
    rcases h with h | h
    · exact (ihs h).imp_left Or.inl
    · exact (iht h).imp_left Or.inr
  | hpred p args ih =>
    rcases List.mem_cons.1 h with rfl | h
    · exact Or.inl (by simp)
    · exact (mem_symbolsList_or ih h).imp_left (List.mem_cons_of_mem p)
  | hnot t ih => exact ih h
  | hbinary op s t ihs iht =>
    rw [subst_binary, symbols_binary, List.mem_append] at h
    rw [symbols_binary, List.mem_append]
    rcases h with h | h
    · exact (ihs h).imp_left Or.inl
    · exact (iht h).imp_left Or.inr
  | hquant q x t ih =>
    rcases List.mem_cons.1 h with rfl | h
    · exact Or.inl (by simp)
    · exact (ih h).imp_left (List.mem_cons_of_mem x)
  | hbound x => exact Or.inl h

theorem Term.mem_symbolsList_substList {σ : Substitution} {c : String} {ts : List Term}
    (h : c ∈ symbolsList (substList σ ts)) :
    c ∈ symbolsList ts ∨ ∃ e ∈ σ, c ∈ e.2.symbols :=
  mem_symbolsList_or (fun _ _ hc => mem_symbols_subst hc) h

/-- A name in a formula with terms substituted comes from the formula or from a term put in. -/
theorem Formula.mem_symbols_subst {σ : Substitution} {c : String} {f : Formula}
    (h : c ∈ (f.subst σ).symbols) : c ∈ f.symbols ∨ ∃ e ∈ σ, c ∈ e.2.symbols := by
  induction f generalizing σ with
  | pred p args =>
    rcases List.mem_cons.1 h with rfl | h
    · exact Or.inl (by simp)
    · exact (Term.mem_symbolsList_substList h).imp_left (List.mem_cons_of_mem p)
  | eq s t =>
    rw [subst_eq, symbols_eq, List.mem_append] at h
    rw [symbols_eq, List.mem_append]
    rcases h with h | h
    · exact (Term.mem_symbols_subst h).imp_left Or.inl
    · exact (Term.mem_symbols_subst h).imp_left Or.inr
  | not f ih => exact ih h
  | binary op f g ihf ihg =>
    rw [subst_binary, symbols_binary, List.mem_append] at h
    rw [symbols_binary, List.mem_append]
    rcases h with h | h
    · exact (ihf h).imp_left Or.inl
    · exact (ihg h).imp_left Or.inr
  | quant q x f ih =>
    rcases List.mem_cons.1 h with rfl | h
    · exact Or.inl (by simp)
    · rcases ih h with hc | ⟨e, he, hc⟩
      · exact Or.inl (List.mem_cons_of_mem x hc)
      · exact Or.inr ⟨e, (List.mem_filter.1 he).1, hc⟩

/-- Substitution does not touch the variables at quantifiers. -/
@[simp] theorem Formula.quantifiedVars_subst (σ : Substitution) (f : Formula) :
    (f.subst σ).quantifiedVars = f.quantifiedVars := by
  induction f generalizing σ with
  | pred p args => rfl
  | eq s t => rfl
  | not f ih => exact ih σ
  | binary op f g ihf ihg =>
    rw [subst_binary, quantifiedVars_binary, quantifiedVars_binary, ihf, ihg]
  | quant q x f ih => rw [subst_quant, quantifiedVars_quant, quantifiedVars_quant, ih]

/-- The valuation that gives each variable the value of the term substituted for it. -/
def Substitution.valuation {D : Type u} (M : Structure D) (σ : Substitution) (v : Valuation D) :
    Valuation D :=
  fun x => ((σ.find? x).getD (.var x)).value M v

/-- A term with terms substituted has the value of the term under the changed valuation. -/
theorem Term.value_subst {D : Type u} (M : Structure D) (σ : Substitution) (v : Valuation D)
    (t : Term) : (t.subst σ).value M v = t.value M (σ.valuation M v) := by
  induction t using rec' with
  | hvar x => rfl
  | hconst c => rfl
  | hfunc f args ih =>
    rw [subst_func, value_func, value_func, substList_eq_map, valueList_eq_map, valueList_eq_map,
      List.map_map]
    exact congrArg (M.func f) (List.map_congr_left ih)
  | heq s t ihs iht => rw [subst_eq, value_eq, value_eq, ihs, iht]
  | hpred p args ih =>
    rw [subst_pred, value_pred, value_pred, substList_eq_map, valueList_eq_map, valueList_eq_map,
      List.map_map]
    exact congrArg (M.predicate p) (List.map_congr_left ih)
  | hnot t ih => rw [subst_not, value_not, value_not, ih]
  | hbinary op s t ihs iht => rw [subst_binary, value_binary, value_binary, ihs, iht]
  | hquant q x t ih => rw [subst_quant, value_quant, value_quant, ih]
  | hbound x => rfl

theorem Term.valueList_subst {D : Type u} (M : Structure D) (σ : Substitution) (v : Valuation D)
    (ts : List Term) : valueList M v (substList σ ts) = valueList M (σ.valuation M v) ts := by
  rw [substList_eq_map, valueList_eq_map, valueList_eq_map, List.map_map]
  exact List.map_congr_left fun t _ => t.value_subst M σ v

/-- No variable of a term that the substitution puts in is quantified in the formula. -/
def Substitution.AvoidsCapture (σ : Substitution) (f : Formula) : Prop :=
  ∀ x ∈ f.freeVars, ∀ t, σ.find? x = some t → ∀ y ∈ t.vars, y ∉ f.quantifiedVars

/-- What captures nothing in a formula captures nothing in a part of it with fewer free and fewer
quantified variables. -/
theorem Substitution.AvoidsCapture.mono {σ : Substitution} {f g : Formula} (h : σ.AvoidsCapture f)
    (hfree : g.freeVars ⊆ f.freeVars) (hquant : g.quantifiedVars ⊆ f.quantifiedVars) :
    σ.AvoidsCapture g := by
  intro x hx t ht y hy hyg
  exact h x (hfree hx) t ht y hy (hquant hyg)

/-- A term that is put in for a variable free in the scope of a quantifier has no variable that is
quantified in the scope, and not the variable of the quantifier either. -/
theorem Substitution.AvoidsCapture.of_mem_scope {σ : Substitution} {q : Quantifier} {x : String}
    {f : Formula} (h : σ.AvoidsCapture (.quant q x f)) {y : String} (hy : y ∈ f.freeVars) {t : Term}
    (ht : (σ.without x).find? y = some t) : ∀ z ∈ t.vars, z ≠ x ∧ z ∉ f.quantifiedVars := by
  rw [Substitution.find?_without] at ht
  by_cases hyx : y = x
  · rw [if_pos hyx] at ht
    exact absurd ht (by simp)
  · rw [if_neg hyx] at ht
    intro z hz
    simpa using h y (Formula.mem_freeVars_quant.2 ⟨hy, hyx⟩) t ht z hz

/-- What captures nothing in a formula with a quantifier in front captures nothing in its scope. -/
theorem Substitution.AvoidsCapture.scope {σ : Substitution} {q : Quantifier} {x : String}
    {f : Formula} (h : σ.AvoidsCapture (.quant q x f)) : (σ.without x).AvoidsCapture f :=
  fun _ hy _ ht z hz => (h.of_mem_scope hy ht z hz).2

/-- A term for one variable captures nothing if none of its variables is quantified. -/
theorem Substitution.avoidsCapture_singleton (x : String) {t : Term} {f : Formula}
    (h : ∀ y ∈ t.vars, y ∉ f.quantifiedVars) : Substitution.AvoidsCapture [(x, t)] f := by
  intro z _ u hu y hy
  rw [Substitution.find?_singleton] at hu
  split at hu
  · cases hu
    exact h y hy
  · exact absurd hu (by simp)

/-- Without capture, a formula with terms substituted is true if the formula is true under the
changed valuation. -/
theorem Formula.holds_subst {D : Type u} (M : Structure D) {f : Formula} {σ : Substitution}
    (h : σ.AvoidsCapture f) (v : Valuation D) :
    (f.subst σ).Holds M v ↔ f.Holds M (σ.valuation M v) := by
  induction f generalizing σ v with
  | pred p args => rw [subst_pred, holds_pred, holds_pred, Term.valueList_subst]
  | eq s t => rw [subst_eq, holds_eq, holds_eq, Term.value_subst, Term.value_subst]
  | not f ih => exact not_congr (ih h v)
  | binary op f g ihf ihg =>
    have hf : σ.AvoidsCapture f := h.mono (by simp) (by simp)
    have hg : σ.AvoidsCapture g := h.mono (by simp) (by simp)
    exact op.holds_congr (ihf hf v) (ihg hg v)
  | quant q x f ih =>
    refine q.holds_congr fun d => ?_
    rw [ih h.scope (v.update x d)]
    -- the term put in for `y` does not mention `x`, so its value does not notice the update
    refine holds_congr M fun y hy => ?_
    by_cases hyx : y = x
    · subst hyx
      simp [Substitution.valuation, Substitution.find?_without]
    · rw [Valuation.update_of_ne _ _ hyx]
      have hfind : (σ.without x).find? y = σ.find? y := by
        rw [Substitution.find?_without, if_neg hyx]
      simp only [Substitution.valuation, hfind]
      cases ht : σ.find? y with
      | none => exact Valuation.update_of_ne v d hyx
      | some t =>
        refine Term.value_congr M fun z hz => Valuation.update_of_ne v d ?_
        exact (h.of_mem_scope hy (hfind.trans ht) z hz).1

end LogicForms
