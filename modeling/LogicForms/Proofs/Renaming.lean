import Mathlib.Data.List.Basic
import LogicForms.Formula.Nameless
import LogicForms.Forms.Prenex
import LogicForms.Proofs.Coincidence
import LogicForms.Proofs.FreshNames

/-!
# Renaming bound variables

Formulas with the same nameless form have the same free variables (`AlphaEquivalent.freeVars_eq`)
and are true together (`AlphaEquivalent.equivalent`), since both can be read off the nameless form.

Renaming apart keeps the nameless form: a quantifier is given a variable that occurs nowhere in its
scope, so nothing is captured although substitution does not watch out for it (`nameless_rename`).
The quantifiers of the result bind pairwise different variables, none of which is taken at the start
(`renameApart_spec`). With the free variables taken at the start, this is
`standardizeApart_hygienic`.
-/

set_option autoImplicit false

namespace LogicForms

universe u

/-! ### Variables behind quantifiers -/

/-- An occurrence behind one more quantifier is its own occurrence, or the old one. Two such
occurrences are the same if both are the quantifier's own or both are the same old one. -/
theorem Term.namelessVar_cons_eq_iff {scope scope' : List String} {x y a b : String} :
    namelessVar (x :: scope) a = namelessVar (y :: scope') b ↔
      (a = x ∧ b = y) ∨ (a ≠ x ∧ b ≠ y ∧ namelessVar scope a = namelessVar scope' b) := by
  simp only [namelessVar, List.idxOf?_cons]
  by_cases ha : x = a <;> by_cases hb : y = b
  · simp [ha, hb]
  · have hb' : (y == b) = false := by simpa using hb
    cases h : scope'.idxOf? b <;> simp [ha, hb', Ne.symm hb]
  · have ha' : (x == a) = false := by simpa using ha
    cases h : scope.idxOf? a <;> simp [hb, ha', Ne.symm ha]
  · have ha' : (x == a) = false := by simpa using ha
    have hb' : (y == b) = false := by simpa using hb
    cases h : scope.idxOf? a <;> cases h' : scope'.idxOf? b <;>
      simp [ha', hb', Ne.symm ha, Ne.symm hb]

@[simp] theorem Term.namelessVar_nil (x : String) : namelessVar [] x = .free x := rfl

theorem Term.namelessVar_of_not_mem {scope : List String} {x : String} (h : x ∉ scope) :
    namelessVar scope x = .free x := by
  rw [namelessVar, List.idxOf?_eq_none_iff.2 h]

theorem Term.exists_namelessVar_of_mem {scope : List String} {x : String} (h : x ∈ scope) :
    ∃ index, namelessVar scope x = .bound index := by
  rw [namelessVar]
  cases hx : scope.idxOf? x with
  | none => exact absurd h (List.idxOf?_eq_none_iff.1 hx)
  | some index => exact ⟨index, rfl⟩

/-- The nameless forms of an argument list are those of its members. -/
theorem Term.namelessList_eq_map (scope : List String) (ts : List Term) :
    namelessList scope ts = ts.map (nameless scope) := by
  induction ts with
  | nil => rfl
  | cons t ts ih => simp [ih]

/-! ### Free variables of nameless forms -/

mutual
/-- The occurrences of free variables in a nameless term. -/
def NamelessTerm.freeVars : NamelessTerm → List String
  | .bound _ => []
  | .free x => [x]
  | .const _ => []
  | .func _ args => NamelessTerm.freeVarsList args
  | .eq s t => s.freeVars ++ t.freeVars
  | .pred _ args => NamelessTerm.freeVarsList args
  | .not t => t.freeVars
  | .binary _ s t => s.freeVars ++ t.freeVars
  | .quant _ _ t => t.freeVars
  | .inner _ => []
/-- The occurrences of free variables in a list of nameless terms. -/
def NamelessTerm.freeVarsList : List NamelessTerm → List String
  | [] => []
  | t :: ts => t.freeVars ++ NamelessTerm.freeVarsList ts
end

/-- The free variables of a list of nameless terms are those of its members, in order. -/
theorem NamelessTerm.freeVarsList_eq_flatMap (ts : List NamelessTerm) :
    NamelessTerm.freeVarsList ts = ts.flatMap NamelessTerm.freeVars := by
  induction ts with
  | nil => rfl
  | cons t ts ih => rw [freeVarsList, List.flatMap_cons, ih]

/-- The occurrences of free variables in a nameless formula. -/
def Nameless.freeVars : Nameless → List String
  | .pred _ args => NamelessTerm.freeVarsList args
  | .eq s t => s.freeVars ++ t.freeVars
  | .not f => f.freeVars
  | .binary _ f g => f.freeVars ++ g.freeVars
  | .quant _ f => f.freeVars

/-- The free variables of the nameless form are those that no quantifier around binds. -/
theorem Term.freeVars_nameless (scope : List String) (t : Term) :
    (t.nameless scope).freeVars = t.vars.filter fun x => !scope.contains x := by
  induction t using rec' with
  | hvar x =>
    rw [nameless_var, vars_var]
    by_cases hx : x ∈ scope
    · obtain ⟨index, hindex⟩ := exists_namelessVar_of_mem hx
      simp [hindex, NamelessTerm.freeVars, hx]
    · simp [namelessVar_of_not_mem hx, NamelessTerm.freeVars, hx]
  | hconst c => rfl
  | hfunc f args ih =>
    rw [nameless_func, NamelessTerm.freeVars, namelessList_eq_map,
      NamelessTerm.freeVarsList_eq_flatMap, vars_func, varsList_eq_flatMap, List.flatMap_map,
      List.filter_flatMap]
    exact List.flatMap_congr ih
  | heq s t ihs iht =>
    rw [nameless_eq, NamelessTerm.freeVars, ihs, iht, vars_eq, List.filter_append]
  | hpred p args ih =>
    rw [nameless_pred, NamelessTerm.freeVars, namelessList_eq_map,
      NamelessTerm.freeVarsList_eq_flatMap, vars_pred, varsList_eq_flatMap, List.flatMap_map,
      List.filter_flatMap]
    exact List.flatMap_congr ih
  | hnot t ih => exact ih
  | hbinary op s t ihs iht =>
    rw [nameless_binary, NamelessTerm.freeVars, ihs, iht, vars_binary, List.filter_append]
  | hquant q x t ih => exact ih
  | hbound x => rfl

theorem Term.freeVarsList_nameless (scope : List String) (ts : List Term) :
    NamelessTerm.freeVarsList (namelessList scope ts)
      = (varsList ts).filter fun x => !scope.contains x := by
  induction ts with
  | nil => rfl
  | cons t ts ih =>
    rw [namelessList_cons, NamelessTerm.freeVarsList, varsList_cons, List.filter_append,
      freeVars_nameless, ih]

theorem Formula.freeVars_nameless (f : Formula) (scope : List String) :
    (f.nameless scope).freeVars = f.freeVarsIn scope := by
  induction f generalizing scope with
  | pred p args => exact Term.freeVarsList_nameless scope args
  | eq s t =>
    rw [nameless_eq, Nameless.freeVars, Term.freeVars_nameless, Term.freeVars_nameless,
      ← List.filter_append]
    rfl
  | not f ih => exact ih scope
  | binary op f g ihf ihg => rw [nameless_binary, Nameless.freeVars, ihf, ihg, freeVarsIn]
  | quant q x f ih => exact ih (x :: scope)

/-- Formulas that differ in the names of bound variables only have the same free occurrences. -/
theorem Formula.AlphaEquivalent.freeVars_eq {f g : Formula} (h : AlphaEquivalent f g) :
    f.freeVars = g.freeVars := by
  calc f.freeVars = (f.nameless []).freeVars := (f.freeVars_nameless []).symm
    _ = (g.nameless []).freeVars := by rw [h]
    _ = g.freeVars := g.freeVars_nameless []

/-! ### Truth of nameless forms -/

/-- Values for the indices, with a new value for the innermost quantifier. -/
def push {D : Type u} (d : D) (env : Nat → D) : Nat → D
  | 0 => d
  | index + 1 => env index

mutual
/-- The value of a nameless term for values of the indices and of the free variables. -/
def NamelessTerm.value {D : Type u} (M : Structure D) (env : Nat → D) (v : Valuation D) :
    NamelessTerm → D
  | .bound index => env index
  | .free x => v x
  | .const c => M.const c
  | .func f args => M.func f (NamelessTerm.valueList M env v args)
  | .eq s t => M.equation (s.value M env v) (t.value M env v)
  | .pred p args => M.predicate p (NamelessTerm.valueList M env v args)
  | .not t => M.negation (t.value M env v)
  | .binary op s t => M.connective op (s.value M env v) (t.value M env v)
  | .quant q x t => M.quantifier q x (t.value M env v)
  | .inner x => M.bound x
/-- The values of a list of nameless terms. -/
def NamelessTerm.valueList {D : Type u} (M : Structure D) (env : Nat → D) (v : Valuation D) :
    List NamelessTerm → List D
  | [] => []
  | t :: ts => t.value M env v :: NamelessTerm.valueList M env v ts
end

/-- A list of nameless terms is evaluated member by member. -/
theorem NamelessTerm.valueList_eq_map {D : Type u} (M : Structure D) (env : Nat → D)
    (v : Valuation D) (ts : List NamelessTerm) :
    NamelessTerm.valueList M env v ts = ts.map (NamelessTerm.value M env v) := by
  induction ts with
  | nil => rfl
  | cons t ts ih => rw [valueList, List.map_cons, ih]

/-- Truth of a nameless formula. -/
def Nameless.Holds {D : Type u} (M : Structure D) (v : Valuation D) : Nameless → (Nat → D) → Prop
  | .pred p args, env => M.rel p (NamelessTerm.valueList M env v args)
  | .eq s t, env => s.value M env v = t.value M env v
  | .not f, env => ¬ f.Holds M v env
  | .binary op f g, env => op.Holds (f.Holds M v env) (g.Holds M v env)
  | .quant q f, env => q.Holds fun d => f.Holds M v (push d env)

section

variable {D : Type u} (M : Structure D) {env : Nat → D} {v w : Valuation D} {scope : List String}

/-- A term and its nameless form have the same value if each variable has the value of its nameless
form. -/
theorem Term.value_nameless (h : ∀ x, (namelessVar scope x).value M env v = w x) (t : Term) :
    (t.nameless scope).value M env v = t.value M w := by
  induction t using rec' with
  | hvar x => exact h x
  | hconst c => rfl
  | hfunc f args ih =>
    rw [nameless_func, NamelessTerm.value, value_func, namelessList_eq_map,
      NamelessTerm.valueList_eq_map, valueList_eq_map, List.map_map]
    exact congrArg (M.func f) (List.map_congr_left ih)
  | heq s t ihs iht => rw [nameless_eq, NamelessTerm.value, value_eq, ihs, iht]
  | hpred p args ih =>
    rw [nameless_pred, NamelessTerm.value, value_pred, namelessList_eq_map,
      NamelessTerm.valueList_eq_map, valueList_eq_map, List.map_map]
    exact congrArg (M.predicate p) (List.map_congr_left ih)
  | hnot t ih => rw [nameless_not, NamelessTerm.value, value_not, ih]
  | hbinary op s t ihs iht => rw [nameless_binary, NamelessTerm.value, value_binary, ihs, iht]
  | hquant q x t ih => rw [nameless_quant, NamelessTerm.value, value_quant, ih]
  | hbound x => rfl

theorem Term.valueList_nameless (h : ∀ x, (namelessVar scope x).value M env v = w x)
    (ts : List Term) :
    NamelessTerm.valueList M env v (namelessList scope ts) = valueList M w ts := by
  rw [namelessList_eq_map, NamelessTerm.valueList_eq_map, valueList_eq_map, List.map_map]
  exact List.map_congr_left fun t _ => value_nameless M h t

/-- A variable behind one more quantifier has the new value if it is the quantifier's own, and its
old value otherwise. -/
theorem Term.value_namelessVar_cons (h : ∀ x, (namelessVar scope x).value M env v = w x)
    (y : String) (d : D) (x : String) :
    (namelessVar (y :: scope) x).value M (push d env) v = w.update y d x := by
  by_cases hxy : x = y
  · subst hxy
    rw [Valuation.update_self, namelessVar, List.idxOf?_cons]
    simp [NamelessTerm.value, push]
  · have hyx : (y == x) = false := by simpa using Ne.symm hxy
    rw [Valuation.update_of_ne w d hxy, ← h x, namelessVar, namelessVar, List.idxOf?_cons, hyx]
    cases scope.idxOf? x <;> rfl

/-- A formula is true if its nameless form is. -/
theorem Formula.holds_nameless (f : Formula)
    (h : ∀ x, (Term.namelessVar scope x).value M env v = w x) :
    (f.nameless scope).Holds M v env ↔ f.Holds M w := by
  induction f generalizing scope env w with
  | pred p args => rw [nameless_pred, Nameless.Holds, holds_pred, Term.valueList_nameless M h]
  | eq s t =>
    rw [nameless_eq, Nameless.Holds, holds_eq, Term.value_nameless M h, Term.value_nameless M h]
  | not f ih => exact not_congr (ih h)
  | binary op f g ihf ihg => exact op.holds_congr (ihf h) (ihg h)
  | quant q x f ih =>
    exact q.holds_congr fun d => ih (Term.value_namelessVar_cons M h x d)

end

/-- Formulas that differ in the names of bound variables only are true together. -/
theorem Formula.AlphaEquivalent.equivalent {f g : Formula} (h : AlphaEquivalent f g) :
    Equivalent.{u} f g := by
  intro D _ M v
  -- no index is free behind no quantifiers, so any values of the indices do
  have hvar (x : String) : (Term.namelessVar [] x).value M (fun _ => v "") v = v x := rfl
  rw [← f.holds_nameless M hvar, ← g.holds_nameless M hvar, h]

/-! ### Renaming in a scope -/

/-- The nameless form of a term with terms substituted is that of the term if what is put in for
each variable has the nameless form of the variable. -/
theorem Term.nameless_subst {σ : Substitution} {scope scope' : List String} {t : Term}
    (h : ∀ z ∈ t.vars, ((σ.find? z).getD (.var z)).nameless scope' = namelessVar scope z) :
    (t.subst σ).nameless scope' = t.nameless scope := by
  induction t using rec' with
  | hvar x => exact h x (by simp)
  | hconst c => rfl
  | hfunc f args ih =>
    rw [subst_func, nameless_func, nameless_func, substList_eq_map, namelessList_eq_map,
      namelessList_eq_map, List.map_map]
    refine congrArg (NamelessTerm.func f) (List.map_congr_left fun t ht => ?_)
    exact ih t ht fun z hz => h z (mem_varsList.2 ⟨t, ht, hz⟩)
  | heq s t ihs iht =>
    simp only [vars_eq, List.forall_mem_append] at h
    rw [subst_eq, nameless_eq, nameless_eq, ihs h.1, iht h.2]
  | hpred p args ih =>
    rw [subst_pred, nameless_pred, nameless_pred, substList_eq_map, namelessList_eq_map,
      namelessList_eq_map, List.map_map]
    refine congrArg (NamelessTerm.pred p) (List.map_congr_left fun t ht => ?_)
    exact ih t ht fun z hz => h z (mem_varsList.2 ⟨t, ht, hz⟩)
  | hnot t ih => rw [subst_not, nameless_not, nameless_not, ih h]
  | hbinary op s t ihs iht =>
    simp only [vars_binary, List.forall_mem_append] at h
    rw [subst_binary, nameless_binary, nameless_binary, ihs h.1, iht h.2]
  | hquant q x t ih => rw [subst_quant, nameless_quant, nameless_quant, ih h]
  | hbound x => rfl

theorem Term.namelessList_subst {σ : Substitution} {scope scope' : List String} {ts : List Term}
    (h : ∀ z ∈ varsList ts,
      ((σ.find? z).getD (.var z)).nameless scope' = namelessVar scope z) :
    namelessList scope' (substList σ ts) = namelessList scope ts := by
  rw [substList_eq_map, namelessList_eq_map, namelessList_eq_map, List.map_map]
  exact List.map_congr_left fun t ht =>
    nameless_subst fun z hz => h z (mem_varsList.2 ⟨t, ht, hz⟩)

/-- Every variable that the substitution replaces is replaced by a variable, and never by one of the
given names. -/
def Substitution.RenamesAvoiding (σ : Substitution) (names : List String) : Prop :=
  ∀ z t, σ.find? z = some t → ∃ y, t = .var y ∧ y ∉ names

theorem Substitution.RenamesAvoiding.mono {σ : Substitution} {names names' : List String}
    (h : σ.RenamesAvoiding names) (hsubset : names' ⊆ names) : σ.RenamesAvoiding names' := by
  intro z t ht
  obtain ⟨y, hy, hmem⟩ := h z t ht
  exact ⟨y, hy, fun hy' => hmem (hsubset hy')⟩

namespace Formula

/-- Renaming to variables that no quantifier of the formula binds keeps the nameless form, if each
new variable behind the new quantifiers stands for what the old one stood for. -/
theorem nameless_subst {f : Formula} {σ : Substitution} {scope scope' : List String}
    (hσ : σ.RenamesAvoiding f.quantifiedVars)
    (h : ∀ z ∈ f.freeVars,
      ((σ.find? z).getD (.var z)).nameless scope' = Term.namelessVar scope z) :
    (f.subst σ).nameless scope' = f.nameless scope := by
  induction f generalizing σ scope scope' with
  | pred p args =>
    rw [freeVars_pred] at h
    exact congrArg (Nameless.pred p) (Term.namelessList_subst h)
  | eq s t =>
    simp only [freeVars_eq, List.forall_mem_append] at h
    rw [subst_eq, nameless_eq, nameless_eq, Term.nameless_subst h.1, Term.nameless_subst h.2]
  | not f ih => rw [subst_not, nameless_not, nameless_not, ih hσ h]
  | binary op f g ihf ihg =>
    simp only [freeVars_binary, List.forall_mem_append] at h
    have hf : σ.RenamesAvoiding f.quantifiedVars := hσ.mono (by simp)
    have hg : σ.RenamesAvoiding g.quantifiedVars := hσ.mono (by simp)
    rw [subst_binary, nameless_binary, nameless_binary, ihf hf h.1, ihg hg h.2]
  | quant q x f ih =>
    have hrest (z : String) (t : Term) (ht : (σ.without x).find? z = some t) :
        z ≠ x ∧ σ.find? z = some t := by
      rw [Substitution.find?_without] at ht
      by_cases hzx : z = x
      · rw [if_pos hzx] at ht
        exact absurd ht (by simp)
      · rw [if_neg hzx] at ht
        exact ⟨hzx, ht⟩
    have hσf : (σ.without x).RenamesAvoiding f.quantifiedVars := by
      have hσf' : σ.RenamesAvoiding f.quantifiedVars := hσ.mono (by simp)
      intro z t ht
      exact hσf' z t (hrest z t ht).2
    rw [subst_quant, nameless_quant, nameless_quant]
    refine congrArg (Nameless.quant q) (ih hσf fun z hz => ?_)
    -- a variable of the scope is the quantifier's own on both sides, or on neither
    rw [Substitution.find?_without]
    by_cases hzx : z = x
    · rw [if_pos hzx]
      exact Term.namelessVar_cons_eq_iff.2 (Or.inl ⟨hzx, hzx⟩)
    · rw [if_neg hzx]
      have hold := h z (mem_freeVars_quant.2 ⟨hz, hzx⟩)
      cases ht : σ.find? z with
      | none =>
        rw [ht] at hold
        exact Term.namelessVar_cons_eq_iff.2 (Or.inr ⟨hzx, hzx, hold⟩)
      | some t =>
        -- `x` is quantified in the formula, so what is put in for `z` is another variable
        obtain ⟨y, rfl, hy⟩ := hσ z t ht
        rw [quantifiedVars_quant, List.mem_cons, not_or] at hy
        rw [ht] at hold
        exact Term.namelessVar_cons_eq_iff.2 (Or.inr ⟨hy.1, hzx, hold⟩)

/-- A quantifier and all occurrences that it binds can be given a variable that occurs nowhere in
the scope. -/
theorem nameless_rename {f : Formula} {x y : String} (hy : y ∉ f.symbols) (scope : List String) :
    (f.subst [(x, .var y)]).nameless (y :: scope) = f.nameless (x :: scope) := by
  refine nameless_subst (fun z t ht => ?_) (fun z hz => ?_)
  · rw [Substitution.find?_singleton] at ht
    split at ht
    · exact ⟨y, (Option.some.inj ht).symm, fun h => hy (mem_symbols_of_mem_quantifiedVars h)⟩
    · exact absurd ht (by simp)
  -- every occurrence of `x` becomes one of `y`, and no other variable is `y`
  · rw [Substitution.find?_singleton]
    by_cases hzx : z = x
    · rw [if_pos hzx]
      exact Term.namelessVar_cons_eq_iff.2 (Or.inl ⟨rfl, hzx⟩)
    · have hzy : z ≠ y := by
        rintro rfl
        exact hy (mem_symbols_of_mem_freeVars hz)
      rw [if_neg hzx]
      exact Term.namelessVar_cons_eq_iff.2 (Or.inr ⟨hzy, hzx, rfl⟩)

end Formula

/-! ### Renaming apart -/

/-- The names of a formula and the variables to be avoided are in use, so that a fresh name is
neither. -/
structure Avoiding.Covers (s : Avoiding) (f : Formula) : Prop where
  symbols : f.symbols ⊆ s.names.used
  taken : s.taken ⊆ s.names.used

namespace Formula

/-- What renaming apart keeps and what it achieves, for a formula `f` that becomes `g` and state `s`
that becomes `s'`. -/
structure RenamedApart (f : Formula) (s : Avoiding) (g : Formula) (s' : Avoiding) : Prop where
  /-- Behind any quantifiers, only names of bound variables differ. -/
  nameless : ∀ scope, g.nameless scope = f.nameless scope
  /-- No variable is quantified twice. -/
  nodup : g.quantifiedVars.Nodup
  /-- No variable that is taken before is quantified. -/
  not_taken : ∀ x ∈ g.quantifiedVars, x ∉ s.taken
  /-- Exactly the quantified variables are taken in addition. -/
  taken : ∀ x, x ∈ s'.taken ↔ x ∈ g.quantifiedVars ∨ x ∈ s.taken
  /-- Names in use remain in use. -/
  used : s.names.used ⊆ s'.names.used
  /-- Names of the result are in use. -/
  covers : s'.Covers g

namespace RenamedApart

variable {f g f' g' : Formula} {s s' s'' : Avoiding}

/-- A formula without quantifiers stays as it is. -/
theorem refl (h : s.Covers f) (hf : f.quantifiedVars = []) : f.RenamedApart s f s where
  nameless _ := rfl
  nodup := by simp [hf]
  not_taken := by simp [hf]
  taken := by simp [hf]
  used := List.Subset.refl _
  covers := h

theorem not (h : f.RenamedApart s f' s') : (Formula.not f).RenamedApart s (.not f') s' where
  nameless scope := by rw [nameless_not, nameless_not, h.nameless]
  nodup := h.nodup
  not_taken := h.not_taken
  taken := h.taken
  used := h.used
  covers := ⟨h.covers.symbols, h.covers.taken⟩

/-- The right argument is renamed with the variables of the left one taken, so that no quantifier of
one has the variable of a quantifier of the other. -/
theorem binary (op : Connective) (hf : f.RenamedApart s f' s') (hg : g.RenamedApart s' g' s'') :
    (Formula.binary op f g).RenamedApart s (.binary op f' g') s'' where
  nameless scope := by rw [nameless_binary, nameless_binary, hf.nameless, hg.nameless]
  nodup := by
    rw [quantifiedVars_binary]
    refine List.nodup_append.2 ⟨hf.nodup, hg.nodup, fun x hx y hy hxy => ?_⟩
    -- a variable quantified on the left is taken when the right argument is renamed
    subst hxy
    exact hg.not_taken x hy ((hf.taken x).2 (Or.inl hx))
  not_taken x hx hs := by
    rw [quantifiedVars_binary, List.mem_append] at hx
    rcases hx with hx | hx
    · exact hf.not_taken x hx hs
    · exact hg.not_taken x hx ((hf.taken x).2 (Or.inr hs))
  taken x := by
    rw [hg.taken, hf.taken, quantifiedVars_binary, List.mem_append, ← or_assoc]
    exact or_congr_left Or.comm
  used := List.Subset.trans hf.used hg.used
  covers := by
    refine ⟨fun c hc => ?_, hg.covers.taken⟩
    rw [symbols_binary, List.mem_append] at hc
    rcases hc with hc | hc
    · exact hg.used (hf.covers.symbols hc)
    · exact hg.covers.symbols hc

/-- Behind a quantifier, the scope is renamed with the variable of the quantifier taken. The scope
may have been changed before, as long as its nameless form behind the quantifier is the same. -/
theorem quant {q : Quantifier} {x y : String} {k : Formula} {names : NameSupply}
    (hy : y ∉ s.taken) (hused : s.names.used ⊆ names.used)
    (hnameless : ∀ scope, k.nameless (y :: scope) = f.nameless (x :: scope))
    (h : k.RenamedApart ⟨y :: s.taken, names⟩ f' s') :
    (Formula.quant q x f).RenamedApart s (.quant q y f') s' where
  nameless scope := by rw [nameless_quant, nameless_quant, h.nameless, hnameless]
  nodup := by
    rw [quantifiedVars_quant]
    exact List.nodup_cons.2 ⟨fun hmem => h.not_taken y hmem (by simp), h.nodup⟩
  not_taken z hz hs := by
    rcases List.mem_cons.1 hz with rfl | hz
    · exact hy hs
    · exact h.not_taken z hz (List.mem_cons_of_mem y hs)
  taken z := by
    rw [h.taken, quantifiedVars_quant, List.mem_cons, List.mem_cons, ← or_assoc]
    exact or_congr_left Or.comm
  used := List.Subset.trans hused h.used
  covers := by
    have hy' : y ∈ s'.names.used := h.covers.taken ((h.taken y).2 (Or.inr (by simp)))
    exact ⟨List.cons_subset.2 ⟨hy', h.covers.symbols⟩, h.covers.taken⟩

end RenamedApart

/-- Renaming apart keeps the nameless form, and gives quantifiers pairwise different variables, none
of which is taken before. -/
theorem renameApart_spec (f : Formula) {s : Avoiding} (h : s.Covers f) :
    f.RenamedApart s (f.renameApart s).1 (f.renameApart s).2 := by
  fun_induction renameApart f s with
  | case1 s p args => exact .refl h rfl
  | case2 s t u => exact .refl h rfl
  | case3 f s f' s' hf ih =>
    rw [hf] at ih
    exact (ih ⟨h.symbols, h.taken⟩).not
  | case4 op f g s f' s' hf g' s'' hg ihf ihg =>
    rw [hf] at ihf
    rw [hg] at ihg
    obtain ⟨hsymbols, htaken⟩ := h
    rw [symbols_binary, List.append_subset] at hsymbols
    have hf' : f.RenamedApart s f' s' := ihf ⟨hsymbols.1, htaken⟩
    exact hf'.binary op (ihg ⟨List.Subset.trans hsymbols.2 hf'.used, hf'.covers.taken⟩)
  | case5 q x f s _ y names hy f' s' hf ih =>
    -- the variable is taken, and a fresh one is put in for it
    rw [hf] at ih
    have hfresh : y ∉ s.names.used := by
      have hne := s.names.freshVariable_not_mem x
      rwa [hy] at hne
    have hused : names.used = y :: s.names.used := by
      have hcons := s.names.freshVariable_used x
      rwa [hy] at hcons
    obtain ⟨hsymbols, htaken⟩ := h
    rw [symbols_quant, List.cons_subset] at hsymbols
    refine .quant (fun hmem => hfresh (htaken hmem)) (by simp [hused])
      (nameless_rename fun hmem => hfresh (hsymbols.2 hmem)) (ih ⟨fun c hc => ?_, ?_⟩)
    · rw [hused]
      rcases mem_symbols_subst hc with hc | ⟨e, he, hc⟩
      · exact List.mem_cons_of_mem y (hsymbols.2 hc)
      · -- the only term put in is the new variable
        rw [List.mem_singleton] at he
        subst he
        simpa using Or.inl hc
    · rw [hused]
      exact List.cons_subset_cons y htaken
  | case6 q x f s hx f' s' hf ih =>
    -- the variable is not taken, and the quantifier keeps it
    rw [hf] at ih
    obtain ⟨hsymbols, htaken⟩ := h
    rw [symbols_quant, List.cons_subset] at hsymbols
    exact .quant (by simpa using hx) (List.Subset.refl _) (fun _ => rfl)
      (ih ⟨hsymbols.2, List.cons_subset.2 ⟨hsymbols.1, htaken⟩⟩)

/-- Renaming apart leaves the beginning of Skolem symbols alone. -/
theorem renameApart_skolemPrefix (f : Formula) (s : Avoiding) :
    (f.renameApart s).2.names.skolemPrefix = s.names.skolemPrefix := by
  fun_induction renameApart f s with
  | case1 | case2 => rfl
  | case3 f s f' s' hf ih =>
    rw [hf] at ih
    exact ih
  | case4 op f g s f' s' hf g' s'' hg ihf ihg =>
    rw [hf] at ihf
    rw [hg] at ihg
    exact ihg.trans ihf
  | case5 q x f s _ y names hy f' s' hf ih =>
    rw [hf] at ih
    obtain rfl : (s.names.freshVariable x).2 = names := by rw [hy]
    exact ih
  | case6 q x f s _ f' s' hf ih =>
    rw [hf] at ih
    exact ih

theorem standardizeApart_skolemPrefix (f : Formula) (names : NameSupply) :
    (f.standardizeApart names).2.skolemPrefix = names.skolemPrefix :=
  f.renameApart_skolemPrefix _

/-- What renaming apart does with a whole formula: the free variables count as taken at the start,
and all names are in use. -/
theorem standardizeApart_spec (f : Formula) (names : NameSupply) :
    ∃ s, f.RenamedApart ⟨f.freeVars, names.declare f.symbols⟩ (f.standardizeApart names).1 s ∧
      (f.standardizeApart names).2 = s.names := by
  refine ⟨_, renameApart_spec f ⟨fun c hc => ?_, fun x hx => ?_⟩, rfl⟩
  · exact NameSupply.mem_addNames.2 (Or.inr hc)
  · exact NameSupply.mem_addNames.2 (Or.inr (mem_symbols_of_mem_freeVars hx))

/-- Renaming apart changes nothing but names of bound variables. -/
theorem alphaEquivalent_standardizeApart (f : Formula) (names : NameSupply) :
    AlphaEquivalent f (f.standardizeApart names).1 := by
  obtain ⟨s, hs, -⟩ := f.standardizeApart_spec names
  exact (hs.nameless []).symm

/-- After renaming apart, no variable is quantified twice. -/
theorem nodup_quantifiedVars_standardizeApart (f : Formula) (names : NameSupply) :
    (f.standardizeApart names).1.quantifiedVars.Nodup := by
  obtain ⟨s, hs, -⟩ := f.standardizeApart_spec names
  exact hs.nodup

/-- After renaming apart, no quantified variable occurs free. -/
theorem not_mem_freeVars_standardizeApart {f : Formula} {names : NameSupply} {x : String}
    (h : x ∈ (f.standardizeApart names).1.quantifiedVars) :
    x ∉ (f.standardizeApart names).1.freeVars := by
  obtain ⟨s, hs, -⟩ := f.standardizeApart_spec names
  rw [← (f.alphaEquivalent_standardizeApart names).freeVars_eq]
  exact hs.not_taken x h

/-- Renaming apart brings every formula into hygienic form, whatever names are in use: only names of
bound variables change, and each quantifier binds a variable of its own, which does not occur
free. -/
theorem standardizeApart_hygienic (f : Formula) (names : NameSupply) :
    AlphaEquivalent f (f.standardizeApart names).1 ∧
      (f.standardizeApart names).1.quantifiedVars.Nodup ∧
      ∀ x ∈ (f.standardizeApart names).1.quantifiedVars,
        x ∉ (f.standardizeApart names).1.freeVars :=
  ⟨f.alphaEquivalent_standardizeApart names, f.nodup_quantifiedVars_standardizeApart names,
    fun _ => not_mem_freeVars_standardizeApart⟩

end Formula

end LogicForms
