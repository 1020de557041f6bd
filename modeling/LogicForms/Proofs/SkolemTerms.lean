import LogicForms.Proofs.Skolem

/-!
# Skolem forms by one substitution

The leading quantifiers of a formula are treated one after the other, and each existential one puts
a term into the matrix. If they bind pairwise different variables, this amounts to one simultaneous
substitution of the terms for all existentially quantified variables, behind the universal
quantifiers (`skolemize_eq_subst`).

Two substitutions in a row are one substitution if the second one has nothing for the variables that
the first one puts in (`Formula.subst_subst_cons`). Here these are universally quantified variables
in front, and the quantifiers that are still to come bind other ones. So no term is changed after it
has been put in, and each one keeps the symbol and the variables that its quantifier finds.
-/

set_option autoImplicit false

namespace LogicForms

/-! ### One substitution after the other -/

namespace Term

/-- Substituting in two steps is substituting what the second step makes of the first one. -/
theorem subst_subst {σ τ ρ : Substitution}
    (h : ∀ y, ((σ.find? y).getD (.var y)).subst τ = (ρ.find? y).getD (.var y)) (t : Term) :
    (t.subst σ).subst τ = t.subst ρ := by
  have list (ts : List Term) (ih : ∀ t ∈ ts, (t.subst σ).subst τ = t.subst ρ) :
      substList τ (substList σ ts) = substList ρ ts := by
    rw [substList_eq_map, substList_eq_map, substList_eq_map, List.map_map]
    exact List.map_congr_left ih
  induction t using rec' with
  | hvar y => exact h y
  | hconst c => rfl
  | hfunc f args ih => rw [subst_func, subst_func, subst_func, list args ih]
  | heq s t ihs iht => rw [subst_eq, subst_eq, subst_eq, ihs, iht]
  | hpred p args ih => rw [subst_pred, subst_pred, subst_pred, list args ih]
  | hnot t ih => rw [subst_not, subst_not, subst_not, ih]
  | hbinary op s t ihs iht => rw [subst_binary, subst_binary, subst_binary, ihs, iht]
  | hquant q x t ih => rw [subst_quant, subst_quant, subst_quant, ih]
  | hbound x => rfl

/-- A substitution that has nothing for the variables of a term leaves it as it is. -/
theorem subst_eq_self {σ : Substitution} {t : Term} (h : ∀ y ∈ t.vars, σ.find? y = none) :
    t.subst σ = t := by
  have list (ts : List Term) (ih : ∀ t ∈ ts, (∀ y ∈ t.vars, σ.find? y = none) → t.subst σ = t)
      (h : ∀ y ∈ varsList ts, σ.find? y = none) : substList σ ts = ts := by
    have hself : ∀ t ∈ ts, t.subst σ = id t := by
      intro t ht
      exact ih t ht fun y hy => h y (mem_varsList.2 ⟨t, ht, hy⟩)
    rw [substList_eq_map, List.map_congr_left hself, List.map_id]
  induction t using rec' with
  | hvar y => rw [subst_var, h y (by simp), Option.getD_none]
  | hconst c => rfl
  | hfunc f args ih => rw [subst_func, list args ih h]
  | heq s t ihs iht =>
    rw [vars_eq, List.forall_mem_append] at h
    rw [subst_eq, ihs h.1, iht h.2]
  | hpred p args ih => rw [subst_pred, list args ih h]
  | hnot t ih => rw [subst_not, ih h]
  | hbinary op s t ihs iht =>
    rw [vars_binary, List.forall_mem_append] at h
    rw [subst_binary, ihs h.1, iht h.2]
  | hquant q x t ih => rw [subst_quant, ih h]
  | hbound x => rfl

theorem subst_nil (t : Term) : t.subst [] = t :=
  subst_eq_self fun _ _ => rfl

theorem substList_nil_left (ts : List Term) : substList [] ts = ts := by
  rw [substList_eq_map, funext subst_nil]
  exact List.map_id ts

end Term

namespace Formula

theorem subst_nil (f : Formula) : f.subst [] = f := by
  induction f with
  | pred p args => rw [subst_pred, Term.substList_nil_left]
  | eq s t => rw [subst_eq, Term.subst_nil, Term.subst_nil]
  | not f ih => rw [subst_not, ih]
  | binary op f g ihf ihg => rw [subst_binary, ihf, ihg]
  | quant q x f ih => exact congrArg (quant q x) ih

/-- **Two substitutions in a row are one**, if the first one is for a single variable and puts in
nothing that the second one replaces. -/
theorem subst_subst_cons {x : String} {t : Term} {σ : Substitution}
    (h : ∀ y ∈ t.vars, σ.find? y = none) (f : Formula) :
    (f.subst [(x, t)]).subst σ = f.subst ((x, t) :: σ) := by
  have hterm {σ : Substitution} (h : ∀ y ∈ t.vars, σ.find? y = none) (u : Term) :
      (u.subst [(x, t)]).subst σ = u.subst ((x, t) :: σ) := by
    refine Term.subst_subst (fun y => ?_) u
    rw [Substitution.find?_singleton, Substitution.find?_cons]
    by_cases hyx : y = x
    · rw [if_pos hyx, if_pos hyx]
      exact Term.subst_eq_self h
    · rw [if_neg hyx, if_neg hyx]
      rfl
  induction f generalizing σ with
  | pred p args =>
    have hargs : ∀ u ∈ args, (u.subst [(x, t)]).subst σ = u.subst ((x, t) :: σ) :=
      fun u _ => hterm h u
    rw [subst_pred, subst_pred, subst_pred, Term.substList_eq_map, Term.substList_eq_map,
      Term.substList_eq_map, List.map_map]
    exact congrArg (pred p) (List.map_congr_left hargs)
  | eq s u => rw [subst_eq, subst_eq, subst_eq, hterm h, hterm h]
  | not f ih => rw [subst_not, subst_not, subst_not, ih h]
  | binary op f g ihf ihg => rw [subst_binary, subst_binary, subst_binary, ihf h, ihg h]
  | quant q y f ih =>
    have hscope : ∀ z ∈ t.vars, (σ.without y).find? z = none := by
      intro z hz
      rw [Substitution.find?_without, h z hz, ite_self]
    rw [subst_quant, subst_quant, subst_quant]
    -- a quantifier for the single variable takes it out of both sides
    by_cases hxy : x = y
    · have hsingle : Substitution.without [(x, t)] y = [] := by simp [Substitution.without, hxy]
      have hcons : Substitution.without ((x, t) :: σ) y = σ.without y := by
        simp [Substitution.without, hxy]
      rw [hsingle, hcons, subst_nil]
    · have hsingle : Substitution.without [(x, t)] y = [(x, t)] := by
        simp [Substitution.without, hxy]
      have hcons : Substitution.without ((x, t) :: σ) y = (x, t) :: σ.without y := by
        simp [Substitution.without, hxy]
      rw [hsingle, hcons, ih hscope]

end Formula

/-! ### Skolem terms -/

/-- The existentially quantified variables, in order. -/
def Prefix.existentials (p : Prefix) : List String :=
  (p.filter fun b => !b.isUniversal).map Binder.var

namespace Prefix

@[simp] theorem existentials_nil : existentials [] = [] := rfl
@[simp] theorem existentials_universal (x : String) (p : Prefix) :
    existentials (⟨.universal, x⟩ :: p) = existentials p := rfl
@[simp] theorem existentials_existential (x : String) (p : Prefix) :
    existentials (⟨.existential, x⟩ :: p) = x :: existentials p := rfl

theorem mem_map_var_of_mem_existentials {p : Prefix} {x : String} (h : x ∈ p.existentials) :
    x ∈ p.map Binder.var := by
  obtain ⟨b, hb, rfl⟩ := List.mem_map.1 h
  exact List.mem_map_of_mem (List.mem_filter.1 hb).1

end Prefix

namespace Formula

/-- The terms that treating a prefix puts in for its existentially quantified variables, in order,
where `universals` are the variables of the universal quantifiers treated so far. -/
def skolemTermsBehind (universals : List String) : Prefix → NameSupply → Substitution
  | [], _ => []
  | ⟨.universal, x⟩ :: p, names => skolemTermsBehind (universals ++ [x]) p names
  | ⟨.existential, x⟩ :: p, names =>
    (x, .skolem names.freshSkolem.1 universals) ::
      skolemTermsBehind universals p names.freshSkolem.2

/-- The terms that the Skolem form of a formula has for its existentially quantified variables. -/
def skolemTerms (f : Formula) (names : NameSupply) : Substitution :=
  skolemTermsBehind [] f.leading (names.declare f.symbols)

/-- There is a term for each existentially quantified variable. -/
theorem map_fst_skolemTermsBehind (universals : List String) (p : Prefix) (names : NameSupply) :
    (skolemTermsBehind universals p names).map Prod.fst = p.existentials := by
  induction p generalizing universals names with
  | nil => rfl
  | cons b p ih =>
    obtain ⟨q, x⟩ := b
    cases q with
    | universal => exact ih (universals ++ [x]) names
    | existential => exact congrArg (x :: ·) (ih universals names.freshSkolem.2)

/-- There is a symbol for each existentially quantified variable. -/
theorem length_skolemSymbolsBehind (p : Prefix) (names : NameSupply) :
    (skolemSymbolsBehind p names).length = p.existentials.length := by
  induction p generalizing names with
  | nil => rfl
  | cons b p ih =>
    obtain ⟨q, x⟩ := b
    cases q with
    | universal => exact ih names
    | existential => exact congrArg (· + 1) (ih names.freshSkolem.2)

/-- Only existentially quantified variables have a term. -/
theorem find?_skolemTermsBehind_eq_none {universals : List String} {p : Prefix} {x : String}
    (names : NameSupply) (h : x ∉ p.existentials) :
    (skolemTermsBehind universals p names).find? x = none := by
  cases hfind : (skolemTermsBehind universals p names).find? x with
  | none => rfl
  | some t =>
    have hmem := List.mem_map_of_mem (f := Prod.fst) (Substitution.mem_of_find? hfind)
    rw [map_fst_skolemTermsBehind] at hmem
    exact absurd hmem h

/-- The term for a variable has the symbol with the number of its quantifier among the existential
ones, and the variables of the universal quantifiers in front. -/
theorem find?_skolemTermsBehind {p : Prefix} {y : String} (hy : y ∉ p.map Binder.var)
    (p' : Prefix) (universals : List String) (names : NameSupply) :
    ∃ s, (skolemSymbolsBehind (p ++ ⟨.existential, y⟩ :: p') names)[p.existentials.length]?
        = some s ∧
      (skolemTermsBehind universals (p ++ ⟨.existential, y⟩ :: p') names).find? y
        = some (.skolem s (universals ++ p.universals)) := by
  induction p generalizing universals names with
  | nil =>
    refine ⟨names.freshSkolem.1, rfl, ?_⟩
    rw [Prefix.universals_nil, List.append_nil]
    exact (Substitution.find?_cons _ _ _ y).trans (if_pos rfl)
  | cons b p ih =>
    obtain ⟨q, x⟩ := b
    rw [List.map_cons, List.mem_cons, not_or] at hy
    cases q with
    | universal =>
      obtain ⟨s, hs, hterm⟩ := ih hy.2 (universals ++ [x]) names
      refine ⟨s, hs, ?_⟩
      rw [Prefix.universals_universal, List.append_cons universals]
      exact hterm
    | existential =>
      -- an earlier quantifier draws a symbol and has a term, but for another variable
      obtain ⟨s, hs, hterm⟩ := ih hy.2 universals names.freshSkolem.2
      refine ⟨s, hs, ?_⟩
      exact (Substitution.find?_cons _ _ _ y).trans ((if_neg hy.1).trans hterm)

/-- Treating a prefix is one substitution. -/
theorem skolemizeBehind_eq_subst {universals : List String} {p : Prefix}
    (h : (universals ++ p.map Binder.var).Nodup) (f : Formula) (names : NameSupply) :
    (skolemizeBehind universals p f names).1
      = (f.subst (skolemTermsBehind universals p names)).quantify
          ((universals ++ p.universals).map (Binder.mk .universal)) := by
  induction p generalizing universals f names with
  | nil =>
    rw [skolemTermsBehind, subst_nil, Prefix.universals_nil, List.append_nil]
    rfl
  | cons b p ih =>
    obtain ⟨q, x⟩ := b
    rw [List.map_cons] at h
    cases q with
    | universal =>
      rw [List.append_cons] at h
      rw [Prefix.universals_universal, List.append_cons]
      exact ih h f names
    | existential =>
      have hrest : (universals ++ p.map Binder.var).Nodup :=
        h.sublist ((List.Sublist.refl _).append (List.sublist_cons_self x _))
      -- the variables of the term are universally quantified, and stay as they are
      have hkeep : ∀ y ∈ (Term.skolem names.freshSkolem.1 universals).vars,
          (skolemTermsBehind universals p names.freshSkolem.2).find? y = none := by
        intro y hy
        rw [Term.vars_skolem] at hy
        apply find?_skolemTermsBehind_eq_none
        intro hmem
        obtain ⟨-, -, hdisjoint⟩ := List.nodup_append.1 hrest
        exact hdisjoint y hy y (Prefix.mem_map_var_of_mem_existentials hmem) rfl
      rw [skolemizeBehind_existential, ih hrest, subst_subst_cons hkeep, skolemTermsBehind,
        Prefix.universals_existential]

/-- A Skolem term is a constant or the application of a function symbol. -/
theorem skolem_eq_if (s : String) (xs : List String) :
    Term.skolem s xs = if xs = [] then .const s else .func s (xs.map .var) := by
  cases xs with
  | nil => rfl
  | cons x xs => exact (if_neg (List.cons_ne_nil x xs)).symm

/-- **A Skolem form is one substitution into the matrix.** If the leading quantifiers bind pairwise
different variables, the Skolem form has the universal ones of them in front, in their order, and
behind them the matrix with terms substituted at once for all existentially quantified variables.
There is one symbol for each of these variables; the symbols are pairwise different, and neither in
use before nor names of the formula. The term for a variable is its symbol, as a constant if no
universal quantifier precedes it, and otherwise applied to the variables of exactly the universal
quantifiers that precede it, in their order. -/
theorem skolemize_eq_subst {f : Formula} (h : (f.leading.map Binder.var).Nodup)
    (names : NameSupply) :
    (f.skolemize names).1
        = (f.matrix.subst (f.skolemTerms names)).quantify (f.leading.filter Binder.isUniversal) ∧
      (f.skolemTerms names).map Prod.fst = f.leading.existentials ∧
      (f.skolemSymbols names).length = f.leading.existentials.length ∧
      (f.skolemSymbols names).Nodup ∧
      (∀ s ∈ f.skolemSymbols names, s ∉ f.symbols ∧ s ∉ names.used) ∧
      ∀ (p : Prefix) (y : String) (p' : Prefix), f.leading = p ++ ⟨.existential, y⟩ :: p' →
        ∃ s, (f.skolemSymbols names)[p.existentials.length]? = some s ∧
          (f.skolemTerms names).find? y
            = some (if p.universals = [] then .const s else .func s (p.universals.map .var)) := by
  refine ⟨?_, map_fst_skolemTermsBehind _ _ _, length_skolemSymbolsBehind _ _,
    nodup_skolemSymbols f names, fun s hs => (skolemSymbols_new hs).symm, ?_⟩
  · rw [skolemize, skolemizeBehind_eq_subst h, List.nil_append, Prefix.map_universals]
    rfl
  · intro p y p' hsplit
    have hy : y ∉ p.map Binder.var := by
      rw [hsplit, List.map_append, List.map_cons] at h
      obtain ⟨-, -, hdisjoint⟩ := List.nodup_append.1 h
      exact fun hmem => hdisjoint y hmem y List.mem_cons_self rfl
    obtain ⟨s, hs, hterm⟩ := find?_skolemTermsBehind hy p' [] (names.declare f.symbols)
    rw [List.nil_append, skolem_eq_if, ← hsplit] at hterm
    rw [← hsplit] at hs
    exact ⟨s, hs, hterm⟩

/-- The formula `∃y ∀x ∃z (R(x, y, z) ∧ ∀y P(y, SK1))`, where `SK1` is a constant already. -/
def sampleAlternation : Formula :=
  .ex "y" (.all "x" (.ex "z"
    (.and (.pred "R" [.var "x", .var "y", .var "z"])
      (.all "y" (.pred "P" [.var "y", .const "SK1"])))))

/-- The Skolem form is `∀x (R(x, SK2, SK3(x)) ∧ ∀y P(y, SK1))`. -/
theorem skolemize_eq_subst_sample :
    (sampleAlternation.leading.map Binder.var).Nodup ∧
      sampleAlternation.skolemSymbols NameSupply.standard = ["SK2", "SK3"] ∧
      sampleAlternation.skolemTerms NameSupply.standard
        = [("y", .const "SK2"), ("z", .func "SK3" [.var "x"])] ∧
      (sampleAlternation.skolemize NameSupply.standard).1
        = .all "x" (.and (.pred "R" [.var "x", .const "SK2", .func "SK3" [.var "x"]])
            (.all "y" (.pred "P" [.var "y", .const "SK1"]))) := by
  have hnodup : (sampleAlternation.leading.map Binder.var).Nodup := by decide
  have hterms : sampleAlternation.skolemTerms NameSupply.standard
      = [("y", .const "SK2"), ("z", .func "SK3" [.var "x"])] := by decide
  refine ⟨hnodup, by decide, hterms, ?_⟩
  rw [(skolemize_eq_subst hnodup NameSupply.standard).1, hterms]
  rfl

end Formula

end LogicForms
