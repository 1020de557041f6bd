import LogicForms.Forms.Skolem
import LogicForms.Proofs.Extraction
import LogicForms.Proofs.FreshNames

/-!
# Skolem forms

A formula follows from its Skolem form (`holds_of_skolemize`). Conversely, where the formula is true
the Skolem form becomes true with other values for the new symbols, and for nothing else
(`exists_holds_skolemize`). Both hold if a variable that an existential quantifier binds or sees in
front of it is not bound again in its scope, so that no variable of a term that is put in gets
captured. Where no variable is quantified twice this is always so (`skolemizable_leading`).

The leading quantifiers are treated from the outermost to the innermost one. What each step relies
on and keeps is `Skolemizable`: the variables at hand are not bound again, and all names are in use,
so that a new symbol is really new. A structure interprets the symbol by a function that picks, for
the values of the universally quantified variables, a value that makes the rest true.
-/

set_option autoImplicit false

namespace LogicForms

universe u

/-! ### Blocks of universal quantifiers -/

/-- The valuations differ at most in the values of the given variables. -/
def Valuation.AgreesOutside {D : Type u} (xs : List String) (v w : Valuation D) : Prop :=
  ∀ y, y ∉ xs → w y = v y

/-- Universal quantifiers in front of a formula ask for its truth under all values of their
variables. -/
theorem Formula.holds_quantify_universal {D : Type u} (M : Structure D) (f : Formula)
    (xs : List String) (v : Valuation D) :
    (f.quantify (xs.map (Binder.mk .universal))).Holds M v ↔
      ∀ w, v.AgreesOutside xs w → f.Holds M w := by
  induction xs generalizing v with
  | nil =>
    constructor
    · intro h w hw
      have hwv : w = v := funext fun y => hw y List.not_mem_nil
      rw [hwv]
      exact h
    · intro h
      exact h v fun _ _ => rfl
  | cons x xs ih =>
    constructor
    · intro h w hw
      refine (ih (v.update x (w x))).1 (h (w x)) w fun y hy => ?_
      by_cases hyx : y = x
      · rw [hyx, Valuation.update_self]
      · rw [Valuation.update_of_ne v _ hyx]
        exact hw y (by simp [hyx, hy])
    · intro h d
      refine (ih (v.update x d)).2 fun w hw => h w fun y hy => ?_
      rw [List.mem_cons, not_or] at hy
      rw [hw y hy.2, Valuation.update_of_ne v d hy.1]

/-! ### New symbols -/

/-- The structure in which a name stands for the given function and, without arguments, for its
value at the empty list. -/
def Structure.withSymbol {D : Type u} (M : Structure D) (name : String) (F : List D → D) :
    Structure D :=
  { M with
    const := fun c => if c = name then F [] else M.const c
    func := fun f => if f = name then F else M.func f }

theorem Structure.agreesOutside_withSymbol {D : Type u} (M : Structure D) (name : String)
    (F : List D → D) : M.AgreesOutside [name] (M.withSymbol name F) where
  const c hc := by
    rw [List.mem_singleton] at hc
    exact if_neg hc
  func f hf := by
    rw [List.mem_singleton] at hf
    exact if_neg hf
  equation := rfl
  predicate := rfl
  negation := rfl
  connective := rfl
  quantifier := rfl
  bound := rfl
  rel := rfl

namespace Term

theorem varsList_map_var (xs : List String) : varsList (xs.map .var) = xs := by
  induction xs with
  | nil => rfl
  | cons x xs ih => rw [List.map_cons, varsList_cons, ih, vars_var, List.singleton_append]

theorem symbolsList_map_var (xs : List String) : symbolsList (xs.map .var) = xs := by
  induction xs with
  | nil => rfl
  | cons x xs ih => rw [List.map_cons, symbolsList_cons, ih, symbols_var, List.singleton_append]

/-- The variables of a Skolem term are the universally quantified ones. -/
@[simp] theorem vars_skolem (name : String) (xs : List String) : (skolem name xs).vars = xs := by
  cases xs with
  | nil => rfl
  | cons x xs => exact varsList_map_var (x :: xs)

@[simp] theorem symbols_skolem (name : String) (xs : List String) :
    (skolem name xs).symbols = name :: xs := by
  cases xs with
  | nil => rfl
  | cons x xs => exact congrArg (name :: ·) (symbolsList_map_var (x :: xs))

/-- A Skolem term has the value of the function for the values of its variables, also if there are
none. -/
theorem value_skolem {D : Type u} (M : Structure D) (name : String) (F : List D → D)
    (xs : List String) (v : Valuation D) :
    (skolem name xs).value (M.withSymbol name F) v = F (xs.map v) := by
  cases xs with
  | nil => exact if_pos rfl
  | cons x xs =>
    have hargs : valueList (M.withSymbol name F) v ((x :: xs).map .var) = (x :: xs).map v := by
      rw [valueList_eq_map, List.map_map]
      rfl
    rw [skolem, value_func, hargs]
    exact congrFun (if_pos rfl) _

end Term

/-! ### Substitution behind a prefix -/

namespace Formula

theorem subst_quantify {x : String} {t : Term} {p : Prefix} (h : x ∉ p.map Binder.var)
    (f : Formula) : (f.quantify p).subst [(x, t)] = (f.subst [(x, t)]).quantify p := by
  induction p with
  | nil => rfl
  | cons b p ih =>
    rw [List.map_cons, List.mem_cons, not_or] at h
    have hkeep : Substitution.without [(x, t)] b.var = [(x, t)] := by
      simp [Substitution.without, h.1]
    rw [quantify_cons, quantify_cons, subst_quant, hkeep, ih h.2]

/-- Putting a term in for a variable behind a prefix gives the variable the value of the term, if
the prefix binds neither the variable nor anything in the term. -/
theorem holds_subst_quantify {D : Type u} (M : Structure D) {f : Formula} {p : Prefix}
    {x : String} {t : Term} (hx : x ∉ p.map Binder.var)
    (ht : ∀ y ∈ t.vars, y ∉ (f.quantify p).quantifiedVars) (v : Valuation D) :
    ((f.subst [(x, t)]).quantify p).Holds M v ↔
      (f.quantify p).Holds M (v.update x (t.value M v)) := by
  have havoids := Substitution.avoidsCapture_singleton x ht
  have hvaluation : Substitution.valuation M [(x, t)] v = v.update x (t.value M v) := by
    funext y
    rw [Substitution.valuation, Substitution.find?_singleton, Valuation.update]
    split <;> rfl
  rw [← subst_quantify hx, holds_subst M havoids, hvaluation]

/-! ### The symbols that are drawn -/

/-- The symbols that treating a prefix draws from a supply, in order. -/
def skolemSymbolsBehind : Prefix → NameSupply → List String
  | [], _ => []
  | ⟨.universal, _⟩ :: p, names => skolemSymbolsBehind p names
  | ⟨.existential, _⟩ :: p, names =>
    names.freshSkolem.1 :: skolemSymbolsBehind p names.freshSkolem.2

/-- The symbols that the Skolem form of a formula has for its existential quantifiers. -/
def skolemSymbols (f : Formula) (names : NameSupply) : List String :=
  skolemSymbolsBehind f.leading (names.declare f.symbols)

/-- An existential quantifier draws a symbol and puts its term in. -/
theorem skolemizeBehind_existential (universals : List String) (x : String) (p : Prefix)
    (f : Formula) (names : NameSupply) :
    skolemizeBehind universals (⟨.existential, x⟩ :: p) f names =
      skolemizeBehind universals p (f.subst [(x, .skolem names.freshSkolem.1 universals)])
        names.freshSkolem.2 := rfl

/-- The names in use afterwards are those in use before and the symbols that are drawn. -/
theorem skolemizeBehind_used (universals : List String) (p : Prefix) (f : Formula)
    (names : NameSupply) :
    (skolemizeBehind universals p f names).2.used
      = (skolemSymbolsBehind p names).reverse ++ names.used := by
  induction p generalizing universals f names with
  | nil => rfl
  | cons b p ih =>
    obtain ⟨q, x⟩ := b
    cases q with
    | universal => exact ih (universals ++ [x]) f names
    | existential =>
      rw [skolemizeBehind_existential, ih, skolemSymbolsBehind, List.reverse_cons,
        NameSupply.freshSkolem_used, List.append_assoc, List.singleton_append]

/-- The symbols that are drawn are new, and no two of them are equal. -/
theorem nodup_skolemSymbolsBehind (p : Prefix) (names : NameSupply) :
    (skolemSymbolsBehind p names).Nodup ∧ ∀ c ∈ skolemSymbolsBehind p names, c ∉ names.used := by
  induction p generalizing names with
  | nil => simp [skolemSymbolsBehind]
  | cons b p ih =>
    obtain ⟨q, x⟩ := b
    cases q with
    | universal => exact ih names
    | existential =>
      obtain ⟨hnodup, hnew⟩ := ih names.freshSkolem.2
      rw [NameSupply.freshSkolem_used] at hnew
      rw [skolemSymbolsBehind, List.nodup_cons, List.forall_mem_cons]
      refine ⟨⟨fun hmem => hnew _ hmem (by simp), hnodup⟩, names.freshSkolem_not_mem, ?_⟩
      intro c hc hused
      exact hnew c hc (List.mem_cons_of_mem _ hused)

/-- The names in use after a Skolem form are those of the formula and those in use before, and the
symbols of the Skolem form. -/
theorem skolemize_used (f : Formula) (names : NameSupply) :
    (f.skolemize names).2.used
      = (f.skolemSymbols names).reverse ++ (names.declare f.symbols).used :=
  skolemizeBehind_used [] f.leading f.matrix (names.declare f.symbols)

theorem nodup_skolemSymbols (f : Formula) (names : NameSupply) : (f.skolemSymbols names).Nodup :=
  (nodup_skolemSymbolsBehind f.leading (names.declare f.symbols)).1

/-- The symbols of a Skolem form are neither in use before nor names of the formula. -/
theorem skolemSymbols_new {f : Formula} {names : NameSupply} {c : String}
    (h : c ∈ f.skolemSymbols names) : c ∉ names.used ∧ c ∉ f.symbols := by
  have hnew := (nodup_skolemSymbolsBehind f.leading (names.declare f.symbols)).2 c h
  rw [NameSupply.declare_used, NameSupply.mem_addNames, not_or] at hnew
  exact hnew

end Formula

/-! ### Variables that are bound again -/

/-- Behind an existential quantifier, neither its variable nor a universally quantified variable in
front of it is bound again; `universals` are the variables of the universal quantifiers in front of
the prefix. A variable of adjacent universal quantifiers may be bound again by one of them, or by
the existential quantifier that follows. -/
def Prefix.Unshadowed (universals : List String) : Prefix → Prop
  | [] => True
  | ⟨.universal, x⟩ :: p => Unshadowed (universals ++ [x]) p
  | ⟨.existential, x⟩ :: p =>
    (∀ y ∈ x :: universals, y ∉ p.map Binder.var) ∧ Unshadowed universals p

/-- Variables that are pairwise different are not bound again. -/
theorem Prefix.unshadowed_of_nodup {universals : List String} {p : Prefix}
    (h : (universals ++ p.map Binder.var).Nodup) : p.Unshadowed universals := by
  induction p generalizing universals with
  | nil => trivial
  | cons b p ih =>
    obtain ⟨q, x⟩ := b
    rw [List.map_cons] at h
    cases q with
    | universal =>
      refine ih ?_
      rw [List.append_assoc, List.singleton_append]
      exact h
    | existential =>
      obtain ⟨-, hp, hdisjoint⟩ := List.nodup_append.1 h
      refine ⟨List.forall_mem_cons.2 ⟨(List.nodup_cons.1 hp).1, fun y hy hmem => ?_⟩, ih ?_⟩
      · exact hdisjoint y hy y (List.mem_cons_of_mem x hmem) rfl
      · exact h.sublist ((List.Sublist.refl _).append (List.sublist_cons_self x _))

namespace Formula

/-! ### The steps -/

/-- What treating a prefix relies on: no existential quantifier is followed by another quantifier
for a variable that it binds or sees in front of it, the universally quantified ones treated so far
included, and all names are in use. -/
structure Skolemizable (universals : List String) (p : Prefix) (f : Formula) (names : NameSupply) :
    Prop where
  unshadowed : p.Unshadowed universals
  matrix : ∀ y ∈ universals ++ p.universals, y ∉ f.quantifiedVars
  universals : universals ⊆ names.used
  symbols : (f.quantify p).symbols ⊆ names.used

namespace Skolemizable

variable {universals : List String} {p : Prefix} {f : Formula} {names : NameSupply} {x : String}

/-- A universal quantifier is put to the others. -/
theorem universal (h : Skolemizable universals (⟨.universal, x⟩ :: p) f names) :
    Skolemizable (universals ++ [x]) p f names := by
  obtain ⟨hunshadowed, hmatrix, huniversals, hsymbols⟩ := h
  rw [quantify_cons, symbols_quant, List.cons_subset] at hsymbols
  rw [Prefix.universals_universal, List.append_cons] at hmatrix
  refine ⟨hunshadowed, hmatrix, ?_, hsymbols.2⟩
  exact List.append_subset.2 ⟨huniversals, List.cons_subset.2 ⟨hsymbols.1, List.nil_subset _⟩⟩

/-- The variable of an existential quantifier is not bound again by the prefix. -/
theorem not_mem_prefix (h : Skolemizable universals (⟨.existential, x⟩ :: p) f names) :
    x ∉ p.map Binder.var :=
  h.unshadowed.1 x List.mem_cons_self

/-- The term for an existential quantifier has universally quantified variables in front of it, none
of which is quantified in the matrix. -/
theorem vars_not_mem_matrix (h : Skolemizable universals (⟨.existential, x⟩ :: p) f names)
    (name : String) : ∀ y ∈ (Term.skolem name universals).vars, y ∉ f.quantifiedVars := by
  intro y hy
  rw [Term.vars_skolem] at hy
  exact h.matrix y (List.mem_append_left _ hy)

/-- None of these variables is quantified anywhere in its scope. -/
theorem vars_not_mem_scope (h : Skolemizable universals (⟨.existential, x⟩ :: p) f names)
    (name : String) :
    ∀ y ∈ (Term.skolem name universals).vars, y ∉ (f.quantify p).quantifiedVars := by
  intro y hy
  rw [quantifiedVars_quantify, List.mem_append, not_or]
  refine ⟨?_, h.vars_not_mem_matrix name y hy⟩
  rw [Term.vars_skolem] at hy
  exact h.unshadowed.1 y (List.mem_cons_of_mem x hy)

/-- A fresh symbol for an existential quantifier is not among the names of its scope. -/
theorem freshSkolem_not_mem (h : Skolemizable universals (⟨.existential, x⟩ :: p) f names) :
    names.freshSkolem.1 ∉ (f.quantify p).symbols := by
  intro hmem
  exact names.freshSkolem_not_mem (h.symbols (List.mem_cons_of_mem x hmem))

/-- The term for an existential quantifier brings in no other names than the fresh symbol and
variables in front. -/
theorem existential (h : Skolemizable universals (⟨.existential, x⟩ :: p) f names) :
    Skolemizable universals p (f.subst [(x, .skolem names.freshSkolem.1 universals)])
      names.freshSkolem.2 := by
  have hx := h.not_mem_prefix
  obtain ⟨hunshadowed, hmatrix, huniversals, hsymbols⟩ := h
  rw [quantify_cons, symbols_quant, List.cons_subset] at hsymbols
  refine ⟨hunshadowed.2, ?_, ?_, ?_⟩
  · rw [quantifiedVars_subst]
    exact hmatrix
  · rw [NameSupply.freshSkolem_used]
    exact List.subset_cons_of_subset _ huniversals
  · intro c hc
    rw [← subst_quantify hx] at hc
    rw [NameSupply.freshSkolem_used]
    rcases mem_symbols_subst hc with hc | ⟨e, he, hc⟩
    · exact List.mem_cons_of_mem _ (hsymbols.2 hc)
    · rw [List.mem_singleton] at he
      subst he
      rw [Term.symbols_skolem, List.mem_cons] at hc
      rcases hc with rfl | hc
      · exact List.mem_cons_self
      · exact List.mem_cons_of_mem _ (huniversals hc)

end Skolemizable

/-! ### Truth -/

section

variable {D : Type u} {universals : List String} {p : Prefix} {f : Formula} {names : NameSupply}

/-- The Skolem form implies the formula behind the universal quantifiers treated so far: the value
of the term is a value for the existentially quantified variable. -/
theorem holds_of_skolemizeBehind (M : Structure D) (hs : Skolemizable universals p f names)
    {v : Valuation D} (h : (skolemizeBehind universals p f names).1.Holds M v) :
    ((f.quantify p).quantify (universals.map (Binder.mk .universal))).Holds M v := by
  induction p generalizing universals f names with
  | nil => exact h
  | cons b p ih =>
    obtain ⟨q, x⟩ := b
    cases q with
    | universal =>
      have hrest := ih hs.universal h
      rw [List.map_append, quantify_append] at hrest
      exact hrest
    | existential =>
      have hrest := (holds_quantify_universal M _ universals v).1 (ih hs.existential h)
      refine (holds_quantify_universal M _ universals v).2 fun w hw => ?_
      have ht := hs.vars_not_mem_scope names.freshSkolem.1
      -- what the quantifier asks for is the value of the term that was put in
      exact ⟨_, (holds_subst_quantify M hs.not_mem_prefix ht w).1 (hrest w hw)⟩

/-- If for all values of the universally quantified variables there is a value that makes the scope
true, then there is a function of the former that gives the latter. -/
theorem exists_choice [Nonempty D] (M : Structure D) {x : String} {k : Formula} {v : Valuation D}
    (h : ∀ w, v.AgreesOutside universals w → ∃ d, k.Holds M (w.update x d)) :
    ∃ F : List D → D, ∀ w, v.AgreesOutside universals w →
      k.Holds M (w.update x (F (universals.map w))) := by
  refine ⟨fun ds => Classical.epsilon fun d => ∀ w, v.AgreesOutside universals w →
    universals.map w = ds → k.Holds M (w.update x d), fun w hw => ?_⟩
  obtain ⟨d, hd⟩ := h w hw
  -- the values of the universally quantified variables leave only one valuation
  have hunique (w' : Valuation D) (hw' : v.AgreesOutside universals w')
      (heq : universals.map w' = universals.map w) : w' = w := by
    funext y
    by_cases hy : y ∈ universals
    · exact List.map_inj_left.1 heq y hy
    · rw [hw' y hy, hw y hy]
  have hex : ∃ d, ∀ w', v.AgreesOutside universals w' →
      universals.map w' = universals.map w → k.Holds M (w'.update x d) := by
    refine ⟨d, fun w' hw' heq => ?_⟩
    rw [hunique w' hw' heq]
    exact hd
  exact Classical.epsilon_spec hex w hw rfl

/-- The formula behind the universal quantifiers treated so far implies the Skolem form with other
values for the symbols that are drawn. -/
theorem exists_holds_skolemizeBehind [Nonempty D] (M : Structure D)
    (hs : Skolemizable universals p f names) {v : Valuation D}
    (h : ((f.quantify p).quantify (universals.map (Binder.mk .universal))).Holds M v) :
    ∃ N, M.AgreesOutside (skolemSymbolsBehind p names) N ∧
      (skolemizeBehind universals p f names).1.Holds N v := by
  induction p generalizing universals f names M with
  | nil => exact ⟨M, .refl [] M, h⟩
  | cons b p ih =>
    obtain ⟨q, x⟩ := b
    cases q with
    | universal =>
      refine ih M hs.universal ?_
      rw [List.map_append, quantify_append]
      exact h
    | existential =>
      obtain ⟨F, hF⟩ := exists_choice M ((holds_quantify_universal M _ universals v).1 h)
      have hagree := M.agreesOutside_withSymbol names.freshSkolem.1 F
      -- the scope does not mention the symbol, so that its truth stays the same
      have hscope : ∀ c ∈ (f.quantify p).symbols, c ∉ [names.freshSkolem.1] := by
        intro c hc hmem
        rw [List.mem_singleton] at hmem
        subst hmem
        exact hs.freshSkolem_not_mem hc
      have ht := hs.vars_not_mem_scope names.freshSkolem.1
      -- for any values of the variables in front, the term has a value that makes the scope true
      have hrest : (((f.subst [(x, .skolem names.freshSkolem.1 universals)]).quantify p).quantify
          (universals.map (Binder.mk .universal))).Holds
            (M.withSymbol names.freshSkolem.1 F) v := by
        refine (holds_quantify_universal _ _ universals v).2 fun w hw => ?_
        rw [holds_subst_quantify _ hs.not_mem_prefix ht w, Term.value_skolem,
          holds_of_agreesOutside hagree hscope]
        exact hF w hw
      obtain ⟨N, hN, hholds⟩ := ih _ hs.existential hrest
      exact ⟨N, hagree.append hN, hholds⟩

end

/-- All names of a formula are in use when its leading quantifiers are treated. -/
theorem skolemizable_of_unshadowed {f : Formula} (hp : f.leading.Unshadowed [])
    (hm : ∀ y ∈ f.leading.universals, y ∉ f.matrix.quantifiedVars) (names : NameSupply) :
    Skolemizable [] f.leading f.matrix (names.declare f.symbols) where
  unshadowed := hp
  matrix := hm
  universals := List.nil_subset _
  symbols c hc := by
    rw [quantify_leading] at hc
    exact NameSupply.mem_addNames.2 (Or.inr hc)

/-- If no variable is quantified twice, the leading quantifiers can be treated. -/
theorem skolemizable_leading {f : Formula} (hf : f.quantifiedVars.Nodup) (names : NameSupply) :
    Skolemizable [] f.leading f.matrix (names.declare f.symbols) := by
  have hvars : f.quantifiedVars = f.leading.map Binder.var ++ f.matrix.quantifiedVars := by
    rw [← quantifiedVars_quantify, quantify_leading]
  rw [hvars] at hf
  obtain ⟨hleading, -, hdisjoint⟩ := List.nodup_append.1 hf
  have hunshadowed : f.leading.Unshadowed [] := Prefix.unshadowed_of_nodup hleading
  refine skolemizable_of_unshadowed hunshadowed (fun y hy hmem => ?_) names
  obtain ⟨b, hb, rfl⟩ := List.mem_map.1 hy
  exact hdisjoint _ (List.mem_map_of_mem (List.mem_filter.1 hb).1) _ hmem rfl

variable {D : Type u} (M : Structure D) {f : Formula} {names : NameSupply} {v : Valuation D}

/-- A formula follows from its Skolem form. -/
theorem holds_of_skolemize (hs : Skolemizable [] f.leading f.matrix (names.declare f.symbols))
    (h : (f.skolemize names).1.Holds M v) : f.Holds M v := by
  have hbehind := holds_of_skolemizeBehind M hs h
  rw [quantify_leading] at hbehind
  exact hbehind

/-- Where a formula is true, its Skolem form is true for some interpretation of the new symbols. -/
theorem exists_holds_skolemize [Nonempty D]
    (hs : Skolemizable [] f.leading f.matrix (names.declare f.symbols)) (h : f.Holds M v) :
    ∃ N, M.AgreesOutside (f.skolemSymbols names) N ∧ (f.skolemize names).1.Holds N v := by
  refine exists_holds_skolemizeBehind M hs ?_
  rw [quantify_leading]
  exact h

end Formula

end LogicForms
