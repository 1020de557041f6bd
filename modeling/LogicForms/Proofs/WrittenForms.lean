import LogicForms.Proofs.FreeVariables
import LogicForms.Proofs.Rebuilding

/-!
# Passes on formulas that can be written

Formulas that can be written are those that are read again from their printed forms. Most passes
keep this property: the connectives and quantifiers are written alike, and a fresh variable made
from a variable is an identifier that starts like it (`isWellFormed_standardizeApart`).

Skolem forms need more. The new symbols are written if their beginning is an identifier that does
not start like a variable. But the arguments of a Skolem term are the variables of the universal
quantifiers in front, and a quantifier may have a variable that is read as a constant elsewhere. So
a Skolem form can be written exactly if no such variable becomes an argument
(`isWellFormed_skolemize_iff`).
-/

set_option autoImplicit false

namespace LogicForms

open Surface (isIdentifier isIdentifierChars isNameChar isNameStart isVariableName)

/-! ### Names -/

namespace Surface

/-- Whether a name is read as a variable is decided by its beginning. -/
theorem isVariableName_append {name : String} (h : name ≠ "") (suffix : String) :
    isVariableName (name ++ suffix) = isVariableName name := by
  cases hchars : name.toList with
  | nil => exact absurd (String.toList_eq_nil_iff.1 hchars) h
  | cons c rest =>
    rw [isVariableName, isVariableName, String.toList_append, hchars, List.cons_append]

/-- With further characters of names behind it, a name is an identifier if it was one before. -/
theorem isIdentifier_append {name : String} (h : name ≠ "") {suffix : String}
    (hsuffix : ∀ c ∈ suffix.toList, isNameChar c = true) :
    isIdentifier (name ++ suffix) = isIdentifier name := by
  cases hchars : name.toList with
  | nil => exact absurd (String.toList_eq_nil_iff.1 hchars) h
  | cons c rest =>
    rw [isIdentifier, isIdentifier, String.toList_append, hchars, List.cons_append,
      isIdentifierChars, isIdentifierChars, List.all_append, List.all_eq_true.2 hsuffix,
      Bool.and_true]

/-- A name can go on with a numeral. -/
theorem isNameChar_of_mem_toString {n : Nat} {c : Char} (h : c ∈ (toString n).toList) :
    isNameChar c = true := by
  rw [Nat.toString_eq_repr, Nat.toList_repr] at h
  have hdigit : c.isDigit = true := Nat.isDigit_of_mem_toDigits (by decide) (by decide) h
  rw [isNameChar, Bool.or_eq_true]
  exact Or.inr (by simpa [Char.isDigit, Char.le_def, UInt32.le_iff_toNat_le] using hdigit)

end Surface

namespace NameSupply

/-- A fresh variable is an identifier if the variable that it is made from is one. -/
theorem isIdentifier_freshVariable (s : NameSupply) {base : String}
    (h : isIdentifier base = true) : isIdentifier (s.freshVariable base).1 = true := by
  rw [freshVariable, variableCandidate, String.append_assoc,
    Surface.isIdentifier_append (Surface.ne_empty_of_isIdentifier h), h]
  intro c hc
  rw [String.toList_append, List.mem_append] at hc
  rcases hc with hc | hc
  · obtain rfl : c = '_' := by simpa using hc
    decide
  · exact Surface.isNameChar_of_mem_toString hc

/-- A fresh variable made from one that can be written can be written. -/
theorem isWellFormed_freshVariable (s : NameSupply) {base : String}
    (h : (Term.var base).isWellFormed = true) :
    (Term.var (s.freshVariable base).1).isWellFormed = true := by
  rw [Term.isWellFormed_var, Bool.and_eq_true] at h ⊢
  refine ⟨s.isIdentifier_freshVariable h.1, ?_⟩
  rw [freshVariable, variableCandidate, String.append_assoc,
    Surface.isVariableName_append (Surface.ne_empty_of_isIdentifier h.1)]
  exact h.2

/-- A Skolem symbol can be written as a constant exactly if its beginning can. -/
theorem isWellFormed_freshSkolem (s : NameSupply) (h : s.skolemPrefix ≠ "") :
    (Term.const s.freshSkolem.1).isWellFormed = (Term.const s.skolemPrefix).isWellFormed := by
  rw [Term.isWellFormed_const, Term.isWellFormed_const, freshSkolem, skolemCandidate,
    Surface.isIdentifier_append h fun _ => Surface.isNameChar_of_mem_toString,
    Surface.isVariableName_append h]

end NameSupply

/-! ### Substitution -/

/-- What is put in for the given variables can be written and is no equation. -/
def Substitution.IsWritableFor (σ : Substitution) (xs : List String) : Prop :=
  ∀ x ∈ xs, ∀ t, σ.find? x = some t → t.isWellFormed = true ∧ t.isEquation = false

theorem Substitution.IsWritableFor.mono {σ : Substitution} {xs ys : List String}
    (h : σ.IsWritableFor xs) (hsubset : ys ⊆ xs) : σ.IsWritableFor ys :=
  fun x hx => h x (hsubset hx)

/-- A single term is put in. -/
theorem Substitution.isWritableFor_singleton {x : String} {t : Term} {xs : List String}
    (h : x ∈ xs → t.isWellFormed = true ∧ t.isEquation = false) :
    Substitution.IsWritableFor [(x, t)] xs := by
  intro y hy u hu
  rw [Substitution.find?_singleton] at hu
  split at hu
  · rename_i hyx
    cases hu
    exact h (hyx ▸ hy)
  · exact absurd hu (by simp)

namespace Term

/-- A variable of a term that can be written can be written. -/
theorem isWellFormed_var_of_mem_vars {t : Term} (h : t.isWellFormed = true) {x : String}
    (hx : x ∈ t.vars) : (Term.var x).isWellFormed = true := by
  induction t using rec' with
  | hvar y =>
    obtain rfl : x = y := List.mem_singleton.1 hx
    exact h
  | hconst c => exact absurd hx List.not_mem_nil
  | hfunc f args ih =>
    rw [isWellFormed_func, Bool.and_eq_true, areWellFormed_iff] at h
    obtain ⟨t, ht, hxt⟩ := mem_varsList.1 hx
    exact ih t ht (h.2 t ht) hxt
  | heq s u ihs ihu =>
    simp only [isWellFormed_eq, Bool.and_eq_true] at h
    rcases List.mem_append.1 hx with hx | hx
    · exact ihs h.1.2 hx
    · exact ihu h.2 hx
  | hpred | hnot | hbinary | hquant | hbound => simp at h

/-- A term that can be written stays so, and stays an equation or another term, when terms that can
be written and are no equations are put in for its variables. -/
theorem isWellFormed_subst {σ : Substitution} {t : Term} (hσ : σ.IsWritableFor t.vars)
    (h : t.isWellFormed = true) :
    (t.subst σ).isWellFormed = true ∧ (t.subst σ).isEquation = t.isEquation := by
  induction t using rec' with
  | hvar x =>
    rw [subst_var]
    cases ht : σ.find? x with
    | none => exact ⟨h, rfl⟩
    | some u => exact hσ x (List.mem_singleton_self x) u ht
  | hconst c => exact ⟨h, rfl⟩
  | hfunc f args ih =>
    rw [isWellFormed_func, Bool.and_eq_true, areWellFormed_iff] at h
    rw [subst_func, isWellFormed_func, Bool.and_eq_true, areWellFormed_iff, substList_eq_map,
      List.forall_mem_map]
    refine ⟨⟨h.1, fun t ht => ?_⟩, rfl⟩
    exact (ih t ht (hσ.mono fun x hx => mem_varsList.2 ⟨t, ht, hx⟩) (h.2 t ht)).1
  | heq s u ihs ihu =>
    simp only [isWellFormed_eq, Bool.and_eq_true] at h
    obtain ⟨hs, hs'⟩ := ihs (hσ.mono (List.subset_append_left _ _)) h.1.2
    obtain ⟨hu, hu'⟩ := ihu (hσ.mono (List.subset_append_right _ _)) h.2
    rw [subst_eq, isWellFormed_eq, hs, hu, hs', hu', h.1.1.1, h.1.1.2]
    exact ⟨rfl, rfl⟩
  | hpred | hnot | hbinary | hquant | hbound => simp at h

/-- A Skolem term can be written if its symbol can be written as a constant and its arguments as
variables. -/
theorem isWellFormed_skolem {name : String} {xs : List String}
    (hname : (Term.const name).isWellFormed = true)
    (hxs : ∀ x ∈ xs, (Term.var x).isWellFormed = true) :
    (skolem name xs).isWellFormed = true ∧ (skolem name xs).isEquation = false := by
  cases xs with
  | nil => exact ⟨hname, rfl⟩
  | cons x xs =>
    rw [isWellFormed_const, Bool.and_eq_true] at hname
    rw [skolem, isWellFormed_func, Bool.and_eq_true, areWellFormed_iff, List.forall_mem_map]
    exact ⟨⟨hname.1, hxs⟩, rfl⟩

end Term

namespace Formula

variable {f g m : Formula} {p : Prefix} {x y : String}

theorem isWellFormed_var_of_mem_occurrences (h : f.isWellFormed = true) (hx : x ∈ f.occurrences) :
    (Term.var x).isWellFormed = true := by
  induction f with
  | pred r args => exact Term.isWellFormed_var_of_mem_vars (t := .func r args) h hx
  | eq s t => exact Term.isWellFormed_var_of_mem_vars (t := .eq s t) h hx
  | not f ih => exact ih h hx
  | binary op f g ihf ihg =>
    rw [isWellFormed_binary, Bool.and_eq_true] at h
    rcases List.mem_append.1 hx with hx | hx
    · exact ihf h.1 hx
    · exact ihg h.2 hx
  | quant q y f ih =>
    rw [isWellFormed_quant, Bool.and_eq_true] at h
    exact ih h.2 hx

/-- A formula that can be written stays so when terms that can be written and are no equations are
put in for its free variables. -/
theorem isWellFormed_subst {σ : Substitution} (hσ : σ.IsWritableFor f.freeVars)
    (h : f.isWellFormed = true) : (f.subst σ).isWellFormed = true := by
  induction f generalizing σ with
  | pred r args =>
    rw [freeVars_pred] at hσ
    exact (Term.isWellFormed_subst (t := .func r args) hσ h).1
  | eq s t =>
    rw [freeVars_eq] at hσ
    exact (Term.isWellFormed_subst (t := .eq s t) hσ h).1
  | not f ih => exact ih hσ h
  | binary op f g ihf ihg =>
    rw [isWellFormed_binary, Bool.and_eq_true] at h
    rw [subst_binary, isWellFormed_binary, Bool.and_eq_true]
    exact ⟨ihf (hσ.mono (List.subset_append_left _ _)) h.1,
      ihg (hσ.mono (List.subset_append_right _ _)) h.2⟩
  | quant q y f ih =>
    rw [isWellFormed_quant, Bool.and_eq_true] at h
    rw [subst_quant, isWellFormed_quant, Bool.and_eq_true]
    refine ⟨h.1, ih (fun z hz t ht => ?_) h.2⟩
    rw [Substitution.find?_without] at ht
    split at ht
    · exact absurd ht (by simp)
    · rename_i hzy
      exact hσ z (mem_freeVars_quant.2 ⟨hz, hzy⟩) t ht

/-! ### Renaming apart and moving quantifiers -/

/-- It is the parts of a formula that can be written. -/
theorem isCollected_isWellFormed : IsCollected .and fun f => f.isWellFormed = true where
  junction := Or.inl rfl
  not _ := Iff.rfl
  binary _ _ _ := Bool.and_eq_true_iff
  quant q q' x f g h := by
    rw [isWellFormed_quant, isWellFormed_quant, Bool.and_eq_true, Bool.and_eq_true, h]

theorem isWellFormed_renameApart (s : Avoiding) (h : f.isWellFormed = true) :
    (f.renameApart s).1.isWellFormed = true := by
  fun_induction renameApart f s with
  | case1 | case2 => exact h
  | case3 f s f' s' hf ih =>
    rw [hf] at ih
    exact ih h
  | case4 op f g s f' s' hf g' s'' hg ihf ihg =>
    rw [hf] at ihf
    rw [hg] at ihg
    rw [isWellFormed_binary, Bool.and_eq_true] at h ⊢
    exact ⟨ihf h.1, ihg h.2⟩
  | case5 q x f s _ y names hy f' s' hf ih =>
    rw [hf] at ih
    rw [isWellFormed_quant, Bool.and_eq_true] at h ⊢
    obtain rfl : (s.names.freshVariable x).1 = y := by rw [hy]
    refine ⟨s.names.isIdentifier_freshVariable h.1, ih (isWellFormed_subst ?_ h.2)⟩
    -- where the variable occurs, it can be written, and so can the fresh one
    refine Substitution.isWritableFor_singleton fun hx => ⟨?_, rfl⟩
    refine s.names.isWellFormed_freshVariable ?_
    exact isWellFormed_var_of_mem_occurrences h.2 (freeVars_subset_occurrences f hx)
  | case6 q x f s _ f' s' hf ih =>
    rw [hf] at ih
    rw [isWellFormed_quant, Bool.and_eq_true] at h ⊢
    exact ⟨h.1, ih h.2⟩

/-- Renaming apart keeps formulas that can be written. -/
theorem isWellFormed_standardizeApart (names : NameSupply) (h : f.isWellFormed = true) :
    (f.standardizeApart names).1.isWellFormed = true :=
  isWellFormed_renameApart _ h

theorem isWellFormed_quantify :
    (f.quantify p).isWellFormed = true ↔
      (∀ b ∈ p, isIdentifier b.var = true) ∧ f.isWellFormed = true := by
  induction p with
  | nil => simp
  | cons b p ih =>
    rw [quantify_cons, isWellFormed_quant, Bool.and_eq_true, ih, List.forall_mem_cons, and_assoc]

/-- Moving quantifiers to the front keeps formulas that can be written. -/
theorem Extracts.isWellFormed (h : f.Extracts p m) (hf : f.isWellFormed = true) :
    (m.quantify p).isWellFormed = true := by
  rw [isWellFormed_quantify]
  induction h with
  | literal h => exact ⟨List.forall_mem_nil _, hf⟩
  | binary hop _ _ ihf ihg =>
    rw [isWellFormed_binary, Bool.and_eq_true] at hf
    obtain ⟨hp, hm⟩ := ihf hf.1
    obtain ⟨hp', hm'⟩ := ihg hf.2
    exact ⟨List.forall_mem_append.2 ⟨hp, hp'⟩, Bool.and_eq_true_iff.2 ⟨hm, hm'⟩⟩
  | quant q x _ ih =>
    rw [isWellFormed_quant, Bool.and_eq_true] at hf
    obtain ⟨hp, hm⟩ := ih hf.2
    exact ⟨List.forall_mem_cons.2 ⟨hf.1, hp⟩, hm⟩

/-! ### Skolem forms -/

section

variable {universals : List String} {names : NameSupply} {outer inner : Prefix}

/-- Treating a prefix keeps the free variables of the matrix that it does not bind. -/
theorem mem_occurrences_skolemizeBehind (hs : Skolemizable universals p f names)
    (hx : x ∈ f.freeVars) (hp : x ∉ p.map Binder.var) :
    x ∈ (skolemizeBehind universals p f names).1.occurrences := by
  induction p generalizing universals f names with
  | nil =>
    rw [skolemizeBehind, occurrences_quantify]
    exact freeVars_subset_occurrences f hx
  | cons b p ih =>
    obtain ⟨q, z⟩ := b
    rw [List.map_cons, List.mem_cons, not_or] at hp
    cases q with
    | universal => exact ih hs.universal hx hp.2
    | existential =>
      rw [skolemizeBehind_existential]
      refine ih hs.existential ?_ hp.2
      exact (mem_freeVars_subst_singleton (hs.vars_not_mem_matrix _)).2 (Or.inl ⟨hx, hp.1⟩)

/-- A universally quantified variable in front of an existential quantifier becomes an argument, if
the variable of the latter occurs. -/
theorem mem_occurrences_of_argument
    (hs : Skolemizable universals (outer ++ ⟨.existential, y⟩ :: inner) f names)
    (hy : y ∈ f.freeVars) (hx : x ∈ universals ++ outer.universals) :
    x ∈ (skolemizeBehind universals (outer ++ ⟨.existential, y⟩ :: inner) f
      names).1.occurrences := by
  induction outer generalizing universals f names with
  | nil =>
    rw [Prefix.universals_nil, List.append_nil] at hx
    rw [List.nil_append] at hs ⊢
    rw [skolemizeBehind_existential]
    have hterm : x ∈ (Term.skolem names.freshSkolem.1 universals).vars := by
      rw [Term.vars_skolem]
      exact hx
    refine mem_occurrences_skolemizeBehind hs.existential ?_ fun hmem => ?_
    · exact (mem_freeVars_subst_singleton (hs.vars_not_mem_matrix _)).2 (Or.inr ⟨hy, hterm⟩)
    · -- the variables in front are not bound once more further inside
      refine hs.vars_not_mem_scope _ x hterm ?_
      rw [quantifiedVars_quantify]
      exact List.mem_append_left _ hmem
  | cons b outer ih =>
    obtain ⟨q, z⟩ := b
    cases q with
    | universal =>
      rw [Prefix.universals_universal, List.append_cons] at hx
      exact ih hs.universal hy hx
    | existential =>
      have hyz : y ≠ z := by
        rintro rfl
        exact hs.not_mem_prefix (by simp)
      rw [List.cons_append, skolemizeBehind_existential]
      refine ih hs.existential ?_ hx
      exact (mem_freeVars_subst_singleton (hs.vars_not_mem_matrix _)).2 (Or.inl ⟨hy, hyz⟩)

/-- In front of each existential quantifier whose variable occurs in the formula, all universally
quantified variables are read as variables: those of `universals`, and those of the universal
quantifiers in the prefix. -/
def ArgumentsAreReadable (universals : List String) (p : Prefix) (f : Formula) : Prop :=
  ∀ (outer : Prefix) (y : String) (inner : Prefix), p = outer ++ ⟨.existential, y⟩ :: inner →
    y ∈ f.freeVars → ∀ x ∈ universals ++ outer.universals, isVariableName x = true

/-- With readable arguments, treating a prefix keeps formulas that can be written. -/
theorem isWellFormed_skolemizeBehind (hs : Skolemizable universals p f names)
    (hnames : (Term.const names.skolemPrefix).isWellFormed = true)
    (huniversals : ∀ x ∈ universals, isIdentifier x = true)
    (hp : ∀ b ∈ p, isIdentifier b.var = true) (hf : f.isWellFormed = true)
    (harguments : ArgumentsAreReadable universals p f) :
    (skolemizeBehind universals p f names).1.isWellFormed = true := by
  induction p generalizing universals f names with
  | nil =>
    rw [skolemizeBehind, isWellFormed_quantify, List.forall_mem_map]
    exact ⟨huniversals, hf⟩
  | cons b p ih =>
    obtain ⟨q, z⟩ := b
    rw [List.forall_mem_cons] at hp
    cases q with
    | universal =>
      refine ih hs.universal hnames ?_ hp.2 hf fun outer y inner hsplit hy x hx => ?_
      · exact List.forall_mem_append.2 ⟨huniversals, List.forall_mem_singleton.2 hp.1⟩
      · rw [← List.append_cons] at hx
        exact harguments (⟨.universal, z⟩ :: outer) y inner (by rw [hsplit]; rfl) hy x hx
    | existential =>
      have hne : names.skolemPrefix ≠ "" := by
        rw [Term.isWellFormed_const, Bool.and_eq_true] at hnames
        exact Surface.ne_empty_of_isIdentifier hnames.1
      have hfresh := hnames
      rw [← names.isWellFormed_freshSkolem hne] at hfresh
      rw [skolemizeBehind_existential]
      refine ih hs.existential hnames huniversals hp.2 ?_ fun outer y inner hsplit hy x hx => ?_
      · -- the term is put in only where the arguments can be written
        refine isWellFormed_subst (Substitution.isWritableFor_singleton fun hz => ?_) hf
        refine Term.isWellFormed_skolem hfresh fun x hx => ?_
        rw [Term.isWellFormed_var, huniversals x hx, Bool.true_and]
        exact harguments [] z p rfl hz x (List.mem_append_left _ hx)
      · rw [mem_freeVars_subst_singleton (hs.vars_not_mem_matrix _)] at hy
        rcases hy with ⟨hy, -⟩ | ⟨-, hy⟩
        · exact harguments (⟨.existential, z⟩ :: outer) y inner (by rw [hsplit]; rfl) hy x hx
        · -- an argument is not quantified in the scope
          refine absurd ?_ (hs.vars_not_mem_scope _ y hy)
          rw [quantifiedVars_quantify, hsplit]
          simp

end

/-- Wherever a universal quantifier stands in front of an existential one whose variable occurs in
the matrix, its variable is read as a variable. -/
def HasReadableArguments (f : Formula) : Prop :=
  ∀ (outer : Prefix) (y : String) (inner : Prefix),
    f.leading = outer ++ ⟨.existential, y⟩ :: inner → y ∈ f.matrix.freeVars →
      ∀ x ∈ outer.universals, isVariableName x = true

/-- **A Skolem form can be written exactly if all arguments of its Skolem terms are read as
variables.** The formula is one that can be written, and so are its symbols. -/
theorem isWellFormed_skolemize_iff {names : NameSupply}
    (hnames : (Term.const names.skolemPrefix).isWellFormed = true)
    (hnodup : f.quantifiedVars.Nodup) (hf : f.isWellFormed = true) :
    (f.skolemize names).1.isWellFormed = true ↔ f.HasReadableArguments := by
  have hs := skolemizable_leading hnodup names
  rw [← f.quantify_leading, isWellFormed_quantify] at hf
  constructor
  · intro h outer y inner hsplit hy x hx
    rw [skolemize] at h
    rw [hsplit] at hs h
    have hocc := mem_occurrences_of_argument hs hy hx
    have hvar := isWellFormed_var_of_mem_occurrences h hocc
    rw [Term.isWellFormed_var, Bool.and_eq_true] at hvar
    exact hvar.2
  · intro h
    exact isWellFormed_skolemizeBehind hs hnames (List.forall_mem_nil _) hf.1 hf.2 h

end Formula

end LogicForms
