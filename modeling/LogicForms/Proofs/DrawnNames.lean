import LogicForms.Proofs.Negation
import LogicForms.Proofs.Renaming
import LogicForms.Proofs.Skolem

/-!
# Names drawn from one supply

Everything that takes part in a derivation draws its fresh names from one supply: single new
variables and new Skolem symbols, renaming apart, prenex forms and Skolem forms. `Draws` says that
one supply becomes another by drawing given names, which are new and different from each other.

An `Operation` on a supply first marks the names that it is given as used and then draws
(`Operation.draws`). Over any sequence of operations, no name is drawn twice, no name is drawn that
has been given before, and every name stays in use (`drawn_names_never_clash`).
-/

set_option autoImplicit false

namespace LogicForms

/-! ### Drawing names -/

namespace NameSupply

/-- The second supply arises from the first one by drawing the names, in this order. -/
structure Draws (s s' : NameSupply) (names : List String) : Prop where
  used : s'.used = names.reverse ++ s.used
  nodup : names.Nodup
  new : ∀ name ∈ names, name ∉ s.used

section

variable {s s' s'' : NameSupply} {names names' : List String} {name : String}

namespace Draws

/-- No name is drawn. -/
theorem refl (s : NameSupply) : s.Draws s [] where
  used := rfl
  nodup := List.nodup_nil
  new := by simp

/-- A name is in use afterwards if it was before or is drawn. -/
theorem mem_used (h : s.Draws s' names) : name ∈ s'.used ↔ name ∈ s.used ∨ name ∈ names := by
  rw [h.used, List.mem_append, List.mem_reverse, or_comm]

/-- Names that are drawn later differ from those drawn before. -/
theorem trans (h : s.Draws s' names) (h' : s'.Draws s'' names') :
    s.Draws s'' (names ++ names') where
  used := by rw [h'.used, h.used, List.reverse_append, List.append_assoc]
  nodup := by
    refine List.nodup_append.2 ⟨h.nodup, h'.nodup, fun a ha b hb hab => ?_⟩
    subst hab
    exact h'.new a hb (h.mem_used.2 (Or.inr ha))
  new := by
    intro a ha hused
    rcases List.mem_append.1 ha with ha | ha
    · exact h.new a ha hused
    · exact h'.new a ha (h.mem_used.2 (Or.inl hused))

end Draws

/-- A new variable is drawn. -/
theorem draws_freshVariable (s : NameSupply) (base : String) :
    s.Draws (s.freshVariable base).2 [(s.freshVariable base).1] where
  used := rfl
  nodup := by simp
  new := by
    intro a ha
    rw [List.mem_singleton] at ha
    rw [ha]
    exact s.freshVariable_not_mem base

/-- A new Skolem symbol is drawn. -/
theorem draws_freshSkolem (s : NameSupply) : s.Draws s.freshSkolem.2 [s.freshSkolem.1] where
  used := rfl
  nodup := by simp
  new := by
    intro a ha
    rw [List.mem_singleton] at ha
    rw [ha]
    exact s.freshSkolem_not_mem

end

end NameSupply

namespace Formula

open NameSupply (Draws draws_freshVariable)

/-! ### Renaming apart -/

/-- The variables that renaming apart draws from the supply, in order. -/
def freshVariablesFrom : Formula → Avoiding → List String
  | .pred _ _, _ => []
  | .eq _ _, _ => []
  | .not f, s => f.freshVariablesFrom s
  | .binary _ f g, s => f.freshVariablesFrom s ++ g.freshVariablesFrom (f.renameApart s).2
  | .quant _ x f, s =>
    if s.taken.contains x then
      let (y, names) := s.names.freshVariable x
      y :: (f.subst [(x, .var y)]).freshVariablesFrom ⟨y :: s.taken, names⟩
    else f.freshVariablesFrom ⟨x :: s.taken, s.names⟩
termination_by f => f.depth
decreasing_by all_goals (simp only [depth_not, depth_binary, depth_quant, depth_subst]; omega)

/-- The variables that a formula has new after renaming apart. -/
def freshVariables (f : Formula) (names : NameSupply) : List String :=
  f.freshVariablesFrom ⟨f.freeVars, names.declare f.symbols⟩

/-- Renaming apart draws these variables and nothing else. -/
theorem draws_renameApart (f : Formula) (s : Avoiding) :
    s.names.Draws (f.renameApart s).2.names (f.freshVariablesFrom s) := by
  fun_induction renameApart f s with
  | case1 p args s =>
    rw [freshVariablesFrom]
    exact .refl s.names
  | case2 t u s =>
    rw [freshVariablesFrom]
    exact .refl s.names
  | case3 f s f' s' hf ih =>
    rw [hf] at ih
    rw [freshVariablesFrom]
    exact ih
  | case4 op f g s f' s' hf g' s'' hg ihf ihg =>
    rw [hf] at ihf
    rw [hg] at ihg
    rw [freshVariablesFrom, hf]
    exact ihf.trans ihg
  | case5 q x f s hx y names hy f' s' hf ih =>
    rw [hf] at ih
    have hdraw := draws_freshVariable s.names x
    rw [hy] at hdraw
    rw [freshVariablesFrom, if_pos hx, hy]
    exact hdraw.trans ih
  | case6 q x f s hx f' s' hf ih =>
    rw [hf] at ih
    rw [freshVariablesFrom, if_neg hx]
    exact ih

/-- Renaming apart draws the fresh variables of the formula, after all its names are marked. -/
theorem draws_standardizeApart (f : Formula) (names : NameSupply) :
    (names.declare f.symbols).Draws (f.standardizeApart names).2 (f.freshVariables names) :=
  draws_renameApart f ⟨f.freeVars, names.declare f.symbols⟩

/-- A Skolem form draws its symbols and nothing else. -/
theorem draws_skolemize (f : Formula) (names : NameSupply) :
    (names.declare f.symbols).Draws (f.skolemize names).2 (f.skolemSymbols names) where
  used := skolemize_used f names
  nodup := nodup_skolemSymbols f names
  new := (nodup_skolemSymbolsBehind f.leading (names.declare f.symbols)).2

/-! ### Names of the results -/

/-- After renaming apart, all names of the formula are in use. -/
theorem mem_used_standardizeApart {f : Formula} {names : NameSupply} {c : String}
    (h : c ∈ (f.standardizeApart names).1.symbols) : c ∈ (f.standardizeApart names).2.used := by
  obtain ⟨s, hs, hnames⟩ := f.standardizeApart_spec names
  rw [hnames]
  exact hs.covers.symbols h

/-- All names of a prenex form are in use. -/
theorem mem_used_prenex {f g : Formula} {names : NameSupply} {isNnf : Bool} {c : String}
    (hg : (f.prenex names isNnf).1 = .ok g) (h : c ∈ g.symbols) :
    c ∈ (f.prenex names isNnf).2.used := by
  obtain ⟨⟨p, m⟩, hextract, hquantify⟩ := bind_eq_ok.1 hg
  cases hquantify
  exact mem_used_standardizeApart ((extracts_of_extract hextract).mem_symbols h)

/-- Treating a prefix adds the symbols that are drawn to the names, and nothing else. -/
theorem mem_used_skolemizeBehind {universals : List String} {p : Prefix} {f : Formula}
    {names : NameSupply} {c : String} (huniversals : universals ⊆ names.used)
    (hf : (f.quantify p).symbols ⊆ names.used)
    (h : c ∈ (skolemizeBehind universals p f names).1.symbols) :
    c ∈ (skolemizeBehind universals p f names).2.used := by
  induction p generalizing universals f names with
  | nil =>
    rw [skolemizeBehind, symbols_quantify, List.map_map, List.mem_append] at h
    rcases h with h | h
    · obtain ⟨x, hx, rfl⟩ := List.mem_map.1 h
      exact huniversals hx
    · exact hf h
  | cons b p ih =>
    obtain ⟨q, x⟩ := b
    rw [quantify_cons, symbols_quant, List.cons_subset] at hf
    cases q with
    | universal =>
      exact ih (List.append_subset.2 ⟨huniversals, List.cons_subset.2 ⟨hf.1, List.nil_subset _⟩⟩)
        hf.2 h
    | existential =>
      have hkeep : names.used ⊆ names.freshSkolem.2.used := List.subset_cons_self _ _
      refine ih (List.Subset.trans huniversals hkeep) (fun d hd => ?_) h
      -- the term that is put in consists of the new symbol and the variables so far
      rw [symbols_quantify, List.mem_append] at hd
      rw [symbols_quantify, List.append_subset] at hf
      rcases hd with hd | hd
      · exact hkeep (hf.2.1 hd)
      · rcases mem_symbols_subst hd with hd | ⟨e, he, hd⟩
        · exact hkeep (hf.2.2 hd)
        · rw [List.mem_singleton.1 he, Term.symbols_skolem, List.mem_cons] at hd
          rcases hd with rfl | hd
          · exact List.mem_cons_self
          · exact hkeep (huniversals hd)

/-- All names of a Skolem form are in use. -/
theorem mem_used_skolemize {f : Formula} {names : NameSupply} {c : String}
    (h : c ∈ (f.skolemize names).1.symbols) : c ∈ (f.skolemize names).2.used := by
  refine mem_used_skolemizeBehind (List.nil_subset _) ?_ h
  rw [quantify_leading, NameSupply.declare_used]
  exact fun d hd => NameSupply.mem_addNames.2 (Or.inr hd)

end Formula

namespace NameSupply

/-! ### Operations -/

/-- What can be done with a supply, apart from resetting it. -/
inductive Operation where
  /-- Mark names as used. -/
  | declare (names : List String)
  /-- A new variable made from `base`. -/
  | freshVariable (base : String)
  /-- A new Skolem symbol. -/
  | freshSkolem
  /-- Rename the bound variables of a formula apart. -/
  | standardizeApart (f : Formula)
  /-- The prenex form of a formula, which fails if `isNnf` and the formula is not in negation normal
  form. -/
  | prenex (f : Formula) (isNnf : Bool)
  /-- The Skolem form of a formula. -/
  | skolemize (f : Formula)

namespace Operation

/-- The supply after the operation, also if the operation fails. -/
def after (s : NameSupply) : Operation → NameSupply
  | .declare names => s.declare names
  | .freshVariable base => (s.freshVariable base).2
  | .freshSkolem => s.freshSkolem.2
  | .standardizeApart f => (f.standardizeApart s).2
  | .prenex f isNnf => (f.prenex s isNnf).2
  | .skolemize f => (f.skolemize s).2

/-- The names that the operation is given: those to be marked, or those of the formula. -/
def given : Operation → List String
  | .declare names => names
  | .freshVariable _ => []
  | .freshSkolem => []
  | .standardizeApart f => f.symbols
  | .prenex f _ => f.symbols
  | .skolemize f => f.symbols

/-- The variables that the operation draws from the supply, in order. -/
def newVariables (s : NameSupply) : Operation → List String
  | .declare _ => []
  | .freshVariable base => [(s.freshVariable base).1]
  | .freshSkolem => []
  | .standardizeApart f => f.freshVariables s
  | .prenex f isNnf => (if isNnf then f else f.nnf false).freshVariables s
  | .skolemize _ => []

/-- The Skolem symbols that the operation draws from the supply, in order. -/
def newSymbols (s : NameSupply) : Operation → List String
  | .declare _ => []
  | .freshVariable _ => []
  | .freshSkolem => [s.freshSkolem.1]
  | .standardizeApart _ => []
  | .prenex _ _ => []
  | .skolemize f => f.skolemSymbols s

/-- All names that the operation draws. -/
def drawn (s : NameSupply) (op : Operation) : List String := op.newVariables s ++ op.newSymbols s

/-- The names of the formula that the operation gives, if it gives one. -/
def resulting (s : NameSupply) : Operation → List String
  | .declare _ => []
  | .freshVariable _ => []
  | .freshSkolem => []
  | .standardizeApart f => (f.standardizeApart s).1.symbols
  | .prenex f isNnf =>
    match (f.prenex s isNnf).1 with
    | .ok g => g.symbols
    | .error _ => []
  | .skolemize f => (f.skolemize s).1.symbols

/-- **An operation marks the names that it is given and draws new ones.** A prenex form marks the
names of the negation normal form, which are the same ones. -/
theorem draws (op : Operation) (s : NameSupply) :
    ∃ names : List String, (∀ name, name ∈ names ↔ name ∈ op.given) ∧
      (s.declare names).Draws (op.after s) (op.drawn s) := by
  cases op with
  | declare names => exact ⟨names, fun _ => Iff.rfl, .refl _⟩
  | freshVariable base => exact ⟨[], fun _ => Iff.rfl, s.draws_freshVariable base⟩
  | freshSkolem => exact ⟨[], fun _ => Iff.rfl, s.draws_freshSkolem⟩
  | standardizeApart f =>
    refine ⟨f.symbols, fun _ => Iff.rfl, ?_⟩
    rw [drawn, newSymbols, List.append_nil]
    exact f.draws_standardizeApart s
  | prenex f isNnf =>
    refine ⟨(if isNnf then f else f.nnf false).symbols, fun name => ?_, ?_⟩
    · cases isNnf with
      | true => exact Iff.rfl
      | false => exact Formula.mem_symbols_nnf
    · rw [drawn, newSymbols, List.append_nil]
      exact Formula.draws_standardizeApart _ s
  | skolemize f => exact ⟨f.symbols, fun _ => Iff.rfl, f.draws_skolemize s⟩

variable {op : Operation} {s : NameSupply} {name : String}

/-- Afterwards the names before, those given and those drawn are in use. -/
theorem mem_used_after :
    name ∈ (op.after s).used ↔ name ∈ s.used ∨ name ∈ op.given ∨ name ∈ op.drawn s := by
  obtain ⟨names, hnames, hdraws⟩ := op.draws s
  rw [hdraws.mem_used, declare_used, mem_addNames, hnames, or_assoc]

/-- The names of a formula that an operation gives are in use afterwards. -/
theorem mem_used_of_resulting (h : name ∈ op.resulting s) : name ∈ (op.after s).used := by
  cases op with
  | declare | freshVariable | freshSkolem => exact absurd h (by simp [resulting])
  | standardizeApart f => exact Formula.mem_used_standardizeApart h
  | prenex f isNnf =>
    rw [resulting] at h
    split at h
    · rename_i g hg
      exact Formula.mem_used_prenex hg h
    · exact absurd h (by simp)
  | skolemize f => exact Formula.mem_used_skolemize h

/-- The names that are drawn differ from each other. -/
theorem nodup_drawn : (op.drawn s).Nodup := by
  obtain ⟨names, -, hdraws⟩ := op.draws s
  exact hdraws.nodup

/-- A name that is drawn was not in use and is not given. -/
theorem drawn_new (h : name ∈ op.drawn s) : name ∉ s.used ∧ name ∉ op.given := by
  obtain ⟨names, hnames, hdraws⟩ := op.draws s
  have hnew := hdraws.new name h
  rwa [declare_used, mem_addNames, not_or, hnames] at hnew

end Operation

/-! ### Sequences of operations -/

/-- The supply after operations one after the other. -/
def after (s : NameSupply) (ops : List Operation) : NameSupply :=
  ops.foldl (fun s op => op.after s) s

/-- The names of some sort that operations one after the other draw, in order. -/
def collect (sort : NameSupply → Operation → List String) (s : NameSupply) :
    List Operation → List String
  | [] => []
  | op :: ops => sort s op ++ collect sort (op.after s) ops

/-- All names that operations draw. -/
def drawn (s : NameSupply) (ops : List Operation) : List String := s.collect Operation.drawn ops

/-- The variables that operations draw. -/
def newVariables (s : NameSupply) (ops : List Operation) : List String :=
  s.collect Operation.newVariables ops

/-- The Skolem symbols that operations draw. -/
def newSymbols (s : NameSupply) (ops : List Operation) : List String :=
  s.collect Operation.newSymbols ops

section

variable {s : NameSupply} {ops : List Operation} {name : String}

/-- Every name that is drawn is drawn as a variable or as a Skolem symbol. -/
theorem newVariables_append_newSymbols_perm (s : NameSupply) (ops : List Operation) :
    (s.newVariables ops ++ s.newSymbols ops).Perm (s.drawn ops) := by
  induction ops generalizing s with
  | nil => exact .refl []
  | cons op ops ih =>
    simp only [newVariables, newSymbols, drawn, collect, Operation.drawn, List.append_assoc] at ih ⊢
    refine (List.perm_append_comm_assoc _ _ _).append_left _ |>.trans ?_
    exact ((ih (op.after s)).append_left _).append_left _

/-- No operation takes a name out of use. -/
theorem mem_used_after_of_mem (ops : List Operation) (h : name ∈ s.used) :
    name ∈ (s.after ops).used := by
  induction ops generalizing s with
  | nil => exact h
  | cons op ops ih => exact ih (Operation.mem_used_after.2 (Or.inl h))

theorem after_append (s : NameSupply) (ops ops' : List Operation) :
    s.after (ops ++ ops') = (s.after ops).after ops' := List.foldl_append

/-- The names in use become more and more. -/
theorem used_after_subset (s : NameSupply) {pre : List Operation} (h : pre <+: ops) :
    (s.after pre).used ⊆ (s.after ops).used := by
  obtain ⟨post, rfl⟩ := h
  rw [after_append]
  exact fun name hname => mem_used_after_of_mem post hname

/-- A name that an operation is given is in use from then on. -/
theorem mem_used_after_of_given {op : Operation} (hop : op ∈ ops) (h : name ∈ op.given) :
    name ∈ (s.after ops).used := by
  induction ops generalizing s with
  | nil => exact absurd hop (by simp)
  | cons op' ops ih =>
    rcases List.mem_cons.1 hop with rfl | hop
    · exact mem_used_after_of_mem ops (Operation.mem_used_after.2 (Or.inr (Or.inl h)))
    · exact ih hop

/-- A name that is drawn was not in use at the start, and is in use at the end. -/
theorem not_mem_used_of_mem_drawn (h : name ∈ s.drawn ops) :
    name ∉ s.used ∧ name ∈ (s.after ops).used := by
  induction ops generalizing s with
  | nil => exact absurd h (by simp [drawn, collect])
  | cons op ops ih =>
    rcases List.mem_append.1 h with hop | hlater
    · have hused : name ∈ (op.after s).used := Operation.mem_used_after.2 (Or.inr (Or.inr hop))
      exact ⟨(Operation.drawn_new hop).1, mem_used_after_of_mem ops hused⟩
    · obtain ⟨hnew, hused⟩ := ih hlater
      exact ⟨fun hmem => hnew (Operation.mem_used_after.2 (Or.inl hmem)), hused⟩

/-- No name is drawn twice. -/
theorem nodup_drawn (s : NameSupply) (ops : List Operation) : (s.drawn ops).Nodup := by
  induction ops generalizing s with
  | nil => exact List.nodup_nil
  | cons op ops ih =>
    refine List.nodup_append.2 ⟨Operation.nodup_drawn, ih (op.after s), fun a ha b hb hab => ?_⟩
    -- what the first operation draws is in use afterwards, and what is drawn later is not
    subst hab
    exact (not_mem_used_of_mem_drawn hb).1 (Operation.mem_used_after.2 (Or.inr (Or.inr ha)))

end

/-- **Generated names never clash.** Whatever the supply and whatever is done with it, the new
variables and the new Skolem symbols all differ from each other, also those of one kind from those
of the other. A name that an operation draws is not in use before it. Neither this operation nor one
before it is given the name, and no formula that one before it gave has the name in it. Every name
that is drawn is in use at the end, and no name that has been in use goes out of use. -/
theorem drawn_names_never_clash (s : NameSupply) (ops : List Operation) :
    (s.newVariables ops ++ s.newSymbols ops).Nodup ∧
    (∀ x ∈ s.newVariables ops, ∀ c ∈ s.newSymbols ops, x ≠ c) ∧
    (∀ (pre : List Operation) (op : Operation), pre ++ [op] <+: ops →
      ∀ name ∈ op.drawn (s.after pre),
        name ∉ (s.after pre).used ∧ (∀ op' ∈ pre ++ [op], name ∉ op'.given) ∧
        ∀ (pre' : List Operation) (op' : Operation), pre' ++ [op'] <+: pre →
          name ∉ op'.resulting (s.after pre')) ∧
    (∀ name ∈ s.newVariables ops ++ s.newSymbols ops, name ∈ (s.after ops).used) ∧
    (∀ pre : List Operation, pre <+: ops → (s.after pre).used ⊆ (s.after ops).used) := by
  have hperm := newVariables_append_newSymbols_perm s ops
  have hnodup : (s.newVariables ops ++ s.newSymbols ops).Nodup :=
    hperm.nodup_iff.2 (nodup_drawn s ops)
  refine ⟨hnodup, fun x hx c hc => ?_, fun pre op _ name hname => ?_, fun name hname => ?_,
    fun pre hpre => used_after_subset s hpre⟩
  · exact (List.nodup_append.1 hnodup).2.2 x hx c hc
  · have hnew := Operation.drawn_new hname
    refine ⟨hnew.1, fun op' hop' hgiven => ?_, fun pre' op' hpre' hresulting => ?_⟩
    · rcases List.mem_append.1 hop' with hbefore | hthis
      · exact hnew.1 (mem_used_after_of_given hbefore hgiven)
      · rw [List.mem_singleton.1 hthis] at hgiven
        exact hnew.2 hgiven
    · have hused : name ∈ (s.after (pre' ++ [op'])).used := by
        rw [after_append]
        exact Operation.mem_used_of_resulting hresulting
      exact hnew.1 (used_after_subset s hpre' hused)
  · exact (not_mem_used_of_mem_drawn (hperm.mem_iff.1 hname)).2

end NameSupply

end LogicForms
