import LogicForms.Construction.Passes
import LogicForms.Proofs.RoundTrip

/-!
# What is read can be put together again

Constructors accept everything that can be written: its names are identifiers, and so not empty, and
the arguments of its predicates and equations are terms and equations. `Term.build_recipe` and
`Formula.build_recipe` say that putting such a term or formula together from its names gives it
back.

All that a reader hands on can be written, whatever construct it reads and wherever in the tokens of
a text it starts, also if it fails later on. So no constructor refuses anything while a text is read
(`Surface.areAccepted_tokensOf`).
-/

set_option autoImplicit false

namespace LogicForms

open Surface (isIdentifier)

/-! ### Names -/

/-- An identifier is not empty. -/
theorem Surface.ne_empty_of_isIdentifier {name : String} (h : isIdentifier name = true) :
    name ≠ "" := by
  rintro rfl
  exact absurd h (by decide)

namespace Datum

variable {name : String}

/-- A text that is not empty is accepted as a name. -/
theorem toName_text (h : name ≠ "") : (text name).toName = .ok name := by
  rw [toName, if_neg h]

/-- An identifier is accepted as a name. -/
theorem toName_of_isIdentifier (h : isIdentifier name = true) : (text name).toName = .ok name :=
  toName_text (Surface.ne_empty_of_isIdentifier h)

end Datum

namespace NameSupply

/-- A fresh variable has a name that is not empty. -/
theorem freshVariable_ne_empty (s : NameSupply) (base : String) :
    (s.freshVariable base).1 ≠ "" := by
  rw [freshVariable, variableCandidate, Nat.toString_eq_repr]
  simp

/-- A fresh symbol is not empty, not even without a beginning. -/
theorem freshSkolem_ne_empty (s : NameSupply) : s.freshSkolem.1 ≠ "" := by
  rw [freshSkolem, skolemCandidate, Nat.toString_eq_repr]
  simp [Nat.repr_ne_empty]

end NameSupply

/-! ### Putting together again -/

/-- A check that passes leaves the value. -/
theorem Recipe.check_ok {α : Type} (a : α) : check (.ok a : Except ConstructionError α) = .ok a :=
  rfl

namespace Term

/-- Nothing is marked in a term that can be written. -/
theorem bindVars_of_isWellFormed {t : Term} (h : t.isWellFormed = true) : t.bindVars [] = t := by
  induction t using rec' with
  | hvar | hconst => rfl
  | hfunc f args ih =>
    rw [isWellFormed_func, Bool.and_eq_true, areWellFormed_iff] at h
    rw [bindVars_func, bindVarsList_eq_map, List.map_congr_left fun t ht => ih t ht (h.2 t ht),
      List.map_id']
  | heq s u ihs ihu =>
    simp only [isWellFormed_eq, Bool.and_eq_true] at h
    rw [bindVars_eq, ihs h.1.2, ihu h.2]
  | hpred | hnot | hbinary | hquant | hbound => simp at h

/-- A term that can be written is accepted as an argument of a function symbol. -/
theorem toArgument_ofTerm {t : Term} (h : t.isWellFormed = true) :
    (Datum.ofTerm t).toArgument = .ok t := by
  have hbind := bindVars_of_isWellFormed h
  cases t with
  | eq s u => exact congrArg Except.ok hbind
  | var | const | func => rfl
  | pred | not | binary | quant | bound => simp at h

/-- A term that can be written is accepted as an argument of a predicate or an equation. -/
theorem toTerm_ofTerm (t : Term) : (Datum.ofTerm t).toTerm = .ok t := by
  cases t <;> rfl

/-- Arguments that are put together again one after the other. -/
theorem buildList_recipeList {ts : List Term}
    (h : ∀ t ∈ ts, t.recipe.build = .ok (.ofTerm t)) :
    Recipe.buildList (recipeList ts) = .ok (ts.map .ofTerm) := by
  induction ts with
  | nil => rfl
  | cons t ts ih =>
    have ht := h t (by simp)
    have hts := ih fun u hu => h u (by simp [hu])
    rw [recipeList, Recipe.buildList, ht, ok_bind, hts]
    rfl

/-- Steps on values that take each of them to its term. -/
theorem mapM_ofTerm {ts : List Term} {f : Datum → Except ConstructionError Term}
    (h : ∀ t ∈ ts, f (.ofTerm t) = .ok t) : (ts.map .ofTerm).mapM f = .ok ts := by
  induction ts with
  | nil => rfl
  | cons t ts ih =>
    have ht := h t (by simp)
    have hts := ih fun u hu => h u (by simp [hu])
    rw [List.map_cons, List.mapM_cons, ht, ok_bind, hts]
    rfl

/-- **A term that can be written is put together again.** -/
theorem build_recipe {t : Term} (h : t.isWellFormed = true) :
    t.recipe.build = .ok (.ofTerm t) := by
  induction t using rec' with
  | hvar x =>
    simp only [isWellFormed_var, Bool.and_eq_true] at h
    have hname := Datum.toName_of_isIdentifier h.1
    simp only [recipe, Recipe.name, Recipe.build, ok_bind, hname, Recipe.check_ok]
    rfl
  | hconst c =>
    simp only [isWellFormed_const, Bool.and_eq_true] at h
    have hname := Datum.toName_of_isIdentifier h.1
    simp only [recipe, Recipe.name, Recipe.build, ok_bind, hname, Recipe.check_ok]
    rfl
  | hfunc f args ih =>
    simp only [isWellFormed_func, Bool.and_eq_true, areWellFormed_iff] at h
    have hname := Datum.toName_of_isIdentifier h.1
    have hargs := buildList_recipeList fun t ht => ih t ht (h.2 t ht)
    have hterms := mapM_ofTerm fun t ht => toArgument_ofTerm (h.2 t ht)
    simp only [recipe, Recipe.name, Recipe.build, ok_bind, hname, hargs, hterms, Recipe.check_ok]
    rfl
  | heq s u ihs ihu =>
    simp only [isWellFormed_eq, Bool.and_eq_true] at h
    obtain ⟨⟨-, hs⟩, hu⟩ := h
    simp only [recipe, Recipe.build, ihs hs, ihu hu, ok_bind, toTerm_ofTerm, Recipe.check_ok]
    rfl
  | hpred | hnot | hbinary | hquant | hbound => simp at h

end Term

/-- **A formula that can be written is put together again.** -/
theorem Formula.build_recipe {f : Formula} (h : f.isWellFormed = true) :
    f.recipe.build = .ok (.formula f) := by
  induction f with
  -- predicates check their arguments less strictly than function symbols do
  | pred p args =>
    simp only [isWellFormed_pred, Bool.and_eq_true, Term.areWellFormed_iff] at h
    have hname := Datum.toName_of_isIdentifier h.1
    have hargs := Term.buildList_recipeList fun t ht => Term.build_recipe (h.2 t ht)
    have hterms := Term.mapM_ofTerm fun t (_ : t ∈ args) => Term.toTerm_ofTerm t
    simp only [recipe, toTerm_pred, Term.recipe, Recipe.name, Recipe.build, ok_bind, hname, hargs,
      hterms, Recipe.check_ok]
    rfl
  | eq s t => exact Term.build_recipe h
  | not f ih =>
    simp only [recipe] at ih
    simp only [recipe, toTerm_not, Term.recipe, Recipe.build, ih h, ok_bind]
    rfl
  | binary op f g ihf ihg =>
    simp only [isWellFormed_binary, Bool.and_eq_true] at h
    simp only [recipe] at ihf ihg
    simp only [recipe, toTerm_binary, Term.recipe, Recipe.build, ihf h.1, ihg h.2, ok_bind]
    rfl
  | quant q x f ih =>
    simp only [isWellFormed_quant, Bool.and_eq_true] at h
    have hname := Datum.toName_of_isIdentifier h.1
    simp only [recipe] at ih
    simp only [recipe, toTerm_quant, Term.recipe, Recipe.name, Recipe.build, ih h.2, ok_bind, hname,
      Recipe.check_ok]
    rfl

namespace Surface

/-- The phrase can be written. -/
def Phrase.IsWritable : Phrase → Prop
  | .formula f => f.isWellFormed = true
  | .term t => t.isWellFormed = true
  | .arguments ts => Term.areWellFormed ts = true

/-- A phrase that can be written is put together again. -/
theorem Phrase.build_recipe {phrase : Phrase} (h : phrase.IsWritable) :
    phrase.recipe.build = .ok phrase.datum := by
  cases phrase with
  | formula f => exact Formula.build_recipe h
  | term t => exact Term.build_recipe h
  | arguments ts =>
    have hmembers := (Term.areWellFormed_iff ts).1 h
    have hlist := Term.buildList_recipeList fun t ht => Term.build_recipe (hmembers t ht)
    simp only [recipe, Recipe.build, hlist, ok_bind]
    rfl

/-! ### Reading from any place on -/

/-- The names among the tokens are identifiers. -/
def HasIdentifiers (tokens : List Token) : Prop :=
  ∀ token ∈ tokens, token.kind = .name → isIdentifier token.value = true

/-- What is derived from tokens with identifiers can be written. -/
theorem Derives.isWritable {s : GrammarSymbol} {v : s.Value} {tokens rest : List Token}
    (h : Derives s v tokens rest) (htokens : HasIdentifiers tokens) : s.IsWritable v := by
  obtain ⟨tree, rfl, rfl⟩ := h
  exact tree.isWritable_value fun token htoken => htokens token (List.mem_append_left rest htoken)

namespace Cursor

variable {c after : Cursor} {α : Type} {bound : Nat}

/-- A phrase that a cursor gives is a value that has been read. -/
theorem exists_of_advance {wrap : α → Phrase} {outcome : Except SyntaxError (Parsed α bound)}
    {phrase : Phrase} (h : c.advance wrap outcome = (.ok phrase, after)) :
    ∃ a rest, bare outcome = .ok (a, rest) ∧ wrap a = phrase := by
  cases outcome with
  | error e => simp [advance] at h
  | ok parsed =>
    simp only [advance, Prod.mk.injEq, Except.ok.injEq] at h
    exact ⟨parsed.value, parsed.rest, rfl, h.1⟩

/-- What a cursor reads can be written. -/
theorem isWritable_of_read {construct : Construct} {phrase : Phrase}
    (htokens : HasIdentifiers c.rest) (h : c.read construct = (.ok phrase, after)) :
    phrase.IsWritable := by
  cases construct with
  | whole =>
    simp only [read, readWhole] at h
    split at h
    · rename_i f hread
      simp only [Prod.mk.injEq, Except.ok.injEq] at h
      rw [← h.1]
      exact (readAll_eq_ok_iff_derives.1 hread).isWritable htokens
    · simp at h
  | formula =>
    obtain ⟨f, rest, hread, rfl⟩ := exists_of_advance h
    exact (derives_of_readChain hread).isWritable htokens
  | chain op =>
    obtain ⟨f, rest, hread, rfl⟩ := exists_of_advance h
    exact (derives_of_readChain hread).isWritable htokens
  | unary =>
    obtain ⟨f, rest, hread, rfl⟩ := exists_of_advance h
    exact (derives_of_readUnary hread).isWritable htokens
  | atom =>
    obtain ⟨f, rest, hread, rfl⟩ := exists_of_advance h
    exact (derives_of_readAtom hread).isWritable htokens
  | term =>
    obtain ⟨t, rest, hread, rfl⟩ := exists_of_advance h
    exact ((derives_of_readTerm hread).isWritable htokens).1
  | termLike =>
    obtain ⟨t, rest, hread, rfl⟩ := exists_of_advance h
    exact (derives_of_readTermLike hread).isWritable htokens
  | arguments =>
    obtain ⟨ts, rest, hread, rfl⟩ := exists_of_advance h
    exact (derives_of_readArguments hread).isWritable htokens

end Cursor

/-- Reading meets no obstacle in the constructors: every name has a first character, and whatever a
reader hands on, wherever it starts, is put together again. -/
structure AreAccepted (tokens : List Token) : Prop where
  name_ne : ∀ token ∈ tokens, token.kind = .name → token.value ≠ ""
  build_recipe : ∀ {rest : List Token} {construct : Construct} {phrase : Phrase} {after : Cursor},
    rest <:+ tokens → (Cursor.mk tokens rest).read construct = (.ok phrase, after) →
      phrase.recipe.build = .ok phrase.datum

/-- **No constructor refuses anything while a text is read.** -/
theorem areAccepted_tokensOf {s : String} {tokens : List Token} (h : tokensOf s = .ok tokens) :
    AreAccepted tokens where
  name_ne token htoken hkind :=
    ne_empty_of_isIdentifier (isIdentifier_of_mem_tokensOf h token htoken hkind)
  build_recipe hrest hread := by
    refine Phrase.build_recipe (Cursor.isWritable_of_read ?_ hread)
    exact fun token htoken => isIdentifier_of_mem_tokensOf h token (hrest.subset htoken)

end Surface

end LogicForms
