import LogicForms.Construction
import LogicForms.Formula.Substitution

/-!
# Substitution with checks

A substitution may replace a variable by any formula. The result is refused if a predicate or an
equation, at whatever depth, then has an argument that is neither a term nor an equation. Inner
arguments are checked before outer ones and left ones before right ones, and the first that is
refused is named.

`Term.checkArguments_subst` says that a substitution by terms and equations is never refused.
-/

set_option autoImplicit false

namespace LogicForms

/-- Two checks one after the other pass if both pass. -/
theorem ConstructionError.andThen_eq_ok_iff {a b : Except ConstructionError Unit} :
    (do a; b) = .ok () ↔ a = .ok () ∧ b = .ok () := by
  cases a with
  | error e => simp [bind, Except.bind]
  | ok u => simp [bind, Except.bind]

namespace Term

open ConstructionError (andThen_eq_ok_iff)

/-- Refuse a formula other than an equation. -/
def checkPlain (t : Term) : Except ConstructionError Unit :=
  if t.isCompound then .error (.notTerm t.explicitText) else .ok ()

mutual
/-- Check the arguments of all predicates and equations in a term. -/
def checkArguments : Term → Except ConstructionError Unit
  | .var _ => .ok ()
  | .const _ => .ok ()
  | .func _ args => checkArgumentsList args
  | .eq s t => do
    checkArguments s
    checkArguments t
    checkPlain s
    checkPlain t
  | .pred _ args => do
    checkArgumentsList args
    args.forM checkPlain
  | .not t => checkArguments t
  | .binary _ s t => do
    checkArguments s
    checkArguments t
  | .quant _ _ t => checkArguments t
  | .bound _ => .ok ()
/-- Check the arguments of all predicates and equations in an argument list. -/
def checkArgumentsList : List Term → Except ConstructionError Unit
  | [] => .ok ()
  | t :: ts => do
    checkArguments t
    checkArgumentsList ts
end

/-- The check passes exactly for terms and equations. -/
theorem checkPlain_eq_ok_iff (t : Term) : checkPlain t = .ok () ↔ t.isCompound = false := by
  cases h : t.isCompound <;> simp [checkPlain, h]

/-- The checks of a list pass if all of them pass. -/
theorem forM_checkPlain_eq_ok_iff (ts : List Term) :
    ts.forM checkPlain = .ok () ↔ ∀ t ∈ ts, t.isCompound = false := by
  induction ts with
  | nil => simp [pure, Except.pure]
  | cons t ts ih =>
    have hstep : (t :: ts).forM checkPlain = .ok () ↔
        checkPlain t = .ok () ∧ ts.forM checkPlain = .ok () := andThen_eq_ok_iff
    rw [hstep, checkPlain_eq_ok_iff, ih]
    simp

/-- An argument list passes if all its members do. -/
theorem checkArgumentsList_eq_ok_iff (ts : List Term) :
    checkArgumentsList ts = .ok () ↔ ∀ t ∈ ts, checkArguments t = .ok () := by
  induction ts with
  | nil => simp [checkArgumentsList]
  | cons t ts ih => simp [checkArgumentsList, andThen_eq_ok_iff, ih]

/-- A term that is no compound formula stays so under a substitution by such terms. -/
theorem isCompound_subst {σ : Substitution} (hσ : ∀ e ∈ σ, e.2.isCompound = false) {t : Term}
    (ht : t.isCompound = false) : (t.subst σ).isCompound = false := by
  cases t with
  | var x =>
    cases hx : σ.find? x with
    | none => simp [hx, isCompound]
    | some u => simpa [hx] using hσ (x, u) (Substitution.mem_of_find? hx)
  | const | func | eq | bound => simp [isCompound]
  | pred | not | binary | quant => simp [isCompound] at ht

/-- A substitution by terms and equations is never refused. -/
theorem checkArguments_subst {σ : Substitution}
    (hσ : ∀ e ∈ σ, e.2.isCompound = false ∧ checkArguments e.2 = .ok ()) {t : Term}
    (ht : checkArguments t = .ok ()) : checkArguments (t.subst σ) = .ok () := by
  have plain {u : Term} := @isCompound_subst σ (fun e he => (hσ e he).1) u
  induction t using rec' with
  | hvar x =>
    cases hx : σ.find? x with
    | none => simp [hx, checkArguments]
    | some u => simpa [hx] using (hσ (x, u) (Substitution.mem_of_find? hx)).2
  | hconst | hbound => simp [checkArguments]
  | hfunc f args ih =>
    simp only [checkArguments, checkArgumentsList_eq_ok_iff] at ht
    simp only [subst_func, substList_eq_map, checkArguments, checkArgumentsList_eq_ok_iff,
      List.forall_mem_map]
    exact fun u hu => ih u hu (ht u hu)
  | heq s u ihs ihu =>
    simp only [checkArguments, andThen_eq_ok_iff, checkPlain_eq_ok_iff] at ht
    simp only [subst_eq, checkArguments, andThen_eq_ok_iff, checkPlain_eq_ok_iff]
    exact ⟨ihs ht.1, ihu ht.2.1, plain ht.2.2.1, plain ht.2.2.2⟩
  | hpred p args ih =>
    simp only [checkArguments, andThen_eq_ok_iff, checkArgumentsList_eq_ok_iff,
      forM_checkPlain_eq_ok_iff] at ht
    simp only [subst_pred, substList_eq_map, checkArguments, andThen_eq_ok_iff,
      checkArgumentsList_eq_ok_iff, forM_checkPlain_eq_ok_iff, List.forall_mem_map]
    exact ⟨fun u hu => ih u hu (ht.1 u hu), fun u hu => plain (ht.2 u hu)⟩
  | hnot u ih => exact ih ht
  | hbinary op s u ihs ihu =>
    simp only [checkArguments, andThen_eq_ok_iff] at ht
    simp only [subst_binary, checkArguments, andThen_eq_ok_iff]
    exact ⟨ihs ht.1, ihu ht.2⟩
  | hquant q x u ih => exact ih ht

/-- Simultaneous substitution, with a check of the result. -/
def substChecked (σ : Substitution) (t : Term) : Except ConstructionError Term := do
  checkArguments (t.subst σ)
  return t.subst σ

end Term

namespace Formula

/-- Simultaneous substitution for the free occurrences of variables, with a check of the result. -/
def substChecked (σ : Substitution) (f : Formula) : Except ConstructionError Formula := do
  Term.checkArguments (f.subst σ).toTerm
  return f.subst σ

end Formula

end LogicForms
