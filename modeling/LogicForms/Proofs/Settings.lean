import LogicForms.Proofs.Outcomes
import LogicForms.Session.Options

/-!
# Options under settings

Of several values for one option the last one counts, so that settings one behind the other override
each other in order (`Options.update_append`). Whether settings can be taken over does not depend on
the options that they change: every option must exist, and the values that count must be admissible
(`Setting.areValid`, `Options.update_eq_ok_iff_areValid`).
-/

set_option autoImplicit false

namespace LogicForms

namespace Setting

/-- Does the option exist? -/
def isKnown : Setting → Bool
  | .unknown _ => false
  | _ => true

/-- The value for the budget, if the setting is one. -/
def budget? : Setting → Option Int
  | .budget n => some n
  | _ => none

/-- The value for the beginning of Skolem symbols, if the setting is one. -/
def skolemPrefix? : Setting → Option String
  | .skolemPrefix s => some s
  | _ => none

/-- The value for the log level, if the setting is one. -/
def logLevel? : Setting → Option Int
  | .logLevel n => some n
  | _ => none

/-- The value for the recursion limit, if the setting is one. -/
def recursionLimit? : Setting → Option Int
  | .recursionLimit n => some n
  | _ => none

/-- The last value of some sort among the settings. -/
def last? {α : Type} (value? : Setting → Option α) (settings : List Setting) : Option α :=
  (settings.filterMap value?).getLast?

/-- Do all options exist, is the budget positive if one is given, and is the beginning of Skolem
symbols not empty if one is given? -/
def areValid (settings : List Setting) : Bool :=
  settings.all isKnown && (last? budget? settings).all (fun n => decide (1 ≤ n)) &&
    (last? skolemPrefix? settings).all fun s => s != ""

variable {α : Type} (value? : Setting → Option α)

/-- A later value counts before the first one. -/
theorem last?_cons (x : Setting) (settings : List Setting) :
    last? value? (x :: settings) = (last? value? settings).or (value? x) := by
  unfold last?
  cases hx : value? x with
  | none => rw [List.filterMap_cons_none hx, Option.or_none]
  | some a =>
    rw [List.filterMap_cons_some hx, List.getLast?_cons]
    cases (settings.filterMap value?).getLast? <;> rfl

/-- The value that counts, where `default` counts if none is given. -/
theorem getD_last?_cons (x : Setting) (settings : List Setting) (default : α) :
    (last? value? (x :: settings)).getD default
      = (last? value? settings).getD ((value? x).getD default) := by
  rw [last?_cons]
  cases last? value? settings <;> cases value? x <;> rfl

end Setting

namespace Options

open Setting (isKnown budget? skolemPrefix? logLevel? recursionLimit? last? areValid)

/-- The values with those replaced that the settings give. -/
def Draft.override (d : Draft) (settings : List Setting) : Draft where
  budget := (last? budget? settings).getD d.budget
  skolemPrefix := (last? skolemPrefix? settings).getD d.skolemPrefix
  logLevel := (last? logLevel? settings).getD d.logLevel
  recursionLimit := (last? recursionLimit? settings).getD d.recursionLimit

variable {d d' : Draft} {o o' : Options} {settings settings' : List Setting}

/-- Settings replace values if all options exist. -/
theorem foldlM_set_eq_ok_iff :
    settings.foldlM Draft.set d = .ok d' ↔
      settings.all isKnown = true ∧ d.override settings = d' := by
  induction settings generalizing d with
  | nil => simp [Draft.override, last?, pure, Except.pure]
  | cons x settings ih =>
    rw [List.foldlM_cons]
    cases x with
    | unknown name => simp [Draft.set, isKnown, bind, Except.bind]
    | _ =>
      -- the first value counts for what comes behind it if no later one does
      rw [Draft.set, ok_bind, ih]
      simp [Draft.override, Setting.getD_last?_cons, isKnown, budget?, skolemPrefix?, logLevel?,
        recursionLimit?]

/-- The check passes exactly for the values of valid options, and gives these. -/
theorem check_eq_ok_iff : d.check = .ok o ↔ o.draft = d := by
  constructor
  · intro h
    rw [Draft.check] at h
    split at h
    · rename_i hbudget
      split at h
      · exact absurd h (by simp)
      · cases h
        have hcast : ((d.budget.toNat : Nat) : Int) = d.budget := by omega
        rw [draft, hcast]
    · exact absurd h (by simp)
  · rintro rfl
    exact o.update_nil

/-- Options are taken over if all of them exist and the values are admissible. -/
theorem update_eq_ok_iff :
    o.update settings = .ok o' ↔
      settings.all isKnown = true ∧ o.draft.override settings = o'.draft := by
  rw [update, bind_eq_ok]
  constructor
  · rintro ⟨d, hd, hcheck⟩
    rw [check_eq_ok_iff.1 hcheck]
    exact foldlM_set_eq_ok_iff.1 hd
  · rintro ⟨hknown, hdraft⟩
    exact ⟨o'.draft, foldlM_set_eq_ok_iff.2 ⟨hknown, hdraft⟩, check_eq_ok_iff.2 rfl⟩

/-- **Settings one behind the other override each other in order.** -/
theorem update_append (h : o.update settings = .ok o') (settings' : List Setting) :
    o.update (settings ++ settings') = o'.update settings' := by
  obtain ⟨d, hd, hcheck⟩ := bind_eq_ok.1 h
  rw [update, List.foldlM_append, hd, ok_bind, update, check_eq_ok_iff.1 hcheck]

/-- Values can be checked if the budget is positive and Skolem symbols have a beginning. -/
theorem exists_draft_eq_iff :
    (∃ o : Options, d = o.draft) ↔ 1 ≤ d.budget ∧ d.skolemPrefix ≠ "" := by
  constructor
  · rintro ⟨o, rfl⟩
    have hpos := o.budget_pos
    exact ⟨by simp only [draft]; omega, o.skolemPrefix_ne⟩
  · rintro ⟨hbudget, hprefix⟩
    refine ⟨⟨d.budget.toNat, d.skolemPrefix, d.logLevel, d.recursionLimit, by omega, hprefix⟩, ?_⟩
    have hcast : ((d.budget.toNat : Nat) : Int) = d.budget := by omega
    rw [draft, hcast]

/-- **Which settings can be taken over does not depend on the options.** -/
theorem update_eq_ok_iff_areValid (o : Options) (settings : List Setting) :
    (∃ o', o.update settings = .ok o') ↔ areValid settings = true := by
  have hvalues : (∃ o' : Options, o.draft.override settings = o'.draft) ↔
      (last? budget? settings).all (fun n => decide (1 ≤ n)) = true ∧
        (last? skolemPrefix? settings).all (fun s => s != "") = true := by
    rw [exists_draft_eq_iff]
    have hpos : 1 ≤ o.draft.budget := (exists_draft_eq_iff.1 ⟨o, rfl⟩).1
    have hne : o.draft.skolemPrefix ≠ "" := o.skolemPrefix_ne
    refine and_congr ?_ ?_
    · cases hlast : last? budget? settings <;> simp [Draft.override, hlast, hpos]
    · cases hlast : last? skolemPrefix? settings <;> simp [Draft.override, hlast, hne]
  simp only [update_eq_ok_iff, exists_and_left, hvalues, areValid, Bool.and_eq_true, and_assoc]

end Options

end LogicForms
