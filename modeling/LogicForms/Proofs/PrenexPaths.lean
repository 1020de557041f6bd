import LogicForms.Proofs.Calls
import LogicForms.Proofs.Frame
import LogicForms.Proofs.Stability

/-!
# Three ways to a prenex form

There is a function on formulas for the prenex form, and a derivation in a session, which also
starts from a negation normal form that has been derived before. The function pushes negations
inward and resolves implications and equivalences on the way; the derivation resolves them first. As
the same negation normal form comes out, the quantifiers are renamed in the same way and the same
fresh names are drawn (`Session.step_prenex`). So all three ways give the same formula and leave the
same names (`Session.prenex_paths_agree`).

What a derivation does in a session has three parts, each with its own rules: the outcome
(`Session.Gives`), the session afterwards (`Session.Leaves`), and the log (`Session.Keeps`).
-/

set_option autoImplicit false

namespace LogicForms

namespace Session

variable {α β ε : Type}

/-! ### Sessions afterwards -/

/-- From the session on, the computation leaves the other session, whatever has been logged before.
-/
def Leaves (s : Session) (m : SessionM α) (s' : Session) : Prop :=
  ∀ entries, (m.run.run ⟨s, entries⟩).2.session = s'

namespace Leaves

variable {s s' : Session}

theorem pure (s : Session) (a : α) : Leaves s (pure a) s := fun _ => rfl

theorem log (level : LogLevel) (message : String) {m : Unit → SessionM β}
    (h : Leaves s (m ()) s') : Leaves s (Session.log level message >>= m) s' :=
  fun entries => h (⟨level, message⟩ :: entries)

theorem change (g : Session → Session) {m : Unit → SessionM β} (h : Leaves (g s) (m ()) s') :
    Leaves s (Session.change g >>= m) s' :=
  fun entries => h entries

theorem current {m : Session → SessionM β} (h : Leaves s (m s) s') :
    Leaves s (Session.current >>= m) s' :=
  fun entries => h entries

/-- A failure leaves the session that has been reached. -/
theorem orFail (wrap : ε → Failure) (x : Except ε α) {m : α → SessionM β}
    (h : ∀ a, Leaves s (m a) s) : Leaves s (Session.orFail wrap x >>= m) s := by
  cases x with
  | ok a => exact h a
  | error e => exact fun _ => rfl

theorem nnf (f : Formula) {m : Derivation Formula → SessionM β}
    (h : Leaves s (m ⟨f.expandArrows.nnf false, [Step.eliminate, Step.negations]⟩) s') :
    Leaves s (Session.nnf f >>= m) s' := by
  simp only [Session.nnf, bind_assoc, pure_bind]
  exact log _ _ (log _ _ h)

end Leaves

/-- Outcome, session and log make up a step. Nothing that is logged counts without a call. -/
theorem step_eq {s s' : Session} {m : SessionM α} {r : Except Failure α} (hgives : Gives s m r)
    (hleaves : Leaves s m s') (hkeeps : Keeps (Undisturbed s.options) m) :
    s.step m = ⟨r, s', []⟩ := by
  have hresult : (s.step m).result = r := hgives []
  have hsession : (s.step m).session = s' := hleaves []
  have hlog : (s.step m).log = [] := perform_log hkeeps
  rw [← hresult, ← hsession, ← hlog]

/-! ### Derivations -/

/-- The prenex form with the labels of the steps that lead to it. -/
def prenexDerivation (g : Formula) : Derivation Formula :=
  ⟨g, [Step.eliminate, Step.negations, Step.standardize, Step.prenex]⟩

/-- The derivation of the negation normal form leaves the session as it is. -/
theorem step_nnf (s : Session) (f : Formula) :
    s.step (Session.nnf f) = ⟨.ok ⟨f.nnf false, [Step.eliminate, Step.negations]⟩, s, []⟩ := by
  rw [← f.nnf_expandArrows]
  rfl

/-- From a formula in negation normal form, the derivation of the prenex form has the outcome of the
function on formulas. -/
theorem gives_prenex (s : Session) (f : Formula) :
    Gives s (Session.prenex f true)
      (((f.prenex s.names true).1.mapError .notNnf).map prenexDerivation) := by
  have houtcome : ((f.prenex s.names true).1.mapError Failure.notNnf).map prenexDerivation
      = (f.standardizeApart s.names).1.extract.mapError Failure.notNnf >>= fun e =>
        .ok (prenexDerivation (e.2.quantify e.1)) := by
    rw [Formula.prenex, if_pos rfl]
    simp only [Formula.withQuantifiersInFront]
    cases (f.standardizeApart s.names).1.extract with
    | ok e => rfl
    | error e => rfl
  rw [houtcome, ← bind_pure (Session.prenex f true)]
  exact .prenex f rfl fun e s' _ _ => .pure s' _

/-- It changes the names only. -/
theorem leaves_prenex (s : Session) (f : Formula) :
    Leaves s (Session.prenex f true) { s with names := (f.prenex s.names true).2 } := by
  simp only [Session.prenex, if_true, pure_bind]
  refine .log _ _ (.current (.change _ (.log _ _ (.orFail _ _ fun e => ?_))))
  exact .log _ _ (.pure _ _)

/-- **The derivation of the prenex form in a session is the function on formulas**, applied to the
names of the session. It changes nothing but these names. -/
theorem step_prenex (s : Session) (f : Formula) (isNnf : Bool) :
    s.step (Session.prenex f isNnf) =
      ⟨((f.prenex s.names isNnf).1.mapError .notNnf).map prenexDerivation,
        { s with names := (f.prenex s.names isNnf).2 }, []⟩ := by
  cases isNnf with
  | true => exact step_eq (s.gives_prenex f) (s.leaves_prenex f) (.prenex f true)
  | false =>
    have hprenex : f.prenex s.names false = (f.expandArrows.nnf false).prenex s.names true := by
      rw [f.nnf_expandArrows]
      rfl
    have hkeeps : Keeps (Undisturbed s.options) (Session.prenex f false) := .prenex f false
    rw [prenex_false] at hkeeps ⊢
    rw [hprenex]
    exact step_eq (.nnf f (s.gives_prenex _)) (.nnf f (s.leaves_prenex _)) hkeeps

/-- **All ways to the prenex form agree.** From the same names, the function on formulas, the
derivation in a session, and the derivation that starts from the negation normal form, derived in
whichever session, give the same formula and leave the same names. What is behind it is that
implications and equivalences can be resolved before or while negations are pushed inward. -/
theorem prenex_paths_agree (f : Formula) (names : NameSupply) :
    ∃ g names', f.prenex names false = (.ok g, names') ∧
      (∀ s : Session, { s with names := names }.step (Session.prenex f false)
        = ⟨.ok (prenexDerivation g), { s with names := names' }, []⟩) ∧
      (∀ s s' : Session, ∃ d, s'.step (Session.nnf f) = ⟨.ok d, s', []⟩ ∧
        { s with names := names }.step (Session.prenex d.result true)
          = ⟨.ok (prenexDerivation g), { s with names := names' }, []⟩) ∧
      ∀ negated, f.expandArrows.nnf negated = f.nnf negated := by
  obtain ⟨g, names', h⟩ := f.exists_prenex names
  refine ⟨g, names', h, fun s => ?_, fun s s' => ⟨_, s'.step_nnf f, ?_⟩, f.nnf_expandArrows⟩
  · rw [step_prenex, h]
    rfl
  · -- with negations pushed inward already, the function does the rest
    have hrest : (f.nnf false).prenex names true = (.ok g, names') := h
    rw [step_prenex, hrest]
    rfl

end Session

end LogicForms
