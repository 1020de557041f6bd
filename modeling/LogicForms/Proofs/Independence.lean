import LogicForms.Proofs.Frame
import LogicForms.Proofs.Settings

/-!
# Calls do not depend on what was done before

Between two calls, a session hands on its options and nothing else: a call starts again with names,
budget and timings. Single derivations use up names and budget, also when they fail, but keep the
options. The options are changed by those calls only whose settings can be taken over, whatever
becomes of their runs (`Session.update_accepted`).

So after any history, a call has the outcome of the same call in a new session with the options that
have been collected (`Session.call_independent`).
-/

set_option autoImplicit false

namespace LogicForms.Session

/-! ### Histories -/

/-- What can be done with a session. -/
inductive Operation where
  /-- A call with new values for some options, or for none. -/
  | call (text : String) (settings : List Setting)
  | parse (text : String)
  | nnf (f : Formula)
  | prenex (f : Formula) (isNnf : Bool)
  | cnf (f : Formula)
  | dnf (f : Formula)
  | clausal (f : Formula)
  | horn (clauses : List Clause)
  | reset

/-- The session after the operation, also if the operation fails. -/
def Operation.after (s : Session) : Operation → Session
  | .call text settings => (s.call text settings).session
  | .parse text => (s.step (Session.parse text)).session
  | .nnf f => (s.step (Session.nnf f)).session
  | .prenex f isNnf => (s.step (Session.prenex f isNnf)).session
  | .cnf f => (s.step (Session.cnf f)).session
  | .dnf f => (s.step (Session.dnf f)).session
  | .clausal f => (s.step (Session.clausal f)).session
  | .horn clauses => (s.step (Session.horn clauses)).session
  | .reset => s.reset

/-- The settings that the operation takes over: those of a call, if they are valid. -/
def Operation.accepted : Operation → List Setting
  | .call _ settings => if Setting.areValid settings then settings else []
  | _ => []

/-- The session after operations one after the other. -/
def after (s : Session) (history : List Operation) : Session :=
  history.foldl (fun s op => op.after s) s

/-- The settings that operations one after the other take over, in order. -/
def accepted (history : List Operation) : List Setting := history.flatMap Operation.accepted

section

variable {s : Session} {text : String} {settings : List Setting}

/-- With valid settings, a call is one in a new session with the options that result. -/
theorem call_of_update {o : Options} (h : s.options.update settings = .ok o) :
    s.call text settings = (ofOptions o).call text [] := by
  have hnew : (ofOptions o).options.update [] = .ok o := o.update_nil
  simp only [call, h, hnew]

/-- A call with settings that are not valid fails and leaves the session alone. -/
theorem call_of_not_areValid (h : Setting.areValid settings = false) :
    ∃ e, s.call text settings = ⟨.error (.options e), s, []⟩ := by
  cases hupdate : s.options.update settings with
  | ok o =>
    have hvalid := (Options.update_eq_ok_iff_areValid s.options settings).1 ⟨o, hupdate⟩
    rw [h] at hvalid
    exact absurd hvalid (by simp)
  | error e =>
    refine ⟨e, ?_⟩
    simp only [call, hupdate]

/-- A single derivation takes over no settings. -/
theorem update_nil_step {α : Type} {m : SessionM α} (hm : Keeps (Undisturbed s.options) m) :
    s.options.update [] = .ok (s.step m).session.options := by
  have hoptions : (s.step m).session.options = s.options := perform_options hm 30
  rw [hoptions]
  exact s.options.update_nil

/-- **What an operation does to the options**: it takes over its settings, if they are valid. -/
theorem update_accepted (s : Session) (op : Operation) :
    s.options.update op.accepted = .ok (op.after s).options := by
  cases op with
  | call text settings =>
    rw [Operation.accepted, Operation.after]
    cases hvalid : Setting.areValid settings with
    | false =>
      obtain ⟨e, he⟩ := call_of_not_areValid (s := s) hvalid
      rw [he]
      exact s.options.update_nil
    | true =>
      obtain ⟨o, ho⟩ := (Options.update_eq_ok_iff_areValid s.options settings).2 hvalid
      have hafter : (s.call text settings).session.options = o := by
        simp only [call, ho]
        -- the options are taken over in front of the recursion limit
        cases o.checkRecursionLimit with
        | error e => rfl
        | ok _ => exact perform_options (s := ofOptions o) (Keeps.loggedRun text) o.threshold
      rw [if_pos rfl, ho, hafter]
  | parse text => exact update_nil_step (Keeps.parse text)
  | nnf f => exact update_nil_step (Keeps.nnf f)
  | prenex f isNnf => exact update_nil_step (Keeps.prenex f isNnf)
  | cnf f => exact update_nil_step (Keeps.cnf f)
  | dnf f => exact update_nil_step (Keeps.dnf f)
  | clausal f => exact update_nil_step (Keeps.clausal f)
  | horn clauses => exact update_nil_step (Keeps.horn clauses)
  | reset => exact s.options.update_nil

/-- After operations one after the other, the options are those before with all settings that have
been taken over, in order. -/
theorem update_accepted_history (s : Session) (history : List Operation) :
    s.options.update (accepted history) = .ok (s.after history).options := by
  induction history generalizing s with
  | nil => exact s.options.update_nil
  | cons op history ih =>
    have hsplit : accepted (op :: history) = op.accepted ++ accepted history := rfl
    rw [hsplit, Options.update_append (update_accepted s op)]
    exact ih (op.after s)

end

/-- **Calls in one session do not influence each other.** Take a session with any settings, any
operations in it, which may fail, and a further call. If the settings of the call are valid, its
outcome is that of the same call in a new session with the settings of the first one, of all valid
calls before, and of this call, one behind the other. The values of its options are the standard
ones, each overridden by the last of these settings that gives a value for it. Otherwise the call
fails, and the session stays as it is. -/
theorem call_independent {settings : List Setting} {s : Session} (h : ofSettings settings = .ok s)
    (history : List Operation) (text : String) (settings' : List Setting) :
    (Setting.areValid settings' = true →
      ∃ new, ofSettings (settings ++ accepted history ++ settings') = .ok new ∧
        new.options.draft =
          Options.standard.draft.override (settings ++ accepted history ++ settings') ∧
        (s.after history).call text settings' = new.call text []) ∧
    (Setting.areValid settings' = false →
      ∃ e, (s.after history).call text settings' = ⟨.error (.options e), s.after history, []⟩) := by
  refine ⟨fun hvalid => ?_, call_of_not_areValid⟩
  obtain ⟨o, ho, rfl⟩ := map_eq_ok.1 h
  obtain ⟨o', ho'⟩ :=
    (Options.update_eq_ok_iff_areValid ((ofOptions o).after history).options settings').2 hvalid
  have hcollected : Options.standard.update (settings ++ accepted history)
      = .ok ((ofOptions o).after history).options := by
    rw [Options.update_append ho]
    exact update_accepted_history (ofOptions o) history
  have hall : Options.standard.update (settings ++ accepted history ++ settings') = .ok o' := by
    rw [Options.update_append hcollected, ho']
  have hnew : ofSettings (settings ++ accepted history ++ settings') = .ok (ofOptions o') := by
    rw [ofSettings, hall]
    rfl
  have hvalues := (Options.update_eq_ok_iff.1 hall).2
  exact ⟨ofOptions o', hnew, hvalues.symm, call_of_update ho'⟩

/-- A call that cannot be read but sets the beginning of Skolem symbols, a call with a budget that
is not valid, and a Skolem form that uses up a name leave nothing behind but the beginning. -/
theorem call_independent_sample :
    ∃ s, ofSettings [.budget 50] = .ok s ∧
      ∃ new, ofSettings [.budget 50, .skolemPrefix "c", .logLevel 20] = .ok new ∧
        new.options.draft = ⟨50, "c", 20, 100000⟩ ∧
        (s.after [.call "A ∧" [.skolemPrefix "c"], .call "A" [.budget 0],
          .cnf (.ex "x" (.pred "P" [.var "x"]))]).call "∃x P(x)" [.logLevel 20]
            = new.call "∃x P(x)" [] := by
  have hfirst : ∃ s, ofSettings [.budget 50] = .ok s := ⟨_, rfl⟩
  obtain ⟨s, hs⟩ := hfirst
  obtain ⟨new, hnew, hvalues, hcall⟩ := (call_independent hs [.call "A ∧" [.skolemPrefix "c"],
    .call "A" [.budget 0], .cnf (.ex "x" (.pred "P" [.var "x"]))] "∃x P(x)" [.logLevel 20]).1
      (by decide)
  exact ⟨s, hs, new, hnew, hvalues, hcall⟩

end LogicForms.Session
