import LogicForms.Session

/-!
# What computations in a session leave alone

`Session.Keeps` says that a property of the session and its log survives a computation, also if the
computation fails, and there is one rule for each operation of a computation. All derivations keep
the options, and log nothing that is as important as a warning (`Undisturbed`).
-/

set_option autoImplicit false

namespace LogicForms.Session

variable {α β ε : Type}

/-- If the session and its log have the property before the computation, they have it afterwards,
also if the computation fails. -/
def Keeps (p : SessionLog → Prop) (m : SessionM α) : Prop :=
  ∀ s : SessionLog, p s → p (m.run.run s).2

/-! ### Operations -/

namespace Keeps

variable {p : SessionLog → Prop}

theorem pure (a : α) : Keeps p (pure a) := fun _ h => h

theorem bind {m : SessionM α} {f : α → SessionM β} (hm : Keeps p m) (hf : ∀ a, Keeps p (f a)) :
    Keeps p (m >>= f) := by
  intro s h
  have hfirst : p (m.run.run s).2 := hm s h
  rcases hm' : m.run.run s with ⟨outcome, s'⟩
  rw [hm'] at hfirst
  cases outcome with
  | error e =>
    have hrun : ((m >>= f).run.run s).2 = s' := by
      rw [ExceptT.run_bind, StateT.run_bind, hm']
      rfl
    rw [hrun]
    exact hfirst
  | ok a =>
    have hrun : (m >>= f).run.run s = (f a).run.run s' := by
      rw [ExceptT.run_bind, StateT.run_bind, hm']
      rfl
    rw [hrun]
    exact hf a s' hfirst

theorem current : Keeps p Session.current := fun _ h => h

theorem orFail (wrap : ε → Failure) (outcome : Except ε α) :
    Keeps p (Session.orFail wrap outcome) := by
  cases outcome with
  | ok a => exact fun _ h => h
  | error e => exact fun _ h => h

end Keeps

/-! ### Derivations -/

/-- The session has the options, and no entry of the log is a warning or an error. -/
structure Undisturbed (o : Options) (s : SessionLog) : Prop where
  options : s.session.options = o
  quiet : ∀ e ∈ s.entries, e.level.value < 30

/-- For any formula, the negation normal form is derived first. -/
theorem prenex_false (f : Formula) :
    Session.prenex f false = Session.nnf f >>= fun d => Session.prenex d.result true := by
  simp only [Session.prenex, map_eq_pure_bind, bind_assoc, pure_bind, if_true]
  rfl

namespace Keeps

variable {o : Options}

theorem change {f : Session → Session} (hf : ∀ s, (f s).options = s.options) :
    Keeps (Undisturbed o) (Session.change f) :=
  fun s h => ⟨(hf s.session).trans h.options, h.quiet⟩

theorem log {level : LogLevel} (hlevel : level.value < 30) (message : String) :
    Keeps (Undisturbed o) (Session.log level message) :=
  fun _ h => ⟨h.options, List.forall_mem_cons.2 ⟨hlevel, h.quiet⟩⟩

theorem info (message : String) : Keeps (Undisturbed o) (Session.log .info message) :=
  log (by decide) message

theorem debug (message : String) : Keeps (Undisturbed o) (Session.log .debug message) :=
  log (by decide) message

theorem markTimed (f : Timings → Timings) : Keeps (Undisturbed o) (Session.markTimed f) :=
  change fun _ => rfl

theorem parse (text : String) : Keeps (Undisturbed o) (Session.parse text) :=
  (orFail _ _).bind fun _ => (markTimed _).bind fun _ => pure _

theorem nnf (f : Formula) : Keeps (Undisturbed o) (Session.nnf f) :=
  (info _).bind fun _ => (info _).bind fun _ => pure _

theorem prenex (f : Formula) (isNnf : Bool) : Keeps (Undisturbed o) (Session.prenex f isNnf) := by
  have hfrom (g : Formula) : Keeps (Undisturbed o) (Session.prenex g true) := by
    refine (pure g).bind fun g => (info _).bind fun _ => current.bind fun s => ?_
    split
    refine bind (change ?_) fun _ => (info _).bind fun _ => (orFail _ _).bind fun _ =>
      (debug _).bind fun _ => pure _
    exact fun _ => rfl
  cases isNnf with
  | true => exact hfrom f
  | false =>
    rw [prenex_false]
    exact (nnf f).bind fun d => hfrom d.result

theorem distribute (form : NormalForm) (f : Formula) :
    Keeps (Undisturbed o) (Session.distribute form f) := by
  refine current.bind fun s => ?_
  split
  refine bind (change ?_) fun _ => (orFail _ _).bind fun _ => (debug _).bind fun _ => pure _
  exact fun _ => rfl

theorem cnf (f : Formula) : Keeps (Undisturbed o) (Session.cnf f) := by
  refine (info _).bind fun _ => current.bind fun s => ?_
  split
  refine bind (change ?_) fun _ => (info _).bind fun _ => (distribute _ _).bind fun _ => pure _
  exact fun _ => rfl

theorem dnf (f : Formula) : Keeps (Undisturbed o) (Session.dnf f) :=
  (info _).bind fun _ => (distribute _ _).bind fun _ => pure _

theorem clausal (f : Formula) : Keeps (Undisturbed o) (Session.clausal f) :=
  (info _).bind fun _ => (info _).bind fun _ => (orFail _ _).bind fun _ =>
    (info _).bind fun _ => pure _

theorem horn (clauses : List Clause) : Keeps (Undisturbed o) (Session.horn clauses) :=
  (info _).bind fun _ => (info _).bind fun _ => pure _

theorem run (text : String) : Keeps (Undisturbed o) (Session.run text) := by
  refine (parse text).bind fun _ => (nnf _).bind fun _ => (prenex _ true).bind fun _ => ?_
  refine (cnf _).bind fun _ => (clausal _).bind fun _ => (horn _).bind fun _ => ?_
  exact (markTimed _).bind fun _ => (dnf _).bind fun _ => (markTimed _).bind fun _ => pure _

theorem loggedRun (text : String) : Keeps (Undisturbed o) (Session.loggedRun text) :=
  current.bind fun _ => (info _).bind fun _ => (run text).bind fun _ => (info _).bind fun _ =>
    (markTimed _).bind fun _ => pure _

end Keeps

/-! ### What is carried out in a session -/

variable {m : SessionM α} {s : Session}

/-- The options stay. -/
theorem perform_options (hm : Keeps (Undisturbed s.options) m) (threshold : Int) :
    (s.perform threshold m).session.options = s.options :=
  (hm ⟨s, []⟩ ⟨rfl, fun _ h => absurd h (by simp)⟩).options

/-- From warnings on, nothing is logged. -/
theorem perform_log (hm : Keeps (Undisturbed s.options) m) : (s.perform 30 m).log = [] := by
  have hquiet := (hm ⟨s, []⟩ ⟨rfl, fun _ h => absurd h (by simp)⟩).quiet
  refine List.filter_eq_nil_iff.2 fun e he => ?_
  have hlevel : e.level.value < 30 := hquiet e (List.mem_reverse.1 he)
  simpa using hlevel

end LogicForms.Session
