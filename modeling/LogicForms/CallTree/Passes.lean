import LogicForms.CallTree
import LogicForms.Forms.Distribution
import LogicForms.Text.Abbreviated

/-!
# Traces of the passes over formulas

For each recursive pass this module builds the tree of its calls: negation normal form, resolving
implications and equivalences, depth, the test for negation normal form, and distribution. Negation
normal form turns an equivalence, and then an implication, into a formula for which it calls
itself, so that its tree shows these formulas as well. A conjunction or disjunction is tested from
left to right, and its right argument only if the left one passes.

`NormalForm.outcome_distributeRecorded` says that the distribution with recorded calls has the same
outcome as the one without.
-/

set_option autoImplicit false

namespace LogicForms

/-- How traces are written. -/
structure TraceStyle where
  /-- By how much inner calls are indented. -/
  indentStep : Int
  /-- Are values written on exit? -/
  showValue : Bool
  /-- The length from which on arguments and values are abbreviated. -/
  maxLength : Int
  deriving DecidableEq, Repr, Inhabited

namespace TraceStyle

/-- The style that is used when none is given. -/
def standard : TraceStyle := ⟨2, true, 80⟩

/-- A call in this style, with arguments and value as they are shown. -/
def call (style : TraceStyle) (name : String) (args : List String) (value? : Option String)
    (inner : List CallTree) : CallTree :=
  .node ⟨name, args, value?, style.indentStep, style.showValue⟩ inner

/-- A formula as an argument or a value. -/
def formula (style : TraceStyle) (f : Formula) : String :=
  Text.abbreviated style.maxLength f.explicitText

/-- The text of a truth value. -/
def truthText (b : Bool) : String := if b then "True" else "False"

/-- A truth value as an argument or a value. -/
def truth (style : TraceStyle) (b : Bool) : String := Text.abbreviated style.maxLength (truthText b)

end TraceStyle

namespace Formula

/-! ### Negation normal form -/

/-- A call of the negation normal form. All calls but the outermost one show the polarity. -/
def nnfCall (style : TraceStyle) (f : Formula) (negated : Bool) (inner : List CallTree) :
    CallTree :=
  style.call "Formula.to_nnf" [style.formula f, style.truth negated]
    (some (style.formula (f.nnf negated))) inner

/-- The calls for an implication, given those for its two sides: the implication becomes a
disjunction with a negation. -/
def nnfImplicationCall (style : TraceStyle) (f g : Formula) (negated : Bool)
    (callF callG : CallTree) : CallTree :=
  nnfCall style (.implies f g) negated
    [nnfCall style (.or (.not f) g) negated [nnfCall style (.not f) negated [callF], callG]]

/-- The calls that the negation normal form makes. -/
def nnfCalls (style : TraceStyle) : Formula → (negated : Bool) → CallTree
  | .pred p args, negated => nnfCall style (.pred p args) negated []
  | .eq s t, negated => nnfCall style (.eq s t) negated []
  | .not f, negated => nnfCall style (.not f) negated [f.nnfCalls style !negated]
  | .binary .iff f g, negated =>
    nnfCall style (.iff f g) negated
      [nnfCall style (.and (.implies f g) (.implies g f)) negated
        [nnfImplicationCall style f g negated (f.nnfCalls style !negated)
          (g.nnfCalls style negated),
         nnfImplicationCall style g f negated (g.nnfCalls style !negated)
          (f.nnfCalls style negated)]]
  | .binary .implies f g, negated =>
    nnfImplicationCall style f g negated (f.nnfCalls style !negated) (g.nnfCalls style negated)
  | .binary op f g, negated =>
    nnfCall style (.binary op f g) negated [f.nnfCalls style negated, g.nnfCalls style negated]
  | .quant q x f, negated => nnfCall style (.quant q x f) negated [f.nnfCalls style negated]

/-- The trace of the negation normal form. The outermost call shows the polarity only if it is
given, and then by name. -/
def nnfTrace (style : TraceStyle) (f : Formula) (given? : Option Bool) : CallTree :=
  match f.nnfCalls style (given?.getD false) with
  | .node record inner =>
    let polarity := given?.toList.map fun negated => "_not=" ++ style.truth negated
    .node { record with args := style.formula f :: polarity } inner

/-! ### The other structural passes -/

/-- The calls that resolving implications and equivalences makes. -/
def expandArrowsTrace (style : TraceStyle) (f : Formula) : CallTree :=
  style.call "Formula.elim_iff_imp" [style.formula f] (some (style.formula f.expandArrows)) <|
    match f with
    | .pred _ _ => []
    | .eq _ _ => []
    | .not g => [g.expandArrowsTrace style]
    | .binary _ g k => [g.expandArrowsTrace style, k.expandArrowsTrace style]
    | .quant _ _ g => [g.expandArrowsTrace style]

/-- The calls that computing the depth makes. Numbers are never abbreviated. -/
def depthTrace (style : TraceStyle) (f : Formula) : CallTree :=
  style.call "Formula.depth" [style.formula f] (some (toString f.depth)) <|
    match f with
    | .pred _ _ => []
    | .eq _ _ => []
    | .not g => [g.depthTrace style]
    | .binary _ g k => [g.depthTrace style, k.depthTrace style]
    | .quant _ _ g => [g.depthTrace style]

/-- The calls that testing for negation normal form makes. -/
def isNnfTrace (style : TraceStyle) (f : Formula) : CallTree :=
  style.call "Formula.is_nnf" [style.formula f] (some (style.truth f.isNnf)) <|
    match f with
    | .binary .and g k => g.isNnfTrace style :: if g.isNnf then [k.isNnfTrace style] else []
    | .binary .or g k => g.isNnfTrace style :: if g.isNnf then [k.isNnfTrace style] else []
    | .quant _ _ g => [g.isNnfTrace style]
    | _ => []

end Formula

/-! ### Distribution -/

namespace NormalForm

/-- The normal form as an argument. -/
def explicitText (form : NormalForm) : String :=
  "BooleanNormalForm(dualize=" ++
    TraceStyle.truthText (form == .conjunctive) ++ ")"

/-- A call of the distribution with a number of units out of a limit. -/
def distributeCall (style : TraceStyle) (limit : Nat) (form : NormalForm) (f : Formula)
    (units : Nat) {bound : Nat} (outcome : Except Obstacle (Distributed bound))
    (inner : List CallTree) : CallTree :=
  style.call "BooleanNormalForm._distribute"
    [Text.abbreviated style.maxLength form.explicitText, style.formula f,
     Text.abbreviated style.maxLength (Budget.summary limit units)]
    (outcome.toOption.map fun result => style.formula result.formula) inner

/-- A step of a computation that records calls: its outcome and the calls that it made. -/
structure Recorded (α : Type) where
  /-- The outcome. -/
  outcome : Except Obstacle α
  /-- The calls, in order. -/
  calls : List CallTree

namespace Recorded

/-- A value without calls. -/
protected def pure {α : Type} (a : α) : Recorded α := ⟨.ok a, []⟩

/-- One step after another. If the first one fails, there is no second one. -/
protected def bind {α β : Type} (step : Recorded α) (next : α → Recorded β) : Recorded β :=
  match step.outcome with
  | .ok a =>
    let rest := next a
    ⟨rest.outcome, step.calls ++ rest.calls⟩
  | .error e => ⟨.error e, step.calls⟩

instance : Monad Recorded where
  pure := Recorded.pure
  bind := Recorded.bind

/-- A failure without calls. -/
def fail {α : Type} (e : Obstacle) : Recorded α := ⟨.error e, []⟩

@[simp] theorem outcome_pure {α : Type} (a : α) : (pure a : Recorded α).outcome = .ok a := rfl

@[simp] theorem outcome_fail {α : Type} (e : Obstacle) :
    (fail e : Recorded α).outcome = .error e := rfl

/-- The outcome of two steps is the outcome of the second one for the value of the first one. -/
@[simp] theorem outcome_bind {α β : Type} (step : Recorded α) (next : α → Recorded β) :
    (step >>= next).outcome = step.outcome >>= fun a => (next a).outcome := by
  change (Recorded.bind step next).outcome = _
  unfold Recorded.bind
  cases h : step.outcome <;> rfl

end Recorded

/-- The distribution within a number of units, with the tree of its calls. -/
def distributeRecorded (style : TraceStyle) (limit : Nat) (form : NormalForm) (f : Formula)
    (units : Nat) : Recorded (Distributed units) :=
  let body : Recorded (Distributed units) :=
    match units with
    | 0 => .fail .exhausted
    | 1 => .fail .exhausted
    | units + 2 =>
      match f.arguments? form.inner with
      | some (a, b) => do
        let ⟨lhs, r₁, h₁⟩ ← form.distributeRecorded style limit a (units + 1)
        let ⟨rhs, r₂, h₂⟩ ← form.distributeRecorded style limit b r₁
        match lhs.arguments? form.outer with
        | some (c, d) => do
          let ⟨k, r₃, h₃⟩ ← form.distributeRecorded style limit (.binary form.inner c rhs) r₂
          let ⟨l, r₄, h₄⟩ ← form.distributeRecorded style limit (.binary form.inner d rhs) r₃
          return ⟨.binary form.outer k l, r₄, by omega⟩
        | none =>
          match rhs.arguments? form.outer with
          | some (c, d) => do
            let ⟨k, r₃, h₃⟩ ← form.distributeRecorded style limit (.binary form.inner lhs c) r₂
            let ⟨l, r₄, h₄⟩ ← form.distributeRecorded style limit (.binary form.inner lhs d) r₃
            return ⟨.binary form.outer k l, r₄, by omega⟩
          | none => return ⟨.binary form.inner lhs rhs, r₂, by omega⟩
      | none =>
        match f.arguments? form.outer with
        | some (a, b) => do
          let ⟨k, r₁, h₁⟩ ← form.distributeRecorded style limit a (units + 1)
          let ⟨l, r₂, h₂⟩ ← form.distributeRecorded style limit b r₁
          return ⟨.binary form.outer k l, r₂, by omega⟩
        | none =>
          if f.isLiteral then return ⟨f, units + 1, by omega⟩
          else .fail (.stuck f (units + 1))
  ⟨body.outcome, [distributeCall style limit form f units body.outcome body.calls]⟩
termination_by units

/-- Recording calls does not change what the distribution computes. -/
theorem outcome_distributeRecorded (style : TraceStyle) (limit : Nat) (form : NormalForm)
    (units : Nat) (f : Formula) :
    (form.distributeRecorded style limit f units).outcome = form.distributeWithin f units := by
  induction units using Nat.strongRecOn generalizing f with
  | ind units ih =>
  match units with
  | 0 => rw [distributeRecorded, distributeWithin]; rfl
  | 1 => rw [distributeRecorded, distributeWithin]; rfl
  | units + 2 =>
    rw [distributeRecorded, distributeWithin]
    have step := ih (units + 1) (by omega)
    cases f.arguments? form.inner with
    | some parts =>
      simp only [Recorded.outcome_bind, step]
      congr 1
      funext lhs
      have := lhs.left_lt
      simp only [ih lhs.left (by omega)]
      congr 1
      funext rhs
      have := rhs.left_lt
      cases lhs.formula.arguments? form.outer with
      | some inner =>
        simp only [Recorded.outcome_bind, ih rhs.left (by omega)]
        congr 1
        funext k
        have := k.left_lt
        simp only [ih k.left (by omega), Recorded.outcome_pure]
        rfl
      | none =>
        cases rhs.formula.arguments? form.outer with
        | some inner =>
          simp only [Recorded.outcome_bind, ih rhs.left (by omega)]
          congr 1
          funext k
          have := k.left_lt
          simp only [ih k.left (by omega), Recorded.outcome_pure]
          rfl
        | none => rfl
    | none =>
      cases f.arguments? form.outer with
      | some parts =>
        simp only [Recorded.outcome_bind, step]
        congr 1
        funext lhs
        have := lhs.left_lt
        simp only [ih lhs.left (by omega), Recorded.outcome_pure]
        rfl
      | none =>
        cases f.isLiteral <;> rfl

end NormalForm

end LogicForms
