import LogicForms.Proofs.Fitting
import LogicForms.Proofs.Rows

/-!
# Distribution call by call

A distribution is computed within a number of units that is handed from call to call. Here it is
written as what it stands for: a recursion in which every call begins with a payment, and which is
followed down to a given depth of nested calls (`NormalForm.distributeCalls`). The depth is no part
of the computation: where it is reached, the recursion has no outcome at all.

If each call consumes one unit of a budget, the recursion ends for every formula and every budget at
a depth of at most the limit, and gives what the distribution gives (`ends_calls`). If each call is
charged but never refused, it ends for every combination of literals, and the charge is the number
of calls (`Distributes.ends_onCredit`).

Both together make a budget a threshold (`ofPrenex_threshold`): a limit above the number of calls
has no influence on the result, and any other limit is used up. What earlier distributions have left
of the budget does not matter.
-/

set_option autoImplicit false

namespace LogicForms.NormalForm

open Formula

variable {form : NormalForm}

/-! ### Spending -/

/-- Computations that spend a budget, can fail, and need not come to an end. After a failure the
budget is the one that was reached. -/
abbrev Spending := ExceptT Failure (StateT Budget Option)

/-- From the budget on, the computation ends with the outcome and leaves the other budget. -/
def Ends {α : Type} (m : Spending α) (budget : Budget) (outcome : Except Failure α)
    (budget' : Budget) : Prop :=
  m.run.run budget = some (outcome, budget')

namespace Ends

variable {α β : Type} {m : Spending α} {next : α → Spending β} {b b' b'' : Budget}

theorem pure (a : α) (b : Budget) : Ends (pure a) b (.ok a) b := rfl

theorem throw (e : Failure) (b : Budget) : Ends (throw e : Spending α) b (.error e) b := rfl

theorem modifyGet (f : Budget → α × Budget) (b : Budget) :
    Ends (modifyGet f) b (.ok (f b).1) (f b).2 := rfl

/-- A computation that succeeds hands on its value and the budget. -/
theorem bind {a : α} {outcome : Except Failure β} (h : Ends m b (.ok a) b')
    (h' : Ends (next a) b' outcome b'') : Ends (m >>= next) b outcome b'' := by
  rw [Ends, ExceptT.run_bind, StateT.run_bind, h]
  exact h'

/-- After a failure nothing else is computed. -/
theorem bind_error {e : Failure} (h : Ends m b (.error e) b') :
    Ends (m >>= next) b (.error e) b' := by
  rw [Ends, ExceptT.run_bind, StateT.run_bind, h]
  rfl

end Ends

/-- Consume one unit of the budget. -/
def pay (form : NormalForm) : Spending Unit := do
  match ← modifyGet fun budget => budget.consume form.label with
  | .ok () => return ()
  | .error e => throw (.exceeded e)

/-- Charge one unit, also if nothing is left of the budget. -/
def onCredit : Spending Unit :=
  modifyGet fun budget => ((), { budget with remaining := budget.remaining - 1 })

/-- Distribute the inner connective over the outer one, with a payment at the beginning of each
call. Calls that are nested more deeply than the given number do not end. -/
def distributeCalls (form : NormalForm) (payment : Spending Unit) :
    Nat → Formula → Spending Formula
  | 0, _ => liftM (none : Option Formula)
  | depth + 1, f => do
    payment
    match f.arguments? form.inner with
    | some (a, b) =>
      let lhs ← form.distributeCalls payment depth a
      let rhs ← form.distributeCalls payment depth b
      match lhs.arguments? form.outer with
      | some (c, d) =>
        let k ← form.distributeCalls payment depth (.binary form.inner c rhs)
        let l ← form.distributeCalls payment depth (.binary form.inner d rhs)
        return .binary form.outer k l
      | none =>
        match rhs.arguments? form.outer with
        | some (c, d) =>
          let k ← form.distributeCalls payment depth (.binary form.inner lhs c)
          let l ← form.distributeCalls payment depth (.binary form.inner lhs d)
          return .binary form.outer k l
        | none => return .binary form.inner lhs rhs
    | none =>
      match f.arguments? form.outer with
      | some (a, b) =>
        let k ← form.distributeCalls payment depth a
        let l ← form.distributeCalls payment depth b
        return .binary form.outer k l
      | none => if f.isLiteral then return f else throw (.stuck f)

/-! ### Calls that are paid for -/

theorem ends_pay (form : NormalForm) (budget : Budget) :
    Ends form.pay budget ((budget.consume form.label).1.mapError .exceeded)
      (budget.consume form.label).2 := by
  refine Ends.bind (Ends.modifyGet (fun budget => budget.consume form.label) budget) ?_
  cases (budget.consume form.label).1 with
  | ok => exact Ends.pure () _
  | error e => exact Ends.throw _ _

/-- A payment that leaves something of the budget is accepted. -/
theorem ends_pay_of_two (form : NormalForm) (budget : Budget) (units : Nat) :
    Ends form.pay { budget with remaining := (units + 2 : Nat) } (.ok ())
      { budget with remaining := (units + 1 : Nat) } := by
  have hpay := form.ends_pay { budget with remaining := (units + 2 : Nat) }
  have hleft : ((units + 2 : Nat) : Int) - 1 = (units + 1 : Nat) := by omega
  have hpos : ¬ ((units + 1 : Nat) : Int) ≤ 0 := by omega
  simp only [Budget.consume, hleft, if_neg hpos] at hpay
  exact hpay

/-- What the outcome of a distribution within a number of units makes of a budget. -/
def settle (form : NormalForm) (budget : Budget) {bound : Nat} :
    Except Obstacle (Distributed bound) → Except Failure Formula × Budget
  | .ok r => (.ok r.formula, { budget with remaining := r.left })
  | .error .exhausted =>
    (.error (.exceeded ⟨form.label, budget.limit⟩), { budget with remaining := 0 })
  | .error (.stuck g left) => (.error (.stuck g), { budget with remaining := left })

theorem distribute_eq_settle (form : NormalForm) (f : Formula) (budget : Budget) :
    form.distribute f budget = form.settle budget (form.distributeWithin f budget.limit) := by
  rw [distribute]
  cases form.distributeWithin f budget.limit with
  | ok r => rfl
  | error e => cases e <;> rfl

/-- With the units left of the budget, the computation ends as the outcome of a distribution within
these units says. -/
def EndsAs (form : NormalForm) (budget : Budget) (m : Spending Formula) (units : Nat) {bound : Nat}
    (outcome : Except Obstacle (Distributed bound)) : Prop :=
  Ends m { budget with remaining := units } (form.settle budget outcome).1
    (form.settle budget outcome).2

/-- Two formulas are distributed one after the other, the second one with what the first one has
left. A distribution that succeeds leaves something, so that the next call finds units to pay with.
-/
theorem endsAs_twice {budget : Budget} {a b : Formula} {units bound depth : Nat}
    (hunits : 0 < units)
    (ih : ∀ m ≤ units, 0 < m → ∀ f, form.EndsAs budget (form.distributeCalls form.pay depth f) m
      (form.distributeWithin f m))
    {next : Formula → Formula → Spending Formula}
    {next' : (p : Distributed units) → Distributed p.left → Except Obstacle (Distributed bound)}
    (h : ∀ p q, 0 < q.left → form.EndsAs budget (next p.formula q.formula) q.left (next' p q)) :
    form.EndsAs budget
      (form.distributeCalls form.pay depth a >>= fun k =>
        form.distributeCalls form.pay depth b >>= next k)
      units
      (form.distributeWithin a units >>= fun p => form.distributeWithin b p.left >>= next' p) := by
  have ha := ih units (Nat.le_refl units) hunits a
  cases hp : form.distributeWithin a units with
  | error e =>
    rw [hp] at ha
    cases e <;> exact ha.bind_error
  | ok p =>
    rw [hp] at ha
    obtain ⟨_, -, -, hleft⟩ := distributes_of_distributeWithin _ hp
    have hb := ih p.left (Nat.le_of_lt p.left_lt) hleft b
    refine ha.bind ?_
    rw [ok_bind]
    cases hq : form.distributeWithin b p.left with
    | error e =>
      rw [hq] at hb
      cases e <;> exact hb.bind_error
    | ok q =>
      rw [hq] at hb
      obtain ⟨_, -, -, hleft'⟩ := distributes_of_distributeWithin _ hq
      exact hb.bind (h p q hleft')

/-- Paying call by call is counting units. A call that is nested has fewer of them, so that no more
than these many calls are nested. -/
theorem endsAs_calls (budget : Budget) {units depth : Nat} (hunits : 0 < units)
    (hdepth : units ≤ depth) (f : Formula) :
    form.EndsAs budget (form.distributeCalls form.pay depth f) units
      (form.distributeWithin f units) := by
  induction depth generalizing units f with
  | zero => exact absurd hunits (by omega)
  | succ depth ih =>
    rw [distributeCalls, distributeWithin.eq_def]
    match units with
    -- the last unit is taken, and the payment is refused all the same
    | 1 => exact (form.ends_pay { budget with remaining := (1 : Nat) }).bind_error
    | units + 2 =>
      have ih' (m : Nat) (hm : m ≤ units + 1) (hpos : 0 < m) := ih hpos (by omega : m ≤ depth)
      refine (form.ends_pay_of_two budget units).bind ?_
      dsimp only
      cases f.arguments? form.inner with
      | some parts =>
        refine endsAs_twice (Nat.succ_pos units) ih' ?_
        rintro ⟨lhs, r₁, h₁⟩ ⟨rhs, r₂, h₂⟩ hleft
        simp only at hleft h₂ ⊢
        have ih₂ (m : Nat) (hm : m ≤ r₂) (hpos : 0 < m) := ih hpos (by omega : m ≤ depth)
        cases lhs.arguments? form.outer with
        | some inner => exact endsAs_twice hleft ih₂ fun _ _ _ => Ends.pure _ _
        | none =>
          cases rhs.arguments? form.outer with
          | some inner => exact endsAs_twice hleft ih₂ fun _ _ _ => Ends.pure _ _
          | none => exact Ends.pure _ _
      | none =>
        cases f.arguments? form.outer with
        | some parts => exact endsAs_twice (Nat.succ_pos units) ih' fun _ _ _ => Ends.pure _ _
        | none =>
          cases f.isLiteral with
          | true => exact Ends.pure _ _
          | false => exact Ends.throw _ _

/-- **Distribution with a budget is the recursion in which every call consumes one unit**, from the
full budget on. It ends for every formula and every budget. -/
theorem ends_calls (form : NormalForm) (f : Formula) (budget : Budget) {depth : Nat}
    (hdepth : budget.limit ≤ depth) :
    Ends (form.distributeCalls form.pay depth f) budget.reset (form.distribute f budget).1
      (form.distribute f budget).2 := by
  rw [distribute_eq_settle]
  exact endsAs_calls budget budget.limit_pos hdepth f

/-! ### Calls that are only charged -/

theorem ends_onCredit (budget : Budget) :
    Ends onCredit budget (.ok ()) { budget with remaining := budget.remaining - 1 } :=
  Ends.modifyGet _ budget

/-- There is at least the call for the formula itself. -/
theorem Distributes.one_le {f g : Formula} {n : Nat} (h : Distributes form f g n) : 1 ≤ n := by
  cases h <;> omega

/-- **If no payment is refused, the distribution of a combination of literals comes to an end**, and
what has been charged is the number of calls. -/
theorem Distributes.ends_onCredit {f g : Formula} {n : Nat} (h : Distributes form f g n)
    (budget : Budget) {depth : Nat} (hdepth : n ≤ depth) :
    Ends (form.distributeCalls onCredit depth f) budget (.ok g)
      { budget with remaining := budget.remaining - n } := by
  have hself (op : Connective) (a b : Formula) : (binary op a b).arguments? op = some (a, b) :=
    arguments?_eq_some.2 rfl
  -- later calls find what the earlier ones have left, so this is for any budget
  induction depth generalizing budget f g n with
  | zero => exact absurd h.one_le (by omega)
  | succ depth ih =>
    rw [distributeCalls]
    refine (NormalForm.ends_onCredit budget).bind ?_
    cases h with
    | literal hf =>
      simp only [arguments?_of_isLiteral hf, if_pos hf]
      exact .pure f _
    | @outer a b k l n₁ n₂ ha hb =>
      have hnone : (binary form.outer a b).arguments? form.inner = none := by
        simp [arguments?, outer_ne_inner]
      have hcharge : budget.remaining - (n₁ + n₂ + 1 : Nat) = budget.remaining - 1 - n₁ - n₂ := by
        omega
      simp only [hnone, hself, hcharge]
      exact (ih ha _ (by omega)).bind ((ih hb _ (by omega)).bind (.pure _ _))
    | @left a b c d rhs k l n₁ n₂ n₃ n₄ ha hb hk hl =>
      have hcharge : budget.remaining - (n₁ + n₂ + n₃ + n₄ + 1 : Nat)
          = budget.remaining - 1 - n₁ - n₂ - n₃ - n₄ := by omega
      simp only [hself, hcharge]
      refine (ih ha _ (by omega)).bind ((ih hb _ (by omega)).bind ?_)
      simp only [hself]
      exact (ih hk _ (by omega)).bind ((ih hl _ (by omega)).bind (.pure _ _))
    | @right a b c d lhs k l n₁ n₂ n₃ n₄ ha hlhs hb hk hl =>
      have hcharge : budget.remaining - (n₁ + n₂ + n₃ + n₄ + 1 : Nat)
          = budget.remaining - 1 - n₁ - n₂ - n₃ - n₄ := by omega
      simp only [hself, hcharge]
      refine (ih ha _ (by omega)).bind ((ih hb _ (by omega)).bind ?_)
      simp only [hlhs, hself]
      exact (ih hk _ (by omega)).bind ((ih hl _ (by omega)).bind (.pure _ _))
    | @inner a b lhs rhs n₁ n₂ ha hlhs hb hrhs =>
      have hcharge : budget.remaining - (n₁ + n₂ + 1 : Nat) = budget.remaining - 1 - n₁ - n₂ := by
        omega
      simp only [hself, hcharge]
      refine (ih ha _ (by omega)).bind ((ih hb _ (by omega)).bind ?_)
      simp only [hlhs, hrhs]
      exact .pure _ _

/-! ### The budget as a threshold -/

/-- **A budget is a threshold.** The matrix of a prenex formula has one distributed form and one
number of calls, which an unlimited distribution finds. A budget with a limit above this number
gives the normal form and is left with the difference; with any other limit it is exceeded, and
nothing is left. What was left of the budget before makes no difference. -/
theorem ofPrenex_threshold (form : NormalForm) {f : Formula}
    (hf : f.matrix.isQuantifierFree = true) :
    ∃ g n, 1 ≤ n ∧
      (∀ g' n', Distributes form (f.matrix.nnf false) g' n' ↔ g' = g ∧ n' = n) ∧
      (∀ budget depth, n ≤ depth →
        Ends (form.distributeCalls onCredit depth (f.matrix.nnf false)) budget (.ok g)
          { budget with remaining := budget.remaining - n }) ∧
      ∀ budget : Budget,
        (n < budget.limit → form.ofPrenex f budget
          = (.ok (g.quantify f.leading), { budget with remaining := budget.limit - n })) ∧
        (budget.limit ≤ n → form.ofPrenex f budget
          = (.error (.exceeded ⟨form.label, budget.limit⟩), { budget with remaining := 0 })) := by
  obtain ⟨g, n, h⟩ := exists_distributes form (IsCombination.nnf_of_isQuantifierFree hf false)
  refine ⟨g, n, h.one_le, fun g' n' => ⟨h.unique, ?_⟩, fun budget _ => h.ends_onCredit budget,
    fun budget => ?_⟩
  · rintro ⟨rfl, rfl⟩
    exact h
  · exact ⟨ofPrenex_of_lt h, ofPrenex_of_le h hf⟩

/-- The matrix of the sample takes 29 calls. -/
theorem distributes_sample :
    Distributes conjunctive (sampleFormula.matrix.nnf false) sampleNormalForm.matrix 29 := by
  have hwithin : conjunctive.distributeWithin (sampleFormula.matrix.nnf false) 30
      = .ok ⟨sampleNormalForm.matrix, 1, by decide⟩ := by cbv
  obtain ⟨n, hn, hleft, -⟩ := distributes_of_distributeWithin 30 hwithin
  obtain rfl : n = 29 := Nat.add_left_cancel (hleft.trans (Nat.add_comm 29 1))
  exact hn

/-- A limit of 30 units is enough, also if an earlier distribution has failed; a limit of 29 units
is not. -/
theorem ofPrenex_threshold_sample :
    sampleFormula.matrix.isQuantifierFree = true ∧
      conjunctive.ofPrenex sampleFormula ⟨30, -1, by decide⟩
        = (.ok sampleNormalForm, ⟨30, 1, by decide⟩) ∧
      conjunctive.ofPrenex sampleFormula ⟨29, 29, by decide⟩
        = (.error (.exceeded ⟨"CNF", 29⟩), ⟨29, 0, by decide⟩) := by
  have hmatrix : sampleFormula.matrix.isQuantifierFree = true := by decide
  obtain ⟨g, n, -, hunique, -, hbudget⟩ := ofPrenex_threshold conjunctive hmatrix
  obtain ⟨rfl, rfl⟩ := (hunique _ _).1 distributes_sample
  exact ⟨hmatrix, (hbudget _).1 (by decide), (hbudget _).2 (by decide)⟩

end LogicForms.NormalForm
