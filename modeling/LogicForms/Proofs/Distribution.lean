import Mathlib.Logic.Basic
import LogicForms.Forms.Distribution
import LogicForms.Proofs.Extraction
import LogicForms.Proofs.Negation

/-!
# Distribution keeps the meaning

`NormalForm.Distributes` says, rule by rule, what distributing does with a formula and how many
calls it takes. A distribution within a number of units that succeeds follows these rules, and what
it has consumed is the number of calls (`distributes_of_distributeWithin`).

Each rule is an instance of a distributive law, so the distributed formula has the truth value of
the given one (`Distributes.holds_iff`). As the matrix is brought into negation normal form first
and the quantifiers are put back in front, the same is true of prenex formulas (`holds_ofPrenex`).
-/

set_option autoImplicit false

namespace LogicForms.NormalForm

open Formula

universe u v

/-! ### The rules -/

/-- Distributing a formula gives another formula after a number of calls. The right argument of an
inner connective is taken apart only if the left one has no outer connective on top. -/
inductive Distributes (form : NormalForm) : Formula → Formula → Nat → Prop
  | literal {f : Formula} (h : f.isLiteral = true) : Distributes form f f 1
  | outer {a b k l : Formula} {n₁ n₂ : Nat} (ha : Distributes form a k n₁)
      (hb : Distributes form b l n₂) :
      Distributes form (.binary form.outer a b) (.binary form.outer k l) (n₁ + n₂ + 1)
  | left {a b c d rhs k l : Formula} {n₁ n₂ n₃ n₄ : Nat}
      (ha : Distributes form a (.binary form.outer c d) n₁) (hb : Distributes form b rhs n₂)
      (hk : Distributes form (.binary form.inner c rhs) k n₃)
      (hl : Distributes form (.binary form.inner d rhs) l n₄) :
      Distributes form (.binary form.inner a b) (.binary form.outer k l) (n₁ + n₂ + n₃ + n₄ + 1)
  | right {a b c d lhs k l : Formula} {n₁ n₂ n₃ n₄ : Nat}
      (ha : Distributes form a lhs n₁) (hlhs : lhs.arguments? form.outer = none)
      (hb : Distributes form b (.binary form.outer c d) n₂)
      (hk : Distributes form (.binary form.inner lhs c) k n₃)
      (hl : Distributes form (.binary form.inner lhs d) l n₄) :
      Distributes form (.binary form.inner a b) (.binary form.outer k l) (n₁ + n₂ + n₃ + n₄ + 1)
  | inner {a b lhs rhs : Formula} {n₁ n₂ : Nat}
      (ha : Distributes form a lhs n₁) (hlhs : lhs.arguments? form.outer = none)
      (hb : Distributes form b rhs n₂) (hrhs : rhs.arguments? form.outer = none) :
      Distributes form (.binary form.inner a b) (.binary form.inner lhs rhs) (n₁ + n₂ + 1)

variable {form : NormalForm}

/-- The distribution of a formula within the units, if it succeeds, follows the rules, consumes one
unit for each call, and does not consume the last one. -/
def FollowsRules (form : NormalForm) (units : Nat) : Prop :=
  ∀ {f : Formula} {r : Distributed units}, form.distributeWithin f units = .ok r →
    ∃ n, Distributes form f r.formula n ∧ r.left + n = units ∧ 0 < r.left

/-- Two formulas are distributed one after the other, the second one with the units that the first
one has left. -/
theorem exists_of_distributeWithin_twice {a b : Formula} {units : Nat} {α : Type}
    (ih : ∀ m ≤ units, FollowsRules form m)
    {next : (p : Distributed units) → Distributed p.left → Except Obstacle α} {r : α}
    (h : (form.distributeWithin a units >>= fun p =>
      form.distributeWithin b p.left >>= fun q => next p q) = .ok r) :
    ∃ (p : Distributed units) (q : Distributed p.left) (n₁ n₂ : Nat),
      Distributes form a p.formula n₁ ∧ Distributes form b q.formula n₂ ∧
        q.left + n₂ + n₁ = units ∧ 0 < q.left ∧ next p q = .ok r := by
  obtain ⟨p, hp, h⟩ := bind_eq_ok.1 h
  obtain ⟨q, hq, h⟩ := bind_eq_ok.1 h
  obtain ⟨n₁, ha, e₁, -⟩ := ih units (Nat.le_refl units) hp
  obtain ⟨n₂, hb, e₂, hleft⟩ := ih p.left (Nat.le_of_lt p.left_lt) hq
  exact ⟨p, q, n₁, n₂, ha, hb, by rw [e₂, e₁], hleft, h⟩

/-- A distribution that succeeds follows the rules, consumes one unit for each call, and does not
consume the last one. -/
theorem distributes_of_distributeWithin (units : Nat) : FollowsRules form units := by
  induction units using Nat.strongRecOn with
  | ind units ih =>
    intro f r h
    match units with
    | 0 => exact absurd h (by simp [distributeWithin])
    | 1 => exact absurd h (by simp [distributeWithin])
    | units + 2 =>
      -- the units for a later call are what an earlier one has left, and so there are fewer of them
      have ih' (m : Nat) (hm : m ≤ units + 1) : FollowsRules form m := ih m (by omega)
      rw [distributeWithin] at h
      split at h
      · rename_i a b hf
        rw [arguments?_eq_some] at hf
        subst hf
        obtain ⟨⟨lhs, r₁, h₁⟩, ⟨rhs, r₂, h₂⟩, n₁, n₂, ha, hb, e₁, hleft, h⟩ :=
          exists_of_distributeWithin_twice ih' h
        simp only at ha hb e₁ hleft h h₂
        have ih₂ (m : Nat) (hm : m ≤ r₂) : FollowsRules form m := ih m (by omega)
        split at h
        -- the left side is taken apart, whatever the right side is
        · rename_i c d hlhs
          rw [arguments?_eq_some] at hlhs
          subst hlhs
          obtain ⟨⟨k, r₃, h₃⟩, ⟨l, r₄, h₄⟩, n₃, n₄, hk, hl, e₂, hleft, h⟩ :=
            exists_of_distributeWithin_twice ih₂ h
          cases h
          exact ⟨_, .left ha hb hk hl, by simp only at e₂ ⊢; omega, hleft⟩
        · rename_i hlhs
          split at h
          -- the right side is taken apart, as the left side is in one piece
          · rename_i c d hrhs
            rw [arguments?_eq_some] at hrhs
            subst hrhs
            obtain ⟨⟨k, r₃, h₃⟩, ⟨l, r₄, h₄⟩, n₃, n₄, hk, hl, e₂, hleft, h⟩ :=
              exists_of_distributeWithin_twice ih₂ h
            cases h
            exact ⟨_, .right ha hlhs hb hk hl, by simp only at e₂ ⊢; omega, hleft⟩
          -- both sides are in one piece, and nothing is distributed
          · rename_i hrhs
            cases h
            exact ⟨_, .inner ha hlhs hb hrhs, by simp only; omega, hleft⟩
      · split at h
        -- an outer connective is left in place
        · rename_i a b hf
          rw [arguments?_eq_some] at hf
          subst hf
          obtain ⟨⟨k, r₁, h₁⟩, ⟨l, r₂, h₂⟩, n₁, n₂, ha, hb, e₁, hleft, h⟩ :=
            exists_of_distributeWithin_twice ih' h
          cases h
          exact ⟨_, .outer ha hb, by simp only at e₁ ⊢; omega, hleft⟩
        · split at h
          · rename_i hliteral
            cases h
            exact ⟨1, .literal hliteral, rfl, Nat.succ_pos units⟩
          · exact absurd h (by simp)

/-! ### Truth -/

/-- The inner connective distributes over an outer one on the left. -/
theorem inner_holds_outer_left (form : NormalForm) (a b c : Prop) :
    form.inner.Holds (form.outer.Holds a b) c
      ↔ form.outer.Holds (form.inner.Holds a c) (form.inner.Holds b c) := by
  cases form with
  | conjunctive => exact and_or_right
  | disjunctive => exact or_and_right

/-- The inner connective distributes over an outer one on the right. -/
theorem inner_holds_outer_right (form : NormalForm) (a b c : Prop) :
    form.inner.Holds a (form.outer.Holds b c)
      ↔ form.outer.Holds (form.inner.Holds a b) (form.inner.Holds a c) := by
  cases form with
  | conjunctive => exact or_and_left
  | disjunctive => exact and_or_left

/-- Distributing keeps the truth value, for every notion of truth with the usual conditions. -/
theorem Distributes.truth_iff {S : Type v} {D : Type u} {update : S → String → D → S}
    {truth : Formula → S → Prop} (htruth : TruthConditions update truth) {f g : Formula} {n : Nat}
    (h : Distributes form f g n) (s : S) : truth g s ↔ truth f s := by
  induction h with
  | literal h => rfl
  | outer ha hb iha ihb =>
    rw [htruth.binary, htruth.binary]
    exact form.outer.holds_congr iha ihb
  | @left a b c d rhs k l _ _ _ _ ha hb hk hl iha ihb ihk ihl =>
    rw [htruth.binary] at iha ihk ihl
    calc truth (.binary form.outer k l) s
        ↔ form.outer.Holds (form.inner.Holds (truth c s) (truth rhs s))
            (form.inner.Holds (truth d s) (truth rhs s)) := htruth.binary_congr _ ihk ihl
      _ ↔ form.inner.Holds (form.outer.Holds (truth c s) (truth d s)) (truth rhs s) :=
          (form.inner_holds_outer_left _ _ _).symm
      _ ↔ form.inner.Holds (truth a s) (truth b s) := form.inner.holds_congr iha ihb
      _ ↔ truth (.binary form.inner a b) s := (htruth.binary _ a b s).symm
  | @right a b c d lhs k l _ _ _ _ ha hlhs hb hk hl iha ihb ihk ihl =>
    rw [htruth.binary] at ihb ihk ihl
    calc truth (.binary form.outer k l) s
        ↔ form.outer.Holds (form.inner.Holds (truth lhs s) (truth c s))
            (form.inner.Holds (truth lhs s) (truth d s)) := htruth.binary_congr _ ihk ihl
      _ ↔ form.inner.Holds (truth lhs s) (form.outer.Holds (truth c s) (truth d s)) :=
          (form.inner_holds_outer_right _ _ _).symm
      _ ↔ form.inner.Holds (truth a s) (truth b s) := form.inner.holds_congr iha ihb
      _ ↔ truth (.binary form.inner a b) s := (htruth.binary _ a b s).symm
  | inner ha hlhs hb hrhs iha ihb =>
    rw [htruth.binary, htruth.binary]
    exact form.inner.holds_congr iha ihb

variable {D : Type u} (M : Structure D)

/-- Distributing keeps the truth value. -/
theorem Distributes.holds_iff {f g : Formula} {n : Nat} (h : Distributes form f g n)
    (v : Valuation D) : g.Holds M v ↔ f.Holds M v :=
  h.truth_iff (truthConditions_holds M) v

/-- Distributing keeps what is collected from the parts, though it repeats some of them. -/
theorem Distributes.collected_iff {op : Connective} {p : Formula → Prop} (hp : IsCollected op p)
    {f g : Formula} {n : Nat} (h : Distributes form f g n) : p g ↔ p f := by
  induction h with
  | literal h => rfl
  | outer ha hb iha ihb => rw [hp.binary, hp.binary, iha, ihb]
  | left ha hb hk hl iha ihb ihk ihl =>
    rw [hp.binary] at iha ihk ihl
    rw [hp.binary, hp.binary, ihk, ihl, ← iha, ← ihb]
    exact (hp.holds_distrib_right _ _ _).symm
  | right ha hlhs hb hk hl iha ihb ihk ihl =>
    rw [hp.binary] at ihb ihk ihl
    rw [hp.binary, hp.binary, ihk, ihl, ← iha, ← ihb]
    exact (hp.holds_distrib_left _ _ _).symm
  | inner ha hlhs hb hrhs iha ihb => rw [hp.binary, hp.binary, iha, ihb]

/-- What a normal form of a prenex formula is: the matrix is distributed in negation normal form,
and the quantifiers are put back. Of the budget, only the limit matters. -/
theorem ofPrenex_eq_ok_iff {f g : Formula} {budget : Budget} :
    (form.ofPrenex f budget).1 = .ok g ↔
      ∃ r, form.distributeWithin (f.matrix.nnf false) budget.limit = .ok r ∧
        r.formula.quantify f.leading = g := by
  simp only [ofPrenex, distribute]
  cases form.distributeWithin (f.matrix.nnf false) budget.limit with
  | ok r => simp [Except.map]
  | error e => cases e <;> simp [Except.map]

/-- A conjunctive or disjunctive normal form has the truth value of the prenex formula. -/
theorem holds_ofPrenex {f g : Formula} {budget : Budget} (h : (form.ofPrenex f budget).1 = .ok g)
    (v : Valuation D) : g.Holds M v ↔ f.Holds M v := by
  obtain ⟨r, hr, rfl⟩ := ofPrenex_eq_ok_iff.1 h
  obtain ⟨n, hn, -⟩ := distributes_of_distributeWithin _ hr
  have hmatrix (w : Valuation D) : r.formula.Holds M w ↔ f.matrix.Holds M w :=
    (hn.holds_iff M w).trans (f.matrix.holds_nnf M false w)
  calc (r.formula.quantify f.leading).Holds M v
      ↔ (f.matrix.quantify f.leading).Holds M v := holds_quantify_congr M hmatrix f.leading v
    _ ↔ f.Holds M v := by rw [quantify_leading]

/-- A conjunctive or disjunctive normal form has what is collected from the parts of the prenex
formula. -/
theorem ofPrenex_collected_iff {op : Connective} {p : Formula → Prop} (hp : IsCollected op p)
    {f g : Formula} {budget : Budget} (h : (form.ofPrenex f budget).1 = .ok g) : p g ↔ p f := by
  obtain ⟨r, hr, rfl⟩ := ofPrenex_eq_ok_iff.1 h
  obtain ⟨n, hn, -⟩ := distributes_of_distributeWithin _ hr
  have hmatrix : p r.formula ↔ p f.matrix := (hn.collected_iff hp).trans (hp.nnf_iff _ false)
  have hbehind (q : Prefix) : p (r.formula.quantify q) ↔ p (f.matrix.quantify q) := by
    induction q with
    | nil => exact hmatrix
    | cons b q ih => exact hp.quant _ _ _ ih
  rw [hbehind, quantify_leading]

end LogicForms.NormalForm
