import LogicForms.Proofs.Shapes

/-!
# Distributions that fit a budget

A distribution fits a limit if it takes fewer calls than the limit has units (`NormalForm.Fits`).
For a combination of literals there are two outcomes only: a result with at least one unit left, or
all units are used up (`settles`). The first one is the outcome if the distribution fits, the second
one if it does not (`ofPrenex_of_lt`, `ofPrenex_of_le`), so that nothing else can go wrong.

Not to fit means to take too many calls, not to go on forever: every combination of literals has a
number of calls (`exists_distributes`). The parts that are distributed again are normal forms, which
are distributed to themselves.
-/

set_option autoImplicit false

namespace LogicForms.NormalForm

open Formula

variable {form : NormalForm}

/-! ### Two outcomes only -/

/-- There is a combination of literals and at least one unit left, or all units are used up. -/
def IsSettled {bound : Nat} (outcome : Except Obstacle (Distributed bound)) : Prop :=
  (∃ r, outcome = .ok r ∧ r.formula.IsCombination ∧ 0 < r.left) ∨ outcome = .error .exhausted

/-- Within the units, no distribution of a combination of literals gets stuck. -/
def Settles (form : NormalForm) (units : Nat) : Prop :=
  ∀ {f : Formula}, f.IsCombination → IsSettled (form.distributeWithin f units)

/-- Two combinations are distributed one after the other, and what follows can rely on both
results. -/
theorem isSettled_twice {a b : Formula} {units bound : Nat}
    (ih : ∀ m ≤ units, Settles form m) (ha : a.IsCombination) (hb : b.IsCombination)
    {next : (p : Distributed units) → Distributed p.left → Except Obstacle (Distributed bound)}
    (h : ∀ p q, p.formula.IsCombination → q.formula.IsCombination → 0 < q.left →
      IsSettled (next p q)) :
    IsSettled (form.distributeWithin a units >>= fun p =>
      form.distributeWithin b p.left >>= fun q => next p q) := by
  rcases ih units (Nat.le_refl units) ha with ⟨p, hp, hcp, -⟩ | hexhausted
  · rw [hp, ok_bind]
    rcases ih p.left (Nat.le_of_lt p.left_lt) hb with ⟨q, hq, hcq, hleft⟩ | hexhausted
    · rw [hq, ok_bind]
      exact h p q hcp hcq hleft
    · rw [hexhausted]
      exact Or.inr rfl
  · rw [hexhausted]
    exact Or.inr rfl

/-- The arguments of a combination are combinations. -/
theorem isCombination_arguments {op : Connective} {f a b : Formula} (h : f.IsCombination)
    (hf : f.arguments? op = some (a, b)) : a.IsCombination ∧ b.IsCombination := by
  rw [arguments?_eq_some] at hf
  subst hf
  cases h with
  | literal h => simp at h
  | binary _ ha hb => exact ⟨ha, hb⟩

theorem arguments?_of_isLiteral {f : Formula} (h : f.isLiteral = true) (op : Connective) :
    f.arguments? op = none := by
  cases f with
  | binary => simp at h
  | pred | eq | not | quant => rfl

/-- A combination with neither connective on top is a literal. -/
theorem isLiteral_of_arguments? {f : Formula} (h : f.IsCombination)
    (hinner : f.arguments? form.inner = none) (houter : f.arguments? form.outer = none) :
    f.isLiteral = true := by
  cases h with
  | literal h => exact h
  | binary hop =>
    rcases hop with rfl | rfl <;> cases form <;> simp [arguments?, inner, outer] at hinner houter

/-- **No distribution of a combination of literals gets stuck.** -/
theorem settles (units : Nat) : Settles form units := by
  have hinner := form.inner_eq_and_or
  have houter := form.outer_eq_and_or
  induction units using Nat.strongRecOn with
  | ind units ih =>
    intro f hf
    rcases units with _ | _ | units
    -- no unit is left, or one that pays for no result
    · exact Or.inr (by rw [distributeWithin])
    · exact Or.inr (by rw [distributeWithin])
    · have ih' (m : Nat) (hm : m ≤ units + 1) : Settles form m := ih m (by omega)
      rw [distributeWithin]
      split
      -- an inner connective: what is put together from parts of both results is distributed again
      · rename_i a b hab
        obtain ⟨ha, hb⟩ := isCombination_arguments hf hab
        apply isSettled_twice ih' ha hb
        rintro ⟨lhs, r₁, h₁⟩ ⟨rhs, r₂, h₂⟩ hlhs hrhs hleft
        simp only at hlhs hrhs hleft h₂ ⊢
        have ih₂ (m : Nat) (hm : m ≤ r₂) : Settles form m := ih m (by omega)
        split
        · rename_i c d hcd
          obtain ⟨hc, hd⟩ := isCombination_arguments hlhs hcd
          refine isSettled_twice ih₂ (.binary hinner hc hrhs) (.binary hinner hd hrhs) ?_
          exact fun k l hk hl hleft => Or.inl ⟨_, rfl, .binary houter hk hl, hleft⟩
        · split
          · rename_i c d hcd
            obtain ⟨hc, hd⟩ := isCombination_arguments hrhs hcd
            refine isSettled_twice ih₂ (.binary hinner hlhs hc) (.binary hinner hlhs hd) ?_
            exact fun k l hk hl hleft => Or.inl ⟨_, rfl, .binary houter hk hl, hleft⟩
          · exact Or.inl ⟨_, rfl, .binary hinner hlhs hrhs, hleft⟩
      · rename_i hnone
        split
        · rename_i a b hab
          obtain ⟨ha, hb⟩ := isCombination_arguments hf hab
          refine isSettled_twice ih' ha hb ?_
          exact fun k l hk hl hleft => Or.inl ⟨_, rfl, .binary houter hk hl, hleft⟩
        -- with neither connective on top it is a literal, and the assertion about it holds
        · rename_i hnone'
          rw [if_pos (isLiteral_of_arguments? hf hnone hnone')]
          exact Or.inl ⟨_, rfl, hf, Nat.succ_pos units⟩

/-! ### Enough units -/

/-- There is the formula as a result, and as many units are consumed as there are calls. -/
def Yields {bound : Nat} (outcome : Except Obstacle (Distributed bound)) (g : Formula) (n : Nat) :
    Prop :=
  ∃ r, outcome = .ok r ∧ r.formula = g ∧ r.left + n = bound

/-- With more units than calls, the distribution gives the formula. -/
def Succeeds (form : NormalForm) (f g : Formula) (n : Nat) : Prop :=
  ∀ units, n < units → Yields (form.distributeWithin f units) g n

/-- Two distributions succeed one after the other if there are more units than calls for both of
them, and what follows has both formulas and the units that are left. -/
theorem yields_twice {a b k l g : Formula} {n₁ n₂ n units bound : Nat}
    (ha : Succeeds form a k n₁) (hb : Succeeds form b l n₂) (hunits : n₁ + n₂ < units)
    {next : (p : Distributed units) → Distributed p.left → Except Obstacle (Distributed bound)}
    (h : ∀ p q, p.formula = k → q.formula = l → q.left + n₂ + n₁ = units →
      Yields (next p q) g n) :
    Yields (form.distributeWithin a units >>= fun p =>
      form.distributeWithin b p.left >>= fun q => next p q) g n := by
  obtain ⟨p, hp, hpk, e₁⟩ := ha units (by omega)
  obtain ⟨q, hq, hql, e₂⟩ := hb p.left (by omega)
  rw [hp, ok_bind, hq, ok_bind]
  exact h p q hpk hql (by omega)

/-- **With more units than calls, every distribution succeeds.** -/
theorem Distributes.succeeds {f g : Formula} {n : Nat} (h : Distributes form f g n) :
    Succeeds form f g n := by
  have hself (op : Connective) (a b : Formula) : (binary op a b).arguments? op = some (a, b) :=
    arguments?_eq_some.2 rfl
  intro units hn
  -- later calls have the units that the earlier ones have left, so this is for any number of units;
  -- there are at least two of them for every call, as the last one pays for no result
  induction h generalizing units with
  | @literal f hf =>
    obtain ⟨u, rfl⟩ : ∃ u, units = u + 2 := ⟨units - 2, by omega⟩
    refine ⟨⟨f, u + 1, by omega⟩, ?_, rfl, rfl⟩
    rw [distributeWithin]
    simp only [arguments?_of_isLiteral hf, if_pos hf]
    rfl
  | @outer a b _ _ _ _ _ _ iha ihb =>
    obtain ⟨u, rfl⟩ : ∃ u, units = u + 2 := ⟨units - 2, by omega⟩
    have hnone : (binary form.outer a b).arguments? form.inner = none := by
      simp [arguments?, outer_ne_inner]
    rw [distributeWithin]
    simp only [hnone, hself]
    refine yields_twice iha ihb (by omega) ?_
    rintro ⟨_, r₁, h₁⟩ ⟨_, r₂, h₂⟩ rfl rfl e
    exact ⟨_, rfl, rfl, by simp only at e ⊢; omega⟩
  | left _ _ _ _ iha ihb ihk ihl =>
    obtain ⟨u, rfl⟩ : ∃ u, units = u + 2 := ⟨units - 2, by omega⟩
    rw [distributeWithin]
    simp only [hself]
    refine yields_twice iha ihb (by omega) ?_
    rintro ⟨_, r₁, h₁⟩ ⟨_, r₂, h₂⟩ rfl rfl e
    simp only [hself] at e h₂ ⊢
    refine yields_twice ihk ihl (by omega) ?_
    rintro ⟨_, r₃, h₃⟩ ⟨_, r₄, h₄⟩ rfl rfl e'
    exact ⟨_, rfl, rfl, by simp only at e' ⊢; omega⟩
  | right _ hlhs _ _ _ iha ihb ihk ihl =>
    obtain ⟨u, rfl⟩ : ∃ u, units = u + 2 := ⟨units - 2, by omega⟩
    rw [distributeWithin]
    simp only [hself]
    refine yields_twice iha ihb (by omega) ?_
    rintro ⟨_, r₁, h₁⟩ ⟨_, r₂, h₂⟩ rfl rfl e
    simp only at hlhs e h₂
    simp only [hlhs, hself]
    refine yields_twice ihk ihl (by omega) ?_
    rintro ⟨_, r₃, h₃⟩ ⟨_, r₄, h₄⟩ rfl rfl e'
    exact ⟨_, rfl, rfl, by simp only at e' ⊢; omega⟩
  | inner _ hlhs _ hrhs iha ihb =>
    obtain ⟨u, rfl⟩ : ∃ u, units = u + 2 := ⟨units - 2, by omega⟩
    rw [distributeWithin]
    simp only [hself]
    refine yields_twice iha ihb (by omega) ?_
    rintro ⟨_, r₁, h₁⟩ ⟨_, r₂, h₂⟩ rfl rfl e
    simp only at hlhs hrhs e
    simp only [hlhs, hrhs]
    exact ⟨_, rfl, rfl, by simp only; omega⟩

/-- **Distributing is determined by the formula**, in what comes out and in how many calls it takes.
-/
theorem Distributes.unique {f g g' : Formula} {n n' : Nat} (h : Distributes form f g n)
    (h' : Distributes form f g' n') : g' = g ∧ n' = n := by
  -- with units for both, there is one outcome only
  obtain ⟨r, hr, hg, e⟩ := h.succeeds (n + n' + 1) (by omega)
  obtain ⟨r', hr', hg', e'⟩ := h'.succeeds (n + n' + 1) (by omega)
  obtain rfl : r = r' := by simpa [hr] using hr'
  exact ⟨hg'.symm.trans hg, by omega⟩

/-- With no more units than calls, all units are used up. -/
theorem Distributes.exhausts {f g : Formula} {n units : Nat} (h : Distributes form f g n)
    (hf : f.IsCombination) (hunits : units ≤ n) :
    form.distributeWithin f units = .error .exhausted := by
  rcases settles units hf with ⟨r, hr, -, hleft⟩ | hexhausted
  · obtain ⟨n', h', e, -⟩ := distributes_of_distributeWithin _ hr
    have hcalls : n' = n := (h.unique h').2
    omega
  · exact hexhausted

/-! ### Every combination has a number of calls -/

/-- A normal form is distributed to itself, with one call for each of its parts. -/
theorem distributes_self {f : Formula} (h : form.IsNormal f) : Distributes form f f f.size := by
  induction h with
  | literal h =>
    rw [size_of_isLiteral h]
    exact .literal h
  | outer _ _ ihf ihg => exact .outer ihf ihg
  | inner _ hfree _ hfree' ihf ihg => exact .inner ihf hfree ihg hfree'

/-- The inner connective of two formulas can be distributed if they can, and the left one comes out
in one piece. -/
theorem exists_distributes_right {a b lhs rhs : Formula} {n₁ n₂ : Nat}
    (ha : Distributes form a lhs n₁) (hlhs : lhs.arguments? form.outer = none)
    (hb : Distributes form b rhs n₂) : ∃ g n, Distributes form (binary form.inner a b) g n := by
  induction rhs generalizing a b n₁ n₂ with
  | binary op c d ihc ihd =>
    by_cases houter : op = form.outer
    -- the left result is distributed once more with each part of the right one, and as a normal
    -- form it comes out of that unchanged
    · subst houter
      have hself := distributes_self ha.isNormal
      have hparts := hb.isNormal.arguments
      obtain ⟨k, n₃, hk⟩ := ihc hself (distributes_self hparts.1)
      obtain ⟨l, n₄, hl⟩ := ihd hself (distributes_self hparts.2)
      exact ⟨_, _, .right ha hlhs hb hk hl⟩
    · exact ⟨_, _, .inner ha hlhs hb (by simp [arguments?, houter])⟩
  | pred | eq | not | quant => exact ⟨_, _, .inner ha hlhs hb rfl⟩

/-- The inner connective of two formulas can be distributed if they can. -/
theorem exists_distributes_inner {a b lhs rhs : Formula} {n₁ n₂ : Nat}
    (ha : Distributes form a lhs n₁) (hb : Distributes form b rhs n₂) :
    ∃ g n, Distributes form (binary form.inner a b) g n := by
  induction lhs generalizing a b n₁ n₂ with
  | binary op c d ihc ihd =>
    by_cases houter : op = form.outer
    -- here it is the right result that is distributed once more
    · subst houter
      have hself := distributes_self hb.isNormal
      have hparts := ha.isNormal.arguments
      obtain ⟨k, n₃, hk⟩ := ihc (distributes_self hparts.1) hself
      obtain ⟨l, n₄, hl⟩ := ihd (distributes_self hparts.2) hself
      exact ⟨_, _, .left ha hb hk hl⟩
    · exact exists_distributes_right ha (by simp [arguments?, houter]) hb
  | pred | eq | not | quant => exact exists_distributes_right ha rfl hb

/-- **The distribution of every combination of literals comes to an end.** -/
theorem exists_distributes (form : NormalForm) {f : Formula} (h : f.IsCombination) :
    ∃ g n, Distributes form f g n := by
  induction h with
  | literal h => exact ⟨_, _, .literal h⟩
  | @binary op f g hop _ _ ihf ihg =>
    obtain ⟨k, n₁, hk⟩ := ihf
    obtain ⟨l, n₂, hl⟩ := ihg
    have hform : op = form.outer ∨ op = form.inner := by
      rcases hop with rfl | rfl <;> cases form <;> decide
    rcases hform with rfl | rfl
    · exact ⟨_, _, .outer hk hl⟩
    · exact exists_distributes_inner hk hl

/-! ### Fitting -/

/-- With a limit above the number of calls, the normal form has the distributed matrix, and the
difference is left of the budget. -/
theorem ofPrenex_of_lt {f g : Formula} {n : Nat} (h : Distributes form (f.matrix.nnf false) g n)
    {budget : Budget} (hlimit : n < budget.limit) :
    form.ofPrenex f budget
      = (.ok (g.quantify f.leading), { budget with remaining := budget.limit - n }) := by
  obtain ⟨r, hr, rfl, e⟩ := h.succeeds budget.limit hlimit
  have hleft : (r.left : Int) = budget.limit - n := by omega
  rw [ofPrenex, distribute, hr, ← hleft]
  rfl

/-- With any other limit, the budget is exceeded and used up. -/
theorem ofPrenex_of_le {f g : Formula} {n : Nat} (h : Distributes form (f.matrix.nnf false) g n)
    (hf : f.matrix.isQuantifierFree = true) {budget : Budget} (hlimit : budget.limit ≤ n) :
    form.ofPrenex f budget
      = (.error (.exceeded ⟨form.label, budget.limit⟩), { budget with remaining := 0 }) := by
  have hcombination := IsCombination.nnf_of_isQuantifierFree hf false
  rw [ofPrenex, distribute, h.exhausts hcombination hlimit]
  rfl

/-- The distribution of the matrix of a prenex formula, in negation normal form, takes fewer calls
than the limit has units. -/
def Fits (form : NormalForm) (f : Formula) (limit : Nat) : Prop :=
  ∃ g n, Distributes form (f.matrix.nnf false) g n ∧ n < limit

/-- If the distribution fits, there is a normal form. -/
theorem exists_ofPrenex {f : Formula} (budget : Budget) (h : form.Fits f budget.limit) :
    ∃ g, (form.ofPrenex f budget).1 = .ok g := by
  obtain ⟨g, n, hdistributes, hn⟩ := h
  exact ⟨g.quantify f.leading, by rw [ofPrenex_of_lt hdistributes hn]⟩

/-- A distribution that does not fit comes to an end all the same, with at least as many calls as
the limit has units. -/
theorem not_fits_iff {f : Formula} {limit : Nat} (hf : f.matrix.isQuantifierFree = true) :
    ¬ form.Fits f limit ↔ ∃ g n, Distributes form (f.matrix.nnf false) g n ∧ limit ≤ n := by
  constructor
  · intro h
    obtain ⟨g, n, hdistributes⟩ :=
      exists_distributes form (IsCombination.nnf_of_isQuantifierFree hf false)
    exact ⟨g, n, hdistributes, Nat.le_of_not_lt fun hn => h ⟨g, n, hdistributes, hn⟩⟩
  · rintro ⟨g, n, hdistributes, hn⟩ ⟨g', n', hdistributes', hn'⟩
    have hcalls : n' = n := (hdistributes.unique hdistributes').2
    omega

/-- If the distribution does not fit, the budget is exceeded. -/
theorem ofPrenex_eq_exceeded {f : Formula} (budget : Budget)
    (hf : f.matrix.isQuantifierFree = true) (h : ¬ form.Fits f budget.limit) :
    (form.ofPrenex f budget).1 = .error (.exceeded ⟨form.label, budget.limit⟩) := by
  obtain ⟨g, n, hdistributes, hn⟩ := (not_fits_iff hf).1 h
  rw [ofPrenex_of_le hdistributes hf hn]

end LogicForms.NormalForm
