import LogicForms.Proofs.FreshNames
import Mathlib.Data.Finset.Card
import Mathlib.Order.Bounds.Defs

/-!
# The search for a fresh name

A new name is found by trying numbered candidates one after the other. `Tries` is this search
without a bound on its length. `NameSupply.firstUnused` makes as many attempts as there are used
names, and one more for the last candidate. It gives what the search without a bound finds
(`findsLeast_firstUnused`), which ends because different numbers have different candidates.

The main result `fresh_names_least` says this of new variables and of new Skolem symbols: the name
has the least number behind the counter whose candidate is unused, this number is the new counter,
and nothing else changes but that the name is in use.
-/

set_option autoImplicit false

namespace LogicForms.NameSupply

/-! ### The search without a bound -/

/-- From the number `index` on, one candidate after the other is tried, until one is not in use.
These are `count` candidates, and the last one has the number `found`. -/
inductive Tries (used : List String) (candidate : Nat → String) :
    (index count found : Nat) → Prop where
  /-- The first candidate is unused. -/
  | stop {index : Nat} : candidate index ∉ used → Tries used candidate index 1 index
  /-- The first candidate is in use, and the search goes on with the next one. -/
  | next {index count found : Nat} : candidate index ∈ used →
      Tries used candidate (index + 1) count found → Tries used candidate index (count + 1) found

section

variable {used : List String} {candidate : Nat → String} {index count found : Nat}

/-- The search ends at the first unused candidate, having tried all numbers up to it. -/
theorem tries_iff : Tries used candidate index count found ↔
    index ≤ found ∧ index + count = found + 1 ∧ candidate found ∉ used ∧
      ∀ i, index ≤ i → i < found → candidate i ∈ used := by
  constructor
  · intro h
    induction h with
    | stop hunused => exact ⟨Nat.le_refl _, rfl, hunused, fun i hle hlt => by omega⟩
    | @next index count found hused _ ih =>
      obtain ⟨hle, hcount, hunused, hpassed⟩ := ih
      refine ⟨by omega, by omega, hunused, ?_⟩
      intro i hi hlt
      by_cases hfirst : i = index
      · exact hfirst ▸ hused
      · exact hpassed i (by omega) hlt
  · intro h
    obtain ⟨hle, hcount, hunused, hpassed⟩ := h
    induction count generalizing index with
    | zero => omega
    | succ count ih =>
      by_cases hlast : index = found
      · obtain rfl : count = 0 := by omega
        exact hlast ▸ .stop (hlast ▸ hunused)
      · apply Tries.next
        · exact hpassed index (Nat.le_refl index) (by omega)
        · exact ih (by omega) (by omega) fun i hi => hpassed i (by omega)

/-- The candidates before the last one are in use, so there are no more of them than used names. -/
theorem Tries.count_le (hinj : ∀ i j, candidate i = candidate j → i = j)
    (h : Tries used candidate index count found) : count ≤ used.toFinset.card + 1 := by
  obtain ⟨-, hcount, -, hpassed⟩ := tries_iff.1 h
  have hused : ∀ i, index ≤ i → i < index + (found - index) → candidate i ∈ used.dedup := by
    intro i hi hlt
    exact List.mem_dedup.2 (hpassed i hi (by omega))
  -- each name counts once, also if it is in the list several times
  have hle := count_le_length used.dedup candidate hinj hused
  rw [← List.card_toFinset] at hle
  omega

/-- The candidate at which the search ends has the least number of all unused ones. -/
theorem Tries.isLeast {counter : Nat} (h : Tries used candidate (counter + 1) count found) :
    IsLeast {i | counter < i ∧ candidate i ∉ used} found := by
  obtain ⟨hle, -, hunused, hpassed⟩ := tries_iff.1 h
  refine ⟨⟨hle, hunused⟩, ?_⟩
  intro i hi
  by_contra hlt
  exact hi.2 (hpassed i hi.1 (Nat.lt_of_not_le hlt))

end

/-! ### The search with a bound -/

/-- Behind the counter, `found` is the least number with an unused candidate, and the search without
a bound ends there after at most one candidate more than there are used names. -/
structure FindsLeast (used : List String) (candidate : Nat → String) (counter found : Nat) :
    Prop where
  least : IsLeast {i | counter < i ∧ candidate i ∉ used} found
  tries : ∃ count, Tries used candidate (counter + 1) count found ∧
    count ≤ used.toFinset.card + 1

/-- As many attempts as there are used names are enough for what the search without a bound
finds. -/
theorem findsLeast_firstUnused (used : List String) {candidate : Nat → String}
    (hinj : ∀ i j, candidate i = candidate j → i = j) (counter : Nat) :
    FindsLeast used candidate counter
      (firstUnused used candidate used.length (counter + 1)) := by
  have hle := le_firstUnused used candidate used.length (counter + 1)
  obtain ⟨count, hcount⟩ := Nat.exists_eq_add_of_le (Nat.le_succ_of_le hle)
  have htries : Tries used candidate (counter + 1) count
      (firstUnused used candidate used.length (counter + 1)) := by
    apply tries_iff.2
    refine ⟨hle, hcount.symm, candidate_firstUnused_not_mem used candidate hinj _, ?_⟩
    intro i hi hlt
    exact mem_used_of_lt_firstUnused used candidate hi hlt
  exact ⟨htries.isLeast, count, htries, htries.count_le hinj⟩

/-! ### New names -/

/-- **A new name is the first unused candidate.** Behind the counter of its kind, the search ends at
the least number whose candidate is not in use, after at most one candidate more than there are used
names. This number becomes the counter, the candidate comes to the used names, and the other counter
and the beginning of Skolem symbols stay as they are. -/
theorem fresh_names_least (s : NameSupply) (base : String) :
    (∃ found, FindsLeast s.used (variableCandidate base) s.variableCounter found ∧
      s.freshVariable base = (variableCandidate base found,
        { s with used := variableCandidate base found :: s.used, variableCounter := found })) ∧
    (∃ found, FindsLeast s.used s.skolemCandidate s.skolemCounter found ∧
      s.freshSkolem = (s.skolemCandidate found,
        { s with used := s.skolemCandidate found :: s.used, skolemCounter := found })) := by
  constructor
  · exact ⟨_, findsLeast_firstUnused s.used (variableCandidate_inj base) s.variableCounter, rfl⟩
  · exact ⟨_, findsLeast_firstUnused s.used (skolemCandidate_inj s) s.skolemCounter, rfl⟩

/-- The first two candidates are in use, and numerals run together with the beginning. -/
example : (NameSupply.freshSkolem ⟨"SK1", ["SK11", "x", "SK12"], 4, 0⟩) =
    ("SK13", ⟨"SK1", ["SK13", "SK11", "x", "SK12"], 4, 3⟩) := by decide +kernel

end LogicForms.NameSupply
