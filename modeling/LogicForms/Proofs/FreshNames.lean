import LogicForms.NameSupply

/-!
# Fresh names are fresh

The candidates for a new name differ from each other, so among one candidate more than there are
used names there is an unused one (`NameSupply.candidate_firstUnused_not_mem`). A new variable and a
new Skolem symbol are therefore not among the names in use before (`freshVariable_not_mem`,
`freshSkolem_not_mem`), whatever names these are. Afterwards they are, and no name is forgotten.
-/

set_option autoImplicit false

namespace LogicForms.NameSupply

/-! ### The search -/

variable (used : List String) (candidate : Nat → String)

/-- Every candidate that the search passes over is in use. -/
theorem mem_used_of_lt_firstUnused {attempts index i : Nat} (hi : index ≤ i)
    (h : i < firstUnused used candidate attempts index) : candidate i ∈ used := by
  induction attempts generalizing index with
  | zero =>
    rw [firstUnused] at h
    omega
  | succ attempts ih =>
    rw [firstUnused] at h
    split at h
    · rename_i hused
      by_cases hindex : index = i
      · subst hindex
        simpa using hused
      · exact ih (by omega) h
    · omega

/-- The search ends at an unused candidate, or behind the last attempt. -/
theorem not_mem_or_firstUnused_eq (attempts index : Nat) :
    candidate (firstUnused used candidate attempts index) ∉ used ∨
      firstUnused used candidate attempts index = index + attempts := by
  induction attempts generalizing index with
  | zero => exact Or.inr rfl
  | succ attempts ih =>
    rw [firstUnused]
    split
    · refine (ih (index + 1)).imp_right fun h => ?_
      omega
    · rename_i hused
      exact Or.inl (by simpa using hused)

/-- There are no more used candidates in a row than there are used names. -/
theorem count_le_length (hinj : ∀ i j, candidate i = candidate j → i = j) {index count : Nat}
    (h : ∀ i, index ≤ i → i < index + count → candidate i ∈ used) : count ≤ used.length := by
  have hsub : (List.range' index count).map candidate ⊆ used := by
    intro name hname
    obtain ⟨i, hi, rfl⟩ := List.mem_map.1 hname
    rw [List.mem_range'_1] at hi
    exact h i hi.1 hi.2
  have hnodup : ((List.range' index count).map candidate).Nodup := by
    have hrange : (List.range' index count).Nodup := List.nodup_range' 1
    exact List.pairwise_map.2 (hrange.imp fun hij h => hij (hinj _ _ h))
  have hlength := hnodup.length_le_of_subset hsub
  rwa [List.length_map, List.length_range'] at hlength

/-- With as many attempts as there are used names, the search ends at an unused candidate. -/
theorem candidate_firstUnused_not_mem (hinj : ∀ i j, candidate i = candidate j → i = j)
    (index : Nat) : candidate (firstUnused used candidate used.length index) ∉ used := by
  intro hmem
  have hend : firstUnused used candidate used.length index = index + used.length :=
    (not_mem_or_firstUnused_eq used candidate used.length index).resolve_left (fun h => h hmem)
  -- otherwise all attempts and the last candidate are used names, and too many in a row
  have hall : ∀ i, index ≤ i → i < index + (used.length + 1) → candidate i ∈ used := by
    intro i hi hlt
    by_cases hlast : i = index + used.length
    · rw [hlast, ← hend]
      exact hmem
    · have hbefore : i < firstUnused used candidate used.length index := by omega
      exact mem_used_of_lt_firstUnused used candidate hi hbefore
  have hle := count_le_length used candidate hinj hall
  omega

/-! ### Candidates -/

/-- Different numbers have different numerals. -/
theorem toString_inj {i j : Nat} (h : toString i = toString j) : i = j := by
  have hdigits : Nat.toDigits 10 i = Nat.toDigits 10 j := by
    simpa only [Nat.toString_eq_repr, Nat.toList_repr] using congrArg String.toList h
  rw [← Nat.ofDigitChars_ten_toDigits (n := i), hdigits, Nat.ofDigitChars_ten_toDigits]

theorem variableCandidate_inj (base : String) (i j : Nat)
    (h : variableCandidate base i = variableCandidate base j) : i = j := by
  rw [variableCandidate, variableCandidate, String.append_right_inj] at h
  exact toString_inj h

theorem skolemCandidate_inj (s : NameSupply) (i j : Nat)
    (h : s.skolemCandidate i = s.skolemCandidate j) : i = j := by
  rw [skolemCandidate, skolemCandidate, String.append_right_inj] at h
  exact toString_inj h

/-! ### New names -/

/-- A new variable is not in use. -/
theorem freshVariable_not_mem (s : NameSupply) (base : String) :
    (s.freshVariable base).1 ∉ s.used :=
  candidate_firstUnused_not_mem s.used _ (variableCandidate_inj base) _

/-- A new Skolem symbol is not in use. -/
theorem freshSkolem_not_mem (s : NameSupply) : s.freshSkolem.1 ∉ s.used :=
  candidate_firstUnused_not_mem s.used _ (skolemCandidate_inj s) _

@[simp] theorem freshVariable_used (s : NameSupply) (base : String) :
    (s.freshVariable base).2.used = (s.freshVariable base).1 :: s.used := rfl

@[simp] theorem freshSkolem_used (s : NameSupply) :
    s.freshSkolem.2.used = s.freshSkolem.1 :: s.used := rfl

end LogicForms.NameSupply
