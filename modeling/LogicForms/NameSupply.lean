import LogicForms.Text.Join

/-!
# Fresh names

A name supply records the names in use and hands out new ones: variables `x_1`, `x_2`, … made from
a variable `x`, and Skolem symbols `SK1`, `SK2`, … made from a fixed beginning. Each of the two
kinds has a counter, and candidates that are in use are left out. Both kinds share one set of used
names, so a new name never coincides with a name of either kind.

`firstUnused` looks at one candidate more than there are used names. As the candidates differ from
each other, one of them is unused.
-/

set_option autoImplicit false

namespace LogicForms

/-- The names in use, with the two counters. -/
structure NameSupply where
  /-- The beginning of every Skolem symbol. -/
  skolemPrefix : String
  /-- The names in use, each one once. -/
  used : List String
  /-- The number in the last new variable. -/
  variableCounter : Nat
  /-- The number in the last new Skolem symbol. -/
  skolemCounter : Nat
  deriving DecidableEq, Repr, Inhabited

/-- What goes wrong with a name supply: Skolem symbols need a beginning. -/
inductive NameSupplyError where
  | emptyPrefix
  deriving DecidableEq, Repr, Inhabited

/-- The message. -/
def NameSupplyError.message : NameSupplyError → String
  | .emptyPrefix => "Skolem prefix must not be empty"

namespace NameSupply

/-- The supply in which no name is in use. -/
def new (skolemPrefix : String) : NameSupply := ⟨skolemPrefix, [], 0, 0⟩

/-- The beginning of Skolem symbols that is used when none is given. -/
def standardPrefix : String := "SK"

/-- The supply that is used when none is given. -/
def standard : NameSupply := new standardPrefix

/-- The supply for a given beginning of Skolem symbols, which must not be empty. -/
def ofPrefix (skolemPrefix : String) : Except NameSupplyError NameSupply :=
  if skolemPrefix = "" then .error .emptyPrefix else .ok (new skolemPrefix)

/-- Forget all names and start both counters again. -/
def reset (s : NameSupply) : NameSupply := new s.skolemPrefix

/-- A list of names with further names, each one once. -/
def addNames (used : List String) : List String → List String
  | [] => used
  | name :: names =>
    addNames (if used.contains name then used else name :: used) names

/-- Mark names as used. -/
def declare (s : NameSupply) (names : List String) : NameSupply :=
  { s with used := addNames s.used names }

/-- The first number from `index` on whose candidate is not in use, if one of the next `attempts`
numbers is such a number, and the number behind these otherwise. -/
def firstUnused (used : List String) (candidate : Nat → String) : Nat → Nat → Nat
  | 0, index => index
  | attempts + 1, index =>
    if used.contains (candidate index) then firstUnused used candidate attempts (index + 1)
    else index

/-- The candidate with a given number for a variable made from `base`. -/
def variableCandidate (base : String) (index : Nat) : String := base ++ "_" ++ toString index

/-- The candidate with a given number for a Skolem symbol. -/
def skolemCandidate (s : NameSupply) (index : Nat) : String := s.skolemPrefix ++ toString index

/-- A new variable made from `base`, marked as used. -/
def freshVariable (s : NameSupply) (base : String) : String × NameSupply :=
  let index := firstUnused s.used (variableCandidate base) s.used.length (s.variableCounter + 1)
  let name := variableCandidate base index
  (name, { s with used := name :: s.used, variableCounter := index })

/-- A new Skolem symbol, marked as used. -/
def freshSkolem (s : NameSupply) : String × NameSupply :=
  let index := firstUnused s.used s.skolemCandidate s.used.length (s.skolemCounter + 1)
  let name := s.skolemCandidate index
  (name, { s with used := name :: s.used, skolemCounter := index })

/-- A summary of the supply: how many names are in use, and the counters. -/
def summary (s : NameSupply) : String :=
  "NameSupply(used=" ++ toString s.used.length ++ " names, variable_counter=" ++
    toString s.variableCounter ++ ", skolem_counter=" ++ toString s.skolemCounter ++ ")"

/-- The names in use in increasing order of their code points. -/
def sortedNames (s : NameSupply) : List String := s.used.mergeSort fun a b => a ≤ b

@[simp] theorem declare_skolemPrefix (s : NameSupply) (names : List String) :
    (s.declare names).skolemPrefix = s.skolemPrefix := rfl
@[simp] theorem declare_used (s : NameSupply) (names : List String) :
    (s.declare names).used = addNames s.used names := rfl

/-- Marking names as used adds exactly these names. -/
@[simp] theorem mem_addNames {used names : List String} {a : String} :
    a ∈ addNames used names ↔ a ∈ used ∨ a ∈ names := by
  induction names generalizing used with
  | nil => simp [addNames]
  | cons name names ih =>
    rw [addNames, ih]
    by_cases h : used.contains name = true
    · rw [if_pos h]
      have : name ∈ used := by simpa using h
      grind
    · rw [if_neg h]
      grind

/-- The search does not go back. -/
theorem le_firstUnused (used : List String) (candidate : Nat → String) (attempts index : Nat) :
    index ≤ firstUnused used candidate attempts index := by
  induction attempts generalizing index with
  | zero => exact Nat.le_refl _
  | succ attempts ih =>
    rw [firstUnused]
    split
    · exact Nat.le_of_succ_le (ih (index + 1))
    · exact Nat.le_refl _

end NameSupply

end LogicForms
