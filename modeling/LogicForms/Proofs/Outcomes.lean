/-!
# Outcomes of steps

When steps that can fail are carried out one after the other, all of them succeed if the last one
gives a value.
-/

set_option autoImplicit false

namespace LogicForms

variable {ε ε' α β : Type}

/-- After a success, the next step goes on with its value. -/
theorem ok_bind (a : α) (f : α → Except ε β) : (.ok a : Except ε α) >>= f = f a := rfl

/-- Two steps one after the other succeed if the first one does and the second one does with its
value. -/
theorem bind_eq_ok {m : Except ε α} {f : α → Except ε β} {b : β} :
    m >>= f = .ok b ↔ ∃ a, m = .ok a ∧ f a = .ok b := by
  cases m <;> simp [bind, Except.bind]

/-- Two steps one after the other fail if the first one does, or the second one does with its value.
-/
theorem bind_eq_error {m : Except ε α} {f : α → Except ε β} {e : ε} :
    m >>= f = .error e ↔ m = .error e ∨ ∃ a, m = .ok a ∧ f a = .error e := by
  cases m <;> simp [bind, Except.bind]

/-- A result that is converted comes from a result. -/
theorem map_eq_ok {f : α → β} {m : Except ε α} {b : β} :
    m.map f = .ok b ↔ ∃ a, m = .ok a ∧ f a = b := by
  cases m <;> simp [Except.map]

/-- A failure stays when results are converted. -/
theorem map_eq_error {f : α → β} {m : Except ε α} {e : ε} :
    m.map f = .error e ↔ m = .error e := by
  cases m <;> simp [Except.map]

/-- If every step gives a value that looks like what it started from, so does a list of steps. -/
theorem map_of_mapM_eq_ok {γ : Type} {f : α → Except ε β} {g : β → γ} {g' : α → γ}
    (hf : ∀ a b, f a = .ok b → g b = g' a) {l : List α} {bs : List β} (h : l.mapM f = .ok bs) :
    bs.map g = l.map g' := by
  induction l generalizing bs with
  | nil =>
    cases h
    rfl
  | cons a l ih =>
    rw [List.mapM_cons] at h
    obtain ⟨b, hb, h⟩ := bind_eq_ok.1 h
    obtain ⟨bs', hbs, h⟩ := bind_eq_ok.1 h
    cases h
    rw [List.map_cons, List.map_cons, hf a b hb, ih hbs]

/-- A failure that is wrapped is still no success. -/
theorem mapError_eq_ok {wrap : ε → ε'} {m : Except ε α} {a : α} :
    m.mapError wrap = .ok a ↔ m = .ok a := by
  cases m with
  | error e =>
    constructor
    · intro h
      cases h
    · intro h
      cases h
  | ok b =>
    constructor
    · intro h
      cases h
      rfl
    · intro h
      cases h
      rfl

/-- A success is not wrapped. -/
theorem mapError_ok (wrap : ε → ε') (a : α) :
    (.ok a : Except ε α).mapError wrap = .ok a := rfl

/-- A failure that is wrapped comes from a failure. -/
theorem mapError_eq_error {wrap : ε → ε'} {m : Except ε α} {e : ε'} :
    m.mapError wrap = .error e ↔ ∃ e', m = .error e' ∧ wrap e' = e := by
  cases m with
  | error e' =>
    constructor
    · intro h
      cases h
      exact ⟨e', rfl, rfl⟩
    · rintro ⟨e'', h, rfl⟩
      cases h
      rfl
  | ok a =>
    constructor
    · intro h
      cases h
    · rintro ⟨e'', h, -⟩
      cases h

end LogicForms
