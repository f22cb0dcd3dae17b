/-!
# Chains of steps that may fail

Passes and constructions are chains in `Except`: they give a value exactly if every step does. The
equations of this module take such a chain apart, one step at a time. If every fault of every step
is of some kind, so is every fault of the chain.
-/

namespace Midframe

variable {ε ε' α β : Type}

@[simp] theorem bind_eq_ok {x : Except ε α} {f : α → Except ε β} {b : β} :
    (x >>= f) = .ok b ↔ ∃ a, x = .ok a ∧ f a = .ok b := by
  cases x with
  | error e =>
    constructor
    · intro h
      cases h
    · rintro ⟨_, h, -⟩
      cases h
  | ok a =>
    constructor
    · intro h
      exact ⟨a, rfl, h⟩
    · rintro ⟨_, h, hf⟩
      cases h
      exact hf

@[simp] theorem pure_eq_ok {a b : α} : (pure a : Except ε α) = .ok b ↔ a = b := by
  constructor
  · intro h
    cases h
    rfl
  · intro h
    rw [h]
    rfl

@[simp] theorem map_eq_ok {x : Except ε α} {f : α → β} {b : β} :
    x.map f = .ok b ↔ ∃ a, x = .ok a ∧ f a = b := by
  cases x with
  | error e =>
    constructor
    · intro h
      cases h
    · rintro ⟨_, h, -⟩
      cases h
  | ok a =>
    constructor
    · intro h
      cases h
      exact ⟨a, rfl, rfl⟩
    · rintro ⟨_, h, rfl⟩
      cases h
      rfl

@[simp] theorem functor_map_eq_ok {x : Except ε α} {f : α → β} {b : β} :
    f <$> x = .ok b ↔ ∃ a, x = .ok a ∧ f a = b := map_eq_ok

@[simp] theorem mapError_eq_ok {x : Except ε α} {f : ε → ε'} {a : α} :
    x.mapError f = .ok a ↔ x = .ok a := by
  cases x with
  | error e =>
    constructor <;>
    · intro h
      cases h
  | ok b =>
    constructor <;>
    · intro h
      cases h
      rfl

theorem bind_eq_error {x : Except ε α} {f : α → Except ε β} {e : ε} :
    (x >>= f) = .error e ↔ x = .error e ∨ ∃ a, x = .ok a ∧ f a = .error e := by
  cases x with
  | error e' =>
    constructor
    · intro h
      cases h
      exact .inl rfl
    · rintro (h | ⟨_, h, -⟩)
      · cases h
        rfl
      · cases h
  | ok a =>
    constructor
    · intro h
      exact .inr ⟨a, rfl, h⟩
    · rintro (h | ⟨_, h, hf⟩)
      · cases h
      · cases h
        exact hf

theorem map_eq_error {x : Except ε α} {f : α → β} {e : ε} :
    x.map f = .error e ↔ x = .error e := by
  cases x with
  | error e' =>
    constructor <;>
    · intro h
      cases h
      rfl
  | ok a =>
    constructor <;>
    · intro h
      cases h

theorem functor_map_eq_error {x : Except ε α} {f : α → β} {e : ε} :
    f <$> x = .error e ↔ x = .error e := map_eq_error

theorem mapError_eq_error {x : Except ε α} {f : ε → ε'} {e : ε'} :
    x.mapError f = .error e ↔ ∃ e', x = .error e' ∧ f e' = e := by
  cases x with
  | error e' =>
    constructor
    · intro h
      cases h
      exact ⟨e', rfl, rfl⟩
    · rintro ⟨_, h, rfl⟩
      cases h
      rfl
  | ok a =>
    constructor
    · intro h
      cases h
    · rintro ⟨_, h, -⟩
      cases h

theorem eq_ok_of_toOption {x : Except ε α} {a : α} (h : x.toOption = some a) : x = .ok a := by
  cases x with
  | error e => cases h
  | ok b =>
    cases h
    rfl

/-- The fault, if there is one. -/
def fault? : Except ε α → Option ε
  | .error e => some e
  | .ok _ => none

theorem eq_error_of_fault? {x : Except ε α} {e : ε} (h : fault? x = some e) : x = .error e := by
  cases x with
  | error e' =>
    cases h
    rfl
  | ok a => cases h

theorem exists_eq_ok_of_isOk {x : Except ε α} (h : x.isOk = true) : ∃ a, x = .ok a := by
  cases x with
  | error e => cases h
  | ok a => exact ⟨a, rfl⟩

/-- What a value has that is there, whatever else it is. -/
theorem exists_eq_ok_of_map {x : Except ε α} {f : α → β} {b : β} (h : x.toOption.map f = some b) :
    ∃ a, x = .ok a ∧ f a = b := by
  cases x with
  | error e => cases h
  | ok a =>
    cases h
    exact ⟨a, rfl, rfl⟩

/-! ## Faults of a kind -/

/-- Every fault is of the given kind. -/
def FailsWith (P : ε → Prop) (x : Except ε α) : Prop := ∀ e, x = .error e → P e

namespace FailsWith

variable {P : ε → Prop}

theorem ok (a : α) : FailsWith P (.ok a : Except ε α) := by
  intro e h
  cases h

theorem error {e : ε} (h : P e) : FailsWith P (.error e : Except ε α) := by
  intro e' h'
  cases h'
  exact h

/-- Only the values that come out of the first step matter to the second one. -/
theorem bind_of_ok {x : Except ε α} {f : α → Except ε β} (hx : FailsWith P x)
    (hf : ∀ a, x = .ok a → FailsWith P (f a)) : FailsWith P (x >>= f) := by
  intro e h
  rcases bind_eq_error.mp h with h | ⟨a, ha, h⟩
  · exact hx e h
  · exact hf a ha e h

theorem bind {x : Except ε α} {f : α → Except ε β} (hx : FailsWith P x)
    (hf : ∀ a, FailsWith P (f a)) : FailsWith P (x >>= f) := hx.bind_of_ok fun a _ => hf a

theorem mono {Q : ε → Prop} {x : Except ε α} (hx : FailsWith P x) (h : ∀ e, P e → Q e) :
    FailsWith Q x := fun e he => h e (hx e he)

theorem map {x : Except ε α} (f : α → β) (hx : FailsWith P x) : FailsWith P (x.map f) := by
  intro e h
  exact hx e (map_eq_error.mp h)

theorem mapError {Q : ε' → Prop} {f : ε → ε'} (hf : ∀ e, Q (f e)) (x : Except ε α) :
    FailsWith Q (x.mapError f) := by
  intro e h
  obtain ⟨e', -, rfl⟩ := mapError_eq_error.mp h
  exact hf e'

theorem foldlM {f : β → α → Except ε β} (hf : ∀ b a, FailsWith P (f b a)) (l : List α) (b : β) :
    FailsWith P (l.foldlM f b) := by
  induction l generalizing b with
  | nil => exact ok b
  | cons a l ih =>
    rw [List.foldlM_cons]
    exact bind (hf b a) ih

end FailsWith

/-! ## Outcomes that correspond -/

/-- Both chains give a value, and the values are related, or both fail. -/
inductive Corresponds (R : α → β → Prop) : Except ε α → Except ε β → Prop
  /-- Both give a value. -/
  | ok {a : α} {b : β} (h : R a b) : Corresponds R (.ok a) (.ok b)
  /-- Both fail. -/
  | error (e e' : ε) : Corresponds R (.error e) (.error e')

namespace Corresponds

variable {α' β' : Type} {R : α → α' → Prop} {S : β → β' → Prop}

theorem bind {x : Except ε α} {y : Except ε α'} {f : α → Except ε β} {g : α' → Except ε β'}
    (hxy : Corresponds R x y) (hfg : ∀ a a', R a a' → Corresponds S (f a) (g a')) :
    Corresponds S (x >>= f) (y >>= g) := by
  cases hxy with
  | ok h => exact hfg _ _ h
  | error e e' => exact .error e e'

theorem map {x : Except ε α} {y : Except ε α'} {f : α → β} {g : α' → β'}
    (hxy : Corresponds R x y) (hfg : ∀ a a', R a a' → S (f a) (g a')) :
    Corresponds S (x.map f) (y.map g) := by
  cases hxy with
  | ok h => exact .ok (hfg _ _ h)
  | error e e' => exact .error e e'

theorem mapError {x : Except ε α} {y : Except ε α'} (hxy : Corresponds R x y) (f g : ε → ε') :
    Corresponds R (x.mapError f) (y.mapError g) := by
  cases hxy with
  | ok h => exact .ok h
  | error e e' => exact .error (f e) (g e')

theorem foldlM {f : α → β → Except ε α} {g : α' → β → Except ε α'}
    (hfg : ∀ a a' b, R a a' → Corresponds R (f a b) (g a' b)) (l : List β) {a : α} {a' : α'}
    (h : R a a') : Corresponds R (l.foldlM f a) (l.foldlM g a') := by
  induction l generalizing a a' with
  | nil => exact .ok h
  | cons b l ih =>
    rw [List.foldlM_cons, List.foldlM_cons]
    exact (hfg a a' b h).bind fun _ _ => ih

/-- A value on one side comes with a related one on the other. -/
theorem exists_of_ok {a : α} {y : Except ε α'} (h : Corresponds R (.ok a) y) :
    ∃ a', y = .ok a' ∧ R a a' := by
  cases h with
  | ok h => exact ⟨_, rfl, h⟩

theorem exists_of_error {e : ε} {y : Except ε α'} (h : Corresponds R (.error e) y) :
    ∃ e', y = .error e' := by
  cases h with
  | error _ e' => exact ⟨e', rfl⟩

theorem exists_of_ok_right {x : Except ε α} {a' : α'} (h : Corresponds R x (.ok a')) :
    ∃ a, x = .ok a ∧ R a a' := by
  cases h with
  | ok h => exact ⟨_, rfl, h⟩

end Corresponds

end Midframe
