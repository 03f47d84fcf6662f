/-! Actions on a machine. An action answers or fails, and either way it leaves a machine: what was done
before a failure stays done. -/

namespace Chip8

def Action (μ ε α : Type) : Type := μ → Except ε α × μ

namespace Action

variable {μ ε α β : Type}

instance : Monad (Action μ ε) where
  pure a m := (.ok a, m)
  bind x f m :=
    match x m with
    | (.ok a, m) => f a m
    | (.error e, m) => (.error e, m)

def fail (e : ε) : Action μ ε α := fun m => (.error e, m)

def get : Action μ ε μ := fun m => (.ok m, m)

def modify (f : μ → μ) : Action μ ε Unit := fun m => (.ok (), f m)

def each (f : β → Action μ ε Unit) : List β → Action μ ε Unit
  | [] => pure ()
  | b :: bs => do
    f b
    each f bs

@[simp] theorem pure_apply (a : α) (m : μ) : (pure a : Action μ ε α) m = (.ok a, m) := rfl

theorem bind_apply (x : Action μ ε α) (f : α → Action μ ε β) (m : μ) :
    (x >>= f) m =
      match x m with
      | (.ok a, m) => f a m
      | (.error e, m) => (.error e, m) := rfl

@[simp] theorem fail_apply (e : ε) (m : μ) : (fail e : Action μ ε α) m = (.error e, m) := rfl

@[simp] theorem get_apply (m : μ) : (get : Action μ ε μ) m = (.ok m, m) := rfl

@[simp] theorem modify_apply (f : μ → μ) (m : μ) : (modify f : Action μ ε Unit) m = (.ok (), f m) := rfl

theorem bind_ok {x : Action μ ε α} {f : α → Action μ ε β} {m m' : μ} {a : α}
    (h : x m = (.ok a, m')) : (x >>= f) m = f a m' := by
  rw [bind_apply, h]

theorem bind_error {x : Action μ ε α} {f : α → Action μ ε β} {m m' : μ} {e : ε}
    (h : x m = (.error e, m')) : (x >>= f) m = (.error e, m') := by
  rw [bind_apply, h]

theorem bind_eq_ok {x : Action μ ε α} {f : α → Action μ ε β} {m m' : μ} {b : β}
    (h : (x >>= f) m = (.ok b, m')) : ∃ a m₁, x m = (.ok a, m₁) ∧ f a m₁ = (.ok b, m') := by
  rw [bind_apply] at h
  rcases first : x m with ⟨why | a, m₁⟩
  · rw [first] at h
    cases h
  · rw [first] at h
    exact ⟨a, m₁, rfl, h⟩

/-- What every step of an action keeps, the whole action keeps. -/
theorem bind_invariant {P : μ → Prop} {x : Action μ ε α} {f : α → Action μ ε β}
    (hx : ∀ m, P m → P (x m).2) (hf : ∀ a m, P m → P (f a m).2) (m : μ) (h : P m) :
    P ((x >>= f) m).2 := by
  rw [bind_apply]
  have kept := hx m h
  match e : x m with
  | (.ok a, m') => exact hf a m' (by rw [e] at kept; exact kept)
  | (.error e', m') => rw [e] at kept; exact kept

end Action

end Chip8
