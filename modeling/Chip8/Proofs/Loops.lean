import Chip8.Proofs.Representation

/-! Accesses and loops on a machine that represents a reference machine. A loop over registers or sprite
rows is carried by the row of the table with the count of the passes made so far (`each_range`). -/

namespace Chip8

open Function (update)

namespace Machine

variable {π : Type} {m : Machine π} {r : Reference}

theorem getState_bind {α : Type} (f : State → Effect π α) (m : Machine π) :
    (getState >>= f) m = f m.state m := rfl

/-- A register write, a change of the screen or of nothing: memory stays. -/
theorem Represents.of_shows (h : m.Represents r) {s : State} {r' : Reference} (hs : s.Shows r')
    (same : r'.memory = r.memory) : Represents { m with state := s } r' :=
  ⟨hs, by rw [same]; exact h.bus⟩

namespace Represents

theorem readByte (h : m.Represents r) (k : Nat) :
    ∃ m' : Machine π, Core.readByte (wrap (m.state.i + k)) m = (.ok (r.byteAt k), m') ∧
      m'.Represents r ∧ m'.state = m.state := by
  have place := h.state.place k
  have read := Bus.read_ofMemory (Vector.ofFn r.memory) m.bus.log (wrap_inMemory (m.state.i + k))
  have byte : (Vector.ofFn r.memory)[r.i + Fin.ofNat 4096 k] = r.byteAt k := by
    simp [Reference.byteAt]
  simp only [place, byte, ← h.bus] at read
  rw [Core.readByte, read]
  exact ⟨_, rfl, ⟨h.state, rfl⟩, rfl⟩

theorem writeByte (h : m.Represents r) (k : Nat) {z : Int} {byte : UInt8} (hz : z = byte.toNat) :
    ∃ m' : Machine π, Core.writeByte (wrap (m.state.i + k)) z m = (.ok (), m') ∧
      m'.Represents { r with memory := update r.memory (r.i + Fin.ofNat 4096 k) byte } ∧
      m'.state = m.state := by
  have place := h.state.place k
  have write := Bus.write_ofMemory (Vector.ofFn r.memory) m.bus.log
    (wrap_inMemory (m.state.i + k)) byte hz
  simp only [place, ← h.bus, Memory.ofFn_set] at write
  rw [Core.writeByte, write]
  exact ⟨_, rfl, ⟨{ h.state with }, rfl⟩, rfl⟩

end Represents

theorem each_append {β : Type} (f : β → Effect π Unit) (xs ys : List β) (m : Machine π) :
    Action.each f (xs ++ ys) m = (Action.each f xs >>= fun _ => Action.each f ys) m := by
  induction xs generalizing m with
  | nil => rfl
  | cons x xs ih =>
    simp only [List.cons_append, Action.each, Action.bind_apply]
    match f x m with
    | (.error e, m') => rfl
    | (.ok (), m') => simpa only [Action.bind_apply] using ih m'

theorem each_map {β γ : Type} (f : β → Effect π Unit) (g : γ → β) (xs : List γ) :
    Action.each f (xs.map g) = Action.each (f ∘ g) xs := by
  induction xs with
  | nil => rfl
  | cons x xs ih => simp only [List.map_cons, Action.each, ih, Function.comp]

/-- A loop whose passes succeed, each from what the passes before it left. -/
theorem each_range {f : Nat → Effect π Unit} {P : Nat → Machine π → Prop} {n : Nat}
    (pass : ∀ k < n, ∀ m, P k m → ∃ m', f k m = (.ok (), m') ∧ P (k + 1) m') {m : Machine π}
    (start : P 0 m) : ∃ m', Action.each f (List.range n) m = (.ok (), m') ∧ P n m' := by
  induction n with
  | zero => exact ⟨m, rfl, start⟩
  | succ n ih =>
    obtain ⟨m₁, run, h₁⟩ := ih fun k hk => pass k (by omega)
    obtain ⟨m₂, last, h₂⟩ := pass n (by omega) m₁ h₁
    refine ⟨m₂, ?_, h₂⟩
    rw [List.range_succ, each_append, Action.bind_ok run, Action.each, Action.bind_ok last]
    rfl

theorem registersUpTo_eq (x : Fin 16) :
    registersUpTo x = (List.range (x.val + 1)).map (Fin.ofNat 16) := by
  revert x
  decide

theorem storeRegister_represents (k : Fin 16) (h : m.Represents (r.store k.val)) :
    ∃ m' : Machine π, storeRegister k m = (.ok (), m') ∧ m'.Represents (r.store (k.val + 1)) := by
  obtain ⟨m', write, h', -⟩ := h.writeByte k.val (h.state.v k)
  refine ⟨m', write, ?_⟩
  convert h' using 1
  simp only [Reference.store, Reference.mk.injEq, true_and]
  funext p
  have place := sub_val_eq_iff (show k.val < 4096 by omega) p r.i
  by_cases here : r.i + Fin.ofNat 4096 k.val = p
  · have := place.2 here
    rw [here, Function.update_self, this]
    simp
  · have : (p - r.i).val ≠ k.val := fun e => here (place.1 e)
    rw [Function.update_of_ne (Ne.symm here)]
    have : (p - r.i).val < k.val + 1 ↔ (p - r.i).val < k.val := by omega
    simp only [this]

theorem restoreRegister_represents (k : Fin 16) (h : m.Represents (r.restore k.val)) :
    ∃ m' : Machine π, restoreRegister k m = (.ok (), m') ∧
      m'.Represents (r.restore (k.val + 1)) := by
  obtain ⟨m₁, read, h₁, same⟩ := h.readByte k.val
  refine ⟨{ m₁ with state := m₁.state.setV k (r.byteAt k.val).toNat }, ?_, ?_⟩
  · rw [restoreRegister, getState_bind, Action.bind_ok read]
    rfl
  · convert h₁.of_shows (h₁.state.setV k rfl) rfl using 1
    simp only [Reference.setV, Reference.restore, Reference.mk.injEq, and_true]
    funext j
    by_cases hj : j = k
    · subst hj
      simp
    · have : j.val < k.val + 1 ↔ j.val < k.val := by
        have : j.val ≠ k.val := fun e => hj (Fin.ext e)
        omega
      simp [hj, this]

theorem each_registersUpTo {f : Fin 16 → Effect π Unit} {P : Nat → Machine π → Prop} (x : Fin 16)
    (pass : ∀ (k : Fin 16) m, P k.val m → ∃ m', f k m = (.ok (), m') ∧ P (k.val + 1) m')
    {m : Machine π} (start : P 0 m) :
    ∃ m', Action.each f (registersUpTo x) m = (.ok (), m') ∧ P (x.val + 1) m' := by
  rw [registersUpTo_eq, each_map]
  apply each_range _ start
  intro k hk m₀ h₀
  have place : (Fin.ofNat 16 k).val = k := Nat.mod_eq_of_lt (by omega)
  have next := pass (Fin.ofNat 16 k) m₀
  rw [place] at next
  exact next h₀

theorem storeRegisters_represents (h : m.Represents r) (x : Fin 16) :
    ∃ m' : Machine π, Action.each storeRegister (registersUpTo x) m = (.ok (), m') ∧
      m'.Represents (r.store (x.val + 1)) := by
  have none : r.store 0 = r := by simp [Reference.store]
  rw [← none] at h
  exact @each_registersUpTo π _ (fun k m₀ => Represents m₀ (r.store k)) x
    (fun k _ => storeRegister_represents k) m h

theorem restoreRegisters_represents (h : m.Represents r) (x : Fin 16) :
    ∃ m' : Machine π, Action.each restoreRegister (registersUpTo x) m = (.ok (), m') ∧
      m'.Represents (r.restore (x.val + 1)) := by
  have none : r.restore 0 = r := by simp [Reference.restore]
  rw [← none] at h
  exact @each_registersUpTo π _ (fun k m₀ => Represents m₀ (r.restore k)) x
    (fun k _ => restoreRegister_represents k) m h

theorem storeDecimal_represents (h : m.Represents r) {z : Int} {byte : UInt8}
    (hz : z = byte.toNat) :
    ∃ m' : Machine π, storeDecimal z m = (.ok (), m') ∧
      m'.Represents { r with
        memory := update (update (update r.memory r.i (byte / 100)) (r.i + 1) (byte / 10 % 10))
          (r.i + 2) (byte % 10) } := by
  have hundreds : z / 100 = ((byte / 100).toNat : Int) := by simp [hz]
  have tens : z / 10 % 10 = ((byte / 10 % 10).toNat : Int) := by simp [hz]
  have ones : z % 10 = ((byte % 10).toNat : Int) := by simp [hz]
  obtain ⟨m₁, first, h₁, s₁⟩ := h.writeByte 0 hundreds
  obtain ⟨m₂, second, h₂, s₂⟩ := h₁.writeByte 1 tens
  obtain ⟨m₃, third, h₃, -⟩ := h₂.writeByte 2 ones
  rw [s₂, s₁] at third
  rw [s₁] at second
  simp only [Int.natCast_zero, Int.add_zero] at first
  push_cast at second third
  refine ⟨m₃, ?_, ?_⟩
  · rw [storeDecimal, getState_bind, Action.bind_ok first, Action.bind_ok second]
    exact third
  · have one : Fin.ofNat 4096 1 = 1 := rfl
    have two : Fin.ofNat 4096 2 = 2 := rfl
    simpa only [Fin.ofNat_zero, add_zero, one, two] using h₃

end Machine

end Chip8
