import Chip8.Proofs.Memory

/-! The log as a journal of memory. Whatever an instruction does and however it ends, its log has only
addresses of the memory, and what is logged leads back to the memory before (`perform_journaled`). -/

namespace Chip8

namespace Machine

variable {π α β : Type}

/-- The log of a machine leads back to a memory, and it goes on from a first part. -/
structure Journal (m : Machine π) (cells : Memory) (first : List Access) : Prop where
  bus : m.bus.IsMemory
  undo : Memory.undo m.bus.log m.bus.memory = cells
  inMemory : ∀ access ∈ m.bus.log, access.InMemory
  first : first <+: m.bus.log

/-- An effect that logs all that it does to the memory. -/
def Journaled (x : Effect π α) : Prop :=
  ∀ (cells : Memory) (first : List Access) (m : Machine π), m.Journal cells first →
    Journal (x m).2 cells first

theorem Journal.of_bus {m m' : Machine π} {cells : Memory} {first : List Access}
    (h : m.Journal cells first) (same : m'.bus = m.bus) : m'.Journal cells first := by
  obtain ⟨bus, undo, inMemory, start⟩ := h
  rw [← same] at bus undo inMemory start
  exact ⟨bus, undo, inMemory, start⟩

theorem Journal.snoc {m : Machine π} {cells now : Memory} {first : List Access}
    (h : m.Journal cells first) {access : Access} (inside : access.InMemory)
    (back : Memory.undo [access] now = m.bus.memory) :
    Journal { m with bus := Bus.ofMemory now (m.bus.log ++ [access]) } cells first := by
  refine ⟨Bus.isMemory_ofMemory _ _, ?_, ?_, h.first.trans (List.prefix_append _ _)⟩
  · rw [Bus.log_ofMemory, Bus.memory_ofMemory, Memory.undo_append, back]
    exact h.undo
  · intro access' member
    rcases List.mem_append.1 member with old | new
    · exact h.inMemory access' old
    · rw [List.mem_singleton.1 new]
      exact inside

theorem journaled_of_bus {x : Effect π α} (same : ∀ m, (x m).2.bus = m.bus) : Journaled x :=
  fun _ _ m h => h.of_bus (same m)

theorem journaled_fail (e : Fault) : Journaled (Action.fail e : Effect π α) :=
  journaled_of_bus fun _ => rfl

theorem journaled_modifyState (f : State → State) : Journaled (Core.modifyState f : Effect π Unit) :=
  journaled_of_bus fun _ => rfl

theorem journaled_getState : Journaled (getState : Effect π State) :=
  journaled_of_bus fun _ => rfl

theorem Journaled.bind {x : Effect π α} {f : α → Effect π β} (hx : Journaled x)
    (hf : ∀ a, Journaled (f a)) : Journaled (x >>= f) := by
  intro cells first m h
  exact Action.bind_invariant (P := fun m => Journal m cells first) (hx cells first)
    (fun a => hf a cells first) m h

theorem journaled_each {f : β → Effect π Unit} (hf : ∀ b, Journaled (f b)) (bs : List β) :
    Journaled (Action.each f bs) := by
  induction bs with
  | nil => exact journaled_of_bus fun _ => rfl
  | cons b bs ih => exact (hf b).bind fun _ => ih

theorem journaled_readByte {a : Int} (h : 0 ≤ a ∧ a < 4096) :
    Journaled (Core.readByte a : Effect π UInt8) := by
  intro cells first m j
  have read := Bus.read_ofMemory m.bus.memory m.bus.log h
  rw [← j.bus.eq_ofMemory] at read
  rw [Core.readByte, read]
  exact j.snoc h (Memory.undo_read ..)

theorem journaled_writeByte {a : Int} (h : 0 ≤ a ∧ a < 4096) (d : Int) :
    Journaled (Core.writeByte a d : Effect π Unit) := by
  intro cells first m j
  by_cases byte : 0 ≤ d ∧ d < 256
  · have write := Bus.write_ofMemory m.bus.memory m.bus.log h (UInt8.ofNat d.toNat)
      (show d = (UInt8.ofNat d.toNat).toNat by rw [UInt8.toNat_ofNat']; omega)
    rw [← j.bus.eq_ofMemory] at write
    rw [Core.writeByte, write]
    exact j.snoc h (Memory.undo_write ..)
  · have write := Bus.write_notByte m.bus.memory m.bus.log h byte
    rw [← j.bus.eq_ofMemory] at write
    rw [Core.writeByte, write]
    exact j

theorem journaled_drawRow (x y : Int) (row : Nat) : Journaled (drawRow x y row : Effect π Unit) :=
  journaled_getState.bind fun _ =>
    (journaled_readByte (wrap_inMemory _)).bind fun _ => journaled_modifyState _

theorem journaled_storeRegister (k : Fin 16) : Journaled (storeRegister k : Effect π Unit) :=
  journaled_getState.bind fun _ => journaled_writeByte (wrap_inMemory _) _

theorem journaled_restoreRegister (k : Fin 16) : Journaled (restoreRegister k : Effect π Unit) :=
  journaled_getState.bind fun _ =>
    (journaled_readByte (wrap_inMemory _)).bind fun _ => journaled_modifyState _

theorem journaled_storeDecimal (z : Int) : Journaled (storeDecimal z : Effect π Unit) :=
  journaled_getState.bind fun _ =>
    (journaled_writeByte (wrap_inMemory _) _).bind fun _ =>
      (journaled_writeByte (wrap_inMemory _) _).bind fun _ => journaled_writeByte (wrap_inMemory _) _

theorem journaled_ret : Journaled (ret : Effect π Unit) := by
  refine journaled_getState.bind fun s => ?_
  split
  · exact journaled_fail _
  · refine (journaled_modifyState _).bind fun _ => ?_
    split
    · exact journaled_fail _
    · exact journaled_modifyState _

theorem journaled_call (target : Nat) : Journaled (call target : Effect π Unit) := by
  refine journaled_getState.bind fun s => ?_
  split
  · exact journaled_fail _
  · split
    · exact journaled_fail _
    · exact journaled_modifyState _

variable [Host π]

theorem journaled_draw (x y : Fin 16) (height : Nat) : Journaled (draw x y height : Effect π Unit) :=
  journaled_getState.bind fun _ => (journaled_modifyState _).bind fun _ =>
    (journaled_each (journaled_drawRow _ _) _).bind fun _ => journaled_of_bus fun _ => rfl

theorem journaled_waitKey : Journaled (waitKey : Effect π Int) := by
  refine (journaled_of_bus fun _ => rfl).bind fun answer => ?_
  rcases answer with (why | key) | key
  · exact (journaled_modifyState _).bind fun _ => journaled_fail _
  · exact journaled_fail _
  · simp only
    split
    · exact journaled_of_bus fun _ => rfl
    · exact journaled_fail _

theorem perform_journaled (op : Opcode) (w : Nat) : Journaled (perform op w : Effect π Unit) := by
  cases op with
  | ret => exact journaled_ret
  | call => exact journaled_call _
  | draw => exact journaled_draw _ _ _
  | awaitKey => exact journaled_waitKey.bind fun _ => journaled_modifyState _
  | decimal => exact journaled_getState.bind fun _ => journaled_storeDecimal _
  | store => exact journaled_each journaled_storeRegister _
  | restore => exact journaled_each journaled_restoreRegister _
  | _ => exact journaled_of_bus fun _ => rfl

end Machine

end Chip8
