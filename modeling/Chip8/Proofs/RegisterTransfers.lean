import Chip8.Proofs.Accesses
import Chip8.Proofs.Sprites

/-! Registers saved to memory and brought back. The cells of a transfer are different from each other, also where
they go round the end of memory, so a pass of a loop never overwrites the byte of an earlier pass (`Saved.set`), and
each transfer undoes the other (`save_restore`). -/

namespace Chip8

/-- The cell so many places behind the index register, in the circle of addresses. -/
def State.cell (s : State) (k : Nat) : Fin 4096 := residue 4096 (s.i + k)

/-- The cells that the registers up to one of them are transferred to and from. -/
def State.cells (s : State) (x : Fin 16) : List (Fin 4096) := (Machine.registersUpTo x).map fun k => s.cell k.val

namespace State

variable {s : State}

theorem cell_inj {j k : Nat} (hj : j < 4096) (hk : k < 4096) (same : s.cell j = s.cell k) : j = k := by
  have := (residue_eq_iff (n := 4096) _ _).1 same
  omega

theorem mem_registersUpTo (k x : Fin 16) : k ∈ Machine.registersUpTo x ↔ k ≤ x := by
  revert k x
  decide

theorem cell_mem_cells {k x : Fin 16} : s.cell k.val ∈ s.cells x ↔ k ≤ x := by
  unfold cells
  rw [List.mem_map]
  constructor
  · rintro ⟨j, member, same⟩
    have : j = k := Fin.ext (cell_inj (by omega) (by omega) same)
    rw [← this]
    exact (mem_registersUpTo j x).1 member
  · exact fun h => ⟨k, (mem_registersUpTo k x).2 h, rfl⟩

theorem cells_nodup (s : State) (x : Fin 16) : (s.cells x).Nodup := by
  refine List.Nodup.map ?_ ((List.take_sublist _ _).nodup (List.nodup_finRange 16))
  intro j k same
  exact Fin.ext (cell_inj (by omega) (by omega) same)

theorem length_cells (s : State) (x : Fin 16) : (s.cells x).length = x.val + 1 := by
  unfold cells Machine.registersUpTo
  rw [List.length_map, List.length_take, List.length_finRange]
  omega

/-- Cells that the first registers have been saved to. -/
structure Saved (s : State) (before : Memory) (count : Nat) (cells : Memory) : Prop where
  inside : ∀ j : Fin 16, j.val < count → ((cells.get (s.cell j.val)).toNat : Int) = s.v.get j
  outside : ∀ a, (∀ j : Fin 16, j.val < count → a ≠ s.cell j.val) → cells.get a = before.get a

/-- Registers the first of which have been brought back from memory, with nothing else changed. -/
structure Restored (s : State) (cells : Memory) (count : Nat) (s' : State) : Prop where
  inside : ∀ j : Fin 16, j.val < count → s'.v.get j = (cells.get (s.cell j.val)).toNat
  outside : ∀ j : Fin 16, count ≤ j.val → s'.v.get j = s.v.get j
  rest : s' = { s with v := s'.v }

variable {before cells cells' : Memory} {s' : State} {k : Fin 16}

theorem saved_zero (s : State) (before : Memory) : Saved s before 0 before where
  inside _ none := absurd none (Nat.not_lt_zero _)
  outside _ _ := rfl

/-- A pass saves one register more, to a cell of its own. -/
theorem Saved.next (h : Saved s before k.val cells) (here : ((cells'.get (s.cell k.val)).toNat : Int) = s.v.get k)
    (others : ∀ a, a ≠ s.cell k.val → cells'.get a = cells.get a) : Saved s before (k.val + 1) cells' where
  inside j hj := by
    by_cases same : j = k
    · rw [same, here]
    · have earlier : j.val ≠ k.val := fun e => same (Fin.ext e)
      have apart : s.cell j.val ≠ s.cell k.val := fun e => earlier (cell_inj (by omega) (by omega) e)
      rw [others _ apart, h.inside j (by omega)]
  outside a ha := by
    rw [others a (ha k (Nat.lt_succ_self _))]
    exact h.outside a fun j hj => ha j (Nat.lt_succ_of_lt hj)

theorem restored_zero (s : State) (cells : Memory) : Restored s cells 0 s where
  inside _ none := absurd none (Nat.not_lt_zero _)
  outside _ _ := rfl
  rest := rfl

theorem Restored.next (h : Restored s cells k.val s') :
    Restored s cells (k.val + 1) (s'.setV k (cells.get (s.cell k.val)).toNat) where
  inside j hj := by
    by_cases same : j = k
    · rw [same, get_setV]
    · have earlier : j.val ≠ k.val := fun e => same (Fin.ext e)
      rw [get_setV_of_ne _ (Ne.symm same), h.inside j (by omega)]
  outside j hj := by
    have later : k ≠ j := fun e => by
      rw [e] at hj
      omega
    rw [get_setV_of_ne _ later, h.outside j (by omega)]
  rest := by
    rw [h.rest]
    rfl

theorem Restored.eq_of_saved {n : Nat} (restored : Restored s before n s') (saved : Saved s' before n cells) :
    cells = before := by
  have same (k : Nat) : s'.cell k = s.cell k := by
    rw [restored.rest]
    rfl
  apply Vector.ext
  intro a ha
  show cells.get ⟨a, ha⟩ = before.get ⟨a, ha⟩
  by_cases member : ∃ j : Fin 16, j.val < n ∧ ⟨a, ha⟩ = s'.cell j.val
  · obtain ⟨j, hj, place⟩ := member
    have value := saved.inside j hj
    rw [restored.inside j hj, same] at value
    rw [place, same]
    exact UInt8.toNat_inj.1 (Int.ofNat.inj value)
  · exact saved.outside _ fun j hj place => member ⟨j, hj, place⟩

end State

namespace Machine

variable {π : Type} {m : Machine π} {before cells : Memory} {log : List Access} {k x : Fin 16}

def withCells (m : Machine π) (cells : Memory) (log : List Access) : Machine π :=
  { m with bus := Bus.ofMemory cells log }

theorem eq_withCells (memory : m.bus.IsMemory) : m = m.withCells m.bus.memory m.bus.log :=
  congrArg (fun bus => { m with bus }) memory.eq_ofMemory

theorem memory_withCells (m : Machine π) (cells : Memory) (log : List Access) :
    (m.withCells cells log).bus.memory = cells := Bus.memory_ofMemory cells log

theorem residue_wrap (s : State) (k : Nat) : residue 4096 (wrap (s.i + k)) = s.cell k := residue_emod _

theorem storeRegister_byte (cells : Memory) (log : List Access) (byte : 0 ≤ m.state.v.get k ∧ m.state.v.get k < 256) :
    ∃ cells' log', storeRegister k (m.withCells cells log) = (.ok (), m.withCells cells' log') ∧
      ((cells'.get (m.state.cell k.val)).toNat : Int) = m.state.v.get k ∧
      ∀ a, a ≠ m.state.cell k.val → cells'.get a = cells.get a := by
  obtain ⟨cells', log', write, here, others⟩ :
      ∃ cells' log', (Bus.ofMemory cells log).write (wrap (m.state.i + k.val)) (m.state.v.get k) =
          .ok (Bus.ofMemory cells' log') ∧
        ((cells'.get (residue 4096 (wrap (m.state.i + k.val)))).toNat : Int) = m.state.v.get k ∧
        ∀ a, a ≠ residue 4096 (wrap (m.state.i + k.val)) → cells'.get a = cells.get a := by
    have value : m.state.v.get k = _ := byte_of_int (by omega)
    refine ⟨_, _, Bus.write_ofMemory cells log (wrap_inMemory _) _ value, ?_, fun a apart => ?_⟩
    · rw [Vector.get_eq_getElem, Vector.getElem_set_self]
      exact value.symm
    · rw [Vector.get_eq_getElem, Vector.getElem_set_ne _ _ fun e => apart (Fin.ext e).symm, Vector.get_eq_getElem]
  rw [residue_wrap] at here others
  refine ⟨cells', log', ?_, here, others⟩
  rw [storeRegister, getState_bind, Core.writeByte]
  simp only [withCells, write]

theorem storeRegister_notByte (notByte : ¬ (0 ≤ m.state.v.get k ∧ m.state.v.get k < 256)) :
    storeRegister k (m.withCells cells log) = (.error (.bus (.notByte (m.state.v.get k))), m.withCells cells log) := by
  have write := Bus.write_notByte cells log (wrap_inMemory (m.state.i + k.val)) notByte
  rw [storeRegister, getState_bind, Core.writeByte]
  simp only [withCells, write]

theorem restoreRegister_withCells (m : Machine π) (cells : Memory) (log : List Access) (k : Fin 16) :
    ∃ log', restoreRegister k (m.withCells cells log) =
      (.ok (), { m with
        state := m.state.setV k (cells.get (m.state.cell k.val)).toNat
        bus := Bus.ofMemory cells log' }) := by
  obtain ⟨log', read⟩ : ∃ log', (Bus.ofMemory cells log).read (wrap (m.state.i + k.val)) =
      .ok (cells.get (residue 4096 (wrap (m.state.i + k.val))), Bus.ofMemory cells log') :=
    ⟨_, Bus.read_ofMemory cells log (wrap_inMemory _)⟩
  rw [residue_wrap] at read
  refine ⟨log', ?_⟩
  rw [restoreRegister, getState_bind, Action.bind_apply, Core.readByte]
  simp only [withCells, read]
  rfl

/-! ### The two loops -/

theorem store_saves (memory : m.bus.IsMemory) {n : Nat} (small : n ≤ 16)
    (bytes : ∀ k : Fin 16, k.val < n → 0 ≤ m.state.v.get k ∧ m.state.v.get k < 256) :
    ∃ cells log, Action.each (storeRegister ∘ Fin.ofNat 16) (List.range n) m = (.ok (), m.withCells cells log) ∧
      m.state.Saved m.bus.memory n cells := by
  have loop := each_range (f := (storeRegister ∘ Fin.ofNat 16 : Nat → Effect π Unit)) (n := n)
    (P := fun k m' => ∃ cells log, m' = m.withCells cells log ∧ m.state.Saved m.bus.memory k cells) ?pass
    ⟨_, _, eq_withCells memory, State.saved_zero _ _⟩
  case pass =>
    rintro k hk _ ⟨cells, log, rfl, saved⟩
    obtain ⟨k, rfl⟩ : ∃ j : Fin 16, k = j.val := ⟨⟨k, by omega⟩, rfl⟩
    obtain ⟨cells', log', run, here, others⟩ := storeRegister_byte cells log (bytes k hk)
    rw [Function.comp_apply, Fin.ofNat_val_eq_self]
    exact ⟨_, run, cells', log', rfl, saved.next here others⟩
  obtain ⟨_, run, cells, log, rfl, saved⟩ := loop
  exact ⟨cells, log, run, saved⟩

theorem bytes_of_store (memory : m.bus.IsMemory) {n : Nat} (small : n ≤ 16) {m' : Machine π}
    (run : Action.each (storeRegister ∘ Fin.ofNat 16) (List.range n) m = (.ok (), m')) (k : Fin 16) (hk : k.val < n) :
    0 ≤ m.state.v.get k ∧ m.state.v.get k < 256 := by
  induction n generalizing m' k with
  | zero => exact absurd hk (Nat.not_lt_zero _)
  | succ n ih =>
    rw [List.range_succ, each_append] at run
    obtain ⟨_, m₁, first, last⟩ := Action.bind_eq_ok run
    have earlier := ih (by omega) first
    by_cases here : k.val < n
    · exact earlier k here
    · obtain rfl : n = k.val := by omega
      obtain ⟨cells, log, saved, -⟩ := store_saves memory (by omega) earlier
      cases first.symm.trans saved
      obtain ⟨_, m₂, pass, -⟩ := Action.bind_eq_ok last
      by_contra notByte
      rw [Function.comp_apply, Fin.ofNat_val_eq_self, storeRegister_notByte notByte] at pass
      cases pass

theorem restore_restores (memory : m.bus.IsMemory) (x : Fin 16) :
    ∃ s log, Action.each restoreRegister (registersUpTo x) m =
        (.ok (), { m with state := s, bus := Bus.ofMemory m.bus.memory log }) ∧
      m.state.Restored m.bus.memory (x.val + 1) s := by
  have loop := each_registersUpTo (f := (restoreRegister : Fin 16 → Effect π Unit))
    (P := fun k m' => ∃ s log, m' = { m with state := s, bus := Bus.ofMemory m.bus.memory log } ∧
      m.state.Restored m.bus.memory k s) x ?pass ⟨m.state, _, eq_withCells memory, State.restored_zero _ _⟩
  case pass =>
    rintro k _ ⟨s, log, rfl, restored⟩
    obtain ⟨log', run⟩ := restoreRegister_withCells { m with state := s } m.bus.memory log k
    have same : s.cell k.val = m.state.cell k.val := by
      rw [restored.rest]
      rfl
    have next := restored.next
    rw [← same] at next
    exact ⟨_, run, _, log', rfl, next⟩
  obtain ⟨_, run, s, log, rfl, restored⟩ := loop
  exact ⟨s, log, run, restored⟩

/-! ### The instructions -/

variable [Host π] {w : Nat} {m₁ : Machine π}

theorem execute_store (w : Nat) : (execute ⟨.store, w⟩ : Effect π Unit) =
    Action.each (storeRegister ∘ Fin.ofNat 16) (List.range ((fieldX w).val + 1)) := by
  rw [← each_map, ← registersUpTo_eq]
  rfl

theorem store_completes_iff (memory : m.bus.IsMemory) :
    (∃ m₁, execute ⟨.store, w⟩ m = (.ok (), m₁)) ↔
      ∀ k ≤ fieldX w, 0 ≤ m.state.v.get k ∧ m.state.v.get k < 256 := by
  rw [execute_store]
  constructor
  · rintro ⟨m₁, run⟩ k hk
    exact bytes_of_store memory (by omega) run k (Nat.lt_succ_of_le hk)
  · intro bytes
    obtain ⟨cells, log, run, -⟩ := store_saves memory (by omega) fun k hk => bytes k (Nat.le_of_lt_succ hk)
    exact ⟨_, run⟩

theorem store_completed (memory : m.bus.IsMemory) (run : execute ⟨.store, w⟩ m = (.ok (), m₁)) :
    ∃ cells log, m₁ = m.withCells cells log ∧ m.state.Saved m.bus.memory ((fieldX w).val + 1) cells := by
  have bytes := (store_completes_iff memory).1 ⟨m₁, run⟩
  rw [execute_store] at run
  obtain ⟨cells, log, run', saved⟩ := store_saves memory (by omega) fun k hk => bytes k (Nat.le_of_lt_succ hk)
  cases run.symm.trans run'
  exact ⟨cells, log, rfl, saved⟩

theorem restore_completes (memory : m.bus.IsMemory) (w : Nat) :
    ∃ s log, execute ⟨.restore, w⟩ m = (.ok (), { m with state := s, bus := Bus.ofMemory m.bus.memory log }) ∧
      m.state.Restored m.bus.memory ((fieldX w).val + 1) s :=
  restore_restores memory (fieldX w)

omit [Host π] in
theorem restore_saved {ρ : Type} [Host ρ] {m₂ : Machine ρ} (w : Nat)
    (saved : m.state.Saved before ((fieldX w).val + 1) cells) (memory₂ : m₂.bus.IsMemory)
    (index : m₂.state.i = m.state.i) (bytes : ∀ a ∈ m.state.cells (fieldX w), m₂.bus.memory.get a = cells.get a) :
    ∃ m₃, execute ⟨.restore, w⟩ m₂ = (.ok (), m₃) ∧ m₃.bus.memory = m₂.bus.memory ∧
      m₃ = { m₂ with state := { m₂.state with v := m₃.state.v }, bus := m₃.bus } ∧
      (∀ k ≤ fieldX w, m₃.state.v.get k = m.state.v.get k) ∧
      ∀ k, fieldX w < k → m₃.state.v.get k = m₂.state.v.get k := by
  obtain ⟨s, log, run, restored⟩ := restore_completes memory₂ w
  have place (k : Nat) : m₂.state.cell k = m.state.cell k := by rw [State.cell, index, State.cell]
  refine ⟨_, run, Bus.memory_ofMemory _ _, ?_, fun k hk => ?_, fun k hk => restored.outside k hk⟩
  · exact congrArg (fun state => { m₂ with state, bus := Bus.ofMemory m₂.bus.memory log }) restored.rest
  · have byte := bytes _ (State.cell_mem_cells.2 hk)
    rw [← saved.inside k (Nat.lt_succ_of_le hk), ← byte, ← place]
    exact restored.inside k (Nat.lt_succ_of_le hk)

/-- Registers that were brought from memory are bytes, and saving them writes the bytes that are there. -/
theorem store_restored (memory : m.bus.IsMemory) {w w' : Nat} (same : fieldX w' = fieldX w) :
    ∃ m₁ m₂, execute ⟨.restore, w'⟩ m = (.ok (), m₁) ∧ execute ⟨.store, w⟩ m₁ = (.ok (), m₂) ∧
      m₂.bus.memory = m.bus.memory ∧ m₂.state = m₁.state ∧ m₁.state.i = m.state.i := by
  obtain ⟨s, log, run, restored⟩ := restore_completes memory w'
  rw [same] at restored
  obtain ⟨m₁, start⟩ : ∃ m₁, m₁ = { m with state := s, bus := Bus.ofMemory m.bus.memory log } := ⟨_, rfl⟩
  rw [← start] at run
  have state : m₁.state = s := by rw [start]
  have unchanged : m₁.bus.memory = m.bus.memory := by rw [start, Bus.memory_ofMemory]
  have memory₁ : m₁.bus.IsMemory := by
    rw [start]
    exact Bus.isMemory_ofMemory _ _
  obtain ⟨m₂, run'⟩ := (store_completes_iff (w := w) memory₁).2 fun k hk => by
    have byte := (m.bus.memory.get (m.state.cell k.val)).toNat_lt
    rw [state, restored.inside k (Nat.lt_succ_of_le hk)]
    omega
  obtain ⟨_, _, rfl, saved⟩ := store_completed memory₁ run'
  rw [unchanged, state] at saved
  refine ⟨m₁, _, run, run', ?_, rfl, ?_⟩
  · rw [memory_withCells]
    exact restored.eq_of_saved saved
  · rw [state, restored.rest]

/-- **Registers saved and restored.** Registers are saved exactly if they are bytes; then each stands in a cell of
its own, the others are as before, and nothing else has changed. From any machine with the same index register and
the same bytes in those cells, they are brought back as they were, with the other registers, the index register and
memory left alone. The other way round memory stays as it was. -/
theorem save_restore {ρ : Type} [Host ρ] (memory : m.bus.IsMemory) (w w' : Nat) (same : fieldX w' = fieldX w) :
    let x := fieldX w
    (m.state.cells x).Nodup ∧ (m.state.cells x).length = x.val + 1 ∧
    ((∃ m₁, execute ⟨.store, w⟩ m = (.ok (), m₁)) ↔
      ∀ k ≤ x, 0 ≤ m.state.v.get k ∧ m.state.v.get k < 256) ∧
    (∀ m₁, execute ⟨.store, w⟩ m = (.ok (), m₁) →
      m₁.bus.IsMemory ∧ m₁ = { m with bus := m₁.bus } ∧
      (∀ k ≤ x, ((m₁.bus.memory.get (m.state.cell k.val)).toNat : Int) = m.state.v.get k) ∧
      (∀ a, a ∉ m.state.cells x → m₁.bus.memory.get a = m.bus.memory.get a) ∧
      ∀ m₂ : Machine ρ, m₂.bus.IsMemory → m₂.state.i = m.state.i →
        (∀ a ∈ m.state.cells x, m₂.bus.memory.get a = m₁.bus.memory.get a) →
        ∃ m₃, execute ⟨.restore, w'⟩ m₂ = (.ok (), m₃) ∧ m₃.bus.memory = m₂.bus.memory ∧
          m₃ = { m₂ with state := { m₂.state with v := m₃.state.v }, bus := m₃.bus } ∧
          (∀ k ≤ x, m₃.state.v.get k = m.state.v.get k) ∧
          ∀ k, x < k → m₃.state.v.get k = m₂.state.v.get k) ∧
    ∃ m₁ m₂, execute ⟨.restore, w'⟩ m = (.ok (), m₁) ∧ execute ⟨.store, w⟩ m₁ = (.ok (), m₂) ∧
      m₂.bus.memory = m.bus.memory ∧ m₂.state = m₁.state ∧ m₁.state.i = m.state.i := by
  intro x
  refine ⟨m.state.cells_nodup x, m.state.length_cells x, store_completes_iff memory, fun m₁ run => ?_, ?_⟩
  · obtain ⟨cells, log, rfl, saved⟩ := store_completed memory run
    rw [memory_withCells]
    refine ⟨Bus.isMemory_ofMemory _ _, rfl, fun k hk => saved.inside k (Nat.lt_succ_of_le hk), ?_, ?_⟩
    · intro a outside
      refine saved.outside a fun j hj place => outside ?_
      rw [place]
      exact State.cell_mem_cells.2 (Nat.le_of_lt_succ hj)
    · intro m₂ memory₂ index bytes
      have back := restore_saved (m := m) w' (by rw [same]; exact saved) memory₂ index (by rw [same]; exact bytes)
      rwa [same] at back
  · exact store_restored memory same

/-- Four registers around the end of memory, cleared and brought back. -/
theorem save_restore_wrapping :
    let m : Machine Unit := {
      state := { v := Vector.ofFn fun k => (k.val : Int) + 1, i := 4094 }
      bus := Bus.ofMemory (Vector.replicate 4096 0) []
      host := () }
    ∃ m₁ m₃ : Machine Unit,
      execute ⟨.store, 0xF355⟩ m = (.ok (), m₁) ∧ m₁.bus.memory.get (residue 4096 1) = 4 ∧
      execute ⟨.restore, 0xF365⟩ { m₁ with state := { m₁.state with v := Vector.replicate 16 0 } } = (.ok (), m₃) ∧
        m₃.state.v.get (fieldX 0xF365) = 4 ∧ m₃.state.v.get State.flag = 0 := by
  intro m
  have memory : m.bus.IsMemory := Bus.isMemory_ofMemory _ _
  have value (k : Fin 16) : m.state.v.get k = k.val + 1 := by simp [m, Vector.get_eq_getElem]
  have last : m.state.cell (fieldX 0xF355).val = residue 4096 1 := by
    rw [State.cell, residue_eq_iff]
    rfl
  clear_value m
  obtain ⟨-, -, completes, saves, -⟩ := save_restore (ρ := Unit) memory 0xF355 0xF365 rfl
  obtain ⟨m₁, run⟩ := completes.2 fun k _ => by rw [value]; omega
  obtain ⟨memory₁, frame, inside, -, back⟩ := saves m₁ run
  have index : m₁.state.i = m.state.i := by rw [frame]
  obtain ⟨m₃, run', -, -, restored, kept⟩ :=
    back { m₁ with state := { m₁.state with v := Vector.replicate 16 0 } } memory₁ index fun _ _ => rfl
  refine ⟨m₁, m₃, run, ?_, run', ?_, ?_⟩
  · have byte := inside (fieldX 0xF355) le_rfl
    rw [last, value] at byte
    exact UInt8.toNat_inj.1 (Int.ofNat.inj byte)
  · rw [restored (fieldX 0xF365) le_rfl, value]
    rfl
  · rw [kept State.flag (by decide)]
    rfl

end Machine

end Chip8
