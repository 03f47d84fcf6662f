import Chip8.Machine
import Mathlib

/-! The bus of a machine as a memory of 4096 bytes. A read, a write or a load in range always succeeds and
is an equation between memories (`read_ofMemory`, `write_ofMemory`, `load_ofMemory`); undoing logged
writes never fails either (`revert_ofMemory`). -/

namespace Chip8

open Function (update)

abbrev Memory := Vector UInt8 4096

instance Memory.neZero : NeZero 4096 := ⟨Nat.succ_ne_zero 4095⟩

/-- The remainder of an integer as an index: a memory address, a column or a row. -/
def residue (n : Nat) [NeZero n] (z : Int) : Fin n :=
  ⟨(z % n).toNat, by
    have pos : (0 : Int) < n := Int.natCast_pos.2 (Nat.pos_of_ne_zero (NeZero.ne n))
    have := Int.emod_nonneg z (Int.ne_of_gt pos)
    have := Int.emod_lt_of_pos z pos
    omega⟩

section residue

variable {n : Nat} [NeZero n]

theorem residue_val (z : Int) : ((residue n z).val : Int) = z % n := by
  have : (n : Int) ≠ 0 := Int.natCast_ne_zero.2 (NeZero.ne n)
  exact Int.toNat_of_nonneg (Int.emod_nonneg z this)

theorem residue_eq_iff (a b : Int) : residue n a = residue n b ↔ a % n = b % n := by
  rw [← residue_val, ← residue_val, Fin.ext_iff]
  omega

theorem residue_emod (z : Int) : residue n (z % n) = residue n z := by
  rw [residue_eq_iff, Int.emod_emod_of_dvd z (Int.dvd_refl _)]

theorem residue_add (z : Int) (k : Nat) : residue n (z + k) = residue n z + Fin.ofNat n k := by
  apply Fin.ext
  have h := residue_val (n := n) (z + k)
  rw [← Int.emod_add_emod, ← residue_val z] at h
  rw [Fin.val_add, Fin.val_ofNat, Nat.add_mod_mod]
  exact Int.ofNat.inj h

theorem residue_ofNat (k : Nat) : residue n (k : Int) = Fin.ofNat n k := by
  apply Fin.ext
  have h := residue_val (n := n) (k : Int)
  rw [← Int.natCast_emod] at h
  exact Int.ofNat.inj h

theorem residue_natCast (a : Fin n) : residue n (a.val : Int) = a := by
  rw [residue_ofNat, Fin.ofNat_val_eq_self]

theorem sub_val_eq_iff {k : Nat} (hk : k < n) (a origin : Fin n) :
    (a - origin).val = k ↔ origin + Fin.ofNat n k = a := by
  have : (Fin.ofNat n k).val = k := Nat.mod_eq_of_lt hk
  rw [← this, ← Fin.ext_iff, sub_eq_iff_eq_add', eq_comm, this]

end residue

theorem residue_inside {a : Int} (h : 0 ≤ a ∧ a < 4096) : (residue 4096 a).val = a.toNat := by
  have := residue_val (n := 4096) a
  omega

namespace Memory

/-- The cells with the writes of a list taken back, the last one first. -/
def undo (accesses : List Access) (cells : Memory) : Memory :=
  accesses.foldr (fun access cells =>
    match access with
    | .write address _ previous => cells.set (residue 4096 address) previous
    | .read .. => cells) cells

/-- The cells with a block laid over them. -/
def overlay (cells : Memory) (start : Nat) (block : List UInt8) : Memory :=
  ⟨Device.overlay cells.toArray start block.toArray, by simp [Device.size_overlay]⟩

theorem undo_append (first second : List Access) (cells : Memory) :
    undo (first ++ second) cells = undo first (undo second cells) := by
  simp [undo, List.foldr_append]

theorem undo_read (address : Int) (data : UInt8) (cells : Memory) :
    undo [.read address data] cells = cells := rfl

theorem undo_write (address data : Int) (byte : UInt8) (cells : Memory) :
    undo [.write address data cells[residue 4096 address]]
      (cells.set (residue 4096 address) byte) = cells := by
  simp [undo]

theorem get_overlay (cells : Memory) (start : Nat) (block : List UInt8) (a : Fin 4096) :
    (overlay cells start block).get a =
      if a.val < start then cells.get a else block.getD (a.val - start) (cells.get a) := by
  have h : a.val < cells.toArray.size := by simp
  have same : cells.toArray[a.val] = cells.get a := rfl
  have cell := Device.getElem_overlay cells.toArray start block.toArray a.val h
  rw [Array.getD_eq_getD_getElem?, Array.getElem?_eq_getElem (by simp [Device.size_overlay])] at cell
  simpa [overlay, h, same] using cell

theorem ofFn_set (f : Fin 4096 → UInt8) (a : Fin 4096) (byte : UInt8) :
    (Vector.ofFn f).set a byte = Vector.ofFn (update f a byte) := by
  apply Vector.ext
  intro k hk
  by_cases h : a.val = k
  · subst h
    simp
  · have : (⟨k, hk⟩ : Fin 4096) ≠ a := fun e => h (congrArg Fin.val e).symm
    simp [h, this]

end Memory

def Access.InMemory : Access → Prop
  | .read address _ | .write address _ _ => 0 ≤ address ∧ address < 4096

theorem Machine.wrap_inMemory (a : Int) : 0 ≤ wrap a ∧ wrap a < 4096 := by
  unfold wrap
  omega

namespace Bus

/-- One memory from address zero to the last address, and a log. -/
def ofMemory (cells : Memory) (log : List Access) : Bus where
  devices := #[.ram cells.toArray]
  mappings := [⟨0, 4095, 0⟩]
  log := log

def IsMemory (b : Bus) : Prop := ∃ cells, b = ofMemory cells b.log

/-- The 4096 bytes that a bus shows to an observer; what cannot be read is zero. -/
@[irreducible] def memory (b : Bus) : Memory :=
  Vector.ofFn fun a : Fin 4096 =>
    match b.peek a.val with
    | .ok byte => byte
    | .error _ => 0

variable (cells : Memory) (log : List Access)

theorem isMemory_ofMemory : (ofMemory cells log).IsMemory := ⟨cells, rfl⟩

@[simp] theorem log_ofMemory : (ofMemory cells log).log = log := rfl

@[simp] theorem takeLog_ofMemory : (ofMemory cells log).takeLog = (log, ofMemory cells []) := rfl

theorem flat_eq_ofMemory : flat memorySize = ofMemory (Vector.replicate 4096 0) [] := rfl

variable {a : Int} (h : 0 ≤ a ∧ a < 4096)
include h

theorem find?_ofMemory : (ofMemory cells log).find? a = some (0, .ram cells.toArray, a) := by
  have : a ≤ 4095 := by omega
  simp [find?, ofMemory, h.1, this]

theorem peek_ofMemory : (ofMemory cells log).peek a = .ok cells[residue 4096 a] := by
  rw [peek, find?_ofMemory cells log h]
  simp [Device.readAt, h.1, h.2, residue_inside h]

theorem read_ofMemory :
    (ofMemory cells log).read a =
      .ok (cells[residue 4096 a], ofMemory cells (log ++ [.read a cells[residue 4096 a]])) := by
  rw [read, peek_ofMemory cells log h]
  rfl

theorem load_ofMemory {d : Int} (byte : UInt8) (hd : d = byte.toNat) :
    (ofMemory cells log).load a d = .ok (ofMemory (cells.set (residue 4096 a) byte) log) := by
  have small : (byte.toNat : Int) < 256 := by have := byte.toNat_lt; omega
  subst hd
  rw [load, find?_ofMemory cells log h]
  simp [Device.writeAt, h.1, h.2, small, residue_inside h, setDevice, ofMemory,
    Array.setIfInBounds_def]

theorem write_ofMemory {d : Int} (byte : UInt8) (hd : d = byte.toNat) :
    (ofMemory cells log).write a d =
      .ok (ofMemory (cells.set (residue 4096 a) byte)
        (log ++ [.write a d cells[residue 4096 a]])) := by
  rw [write, peek_ofMemory cells log h, load_ofMemory cells log h byte hd]
  rfl

theorem write_notByte {d : Int} (byte : ¬ (0 ≤ d ∧ d < 256)) :
    (ofMemory cells log).write a d = .error (.notByte d) := by
  rw [write, peek_ofMemory cells log h, load, find?_ofMemory cells log h]
  simp [Device.writeAt, h.1, h.2, byte]

omit h

theorem memory_ofMemory : (ofMemory cells log).memory = cells := by
  unfold memory
  apply Vector.ext
  intro k hk
  have inside : 0 ≤ (k : Int) ∧ (k : Int) < 4096 := by omega
  have same : residue 4096 (k : Int) = ⟨k, hk⟩ := residue_natCast (⟨k, hk⟩ : Fin 4096)
  simp [peek_ofMemory cells log inside, same]

theorem memory_takeLog (b : Bus) : b.takeLog.2.memory = b.memory := by
  unfold memory
  rfl

theorem IsMemory.eq_ofMemory {b : Bus} (hb : b.IsMemory) : b = ofMemory b.memory b.log := by
  obtain ⟨cells, h⟩ := hb
  have cells_eq : b.memory = cells := (congrArg memory h).trans (memory_ofMemory cells b.log)
  rw [cells_eq, ← h]

theorem revert_ofMemory {accesses : List Access} (h : ∀ access ∈ accesses, access.InMemory) :
    (ofMemory cells log).revert accesses = (.ok (), ofMemory (Memory.undo accesses cells) log) := by
  induction accesses with
  | nil => rfl
  | cons access accesses ih =>
    rw [List.forall_mem_cons] at h
    simp only [revert, Memory.undo, List.foldr_cons] at ih ⊢
    rw [ih h.2]
    cases access with
    | read address data => rfl
    | write address data previous => simp only [load_ofMemory _ _ h.1 previous rfl]

theorem find?_outside {a : Int} (h : ¬ (0 ≤ a ∧ a < 4096)) : (ofMemory cells log).find? a = none := by
  have beyond : ¬ (0 ≤ a ∧ a ≤ 4095) := by omega
  simp [find?, ofMemory, beyond]

theorem load_outside {a d : Int} (h : ¬ (0 ≤ a ∧ a < 4096)) :
    (ofMemory cells log).load a d = .error (.unmapped a) := by
  rw [load, find?_outside cells log h]

theorem IsMemory.inside_of_peek {b : Bus} (hb : b.IsMemory) {a : Int} {byte : UInt8} (read : b.peek a = .ok byte) :
    0 ≤ a ∧ a < 4096 := by
  obtain ⟨cells, eq⟩ := hb
  by_contra outside
  rw [eq, peek, find?_outside cells b.log outside] at read
  cases read

/-- Undoing may fail on an address outside, but it leaves a memory. -/
theorem isMemory_revert {b : Bus} (hb : b.IsMemory) (accesses : List Access) :
    (b.revert accesses).2.IsMemory := by
  induction accesses with
  | nil => exact hb
  | cons access accesses ih =>
    simp only [revert, List.foldr_cons] at ih ⊢
    generalize accesses.foldr _ _ = r at ih ⊢
    obtain ⟨cells, hc⟩ := ih
    match access, r with
    | .read .., _ => exact ⟨cells, hc⟩
    | .write .., (.error _, _) => exact ⟨cells, hc⟩
    | .write address _ previous, (.ok (), b') =>
      change b' = ofMemory cells b'.log at hc
      generalize b'.log = log at hc
      subst hc
      by_cases h : 0 ≤ address ∧ address < 4096
      · simp only [load_ofMemory cells log h previous rfl]
        exact isMemory_ofMemory _ _
      · simp only [load_outside cells log h]
        exact isMemory_ofMemory _ _

theorem loadBlock_ofMemory {start : Nat} {block : List UInt8} (ne : block ≠ [])
    (fits : start + block.length ≤ 4096) :
    (ofMemory cells log).loadBlock start block =
      (.ok (), ofMemory (cells.overlay start block) log) := by
  have pos : 0 < block.length := List.length_pos_iff.2 ne
  have first : 0 ≤ (start : Int) ∧ (start : Int) < 4096 := by omega
  have last : 0 ≤ (start : Int) + block.length - 1 ∧ (start : Int) + block.length - 1 < 4096 := by
    omega
  have fits' : (start : Int) + block.length ≤ 4096 := by omega
  simp only [loadBlock, find?_ofMemory cells log first, find?_ofMemory cells log last]
  simp [ne, Device.writeBlock, fits', first.1, setDevice, ofMemory, Memory.overlay]

end Bus

end Chip8
