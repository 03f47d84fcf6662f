import Chip8.Proofs.BusLog

/-! A map of cells: devices of cells alone, each mapped once, to ranges apart from each other. Every map made by
plugging in new cells and registering them so is one (`Wired.fresh`). A mapped address leads to the one cell at its
place (`RamMap.find?_of_maps`), contents may change below the map (`RamMap.setDevice`), and a block between mapped ends
is stored as its bytes one by one, also where it is laid over its cells at once (`RamMap.loadBlock_eq`). -/

namespace Chip8

namespace Bus

/-- The address lies in a range that is mapped. -/
def maps (b : Bus) (address : Int) : Bool := b.mappings.any fun m => m.first ≤ address && address ≤ m.last

/-- A bus made of cells: new cells plugged in, however many, each mapped once at most, to ranges apart from each
other. -/
inductive Wired : Bus → Prop
  | empty : Wired {}
  | plug {b : Bus} (h : Wired b) (size : Nat) (isTruth : Bool) : Wired (b.plug (.zeroed size isTruth)).1
  | register {b b' : Bus} {first last : Int} {number : Nat} (h : Wired b)
    (registered : b.register first last number = .ok b')
    (apart : ∀ m ∈ b.mappings, m.device ≠ number ∧ (m.last < first ∨ last < m.first)) : Wired b'

/-- Two mappings of different devices to ranges that do not meet. -/
def Apart (m m' : Mapping) : Prop := m.device ≠ m'.device ∧ (m.last < m'.first ∨ m'.last < m.first)

/-- A mapped range with its cells, one for each address. -/
structure Fills (b : Bus) (m : Mapping) (cells : Array UInt8) (isTruth : Bool) : Prop where
  mem : m ∈ b.mappings
  here : b.devices[m.device]? = some (.ram cells isTruth)
  size : (cells.size : Int) = m.last - m.first + 1

/-- Mappings apart from each other, each filled with cells. -/
structure RamMap (b : Bus) : Prop where
  filled : ∀ m ∈ b.mappings, ∃ cells isTruth, Fills b m cells isTruth
  apart : b.mappings.Pairwise Apart

variable {b b' : Bus} {a : Int} {m m' : Mapping} {cells cells' : Array UInt8} {isTruth : Bool}

theorem maps_iff : b.maps a = true ↔ ∃ m ∈ b.mappings, m.first ≤ a ∧ a ≤ m.last := by
  simp [maps]

theorem find?_eq_none_of_maps (outside : b.maps a = false) : b.find? a = none := by
  have none : (b.mappings.find? fun m => m.first ≤ a && a ≤ m.last) = none := by
    rw [List.find?_eq_none]
    intro m hm inside
    rw [maps, List.any_eq_false] at outside
    exact outside m hm inside
  rw [find?, none]

/-! ### Where an address leads -/

theorem Fills.inside (h : Fills b m cells isTruth) (lies : m.first ≤ a ∧ a ≤ m.last) :
    0 ≤ a - m.first ∧ a - m.first < cells.size := by
  have := h.size
  omega

theorem Fills.setDevice (h : Fills b m cells isTruth) (size : cells'.size = cells.size) :
    Fills (b.setDevice m.device (.ram cells' isTruth)) m cells' isTruth where
  mem := h.mem
  here := by
    obtain ⟨held, -⟩ := Array.getElem?_eq_some_iff.1 h.here
    exact Array.getElem?_setIfInBounds_self_of_lt held
  size := by rw [size, h.size]

theorem Fills.setDevice_of_ne (h : Fills b m cells isTruth) {number : Nat} (differ : number ≠ m.device) (d : Device) :
    Fills (b.setDevice number d) m cells isTruth where
  mem := h.mem
  here := by rw [Bus.setDevice, Array.getElem?_setIfInBounds_ne differ, h.here]
  size := h.size

namespace RamMap

theorem apart_of_ne (h : RamMap b) (hm : m ∈ b.mappings) (hm' : m' ∈ b.mappings) (differ : m ≠ m') : Apart m m' := by
  have symmetric : Std.Symm Apart := ⟨fun m m' apart => ⟨apart.1.symm, apart.2.symm⟩⟩
  exact h.apart.forall hm hm' differ

theorem eq_of_meets (h : RamMap b) (hm : m ∈ b.mappings) (hm' : m' ∈ b.mappings)
    (inside : m.first ≤ a ∧ a ≤ m.last) (inside' : m'.first ≤ a ∧ a ≤ m'.last) : m = m' := by
  by_contra differ
  obtain ⟨-, below | above⟩ := h.apart_of_ne hm hm' differ <;> omega

theorem find?_of_fills (h : RamMap b) (fills : Fills b m cells isTruth) (inside : m.first ≤ a ∧ a ≤ m.last) :
    b.find? a = some (m.device, .ram cells isTruth, a - m.first) := by
  have lies : (b.mappings.find? fun m => m.first ≤ a && a ≤ m.last) = some m := by
    cases found : b.mappings.find? fun m => m.first ≤ a && a ≤ m.last with
    | none =>
      have outside := List.find?_eq_none.1 found m fills.mem
      simp [inside] at outside
    | some m' =>
      have inside' := List.find?_some found
      rw [h.eq_of_meets fills.mem (List.mem_of_find?_eq_some found) inside (by simpa using inside')]
  rw [find?, lies]
  dsimp only
  rw [fills.here, Option.map_some]

theorem find?_of_maps (h : RamMap b) (mapped : b.maps a = true) :
    ∃ m cells isTruth, (m.first ≤ a ∧ a ≤ m.last) ∧ Fills b m cells isTruth ∧
      b.find? a = some (m.device, .ram cells isTruth, a - m.first) := by
  obtain ⟨m, hm, inside⟩ := maps_iff.1 mapped
  obtain ⟨cells, isTruth, fills⟩ := h.filled m hm
  exact ⟨m, cells, isTruth, inside, fills, h.find?_of_fills fills inside⟩

theorem peek_of_fills (h : RamMap b) (fills : Fills b m cells isTruth) (inside : m.first ≤ a ∧ a ≤ m.last) :
    b.peek a = .ok (cells.getD (a - m.first).toNat 0) := by
  rw [peek, h.find?_of_fills fills inside]
  exact if_pos (fills.inside inside)

theorem setDevice (h : RamMap b) (fills : Fills b m cells isTruth) (size : cells'.size = cells.size) :
    RamMap (b.setDevice m.device (.ram cells' isTruth)) where
  filled m' hm' := by
    by_cases same : m' = m
    · exact ⟨cells', isTruth, same ▸ fills.setDevice size⟩
    · obtain ⟨old, isTruth', fills'⟩ := h.filled m' hm'
      exact ⟨old, isTruth', fills'.setDevice_of_ne (h.apart_of_ne hm' fills.mem same).1.symm _⟩
  apart := h.apart

theorem peek_setDevice_of_ne (h : RamMap b) (fills : Fills b m cells isTruth) (size : cells'.size = cells.size)
    (mapped : b.maps a = true) (outside : ¬ (m.first ≤ a ∧ a ≤ m.last)) :
    (b.setDevice m.device (.ram cells' isTruth)).peek a = b.peek a := by
  obtain ⟨m', cells'', isTruth', inside, fills', -⟩ := h.find?_of_maps mapped
  have differ : m ≠ m' := by
    rintro rfl
    exact outside inside
  have kept := fills'.setDevice_of_ne (h.apart_of_ne fills.mem fills'.mem differ).1 (.ram cells' isTruth)
  rw [h.peek_of_fills fills' inside, (h.setDevice fills size).peek_of_fills kept inside]

theorem withLog (h : RamMap b) (log : List Access) : RamMap { b with log } where
  filled m hm := by
    obtain ⟨cells, isTruth, fills⟩ := h.filled m hm
    exact ⟨cells, isTruth, fills.mem, fills.here, fills.size⟩
  apart := h.apart

end RamMap

/-! ### A block -/

theorem getElem?_overlay (cells : Array UInt8) (start : Nat) (block : List UInt8) (i : Nat) :
    (Device.overlay cells start block.toArray)[i]? =
      cells[i]?.map fun cell => if i < start then cell else block.getD (i - start) cell := by
  simp [Device.overlay]

theorem overlay_nil (cells : Array UInt8) (start : Nat) : Device.overlay cells start #[] = cells := by
  apply Array.ext_getElem?
  intro i
  rw [getElem?_overlay cells start []]
  simp

/-- A block is laid over cells as its first byte and then the rest. -/
theorem overlay_cons (cells : Array UInt8) (start : Nat) (byte : UInt8) (bytes : List UInt8) :
    Device.overlay cells start (byte :: bytes).toArray =
      Device.overlay (cells.setIfInBounds start byte) (start + 1) bytes.toArray := by
  apply Array.ext_getElem?
  intro i
  rw [getElem?_overlay, getElem?_overlay, Array.getElem?_setIfInBounds]
  rcases Nat.lt_trichotomy i start with below | rfl | above
  · have below' : i < start + 1 := by omega
    simp only [if_pos below, if_pos below', if_neg (Nat.ne_of_gt below)]
  · simp only [Nat.lt_irrefl, if_false, Nat.lt_succ_self, if_true, Nat.sub_self, List.getD_cons_zero]
    split
    · rename_i inside
      simp [inside]
    · rename_i outside
      simp [outside]
  · have behind : ¬ i < start := by omega
    have behind' : ¬ i < start + 1 := by omega
    have place : i - start = i - (start + 1) + 1 := by omega
    simp only [if_neg behind, if_neg behind', if_neg (Nat.ne_of_lt above), place, List.getD_cons_succ]

theorem writeAt_byte {offset : Int} (fits : 0 ≤ offset ∧ offset < cells.size) (byte : UInt8) :
    (Device.ram cells isTruth).writeAt offset byte.toNat =
      .ok (.ram (cells.setIfInBounds offset.toNat byte) isTruth) := by
  have small : 0 ≤ (byte.toNat : Int) ∧ (byte.toNat : Int) < 256 := by have := byte.toNat_lt; omega
  rw [Device.writeAt, if_pos fits, if_pos small, Int.toNat_natCast, UInt8.ofNat_toNat]

theorem RamMap.load_of_fills (h : RamMap b) (fills : Fills b m cells isTruth) (inside : m.first ≤ a ∧ a ≤ m.last)
    (byte : UInt8) :
    b.load a byte.toNat =
      .ok (b.setDevice m.device (.ram (cells.setIfInBounds (a - m.first).toNat byte) isTruth)) :=
  load_eq_ok_iff.2 ⟨_, _, _, _, h.find?_of_fills fills inside, writeAt_byte (fills.inside inside) byte, rfl⟩

/-- Bytes that stay in one range are stored as they are laid over its cells. -/
theorem RamMap.loadEach_within (h : RamMap b) (fills : Fills b m cells isTruth) (bytes : List UInt8)
    (first : m.first ≤ a) (last : a + bytes.length - 1 ≤ m.last) :
    b.loadEach a bytes =
      (.ok (), b.setDevice m.device (.ram (Device.overlay cells (a - m.first).toNat bytes.toArray) isTruth)) := by
  induction bytes generalizing b a cells with
  | nil => rw [loadEach, overlay_nil, Bus.setDevice, Device.setIfInBounds_eq_self fills.here]
  | cons byte bytes ih =>
    rw [List.length_cons] at last
    have inside : m.first ≤ a ∧ a ≤ m.last := by omega
    have size : (cells.setIfInBounds (a - m.first).toNat byte).size = cells.size := Array.size_setIfInBounds
    have next : (a + 1 - m.first).toNat = (a - m.first).toNat + 1 := by omega
    rw [loadEach, h.load_of_fills fills inside byte]
    dsimp only
    rw [ih (h.setDevice fills size) (fills.setDevice size) (by omega) (by omega), next, overlay_cons, Bus.setDevice,
      Bus.setDevice, Bus.setDevice, Array.setIfInBounds_setIfInBounds]

/-- A block between mapped ends is stored as its bytes one by one. -/
theorem RamMap.loadBlock_eq (h : RamMap b) {bytes : List UInt8} (ne : bytes ≠ []) (first : b.maps a = true)
    (last : b.maps (a + bytes.length - 1) = true) : b.loadBlock a bytes = b.loadEach a bytes := by
  obtain ⟨m, cells, isTruth, inside, fills, found⟩ := h.find?_of_maps first
  obtain ⟨m', cells', isTruth', inside', fills', found'⟩ := h.find?_of_maps last
  have nonempty : ¬ bytes.isEmpty = true := by rwa [List.isEmpty_iff]
  rw [loadBlock, if_neg nonempty]
  dsimp only
  rw [found, found']
  dsimp only
  split
  · rename_i same
    -- A device is mapped once, so that both ends lie in one range.
    have one : m = m' := by
      by_contra differ
      exact (h.apart_of_ne fills.mem fills'.mem differ).1 same
    subst one
    have fits : 0 ≤ a - m.first ∧ a - m.first + bytes.length ≤ cells.size := by
      have := fills.size
      omega
    rw [Device.writeBlock, if_pos fits, h.loadEach_within fills bytes inside.1 inside'.2]
  · rfl

theorem loadBlock_unmapped {bytes : List UInt8} (ne : bytes ≠ [])
    (outside : b.find? a = none ∨ b.find? (a + bytes.length - 1) = none) :
    b.loadBlock a bytes =
      (.error (.unmapped (if b.find? a = none then a else a + bytes.length - 1)), b) := by
  have nonempty : ¬ bytes.isEmpty = true := by rwa [List.isEmpty_iff]
  rw [loadBlock, if_neg nonempty]
  dsimp only
  cases first : b.find? a with
  | none => simp
  | some found =>
    rcases outside with none | none
    · rw [first] at none
      cases none
    · simp [none]

/-! ### A map as it is made -/

/-- Cells can be made up to the last index and the end of the memory. -/
theorem ofSize_eq_ok_iff {size : Int} {memory : Option Int} {d : Device} :
    Device.ofSize size isTruth memory = .ok d ↔
      0 < size ∧ isIndex size = true ∧ (∀ limit ∈ memory, size < limit) ∧ d = .zeroed size.toNat isTruth := by
  unfold Device.ofSize
  constructor
  · intro made
    split at made
    · rename_i positive
      split at made
      · cases made
      · rename_i fits
        obtain ⟨index, room⟩ := extentFault?_eq_none_iff.1 fits
        cases made
        exact ⟨positive, index, by simpa only [Int.mul_one] using room, rfl⟩
    · cases made
  · rintro ⟨positive, index, room, rfl⟩
    have fits : extentFault? size 1 memory = none :=
      extentFault?_eq_none_iff.2 ⟨index, by simpa only [Int.mul_one] using room⟩
    rw [if_pos positive, fits]

theorem Wired.plug_ofSize (h : b.Wired) {size : Int} {memory : Option Int} {d : Device}
    (made : Device.ofSize size isTruth memory = .ok d) : Wired (b.plug d).1 := by
  obtain ⟨-, -, -, rfl⟩ := ofSize_eq_ok_iff.1 made
  exact h.plug _ _

theorem register_eq_ok {first last : Int} {number : Nat} (here : b.devices[number]? = some (.ram cells isTruth))
    (registered : b.register first last number = .ok b') :
    (cells.size : Int) = last - first + 1 ∧ b' = { b with mappings := b.mappings ++ [⟨first, last, number⟩] } := by
  unfold register at registered
  rw [here] at registered
  dsimp only at registered
  split at registered
  · split at registered
    · rename_i size
      cases registered
      exact ⟨size, rfl⟩
    · cases registered
  · cases registered

theorem exists_of_register {first last : Int} {number : Nat} (registered : b.register first last number = .ok b') :
    ∃ d, b.devices[number]? = some d := by
  cases here : b.devices[number]? with
  | some d => exact ⟨d, rfl⟩
  | none =>
    unfold register at registered
    rw [here] at registered
    dsimp only at registered
    split at registered <;> cases registered

/-- A map with nothing stored yet. -/
structure Fresh (b : Bus) : Prop where
  map : RamMap b
  zero : ∀ d ∈ b.devices, ∃ size isTruth, d = .zeroed size isTruth
  unlogged : b.log = []

theorem Fresh.plug (h : Fresh b) (size : Nat) (isTruth : Bool) :
    Fresh (b.plug (.zeroed size isTruth)).1 where
  map.filled m hm := by
    obtain ⟨cells, isTruth', fills⟩ := h.map.filled m hm
    obtain ⟨held, eq⟩ := Array.getElem?_eq_some_iff.1 fills.here
    exact ⟨cells, isTruth', hm, by rw [Bus.plug, Array.getElem?_push_lt held, eq], fills.size⟩
  map.apart := h.map.apart
  zero d hd := by
    rcases Array.mem_push.1 hd with old | rfl
    · exact h.zero d old
    · exact ⟨size, isTruth, rfl⟩
  unlogged := h.unlogged

theorem Fresh.register (h : Fresh b) {first last : Int} {number : Nat}
    (registered : b.register first last number = .ok b')
    (apart : ∀ m ∈ b.mappings, m.device ≠ number ∧ (m.last < first ∨ last < m.first)) : Fresh b' := by
  obtain ⟨d, here⟩ := exists_of_register registered
  obtain ⟨size, isTruth, rfl⟩ := h.zero d (Array.mem_of_getElem? here)
  obtain ⟨size, rfl⟩ := register_eq_ok here registered
  refine ⟨⟨fun m hm => ?_, ?_⟩, h.zero, h.unlogged⟩
  · rcases List.mem_append.1 hm with old | new
    · obtain ⟨cells, isTruth', fills⟩ := h.map.filled m old
      exact ⟨cells, isTruth', hm, fills.here, fills.size⟩
    · rw [List.mem_singleton] at new
      subst new
      exact ⟨_, _, hm, here, size⟩
  · refine List.pairwise_append.2 ⟨h.map.apart, List.pairwise_singleton _ _, fun m hm m' new => ?_⟩
    rw [List.mem_singleton.1 new]
    exact apart m hm

theorem Wired.fresh (h : b.Wired) : Fresh b := by
  induction h with
  | empty => exact ⟨⟨by simp, .nil⟩, by simp, rfl⟩
  | plug _ size isTruth ih => exact ih.plug size isTruth
  | register _ registered apart ih => exact ih.register registered apart

theorem Fresh.peek (h : Fresh b) (mapped : b.maps a = true) : b.peek a = .ok 0 := by
  obtain ⟨m, cells, isTruth, inside, fills, -⟩ := h.map.find?_of_maps mapped
  obtain ⟨size, isTruth', zero⟩ := h.zero _ (Array.mem_of_getElem? fills.here)
  cases zero
  rw [h.map.peek_of_fills fills inside, Array.getD_eq_getD_getElem?, Array.getElem?_replicate]
  split <;> rfl

end Bus

end Chip8
