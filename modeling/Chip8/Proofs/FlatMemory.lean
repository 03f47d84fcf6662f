import Chip8.Proofs.RamMap

/-! A bus of cells as one memory. Behind any reads, writes, loads and blocks it answers at every mapped address with
the last byte stored there (`Shows.transfers`), and each call on it gives what one memory would (`Shows.isFlat`):
stores go by the address and the value alone, a block is its bytes one by one, and what has no place is refused. -/

namespace Chip8

inductive Transfer
  | call (c : BusCall)
  | load (address data : Int)
  | block (address : Int) (bytes : List UInt8)
  deriving DecidableEq

/-- Bytes with their addresses, one behind the other. -/
def placed (address : Int) : List UInt8 → List (Int × UInt8)
  | [] => []
  | byte :: bytes => (address, byte) :: placed (address + 1) bytes

/-- What a store of a byte leaves: a value that is no byte, or has no place, leaves nothing. -/
def storedByte (maps : Int → Bool) (address data : Int) : List (Int × UInt8) :=
  if maps address = true ∧ 0 ≤ data ∧ data < 256 then [(address, UInt8.ofNat data.toNat)] else []

/-- What a transfer stores where only some addresses are mapped, in order. A block is stored up to a gap, and not at
all if one of its ends is not mapped. -/
def Transfer.stores (maps : Int → Bool) : Transfer → List (Int × UInt8)
  | .call (.read _) => []
  | .call (.write address data) | .load address data => storedByte maps address data
  | .block address bytes =>
    if maps address = true ∧ maps (address + bytes.length - 1) = true then
      (placed address bytes).takeWhile fun store => maps store.1
    else []

def lastStored (stores : List (Int × UInt8)) (address : Int) : UInt8 := (stores.reverse.lookup address).getD 0

theorem lastStored_snoc (stores : List (Int × UInt8)) (address a : Int) (byte : UInt8) :
    lastStored (stores ++ [(address, byte)]) a = if a = address then byte else lastStored stores a := by
  rw [lastStored, List.reverse_append, List.reverse_singleton, List.singleton_append, List.lookup_cons]
  by_cases same : a = address
  · rw [if_pos same, beq_iff_eq.2 same, Option.getD_some]
  · rw [if_neg same, beq_eq_false_iff_ne.2 same, lastStored]

namespace Bus

/-- The bus behind a transfer. One that fails may have stored a part of its bytes. -/
def transfer (b : Bus) : Transfer → Bus
  | .call c => b.call c
  | .load address data =>
    match b.load address data with
    | .ok b' => b'
    | .error _ => b
  | .block address bytes => (b.loadBlock address bytes).2

def transfers (b : Bus) (ts : List Transfer) : Bus := ts.foldl transfer b

/-- The bus answers at every mapped address with the last byte stored there. -/
structure Shows (maps : Int → Bool) (stores : List (Int × UInt8)) (b : Bus) : Prop where
  map : RamMap b
  maps_eq : b.maps = maps
  peek : ∀ a, maps a = true → b.peek a = .ok (lastStored stores a)

variable {maps : Int → Bool} {stores : List (Int × UInt8)} {b b' : Bus} {a : Int}

theorem Fresh.shows (h : Fresh b) : Shows b.maps [] b := ⟨h.map, rfl, fun _ mapped => h.peek mapped⟩

theorem Shows.withLog (h : Shows maps stores b) (log : List Access) : Shows maps stores { b with log } :=
  ⟨h.map.withLog log, h.maps_eq, h.peek⟩

theorem Shows.mapped (h : Shows maps stores b) (mapped : maps a = true) : b.maps a = true := h.maps_eq ▸ mapped

theorem Shows.find?_eq_none (h : Shows maps stores b) (outside : maps a = false) : b.find? a = none :=
  find?_eq_none_of_maps (h.maps_eq ▸ outside)

theorem Shows.load (h : Shows maps stores b) (mapped : maps a = true) (byte : UInt8) :
    ∃ b', b.load a byte.toNat = .ok b' ∧ b'.log = b.log ∧ Shows maps (stores ++ [(a, byte)]) b' := by
  obtain ⟨m, cells, isTruth, inside, fills, -⟩ := h.map.find?_of_maps (h.mapped mapped)
  have size : (cells.setIfInBounds (a - m.first).toNat byte).size = cells.size := Array.size_setIfInBounds
  have map := h.map.setDevice fills size
  refine ⟨_, h.map.load_of_fills fills inside byte, rfl, map, h.maps_eq, fun a' mapped' => ?_⟩
  rw [lastStored_snoc]
  by_cases inside' : m.first ≤ a' ∧ a' ≤ m.last
  · have before := h.peek a' mapped'
    rw [h.map.peek_of_fills fills inside', Array.getD_eq_getD_getElem?] at before
    rw [map.peek_of_fills (fills.setDevice size) inside', Array.getD_eq_getD_getElem?, Array.getElem?_setIfInBounds]
    by_cases same : a' = a
    · subst same
      have lies : (a' - m.first).toNat < cells.size := by
        have := fills.inside inside
        omega
      rw [if_pos rfl, if_pos rfl, if_pos lies, Option.getD_some]
    · have differ : (a - m.first).toNat ≠ (a' - m.first).toNat := by omega
      rw [if_neg differ, if_neg same, before]
  · have differ : a' ≠ a := by
      rintro rfl
      exact inside' inside
    rw [if_neg differ, ← h.peek a' mapped']
    exact h.map.peek_setDevice_of_ne fills size (h.mapped mapped') inside'

theorem Shows.load_notByte (h : Shows maps stores b) (mapped : maps a = true) {data : Int}
    (large : ¬ (0 ≤ data ∧ data < 256)) : b.load a data = .error (.notByte data) := by
  obtain ⟨m, cells, isTruth, inside, fills, found⟩ := h.map.find?_of_maps (h.mapped mapped)
  simp only [Bus.load, found, Device.writeAt, if_pos (fills.inside inside), if_neg large]

theorem Shows.load_unmapped (h : Shows maps stores b) (outside : maps a = false) (data : Int) :
    b.load a data = .error (.unmapped a) := by
  rw [Bus.load, h.find?_eq_none outside]

theorem Shows.peek_unmapped (h : Shows maps stores b) (outside : maps a = false) : b.peek a = .error (.unmapped a) := by
  rw [Bus.peek, h.find?_eq_none outside]

/-! ### Blocks -/

/-- How bytes stored one by one end: at the first that has no place. -/
def endsAt (maps : Int → Bool) (address : Int) (bytes : List UInt8) : Except BusFault Unit :=
  match (placed address bytes).find? fun store => !maps store.1 with
  | none => .ok ()
  | some (gap, _) => .error (.unmapped gap)

theorem Shows.loadEach (h : Shows maps stores b) (a : Int) (bytes : List UInt8) :
    ∃ b', b.loadEach a bytes = (endsAt maps a bytes, b') ∧ b'.log = b.log ∧
      Shows maps (stores ++ (placed a bytes).takeWhile fun store => maps store.1) b' := by
  induction bytes generalizing b a stores with
  | nil => exact ⟨b, rfl, rfl, by rwa [placed, List.takeWhile_nil, List.append_nil]⟩
  | cons byte bytes ih =>
    cases mapped : maps a with
    | false =>
      refine ⟨b, ?_, rfl, by simpa [placed, mapped] using h⟩
      rw [Bus.loadEach, h.load_unmapped mapped]
      simp [endsAt, placed, mapped]
    | true =>
      obtain ⟨b₁, loaded, log₁, shows₁⟩ := h.load mapped byte
      obtain ⟨b₂, rest, log₂, shows₂⟩ := ih shows₁ (a + 1)
      refine ⟨b₂, ?_, log₂.trans log₁, by simpa [placed, mapped] using shows₂⟩
      rw [Bus.loadEach, loaded]
      simpa [endsAt, placed, mapped] using rest

theorem Shows.loadBlock_eq (h : Shows maps stores b) {bytes : List UInt8} (ne : bytes ≠ []) (first : maps a = true)
    (last : maps (a + bytes.length - 1) = true) : b.loadBlock a bytes = b.loadEach a bytes :=
  h.map.loadBlock_eq ne (h.mapped first) (h.mapped last)

theorem Shows.loadBlock_unmapped (h : Shows maps stores b) {bytes : List UInt8} (ne : bytes ≠ [])
    (outside : maps a = false ∨ maps (a + bytes.length - 1) = false) :
    b.loadBlock a bytes =
      (.error (.unmapped (if maps a = true then a + bytes.length - 1 else a)), b) := by
  have none : b.find? a = none ∨ b.find? (a + bytes.length - 1) = none :=
    outside.imp h.find?_eq_none h.find?_eq_none
  rw [Bus.loadBlock_unmapped ne none]
  cases first : maps a with
  | false => rw [if_pos (h.find?_eq_none first), if_neg Bool.false_ne_true]
  | true =>
    obtain ⟨m, cells, isTruth, -, -, found⟩ := h.map.find?_of_maps (h.mapped first)
    rw [if_neg (by simp [found]), if_pos rfl]

theorem Shows.loadBlock (h : Shows maps stores b) (a : Int) (bytes : List UInt8) :
    (b.loadBlock a bytes).2.log = b.log ∧
      Shows maps (stores ++ (Transfer.block a bytes).stores maps) (b.loadBlock a bytes).2 := by
  by_cases empty : bytes = []
  · subst empty
    have nothing : (Transfer.block a []).stores maps = [] := by simp [Transfer.stores, placed]
    rw [nothing, List.append_nil]
    exact ⟨rfl, h⟩
  · rw [Transfer.stores]
    split
    · rename_i ends
      obtain ⟨b', each, log, shows'⟩ := h.loadEach a bytes
      rw [h.loadBlock_eq empty ends.1 ends.2, each]
      exact ⟨log, shows'⟩
    · rename_i ends
      have outside : maps a = false ∨ maps (a + bytes.length - 1) = false := by
        simpa only [← Bool.not_eq_true, ← not_and_or] using ends
      rw [h.loadBlock_unmapped empty outside, List.append_nil]
      exact ⟨rfl, h⟩

/-! ### Any transfers -/

theorem Shows.load_cases (h : Shows maps stores b) (a data : Int) :
    (maps a = false ∧ b.load a data = .error (.unmapped a) ∧ storedByte maps a data = []) ∨
    (maps a = true ∧ ¬ (0 ≤ data ∧ data < 256) ∧ b.load a data = .error (.notByte data) ∧
      storedByte maps a data = []) ∨
    (maps a = true ∧ (0 ≤ data ∧ data < 256) ∧ ∃ b', b.load a data = .ok b' ∧ b'.log = b.log ∧
      Shows maps (stores ++ storedByte maps a data) b') := by
  cases mapped : maps a with
  | false => exact .inl ⟨rfl, h.load_unmapped mapped data, by simp [storedByte, mapped]⟩
  | true =>
    by_cases small : 0 ≤ data ∧ data < 256
    · have byte : ((UInt8.ofNat data.toNat).toNat : Int) = data := by
        rw [UInt8.toNat_ofNat']
        omega
      obtain ⟨b', loaded, log, shows'⟩ := h.load mapped (UInt8.ofNat data.toNat)
      rw [byte] at loaded
      exact .inr (.inr ⟨rfl, small, b', loaded, log, by rwa [storedByte, if_pos ⟨mapped, small⟩]⟩)
    · exact .inr (.inl ⟨rfl, small, h.load_notByte mapped small, by simp [storedByte, small]⟩)

/-- A write is a load that is logged, with the byte that was there. -/
theorem Shows.write_eq (h : Shows maps stores b) (a data : Int) :
    b.write a data =
      match b.load a data with
      | .error why => .error why
      | .ok b' => .ok { b' with log := b'.log ++ [.write a data (lastStored stores a)] } := by
  cases mapped : maps a with
  | false => rw [Bus.write, h.peek_unmapped mapped, h.load_unmapped mapped]
  | true =>
    cases loaded : b.load a data with
    | error why => simp only [Bus.write, h.peek a mapped, loaded]
    | ok b' => simp only [Bus.write, h.peek a mapped, loaded]

theorem Shows.read_eq (h : Shows maps stores b) (mapped : maps a = true) :
    b.read a = .ok (lastStored stores a, { b with log := b.log ++ [.read a (lastStored stores a)] }) := by
  rw [Bus.read, h.peek a mapped]

theorem Shows.read_unmapped (h : Shows maps stores b) (outside : maps a = false) : b.read a = .error (.unmapped a) := by
  rw [Bus.read, h.peek_unmapped outside]

theorem Shows.transfer (h : Shows maps stores b) (t : Transfer) : Shows maps (stores ++ t.stores maps) (b.transfer t) := by
  cases t with
  | call c =>
    cases c with
    | read a =>
      rw [Transfer.stores, List.append_nil, Bus.transfer, Bus.call]
      cases mapped : maps a with
      | false => rwa [h.read_unmapped mapped]
      | true =>
        rw [h.read_eq mapped]
        exact h.withLog _
    | write a data =>
      rw [Transfer.stores, Bus.transfer, Bus.call, h.write_eq]
      obtain ⟨-, refused, nothing⟩ | ⟨-, -, refused, nothing⟩ | ⟨-, -, b', loaded, -, shows'⟩ := h.load_cases a data
      · rwa [refused, nothing, List.append_nil]
      · rwa [refused, nothing, List.append_nil]
      · rw [loaded]
        exact shows'.withLog _
  | load a data =>
    rw [Transfer.stores, Bus.transfer]
    obtain ⟨-, refused, nothing⟩ | ⟨-, -, refused, nothing⟩ | ⟨-, -, b', loaded, -, shows'⟩ := h.load_cases a data
    · rwa [refused, nothing, List.append_nil]
    · rwa [refused, nothing, List.append_nil]
    · rwa [loaded]
  | block a bytes => exact (h.loadBlock a bytes).2

theorem Shows.transfers (h : Shows maps stores b) (ts : List Transfer) :
    Shows maps (stores ++ ts.flatMap (Transfer.stores maps)) (b.transfers ts) := by
  induction ts generalizing b stores with
  | nil => rwa [List.flatMap_nil, List.append_nil]
  | cons t ts ih =>
    rw [List.flatMap_cons, ← List.append_assoc]
    exact ih (h.transfer t)

/-- A bus as one memory, where only some addresses are mapped: what each call on it gives. -/
structure IsFlat (maps : Int → Bool) (stores : List (Int × UInt8)) (b : Bus) : Prop where
  /-- The last byte stored at an address is read there, once logged. -/
  read : ∀ a, maps a = true →
    b.peek a = .ok (lastStored stores a) ∧
    b.read a = .ok (lastStored stores a, { b with log := b.log ++ [.read a (lastStored stores a)] })
  unread : ∀ a, maps a = false →
    b.peek a = .error (.unmapped a) ∧ b.read a = .error (.unmapped a) ∧ b.transfer (.call (.read a)) = b
  /-- A byte is stored at a mapped address, and only a write is logged. -/
  stored : ∀ a data, maps a = true → 0 ≤ data ∧ data < 256 → ∃ b', b.load a data = .ok b' ∧ b'.log = b.log ∧
    b.write a data = .ok { b' with log := b.log ++ [.write a data (lastStored stores a)] }
  unplaced : ∀ a data, maps a = false →
    b.load a data = .error (.unmapped a) ∧ b.write a data = .error (.unmapped a)
  notByte : ∀ a data, maps a = true → ¬ (0 ≤ data ∧ data < 256) →
    b.load a data = .error (.notByte data) ∧ b.write a data = .error (.notByte data)
  refused : ∀ a data, maps a = false ∨ ¬ (0 ≤ data ∧ data < 256) →
    b.transfer (.load a data) = b ∧ b.transfer (.call (.write a data)) = b
  /-- A block between mapped ends is stored byte by byte, up to a gap. -/
  block : ∀ a bytes, bytes ≠ [] → maps a = true → maps (a + bytes.length - 1) = true →
    b.loadBlock a bytes = b.loadEach a bytes ∧ (b.loadBlock a bytes).1 = endsAt maps a bytes
  unblocked : ∀ a bytes, bytes ≠ [] → maps a = false ∨ maps (a + bytes.length - 1) = false →
    b.loadBlock a bytes = (.error (.unmapped (if maps a = true then a + bytes.length - 1 else a)), b)
  unlogged : ∀ a bytes, (b.loadBlock a bytes).2.log = b.log

theorem Shows.isFlat (h : Shows maps stores b) : IsFlat maps stores b where
  read a mapped := ⟨h.peek a mapped, h.read_eq mapped⟩
  unread a outside := by
    have refused := h.read_unmapped outside
    exact ⟨h.peek_unmapped outside, refused, by simp only [Bus.transfer, Bus.call, refused]⟩
  stored a data mapped small := by
    obtain ⟨outside, -⟩ | ⟨-, large, -⟩ | ⟨-, -, b', loaded, log, -⟩ := h.load_cases a data
    · rw [mapped] at outside
      cases outside
    · exact absurd small large
    · refine ⟨b', loaded, log, ?_⟩
      rw [h.write_eq, loaded]
      dsimp only
      rw [log]
  unplaced a data outside := by
    have refused := h.load_unmapped outside data
    exact ⟨refused, by rw [h.write_eq, refused]⟩
  notByte a data mapped large := by
    have refused := h.load_notByte mapped large
    exact ⟨refused, by rw [h.write_eq, refused]⟩
  refused a data why := by
    obtain ⟨-, refused, -⟩ | ⟨-, -, refused, -⟩ | ⟨mapped, small, -⟩ := h.load_cases a data
    · simp only [Bus.transfer, Bus.call, h.write_eq, refused, and_self]
    · simp only [Bus.transfer, Bus.call, h.write_eq, refused, and_self]
    · rcases why with outside | large
      · rw [mapped] at outside
        cases outside
      · exact absurd small large
  block a bytes ne first last := by
    obtain ⟨b', each, -, -⟩ := h.loadEach a bytes
    have same := h.loadBlock_eq ne first last
    exact ⟨same, by rw [same, each]⟩
  unblocked _ _ ne outside := h.loadBlock_unmapped ne outside
  unlogged a bytes := (h.loadBlock a bytes).1

/-- Behind any transfers a bus of cells is one memory of the bytes stored so far. -/
theorem transfers_isFlat {b : Bus} (wired : b.Wired) (ts : List Transfer) :
    (b.transfers ts).IsFlat b.maps (ts.flatMap (Transfer.stores b.maps)) :=
  (wired.fresh.shows.transfers ts).isFlat

/-- Two cells, a gap of one address and three cells. -/
def gapped : Bus where
  devices := #[.zeroed 2, .zeroed 3]
  mappings := [⟨0x10, 0x11, 0⟩, ⟨0x13, 0x15, 1⟩]

theorem wired_gapped : gapped.Wired := by
  have two : Device.ofSize 2 = .ok (.zeroed 2) := rfl
  have three : Device.ofSize 3 = .ok (.zeroed 3) := rfl
  have first : Wired ⟨#[.zeroed 2], [⟨0x10, 0x11, 0⟩], []⟩ :=
    (Wired.empty.plug_ofSize two).register (show Bus.register _ 0x10 0x11 0 = _ from rfl) (by simp [plug])
  exact (first.plug_ofSize three).register (show Bus.register _ 0x13 0x15 1 = _ from rfl) (by simp [plug])

theorem transfers_isFlat_gapped :
    gapped.Wired ∧
    (gapped.transfers [.block 0x10 [1, 2, 3, 4, 5], .call (.write 0x13 7), .load 0x13 8, .load 0x12 9]).IsFlat
      gapped.maps [(0x10, 1), (0x11, 2), (0x13, 7), (0x13, 8)] := by
  have stores : [Transfer.block 0x10 [1, 2, 3, 4, 5], .call (.write 0x13 7), .load 0x13 8, .load 0x12 9].flatMap
      (Transfer.stores gapped.maps) = [(0x10, 1), (0x11, 2), (0x13, 7), (0x13, 8)] := by decide
  rw [← stores]
  exact ⟨wired_gapped, transfers_isFlat wired_gapped _⟩

end Bus

end Chip8
