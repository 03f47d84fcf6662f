import Chip8.Extent
import Chip8.Text.Numeral
/-! The bus: devices mapped to ranges of addresses, with a log of the accesses made. The first mapping
that holds an address wins. -/

namespace Chip8

/-- A logged access: the byte read, or the byte written with the byte it replaced. -/
inductive Access
  | read (address : Int) (data : UInt8)
  | write (address data : Int) (previous : UInt8)
  deriving DecidableEq

/-- A number of cells. One cell may have been asked for by the truth value true, which messages then
show. -/
structure CellCount where
  cells : Nat
  isTruth : Bool := false
  deriving DecidableEq

def CellCount.text (n : CellCount) : String := if n.isTruth then "True" else toString n.cells

inductive BusFault
  | unmapped (address : Int)
  | outOfBounds (address : Int) (size : CellCount)
  | blockOutOfBounds (first afterLast : Int) (size : CellCount)
  | notByte (data : Int)
  | refused (text : String)
  | badRange
  | noDevice
  | sizeMismatch (size : CellCount) (expected : Int)
  | badSize
  | extent (why : ExtentFault)
  deriving DecidableEq

def BusFault.message : BusFault → String
  | unmapped a => s!"Address {Text.markedHex 6 a} not mapped to any device."
  | outOfBounds a n => s!"Address {a} out of bounds for RAM of size {n.text}."
  | blockOutOfBounds first afterLast n =>
    s!"Block {Text.markedHex 6 first}-{Text.markedHex 6 afterLast} out of bounds for RAM of size {n.text}."
  | notByte d => s!"Data {d} is not an 8-bit value."
  | refused text => text
  | badRange =>
    "Invalid address range: start_address must be <= end_address and non-negative."
  | noDevice => "Device must be an instance of a class derived from Device."
  | sizeMismatch n expected =>
    s!"Registered RAM device size ({n.text} bytes) does not match the specified address range size ({expected} bytes)."
  | badSize => "RAM size must be a positive integer."
  | extent why => why.message

/-- A device that is not made of cells: what it answers to a read at an offset and why it refuses a write there, each
a byte or its own words. What it takes at all, it takes as any byte. -/
structure Port where
  answer : Int → Except String UInt8
  refusal? : Int → Int → Option String
  takes_bytes : ∀ offset data (byte : UInt8), refusal? offset data = none → refusal? offset byte.toNat = none

/-- What an address range leads to: cells that keep what is written, or a port, with the writes that it took. -/
inductive Device
  | ram (cells : Array UInt8) (isTruth : Bool := false)
  | port (interface : Port) (writes : List (Int × Int) := [])

namespace Device

def zeroed (size : Nat) (isTruth : Bool := false) : Device := .ram (Array.replicate size 0) isTruth

def ofSize (size : Int) (isTruth : Bool := false) (memory : Option Int := none) : Except BusFault Device :=
  if 0 < size then
    match extentFault? size 1 memory with
    | some why => .error (.extent why)
    | none => .ok (zeroed size.toNat isTruth)
  else .error .badSize

def readAt : Device → Int → Except BusFault UInt8
  | ram cells isTruth, offset =>
    if 0 ≤ offset ∧ offset < cells.size then .ok (cells.getD offset.toNat 0)
    else .error (.outOfBounds offset ⟨cells.size, isTruth⟩)
  | port interface _, offset => (interface.answer offset).mapError .refused

def writeAt : Device → Int → Int → Except BusFault Device
  | ram cells isTruth, offset, data =>
    if 0 ≤ offset ∧ offset < cells.size then
      if 0 ≤ data ∧ data < 256 then
        .ok (.ram (cells.setIfInBounds offset.toNat (UInt8.ofNat data.toNat)) isTruth)
      else .error (.notByte data)
    else .error (.outOfBounds offset ⟨cells.size, isTruth⟩)
  | port interface writes, offset, data =>
    match interface.refusal? offset data with
    | some why => .error (.refused why)
    | none => .ok (.port interface (writes ++ [(offset, data)]))

/-- Cells with a block laid over them from a position on. -/
def overlay (cells : Array UInt8) (start : Nat) (block : Array UInt8) : Array UInt8 :=
  cells.mapIdx fun i cell => if i < start then cell else block.getD (i - start) cell

/-- Writes a block into cells at once, or nothing if it does not fit. -/
def writeBlock (cells : Array UInt8) (isTruth : Bool) (offset : Int) (block : List UInt8) :
    Except BusFault Device :=
  if 0 ≤ offset ∧ offset + block.length ≤ cells.size then
    .ok (.ram (overlay cells offset.toNat block.toArray) isTruth)
  else .error (.blockOutOfBounds offset (offset + block.length) ⟨cells.size, isTruth⟩)

end Device

/-- A range of addresses, ends included, and the number of its device. -/
structure Mapping where
  first : Int
  last : Int
  device : Nat
  deriving DecidableEq

structure Bus where
  devices : Array Device := #[]
  mappings : List Mapping := []
  log : List Access := []

namespace Bus

def plug (b : Bus) (d : Device) : Bus × Nat :=
  ({ b with devices := b.devices.push d }, b.devices.size)

/-- Maps a range to a device. Ranges may overlap; cells have to fill theirs. -/
def register (b : Bus) (first last : Int) (device : Nat) : Except BusFault Bus :=
  let mapped : Bus := { b with mappings := b.mappings ++ [⟨first, last, device⟩] }
  if 0 ≤ first ∧ first ≤ last then
    match b.devices[device]? with
    | none => .error .noDevice
    | some (.port _ _) => .ok mapped
    | some (.ram cells isTruth) =>
      if (cells.size : Int) = last - first + 1 then .ok mapped
      else .error (.sizeMismatch ⟨cells.size, isTruth⟩ (last - first + 1))
  else .error .badRange

def flat (size : Nat) : Bus :=
  { devices := #[.zeroed size], mappings := [⟨0, (size : Int) - 1, 0⟩] }

def find? (b : Bus) (address : Int) : Option (Nat × Device × Int) :=
  match b.mappings.find? fun m => m.first ≤ address && address ≤ m.last with
  | none => none
  | some m => (b.devices[m.device]?).map fun d => (m.device, d, address - m.first)

def peek (b : Bus) (address : Int) : Except BusFault UInt8 :=
  match b.find? address with
  | none => .error (.unmapped address)
  | some (_, d, offset) => d.readAt offset

def read (b : Bus) (address : Int) : Except BusFault (UInt8 × Bus) :=
  match b.peek address with
  | .error e => .error e
  | .ok data => .ok (data, { b with log := b.log ++ [.read address data] })

def setDevice (b : Bus) (number : Nat) (d : Device) : Bus :=
  { b with devices := b.devices.setIfInBounds number d }

def load (b : Bus) (address data : Int) : Except BusFault Bus :=
  match b.find? address with
  | none => .error (.unmapped address)
  | some (number, d, offset) =>
    match d.writeAt offset data with
    | .error e => .error e
    | .ok d => .ok (b.setDevice number d)

def write (b : Bus) (address data : Int) : Except BusFault Bus :=
  match b.peek address with
  | .error e => .error e
  | .ok previous =>
    match b.load address data with
    | .error e => .error e
    | .ok b => .ok { b with log := b.log ++ [.write address data previous] }

def loadEach (b : Bus) (address : Int) : List UInt8 → Except BusFault Unit × Bus
  | [] => (.ok (), b)
  | byte :: bytes =>
    match b.load address byte.toNat with
    | .error e => (.error e, b)
    | .ok b => b.loadEach (address + 1) bytes

/-- Loads a block: at once if its two ends lie in the same cells, else byte by byte. An end that is not
mapped fails before anything is written. -/
def loadBlock (b : Bus) (address : Int) (block : List UInt8) : Except BusFault Unit × Bus :=
  if block.isEmpty then (.ok (), b)
  else
    let last := address + block.length - 1
    match b.find? address with
    | none => (.error (.unmapped address), b)
    | some (number, d, offset) =>
      match b.find? last with
      | none => (.error (.unmapped last), b)
      | some (lastNumber, _, _) =>
        match d with
        | .ram cells isTruth =>
          if number = lastNumber then
            match Device.writeBlock cells isTruth offset block with
            | .error e => (.error e, b)
            | .ok d => (.ok (), b.setDevice number d)
          else b.loadEach address block
        | .port _ _ => b.loadEach address block

def takeLog (b : Bus) : List Access × Bus := (b.log, { b with log := [] })

end Bus

/-- The accesses of a list that are writes, undone from the last to the first. -/
def Bus.revert (b : Bus) (accesses : List Access) : Except BusFault Unit × Bus :=
  accesses.foldr (fun access r =>
    match access, r with
    | .write address _ previous, (.ok (), b) =>
      match b.load address previous.toNat with
      | .error e => (.error e, b)
      | .ok b => (.ok (), b)
    | _, r => r) (.ok (), b)

namespace Device

theorem size_overlay (cells : Array UInt8) (start : Nat) (block : Array UInt8) :
    (overlay cells start block).size = cells.size := by
  simp [overlay]

theorem getElem_overlay (cells : Array UInt8) (start : Nat) (block : Array UInt8) (i : Nat)
    (h : i < cells.size) :
    (overlay cells start block).getD i 0 =
      if i < start then cells.getD i 0 else block.getD (i - start) (cells.getD i 0) := by
  simp [overlay, h]

end Device

end Chip8
