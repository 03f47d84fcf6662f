import Chip8.Execution
/-! The machine: its instruction cycle, reset, programs and timers. A program that is not accepted changes
nothing (`loadProgram_rejected`). -/

namespace Chip8

namespace Machine

variable {π : Type}

def loadBlock (address : Int) (block : List UInt8) : Effect π Unit := fun m =>
  match m.bus.loadBlock address block with
  | (.ok (), bus) => (.ok (), { m with bus })
  | (.error e, bus) => (.error (.bus e), { m with bus })

/-- Registers as at power-on, memory zero but for the font, no program. Symbols and host stay. -/
def reset : Effect π Unit := do
  Action.modify fun m => { m with state := {}, cycles := 0 }
  loadBlock 0 (List.replicate memorySize 0)
  loadBlock 0 font
  Action.modify Core.clearLog

def powerOn (host : π) : Machine π :=
  (reset { state := {}, bus := Bus.flat memorySize, host : Machine π }).2

/-- Why an image is not accepted, if it is not. -/
def imageFault? (image : List UInt8) : Option ProgramFault :=
  if image.isEmpty then some .empty
  else if maxProgramSize < image.length then some (.tooLong image.length)
  else none

def loadImage (image : List UInt8) : Effect π Unit := do
  match imageFault? image with
  | some why => Action.fail (.invalidProgram why)
  | none =>
    loadBlock programBase image
    Core.modifyState fun s => { s with pc := programBase, programEnd := programBase + image.length }

/-- The bytes of a value that a caller offers as a program. Integers and text are refused, though they
could be read as bytes. -/
def imageOfValue (v : Value) : Except ProgramFault (List UInt8) :=
  match v with
  | .int _ | .bool _ | .text _ => .error (.notBytes v.typeName)
  | _ =>
    match v.toBytes with
    | .ok image => .ok image
    | .error why => .error (.badBytes why)

def loadProgram (v : Value) : Effect π Unit :=
  match imageOfValue v with
  | .error why => Action.fail (.invalidProgram why)
  | .ok image => loadImage image

def restoreState (s : State) (m : Machine π) : Machine π := { m with state := s }

def setSymbols (table : Symbols) (m : Machine π) : Machine π := { m with symbols := table }

variable [Host π]

/-- One tick of both timers. The tone follows the sound timer while that runs. -/
def tick (m : Machine π) : Machine π :=
  let s := m.state
  let s := if 0 < s.delay then { s with delay := s.delay - 1 } else s
  if 0 < s.sound then
    let s := { s with sound := s.sound - 1 }
    { m with state := s, host := Host.setTone (s.sound != 0) m.host }
  else { m with state := s }

def tickMany : Nat → Machine π → Machine π
  | 0, m => m
  | n + 1, m => tickMany n m.tick

/-- An instruction has to lie in the program, both bytes of it. -/
def checkFetch (s : State) : Except Fault Unit :=
  if s.pc < programBase ∨ s.programEnd ≤ s.pc + 1 then
    .error (.programCounter s.pc programBase s.programEnd)
  else .ok ()

/-- The word at an address, high byte first. Behind the last address of the address space comes the
first. -/
def readWord (address : Int) : Effect π Int := do
  let high ← Core.readByte address
  let low ← Core.readByte (wrap (address + 1))
  pure (high.toNat * 256 + low.toNat : Nat)

def fetch : Effect π Int := do
  let s ← getState
  readWord s.pc

end Machine

open Machine in
/-- The processor of the machine: instructions of two bytes, one cycle each. -/
def chip8 (π : Type) [Host π] : Processor State π Instruction where
  isReady := State.isLoaded
  counter := State.pc
  checkFetch := checkFetch
  fetch := fetch
  decode z := Instruction.ofWord? z.toNat
  advance _ s := { s with pc := (s.pc + 2) % 65536 }
  execute := execute
  cost _ := 1

abbrev Trace := Snapshot State Instruction

namespace Machine

variable {π : Type}

def step [Host π] (count : Int) : Effect π (Option Trace) := (chip8 π).step count

theorem loadProgram_rejected {v : Value} {why : ProgramFault} (h : imageOfValue v = .error why)
    (m : Machine π) : loadProgram v m = (.error (.invalidProgram why), m) := by
  simp [loadProgram, h]

theorem loadImage_rejected {image : List UInt8} {why : ProgramFault}
    (h : imageFault? image = some why) (m : Machine π) :
    loadImage image m = (.error (.invalidProgram why), m) := by
  simp [loadImage, h]

end Machine

def Snapshot.operation (t : Trace) : Operation := Operation.ofInstruction t.instruction

def Snapshot.listing (t : Trace) : String := labelled t.label t.operation.text

/-- What a host may assign. Register and stack indices may be negative. -/
inductive Field
  | v (index : Int)
  | flag
  | stack (index : Int)
  | pc | sp | i | delay | sound | programEnd
  deriving DecidableEq

/-- A state with a field assigned; only an index can be wrong. The flag takes the low byte of its
value. -/
def State.assign (s : State) (field : Field) (value : Int) : Except Fault State :=
  match field with
  | .v index =>
    match State.slot? index with
    | some k => .ok (s.setV k value)
    | none => .error (.noSlot index true)
  | .flag => .ok (s.setV State.flag (value % 256))
  | .stack index =>
    match State.slot? index with
    | some k => .ok (s.setStack k value)
    | none => .error (.noSlot index true)
  | .pc => .ok { s with pc := value }
  | .sp => .ok { s with sp := value }
  | .i => .ok { s with i := value }
  | .delay => .ok { s with delay := value }
  | .sound => .ok { s with sound := value }
  | .programEnd => .ok { s with programEnd := value }

end Chip8
