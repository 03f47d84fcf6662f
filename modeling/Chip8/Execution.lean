import Chip8.Host
import Chip8.Instruction
import Chip8.Processor
import Chip8.State
/-! What each instruction does. The program counter already points behind the instruction; every
flag-writing instruction reads its operands before it writes the flag, and its result after that. -/

namespace Chip8

abbrev Machine (π : Type) := Core State π

abbrev Effect (π α : Type) := Action (Machine π) Fault α

namespace Machine

variable {π : Type}

def getState : Effect π State := fun m => (.ok m.state, m)

def modifyHost (f : π → π) : Effect π Unit := Action.modify fun m => { m with host := f m.host }

def ask {α : Type} (f : π → α × π) : Effect π α := fun m =>
  let r := f m.host
  (.ok r.1, { m with host := r.2 })

variable [Host π]

/-- An address relative to the index register, in the twelve-bit address space. -/
def wrap (address : Int) : Int := address % 4096

/-- Whether the key is held whose number is in the low four bits. -/
def isPressed (key : Int) : Effect π Bool := ask (Host.isPressed (key % 16).toNat)

def render : Effect π Unit := do
  let s ← getState
  modifyHost (Host.render s.screen)

def litColumns (sprite : UInt8) : List Nat :=
  (List.range 8).filter fun c => sprite.toNat.testBit (7 - c)

/-- Flips the lit columns of a sprite row; the answer is whether a lit pixel went dark. -/
def flipRow (fb : Framebuffer) (x y : Int) (sprite : UInt8) : Bool × Framebuffer :=
  (litColumns sprite).foldl (fun r (c : Nat) =>
    let flipped := r.2.flipPixel (x + c) y
    (r.1 || flipped.1, flipped.2)) (false, fb)

def drawRow (x y : Int) (row : Nat) : Effect π Unit := do
  let s ← getState
  let sprite ← Core.readByte (wrap (s.i + row))
  Core.modifyState fun s =>
    let drawn := flipRow s.screen x (y + row) sprite
    let s := { s with screen := drawn.2 }
    if drawn.1 then s.setV State.flag 1 else s

def draw (x y : Fin 16) (height : Nat) : Effect π Unit := do
  let s ← getState
  let originX := s.v.get x % s.screen.width
  let originY := s.v.get y % s.screen.height
  Core.modifyState fun s => s.setV State.flag 0
  Action.each (drawRow originX originY) (List.range height)
  render

def ret : Effect π Unit := do
  let s ← getState
  if s.sp = 0 then Action.fail (.stackUnderflow (s.pc - 2))
  else
    Core.modifyState fun s => { s with sp := s.sp - 1 }
    match State.slot? (s.sp - 1) with
    | none => Action.fail (.noSlot (s.sp - 1) false)
    | some k => Core.modifyState fun s => { s with pc := s.stack.get k }

def call (target : Nat) : Effect π Unit := do
  let s ← getState
  if 16 ≤ s.sp then Action.fail (.stackOverflow (s.pc - 2) s.sp)
  else
    match State.slot? s.sp with
    | none => Action.fail (.noSlot s.sp true)
    | some k =>
      Core.modifyState fun s => { s.setStack k s.pc with sp := s.sp + 1, pc := target }

/-- Waits for a key. An interrupted wait moves the program counter back, so that the instruction can be
tried again. -/
def waitKey : Effect π Int := do
  match ← ask Host.waitKey with
  | .error (.interrupted why) =>
    Core.modifyState fun s => { s with pc := (s.pc - 2) % 65536 }
    Action.fail (.keyWait why)
  | .error fault => Action.fail fault.toFault
  | .ok key =>
    if 0 ≤ key ∧ key < 16 then pure key else Action.fail (.invalidKey key)

def storeRegister (k : Fin 16) : Effect π Unit := do
  let s ← getState
  Core.writeByte (wrap (s.i + k.val)) (s.v.get k)

def restoreRegister (k : Fin 16) : Effect π Unit := do
  let s ← getState
  let b ← Core.readByte (wrap (s.i + k.val))
  Core.modifyState (State.setV · k b.toNat)

def registersUpTo (x : Fin 16) : List (Fin 16) := (List.finRange 16).take (x.val + 1)

def storeDecimal (value : Int) : Effect π Unit := do
  let s ← getState
  Core.writeByte (wrap s.i) (value / 100)
  Core.writeByte (wrap (s.i + 1)) (value / 10 % 10)
  Core.writeByte (wrap (s.i + 2)) (value % 10)

/-- What an opcode does with the operand fields of a word. -/
def perform (op : Opcode) (w : Nat) : Effect π Unit := do
  let x := fieldX w
  let y := fieldY w
  match op with
  | .clearScreen =>
    Core.modifyState fun s => { s with screen := s.screen.clear }
    modifyHost Host.clearDisplay
    render
  | .ret => ret
  | .jump => Core.modifyState fun s => { s with pc := fieldAddress w }
  | .call => call (fieldAddress w)
  | .skipEqByte => Core.modifyState fun s => s.skipIf (s.v.get x == fieldByte w)
  | .skipNeByte => Core.modifyState fun s => s.skipIf (s.v.get x != fieldByte w)
  | .skipEq => Core.modifyState fun s => s.skipIf (s.v.get x == s.v.get y)
  | .skipNe => Core.modifyState fun s => s.skipIf (s.v.get x != s.v.get y)
  | .loadByte => Core.modifyState (State.setV · x (fieldByte w))
  | .addByte => Core.modifyState fun s => s.setV x ((s.v.get x + fieldByte w) % 256)
  | .move => Core.modifyState fun s => s.setV x (s.v.get y)
  | .or =>
    Core.modifyState fun s => s.setResult x false (lowByte (s.v.get x) ||| lowByte (s.v.get y)).toNat
  | .and =>
    Core.modifyState fun s => s.setResult x false (lowByte (s.v.get x) &&& lowByte (s.v.get y)).toNat
  | .xor =>
    Core.modifyState fun s => s.setResult x false (lowByte (s.v.get x) ^^^ lowByte (s.v.get y)).toNat
  | .add =>
    Core.modifyState fun s => s.setResult x (255 < s.v.get x + s.v.get y) (s.v.get x + s.v.get y)
  | .sub => Core.modifyState fun s => s.setResult x (s.v.get y ≤ s.v.get x) (s.v.get x - s.v.get y)
  | .shiftRight => Core.modifyState fun s => s.setResult x (s.v.get x % 2 == 1) (s.v.get x / 2)
  | .subFrom =>
    Core.modifyState fun s => s.setResult x (s.v.get x ≤ s.v.get y) (s.v.get y - s.v.get x)
  | .shiftLeft => Core.modifyState fun s => s.setResult x (s.v.get x / 128 % 2 == 1) (s.v.get x * 2)
  | .loadIndex => Core.modifyState fun s => { s with i := fieldAddress w }
  | .jumpFromV0 =>
    Core.modifyState fun s => { s with pc := wrap (s.v.get State.base + fieldAddress w) }
  | .random =>
    let b ← ask Host.randomByte
    Core.modifyState (State.setV · x (b &&& lowByte (fieldByte w)).toNat)
  | .draw => draw x y (fieldN w)
  | .skipPressed =>
    let s ← getState
    let pressed ← isPressed (s.v.get x)
    Core.modifyState (State.skipIf · pressed)
  | .skipReleased =>
    let s ← getState
    let pressed ← isPressed (s.v.get x)
    Core.modifyState (State.skipIf · (!pressed))
  | .loadDelay => Core.modifyState fun s => s.setV x s.delay
  | .awaitKey =>
    let key ← waitKey
    Core.modifyState (State.setV · x key)
  | .setDelay => Core.modifyState fun s => { s with delay := s.v.get x }
  | .setSound => Core.modifyState fun s => { s with sound := s.v.get x }
  | .addIndex => Core.modifyState fun s => { s with i := wrap (s.i + s.v.get x) }
  | .glyph => Core.modifyState fun s => { s with i := s.v.get x * 5 }
  | .decimal =>
    let s ← getState
    storeDecimal (s.v.get x)
  | .store => Action.each storeRegister (registersUpTo x)
  | .restore => Action.each restoreRegister (registersUpTo x)

def execute (i : Instruction) : Effect π Unit := perform i.opcode i.word

/-- Executes an operation as it was reported: its pattern names the opcode, and its word is read only
where the opcode has operands, after a key has been waited for. -/
def executeOperation (op : Operation) : Effect π Unit := do
  match Opcode.ofPattern? op.pattern with
  | none => Action.fail (.noExecutor op.pattern)
  | some opcode =>
    match op.word? with
    | some z => perform opcode (wordOf z)
    | none =>
      if opcode.slots.isEmpty then perform opcode 0
      else
        if opcode = .awaitKey then discard waitKey
        Action.fail (.badNumeral .hexadecimal op.hex.toList)

end Machine

end Chip8
