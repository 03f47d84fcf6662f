import Chip8.Execution
import Chip8.Proofs.Memory

/-! The machine of the instruction table: registers of eight bits, addresses of twelve, and one row for each
opcode. A row starts with the program counter behind the instruction. It says at once what the whole
instruction leaves, with no loop and no order of accesses, and it names what it changes: all else is that
of the machine before. -/

namespace Chip8

open Function (update)

/-- What an instruction may ask of the world: which keys are down, the key that ends a wait, and a
random byte. -/
structure Answers where
  pressed : Nat → Bool
  key : Except WaitFault Int
  random : UInt8

def Answers.ofHost {π : Type} [Host π] (host : π) : Answers where
  pressed k := (Host.isPressed k host).1
  key := (Host.waitKey host).1
  random := (Host.randomByte host).1

structure Reference where
  v : Fin 16 → UInt8
  i : Fin 4096
  pc : Nat
  sp : Nat
  stack : Fin 16 → Nat
  delay : UInt8
  sound : UInt8
  programEnd : Nat
  pixel : Fin 64 → Fin 32 → Bool
  memory : Fin 4096 → UInt8

namespace Reference

def setV (r : Reference) (x : Fin 16) (byte : UInt8) : Reference := { r with v := update r.v x byte }

/-- The flag first and the result after it, both from the registers before. -/
def setFlagged (r : Reference) (x : Fin 16) (flag result : UInt8) : Reference :=
  (r.setV State.flag flag).setV x result

def skipIf (r : Reference) (c : Bool) : Reference := if c then { r with pc := r.pc + 2 } else r

def byteAt (r : Reference) (k : Nat) : UInt8 := r.memory (r.i + Fin.ofNat 4096 k)

/-- Whether a sprite of so many rows with its corner at an origin lights a pixel; both coordinates go
round. -/
def lights (r : Reference) (originX : Fin 64) (originY : Fin 32) (height : Nat) (x : Fin 64)
    (y : Fin 32) : Bool :=
  (x - originX).val < 8 && (y - originY).val < height &&
    (r.byteAt (y - originY).val).toNat.testBit (7 - (x - originX).val)

def Collides (r : Reference) (originX : Fin 64) (originY : Fin 32) (height : Nat) : Prop :=
  ∃ x y, r.pixel x y ∧ r.lights originX originY height x y

instance (r : Reference) (originX : Fin 64) (originY : Fin 32) (height : Nat) :
    Decidable (r.Collides originX originY height) :=
  inferInstanceAs (Decidable (∃ x y, r.pixel x y ∧ r.lights originX originY height x y))

/-- Pixels that the sprite lights are turned over; the flag tells of a collision. -/
def draw (r : Reference) (originX : Fin 64) (originY : Fin 32) (height : Nat) : Reference :=
  { r with
    pixel := fun x y => r.pixel x y ^^ r.lights originX originY height x y
    v := update r.v State.flag (if r.Collides originX originY height then 1 else 0) }

def store (r : Reference) (count : Nat) : Reference :=
  { r with
    memory := fun p =>
      if (p - r.i).val < count then r.v (Fin.ofNat 16 (p - r.i).val) else r.memory p }

def restore (r : Reference) (count : Nat) : Reference :=
  { r with v := fun k => if k.val < count then r.byteAt k.val else r.v k }

/-- The row of an opcode. It fails where the table says so, and where a wait for a key fails. -/
def row (op : Opcode) (w : Nat) (a : Answers) (r : Reference) : Except Fault Reference :=
  let x := fieldX w
  let y := fieldY w
  let n := fieldN w
  let byte := UInt8.ofNat (fieldByte w)
  let address := fieldAddress w
  let vx := r.v x
  let vy := r.v y
  match op with
  | .clearScreen => .ok { r with pixel := fun _ _ => false }
  | .ret =>
    if r.sp = 0 then .error (.stackUnderflow (r.pc - 2))
    else .ok { r with sp := r.sp - 1, pc := r.stack (Fin.ofNat 16 (r.sp - 1)) }
  | .jump => .ok { r with pc := address }
  | .call =>
    if r.sp = 16 then .error (.stackOverflow (r.pc - 2) 16)
    else .ok { r with stack := update r.stack (Fin.ofNat 16 r.sp) r.pc, sp := r.sp + 1, pc := address }
  | .skipEqByte => .ok (r.skipIf (vx == byte))
  | .skipNeByte => .ok (r.skipIf (vx != byte))
  | .skipEq => .ok (r.skipIf (vx == vy))
  | .skipNe => .ok (r.skipIf (vx != vy))
  | .loadByte => .ok (r.setV x byte)
  | .addByte => .ok (r.setV x (vx + byte))
  | .move => .ok (r.setV x vy)
  | .or => .ok (r.setFlagged x 0 (vx ||| vy))
  | .and => .ok (r.setFlagged x 0 (vx &&& vy))
  | .xor => .ok (r.setFlagged x 0 (vx ^^^ vy))
  | .add => .ok (r.setFlagged x (if 255 < vx.toNat + vy.toNat then 1 else 0) (vx + vy))
  | .sub => .ok (r.setFlagged x (if vy ≤ vx then 1 else 0) (vx - vy))
  | .shiftRight => .ok (r.setFlagged x (vx &&& 1) (vx >>> 1))
  | .subFrom => .ok (r.setFlagged x (if vx ≤ vy then 1 else 0) (vy - vx))
  | .shiftLeft => .ok (r.setFlagged x (vx >>> 7) (vx <<< 1))
  | .loadIndex => .ok { r with i := Fin.ofNat 4096 address }
  | .jumpFromV0 => .ok { r with pc := ((r.v State.base).toNat + address) % 4096 }
  | .random => .ok (r.setV x (a.random &&& byte))
  | .draw => .ok (r.draw (Fin.ofNat 64 vx.toNat) (Fin.ofNat 32 vy.toNat) n)
  | .skipPressed => .ok (r.skipIf (a.pressed (vx.toNat % 16)))
  | .skipReleased => .ok (r.skipIf (!a.pressed (vx.toNat % 16)))
  | .loadDelay => .ok (r.setV x r.delay)
  | .awaitKey =>
    match a.key with
    | .error why => .error why.toFault
    | .ok key =>
      if 0 ≤ key ∧ key < 16 then .ok (r.setV x (UInt8.ofNat key.toNat)) else .error (.invalidKey key)
  | .setDelay => .ok { r with delay := vx }
  | .setSound => .ok { r with sound := vx }
  | .addIndex => .ok { r with i := r.i + Fin.ofNat 4096 vx.toNat }
  | .glyph => .ok { r with i := Fin.ofNat 4096 (vx.toNat * 5) }
  | .decimal =>
    .ok { r with
      memory := update (update (update r.memory r.i (vx / 100)) (r.i + 1) (vx / 10 % 10))
        (r.i + 2) (vx % 10) }
  | .store => .ok (r.store (x.val + 1))
  | .restore => .ok (r.restore (x.val + 1))

end Reference

end Chip8
