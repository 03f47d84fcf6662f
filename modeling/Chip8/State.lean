import Chip8.Framebuffer
import Chip8.Text.Numeral
/-! The registers of the machine. They are integers, since a host may set them to anything; running
programs keep them in range. -/

namespace Chip8

/-- Memory ends here; programs start at `programBase`. -/
def memorySize : Nat := 4096

def programBase : Int := 0x200

def maxProgramSize : Nat := 3584

/-- Digits 0 to F, five rows of pixels each, at the bottom of memory. -/
def font : List UInt8 :=
  [0xF0, 0x90, 0x90, 0x90, 0xF0, 0x20, 0x60, 0x20, 0x20, 0x70, 0xF0, 0x10, 0xF0, 0x80, 0xF0,
    0xF0, 0x10, 0xF0, 0x10, 0xF0, 0x90, 0x90, 0xF0, 0x10, 0x10, 0xF0, 0x80, 0xF0, 0x10, 0xF0,
    0xF0, 0x80, 0xF0, 0x90, 0xF0, 0xF0, 0x10, 0x20, 0x40, 0x40, 0xF0, 0x90, 0xF0, 0x90, 0xF0,
    0xF0, 0x90, 0xF0, 0x10, 0xF0, 0xF0, 0x90, 0xF0, 0x90, 0x90, 0xE0, 0x90, 0xE0, 0x90, 0xE0,
    0xF0, 0x80, 0x80, 0x80, 0xF0, 0xE0, 0x90, 0x90, 0x90, 0xE0, 0xF0, 0x80, 0xF0, 0x80, 0xF0,
    0xF0, 0x80, 0xF0, 0x80, 0x80]

structure State where
  pc : Int := programBase
  sp : Int := 0
  v : Vector Int 16 := Vector.replicate 16 0
  i : Int := 0
  stack : Vector Int 16 := Vector.replicate 16 0
  delay : Int := 0
  sound : Int := 0
  programEnd : Int := programBase
  screen : Framebuffer := Framebuffer.screen
  deriving DecidableEq

namespace State

def isLoaded (s : State) : Bool := programBase < s.programEnd

def base : Fin 16 := ⟨0, by decide⟩

def flag : Fin 16 := ⟨15, by decide⟩

def setV (s : State) (k : Fin 16) (value : Int) : State := { s with v := s.v.set k value }

def setStack (s : State) (k : Fin 16) (value : Int) : State :=
  { s with stack := s.stack.set k value }

/-- Sets the flag first and the low byte of the result after it, so the result wins in the flag
register. -/
def setResult (s : State) (x : Fin 16) (flagged : Bool) (result : Int) : State :=
  (s.setV flag (if flagged then 1 else 0)).setV x (result % 256)

def skip (s : State) : State := { s with pc := (s.pc + 2) % 65536 }

def skipIf (s : State) (c : Bool) : State := if c then s.skip else s

/-- The stack slot of a pointer. A negative pointer counts from the top. -/
def slot? (sp : Int) : Option (Fin 16) :=
  if h : 0 ≤ sp ∧ sp < 16 then some ⟨sp.toNat, by omega⟩
  else if h : -16 ≤ sp ∧ sp < 0 then some ⟨(sp + 16).toNat, by omega⟩
  else none

def registers (s : State) : List (String × Int) :=
  (List.finRange 16).map (fun k : Fin 16 => ("V" ++ Text.upperHex 1 k.val, s.v.get k))
    ++ [("I", s.i), ("PC", s.pc), ("SP", s.sp), ("DT", s.delay), ("ST", s.sound)]

def register? (s : State) (name : String) : Option Int := s.registers.lookup name

end State

def registerLayout : List (String × List (String × Nat)) :=
  [("General", (List.range 16).map fun k : Nat => ("V" ++ Text.upperHex 1 k, 8)),
    ("Index/Pointers", [("I", 16), ("PC", 16), ("SP", 8)]),
    ("Timers", [("DT", 8), ("ST", 8)])]

end Chip8
