import Chip8.Bus
import Chip8.Value
/-! What can go wrong in a machine, by cause, and the message of each cause. -/

namespace Chip8

inductive Interruption
  | interrupted
  | timedOut
  | noSource
  | stated (message : String)
  deriving DecidableEq

def Interruption.message : Interruption → String
  | interrupted => "Key wait interrupted"
  | timedOut => "Key wait timed out"
  | noSource => "No key input source attached"
  | stated m => m

/-- An interruption with a message of its own; an empty one does not count. -/
def Interruption.ofMessage (m : String) : Interruption :=
  if m = "" then .interrupted else .stated m

inductive ProgramFault
  | notBytes (typeName : String)
  | badBytes (why : Value.BytesFault)
  | empty
  | tooLong (size : Nat)
  | below (lowest base : Int)
  | outside (highest : Int)
  | stated (message : String)
  deriving DecidableEq

def ProgramFault.message : ProgramFault → String
  | notBytes t => s!"Program image must be a sequence of bytes, not {t}."
  | badBytes why => s!"Program image must be a sequence of bytes: {why.message}"
  | empty => "Program image is empty."
  | tooLong n => s!"Program image is {n} bytes; at most 3584 bytes fit above 0x200."
  | below lowest base =>
    s!"Program data at {Text.markedHex 5 lowest} lies below the load address {Text.markedHex 5 base}."
  | outside highest =>
    s!"Program data at {Text.markedHex 0 highest} lies outside the 4096-byte address space."
  | stated m => m

def keypadMessage (key : Int) : String := s!"Key {key} is outside the keypad range 0-15."

inductive Fault
  | invalidProgram (why : ProgramFault)
  | unknownOpcode (address word : Int)
  | programCounter (pc lower upper : Int)
  | stackOverflow (pc depth : Int)
  | stackUnderflow (pc : Int)
  | keyWait (why : Interruption)
  | invalidKey (key : Int)
  | noSuchKey (key : Int)
  | bus (why : BusFault)
  | noSlot (index : Int) (storing : Bool)
  | noExecutor (pattern : String)
  | badNumeral (r : Text.Radix) (text : List Char)
  deriving DecidableEq

namespace Fault

def message : Fault → String
  | invalidProgram why => why.message
  | unknownOpcode address word => s!"Unknown opcode {Text.upperHex 4 word} at {Text.markedHex 5 address}"
  | programCounter pc lower upper =>
    s!"Program counter {Text.markedHex 5 pc} outside program bounds [{Text.markedHex 5 lower}, {Text.markedHex 5 upper})"
  | stackOverflow pc depth => s!"Call stack overflow (depth {depth}) at {Text.markedHex 5 pc}"
  | stackUnderflow pc => s!"Return with empty call stack at {Text.markedHex 5 pc}"
  | keyWait why => why.message
  | invalidKey key => s!"Keyboard reported key {key} outside 0-F"
  | noSuchKey key => keypadMessage key
  | bus why => why.message
  | noSlot index storing =>
    if !isIndex index then ExtentFault.beyondIndex.message
    else if storing then "list assignment index out of range"
    else "list index out of range"
  | noExecutor pattern => s!"No executor registered for pattern '{pattern}'."
  | badNumeral r text => Text.malformedNumeral r text

/-- Faults of the emulated program, as opposed to faults of the host around it. -/
def isEmulation : Fault → Bool
  | invalidProgram _ | unknownOpcode .. | programCounter .. | stackOverflow .. | stackUnderflow _
  | keyWait _ | invalidKey _ => true
  | _ => false

end Fault

end Chip8
