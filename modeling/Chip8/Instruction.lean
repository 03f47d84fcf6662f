import Chip8.Opcode
/-! Instructions: an opcode with the word that holds its operand fields, and their texts. A word that no
pattern fits is shown as data. -/

namespace Chip8

def wordOf (z : Int) : Nat := (z % 65536).toNat

def lowByte (z : Int) : UInt8 := UInt8.ofNat (z % 256).toNat

/-! Fields of a word. -/

def fieldX (w : Nat) : Fin 16 := ⟨w / 256 % 16, Nat.mod_lt _ (by decide)⟩

def fieldY (w : Nat) : Fin 16 := ⟨w / 16 % 16, Nat.mod_lt _ (by decide)⟩

def fieldN (w : Nat) : Nat := w % 16

def fieldByte (w : Nat) : Nat := w % 256

def fieldAddress (w : Nat) : Nat := w % 4096

def digitText (d : Nat) : List Char := Text.upperHexDigits d

def Slot.text (w : Nat) : Slot → List Char
  | .regX => 'V' :: digitText (fieldX w)
  | .regY => 'V' :: digitText (fieldY w)
  | .height => '#' :: '$' :: digitText (fieldN w)
  | .byte => '#' :: '$' :: Text.padZeros 2 (digitText (fieldByte w))
  | .address => '$' :: Text.padZeros 3 (digitText (fieldAddress w))
  | .reg0 => ['V', '0']
  | .keyword k => k.name

structure Instruction where
  opcode : Opcode
  word : Nat
  deriving DecidableEq

def operationText (mnemonic : List Char) (operands : List (List Char)) : List Char :=
  if operands.isEmpty then mnemonic
  else mnemonic ++ ' ' :: List.intercalate [',', ' '] operands

namespace Instruction

def ofWord? (w : Nat) : Option Instruction := (Opcode.ofWord? w).map fun op => ⟨op, w⟩

def operands (i : Instruction) : List (List Char) := i.opcode.slots.map (Slot.text i.word)

def text (i : Instruction) : List Char := operationText i.opcode.mnemonic.name i.operands

end Instruction

def wordText (z : Int) : List Char :=
  match Instruction.ofWord? (wordOf z) with
  | some i => i.text
  | none => 'D' :: 'W' :: ' ' :: '$' :: (Text.upperHex 4 z).toList

/-- A decoded operation as it is reported: the word in hexadecimal, the texts, the pattern, and what the
operation costs. -/
structure Operation where
  hex : String
  mnemonic : String
  operands : List String := []
  pattern : String := ""
  cycles : Int := 1
  length : Int := 2
  deriving DecidableEq

namespace Operation

def unknownMnemonic : String := "UNKNOWN"

def isUnknown (op : Operation) : Bool := op.mnemonic == unknownMnemonic

def text (op : Operation) : String :=
  String.ofList (operationText op.mnemonic.toList (op.operands.map String.toList))

def word? (op : Operation) : Option Int := Text.readInt? .hexadecimal op.hex.toList

def ofInstruction (i : Instruction) : Operation where
  hex := Text.upperHex 4 i.word
  mnemonic := String.ofList i.opcode.mnemonic.name
  operands := i.operands.map String.ofList
  pattern := i.opcode.pattern

/-- What any integer decodes to: the instruction of its low sixteen bits, or an unknown operation. -/
def ofWord (z : Int) : Operation :=
  match Instruction.ofWord? (wordOf z) with
  | some i => ofInstruction i
  | none =>
    { hex := Text.upperHex 4 (wordOf z)
      mnemonic := unknownMnemonic
      operands := ["$" ++ Text.upperHex 4 (wordOf z)] }

end Operation

example : wordText 0x8AB4 = "ADD VA, VB".toList ∧ wordText 0xD125 = "DRW V1, V2, #$5".toList ∧
    wordText 0xF355 = "LD [I], V3".toList ∧ wordText 0x00EF = "DW $00EF".toList := by decide

end Chip8
