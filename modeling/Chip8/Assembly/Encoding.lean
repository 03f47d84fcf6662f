import Chip8.Assembly.Line
import Chip8.Assembly.Operand
/-! Encoding of an instruction: the first opcode of the mnemonic whose slots the operands fit, with the
operand values in its fields. A value that does not fit its field is refused and never reaches other
bits. -/

namespace Chip8.Assembly

/-- The weight of a slot's field in the word and the number of values it can hold. -/
def slotField : Slot → Nat × Nat
  | .regX => (256, 16)
  | .regY => (16, 16)
  | .height => (1, 16)
  | .byte => (1, 256)
  | .address => (1, 4096)
  | .reg0 | .keyword _ => (1, 1)

/-- The operand value that goes into the field of a slot. -/
def slotValue (symbols : Symbols) (name : List Char) (slot : Slot) (operand : Operand) :
    Except SourceFault Nat :=
  match operand with
  | .register k => .ok (if slot = .reg0 then 0 else k)
  | .keyword _ => .ok 0
  | .immediate text | .address text =>
    match valueOf symbols text with
    | .error e => .error e
    | .ok value =>
      if 0 ≤ value ∧ value < (slotField slot).2 then .ok value.toNat
      else .error (.outOfRange value name)

def fitAll : List Operand → List Slot → Bool
  | [], [] => true
  | o :: os, s :: ss => o.fits s && fitAll os ss
  | _, _ => false

def addFields (symbols : Symbols) (name : List Char) :
    Nat → List Slot → List Operand → Except SourceFault Nat
  | word, slot :: slots, operand :: operands =>
    match slotValue symbols name slot operand with
    | .error e => .error e
    | .ok value => addFields symbols name (word + value * (slotField slot).1) slots operands
  | word, _, _ => .ok word

def candidates (m : Mnemonic) : List Opcode := Opcode.all.filter fun op => op.mnemonic == m

def encode (symbols : Symbols) (name text : List Char) : Except SourceFault Nat :=
  match Mnemonic.ofName? name with
  | none => .error (.unknownMnemonic name)
  | some m =>
    let operands := (operandsOf text).map Operand.classify
    match (candidates m).find? fun op => fitAll operands op.slots with
    | none => .error (.invalidOperands name text)
    | some op => addFields symbols name op.base op.slots operands

end Chip8.Assembly
