import Chip8.Instruction
import Chip8.Symbols
import Chip8.Text.Quoted
import Chip8.Text.Uppercase
/-! Operands: the number notations, and the kinds of operand an instruction can have. A notation is told
by its form alone, before symbols are looked up, so no label can capture a number. -/

namespace Chip8.Assembly

inductive SourceFault
  | numeral (why : Text.NumeralFault)
  | undefined (text : List Char)
  | duplicateLabel (label : List Char)
  | unknownMnemonic (name : List Char)
  | outOfRange (value : Int) (name : List Char)
  | invalidOperands (name text : List Char)
  deriving DecidableEq

def SourceFault.message : SourceFault → String
  | numeral why => why.message
  | undefined text => "Undefined symbol or invalid value: " ++ String.ofList text
  | duplicateLabel label => "duplicate label '" ++ String.ofList label ++ "'"
  | unknownMnemonic name => "unknown mnemonic '" ++ String.ofList name ++ "'"
  | outOfRange value name =>
    "operand value " ++ Text.markedHex 0 value ++ " out of range for " ++ String.ofList name
  | invalidOperands name text =>
    "invalid operands for " ++ String.ofList name ++ ": '" ++ String.ofList text ++ "'"

def isHexDigit (c : Char) : Bool := c.isDigit || (Text.letterValue? c).isSome

/-- The form with an h at the end: a decimal digit, then hexadecimal digits. -/
def hasHexSuffix (text : List Char) : Bool :=
  match text with
  | [] => false
  | first :: rest =>
    first.isDigit && (rest.getLast? == some 'h' || rest.getLast? == some 'H')
      && rest.dropLast.all isHexDigit

def isDecimal (text : List Char) : Bool := !text.isEmpty && text.all Char.isDigit

def readHex (text : List Char) : Except SourceFault Int :=
  (Text.readInt .hexadecimal text).mapError .numeral

/-- The value of a number or a symbol. Decimal numbers have so many digits at most. -/
def valueOf (symbols : Symbols) (text : List Char) (limit : Option Nat := some Text.digitLimit) :
    Except SourceFault Int :=
  let text := Text.strip text
  if text.head? = some '$' then readHex text.tail
  else if Text.hasHexMark text then readHex text
  else if hasHexSuffix text then readHex text.dropLast
  else if isDecimal text then (Text.readInt .decimal text limit).mapError .numeral
  else
    match symbols.address? (String.ofList text) with
    | some address => .ok address
    | none => .error (.undefined text)

inductive Operand
  | register (k : Fin 16)
  | keyword (k : Keyword)
  | immediate (text : List Char)
  | address (text : List Char)
  deriving DecidableEq

def register? (name : List Char) : Option (Fin 16) :=
  match name with
  | ['V', d] => (List.finRange 16).find? fun k => digitText k.val == [d]
  | _ => none

def Operand.classify (text : List Char) : Operand :=
  let upper := Text.uppercase text
  match register? upper with
  | some k => .register k
  | none =>
    match Keyword.ofName? upper with
    | some k => .keyword k
    | none =>
      match text with
      | '#' :: rest => .immediate rest
      | _ => .address text

/-- Whether an operand can stand in a slot. The mark of an immediate may be left out. -/
def Operand.fits : Operand → Slot → Bool
  | .register k, .reg0 => k.val == 0
  | .register _, .regX | .register _, .regY => true
  | .keyword k, .keyword k' => k == k'
  | .immediate _, .byte | .immediate _, .height => true
  | .address _, .byte | .address _, .height | .address _, .address => true
  | _, _ => false

end Chip8.Assembly
