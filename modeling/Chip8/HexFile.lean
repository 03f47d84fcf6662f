import Chip8.Text.Quoted
import Chip8.Text.TextFile
/-! Hex files in Intel's format: records of bytes with an address, a type and a checksum. Lines that do not
start with a colon are passed over, and nothing after an end-of-file record is looked at. -/

namespace Chip8

/-- What can be wrong in a record that can be cut into fields at all. -/
inductive RecordFault
  | numeral (text : List Char)
  | length (line : Nat)
  deriving DecidableEq

inductive HexFault
  | tooShort (line : Nat) (text : List Char)
  | malformed (line : Nat) (text : List Char) (why : RecordFault)
  | checksum (line : Nat) (calculated expected : Int)
  | unknownType (line : Nat) (type : Int)
  | badBase (text : List Char)
  | encoding (why : Text.EncodingFault)
  deriving DecidableEq

def RecordFault.message : RecordFault → String
  | numeral text => Text.malformedNumeral .hexadecimal text
  | length line => s!"Data length mismatch on line {line}"

def HexFault.message : HexFault → String
  | tooShort line text =>
    s!"Invalid Intel HEX record format on line {line}: Too short - " ++ String.ofList text
  | malformed line text why =>
    s!"Error parsing Intel HEX line {line}: " ++ String.ofList text ++ " - " ++ why.message
  | checksum line calculated expected =>
    s!"Checksum mismatch on line {line}: Calculated {Text.upperHex 2 calculated}, Expected {Text.upperHex 2 expected}"
  | unknownType line type => s!"Unknown Intel HEX record type {Text.upperHex 2 type} on line {line}"
  | badBase text => Text.malformedNumeral .hexadecimal text
  | encoding why => why.message

namespace HexFile

structure Record where
  address : Int
  type : Int
  dataText : List Char
  data : List Int
  checksum : Int
  deriving DecidableEq

def field (text : List Char) : Except RecordFault Int :=
  match Text.readInt? .hexadecimal text with
  | some n => .ok n
  | none => .error (.numeral text)

def pairsOf : List Char → List (List Char)
  | a :: b :: rest => [a, b] :: pairsOf rest
  | _ => []

/-- The fields of a record: after the colon two digits of count, four of address, two of type, the data,
and two of checksum. -/
def Record.parse (line : Nat) (text : List Char) : Except RecordFault Record := do
  let count ← field ((text.drop 1).take 2)
  let address ← field ((text.drop 3).take 4)
  let type ← field ((text.drop 7).take 2)
  let dataText := (text.drop 9).take (text.length - 11)
  let checksum ← field (text.drop (text.length - 2))
  if (dataText.length : Int) = count * 2 then
    let data ← (pairsOf dataText).mapM field
    pure { address, type, dataText, data, checksum }
  else .error (.length line)

/-- The checksum that makes all bytes of a record add up to zero. -/
def Record.sum (r : Record) : Int :=
  -(r.data.length + r.address / 256 + r.address % 256 + r.type + r.data.foldl (· + ·) 0) % 256

/-- The record text of a line without its comment, if the line is a record. -/
def recordText? (line : List Char) : Option (List Char) :=
  let text := Text.strip line
  if text.head? = some ':' then some (Text.strip (text.takeWhile (· != ';'))) else none

def dataAt : Int → List Int → List (Int × Int)
  | _, [] => []
  | address, b :: bs => (address, b) :: dataAt (address + 1) bs

/-- What a record does: bytes at addresses, the end, a new base, or nothing. -/
inductive Directive
  | data (bytes : List (Int × Int))
  | endOfFile
  | base (value : Int)
  | start
  deriving DecidableEq

def Record.directive (line : Nat) (base : Int) (r : Record) : Except HexFault Directive :=
  let newBase (unit : Int) : Except HexFault Directive :=
    match Text.readInt? .hexadecimal r.dataText with
    | some n => .ok (.base (n * unit))
    | none => .error (.badBase r.dataText)
  if r.type = 0 then .ok (.data (dataAt (base + r.address) r.data))
  else if r.type = 1 then .ok .endOfFile
  else if r.type = 2 then newBase 16
  else if r.type = 4 then newBase 65536
  else if r.type = 3 ∨ r.type = 5 then .ok .start
  else .error (.unknownType line r.type)

def readRecord (line : Nat) (base : Int) (text : List Char) : Except HexFault Directive :=
  if text.length < 11 then .error (.tooShort line text)
  else
    match Record.parse line text with
    | .error why => .error (.malformed line text why)
    | .ok r =>
      if r.sum = r.checksum then r.directive line base
      else .error (.checksum line r.sum r.checksum)

/-- The bytes of the lines from a line number and a base on; a fault of the file counts if no record
ends it before. -/
def readLines (fault : Option Text.EncodingFault) :
    Nat → Int → List (List Char) → Except HexFault (List (Int × Int))
  | _, _, [] =>
    match fault with
    | none => .ok []
    | some why => .error (.encoding why)
  | line, base, l :: ls =>
    match recordText? l with
    | none => readLines fault (line + 1) base ls
    | some text => do
      match ← readRecord line base text with
      | .endOfFile => pure []
      | .data bytes =>
        let later ← readLines fault (line + 1) base ls
        pure (bytes ++ later)
      | .base value => readLines fault (line + 1) value ls
      | .start => readLines fault (line + 1) base ls

def parse (content : List UInt8) : Except HexFault (List (Int × Int)) :=
  let file := Text.TextFile.ofBytes content
  readLines file.fault 1 0 file.lines

end HexFile

end Chip8
