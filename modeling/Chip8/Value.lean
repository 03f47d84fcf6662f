import Chip8.Extent
import Chip8.Text.Quoted
import Chip8.Text.Shortest
/-! Dynamic values: what a configuration file or a caller hands over before it is checked. The main facts
are the two texts of a value, plain and quoted, and the reading of a value as bytes. -/

namespace Chip8

inductive Value
  | null
  | bool (b : Bool)
  | int (n : Int)
  | real (x : Float)
  | text (s : String)
  | list (items : List Value)
  | map (entries : List (Value × Value))

namespace Value

def typeName : Value → String
  | null => "NoneType"
  | bool _ => "bool"
  | int _ => "int"
  | real _ => "float"
  | text _ => "str"
  | list _ => "list"
  | map _ => "dict"

/-- Null, false, zero and whatever is empty count as false. -/
def isTruthy : Value → Bool
  | null => false
  | bool b => b
  | int n => n != 0
  | real x => x != 0.0
  | text s => s != ""
  | list items => !items.isEmpty
  | map entries => !entries.isEmpty

mutual

/-- The text of a value inside a list or a mapping, where text is quoted. -/
def quoted : Value → List Char
  | null => ['N', 'o', 'n', 'e']
  | bool true => ['T', 'r', 'u', 'e']
  | bool false => ['F', 'a', 'l', 's', 'e']
  | int n => (toString n).toList
  | real x => (Text.Shortest.ofFloat x).toList
  | text s => Text.quoted s.toList
  | list [] => ['[', ']']
  | list (item :: items) => '[' :: quoted item ++ quotedItems items ++ [']']
  | map [] => ['\x7b', '\x7d']
  | map ((key, value) :: entries) =>
    '\x7b' :: quoted key ++ ':' :: ' ' :: quoted value ++ quotedEntries entries ++ ['\x7d']

def quotedItems : List Value → List Char
  | [] => []
  | item :: items => ',' :: ' ' :: quoted item ++ quotedItems items

def quotedEntries : List (Value × Value) → List Char
  | [] => []
  | (key, value) :: entries =>
    ',' :: ' ' :: quoted key ++ ':' :: ' ' :: quoted value ++ quotedEntries entries

end

mutual

/-- Whether the text of a value can be written: no integer in it has too many digits for that. -/
def isWritable : Value → Bool
  | int n => !Text.exceedsDigitLimit n
  | list items => areWritable items
  | map entries => entriesWritable entries
  | _ => true

def areWritable : List Value → Bool
  | [] => true
  | item :: items => isWritable item && areWritable items

def entriesWritable : List (Value × Value) → Bool
  | [] => true
  | (key, value) :: entries => isWritable key && isWritable value && entriesWritable entries

end

def plain : Value → String
  | text s => s
  | v => String.ofList v.quoted

/-- The number a value stands for; true and false are one and zero. An infinity and what is no number
stand for none. -/
def number? : Value → Option Rat
  | bool b => some (if b then 1 else 0)
  | int n => some n
  | real x =>
    let bits := x.toBits.toNat
    let exponent := bits >>> 52 % 0x800
    let size := (Text.Shortest.Span.ofFields exponent (bits % (1 <<< 52))).value
    if exponent = 2047 then none else some (if bits >>> 63 = 1 then -size else size)
  | _ => none

/-- Whether two values are the same key: numbers by size, text by its characters. Of what is no number
there is one key. -/
def sameKey : Value → Value → Bool
  | text s, text t => s == t
  | null, null => true
  | real x, real y => x == y || (x.isNaN && y.isNaN)
  | a, b =>
    match a.number?, b.number? with
    | some x, some y => x == y
    | _, _ => false

/-- Sets a key; a key that is there keeps its place and its spelling. -/
def setEntry (key value : Value) : List (Value × Value) → List (Value × Value)
  | [] => [(key, value)]
  | entry :: entries =>
    if sameKey entry.1 key then (entry.1, value) :: entries
    else entry :: setEntry key value entries

def ofEntries (entries : List (Value × Value)) : Value :=
  map (entries.foldl (fun acc entry => setEntry entry.1 entry.2 acc) [])

inductive BytesFault
  | outOfRange
  | notInteger (typeName : String)
  | negativeCount
  | extent (why : ExtentFault)
  | tooLarge
  | text
  | unconvertible (typeName : String)
  deriving DecidableEq

def BytesFault.message : BytesFault → String
  | outOfRange => "bytes must be in range(0, 256)"
  | notInteger t => s!"'{t}' object cannot be interpreted as an integer"
  | negativeCount => "negative count"
  | extent why => why.message
  | tooLarge => "byte string is too large"
  | text => "string argument without an encoding"
  | unconvertible t => s!"cannot convert '{t}' object to bytes"

def integer? : Value → Option Int
  | bool b => some (if b then 1 else 0)
  | int n => some n
  | _ => none

def toByte (v : Value) : Except BytesFault UInt8 :=
  match v.integer? with
  | none => .error (.notInteger v.typeName)
  | some n => if 0 ≤ n ∧ n < 256 then .ok (UInt8.ofNat n.toNat) else .error .outOfRange

/-- The number of bytes that an integer stands for. It is an index that is not negative, and the bytes
with their bookkeeping take no more than the last index says. -/
def byteCount (n : Int) (memory : Option Int := none) : Except BytesFault Nat :=
  if !isIndex n then .error (.extent .beyondIndex)
  else if n < 0 then .error .negativeCount
  else if indexEnd - 34 < n then .error .tooLarge
  else if memory.any (· ≤ n) then .error (.extent .noMemory)
  else .ok n.toNat

/-- The bytes of a value: the items of a list, the keys of a mapping, or so many zeros as an integer
says. -/
def toBytes : Value → Except BytesFault (List UInt8)
  | list items => items.mapM toByte
  | map entries => entries.mapM fun entry => toByte entry.1
  | text _ => .error .text
  | int n => (byteCount n).map (List.replicate · 0)
  | bool b => .ok (List.replicate b.toNat 0)
  | v => .error (.unconvertible v.typeName)

end Value

end Chip8
