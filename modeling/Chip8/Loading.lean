import Chip8.Assembly
import Chip8.Directory
import Chip8.HexFile
import Chip8.Image
import Chip8.Machine
import Chip8.Text.TextFile
/-! Loading a program file into a machine. The extension of the name tells the format: hex file, assembly
source, or raw bytes. A file that cannot be loaded leaves the machine as it was (`loadFile_prepared`). -/

namespace Chip8

inductive LoadFault
  | machine (why : Fault)
  | assembly (why : AssemblyFault)
  | hex (why : HexFault)
  | file (why : FileFault)
  deriving DecidableEq

def LoadFault.message : LoadFault → String
  | machine why => why.message
  | assembly why => why.message
  | hex why => why.message
  | file why => why.message

namespace Loading

/-- The part of a name from its last dot on, in lower case. Dots that only dots stand before in the last
part of the path do not count. -/
def extension (name : List Char) : List Char :=
  let last := (name.reverse.takeWhile (· != '/')).reverse
  let named := last.dropWhile (· == '.')
  if named.contains '.' then
    ('.' :: (named.reverse.takeWhile (· != '.')).reverse).map Char.toLower
  else []

inductive Format
  | hex
  | assembly
  | raw
  deriving DecidableEq

def Format.ofName (name : String) : Format :=
  let ext := extension name.toList
  if ext = ['.', 'h', 'e', 'x'] then .hex
  else if ext = ['.', 'a', 's', 'm'] ∨ ext = ['.', 's'] then .assembly
  else .raw

def imageOf (bytes : List (Int × Int)) : Except LoadFault (List UInt8) :=
  match Image.ofPairs bytes with
  | .ok image => .ok image
  | .error why => .error (.machine (.invalidProgram why))

def prepare (format : Format) (content : List UInt8) : Except LoadFault (List UInt8 × Symbols) :=
  match format with
  | .raw => .ok (content, [])
  | .hex => do
    match HexFile.parse content with
    | .error why => .error (.hex why)
    | .ok bytes =>
      let image ← imageOf bytes
      pure (image, [])
  | .assembly =>
    let file := Text.TextFile.ofBytes content
    match file.fault with
    | some why => .error (.file (.encoding why))
    | none =>
      match assemble file.lines with
      | .error why => .error (.assembly why)
      | .ok code => do
        let image ← imageOf (code.bytes.map fun p => (p.1, (p.2.toNat : Int)))
        pure (image, code.symbols)

end Loading

namespace Machine

variable {π : Type}

/-- Loads a file, given by its content if it can be opened; the answer is the symbols. -/
def loadFile (name : String) (content : Except FileFault (List UInt8)) :
    Action (Machine π) LoadFault Symbols := fun m =>
  match content with
  | .error why => (.error (.file why), m)
  | .ok bytes =>
    match Loading.prepare (Loading.Format.ofName name) bytes with
    | .error why => (.error why, m)
    | .ok (image, symbols) =>
      match loadImage image m with
      | (.error why, m) => (.error (.machine why), m)
      | (.ok (), m) => (.ok symbols, m.setSymbols symbols)

theorem loadFile_prepared {name : String} {bytes : List UInt8} {why : LoadFault}
    (h : Loading.prepare (Loading.Format.ofName name) bytes = .error why) (m : Machine π) :
    loadFile name (.ok bytes) m = (.error why, m) := by
  simp [loadFile, h]

end Machine

end Chip8
