import Chip8.Assembly.Encoding
/-! The assembler. The first pass gives every label the value of the location counter at its line, from
the lengths of the statements; the second pass emits bytes and counts them. -/

namespace Chip8

/-- A fault with the number of its line, from one on. -/
structure AssemblyFault where
  line : Nat
  why : Assembly.SourceFault
  deriving DecidableEq

def AssemblyFault.message (f : AssemblyFault) : String := s!"Line {f.line}: {f.why.message}"

/-- Symbols, and bytes with their addresses in the order of emission. -/
structure ObjectCode where
  symbols : Symbols
  bytes : List (Int × UInt8)
  deriving DecidableEq

namespace Assembly

inductive Statement
  | origin (text : List Char)
  | bytes (items : List (List Char))
  | words (items : List (List Char))
  | instruction (name text : List Char)
  deriving DecidableEq

def Statement.ofLine (name text : List Char) : Statement :=
  if name = ['O', 'R', 'G'] then .origin text
  else if name = ['D', 'B'] then .bytes (operandsOf text)
  else if name = ['D', 'W'] then .words (operandsOf text)
  else .instruction name text

def SourceLine.statement? (l : SourceLine) : Option Statement :=
  l.statement.map fun s => Statement.ofLine s.1 s.2

def wordBytes (value : Int) : List UInt8 := [lowByte (value / 256), lowByte value]

def Statement.size : Statement → Nat
  | .origin _ => 0
  | .bytes items => items.length
  | .words items => 2 * items.length
  | .instruction _ _ => 2

def Statement.emit (symbols : Symbols) : Statement → Except SourceFault (List UInt8)
  | .origin _ => .ok []
  | .bytes items => do
    let values ← items.mapM fun text => valueOf symbols text
    pure (values.map lowByte)
  | .words items => do
    let values ← items.mapM fun text => valueOf symbols text
    pure (values.flatMap wordBytes)
  | .instruction name text => do
    let word ← encode symbols name text
    pure (wordBytes word)

def atLine {α : Type} (line : Nat) : Except SourceFault α → Except AssemblyFault α
  | .ok a => .ok a
  | .error why => .error ⟨line, why⟩

/-- An origin is a number; no symbol counts in it. -/
def originOf (line : Nat) (text : List Char) : Except AssemblyFault Int :=
  atLine line (valueOf [] text)

def define (line : Nat) (counter : Int) (symbols : Symbols) :
    Option (List Char) → Except AssemblyFault Symbols
  | none => .ok symbols
  | some label =>
    if label.isEmpty then .ok symbols
    else if (symbols.address? (String.ofList label)).isSome then
      .error ⟨line, .duplicateLabel label⟩
    else .ok (symbols ++ [(String.ofList label, counter)])

def counterBehind (line : Nat) (counter : Int) : Option Statement → Except AssemblyFault Int
  | none => .ok counter
  | some (.origin text) => originOf line text
  | some s => .ok (counter + s.size)

/-- Collects the symbols of the lines from a line number and a counter on. -/
def collect : Nat → Int → Symbols → List SourceLine → Except AssemblyFault Symbols
  | _, _, symbols, [] => .ok symbols
  | line, counter, symbols, l :: ls => do
    let symbols ← define line counter symbols l.label
    let next ← counterBehind line counter l.statement?
    collect (line + 1) next symbols ls

def place : Int → List UInt8 → List (Int × UInt8)
  | _, [] => []
  | address, b :: bs => (address, b) :: place (address + 1) bs

def emitFrom (symbols : Symbols) :
    Nat → Int → List SourceLine → Except AssemblyFault (List (Int × UInt8))
  | _, _, [] => .ok []
  | line, counter, l :: ls =>
    match l.statement? with
    | none => emitFrom symbols (line + 1) counter ls
    | some (.origin text) => do
      let next ← originOf line text
      emitFrom symbols (line + 1) next ls
    | some s => do
      let bytes ← atLine line (s.emit symbols)
      let later ← emitFrom symbols (line + 1) (counter + bytes.length) ls
      pure (place counter bytes ++ later)

end Assembly

open Assembly in
def assemble (lines : List (List Char)) : Except AssemblyFault ObjectCode := do
  let parsed := lines.map SourceLine.parse
  let symbols ← collect 1 0x200 [] parsed
  let bytes ← emitFrom symbols 1 0x200 parsed
  pure { symbols, bytes }

end Chip8
