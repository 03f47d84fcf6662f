import Chip8.Text.Numeral
/-! The instruction set as a table. Each opcode has a pattern of four hexadecimal digits, a mnemonic and
operand slots; `Opcode.ofWord?` finds the opcode of a word. A pattern names its opcode
(`Opcode.ofPattern?_pattern`). -/

namespace Chip8

/-- A position of a pattern: a digit that is fixed, or one that belongs to an operand. -/
inductive PatternDigit
  | fixed (d : Nat)
  | x
  | y
  | n
  deriving DecidableEq

inductive Mnemonic
  | cls | ret | jp | call | se | sne | ld | add | or | and | xor | sub | shr | subn | shl | rnd | drw
  | skp | sknp
  deriving DecidableEq

inductive Keyword
  | index | delay | sound | key | font | decimal | memory
  deriving DecidableEq

/-- What an operand position holds: a register, an immediate of one or two digits, an address, register
V0 and no other, or a keyword. -/
inductive Slot
  | regX | regY | height | byte | address | reg0
  | keyword (k : Keyword)
  deriving DecidableEq

inductive Opcode
  | clearScreen | ret | jump | call | skipEqByte | skipNeByte | skipEq | loadByte | addByte
  | move | or | and | xor | add | sub | shiftRight | subFrom | shiftLeft
  | skipNe | loadIndex | jumpFromV0 | random | draw | skipPressed | skipReleased
  | loadDelay | awaitKey | setDelay | setSound | addIndex | glyph | decimal | store | restore
  deriving DecidableEq

def Mnemonic.all : List Mnemonic :=
  [.cls, .ret, .jp, .call, .se, .sne, .ld, .add, .or, .and, .xor, .sub, .shr, .subn, .shl, .rnd, .drw,
    .skp, .sknp]

def Mnemonic.name : Mnemonic → List Char
  | .cls => ['C', 'L', 'S']
  | .ret => ['R', 'E', 'T']
  | .jp => ['J', 'P']
  | .call => ['C', 'A', 'L', 'L']
  | .se => ['S', 'E']
  | .sne => ['S', 'N', 'E']
  | .ld => ['L', 'D']
  | .add => ['A', 'D', 'D']
  | .or => ['O', 'R']
  | .and => ['A', 'N', 'D']
  | .xor => ['X', 'O', 'R']
  | .sub => ['S', 'U', 'B']
  | .shr => ['S', 'H', 'R']
  | .subn => ['S', 'U', 'B', 'N']
  | .shl => ['S', 'H', 'L']
  | .rnd => ['R', 'N', 'D']
  | .drw => ['D', 'R', 'W']
  | .skp => ['S', 'K', 'P']
  | .sknp => ['S', 'K', 'N', 'P']

def Mnemonic.ofName? (name : List Char) : Option Mnemonic :=
  Mnemonic.all.find? fun m => m.name == name

def Keyword.all : List Keyword := [.index, .delay, .sound, .key, .font, .decimal, .memory]

def Keyword.name : Keyword → List Char
  | .index => ['I']
  | .delay => ['D', 'T']
  | .sound => ['S', 'T']
  | .key => ['K']
  | .font => ['F']
  | .decimal => ['B']
  | .memory => ['[', 'I', ']']

def Keyword.ofName? (name : List Char) : Option Keyword :=
  Keyword.all.find? fun k => k.name == name

namespace Opcode

def all : List Opcode :=
  [clearScreen, ret, jump, call, skipEqByte, skipNeByte, skipEq, loadByte, addByte, move, or, and, xor,
    add, sub, shiftRight, subFrom, shiftLeft, skipNe, loadIndex, jumpFromV0, random, draw, skipPressed,
    skipReleased, loadDelay, awaitKey, setDelay, setSound, addIndex, glyph, decimal, store, restore]

def digits : Opcode → List PatternDigit
  | clearScreen => [.fixed 0, .fixed 0, .fixed 0xE, .fixed 0]
  | ret => [.fixed 0, .fixed 0, .fixed 0xE, .fixed 0xE]
  | jump => [.fixed 1, .n, .n, .n]
  | call => [.fixed 2, .n, .n, .n]
  | skipEqByte => [.fixed 3, .x, .n, .n]
  | skipNeByte => [.fixed 4, .x, .n, .n]
  | skipEq => [.fixed 5, .x, .y, .fixed 0]
  | loadByte => [.fixed 6, .x, .n, .n]
  | addByte => [.fixed 7, .x, .n, .n]
  | move => [.fixed 8, .x, .y, .fixed 0]
  | or => [.fixed 8, .x, .y, .fixed 1]
  | and => [.fixed 8, .x, .y, .fixed 2]
  | xor => [.fixed 8, .x, .y, .fixed 3]
  | add => [.fixed 8, .x, .y, .fixed 4]
  | sub => [.fixed 8, .x, .y, .fixed 5]
  | shiftRight => [.fixed 8, .x, .y, .fixed 6]
  | subFrom => [.fixed 8, .x, .y, .fixed 7]
  | shiftLeft => [.fixed 8, .x, .y, .fixed 0xE]
  | skipNe => [.fixed 9, .x, .y, .fixed 0]
  | loadIndex => [.fixed 0xA, .n, .n, .n]
  | jumpFromV0 => [.fixed 0xB, .n, .n, .n]
  | random => [.fixed 0xC, .x, .n, .n]
  | draw => [.fixed 0xD, .x, .y, .n]
  | skipPressed => [.fixed 0xE, .x, .fixed 9, .fixed 0xE]
  | skipReleased => [.fixed 0xE, .x, .fixed 0xA, .fixed 1]
  | loadDelay => [.fixed 0xF, .x, .fixed 0, .fixed 7]
  | awaitKey => [.fixed 0xF, .x, .fixed 0, .fixed 0xA]
  | setDelay => [.fixed 0xF, .x, .fixed 1, .fixed 5]
  | setSound => [.fixed 0xF, .x, .fixed 1, .fixed 8]
  | addIndex => [.fixed 0xF, .x, .fixed 1, .fixed 0xE]
  | glyph => [.fixed 0xF, .x, .fixed 2, .fixed 9]
  | decimal => [.fixed 0xF, .x, .fixed 3, .fixed 3]
  | store => [.fixed 0xF, .x, .fixed 5, .fixed 5]
  | restore => [.fixed 0xF, .x, .fixed 6, .fixed 5]

def mnemonic : Opcode → Mnemonic
  | clearScreen => .cls
  | ret => .ret
  | jump | jumpFromV0 => .jp
  | call => .call
  | skipEqByte | skipEq => .se
  | skipNeByte | skipNe => .sne
  | loadByte | move | loadIndex | loadDelay | awaitKey | setDelay | setSound | glyph | decimal | store
  | restore => .ld
  | addByte | add | addIndex => .add
  | or => .or
  | and => .and
  | xor => .xor
  | sub => .sub
  | shiftRight => .shr
  | subFrom => .subn
  | shiftLeft => .shl
  | random => .rnd
  | draw => .drw
  | skipPressed => .skp
  | skipReleased => .sknp

def slots : Opcode → List Slot
  | clearScreen | ret => []
  | jump | call => [.address]
  | skipEqByte | skipNeByte | loadByte | addByte | random => [.regX, .byte]
  | skipEq | skipNe | move | or | and | xor | add | sub | shiftRight | subFrom | shiftLeft => [.regX, .regY]
  | loadIndex => [.keyword .index, .address]
  | jumpFromV0 => [.reg0, .address]
  | draw => [.regX, .regY, .height]
  | skipPressed | skipReleased => [.regX]
  | loadDelay => [.regX, .keyword .delay]
  | awaitKey => [.regX, .keyword .key]
  | setDelay => [.keyword .delay, .regX]
  | setSound => [.keyword .sound, .regX]
  | addIndex => [.keyword .index, .regX]
  | glyph => [.keyword .font, .regX]
  | decimal => [.keyword .decimal, .regX]
  | store => [.keyword .memory, .regX]
  | restore => [.regX, .keyword .memory]

def base (op : Opcode) : Nat :=
  op.digits.foldl (fun w d => w * 16 + (match d with | .fixed k => k | _ => 0)) 0

def patternChar : PatternDigit → Char
  | .fixed d => (Nat.digitChar d).toUpper
  | .x => 'X'
  | .y => 'Y'
  | .n => 'N'

def pattern (op : Opcode) : String := String.ofList (op.digits.map patternChar)

def ofPattern? (text : String) : Option Opcode := all.find? fun op => op.pattern == text

/-- A word fits a pattern if its digits agree with the fixed ones. -/
def Fits (op : Opcode) (w : Nat) : Prop :=
  ∀ p ∈ op.digits.zip [w / 4096 % 16, w / 256 % 16, w / 16 % 16, w % 16],
    ∀ d, p.1 = .fixed d → p.2 = d

/-- The opcode of a word, from its first digit and, where that leaves a choice, its last ones. -/
def ofWord? (w : Nat) : Option Opcode :=
  match w / 4096 % 16 with
  | 0x0 =>
    match w % 4096 with
    | 0x0E0 => some clearScreen
    | 0x0EE => some ret
    | _ => none
  | 0x1 => some jump
  | 0x2 => some call
  | 0x3 => some skipEqByte
  | 0x4 => some skipNeByte
  | 0x5 => if w % 16 = 0 then some skipEq else none
  | 0x6 => some loadByte
  | 0x7 => some addByte
  | 0x8 =>
    match w % 16 with
    | 0x0 => some move
    | 0x1 => some or
    | 0x2 => some and
    | 0x3 => some xor
    | 0x4 => some add
    | 0x5 => some sub
    | 0x6 => some shiftRight
    | 0x7 => some subFrom
    | 0xE => some shiftLeft
    | _ => none
  | 0x9 => if w % 16 = 0 then some skipNe else none
  | 0xA => some loadIndex
  | 0xB => some jumpFromV0
  | 0xC => some random
  | 0xD => some draw
  | 0xE =>
    match w % 256 with
    | 0x9E => some skipPressed
    | 0xA1 => some skipReleased
    | _ => none
  | _ =>
    match w % 256 with
    | 0x07 => some loadDelay
    | 0x0A => some awaitKey
    | 0x15 => some setDelay
    | 0x18 => some setSound
    | 0x1E => some addIndex
    | 0x29 => some glyph
    | 0x33 => some decimal
    | 0x55 => some store
    | 0x65 => some restore
    | _ => none

theorem mem_all (op : Opcode) : op ∈ all := by cases op <;> decide

end Opcode

theorem Mnemonic.ofName?_name (m : Mnemonic) : Mnemonic.ofName? m.name = some m := by
  cases m <;> decide

theorem Keyword.ofName?_name (k : Keyword) : Keyword.ofName? k.name = some k := by
  cases k <;> decide

end Chip8
