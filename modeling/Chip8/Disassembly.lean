import Chip8.Instruction
import Chip8.Bus
import Chip8.State
/-! Listings of memory: two bytes a row, from any start, read without logging. A byte left over at the end
makes no row. -/

namespace Chip8

structure ListingRow where
  address : Int
  bytes : List Char
  text : List Char
  deriving DecidableEq

namespace Disassembly

def rowOf (address : Int) (high low : UInt8) : ListingRow :=
  let two (b : UInt8) : List Char := Text.padZeros 2 (Text.upperHexDigits b.toNat)
  { address
    bytes := two high ++ ' ' :: two low
    text := wordText (high.toNat * 256 + low.toNat : Nat) }

/-- Rows as long as two bytes are left before the end. -/
def rowsTo (b : Bus) (stop : Int) : Nat → Int → Except BusFault (List ListingRow)
  | 0, _ => .ok []
  | fuel + 1, address =>
    if address + 1 < stop then do
      let high ← b.peek address
      let low ← b.peek (address + 1)
      let rows ← rowsTo b stop fuel (address + 2)
      pure (rowOf address high low :: rows)
    else .ok []

end Disassembly

/-- The rows of a range of memory, cut at the end of memory. -/
def disassemble (b : Bus) (start length : Int) : Except BusFault (List ListingRow) :=
  let stop := min (start + length) memorySize
  Disassembly.rowsTo b stop (stop - start).toNat start

end Chip8
