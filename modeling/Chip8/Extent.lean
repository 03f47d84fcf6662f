/-! Extents: indices into what is stored and the sizes of it. An index is a signed integer of sixty-four
bits. A host may have memory for less. -/

namespace Chip8

def indexEnd : Int := 0x8000000000000000

def isIndex (n : Int) : Bool := -indexEnd ≤ n && n < indexEnd

/-- Why items cannot be stored: their number or place is no index, or there is no memory for them. -/
inductive ExtentFault
  | beyondIndex
  | noMemory
  deriving DecidableEq

def ExtentFault.message : ExtentFault → String
  | beyondIndex => "cannot fit 'int' into an index-sized integer"
  | noMemory => ""

/-- Why so many items of a width in bytes cannot be stored, if they cannot. The memory of the host ends at a number
of bytes, if it ends at all. -/
def extentFault? (count : Int) (width : Int := 1) (memory : Option Int := none) : Option ExtentFault :=
  if !isIndex count then some .beyondIndex
  else if memory.any (· ≤ count * width) then some .noMemory
  else none

theorem extentFault?_eq_none_iff {count width : Int} {memory : Option Int} :
    extentFault? count width memory = none ↔ isIndex count = true ∧ ∀ limit ∈ memory, count * width < limit := by
  cases index : isIndex count <;> cases memory <;> simp [extentFault?, index]

end Chip8
