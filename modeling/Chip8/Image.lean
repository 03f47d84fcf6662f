import Chip8.Fault
/-! Program images: bytes at scattered addresses laid out from a base on, with zeros in the gaps. Of two
bytes at one address the later counts. -/

namespace Chip8.Image

def bounds : List (Int × Int) → Option (Int × Int)
  | [] => none
  | (address, _) :: rest =>
    match bounds rest with
    | none => some (address, address)
    | some (low, high) => some (min address low, max address high)

def fill (base : Int) (pairs : List (Int × Int)) (image : Array UInt8) : Array UInt8 :=
  pairs.foldl (fun image p =>
    image.setIfInBounds (p.1 - base).toNat (UInt8.ofNat (p.2 % 256).toNat)) image

/-- The image of addresses with values, of which the low eight bits count. -/
def ofPairs (pairs : List (Int × Int)) (base : Int := 0x200) : Except ProgramFault (List UInt8) :=
  match bounds pairs with
  | none => .ok []
  | some (low, high) =>
    if low < base then .error (.below low base)
    else if 4096 ≤ high ∨ 3584 < high - base + 1 then .error (.outside high)
    else .ok (fill base pairs (Array.replicate (high - base + 1).toNat 0)).toList

def ofBytes (bytes : List (Int × UInt8)) : Except ProgramFault (List UInt8) :=
  ofPairs (bytes.map fun p => (p.1, (p.2.toNat : Int)))

end Chip8.Image
