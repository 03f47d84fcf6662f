import Chip8.Text.Blank
import Chip8.Text.Numeral
/-! Text files: bytes read as UTF-8 and cut into lines. A file is read in blocks, and a fault spoils the
block in which it shows: the lines that are complete before that block can still be used, and the place
of the fault counts from there. -/

namespace Chip8.Text

inductive EncodingReason
  | startByte
  | continuationByte
  | surrogate
  | cutOff
  deriving DecidableEq

structure EncodingFault where
  bytes : List UInt8
  offset : Nat
  reason : EncodingReason
  deriving DecidableEq

def EncodingReason.message : EncodingReason → String
  | .startByte => "invalid start byte"
  | .continuationByte | .surrogate => "invalid continuation byte"
  | .cutOff => "unexpected end of data"

def EncodingFault.message (f : EncodingFault) : String :=
  let place := match f.bytes with
    | [b] => "byte 0x" ++ String.ofList (padZeros 2 (lowerHexDigits b.toNat)) ++ s!" in position {f.offset}"
    | bytes => s!"bytes in position {f.offset}-{f.offset + bytes.length - 1}"
  "'utf-8' codec can't decode " ++ place ++ ": " ++ f.reason.message

def isContinuation (b : UInt8) : Bool := 0x80 ≤ b && b < 0xC0

/-- Whether a byte may follow this first byte of a sequence of three or four: no overlong form, no
surrogate, nothing above the last code point. -/
def isSecond (a b : UInt8) : Bool :=
  isContinuation b && (a != 0xE0 || 0xA0 ≤ b) && (a != 0xED || b < 0xA0)
    && (a != 0xF0 || 0x90 ≤ b) && (a != 0xF4 || b < 0x90)

def startsSurrogate (a : UInt8) (rest : List UInt8) : Bool :=
  a == 0xED && rest.head?.any fun b => 0xA0 ≤ b && b < 0xC0

def joinBits (lead : Nat) (tail : List UInt8) : Char :=
  Char.ofNat (tail.foldl (fun n b => n * 64 + b.toNat % 64) lead)

/-- Reads the rest of a sequence: each byte checked in turn, the first by a test of its own. Gives the
bytes, or those that were right and what is wrong with the next. -/
def readTail (ok : UInt8 → Bool) : Nat → List UInt8 → Except (List UInt8 × EncodingReason) (List UInt8)
  | 0, _ => .ok []
  | _ + 1, [] => .error ([], .cutOff)
  | n + 1, b :: rest =>
    if ok b then
      match readTail isContinuation n rest with
      | .ok tail => .ok (b :: tail)
      | .error (right, reason) => .error (b :: right, reason)
    else .error ([], .continuationByte)

def readChar (a : UInt8) (rest : List UInt8) : Except (List UInt8 × EncodingReason) (Char × Nat) :=
  let sequence (lead count : Nat) (ok : UInt8 → Bool) :=
    match readTail ok count rest with
    | .ok tail => .ok (joinBits (a.toNat - lead) tail, count)
    | .error (right, reason) => .error (a :: right, reason)
  if a < 0x80 then .ok (Char.ofNat a.toNat, 0)
  else if a < 0xC2 || 0xF5 ≤ a then .error ([a], .startByte)
  else if startsSurrogate a rest then .error ([a], .surrogate)
  else if a < 0xE0 then sequence 0xC0 1 isContinuation
  else if a < 0xF0 then sequence 0xE0 2 (isSecond a)
  else sequence 0xF0 3 (isSecond a)

/-- The characters before the first fault, and the fault; `skip` bytes belong to the character just
read. -/
def decodeFrom (offset : Nat) : Nat → List UInt8 → List Char × Option EncodingFault
  | _, [] => ([], none)
  | skip + 1, _ :: rest => decodeFrom (offset + 1) skip rest
  | 0, a :: rest =>
    match readChar a rest with
    | .ok (c, skip) =>
      let later := decodeFrom (offset + 1) skip rest
      (c :: later.1, later.2)
    | .error (bytes, reason) => ([], some ⟨bytes, offset, reason⟩)

def decodeUtf8 (bytes : List UInt8) : List Char × Option EncodingFault := decodeFrom 0 0 bytes

def unifyLineEnds : List Char → List Char
  | [] => []
  | '\r' :: '\n' :: cs => '\n' :: unifyLineEnds cs
  | c :: cs => (if c = '\r' then '\n' else c) :: unifyLineEnds cs

def blockSize : Nat := 8192

/-- The place of the byte that shows a fault: the first one, or the one behind those that are right, or
the third of a surrogate. A sequence cut off shows at the end of the file. -/
def EncodingFault.shownAt (f : EncodingFault) (size : Nat) : Nat :=
  match f.reason with
  | .startByte => f.offset
  | .continuationByte => f.offset + f.bytes.length
  | .surrogate => f.offset + 2
  | .cutOff => size

/-- Where the block starts in which a fault shows, in a file of so many bytes. -/
def EncodingFault.block (f : EncodingFault) (size : Nat) : Nat :=
  if f.shownAt size < size then f.shownAt size / blockSize * blockSize else size

/-- The characters that end within so many bytes, and the number of bytes that they take. -/
def charsWithin : Nat → List Char → List Char × Nat
  | _, [] => ([], 0)
  | size, c :: cs =>
    if c.utf8Size ≤ size then
      let later := charsWithin (size - c.utf8Size) cs
      (c :: later.1, c.utf8Size + later.2)
    else ([], 0)

structure TextFile where
  lines : List (List Char)
  fault : Option EncodingFault := none

/-- The text without a return at its end, which may be half of a line end. -/
def dropOpenReturn (cs : List Char) : List Char := if cs.getLast? = some '\r' then cs.dropLast else cs

def linesOf (cs : List Char) : List (List Char) := splitOn '\n' (unifyLineEnds cs)

def TextFile.ofBytes (bytes : List UInt8) : TextFile :=
  match decodeUtf8 bytes with
  | (cs, none) => { lines := linesOf cs }
  | (cs, some fault) =>
    let before := charsWithin (fault.block bytes.length) cs
    { lines := (linesOf (dropOpenReturn before.1)).dropLast
      fault := some { fault with offset := fault.offset - before.2 } }

theorem charsWithin_fst_prefix (size : Nat) (cs : List Char) : (charsWithin size cs).1 <+: cs := by
  induction cs generalizing size with
  | nil => simp [charsWithin]
  | cons c cs ih =>
    rw [charsWithin]
    split
    · exact List.cons_prefix_cons.mpr ⟨rfl, ih _⟩
    · exact List.nil_prefix

example : (decodeUtf8 [0x61, 0xFF]).2.map (·.message) =
    some "'utf-8' codec can't decode byte 0xff in position 1: invalid start byte" := by decide

end Chip8.Text
