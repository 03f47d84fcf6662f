import Chip8.Text.Blank
import Chip8.Text.DecimalDigit

/-! Numerals: integers read from and written to text, in base ten or sixteen. A list of digits without
underscores reads to the values of its digits (`digits?_eq_some`). Decimal numerals have a limit of
digits, which a reader may lift. -/

namespace Chip8.Text

inductive Radix
  | decimal
  | hexadecimal
  deriving DecidableEq

def Radix.base : Radix → Nat
  | .decimal => 10
  | .hexadecimal => 16

def letterValue? (c : Char) : Option Nat :=
  if 'a' ≤ c && c ≤ 'f' then some (c.toNat - 0x61 + 10)
  else if 'A' ≤ c && c ≤ 'F' then some (c.toNat - 0x41 + 10)
  else none

def digitValue? (r : Radix) (c : Char) : Option Nat :=
  match decimalValue? c with
  | some d => some d
  | none => if r = .hexadecimal then letterValue? c else none

/-- The digits of a numeral, at least one; a single underscore may stand between two digits. -/
def digits? (r : Radix) : List Char → Option (List Nat)
  | [] => none
  | [c] => (digitValue? r c).map fun d => [d]
  | c :: e :: cs =>
    match digitValue? r c with
    | none => none
    | some d => (if e = '_' then digits? r cs else digits? r (e :: cs)).map (d :: ·)

def ofDigits (base : Nat) (ds : List Nat) : Nat := ds.foldl (fun n d => n * base + d) 0

def readNat? (r : Radix) (cs : List Char) : Option Nat :=
  (digits? r cs).map (ofDigits r.base)

def hasHexMark : List Char → Bool
  | '0' :: x :: _ => x == 'x' || x == 'X'
  | _ => false

/-- Drops the mark 0x, with an underscore after it if there is one. -/
def dropHexMark : List Char → List Char
  | z :: x :: cs =>
    if decimalValue? z = some 0 ∧ (x = 'x' ∨ x = 'X') then
      match cs with
      | '_' :: rest => rest
      | _ => cs
    else z :: x :: cs
  | cs => cs

def readUnsigned? (r : Radix) (cs : List Char) : Option Nat :=
  match r with
  | .decimal => readNat? .decimal cs
  | .hexadecimal => readNat? .hexadecimal (dropHexMark cs)

def readSigned? (r : Radix) : List Char → Option Int
  | '+' :: cs => (readUnsigned? r cs).map Int.ofNat
  | '-' :: cs => (readUnsigned? r cs).map fun n => - Int.ofNat n
  | cs => (readUnsigned? r cs).map Int.ofNat

/-- The blanks allowed around a numeral: every blank but the four ASCII separators. -/
def isNumeralBlank (c : Char) : Bool :=
  isBlank c && !(0x1c ≤ c.toNat && c.toNat ≤ 0x1f)

def readInt? (r : Radix) (cs : List Char) : Option Int :=
  readSigned? r ((cs.dropWhile isNumeralBlank).reverse.dropWhile isNumeralBlank).reverse

def digitLimit : Nat := 4300

inductive NumeralFault
  | malformed (r : Radix) (text : List Char)
  | tooLong (digits : Nat)
  deriving DecidableEq

def dropSign : List Char → List Char
  | '+' :: cs | '-' :: cs => cs
  | cs => cs

/-- The number of decimal digits that a text starts with; none are counted if an underscore among them
stands out of place. -/
def leadingDigits (cs : List Char) : Nat :=
  let run := cs.takeWhile fun c => c == '_' || (decimalValue? c).isSome
  ((digits? .decimal run).getD []).length

/-- The number of digits that count towards the limit: those behind the blanks and the sign, whatever
follows them. Hexadecimal digits do not count. -/
def countedDigits (r : Radix) (cs : List Char) : Nat :=
  match r with
  | .decimal => leadingDigits (dropSign (cs.dropWhile isNumeralBlank))
  | .hexadecimal => 0

def readInt (r : Radix) (cs : List Char) (limit : Option Nat := some digitLimit) :
    Except NumeralFault Int :=
  if limit.any (· < countedDigits r cs) then .error (.tooLong (countedDigits r cs))
  else
    match readInt? r cs with
    | some n => .ok n
    | none => .error (.malformed r cs)

def exceedsDigitLimit (z : Int) : Bool := Nat.pow 10 digitLimit ≤ z.natAbs

def padZeros (width : Nat) (ds : List Char) : List Char :=
  List.replicate (width - ds.length) '0' ++ ds

def lowerHexDigits (n : Nat) : List Char := Nat.toDigits 16 n

def upperHexDigits (n : Nat) : List Char := (Nat.toDigits 16 n).map Char.toUpper

def upperHex (width : Nat) (z : Int) : String :=
  match z with
  | .ofNat n => String.ofList (padZeros width (upperHexDigits n))
  | .negSucc n => String.ofList ('-' :: padZeros (width - 1) (upperHexDigits (n + 1)))

/-- A number with the mark 0x in lower-case hexadecimal, at least `width` characters long with its
sign and the mark. -/
def markedHex (width : Nat) (z : Int) : String :=
  match z with
  | .ofNat n => String.ofList ('0' :: 'x' :: padZeros (width - 2) (lowerHexDigits n))
  | .negSucc n =>
    String.ofList ('-' :: '0' :: 'x' :: padZeros (width - 3) (lowerHexDigits (n + 1)))

theorem ofDigits_append (base : Nat) (ds : List Nat) (d : Nat) :
    ofDigits base (ds ++ [d]) = ofDigits base ds * base + d := by
  simp [ofDigits]

theorem digits?_eq_some {r : Radix} {f : Char → Nat} {cs : List Char} (ne : cs ≠ [])
    (h : ∀ c ∈ cs, digitValue? r c = some (f c) ∧ c ≠ '_') :
    digits? r cs = some (cs.map f) := by
  induction cs with
  | nil => exact absurd rfl ne
  | cons c cs ih =>
    rw [List.forall_mem_cons] at h
    cases cs with
    | nil => simp [digits?, h.1.1]
    | cons e cs =>
      have notMark : e ≠ '_' := (h.2 e (by simp)).2
      simp [digits?, h.1.1, notMark, ih (by simp) h.2]

example : markedHex 5 (-2) = "-0x02" ∧ markedHex 6 4096 = "0x1000" ∧ markedHex 0 300 = "0x12c" ∧
    upperHex 4 0xBE = "00BE" ∧ upperHex 2 (-1) = "-1" := by decide

end Chip8.Text
