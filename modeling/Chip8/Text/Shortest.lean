/-! The shortest decimal text of a double: the fewest digits that read back to it and, of those, the
nearest. The search compares exact rationals and tries one to seventeen digits. -/

namespace Chip8.Text.Shortest

def power (base : Nat) (k : Int) : Rat :=
  match k with
  | .ofNat n => (base.pow n : Rat)
  | .negSucc n => 1 / (base.pow (n + 1) : Rat)

/-- A positive double as the rational it stands for, with the ends of the interval of rationals that
round to it. The ends belong to the interval iff the significand is even. -/
structure Span where
  value : Rat
  low : Rat
  high : Rat
  closed : Bool

def Span.holds (s : Span) (x : Rat) : Bool :=
  if s.closed then s.low ≤ x && x ≤ s.high else s.low < x && x < s.high

def Span.ofFields (exponent fraction : Nat) : Span :=
  let significand := if exponent = 0 then fraction else fraction + (1 <<< 52)
  let scale := power 2 ((max exponent 1 : Nat) - 1075)
  let lowGap : Rat := if fraction = 0 ∧ 1 < exponent then 1 / 4 else 1 / 2
  { value := significand * scale
    low := (significand - lowGap) * scale
    high := (significand + 1 / 2) * scale
    closed := significand % 2 = 0 }

def magnitude (x : Rat) : Nat → Int → Int
  | 0, e => e
  | fuel + 1, e =>
    if x < power 10 (e - 1) then magnitude x fuel (e - 1)
    else if power 10 e ≤ x then magnitude x fuel (e + 1)
    else e

/-- The number with this many digits that lies in the span nearest to its value, scaled to a natural
number; of two at the same distance the even one. -/
def candidate? (s : Span) (e : Int) (count : Nat) : Option Nat :=
  let unit := power 10 (e - count)
  let below := (s.value / unit).floor.toNat
  let down := s.value - below * unit
  let up := (below + 1 : Nat) * unit - s.value
  match s.holds (below * unit), s.holds ((below + 1 : Nat) * unit) with
  | false, false => none
  | true, false => some below
  | false, true => some (below + 1)
  | true, true =>
    if down < up ∨ (down = up ∧ below % 2 = 0) then some below else some (below + 1)

def search (s : Span) (e : Int) : Nat → Nat → Nat × Nat
  | 0, count => (count, (s.value / power 10 (e - count)).floor.toNat)
  | fuel + 1, count =>
    match candidate? s e count with
    | some n => (count, n)
    | none => search s e fuel (count + 1)

def trimZeros (ds : List Char) : List Char := (ds.reverse.dropWhile (· == '0')).reverse

/-- The significant digits of a positive double and the number of them before the point. A candidate
that rounds up to the next power of ten has one digit more than asked for. -/
def digits (exponent fraction : Nat) : List Char × Int :=
  let s := Span.ofFields exponent fraction
  let guess := ((max exponent 1 : Nat) - 1023 : Int) * 30103 / 100000
  let e := magnitude s.value 700 guess
  let found := search s e 17 1
  let ds := Nat.toDigits 10 found.2
  (trimZeros ds, e + ds.length - found.1)

/-- Digits with a point: positional from one ten-thousandth up to sixteen digits, else with an exponent
of at least two digits. -/
def layout (ds : List Char) (point : Int) : List Char :=
  if -4 < point ∧ point ≤ 16 then
    if point ≤ 0 then '0' :: '.' :: List.replicate (-point).toNat '0' ++ ds
    else
      let k := point.toNat
      if ds.length ≤ k then ds ++ List.replicate (k - ds.length) '0' ++ ['.', '0']
      else ds.take k ++ '.' :: ds.drop k
  else
    let e := point - 1
    let mantissa := match ds with
      | [] => ['0']
      | [d] => [d]
      | d :: rest => d :: '.' :: rest
    let tail := Nat.toDigits 10 e.natAbs
    mantissa ++ 'e' :: (if e < 0 then '-' else '+')
      :: (List.replicate (2 - tail.length) '0' ++ tail)

def ofFloat (x : Float) : String :=
  let bits := x.toBits.toNat
  let negative := bits >>> 63 = 1
  let exponent := bits >>> 52 % 0x800
  let fraction := bits % (1 <<< 52)
  if exponent = 2047 then
    if fraction ≠ 0 then "nan" else if negative then "-inf" else "inf"
  else
    let body :=
      if exponent = 0 ∧ fraction = 0 then ['0', '.', '0']
      else let d := digits exponent fraction; layout d.1 d.2
    String.ofList (if negative then '-' :: body else body)

end Chip8.Text.Shortest
