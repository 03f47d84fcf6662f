import Chip8.Value
/-! Reading values written as JSON. The order of the entries of an object is kept, integers may have any
size, and a number with a point or an exponent is a real. The infinities and what is no number are written
as words. -/

namespace Chip8.Value.Json

def skipBlanks (cs : List Char) : List Char :=
  cs.dropWhile fun c => c == ' ' || c == '\n' || c == '\t' || c == '\r'

def readUnit? (cs : List Char) : Option (Nat × List Char) :=
  match (cs.take 4).mapM (Text.digitValue? .hexadecimal) with
  | some ds => if ds.length = 4 then some (Text.ofDigits 16 ds, cs.drop 4) else none
  | none => none

def readEscape? : List Char → Option (Char × List Char)
  | 'n' :: cs => some ('\n', cs)
  | 't' :: cs => some ('\t', cs)
  | 'r' :: cs => some ('\r', cs)
  | 'b' :: cs => some ('\x08', cs)
  | 'f' :: cs => some ('\x0c', cs)
  | 'u' :: cs =>
    match readUnit? cs with
    | none => none
    | some (high, rest) =>
      if 0xD800 ≤ high ∧ high < 0xDC00 then
        match rest with
        | '\\' :: 'u' :: rest =>
          (readUnit? rest).map fun low =>
            (Char.ofNat (0x10000 + (high - 0xD800) * 0x400 + (low.1 - 0xDC00)), low.2)
        | _ => none
      else some (Char.ofNat high, rest)
  | c :: cs => if c == '"' || c == '\\' || c == '/' then some (c, cs) else none
  | [] => none

def readText? : Nat → List Char → Option (List Char × List Char)
  | 0, _ => none
  | _ + 1, [] => none
  | fuel + 1, c :: cs =>
    if c = '"' then some ([], cs)
    else if c = '\\' then
      match readEscape? cs with
      | some (d, rest) => (readText? fuel rest).map fun r => (d :: r.1, r.2)
      | none => none
    else (readText? fuel cs).map fun r => (c :: r.1, r.2)

def isNumberPart (c : Char) : Bool :=
  c.isDigit || c == '-' || c == '+' || c == '.' || c == 'e' || c == 'E'

def words : List (String × Value) :=
  [("null", null), ("true", bool true), ("false", bool false), ("NaN", real (0.0 / 0.0)),
    ("Infinity", real (1.0 / 0.0)), ("-Infinity", real (-1.0 / 0.0))]

def readWord? (cs : List Char) : Option (Value × List Char) :=
  words.findSome? fun (word, v) =>
    if word.toList.isPrefixOf cs then some (v, cs.drop word.length) else none

/-- The real written with these digits, point and exponent. A number of k digits is past all reals from
the four-hundredth power of ten on, and below all of them from that power and k more down. -/
def realOf? (cs : List Char) : Option Float :=
  let negative := cs.head? == some '-'
  let body := if negative then cs.drop 1 else cs
  let mantissa := body.takeWhile fun c => c != 'e' && c != 'E'
  let whole := mantissa.takeWhile (· != '.')
  let fraction := (mantissa.dropWhile (· != '.')).drop 1
  let exponent := (body.dropWhile fun c => c != 'e' && c != 'E').drop 1
  let e? := if exponent.isEmpty then some 0 else Text.readInt? .decimal exponent
  match Text.readNat? .decimal (whole ++ fraction), e? with
  | some n, some e =>
    let scale : Int := max (min (e - fraction.length) 400) (-400 - mantissa.length)
    let x := Float.ofScientific n (decide (scale < 0)) scale.natAbs
    some (if negative then -x else x)
  | _, _ => none

def readNumber? (cs : List Char) : Option (Value × List Char) :=
  let part := cs.takeWhile isNumberPart
  let rest := cs.dropWhile isNumberPart
  if part.any fun c => c == '.' || c == 'e' || c == 'E' then (realOf? part).map (real ·, rest)
  else (Text.readInt? .decimal part).map (int ·, rest)

mutual

def readValue? : Nat → List Char → Option (Value × List Char)
  | 0, _ => none
  | fuel + 1, cs =>
    match skipBlanks cs with
    | '"' :: rest => (readText? (rest.length + 1) rest).map fun r => (text (String.ofList r.1), r.2)
    | '[' :: rest =>
      match skipBlanks rest with
      | ']' :: rest => some (list [], rest)
      | rest => (readItems? fuel rest).map fun r => (list r.1, r.2)
    | '\x7b' :: rest =>
      match skipBlanks rest with
      | '\x7d' :: rest => some (map [], rest)
      | rest => (readEntries? fuel rest).map fun r => (map r.1, r.2)
    | rest => (readWord? rest).or (readNumber? rest)

def readItems? : Nat → List Char → Option (List Value × List Char)
  | 0, _ => none
  | fuel + 1, cs =>
    match readValue? fuel cs with
    | none => none
    | some (item, rest) =>
      match skipBlanks rest with
      | ',' :: rest => (readItems? fuel rest).map fun r => (item :: r.1, r.2)
      | ']' :: rest => some ([item], rest)
      | _ => none

def readEntries? : Nat → List Char → Option (List (Value × Value) × List Char)
  | 0, _ => none
  | fuel + 1, cs =>
    match readValue? fuel cs with
    | none => none
    | some (key, rest) =>
      match skipBlanks rest with
      | ':' :: rest =>
        match readValue? fuel rest with
        | none => none
        | some (value, rest) =>
          match skipBlanks rest with
          | ',' :: rest => (readEntries? fuel rest).map fun r => ((key, value) :: r.1, r.2)
          | '\x7d' :: rest => some ([(key, value)], rest)
          | _ => none
      | _ => none

end

end Json

def ofJson? (s : String) : Option Value :=
  let cs := s.toList
  match Json.readValue? (cs.length + 1) cs with
  | some (v, rest) => if (Json.skipBlanks rest).isEmpty then some v else none
  | none => none

end Chip8.Value
