/-! Blank characters, and the blank ends of a text. A text is a list of characters here; stripping
drops blanks at both ends and nothing else. -/

namespace Chip8.Text

/-- The characters that separate words: the ASCII blanks and separators and the Unicode spaces. A
zero-width space is not one of them. -/
def isBlank (c : Char) : Bool :=
  let n := c.toNat
  (0x09 ≤ n && n ≤ 0x0d) || (0x1c ≤ n && n ≤ 0x20) || n == 0x85 || n == 0xa0 || n == 0x1680
    || (0x2000 ≤ n && n ≤ 0x200a) || n == 0x2028 || n == 0x2029 || n == 0x202f || n == 0x205f
    || n == 0x3000

def stripLeft (cs : List Char) : List Char := cs.dropWhile isBlank

def stripRight (cs : List Char) : List Char := (cs.reverse.dropWhile isBlank).reverse

def strip (cs : List Char) : List Char := stripRight (stripLeft cs)

/-- The pieces of a text between the occurrences of a separator; always at least one piece. -/
def splitOn (sep : Char) : List Char → List (List Char)
  | [] => [[]]
  | c :: cs =>
    if c = sep then [] :: splitOn sep cs
    else match splitOn sep cs with
      | [] => [[c]]
      | piece :: pieces => (c :: piece) :: pieces

def cut? (sep : Char) (cs : List Char) : Option (List Char × List Char) :=
  match cs.dropWhile (· != sep) with
  | [] => none
  | _ :: rest => some (cs.takeWhile (· != sep), rest)

theorem splitOn_ne_nil (sep : Char) (cs : List Char) : splitOn sep cs ≠ [] := by
  cases cs with
  | nil => simp [splitOn]
  | cons c cs =>
    simp only [splitOn]
    split
    · simp
    · split <;> simp

theorem stripLeft_of_not_blank {c : Char} {cs : List Char} (h : isBlank c = false) :
    stripLeft (c :: cs) = c :: cs := by
  simp [stripLeft, h]

theorem stripRight_of_not_blank {c : Char} {cs : List Char} (h : isBlank c = false) :
    stripRight (cs ++ [c]) = cs ++ [c] := by
  simp [stripRight, h]

end Chip8.Text
