import Chip8.Text.Blank
import Chip8.Text.Uppercase
/-! Lines of assembly source. A comment runs from a semicolon to the end; what stands before the first
colon is a label; then follow a mnemonic and its operands. -/

namespace Chip8.Assembly

structure SourceLine where
  label : Option (List Char)
  statement : Option (List Char × List Char)
  deriving DecidableEq

/-- The mnemonic of a stripped text, in upper case, and the operands after the blanks behind it. -/
def statementOf? (text : List Char) : Option (List Char × List Char) :=
  if text.isEmpty then none
  else
    let rest := text.dropWhile fun c => !Text.isBlank c
    some (Text.uppercase (text.takeWhile fun c => !Text.isBlank c), Text.stripLeft rest)

def SourceLine.parse (line : List Char) : SourceLine :=
  let body := Text.strip (line.takeWhile (· != ';'))
  match Text.cut? ':' body with
  | none => { label := none, statement := statementOf? body }
  | some (before, after) =>
    { label := some (Text.strip before), statement := statementOf? (Text.strip after) }

/-- Operands are separated by commas; blanks around them do not count. -/
def operandsOf (text : List Char) : List (List Char) :=
  if (Text.strip text).isEmpty then [] else (Text.splitOn ',' text).map Text.strip

example : SourceLine.parse "loop: ld v1, 5 ; count".toList =
    ⟨some "loop".toList, some ("LD".toList, "v1, 5".toList)⟩ := by decide

end Chip8.Assembly
