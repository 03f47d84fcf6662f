import Chip8.Text.Numeral
import Chip8.Text.Printable
/-! Quoted text, as it is shown in messages: between quotes, with the quote, the backslash and the hidden
characters escaped. -/

namespace Chip8.Text

/-- The quote around a text: double if it holds single quotes only, else single. -/
def quoteOf (cs : List Char) : Char :=
  if cs.contains '\'' && !cs.contains '"' then '"' else '\''

def hexEscape (mark : Char) (width n : Nat) : List Char :=
  '\\' :: mark :: padZeros width (lowerHexDigits n)

def escapeChar (quote c : Char) : List Char :=
  if c = quote ∨ c = '\\' then ['\\', c]
  else if c = '\n' then ['\\', 'n']
  else if c = '\r' then ['\\', 'r']
  else if c = '\t' then ['\\', 't']
  else if isPrintable c then [c]
  else if c.toNat < 0x100 then hexEscape 'x' 2 c.toNat
  else if c.toNat < 0x10000 then hexEscape 'u' 4 c.toNat
  else hexEscape 'U' 8 c.toNat

def quoted (cs : List Char) : List Char :=
  let quote := quoteOf cs
  quote :: cs.flatMap (escapeChar quote) ++ [quote]

/-- What is said of a text that is no numeral; a long text is cut. -/
def malformedNumeral (r : Radix) (cs : List Char) : String :=
  s!"invalid literal for int() with base {r.base}: " ++ String.ofList ((quoted cs).take 200)

def tooManyDigits (counted : Option Nat) : String :=
  let count := match counted with
    | some digits => s!": value has {digits} digits"
    | none => ""
  s!"Exceeds the limit ({digitLimit} digits) for integer string conversion" ++ count
    ++ "; use sys.set_int_max_str_digits() to increase the limit"

def NumeralFault.message : NumeralFault → String
  | malformed r text => malformedNumeral r text
  | tooLong digits => tooManyDigits (some digits)

end Chip8.Text
