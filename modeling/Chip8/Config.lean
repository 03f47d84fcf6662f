import Chip8.Action
import Chip8.Text.Uppercase
import Chip8.Value
/-! Configuration: settings of machine, display and keys, read from a value. Unknown sections and unusable
keys are warned of and skipped; a setting of a wrong type or range is a fault, and so is an integer with too many
digits for a warning. -/

namespace Chip8

structure MachineSettings where
  instructionsPerFrame : Int := 12
  timerHz : Int := 60
  seed : Option Int := none
  deriving DecidableEq

structure DisplaySettings where
  scale : Int := 10
  foreground : String := "#33FF66"
  background : String := "#101010"
  deriving DecidableEq

abbrev Keymap := List (String × Int)

/-- The left four columns of a keyboard, laid out like the keypad. -/
def defaultKeymap : Keymap :=
  [("1", 0x1), ("2", 0x2), ("3", 0x3), ("4", 0xC), ("Q", 0x4), ("W", 0x5), ("E", 0x6), ("R", 0xD),
    ("A", 0x7), ("S", 0x8), ("D", 0x9), ("F", 0xE), ("Z", 0xA), ("X", 0x0), ("C", 0xB), ("V", 0xF)]

structure Config where
  machine : MachineSettings := {}
  display : DisplaySettings := {}
  keymap : Keymap := defaultKeymap
  deriving DecidableEq

inductive ConfigFault
  | rootNotMapping (typeName : String)
  | notMapping (typeName query : String)
  | notInteger (text : String)
  | numeral (why : Text.NumeralFault)
  | unwritable
  | notPositive (setting text : String)
  deriving DecidableEq

def ConfigFault.message : ConfigFault → String
  | rootNotMapping t => s!"Configuration root must be a mapping, got {t}"
  | notMapping t query => s!"'{t}' object has no attribute '{query}'"
  | notInteger text => s!"Invalid integer format: {text}"
  | numeral why => why.message
  | unwritable => Text.tooManyDigits none
  | notPositive setting text => s!"'{setting}' must be a positive integer: {text}"

inductive ConfigWarning
  | unknownSection (name : String)
  | invalidKey (hostKey key : String)
  | keyOutside (hostKey : String) (key : Int)
  deriving DecidableEq

def ConfigWarning.message : ConfigWarning → String
  | unknownSection name => s!"Warning: Unknown configuration section '{name}' ignored"
  | invalidKey hostKey key => s!"Warning: Invalid key mapping '{hostKey}: {key}' ignored"
  | keyOutside hostKey key =>
    s!"Warning: Key mapping '{hostKey}' targets {key}, outside 0-15; ignored"

namespace Config

/-- Reading collects warnings, also those before a fault. -/
abbrev Reading := Action (List ConfigWarning) ConfigFault

/-- Warns of some values, if their texts can be written. -/
def warn (values : List Value) (w : ConfigWarning) : Reading Unit :=
  if values.all Value.isWritable then Action.modify (· ++ [w]) else Action.fail .unwritable

def refusal (because : String → ConfigFault) (v : Value) : ConfigFault :=
  if v.isWritable then because v.plain else .unwritable

def lift {α : Type} : Except ConfigFault α → Reading α
  | .ok a => pure a
  | .error e => Action.fail e

def lookup? (key : String) : List (Value × Value) → Option Value
  | [] => none
  | (.text k, value) :: entries => if k = key then some value else lookup? key entries
  | _ :: entries => lookup? key entries

/-- An integer, or the text of one. -/
def readInt : Value → Except ConfigFault Int
  | .int n => .ok n
  | .text s =>
    let r : Text.Radix := if Text.hasHexMark s.toList then .hexadecimal else .decimal
    (Text.readInt r s.toList).mapError .numeral
  | v => .error (refusal .notInteger v)

def readPositive (setting : String) (v : Value) : Except ConfigFault Int :=
  match readInt v with
  | .error e => .error e
  | .ok n => if 0 < n then .ok n else .error (refusal (.notPositive setting) v)

def readOptional : Value → Except ConfigFault (Option Int)
  | .null => .ok none
  | v => (readInt v).map some

def readText (v : Value) : Except ConfigFault String :=
  if v.isWritable then .ok v.plain else .error .unwritable

/-- The entries of a section; a section that is missing or counts as false is empty. -/
def section? (name : String) (entries : List (Value × Value)) :
    Except ConfigFault (List (Value × Value)) :=
  match lookup? name entries with
  | none => .ok []
  | some (.map inner) => .ok inner
  | some v => if v.isTruthy then .error (.notMapping v.typeName "get") else .ok []

def readMachine (entries : List (Value × Value)) : Except ConfigFault MachineSettings := do
  let inner ← section? "machine" entries
  let setting (name : String) (default : Int) :=
    readPositive name ((lookup? name inner).getD (.int default))
  let instructionsPerFrame ← setting "instructions_per_frame" 12
  let timerHz ← setting "timer_hz" 60
  let seed ← readOptional ((lookup? "seed" inner).getD .null)
  pure { instructionsPerFrame, timerHz, seed }

def readDisplay (entries : List (Value × Value)) : Except ConfigFault DisplaySettings := do
  let inner ← section? "display" entries
  let scale ← readPositive "scale" ((lookup? "scale" inner).getD (.int 10))
  let color (name default : String) := readText ((lookup? name inner).getD (.text default))
  let foreground ← color "foreground" "#33FF66"
  let background ← color "background" "#101010"
  pure { scale, foreground, background }

/-- Sets a host key; one that is there keeps its place. -/
def setKey (hostKey : String) (key : Int) : Keymap → Keymap
  | [] => [(hostKey, key)]
  | entry :: rest =>
    if entry.1 = hostKey then (hostKey, key) :: rest else entry :: setKey hostKey key rest

/-- Adds an entry under the upper case of its host key, or warns of it. An entry that cannot be written is a
fault. -/
def readKey (keymap : Keymap) (hostKey key : Value) : Reading Keymap :=
  match readInt key with
  | .error _ => do
    warn [hostKey, key] (.invalidKey hostKey.plain key.plain)
    pure keymap
  | .ok n =>
    if 0 ≤ n ∧ n < 16 then do
      let name ← lift (readText hostKey)
      pure (setKey (String.ofList (Text.uppercase name.toList)) n keymap)
    else do
      warn [hostKey, .int n] (.keyOutside hostKey.plain n)
      pure keymap

def readKeys : Keymap → List (Value × Value) → Reading Keymap
  | keymap, [] => pure keymap
  | keymap, (hostKey, key) :: entries => do
    let keymap ← readKey keymap hostKey key
    readKeys keymap entries

def readKeymap (entries : List (Value × Value)) : Reading Keymap :=
  match lookup? "keymap" entries with
  | none => pure defaultKeymap
  | some v =>
    if v.isTruthy then
      match v with
      | .map inner => readKeys [] inner
      | _ => Action.fail (.notMapping v.typeName "items")
    else pure defaultKeymap

def isSection : Value → Bool
  | .text name => name == "machine" || name == "display" || name == "keymap"
  | _ => false

def warnSections : List (Value × Value) → Reading Unit
  | [] => pure ()
  | (key, _) :: entries => do
    if !isSection key then warn [key] (.unknownSection key.plain)
    warnSections entries

def readEntries (entries : List (Value × Value)) : Reading Config := do
  warnSections entries
  let machine ← lift (readMachine entries)
  let display ← lift (readDisplay entries)
  let keymap ← readKeymap entries
  pure { machine, display, keymap }

def ofMapping (v : Value) : Reading Config :=
  match v with
  | .map entries => readEntries entries
  | v => Action.fail (.rootNotMapping v.typeName)

/-- The configuration of a value; a value that counts as false is an empty mapping. -/
def ofValue (v : Value) : Reading Config :=
  ofMapping (if v.isTruthy then v else .map [])

end Config

end Chip8
