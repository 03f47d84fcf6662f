import Chip8.Headless
/-! The command line: options in any order, long ones by any prefix that tells them apart, values after a
blank or an equals sign, and one program. -/

namespace Chip8.CommandLine

inductive OptionName
  | help
  | config
  | headless
  | frames
  deriving DecidableEq

def OptionName.all : List OptionName := [help, config, headless, frames]

def OptionName.long : OptionName → List Char
  | help => "--help".toList
  | config => "--config".toList
  | headless => "--headless".toList
  | frames => "--frames".toList

inductive Refusal
  | help
  | usage
  deriving DecidableEq

/-- An argument as it is read: a plain word, the mark after which all words are plain, or an option with
the value written with it. An option that is not known has no name. -/
inductive Argument
  | plain (text : List Char)
  | mark
  | option (name : Option OptionName) (value : Option (List Char))
  deriving DecidableEq

def isDigits (cs : List Char) : Bool :=
  !cs.isEmpty && cs.all fun c => (Text.decimalValue? c).isSome

def dropLineEnd (cs : List Char) : List Char := if cs.getLast? = some '\n' then cs.dropLast else cs

/-- A negative number, with or without a fraction. A line may end behind it. -/
def isNegativeNumber (text : List Char) : Bool :=
  match dropLineEnd text with
  | '-' :: cs =>
    isDigits cs ||
      match Text.cut? '.' cs with
      | some (whole, fraction) => (whole.isEmpty || isDigits whole) && isDigits fraction
      | none => false
  | _ => false

def withPrefix (text : List Char) : List OptionName :=
  OptionName.all.filter fun o => text.isPrefixOf o.long

/-- A word that starts with a dash but is not written like a known option. -/
def classifyOther (text : List Char) : Argument :=
  if isNegativeNumber text || text.contains ' ' then .plain text else .option none none

def classifyLong (text : List Char) : Except Refusal Argument :=
  let name := text.takeWhile (· != '=')
  let value := (Text.cut? '=' text).map (·.2)
  match OptionName.all.find? (·.long == name) with
  | some o => .ok (.option (some o) value)
  | none =>
    match withPrefix name with
    | [] => .ok (classifyOther text)
    | [o] => .ok (.option (some o) value)
    | _ => .error .usage

/-- Whether what follows the short help option leaves it a request for help: the option again, any number
of times, also behind an equals sign. -/
def isHelpTail : List Char → Bool
  | ['='] => false
  | '=' :: rest => rest.all (· == 'h')
  | rest => rest.all (· == 'h')

def classify (text : List Char) : Except Refusal Argument :=
  match text with
  | '-' :: '-' :: _ => classifyLong text
  | ['-'] => .ok (.plain text)
  | '-' :: 'h' :: rest => .ok (.option (some .help) (if isHelpTail rest then none else some rest))
  | '-' :: _ => .ok (classifyOther text)
  | _ => .ok (.plain text)

def classifyAll : List (List Char) → Except Refusal (List Argument)
  | [] => .ok []
  | ['-', '-'] :: rest => .ok (.mark :: rest.map .plain)
  | text :: rest => do
    let a ← classify text
    let as ← classifyAll rest
    pure (a :: as)

/-- What the arguments ask for. The number of frames is unknown if the mark was written for it. -/
structure Options where
  program : Option (List Char) := none
  config : Option (List Char) := none
  headless : Bool := false
  frames : Option Int := some 60
  deriving DecidableEq

/-- What has been read: the options, whether the program has had its turn, and whether a word was left
over. -/
structure Reader where
  options : Options := {}
  hadProgram : Bool := false
  leftOver : Bool := false

/-- Sets the value of an option. The mark in the place of a value takes the value away. -/
def setValue (r : Reader) (o : OptionName) (text : List Char) : Except Refusal Reader :=
  let isMark : Bool := text = ['-', '-']
  match o with
  | .config =>
    .ok { r with options := { r.options with config := if isMark then none else some text } }
  | .frames =>
    if isMark then .ok { r with options := { r.options with frames := none } }
    else
      match Text.readInt .decimal text with
      | .ok n => .ok { r with options := { r.options with frames := some n } }
      | .error _ => .error .usage
  | _ => .error .usage

def readArguments : Reader → List Argument → Except Refusal Reader
  | r, [] => .ok r
  | r, .mark :: rest =>
    if r.hadProgram then readArguments { r with leftOver := true } rest
    else
      match rest with
      | .plain text :: rest =>
        readArguments { r with options := { r.options with program := some text }, hadProgram := true }
          rest
      | rest => readArguments { r with hadProgram := true } rest
  | r, .plain text :: rest =>
    if r.hadProgram then readArguments { r with leftOver := true } rest
    else
      let r : Reader :=
        { r with options := { r.options with program := some text }, hadProgram := true }
      match rest with
      | .mark :: rest => readArguments r rest
      | rest => readArguments r rest
  | r, .option none _ :: rest => readArguments { r with leftOver := true } rest
  | r, .option (some o) (some text) :: rest => do
    let r ← setValue r o text
    readArguments r rest
  | _, .option (some .help) none :: _ => .error .help
  | r, .option (some .headless) none :: rest =>
    readArguments { r with options := { r.options with headless := true } } rest
  | r, .option (some o) none :: rest =>
    match rest with
    | .plain text :: rest => do
      let r ← setValue r o text
      readArguments r rest
    | _ => .error .usage

def parse (arguments : List String) : Except Refusal Options := do
  let as ← classifyAll (arguments.map String.toList)
  let r ← readArguments {} as
  if r.leftOver then .error .usage else pure r.options

structure Files where
  program : String → Except FileFault (List UInt8)
  configuration : String → Except FileFault Value

inductive CommandFault
  | file (why : FileFault)
  | config (why : ConfigFault)
  | run (why : RunFault)
  deriving DecidableEq

def CommandFault.message : CommandFault → String
  | file why => why.message
  | config why => why.message
  | run why => why.message

/-- How a command ends: with a code, with an exit on the arguments, with a fault, or with the wish for a
window. -/
inductive Status
  | finished (code : Nat)
  | exited (code : Nat)
  | failed (why : CommandFault)
  | window
  deriving DecidableEq

structure Outcome where
  written : String
  status : Status

def lines (texts : List String) : String := String.join (texts.map (· ++ "\n"))

def readConfig (files : Files) (options : Options) : String × Except CommandFault Config :=
  match options.config with
  | none | some [] => ("", .ok {})
  | some name =>
    match files.configuration (String.ofList name) with
    | .error why => ("", .error (.file why))
    | .ok v =>
      let read := Config.ofValue v []
      (lines (read.2.map ConfigWarning.message), read.1.mapError .config)

def helpText : String :=
  lines ["usage: retro-chip8 [-h] [--config CONFIG] [--headless] [--frames FRAMES] [rom]",
    "",
    "CHIP-8 virtual machine and tracer",
    "",
    "positional arguments:",
    "  rom              program to load (.ch8, .hex, .asm)",
    "",
    "options:",
    "  -h, --help       show this help message and exit",
    "  --config CONFIG  YAML system configuration",
    "  --headless       run without a window and print the final screen",
    "  --frames FRAMES  frames to run in headless mode (default: 60)"]

/-- Runs a command. A fault of the emulated program ends it with code one. -/
def run (files : Files) (arguments : List String) : Outcome :=
  match parse arguments with
  | .error .help => ⟨helpText, .exited 0⟩
  | .error .usage => ⟨"", .exited 2⟩
  | .ok options =>
    match readConfig files options with
    | (written, .error why) => ⟨written, .failed why⟩
    | (written, .ok config) =>
      if options.headless then
        match options.program with
        | none | some [] => ⟨written, .exited 2⟩
        | some name =>
          let name := String.ofList name
          let ran := Headless.run name (files.program name) options.frames config
          match ran.result with
          | .ok _ => ⟨written ++ ran.written, .finished 0⟩
          | .error why =>
            if why.isEmulation then ⟨written ++ ran.written, .finished 1⟩
            else ⟨written ++ ran.written, .failed (.run why)⟩
      else ⟨written, .window⟩

end Chip8.CommandLine
