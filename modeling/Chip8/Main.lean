import Chip8.CommandLine
import Chip8.Value.Json
/-! The program: reads the files that the arguments name and runs the command. Configuration files are
read as JSON, which is YAML too. -/

namespace Chip8.CommandLine

def readBytes (name : String) : IO (Except FileFault (List UInt8)) := do
  try
    let content ← IO.FS.readBinFile name
    pure (.ok content.toList)
  catch
    | .inappropriateType .. => pure (.error (.isDirectory name))
    | _ => pure (.error (.missing name))

/-- The value that a text says; a text that says none counts as empty. -/
def valueOfBytes (bytes : List UInt8) : Except FileFault Value :=
  match (Text.TextFile.ofBytes bytes).fault with
  | some why => .error (.encoding why)
  | none => .ok ((Value.ofJson? (String.ofList (Text.decodeUtf8 bytes).1)).getD .null)

def filesFor (options : Options) : IO Files := do
  let name (o : Option (List Char)) := String.ofList (o.getD [])
  let program ← readBytes (name options.program)
  let configuration ← readBytes (name options.config)
  pure { program := fun _ => program, configuration := fun _ => configuration.bind valueOfBytes }

end Chip8.CommandLine

open Chip8.CommandLine in
def main (arguments : List String) : IO UInt32 := do
  let files ←
    match parse arguments with
    | .ok options => filesFor options
    | .error _ => filesFor {}
  let outcome := run files arguments
  IO.print outcome.written
  match outcome.status with
  | .finished code | .exited code => pure (UInt32.ofNat code)
  | .failed why =>
    IO.eprintln why.message
    pure 1
  | .window =>
    IO.eprintln "no window here: run with --headless"
    pure 2
