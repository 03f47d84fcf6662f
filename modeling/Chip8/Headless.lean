import Chip8.Config
import Chip8.Loading
import Chip8.Pacing
import Chip8.Peripherals
/-! Runs without a window: load a program, run frames, and write the last screen with a summary. A run that
a program fault stops writes how far it came. -/

namespace Chip8

inductive RunFault
  | load (why : LoadFault)
  | pace (why : PaceFault)
  | noFrameCount
  deriving DecidableEq

def RunFault.message : RunFault → String
  | load why => why.message
  | pace why => why.message
  | noFrameCount => "'list' object cannot be interpreted as an integer"

def RunFault.isEmulation : RunFault → Bool
  | load (.machine why) => why.isEmulation
  | pace (.machine why) => why.isEmulation
  | _ => false

namespace Headless

def randomSource (seed : Option Int) : RandomSource := .twister (.ofSeed (seed.getD 0))

/-- A display that keeps the last frame and writes nothing, and nothing else. -/
def peripherals (config : Config) : Peripherals :=
  { display := .console { escapes := false, live := false }
    random := randomSource config.machine.seed }

def summary (s : Paced Float Peripherals) : String :=
  let m := s.machine
  let st := m.state
  s!"Ran {s.pacer.frameCount} frames, {m.cycles} instructions; PC={Text.markedHex 5 st.pc} " ++
    s!"I={Text.markedHex 5 st.i} DT={st.delay} ST={st.sound}"

/-- What is written, and the machine at the end or the fault. -/
structure Outcome where
  written : String
  result : Except RunFault (Machine Peripherals)

/-- Loads a program and runs so many frames of it, if their number is known. -/
def run (name : String) (content : Except FileFault (List UInt8)) (frames : Option Int)
    (config : Config) : Outcome :=
  match Machine.loadFile name content (Machine.powerOn (peripherals config)) with
  | (.error why, _) => ⟨"", .error (.load why)⟩
  | (.ok _, machine) =>
    let settings := config.machine
    match Pacer.make Float settings.instructionsPerFrame settings.timerHz 5 with
    | .error why => ⟨"", .error (.pace why)⟩
    | .ok pacer =>
      match frames with
      | none => ⟨"", .error .noFrameCount⟩
      | some count =>
        match Paced.runFrames count.toNat none { machine, pacer } with
        | (.error why, s) =>
          let fault := RunFault.pace why
          let told := s!"Stopped after {s.pacer.frameCount} frames: {fault.message}\n"
          ⟨if fault.isEmulation then told else "", .error fault⟩
        | (.ok _, s) =>
          ⟨s.machine.state.screen.toText ++ "\n" ++ summary s ++ "\n", .ok s.machine⟩

end Headless

end Chip8
