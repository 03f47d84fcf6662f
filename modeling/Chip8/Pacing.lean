import Chip8.Machine
/-! Frames: so many instructions and one tick of the timers each, paced by a clock. Times are numbers of a
scale, floats when run. A pacer that lags too far behind drops the lag. -/

namespace Chip8

/-- The arithmetic of clock readings. An interval is one over a frequency, if that can be written. -/
class TimeScale (τ : Type) where
  zero : τ
  add : τ → τ → τ
  sub : τ → τ → τ
  le : τ → τ → Bool
  lt : τ → τ → Bool
  interval? : Int → Option τ

def floatOfInt? (n : Int) : Option Float :=
  let size := Float.ofScientific n.natAbs false 0
  if size.isInf then none else some (if n < 0 then -size else size)

instance : TimeScale Float where
  zero := 0.0
  add := (· + ·)
  sub := (· - ·)
  le a b := a ≤ b
  lt a b := a < b
  interval? hz := (floatOfInt? hz).map (1.0 / ·)

instance : TimeScale Rat where
  zero := 0
  add := (· + ·)
  sub := (· - ·)
  le a b := a ≤ b
  lt a b := a < b
  interval? hz := some (1 / hz)

inductive PaceFault
  | machine (why : Fault)
  | notPositive (setting : String)
  | hugeFrequency
  deriving DecidableEq

def PaceFault.message : PaceFault → String
  | machine why => why.message
  | notPositive setting => s!"{setting} must be positive."
  | hugeFrequency => "int too large to convert to float"

structure Pacer (τ : Type) where
  instructionsPerFrame : Int := 12
  timerHz : Int := 60
  maxCatchUp : Int := 5
  frameCount : Nat := 0
  nextFrame : Option τ := none

def Pacer.make (τ : Type) (instructionsPerFrame timerHz maxCatchUp : Int) :
    Except PaceFault (Pacer τ) :=
  if instructionsPerFrame ≤ 0 then .error (.notPositive "instructions_per_frame")
  else if timerHz ≤ 0 then .error (.notPositive "timer_hz")
  else if maxCatchUp ≤ 0 then .error (.notPositive "max_catch_up")
  else .ok { instructionsPerFrame, timerHz, maxCatchUp }

structure Paced (τ π : Type) where
  machine : Machine π
  pacer : Pacer τ

def Pacer.interval {τ : Type} [TimeScale τ] (p : Pacer τ) : Except PaceFault τ :=
  match TimeScale.interval? p.timerHz with
  | some t => .ok t
  | none => .error .hugeFrequency

namespace Paced

variable {τ π : Type} [Host π]

/-- One frame. A frame that fails ticks nothing and does not count. -/
def runFrame : Action (Paced τ π) PaceFault (Option Trace) := fun s =>
  match Machine.step s.pacer.instructionsPerFrame s.machine with
  | (.error why, machine) => (.error (.machine why), { s with machine })
  | (.ok snapshot, machine) =>
    (.ok snapshot,
      { machine := machine.tick
        pacer := { s.pacer with frameCount := s.pacer.frameCount + 1 } })

def runFrames : Nat → Option Trace → Action (Paced τ π) PaceFault (Option Trace)
  | 0, last => pure last
  | n + 1, _ => do
    let snapshot ← runFrame
    runFrames n snapshot

variable [TimeScale τ]

/-- Frames while the next is due, at most so many; the answer is their number. -/
def catchUp (now : τ) : Nat → Nat → τ → Action (Paced τ π) PaceFault Nat
  | 0, done, _ => pure done
  | most + 1, done, next =>
    if TimeScale.le next now then do
      let _ ← runFrame
      let s ← Action.get
      match s.pacer.interval with
      | .error e => Action.fail e
      | .ok interval =>
        let next := TimeScale.add next interval
        Action.modify fun s => { s with pacer := { s.pacer with nextFrame := some next } }
        catchUp now most (done + 1) next
    else pure done

def advance (now : τ) : Action (Paced τ π) PaceFault Nat := do
  let s ← Action.get
  let next := s.pacer.nextFrame.getD now
  Action.modify fun s => { s with pacer := { s.pacer with nextFrame := some next } }
  let done ← catchUp now s.pacer.maxCatchUp.toNat 0 next
  let s ← Action.get
  if s.pacer.nextFrame.any (TimeScale.le · now) then
    match s.pacer.interval with
    | .error e => Action.fail e
    | .ok interval =>
      let next := TimeScale.add now interval
      Action.modify fun s => { s with pacer := { s.pacer with nextFrame := some next } }
      pure done
  else pure done

end Paced

/-- The time left to the next frame, never negative. -/
def Pacer.untilNext {τ : Type} [TimeScale τ] (now : τ) (p : Pacer τ) : τ :=
  match p.nextFrame with
  | none => TimeScale.zero
  | some next =>
    let left := TimeScale.sub next now
    if TimeScale.lt TimeScale.zero left then left else TimeScale.zero

def Pacer.resync {τ : Type} (p : Pacer τ) : Pacer τ := { p with nextFrame := none }

end Chip8
