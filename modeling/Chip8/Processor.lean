import Chip8.Action
import Chip8.Fault
import Chip8.Symbols
/-! The instruction cycle that every processor shares: clear the log, check the program counter, fetch,
decode, advance, execute, report. A step that fails reports nothing and leaves what it had done. -/

namespace Chip8

/-- A processor with what surrounds it: registers, bus, count of cycles, symbols and host. -/
structure Core (σ π : Type) where
  state : σ
  bus : Bus := {}
  cycles : Int := 0
  symbols : Symbols := []
  host : π

/-- What is reported of one executed instruction. -/
structure Snapshot (σ ι : Type) where
  state : σ
  instruction : ι
  address : Int
  accesses : List Access
  cycles : Int
  label : Option String

/-- What a processor adds to the common cycle. -/
structure Processor (σ π ι : Type) where
  isReady : σ → Bool
  counter : σ → Int
  checkFetch : σ → Except Fault Unit
  fetch : Action (Core σ π) Fault Int
  decode : Int → Option ι
  advance : ι → σ → σ
  execute : ι → Action (Core σ π) Fault Unit
  cost : ι → Int

namespace Core

variable {σ π : Type}

def readByte (address : Int) : Action (Core σ π) Fault UInt8 := fun m =>
  match m.bus.read address with
  | .ok (data, bus) => (.ok data, { m with bus })
  | .error e => (.error (.bus e), m)

def writeByte (address data : Int) : Action (Core σ π) Fault Unit := fun m =>
  match m.bus.write address data with
  | .ok bus => (.ok (), { m with bus })
  | .error e => (.error (.bus e), m)

def clearLog (m : Core σ π) : Core σ π := { m with bus := m.bus.takeLog.2 }

def modifyState (f : σ → σ) : Action (Core σ π) Fault Unit :=
  Action.modify fun m => { m with state := f m.state }

/-- Puts down an executed instruction: its accesses leave the log and its cost joins the count. -/
def report {ι : Type} (p : Processor σ π ι) (address : Int) (i : ι) :
    Action (Core σ π) Fault (Snapshot σ ι) := fun m =>
  let cycles := m.cycles + p.cost i
  (.ok { state := m.state, instruction := i, address, accesses := m.bus.log, cycles
         label := m.symbols.nameAt? address },
    { m with bus := m.bus.takeLog.2, cycles })

end Core

namespace Processor

variable {σ π ι : Type}

def stepOnce (p : Processor σ π ι) : Action (Core σ π) Fault (Snapshot σ ι) := do
  Action.modify Core.clearLog
  let state := (← Action.get).state
  let address := p.counter state
  match p.checkFetch state with
  | .error e => Action.fail e
  | .ok () =>
    let word ← p.fetch
    match p.decode word with
    | none => Action.fail (.unknownOpcode address word)
    | some i =>
      Core.modifyState (p.advance i)
      p.execute i
      Core.report p address i

/-- So many instructions; the answer is the last report, or the one given if there is none. -/
def stepMany (p : Processor σ π ι) :
    Nat → Option (Snapshot σ ι) → Action (Core σ π) Fault (Option (Snapshot σ ι))
  | 0, last => pure last
  | n + 1, _ => do
    let snapshot ← p.stepOnce
    p.stepMany n (some snapshot)

def step (p : Processor σ π ι) (count : Int) :
    Action (Core σ π) Fault (Option (Snapshot σ ι)) := do
  if p.isReady (← Action.get).state then p.stepMany count.toNat none else pure none

theorem stepMany_add (p : Processor σ π ι) (a b : Nat) (last : Option (Snapshot σ ι))
    (m : Core σ π) :
    p.stepMany (a + b) last m = (p.stepMany a last >>= fun s => p.stepMany b s) m := by
  induction a generalizing last m with
  | zero => rw [Nat.zero_add]; rfl
  | succ a ih =>
    rw [Nat.add_right_comm]
    simp only [stepMany, Action.bind_apply]
    match p.stepOnce m with
    | (.error e, m') => rfl
    | (.ok s, m') => simpa only [Action.bind_apply] using ih (some s) m'

end Processor

def labelled (label : Option String) (operation : String) : String :=
  match label with
  | some name => if name = "" then operation else name ++ ": " ++ operation
  | none => operation

end Chip8
