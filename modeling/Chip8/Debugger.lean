import Chip8.Machine
/-! A debugger: breakpoints, single steps that can be taken back, and runs to the next hit. Each history
entry keeps the state before its instruction; its logged writes tell how to restore memory. -/

namespace Chip8

inductive BreakpointKind
  | counter
  | memoryRead
  | memoryWrite
  | registerValue
  | registerChange
  deriving DecidableEq

structure Breakpoint where
  kind : BreakpointKind
  value : Option Int := none
  address : Option Int := none
  register : Option String := none
  enabled : Bool := true
  deriving DecidableEq

structure HistoryEntry where
  snapshot : Trace
  before : State

/-- History has the newest entry first; `notices` are the program counters at which a hit was told. -/
structure Debugger where
  breakpoints : List Breakpoint := []
  running : Bool := false
  previous : State
  last : Option Trace := none
  history : List HistoryEntry := []
  notices : List Int := []

/-- A machine under a debugger. -/
structure Session (π : Type) where
  machine : Machine π
  debugger : Debugger

def breakpointNotice (pc : Int) : String := s!"Breakpoint hit at PC: {Text.markedHex 5 pc}"

namespace Breakpoint

def isCounterHit (bp : Breakpoint) (pc : Int) : Bool :=
  bp.enabled && bp.kind == .counter && bp.value == some pc

def readsAt (address : Option Int) : Access → Bool
  | .read a _ => address == some a
  | .write .. => false

def writesAt (address : Option Int) : Access → Bool
  | .read .. => false
  | .write a _ _ => address == some a

/-- Whether an executed instruction hits a breakpoint that is not on the program counter. -/
def isHit (bp : Breakpoint) (accesses : List Access) (before after : State) : Bool :=
  bp.enabled &&
    match bp.kind with
    | .counter => false
    | .memoryRead => accesses.any (readsAt bp.address)
    | .memoryWrite => accesses.any (writesAt bp.address)
    | .registerValue =>
      match bp.register.bind after.register? with
      | some value => bp.value == some value
      | none => false
    | .registerChange =>
      match bp.register.bind after.register?, bp.register.bind before.register? with
      | some new, some old => new != old
      | _, _ => false

end Breakpoint

namespace Debugger

def new {π : Type} (m : Machine π) : Debugger := { previous := m.state }

def add (bp : Breakpoint) (d : Debugger) : Debugger :=
  if bp ∈ d.breakpoints then d else { d with breakpoints := d.breakpoints ++ [bp] }

/-- Puts a breakpoint in the place of the first that equals the old one. -/
def replaceFirst (old new : Breakpoint) : List Breakpoint → List Breakpoint
  | [] => []
  | bp :: bps => if bp = old then new :: bps else bp :: replaceFirst old new bps

def update (old new : Breakpoint) (d : Debugger) : Debugger :=
  { d with breakpoints := replaceFirst old new d.breakpoints }

def remove (bp : Breakpoint) (d : Debugger) : Debugger :=
  { d with breakpoints := d.breakpoints.erase bp }

def snapshots (d : Debugger) : List Trace := (d.history.map (·.snapshot)).reverse

def clearHistory (d : Debugger) : Debugger := { d with history := [], last := none }

def stop (d : Debugger) : Debugger := { d with running := false }

def hitsCounter (d : Debugger) (pc : Int) : Bool := d.breakpoints.any (·.isCounterHit pc)

def isHit (d : Debugger) (accesses : List Access) (after : State) : Bool :=
  d.breakpoints.any (·.isHit accesses d.previous after)

def notify (pc : Int) (d : Debugger) : Debugger := { d with notices := d.notices ++ [pc] }

end Debugger

namespace Session

variable {π : Type}

def modifyDebugger (f : Debugger → Debugger) (s : Session π) : Session π :=
  { s with debugger := f s.debugger }

/-- Takes back the newest entry: its writes in reverse, then the state before it. The answer is the
snapshot that is the newest then. -/
def stepBack : Action (Session π) Fault (Option Trace) := fun s =>
  match s.debugger.history with
  | [] => (.ok none, s)
  | entry :: rest =>
    let d := { s.debugger with history := rest }
    match s.machine.bus.revert entry.snapshot.accesses with
    | (.error e, bus) => (.error (.bus e), { machine := { s.machine with bus }, debugger := d })
    | (.ok (), bus) =>
      let last := rest.head?.map (·.snapshot)
      (.ok last,
        { machine := { s.machine with bus, state := entry.before }, debugger := { d with last } })

variable [Host π]

/-- One instruction, recorded in the history. -/
def stepInstruction : Action (Session π) Fault (Option Trace) := fun s =>
  let before := s.machine.state
  let d := { s.debugger with previous := before }
  match Machine.step 1 s.machine with
  | (.error e, machine) => (.error e, { machine, debugger := d })
  | (.ok none, machine) => (.ok none, { machine, debugger := d })
  | (.ok (some snapshot), machine) =>
    (.ok (some snapshot),
      { machine
        debugger := { d with history := ⟨snapshot, before⟩ :: d.history, last := some snapshot } })

/-- The loop of a run. The run ends when the host's count of stop requests has moved, at the limit of
steps, before an instruction at a breakpoint unless it is the first, and after an instruction that hits
another breakpoint. -/
def runLoop (stops : π → Nat) (asked : Nat) (limit : Option Int) :
    Nat → Int → Option Trace → Action (Session π) Fault (Option Trace)
  | 0, _, last, s => (.ok last, s)
  | fuel + 1, steps, last, s =>
    let pc := s.machine.state.pc
    if stops s.machine.host ≠ asked then (.ok last, s)
    else if limit.any (· ≤ steps) then (.ok last, s)
    else if steps ≠ 0 && s.debugger.hitsCounter pc then
      (.ok last, s.modifyDebugger (Debugger.notify pc))
    else
      match stepInstruction s with
      | (.error e, s) => (.error e, s)
      | (.ok none, s) => (.ok none, s)
      | (.ok (some snapshot), s) =>
        if s.debugger.isHit snapshot.accesses s.machine.state then
          (.ok (some snapshot), s.modifyDebugger (Debugger.notify snapshot.state.pc))
        else runLoop stops asked limit fuel (steps + 1) (some snapshot) s

/-- Runs to a hit, a stop request or a limit of steps. A run without a limit takes at most so many steps as
the bound says. -/
def run (stops : π → Nat) (bound : Nat) (limit : Option Int) :
    Action (Session π) Fault (Option Trace) := fun s =>
  let fuel := match limit with
    | some most => most.toNat + 1
    | none => bound
  let started := s.modifyDebugger fun d => { d with running := true }
  let r := runLoop stops (stops s.machine.host) limit fuel 0 none started
  (r.1, r.2.modifyDebugger Debugger.stop)

end Session

end Chip8
