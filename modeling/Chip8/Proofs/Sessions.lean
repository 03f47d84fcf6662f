import Chip8.Debugger
import Chip8.Proofs.Cycle

/-! Runs of a machine and its debugger. A session starts from power-on and takes any commands in any
order; a command that fails leaves what it had done. Every session keeps the machine sound and the states
in its history in range (`ofCommands_sound`). -/

namespace Chip8

theorem State.inRange_default : State.InRange {} where
  v k := by simp
  i := by decide
  pc := by decide
  sp := by decide
  stack k := by simp
  used k hk := by simp at hk; omega
  delay := by decide
  sound := by decide
  programEnd := by decide
  screen := ⟨rfl, rfl⟩

namespace Machine

variable {π : Type} {m : Machine π}

theorem loadBlock_isMemory (h : m.bus.IsMemory) {address : Int} {start : Nat}
    (place : address = start) {block : List UInt8} (ne : block ≠ [])
    (fits : start + block.length ≤ 4096) :
    loadBlock address block m = (.ok (), { m with
      bus := Bus.ofMemory (m.bus.memory.overlay start block) m.bus.log }) := by
  subst place
  have load := Bus.loadBlock_ofMemory m.bus.memory m.bus.log ne fits
  rw [← h.eq_ofMemory] at load
  rw [loadBlock, load]

def cleared (cells : Memory) : Memory :=
  (cells.overlay 0 (List.replicate memorySize 0)).overlay 0 font

theorem reset_def : @reset π =
    (Action.modify fun m => { m with state := {}, cycles := 0 }) >>= fun _ =>
      loadBlock 0 (List.replicate memorySize 0) >>= fun _ =>
        loadBlock 0 font >>= fun _ => Action.modify Core.clearLog := rfl

theorem reset_eq (h : m.bus.IsMemory) :
    reset m = (.ok (), { m with
      state := {}, cycles := 0, bus := Bus.ofMemory (cleared m.bus.memory) [] }) := by
  have length : (List.replicate memorySize (0 : UInt8)).length = 4096 := List.length_replicate
  rw [reset_def, cleared]
  generalize List.replicate memorySize (0 : UInt8) = zeros at length ⊢
  have ne : zeros ≠ [] := List.ne_nil_of_length_pos (by omega)
  have first := loadBlock_isMemory (m := { m with state := {}, cycles := 0 }) h
    (show (0 : Int) = (0 : Nat) from rfl) ne (by omega)
  have second := loadBlock_isMemory (m := { m with
      state := {}, cycles := 0, bus := Bus.ofMemory (m.bus.memory.overlay 0 zeros) m.bus.log })
    (Bus.isMemory_ofMemory _ _) (show (0 : Int) = (0 : Nat) from rfl)
    (show font ≠ [] by decide) (by decide)
  dsimp only at first second
  rw [Bus.memory_ofMemory, Bus.log_ofMemory] at second
  rw [Action.bind_ok (Action.modify_apply _ m), Action.bind_ok first, Action.bind_ok second]
  rfl

theorem reset_sound (h : m.bus.IsMemory) : (reset m).2.Sound := by
  rw [reset_eq h]
  exact ⟨State.inRange_default, Bus.isMemory_ofMemory _ _⟩

theorem powerOn_def : @powerOn π = fun host =>
    (reset { state := {}, bus := Bus.flat memorySize, host : Machine π }).2 := rfl

theorem powerOn_sound (host : π) : (powerOn host).Sound := by
  have flat : (Bus.flat memorySize).IsMemory := by
    rw [Bus.flat_eq_ofMemory]
    exact Bus.isMemory_ofMemory _ _
  rw [powerOn_def]
  exact reset_sound flat

theorem imageFault?_eq_none_iff (image : List UInt8) :
    imageFault? image = none ↔ image ≠ [] ∧ image.length ≤ 3584 := by
  unfold imageFault? maxProgramSize
  cases image with
  | nil => simp
  | cons byte bytes =>
    simp

theorem loadImage_accepted (h : m.bus.IsMemory) {image : List UInt8}
    (accepted : imageFault? image = none) :
    loadImage image m = (.ok (), { m with
      state := { m.state with pc := programBase, programEnd := programBase + image.length }
      bus := Bus.ofMemory (m.bus.memory.overlay 0x200 image) m.bus.log }) := by
  obtain ⟨ne, short⟩ := (imageFault?_eq_none_iff image).1 accepted
  have load := loadBlock_isMemory h (show programBase = (0x200 : Nat) from rfl) ne (by omega)
  rw [loadImage, accepted]
  exact Action.bind_ok load

theorem loadImage_sound (h : m.Sound) (image : List UInt8) : (loadImage image m).2.Sound := by
  cases refused : imageFault? image with
  | some why =>
    rw [loadImage_rejected refused]
    exact h
  | none =>
    obtain ⟨-, short⟩ := (imageFault?_eq_none_iff image).1 refused
    rw [loadImage_accepted h.bus refused]
    have base : 0 ≤ programBase ∧ programBase ≤ 0x1002 := by decide
    refine ⟨{ h.state with pc := base, programEnd := ?_ }, Bus.isMemory_ofMemory _ _⟩
    show 0x200 ≤ programBase + image.length ∧ programBase + image.length ≤ 0x1000
    unfold programBase
    omega

theorem loadProgram_sound (h : m.Sound) (v : Value) : (loadProgram v m).2.Sound := by
  cases read : imageOfValue v with
  | error why =>
    rw [loadProgram_rejected read]
    exact h
  | ok image =>
    rw [loadProgram, read]
    exact loadImage_sound h image

variable [Host π]

theorem tick_eq (m : Machine π) :
    m.tick = { m with
      state := { m.state with
        delay := if 0 < m.state.delay then m.state.delay - 1 else m.state.delay
        sound := if 0 < m.state.sound then m.state.sound - 1 else m.state.sound }
      host := if 0 < m.state.sound then Host.setTone (m.state.sound - 1 != 0) m.host else m.host } := by
  unfold tick
  by_cases waiting : 0 < m.state.delay <;> by_cases sounding : 0 < m.state.sound <;>
    simp only [waiting, sounding, if_true, if_false]

theorem tick_sound (h : m.Sound) : m.tick.Sound := by
  have delay := h.state.delay
  have sound := h.state.sound
  rw [tick_eq]
  refine ⟨{ h.state with delay := ?_, sound := ?_ }, h.bus⟩
  · dsimp only
    split <;> omega
  · dsimp only
    split <;> omega

end Machine

inductive BreakpointEdit
  | add (bp : Breakpoint)
  | update (old new : Breakpoint)
  | remove (bp : Breakpoint)

def BreakpointEdit.apply : BreakpointEdit → Debugger → Debugger
  | .add bp => Debugger.add bp
  | .update old new => Debugger.update old new
  | .remove bp => Debugger.remove bp

theorem BreakpointEdit.history_apply (e : BreakpointEdit) (d : Debugger) :
    (e.apply d).history = d.history ∧ (e.apply d).last = d.last := by
  cases e with
  | add bp =>
    show (Debugger.add bp d).history = _ ∧ (Debugger.add bp d).last = _
    unfold Debugger.add
    split <;> exact ⟨rfl, rfl⟩
  | update old new => exact ⟨rfl, rfl⟩
  | remove bp => exact ⟨rfl, rfl⟩

/-- What a session under a debugger may take: instructions, undo, a tick of the timers, an edit of the
breakpoints, and any change of the host from outside, such as a key event. -/
inductive DebugCommand (π : Type)
  | stepInstruction
  | run (bound : Nat) (limit : Option Int)
  | stepBack
  | tick
  | edit (e : BreakpointEdit)
  | input (f : π → π)

/-- What a session may take: also resets, programs, steps past the debugger, and a new debugger. -/
inductive Command (π : Type)
  | reset
  | loadImage (image : List UInt8)
  | loadProgram (v : Value)
  | step (count : Int)
  | setSymbols (table : Symbols)
  | attach
  | clearHistory
  | debug (c : DebugCommand π)

namespace Session

variable {π : Type}

def modifyMachine (f : Machine π → Machine π) (s : Session π) : Session π :=
  { s with machine := f s.machine }

def start (host : π) : Session π :=
  { machine := Machine.powerOn host, debugger := Debugger.new (Machine.powerOn host) }

/-- The machine is sound, and so is every state that an undo would bring back. -/
structure Sound (s : Session π) : Prop where
  machine : s.machine.Sound
  before : ∀ entry ∈ s.debugger.history, entry.before.InRange

variable {s : Session π}

theorem modifyDebugger_sound (h : s.Sound) {f : Debugger → Debugger}
    (same : (f s.debugger).history = s.debugger.history) : Sound (s.modifyDebugger f) := by
  refine ⟨h.machine, ?_⟩
  show ∀ entry ∈ (f s.debugger).history, _
  rw [same]
  exact h.before

theorem stepBack_sound (h : s.Sound) : Sound (stepBack s).2 := by
  unfold stepBack
  cases past : s.debugger.history with
  | nil => exact h
  | cons entry rest =>
    have before := h.before
    rw [past, List.forall_mem_cons] at before
    have memory := Bus.isMemory_revert h.machine.bus entry.snapshot.accesses
    dsimp only
    generalize s.machine.bus.revert entry.snapshot.accesses = result at memory ⊢
    rcases result with ⟨why | _, bus⟩
    · exact ⟨⟨h.machine.state, memory⟩, before.2⟩
    · exact ⟨⟨before.1, memory⟩, before.2⟩

theorem start_sound (host : π) : (start host).Sound := by
  have sound := Machine.powerOn_sound host
  unfold start
  generalize Machine.powerOn host = m at sound ⊢
  exact ⟨sound, List.forall_mem_nil _⟩

variable [Host π] (stops : π → Nat)

/-- A session after a command, whether it succeeded or failed. -/
def afterDebug (s : Session π) : DebugCommand π → Session π
  | .stepInstruction => (stepInstruction s).2
  | .run bound limit => (run stops bound limit s).2
  | .stepBack => (stepBack s).2
  | .tick => s.modifyMachine Machine.tick
  | .edit e => s.modifyDebugger e.apply
  | .input f => s.modifyMachine fun m => { m with host := f m.host }

def after (s : Session π) : Command π → Session π
  | .reset => s.modifyMachine fun m => (Machine.reset m).2
  | .loadImage image => s.modifyMachine fun m => (Machine.loadImage image m).2
  | .loadProgram v => s.modifyMachine fun m => (Machine.loadProgram v m).2
  | .step count => s.modifyMachine fun m => (Machine.step count m).2
  | .setSymbols table => s.modifyMachine (Machine.setSymbols table)
  | .attach => { s with debugger := Debugger.new s.machine }
  | .clearHistory => s.modifyDebugger Debugger.clearHistory
  | .debug c => s.afterDebug stops c

/-- The session of a list of commands from power-on. -/
def ofCommands (host : π) (commands : List (Command π)) : Session π :=
  commands.foldl (after stops) (start host)

theorem ofCommands_singleton (host : π) (c : Command π) :
    ofCommands stops host [c] = (start host).after stops c := rfl

theorem ofCommands_concat (host : π) (commands : List (Command π)) (c : Command π) :
    ofCommands stops host (commands ++ [c]) = (ofCommands stops host commands).after stops c := by
  simp only [ofCommands, List.foldl_append, List.foldl_cons, List.foldl_nil]

theorem machine_after_step (s : Session π) (count : Int) :
    (s.after stops (.step count)).machine = (Machine.step count s.machine).2 := rfl

theorem machine_after_loadImage (s : Session π) (image : List UInt8) :
    (s.after stops (.loadImage image)).machine = (Machine.loadImage image s.machine).2 := rfl

theorem stepInstruction_sound (h : s.Sound) : Sound (stepInstruction s).2 := by
  have kept := Machine.step_sound 1 h.machine
  unfold stepInstruction
  dsimp only
  generalize Machine.step 1 s.machine = result at kept ⊢
  rcases result with ⟨why | _ | snapshot, m'⟩
  · exact ⟨kept, h.before⟩
  · exact ⟨kept, h.before⟩
  · exact ⟨kept, List.forall_mem_cons.2 ⟨h.machine.state, h.before⟩⟩

section invariant

variable {P : Session π → Prop} (instruction : ∀ {s}, P s → P (stepInstruction s).2)
  (debugger : ∀ {s : Session π} {f : Debugger → Debugger}, (f s.debugger).history = s.debugger.history →
    P s → P (s.modifyDebugger f))
include instruction debugger

theorem runLoop_invariant (asked : Nat) (limit : Option Int) (fuel : Nat) (steps : Int) (last : Option Trace)
    (h : P s) : P (runLoop stops asked limit fuel steps last s).2 := by
  induction fuel generalizing steps last s with
  | zero => exact h
  | succ fuel ih =>
    unfold runLoop
    dsimp only
    split
    · exact h
    · split
      · exact h
      · split
        · exact debugger rfl h
        · have kept := instruction h
          generalize stepInstruction s = result at kept ⊢
          rcases result with ⟨why | _ | snapshot, s'⟩
          · exact kept
          · exact kept
          · dsimp only
            split
            · exact debugger rfl kept
            · exact ih _ _ kept

/-- What each instruction keeps, and each change of the debugger that leaves the history, a run keeps. -/
theorem run_invariant (bound : Nat) (limit : Option Int) (h : P s) : P (run stops bound limit s).2 := by
  have started : P (s.modifyDebugger fun d => { d with running := true }) := debugger rfl h
  exact debugger rfl (runLoop_invariant stops instruction debugger _ _ _ _ _ started)

end invariant

theorem run_sound (bound : Nat) (limit : Option Int) (h : s.Sound) :
    Sound (run stops bound limit s).2 :=
  run_invariant stops stepInstruction_sound (fun same h => modifyDebugger_sound h same) bound limit h

theorem afterDebug_sound (c : DebugCommand π) (h : s.Sound) : (s.afterDebug stops c).Sound := by
  cases c with
  | stepInstruction => exact stepInstruction_sound h
  | run bound limit => exact run_sound stops bound limit h
  | stepBack => exact stepBack_sound h
  | tick => exact ⟨Machine.tick_sound h.machine, h.before⟩
  | edit e => exact modifyDebugger_sound h (e.history_apply _).1
  | input f => exact ⟨⟨h.machine.state, h.machine.bus⟩, h.before⟩

theorem after_sound (c : Command π) (h : s.Sound) : (s.after stops c).Sound := by
  cases c with
  | reset => exact ⟨Machine.reset_sound h.machine.bus, h.before⟩
  | loadImage image => exact ⟨Machine.loadImage_sound h.machine image, h.before⟩
  | loadProgram v => exact ⟨Machine.loadProgram_sound h.machine v, h.before⟩
  | step count => exact ⟨Machine.step_sound count h.machine, h.before⟩
  | setSymbols table => exact ⟨⟨h.machine.state, h.machine.bus⟩, h.before⟩
  | attach => exact ⟨h.machine, List.forall_mem_nil _⟩
  | clearHistory => exact ⟨h.machine, List.forall_mem_nil _⟩
  | debug c => exact afterDebug_sound stops c h

theorem foldl_after_sound (commands : List (Command π)) (h : s.Sound) :
    (commands.foldl (after stops) s).Sound := by
  induction commands generalizing s with
  | nil => exact h
  | cons c commands ih => exact ih (after_sound stops c h)

theorem ofCommands_sound (host : π) (commands : List (Command π)) :
    (ofCommands stops host commands).Sound :=
  foldl_after_sound stops commands (start_sound host)

/-- **Ranges.** Whatever is done to a machine, its registers stay in range and its bus a memory. -/
theorem ofCommands_inRange (stops : π → Nat) (host : π) (commands : List (Command π)) :
    (ofCommands stops host commands).machine.state.InRange ∧
      (ofCommands stops host commands).machine.bus.IsMemory :=
  ⟨(ofCommands_sound stops host commands).machine.state,
    (ofCommands_sound stops host commands).machine.bus⟩

end Session

end Chip8
