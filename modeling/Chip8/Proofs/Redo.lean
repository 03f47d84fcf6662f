import Chip8.Proofs.Accesses
import Chip8.Proofs.Runs

/-! Undo and redo. An instruction that asks the host for nothing goes by registers, memory and symbols alone
(`step_one_again`). An undo puts these back as they were before the instruction, so that the next step does again
what was taken back, and only the count of cycles goes on (`redo_exact`). -/

namespace Chip8

def Opcode.asksHost : Opcode → Bool
  | .random | .skipPressed | .skipReleased | .awaitKey => true
  | _ => false

theorem Reference.row_of_quiet {op : Opcode} (quiet : op.asksHost = false) (w : Nat) (a a' : Answers)
    (r : Reference) : row op w a r = row op w a' r := by
  cases op with
  | random | skipPressed | skipReleased | awaitKey => cases quiet
  | _ => rfl

namespace Machine

variable {π : Type} [Host π] {m k m' : Machine π}

/-- What goes into the report of a step from outside the registers: the count of cycles, and the symbols. -/
def ledger (m : Machine π) : Int × Symbols := (m.cycles, m.symbols)

theorem steady_ledger : Steady (ledger : Machine π → Int × Symbols) where
  bus _ _ := rfl
  state _ _ _ := rfl
  clearDisplay _ := rfl
  render _ _ := rfl
  isPressed _ _ := rfl
  waitKey _ := rfl
  randomByte _ := rfl

omit [Host π] in
theorem pastStack_ledger : PastStack (ledger : Machine π → Int × Symbols) := fun _ _ _ => rfl

theorem stepOnce_report {t : Trace} (once : (chip8 π).stepOnce m = (.ok t, m')) :
    t.state = m'.state ∧ t.address = m.state.pc ∧ t.cycles = m.cycles + 1 ∧
      t.label = m.symbols.nameAt? m.state.pc := by
  rcases stepOnce_begins m with ⟨f, m₁, failed, -⟩ | ⟨i, m₁, begun, start, -⟩
  · cases failed.symm.trans once
  · obtain ⟨_, m₂, ran, reported⟩ := Action.bind_eq_ok (begun.symm.trans once)
    have kept : ledger m₂ = ledger m := by
      have performed := perform_keeps steady_ledger i.opcode i.word (fun _ => pastStack_ledger) m₁
      rw [ran, start] at performed
      exact performed
    have cycles : m₂.cycles = m.cycles := congrArg Prod.fst kept
    have symbols : m₂.symbols = m.symbols := congrArg Prod.snd kept
    cases reported
    exact ⟨rfl, rfl, congrArg (· + 1) cycles, congrArg (Symbols.nameAt? · m.state.pc) symbols⟩

theorem symbols_step_one (m : Machine π) : (step 1 m).2.symbols = m.symbols := by
  rw [step_one]
  split
  · rcases stepOnce_keeps steady_ledger pastStack_ledger m with ⟨f, m₁, once, same⟩ | ⟨t, m₁, once, same⟩
    · rw [Action.bind_error once]
      exact congrArg Prod.snd same
    · rw [Action.bind_ok once]
      exact congrArg Prod.snd same
  · rfl

theorem calls_of_stepOnce {t : Trace} (once : (chip8 π).stepOnce m = (.ok t, m')) :
    t.accesses.map Access.call =
      [.read m.state.pc, .read (wrap (m.state.pc + 1))] ++ ownCalls m.state t.instruction := by
  obtain ⟨-, ⟨high, low, own, entries, -, calls⟩, -⟩ := stepOnce_accesses once
  rw [entries, ← calls]
  rfl

/-- Two steps of one instruction that start and end with the same registers, from the same memory and symbols, give the
same snapshot but for the count of cycles, and leave the same bus. -/
theorem report_again {t t' : Trace} {k' : Machine π} (memory : m.bus.IsMemory) (memory' : k.bus.IsMemory)
    (once : (chip8 π).stepOnce m = (.ok t, m')) (again : (chip8 π).stepOnce k = (.ok t', k'))
    (state : k.state = m.state) (cells : k.bus.memory = m.bus.memory) (symbols : k.symbols = m.symbols)
    (performed : t'.instruction = t.instruction) (same : k'.state = m'.state) :
    t' = { t with cycles := k.cycles + 1 } ∧ k'.bus = m'.bus := by
  -- The log is determined by the calls, and these by the registers.
  have calls : t'.accesses.map Access.call = t.accesses.map Access.call := by
    rw [calls_of_stepOnce again, calls_of_stepOnce once, state, performed]
  have start : { k.bus with log := [] } = { m.bus with log := [] } := by
    rw [memory'.eq_ofMemory, memory.eq_ofMemory, cells]
    rfl
  obtain ⟨-, -, logs, empty⟩ := stepOnce_accesses once
  obtain ⟨-, -, logs', empty'⟩ := stepOnce_accesses again
  rw [calls, start] at logs'
  obtain ⟨accesses, behind⟩ := logs.unique logs'
  obtain ⟨left, place, -, label⟩ := stepOnce_report once
  obtain ⟨left', place', cycles', label'⟩ := stepOnce_report again
  constructor
  · have registers : t'.state = t.state := left'.trans (same.trans left.symm)
    have here : t'.address = t.address := by rw [place', place, state]
    have named : t'.label = t.label := by rw [label', label, symbols, state]
    cases t
    cases t'
    simp only [Snapshot.mk.injEq]
    exact ⟨registers, performed, here, accesses, cycles', named⟩
  · have log : k'.bus = { k'.bus with log := [] } := by rw [← empty']
    have log' : m'.bus = { m'.bus with log := [] } := by rw [← empty]
    rw [log, log']
    exact congrArg (fun b : Bus => { b with log := [] }) behind

/-- A step that asks the host for nothing goes by registers, memory and symbols alone: with these the same it is the
same step, by another count of cycles. -/
theorem step_one_again {t : Trace} (h : m.Sound) (run : step 1 m = (.ok (some t), m'))
    (quiet : t.instruction.opcode.asksHost = false) (bus : k.bus.IsMemory) (state : k.state = m.state)
    (memory : k.bus.memory = m.bus.memory) (symbols : k.symbols = m.symbols) :
    ∃ k', step 1 k = (.ok (some { t with cycles := k.cycles + 1 }), k') ∧ k'.state = m'.state ∧ k'.bus = m'.bus := by
  obtain ⟨r, represents, bounded, -⟩ := h.exists_represents
  have represents' : k.Represents r := by
    refine ⟨by rw [state]; exact represents.state, ?_⟩
    rw [← represents.memory, ← memory]
    exact bus.eq_ofMemory
  have once := stepOnce_of_step_one run
  have loaded : k.state.isLoaded = true := by
    rw [state]
    by_contra unloaded
    rw [step_one, if_neg unloaded] at run
    cases run
  -- The cycle of the reference machine is the same, since its row asks for nothing.
  have meets := stepOnce_meets represents bounded
  have meets' := stepOnce_meets represents' bounded
  cases cycle : r.cycle (Answers.ofHost m.host) with
  | error f =>
    rw [cycle] at meets
    obtain ⟨_, failed, -⟩ := meets
    cases failed.symm.trans once
  | ok r' =>
    rw [cycle] at meets
    obtain ⟨_, _, once₁, executed⟩ := meets
    cases once₁.symm.trans once
    obtain ⟨op, fits, instruction, row⟩ := executed.instruction
    rw [instruction] at quiet
    have cycle' : r.cycle (Answers.ofHost k.host) = .ok r' := by
      rw [Reference.cycle, if_pos executed.inside, Opcode.ofWord?_of_fits fits]
      exact (Reference.row_of_quiet quiet _ _ _ _).trans row
    rw [cycle'] at meets'
    obtain ⟨t', k', again, executed'⟩ := meets'
    obtain ⟨op', fits', instruction', -⟩ := executed'.instruction
    have performed : t'.instruction = t.instruction := by
      rw [instruction', instruction, Opcode.fits_unique fits fits']
    have same : k'.state = m'.state := executed'.represents.state.eq executed.represents.state
    obtain ⟨report, left⟩ := report_again h.bus bus once again state memory symbols performed same
    refine ⟨k', ?_, same, left⟩
    rw [← report]
    exact step_one_of_stepOnce loaded again

end Machine

/-- A history that can be done again under some symbols: each entry has the machine before its instruction, whose
step gives the snapshot and leads to the memory at the next newer one, or to this memory. -/
inductive Repeatable (π : Type) [Host π] (symbols : Symbols) : Memory → List HistoryEntry → Prop
  | nil (cells : Memory) : Repeatable π symbols cells []
  | cons {entry : HistoryEntry} {history : List HistoryEntry} {mark m' : Machine π} (sound : mark.Sound)
    (before : entry.before = mark.state) (named : mark.symbols = symbols)
    (run : Machine.step 1 mark = (.ok (some entry.snapshot), m'))
    (rest : Repeatable π symbols mark.bus.memory history) : Repeatable π symbols m'.bus.memory (entry :: history)

def HistoryEntry.recount (entry : HistoryEntry) (cycles : Int) : HistoryEntry :=
  { entry with snapshot := { entry.snapshot with cycles } }

/-- Entries, the newest first, counted on from a number of cycles. -/
def recounted (cycles : Int) : List HistoryEntry → List HistoryEntry
  | [] => []
  | entry :: older => entry.recount (cycles + older.length + 1) :: recounted cycles older

/-- Entries that followed each other, the newest first: each instruction started in the state that the one before it
left. -/
def Consecutive (entries : List HistoryEntry) : Prop :=
  entries.IsChain fun newer older => newer.before = older.snapshot.state

/-- What leaves registers, memory and history alone: an edit of the breakpoints, and a change of the host from
outside. -/
def DebugCommand.isAside {π : Type} : DebugCommand π → Bool
  | .edit _ | .input _ => true
  | _ => false

namespace Session

variable {π : Type} [Host π] {s s' : Session π}

structure Retraceable (s : Session π) : Prop where
  sound : s.Sound
  history : Repeatable π s.machine.symbols s.machine.bus.memory s.debugger.history

theorem Retraceable.of_same (h : s.Retraceable) (sound : s'.Sound)
    (symbols : s'.machine.symbols = s.machine.symbols) (memory : s'.machine.bus.memory = s.machine.bus.memory)
    (history : s'.debugger.history = s.debugger.history) : s'.Retraceable := by
  refine ⟨sound, ?_⟩
  rw [symbols, memory, history]
  exact h.history

theorem stepInstruction_retraceable (h : s.Retraceable) : Retraceable (stepInstruction s).2 := by
  have sound := stepInstruction_sound h.sound
  have symbols := Machine.symbols_step_one s.machine
  rcases run : Machine.step 1 s.machine with ⟨answer, m'⟩
  rw [run] at symbols
  by_cases recorded : ∃ t, answer = .ok (some t)
  · obtain ⟨t, rfl⟩ := recorded
    have step := stepInstruction_some run
    rw [step] at sound ⊢
    refine ⟨sound, .cons h.sound.machine rfl symbols.symm run ?_⟩
    have history := h.history
    rwa [← symbols] at history
  · have other : ∀ t, answer ≠ .ok (some t) := fun t e => recorded ⟨t, e⟩
    have memory := Machine.step_one_memory h.sound.machine
    rw [run] at memory
    have same : m'.bus.memory = s.machine.bus.memory := by
      rcases answer with why | _ | t
      · exact memory
      · exact memory
      · exact absurd rfl (other t)
    have step := stepInstruction_other run other
    rw [step] at sound ⊢
    exact h.of_same sound symbols same rfl

/-- An undo, with the machine before the newest instruction and the one behind it. What it leaves is the machine
before, but for the host and the count of cycles. -/
structure TakenBack (s : Session π) (entry : HistoryEntry) (rest : List HistoryEntry) (mark m' : Machine π) :
    Prop where
  sound : mark.Sound
  run : Machine.step 1 mark = (.ok (some entry.snapshot), m')
  behind : m'.bus.memory = s.machine.bus.memory
  named : mark.symbols = s.machine.symbols
  before : mark.state = entry.before
  state : (stepBack s).2.machine.state = entry.before
  memory : (stepBack s).2.machine.bus.memory = mark.bus.memory
  symbols : (stepBack s).2.machine.symbols = s.machine.symbols
  cycles : (stepBack s).2.machine.cycles = s.machine.cycles
  history : (stepBack s).2.debugger.history = rest
  retraceable : Retraceable (stepBack s).2

theorem Retraceable.takenBack (h : s.Retraceable) {entry : HistoryEntry} {rest : List HistoryEntry}
    (past : s.debugger.history = entry :: rest) : ∃ mark m' : Machine π, s.TakenBack entry rest mark m' := by
  have sound := stepBack_sound h.sound
  have history := h.history
  rw [past] at history
  generalize memory : s.machine.bus.memory = cells at history
  cases history with
  | @cons _ _ mark m' mine before named run older =>
    have logged := Machine.step_one_memory mine
    rw [run] at logged
    have back := stepBack_eq h.sound.machine.bus past (memory.symm ▸ logged.1) logged.2
    have restored : (stepBack s).2.machine.bus.memory = mark.bus.memory := by
      rw [back]
      exact Bus.memory_ofMemory _ _
    refine ⟨mark, m', mine, run, memory.symm, named, before.symm, ?_, restored, ?_, ?_, ?_, sound, ?_⟩
    · rw [back]
    · rw [back]
    · rw [back]
    · rw [back]
    · rw [restored, back]
      exact older

variable (stops : π → Nat)

theorem afterDebug_retraceable (c : DebugCommand π) (h : s.Retraceable) : (s.afterDebug stops c).Retraceable := by
  have sound := afterDebug_sound stops c h.sound
  cases c with
  | stepInstruction => exact stepInstruction_retraceable h
  | run bound limit =>
    exact run_invariant stops stepInstruction_retraceable
      (fun same h => h.of_same (modifyDebugger_sound h.sound same) rfl rfl same) bound limit h
  | stepBack =>
    rcases past : s.debugger.history with _ | ⟨entry, rest⟩
    · have idle : stepBack s = (.ok none, s) := by rw [stepBack, past]
      rw [afterDebug, idle]
      exact h
    · obtain ⟨_, _, back⟩ := h.takenBack past
      exact back.retraceable
  | tick =>
    have same : s.machine.tick.symbols = s.machine.symbols ∧ s.machine.tick.bus = s.machine.bus := by
      rw [Machine.tick_eq]
      exact ⟨rfl, rfl⟩
    exact h.of_same sound same.1 (congrArg Bus.memory same.2) rfl
  | edit e => exact h.of_same sound rfl rfl (e.history_apply _).1
  | input f => exact h.of_same sound rfl rfl rfl

theorem foldl_afterDebug_retraceable (taken : List (DebugCommand π)) (h : s.Retraceable) :
    (taken.foldl (afterDebug stops) s).Retraceable := by
  induction taken generalizing s with
  | nil => exact h
  | cons c taken ih => exact ih (afterDebug_retraceable stops c h)

theorem stepInstruction_again {entry : HistoryEntry} {rest : List HistoryEntry} {mark m' : Machine π}
    (back : s.TakenBack entry rest mark m') (quiet : entry.snapshot.instruction.opcode.asksHost = false)
    (retraceable : s'.Retraceable) (state : s'.machine.state = entry.before)
    (memory : s'.machine.bus.memory = (stepBack s).2.machine.bus.memory)
    (symbols : s'.machine.symbols = s.machine.symbols) :
    ∃ again : Session π,
      stepInstruction s' = (.ok (some { entry.snapshot with cycles := s'.machine.cycles + 1 }), again) ∧
      again.machine.state = entry.snapshot.state ∧ again.machine.bus.memory = s.machine.bus.memory ∧
      again.machine.symbols = s.machine.symbols ∧ again.machine.cycles = s'.machine.cycles + 1 ∧
      again.debugger.history = entry.recount (s'.machine.cycles + 1) :: s'.debugger.history ∧
      again.Retraceable := by
  obtain ⟨m₁, run, left, bus⟩ := Machine.step_one_again back.sound back.run quiet retraceable.sound.machine.bus
    (state.trans back.before.symm) (memory.trans back.memory) (symbols.trans back.named.symm)
  have step := stepInstruction_some run
  have kept := stepInstruction_retraceable retraceable
  have named := Machine.symbols_step_one s'.machine
  have reported := (Machine.stepOnce_report (Machine.stepOnce_of_step_one back.run)).1
  have counted := Machine.cycles_of_completed (Machine.stepOnce_of_step_one run)
  rw [run] at named
  rw [step] at kept
  refine ⟨_, step, left.trans reported.symm, (congrArg Bus.memory bus).trans back.behind, named.trans symbols,
    counted, ?_, kept⟩
  rw [state]
  rfl

theorem foldl_afterDebug_aside {between : List (DebugCommand π)} (aside : ∀ c ∈ between, c.isAside = true)
    (s : Session π) :
    let s' := between.foldl (afterDebug stops) s
    s'.machine.state = s.machine.state ∧ s'.machine.bus = s.machine.bus ∧
      s'.machine.symbols = s.machine.symbols ∧ s'.machine.cycles = s.machine.cycles ∧
      s'.debugger.history = s.debugger.history := by
  induction between generalizing s with
  | nil => exact ⟨rfl, rfl, rfl, rfl, rfl⟩
  | cons c between ih =>
    obtain ⟨first, later⟩ := List.forall_mem_cons.1 aside
    obtain ⟨state, bus, symbols, cycles, history⟩ := ih later (s.afterDebug stops c)
    cases c with
    | edit e => exact ⟨state, bus, symbols, cycles, history.trans (e.history_apply _).1⟩
    | input f => exact ⟨state, bus, symbols, cycles, history⟩
    | _ => cases first

structure DoneAgain (s : Session π) (k : Nat) (again : Session π) : Prop where
  state : again.machine.state = (match s.debugger.history.take k with
    | [] => s.machine.state
    | entry :: _ => entry.snapshot.state)
  memory : again.machine.bus.memory = s.machine.bus.memory
  symbols : again.machine.symbols = s.machine.symbols
  cycles : again.machine.cycles = s.machine.cycles + k
  history : again.debugger.history =
    recounted s.machine.cycles (s.debugger.history.take k) ++ s.debugger.history.drop k
  retraceable : again.Retraceable

theorem stepTimes_backTimes (k : Nat) (h : s.Retraceable) (all : k ≤ s.debugger.history.length)
    (quiet : ∀ entry ∈ s.debugger.history.take k, entry.snapshot.instruction.opcode.asksHost = false)
    (follow : Consecutive (s.debugger.history.take k)) : s.DoneAgain k (stepTimes k (backTimes k s)) := by
  induction k generalizing s with
  | zero => exact ⟨rfl, rfl, rfl, (Int.add_zero _).symm, rfl, h⟩
  | succ k ih =>
    rcases past : s.debugger.history with _ | ⟨entry, rest⟩
    · rw [past] at all
      cases all
    obtain ⟨mark, m', back⟩ := h.takenBack past
    rw [past] at all quiet follow
    rw [List.take_succ_cons] at quiet follow
    obtain ⟨first, older⟩ := List.forall_mem_cons.1 quiet
    -- The older ones are done again first; the newest then starts where they end.
    have redone := ih back.retraceable (by rw [back.history]; exact Nat.le_of_succ_le_succ all)
      (by rw [back.history]; exact older) (by rw [back.history]; exact follow.tail)
    have one : stepTimes (k + 1) (backTimes (k + 1) s) =
        (stepInstruction (stepTimes k (backTimes k (stepBack s).2))).2 := Function.iterate_succ_apply' _ _ _
    rw [one]
    generalize stepTimes k (backTimes k (stepBack s).2) = u at redone ⊢
    have start : u.machine.state = entry.before := by
      rw [redone.state, back.history]
      cases earlier : rest.take k with
      | nil => exact back.state
      | cons before _ =>
        rw [earlier] at follow
        exact (List.isChain_cons_cons.1 follow).1.symm
    obtain ⟨again, step, state, memory, symbols, cycles, history, retraceable⟩ :=
      stepInstruction_again back first redone.retraceable start redone.memory (redone.symbols.trans back.symbols)
    have count : u.machine.cycles = s.machine.cycles + k := by rw [redone.cycles, back.cycles]
    rw [step]
    refine ⟨?_, memory, symbols, ?_, ?_, retraceable⟩
    · rw [past, List.take_succ_cons]
      exact state
    · rw [cycles, count]
      omega
    · have length : (rest.take k).length = k := List.length_take_of_le (Nat.le_of_succ_le_succ all)
      rw [history, redone.history, back.history, back.cycles, past, List.take_succ_cons, List.drop_succ_cons,
        recounted, length, count]
      rfl

theorem consecutive_stepTimes (k : Nat) (s : Session π) :
    (stepTimes k s).debugger.history.length ≤ s.debugger.history.length + k ∧
      ((stepTimes k s).debugger.history.length = s.debugger.history.length + k →
        Consecutive ((stepTimes k s).debugger.history.take k) ∧
        ∀ entry ∈ ((stepTimes k s).debugger.history.take k).head?,
          (stepTimes k s).machine.state = entry.snapshot.state) := by
  induction k with
  | zero => exact ⟨le_rfl, fun _ => ⟨.nil, fun _ none => nomatch none⟩⟩
  | succ k ih =>
    obtain ⟨most, recorded⟩ := ih
    have one : stepTimes (k + 1) s = (stepInstruction (stepTimes k s)).2 := Function.iterate_succ_apply' _ _ _
    rw [one]
    generalize stepTimes k s = u at most recorded ⊢
    rcases run : Machine.step 1 u.machine with ⟨answer, m'⟩
    by_cases completed : ∃ t, answer = .ok (some t)
    · obtain ⟨t, rfl⟩ := completed
      have reported := Machine.stepOnce_report (Machine.stepOnce_of_step_one run)
      rw [stepInstruction_some run]
      refine ⟨Nat.succ_le_succ most, fun all => ?_⟩
      obtain ⟨follow, last⟩ := recorded (Nat.succ.inj all)
      rw [List.take_succ_cons]
      refine ⟨List.isChain_cons.2 ⟨last, follow⟩, ?_⟩
      rintro _ ⟨⟩
      exact reported.1.symm
    · have other : ∀ t, answer ≠ .ok (some t) := fun t e => completed ⟨t, e⟩
      rw [stepInstruction_other run other]
      refine ⟨Nat.le_succ_of_le most, fun all => ?_⟩
      have none : u.debugger.history.length = s.debugger.history.length + (k + 1) := all
      omega

/-- **Redo.** From any machine and any debugger whose history is empty, whatever the session has taken: if the newest
instruction of the history asks the host for nothing, then behind an undo, with any asides in between, the next step
gives the snapshot of that instruction again, with the registers and the bus activity that it had, and leads to the
same memory; the count of cycles alone goes on, as an undo does not lower it. So do as many steps behind as many
undos, where each of the instructions started in the state that the one before it left. -/
theorem redo_exact (stops : π → Nat) (host : π) (commands : List (Command π)) (d : Debugger)
    (taken : List (DebugCommand π)) :
    let s₀ : Session π := ⟨(ofCommands stops host commands).machine, d.clearHistory⟩
    let s := taken.foldl (afterDebug stops) s₀
    (∀ entry rest, s.debugger.history = entry :: rest → entry.snapshot.instruction.opcode.asksHost = false →
      ∀ between : List (DebugCommand π), (∀ c ∈ between, c.isAside = true) →
        let again := stepInstruction (between.foldl (afterDebug stops) (stepBack s).2)
        again.1 = .ok (some { entry.snapshot with cycles := s.machine.cycles + 1 }) ∧
        again.2.machine.state = entry.snapshot.state ∧ again.2.machine.bus.memory = s.machine.bus.memory ∧
        again.2.debugger.history = entry.recount (s.machine.cycles + 1) :: rest) ∧
    (∀ k ≤ s.debugger.history.length,
      (∀ entry ∈ s.debugger.history.take k, entry.snapshot.instruction.opcode.asksHost = false) →
      Consecutive (s.debugger.history.take k) →
        let again := stepTimes k (backTimes k s)
        again.debugger.history =
          recounted s.machine.cycles (s.debugger.history.take k) ++ s.debugger.history.drop k ∧
        again.machine.bus.memory = s.machine.bus.memory) ∧
    ∀ k, (stepTimes k s).debugger.history.length = s.debugger.history.length + k →
      Consecutive ((stepTimes k s).debugger.history.take k) := by
  intro s₀ s
  have sound : s₀.Sound := ⟨(ofCommands_sound stops host commands).machine, List.forall_mem_nil _⟩
  have retraceable : s.Retraceable := foldl_afterDebug_retraceable stops taken ⟨sound, .nil _⟩
  clear_value s
  refine ⟨fun entry rest past quiet between aside => ?_, fun k all quiet follow => ?_,
    fun k recorded => ((consecutive_stepTimes k s).2 recorded).1⟩
  · obtain ⟨mark, m', back⟩ := retraceable.takenBack past
    obtain ⟨state, bus, symbols, cycles, history⟩ := foldl_afterDebug_aside stops aside (stepBack s).2
    have kept := foldl_afterDebug_retraceable stops between back.retraceable
    obtain ⟨redone, step, left, memory, -, -, recorded, -⟩ :=
      stepInstruction_again back quiet kept (state.trans back.state) (congrArg Bus.memory bus)
        (symbols.trans back.symbols)
    rw [cycles, back.cycles] at step recorded
    rw [history, back.history] at recorded
    intro again
    have ran : again = (_, redone) := step
    rw [ran]
    exact ⟨rfl, left, memory, recorded⟩
  · have again := stepTimes_backTimes k retraceable all quiet follow
    exact ⟨again.history, again.memory⟩

/-- Its second instruction overwrites the first. Two undos and two steps give both again. -/
theorem redo_exact_overwriting :
    let m := (ofCommands (fun _ : Unit => 0) () [.loadImage overwriting]).machine
    let s := [DebugCommand.stepInstruction, DebugCommand.stepInstruction].foldl (afterDebug fun _ => 0)
      ⟨m, (Debugger.new m).clearHistory⟩
    ∃ newest older, s.debugger.history = [newest, older] ∧ newest.snapshot.instruction = ⟨.store, 0xF055⟩ ∧
      older.snapshot.instruction = ⟨.loadIndex, 0xA200⟩ ∧ Consecutive [newest, older] ∧
      (stepInstruction (stepBack s).2).1 = .ok (some { newest.snapshot with cycles := s.machine.cycles + 1 }) ∧
      (stepTimes 2 (backTimes 2 s)).debugger.history =
        [newest.recount (s.machine.cycles + 2), older.recount (s.machine.cycles + 1)] ∧
      (stepTimes 2 (backTimes 2 s)).machine.bus.memory = s.machine.bus.memory := by
  obtain ⟨m, start⟩ : ∃ m, m = (ofCommands (fun _ : Unit => 0) () [.loadImage overwriting]).machine := ⟨_, rfl⟩
  have redo := redo_exact (fun _ : Unit => 0) () [.loadImage overwriting] (Debugger.new m)
    [.stepInstruction, .stepInstruction]
  have loaded := ofCommands_loadImage (fun _ : Unit => 0) ()
    (show Machine.imageFault? overwriting = none by decide)
  rw [← start] at redo loaded ⊢
  intro _ s
  obtain ⟨t, m₁, t', m₂, first, second, load, store, -, -⟩ := overwriting_steps loaded.1
  have ran : s = _ := stepTimes_two (s := ⟨m, (Debugger.new m).clearHistory⟩) first second
  have past : s.debugger.history = [⟨t', m₁.state⟩, ⟨t, m.state⟩] := congrArg (fun s => s.debugger.history) ran
  have quiet : ∀ entry ∈ s.debugger.history, entry.snapshot.instruction.opcode.asksHost = false := by
    rw [past]
    refine List.forall_mem_cons.2 ⟨?_, List.forall_mem_singleton.2 ?_⟩
    · rw [store]
      rfl
    · rw [load]
      rfl
  have follow : Consecutive s.debugger.history := by
    rw [past]
    have reported := (Machine.stepOnce_report (Machine.stepOnce_of_step_one first)).1
    exact List.isChain_cons_cons.2 ⟨reported.symm, .singleton _⟩
  obtain ⟨one, many, -⟩ := redo
  have length : s.debugger.history.length = 2 := congrArg List.length past
  have whole : s.debugger.history.take 2 = s.debugger.history := List.take_of_length_le length.le
  have newest := one _ _ past (quiet _ (past ▸ List.mem_cons_self)) [] (List.forall_mem_nil _)
  have both := many 2 length.ge (whole.symm ▸ quiet) (whole.symm ▸ follow)
  rw [past] at follow
  have newer : s.machine.cycles + (1 : Nat) + 1 = s.machine.cycles + 2 := by omega
  have older : s.machine.cycles + (0 : Nat) + 1 = s.machine.cycles + 1 := by omega
  refine ⟨_, _, past, store, load, follow, newest.1, ?_, both.2⟩
  rw [both.1, past, ← newer, ← older]
  rfl

end Session

end Chip8
