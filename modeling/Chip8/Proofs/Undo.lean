import Chip8.Proofs.Programs

/-! Undo. A session is followed together with the machines as they were before the instructions in its
history, newest first; the history stays linked to them through all that the session does
(`afterMarked_tracked`), so an undo puts back the newest of them (`stepBack_tracked`). -/

namespace Chip8

namespace Machine

variable {π : Type} [Host π]

/-- The machines before each of the next single steps, newest first. -/
def beforeEach : Nat → Machine π → List (Machine π)
  | 0, _ => []
  | k + 1, m => beforeEach k (step 1 m).2 ++ [m]

/-- A single step changes memory only by accesses that it reports; if it reports nothing, it leaves the
memory. -/
theorem step_one_memory {m : Machine π} (h : m.Sound) :
    match step 1 m with
    | (.ok (some t), m') =>
      Memory.undo t.accesses m'.bus.memory = m.bus.memory ∧ ∀ access ∈ t.accesses, access.InMemory
    | (_, m') => m'.bus.memory = m.bus.memory := by
  obtain ⟨r, represents, bounded, -⟩ := h.exists_represents
  by_cases loaded : m.state.isLoaded = true
  · have meets := step_one_meets represents bounded loaded
    split at meets
    · obtain ⟨t, m', run, executed⟩ := meets
      rw [run]
      exact ⟨executed.undo, executed.inMemory⟩
    · rename_i f _
      obtain ⟨m', run, failed⟩ := meets
      rw [run]
      have kept : (r.afterCycle f).memory = r.memory := by cases f <;> rfl
      show m'.bus.memory = m.bus.memory
      rw [failed.represents.memory, represents.memory, kept]
  · rw [step_one, if_neg loaded]

end Machine

/-- The entries of a history, each with the machine before its instruction: it has the state of the entry,
its next step gives the snapshot of the entry, and taking back what that step logged leads from the memory
after to the memory before. -/
inductive Linked {π : Type} [Host π] : Memory → List HistoryEntry → List (Machine π) → Prop
  | nil (cells : Memory) : Linked cells [] []
  | cons {cells : Memory} {entry : HistoryEntry} {mark : Machine π} {history : List HistoryEntry}
    {marks : List (Machine π)} (before : entry.before = mark.state)
    (run : (Machine.step 1 mark).1 = .ok (some entry.snapshot))
    (undo : Memory.undo entry.snapshot.accesses cells = mark.bus.memory)
    (inMemory : ∀ access ∈ entry.snapshot.accesses, access.InMemory)
    (rest : Linked mark.bus.memory history marks) : Linked cells (entry :: history) (mark :: marks)

theorem Linked.forall₂ {π : Type} [Host π] {cells : Memory} {history : List HistoryEntry}
    {marks : List (Machine π)} (h : Linked cells history marks) :
    List.Forall₂ (fun entry mark => (Machine.step 1 mark).1 = .ok (some entry.snapshot))
      history marks := by
  induction h with
  | nil => exact .nil
  | cons _ run _ _ _ ih => exact .cons run ih

namespace Session

variable {π : Type} {s s' : Session π}

/-- How many entries one session has more than another. -/
def grown (s s' : Session π) : Nat := s'.debugger.history.length - s.debugger.history.length

theorem grown_eq {k : Nat} (h : s'.debugger.history.length = s.debugger.history.length + k) :
    grown s s' = k := by
  rw [grown, h, Nat.add_sub_cancel_left]

variable [Host π]

/-- A session after a command, with the machines before the instructions in its history. An undo drops the
newest; any other command adds one for each instruction that it records. -/
def afterMarked (stops : π → Nat) (marked : Session π × List (Machine π)) (c : DebugCommand π) :
    Session π × List (Machine π) :=
  let s' := marked.1.afterDebug stops c
  (s',
    match c with
    | .stepBack => marked.2.tail
    | _ => Machine.beforeEach (grown marked.1 s') marked.1.machine ++ marked.2)

/-- A session whose history is linked to the machines before its instructions. -/
structure Tracked (s : Session π) (marks : List (Machine π)) : Prop where
  sound : s.Sound
  linked : Linked s.machine.bus.memory s.debugger.history marks
  last : s.debugger.last = s.debugger.history.head?.map (·.snapshot)

variable (stops : π → Nat) {marks : List (Machine π)}

theorem Tracked.of_same (h : s.Tracked marks) (sound : s'.Sound)
    (memory : s'.machine.bus.memory = s.machine.bus.memory)
    (history : s'.debugger.history = s.debugger.history)
    (last : s'.debugger.last = s.debugger.last) : s'.Tracked marks := by
  refine ⟨sound, ?_, ?_⟩
  · rw [memory, history]
    exact h.linked
  · rw [last, history]
    exact h.last

theorem Tracked.modifyDebugger (h : s.Tracked marks) {f : Debugger → Debugger}
    (history : (f s.debugger).history = s.debugger.history)
    (last : (f s.debugger).last = s.debugger.last) : (s.modifyDebugger f).Tracked marks :=
  h.of_same (modifyDebugger_sound h.sound history) rfl history last

theorem stepInstruction_some {t : Trace} {m' : Machine π}
    (run : Machine.step 1 s.machine = (.ok (some t), m')) :
    stepInstruction s = (.ok (some t), {
      machine := m'
      debugger := { s.debugger with
        previous := s.machine.state
        history := ⟨t, s.machine.state⟩ :: s.debugger.history
        last := some t } }) := by
  rw [stepInstruction, run]

theorem stepInstruction_other {answer : Except Fault (Option Trace)} {m' : Machine π}
    (run : Machine.step 1 s.machine = (answer, m')) (other : ∀ t, answer ≠ .ok (some t)) :
    stepInstruction s = (answer, {
      machine := m'
      debugger := { s.debugger with previous := s.machine.state } }) := by
  rw [stepInstruction, run]
  rcases answer with why | _ | t
  · rfl
  · rfl
  · exact absurd rfl (other t)

/-- An instruction is recorded with the machine before it, or it leaves history and memory. -/
theorem stepInstruction_tracked (h : s.Tracked marks) :
    (∃ t s', stepInstruction s = (.ok (some t), s') ∧ s'.machine = (Machine.step 1 s.machine).2 ∧
      s'.debugger.history.length = s.debugger.history.length + 1 ∧
      s'.Tracked (s.machine :: marks)) ∨
    (∃ answer s', stepInstruction s = (answer, s') ∧ (∀ t, answer ≠ .ok (some t)) ∧
      s'.debugger.history.length = s.debugger.history.length ∧ s'.Tracked marks) := by
  have sound := stepInstruction_sound h.sound
  rcases run : Machine.step 1 s.machine with ⟨answer, m'⟩
  have memory := Machine.step_one_memory h.sound.machine
  rw [run] at memory
  by_cases recorded : ∃ t, answer = .ok (some t)
  · obtain ⟨t, rfl⟩ := recorded
    have step := stepInstruction_some run
    rw [step] at sound ⊢
    refine .inl ⟨t, _, rfl, rfl, rfl, sound, ?_, rfl⟩
    exact .cons rfl (congrArg Prod.fst run) memory.1 memory.2 h.linked
  · have other : ∀ t, answer ≠ .ok (some t) := fun t e => recorded ⟨t, e⟩
    have same : m'.bus.memory = s.machine.bus.memory := by
      rcases answer with why | _ | t
      · exact memory
      · exact memory
      · exact absurd rfl (other t)
    have step := stepInstruction_other run other
    rw [step] at sound ⊢
    exact .inr ⟨answer, _, rfl, other, rfl, h.of_same sound same rfl rfl⟩

theorem runLoop_tracked (asked : Nat) (limit : Option Int) (fuel : Nat) (steps : Int)
    (last : Option Trace) (h : s.Tracked marks) :
    ∃ k, (runLoop stops asked limit fuel steps last s).2.debugger.history.length =
        s.debugger.history.length + k ∧
      Tracked (runLoop stops asked limit fuel steps last s).2
        (Machine.beforeEach k s.machine ++ marks) := by
  induction fuel generalizing steps last s marks with
  | zero => exact ⟨0, rfl, h⟩
  | succ fuel ih =>
    unfold runLoop
    dsimp only
    split
    · exact ⟨0, rfl, h⟩
    · split
      · exact ⟨0, rfl, h⟩
      · split
        · exact ⟨0, rfl, h.modifyDebugger rfl rfl⟩
        · rcases stepInstruction_tracked h with
            ⟨t, s', run, machine, length, tracked⟩ | ⟨answer, s', run, other, length, tracked⟩
          · rw [run]
            dsimp only
            split
            · exact ⟨1, length, tracked.modifyDebugger rfl rfl⟩
            · obtain ⟨k, grows, after⟩ := ih (steps + 1) (some t) tracked
              refine ⟨k + 1, by omega, ?_⟩
              rw [Machine.beforeEach, ← machine, List.append_assoc]
              exact after
          · rw [run]
            rcases answer with why | _ | t
            · exact ⟨0, length, tracked⟩
            · exact ⟨0, length, tracked⟩
            · exact absurd rfl (other t)

theorem run_tracked (bound : Nat) (limit : Option Int) (h : s.Tracked marks) :
    ∃ k, (run stops bound limit s).2.debugger.history.length = s.debugger.history.length + k ∧
      Tracked (run stops bound limit s).2 (Machine.beforeEach k s.machine ++ marks) := by
  have started : Tracked (s.modifyDebugger fun d => { d with running := true }) marks :=
    h.modifyDebugger rfl rfl
  unfold run
  dsimp only
  obtain ⟨k, length, tracked⟩ := runLoop_tracked stops (stops s.machine.host) limit _ 0 none started
  exact ⟨k, length, tracked.modifyDebugger rfl rfl⟩

omit [Host π] in
/-- An undo takes back what the newest entry logged, and puts back the state before it. -/
theorem stepBack_eq {entry : HistoryEntry} {rest : List HistoryEntry} {cells : Memory}
    (bus : s.machine.bus.IsMemory) (past : s.debugger.history = entry :: rest)
    (undo : Memory.undo entry.snapshot.accesses s.machine.bus.memory = cells)
    (inMemory : ∀ access ∈ entry.snapshot.accesses, access.InMemory) :
    stepBack s = (.ok (rest.head?.map (·.snapshot)), {
      machine := { s.machine with bus := Bus.ofMemory cells s.machine.bus.log, state := entry.before }
      debugger := { s.debugger with history := rest, last := rest.head?.map (·.snapshot) } }) := by
  have reverted := Bus.revert_ofMemory s.machine.bus.memory s.machine.bus.log inMemory
  rw [← bus.eq_ofMemory, undo] at reverted
  rw [stepBack, past]
  dsimp only
  rw [reverted]

theorem stepBack_tracked {mark : Machine π} (h : s.Tracked (mark :: marks)) :
    (stepBack s).1 = .ok (stepBack s).2.debugger.last ∧
      (stepBack s).2.machine.state = mark.state ∧
      (stepBack s).2.machine.bus.memory = mark.bus.memory ∧ Tracked (stepBack s).2 marks := by
  have sound := stepBack_sound h.sound
  have linked := h.linked
  rcases past : s.debugger.history with _ | ⟨entry, rest⟩
  · rw [past] at linked
    cases linked
  · rw [past] at linked
    cases linked with
    | cons before run undo inMemory older =>
      have back := stepBack_eq h.sound.machine.bus past undo inMemory
      rw [back] at sound ⊢
      refine ⟨rfl, before, Bus.memory_ofMemory _ _, sound, ?_, rfl⟩
      show Linked (Bus.memory (Bus.ofMemory _ _)) rest marks
      rw [Bus.memory_ofMemory]
      exact older

theorem stepBack_empty (h : s.Tracked []) : stepBack s = (.ok none, s) := by
  have linked := h.linked
  rcases past : s.debugger.history with _ | ⟨entry, rest⟩
  · rw [stepBack, past]
  · rw [past] at linked
    cases linked

theorem afterMarked_recorded {t : Trace} (run : stepInstruction s = (.ok (some t), s'))
    (length : s'.debugger.history.length = s.debugger.history.length + 1) :
    afterMarked stops (s, marks) .stepInstruction = (s', s.machine :: marks) := by
  simp only [afterMarked, afterDebug, run, grown_eq length]
  rfl

theorem afterMarked_tracked (c : DebugCommand π) (h : s.Tracked marks) :
    Tracked (afterMarked stops (s, marks) c).1 (afterMarked stops (s, marks) c).2 := by
  have sound := afterDebug_sound stops c h.sound
  cases c with
  | stepInstruction =>
    rcases stepInstruction_tracked h with
      ⟨t, s', run, -, length, tracked⟩ | ⟨answer, s', run, -, length, tracked⟩
    · rw [afterMarked_recorded stops run length]
      exact tracked
    · have marked : afterMarked stops (s, marks) .stepInstruction = (s', marks) := by
        simp only [afterMarked, afterDebug, run, grown_eq (k := 0) length]
        rfl
      rw [marked]
      exact tracked
  | run bound limit =>
    obtain ⟨k, length, tracked⟩ := run_tracked stops bound limit h
    simp only [afterMarked, afterDebug, grown_eq length]
    exact tracked
  | stepBack =>
    cases marks with
    | nil =>
      simp only [afterMarked, afterDebug, stepBack_empty h]
      exact h
    | cons mark marks => exact (stepBack_tracked h).2.2.2
  | tick =>
    have bus : s.machine.tick.bus = s.machine.bus := by rw [Machine.tick_eq]
    have same : grown s (s.modifyMachine Machine.tick) = 0 := grown_eq (k := 0) rfl
    simp only [afterMarked, afterDebug, same]
    exact h.of_same sound (congrArg Bus.memory bus) rfl rfl
  | edit e =>
    obtain ⟨history, last⟩ := e.history_apply s.debugger
    have same : grown s (s.modifyDebugger e.apply) = 0 := grown_eq (k := 0) (congrArg List.length history)
    simp only [afterMarked, afterDebug, same]
    exact h.modifyDebugger history last
  | input f =>
    have same : grown s (s.modifyMachine fun m => { m with host := f m.host }) = 0 :=
      grown_eq (k := 0) rfl
    simp only [afterMarked, afterDebug, same]
    exact h.of_same sound rfl rfl rfl

theorem foldl_afterMarked_tracked (commands : List (DebugCommand π)) (h : s.Tracked marks) :
    Tracked (commands.foldl (afterMarked stops) (s, marks)).1
      (commands.foldl (afterMarked stops) (s, marks)).2 := by
  induction commands generalizing s marks with
  | nil => exact h
  | cons c commands ih => exact ih (afterMarked_tracked stops c h)

theorem foldl_afterMarked_fst (commands : List (DebugCommand π)) (s : Session π)
    (marks : List (Machine π)) :
    (commands.foldl (afterMarked stops) (s, marks)).1 = commands.foldl (afterDebug stops) s := by
  induction commands generalizing s marks with
  | nil => rfl
  | cons c commands ih => exact ih _ _

theorem Tracked.getLast?_snapshots (h : s.Tracked marks) :
    s.debugger.last = s.debugger.snapshots.getLast? := by
  rw [h.last, Debugger.snapshots, List.getLast?_reverse, List.head?_map]

def stepTimes (k : Nat) : Session π → Session π := (fun s => (stepInstruction s).2)^[k]

def backTimes (k : Nat) : Session π → Session π := (fun s => (stepBack s).2)^[k]

theorem stepTimes_two {t t' : Trace} {m₁ m₂ : Machine π} (first : Machine.step 1 s.machine = (.ok (some t), m₁))
    (second : Machine.step 1 m₁ = (.ok (some t'), m₂)) :
    stepTimes 2 s = ⟨m₂, { s.debugger with
      previous := m₁.state
      history := ⟨t', m₁.state⟩ :: ⟨t, s.machine.state⟩ :: s.debugger.history
      last := some t' }⟩ := by
  have two : stepTimes 2 s = (stepInstruction (stepInstruction s).2).2 := rfl
  rw [two, stepInstruction_some first]
  exact congrArg Prod.snd (stepInstruction_some second)

/-- So many undos lead to the machine that so many entries lie behind. -/
theorem backTimes_tracked (newer : List (Machine π)) {mark : Machine π}
    (h : s.Tracked (newer ++ mark :: marks)) :
    (backTimes (newer.length + 1) s).machine.state = mark.state ∧
      (backTimes (newer.length + 1) s).machine.bus.memory = mark.bus.memory := by
  induction newer generalizing s with
  | nil => exact ⟨(stepBack_tracked h).2.1, (stepBack_tracked h).2.2.1⟩
  | cons newest newer ih => exact ih (stepBack_tracked h).2.2.2

theorem stepTimes_tracked (k : Nat) (h : s.Tracked marks) :
    (stepTimes k s).debugger.history.length ≤ s.debugger.history.length + k ∧
      ((stepTimes k s).debugger.history.length = s.debugger.history.length + k →
        Tracked (stepTimes k s) (Machine.beforeEach k s.machine ++ marks)) := by
  induction k generalizing s marks with
  | zero => exact ⟨le_rfl, fun _ => h⟩
  | succ k ih =>
    have first : stepTimes (k + 1) s = stepTimes k (stepInstruction s).2 := rfl
    rw [first]
    rcases stepInstruction_tracked h with
      ⟨t, s', run, machine, length, tracked⟩ | ⟨answer, s', run, -, length, tracked⟩
    · obtain ⟨most, all⟩ := ih tracked
      rw [run]
      dsimp only
      refine ⟨by omega, fun recorded => ?_⟩
      rw [Machine.beforeEach, ← machine, List.append_assoc]
      exact all (by omega)
    · obtain ⟨most, -⟩ := ih tracked
      rw [run]
      dsimp only
      exact ⟨by omega, fun recorded => by omega⟩

theorem length_beforeEach (k : Nat) (m : Machine π) : (Machine.beforeEach k m).length = k := by
  induction k generalizing m with
  | zero => rfl
  | succ k ih => rw [Machine.beforeEach, List.length_append, ih, List.length_singleton]

theorem backTimes_stepTimes (k : Nat) (h : s.Tracked marks)
    (recorded : (stepTimes k s).debugger.history.length = s.debugger.history.length + k) :
    (backTimes k (stepTimes k s)).machine.state = s.machine.state ∧
      (backTimes k (stepTimes k s)).machine.bus.memory = s.machine.bus.memory := by
  cases k with
  | zero => exact ⟨rfl, rfl⟩
  | succ k =>
    have tracked := (stepTimes_tracked (k + 1) h).2 recorded
    rw [Machine.beforeEach, List.append_assoc] at tracked
    have back := backTimes_tracked _ tracked
    rwa [length_beforeEach] at back

/-- **Undo.** From any machine and any debugger whose history is empty, whatever the session has taken: each
entry of the history is the next step of the machine before it; the last snapshot is the last of the
history; an undo gives back state and memory of the newest of those machines, or does nothing if there is
none; and steps that were all recorded are taken back by as many undos. -/
theorem undo_exact (stops : π → Nat) (host : π) (commands : List (Command π)) (d : Debugger)
    (taken : List (DebugCommand π)) :
    let s₀ : Session π := ⟨(ofCommands stops host commands).machine, d.clearHistory⟩
    let s := taken.foldl (afterDebug stops) s₀
    let marks := (taken.foldl (afterMarked stops) (s₀, [])).2
    List.Forall₂ (fun entry mark => (Machine.step 1 mark).1 = .ok (some entry.snapshot))
      s.debugger.history marks ∧
    s.debugger.last = s.debugger.snapshots.getLast? ∧
    (match marks with
      | [] => stepBack s = (.ok none, s)
      | mark :: _ =>
        (stepBack s).1 = .ok (stepBack s).2.debugger.last ∧
          (stepBack s).2.machine.state = mark.state ∧
          (stepBack s).2.machine.bus.memory = mark.bus.memory) ∧
    ∀ k, (stepTimes k s).debugger.history.length = s.debugger.history.length + k →
      (backTimes k (stepTimes k s)).machine.state = s.machine.state ∧
        (backTimes k (stepTimes k s)).machine.bus.memory = s.machine.bus.memory := by
  intro s₀ s marks
  have sound : s₀.Sound :=
    ⟨(ofCommands_sound stops host commands).machine, List.forall_mem_nil _⟩
  have tracked : s.Tracked marks := by
    have followed := foldl_afterMarked_tracked stops taken
      (show s₀.Tracked [] from ⟨sound, .nil _, rfl⟩)
    rwa [foldl_afterMarked_fst] at followed
  refine ⟨tracked.linked.forall₂, tracked.getLast?_snapshots, ?_,
    fun k recorded => backTimes_stepTimes k tracked recorded⟩
  generalize marks = marks at tracked ⊢
  cases marks with
  | nil => exact stepBack_empty tracked
  | cons mark marks =>
    obtain ⟨answer, state, memory, -⟩ := stepBack_tracked tracked
    exact ⟨answer, state, memory⟩

/-- Two steps are recorded, the second of which overwrites the first byte of the program. One undo puts that byte back,
and two lead to the machine before. -/
theorem undo_exact_overwriting :
    let m := (ofCommands (fun _ : Unit => 0) () [.loadImage overwriting]).machine
    let s := stepTimes 2 ⟨m, (Debugger.new m).clearHistory⟩
    s.debugger.history.length = 2 ∧ s.machine.bus.memory.get 0x200 = 0 ∧
      (stepBack s).2.machine.bus.memory.get 0x200 = 0xA2 ∧
      (backTimes 2 s).machine.state = m.state ∧ (backTimes 2 s).machine.bus.memory = m.bus.memory := by
  -- The machine goes by a name, so that no step below computes it.
  obtain ⟨m, start⟩ : ∃ m, m = (ofCommands (fun _ : Unit => 0) () [.loadImage overwriting]).machine := ⟨_, rfl⟩
  have undo := undo_exact (fun _ : Unit => 0) () [.loadImage overwriting] (Debugger.new m)
  have loaded := ofCommands_loadImage (fun _ : Unit => 0) ()
    (show Machine.imageFault? overwriting = none by decide)
  rw [← start] at undo loaded ⊢
  intro _ s
  obtain ⟨t, m₁, t', m₂, first, second, -, -, between, before, after⟩ := overwriting_steps loaded.1
  have ran := stepTimes_two (s := ⟨m, (Debugger.new m).clearHistory⟩) first second
  have length : s.debugger.history.length = 2 := congrArg (fun s => s.debugger.history.length) ran
  have overwritten : s.machine.bus.memory.get 0x200 = 0 :=
    (congrArg (fun s => s.machine.bus.memory.get 0x200) ran).trans after
  have marked : [DebugCommand.stepInstruction, .stepInstruction].foldl (afterMarked fun _ => 0)
      (⟨m, (Debugger.new m).clearHistory⟩, []) = (s, [m₁, m]) := by
    have one := stepInstruction_some (s := ⟨m, (Debugger.new m).clearHistory⟩) first
    rw [List.foldl_cons, afterMarked_recorded _ one rfl, List.foldl_cons,
      afterMarked_recorded _ (stepInstruction_some second) rfl, List.foldl_nil]
    exact congrArg (·, [m₁, m]) ran.symm
  obtain ⟨-, -, newest, -⟩ := undo [.stepInstruction, .stepInstruction]
  rw [marked, ← foldl_afterMarked_fst, marked] at newest
  have restored : m₁.bus.memory.get 0x200 = 0xA2 := by
    rw [between.memory, ← before, loaded.1.memory]
    rfl
  obtain ⟨-, -, -, all⟩ := undo []
  exact ⟨length, overwritten, newest.2.2 ▸ restored, all 2 length⟩

end Session

end Chip8
