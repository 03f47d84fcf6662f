import Chip8.Proofs.Failing
import Chip8.Proofs.Undo

/-! Runs under a debugger. A run without enabled breakpoints does what as many steps of the machine do, and its
history grows by one entry for each instruction that completes (`run_undisturbed`). Nothing is asked of the
machine: instructions do not move the end of the program, so that the loop of a run and the loop of a step find the
machine ready at the same times. -/

namespace Chip8

namespace Machine

variable {π : Type} [Host π] {m m' : Machine π}

/-- The history entries of the next instructions, newest first. An instruction that fails has none, and none is
behind it. -/
def entries : Nat → Machine π → List HistoryEntry
  | 0, _ => []
  | k + 1, m =>
    match step 1 m with
    | (.ok (some t), m') => entries k m' ++ [⟨t, m.state⟩]
    | _ => []

theorem stepMany_failed {f : Fault} (once : (chip8 π).stepOnce m = (.error f, m')) (n : Nat)
    (last : Option Trace) : (chip8 π).stepMany (n + 1) last m = (.error f, m') := Action.bind_error once

theorem stepMany_completed {t : Trace} (once : (chip8 π).stepOnce m = (.ok t, m')) (n : Nat)
    (last : Option Trace) : (chip8 π).stepMany (n + 1) last m = (chip8 π).stepMany n (some t) m' :=
  Action.bind_ok once

theorem entries_completed {t : Trace} (loaded : m.state.isLoaded = true)
    (once : (chip8 π).stepOnce m = (.ok t, m')) (k : Nat) :
    m.entries (k + 1) = m'.entries k ++ [⟨t, m.state⟩] := by
  rw [entries, step_one_of_stepOnce loaded once]

theorem entries_failed {f : Fault} (loaded : m.state.isLoaded = true)
    (once : (chip8 π).stepOnce m = (.error f, m')) (k : Nat) : m.entries k = [] := by
  cases k with
  | zero => rfl
  | succ k => rw [entries, step_one_of_stepOnce_error loaded once]

theorem entries_unloaded (unloaded : ¬ m.state.isLoaded = true) (k : Nat) : m.entries k = [] := by
  cases k with
  | zero => rfl
  | succ k => rw [entries, step_one, if_neg unloaded]

theorem isLoaded_of_completed {t : Trace} (loaded : m.state.isLoaded = true)
    (once : (chip8 π).stepOnce m = (.ok t, m')) : m'.state.isLoaded = true := by
  have kept := isLoaded_stepOnce m
  rw [once] at kept
  exact kept.trans loaded

/-- Many instructions complete as many as they have entries; then they end, or the next one fails. -/
theorem stepMany_entries (loaded : m.state.isLoaded = true) (n : Nat) (last : Option Trace) :
    ∃ answer m₁, (chip8 π).stepMany (m.entries n).length last m = (.ok answer, m₁) ∧
      m₁.cycles = m.cycles + (m.entries n).length ∧ m₁.state.isLoaded = true ∧
      (∀ f m', (chip8 π).stepMany n last m = (.error f, m') →
        (m.entries n).length < n ∧ (chip8 π).stepOnce m₁ = (.error f, m')) ∧
      (∀ t m', (chip8 π).stepMany n last m = (.ok t, m') → (m.entries n).length = n) := by
  induction n generalizing last m with
  | zero =>
    exact ⟨last, m, rfl, (Int.add_zero _).symm, loaded, fun f m' run => (nomatch (Prod.mk.inj run).1),
      fun _ _ _ => rfl⟩
  | succ n ih =>
    rcases once : (chip8 π).stepOnce m with ⟨f | t, m₁⟩
    · rw [entries_failed loaded once, stepMany_failed once]
      refine ⟨last, m, rfl, (Int.add_zero _).symm, loaded, fun f' m' run => ?_,
        fun t m' run => (nomatch (Prod.mk.inj run).1)⟩
      cases run
      exact ⟨Nat.succ_pos n, once⟩
    · obtain ⟨answer, m₂, before, cycles, ready, failing, ending⟩ :=
        ih (isLoaded_of_completed loaded once) (some t)
      have count : m₁.cycles = m.cycles + 1 := cycles_of_completed once
      rw [entries_completed loaded once, List.length_append, List.length_singleton,
        stepMany_completed once, stepMany_completed once]
      refine ⟨answer, m₂, before, ?_, ready, fun f m' run => ?_, fun a m' run => ?_⟩
      · rw [cycles, count]
        omega
      · obtain ⟨less, next⟩ := failing f m' run
        exact ⟨Nat.succ_lt_succ less, next⟩
      · exact congrArg Nat.succ (ending a m' run)

theorem step_zero (m : Machine π) : step 0 m = (.ok none, m) := by
  rw [step_eq]
  split <;> rfl

theorem step_succ {t : Trace} (loaded : m.state.isLoaded = true) (once : (chip8 π).stepOnce m = (.ok t, m'))
    (j : Nat) : (step (j + 1 : Nat) m).2 = (step j m').2 := by
  rw [step_eq, if_pos loaded, step_eq, if_pos (isLoaded_of_completed loaded once), Int.toNat_natCast,
    Int.toNat_natCast, stepMany_completed once]
  cases j with
  | zero => rfl
  | succ j => rfl

theorem step_add (a b : Nat) (m : Machine π) :
    step (a + b) m = (step a >>= fun t => if b = 0 then pure t else step b) m := by
  by_cases loaded : m.state.isLoaded = true
  · have first := step_eq a m
    rw [if_pos loaded, Int.toNat_natCast] at first
    have both : ((a : Int) + b).toNat = a + b := by omega
    rw [step_eq, if_pos loaded, both, Processor.stepMany_add]
    rcases run : (chip8 π).stepMany a none m with ⟨f | t, m₁⟩
    · rw [run] at first
      rw [Action.bind_error run, Action.bind_error first]
    · rw [run] at first
      rw [Action.bind_ok run, Action.bind_ok first]
      have ready : m₁.state.isLoaded = true := by
        have kept := isLoaded_stepMany m a none
        rw [run] at kept
        exact kept.trans loaded
      cases b with
      | zero => rfl
      | succ b =>
        rw [if_neg (Nat.succ_ne_zero b), step_eq, if_pos ready, Int.toNat_natCast]
        rfl
  · have idle : ∀ k : Nat, step k m = (.ok none, m) := fun k => by rw [step_eq, if_neg loaded]
    have whole := idle (a + b)
    rw [Int.natCast_add] at whole
    rw [whole, Action.bind_ok (idle a)]
    split
    · rfl
    · exact (idle b).symm

end Machine

namespace Debugger

def Disabled (d : Debugger) : Prop := ∀ bp ∈ d.breakpoints, bp.enabled = false

variable {d : Debugger}

theorem Disabled.hitsCounter (h : d.Disabled) (pc : Int) : d.hitsCounter pc = false := by
  refine List.any_eq_false.2 fun bp member => ?_
  rw [Breakpoint.isCounterHit, h bp member]
  exact Bool.false_ne_true

theorem Disabled.isHit (h : d.Disabled) (accesses : List Access) (after : State) :
    d.isHit accesses after = false := by
  refine List.any_eq_false.2 fun bp member => ?_
  rw [Breakpoint.isHit, h bp member]
  exact Bool.false_ne_true

end Debugger

namespace Session

variable {π : Type} [Host π] {s s' : Session π}

section pass

variable {stops : π → Nat} {asked : Nat} {limit : Option Int} {steps : Int} (going : stops s.machine.host = asked)
  (more : limit.any (· ≤ steps) = false) (fuel : Nat) (last : Option Trace)
include going more

/-- The loop ends before an instruction at a breakpoint, unless that is the first. -/
theorem runLoop_counter (behind : steps ≠ 0) (hit : s.debugger.hitsCounter s.machine.state.pc = true) :
    runLoop stops asked limit (fuel + 1) steps last s =
      (.ok last, s.modifyDebugger (Debugger.notify s.machine.state.pc)) := by
  have halt : (decide (steps ≠ 0) && s.debugger.hitsCounter s.machine.state.pc) = true := by
    rw [decide_eq_true behind, hit]
    rfl
  rw [runLoop]
  simp only [if_neg (not_not_intro going), more, halt, Bool.false_eq_true, if_false, if_true]

variable (passing : steps = 0 ∨ s.debugger.hitsCounter s.machine.state.pc = false)
include passing

omit [Host π] going more in
theorem not_halted : (decide (steps ≠ 0) && s.debugger.hitsCounter s.machine.state.pc) = false := by
  rcases passing with first | missed
  · rw [first]
    rfl
  · rw [missed, Bool.and_false]

theorem runLoop_other {answer : Except Fault (Option Trace)} (run : stepInstruction s = (answer, s'))
    (other : ∀ t, answer ≠ .ok (some t)) :
    runLoop stops asked limit (fuel + 1) steps last s = (answer, s') := by
  rw [runLoop]
  simp only [if_neg (not_not_intro going), more, not_halted passing, Bool.false_eq_true, if_false, run]
  rcases answer with f | _ | t
  · rfl
  · rfl
  · exact absurd rfl (other t)

theorem runLoop_failed (loaded : s.machine.state.isLoaded = true) {f : Fault} {m' : Machine π}
    (once : (chip8 π).stepOnce s.machine = (.error f, m')) :
    runLoop stops asked limit (fuel + 1) steps last s = (.error f, {
      machine := m'
      debugger := { s.debugger with previous := s.machine.state } }) := by
  have other : ∀ t : Trace, (Except.error f : Except Fault (Option Trace)) ≠ .ok (some t) := by
    intro t
    simp only [ne_eq, reduceCtorEq, not_false_eq_true]
  have step := stepInstruction_other (Machine.step_one_of_stepOnce_error loaded once) other
  exact runLoop_other going more fuel last passing step other

theorem runLoop_hit {t : Trace} (run : stepInstruction s = (.ok (some t), s'))
    (hit : s'.debugger.isHit t.accesses s'.machine.state = true) :
    runLoop stops asked limit (fuel + 1) steps last s =
      (.ok (some t), s'.modifyDebugger (Debugger.notify t.state.pc)) := by
  rw [runLoop]
  simp only [if_neg (not_not_intro going), more, not_halted passing, Bool.false_eq_true, if_false, run, hit, if_true]

theorem runLoop_completed {t : Trace} (run : stepInstruction s = (.ok (some t), s'))
    (missed : s'.debugger.isHit t.accesses s'.machine.state = false) :
    runLoop stops asked limit (fuel + 1) steps last s =
      runLoop stops asked limit fuel (steps + 1) (some t) s' := by
  rw [runLoop]
  simp only [if_neg (not_not_intro going), more, not_halted passing, Bool.false_eq_true, if_false, run, missed]

end pass

theorem runLoop_full {stops : π → Nat} {asked : Nat} {limit : Option Int} {steps : Int}
    (full : limit.any (· ≤ steps) = true) (fuel : Nat) (last : Option Trace) :
    runLoop stops asked limit (fuel + 1) steps last s = (.ok last, s) := by
  rw [runLoop]
  simp only [full, if_true, ite_self]

/-- A loop that nothing stops before its limit goes through as many instructions as are left to the limit. -/
theorem runLoop_eq_stepMany {stops : π → Nat} {asked : Nat} (loaded : s.machine.state.isLoaded = true)
    (disabled : s.debugger.Disabled) {n steps : Int} {count : Nat} (left : (n - steps).toNat = count)
    (last : Option Trace)
    (unstopped : ∀ j : Nat, j < count → stops (Machine.step j s.machine).2.host = asked) :
    let r := runLoop stops asked (some n) (count + 1) steps last s
    (r.1, r.2.machine) = (chip8 π).stepMany count last s.machine ∧
      r.2.debugger.history = s.machine.entries count ++ s.debugger.history := by
  induction count generalizing steps last s with
  | zero =>
    intro r
    have full : (some n).any (· ≤ steps) = true := decide_eq_true (by omega)
    have ended : r = (.ok last, s) := runLoop_full full 0 last
    rw [ended]
    exact ⟨rfl, rfl⟩
  | succ count ih =>
    have going : stops s.machine.host = asked := by
      have first := unstopped 0 (Nat.succ_pos count)
      rwa [Int.natCast_zero, Machine.step_zero] at first
    have more : (some n).any (· ≤ steps) = false := decide_eq_false (by omega)
    have passing := Or.inr (a := steps = 0) (disabled.hitsCounter s.machine.state.pc)
    rcases once : (chip8 π).stepOnce s.machine with ⟨f | t, m'⟩
    · have pass := runLoop_failed going more (count + 1) last passing loaded once
      rw [pass, Machine.stepMany_failed once, Machine.entries_failed loaded once]
      exact ⟨rfl, rfl⟩
    · obtain ⟨s', step, machine, history, breakpoints⟩ : ∃ s', stepInstruction s = (.ok (some t), s') ∧
          s'.machine = m' ∧ s'.debugger.history = ⟨t, s.machine.state⟩ :: s.debugger.history ∧
          s'.debugger.breakpoints = s.debugger.breakpoints :=
        ⟨_, stepInstruction_some (Machine.step_one_of_stepOnce loaded once), rfl, rfl, rfl⟩
      subst machine
      have disabled' : s'.debugger.Disabled := by
        rw [Debugger.Disabled, breakpoints]
        exact disabled
      have pass := runLoop_completed going more (count + 1) last passing step (disabled'.isHit _ _)
      have later := ih (Machine.isLoaded_of_completed loaded once) disabled'
        (show (n - (steps + 1)).toNat = count by omega) (some t) fun j less => by
          rw [← Machine.step_succ loaded once]
          exact unstopped (j + 1) (Nat.succ_lt_succ less)
      rw [pass, Machine.stepMany_completed once, Machine.entries_completed loaded once, List.append_assoc,
        List.singleton_append, ← history]
      exact later

theorem runLoop_unloaded (stops : π → Nat) (unloaded : ¬ s.machine.state.isLoaded = true)
    (limit : Option Int) (fuel : Nat) :
    ∃ s', runLoop stops (stops s.machine.host) limit (fuel + 1) 0 none s = (.ok none, s') ∧
      s'.machine = s.machine ∧ s'.debugger.history = s.debugger.history := by
  cases more : limit.any (· ≤ (0 : Int)) with
  | true => exact ⟨s, runLoop_full more fuel none, rfl, rfl⟩
  | false =>
    have idle : Machine.step 1 s.machine = (.ok none, s.machine) := by rw [Machine.step_one, if_neg unloaded]
    have other : ∀ t : Trace, (Except.ok none : Except Fault (Option Trace)) ≠ .ok (some t) :=
      fun t => by simp only [ne_eq, Except.ok.injEq, reduceCtorEq, not_false_eq_true]
    exact ⟨_, runLoop_other rfl more fuel none (.inl rfl) (stepInstruction_other idle other) other, rfl, rfl⟩

/-- The session as a run starts. -/
def started (s : Session π) : Session π := s.modifyDebugger fun d => { d with running := true }

/-- How many passes a run may make: one behind the limit, or as many as the bound says. -/
def passes (bound : Nat) (limit : Option Int) : Nat :=
  match limit with
  | some n => n.toNat + 1
  | none => bound

theorem run_of_loop {stops : π → Nat} {limit : Option Int} {bound : Nat} {answer : Except Fault (Option Trace)}
    (loop : runLoop stops (stops s.machine.host) limit (passes bound limit) 0 none s.started = (answer, s')) :
    run stops bound limit s = (answer, s'.modifyDebugger Debugger.stop) := by
  have unfolded : run stops bound limit s =
      ((runLoop stops (stops s.machine.host) limit (passes bound limit) 0 none s.started).1,
        (runLoop stops (stops s.machine.host) limit (passes bound limit) 0 none s.started).2.modifyDebugger
          Debugger.stop) := by
    cases limit with
    | none => rfl
    | some n => rfl
  rw [unfolded, loop]

/-- **Runs.** A run to a limit of steps, with no breakpoint enabled and no request to stop before the last
instruction, does what as many steps do: the same answer or the same failure, and the same machine, with its
memory, its count of cycles and its host, whatever that was asked. Its history grows by the entries of the
instructions that complete, as many as the count of cycles grows by; if the run fails, it fails at the instruction
behind them. And steps one after the other are as many steps at once. -/
theorem run_undisturbed (s : Session π) :
    (∀ (stops : π → Nat) (bound : Nat) (n : Int), s.debugger.Disabled →
      (∀ j : Nat, j < n → stops (Machine.step j s.machine).2.host = stops s.machine.host) →
      let r := run stops bound (some n) s
      let newer := s.machine.entries n.toNat
      (r.1, r.2.machine) = Machine.step n s.machine ∧
      r.2.debugger.history = newer ++ s.debugger.history ∧
      ∃ answer m₁, Machine.step newer.length s.machine = (.ok answer, m₁) ∧
        m₁.cycles = s.machine.cycles + newer.length ∧
        (∀ t, r.1 = .ok t → r.2.machine = m₁ ∧ (s.machine.state.isLoaded = true → newer.length = n.toNat)) ∧
        ∀ f, r.1 = .error f → newer.length < n ∧ Machine.step 1 m₁ = (.error f, r.2.machine)) ∧
    ∀ a b : Nat, Machine.step (a + b) s.machine =
      (Machine.step a >>= fun t => if b = 0 then pure t else Machine.step b) s.machine := by
  refine ⟨fun stops bound n disabled unstopped => ?_, fun a b => Machine.step_add a b s.machine⟩
  intro r newer
  by_cases loaded : s.machine.state.isLoaded = true
  · have steps := Machine.step_eq n s.machine
    rw [if_pos loaded] at steps
    rcases loop : runLoop stops (stops s.machine.host) (some n) (n.toNat + 1) 0 none s.started with ⟨answer, s'⟩
    have ran : r = (answer, s'.modifyDebugger Debugger.stop) := run_of_loop loop
    obtain ⟨whole, history⟩ := runLoop_eq_stepMany (s := s.started) loaded disabled
      (show (n - 0).toNat = n.toNat by omega) none fun j less => unstopped j (by omega)
    rw [loop] at whole history
    obtain ⟨last, m₁, before, cycles, ready, failing, ending⟩ := Machine.stepMany_entries loaded n.toNat none
    have part : Machine.step newer.length s.machine = (.ok last, m₁) := by
      rw [Machine.step_eq, if_pos loaded, Int.toNat_natCast]
      exact before
    rw [ran]
    refine ⟨whole.trans steps.symm, history, last, m₁, part, cycles, fun t ended => ?_, fun f ended => ?_⟩
    · obtain rfl : answer = .ok t := ended
      have all := ending t _ whole.symm
      rw [all] at before
      exact ⟨congrArg Prod.snd (whole.trans before), fun _ => all⟩
    · obtain rfl : answer = .error f := ended
      obtain ⟨less, next⟩ := failing f _ whole.symm
      exact ⟨Int.lt_toNat.1 less, Machine.step_one_of_stepOnce_error ready next⟩
  · obtain ⟨s', loop, machine, history⟩ := runLoop_unloaded stops (s := s.started) loaded (some n) n.toNat
    have ran : r = (.ok none, s'.modifyDebugger Debugger.stop) := run_of_loop loop
    have none : newer = [] := Machine.entries_unloaded loaded n.toNat
    have idle : ∀ k : Int, Machine.step k s.machine = (.ok .none, s.machine) := fun k => by
      rw [Machine.step_eq, if_neg loaded]
    rw [ran, none, idle]
    exact ⟨congrArg (Prod.mk _) machine, history, .none, s.machine, idle _, (Int.add_zero _).symm,
      fun t _ => ⟨machine, fun ready => absurd ready loaded⟩, fun f failed => by cases failed⟩

/-- A program that loads a register and then returns from nowhere. -/
def adrift : List UInt8 := [0x6A, 0x05, 0x00, 0xEE]

/-- Its run: the first instruction completes, the second fails. -/
theorem adrift_steps {m : Machine Unit} (fresh : m.Represents (Reference.fresh adrift)) :
    m.state.isLoaded = true ∧ ∃ t m₁, (chip8 Unit).stepOnce m = (.ok t, m₁) ∧ m₁.state.isLoaded = true ∧
      ∃ m₂, (chip8 Unit).stepOnce m₁ = (.error (.stackUnderflow 0x202), m₂) := by
  have short : adrift.length ≤ 3584 := by decide
  have bounded := Reference.fresh_bounded short
  generalize start : Reference.fresh adrift = r at fresh bounded
  let r₁ : Reference := { r with pc := 0x202, v := Function.update r.v 0xA 5 }
  have first : r.cycle (Answers.ofHost m.host) = .ok r₁ := by
    subst start
    rw [Reference.cycle_of_memory_fresh short rfl rfl (k := 0) rfl (by decide) rfl
      (Opcode.fits_of_ofWord? (show Opcode.ofWord? 0x6A05 = some .loadByte by decide))]
    rfl
  have second : ∀ a, r₁.cycle a = .error (.stackUnderflow 0x202) := by
    subst start
    intro a
    rw [Reference.cycle_of_memory_fresh (r := r₁) short rfl rfl (k := 2) rfl (by decide) rfl
      (Opcode.fits_of_ofWord? (show Opcode.ofWord? 0x00EE = some .ret by decide))]
    rfl
  clear_value r₁
  have meets := Machine.stepOnce_meets fresh bounded
  rw [first] at meets
  obtain ⟨t, m₁, once, executed⟩ := meets
  have meets := Machine.stepOnce_meets executed.represents executed.bounded
  rw [second] at meets
  obtain ⟨m₂, next, -⟩ := meets
  have ready := Machine.isLoaded_of_inside (fresh.inside_iff.2 executed.inside)
  exact ⟨ready, t, m₁, once, Machine.isLoaded_of_completed ready once, m₂, next⟩

/-- A run to five steps passes its breakpoint, which is not enabled, fails at the second instruction, and has
recorded the first. -/
theorem run_undisturbed_adrift :
    let m : Machine Unit := (Machine.loadImage adrift (Machine.powerOn ())).2
    let bp : Breakpoint := { kind := .counter, value := some 0x202, enabled := false }
    let s : Session Unit := ⟨m, { Debugger.new m with breakpoints := [bp] }⟩
    let r := run (fun _ => 0) 0 (some 5) s
    s.debugger.Disabled ∧ r.1 = .error (.stackUnderflow 0x202) ∧ r.2.debugger.history.length = 1 ∧
      (r.1, r.2.machine) = Machine.step 5 m := by
  obtain ⟨m, loaded⟩ : ∃ m, m = (Machine.loadImage adrift (Machine.powerOn ())).2 := ⟨_, rfl⟩
  have fresh : m.Represents (Reference.fresh adrift) := by
    rw [loaded]
    exact (Machine.loadImage_powerOn () (by decide)).1
  rw [← loaded]
  intro _ bp s r
  have disabled : s.debugger.Disabled := fun b member => by
    rw [List.mem_singleton.1 member]
  have undisturbed := (run_undisturbed s).1 (fun _ => 0) 0 5 disabled fun j less => rfl
  obtain ⟨loaded, t, m₁, once, ready, m₂, next⟩ := adrift_steps fresh
  obtain ⟨same, history, -⟩ := undisturbed
  have entries : m.entries 5 = [⟨t, m.state⟩] := by
    rw [Machine.entries_completed loaded once 4, Machine.entries_failed ready next 4, List.nil_append]
  have failed : Machine.step 5 m = (.error (.stackUnderflow 0x202), m₂) := by
    rw [Machine.step_eq, if_pos loaded]
    show (chip8 Unit).stepMany (3 + 1 + 1) none m = _
    rw [Machine.stepMany_completed once, Machine.stepMany_failed next]
  have answer : (r.1, r.2.machine) = (.error (.stackUnderflow 0x202), m₂) := same.trans failed
  have recorded : r.2.debugger.history = m.entries 5 ++ s.debugger.history := history
  rw [entries] at recorded
  refine ⟨disabled, congrArg Prod.fst answer, ?_, same⟩
  rw [recorded]
  rfl

end Session

end Chip8
