import Chip8.Peripherals
import Chip8.Proofs.Keeping
import Chip8.Proofs.Programs

/-! What a failing step leaves. Registers, screen, memory and the count of cycles stay, and the host is asked
for nothing but a key (`step_one_failed`); only the program counter may stand behind the instruction. So a wait
for a key can be interrupted and tried again (`step_one_retried`), and of many steps the failing one leaves
what the steps before it made (`step_failed`). -/

namespace Chip8

namespace Framebuffer

theorem Shows.eq {fb fb' : Framebuffer} {pixel : Fin 64 → Fin 32 → Bool} (h : fb.Shows pixel)
    (h' : fb'.Shows pixel) : fb = fb' :=
  ext_of_pixel (h.width.trans h'.width.symm) (h.height.trans h'.height.symm) fun x _ y _ => by
    rw [h.pixel, h'.pixel]

end Framebuffer

theorem State.Shows.eq {s s' : State} {r : Reference} (h : s.Shows r) (h' : s'.Shows r) : s = s' := by
  have v : s.v = s'.v := by
    apply Vector.ext
    intro k hk
    exact (h.v ⟨k, hk⟩).trans (h'.v ⟨k, hk⟩).symm
  have stack : s.stack = s'.stack := by
    apply Vector.ext
    intro k hk
    exact (h.stack ⟨k, hk⟩).trans (h'.stack ⟨k, hk⟩).symm
  have screen := h.screen.eq h'.screen
  cases s
  cases s'
  simp only [State.mk.injEq]
  exact ⟨h.pc.trans h'.pc.symm, h.sp.trans h'.sp.symm, v, h.i.trans h'.i.symm, stack,
    h.delay.trans h'.delay.symm, h.sound.trans h'.sound.symm, h.programEnd.trans h'.programEnd.symm, screen⟩

/-- The state that a failing step leaves. An instruction that has begun is behind the program counter, unless
it was an interrupted wait. -/
def State.afterFault (s : State) : Fault → State
  | .programCounter .. | .unknownOpcode .. | .keyWait _ => s
  | _ => { s with pc := s.pc + 2 }

theorem State.Shows.afterFault {s : State} {r : Reference} (h : s.Shows r) (f : Fault) :
    (s.afterFault f).Shows (r.afterCycle f) := by
  have pc : s.pc + 2 = (r.pc + 2 : Nat) := by
    have := h.pc
    omega
  have behind : State.Shows { s with pc := s.pc + 2 } r.advance := { h with pc }
  cases f with
  | programCounter | unknownOpcode | keyWait => exact h
  | _ => exact behind

namespace Machine

variable {π : Type} {m m' : Machine π} {r : Reference}

def withHost (m : Machine π) (host : π) : Machine π := { m with host }

@[simp] theorem withHost_state (host : π) : (m.withHost host).state = m.state := rfl

@[simp] theorem withHost_cycles (host : π) : (m.withHost host).cycles = m.cycles := rfl

@[simp] theorem withHost_symbols (host : π) : (m.withHost host).symbols = m.symbols := rfl

@[simp] theorem withHost_host (host : π) : (m.withHost host).host = host := rfl

@[simp] theorem withHost_self (m : Machine π) : m.withHost m.host = m := rfl

theorem ret_frame (m : Machine π) : (ret m).2 = { m with state := (ret m).2.state } := by
  rw [ret, getState_bind]
  split
  · rfl
  · cases State.slot? (m.state.sp - 1) with
    | none => rfl
    | some k => rfl

theorem call_frame (target : Nat) (m : Machine π) :
    (call target m).2 = { m with state := (call target m).2.state } := by
  rw [call, getState_bind]
  split
  · rfl
  · cases State.slot? m.state.sp with
    | none => rfl
    | some k => rfl

variable [Host π]

theorem awaitKey_frame (w : Nat) (m : Machine π) :
    (perform .awaitKey w m).2 = { m with
      state := (perform .awaitKey w m).2.state, host := (Host.waitKey m.host).2 } := by
  have wait := waitKey_apply m
  have performed : perform .awaitKey w m =
      (waitKey >>= fun key => Core.modifyState (State.setV · (fieldX w) key)) m := rfl
  rw [performed]
  rcases answer : (Host.waitKey m.host).1 with (why | key) | key
  · rw [answer] at wait
    rw [Action.bind_error wait]
  · rw [answer] at wait
    rw [Action.bind_error wait]
  · rw [answer] at wait
    by_cases valid : 0 ≤ key ∧ key < 16
    · simp only [valid, and_self, if_true] at wait
      rw [Action.bind_ok wait]
      rfl
    · simp only [valid, if_false] at wait
      rw [Action.bind_error wait]

/-- The host after a failing step: a wait is the one thing that may have been asked of it. -/
def hostAfterFault (host : π) : Fault → π
  | .keyWait _ | .invalidKey _ | .noSuchKey _ => (Host.waitKey host).2
  | _ => host

/-- What a failing step leaves. -/
structure Unmarked (m : Machine π) (f : Fault) (m' : Machine π) : Prop where
  state : m'.state = m.state.afterFault f
  memory : m'.bus.memory = m.bus.memory
  cycles : m'.cycles = m.cycles
  symbols : m'.symbols = m.symbols
  host : m'.host = hostAfterFault m.host f

/-- An opcode that fails touches nothing but the state, and the host if it waited for a key. -/
theorem perform_error_frame (h : m.Represents r) (hsp : r.sp ≤ 16) (low : 2 ≤ r.pc ∧ r.pc ≤ 0x1000)
    {op : Opcode} {w : Nat} {f : Fault} (run : perform op w m = (.error f, m')) :
    m'.cycles = m.cycles ∧ m'.symbols = m.symbols ∧ m'.host = hostAfterFault m.host f := by
  have meets := perform_meets h hsp low op w
  have frame : m' = (perform op w m).2 := by rw [run]
  cases row : Reference.row op w (Answers.ofHost m.host) r with
  | ok r' =>
    rw [row, run] at meets
    cases meets.1
  | error f' =>
    rw [row, run] at meets
    cases meets.1
    rcases Reference.row_eq_error_iff.1 row with
      ⟨rfl, -, rfl⟩ | ⟨rfl, -, rfl⟩ | ⟨rfl, why, -, rfl⟩ | ⟨rfl, key, -, -, rfl⟩
    · have same : perform .ret w m = ret m := rfl
      rw [frame, same, ret_frame]
      exact ⟨rfl, rfl, rfl⟩
    · have same : perform .call w m = call (fieldAddress w) m := rfl
      rw [frame, same, call_frame]
      exact ⟨rfl, rfl, rfl⟩
    · rw [frame, awaitKey_frame]
      cases why with
      | interrupted why => exact ⟨rfl, rfl, rfl⟩
      | noSuchKey key => exact ⟨rfl, rfl, rfl⟩
    · rw [frame, awaitKey_frame]
      exact ⟨rfl, rfl, rfl⟩

theorem stepOnce_error_frame (h : m.Represents r) (hr : r.Bounded) {f : Fault}
    (run : (chip8 π).stepOnce m = (.error f, m')) :
    m'.cycles = m.cycles ∧ m'.symbols = m.symbols ∧ m'.host = hostAfterFault m.host f := by
  by_cases inside : r.Inside
  · have once := stepOnce_inside h hr inside
    rw [run] at once
    cases decoded : Opcode.ofWord? r.word with
    | none =>
      rw [decoded] at once
      cases once
      exact ⟨rfl, rfl, rfl⟩
    | some op =>
      rw [decoded] at once
      have pc : 2 ≤ r.advance.pc ∧ r.advance.pc ≤ 0x1000 := by
        have := inside.advance hr
        omega
      rcases ran : perform op r.word (m.begun r) with ⟨why | done, m''⟩
      · cases once.trans (Action.bind_error ran)
        exact perform_error_frame (h.begun hr inside) hr.sp pc ran
      · cases once.trans (Action.bind_ok ran)
  · rw [stepOnce_outside h inside] at run
    cases run
    exact ⟨rfl, rfl, rfl⟩

theorem stepOnce_failed (h : m.Sound) {f : Fault} (run : (chip8 π).stepOnce m = (.error f, m')) :
    m.Unmarked f m' := by
  obtain ⟨r, represents, bounded, -⟩ := h.exists_represents
  obtain ⟨cycles, symbols, host⟩ := stepOnce_error_frame represents bounded run
  have meets := stepOnce_meets represents bounded
  split at meets
  · obtain ⟨t, m'', ran, -⟩ := meets
    cases run.symm.trans ran
  · rename_i f' _
    obtain ⟨m'', ran, failed⟩ := meets
    cases run.symm.trans ran
    have memory : (r.afterCycle f).memory = r.memory := by cases f <;> rfl
    refine ⟨failed.represents.state.eq (represents.state.afterFault f), ?_, cycles, symbols, host⟩
    rw [failed.represents.memory, represents.memory, memory]

theorem stepOnce_of_step_one_error {f : Fault} (run : step 1 m = (.error f, m')) :
    m.state.isLoaded = true ∧ (chip8 π).stepOnce m = (.error f, m') := by
  rw [step_one] at run
  split at run
  · rename_i loaded
    rcases once : (chip8 π).stepOnce m with ⟨why | t, m''⟩
    · cases run.symm.trans (Action.bind_error once)
      exact ⟨loaded, rfl⟩
    · cases run.symm.trans (Action.bind_ok once)
  · cases run

theorem step_one_of_stepOnce_error {f : Fault} (loaded : m.state.isLoaded = true)
    (run : (chip8 π).stepOnce m = (.error f, m')) : step 1 m = (.error f, m') := by
  rw [step_one, if_pos loaded]
  exact Action.bind_error run

theorem step_one_failed (h : m.Sound) {f : Fault} (run : step 1 m = (.error f, m')) :
    m.Unmarked f m' :=
  stepOnce_failed h (stepOnce_of_step_one_error run).2

theorem stepMany_error {n : Nat} {last : Option Trace} (h : m.Sound) (loaded : m.state.isLoaded = true)
    {f : Fault} (run : (chip8 π).stepMany n last m = (.error f, m')) :
    ∃ j < n, ∃ answer m₁, (chip8 π).stepMany j last m = (.ok answer, m₁) ∧ Sound m₁ ∧
      step 1 m₁ = (.error f, m') := by
  induction n generalizing last m with
  | zero => cases run
  | succ n ih =>
    -- Either this instruction is the failing one, or the machine behind it is sound and the rest fails.
    rcases once : (chip8 π).stepOnce m with ⟨why | t, m₁⟩
    · have failed : (chip8 π).stepMany (n + 1) last m = (.error why, m₁) := Action.bind_error once
      cases run.symm.trans failed
      exact ⟨0, Nat.succ_pos n, last, m, rfl, h, step_one_of_stepOnce_error loaded once⟩
    · have sound : Sound m₁ := by
        have kept := stepOnce_sound h
        rwa [once] at kept
      have ready : m₁.state.isLoaded = true := by
        have kept := isLoaded_stepOnce m
        rw [once] at kept
        exact kept.trans loaded
      have later : (chip8 π).stepMany n (some t) m₁ = (.error f, m') := (Action.bind_ok once).symm.trans run
      obtain ⟨j, less, answer, m₂, before, sound, failed⟩ := ih sound ready later
      exact ⟨j + 1, Nat.succ_lt_succ less, answer, m₂, (Action.bind_ok once).trans before, sound, failed⟩

theorem step_failed (h : m.Sound) {n : Int} {f : Fault} (run : step n m = (.error f, m')) :
    ∃ j : Nat, j < n ∧ ∃ answer m₁, step j m = (.ok answer, m₁) ∧ step 1 m₁ = (.error f, m') ∧
      m₁.Unmarked f m' := by
  rw [step_eq] at run
  split at run
  · rename_i loaded
    obtain ⟨j, less, answer, m₁, before, sound, failed⟩ := stepMany_error h loaded run
    refine ⟨j, by omega, answer, m₁, ?_, failed, step_one_failed sound failed⟩
    rw [step_eq, if_pos loaded, Int.toNat_natCast]
    exact before
  · cases run

theorem step_of_step_one_error {n : Int} (pos : 0 < n) {f : Fault} (run : step 1 m = (.error f, m')) :
    step n m = (.error f, m') := by
  obtain ⟨loaded, once⟩ := stepOnce_of_step_one_error run
  obtain ⟨k, succ⟩ : ∃ k, n.toNat = k + 1 := ⟨n.toNat - 1, by omega⟩
  rw [step_eq, if_pos loaded, succ]
  exact Action.bind_error once

/-- Machines that interrupted waits lead to. Before each wait the host may change in any way. -/
inductive Interrupted : Machine π → Machine π → Prop
  | none (m : Machine π) : Interrupted m m
  | wait {m m' m'' : Machine π} (host : π) {why : Interruption}
    (run : step 1 (m.withHost host) = (.error (.keyWait why), m')) (rest : Interrupted m' m'') :
    Interrupted m m''

/-- Interrupted waits leave all but the host and the log. -/
theorem Interrupted.same (h : Interrupted m m') (sound : m.Sound) :
    m'.Sound ∧ m'.state = m.state ∧ m'.bus.memory = m.bus.memory ∧ m'.cycles = m.cycles ∧
      m'.symbols = m.symbols := by
  induction h with
  | none m => exact ⟨sound, rfl, rfl, rfl, rfl⟩
  | @wait m m' m'' host why run rest ih =>
    have asked : Sound (m.withHost host) := ⟨sound.state, sound.bus⟩
    have after : Sound m' := by
      have kept := step_sound 1 asked
      rwa [run] at kept
    have unmarked := step_one_failed asked run
    obtain ⟨sound', state, memory, cycles, symbols⟩ := ih after
    exact ⟨sound', state.trans unmarked.state, memory.trans unmarked.memory,
      cycles.trans unmarked.cycles, symbols.trans unmarked.symbols⟩

/-- The registers after a wait that got a key. -/
def keyTaken (s : State) (w : Nat) (k : Fin 16) : State :=
  { s with pc := (s.pc + 2) % 65536 }.setV (fieldX w) k.val

/-- A wait that gets a key. What it reports and what it leaves depend on the host by the key alone. -/
theorem step_awaitKey (h : m.Represents r) (hr : r.Bounded) (inside : m.Inside)
    (fits : Opcode.Fits .awaitKey m.word) {k : Fin 16}
    (answer : (Host.waitKey m.host).1 = .ok (k.val : Int)) :
    step 1 m = (.ok (some {
        state := keyTaken m.state r.word k
        instruction := ⟨.awaitKey, r.word⟩
        address := r.pc
        accesses := r.codeReads
        cycles := m.cycles + 1
        label := m.symbols.nameAt? r.pc }),
      { m with
        state := keyTaken m.state r.word k
        bus := Bus.ofMemory (Vector.ofFn r.memory) []
        cycles := m.cycles + 1
        host := (Host.waitKey m.host).2 }) := by
  have valid : 0 ≤ (k.val : Int) ∧ (k.val : Int) < 16 := by omega
  have host : (m.begun r).host = m.host := rfl
  have wait := waitKey_apply (m.begun r)
  rw [host, answer] at wait
  simp only [valid, and_self, if_true] at wait
  have performed : perform .awaitKey r.word (m.begun r) = (.ok (), { m.begun r with
      state := keyTaken m.state r.word k, host := (Host.waitKey m.host).2 }) := by
    show (waitKey >>= fun key => Core.modifyState (State.setV · (fieldX r.word) key)) (m.begun r) = _
    rw [Action.bind_ok wait]
    rfl
  have decoded : Opcode.ofWord? r.word = some .awaitKey := by
    rw [← h.word]
    exact Opcode.ofWord?_of_fits fits
  have once := stepOnce_inside h hr (h.inside_iff.1 inside)
  simp only [decoded] at once
  rw [Action.bind_ok performed] at once
  rw [step_one, if_pos (isLoaded_of_inside inside)]
  exact Action.bind_ok once

theorem step_one_retried (h : m.Sound) (interrupted : Interrupted m m') (inside : m.Inside)
    (fits : Opcode.Fits .awaitKey m.word) {host host' : π} {k : Fin 16}
    (answer : (Host.waitKey host).1 = .ok (k.val : Int))
    (answer' : (Host.waitKey host').1 = .ok (k.val : Int)) :
    ∃ t once retried, step 1 (m.withHost host) = (.ok (some t), once) ∧
      step 1 (m'.withHost host') = (.ok (some t), retried) ∧ retried = once.withHost retried.host := by
  obtain ⟨sound', state, memory, cycles, symbols⟩ := interrupted.same h
  obtain ⟨r, represents, bounded, -⟩ := h.exists_represents
  -- Both machines show the same reference, which the interrupted waits did not touch.
  have represents' : m'.Represents r := by
    refine ⟨?_, ?_⟩
    · rw [state]
      exact represents.state
    · rw [← represents.memory, ← memory]
      exact sound'.bus.eq_ofMemory
  have word : m'.word = m.word := represents'.word.trans represents.word.symm
  have inside' : m'.Inside := represents'.inside_iff.2 (represents.inside_iff.1 inside)
  have fits' : Opcode.Fits .awaitKey m'.word := by
    rw [word]
    exact fits
  have asked : (m.withHost host).Represents r := ⟨represents.state, represents.bus⟩
  have asked' : (m'.withHost host').Represents r := ⟨represents'.state, represents'.bus⟩
  have once := step_awaitKey asked bounded inside fits answer
  have retried := step_awaitKey asked' bounded inside' fits' answer'
  simp only [withHost_state, withHost_cycles, withHost_symbols, withHost_host] at once retried
  rw [state, cycles, symbols] at retried
  exact ⟨_, _, _, once, retried, rfl⟩

end Machine

namespace Session

variable {π : Type} [Host π]

/-- **Failing steps.** A step that fails leaves registers, screen, memory, count of cycles and symbols of the
machine, whatever came before it; the program counter is that of `State.afterFault`, and of the host no more
is asked than the key that a wait was for. So a key that comes after interrupted waits is taken as if it had
come at once, and where the failing one is one of many steps, it leaves this of what the steps before it
made. -/
theorem step_failed_unmarked (stops : π → Nat) (host : π) (commands : List (Command π)) :
    let m := (ofCommands stops host commands).machine
    (∀ f m', Machine.step 1 m = (.error f, m') → m.Unmarked f m') ∧
    (∀ (m' : Machine π) (before after : π) (k : Fin 16), m.Interrupted m' → m.Inside →
      Opcode.Fits .awaitKey m.word → (Host.waitKey before).1 = .ok (k.val : Int) →
      (Host.waitKey after).1 = .ok (k.val : Int) →
      ∃ (t : Trace) (once retried : Machine π), Machine.step 1 (m.withHost before) = (.ok (some t), once) ∧
        Machine.step 1 (m'.withHost after) = (.ok (some t), retried) ∧
        retried = once.withHost retried.host) ∧
    (∀ n f m', Machine.step n m = (.error f, m') →
      ∃ j : Nat, j < n ∧ ∃ (answer : Option Trace) (m₁ : Machine π), Machine.step j m = (.ok answer, m₁) ∧
        Machine.step 1 m₁ = (.error f, m') ∧ m₁.Unmarked f m') := by
  intro m
  have sound : m.Sound := (ofCommands_sound stops host commands).machine
  clear_value m
  refine ⟨fun f m' run => Machine.step_one_failed sound run, ?_,
    fun n f m' run => Machine.step_failed sound run⟩
  intro m' before after k interrupted inside fits answer answer'
  exact Machine.step_one_retried sound interrupted inside fits answer answer'

/-- A wait with no key to come is interrupted; another try gets the key that has come by then. -/
theorem step_failed_unmarked_wait :
    let silent : Peripherals := { keys := .scripted [] [] }
    let pressed : Peripherals := { keys := .scripted [] [7] }
    let m := (ofCommands Peripherals.stops silent [.loadImage [0xF0, 0x0A]]).machine
    ∃ m' : Machine Peripherals, Machine.step 1 m = (.error (.keyWait .interrupted), m') ∧
      m.Unmarked (.keyWait .interrupted) m' ∧
      (∃ (t : Trace) (once retried : Machine Peripherals),
        Machine.step 1 (m.withHost pressed) = (.ok (some t), once) ∧
        Machine.step 1 (m'.withHost pressed) = (.ok (some t), retried) ∧
        retried = once.withHost retried.host) ∧
      ∃ j : Nat, j < (3 : Int) ∧ ∃ (answer : Option Trace) (m₁ : Machine Peripherals),
        Machine.step j m = (.ok answer, m₁) ∧ Machine.step 1 m₁ = (.error (.keyWait .interrupted), m') ∧
        m₁.Unmarked (.keyWait .interrupted) m' := by
  intro silent pressed
  have unmarked := step_failed_unmarked Peripherals.stops silent [.loadImage [0xF0, 0x0A]]
  have accepted : Machine.imageFault? [0xF0, 0x0A] = none := by decide
  have loaded := ofCommands_loadImage Peripherals.stops silent accepted
  generalize (ofCommands Peripherals.stops silent [.loadImage [0xF0, 0x0A]]).machine = m at unmarked loaded ⊢
  obtain ⟨failed, retried, many⟩ := unmarked
  obtain ⟨represents, host⟩ := loaded
  have bounded : (Reference.fresh [0xF0, 0x0A]).Bounded := Reference.fresh_bounded (by decide)
  have word : (Reference.fresh [0xF0, 0x0A]).word = 0xF00A :=
    Reference.word_of_memory_fresh (by decide) rfl (k := 0) rfl (by decide)
  have fits : Opcode.Fits .awaitKey m.word := by
    rw [represents.word, word]
    exact Opcode.fits_of_ofWord? (by decide)
  have inside : m.Inside := represents.inside_iff.2 (by decide)
  have loaded := Machine.isLoaded_of_inside inside
  have fault : m.CycleFault (.keyWait .interrupted) := by
    refine .interrupted inside ?_ (by rw [host]; rfl)
    rw [represents.word, word]
    decide
  have answer := (Machine.step_one_eq_error_iff represents bounded loaded _).2 fault
  rcases run : Machine.step 1 m with ⟨out, m'⟩
  rw [run] at answer
  obtain rfl : out = .error (.keyWait .interrupted) := answer
  have interrupted : m.Interrupted m' := by
    have same : Machine.step 1 (m.withHost m.host) = (.error (.keyWait .interrupted), m') := by
      rw [Machine.withHost_self]
      exact run
    exact .wait m.host same (.none m')
  have three := Machine.step_of_step_one_error (show 0 < (3 : Int) by decide) run
  have key : (Host.waitKey pressed).1 = .ok (((7 : Fin 16).val : Int)) := rfl
  have again := retried m' pressed pressed 7 interrupted inside fits key key
  exact ⟨m', run, failed _ _ run, again, many 3 _ m' three⟩

end Session

end Chip8
