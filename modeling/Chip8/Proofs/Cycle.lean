import Chip8.Proofs.Journal
import Chip8.Proofs.Simulation

/-! One instruction cycle. A sound machine answers a cycle as the reference machine does
(`stepOnce_meets`), and stays sound (`step_sound`). -/

namespace Chip8

namespace Processor

variable {σ π ι : Type} {p : Processor σ π ι} {m m' : Core σ π}

theorem stepOnce_refused {e : Fault} (h : p.checkFetch m.state = .error e) :
    p.stepOnce m = (.error e, m.clearLog) := by
  have cleared : p.checkFetch m.clearLog.state = .error e := h
  simp only [stepOnce, Action.bind_apply, Action.modify_apply, Action.get_apply, cleared]
  rfl

theorem stepOnce_unread {e : Fault} (h : p.checkFetch m.state = .ok ()) (read : p.fetch m.clearLog = (.error e, m')) :
    p.stepOnce m = (.error e, m') := by
  have cleared : p.checkFetch m.clearLog.state = .ok () := h
  simp only [stepOnce, Action.bind_apply, Action.modify_apply, Action.get_apply, cleared, read]

theorem stepOnce_accepted {word : Int} (h : p.checkFetch m.state = .ok ())
    (read : p.fetch m.clearLog = (.ok word, m')) :
    p.stepOnce m =
      match p.decode word with
      | none => (.error (.unknownOpcode (p.counter m.state) word), m')
      | some i =>
        (p.execute i >>= fun _ => Core.report p (p.counter m.state) i)
          { m' with state := p.advance i m'.state } := by
  have cleared : p.checkFetch m.clearLog.state = .ok () := h
  simp only [stepOnce, Action.bind_apply, Action.modify_apply, Action.get_apply, cleared, read]
  cases p.decode word with
  | none => rfl
  | some i => rfl

end Processor

namespace Reference

/-- Whether both bytes of the next instruction lie in the program. -/
def Inside (r : Reference) : Prop := 0x200 ≤ r.pc ∧ r.pc + 1 < r.programEnd

instance (r : Reference) : Decidable r.Inside := inferInstanceAs (Decidable (_ ∧ _))

def codeByte (r : Reference) (k : Nat) : UInt8 := r.memory (Fin.ofNat 4096 (r.pc + k))

def word (r : Reference) : Nat := (r.codeByte 0).toNat * 256 + (r.codeByte 1).toNat

def codeReads (r : Reference) : List Access :=
  [.read r.pc (r.codeByte 0), .read (r.pc + 1) (r.codeByte 1)]

def advance (r : Reference) : Reference := { r with pc := r.pc + 2 }

@[simp] theorem advance_pc (r : Reference) : r.advance.pc = r.pc + 2 := rfl

@[simp] theorem advance_sp (r : Reference) : r.advance.sp = r.sp := rfl

/-- The next instruction: its row, if the program counter lies in the program and the word fits an
opcode. -/
def cycle (r : Reference) (a : Answers) : Except Fault Reference :=
  if r.Inside then
    match Opcode.ofWord? r.word with
    | some op => row op r.word a r.advance
    | none => .error (.unknownOpcode r.pc r.word)
  else .error (.programCounter r.pc programBase r.programEnd)

/-- What a failing cycle leaves: an instruction that has begun stays behind the program counter, unless
it was an interrupted wait. -/
def afterCycle (r : Reference) : Fault → Reference
  | .programCounter .. | .unknownOpcode .. | .keyWait _ => r
  | _ => r.advance

theorem word_lt (r : Reference) : r.word < 65536 := by
  have := (r.codeByte 0).toNat_lt
  have := (r.codeByte 1).toNat_lt
  unfold word
  omega

variable {r r' : Reference} {op : Opcode} {w : Nat} {a : Answers} {f : Fault}

theorem Bounded.of_flow (hr : r.Bounded) (pc : r'.pc ≤ 0x1002) (sp : r'.sp = r.sp)
    (stack : r'.stack = r.stack) (programEnd : r'.programEnd = r.programEnd) : r'.Bounded := by
  refine ⟨pc, ?_, ?_, ?_, ?_⟩
  · rw [sp]
    exact hr.sp
  · rw [stack]
    exact hr.stack
  · rw [sp, stack]
    exact hr.used
  · rw [programEnd]
    exact hr.programEnd

theorem Inside.advance (h : r.Inside) (hr : r.Bounded) :
    0x202 ≤ r.advance.pc ∧ r.advance.pc ≤ 0x1000 := by
  obtain ⟨low, high⟩ := h
  have programEnd := hr.programEnd
  rw [advance_pc]
  omega

theorem Bounded.advance (hr : r.Bounded) (h : r.Inside) : r.advance.Bounded := by
  have := h.advance hr
  exact hr.of_flow (by omega) rfl rfl rfl

theorem Bounded.skipIf (hr : r.Bounded) (pc : r.pc ≤ 0x1000) (c : Bool) : (r.skipIf c).Bounded := by
  cases c with
  | false => exact hr
  | true => exact hr.of_flow (Nat.add_le_add_right pc 2) rfl rfl rfl

theorem Bounded.push (hr : r.Bounded) (pc : 0x202 ≤ r.pc ∧ r.pc ≤ 0x1000) {target : Nat}
    (room : r.sp < 16) (low : target ≤ 0x1002) :
    Bounded { r with
      stack := Function.update r.stack (Fin.ofNat 16 r.sp) r.pc, sp := r.sp + 1, pc := target } := by
  have slot : (Fin.ofNat 16 r.sp).val = r.sp := Nat.mod_eq_of_lt room
  refine ⟨low, room, fun k => ?_, fun k hk => ?_, hr.programEnd⟩ <;> dsimp only at *
  · by_cases here : k = Fin.ofNat 16 r.sp
    · subst here
      rw [Function.update_self]
      exact .inr pc
    · rw [Function.update_of_ne here]
      exact hr.stack k
  · by_cases here : k = Fin.ofNat 16 r.sp
    · subst here
      rw [Function.update_self]
      exact pc
    · rw [Function.update_of_ne here]
      have : k.val ≠ r.sp := fun e => here (Fin.ext (e.trans slot.symm))
      exact hr.used k (by omega)

theorem Bounded.pop (hr : r.Bounded) (ne : r.sp ≠ 0) :
    Bounded { r with sp := r.sp - 1, pc := r.stack (Fin.ofNat 16 (r.sp - 1)) } := by
  have sp := hr.sp
  have slot : (Fin.ofNat 16 (r.sp - 1)).val = r.sp - 1 := Nat.mod_eq_of_lt (by omega)
  have target := hr.used (Fin.ofNat 16 (r.sp - 1)) (by omega)
  refine ⟨by show r.stack _ ≤ _; omega, by show r.sp - 1 ≤ 16; omega, hr.stack, fun k hk => ?_,
    hr.programEnd⟩
  have : k.val < r.sp - 1 := hk
  exact hr.used k (by omega)

theorem row_bounded (hr : r.Bounded) (pc : 0x202 ≤ r.pc ∧ r.pc ≤ 0x1000)
    (h : row op w a r = .ok r') : r'.Bounded := by
  have address : fieldAddress w < 4096 := Nat.mod_lt _ (by decide)
  cases op with
  | ret =>
    simp only [row] at h
    split at h
    · cases h
    · cases h
      exact hr.pop ‹_›
  | call =>
    have sp := hr.sp
    simp only [row] at h
    split at h
    · cases h
    · cases h
      exact hr.push pc (by omega) (by omega)
  | awaitKey =>
    simp only [row] at h
    split at h
    · cases h
    · split at h
      · cases h
        exact hr.of_flow hr.pc rfl rfl rfl
      · cases h
  | skipEqByte | skipNeByte | skipEq | skipNe | skipPressed | skipReleased =>
    cases h
    exact hr.skipIf pc.2 _
  | jump =>
    cases h
    exact hr.of_flow (by show fieldAddress w ≤ _; omega) rfl rfl rfl
  | jumpFromV0 =>
    cases h
    exact hr.of_flow (by show _ % 4096 ≤ _; omega) rfl rfl rfl
  | _ =>
    cases h
    exact hr.of_flow hr.pc rfl rfl rfl

theorem row_eq_error_iff : row op w a r = .error f ↔
    (op = .ret ∧ r.sp = 0 ∧ f = .stackUnderflow (r.pc - 2)) ∨
    (op = .call ∧ r.sp = 16 ∧ f = .stackOverflow (r.pc - 2) 16) ∨
    (op = .awaitKey ∧ ∃ why, a.key = .error why ∧ f = why.toFault) ∨
    (op = .awaitKey ∧ ∃ key, a.key = .ok key ∧ ¬ (0 ≤ key ∧ key < 16) ∧ f = .invalidKey key) := by
  constructor
  · intro h
    cases op with
    | ret =>
      simp only [row] at h
      split at h
      · cases h
        exact .inl ⟨rfl, ‹_›, rfl⟩
      · cases h
    | call =>
      simp only [row] at h
      split at h
      · cases h
        exact .inr (.inl ⟨rfl, ‹_›, rfl⟩)
      · cases h
    | awaitKey =>
      simp only [row] at h
      split at h
      · cases h
        exact .inr (.inr (.inl ⟨rfl, _, ‹_›, rfl⟩))
      · split at h
        · cases h
        · cases h
          exact .inr (.inr (.inr ⟨rfl, _, ‹_›, ‹_›, rfl⟩))
    | _ => cases h
  · rintro (⟨rfl, sp, rfl⟩ | ⟨rfl, sp, rfl⟩ | ⟨rfl, why, answer, rfl⟩ | ⟨rfl, key, answer, range, rfl⟩)
    · simp only [row, if_pos sp]
    · simp only [row, if_pos sp]
    · simp only [row, answer]
    · simp only [row, answer, if_neg range]

end Reference

namespace Machine

variable {π : Type} {m : Machine π} {r : Reference}

/-- The machine with the memory of a reference machine and a log. -/
def logged (m : Machine π) (r : Reference) (log : List Access) : Machine π :=
  { m with bus := Bus.ofMemory (Vector.ofFn r.memory) log }

theorem Represents.logged (h : m.Represents r) (log : List Access) : (m.logged r log).Represents r :=
  ⟨h.state, rfl⟩

theorem clearLog_eq (h : m.Represents r) : Core.clearLog m = m.logged r [] := by
  have taken := Bus.takeLog_ofMemory (Vector.ofFn r.memory) m.bus.log
  rw [← h.bus] at taken
  rw [Core.clearLog, taken, logged]

theorem readByte_logged (m : Machine π) (r : Reference) (log : List Access) (a : Fin 4096) :
    Core.readByte a.val (m.logged r log) =
      (.ok (r.memory a), m.logged r (log ++ [.read a.val (r.memory a)])) := by
  have read := Bus.read_ofMemory (Vector.ofFn r.memory) log (a := a.val) (by omega)
  have byte : (Vector.ofFn r.memory)[a] = r.memory a := by simp
  simp only [residue_natCast, byte] at read
  rw [Core.readByte, logged, read]
  rfl

theorem fetch_logged (h : m.Represents r) (hr : r.Bounded) (inside : r.Inside) :
    fetch (m.logged r []) = (.ok (r.word : Int), m.logged r r.codeReads) := by
  obtain ⟨-, inside⟩ := inside
  have programEnd := hr.programEnd
  have pc := h.state.pc
  have here : ((Fin.ofNat 4096 r.pc).val : Int) = r.pc := by rw [Fin.val_ofNat]; omega
  have next : ((Fin.ofNat 4096 (r.pc + 1)).val : Int) = r.pc + 1 := by rw [Fin.val_ofNat]; omega
  have first := readByte_logged m r [] (Fin.ofNat 4096 r.pc)
  have second := readByte_logged m r [.read r.pc (r.codeByte 0)] (Fin.ofNat 4096 (r.pc + 1))
  rw [here] at first
  rw [next] at second
  have around : wrap (m.state.pc + 1) = r.pc + 1 := by rw [wrap, pc]; omega
  show (Core.readByte m.state.pc >>= fun high => Core.readByte (wrap (m.state.pc + 1)) >>= fun low =>
    pure ((high.toNat * 256 + low.toNat : Nat) : Int)) _ = _
  rw [around, pc, Action.bind_ok first]
  exact Action.bind_ok second

/-- The machine at the start of an instruction: the word read, and the program counter behind it. -/
def begun (m : Machine π) (r : Reference) : Machine π :=
  { m.logged r r.codeReads with state := { m.state with pc := (m.state.pc + 2) % 65536 } }

theorem Represents.begun (h : m.Represents r) (hr : r.Bounded) (inside : r.Inside) :
    (m.begun r).Represents r.advance := by
  obtain ⟨-, inside⟩ := inside
  have programEnd := hr.programEnd
  have pc : (m.state.pc + 2) % 65536 = (r.pc + 2 : Nat) := by
    have := h.state.pc
    omega
  exact ⟨{ h.state with pc }, rfl⟩

theorem begun_journal (h : m.Represents r) (hr : r.Bounded) (inside : r.Inside) :
    (m.begun r).Journal m.bus.memory r.codeReads := by
  obtain ⟨-, inside⟩ := inside
  have programEnd := hr.programEnd
  refine ⟨Bus.isMemory_ofMemory _ _, ?_, ?_, List.prefix_rfl⟩
  · show Memory.undo r.codeReads (Bus.memory (Bus.ofMemory _ _)) = _
    rw [Bus.memory_ofMemory, h.memory]
    rfl
  · intro access member
    have pair : access ∈ r.codeReads := member
    rw [Reference.codeReads, List.mem_cons, List.mem_singleton] at pair
    rcases pair with rfl | rfl
    · exact ⟨by omega, by omega⟩
    · exact ⟨by omega, by omega⟩

variable [Host π]

theorem stepOnce_outside (h : m.Represents r) (outside : ¬ r.Inside) :
    (chip8 π).stepOnce m = (.error (.programCounter r.pc programBase r.programEnd),
      m.logged r []) := by
  have pc := h.state.pc
  have programEnd := h.state.programEnd
  have refused : (chip8 π).checkFetch m.state =
      .error (.programCounter r.pc programBase r.programEnd) := by
    have : m.state.pc < programBase ∨ m.state.programEnd ≤ m.state.pc + 1 := by
      unfold Reference.Inside at outside
      unfold programBase
      omega
    show checkFetch m.state = _
    rw [checkFetch, if_pos this, pc, programEnd]
  rw [Processor.stepOnce_refused refused, clearLog_eq h]

theorem stepOnce_inside (h : m.Represents r) (hr : r.Bounded) (inside : r.Inside) :
    (chip8 π).stepOnce m =
      match Opcode.ofWord? r.word with
      | none => (.error (.unknownOpcode r.pc r.word), m.logged r r.codeReads)
      | some op =>
        (perform op r.word >>= fun _ => Core.report (chip8 π) r.pc ⟨op, r.word⟩) (m.begun r) := by
  have pc : (chip8 π).counter m.state = r.pc := h.state.pc
  have programEnd := h.state.programEnd
  have accepted : (chip8 π).checkFetch m.state = .ok () := by
    have : ¬ (m.state.pc < programBase ∨ m.state.programEnd ≤ m.state.pc + 1) := by
      have := h.state.pc
      unfold Reference.Inside at inside
      unfold programBase
      omega
    show checkFetch m.state = _
    rw [checkFetch, if_neg this]
  have read : (chip8 π).fetch (Core.clearLog m) =
      (.ok (r.word : Int), m.logged r r.codeReads) := by
    rw [clearLog_eq h]
    exact fetch_logged h hr inside
  have decoded : (chip8 π).decode r.word = (Opcode.ofWord? r.word).map (Instruction.mk · r.word) := by
    show Instruction.ofWord? (Int.toNat r.word) = _
    rw [Int.toNat_natCast, Instruction.ofWord?]
  rw [Processor.stepOnce_accepted accepted read, decoded, pc]
  cases Opcode.ofWord? r.word with
  | none => rfl
  | some op => rfl

/-- What a cycle that succeeds leaves and reports. -/
structure Executed (m : Machine π) (r r' : Reference) (t : Trace) (m' : Machine π) : Prop where
  represents : m'.Represents r'
  bounded : r'.Bounded
  inside : r.Inside
  address : t.address = r.pc
  instruction : ∃ op, op.Fits r.word ∧ t.instruction = ⟨op, r.word⟩ ∧
    Reference.row op r.word (Answers.ofHost m.host) r.advance = .ok r'
  code : r.codeReads <+: t.accesses
  undo : Memory.undo t.accesses m'.bus.memory = m.bus.memory
  inMemory : ∀ access ∈ t.accesses, access.InMemory

structure Failed (r : Reference) (f : Fault) (m' : Machine π) : Prop where
  represents : m'.Represents (r.afterCycle f)
  bounded : (r.afterCycle f).Bounded
  log : m'.bus.log = if r.Inside then r.codeReads else []

theorem report_executed (h : m.Represents r) (hr : r.Bounded) (inside : r.Inside) {op : Opcode}
    (fits : op.Fits r.word) {r' : Reference}
    (row : Reference.row op r.word (Answers.ofHost m.host) r.advance = .ok r') {m' : Machine π}
    (run : perform op r.word (m.begun r) = (.ok (), m')) (h' : m'.Represents r') :
    ∃ t m'', Core.report (chip8 π) r.pc ⟨op, r.word⟩ m' = (.ok t, m'') ∧ Executed m r r' t m'' := by
  have journal := perform_journaled op r.word _ _ _ (begun_journal h hr inside)
  rw [run] at journal
  have bounded := Reference.row_bounded (hr.advance inside) (inside.advance hr) row
  refine ⟨_, _, rfl, ⟨⟨h'.state, ?_⟩, bounded, inside, rfl,
    ⟨op, fits, rfl, row⟩, journal.first, ?_, journal.inMemory⟩⟩
  · show m'.bus.takeLog.2 = _
    rw [h'.bus]
    rfl
  · show Memory.undo m'.bus.log m'.bus.takeLog.2.memory = _
    rw [Bus.memory_takeLog]
    exact journal.undo

theorem failed_of_row (hr : r.Bounded) (inside : r.Inside) {op : Opcode}
    {f : Fault} (row : Reference.row op r.word (Answers.ofHost m.host) r.advance = .error f)
    {m' : Machine π} (h' : m'.Represents (r.advance.afterFault f))
    (same : m'.bus = (m.begun r).bus) : Failed r f m' := by
  have begun := hr.advance inside
  have log : m'.bus.log = if r.Inside then r.codeReads else [] := by
    rw [same, if_pos inside]
    rfl
  rcases Reference.row_eq_error_iff.1 row with
    ⟨-, -, rfl⟩ | ⟨-, -, rfl⟩ | ⟨-, why, -, rfl⟩ | ⟨-, key, -, -, rfl⟩
  · exact ⟨h', begun, log⟩
  · exact ⟨h', begun, log⟩
  · cases why with
    | interrupted why => exact ⟨h', hr, log⟩
    | noSuchKey key => exact ⟨h', begun, log⟩
  · exact ⟨h', begun, log⟩

/-- A cycle of a machine is a cycle of the reference machine that it represents. -/
theorem stepOnce_meets (h : m.Represents r) (hr : r.Bounded) :
    match r.cycle (Answers.ofHost m.host) with
    | .ok r' => ∃ t m', (chip8 π).stepOnce m = (.ok t, m') ∧ Executed m r r' t m'
    | .error f => ∃ m', (chip8 π).stepOnce m = (.error f, m') ∧ Failed r f m' := by
  by_cases inside : r.Inside
  · have once := stepOnce_inside h hr inside
    cases decoded : Opcode.ofWord? r.word with
    | none =>
      rw [decoded] at once
      simp only [Reference.cycle, inside, if_true, decoded]
      exact ⟨_, once, h.logged _, hr, by rw [if_pos inside]; rfl⟩
    | some op =>
      rw [decoded] at once
      have fits := Opcode.fits_of_ofWord? decoded
      have pc : 2 ≤ r.advance.pc ∧ r.advance.pc ≤ 0x1000 := by
        have := inside.advance hr
        omega
      have meets := perform_meets (h.begun hr inside) hr.sp pc op r.word
      simp only [Reference.cycle, inside, if_true, decoded]
      have host : (m.begun r).host = m.host := rfl
      rw [host] at meets
      rcases run : perform op r.word (m.begun r) with ⟨answer, m'⟩
      rw [run] at meets
      generalize row : Reference.row op r.word (Answers.ofHost m.host) r.advance = result at meets ⊢
      cases result with
      | ok r' =>
        obtain ⟨rfl, h'⟩ := meets
        obtain ⟨t, m'', reported, executed⟩ := report_executed h hr inside fits row run h'
        exact ⟨t, m'', once.trans ((Action.bind_ok run).trans reported), executed⟩
      | error f =>
        obtain ⟨rfl, h', same⟩ := meets
        exact ⟨m', once.trans (Action.bind_error run), failed_of_row hr inside row h' same⟩
  · simp only [Reference.cycle, inside, if_false]
    exact ⟨_, stepOnce_outside h inside, h.logged _, hr, by rw [if_neg inside]; rfl⟩

theorem stepOnce_sound (h : m.Sound) : Sound ((chip8 π).stepOnce m).2 := by
  obtain ⟨r, represents, bounded, -⟩ := h.exists_represents
  have meets := stepOnce_meets represents bounded
  split at meets
  · obtain ⟨t, m', once, executed⟩ := meets
    rw [once]
    exact executed.represents.sound executed.bounded
  · obtain ⟨m', once, failed⟩ := meets
    rw [once]
    exact failed.represents.sound failed.bounded

theorem stepMany_sound (n : Nat) (last : Option Trace) (h : m.Sound) :
    Sound ((chip8 π).stepMany n last m).2 := by
  induction n generalizing last m with
  | zero => exact h
  | succ n ih =>
    exact Action.bind_invariant (P := Sound) (fun _ => stepOnce_sound) (fun t _ => ih (some t)) m h

theorem step_eq (count : Int) (m : Machine π) :
    step count m = if m.state.isLoaded then (chip8 π).stepMany count.toNat none m else (.ok none, m) := by
  show (if m.state.isLoaded then _ else _ : Effect π (Option Trace)) m = _
  split
  · rfl
  · rfl

theorem step_sound (count : Int) (h : m.Sound) : Sound (step count m).2 := by
  rw [step_eq]
  split
  · exact stepMany_sound _ _ h
  · exact h

theorem step_one (m : Machine π) :
    step 1 m =
      if m.state.isLoaded then ((chip8 π).stepOnce >>= fun t => pure (some t)) m else (.ok none, m) := by
  rw [step_eq]
  rfl

theorem step_one_of_stepOnce {m' : Machine π} {t : Trace} (loaded : m.state.isLoaded = true)
    (once : (chip8 π).stepOnce m = (.ok t, m')) : step 1 m = (.ok (some t), m') := by
  rw [step_one, if_pos loaded]
  exact Action.bind_ok once

theorem step_one_meets (h : m.Represents r) (hr : r.Bounded) (loaded : m.state.isLoaded = true) :
    match r.cycle (Answers.ofHost m.host) with
    | .ok r' => ∃ t m', step 1 m = (.ok (some t), m') ∧ Executed m r r' t m'
    | .error f => ∃ m', step 1 m = (.error f, m') ∧ Failed r f m' := by
  have meets := stepOnce_meets h hr
  split at meets
  · obtain ⟨t, m', once, executed⟩ := meets
    exact ⟨t, m', step_one_of_stepOnce loaded once, executed⟩
  · obtain ⟨m', once, failed⟩ := meets
    rw [step_one, if_pos loaded]
    exact ⟨m', Action.bind_error once, failed⟩

end Machine

end Chip8
