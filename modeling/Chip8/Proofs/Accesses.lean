import Chip8.Proofs.BusLog
import Chip8.Proofs.Keeping
import Chip8.Proofs.Programs

/-! The accesses of an instruction. A cycle that completes reads the two bytes of its word and then makes the calls of
its opcode, all of which succeed (`perform_makes`, `stepOnce_accesses`); so its report has these accesses, with the
bytes that were there, and memory before and behind can be told from each other (`accesses_exact`). -/

namespace Chip8

/-- The calls that an opcode makes with the operand fields of a word, from registers. -/
def ownCalls (s : State) (i : Instruction) : List BusCall :=
  let x := fieldX i.word
  match i.opcode with
  | .draw => (List.range (fieldN i.word)).map fun k : Nat => .read (Machine.wrap (s.i + k))
  | .decimal =>
    [.write (Machine.wrap s.i) (s.v.get x / 100), .write (Machine.wrap (s.i + 1)) (s.v.get x / 10 % 10),
      .write (Machine.wrap (s.i + 2)) (s.v.get x % 10)]
  | .store => (Machine.registersUpTo x).map fun k => .write (Machine.wrap (s.i + k.val)) (s.v.get k)
  | .restore => (Machine.registersUpTo x).map fun k => .read (Machine.wrap (s.i + k.val))
  | _ => []

namespace Machine

variable {π α β γ : Type} {m m' m₁ : Machine π} {cs cs' : List BusCall}

/-- The bus of a machine has taken these calls on the way to another, and none of them failed. -/
def Made (m m' : Machine π) (cs : List BusCall) : Prop :=
  ∃ entries, entries.map Access.call = cs ∧ Bus.Logs m.bus cs entries m'.bus

/-- An effect that makes these calls if it succeeds. -/
def Makes (x : Effect π α) (m : Machine π) (cs : List BusCall) : Prop :=
  ∀ a m', x m = (.ok a, m') → Made m m' cs

theorem made_of_bus (same : m'.bus = m.bus) : Made m m' [] := by
  refine ⟨[], rfl, ?_⟩
  rw [same]
  exact .nil _

theorem Made.trans (h : Made m m₁ cs) (h' : Made m₁ m' cs') : Made m m' (cs ++ cs') := by
  obtain ⟨entries, calls, logs⟩ := h
  obtain ⟨entries', calls', logs'⟩ := h'
  refine ⟨entries ++ entries', ?_, logs.append logs'⟩
  rw [List.map_append, calls, calls']

theorem makes_of_bus {x : Effect π α} (same : (x m).2.bus = m.bus) : Makes x m [] := by
  intro a m' run
  rw [run] at same
  exact made_of_bus same

theorem Makes.bind {x : Effect π α} {f : α → Effect π β} (hx : Makes x m cs)
    (hf : ∀ a m₁, x m = (.ok a, m₁) → Makes (f a) m₁ cs') : Makes (x >>= f) m (cs ++ cs') := by
  intro b m' run
  obtain ⟨a, m₁, first, rest⟩ := Action.bind_eq_ok run
  exact (hx a m₁ first).trans (hf a m₁ first b m' rest)

/-- A part of an effect that makes no calls. -/
theorem Makes.after {x : Effect π α} {f : α → Effect π β} (quiet : (x m).2.bus = m.bus)
    (hf : ∀ a m₁, x m = (.ok a, m₁) → Makes (f a) m₁ cs) : Makes (x >>= f) m cs :=
  (makes_of_bus quiet).bind hf

theorem Makes.before {x : Effect π α} {f : α → Effect π β} (hx : Makes x m cs)
    (quiet : ∀ a m₁, (f a m₁).2.bus = m₁.bus) : Makes (x >>= f) m cs := by
  have both : Makes (x >>= f) m (cs ++ []) := hx.bind fun a m₁ _ => makes_of_bus (quiet a m₁)
  rwa [List.append_nil] at both

theorem readByte_eq_ok {address : Int} {byte : UInt8} (h : Core.readByte address m = (.ok byte, m')) :
    m.bus.peek address = .ok byte ∧
      m' = { m with bus := { m.bus with log := m.bus.log ++ [.read address byte] } } := by
  unfold Core.readByte at h
  split at h
  · rename_i data bus read
    cases h
    obtain ⟨peeked, rfl⟩ := Bus.read_eq_ok read
    exact ⟨peeked, rfl⟩
  · cases h

theorem makes_readByte (address : Int) : Makes (Core.readByte address : Effect π UInt8) m [.read address] := by
  intro byte m' run
  obtain ⟨peeked, rfl⟩ := readByte_eq_ok run
  exact ⟨[.read address byte], rfl, .read peeked (.nil _)⟩

theorem makes_writeByte (address data : Int) :
    Makes (Core.writeByte address data : Effect π Unit) m [.write address data] := by
  intro _ m' run
  unfold Core.writeByte at run
  split at run
  · rename_i bus written
    cases run
    obtain ⟨previous, b₁, peeked, loaded, rfl⟩ := Bus.write_eq_ok written
    exact ⟨[.write address data previous], rfl, .write peeked loaded (.nil _)⟩
  · cases run

/-- A loop whose passes make one call each, from what none of them changes. -/
theorem makes_each {f : β → Effect π Unit} {call : β → BusCall} {see : Machine π → γ} (seen : γ)
    (pass : ∀ b m, see m = seen → Makes (f b) m [call b]) (keeps : ∀ b, Keeps see (f b)) (bs : List β)
    (start : see m = seen) : Makes (Action.each f bs) m (bs.map call) := by
  induction bs generalizing m with
  | nil => exact makes_of_bus rfl
  | cons b bs ih =>
    apply (pass b m start).bind
    intro _ m₁ run
    have kept := keeps b m
    rw [run] at kept
    exact ih (kept.trans start)

theorem fetch_logs {word : Int} (h : fetch m = (.ok word, m')) :
    ∃ high low : UInt8, word = (high.toNat * 256 + low.toNat : Nat) ∧ m'.state = m.state ∧
      Bus.Logs m.bus [.read m.state.pc, .read (wrap (m.state.pc + 1))]
        [.read m.state.pc high, .read (wrap (m.state.pc + 1)) low] m'.bus := by
  obtain ⟨s, m₁, here, rest⟩ := Action.bind_eq_ok h
  cases here
  obtain ⟨high, m₂, first, rest⟩ := Action.bind_eq_ok rest
  obtain ⟨peeked, rfl⟩ := readByte_eq_ok first
  obtain ⟨low, m₃, second, rest⟩ := Action.bind_eq_ok rest
  obtain ⟨peeked', rfl⟩ := readByte_eq_ok second
  cases rest
  exact ⟨high, low, rfl, rfl, .read peeked (.read peeked' (.nil _))⟩

/-! ### Opcodes -/

theorem makes_drawRow (x y : Int) (row : Nat) :
    Makes (drawRow x y row : Effect π Unit) m [.read (wrap (m.state.i + row))] := by
  apply Makes.after rfl
  intro s m₁ run
  cases run
  exact (makes_readByte _).before fun _ _ => rfl

theorem makes_storeRegister (k : Fin 16) :
    Makes (storeRegister k : Effect π Unit) m [.write (wrap (m.state.i + k.val)) (m.state.v.get k)] := by
  apply Makes.after rfl
  intro s m₁ run
  cases run
  exact makes_writeByte _ _

theorem makes_restoreRegister (k : Fin 16) :
    Makes (restoreRegister k : Effect π Unit) m [.read (wrap (m.state.i + k.val))] := by
  apply Makes.after rfl
  intro s m₁ run
  cases run
  exact (makes_readByte _).before fun _ _ => rfl

theorem makes_storeDecimal (z : Int) :
    Makes (storeDecimal z : Effect π Unit) m [.write (wrap m.state.i) (z / 100),
      .write (wrap (m.state.i + 1)) (z / 10 % 10), .write (wrap (m.state.i + 2)) (z % 10)] := by
  apply Makes.after rfl
  intro s m₁ run
  cases run
  exact (makes_writeByte _ _).bind fun _ _ _ => (makes_writeByte _ _).bind fun _ _ _ => makes_writeByte _ _

theorem keeps_index_drawRow (x y : Int) (row : Nat) :
    Keeps (fun m : Machine π => m.state.i) (drawRow x y row : Effect π Unit) := by
  refine keeps_getState.bind fun _ => (keeps_readByte (fun _ _ => rfl) _).bind fun _ m => ?_
  show State.i (if _ then _ else _) = m.state.i
  split <;> rfl

theorem keeps_index_restoreRegister (k : Fin 16) :
    Keeps (fun m : Machine π => m.state.i) (restoreRegister k : Effect π Unit) :=
  keeps_getState.bind fun _ => (keeps_readByte (fun _ _ => rfl) _).bind fun _ _ => rfl

theorem makes_store (x : Fin 16) :
    Makes (Action.each storeRegister (registersUpTo x) : Effect π Unit) m
      ((registersUpTo x).map fun k => .write (wrap (m.state.i + k.val)) (m.state.v.get k)) := by
  have keeps (k : Fin 16) : Keeps (fun m : Machine π => m.state) (storeRegister k : Effect π Unit) :=
    keeps_storeRegister (fun _ _ => rfl) k
  refine makes_each m.state ?_ keeps (registersUpTo x) rfl
  intro k m' same
  rw [← same]
  exact makes_storeRegister k

theorem makes_restore (x : Fin 16) :
    Makes (Action.each restoreRegister (registersUpTo x) : Effect π Unit) m
      ((registersUpTo x).map fun k => .read (wrap (m.state.i + k.val))) := by
  refine makes_each m.state.i ?_ keeps_index_restoreRegister (registersUpTo x) rfl
  intro k m' same
  rw [← same]
  exact makes_restoreRegister k

variable [Host π]

theorem makes_draw (x y : Fin 16) (height : Nat) :
    Makes (draw x y height : Effect π Unit) m
      ((List.range height).map fun k : Nat => .read (wrap (m.state.i + k))) := by
  apply Makes.after rfl
  intro s m₁ run
  cases run
  apply Makes.after rfl
  intro _ m₂ run
  cases run
  refine Makes.before ?_ fun _ _ => rfl
  refine makes_each m.state.i ?_ (keeps_index_drawRow _ _) (List.range height) rfl
  intro row m' same
  rw [← same]
  exact makes_drawRow _ _ row

theorem keeps_bus_waitKey : Keeps (fun m : Machine π => m.bus) (waitKey : Effect π Int) := by
  refine Keeps.bind (fun _ => rfl) fun answer => ?_
  rcases answer with (why | key) | key
  · exact Keeps.bind (fun _ => rfl) fun _ => keeps_fail _
  · exact keeps_fail _
  · dsimp only
    split
    · exact keeps_pure key
    · exact keeps_fail _

theorem perform_makes (i : Instruction) :
    Makes (perform i.opcode i.word : Effect π Unit) m (ownCalls m.state i) := by
  obtain ⟨op, w⟩ := i
  cases op with
  | ret => exact makes_of_bus (keeps_ret (fun _ _ _ _ => rfl) m)
  | call => exact makes_of_bus (keeps_call (fun _ _ _ _ => rfl) _ m)
  | awaitKey =>
    exact makes_of_bus (Keeps.bind keeps_bus_waitKey (fun _ _ => rfl) m)
  | draw => exact makes_draw _ _ _
  | decimal =>
    apply Makes.after rfl
    intro s m₁ run
    cases run
    exact makes_storeDecimal _
  | store => exact makes_store _
  | restore => exact makes_restore _
  | _ => exact makes_of_bus rfl

/-! ### The cycle -/

theorem ownCalls_pc (s : State) (pc : Int) (i : Instruction) : ownCalls { s with pc } i = ownCalls s i := rfl

/-- The report of a cycle has the reads of the word and then the accesses of its instruction. -/
theorem stepOnce_accesses {t : Trace} (h : (chip8 π).stepOnce m = (.ok t, m')) :
    checkFetch m.state = .ok () ∧
    (∃ (high low : UInt8) (own : List Access),
      t.accesses = .read m.state.pc high :: .read (wrap (m.state.pc + 1)) low :: own ∧
      Instruction.ofWord? (high.toNat * 256 + low.toNat) = some t.instruction ∧
      own.map Access.call = ownCalls m.state t.instruction) ∧
    Bus.Logs { m.bus with log := [] } (t.accesses.map Access.call) t.accesses { m'.bus with log := t.accesses } ∧
    m'.bus.log = [] := by
  cases accepted : (chip8 π).checkFetch m.state with
  | error why =>
    rw [Processor.stepOnce_refused accepted] at h
    cases h
  | ok _ =>
    rcases read : (fetch m.clearLog : _ × Machine π) with ⟨why | word, m₁⟩
    · rw [Processor.stepOnce_unread accepted read] at h
      cases h
    · obtain ⟨high, low, rfl, same, code⟩ := fetch_logs read
      have once := Processor.stepOnce_accepted accepted read
      have decode : (chip8 π).decode ((high.toNat * 256 + low.toNat : Nat) : Int) =
        Instruction.ofWord? (high.toNat * 256 + low.toNat) := rfl
      cases decoded : Instruction.ofWord? (high.toNat * 256 + low.toNat) with
      | none =>
        rw [decode, decoded, h] at once
        cases once
      | some i =>
        rw [decode, decoded, h] at once
        obtain ⟨_, m₂, ran, reported⟩ := Action.bind_eq_ok once.symm
        obtain ⟨own, calls, logs⟩ := perform_makes i _ _ ran
        have all := code.append logs
        have made : m₂.bus.log = .read m.state.pc high :: .read (wrap (m.state.pc + 1)) low :: own := all.log
        have registers : ownCalls ((chip8 π).advance i m₁.state) i = ownCalls m.state i :=
          (ownCalls_pc _ _ _).trans (congrArg (ownCalls · i) same)
        rw [registers] at calls all
        cases reported
        refine ⟨accepted, ⟨high, low, own, made, decoded, calls⟩, ?_, rfl⟩
        have entries : m₂.bus.log.map Access.call =
            [.read m.state.pc, .read (wrap (m.state.pc + 1))] ++ ownCalls m.state i := by
          rw [made, ← calls]
          rfl
        show Bus.Logs _ (m₂.bus.log.map Access.call) m₂.bus.log m₂.bus
        rw [entries, made]
        exact all

theorem stepOnce_of_step_one {t : Trace} (h : step 1 m = (.ok (some t), m')) :
    (chip8 π).stepOnce m = (.ok t, m') := by
  rw [step_one] at h
  split at h
  · obtain ⟨t', m₁, once, rest⟩ := Action.bind_eq_ok h
    cases rest
    exact once
  · cases h

omit [Host π] in
theorem wrap_pc (range : m.state.InRange) (accepted : checkFetch m.state = .ok ()) :
    wrap (m.state.pc + 1) = m.state.pc + 1 := by
  unfold checkFetch at accepted
  split at accepted
  · cases accepted
  · rename_i inside
    have low := range.pc
    have high := range.programEnd
    unfold wrap
    omega

theorem cells_of_isMemory {b : Bus} (h : b.IsMemory) : ∀ d ∈ b.devices, ∃ cells isTruth, d = Device.ram cells isTruth := by
  obtain ⟨cells, eq⟩ := h
  intro d member
  rw [eq, Bus.ofMemory, List.mem_toArray, List.mem_singleton] at member
  exact ⟨cells.toArray, false, member⟩

/-- **The log.** Whatever was done to a machine and whatever its log held, the report of a step has the reads of the
two bytes at the program counter and then the calls of the instruction, each with the byte that was there at that
moment. Its writes made again lead from the bus before to the bus behind, and taken back they lead to the bus before.
So they do for any calls of any bus, where a call that fails adds nothing to the log. -/
theorem accesses_exact (stops : π → Nat) (host : π) (commands : List (Command π)) :
    let m := (Session.ofCommands stops host commands).machine
    (∀ (log : List Access) (t : Trace) (m' : Machine π),
      step 1 { m with bus := { m.bus with log } } = (.ok (some t), m') →
      (∃ (high low : UInt8) (own : List Access),
        t.accesses = Access.read m.state.pc high :: Access.read (m.state.pc + 1) low :: own ∧
        Instruction.ofWord? (high.toNat * 256 + low.toNat) = some t.instruction ∧
        own.map Access.call = ownCalls m.state t.instruction) ∧
      Bus.Logs { m.bus with log := [] } (t.accesses.map Access.call) t.accesses { m'.bus with log := t.accesses } ∧
      m.bus.replay t.accesses = (.ok (), { m'.bus with log := m.bus.log }) ∧
      m'.bus.revert t.accesses = (.ok (), { m.bus with log := [] })) ∧
    ∀ (b : Bus) (cs : List BusCall), ∃ entries : List Access,
      (b.calls cs).log = b.log ++ entries ∧ Bus.Logs b cs entries (b.calls cs) ∧
      b.replay entries = (.ok (), { b.calls cs with log := b.log }) ∧
      ∃ before : Bus, (b.calls cs).revert entries = (.ok (), before) ∧
        (∀ address, before.peek address = b.peek address) ∧
        ((∀ d ∈ b.devices, ∃ cells isTruth, d = Device.ram cells isTruth) →
          before = { b with log := (b.calls cs).log }) := by
  intro m
  have sound : m.Sound := (Session.ofCommands_sound stops host commands).machine
  generalize m = m at sound
  constructor
  · intro log t m' run
    obtain ⟨accepted, own, logs, empty⟩ := stepOnce_accesses (stepOnce_of_step_one run)
    obtain ⟨high, low, mine, entries, decoded, calls⟩ := own
    obtain ⟨before, reverted, alike, kept⟩ := logs.revert []
    refine ⟨⟨high, low, mine, ?_, decoded, calls⟩, logs, logs.replay m.bus.log, ?_⟩
    · rw [entries]
      show _ :: Access.read (wrap (m.state.pc + 1)) low :: mine = _
      rw [wrap_pc sound.state accepted]
    · have same : before = { m.bus with log := [] } := by
        rw [← kept]
        exact Bus.eq_of_contents (cells_of_isMemory sound.bus) alike
      rw [← same, ← reverted, ← empty]
  · intro b cs
    obtain ⟨entries, logs⟩ := b.calls_logs cs
    obtain ⟨before, reverted, alike, log⟩ := logs.revert (b.calls cs).log
    refine ⟨entries, logs.log, logs, logs.replay b.log, before, reverted, Bus.peek_of_contents alike, ?_⟩
    intro cells
    rw [Bus.eq_of_contents cells alike, log]

/-- The instruction that overwrites the program it is in: the reads of its word, and the write of a zero with the byte
that it replaced. -/
theorem accesses_exact_overwriting :
    let m := (Session.ofCommands (fun _ : Unit => 0) () [.loadImage Session.overwriting, .step 1]).machine
    ∃ t m', step 1 m = (.ok (some t), m') ∧
      t.accesses = [.read 0x202 0xF0, .read 0x203 0x55, .write 0x200 0 0xA2] ∧
      m.bus.replay t.accesses = (.ok (), { m'.bus with log := m.bus.log }) ∧
      m'.bus.revert t.accesses = (.ok (), { m.bus with log := [] }) := by
  have accesses := accesses_exact (fun _ : Unit => 0) () [.loadImage Session.overwriting, .step 1]
  have loaded := Session.ofCommands_loadImage (fun _ : Unit => 0) ()
    (show imageFault? Session.overwriting = none by decide)
  obtain ⟨t, m₁, t', m₂, first, second, -, store, shows, -⟩ := Session.overwriting_steps loaded.1
  have ran : (Session.ofCommands (fun _ : Unit => 0) () [.loadImage Session.overwriting, .step 1]).machine = m₁ := by
    have commands : ([.loadImage Session.overwriting, .step 1] : List (Command Unit)) =
        [.loadImage Session.overwriting] ++ [.step 1] := rfl
    rw [commands, Session.ofCommands_concat, Session.machine_after_step, first]
  rw [ran] at accesses ⊢
  obtain ⟨⟨high, low, own, entries, -, calls⟩, logs, replayed, reverted⟩ := accesses.1 m₁.bus.log t' m₂ second
  have made : t'.accesses.map Access.call = [.read 0x202, .read 0x203, .write 0x200 0] := by
    have pc : m₁.state.pc = 0x202 := shows.state.pc
    have index : m₁.state.i = 0x200 := shows.state.i
    have zero : m₁.state.v.get 0 = 0 := shows.state.v 0
    have stores : ownCalls m₁.state ⟨.store, 0xF055⟩ = [.write (wrap (m₁.state.i + 0)) (m₁.state.v.get 0)] := rfl
    rw [entries, List.map_cons, List.map_cons, calls, store, stores, pc, index, zero]
    rfl
  have short : Session.overwriting.length ≤ 3584 := by decide
  have byte (k : Nat) (hk : k < Session.overwriting.length) (log : List Access) :
      Bus.peek { m₁.bus with log } (0x200 + k : Nat) = .ok (Session.overwriting.getD k 0) := by
    rw [shows.bus]
    exact Reference.peek_fresh short hk log
  obtain ⟨b, loaded⟩ : ∃ b, Bus.load { m₁.bus with log := [.read 0x202 0xF0, .read 0x203 0x55] } 0x200 0 = .ok b := by
    rw [shows.bus]
    exact ⟨_, Bus.load_ofMemory _ _ (by decide) 0 rfl⟩
  have logged : Bus.Logs { m₁.bus with log := [] } [.read 0x202, .read 0x203, .write 0x200 0]
      [.read 0x202 0xF0, .read 0x203 0x55, .write 0x200 0 0xA2] _ :=
    .read (byte 2 (by decide) _) (.read (byte 3 (by decide) _) (.write (byte 0 (by decide) _) loaded (.nil _)))
  rw [made] at logs
  obtain ⟨only, -⟩ := logged.unique logs
  exact ⟨t', m₂, second, only, replayed, reverted⟩

end Machine

end Chip8
