import Chip8.Proofs.Cycle

/-! What instructions keep. An observation that looks past the bus and the working registers, and sees of the host
what only the tone changes, is the same behind every opcode but a call and a return; and behind those two as well if
it sees nothing of the stack (`perform_keeps`). No machine is asked to be sound for that. In particular no
instruction moves the end of the program, and each that completes adds one to the count of cycles
(`stepOnce_extent`). -/

namespace Chip8

namespace State

/-- The registers that calls, returns and programs alone move. -/
def frame (s : State) : Int × Int × Vector Int 16 := (s.programEnd, s.sp, s.stack)

theorem frame_skipIf (s : State) (c : Bool) : (s.skipIf c).frame = s.frame := by
  cases c <;> rfl

theorem screen_skipIf (s : State) (c : Bool) : (s.skipIf c).screen = s.screen := by
  cases c <;> rfl

theorem programEnd_of_frame {s s' : State} (same : s'.frame = s.frame) : s'.programEnd = s.programEnd :=
  congrArg Prod.fst same

end State

namespace Machine

variable {π α β γ : Type} {see : Machine π → γ}

/-- An effect leaves what is observed. -/
def Keeps (see : Machine π → γ) (x : Effect π α) : Prop := ∀ m, see (x m).2 = see m

/-- An observation that sees nothing of the bus. -/
def PastBus (see : Machine π → γ) : Prop := ∀ (m : Machine π) (bus : Bus), see { m with bus } = see m

/-- An observation that sees of the registers the end of the program at most. -/
def PastStack (see : Machine π → γ) : Prop :=
  ∀ (m : Machine π) (s : State), s.programEnd = m.state.programEnd → see { m with state := s } = see m

/-- An observation that sees of the registers the end of the program and the screen at most. -/
def PastCalls (see : Machine π → γ) : Prop :=
  ∀ (m : Machine π) (s : State), s.programEnd = m.state.programEnd → s.screen = m.state.screen →
    see { m with state := s } = see m

/-- An observation of a machine that only calls, returns and what goes to the display change. -/
structure Calm [Host π] (see : Machine π → γ) : Prop where
  bus : PastBus see
  state : ∀ (m : Machine π) (s : State), s.frame = m.state.frame → s.screen = m.state.screen →
    see { m with state := s } = see m
  isPressed : ∀ key, Keeps see (ask (Host.isPressed key))
  waitKey : Keeps see (ask Host.waitKey)
  randomByte : Keeps see (ask Host.randomByte)

/-- An observation of a machine that no opcode changes, a call and a return apart. -/
structure Steady [Host π] (see : Machine π → γ) : Prop where
  bus : PastBus see
  state : ∀ (m : Machine π) (s : State), s.frame = m.state.frame → see { m with state := s } = see m
  clearDisplay : Keeps see (modifyHost Host.clearDisplay)
  render : ∀ fb, Keeps see (modifyHost (Host.render fb))
  isPressed : ∀ key, Keeps see (ask (Host.isPressed key))
  waitKey : Keeps see (ask Host.waitKey)
  randomByte : Keeps see (ask Host.randomByte)

theorem PastStack.pastCalls (h : PastStack see) : PastCalls see := by
  intro m s programEnd _
  exact h m s programEnd

theorem Steady.calm [Host π] (h : Steady see) : Calm see where
  bus := h.bus
  state m s frame _ := h.state m s frame
  isPressed := h.isPressed
  waitKey := h.waitKey
  randomByte := h.randomByte

theorem Keeps.bind {x : Effect π α} {f : α → Effect π β} (hx : Keeps see x) (hf : ∀ a, Keeps see (f a)) :
    Keeps see (x >>= f) := fun m =>
  Action.bind_invariant (P := fun m' => see m' = see m) (fun m' h => (hx m').trans h)
    (fun a m' h => (hf a m').trans h) m rfl

theorem keeps_pure (a : α) : Keeps see (pure a : Effect π α) := fun _ => rfl

theorem keeps_fail (why : Fault) : Keeps see (Action.fail why : Effect π α) := fun _ => rfl

theorem keeps_getState : Keeps see (getState : Effect π State) := fun _ => rfl

theorem keeps_each {f : β → Effect π Unit} (hf : ∀ b, Keeps see (f b)) (bs : List β) :
    Keeps see (Action.each f bs) := by
  induction bs with
  | nil => exact keeps_pure ()
  | cons b bs ih => exact (hf b).bind fun _ => ih

def withoutBus (m : Machine π) : Machine π := { m with bus := {} }

theorem pastBus_withoutBus : PastBus (withoutBus : Machine π → Machine π) := fun _ _ => rfl

theorem eq_of_withoutBus {m m' : Machine π} (same : m'.withoutBus = m.withoutBus) :
    m' = { m with bus := m'.bus } :=
  congrArg (fun other : Machine π => { other with bus := m'.bus }) same

def extent (m : Machine π) : Int × Int := (m.state.programEnd, m.cycles)

theorem pastStack_extent : PastStack (extent : Machine π → Int × Int) := fun m s same => by
  rw [extent, extent, same]

section bus

variable (h : PastBus see)
include h

theorem keeps_readByte (a : Int) : Keeps see (Core.readByte a : Effect π UInt8) := fun m => by
  unfold Core.readByte
  split
  · exact h m _
  · rfl

theorem keeps_writeByte (a d : Int) : Keeps see (Core.writeByte a d : Effect π Unit) := fun m => by
  unfold Core.writeByte
  split
  · exact h m _
  · rfl

theorem keeps_fetch : Keeps see (fetch : Effect π Int) :=
  keeps_getState.bind fun _ => (keeps_readByte h _).bind fun _ => (keeps_readByte h _).bind fun _ =>
    keeps_pure _

theorem keeps_storeRegister (k : Fin 16) : Keeps see (storeRegister k : Effect π Unit) :=
  keeps_getState.bind fun _ => keeps_writeByte h _ _

theorem keeps_storeDecimal (z : Int) : Keeps see (storeDecimal z : Effect π Unit) :=
  keeps_getState.bind fun _ => (keeps_writeByte h _ _).bind fun _ => (keeps_writeByte h _ _).bind fun _ =>
    keeps_writeByte h _ _

end bus

section flow

variable (h : PastCalls see)
include h

theorem keeps_ret : Keeps see (ret : Effect π Unit) := by
  refine keeps_getState.bind fun s => ?_
  split
  · exact keeps_fail _
  · refine Keeps.bind (fun m => h m _ rfl rfl) fun _ => ?_
    split
    · exact keeps_fail _
    · exact fun m => h m _ rfl rfl

theorem keeps_call (target : Nat) : Keeps see (call target : Effect π Unit) := by
  refine keeps_getState.bind fun s => ?_
  split
  · exact keeps_fail _
  · split
    · exact keeps_fail _
    · exact fun m => h m _ rfl rfl

end flow

variable [Host π]

theorem frame_drawRow (s : State) (drawn : Bool × Framebuffer) :
    State.frame (if drawn.1 then State.setV { s with screen := drawn.2 } State.flag 1
      else { s with screen := drawn.2 }) = s.frame := by
  split <;> rfl

section steady

variable (h : Steady see)
include h

theorem keeps_modifyState {f : State → State} (kept : ∀ s, (f s).frame = s.frame := by exact fun _ => rfl) :
    Keeps see (Core.modifyState f : Effect π Unit) := fun m => h.state m (f m.state) (kept m.state)

theorem keeps_render : Keeps see (render : Effect π Unit) :=
  keeps_getState.bind fun s => h.render s.screen

theorem keeps_drawRow (x y : Int) (row : Nat) : Keeps see (drawRow x y row : Effect π Unit) :=
  keeps_getState.bind fun _ => (keeps_readByte h.bus _).bind fun _ =>
    keeps_modifyState h fun s => frame_drawRow s _

theorem keeps_draw (x y : Fin 16) (height : Nat) : Keeps see (draw x y height : Effect π Unit) :=
  keeps_getState.bind fun _ => (keeps_modifyState h).bind fun _ =>
    (keeps_each (keeps_drawRow h _ _) _).bind fun _ => keeps_render h

end steady

section calm

variable (h : Calm see)
include h

theorem keeps_registers {f : State → State} (kept : ∀ s, (f s).frame = s.frame := by exact fun _ => rfl)
    (shown : ∀ s, (f s).screen = s.screen := by exact fun _ => rfl) :
    Keeps see (Core.modifyState f : Effect π Unit) :=
  fun m => h.state m (f m.state) (kept m.state) (shown m.state)

theorem keeps_restoreRegister (k : Fin 16) : Keeps see (restoreRegister k : Effect π Unit) :=
  keeps_getState.bind fun _ => (keeps_readByte h.bus _).bind fun _ => keeps_registers h

theorem keeps_waitKey : Keeps see (waitKey : Effect π Int) := by
  refine h.waitKey.bind fun answer => ?_
  rcases answer with (why | key) | key
  · exact (keeps_registers h).bind fun _ => keeps_fail _
  · exact keeps_fail _
  · dsimp only
    split
    · exact keeps_pure key
    · exact keeps_fail _

theorem perform_calm (op : Opcode) (w : Nat) (noClear : op ≠ .clearScreen) (noDraw : op ≠ .draw)
    (flow : op = .call ∨ op = .ret → PastCalls see) : Keeps see (perform op w : Effect π Unit) := by
  cases op with
  | clearScreen => exact absurd rfl noClear
  | draw => exact absurd rfl noDraw
  | ret => exact keeps_ret (flow (.inr rfl))
  | call => exact keeps_call (flow (.inl rfl)) _
  | skipEqByte | skipNeByte | skipEq | skipNe =>
    exact keeps_registers h (fun s => s.frame_skipIf _) fun s => s.screen_skipIf _
  | random => exact h.randomByte.bind fun _ => keeps_registers h
  | skipPressed | skipReleased =>
    exact keeps_getState.bind fun _ => (h.isPressed _).bind fun _ =>
      keeps_registers h (fun s => s.frame_skipIf _) fun s => s.screen_skipIf _
  | awaitKey => exact (keeps_waitKey h).bind fun _ => keeps_registers h
  | decimal => exact keeps_getState.bind fun _ => keeps_storeDecimal h.bus _
  | store => exact keeps_each (keeps_storeRegister h.bus) _
  | restore => exact keeps_each (keeps_restoreRegister h) _
  | _ => exact keeps_registers h

end calm

theorem perform_keeps (h : Steady see) (op : Opcode) (w : Nat) (flow : op = .call ∨ op = .ret → PastStack see) :
    Keeps see (perform op w : Effect π Unit) := by
  by_cases clear : op = .clearScreen
  · subst clear
    exact (keeps_modifyState h).bind fun _ => h.clearDisplay.bind fun _ => keeps_render h
  by_cases draw : op = .draw
  · subst draw
    exact keeps_draw h _ _ _
  exact perform_calm h.calm op w clear draw fun back => (flow back).pastCalls

/-- A cycle fails before its instruction begins, and has touched the bus at most; or it performs an instruction of
the program, with the program counter behind it. -/
theorem stepOnce_begins (m : Machine π) :
    (∃ f m₁, (chip8 π).stepOnce m = (.error f, m₁) ∧ m₁ = { m with bus := m₁.bus }) ∨
    (∃ i m₁, (chip8 π).stepOnce m =
        (perform i.opcode i.word >>= fun _ => Core.report (chip8 π) m.state.pc i) m₁ ∧
      m₁ = { m with bus := m₁.bus, state := { m.state with pc := (m.state.pc + 2) % 65536 } } ∧
      0x200 ≤ m.state.pc ∧ ∃ byte, m.bus.peek m.state.pc = .ok byte) := by
  rcases accepted : (chip8 π).checkFetch m.state with why | ⟨⟩
  · exact .inl ⟨why, _, Processor.stepOnce_refused accepted, rfl⟩
  · have kept := keeps_fetch pastBus_withoutBus m.clearLog
    rcases read : (fetch m.clearLog : _ × Machine π) with ⟨why | word, m₁⟩
    · rw [read] at kept
      exact .inl ⟨why, m₁, Processor.stepOnce_unread accepted read, eq_of_withoutBus kept⟩
    · rw [read] at kept
      obtain ⟨bus, rfl⟩ : ∃ bus, m₁ = { m with bus } := ⟨m₁.bus, eq_of_withoutBus kept⟩
      have once := Processor.stepOnce_accepted accepted read
      cases decoded : (chip8 π).decode word with
      | none =>
        rw [decoded] at once
        exact .inl ⟨_, _, once, rfl⟩
      | some i =>
        rw [decoded] at once
        refine .inr ⟨i, _, once, rfl, ?_, ?_⟩
        · by_contra low
          have refused : checkFetch m.state = .error (.programCounter m.state.pc programBase m.state.programEnd) :=
            if_pos (.inl (Int.not_le.1 low))
          have passed : checkFetch m.state = .ok () := accepted
          cases refused.symm.trans passed
        · cases peeked : m.bus.peek m.state.pc with
          | ok byte => exact ⟨byte, rfl⟩
          | error e =>
            have first : (Core.readByte m.state.pc : Effect π UInt8) m.clearLog = (.error (.bus e), m.clearLog) := by
              have unread : m.clearLog.bus.peek m.state.pc = .error e := peeked
              rw [Core.readByte, Bus.read, unread]
            cases (Action.bind_error first).symm.trans read

/-- A cycle keeps what is observed, up to the report of an instruction that completes: that clears the log and
counts. -/
theorem stepOnce_keeps (h : Steady see) (flow : PastStack see) (m : Machine π) :
    (∃ f m', (chip8 π).stepOnce m = (.error f, m') ∧ see m' = see m) ∨
    (∃ t m', (chip8 π).stepOnce m =
      (.ok t, { m' with bus := m'.bus.takeLog.2, cycles := m'.cycles + 1 }) ∧ see m' = see m) := by
  rcases stepOnce_begins m with ⟨f, m₁, once, begun⟩ | ⟨i, m₁, once, begun, -⟩
  · exact .inl ⟨f, m₁, once, begun ▸ h.bus m _⟩
  · have kept : see m₁ = see m := by
      rw [begun]
      exact (h.bus { m with state := _ } m₁.bus).trans (h.state m _ rfl)
    have performed := perform_keeps h i.opcode i.word (fun _ => flow) m₁
    rcases ran : perform i.opcode i.word m₁ with ⟨why | ⟨⟩, m₂⟩
    · rw [ran] at performed
      exact .inl ⟨why, m₂, once.trans (Action.bind_error ran), performed.trans kept⟩
    · rw [ran] at performed
      exact .inr ⟨_, m₂, once.trans (Action.bind_ok ran), performed.trans kept⟩

theorem steady_extent : Steady (extent : Machine π → Int × Int) where
  bus _ _ := rfl
  state m s same := pastStack_extent m s (State.programEnd_of_frame same)
  clearDisplay _ := rfl
  render _ _ := rfl
  isPressed _ _ := rfl
  waitKey _ := rfl
  randomByte _ := rfl

theorem stepOnce_extent (m : Machine π) :
    (∀ f m', (chip8 π).stepOnce m = (.error f, m') → extent m' = extent m) ∧
    (∀ t m', (chip8 π).stepOnce m = (.ok t, m') → extent m' = (m.state.programEnd, m.cycles + 1)) := by
  rcases stepOnce_keeps steady_extent pastStack_extent m with ⟨f, m₁, once, same⟩ | ⟨t, m₁, once, same⟩
  · rw [once]
    refine ⟨fun f' m' run => ?_, fun t m' run => (nomatch (Prod.mk.inj run).1)⟩
    cases run
    exact same
  · rw [once]
    refine ⟨fun f m' run => (nomatch (Prod.mk.inj run).1), fun t' m' run => ?_⟩
    cases run
    have programEnd : m₁.state.programEnd = m.state.programEnd := congrArg Prod.fst same
    have cycles : m₁.cycles = m.cycles := congrArg Prod.snd same
    show (m₁.state.programEnd, m₁.cycles + 1) = _
    rw [programEnd, cycles]

theorem cycles_of_completed {m m' : Machine π} {t : Trace} (once : (chip8 π).stepOnce m = (.ok t, m')) :
    m'.cycles = m.cycles + 1 :=
  congrArg Prod.snd ((stepOnce_extent m).2 t m' once)

/-- No instruction moves the end of the program, so a machine stays ready. -/
theorem isLoaded_stepOnce (m : Machine π) :
    ((chip8 π).stepOnce m).2.state.isLoaded = m.state.isLoaded := by
  obtain ⟨failed, completed⟩ := stepOnce_extent m
  have same : ((chip8 π).stepOnce m).2.state.programEnd = m.state.programEnd := by
    rcases once : (chip8 π).stepOnce m with ⟨f | t, m'⟩
    · exact congrArg Prod.fst (failed f m' once)
    · exact congrArg Prod.fst (completed t m' once)
  rw [State.isLoaded, State.isLoaded, same]

theorem isLoaded_stepMany (m : Machine π) (n : Nat) (last : Option Trace) :
    ((chip8 π).stepMany n last m).2.state.isLoaded = m.state.isLoaded := by
  induction n generalizing last m with
  | zero => rfl
  | succ n ih =>
    exact Action.bind_invariant (P := fun m' : Machine π => m'.state.isLoaded = m.state.isLoaded)
      (fun m' same => (isLoaded_stepOnce m').trans same) (fun t m' same => (ih m' (some t)).trans same) m rfl

end Machine

end Chip8
