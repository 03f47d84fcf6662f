import Chip8.Peripherals
import Chip8.Proofs.Tone

/-! Machines that differ in their hosts. Hosts that give the same answers, now and later, cannot be told apart by a
machine: whatever it does with the one, it does with the other (`play_coupled`). -/

namespace Chip8

/-- Related hosts give the same answers, and whatever they are told or asked they stay related. -/
structure SameAnswers {π ρ : Type} [Host π] [Host ρ] (R : π → ρ → Prop) : Prop where
  clearDisplay : ∀ {h k}, R h k → R (Host.clearDisplay h) (Host.clearDisplay k)
  render : ∀ fb {h k}, R h k → R (Host.render fb h) (Host.render fb k)
  setTone : ∀ active {h k}, R h k → R (Host.setTone active h) (Host.setTone active k)
  isPressed : ∀ key {h k}, R h k →
    (Host.isPressed key k).1 = (Host.isPressed key h).1 ∧ R (Host.isPressed key h).2 (Host.isPressed key k).2
  waitKey : ∀ {h k}, R h k → (Host.waitKey k).1 = (Host.waitKey h).1 ∧ R (Host.waitKey h).2 (Host.waitKey k).2
  randomByte : ∀ {h k}, R h k →
    (Host.randomByte k).1 = (Host.randomByte h).1 ∧ R (Host.randomByte h).2 (Host.randomByte k).2

namespace Machine

variable {π ρ α β : Type} {R : π → ρ → Prop}

/-- The machine with another host. -/
def rehost (m : Machine π) (host : ρ) : Machine ρ :=
  { state := m.state, bus := m.bus, cycles := m.cycles, symbols := m.symbols, host }

/-- An effect with related hosts: the answer and all of the machine but the host are the same. -/
def Coupled (R : π → ρ → Prop) (x : Effect π α) (y : Effect ρ α) : Prop :=
  ∀ (m : Machine π) (host : ρ), R m.host host →
    ∃ host', y (m.rehost host) = ((x m).1, (x m).2.rehost host') ∧ R (x m).2.host host'

theorem coupled_pure (a : α) : Coupled R (pure a) (pure a) := fun _ host related => ⟨host, rfl, related⟩

theorem coupled_fail (why : Fault) : Coupled R (Action.fail why : Effect π α) (Action.fail why) :=
  fun _ host related => ⟨host, rfl, related⟩

theorem coupled_getState : Coupled R getState getState := fun _ host related => ⟨host, rfl, related⟩

theorem coupled_modifyState (f : State → State) : Coupled R (Core.modifyState f) (Core.modifyState f) :=
  fun _ host related => ⟨host, rfl, related⟩

theorem Coupled.bind {x : Effect π α} {y : Effect ρ α} {f : α → Effect π β} {g : α → Effect ρ β}
    (hx : Coupled R x y) (hf : ∀ a, Coupled R (f a) (g a)) : Coupled R (x >>= f) (y >>= g) := by
  intro m host related
  obtain ⟨host₁, ran, related₁⟩ := hx m host related
  rcases first : x m with ⟨why | a, m₁⟩
  · rw [first] at ran related₁
    rw [Action.bind_error first, Action.bind_error ran]
    exact ⟨host₁, rfl, related₁⟩
  · rw [first] at ran related₁
    rw [Action.bind_ok first, Action.bind_ok ran]
    exact hf a m₁ host₁ related₁

theorem coupled_each {f : β → Effect π Unit} {g : β → Effect ρ Unit} (h : ∀ b, Coupled R (f b) (g b)) (bs : List β) :
    Coupled R (Action.each f bs) (Action.each g bs) := by
  induction bs with
  | nil => exact coupled_pure ()
  | cons b bs ih => exact (h b).bind fun _ => ih

theorem coupled_readByte (a : Int) : Coupled R (Core.readByte a) (Core.readByte a) := by
  intro m host related
  have same : (m.rehost host).bus = m.bus := rfl
  unfold Core.readByte
  rw [same]
  cases m.bus.read a with
  | error e => exact ⟨host, rfl, related⟩
  | ok r => exact ⟨host, rfl, related⟩

theorem coupled_writeByte (a d : Int) : Coupled R (Core.writeByte a d) (Core.writeByte a d) := by
  intro m host related
  have same : (m.rehost host).bus = m.bus := rfl
  unfold Core.writeByte
  rw [same]
  cases m.bus.write a d with
  | error e => exact ⟨host, rfl, related⟩
  | ok bus => exact ⟨host, rfl, related⟩

theorem coupled_fetch : Coupled R fetch fetch :=
  coupled_getState.bind fun _ => (coupled_readByte _).bind fun _ => (coupled_readByte _).bind fun _ => coupled_pure _

theorem coupled_modifyHost {f : π → π} {g : ρ → ρ} (h : ∀ {a b}, R a b → R (f a) (g b)) :
    Coupled R (modifyHost f) (modifyHost g) := fun _ host related => ⟨g host, rfl, h related⟩

theorem coupled_ask {f : π → α × π} {g : ρ → α × ρ} (h : ∀ {a b}, R a b → (g b).1 = (f a).1 ∧ R (f a).2 (g b).2) :
    Coupled R (ask f) (ask g) := by
  intro m host related
  obtain ⟨same, related'⟩ := h related
  refine ⟨(g host).2, ?_, related'⟩
  show (Except.ok (g host).1, _) = _
  rw [same]
  rfl

theorem coupled_ret : Coupled R ret ret := by
  refine coupled_getState.bind fun s => ?_
  split
  · exact coupled_fail _
  · refine (coupled_modifyState _).bind fun _ => ?_
    split
    · exact coupled_fail _
    · exact coupled_modifyState _

theorem coupled_call (target : Nat) : Coupled R (call target) (call target) := by
  refine coupled_getState.bind fun s => ?_
  split
  · exact coupled_fail _
  · split
    · exact coupled_fail _
    · exact coupled_modifyState _

theorem coupled_storeRegister (k : Fin 16) : Coupled R (storeRegister k) (storeRegister k) :=
  coupled_getState.bind fun _ => coupled_writeByte _ _

theorem coupled_restoreRegister (k : Fin 16) : Coupled R (restoreRegister k) (restoreRegister k) :=
  coupled_getState.bind fun _ => (coupled_readByte _).bind fun _ => coupled_modifyState _

theorem coupled_storeDecimal (z : Int) : Coupled R (storeDecimal z) (storeDecimal z) :=
  coupled_getState.bind fun _ => (coupled_writeByte _ _).bind fun _ => (coupled_writeByte _ _).bind fun _ =>
    coupled_writeByte _ _

theorem coupled_drawRow (x y : Int) (row : Nat) : Coupled R (drawRow x y row) (drawRow x y row) :=
  coupled_getState.bind fun _ => (coupled_readByte _).bind fun _ => coupled_modifyState _

variable [Host π] [Host ρ]

section answers

variable (answers : SameAnswers R)
include answers

theorem coupled_render : Coupled R render render :=
  coupled_getState.bind fun s => coupled_modifyHost (answers.render s.screen)

theorem coupled_draw (x y : Fin 16) (height : Nat) : Coupled R (draw x y height) (draw x y height) :=
  coupled_getState.bind fun _ => (coupled_modifyState _).bind fun _ =>
    (coupled_each (coupled_drawRow _ _) _).bind fun _ => coupled_render answers

theorem coupled_waitKey : Coupled R waitKey waitKey := by
  refine (coupled_ask answers.waitKey).bind fun answer => ?_
  rcases answer with (why | key) | key
  · exact (coupled_modifyState _).bind fun _ => coupled_fail _
  · exact coupled_fail _
  · dsimp only
    split
    · exact coupled_pure key
    · exact coupled_fail _

theorem perform_coupled (op : Opcode) (w : Nat) : Coupled R (perform op w) (perform op w) := by
  cases op with
  | clearScreen =>
    exact (coupled_modifyState _).bind fun _ => (coupled_modifyHost answers.clearDisplay).bind fun _ =>
      coupled_render answers
  | ret => exact coupled_ret
  | call => exact coupled_call _
  | random => exact (coupled_ask answers.randomByte).bind fun _ => coupled_modifyState _
  | draw => exact coupled_draw answers _ _ _
  | skipPressed | skipReleased =>
    exact coupled_getState.bind fun _ => (coupled_ask (answers.isPressed _)).bind fun _ => coupled_modifyState _
  | awaitKey => exact (coupled_waitKey answers).bind fun _ => coupled_modifyState _
  | decimal => exact coupled_getState.bind fun _ => coupled_storeDecimal _
  | store => exact coupled_each coupled_storeRegister _
  | restore => exact coupled_each coupled_restoreRegister _
  | _ => exact fun _ host related => ⟨host, rfl, related⟩

omit answers in
theorem coupled_report (address : Int) (i : Instruction) :
    Coupled R (Core.report (chip8 π) address i) (Core.report (chip8 ρ) address i) :=
  fun _ host related => ⟨host, rfl, related⟩

theorem stepOnce_coupled : Coupled R (chip8 π).stepOnce (chip8 ρ).stepOnce := by
  intro m host related
  rcases accepted : (chip8 π).checkFetch m.state with why | ⟨⟩
  · have accepted' : (chip8 ρ).checkFetch (m.rehost host).state = .error why := accepted
    rw [Processor.stepOnce_refused accepted, Processor.stepOnce_refused accepted']
    exact ⟨host, rfl, related⟩
  have accepted' : (chip8 ρ).checkFetch (m.rehost host).state = .ok () := accepted
  obtain ⟨host₁, read', related₁⟩ := coupled_fetch m.clearLog host related
  rcases read : (fetch m.clearLog : _ × Machine π) with ⟨why | word, m₁⟩
  · rw [read] at read' related₁
    rw [Processor.stepOnce_unread accepted read, Processor.stepOnce_unread accepted' read']
    exact ⟨host₁, rfl, related₁⟩
  · rw [read] at read' related₁
    have once := Processor.stepOnce_accepted accepted read
    have once' := Processor.stepOnce_accepted accepted' read'
    rcases decoded : Instruction.ofWord? word.toNat with _ | i
    · have unknown : (chip8 π).decode word = none := decoded
      have unknown' : (chip8 ρ).decode word = none := decoded
      rw [unknown] at once
      rw [unknown'] at once'
      rw [once, once']
      exact ⟨host₁, rfl, related₁⟩
    · have known : (chip8 π).decode word = some i := decoded
      have known' : (chip8 ρ).decode word = some i := decoded
      rw [known] at once
      rw [known'] at once'
      rw [once, once']
      have runs := (perform_coupled answers i.opcode i.word).bind fun _ => coupled_report m.state.pc i
      exact runs { m₁ with state := { m₁.state with pc := (m₁.state.pc + 2) % 65536 } } host₁ related₁

theorem stepMany_coupled (n : Nat) (last : Option Trace) :
    Coupled R ((chip8 π).stepMany n last) ((chip8 ρ).stepMany n last) := by
  induction n generalizing last with
  | zero => exact coupled_pure last
  | succ n ih => exact (stepOnce_coupled answers).bind fun t => ih (some t)

theorem step_coupled (count : Int) : Coupled R (step count : Effect π (Option Trace)) (step count) := by
  intro m host related
  rw [step_eq, step_eq]
  have same : (m.rehost host).state = m.state := rfl
  rw [same]
  split
  · exact stepMany_coupled answers count.toNat none m host related
  · exact ⟨host, rfl, related⟩

theorem tick_coupled (m : Machine π) (host : ρ) (related : R m.host host) :
    ∃ host', (m.rehost host).tick = m.tick.rehost host' ∧ R m.tick.host host' := by
  rw [tick_eq, tick_eq]
  refine ⟨if 0 < m.state.sound then Host.setTone (m.state.sound - 1 != 0) host else host, rfl, ?_⟩
  dsimp only
  split
  · exact answers.setTone _ related
  · exact related

end answers

def answer (m : Machine π) : Beat → Option (Except Fault (Option Trace))
  | .step count => some (step count m).1
  | .tick => none

def answers (m : Machine π) : List Beat → List (Except Fault (Option Trace))
  | [] => []
  | b :: beats => (m.answer b).toList ++ (m.beat b).answers beats

theorem beat_coupled (answers : SameAnswers R) (m : Machine π) (host : ρ) (related : R m.host host) (b : Beat) :
    (m.rehost host).answer b = m.answer b ∧
      ∃ host', (m.rehost host).beat b = (m.beat b).rehost host' ∧ R (m.beat b).host host' := by
  cases b with
  | step count =>
    obtain ⟨host', ran, related'⟩ := step_coupled answers count m host related
    rw [answer, beat_step, ran]
    exact ⟨rfl, host', rfl, related'⟩
  | tick => exact ⟨rfl, tick_coupled answers m host related⟩

/-- In a run with related hosts the steps give the same answers, and the machines differ in their hosts alone. -/
theorem play_coupled (answers : SameAnswers R) (m : Machine π) (host : ρ) (related : R m.host host)
    (beats : List Beat) :
    (m.rehost host).answers beats = m.answers beats ∧
      ∃ host', (m.rehost host).play beats = (m.play beats).rehost host' ∧ R (m.play beats).host host' := by
  induction beats generalizing m host with
  | nil => exact ⟨rfl, host, rfl, related⟩
  | cons b beats ih =>
    obtain ⟨same, host₁, one, related₁⟩ := beat_coupled answers m host related b
    obtain ⟨later, rest⟩ := ih (m.beat b) host₁ related₁
    rw [Machine.answers, Machine.answers, same, one, later, play_cons, play_cons, one]
    exact ⟨rfl, rest⟩

end Machine

namespace SameAnswers

variable {π ρ : Type} [Host π] [Host ρ] {R : π → ρ → Prop}

/-- Recorded hosts that give the same answers are told the same from some time on. -/
theorem recorded (h : SameAnswers R) (before : List Output) (before' : List Output) :
    SameAnswers fun (r : Recorded π) (r' : Recorded ρ) => R r.host r'.host ∧
      ∃ told, r.outputs = before ++ told ∧ r'.outputs = before' ++ told := by
  have tell (o : Output) (f : π → π) (f' : ρ → ρ) (r : Recorded π) (r' : Recorded ρ)
      (told : ∃ told, r.outputs = before ++ told ∧ r'.outputs = before' ++ told) :
      ∃ told, (r.tell o f).outputs = before ++ told ∧ (r'.tell o f').outputs = before' ++ told := by
    obtain ⟨told, outputs, outputs'⟩ := told
    exact ⟨told ++ [o], by simp [Recorded.tell, outputs], by simp [Recorded.tell, outputs']⟩
  constructor
  · rintro r r' ⟨related, told⟩
    exact ⟨h.clearDisplay related, tell _ _ _ _ _ told⟩
  · rintro fb r r' ⟨related, told⟩
    exact ⟨h.render fb related, tell _ _ _ _ _ told⟩
  · rintro active r r' ⟨related, told⟩
    exact ⟨h.setTone active related, tell _ _ _ _ _ told⟩
  · rintro key r r' ⟨related, told⟩
    obtain ⟨same, related'⟩ := h.isPressed key related
    exact ⟨same, related', told⟩
  · rintro r r' ⟨related, told⟩
    obtain ⟨same, related'⟩ := h.waitKey related
    exact ⟨same, related', told⟩
  · rintro r r' ⟨related, told⟩
    obtain ⟨same, related'⟩ := h.randomByte related
    exact ⟨same, related', told⟩

end SameAnswers

namespace Peripherals

/-- What the answers of ready-made devices come from. -/
def inputs (p : Peripherals) : Keys × RandomSource := (p.keys, p.random)

theorem inputs_clearDisplay (p : Peripherals) : p.clearDisplay.inputs = p.inputs := by
  unfold clearDisplay
  split <;> rfl

theorem inputs_render (fb : Framebuffer) (p : Peripherals) : (p.render fb).inputs = p.inputs := by
  unfold render
  split
  · rfl
  · rfl
  · dsimp only
    split <;> rfl
  · rfl

theorem inputs_setTone (active : Bool) (p : Peripherals) : (p.setTone active).inputs = p.inputs := by
  unfold setTone
  split
  · rfl
  · rfl
  · dsimp only
    split
    · rfl
    · split <;> rfl

/-- Ready-made hosts with the same keys and the same source of random bytes give the same answers, whatever their
displays and tones have come to. -/
theorem sameAnswers_inputs : SameAnswers fun p q : Peripherals => p.inputs = q.inputs where
  clearDisplay {p q} same := (inputs_clearDisplay p).trans (same.trans (inputs_clearDisplay q).symm)
  render fb {p q} same := (inputs_render fb p).trans (same.trans (inputs_render fb q).symm)
  setTone active {p q} same := (inputs_setTone active p).trans (same.trans (inputs_setTone active q).symm)
  isPressed := by
    intro key p q same
    obtain ⟨keys, random⟩ := Prod.mk.inj same
    show (q.isPressed key).1 = (p.isPressed key).1 ∧ (p.isPressed key).2.inputs = (q.isPressed key).2.inputs
    unfold isPressed
    rw [keys]
    cases q.keys with
    | silent | scripted | keypad => exact ⟨rfl, same⟩
  waitKey := by
    intro p q same
    obtain ⟨keys, random⟩ := Prod.mk.inj same
    show q.waitKey.1 = p.waitKey.1 ∧ p.waitKey.2.inputs = q.waitKey.2.inputs
    unfold waitKey
    rw [keys]
    cases q.keys with
    | silent => exact ⟨rfl, same⟩
    | scripted pressed answers =>
      cases answers with
      | nil => exact ⟨rfl, same⟩
      | cons key rest => exact ⟨rfl, congrArg (Prod.mk _) random⟩
    | keypad kp events => exact ⟨rfl, congrArg (Prod.mk _) random⟩
  randomByte := by
    intro p q same
    obtain ⟨keys, random⟩ := Prod.mk.inj same
    show q.randomByte.1 = p.randomByte.1 ∧ p.randomByte.2.inputs = q.randomByte.2.inputs
    unfold randomByte
    rw [random]
    cases q.random with
    | scripted | twister => exact ⟨rfl, congrArg (Prod.mk · _) keys⟩

end Peripherals

end Chip8
