import Chip8.Peripherals
import Chip8.Proofs.Presses
import Chip8.Proofs.Runs
import Chip8.Proofs.Tone

/-! The display. Clears and draws are the only instructions that touch a pixel, and neither of them can fail between
a change of the screen and its rendering (`stepOnce_redrawn`). So whatever a run does, the display was last given the
screen as it is now (`display_shows_screen`). -/

namespace Chip8

namespace Output

def frame? : Output → Option Framebuffer
  | render fb => some fb
  | _ => none

def isClear : Output → Bool
  | clear => true
  | _ => false

def frames (told : List Output) : List Framebuffer := told.filterMap frame?

def clears (told : List Output) : Nat := told.countP isClear

/-- The next output behind each clear is a frame. -/
def Paired (told : List Output) : Prop :=
  ∀ before after, told = before ++ Output.clear :: after → ∃ fb later, after = .render fb :: later

theorem Paired.snoc {told : List Output} (h : Paired told) {o : Output} (noClear : o ≠ .clear) :
    Paired (told ++ [o]) := by
  intro before after split
  rcases snoc_eq_iff.1 split with ⟨-, same, -⟩ | ⟨after', rfl, earlier⟩
  · exact absurd same noClear
  · obtain ⟨fb, later, rfl⟩ := h before after' earlier
    exact ⟨fb, later ++ [o], rfl⟩

theorem Paired.clear {told : List Output} (h : Paired told) (fb : Framebuffer) :
    Paired (told ++ [Output.clear, Output.render fb]) := by
  intro before after split
  rw [List.append_cons] at split
  rcases snoc_eq_iff.1 split with ⟨-, same, -⟩ | ⟨after', rfl, init⟩
  · cases same
  rcases snoc_eq_iff.1 init with ⟨rfl, -, rfl⟩ | ⟨after'', rfl, earlier⟩
  · exact ⟨fb, [], rfl⟩
  · obtain ⟨fb', later, rfl⟩ := h before after'' earlier
    exact ⟨fb', later ++ [Output.clear] ++ [Output.render fb], rfl⟩

variable (told : List Output) (fb : Framebuffer) (active : Bool)

@[simp] theorem frames_clear : frames (told ++ [Output.clear, Output.render fb]) = frames told ++ [fb] :=
  List.filterMap_append

@[simp] theorem frames_draw : frames (told ++ [Output.render fb]) = frames told ++ [fb] := List.filterMap_append

@[simp] theorem frames_tone : frames (told ++ [Output.tone active]) = frames told :=
  List.filterMap_append.trans (List.append_nil _)

@[simp] theorem clears_clear : clears (told ++ [Output.clear, Output.render fb]) = clears told + 1 := List.countP_append

@[simp] theorem clears_draw : clears (told ++ [Output.render fb]) = clears told := List.countP_append

@[simp] theorem clears_tone : clears (told ++ [Output.tone active]) = clears told := List.countP_append

end Output

/-- What a run under a display is made of: steps of any count, ticks, and programs that are offered. -/
inductive Turn
  | beat (b : Beat)
  | load (v : Value)

/-- The outputs of a run, by the opcodes that it completes, with the screen behind them. -/
inductive Displayed : List Opcode → List Output → Framebuffer → Prop
  | dark : Displayed [] [] Framebuffer.screen
  | clear {ops : List Opcode} {told : List Output} {fb : Framebuffer} (before : Displayed ops told fb) :
      Displayed (ops ++ [Opcode.clearScreen]) (told ++ [Output.clear, Output.render fb.clear]) fb.clear
  | draw {ops : List Opcode} {told : List Output} {fb : Framebuffer} (before : Displayed ops told fb)
      (fb' : Framebuffer) : Displayed (ops ++ [Opcode.draw]) (told ++ [Output.render fb']) fb'
  | other {ops : List Opcode} {told : List Output} {fb : Framebuffer} (before : Displayed ops told fb) (op : Opcode)
      (noClear : op ≠ .clearScreen) (noDraw : op ≠ .draw) : Displayed (ops ++ [op]) told fb
  | tone {ops : List Opcode} {told : List Output} {fb : Framebuffer} (before : Displayed ops told fb) (active : Bool) :
      Displayed ops (told ++ [Output.tone active]) fb

namespace Displayed

variable {ops : List Opcode} {told : List Output} {fb : Framebuffer}

theorem screen (h : Displayed ops told fb) : fb = (Output.frames told).getLast?.getD Framebuffer.screen := by
  induction h with
  | dark => rfl
  | clear | draw => simp
  | other _ _ _ _ ih => exact ih
  | tone _ _ ih => simpa using ih

theorem renders (h : Displayed ops told fb) :
    (Output.frames told).length = ops.count .clearScreen + ops.count .draw := by
  induction h with
  | dark => rfl
  | clear _ ih =>
    simp [ih]
    omega
  | draw _ _ ih =>
    simp [ih]
    omega
  | other _ op noClear noDraw ih => simp [ih, noClear, noDraw]
  | tone _ _ ih => simpa using ih

theorem clears (h : Displayed ops told fb) : Output.clears told = ops.count .clearScreen := by
  induction h with
  | dark => rfl
  | clear _ ih => simp [ih]
  | draw _ _ ih => simp [ih]
  | other _ op noClear _ ih => simp [ih, noClear]
  | tone _ _ ih => simpa using ih

theorem paired (h : Displayed ops told fb) : Output.Paired told := by
  induction h with
  | dark =>
    intro before after split
    simp at split
  | other _ _ _ _ ih => exact ih
  | clear _ ih => exact ih.clear _
  | draw _ _ ih => exact ih.snoc nofun
  | tone _ _ ih => exact ih.snoc nofun

end Displayed

namespace Machine

variable {π γ : Type} [Host π] {see : π → γ} {m : Machine π}

/-- What is seen of a host does not change when the host is asked. -/
structure Unasked (see : π → γ) : Prop where
  isPressed : ∀ key h, see (Host.isPressed key h).2 = see h
  waitKey : ∀ h, see (Host.waitKey h).2 = see h
  randomByte : ∀ h, see (Host.randomByte h).2 = see h

def shown (see : π → γ) (m : Machine π) : Framebuffer × γ := (m.state.screen, see m.host)

theorem Unasked.calm (h : Unasked see) : Calm (shown see) where
  bus _ _ := rfl
  state m s _ screen := by rw [shown, shown, screen]
  isPressed key m := congrArg (Prod.mk m.state.screen) (h.isPressed key m.host)
  waitKey m := congrArg (Prod.mk m.state.screen) (h.waitKey m.host)
  randomByte m := congrArg (Prod.mk m.state.screen) (h.randomByte m.host)

omit [Host π] in
theorem pastCalls_shown : PastCalls (shown see) := by
  intro m s _ screen
  rw [shown, shown, screen]

/-- What an instruction does to the screen and the display, if it completes, or if it does not. -/
inductive Redrawn (see : π → γ) (m m' : Machine π) : Option Opcode → Prop
  | clear (dark : m'.state.screen = m.state.screen.clear)
      (told : see m'.host = see (Host.render m.state.screen.clear (Host.clearDisplay m.host))) :
      Redrawn see m m' (some .clearScreen)
  | draw (told : see m'.host = see (Host.render m'.state.screen m.host)) : Redrawn see m m' (some .draw)
  | other {op : Option Opcode} (noClear : op ≠ some .clearScreen) (noDraw : op ≠ some .draw)
      (same : m'.shown see = m.shown see) : Redrawn see m m' op

/-- A cycle of a sound machine fails before its instruction begins, or performs an instruction on a memory. -/
theorem stepOnce_performs (h : m.Sound) :
    (∃ f m₁, (chip8 π).stepOnce m = (.error f, m₁) ∧ m₁ = { m with bus := m₁.bus }) ∨
    (∃ i m₁, (chip8 π).stepOnce m =
        (perform i.opcode i.word >>= fun _ => Core.report (chip8 π) m.state.pc i) m₁ ∧
      m₁ = { m with bus := m₁.bus, state := { m.state with pc := (m.state.pc + 2) % 65536 } } ∧ m₁.bus.IsMemory) := by
  obtain ⟨r, represents, bounded, -⟩ := h.exists_represents
  by_cases inside : r.Inside
  · have once := stepOnce_inside represents bounded inside
    cases decoded : Opcode.ofWord? r.word with
    | none =>
      rw [decoded] at once
      exact .inl ⟨_, _, once, rfl⟩
    | some op =>
      rw [decoded, ← represents.state.pc] at once
      exact .inr ⟨⟨op, r.word⟩, m.begun r, once, rfl, Bus.isMemory_ofMemory _ _⟩
  · exact .inl ⟨_, _, stepOnce_outside represents inside, rfl⟩

theorem perform_clearScreen (w : Nat) (m : Machine π) : perform .clearScreen w m = (.ok (), { m with
    state := { m.state with screen := m.state.screen.clear }
    host := Host.render m.state.screen.clear (Host.clearDisplay m.host) }) := rfl

theorem perform_draw (memory : m.bus.IsMemory) (size : m.state.screen.width = 64 ∧ m.state.screen.height = 32)
    (w : Nat) : ∃ m', perform .draw w m = (.ok (), m') ∧ m'.host = Host.render m'.state.screen m.host := by
  obtain ⟨pixel, shows⟩ := Framebuffer.exists_shows size
  have small : fieldN w ≤ 32 := by
    unfold fieldN
    omega
  obtain ⟨screen, -, ran⟩ := draw_run memory shows (fieldX w) (fieldY w) small
  exact ⟨_, ran, rfl⟩

theorem stepOnce_redrawn (asked : Unasked see) (h : m.Sound) :
    (∃ f m', (chip8 π).stepOnce m = (.error f, m') ∧ Redrawn see m m' none) ∨
    (∃ t m', (chip8 π).stepOnce m = (.ok t, m') ∧ Redrawn see m m' (some t.instruction.opcode)) := by
  rcases stepOnce_performs h with ⟨f, m₁, once, begun⟩ | ⟨⟨op, w⟩, m₁, once, begun, memory⟩
  · refine .inl ⟨f, m₁, once, .other nofun nofun ?_⟩
    rw [begun]
    rfl
  have screen : m₁.state.screen = m.state.screen := by rw [begun]
  have host : m₁.host = m.host := by rw [begun]
  by_cases clear : op = .clearScreen
  · subst clear
    refine .inr ⟨_, _, once.trans (Action.bind_ok (perform_clearScreen w m₁)), .clear ?_ ?_⟩
    · exact congrArg Framebuffer.clear screen
    · rw [← screen, ← host]
  by_cases draw : op = .draw
  · subst draw
    obtain ⟨m₂, ran, told⟩ := perform_draw memory (screen ▸ h.state.screen) w
    refine .inr ⟨_, _, once.trans (Action.bind_ok ran), .draw ?_⟩
    rw [← host]
    exact congrArg see told
  have calm := perform_calm asked.calm op w clear draw fun _ => pastCalls_shown
  have kept : (perform op w m₁).2.shown see = m.shown see := by
    rw [calm m₁, shown, screen, host, shown]
  rcases ran : perform op w m₁ with ⟨f | ⟨⟩, m₂⟩
  · rw [ran] at kept
    exact .inl ⟨f, m₂, once.trans (Action.bind_error ran), .other nofun nofun kept⟩
  · rw [ran] at kept
    refine .inr ⟨_, _, once.trans (Action.bind_ok ran), .other ?_ ?_ kept⟩
    · exact fun same => clear (Option.some.inj same)
    · exact fun same => draw (Option.some.inj same)

/-- What holds of the opcodes completed so far, of the screen and of what is seen of the host, and survives
instructions and ticks. -/
structure DisplayInvariant (see : π → γ) (P : List Opcode → Framebuffer → γ → Prop) : Prop where
  asked : Unasked see
  clear : ∀ {ops : List Opcode} {fb : Framebuffer} {host : π}, P ops fb (see host) →
    P (ops ++ [Opcode.clearScreen]) fb.clear (see (Host.render fb.clear (Host.clearDisplay host)))
  draw : ∀ {ops : List Opcode} {fb : Framebuffer} {host : π} (fb' : Framebuffer), P ops fb (see host) →
    P (ops ++ [Opcode.draw]) fb' (see (Host.render fb' host))
  other : ∀ {ops : List Opcode} {fb : Framebuffer} {seen : γ} (op : Opcode), op ≠ .clearScreen → op ≠ .draw →
    P ops fb seen → P (ops ++ [op]) fb seen
  tone : ∀ {ops fb host} active, P ops fb (see host) → P ops fb (see (Host.setTone active host))

def completed (m : Machine π) (n : Nat) : List Opcode :=
  (m.entries n).reverse.map fun entry => entry.snapshot.instruction.opcode

theorem completed_completed {m' : Machine π} {t : Trace} (loaded : m.state.isLoaded = true)
    (once : (chip8 π).stepOnce m = (.ok t, m')) (n : Nat) :
    m.completed (n + 1) = t.instruction.opcode :: m'.completed n := by
  simp [completed, entries_completed loaded once]

theorem completed_failed {m' : Machine π} {f : Fault} (loaded : m.state.isLoaded = true)
    (once : (chip8 π).stepOnce m = (.error f, m')) (n : Nat) : m.completed n = [] := by
  simp [completed, entries_failed loaded once]

theorem completed_unloaded (unloaded : ¬ m.state.isLoaded = true) (n : Nat) : m.completed n = [] := by
  simp [completed, entries_unloaded unloaded]

def turn (m : Machine π) : Turn → Machine π
  | .beat b => m.beat b
  | .load v => (loadProgram v m).2

def serve (m : Machine π) (turns : List Turn) : Machine π := turns.foldl turn m

def completedBy (m : Machine π) : Turn → List Opcode
  | .beat (.step count) => m.completed count.toNat
  | .beat .tick | .load _ => []

def served (m : Machine π) : List Turn → List Opcode
  | [] => []
  | t :: turns => m.completedBy t ++ (m.turn t).served turns

theorem serve_cons (m : Machine π) (t : Turn) (turns : List Turn) : m.serve (t :: turns) = (m.turn t).serve turns := rfl

theorem turn_sound (h : m.Sound) (t : Turn) : (m.turn t).Sound := by
  cases t with
  | beat b => exact beat_sound h b
  | load v => exact loadProgram_sound h v

theorem serve_sound (h : m.Sound) (turns : List Turn) : (m.serve turns).Sound := by
  induction turns generalizing m with
  | nil => exact h
  | cons t turns ih => exact ih (turn_sound h t)

omit [Host π] in
theorem shown_loadProgram (see : π → γ) (h : m.Sound) (v : Value) : (loadProgram v m).2.shown see = m.shown see := by
  cases read : imageOfValue v with
  | error why => rw [loadProgram_rejected read]
  | ok image =>
    rw [loadProgram, read]
    cases refused : imageFault? image with
    | some why => simp only [loadImage_rejected refused]
    | none =>
      simp only [loadImage_accepted h.bus refused]
      rfl

section invariant

variable {P : List Opcode → Framebuffer → γ → Prop} {ops : List Opcode} (inv : DisplayInvariant see P)
include inv

theorem DisplayInvariant.redrawn {m' : Machine π} {op : Option Opcode} (step : Redrawn see m m' op)
    (h : P ops m.state.screen (see m.host)) : P (ops ++ op.toList) m'.state.screen (see m'.host) := by
  cases step with
  | clear dark told =>
    rw [dark, told]
    exact inv.clear h
  | draw told =>
    rw [told]
    exact inv.draw _ h
  | other noClear noDraw same =>
    obtain ⟨screen, seen⟩ := Prod.mk.inj same
    rw [screen, seen]
    cases op with
    | none => simpa using h
    | some op =>
      refine inv.other op (fun same => noClear ?_) (fun same => noDraw ?_) h
      · rw [same]
      · rw [same]

theorem DisplayInvariant.stepMany (sound : m.Sound) (loaded : m.state.isLoaded = true) (n : Nat) (last : Option Trace)
    (h : P ops m.state.screen (see m.host)) :
    P (ops ++ m.completed n) ((chip8 π).stepMany n last m).2.state.screen
      (see ((chip8 π).stepMany n last m).2.host) := by
  induction n generalizing ops last m with
  | zero =>
    have none : ops ++ m.completed 0 = ops := List.append_nil _
    rw [none]
    exact h
  | succ n ih =>
    have next := stepOnce_sound sound
    rcases stepOnce_redrawn inv.asked sound with ⟨f, m', once, step⟩ | ⟨t, m', once, step⟩
    · rw [completed_failed loaded once, stepMany_failed once]
      exact inv.redrawn step h
    · rw [once] at next
      rw [completed_completed loaded once, stepMany_completed once, List.append_cons]
      exact ih next (isLoaded_of_completed loaded once) (some t) (inv.redrawn step h)

theorem DisplayInvariant.turn (sound : m.Sound) (t : Turn) (h : P ops m.state.screen (see m.host)) :
    P (ops ++ m.completedBy t) (m.turn t).state.screen (see (m.turn t).host) := by
  cases t with
  | beat b =>
    cases b with
    | step count =>
      show P (ops ++ m.completed count.toNat) (step count m).2.state.screen (see (step count m).2.host)
      rw [step_eq]
      split
      · exact inv.stepMany sound ‹_› _ none h
      · rw [completed_unloaded ‹_›, List.append_nil]
        exact h
    | tick =>
      show P (ops ++ []) m.tick.state.screen (see m.tick.host)
      rw [List.append_nil, tick_eq]
      dsimp only
      split
      · exact inv.tone _ h
      · exact h
  | load v =>
    obtain ⟨screen, seen⟩ := Prod.mk.inj (shown_loadProgram see sound v)
    show P (ops ++ []) (loadProgram v m).2.state.screen (see (loadProgram v m).2.host)
    rw [List.append_nil, screen, seen]
    exact h

theorem DisplayInvariant.serve (sound : m.Sound) (turns : List Turn) (h : P ops m.state.screen (see m.host)) :
    P (ops ++ m.served turns) (m.serve turns).state.screen (see (m.serve turns).host) := by
  induction turns generalizing ops m with
  | nil => simpa [served, Machine.serve] using h
  | cons t turns ih =>
    rw [serve_cons, served, ← List.append_assoc]
    exact ih (turn_sound sound t) (inv.turn sound t h)

theorem DisplayInvariant.reset (memory : m.bus.IsMemory) (turns : List Turn)
    (h : P [] Framebuffer.screen (see m.host)) :
    let start := (Machine.reset m).2
    P (start.served turns) (start.serve turns).state.screen (see (start.serve turns).host) := by
  intro start
  have dark : P [] start.state.screen (see start.host) := by
    simp only [start, reset_eq memory]
    exact h
  exact inv.serve (reset_sound memory) turns dark

end invariant

theorem unasked_outputs : Unasked (Recorded.outputs (π := π)) where
  isPressed _ _ := rfl
  waitKey _ := rfl
  randomByte _ := rfl

theorem displayInvariant_outputs (earlier : List Output) :
    DisplayInvariant (Recorded.outputs (π := π)) fun ops fb outputs =>
      ∃ told, outputs = earlier ++ told ∧ Displayed ops told fb where
  asked := unasked_outputs
  clear := by
    rintro ops fb host ⟨told, outputs, shown⟩
    refine ⟨told ++ [Output.clear, Output.render fb.clear], ?_, shown.clear⟩
    show (host.outputs ++ [Output.clear]) ++ [Output.render fb.clear] = _
    simp [outputs]
  draw := by
    rintro ops fb host fb' ⟨told, outputs, shown⟩
    refine ⟨told ++ [Output.render fb'], ?_, shown.draw fb'⟩
    show host.outputs ++ [Output.render fb'] = _
    simp [outputs]
  other := by
    rintro ops fb outputs op noClear noDraw ⟨told, same, shown⟩
    exact ⟨told, same, shown.other op noClear noDraw⟩
  tone := by
    rintro ops fb host active ⟨told, outputs, shown⟩
    refine ⟨told ++ [Output.tone active], ?_, shown.tone active⟩
    show host.outputs ++ [Output.tone active] = _
    simp [outputs]

theorem unasked_display : Unasked Peripherals.display where
  isPressed key p := by
    show (p.isPressed key).2.display = p.display
    unfold Peripherals.isPressed
    split <;> rfl
  waitKey p := by
    show p.waitKey.2.display = p.display
    unfold Peripherals.waitKey
    split
    · rfl
    · dsimp only
      split <;> rfl
    · rfl
  randomByte p := by
    show p.randomByte.2.display = p.display
    unfold Peripherals.randomByte
    split <;> rfl

/-- A display that is a console, which writes pixels as another does and keeps this frame. -/
def KeepsFrame (c : Console) (frame : Option String) (display : Display) : Prop :=
  ∃ c' : Console, display = .console c' ∧ c'.on = c.on ∧ c'.off = c.off ∧ c'.lastFrame = frame

theorem keepsFrame_render {c : Console} {frame : Option String} {p : Peripherals} (h : KeepsFrame c frame p.display)
    (fb : Framebuffer) : KeepsFrame c (some (fb.toText c.on c.off)) (p.render fb).display := by
  obtain ⟨c', display, on, off, -⟩ := h
  refine ⟨(c'.render fb).1, ?_, on, off, ?_⟩
  · rw [Peripherals.render, display]
    rfl
  · rw [← on, ← off]
    rfl

theorem keepsFrame_clear {c : Console} {frame : Option String} {p : Peripherals} (h : KeepsFrame c frame p.display) :
    KeepsFrame c none p.clearDisplay.display := by
  obtain ⟨c', display, on, off, -⟩ := h
  refine ⟨c'.clear.1, ?_, on, off, rfl⟩
  rw [Peripherals.clearDisplay, display]
  rfl

theorem keepsFrame_setTone {c : Console} {frame : Option String} {p : Peripherals} (h : KeepsFrame c frame p.display)
    (active : Bool) : KeepsFrame c frame (p.setTone active).display := by
  have same : (p.setTone active).display = p.display := by
    unfold Peripherals.setTone
    split
    · rfl
    · rfl
    · split
      · rfl
      · split <;> rfl
  rw [same]
  exact h

def keptFrame (c : Console) (ops : List Opcode) (fb : Framebuffer) : Option String :=
  if Opcode.clearScreen ∈ ops ∨ Opcode.draw ∈ ops then some (fb.toText c.on c.off) else c.lastFrame

theorem displayInvariant_keptFrame (c : Console) :
    DisplayInvariant Peripherals.display fun ops fb display => KeepsFrame c (keptFrame c ops fb) display where
  asked := unasked_display
  clear := by
    intro ops fb p h
    rw [keptFrame, if_pos (.inl (List.mem_append_right ops (List.mem_singleton_self _)))]
    exact keepsFrame_render (keepsFrame_clear h) fb.clear
  draw := by
    intro ops fb p fb' h
    rw [keptFrame, if_pos (.inr (List.mem_append_right ops (List.mem_singleton_self _)))]
    exact keepsFrame_render h fb'
  other := by
    intro ops fb display op noClear noDraw h
    have same : keptFrame c (ops ++ [op]) fb = keptFrame c ops fb := by
      simp only [keptFrame, List.mem_append, List.mem_singleton, noClear.symm, noDraw.symm, or_false]
    rw [same]
    exact h
  tone active h := keepsFrame_setTone h active

/-- **The display.** In every run from a reset, whatever in it succeeds or fails, the screen is the frame that the
display was last given, and dark if it was given none. The display is given a frame for each clear and for each draw
that is executed, and cleared for each clear, right before that frame; neither of the two can fail. So a new console
that keeps a frame keeps the screen as text, and any console does once one of the two is executed. -/
theorem display_shows_screen (m : Machine (Recorded π)) (memory : m.bus.IsMemory) (turns : List Turn) :
    (let start := (reset m).2
      let now := start.serve turns
      let ops := start.served turns
      ∃ told, now.host.outputs = m.host.outputs ++ told ∧
        now.state.screen = (Output.frames told).getLast?.getD Framebuffer.screen ∧
        (Output.frames told).length = ops.count .clearScreen + ops.count .draw ∧
        Output.clears told = ops.count .clearScreen ∧
        (∀ before after, told = before ++ Output.clear :: after → ∃ fb later, after = .render fb :: later) ∧
        ∀ w, (execute ⟨.clearScreen, w⟩ now).1 = .ok () ∧ (execute ⟨.draw, w⟩ now).1 = .ok ()) ∧
    ∀ (m : Machine Peripherals) (c : Console), m.bus.IsMemory → m.host.display = .console c →
      let start := (reset m).2
      let now := start.serve turns
      let ops := start.served turns
      ∃ c', now.host.display = .console c' ∧
        (c.lastFrame = none → ∀ frame, c'.lastFrame = some frame → frame = now.state.screen.toText c.on c.off) ∧
        (Opcode.clearScreen ∈ ops ∨ Opcode.draw ∈ ops →
          c'.lastFrame = some (now.state.screen.toText c.on c.off)) := by
  constructor
  · intro start now ops
    obtain ⟨told, outputs, shown⟩ := (displayInvariant_outputs m.host.outputs).reset memory turns
      ⟨[], (List.append_nil _).symm, .dark⟩
    have sound : now.Sound := serve_sound (reset_sound memory) turns
    refine ⟨told, outputs, shown.screen, shown.renders, shown.clears, shown.paired, fun w => ⟨rfl, ?_⟩⟩
    obtain ⟨m', drawn, -⟩ := perform_draw sound.bus sound.state.screen w
    exact congrArg Prod.fst drawn
  · intro m c memory display start now ops
    have before : KeepsFrame c (keptFrame c [] Framebuffer.screen) m.host.display := ⟨c, display, rfl, rfl, rfl⟩
    obtain ⟨c', console, -, -, kept⟩ := (displayInvariant_keptFrame c).reset memory turns before
    refine ⟨c', console, fun unshown frame last => ?_, fun shown => kept.trans (if_pos shown)⟩
    rw [kept, keptFrame, unshown, Option.ite_none_right_eq_some] at last
    exact (Option.some.inj last.2).symm

/-- A program that clears the screen and draws the glyph of zero. -/
def glyphOfZero : List UInt8 := [0x00, 0xE0, 0xD0, 0x05]

theorem completed_glyphOfZero (fresh : m.Represents (Reference.fresh glyphOfZero)) :
    m.completed 5 = [.clearScreen, .draw] := by
  have short : glyphOfZero.length ≤ 3584 := by decide
  have bounded := Reference.fresh_bounded short
  obtain ⟨loaded, t, m₁, first, clear, fresh₁, bounded₁⟩ := stepOnce_fresh fresh bounded short rfl rfl (k := 0) rfl
    (by decide) rfl (Opcode.fits_of_ofWord? (show Opcode.ofWord? 0x00E0 = some .clearScreen by decide)) rfl
  obtain ⟨r₂, row, pc, programEnd⟩ : ∃ r₂, Reference.row .draw 0xD005 (Answers.ofHost m₁.host)
      { Reference.fresh glyphOfZero with pc := 0x204, pixel := fun _ _ => false } = .ok r₂ ∧
        r₂.pc = 0x204 ∧ r₂.programEnd = 0x204 := ⟨_, rfl, rfl, rfl⟩
  obtain ⟨loaded₁, t₁, m₂, second, draw, fresh₂, -⟩ := stepOnce_fresh fresh₁ bounded₁ short rfl rfl (k := 2) rfl
    (by decide) rfl (Opcode.fits_of_ofWord? (show Opcode.ofWord? 0xD005 = some .draw by decide)) row
  have outside : ¬ r₂.Inside := by
    rintro ⟨-, high⟩
    omega
  rw [completed_completed loaded first, completed_completed loaded₁ second,
    completed_failed (isLoaded_of_completed loaded₁ second) (stepOnce_outside fresh₂ outside), clear, draw]

def glyphTurns : List Turn := [.load (.list [.int 0x00, .int 0xE0, .int 0xD0, .int 0x05]), .beat (.step 5)]

theorem served_glyphTurns (fresh : (loadImage glyphOfZero m).2.Represents (Reference.fresh glyphOfZero)) :
    m.served glyphTurns = [.clearScreen, .draw] := by
  have read : imageOfValue (.list [.int 0x00, .int 0xE0, .int 0xD0, .int 0x05]) = .ok glyphOfZero := by rfl
  have loaded : (loadProgram (.list [.int 0x00, .int 0xE0, .int 0xD0, .int 0x05]) m).2 =
      (loadImage glyphOfZero m).2 := by rw [loadProgram, read]
  have five : (5 : Int).toNat = 5 := rfl
  simp only [glyphTurns, served, completedBy, turn, loaded, five, completed_glyphOfZero fresh, List.nil_append,
    List.append_nil]

theorem served_glyphTurns_reset (host : π) :
    (reset { state := {}, bus := Bus.flat memorySize, host : Machine π }).2.served glyphTurns =
      [.clearScreen, .draw] := by
  have fresh := (loadImage_powerOn host (show imageFault? glyphOfZero = none by decide)).1
  have power : powerOn host = (reset { state := {}, bus := Bus.flat memorySize, host }).2 := by rw [powerOn_def]
  rw [power] at fresh
  exact served_glyphTurns fresh

/-- On a recording host the program is given two frames, and on a console the screen is shown as text. -/
theorem display_shows_screen_glyphOfZero :
    let m : Machine (Recorded Unit) := { state := {}, bus := Bus.flat memorySize, host := { host := () } }
    let now := (reset m).2.serve glyphTurns
    let p : Machine Peripherals := { state := {}, bus := Bus.flat memorySize, host := { display := .console {} } }
    let shown := (reset p).2.serve glyphTurns
    (∃ told, now.host.outputs = [] ++ told ∧ (Output.frames told).length = 2 ∧ Output.clears told = 1 ∧
      now.state.screen = (Output.frames told).getLast?.getD Framebuffer.screen) ∧
      ∃ c, shown.host.display = .console c ∧ c.lastFrame = some (shown.state.screen.toText "█" " ") := by
  have memory : (Bus.flat memorySize).IsMemory := by
    rw [Bus.flat_eq_ofMemory]
    exact Bus.isMemory_ofMemory _ _
  have ops := served_glyphTurns_reset ({ host := () } : Recorded Unit)
  have ops' := served_glyphTurns_reset ({ display := .console {} } : Peripherals)
  generalize Bus.flat memorySize = bus at memory ops ops' ⊢
  obtain ⟨m, recording⟩ : ∃ m : Machine (Recorded Unit), m = { state := {}, bus, host := { host := () } } := ⟨_, rfl⟩
  obtain ⟨p, console⟩ : ∃ p : Machine Peripherals, p = { state := {}, bus, host := { display := .console {} } } :=
    ⟨_, rfl⟩
  have blank : m.host.outputs = [] := by rw [recording]
  have memory₁ : m.bus.IsMemory := by
    rw [recording]
    exact memory
  have memory₂ : p.bus.IsMemory := by
    rw [console]
    exact memory
  have display : p.host.display = .console {} := by rw [console]
  rw [← recording] at ops
  rw [← console] at ops'
  rw [← recording, ← console]
  intro _ now _ shown
  obtain ⟨⟨told, outputs, screen, renders, clears, -⟩, consoles⟩ := display_shows_screen m memory₁ glyphTurns
  rw [ops] at renders clears
  rw [blank] at outputs
  obtain ⟨c, displayed, -, kept⟩ := consoles p {} memory₂ display
  rw [ops'] at kept
  exact ⟨⟨told, outputs, renders, clears, screen⟩, c, displayed, kept (.inl List.mem_cons_self)⟩

end Machine

end Chip8
