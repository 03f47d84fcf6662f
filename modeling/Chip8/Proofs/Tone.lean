import Chip8.Proofs.Programs
import Chip8.Proofs.Recording

/-! The tone and the sound timer. A tick reports whether the timer still runs, but only if it ran before; a step
reports nothing. So the tone follows the timer (`tone_of_tick`) until a program stops the timer itself, which
leaves the tone on (`tone_outlasts_sound`). -/

namespace Chip8

/-- What a run of a machine is made of. -/
inductive Beat
  | step (count : Int)
  | tick
  deriving DecidableEq

namespace Reference

def ticked (timer : UInt8) : UInt8 := if timer = 0 then 0 else timer - 1

def tick (r : Reference) : Reference := { r with delay := ticked r.delay, sound := ticked r.sound }

theorem toNat_ticked {timer : UInt8} {z : Int} (h : z = timer.toNat) :
    (if 0 < z then z - 1 else z) = (ticked timer).toNat := by
  subst h
  unfold ticked
  by_cases stopped : timer = 0
  · subst stopped
    rfl
  · have running : timer.toNat ≠ 0 := fun zero => stopped (UInt8.toNat_inj.1 zero)
    have one : (1 : UInt8) ≤ timer := UInt8.le_iff_toNat_le.2 (Nat.pos_of_ne_zero running)
    have left : (timer - 1).toNat = timer.toNat - 1 := UInt8.toNat_sub_of_le _ _ one
    rw [if_pos (by omega), if_neg stopped, left]
    omega

end Reference

namespace Machine

variable {π : Type} [Host π]

def beat (m : Machine π) : Beat → Machine π
  | .step count => (step count m).2
  | .tick => m.tick

/-- The machine after a run, whatever in it succeeded or failed. -/
def play (m : Machine π) (beats : List Beat) : Machine π := beats.foldl beat m

theorem beat_step (m : Machine π) (count : Int) : m.beat (.step count) = (step count m).2 := rfl

theorem beat_tick (m : Machine π) : m.beat .tick = m.tick := rfl

theorem play_nil (m : Machine π) : m.play [] = m := rfl

theorem play_cons (m : Machine π) (b : Beat) (beats : List Beat) :
    m.play (b :: beats) = (m.beat b).play beats := rfl

theorem Represents.tick {m : Machine π} {r : Reference} (h : m.Represents r) :
    m.tick.Represents r.tick := by
  rw [tick_eq]
  refine ⟨{ h.state with delay := ?_, sound := ?_ }, h.bus⟩
  · exact Reference.toNat_ticked h.state.delay
  · exact Reference.toNat_ticked h.state.sound

/-- No step of a run stops a running sound timer. -/
def Unsilenced (m : Machine π) : List Beat → Prop
  | [] => True
  | .step count :: beats =>
    (m.state.sound ≠ 0 → (step count m).2.state.sound ≠ 0) ∧ Unsilenced (step count m).2 beats
  | .tick :: beats => Unsilenced m.tick beats

theorem beat_sound {m : Machine π} (h : m.Sound) (b : Beat) : (m.beat b).Sound := by
  cases b with
  | step count => exact step_sound count h
  | tick => exact tick_sound h

theorem play_sound {m : Machine π} (h : m.Sound) (beats : List Beat) : (m.play beats).Sound := by
  induction beats generalizing m with
  | nil => exact h
  | cons b beats ih => exact ih (beat_sound h b)

theorem sound_tick {m : Machine π} (h : m.Sound) : m.tick.state.sound = max 0 (m.state.sound - 1) := by
  have low := h.state.sound.1
  rw [tick_eq]
  dsimp only
  split <;> omega

/-- The tones that a machine has reported. -/
def tones (m : Machine (Recorded π)) : List Bool := m.host.tones

/-- The tone as last reported; it is off before the first report. -/
def toneOn (m : Machine (Recorded π)) : Bool := m.tones.getLast?.getD false

variable {m : Machine (Recorded π)}

theorem tones_step (count : Int) (m : Machine (Recorded π)) : (step count m).2.tones = m.tones :=
  step_unseen Recorded.toneOnly_tones count m

theorem toneOn_step (count : Int) (m : Machine (Recorded π)) : (step count m).2.toneOn = m.toneOn := by
  rw [toneOn, tones_step, toneOn]

theorem tones_tick_silent (silent : m.state.sound = 0) : m.tick.tones = m.tones := by
  have stopped : ¬ 0 < m.state.sound := by omega
  rw [tick_eq, tones, tones]
  dsimp only
  rw [if_neg stopped]

theorem tones_tick_sounding (h : m.Sound) (sounding : m.state.sound ≠ 0) :
    m.tick.tones = m.tones ++ [decide (m.tick.state.sound ≠ 0)] := by
  have low := h.state.sound.1
  have running : 0 < m.state.sound := by omega
  have left : m.tick.state.sound = m.state.sound - 1 := by
    rw [sound_tick h]
    omega
  rw [left, tick_eq, tones, tones]
  dsimp only
  rw [if_pos running]
  show (Recorded.tell _ _ m.host).tones = _
  rw [Recorded.tones_tell]
  by_cases last : m.state.sound - 1 = 0
  · simp [last, Output.tone?]
  · simp [last, Output.tone?]

theorem toneOn_tick_iff (h : m.Sound) :
    m.tick.toneOn = true ↔
      m.tick.state.sound ≠ 0 ∨ (m.state.sound = 0 ∧ m.toneOn = true) := by
  by_cases silent : m.state.sound = 0
  · have stopped : m.tick.state.sound = 0 := by
      rw [sound_tick h, silent]
      rfl
    rw [toneOn, tones_tick_silent silent]
    simp [stopped, silent, toneOn]
  · rw [toneOn, tones_tick_sounding h silent]
    simp [silent]

/-- While no step stops the timer, a tone that is on has a running timer. -/
theorem sound_of_toneOn {beats : List Beat} (h : m.Sound) (unsilenced : m.Unsilenced beats)
    (follows : m.toneOn = true → m.state.sound ≠ 0) (on : (m.play beats).toneOn = true) :
    (m.play beats).state.sound ≠ 0 := by
  -- The invariant is `follows`: steps keep it by not stopping the timer, ticks by reporting that they do.
  induction beats generalizing m with
  | nil => exact follows on
  | cons b beats ih =>
    rw [play_cons] at on ⊢
    cases b with
    | step count =>
      refine ih (step_sound count h) unsilenced.2 ?_ on
      rw [beat_step, toneOn_step]
      exact fun heard => unsilenced.1 (follows heard)
    | tick =>
      refine ih (tick_sound h) unsilenced ?_ on
      rw [beat_tick, toneOn_tick_iff h]
      rintro (running | ⟨silent, heard⟩)
      · exact running
      · exact absurd silent (follows heard)

/-- **The tone.** In every run of a fresh machine with a program, steps report no tone, and a tick reports
one if it finds the sound timer running: whether it still runs. So after a tick the tone is on where the
timer runs, and else only where the tick found the timer stopped and the tone on. Where no step of the run
stops a running timer, the tone is on after a tick exactly if the timer runs. -/
theorem tone_of_tick (host : π) (image : List UInt8) (beats : List Beat) :
    let start : Machine (Recorded π) := (loadImage image (powerOn { host })).2
    let m := start.play beats
    (∀ count, (step count m).2.tones = m.tones) ∧
    m.tick.tones = m.tones ++ (if m.state.sound = 0 then [] else [decide (m.tick.state.sound ≠ 0)]) ∧
    (m.tick.toneOn = true ↔
      m.tick.state.sound ≠ 0 ∨ (m.state.sound = 0 ∧ m.toneOn = true)) ∧
    (start.Unsilenced beats → (m.tick.toneOn = true ↔ m.tick.state.sound ≠ 0)) := by
  intro start m
  have startSound : start.Sound := loadImage_sound (powerOn_sound _) image
  have silence : start.toneOn = false := by
    rw [toneOn, tones, host_loadImage_powerOn]
    rfl
  have sound : m.Sound := play_sound startSound beats
  have heard : start.Unsilenced beats → m.toneOn = true → m.state.sound ≠ 0 := fun unsilenced on =>
    sound_of_toneOn startSound unsilenced (fun early => by rw [silence] at early; cases early) on
  clear_value m
  have after := toneOn_tick_iff sound
  refine ⟨fun count => tones_step count m, ?_, after, fun unsilenced => ?_⟩
  · split
    · rename_i silent
      rw [tones_tick_silent silent, List.append_nil]
    · rename_i sounding
      exact tones_tick_sounding sound sounding
  · rw [after]
    constructor
    · rintro (running | ⟨silent, on⟩)
      · exact running
      · exact absurd silent (heard unsilenced on)
    · exact .inl

/-- A program that sets the sound timer to two and then stops it. -/
def beep : List UInt8 := [0x60, 0x02, 0xF0, 0x18, 0xF1, 0x18]

/-- The machines of its run. -/
theorem beep_run (host : π) :
    let m := (loadImage beep (powerOn host)).2
    let m₁ := (step 1 m).2
    let m₂ := (step 1 m₁).2
    let m₃ := (step 1 m₂.tick).2
    m.state.sound = 0 ∧ m₁.state.sound = 0 ∧ m₂.state.sound = 2 ∧ m₃.state.sound = 0 := by
  intro m m₁ m₂ m₃
  have short : beep.length ≤ 3584 := by decide
  have loaded : m.Represents (Reference.fresh beep) := (loadImage_powerOn host (by decide)).1
  clear_value m
  let r₁ : Reference := { Reference.fresh beep with pc := 0x202, v := Function.update (fun _ => 0) 0 2 }
  let r₂ : Reference := { r₁ with pc := 0x204, sound := 2 }
  let r₃ : Reference := { r₂.tick with pc := 0x206, sound := 0 }
  have bounded : (Reference.fresh beep).Bounded := Reference.fresh_bounded short
  have first : m₁.Represents r₁ ∧ r₁.Bounded :=
    step_one_fresh loaded bounded short (k := 0) rfl rfl rfl (by decide) rfl
      (Opcode.fits_of_ofWord? (show _ = some .loadByte by decide)) rfl
  clear_value m₁
  have second : m₂.Represents r₂ ∧ r₂.Bounded :=
    step_one_fresh first.1 first.2 short (k := 2) rfl rfl rfl (by decide) rfl
      (Opcode.fits_of_ofWord? (show _ = some .setSound by decide)) rfl
  clear_value m₂
  have bounded₃ : r₂.tick.Bounded := { second.2 with }
  have third : m₃.Represents r₃ ∧ r₃.Bounded :=
    step_one_fresh second.1.tick bounded₃ short (k := 4) rfl rfl rfl (by decide) rfl
      (Opcode.fits_of_ofWord? (show _ = some .setSound by decide)) rfl
  clear_value m₃
  exact ⟨loaded.state.sound, first.1.state.sound, second.1.state.sound, third.1.state.sound⟩

/-- Two steps set the timer, and the tick after them turns the tone on. -/
theorem tone_of_tick_beep :
    let start : Machine (Recorded Unit) := (loadImage beep (powerOn { host := () })).2
    let m := start.play [.step 1, .step 1]
    start.Unsilenced [.step 1, .step 1] ∧ m.tick.state.sound = 1 ∧ m.tick.toneOn = true := by
  have run := beep_run ({ host := () } : Recorded Unit)
  have follows := tone_of_tick () beep [.step 1, .step 1]
  have startSound := loadImage_sound (powerOn_sound ({ host := () } : Recorded Unit)) beep
  generalize (loadImage beep (powerOn ({ host := () } : Recorded Unit))).2 = start at run follows startSound ⊢
  dsimp only at run follows ⊢
  obtain ⟨zero, one, two, -⟩ := run
  have unsilenced : start.Unsilenced [.step 1, .step 1] :=
    ⟨fun running => absurd zero running, fun running => absurd one running, trivial⟩
  have left : (start.play [.step 1, .step 1]).tick.state.sound = 1 := by
    rw [sound_tick (play_sound startSound _), play_cons, beat_step, play_cons, beat_step, play_nil, two]
    rfl
  have on : (start.play [.step 1, .step 1]).tick.toneOn = true := by
    rw [follows.2.2.2 unsilenced, left]
    decide
  exact ⟨unsilenced, left, on⟩

/-- Another step stops the timer, and the next tick leaves the tone on. -/
theorem tone_outlasts_sound :
    let start : Machine (Recorded Unit) := (loadImage beep (powerOn { host := () })).2
    let m := start.play [.step 1, .step 1, .tick, .step 1]
    m.tick.toneOn = true ∧ m.tick.state.sound = 0 := by
  have run := beep_run ({ host := () } : Recorded Unit)
  have startSound := loadImage_sound (powerOn_sound ({ host := () } : Recorded Unit)) beep
  generalize (loadImage beep (powerOn ({ host := () } : Recorded Unit))).2 = start at run startSound ⊢
  dsimp only at run ⊢
  obtain ⟨-, -, two, stopped⟩ := run
  rw [play_cons, beat_step, play_cons, beat_step, play_cons, beat_tick, play_cons, beat_step, play_nil]
  have before : Sound (step 1 (step 1 start).2).2 := step_sound 1 (step_sound 1 startSound)
  generalize (step 1 (step 1 start).2).2 = m at two stopped before ⊢
  have on : (step 1 m.tick).2.toneOn = true := by
    rw [toneOn_step, toneOn_tick_iff before, sound_tick before, two]
    exact .inl (by decide)
  have after : Sound (step 1 m.tick).2 := step_sound 1 (tick_sound before)
  constructor
  · rw [toneOn_tick_iff after]
    exact .inr ⟨stopped, on⟩
  · rw [sound_tick after, stopped]
    rfl

end Machine

end Chip8
