import Chip8.Pacing
import Chip8.Proofs.Tone

/-! Many ticks in a row, in closed form. The two timers run out apart from each other, and the tone is reported once
for each tick of a running sound timer: on, and off at the tick that stops it (`tickMany_eq`). Frames without a
program are ticks and nothing else (`ticks_exact`). -/

namespace Chip8

namespace Machine

/-- A timer after so many ticks. One below zero, where no program can set it, stays. -/
def lapsed (timer : Int) (ticks : Nat) : Int := if timer < 0 then timer else max 0 (timer - ticks)

/-- The tones that so many ticks report of a sound timer: one for each tick that finds it running, all of them on
but the one of the tick that stops it. -/
def countdown (sound ticks : Nat) : List Bool := (List.range (min ticks sound)).map fun k => k + 1 != sound

theorem lapsed_succ (timer : Int) (n : Nat) :
    lapsed timer (n + 1) = lapsed (if 0 < timer then timer - 1 else timer) n := by
  unfold lapsed
  by_cases running : 0 < timer
  · rw [if_pos running, if_neg (show ¬ timer < 0 by omega), if_neg (show ¬ timer - 1 < 0 by omega)]
    omega
  · rw [if_neg running]
    split <;> omega

theorem countdown_zero (n : Nat) : countdown 0 n = [] := by
  rw [countdown, Nat.min_zero]
  rfl

theorem countdown_succ (sound n : Nat) : countdown (sound + 1) (n + 1) = (sound != 0) :: countdown sound n := by
  have first : (0 + 1 != sound + 1) = (sound != 0) := by cases sound <;> rfl
  have next (k : Nat) : (k + 1 + 1 != sound + 1) = (k + 1 != sound) := by simp [bne]
  rw [countdown, Nat.succ_min_succ, List.range_succ_eq_map, List.map_cons, List.map_map, first]
  simp only [Function.comp_def, Nat.succ_eq_add_one, next, countdown]

variable {π : Type} [Host π]

def sounding (h : π) (tones : List Bool) : π := tones.foldl (fun h active => Host.setTone active h) h

theorem tickMany_eq (n : Nat) (m : Machine π) :
    tickMany n m = { m with
      state := { m.state with delay := lapsed m.state.delay n, sound := lapsed m.state.sound n }
      host := sounding m.host (countdown m.state.sound.toNat n) } := by
  -- The first tick is split off: it moves both timers, and the countdown goes on from where it leaves them.
  induction n generalizing m with
  | zero =>
    have here (timer : Int) : lapsed timer 0 = timer := by unfold lapsed; split <;> omega
    rw [here, here, countdown, Nat.zero_min]
    rfl
  | succ n ih =>
    rw [tickMany, ih, tick_eq, lapsed_succ, lapsed_succ]
    by_cases running : 0 < m.state.sound
    · obtain ⟨left, counts⟩ : ∃ left : Nat, m.state.sound = left + 1 := ⟨(m.state.sound - 1).toNat, by omega⟩
      have reports : (m.state.sound - 1 != 0) = (left != 0) := by
        rw [counts, Int.add_sub_cancel]
        simp only [bne, Bool.beq_eq_decide_eq, Int.natCast_eq_zero]
      have before : m.state.sound.toNat = left + 1 := by omega
      have behind : (m.state.sound - 1).toNat = left := by omega
      simp only [if_pos running, before, behind, reports, countdown_succ]
      rfl
    · have stopped : m.state.sound.toNat = 0 := by omega
      simp only [if_neg running, stopped, countdown_zero]

theorem sounding_recorded (r : Recorded π) (tones : List Bool) :
    sounding r tones = { host := sounding r.host tones, outputs := r.outputs ++ tones.map Output.tone } := by
  induction tones generalizing r with
  | nil => simp [sounding]
  | cons active tones ih =>
    have told : sounding r (active :: tones) = sounding (r.tell (.tone active) (Host.setTone active)) tones := rfl
    have kept : (r.tell (.tone active) (Host.setTone active)).outputs = r.outputs ++ [Output.tone active] := rfl
    rw [told, ih, kept, List.append_assoc]
    rfl

theorem isLoaded_tick (m : Machine π) : m.tick.state.isLoaded = m.state.isLoaded := by
  rw [tick_eq]
  rfl

end Machine

namespace Paced

variable {τ π : Type} [Host π]

theorem runFrames_unloaded (n : Nat) {m : Machine π} (unloaded : m.state.isLoaded = false) (p : Pacer τ) :
    runFrames n none ⟨m, p⟩ =
      (.ok none, ⟨Machine.tickMany n m, { p with frameCount := p.frameCount + n }⟩) := by
  induction n generalizing m p with
  | zero => rfl
  | succ n ih =>
    have idle : Machine.step p.instructionsPerFrame m = (.ok none, m) := by
      rw [Machine.step_eq, if_neg (by simp [unloaded])]
    have frame : runFrame (⟨m, p⟩ : Paced τ π) =
        (.ok none, ⟨m.tick, { p with frameCount := p.frameCount + 1 }⟩) := by
      simp only [runFrame, idle]
    have later := ih (m.isLoaded_tick.trans unloaded) { p with frameCount := p.frameCount + 1 }
    rw [runFrames, Action.bind_ok frame, later, Nat.add_assoc, Nat.add_comm 1 n]
    rfl

end Paced

/-- **Ticks in closed form.** After so many ticks each timer is down by their number, but not below zero; the host
has been told one tone for each tick up to the one that stops the sound timer, all of them on but the last of those;
and nothing else of the machine has changed. Without a program, so many frames do exactly that and answer with no
snapshot. -/
theorem Machine.ticks_exact {τ π : Type} [Host π] (m : Machine (Recorded π)) (n : Nat) :
    let told := (List.range (min n m.state.sound.toNat)).map fun k => k + 1 != m.state.sound.toNat
    tickMany n m = { m with
      state := { m.state with
        delay := if m.state.delay < 0 then m.state.delay else max 0 (m.state.delay - n)
        sound := if m.state.sound < 0 then m.state.sound else max 0 (m.state.sound - n) }
      host := {
        host := told.foldl (fun h active => Host.setTone active h) m.host.host
        outputs := m.host.outputs ++ told.map Output.tone } } ∧
    (m.state.isLoaded = false → ∀ p : Pacer τ,
      Paced.runFrames n none ⟨m, p⟩ = (.ok none, ⟨tickMany n m, { p with frameCount := p.frameCount + n }⟩)) := by
  intro told
  constructor
  · rw [tickMany_eq, sounding_recorded]
    rfl
  · exact fun unloaded p => Paced.runFrames_unloaded n unloaded p

/-- Four frames without a program, with the sound timer at two and the delay timer at five. -/
theorem Machine.ticks_exact_unloaded :
    let m : Machine (Recorded Unit) := { powerOn { host := () } with state := { delay := 5, sound := 2 } }
    m.state.isLoaded = false ∧
    (tickMany 4 m).state = { delay := 1, sound := 0 } ∧
    (tickMany 4 m).host.outputs = m.host.outputs ++ [Output.tone true, Output.tone false] ∧
    ∀ p : Pacer Rat, Paced.runFrames 4 none ⟨m, p⟩ =
      (.ok none, ⟨tickMany 4 m, { p with frameCount := p.frameCount + 4 }⟩) := by
  obtain ⟨start, eq⟩ : ∃ start, start = powerOn ({ host := () } : Recorded Unit) := ⟨_, rfl⟩
  rw [← eq]
  intro m
  have unloaded : m.state.isLoaded = false := rfl
  obtain ⟨ticks, frames⟩ := ticks_exact (τ := Rat) m 4
  refine ⟨unloaded, ?_, ?_, frames unloaded⟩
  · rw [ticks]
    rfl
  · rw [ticks]
    rfl

end Chip8
