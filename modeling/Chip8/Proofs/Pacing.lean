import Chip8.Pacing
import Chip8.Proofs.Programs

/-! Frame pacing by an exact clock. However the readings of a clock fall, the next deadline is never earlier than the
frames that have been run require, and at most one interval behind the last reading. So the frames never run ahead
of the clock, keep up with it as long as no lag is dropped, and are the same frames whatever calls they are spread
over (`advance_paced`). -/

namespace Chip8

/-- Frames of so many instructions: completed ones, each with one tick of the timers behind it, and failed ones,
which end with their failure. -/
inductive Machine.Framed {π : Type} [Host π] (count : Int) : Nat → Nat → Machine π → Machine π → Prop
  | start (m : Machine π) : Framed count 0 0 m m
  | completed {n f : Nat} {m m₁ m₂ : Machine π} {t : Option Trace} (before : Framed count n f m m₁)
      (run : Machine.step count m₁ = (.ok t, m₂)) : Framed count (n + 1) f m m₂.tick
  | failed {n f : Nat} {m m₁ m₂ : Machine π} {why : Fault} (before : Framed count n f m m₁)
      (run : Machine.step count m₁ = (.error why, m₂)) : Framed count n (f + 1) m m₂

theorem Machine.Framed.trans {π : Type} [Host π] {count : Int} {n f n' f' : Nat} {m m₁ m₂ : Machine π}
    (h : Framed count n f m m₁) (h' : Framed count n' f' m₁ m₂) : Framed count (n + n') (f + f') m m₂ := by
  induction h' with
  | start => exact h
  | completed _ run ih => exact (ih h).completed run
  | failed _ run ih => exact (ih h).failed run

def Pacer.period (p : Pacer Rat) : Rat := 1 / p.timerHz

structure Pacer.Positive (p : Pacer Rat) : Prop where
  instructionsPerFrame : 0 < p.instructionsPerFrame
  timerHz : 0 < p.timerHz
  maxCatchUp : 0 < p.maxCatchUp

theorem Pacer.Positive.period {p : Pacer Rat} (h : p.Positive) : 0 < p.period := by
  have hz : (0 : Rat) < p.timerHz := Int.cast_pos.2 h.timerHz
  exact one_div_pos.2 hz

theorem Pacer.Positive.period_mul {p : Pacer Rat} (h : p.Positive) : p.period * p.timerHz = 1 := by
  have hz : (p.timerHz : Rat) ≠ 0 := Int.cast_ne_zero.2 (by have := h.timerHz; omega)
  exact one_div_mul_cancel hz

theorem Pacer.make_positive {p : Pacer Rat} {instructionsPerFrame timerHz maxCatchUp : Int}
    (made : Pacer.make Rat instructionsPerFrame timerHz maxCatchUp = .ok p) :
    p.Positive ∧ p.nextFrame = none ∧ p.frameCount = 0 := by
  unfold Pacer.make at made
  split at made
  · cases made
  · split at made
    · cases made
    · split at made
      · cases made
      · cases made
        exact ⟨⟨by simp only; omega, by simp only; omega, by simp only; omega⟩, rfl, rfl⟩

namespace Paced

variable {π : Type} [Host π] {s s' : Paced Rat π} {now next : Rat}

def completed (s : Paced Rat π) (m' : Machine π) (next : Rat) : Paced Rat π where
  machine := m'.tick
  pacer := { s.pacer with frameCount := s.pacer.frameCount + 1, nextFrame := some next }

theorem runFrame_completed {t : Option Trace} {m' : Machine π}
    (run : Machine.step s.pacer.instructionsPerFrame s.machine = (.ok t, m')) :
    runFrame s = (.ok t, ⟨m'.tick, { s.pacer with frameCount := s.pacer.frameCount + 1 }⟩) := by
  rw [runFrame, run]

theorem runFrame_failed {why : Fault} {m' : Machine π}
    (run : Machine.step s.pacer.instructionsPerFrame s.machine = (.error why, m')) :
    runFrame s = (.error (.machine why), { s with machine := m' }) := by
  rw [runFrame, run]

theorem le_iff {a b : Rat} : TimeScale.le a b = true ↔ a ≤ b := decide_eq_true_iff

theorem le_false_iff {a b : Rat} : TimeScale.le a b = false ↔ b < a := by
  rw [← Bool.not_eq_true, le_iff, not_le]

theorem catchUp_early (early : now < next) (most done : Nat) : catchUp now most done next s = (.ok done, s) := by
  cases most with
  | zero => rfl
  | succ most =>
    rw [catchUp, le_false_iff.2 early]
    rfl

theorem catchUp_due (due : next ≤ now) {t : Option Trace} {m' : Machine π}
    (run : Machine.step s.pacer.instructionsPerFrame s.machine = (.ok t, m')) (most done : Nat) :
    catchUp now (most + 1) done next s =
      catchUp now most (done + 1) (next + s.pacer.period) (s.completed m' (next + s.pacer.period)) := by
  rw [catchUp, if_pos (le_iff.2 due), Action.bind_ok (runFrame_completed run)]
  rfl

theorem catchUp_failed (due : next ≤ now) {why : Fault} {m' : Machine π}
    (run : Machine.step s.pacer.instructionsPerFrame s.machine = (.error why, m')) (most done : Nat) :
    catchUp now (most + 1) done next s = (.error (.machine why), { s with machine := m' }) := by
  rw [catchUp, if_pos (le_iff.2 due), Action.bind_error (runFrame_failed run)]

/-- What catching up leaves: so many frames were completed and so many failed, and the deadline has moved by one
interval for each that was completed, from due to due. -/
structure CaughtUp (now next : Rat) (s s' : Paced Rat π) (n f : Nat) : Prop where
  pacer : s'.pacer = { s.pacer with
    frameCount := s.pacer.frameCount + n, nextFrame := some (next + n * s.pacer.period) }
  framed : Machine.Framed s.pacer.instructionsPerFrame n f s.machine s'.machine
  due : n = 0 ∨ next + n * s.pacer.period ≤ now + s.pacer.period

theorem CaughtUp.start (deadline : s.pacer.nextFrame = some next) (now : Rat) : CaughtUp now next s s 0 0 where
  pacer := by simp [← deadline]
  framed := .start s.machine
  due := .inl rfl

theorem CaughtUp.cons (due : next ≤ now) {t : Option Trace} {m' : Machine π}
    (run : Machine.step s.pacer.instructionsPerFrame s.machine = (.ok t, m')) {n f : Nat}
    (h : CaughtUp now (next + s.pacer.period) (s.completed m' (next + s.pacer.period)) s' n f) :
    CaughtUp now next s s' (n + 1) f := by
  have moved : next + s.pacer.period + n * s.pacer.period = next + (n + 1 : Nat) * s.pacer.period := by
    push_cast
    ring
  refine ⟨?_, ?_, .inr ?_⟩
  · rw [h.pacer]
    show { s.pacer with
      frameCount := s.pacer.frameCount + 1 + n, nextFrame := some (next + s.pacer.period + n * s.pacer.period) } = _
    rw [moved, Nat.add_assoc, Nat.add_comm 1 n]
  · have first : Machine.Framed s.pacer.instructionsPerFrame 1 0 s.machine m'.tick :=
      .completed (.start s.machine) run
    have all := first.trans h.framed
    rwa [Nat.add_comm 1 n, Nat.zero_add] at all
  · rw [← moved]
    rcases h.due with rfl | later
    · push_cast
      linarith
    · exact later

/-- Catching up runs the frames that are due, at most so many; or a frame fails, and that ends it. -/
theorem catchUp_spec (now : Rat) (most done : Nat) (deadline : s.pacer.nextFrame = some next) :
    (∃ n s', catchUp now most done next s = (.ok (done + n), s') ∧ CaughtUp now next s s' n 0 ∧ n ≤ most ∧
      (now < next + n * s.pacer.period ∨ n = most)) ∨
    (∃ why n s', catchUp now most done next s = (.error why, s') ∧ CaughtUp now next s s' n 1) := by
  induction most generalizing done next s with
  | zero => exact .inl ⟨0, s, rfl, .start deadline now, le_rfl, .inr rfl⟩
  | succ most ih =>
    rcases lt_or_ge now next with early | due
    · refine .inl ⟨0, s, catchUp_early early _ done, .start deadline now, Nat.zero_le _, .inl ?_⟩
      simpa using early
    · rcases run : Machine.step s.pacer.instructionsPerFrame s.machine with ⟨why | t, m'⟩
      · refine .inr ⟨.machine why, 0, _, catchUp_failed due run most done, ?_⟩
        exact { CaughtUp.start deadline now with framed := .failed (.start s.machine) run }
      · rw [catchUp_due due run]
        have deadline' : (s.completed m' (next + s.pacer.period)).pacer.nextFrame = some (next + s.pacer.period) := rfl
        rcases ih (done + 1) deadline' with ⟨n, s', later, caught, few, ended⟩ | ⟨why, n, s', later, caught⟩
        · refine .inl ⟨n + 1, s', ?_, caught.cons due run, Nat.succ_le_succ few, ?_⟩
          · rw [later, Nat.add_assoc, Nat.add_comm 1 n]
          · refine ended.imp (fun early => ?_) (congrArg Nat.succ)
            have same : (s.completed m' (next + s.pacer.period)).pacer.period = s.pacer.period := rfl
            rw [same] at early
            push_cast
            linarith
        · exact .inr ⟨why, n + 1, s', later, caught.cons due run⟩

/-- The deadline that a call starts from: the reading itself, if there was none. -/
def deadline (now : Rat) (s : Paced Rat π) : Rat := s.pacer.nextFrame.getD now

def begun (now : Rat) (s : Paced Rat π) : Paced Rat π :=
  { s with pacer := { s.pacer with nextFrame := some (s.deadline now) } }

def caughtUp (now : Rat) (s : Paced Rat π) : Except PaceFault Nat × Paced Rat π :=
  catchUp now s.pacer.maxCatchUp.toNat 0 (s.deadline now) (s.begun now)

/-- Whether a call drops lag: it has run the frames that it may run, and the next is due nevertheless. -/
def dropsLag (now : Rat) (s : Paced Rat π) : Bool :=
  (s.caughtUp now).1.toOption.isSome && (s.caughtUp now).2.pacer.nextFrame.any (TimeScale.le · now)

def fails (now : Rat) (s : Paced Rat π) : Bool := (advance now s).1.toOption.isNone

theorem advance_failed {why : PaceFault} (run : s.caughtUp now = (.error why, s')) :
    advance now s = (.error why, s') ∧ s.dropsLag now = false := by
  constructor
  · exact (Action.bind_ok (Action.get_apply s)).trans
      ((Action.bind_ok (Action.modify_apply _ s)).trans (Action.bind_error run))
  · rw [dropsLag, run]
    rfl

theorem advance_ahead {k : Nat} (run : s.caughtUp now = (.ok k, s')) (deadline : s'.pacer.nextFrame = some next)
    (early : now < next) : advance now s = (.ok k, s') ∧ s.dropsLag now = false := by
  have ahead : s'.pacer.nextFrame.any (TimeScale.le · now) = false := by
    rw [deadline]
    exact le_false_iff.2 early
  constructor
  · refine (Action.bind_ok (Action.get_apply s)).trans
      ((Action.bind_ok (Action.modify_apply _ s)).trans ((Action.bind_ok run).trans ?_))
    rw [Action.bind_ok (Action.get_apply s'), ahead]
    rfl
  · rw [dropsLag, run, ahead, Bool.and_false]

theorem advance_behind {k : Nat} (run : s.caughtUp now = (.ok k, s')) (deadline : s'.pacer.nextFrame = some next)
    (late : next ≤ now) :
    advance now s = (.ok k,
      { s' with pacer := { s'.pacer with nextFrame := some (now + s'.pacer.period) } }) ∧
      s.dropsLag now = true := by
  have behind : s'.pacer.nextFrame.any (TimeScale.le · now) = true := by
    rw [deadline]
    exact le_iff.2 late
  constructor
  · refine (Action.bind_ok (Action.get_apply s)).trans
      ((Action.bind_ok (Action.modify_apply _ s)).trans ((Action.bind_ok run).trans ?_))
    rw [Action.bind_ok (Action.get_apply s'), behind]
    rfl
  · rw [dropsLag, run, behind]
    rfl

/-- Lag is dropped exactly if the call returns and more frames were due than a call catches up with. -/
theorem dropsLag_iff (now : Rat) (s : Paced Rat π) (pos : 0 < s.pacer.period) :
    s.dropsLag now = true ↔ (∃ k, (advance now s).1 = .ok k) ∧
      s.deadline now + s.pacer.maxCatchUp.toNat * s.pacer.period ≤ now := by
  have spec := catchUp_spec now s.pacer.maxCatchUp.toNat 0
    (show (s.begun now).pacer.nextFrame = some (s.deadline now) from rfl)
  rcases spec with ⟨n, s', run, caught, few, ended⟩ | ⟨why, n, s', run, caught⟩
  · rw [Nat.zero_add] at run
    have moved : s'.pacer.nextFrame = some (s.deadline now + n * s.pacer.period) := by
      rw [caught.pacer]
      rfl
    have atMost : (n : Rat) * s.pacer.period ≤ s.pacer.maxCatchUp.toNat * s.pacer.period :=
      mul_le_mul_of_nonneg_right (Nat.cast_le.2 few) pos.le
    rcases lt_or_ge now (s.deadline now + n * s.pacer.period) with early | late
    · obtain ⟨called, kept⟩ := advance_ahead run moved early
      rw [kept]
      refine ⟨nofun, fun ⟨_, behind⟩ => ?_⟩
      linarith
    · obtain ⟨called, dropped⟩ := advance_behind run moved late
      rw [dropped, called]
      refine ⟨fun _ => ⟨⟨n, rfl⟩, ?_⟩, fun _ => rfl⟩
      rcases ended with early | rfl
      · exact absurd late (not_le.2 early)
      · exact late
  · obtain ⟨called, kept⟩ := advance_failed run
    rw [kept, called]
    exact ⟨nofun, fun ⟨⟨k, returns⟩, _⟩ => nomatch returns⟩

/-- What a call leaves: frames completed, one failed if the call fails, and the deadline moved by one interval for each
completed frame, unless lag is dropped. -/
structure Called (now : Rat) (s : Paced Rat π) (n : Nat) (next : Rat) : Prop where
  pacer : (advance now s).2.pacer = { s.pacer with frameCount := s.pacer.frameCount + n, nextFrame := some next }
  framed : Machine.Framed s.pacer.instructionsPerFrame n (s.fails now).toNat s.machine (advance now s).2.machine
  least : s.deadline now + n * s.pacer.period ≤ next
  most : next ≤ max (s.deadline now) (now + s.pacer.period)
  onTime : s.dropsLag now = false → next = s.deadline now + n * s.pacer.period
  returned : ∀ k, (advance now s).1 = .ok k → k = n ∧ n ≤ s.pacer.maxCatchUp.toNat ∧ now < next

theorem CaughtUp.soon {n f : Nat} (h : CaughtUp now next s s' n f) :
    next + n * s.pacer.period ≤ max next (now + s.pacer.period) := by
  rcases h.due with rfl | due
  · simp
  · exact due.trans (le_max_right _ _)

theorem exists_called (now : Rat) (s : Paced Rat π) (pos : 0 < s.pacer.period) : ∃ n next, Called now s n next := by
  have spec := catchUp_spec now s.pacer.maxCatchUp.toNat 0
    (show (s.begun now).pacer.nextFrame = some (s.deadline now) from rfl)
  rcases spec with ⟨n, s', run, caught, few, -⟩ | ⟨why, n, s', run, caught⟩
  · rw [Nat.zero_add] at run
    have moved : s'.pacer.nextFrame = some (s.deadline now + n * s.pacer.period) := by
      rw [caught.pacer]
      rfl
    rcases lt_or_ge now (s.deadline now + n * s.pacer.period) with early | late
    · obtain ⟨called, kept⟩ := advance_ahead run moved early
      refine ⟨n, s.deadline now + n * s.pacer.period, ?_⟩
      have returns : s.fails now = false := by rw [fails, called]; rfl
      exact {
        pacer := by rw [called]; exact caught.pacer
        framed := by rw [called, returns]; exact caught.framed
        least := le_rfl
        most := caught.soon
        onTime := fun _ => rfl
        returned := fun k same => by
          rw [called] at same
          cases same
          exact ⟨rfl, few, early⟩ }
    · obtain ⟨called, dropped⟩ := advance_behind run moved late
      refine ⟨n, now + s.pacer.period, ?_⟩
      have returns : s.fails now = false := by rw [fails, called]; rfl
      have same : s'.pacer.period = s.pacer.period := by rw [caught.pacer]; rfl
      exact {
        pacer := by rw [called, same]; simp only; rw [caught.pacer]; rfl
        framed := by rw [called, returns]; exact caught.framed
        least := by linarith
        most := le_max_right _ _
        onTime := fun kept => by rw [dropped] at kept; cases kept
        returned := fun k same => by
          rw [called] at same
          cases same
          exact ⟨rfl, few, by linarith⟩ }
  · obtain ⟨called, kept⟩ := advance_failed run
    refine ⟨n, s.deadline now + n * s.pacer.period, ?_⟩
    have failed : s.fails now = true := by rw [fails, called]; rfl
    exact {
      pacer := by rw [called]; exact caught.pacer
      framed := by rw [called, failed]; exact caught.framed
      least := le_rfl
      most := caught.soon
      onTime := fun _ => rfl
      returned := fun k same => by
        rw [called] at same
        cases same }

/-- The state after a sequence of calls at readings of the clock, whether they return or fail. -/
def advances (readings : List Rat) (s : Paced Rat π) : Paced Rat π :=
  readings.foldl (fun s now => (advance now s).2) s

def countCalls (does : Rat → Paced Rat π → Bool) : List Rat → Paced Rat π → Nat
  | [], _ => 0
  | now :: later, s => (does now s).toNat + countCalls does later (advance now s).2

/-- What a sequence of calls keeps. After so many completed frames the deadline is no earlier than these frames
require, and at most one interval behind the last reading. -/
structure Kept (s₀ : Paced Rat π) (t₀ last : Rat) (n f d : Nat) (s : Paced Rat π) (next : Rat) : Prop where
  pacer : s.pacer = { s₀.pacer with frameCount := s₀.pacer.frameCount + n, nextFrame := some next }
  framed : Machine.Framed s₀.pacer.instructionsPerFrame n f s₀.machine s.machine
  least : t₀ + n * s₀.pacer.period ≤ next
  most : next ≤ last + s₀.pacer.period
  onTime : d = 0 → next = t₀ + n * s₀.pacer.period

section Kept

variable {s₀ : Paced Rat π} {t₀ last : Rat} {n f d : Nat}

theorem Kept.period (h : Kept s₀ t₀ last n f d s next) : s.pacer.period = s₀.pacer.period := by
  rw [h.pacer]
  rfl

theorem Kept.deadline (h : Kept s₀ t₀ last n f d s next) (now : Rat) : s.deadline now = next := by
  rw [Paced.deadline, h.pacer]
  rfl

/-- A call keeps what the calls before it have kept. -/
theorem Kept.call (h : Kept s₀ t₀ last n f d s next) (later : last ≤ now) {j : Nat} {next' : Rat}
    (called : Called now s j next') :
    Kept s₀ t₀ now (n + j) (f + (s.fails now).toNat) (d + (s.dropsLag now).toNat) (advance now s).2 next' where
  pacer := by
    rw [called.pacer, h.pacer, Nat.add_assoc]
  framed := by
    have framed := called.framed
    rw [show s.pacer.instructionsPerFrame = s₀.pacer.instructionsPerFrame by rw [h.pacer]] at framed
    exact h.framed.trans framed
  least := by
    have least := called.least
    have before := h.least
    rw [h.deadline, h.period] at least
    push_cast
    linarith
  most := by
    have most := called.most
    have before := h.most
    rw [h.deadline, h.period] at most
    exact most.trans (max_le (by linarith) le_rfl)
  onTime := fun none => by
    obtain ⟨before, now'⟩ := Nat.add_eq_zero_iff.1 none
    have kept : s.dropsLag now = false := by
      cases dropped : s.dropsLag now with
      | false => rfl
      | true => rw [dropped] at now'; cases now'
    rw [called.onTime kept, h.deadline, h.period, h.onTime before]
    push_cast
    ring

theorem Kept.first (fresh : s₀.pacer.nextFrame = none) (pos : 0 < s₀.pacer.period)
    (called : Called t₀ s₀ n next) :
    Kept s₀ t₀ t₀ n (s₀.fails t₀).toNat (s₀.dropsLag t₀).toNat (advance t₀ s₀).2 next := by
  have start : s₀.deadline t₀ = t₀ := by rw [Paced.deadline, fresh]; rfl
  refine ⟨called.pacer, called.framed, ?_, ?_, fun none => ?_⟩
  · have least := called.least
    rwa [start] at least
  · have most := called.most
    rw [start] at most
    exact most.trans (max_le (by linarith) le_rfl)
  · have kept : s₀.dropsLag t₀ = false := by
      cases dropped : s₀.dropsLag t₀ with
      | false => rfl
      | true => rw [dropped] at none; cases none
    rw [called.onTime kept, start]

theorem countCalls_append (does : Rat → Paced Rat π → Bool) (readings later : List Rat) (s : Paced Rat π) :
    countCalls does (readings ++ later) s =
      countCalls does readings s + countCalls does later (advances readings s) := by
  induction readings generalizing s with
  | nil => exact (Nat.zero_add _).symm
  | cons now readings ih =>
    rw [List.cons_append, countCalls, countCalls, ih, Nat.add_assoc]
    rfl

theorem Kept.advances (pos : 0 < s₀.pacer.period) (h : Kept s₀ t₀ last n f d s next) {readings : List Rat}
    (sorted : (last :: readings).Pairwise (· ≤ ·)) :
    ∃ n' next', Kept s₀ t₀ (readings.getLastD last) n' (f + countCalls fails readings s)
      (d + countCalls dropsLag readings s) (Paced.advances readings s) next' := by
  induction readings generalizing s last n f d next with
  | nil => exact ⟨n, next, h⟩
  | cons now later ih =>
    obtain ⟨first, rest⟩ := List.pairwise_cons.1 sorted
    obtain ⟨j, next', called⟩ := exists_called now s (h.period ▸ pos)
    obtain ⟨n', next'', kept⟩ := ih (h.call (first now List.mem_cons_self) called) rest
    refine ⟨n', next'', ?_⟩
    rw [List.getLastD_cons, countCalls, countCalls, ← Nat.add_assoc, ← Nat.add_assoc]
    exact kept

theorem exists_kept (fresh : s₀.pacer.nextFrame = none) (pos : 0 < s₀.pacer.period) (earlier : List Rat) (now : Rat)
    (sorted : (earlier ++ [now]).Pairwise (· ≤ ·)) :
    ∃ total k next, Called now (Paced.advances earlier s₀) k next ∧
      Kept s₀ (earlier.headD now) now total (countCalls fails (earlier ++ [now]) s₀)
        (countCalls dropsLag (earlier ++ [now]) s₀) (advance now (Paced.advances earlier s₀)).2 next ∧
      (Paced.advances earlier s₀).pacer.maxCatchUp = s₀.pacer.maxCatchUp ∧
      (Paced.advances earlier s₀).pacer.period = s₀.pacer.period := by
  cases earlier with
  | nil =>
    obtain ⟨k, next, called⟩ := exists_called now s₀ pos
    exact ⟨k, k, next, called, .first fresh pos called, rfl, rfl⟩
  | cons t₀ rest =>
    obtain ⟨n, next, first⟩ := exists_called t₀ s₀ pos
    obtain ⟨before, behind, upTo⟩ := List.pairwise_append.1 sorted
    obtain ⟨n', next', kept⟩ := (Kept.first fresh pos first).advances pos before
    obtain ⟨k, next'', called⟩ := exists_called now (Paced.advances rest (advance t₀ s₀).2) (kept.period ▸ pos)
    have last : rest.getLastD t₀ ≤ now := upTo _ List.getLastD_mem_cons now (List.mem_singleton_self now)
    refine ⟨n' + k, k, next'', called, ?_, ?_, kept.period⟩
    · rw [countCalls_append, countCalls_append]
      exact kept.call last called
    · show (Paced.advances rest (advance t₀ s₀).2).pacer.maxCatchUp = _
      rw [kept.pacer]

/-- The frames that the clock allows. -/
theorem Kept.total_le (positive : s₀.pacer.Positive) (h : Kept s₀ t₀ last n f d s next) :
    (n : Int) ≤ ⌊(last - t₀) * s₀.pacer.timerHz⌋ + 1 := by
  have hz : (0 : Rat) < s₀.pacer.timerHz := Int.cast_pos.2 positive.timerHz
  have bound : t₀ + n * s₀.pacer.period ≤ last + s₀.pacer.period := h.least.trans h.most
  have scaled := mul_le_mul_of_nonneg_right bound hz.le
  have allowed : (n : Rat) - 1 ≤ (last - t₀) * s₀.pacer.timerHz := by
    rw [add_mul, add_mul, mul_assoc, positive.period_mul] at scaled
    linarith
  have floor : (n - 1 : Int) ≤ ⌊(last - t₀) * s₀.pacer.timerHz⌋ := by
    rw [Int.le_floor]
    push_cast
    exact allowed
  omega

theorem Kept.total_eq (positive : s₀.pacer.Positive) (h : Kept s₀ t₀ last n f 0 s next) (early : last < next) :
    (n : Int) = ⌊(last - t₀) * s₀.pacer.timerHz⌋ + 1 := by
  have most := h.total_le positive
  have hz : (0 : Rat) < s₀.pacer.timerHz := Int.cast_pos.2 positive.timerHz
  have scaled := mul_lt_mul_of_pos_right early hz
  have floor : ⌊(last - t₀) * s₀.pacer.timerHz⌋ < (n : Int) := by
    rw [h.onTime rfl, add_mul, mul_assoc, positive.period_mul] at scaled
    rw [Int.floor_lt]
    push_cast
    linarith
  omega

end Kept

theorem runFrames_succ (n : Nat) (last : Option Trace) (s : Paced Rat π) :
    runFrames (n + 1) last s = (runFrames n last >>= fun _ => runFrame) s := by
  induction n generalizing last s with
  | zero =>
    show (runFrame >>= fun t => pure t) s = runFrame s
    rcases run : runFrame s with ⟨why | t, s'⟩
    · exact Action.bind_error run
    · exact Action.bind_ok run
  | succ n ih =>
    rcases run : runFrame s with ⟨why | t, s'⟩
    · have first : runFrames (n + 1) last s = (.error why, s') := Action.bind_error run
      rw [Action.bind_error first]
      exact Action.bind_error run
    · have whole : runFrames (n + 1 + 1) last s = runFrames (n + 1) t s' := Action.bind_ok run
      have first : runFrames (n + 1) last s = runFrames n t s' := Action.bind_ok run
      rw [whole, ih, Action.bind_apply, Action.bind_apply, first]

theorem runFrames_of_framed {n f : Nat} {m m' : Machine π} {p : Pacer Rat}
    (h : Machine.Framed p.instructionsPerFrame n f m m') (none : f = 0) :
    ∃ t, runFrames n .none ⟨m, p⟩ = (.ok t, ⟨m', { p with frameCount := p.frameCount + n }⟩) := by
  induction h with
  | start => exact ⟨_, rfl⟩
  | @completed _ _ _ _ _ t _ run ih =>
    obtain ⟨_, before⟩ := ih none
    refine ⟨t, ?_⟩
    rw [runFrames_succ, Action.bind_ok before]
    exact runFrame_completed run
  | failed => cases none

/-- What a call that returns a number of frames leaves: a deadline ahead of the clock by one interval at most, so that
another call at the same reading would do nothing. -/
structure Settled (now : Rat) (s : Paced Rat π) (k : Nat) (s' : Paced Rat π) : Prop where
  few : (k : Int) ≤ s.pacer.maxCatchUp
  count : s'.pacer.frameCount = s.pacer.frameCount + k
  ahead : ∃ next, s'.pacer.nextFrame = some next ∧ now < next ∧ next ≤ now + s.pacer.period
  again : advance now s' = (.ok 0, s')
  left : 0 < s'.pacer.untilNext now ∧ s'.pacer.untilNext now ≤ s.pacer.period

theorem advance_early (deadline : s.pacer.nextFrame = some next) (early : now < next) :
    advance now s = (.ok 0, s) := by
  have start : s.deadline now = next := by rw [Paced.deadline, deadline, Option.getD_some]
  have same : s.begun now = s := by
    rw [begun, start, ← deadline]
  have run : s.caughtUp now = (.ok 0, s) := by
    rw [caughtUp, same, start]
    exact catchUp_early early _ 0
  exact (advance_ahead run deadline early).1

theorem untilNext_early {p : Pacer Rat} (deadline : p.nextFrame = some next) (early : now < next) :
    p.untilNext now = next - now := by
  have left : TimeScale.lt (TimeScale.zero : Rat) (TimeScale.sub next now) = true :=
    decide_eq_true (sub_pos.2 early)
  rw [Pacer.untilNext, deadline]
  exact if_pos left

/-- **Pacing.** However the readings of the clock fall, for a pacer that starts with the first call: the frames run are
no more than the clock allows, and all that it allows if the last call returns and no lag was dropped, as it is where
more frames are due than one call catches up with; a call that returns leaves the pacer settled; whether or not calls
fail, each frame that counts is complete, with one tick behind it; and if none fails, as many frames at once lead to
the same machine. -/
theorem advance_paced (m : Machine π) (p : Pacer Rat) (positive : p.Positive) (fresh : p.nextFrame = none)
    (earlier : List Rat) (now : Rat) (sorted : (earlier ++ [now]).Pairwise (· ≤ ·)) :
    let t₀ := earlier.headD now
    let s₀ : Paced Rat π := ⟨m, p⟩
    let s := advances earlier s₀
    let r := advance now s
    let failing := countCalls fails (earlier ++ [now]) s₀
    (s.dropsLag now = true ↔ (∃ k, r.1 = .ok k) ∧
      s.deadline now + s.pacer.maxCatchUp.toNat * s.pacer.period ≤ now) ∧
    ∃ total : Nat, r.2.pacer.frameCount = p.frameCount + total ∧
      (total : Int) ≤ ⌊(now - t₀) * p.timerHz⌋ + 1 ∧
      (∀ k, r.1 = .ok k → countCalls dropsLag (earlier ++ [now]) s₀ = 0 →
        (total : Int) = ⌊(now - t₀) * p.timerHz⌋ + 1) ∧
      (∀ k, r.1 = .ok k → Settled now s k r.2) ∧
      Machine.Framed p.instructionsPerFrame total failing m r.2.machine ∧
      (failing = 0 → ∃ t, runFrames total none s₀ =
        (.ok t, ⟨r.2.machine, { p with frameCount := p.frameCount + total }⟩)) := by
  intro t₀ s₀ s r failing
  have pos : 0 < s₀.pacer.period := positive.period
  have unstarted : s₀.pacer.nextFrame = none := fresh
  obtain ⟨total, n, next, called, kept, most, period⟩ := exists_kept unstarted pos earlier now sorted
  have deadline : r.2.pacer.nextFrame = some next := by rw [called.pacer]
  refine ⟨dropsLag_iff now s (period ▸ pos), total, ?_, kept.total_le positive, fun k returns kept' => ?_,
    fun k returns => ?_, kept.framed, fun none => runFrames_of_framed kept.framed none⟩
  · rw [kept.pacer]
  · rw [kept'] at kept
    exact kept.total_eq positive (called.returned k returns).2.2
  · obtain ⟨rfl, few, early⟩ := called.returned k returns
    have soon : next ≤ now + s.pacer.period := by
      rw [period]
      exact kept.most
    exact {
      few := by
        have maxCatchUp : 0 < s.pacer.maxCatchUp := most ▸ positive.maxCatchUp
        have few' : k ≤ s.pacer.maxCatchUp.toNat := few
        omega
      count := by rw [called.pacer]
      ahead := ⟨next, deadline, early, soon⟩
      again := advance_early deadline early
      left := by
        rw [untilNext_early deadline early]
        constructor <;> linarith }

theorem advance_one (now : Rat) {t : Option Trace} {m' : Machine π} (catches : 0 < s.pacer.maxCatchUp)
    (due : s.deadline now ≤ now) (early : now < s.deadline now + s.pacer.period)
    (run : Machine.step s.pacer.instructionsPerFrame s.machine = (.ok t, m')) :
    advance now s = (.ok 1, s.completed m' (s.deadline now + s.pacer.period)) ∧ s.dropsLag now = false := by
  obtain ⟨most, count⟩ : ∃ most, s.pacer.maxCatchUp.toNat = most + 1 := ⟨s.pacer.maxCatchUp.toNat - 1, by omega⟩
  have caught : s.caughtUp now = (.ok 1, s.completed m' (s.deadline now + s.pacer.period)) := by
    rw [caughtUp, count]
    exact (catchUp_due (s := s.begun now) due run most 0).trans (catchUp_early early most 1)
  exact advance_ahead caught rfl early

/-- A machine without a program runs empty frames: one at the first reading, and one on the next boundary. -/
theorem advance_paced_boundary :
    let m : Machine Unit := Machine.powerOn ()
    let r := advance (1 / 60) (advances [0] (⟨m, {}⟩ : Paced Rat Unit))
    r.1 = .ok 1 ∧ r.2.pacer.frameCount = 2 ∧
      ∃ t, runFrames 2 none (⟨m, {}⟩ : Paced Rat Unit) = (.ok t, ⟨r.2.machine, { frameCount := 2 }⟩) := by
  obtain ⟨m, start⟩ : ∃ m : Machine Unit, m = Machine.powerOn () := ⟨_, rfl⟩
  have unloaded : ¬ m.state.isLoaded = true := by
    rw [start, Machine.powerOn_eq]
    decide
  rw [← start]
  intro _ r
  have idle : ∀ m' : Machine Unit, ¬ m'.state.isLoaded = true → Machine.step 12 m' = (.ok none, m') :=
    fun m' unloaded' => by rw [Machine.step_eq, if_neg unloaded']
  have ticked : ¬ m.tick.state.isLoaded = true := by
    rw [Machine.tick_eq]
    exact unloaded
  have positive : Pacer.Positive {} := (Pacer.make_positive (show Pacer.make Rat 12 60 5 = .ok {} from rfl)).1
  have catches : (0 : Int) < 5 := by decide
  obtain ⟨first, kept⟩ := advance_one (s := (⟨m, {}⟩ : Paced Rat Unit)) 0 catches
    (show (0 : Rat) ≤ 0 from le_rfl) (show (0 : Rat) < 0 + 1 / (60 : Int) by norm_num) (idle m unloaded)
  generalize behind : completed _ m _ = s₁ at first
  have deadline : s₁.deadline (1 / 60) = 0 + 1 / (60 : Int) := by rw [← behind]; rfl
  have machine : s₁.machine = m.tick := by rw [← behind]; rfl
  have settings : s₁.pacer = { frameCount := 1, nextFrame := some (0 + 1 / (60 : Int)) } := by rw [← behind]; rfl
  have period : s₁.pacer.period = 1 / (60 : Int) := by rw [settings]; rfl
  obtain ⟨second, kept'⟩ := advance_one (s := s₁) (1 / 60) (t := none) (by rw [settings]; exact catches)
    (by rw [deadline]; norm_num) (by rw [deadline, period]; norm_num)
    (by rw [settings, machine]; exact idle m.tick ticked)
  have ran : r = _ := (congrArg (fun s => advance (1 / 60) s) (congrArg Prod.snd first)).trans second
  have noLag : countCalls dropsLag ([0] ++ [1 / 60]) (⟨m, {}⟩ : Paced Rat Unit) = 0 := by
    simp only [List.singleton_append, countCalls, first, kept, kept', Bool.toNat_false]
  have noFailure : countCalls fails ([0] ++ [1 / 60]) (⟨m, {}⟩ : Paced Rat Unit) = 0 := by
    have returns : fails 0 (⟨m, {}⟩ : Paced Rat Unit) = false := by rw [fails, first]; rfl
    have returns' : s₁.fails (1 / 60) = false := by rw [fails, second]; rfl
    simp only [List.singleton_append, countCalls, first, returns, returns', Bool.toNat_false]
  have returned : r.1 = .ok 1 := by rw [ran]
  obtain ⟨-, total, count, -, equal, -, -, atOnce⟩ := advance_paced m {} positive rfl [0] (1 / 60) (by norm_num)
  have two : (total : Int) = 2 := by
    rw [equal 1 returned noLag]
    norm_num
  obtain rfl : total = 2 := by omega
  exact ⟨returned, count, atOnce noFailure⟩

end Paced

end Chip8
