import Chip8.Proofs.Memory
import Chip8.Proofs.Presses

/-! Waiting for a key. The events of a keypad and the looks of a waiter come in any order. While a wait is on its
keypad tells the events since it began (`Waiting`), so it ends at the first look that finds an interruption or a new
press since then, and with the first of these presses (`wait_exact`). The wait of a machine, which plays its events at
once, is one of these (`waitThrough_eq`). -/

namespace Chip8

open KeyEvent (pressOf releaseOf)

/-- What happens while a wait is on: an event, or the waiter looks whether it is over. At the last look before its
time is up it gives up. -/
inductive Moment
  | event (e : KeyEvent)
  | look (last : Bool)
  deriving DecidableEq

def Moment.event? : Moment → Option KeyEvent
  | event e => some e
  | look _ => none

def Moment.events (moments : List Moment) : List KeyEvent := moments.filterMap event?

/-- A wait with the keypad that it waits for and, once it is over, how it ended. -/
structure KeyWait where
  keypad : Keypad
  mark : Nat
  outcome : Option (Except Interruption (Fin 16)) := none

def Keypad.wait (kp : Keypad) : KeyWait where
  keypad := kp.beginWait.2
  mark := kp.beginWait.1

namespace KeyWait

/-- A wait that is over does not look again. -/
def after (w : KeyWait) : Moment → KeyWait
  | .event e => { w with keypad := w.keypad.after e }
  | .look last =>
    match w.outcome with
    | some _ => w
    | none =>
      let found := Keypad.poll w.mark w.keypad
      { w with
        keypad := found.2
        outcome := found.1.or (if last then some (.error .timedOut) else none) }

def through (w : KeyWait) (moments : List Moment) : KeyWait := moments.foldl after w

open Keypad Moment

variable {before seen : List KeyEvent} {w : KeyWait}

theorem through_append (w : KeyWait) (moments later : List Moment) :
    w.through (moments ++ later) = (w.through moments).through later := List.foldl_append

theorem through_snoc (w : KeyWait) (moments : List Moment) (m : Moment) :
    w.through (moments ++ [m]) = (w.through moments).after m := by
  rw [through_append]
  rfl

/-- What a wait that is not over knows of the events so far. -/
structure Waiting (before seen : List KeyEvent) (w : KeyWait) : Prop where
  down : ∀ k, w.keypad.down.get k = true ↔ Held (before ++ seen) k
  interruptions : w.keypad.interruptions = w.mark + seen.count .interrupt
  pends : Pends before seen w.keypad.pending

theorem waiting_wait (before : List KeyEvent) : Waiting before [] (({} : Keypad).play before).wait where
  down k := by
    rw [List.append_nil]
    exact isDown_play before k
  interruptions := rfl
  pends := pends_none fun earlier k ⟨later, split, _⟩ => by simp at split

theorem Waiting.event (h : Waiting before seen w) (e : KeyEvent) :
    Waiting before (seen ++ [e]) (w.after (.event e)) := by
  have down (k : Fin 16) : (w.keypad.after e).down.get k = true ↔ Held (before ++ (seen ++ [e])) k := by
    rw [isDown_after, h.down, ← List.append_assoc, held_snoc]
  suffices (w.keypad.after e).interruptions = w.mark + (seen ++ [e]).count .interrupt ∧
      Pends before (seen ++ [e]) (w.keypad.after e).pending from ⟨down, this.1, this.2⟩
  have quietly (quiet : e ≠ .interrupt) : (seen ++ [e]).count .interrupt = seen.count .interrupt := by
    simp [List.count_append, quiet]
  have plays := plays_after w.keypad e
  generalize w.keypad.after e = kp at plays ⊢
  cases plays with
  | press k =>
    rw [quietly nofun, press]
    by_cases isDown : w.keypad.down.get k = true
    · rw [if_pos isDown]
      refine ⟨h.interruptions, h.pends.old nofun fun j same => ?_⟩
      rw [← KeyEvent.pressOf_inj.1 same]
      exact (h.down k).1 isDown
    · rw [if_neg isDown]
      exact ⟨h.interruptions, h.pends.new fun held => isDown ((h.down k).2 held)⟩
  | release k =>
    rw [quietly nofun]
    exact ⟨h.interruptions, h.pends.old nofun nofun⟩
  | releaseAll =>
    rw [quietly nofun]
    exact ⟨h.interruptions, pends_none fun _ _ => not_newPress_releaseAll⟩
  | interrupt =>
    refine ⟨?_, h.pends.old nofun nofun⟩
    have counted : (seen ++ [KeyEvent.interrupt]).count .interrupt = seen.count .interrupt + 1 := by
      simp [List.count_append]
    rw [counted, ← Nat.add_assoc, ← h.interruptions]
    rfl
  | refused idle quiet =>
    rw [quietly quiet]
    refine ⟨h.interruptions, h.pends.old (fun same => ?_) fun k same => absurd (.inl same) (idle k)⟩
    exact idle 0 (same ▸ KeyEvent.concerns_releaseAll)

/-- How a look ends a wait: with an interruption since the wait began, else with the first new press, else, if there is
no time left, without a key. -/
inductive Ends (before seen : List KeyEvent) (last : Bool) : Except Interruption (Fin 16) → Prop
  | interrupted (called : .interrupt ∈ seen) : Ends before seen last (.error .interrupted)
  | pressed {k : Fin 16} (quiet : .interrupt ∉ seen) (first : FirstPress before seen k) : Ends before seen last (.ok k)
  | timedOut (quiet : .interrupt ∉ seen) (none : ∀ earlier k, ¬ NewPress before seen earlier k)
    (expired : last = true) : Ends before seen last (.error .timedOut)

theorem Waiting.interrupted_iff (h : Waiting before seen w) : w.keypad.interruptions ≠ w.mark ↔ .interrupt ∈ seen := by
  rw [← List.count_pos_iff, h.interruptions]
  omega

theorem Waiting.outcome_look_iff (h : Waiting before seen w) (unfinished : w.outcome = none) {last : Bool}
    {o : Except Interruption (Fin 16)} : (w.after (.look last)).outcome = some o ↔ Ends before seen last o := by
  simp only [after, unfinished, poll]
  by_cases called : w.keypad.interruptions ≠ w.mark
  · have inside := h.interrupted_iff.1 called
    rw [if_pos called]
    constructor
    · intro same
      cases same
      exact .interrupted inside
    · rintro (_ | quiet | quiet)
      · rfl
      · exact absurd inside quiet
      · exact absurd inside quiet
  · have quiet := mt h.interrupted_iff.2 called
    rw [if_neg called]
    cases pending : w.keypad.pending with
    | nil =>
      have none := h.pends.empty.1 pending
      constructor
      · cases last with
        | false => exact nofun
        | true =>
          intro same
          cases same
          exact .timedOut quiet none rfl
      · rintro (called | ⟨-, earlier, new, -⟩ | ⟨-, -, rfl⟩)
        · exact absurd called quiet
        · exact absurd new (none _ _)
        · rfl
    | cons k rest =>
      have first (j : Fin 16) : k = j ↔ FirstPress before seen j := by
        rw [← h.pends.first, pending, List.head?_cons, Option.some.injEq]
      constructor
      · intro same
        cases same
        exact .pressed quiet ((first k).1 rfl)
      · rintro (called | ⟨-, new⟩ | ⟨-, none, -⟩)
        · exact absurd called quiet
        · rw [(first _).2 new]
          rfl
        · rw [h.pends.empty.2 none] at pending
          cases pending

theorem outcome_after_of_some {o : Except Interruption (Fin 16)} (ended : w.outcome = some o) (m : Moment) :
    (w.after m).outcome = some o := by
  cases m with
  | event e => exact ended
  | look last => simp only [after, ended]

theorem outcome_through_of_some {o : Except Interruption (Fin 16)} (ended : w.outcome = some o)
    (moments : List Moment) : (w.through moments).outcome = some o := by
  induction moments generalizing w with
  | nil => exact ended
  | cons m moments ih => exact ih (outcome_after_of_some ended m)

theorem after_look_of_none {last : Bool} (unfinished : (w.after (.look last)).outcome = none) :
    w.after (.look last) = w := by
  cases ended : w.outcome with
  | some o => simp only [after, ended]
  | none =>
    obtain ⟨kp, mark, outcome⟩ := w
    cases ended
    simp only [after, poll] at unfinished ⊢
    split at unfinished
    · cases unfinished
    · rename_i quiet
      rw [if_neg quiet]
      cases pending : kp.pending with
      | nil =>
        rw [pending] at unfinished
        cases last with
        | false => rfl
        | true => cases unfinished
      | cons k rest =>
        rw [pending] at unfinished
        cases unfinished

theorem waiting_through (before : List KeyEvent) {moments : List Moment}
    (unfinished : ((({} : Keypad).play before).wait.through moments).outcome = none) :
    Waiting before (events moments) ((({} : Keypad).play before).wait.through moments) := by
  induction moments using List.reverseRecOn with
  | nil => exact waiting_wait before
  | append_singleton moments m ih =>
    rw [through_snoc] at unfinished ⊢
    have sofar : ((({} : Keypad).play before).wait.through moments).outcome = none := by
      by_contra ended
      obtain ⟨o, ended⟩ := Option.ne_none_iff_exists'.1 ended
      rw [outcome_after_of_some ended m] at unfinished
      cases unfinished
    cases m with
    | event e =>
      have joined : events (moments ++ [.event e]) = events moments ++ [e] := List.filterMap_append
      rw [joined]
      exact (ih sofar).event e
    | look last =>
      have same : events (moments ++ [.look last]) = events moments := by
        rw [events, List.filterMap_append]
        exact List.append_nil _
      rw [same, after_look_of_none unfinished]
      exact ih sofar

/-- How a wait ends is decided by the first look that ends it. -/
theorem outcome_iff (before : List KeyEvent) (during : List Moment) (o : Except Interruption (Fin 16)) :
    ((({} : Keypad).play before).wait.through during).outcome = some o ↔
      ∃ earlier last later, during = earlier ++ Moment.look last :: later ∧
        ((({} : Keypad).play before).wait.through earlier).outcome = none ∧
        Ends before (events earlier) last o := by
  constructor
  · intro ended
    induction during using List.reverseRecOn with
    | nil => cases ended
    | append_singleton moments m ih =>
      rw [through_snoc] at ended
      cases sofar : ((({} : Keypad).play before).wait.through moments).outcome with
      | some o' =>
        rw [outcome_after_of_some sofar m] at ended
        cases ended
        obtain ⟨earlier, last, later, rfl, unfinished, ends⟩ := ih sofar
        exact ⟨earlier, last, later ++ [m], List.append_assoc _ _ _, unfinished, ends⟩
      | none =>
        cases m with
        | event e =>
          have same : (KeyWait.after _ (.event e)).outcome = _ := sofar
          rw [same] at ended
          cases ended
        | look last =>
          exact ⟨moments, last, [], rfl, sofar, ((waiting_through before sofar).outcome_look_iff sofar).1 ended⟩
  · rintro ⟨earlier, last, later, rfl, unfinished, ends⟩
    have ended := ((waiting_through before unfinished).outcome_look_iff unfinished).2 ends
    rw [through_append]
    exact outcome_through_of_some ended later

theorem Ends.congr {before' : List KeyEvent} (same : ∀ k, Held before' k ↔ Held before k) {last : Bool}
    {o : Except Interruption (Fin 16)} (h : Ends before' seen last o) : Ends before seen last o := by
  have new (earlier : List KeyEvent) (k : Fin 16) :
      NewPress before' seen earlier k ↔ NewPress before seen earlier k := by
    simp only [NewPress, held_append_congr same]
  cases h with
  | interrupted called => exact .interrupted called
  | pressed quiet first => exact .pressed quiet (by simpa only [FirstPress, new] using first)
  | timedOut quiet none expired => exact .timedOut quiet (by simpa only [new] using none) expired

/-- A wait depends on what was before it through the keys that are down when it begins alone. -/
theorem outcome_congr {before' : List KeyEvent} (same : ∀ k, Held before' k ↔ Held before k) (during : List Moment) :
    ((({} : Keypad).play before').wait.through during).outcome =
      ((({} : Keypad).play before).wait.through during).outcome := by
  -- The looks before the one that ends a wait are those of a shorter wait.
  induction size : during.length using Nat.strong_induction_on generalizing during with
  | _ n ih =>
    refine Option.ext fun o => ?_
    rw [outcome_iff, outcome_iff]
    refine exists_congr fun earlier => exists_congr fun last => exists_congr fun later =>
      and_congr_right fun split => ?_
    have shorter : earlier.length < n := by
      rw [← size, split]
      simp
    rw [ih earlier.length shorter earlier rfl]
    exact and_congr_right fun _ => ⟨Ends.congr same, Ends.congr fun k => (same k).symm⟩

theorem down_look (w : KeyWait) (last : Bool) : (w.after (.look last)).keypad.down = w.keypad.down := by
  simp only [after, poll]
  split
  · rfl
  · split
    · rfl
    · split <;> rfl

theorem isDown_through (before : List KeyEvent) (during : List Moment) (k : Fin 16) :
    ((({} : Keypad).play before).wait.through during).keypad.down.get k = true ↔
      Held (before ++ events during) k := by
  induction during using List.reverseRecOn with
  | nil =>
    rw [events, List.filterMap_nil, List.append_nil]
    exact isDown_play before k
  | append_singleton during m ih =>
    rw [through_snoc, events, List.filterMap_append, ← List.append_assoc]
    cases m with
    | event e =>
      have joined : [Moment.event e].filterMap event? = [e] := rfl
      rw [joined, held_snoc, ← events, ← ih]
      exact isDown_after _ e k
    | look last =>
      have joined : [Moment.look last].filterMap event? = [] := rfl
      rw [joined, List.append_nil, down_look]
      exact ih

/-! ### The wait of a machine -/

/-- The looks of a wait that events arrive in at once: one more if it has a time limit, else an interruption if the
first look finds nothing. -/
def looks (limited : Bool) : List Moment :=
  if limited then [.look true] else [.look false, .event .interrupt, .look false]

def answer : Except Interruption (Fin 16) → Except WaitFault Int
  | .ok k => .ok (k.val : Int)
  | .error why => .error (.interrupted why)

theorem play_of_applyAll {kp kp' : Keypad} {events : List KeyEvent} (accepted : kp.applyAll events = (.ok (), kp')) :
    kp.play events = kp' := by
  induction events generalizing kp with
  | nil =>
    cases accepted
    rfl
  | cons e events ih =>
    rw [applyAll] at accepted
    cases done : kp.apply e with
    | error key =>
      rw [done] at accepted
      cases accepted
    | ok kp₁ =>
      rw [done] at accepted
      have first : kp.after e = kp₁ := by simp only [Keypad.after, done]
      rw [play, List.foldl_cons, first]
      exact ih accepted

theorem through_events (w : KeyWait) (events : List KeyEvent) :
    w.through (events.map Moment.event) = { w with keypad := w.keypad.play events } := by
  induction events generalizing w with
  | nil => rfl
  | cons e events ih => exact ih (w.after (.event e))

theorem poll_interrupt_of_none {mark : Nat} {kp kp' : Keypad} (waits : poll mark kp = (none, kp')) :
    poll mark (kp'.after .interrupt) = (some (.error .interrupted), kp'.after .interrupt) := by
  have calls : (kp'.after .interrupt).interruptions = kp'.interruptions + 1 := rfl
  unfold poll at waits
  split at waits
  · cases waits
  · rename_i quiet
    have same : kp' = kp := by
      split at waits <;> cases waits
      rfl
    rw [poll, if_pos (by rw [calls, same]; omega)]

/-- The wait that plays events for a machine is a wait through these moments. -/
theorem waitThrough_eq {kp kp' : Keypad} {events : List KeyEvent}
    (accepted : kp.beginWait.2.applyAll events = (.ok (), kp')) (limited : Bool) :
    (kp.wait.through (events.map Moment.event ++ looks limited)).outcome.map answer =
      some (kp.waitThrough events limited).1 := by
  have played : kp.wait.keypad.play events = kp' := play_of_applyAll accepted
  rw [through_append, through_events, played]
  obtain ⟨end?, kp'', found⟩ : ∃ end? kp'', poll kp.beginWait.1 kp' = (end?, kp'') := ⟨_, _, rfl⟩
  rcases end? with _ | why | k
  · have called := poll_interrupt_of_none found
    cases limited <;> simp [looks, through, after, waitThrough, accepted, found, called, answer, wait]
  · cases limited <;> simp [looks, through, after, waitThrough, accepted, found, answer, wait]
  · cases limited <;> simp [looks, through, after, waitThrough, accepted, found, answer, wait]

/-- **The wait for a key.** The events of a keypad, before and while one wait is on, and the looks of its waiter may
come in any order. At any time a key is down exactly if the last event that concerns it is its press. The wait ends at
the first look that finds an interruption since it began, a new press or no time left: interrupted only if it has been
so since it began, and with a key only if it has not, with the first press since then, and since the last release of all
keys then, that took its key down. So a key that was down at the start has to be released and pressed anew, and
interruptions before the start make no difference. -/
theorem wait_exact (before : List KeyEvent) (during : List Moment) :
    let start := ({} : Keypad).play before
    let w := start.wait.through during
    (∀ key : Int, w.keypad.isDown key = true ↔ Held (before ++ events during) (residue 16 key)) ∧
    (∀ o, w.outcome = some o ↔ ∃ earlier last later, during = earlier ++ Moment.look last :: later ∧
      (start.wait.through earlier).outcome = none ∧ Ends before (events earlier) last o) ∧
    (∀ k, w.outcome = some (.ok k) → Held before k → ∃ pre post, events during = pre ++ pressOf k :: post ∧
      (releaseOf k ∈ pre ∨ KeyEvent.releaseAll ∈ pre)) ∧
    (∀ why, w.outcome = some (.error why) → (why = .interrupted ∧ KeyEvent.interrupt ∈ events during) ∨
      (why = .timedOut ∧ Moment.look true ∈ during)) ∧
    ((({} : Keypad).play (before.filter (· ≠ .interrupt))).wait.through during).outcome = w.outcome := by
  intro start w
  have ends := outcome_iff before during
  refine ⟨fun key => isDown_through before during _, ends, fun k ended held => ?_, fun why ended => ?_,
    outcome_congr (held_filter before) during⟩
  · obtain ⟨earlier, last, later, rfl, -, end_⟩ := (ends _).1 ended
    cases end_ with
    | pressed quiet first =>
      obtain ⟨pre, ⟨post, split, -, up⟩, -⟩ := first
      refine ⟨pre, post ++ events later, ?_, released_of_not_held held up⟩
      rw [events, List.filterMap_append, ← events, split, List.append_assoc]
      rfl
  · obtain ⟨earlier, last, later, rfl, -, end_⟩ := (ends _).1 ended
    cases end_ with
    | interrupted called =>
      rw [events, List.filterMap_append]
      exact .inl ⟨rfl, List.mem_append_left _ called⟩
    | timedOut _ _ expired =>
      subst expired
      exact .inr ⟨rfl, by simp⟩

/-- A key that is down at the start, and that is pressed anew behind a release of all keys. -/
theorem wait_exact_anew :
    let before := [pressOf 5, pressOf 3, KeyEvent.interrupt]
    let during := [Moment.event (pressOf 7), .event .releaseAll, .look false, .event (pressOf 5), .event (pressOf 2),
      .look false, .event .interrupt]
    ((({} : Keypad).play before).wait.through during).outcome = some (.ok 5) ∧ Held before 5 ∧
    ∃ pre post, events during = pre ++ pressOf 5 :: post ∧ (releaseOf 5 ∈ pre ∨ KeyEvent.releaseAll ∈ pre) := by
  intro before during
  have ended : ((({} : Keypad).play before).wait.through during).outcome = some (.ok 5) := by rfl
  have held : Held before 5 := by
    refine ⟨[], [pressOf 3, .interrupt], rfl, ?_⟩
    rw [List.forall_mem_cons, List.forall_mem_singleton, KeyEvent.concerns_pressOf]
    exact ⟨by decide, KeyEvent.not_concerns_interrupt⟩
  obtain ⟨-, -, anew, -⟩ := wait_exact before during
  exact ⟨ended, held, anew 5 ended held⟩

end KeyWait

end Chip8
