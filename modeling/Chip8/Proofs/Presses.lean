import Chip8.Keypad
import Mathlib

/-! Histories of a keypad. A key is down exactly if the last event that concerns it is its press (`isDown_play`). A
press is new if it took its key down and no release of all keys follows it, and a queue that drops what is released
pends the first of these at its head (`Pends.new`, `Pends.old`). -/

namespace Chip8

/-- A place in a list that one more item joins: that of the new item, or a place that was there. -/
theorem snoc_eq_iff {α : Type} {init earlier later : List α} {x y : α} :
    init ++ [x] = earlier ++ y :: later ↔
      (init = earlier ∧ x = y ∧ later = []) ∨ ∃ later', later = later' ++ [x] ∧ init = earlier ++ y :: later' := by
  constructor
  · intro split
    rcases List.eq_nil_or_concat' later with rfl | ⟨later', last, rfl⟩
    · obtain ⟨same, last⟩ := List.append_inj' split rfl
      exact .inl ⟨same, List.singleton_injective last, rfl⟩
    · rw [← List.cons_append, ← List.append_assoc] at split
      obtain ⟨same, last⟩ := List.append_inj' split rfl
      exact .inr ⟨later', by rw [last], same⟩
  · rintro (⟨rfl, rfl, rfl⟩ | ⟨later', rfl, rfl⟩)
    · rfl
    · rw [List.append_assoc, List.cons_append]

namespace KeyEvent

def pressOf (k : Fin 16) : KeyEvent := press (k.val : Int)

def releaseOf (k : Fin 16) : KeyEvent := release (k.val : Int)

/-- The events that decide whether a key is down. -/
def Concerns (k : Fin 16) (e : KeyEvent) : Prop := e = pressOf k ∨ e = releaseOf k ∨ e = releaseAll

variable {j k : Fin 16}

theorem pressOf_inj : pressOf j = pressOf k ↔ j = k := by
  constructor
  · intro same
    exact Fin.ext (Int.ofNat.inj (press.inj same))
  · exact congrArg pressOf

theorem concerns_pressOf : (pressOf j).Concerns k ↔ j = k := by
  simp [Concerns, pressOf, releaseOf, Fin.val_inj]

theorem concerns_releaseOf : (releaseOf j).Concerns k ↔ j = k := by
  simp [Concerns, pressOf, releaseOf, Fin.val_inj]

theorem concerns_releaseAll : releaseAll.Concerns k := .inr (.inr rfl)

theorem not_concerns_interrupt : ¬ interrupt.Concerns k := by
  simp [Concerns, pressOf, releaseOf]

end KeyEvent

open KeyEvent (pressOf releaseOf)

namespace Keypad

/-! ### Held keys and new presses -/

/-- The last event that concerns a key is its press. -/
def Held (history : List KeyEvent) (k : Fin 16) : Prop :=
  ∃ before after, history = before ++ pressOf k :: after ∧ ∀ e ∈ after, ¬ e.Concerns k

/-- A press that took its key down, behind some of the events and with no release of all keys after it. -/
def NewPress (before during earlier : List KeyEvent) (k : Fin 16) : Prop :=
  ∃ later, during = earlier ++ pressOf k :: later ∧ KeyEvent.releaseAll ∉ later ∧ ¬ Held (before ++ earlier) k

/-- The first of these presses is one of a key. -/
def FirstPress (before during : List KeyEvent) (k : Fin 16) : Prop :=
  ∃ earlier, NewPress before during earlier k ∧
    ∀ pre j, NewPress before during pre j → earlier.length ≤ pre.length

variable {before during earlier history : List KeyEvent} {e : KeyEvent} {j k : Fin 16}

theorem held_snoc : Held (history ++ [e]) k ↔ e = pressOf k ∨ (¬ e.Concerns k ∧ Held history k) := by
  constructor
  · rintro ⟨before, after, split, idle⟩
    rcases snoc_eq_iff.1 split with ⟨-, rfl, -⟩ | ⟨after', rfl, init⟩
    · exact .inl rfl
    · rw [List.forall_mem_append, List.forall_mem_singleton] at idle
      exact .inr ⟨idle.2, before, after', init, idle.1⟩
  · rintro (rfl | ⟨last, before, after, rfl, idle⟩)
    · exact ⟨history, [], rfl, List.forall_mem_nil _⟩
    · refine ⟨before, after ++ [e], List.append_assoc _ _ _, ?_⟩
      exact List.forall_mem_append.2 ⟨idle, List.forall_mem_singleton.2 last⟩

theorem not_held_nil : ¬ Held [] k := by
  rintro ⟨before, after, split, -⟩
  exact absurd split (by simp)

theorem newPress_snoc : NewPress before (during ++ [e]) earlier k ↔
    (earlier = during ∧ e = pressOf k ∧ ¬ Held (before ++ during) k) ∨
      (e ≠ .releaseAll ∧ NewPress before during earlier k) := by
  constructor
  · rintro ⟨later, split, noRelease, up⟩
    rcases snoc_eq_iff.1 split with ⟨rfl, rfl, -⟩ | ⟨later', rfl, init⟩
    · exact .inl ⟨rfl, rfl, up⟩
    · rw [List.mem_append, List.mem_singleton, not_or] at noRelease
      exact .inr ⟨fun last => noRelease.2 last.symm, later', init, noRelease.1, up⟩
  · rintro (⟨rfl, rfl, up⟩ | ⟨last, later, rfl, noRelease, up⟩)
    · exact ⟨[], rfl, List.not_mem_nil, up⟩
    · refine ⟨later ++ [e], List.append_assoc _ _ _, ?_, up⟩
      rw [List.mem_append, List.mem_singleton, not_or]
      exact ⟨noRelease, fun same => last same.symm⟩

theorem NewPress.length_lt (h : NewPress before during earlier k) : earlier.length < during.length := by
  obtain ⟨later, rfl, -⟩ := h
  simp

theorem not_newPress_releaseAll : ¬ NewPress before (during ++ [.releaseAll]) earlier k := by
  intro new
  rcases newPress_snoc.1 new with ⟨-, same, -⟩ | ⟨last, -⟩
  · cases same
  · exact last rfl

theorem newPress_snoc_of_old (notRelease : e ≠ .releaseAll) (old : ∀ k, e = pressOf k → Held (before ++ during) k) :
    NewPress before (during ++ [e]) earlier k ↔ NewPress before during earlier k := by
  rw [newPress_snoc]
  constructor
  · rintro (⟨-, same, up⟩ | ⟨-, there⟩)
    · exact absurd (old k same) up
    · exact there
  · exact fun there => .inr ⟨notRelease, there⟩

theorem firstPress_snoc (up : ¬ Held (before ++ during) j) :
    FirstPress before (during ++ [pressOf j]) k ↔
      FirstPress before during k ∨ ((∀ earlier i, ¬ NewPress before during earlier i) ∧ k = j) := by
  have notRelease : pressOf j ≠ KeyEvent.releaseAll := nofun
  constructor
  · rintro ⟨earlier, new, first⟩
    rcases newPress_snoc.1 new with ⟨rfl, same, -⟩ | ⟨-, old⟩
    · refine .inr ⟨fun pre i there => ?_, (KeyEvent.pressOf_inj.1 same).symm⟩
      have := first pre i (newPress_snoc.2 (.inr ⟨notRelease, there⟩))
      have := there.length_lt
      omega
    · exact .inl ⟨earlier, old, fun pre i there => first pre i (newPress_snoc.2 (.inr ⟨notRelease, there⟩))⟩
  · rintro (⟨earlier, old, first⟩ | ⟨none, rfl⟩)
    · refine ⟨earlier, newPress_snoc.2 (.inr ⟨notRelease, old⟩), fun pre i there => ?_⟩
      rcases newPress_snoc.1 there with ⟨rfl, -, -⟩ | ⟨-, there⟩
      · exact old.length_lt.le
      · exact first pre i there
    · refine ⟨during, newPress_snoc.2 (.inl ⟨rfl, rfl, up⟩), fun pre i there => ?_⟩
      rcases newPress_snoc.1 there with ⟨rfl, -, -⟩ | ⟨-, there⟩
      · exact le_rfl
      · exact absurd there (none pre i)

/-- A queue of the new presses: none if there are none, else the first at its head. -/
structure Pends (before during : List KeyEvent) (pending : List (Fin 16)) : Prop where
  empty : pending = [] ↔ ∀ earlier k, ¬ NewPress before during earlier k
  first : ∀ k, pending.head? = some k ↔ FirstPress before during k

variable {pending : List (Fin 16)}

theorem pends_none (none : ∀ earlier k, ¬ NewPress before during earlier k) : Pends before during [] where
  empty := iff_of_true rfl none
  first k := iff_of_false nofun fun ⟨earlier, new, _⟩ => none earlier k new

theorem Pends.old (h : Pends before during pending) (notRelease : e ≠ .releaseAll)
    (old : ∀ k, e = pressOf k → Held (before ++ during) k) : Pends before (during ++ [e]) pending := by
  have same (earlier : List KeyEvent) (k : Fin 16) :
      NewPress before (during ++ [e]) earlier k ↔ NewPress before during earlier k :=
    newPress_snoc_of_old notRelease old
  constructor
  · simp only [same, h.empty]
  · intro k
    simp only [FirstPress, same, h.first]

theorem Pends.new (h : Pends before during pending) (up : ¬ Held (before ++ during) j) :
    Pends before (during ++ [pressOf j]) (pending ++ [j]) where
  empty := iff_of_false (by simp) fun none => none during j (newPress_snoc.2 (.inl ⟨rfl, rfl, up⟩))
  first k := by
    rw [firstPress_snoc up, ← h.first, ← h.empty]
    cases pending with
    | nil => simp [eq_comm]
    | cons i pending => simp

theorem held_append_congr {before' : List KeyEvent} (same : ∀ k, Held before' k ↔ Held before k)
    (during : List KeyEvent) (k : Fin 16) : Held (before' ++ during) k ↔ Held (before ++ during) k := by
  induction during using List.reverseRecOn with
  | nil => simpa using same k
  | append_singleton during e ih => rw [← List.append_assoc, ← List.append_assoc, held_snoc, held_snoc, ih]

theorem held_filter (history : List KeyEvent) (k : Fin 16) :
    Held (history.filter (· ≠ .interrupt)) k ↔ Held history k := by
  induction history using List.reverseRecOn with
  | nil => rfl
  | append_singleton history e ih =>
    rw [List.filter_append, held_snoc, ← ih]
    by_cases called : e = .interrupt
    · subst called
      have other : KeyEvent.interrupt ≠ pressOf k := nofun
      simp [other, KeyEvent.not_concerns_interrupt]
    · have kept : [e].filter (· ≠ .interrupt) = [e] := by simp [called]
      rw [kept, held_snoc]

theorem released_of_not_held (held : Held before k) (up : ¬ Held (before ++ during) k) :
    releaseOf k ∈ during ∨ KeyEvent.releaseAll ∈ during := by
  induction during using List.reverseRecOn with
  | nil => exact absurd held (by simpa using up)
  | append_singleton during e ih =>
    rw [← List.append_assoc, held_snoc, not_or, not_and] at up
    by_cases concerned : e.Concerns k
    · rcases concerned with same | same | same
      · exact absurd same up.1
      · exact .inl (by simp [same])
      · exact .inr (by simp [same])
    · rcases ih (up.2 concerned) with released | released
      · exact .inl (List.mem_append_left _ released)
      · exact .inr (List.mem_append_left _ released)

/-! ### Keys that are down -/

/-- The keypad behind an event. One with a key outside the keypad is refused. -/
def after (kp : Keypad) (e : KeyEvent) : Keypad :=
  match kp.apply e with
  | .ok kp' => kp'
  | .error _ => kp

def play (kp : Keypad) (events : List KeyEvent) : Keypad := events.foldl after kp

/-- What an event does, by its kind. -/
inductive Plays (kp : Keypad) : KeyEvent → Keypad → Prop
  | press (k : Fin 16) : Plays kp (pressOf k) (kp.press k)
  | release (k : Fin 16) : Plays kp (releaseOf k) (kp.release k)
  | releaseAll : Plays kp .releaseAll kp.releaseAll
  | interrupt : Plays kp .interrupt kp.interrupt
  | refused {e : KeyEvent} (idle : ∀ k, ¬ e.Concerns k) (quiet : e ≠ .interrupt) : Plays kp e kp

theorem key?_eq_some {key : Int} {k : Fin 16} (named : key? key = some k) : key = (k.val : Int) := by
  unfold key? at named
  split at named
  · cases named
    simp only
    omega
  · cases named

theorem key?_natCast (k : Fin 16) : key? (k.val : Int) = some k := by
  have small := k.isLt
  rw [key?, dif_pos (by omega)]
  rfl

theorem not_concerns_of_outside {key : Int} (outside : key? key = none) (k : Fin 16) :
    ¬ (KeyEvent.press key).Concerns k ∧ ¬ (KeyEvent.release key).Concerns k := by
  have other : key ≠ (k.val : Int) := fun same => by
    rw [same, key?_natCast] at outside
    cases outside
  simp [KeyEvent.Concerns, pressOf, releaseOf, other]

theorem plays_after (kp : Keypad) (e : KeyEvent) : Plays kp e (kp.after e) := by
  cases e with
  | press key =>
    cases named : key? key with
    | some k =>
      cases key?_eq_some named
      have done : kp.after (.press (k.val : Int)) = kp.press k := by simp only [after, apply, named]
      rw [done]
      exact .press k
    | none =>
      have refused : kp.after (.press key) = kp := by simp only [after, apply, named]
      rw [refused]
      exact .refused (fun k => (not_concerns_of_outside named k).1) nofun
  | release key =>
    cases named : key? key with
    | some k =>
      cases key?_eq_some named
      have done : kp.after (.release (k.val : Int)) = kp.release k := by simp only [after, apply, named]
      rw [done]
      exact .release k
    | none =>
      have refused : kp.after (.release key) = kp := by simp only [after, apply, named]
      rw [refused]
      exact .refused (fun k => (not_concerns_of_outside named k).2) nofun
  | releaseAll => exact .releaseAll
  | interrupt => exact .interrupt

theorem get_allUp (k : Fin 16) : (Vector.replicate 16 false).get k = false := by
  simp [Vector.get]

theorem isDown_after (kp : Keypad) (e : KeyEvent) (k : Fin 16) :
    (kp.after e).down.get k = true ↔ e = pressOf k ∨ (¬ e.Concerns k ∧ kp.down.get k = true) := by
  have plays := plays_after kp e
  generalize kp.after e = kp' at plays ⊢
  cases plays with
  | press j =>
    rw [isDown_press, KeyEvent.pressOf_inj, KeyEvent.concerns_pressOf]
    by_cases same : j = k <;> simp [same]
  | release j =>
    rw [isDown_release, KeyEvent.concerns_releaseOf]
    by_cases same : j = k <;> simp [same, pressOf, releaseOf]
  | releaseAll =>
    have up : kp.releaseAll.down.get k = false := get_allUp k
    simp [up, KeyEvent.concerns_releaseAll, pressOf]
  | interrupt =>
    have other : KeyEvent.interrupt ≠ pressOf k := nofun
    simp only [other, false_or, KeyEvent.not_concerns_interrupt, not_false_eq_true, true_and]
    rfl
  | refused idle =>
    have other : e ≠ pressOf k := fun same => idle k (.inl same)
    simp only [other, false_or, idle k, not_false_eq_true, true_and]

theorem isDown_play (history : List KeyEvent) (k : Fin 16) :
    (({} : Keypad).play history).down.get k = true ↔ Held history k := by
  induction history using List.reverseRecOn with
  | nil =>
    have up : (({} : Keypad).play []).down.get k = false := get_allUp k
    exact iff_of_false (by simp [up]) not_held_nil
  | append_singleton history e ih =>
    rw [play, List.foldl_append, List.foldl_cons, List.foldl_nil, isDown_after, held_snoc]
    exact or_congr_right (and_congr_right fun _ => ih)

end Keypad

end Chip8
