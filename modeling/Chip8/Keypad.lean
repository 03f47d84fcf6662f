import Chip8.Host
/-! A keypad fed by events. A wait forgets what was pressed before it began and ends with the first key
that goes down after that, or with an interruption made after that. -/

namespace Chip8

inductive KeyEvent
  | press (key : Int)
  | release (key : Int)
  | releaseAll
  | interrupt
  deriving DecidableEq

/-- The keys that are down, the presses that no wait has taken yet, and the number of interruptions. -/
structure Keypad where
  down : Vector Bool 16 := Vector.replicate 16 false
  pending : List (Fin 16) := []
  interruptions : Nat := 0
  deriving DecidableEq

namespace Keypad

theorem toNat_lt {key : Int} (h : 0 ≤ key ∧ key < 16) : key.toNat < 16 := by omega

def key? (key : Int) : Option (Fin 16) :=
  if h : 0 ≤ key ∧ key < 16 then some ⟨key.toNat, toNat_lt h⟩ else none

theorem key_lt (k : Fin 16) : k.val < 16 := k.isLt

/-- A key that is down already makes no new press. -/
def press (kp : Keypad) (k : Fin 16) : Keypad :=
  if kp.down.get k then kp
  else { kp with down := kp.down.set k true (key_lt k), pending := kp.pending ++ [k] }

def release (kp : Keypad) (k : Fin 16) : Keypad :=
  { kp with down := kp.down.set k false (key_lt k) }

def releaseAll (kp : Keypad) : Keypad :=
  { kp with down := Vector.replicate 16 false, pending := [] }

def interrupt (kp : Keypad) : Keypad := { kp with interruptions := kp.interruptions + 1 }

/-- Applies an event; a key outside the keypad is answered by its number. -/
def apply (kp : Keypad) : KeyEvent → Except Int Keypad
  | .press key =>
    match key? key with
    | some k => .ok (kp.press k)
    | none => .error key
  | .release key =>
    match key? key with
    | some k => .ok (kp.release k)
    | none => .error key
  | .releaseAll => .ok kp.releaseAll
  | .interrupt => .ok kp.interrupt

def isDown (kp : Keypad) (key : Int) : Bool :=
  kp.down.get ⟨(key % 16).toNat, by omega⟩

def pressedKeys (kp : Keypad) : List (Fin 16) := (List.finRange 16).filter kp.down.get

/-- Begins a wait: what is pending is forgotten. The number of interruptions so far is its mark. -/
def beginWait (kp : Keypad) : Nat × Keypad := (kp.interruptions, { kp with pending := [] })

/-- Looks whether a wait with this mark is over: none while it is not. -/
def poll (mark : Nat) (kp : Keypad) : Option (Except Interruption (Fin 16)) × Keypad :=
  if kp.interruptions ≠ mark then (some (.error .interrupted), kp)
  else match kp.pending with
    | [] => (none, kp)
    | k :: rest => (some (.ok k), { kp with pending := rest })

def applyAll (kp : Keypad) : List KeyEvent → Except Int Unit × Keypad
  | [] => (.ok (), kp)
  | e :: es =>
    match kp.apply e with
    | .ok kp => kp.applyAll es
    | .error key => (.error key, kp)

/-- A wait during which these events arrive and then no more: without a key it times out, or is
interrupted if it has no time limit. -/
def waitThrough (kp : Keypad) (events : List KeyEvent) (limited : Bool) :
    Except WaitFault Int × Keypad :=
  let began := kp.beginWait
  match began.2.applyAll events with
  | (.error key, kp) => (.error (.noSuchKey key), kp)
  | (.ok (), kp) =>
    match poll began.1 kp with
    | (some (.ok k), kp) => (.ok (k.val : Int), kp)
    | (some (.error why), kp) => (.error (.interrupted why), kp)
    | (none, kp) =>
      if limited then (.error (.interrupted .timedOut), kp)
      else (.error (.interrupted .interrupted), kp.interrupt)

theorem isDown_press (kp : Keypad) (k j : Fin 16) :
    (kp.press k).down.get j = if k = j then true else kp.down.get j := by
  unfold press
  by_cases hd : kp.down.get k = true
  · rw [if_pos hd]
    by_cases hk : k = j
    · subst hk; simpa using hd
    · simp [hk]
  · rw [if_neg hd]
    show (kp.down.set k.val true)[j.val] = if k = j then true else kp.down[j.val]
    simp [Vector.getElem_set, Fin.ext_iff]

theorem isDown_release (kp : Keypad) (k j : Fin 16) :
    (kp.release k).down.get j = if k = j then false else kp.down.get j := by
  show (kp.down.set k.val false)[j.val] = if k = j then false else kp.down[j.val]
  simp [Vector.getElem_set, Fin.ext_iff]

end Keypad

end Chip8
