import Chip8.Proofs.Keeping

/-! A host that records what it is told. Of any host an instruction asks for the screen, the keys and random
bytes alone, so that a step changes nothing that only the tone changes (`step_unseen`). -/

namespace Chip8

/-- What a host is told to show or to play. -/
inductive Output
  | clear
  | render (fb : Framebuffer)
  | tone (active : Bool)

def Output.tone? : Output → Option Bool
  | tone active => some active
  | _ => none

/-- A host together with all that it was told so far, in order. -/
structure Recorded (π : Type) where
  host : π
  outputs : List Output := []

namespace Recorded

variable {π : Type}

def tell (o : Output) (f : π → π) (r : Recorded π) : Recorded π where
  host := f r.host
  outputs := r.outputs ++ [o]

def ask {α : Type} (f : π → α × π) (r : Recorded π) : α × Recorded π :=
  let answer := f r.host
  (answer.1, { r with host := answer.2 })

instance instHost [Host π] : Host (Recorded π) where
  clearDisplay := tell .clear Host.clearDisplay
  render fb := tell (.render fb) (Host.render fb)
  isPressed key := ask (Host.isPressed key)
  waitKey := ask Host.waitKey
  setTone active := tell (.tone active) (Host.setTone active)
  randomByte := ask Host.randomByte

def tones (r : Recorded π) : List Bool := r.outputs.filterMap Output.tone?

theorem tones_tell (r : Recorded π) (o : Output) (f : π → π) :
    (r.tell o f).tones = r.tones ++ o.tone?.toList := by
  simp only [tell, tones, List.filterMap_append, List.filterMap_cons, List.filterMap_nil]
  cases o.tone? <;> rfl

end Recorded

/-- What is seen of a host is changed by the tone alone. -/
structure ToneOnly {π β : Type} [Host π] (see : π → β) : Prop where
  clearDisplay : ∀ h, see (Host.clearDisplay h) = see h
  render : ∀ fb h, see (Host.render fb h) = see h
  isPressed : ∀ key h, see (Host.isPressed key h).2 = see h
  waitKey : ∀ h, see (Host.waitKey h).2 = see h
  randomByte : ∀ h, see (Host.randomByte h).2 = see h

theorem Recorded.toneOnly_tones {π : Type} [Host π] : ToneOnly (Recorded.tones (π := π)) where
  clearDisplay r := by
    show (r.tell _ _).tones = _
    rw [tones_tell]
    exact List.append_nil _
  render fb r := by
    show (r.tell _ _).tones = _
    rw [tones_tell]
    exact List.append_nil _
  isPressed _ _ := rfl
  waitKey _ := rfl
  randomByte _ := rfl

/-- What is seen of the host is an observation that no opcode changes. -/
theorem ToneOnly.steady {π β : Type} [Host π] {see : π → β} (h : ToneOnly see) :
    Machine.Steady fun m : Machine π => see m.host where
  bus _ _ := rfl
  state _ _ _ := rfl
  clearDisplay m := h.clearDisplay m.host
  render fb m := h.render fb m.host
  isPressed key m := h.isPressed key m.host
  waitKey m := h.waitKey m.host
  randomByte m := h.randomByte m.host

namespace Machine

variable {π α γ : Type} {see : π → γ}

/-- An effect leaves what is seen of the host. -/
def Unseen (see : π → γ) (x : Effect π α) : Prop := ∀ m, see (x m).2.host = see m.host

variable [Host π]

theorem stepOnce_unseen (h : ToneOnly see) : Unseen see (chip8 π).stepOnce := fun m => by
  rcases stepOnce_keeps h.steady (fun _ _ _ => rfl) m with ⟨f, m', once, same⟩ | ⟨t, m', once, same⟩
  · rw [once]
    exact same
  · rw [once]
    exact same

theorem stepMany_unseen (h : ToneOnly see) (n : Nat) (last : Option Trace) :
    Unseen see ((chip8 π).stepMany n last) := by
  induction n generalizing last with
  | zero => exact fun _ => rfl
  | succ n ih =>
    have first : Keeps (fun m : Machine π => see m.host) (chip8 π).stepOnce := stepOnce_unseen h
    exact first.bind fun t => ih (some t)

theorem step_unseen (h : ToneOnly see) (n : Int) : Unseen see (step n : Effect π (Option Trace)) :=
  fun m => by
    rw [step_eq]
    split
    · exact stepMany_unseen h _ none m
    · rfl

end Machine

end Chip8
