import Chip8.Proofs.Refinement

/-! Programs from power-on. A machine fresh from power-on with an image loaded represents one reference machine
(`loadImage_powerOn`), and from there a program can be followed row by row (`step_one_fresh`). -/

namespace Chip8

namespace Reference

def fresh (image : List UInt8) : Reference where
  v _ := 0
  i := Fin.ofNat 4096 0
  pc := 0x200
  sp := 0
  stack _ := 0
  delay := 0
  sound := 0
  programEnd := 0x200 + image.length
  pixel _ _ := false
  memory a := ((Machine.cleared (Vector.replicate 4096 0)).overlay 0x200 image).get a

variable {image : List UInt8}

theorem fresh_bounded (short : image.length ≤ 3584) : (fresh image).Bounded where
  pc := by
    show 0x200 ≤ 0x1002
    decide
  sp := Nat.zero_le 16
  stack _ := .inl rfl
  used k hk := absurd hk (Nat.not_lt_zero k.val)
  programEnd := by
    show 0x200 ≤ 0x200 + image.length ∧ 0x200 + image.length ≤ 0x1000
    omega

theorem memory_fresh (short : image.length ≤ 3584) {k : Nat} (hk : k < image.length) :
    (fresh image).memory (Fin.ofNat 4096 (0x200 + k)) = image.getD k 0 := by
  have place : (Fin.ofNat 4096 (0x200 + k)).val = 0x200 + k := Nat.mod_eq_of_lt (by omega)
  have behind : ¬ 0x200 + k < 0x200 := by omega
  show Vector.get (Memory.overlay _ _ _) _ = _
  rw [Memory.get_overlay, place, if_neg behind, Nat.add_sub_cancel_left, List.getD_eq_getElem _ _ hk,
    List.getD_eq_getElem _ _ hk]

theorem peek_fresh (short : image.length ≤ 3584) {k : Nat} (hk : k < image.length) (log : List Access) :
    (Bus.ofMemory (Vector.ofFn (fresh image).memory) log).peek (0x200 + k : Nat) = .ok (image.getD k 0) := by
  rw [Bus.peek_ofMemory _ _ (by omega), Fin.getElem_fin, Vector.getElem_ofFn, Fin.eta, residue_ofNat,
    memory_fresh short hk]

theorem word_of_memory_fresh {r : Reference} (short : image.length ≤ 3584)
    (memory : r.memory = (fresh image).memory) {k : Nat} (pc : r.pc = 0x200 + k) (hk : k + 1 < image.length) :
    r.word = (image.getD k 0).toNat * 256 + (image.getD (k + 1) 0).toNat := by
  rw [word, codeByte, codeByte, pc, memory, Nat.add_zero, Nat.add_assoc, memory_fresh short (by omega),
    memory_fresh short hk]

/-- The cycle of a word of the image, while that is still what memory holds. -/
theorem cycle_of_memory_fresh {r : Reference} (short : image.length ≤ 3584)
    (memory : r.memory = (fresh image).memory) (programEnd : r.programEnd = (fresh image).programEnd) {k : Nat}
    (pc : r.pc = 0x200 + k) (hk : k + 1 < image.length) {op : Opcode} {w : Nat}
    (word : (image.getD k 0).toNat * 256 + (image.getD (k + 1) 0).toNat = w) (fits : op.Fits w) (a : Answers) :
    r.cycle a = row op w a r.advance := by
  have read : r.word = w := (word_of_memory_fresh short memory pc hk).trans word
  have behind : (fresh image).programEnd = 0x200 + image.length := rfl
  have inside : r.Inside := by
    constructor <;> omega
  rw [cycle, if_pos inside, read, Opcode.ofWord?_of_fits fits]

end Reference

namespace Machine

variable {π : Type} {m : Machine π} {r : Reference} {image : List UInt8}

theorem powerOn_eq (host : π) : powerOn host = {
    state := {}, bus := Bus.ofMemory (cleared (Vector.replicate 4096 0)) [], host } := by
  rw [powerOn_def, Bus.flat_eq_ofMemory]
  dsimp only
  rw [reset_eq (Bus.isMemory_ofMemory _ _), Bus.memory_ofMemory]

theorem host_loadImage (h : m.Sound) (image : List UInt8) : (loadImage image m).2.host = m.host := by
  cases refused : imageFault? image with
  | some why => rw [loadImage_rejected refused]
  | none => rw [loadImage_accepted h.bus refused]

theorem host_loadImage_powerOn (host : π) (image : List UInt8) :
    (loadImage image (powerOn host)).2.host = host := by
  rw [host_loadImage (powerOn_sound host), powerOn_eq]

theorem loadImage_powerOn (host : π) (accepted : imageFault? image = none) :
    (loadImage image (powerOn host)).2.Represents (Reference.fresh image) ∧
      (loadImage image (powerOn host)).2.host = host := by
  have bus : (powerOn host).bus.IsMemory := (powerOn_sound host).bus
  rw [loadImage_accepted bus accepted, powerOn_eq]
  refine ⟨⟨?_, ?_⟩, rfl⟩
  · exact {
      v := fun k => by simp [Reference.fresh]
      i := rfl
      pc := rfl
      sp := rfl
      stack := fun k => by simp [Reference.fresh]
      delay := rfl
      sound := rfl
      programEnd := by
        show programBase + image.length = (0x200 + image.length : Nat)
        unfold programBase
        omega
      screen := Framebuffer.screen_shows }
  · have cells : Vector.ofFn (Reference.fresh image).memory =
        (cleared (Vector.replicate 4096 0)).overlay 0x200 image := Vector.ofFn_getElem
    rw [cells]
    dsimp only
    rw [Bus.memory_ofMemory, Bus.log_ofMemory, Bus.log_ofMemory]

variable [Host π]

section fresh

variable (h : m.Represents r) (hr : r.Bounded) (short : image.length ≤ 3584)
  (memory : r.memory = (Reference.fresh image).memory)
  (programEnd : r.programEnd = (Reference.fresh image).programEnd) {k : Nat} (pc : r.pc = 0x200 + k)
  (hk : k + 1 < image.length) {op : Opcode} {w : Nat}
  (word : (image.getD k 0).toNat * 256 + (image.getD (k + 1) 0).toNat = w) (fits : op.Fits w)
  {r' : Reference} (row : Reference.row op w (Answers.ofHost m.host) r.advance = .ok r')
include h hr short memory programEnd pc hk word fits row

/-- A cycle by the row of a word of the image, while that is still what memory holds. -/
theorem stepOnce_fresh : m.state.isLoaded = true ∧ ∃ (t : Trace) (m' : Machine π),
    (chip8 π).stepOnce m = (.ok t, m') ∧ t.instruction = ⟨op, w⟩ ∧ m'.Represents r' ∧ r'.Bounded := by
  have cycle := Reference.cycle_of_memory_fresh short memory programEnd pc hk word fits (Answers.ofHost m.host)
  have read : r.word = w := (Reference.word_of_memory_fresh short memory pc hk).trans word
  have meets := stepOnce_meets h hr
  rw [cycle, row] at meets
  obtain ⟨t, m', once, executed⟩ := meets
  obtain ⟨op', fits', instruction, -⟩ := executed.instruction
  rw [read] at fits' instruction
  obtain rfl := Opcode.fits_unique fits' fits
  exact ⟨isLoaded_of_inside (h.inside_iff.2 executed.inside), t, m', once, instruction, executed.represents,
    executed.bounded⟩

theorem step_one_fresh : (step 1 m).2.Represents r' ∧ r'.Bounded := by
  obtain ⟨loaded, t, m', once, -, represents, bounded⟩ :=
    stepOnce_fresh h hr short memory programEnd pc hk word fits row
  rw [step_one_of_stepOnce loaded once]
  exact ⟨represents, bounded⟩

end fresh

end Machine

namespace Session

variable {π : Type}

theorem machine_start (host : π) : (start host).machine = Machine.powerOn host := by rw [start]

variable [Host π]

theorem ofCommands_loadImage (stops : π → Nat) (host : π) {image : List UInt8}
    (accepted : Machine.imageFault? image = none) :
    (ofCommands stops host [.loadImage image]).machine.Represents (Reference.fresh image) ∧
      (ofCommands stops host [.loadImage image]).machine.host = host := by
  have loaded := Machine.loadImage_powerOn host accepted
  rw [← machine_start, ← machine_after_loadImage stops] at loaded
  rw [← ofCommands_singleton] at loaded
  exact loaded

/-- A program that points at its own start and stores a register there. -/
def overwriting : List UInt8 := [0xA2, 0x00, 0xF0, 0x55]

/-- Its two instructions. The second puts a zero in the place of the first byte. -/
theorem overwriting_steps {m : Machine Unit} (fresh : m.Represents (Reference.fresh overwriting)) :
    ∃ t m₁ t' m₂, Machine.step 1 m = (.ok (some t), m₁) ∧ Machine.step 1 m₁ = (.ok (some t'), m₂) ∧
      t.instruction = ⟨.loadIndex, 0xA200⟩ ∧ t'.instruction = ⟨.store, 0xF055⟩ ∧
      m₁.Represents { Reference.fresh overwriting with i := 0x200, pc := 0x202 } ∧
      m.bus.memory[0x200] = 0xA2 ∧ m₂.bus.memory[0x200] = 0 := by
  have short : overwriting.length ≤ 3584 := by decide
  obtain ⟨loaded, t, m₁, once, first, fresh₁, bounded⟩ := Machine.stepOnce_fresh fresh
    (Reference.fresh_bounded short) short rfl rfl (k := 0) rfl (by decide) rfl
    (Opcode.fits_of_ofWord? (show Opcode.ofWord? 0xA200 = some .loadIndex by decide)) rfl
  obtain ⟨loaded', t', m₂, once', second, fresh₂, -⟩ := Machine.stepOnce_fresh fresh₁ bounded short rfl rfl (k := 2) rfl
    (by decide) rfl (Opcode.fits_of_ofWord? (show Opcode.ofWord? 0xF055 = some .store by decide)) rfl
  refine ⟨t, m₁, t', m₂, Machine.step_one_of_stepOnce loaded once, Machine.step_one_of_stepOnce loaded' once', first,
    second, fresh₁, ?_, ?_⟩
  · rw [fresh.memory, Vector.getElem_ofFn]
    exact Reference.memory_fresh short (k := 0) (by decide)
  · rw [fresh₂.memory, Vector.getElem_ofFn]
    rfl

end Session

end Chip8
