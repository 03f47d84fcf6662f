import Chip8.Machine
import Chip8.Proofs.Drawing
import Chip8.Proofs.Memory
import Chip8.Proofs.Reference

/-! Machines that hold the values of a reference machine. A state in range holds those of exactly one
(`State.InRange.exists_shows`), so what is said of reference machines is said of all machines in range. -/

namespace Chip8

open Function (update)

/-- The registers and the screen of a reference machine. -/
structure State.Shows (s : State) (r : Reference) : Prop where
  v : ∀ k : Fin 16, s.v.get k = ((r.v k).toNat : Int)
  i : s.i = (r.i.val : Int)
  pc : s.pc = r.pc
  sp : s.sp = r.sp
  stack : ∀ k : Fin 16, s.stack.get k = (r.stack k : Int)
  delay : s.delay = (r.delay.toNat : Int)
  sound : s.sound = (r.sound.toNat : Int)
  programEnd : s.programEnd = r.programEnd
  screen : s.screen.Shows r.pixel

/-- The registers, the screen and the memory of a reference machine. -/
structure Machine.Represents {π : Type} (m : Machine π) (r : Reference) : Prop where
  state : m.state.Shows r
  bus : m.bus = Bus.ofMemory (Vector.ofFn r.memory) m.bus.log

namespace State.Shows

variable {s : State} {r : Reference} (h : s.Shows r)
include h

theorem setV (x : Fin 16) {z : Int} {byte : UInt8} (hz : z = byte.toNat) :
    (s.setV x z).Shows (r.setV x byte) :=
  { h with
    v := fun k => by
      by_cases hk : k = x
      · subst hk
        simp [State.setV, Reference.setV, Vector.get_eq_getElem, hz]
      · have : x.val ≠ k.val := fun e => hk (Fin.ext e.symm)
        simp [State.setV, Reference.setV, Vector.get_eq_getElem, hk, this, ← h.v k] }

theorem setResult (x : Fin 16) {flagged : Bool} {z : Int} {flag byte : UInt8}
    (hflag : flag = if flagged then 1 else 0) (hz : z % 256 = byte.toNat) :
    (s.setResult x flagged z).Shows (r.setFlagged x flag byte) := by
  refine (h.setV State.flag ?_).setV x hz
  cases flagged <;> simp [hflag]

theorem skipIf {c d : Bool} (low : r.pc ≤ 0x1000) (hc : c = d) :
    (s.skipIf c).Shows (r.skipIf d) := by
  subst hc
  cases c with
  | false => exact h
  | true =>
    refine { h with pc := ?_ }
    have := h.pc
    show (s.pc + 2) % 65536 = (r.pc + 2 : Nat)
    omega

theorem place (k : Nat) : residue 4096 (Machine.wrap (s.i + k)) = r.i + Fin.ofNat 4096 k := by
  rw [Machine.wrap, show (4096 : Int) = (4096 : Nat) from rfl, residue_emod, residue_add, h.i,
    residue_natCast]

end State.Shows

/-- The ranges of the registers. A slot of the stack holds an address behind a call once it has been used,
and the slots below the stack pointer have been used. -/
structure State.InRange (s : State) : Prop where
  v : ∀ k : Fin 16, 0 ≤ s.v.get k ∧ s.v.get k ≤ 255
  i : 0 ≤ s.i ∧ s.i ≤ 0xFFF
  pc : 0 ≤ s.pc ∧ s.pc ≤ 0x1002
  sp : 0 ≤ s.sp ∧ s.sp ≤ 16
  stack : ∀ k : Fin 16, s.stack.get k = 0 ∨ 0x202 ≤ s.stack.get k ∧ s.stack.get k ≤ 0x1000
  used : ∀ k : Fin 16, k.val < s.sp → 0x202 ≤ s.stack.get k ∧ s.stack.get k ≤ 0x1000
  delay : 0 ≤ s.delay ∧ s.delay ≤ 255
  sound : 0 ≤ s.sound ∧ s.sound ≤ 255
  programEnd : 0x200 ≤ s.programEnd ∧ s.programEnd ≤ 0x1000
  screen : s.screen.width = 64 ∧ s.screen.height = 32

/-- The ranges that the types of a reference machine leave open. -/
structure Reference.Bounded (r : Reference) : Prop where
  pc : r.pc ≤ 0x1002
  sp : r.sp ≤ 16
  stack : ∀ k, r.stack k = 0 ∨ 0x202 ≤ r.stack k ∧ r.stack k ≤ 0x1000
  used : ∀ k, k.val < r.sp → 0x202 ≤ r.stack k ∧ r.stack k ≤ 0x1000
  programEnd : 0x200 ≤ r.programEnd ∧ r.programEnd ≤ 0x1000

theorem byte_of_int {z : Int} (h : 0 ≤ z ∧ z ≤ 255) : z = (UInt8.ofNat z.toNat).toNat := by
  rw [UInt8.toNat_ofNat']
  omega

theorem Framebuffer.exists_shows {fb : Framebuffer} (h : fb.width = 64 ∧ fb.height = 32) :
    ∃ pixel, fb.Shows pixel := by
  refine ⟨fun x y => fb.pixel x.val y.val, h.1, h.2, fun x y => ?_⟩
  have same : fb.index x y = fb.index (residue 64 x).val (residue 32 y).val := by
    rw [Framebuffer.index_eq_iff, Framebuffer.column, Framebuffer.column, Framebuffer.row,
      Framebuffer.row, h.1, h.2, residue_val, residue_val]
    constructor <;> congr 1 <;> omega
  rw [Framebuffer.pixel, same]
  rfl

theorem State.InRange.exists_shows {s : State} (h : s.InRange) (memory : Fin 4096 → UInt8) :
    ∃ r, s.Shows r ∧ r.Bounded ∧ r.memory = memory := by
  obtain ⟨pixel, screen⟩ := Framebuffer.exists_shows h.screen
  refine ⟨{
    v := fun k => UInt8.ofNat (s.v.get k).toNat
    i := residue 4096 s.i
    pc := s.pc.toNat
    sp := s.sp.toNat
    stack := fun k => (s.stack.get k).toNat
    delay := UInt8.ofNat s.delay.toNat
    sound := UInt8.ofNat s.sound.toNat
    programEnd := s.programEnd.toNat
    pixel, memory }, ?_, ?_, rfl⟩
  · exact {
      v := fun k => byte_of_int (h.v k)
      i := by have := h.i; have := residue_val (n := 4096) s.i; simp only; omega
      pc := by have := h.pc; simp only; omega
      sp := by have := h.sp; simp only; omega
      stack := fun k => by have := h.stack k; simp only; omega
      delay := byte_of_int h.delay
      sound := byte_of_int h.sound
      programEnd := by have := h.programEnd; simp only; omega
      screen }
  · exact {
      pc := by have := h.pc; simp only; omega
      sp := by have := h.sp; simp only; omega
      stack := fun k => by have := h.stack k; simp only; omega
      used := fun k hk => by have := h.used k; simp only at hk ⊢; omega
      programEnd := by have := h.programEnd; simp only; omega }

theorem State.Shows.inRange {s : State} {r : Reference} (h : s.Shows r) (hr : r.Bounded) :
    s.InRange := by
  have byte : ∀ {z : Int} {b : UInt8}, z = (b.toNat : Int) → 0 ≤ z ∧ z ≤ 255 := by
    intro z b hz
    have := b.toNat_lt
    omega
  exact {
    v := fun k => byte (h.v k)
    i := by have := h.i; have := r.i.isLt; omega
    pc := by have := h.pc; have := hr.pc; omega
    sp := by have := h.sp; have := hr.sp; omega
    stack := fun k => by have := h.stack k; have := hr.stack k; omega
    used := fun k hk => by have := h.stack k; have := h.sp; have := hr.used k; omega
    delay := byte h.delay
    sound := byte h.sound
    programEnd := by have := h.programEnd; have := hr.programEnd; omega
    screen := ⟨h.screen.width, h.screen.height⟩ }

namespace Machine

variable {π : Type}

/-- Registers in range and a bus that is a memory. -/
structure Sound (m : Machine π) : Prop where
  state : m.state.InRange
  bus : m.bus.IsMemory

theorem Sound.exists_represents {m : Machine π} (h : m.Sound) :
    ∃ r, m.Represents r ∧ r.Bounded ∧ Vector.ofFn r.memory = m.bus.memory := by
  obtain ⟨r, shows, bounded, memory⟩ := h.state.exists_shows fun a => m.bus.memory[a]
  have cells : Vector.ofFn r.memory = m.bus.memory := by
    rw [memory]
    exact Vector.ofFn_getElem
  refine ⟨r, ⟨shows, ?_⟩, bounded, cells⟩
  rw [cells]
  exact h.bus.eq_ofMemory

theorem Represents.memory {m : Machine π} {r : Reference} (h : m.Represents r) :
    m.bus.memory = Vector.ofFn r.memory := by
  rw [h.bus]
  exact Bus.memory_ofMemory _ _

theorem Represents.sound {m : Machine π} {r : Reference} (h : m.Represents r) (hr : r.Bounded) :
    m.Sound :=
  ⟨h.state.inRange hr, _, h.bus⟩

end Machine

end Chip8
