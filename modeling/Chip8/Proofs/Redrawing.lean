import Chip8.Proofs.Failing

/-! A sprite drawn twice. A sprite turns over the pixels that it lights, so that drawn again at the same place it
turns them back, and collides exactly where it had turned one on (`draw_twice_erases`). -/

namespace Chip8

namespace Sprite

variable (sprite : Sprite) (originX : Fin 64) (originY : Fin 32)

/-- A sprite over its own pixels collides where it turned one on. -/
theorem collides_xor_lights (height : Nat) (pixel : Fin 64 → Fin 32 → Bool) :
    sprite.Collides originX originY height (fun x y => pixel x y ^^ sprite.lights originX originY height x y) ↔
      ∃ x y, pixel x y = false ∧ (pixel x y ^^ sprite.lights originX originY height x y) = true := by
  unfold Collides
  constructor
  · rintro ⟨x, y, lit, lights⟩
    refine ⟨x, y, ?_, lit⟩
    simpa [lights] using lit
  · rintro ⟨x, y, dark, lit⟩
    refine ⟨x, y, lit, ?_⟩
    simpa [dark] using lit

theorem ne_zero_of_testBit {b : UInt8} {k : Nat} (h : b.toNat.testBit k = true) : b ≠ 0 := by
  rintro rfl
  simp at h

theorem exists_testBit {b : UInt8} (h : b ≠ 0) : ∃ c < 8, b.toNat.testBit (7 - c) = true := by
  have nonzero : b.toNat ≠ 0 := by
    intro zero
    exact h (UInt8.toNat_inj.1 zero)
  obtain ⟨k, set⟩ := Nat.exists_testBit_of_ne_zero nonzero
  have small : k < 8 := by
    by_contra large
    have above : b.toNat < 2 ^ k :=
      lt_of_lt_of_le b.toNat_lt (Nat.pow_le_pow_right (by decide) (Nat.not_lt.1 large))
    rw [Nat.testBit_lt_two_pow above] at set
    cases set
  refine ⟨7 - k, by omega, ?_⟩
  rwa [Nat.sub_sub_self (by omega)]

theorem exists_lights_iff {height : Nat} (small : height ≤ 32) :
    (∃ x y, sprite.lights originX originY height x y = true) ↔ ∃ row < height, sprite row ≠ 0 := by
  constructor
  · rintro ⟨x, y, lights⟩
    simp only [Sprite.lights, Bool.and_eq_true, decide_eq_true_eq] at lights
    obtain ⟨⟨-, row⟩, bit⟩ := lights
    exact ⟨_, row, ne_zero_of_testBit bit⟩
  · rintro ⟨row, below, set⟩
    obtain ⟨c, column, bit⟩ := exists_testBit set
    have across := (sub_val_eq_iff (show c < 64 by omega) (originX + Fin.ofNat 64 c) originX).2 rfl
    have down := (sub_val_eq_iff (show row < 32 by omega) (originY + Fin.ofNat 32 row) originY).2 rfl
    refine ⟨originX + Fin.ofNat 64 c, originY + Fin.ofNat 32 row, ?_⟩
    simp only [Sprite.lights, across, down]
    simp [column, below, bit]

end Sprite

namespace Framebuffer

theorem Shows.exists_pixel {fb fb' : Framebuffer} {pixel pixel' : Fin 64 → Fin 32 → Bool} (h : fb.Shows pixel)
    (h' : fb'.Shows pixel') (p : Bool → Bool → Prop) :
    (∃ x y : Int, p (fb.pixel x y) (fb'.pixel x y)) ↔ ∃ x y, p (pixel x y) (pixel' x y) := by
  constructor
  · rintro ⟨x, y, holds⟩
    rw [h.pixel, h'.pixel] at holds
    exact ⟨_, _, holds⟩
  · rintro ⟨x, y, holds⟩
    rw [← h.pixel_val, ← h'.pixel_val] at holds
    exact ⟨_, _, holds⟩

end Framebuffer

namespace State

variable (s : State) (p : Prop) [Decidable p]

theorem get_setV_ite_eq_one_iff (k : Fin 16) : (s.setV k (if p then 1 else 0)).v.get k = 1 ↔ p := by
  rw [get_setV]
  by_cases holds : p <;> simp [holds]

theorem get_setV_ite (k : Fin 16) :
    (s.setV k (if p then 1 else 0)).v.get k = 0 ∨ (s.setV k (if p then 1 else 0)).v.get k = 1 := by
  rw [get_setV]
  exact (ite_eq_or_eq p 1 0).symm

end State

namespace Machine

variable {π : Type} {m : Machine π}

/-- A draw moves neither the sprite nor a register but the flag. -/
theorem spriteAt_drawn (height : Nat) (collided : Prop) [Decidable collided] (screen : Framebuffer) (host : π) :
    spriteAt { m.drawn height collided screen with host } = m.spriteAt := by
  funext k
  simp only [spriteAt, drawn, Bus.memory_ofMemory]
  rfl

variable [Host π]

/-- **Redrawing.** Where the flag is no coordinate, a sprite drawn twice in a row leaves the screen as it was,
whatever was on it. The flag then tells whether the first draw had turned a pixel on; on a blank screen, whether
the sprite has a bit set. -/
theorem draw_twice_erases (memory : m.bus.IsMemory)
    (size : m.state.screen.width = 64 ∧ m.state.screen.height = 32) {w : Nat}
    (hx : fieldX w ≠ State.flag) (hy : fieldY w ≠ State.flag) :
    ∃ m₁ m₂ : Machine π, execute ⟨.draw, w⟩ m = (.ok (), m₁) ∧ execute ⟨.draw, w⟩ m₁ = (.ok (), m₂) ∧
      m₂.state.screen = m.state.screen ∧
      (m₂.state.v.get State.flag = 0 ∨ m₂.state.v.get State.flag = 1) ∧
      (m₂.state.v.get State.flag = 1 ↔
        ∃ x y : Int, m.state.screen.pixel x y = false ∧ m₁.state.screen.pixel x y = true) ∧
      (m.state.screen.isBlank = true →
        (m₂.state.v.get State.flag = 1 ↔ ∃ row < fieldN w, m.spriteAt row ≠ 0)) := by
  have small : fieldN w ≤ 32 := by
    unfold fieldN
    omega
  obtain ⟨pixel, shows⟩ := Framebuffer.exists_shows size
  obtain ⟨screen, turned, first⟩ := draw_run memory shows (fieldX w) (fieldY w) small
  generalize hX : residue 64 (m.state.v.get (fieldX w)) = originX at turned first
  generalize hY : residue 32 (m.state.v.get (fieldY w)) = originY at turned first
  generalize hm : ({ m.drawn (fieldN w) (m.spriteAt.Collides originX originY (fieldN w) pixel) screen with
    host := Host.render screen m.host } : Machine π) = m₁ at first
  have shown : m₁.state.screen = screen := by rw [← hm]; rfl
  have sprite : spriteAt m₁ = m.spriteAt := by rw [← hm, spriteAt_drawn]
  have column : m₁.state.v.get (fieldX w) = m.state.v.get (fieldX w) := by
    rw [← hm]
    exact m.state.get_setV_of_ne hx.symm _
  have row : m₁.state.v.get (fieldY w) = m.state.v.get (fieldY w) := by
    rw [← hm]
    exact m.state.get_setV_of_ne hy.symm _
  have memory₁ : m₁.bus.IsMemory := by
    rw [← hm]
    exact Bus.isMemory_ofMemory _ _
  rw [← shown] at turned
  obtain ⟨screen₂, back, second⟩ := draw_run memory₁ turned (fieldX w) (fieldY w) small
  rw [column, row, hX, hY, sprite] at back second
  simp only [Bool.xor_assoc, Bool.xor_self, Bool.xor_false] at back
  refine ⟨m₁, _, first, second, back.eq shows, m₁.state.get_setV_ite _ _, ?_, ?_⟩
  · apply (m₁.state.get_setV_ite_eq_one_iff _ _).trans
    rw [Sprite.collides_xor_lights, shows.exists_pixel turned fun before after => before = false ∧ after = true]
  · intro blank
    have dark : ∀ x y, pixel x y = false := by
      intro x y
      rw [← shows.pixel_val, (Framebuffer.isBlank_iff _).1 blank]
    apply (m₁.state.get_setV_ite_eq_one_iff _ _).trans
    rw [Sprite.collides_xor_lights, ← Sprite.exists_lights_iff _ originX originY small]
    simp only [dark, Bool.false_xor, true_and]

/-- A full sprite drawn twice at the lower right corner of a blank screen, over its edges and the end of the
memory. -/
theorem draw_twice_erases_corner :
    let m : Machine Unit := {
      state := { v := Vector.replicate 16 62, i := 4094 }
      bus := Bus.ofMemory (Vector.replicate 4096 0xFF) []
      host := () }
    ∃ m₁ m₂ : Machine Unit, execute ⟨.draw, 0xD015⟩ m = (.ok (), m₁) ∧ execute ⟨.draw, 0xD015⟩ m₁ = (.ok (), m₂) ∧
      m₂.state.screen = m.state.screen ∧ m₂.state.v.get State.flag = 1 := by
  intro m
  obtain ⟨m₁, m₂, first, second, same, -, -, blank⟩ :=
    draw_twice_erases (m := m) (Bus.isMemory_ofMemory _ _) ⟨rfl, rfl⟩ (w := 0xD015) (by decide) (by decide)
  refine ⟨m₁, m₂, first, second, same, (blank ?_).2 ⟨0, by decide, ?_⟩⟩
  · exact (Framebuffer.isBlank_iff _).2 (Framebuffer.pixel_blank 64 32 _ _)
  · simp [spriteAt, m, Bus.memory_ofMemory, Vector.get_eq_getElem]

end Machine

end Chip8
