import Chip8.Execution
import Chip8.Proofs.Memory
import Chip8.Proofs.Torus

/-! What a sprite row leaves on the screen. Columns of a row lie on different pixels, so the row turns over
the pixels that it lights and no pixel twice; its collision is read off the screen before it
(`flipRow_spec`). -/

namespace Chip8

namespace Framebuffer

/-- A screen of the machine, with its pixels as a function on the torus. -/
structure Shows (fb : Framebuffer) (pixel : Fin 64 → Fin 32 → Bool) : Prop where
  width : fb.width = 64
  height : fb.height = 32
  pixel : ∀ x y : Int, fb.pixel x y = pixel (residue 64 x) (residue 32 y)

namespace Shows

variable {fb : Framebuffer} {pixel : Fin 64 → Fin 32 → Bool} (h : fb.Shows pixel)
include h

theorem pixel_val (x : Fin 64) (y : Fin 32) : fb.pixel x.val y.val = pixel x y := by
  rw [h.pixel, residue_natCast, residue_natCast]

theorem column_eq_iff (x x' : Int) : fb.column x = fb.column x' ↔ residue 64 x = residue 64 x' := by
  rw [fb.column_eq_iff, residue_eq_iff, h.width]

theorem row_eq_iff (y y' : Int) : fb.row y = fb.row y' ↔ residue 32 y = residue 32 y' := by
  rw [fb.row_eq_iff, residue_eq_iff, h.height]

theorem setPixel (x y : Int) (lit : Bool) :
    (fb.setPixel x y lit).Shows fun px py =>
      if residue 64 x = px ∧ residue 32 y = py then lit else pixel px py where
  width := h.width
  height := h.height
  pixel x' y' := by
    simp only [pixel_setPixel, h.column_eq_iff, h.row_eq_iff, h.pixel]

theorem clear : fb.clear.Shows fun _ _ => false where
  width := h.width
  height := h.height
  pixel x y := fb.pixel_clear x y

end Shows

theorem screen_shows : screen.Shows fun _ _ => false where
  width := rfl
  height := rfl
  pixel x y := pixel_blank 64 32 _ _ x y

end Framebuffer

namespace Machine

def columnsLight (sprite : UInt8) (originX : Fin 64) (rowY : Fin 32) (columns : Nat) (x : Fin 64)
    (y : Fin 32) : Bool :=
  y == rowY && (x - originX).val < columns && sprite.toNat.testBit (7 - (x - originX).val)

def flipColumns (fb : Framebuffer) (x y : Int) (sprite : UInt8) (columns : Nat) : Bool × Framebuffer :=
  ((List.range columns).filter fun c => sprite.toNat.testBit (7 - c)).foldl (fun r (c : Nat) =>
    let flipped := r.2.flipPixel (x + c) y
    (r.1 || flipped.1, flipped.2)) (false, fb)

theorem flipColumns_succ (fb : Framebuffer) (x y : Int) (sprite : UInt8) (k : Nat) :
    flipColumns fb x y sprite (k + 1) =
      if sprite.toNat.testBit (7 - k) then
        let r := flipColumns fb x y sprite k
        (r.1 || r.2.pixel (x + k) y, (r.2.flipPixel (x + k) y).2)
      else flipColumns fb x y sprite k := by
  rw [flipColumns, List.range_succ, List.filter_append, List.foldl_append]
  cases h : sprite.toNat.testBit (7 - k) <;> simp [h, flipColumns, Framebuffer.flipPixel]

theorem columnsLight_succ (sprite : UInt8) (originX : Fin 64) (rowY : Fin 32) {k : Nat} (hk : k < 8)
    (x : Fin 64) (y : Fin 32) :
    columnsLight sprite originX rowY (k + 1) x y =
      (columnsLight sprite originX rowY k x y ||
        (decide (originX + Fin.ofNat 64 k = x ∧ rowY = y) && sprite.toNat.testBit (7 - k))) := by
  have place := sub_val_eq_iff (show k < 64 by omega) x originX
  rw [Bool.eq_iff_iff]
  simp only [columnsLight, ← place, Bool.and_eq_true, Bool.or_eq_true, beq_iff_eq,
    decide_eq_true_eq, Nat.lt_succ_iff_lt_or_eq, eq_comm (a := rowY)]
  grind

variable {fb : Framebuffer} {pixel : Fin 64 → Fin 32 → Bool} (h : fb.Shows pixel)
include h

/-- Columns to come are not touched yet, so each pixel is turned over as it was before the row. -/
theorem flipColumns_spec (x y : Int) (sprite : UInt8) {k : Nat} (hk : k ≤ 8) :
    (flipColumns fb x y sprite k).2.Shows (fun px py =>
      pixel px py ^^ columnsLight sprite (residue 64 x) (residue 32 y) k px py) ∧
    ((flipColumns fb x y sprite k).1 = true ↔
      ∃ px py, pixel px py ∧ columnsLight sprite (residue 64 x) (residue 32 y) k px py) := by
  induction k with
  | zero => simpa [flipColumns, columnsLight] using h
  | succ k ih =>
    obtain ⟨shows, collides⟩ := ih (by omega)
    have lit := columnsLight_succ sprite (residue 64 x) (residue 32 y) (show k < 8 by omega)
    have here := residue_add (n := 64) x k
    have fresh : columnsLight sprite (residue 64 x) (residue 32 y) k (residue 64 (x + k))
        (residue 32 y) = false := by
      have := (sub_val_eq_iff (show k < 64 by omega) _ _).2 here.symm
      simp [columnsLight, this]
    rw [flipColumns_succ]
    cases bit : sprite.toNat.testBit (7 - k) with
    | false => simpa [lit, bit] using And.intro shows collides
    | true =>
      have before := shows.pixel (x + k) y
      rw [fresh, Bool.xor_false] at before
      constructor
      · have flipped := shows.setPixel (x + k) y (!pixel (residue 64 (x + k)) (residue 32 y))
        simp only [if_true, Framebuffer.flipPixel, before]
        convert flipped using 3 with px py
        rw [lit, bit, ← here]
        by_cases at_ : residue 64 (x + k) = px ∧ residue 32 y = py
        · obtain ⟨rfl, rfl⟩ := at_
          simp [fresh]
        · simp [at_]
      · simp only [if_true, Bool.or_eq_true, collides, before, lit, bit, ← here]
        grind

theorem flipRow_spec (x y : Int) (sprite : UInt8) :
    (flipRow fb x y sprite).2.Shows (fun px py =>
      pixel px py ^^ columnsLight sprite (residue 64 x) (residue 32 y) 8 px py) ∧
    ((flipRow fb x y sprite).1 = true ↔
      ∃ px py, pixel px py ∧ columnsLight sprite (residue 64 x) (residue 32 y) 8 px py) :=
  flipColumns_spec h x y sprite (Nat.le_refl 8)

end Machine

end Chip8
