import Chip8.Extent
/-! The monochrome framebuffer: a torus of cells, so a coordinate counts modulo the width or the height.
Setting a pixel changes that pixel and no other (`pixel_setPixel`). -/

namespace Chip8

structure Framebuffer where
  width : Nat
  height : Nat
  cells : Array Bool
  width_pos : 0 < width
  height_pos : 0 < height
  size_cells : cells.size = width * height
  deriving DecidableEq

namespace Framebuffer

def blank (width height : Nat) (hw : 0 < width := by decide) (hh : 0 < height := by decide) :
    Framebuffer where
  width := width
  height := height
  cells := Array.replicate (width * height) false
  width_pos := hw
  height_pos := hh
  size_cells := by simp

def screen : Framebuffer := blank 64 32

inductive SizeFault
  | notPositive
  | extent (why : ExtentFault)
  deriving DecidableEq

def SizeFault.message : SizeFault → String
  | notPositive => "Framebuffer dimensions must be positive."
  | extent why => why.message

def pixelWidth : Int := 8

/-- A dark framebuffer of a size, if the size is positive and its pixels can be stored. -/
def ofSize (width height : Int) (memory : Option Int := none) : Except SizeFault Framebuffer :=
  if h : 0 < width ∧ 0 < height then
    match extentFault? (width * height) pixelWidth memory with
    | some why => .error (.extent why)
    | none => .ok (blank width.toNat height.toNat (by omega) (by omega))
  else .error .notPositive

def column (fb : Framebuffer) (x : Int) : Nat := (x % fb.width).toNat

def row (fb : Framebuffer) (y : Int) : Nat := (y % fb.height).toNat

/-- Cells are kept row by row. -/
def index (fb : Framebuffer) (x y : Int) : Nat := fb.row y * fb.width + fb.column x

def pixel (fb : Framebuffer) (x y : Int) : Bool := fb.cells.getD (fb.index x y) false

def setPixel (fb : Framebuffer) (x y : Int) (lit : Bool) : Framebuffer :=
  { fb with
    cells := fb.cells.setIfInBounds (fb.index x y) lit
    size_cells := by simp [fb.size_cells] }

/-- Flips a pixel; the answer is whether it was lit. -/
def flipPixel (fb : Framebuffer) (x y : Int) : Bool × Framebuffer :=
  let lit := fb.pixel x y
  (lit, fb.setPixel x y (!lit))

def clear (fb : Framebuffer) : Framebuffer :=
  { fb with
    cells := Array.replicate (fb.width * fb.height) false
    size_cells := by simp }

def copy (fb : Framebuffer) : Framebuffer :=
  { blank fb.width fb.height fb.width_pos fb.height_pos with
    cells := fb.cells
    size_cells := fb.size_cells }

def isBlank (fb : Framebuffer) : Bool := fb.cells.all (!·)

def rows (fb : Framebuffer) : List (List Bool) :=
  (List.range fb.height).map fun y =>
    (fb.cells.extract (y * fb.width) ((y + 1) * fb.width)).toList

def litCount (fb : Framebuffer) : Nat := fb.cells.count true

def rowText (on off : List Char) (pixels : List Bool) : List Char :=
  pixels.flatMap fun lit => if lit then on else off

def textLines (fb : Framebuffer) (on off : List Char) : List (List Char) :=
  fb.rows.map (rowText on off)

/-- The rows as lines, each pixel written as one of two texts. -/
def toText (fb : Framebuffer) (on : String := "█") (off : String := " ") : String :=
  String.ofList (List.intercalate ['\n'] (fb.textLines on.toList off.toList))

def summary (fb : Framebuffer) : String :=
  s!"Framebuffer({fb.width}x{fb.height}, lit={fb.litCount})"

theorem column_lt (fb : Framebuffer) (x : Int) : fb.column x < fb.width := by
  have := fb.width_pos
  have := Int.emod_lt_of_pos x (show (0 : Int) < fb.width by omega)
  have := Int.emod_nonneg x (show (fb.width : Int) ≠ 0 by omega)
  simp only [column]; omega

theorem row_lt (fb : Framebuffer) (y : Int) : fb.row y < fb.height := by
  have := fb.height_pos
  have := Int.emod_lt_of_pos y (show (0 : Int) < fb.height by omega)
  have := Int.emod_nonneg y (show (fb.height : Int) ≠ 0 by omega)
  simp only [row]; omega

theorem index_lt (fb : Framebuffer) (x y : Int) : fb.index x y < fb.cells.size := by
  rw [fb.size_cells, index]
  calc fb.row y * fb.width + fb.column x
      < fb.row y * fb.width + fb.width := Nat.add_lt_add_left (fb.column_lt x) _
    _ = (fb.row y + 1) * fb.width := by rw [Nat.succ_mul]
    _ ≤ fb.height * fb.width := Nat.mul_le_mul_right _ (fb.row_lt y)
    _ = fb.width * fb.height := Nat.mul_comm ..

theorem index_eq_iff (fb : Framebuffer) (x y x' y' : Int) :
    fb.index x y = fb.index x' y' ↔ fb.column x = fb.column x' ∧ fb.row y = fb.row y' := by
  constructor
  · intro h
    simp only [index] at h
    have hc := congrArg (· % fb.width) h
    have hr := congrArg (· / fb.width) h
    simp only [Nat.mul_add_mod_of_lt (fb.column_lt _)] at hc
    simp only [Nat.mul_comm _ fb.width, Nat.mul_add_div fb.width_pos,
      Nat.div_eq_of_lt (fb.column_lt _), Nat.add_zero] at hr
    exact ⟨hc, hr⟩
  · rintro ⟨hc, hr⟩
    simp only [index, hc, hr]

theorem pixel_setPixel (fb : Framebuffer) (x y x' y' : Int) (lit : Bool) :
    (fb.setPixel x y lit).pixel x' y' =
      if fb.column x = fb.column x' ∧ fb.row y = fb.row y' then lit else fb.pixel x' y' := by
  have same : (fb.setPixel x y lit).index x' y' = fb.index x' y' := rfl
  rw [pixel, same]
  simp only [← fb.index_eq_iff]
  have inside := fb.index_lt x' y'
  by_cases h : fb.index x y = fb.index x' y' <;>
    simp [setPixel, pixel, h, inside]

end Framebuffer

end Chip8
