import Chip8.Framebuffer
import Mathlib

/-! The framebuffer as a torus. Whatever edits are made, a cell holds what the edits of that cell alone make of it,
and coordinates name the same cell exactly if they agree modulo the width and the height (`pixel_edited`). The rows
and the text show every cell, so nothing is lost in them (`edited_exact`). -/

namespace Chip8

/-- A change of some pixels. -/
inductive PixelEdit
  | clear
  | set (x y : Int) (lit : Bool)
  | flip (x y : Int)
  deriving DecidableEq

/-- What an edit makes of the cell at a place of a torus. -/
def PixelEdit.onCell (width height : Nat) (x y : Int) (lit : Bool) : PixelEdit → Bool
  | clear => false
  | set x' y' value => if x' % width = x % width ∧ y' % height = y % height then value else lit
  | flip x' y' => if x' % width = x % width ∧ y' % height = y % height then !lit else lit

namespace Framebuffer

variable (fb : Framebuffer)

def apply : PixelEdit → Framebuffer
  | .clear => fb.clear
  | .set x y lit => fb.setPixel x y lit
  | .flip x y => (fb.flipPixel x y).2

def edited (edits : List PixelEdit) : Framebuffer := edits.foldl apply fb

/-! ### Cells -/

theorem column_eq_iff (x x' : Int) : fb.column x = fb.column x' ↔ x % fb.width = x' % fb.width := by
  have pos : (fb.width : Int) ≠ 0 := Int.natCast_ne_zero.2 fb.width_pos.ne'
  have := Int.emod_nonneg x pos
  have := Int.emod_nonneg x' pos
  unfold column
  omega

theorem row_eq_iff (y y' : Int) : fb.row y = fb.row y' ↔ y % fb.height = y' % fb.height := by
  have pos : (fb.height : Int) ≠ 0 := Int.natCast_ne_zero.2 fb.height_pos.ne'
  have := Int.emod_nonneg y pos
  have := Int.emod_nonneg y' pos
  unfold row
  omega

theorem pixel_congr {x y x' y' : Int} (sameColumn : x % fb.width = x' % fb.width)
    (sameRow : y % fb.height = y' % fb.height) : fb.pixel x y = fb.pixel x' y' := by
  have same := (fb.index_eq_iff x y x' y').2 ⟨(fb.column_eq_iff x x').2 sameColumn, (fb.row_eq_iff y y').2 sameRow⟩
  rw [pixel, pixel, same]

theorem pixel_set (x y x' y' : Int) (lit : Bool) :
    (fb.setPixel x y lit).pixel x' y' =
      if x % fb.width = x' % fb.width ∧ y % fb.height = y' % fb.height then lit else fb.pixel x' y' := by
  simp only [pixel_setPixel, column_eq_iff, row_eq_iff]

theorem pixel_flip (x y x' y' : Int) :
    (fb.flipPixel x y).2.pixel x' y' =
      if x % fb.width = x' % fb.width ∧ y % fb.height = y' % fb.height then !fb.pixel x' y'
      else fb.pixel x' y' := by
  rw [flipPixel, pixel_set]
  split
  · rename_i same
    rw [fb.pixel_congr same.1 same.2]
  · rfl

theorem pixel_clear (x y : Int) : fb.clear.pixel x y = false := by
  simp only [pixel, clear, Array.getD_eq_getD_getElem?, Array.getElem?_replicate]
  split <;> rfl

theorem pixel_blank (width height : Nat) (hw : 0 < width) (hh : 0 < height) (x y : Int) :
    (blank width height hw hh).pixel x y = false := pixel_clear (blank width height hw hh) x y

theorem index_natCast {x y : Nat} (hx : x < fb.width) (hy : y < fb.height) :
    fb.index (x : Int) (y : Int) = y * fb.width + x := by
  have column : fb.column (x : Int) = x := by
    rw [Framebuffer.column, ← Int.natCast_emod, Int.toNat_natCast, Nat.mod_eq_of_lt hx]
  have row : fb.row (y : Int) = y := by
    rw [Framebuffer.row, ← Int.natCast_emod, Int.toNat_natCast, Nat.mod_eq_of_lt hy]
  rw [index, column, row]

theorem exists_place {i : Nat} (inside : i < fb.cells.size) :
    ∃ x < fb.width, ∃ y < fb.height, fb.index (x : Int) (y : Int) = i := by
  rw [fb.size_cells] at inside
  have hx : i % fb.width < fb.width := Nat.mod_lt _ fb.width_pos
  have hy : i / fb.width < fb.height := Nat.div_lt_of_lt_mul inside
  refine ⟨i % fb.width, hx, i / fb.width, hy, ?_⟩
  rw [fb.index_natCast hx hy, Nat.div_add_mod']

theorem cells_index (x y : Int) : fb.cells[fb.index x y]? = some (fb.pixel x y) := by
  have inside := fb.index_lt x y
  simp [pixel, inside]

theorem ext_of_pixel {fb fb' : Framebuffer} (width : fb.width = fb'.width) (height : fb.height = fb'.height)
    (pixel : ∀ x < fb.width, ∀ y < fb.height, fb.pixel (x : Nat) (y : Nat) = fb'.pixel (x : Nat) (y : Nat)) :
    fb = fb' := by
  have size : fb.cells.size = fb'.cells.size := by rw [fb.size_cells, fb'.size_cells, width, height]
  have cells : fb.cells = fb'.cells := by
    apply Array.ext_getElem?
    intro i
    by_cases inside : i < fb.cells.size
    · obtain ⟨x, hx, y, hy, rfl⟩ := fb.exists_place inside
      have same : fb.index (x : Int) y = fb'.index (x : Int) y := by
        rw [fb.index_natCast hx hy, fb'.index_natCast (width ▸ hx) (height ▸ hy), width]
      rw [cells_index, pixel x hx y hy, same, cells_index]
    · rw [Array.getElem?_eq_none (by omega), Array.getElem?_eq_none (by omega)]
  obtain ⟨w, h, cs, _, _, _⟩ := fb
  obtain ⟨w', h', cs', _, _, _⟩ := fb'
  cases width
  cases height
  cases cells
  rfl

theorem isBlank_iff : fb.isBlank = true ↔ ∀ x y, fb.pixel x y = false := by
  simp only [isBlank, Array.all_eq_true, Bool.not_eq_true']
  constructor
  · intro dark x y
    have cell := dark _ (fb.index_lt x y)
    simpa [pixel, fb.index_lt x y] using cell
  · intro dark i inside
    obtain ⟨x, -, y, -, rfl⟩ := fb.exists_place inside
    have cell := fb.cells_index x y
    rw [dark, Array.getElem?_eq_getElem inside] at cell
    exact Option.some.inj cell

/-! ### Edits -/

theorem pixel_apply (e : PixelEdit) (x y : Int) :
    (fb.apply e).pixel x y = e.onCell fb.width fb.height x y (fb.pixel x y) := by
  cases e with
  | clear => exact fb.pixel_clear x y
  | set x' y' lit => exact fb.pixel_set x' y' x y lit
  | flip x' y' => exact fb.pixel_flip x' y' x y

theorem size_apply (e : PixelEdit) : (fb.apply e).width = fb.width ∧ (fb.apply e).height = fb.height := by
  cases e <;> exact ⟨rfl, rfl⟩

theorem size_edited (edits : List PixelEdit) :
    (fb.edited edits).width = fb.width ∧ (fb.edited edits).height = fb.height := by
  induction edits generalizing fb with
  | nil => exact ⟨rfl, rfl⟩
  | cons e edits ih =>
    obtain ⟨width, height⟩ := ih (fb.apply e)
    exact ⟨width.trans (fb.size_apply e).1, height.trans (fb.size_apply e).2⟩

/-- A cell behind edits is what each of them makes of it in turn. -/
theorem pixel_edited (edits : List PixelEdit) (x y : Int) :
    (fb.edited edits).pixel x y =
      edits.foldl (PixelEdit.onCell fb.width fb.height x y) (fb.pixel x y) := by
  induction edits generalizing fb with
  | nil => rfl
  | cons e edits ih =>
    have later := ih (fb.apply e)
    rw [(fb.size_apply e).1, (fb.size_apply e).2, pixel_apply] at later
    exact later

/-! ### Rows and text -/

theorem rows_eq : fb.rows = (List.range fb.height).map fun y : Nat =>
    (List.range fb.width).map fun x : Nat => fb.pixel x y := by
  refine List.map_congr_left fun y hy => ?_
  rw [List.mem_range] at hy
  have whole : (y + 1) * fb.width ≤ fb.cells.size := by
    rw [fb.size_cells, Nat.mul_comm]
    exact Nat.mul_le_mul_left _ hy
  have length : min ((y + 1) * fb.width) fb.cells.size - y * fb.width = fb.width := by
    rw [Nat.min_eq_left whole, Nat.add_mul, Nat.one_mul, Nat.add_sub_cancel_left]
  apply List.ext_getElem?
  intro x
  rw [Array.getElem?_toList, Array.getElem?_extract, length, List.getElem?_map]
  by_cases hx : x < fb.width
  · rw [if_pos hx, List.getElem?_range hx, ← fb.index_natCast hx hy, cells_index]
    rfl
  · rw [if_neg hx, List.getElem?_eq_none (by simpa using hx)]
    rfl

def signs (lit dark : Char) (row : List Bool) : List Char := row.map fun on => if on then lit else dark

theorem lines_toText {lit dark : Char} (litLine : lit ≠ '\n') (darkLine : dark ≠ '\n') :
    (fb.toText (String.singleton lit) (String.singleton dark)).toList.splitOn '\n' =
      fb.rows.map (signs lit dark) := by
  have rowText (row : List Bool) : Framebuffer.rowText [lit] [dark] row = signs lit dark row := by
    induction row with
    | nil => rfl
    | cons on row ih => cases on <;> exact congrArg (_ :: ·) ih
  have noBreak : ∀ line ∈ fb.rows.map (signs lit dark), '\n' ∉ line := by
    intro line inText broken
    obtain ⟨row, -, rfl⟩ := List.mem_map.1 inText
    obtain ⟨on, -, sign⟩ := List.mem_map.1 broken
    cases on
    · exact darkLine sign
    · exact litLine sign
  have some : fb.rows.map (signs lit dark) ≠ [] := by
    simp [rows_eq, fb.height_pos.ne']
  have lines : fb.textLines [lit] [dark] = fb.rows.map (signs lit dark) :=
    List.map_congr_left fun row _ => rowText row
  rw [toText, String.toList_ofList, String.toList_singleton, String.toList_singleton, lines]
  exact List.splitOn_intercalate '\n' noBreak some

theorem signs_injective {lit dark : Char} (apart : lit ≠ dark) : Function.Injective (signs lit dark) := by
  apply List.map_injective_iff.2
  intro on on' same
  cases on <;> cases on' <;> simp_all

theorem eq_of_toText {fb fb' : Framebuffer} {lit dark : Char} (apart : lit ≠ dark) (litLine : lit ≠ '\n')
    (darkLine : dark ≠ '\n')
    (same : fb.toText (String.singleton lit) (String.singleton dark) =
      fb'.toText (String.singleton lit) (String.singleton dark)) : fb = fb' := by
  have lines : fb.rows.map (signs lit dark) = fb'.rows.map (signs lit dark) := by
    rw [← fb.lines_toText litLine darkLine, ← fb'.lines_toText litLine darkLine, same]
  have rows : fb.rows = fb'.rows := List.map_injective_iff.2 (signs_injective apart) lines
  rw [rows_eq, rows_eq] at rows
  have height : fb.height = fb'.height := by simpa using congrArg List.length rows
  have row (y : Nat) (hy : y < fb.height) : (List.range fb.width).map (fun x : Nat => fb.pixel x y) =
      (List.range fb'.width).map fun x : Nat => fb'.pixel x y := by
    have here := congrArg (·[y]?) rows
    simpa [hy, height ▸ hy] using here
  -- There is a first row, so the width can be read off the text as well.
  have width : fb.width = fb'.width := by simpa using congrArg List.length (row 0 fb.height_pos)
  refine ext_of_pixel width height fun x hx y hy => ?_
  have here := congrArg (·[x]?) (row y hy)
  simpa [hx, width ▸ hx] using here

/-- The pixels fit if there is an index for each and, where the memory has a limit, room for all. -/
theorem extentFault?_pixels (width height : Nat) (memory : Option Int) :
    extentFault? ((width : Int) * height) pixelWidth memory = none ↔
      (width * height : Int) < indexEnd ∧ ∀ limit ∈ memory, (width * height * pixelWidth : Int) < limit := by
  have low : -indexEnd ≤ (width * height : Int) := by
    have : 0 ≤ (width * height : Int) := Int.mul_nonneg (Int.natCast_nonneg _) (Int.natCast_nonneg _)
    unfold indexEnd
    omega
  rw [extentFault?_eq_none_iff]
  simp only [isIndex, Bool.and_eq_true, decide_eq_true_eq, low, true_and]

theorem ofSize_eq_ok_iff {width height : Nat} (hw : 0 < width) (hh : 0 < height) {memory : Option Int} :
    ofSize width height memory = .ok fb ↔
      ((width * height : Int) < indexEnd ∧ ∀ limit ∈ memory, (width * height * pixelWidth : Int) < limit) ∧
        fb = blank width height hw hh := by
  have positive : 0 < (width : Int) ∧ 0 < (height : Int) := by omega
  rw [← extentFault?_pixels, ofSize, dif_pos positive]
  cases extentFault? ((width : Int) * height) pixelWidth memory with
  | none => simp only [Int.toNat_natCast, Except.ok.injEq, true_and, eq_comm]
  | some why => simp

/-- **The torus.** A framebuffer of any size can be made, dark, just if its pixels can be stored. Behind any edits its
store has its size; each cell holds what the edits make of that cell, which its coordinates modulo the width and the
height name; setting and flipping a pixel change that cell alone, and flipping answers with the old value; the rows
show every pixel; it is blank exactly if no cell is lit; and it is its copy. Its text in two signs has a line for each
row and a sign for each pixel, and no other framebuffer has that text. -/
theorem edited_exact (width height : Nat) (hw : 0 < width) (hh : 0 < height) (edits : List PixelEdit) :
    let fb := (blank width height hw hh).edited edits
    (∀ (memory : Option Int) (made : Framebuffer), ofSize width height memory = .ok made ↔
      ((width * height : Int) < indexEnd ∧ ∀ limit ∈ memory, (width * height * pixelWidth : Int) < limit) ∧
        made = blank width height hw hh) ∧
    (fb.width = width ∧ fb.height = height ∧ fb.cells.size = width * height) ∧
    (∀ x y, fb.pixel x y = edits.foldl (PixelEdit.onCell width height x y) false) ∧
    (∀ x y x' y' : Int, x % width = x' % width → y % height = y' % height → fb.pixel x y = fb.pixel x' y') ∧
    (∀ (x y : Int) (lit : Bool) (x' y' : Int), (fb.setPixel x y lit).pixel x' y' =
      if x % width = x' % width ∧ y % height = y' % height then lit else fb.pixel x' y') ∧
    (∀ x y : Int, (fb.flipPixel x y).1 = fb.pixel x y ∧ ∀ x' y' : Int, (fb.flipPixel x y).2.pixel x' y' =
      if x % width = x' % width ∧ y % height = y' % height then !fb.pixel x' y' else fb.pixel x' y') ∧
    (fb.rows = (List.range height).map fun y : Nat => (List.range width).map fun x : Nat => fb.pixel x y) ∧
    (fb.isBlank = true ↔ ∀ x y, fb.pixel x y = false) ∧
    fb.copy = fb ∧
    ∀ lit dark : Char, lit ≠ dark → lit ≠ '\n' → dark ≠ '\n' →
      let text := fb.toText (String.singleton lit) (String.singleton dark)
      text.toList.splitOn '\n' = ((List.range height).map fun y : Nat =>
        (List.range width).map fun x : Nat => if fb.pixel x y then lit else dark) ∧
      ∀ other : Framebuffer, other.toText (String.singleton lit) (String.singleton dark) = text → other = fb := by
  intro fb
  obtain ⟨hasWidth, hasHeight⟩ : fb.width = width ∧ fb.height = height := size_edited _ edits
  have history (x y : Int) : fb.pixel x y = edits.foldl (PixelEdit.onCell width height x y) false := by
    rw [← pixel_blank width height hw hh x y]
    exact pixel_edited _ edits x y
  clear_value fb
  subst hasWidth hasHeight
  refine ⟨fun memory made => made.ofSize_eq_ok_iff hw hh, ⟨rfl, rfl, fb.size_cells⟩, history,
    fun x y x' y' => fb.pixel_congr, fun x y lit x' y' => fb.pixel_set x y x' y' lit,
    fun x y => ⟨rfl, fb.pixel_flip x y⟩, fb.rows_eq, fb.isBlank_iff, rfl, ?_⟩
  intro lit dark apart litLine darkLine text
  constructor
  · rw [fb.lines_toText litLine darkLine, rows_eq, List.map_map]
    simp only [Function.comp_def, signs, List.map_map]
  · exact fun other same => eq_of_toText apart litLine darkLine same

/-- One pixel of six, set across both edges. The six take forty-eight bytes. -/
theorem edited_exact_corner :
    let fb := (blank 3 2).edited [.set (-1) 5 true]
    ofSize 3 2 (some 49) = .ok (blank 3 2) ∧ (∀ made, ofSize 3 2 (some 48) ≠ .ok made) ∧
    fb.pixel 2 1 = true ∧ fb.toText "#" "." = "...\n..#" ∧
    ∀ other : Framebuffer, other.toText "#" "." = "...\n..#" → other = fb := by
  intro fb
  obtain ⟨made, -, -, torus, -, -, -, -, -, text⟩ := edited_exact 3 2 (by decide) (by decide) [.set (-1) 5 true]
  have room : ofSize 3 2 (some 49) = .ok (blank 3 2) := (made _ _).2 ⟨by decide, rfl⟩
  have full (fb' : Framebuffer) : ofSize 3 2 (some 48) ≠ .ok fb' :=
    fun small => absurd ((made _ fb').1 small).1 (by decide)
  have shown : fb.toText "#" "." = "...\n..#" := by decide
  obtain ⟨-, unique⟩ := text '#' '.' (by decide) (by decide) (by decide)
  refine ⟨room, full, ?_, shown, fun other same => unique other (same.trans shown.symm)⟩
  rw [torus 2 1 (-1) 5 (by decide) (by decide)]
  decide

end Framebuffer

end Chip8
