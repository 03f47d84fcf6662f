import Chip8.Proofs.Loops

/-! Sprites on the screen. Rows of a sprite lie on different pixels, as long as there are no more of them than the
screen has rows, so that a sprite turns over the pixels that it lights and no pixel twice; its collision is read off
the screen before it (`draw_run`, `draw_exact`). Nothing is asked of the registers. -/

namespace Chip8

/-- The rows of a sprite from the top, each with its leftmost pixel in the highest bit. -/
abbrev Sprite := Nat → UInt8

namespace Sprite

variable (sprite : Sprite) (originX : Fin 64) (originY : Fin 32)

/-- The pixels that the first rows of a sprite with its corner at an origin light; both coordinates go round. -/
def lights (height : Nat) (x : Fin 64) (y : Fin 32) : Bool :=
  (x - originX).val < 8 && (y - originY).val < height &&
    (sprite (y - originY).val).toNat.testBit (7 - (x - originX).val)

/-- Whether these rows light a pixel that is lit. -/
def Collides (height : Nat) (pixel : Fin 64 → Fin 32 → Bool) : Prop :=
  ∃ x y, pixel x y ∧ sprite.lights originX originY height x y

instance decidableCollides (height : Nat) (pixel : Fin 64 → Fin 32 → Bool) :
    Decidable (sprite.Collides originX originY height pixel) :=
  inferInstanceAs (Decidable (∃ x y, pixel x y ∧ sprite.lights originX originY height x y))

theorem lights_zero (x : Fin 64) (y : Fin 32) : sprite.lights originX originY 0 x y = false := by
  simp [lights]

theorem not_collides_zero (pixel : Fin 64 → Fin 32 → Bool) : ¬ sprite.Collides originX originY 0 pixel := by
  simp [Collides, lights_zero]

theorem lights_succ {k : Nat} (hk : k < 32) (x : Fin 64) (y : Fin 32) :
    sprite.lights originX originY (k + 1) x y =
      (sprite.lights originX originY k x y ||
        Machine.columnsLight (sprite k) originX (originY + Fin.ofNat 32 k) 8 x y) := by
  have place := sub_val_eq_iff hk y originY
  rw [Bool.eq_iff_iff]
  simp only [lights, Machine.columnsLight, Bool.and_eq_true, Bool.or_eq_true, beq_iff_eq,
    decide_eq_true_eq, Nat.lt_succ_iff_lt_or_eq, eq_comm (a := y), ← place]
  grind

/-- A row to come is not touched yet. -/
theorem lights_eq_false_of_columnsLight {k : Nat} (hk : k < 32) {row : UInt8} {x : Fin 64} {y : Fin 32}
    (h : Machine.columnsLight row originX (originY + Fin.ofNat 32 k) 8 x y = true) :
    sprite.lights originX originY k x y = false := by
  have place := sub_val_eq_iff hk y originY
  simp only [Machine.columnsLight, Bool.and_eq_true, beq_iff_eq] at h
  have := place.2 h.1.1.symm
  simp [lights, this]

theorem collides_succ {k : Nat} (hk : k < 32) (pixel : Fin 64 → Fin 32 → Bool) :
    sprite.Collides originX originY (k + 1) pixel ↔ sprite.Collides originX originY k pixel ∨
      ∃ x y, (pixel x y ^^ sprite.lights originX originY k x y) ∧
        Machine.columnsLight (sprite k) originX (originY + Fin.ofNat 32 k) 8 x y := by
  have apart := @lights_eq_false_of_columnsLight sprite originX originY k hk (sprite k)
  simp only [Collides, sprite.lights_succ originX originY hk]
  grind

theorem xor_lights_succ {k : Nat} (hk : k < 32) (pixel : Fin 64 → Fin 32 → Bool) (x : Fin 64) (y : Fin 32) :
    (pixel x y ^^ sprite.lights originX originY (k + 1) x y) =
      ((pixel x y ^^ sprite.lights originX originY k x y) ^^
        Machine.columnsLight (sprite k) originX (originY + Fin.ofNat 32 k) 8 x y) := by
  rw [sprite.lights_succ originX originY hk]
  cases lit : Machine.columnsLight (sprite k) originX (originY + Fin.ofNat 32 k) 8 x y with
  | false => simp
  | true => simp [sprite.lights_eq_false_of_columnsLight originX originY hk lit]

/-- A column and a row of a sprite fall on a pixel. -/
structure Covers (originX originY : Int) (height : Nat) (x : Fin 64) (y : Fin 32) (column row : Nat) : Prop where
  column_lt : column < 8
  row_lt : row < height
  x_eq : (x.val : Int) = (originX + column) % 64
  y_eq : (y.val : Int) = (originY + row) % 32

end Sprite

theorem residue_eq_of_val {n : Nat} [NeZero n] {a : Fin n} {z : Int} (h : (a.val : Int) = z % n) :
    residue n z = a := by
  rw [← residue_natCast a, residue_eq_iff, h, Int.emod_emod_of_dvd z (Int.dvd_refl _)]

namespace Sprite

theorem sub_val_of_eq {n : Nat} [NeZero n] {a : Fin n} {origin : Int} {k : Nat} (hk : k < n)
    (h : (a.val : Int) = (origin + k) % n) : (a - residue n origin).val = k := by
  have place : residue n origin + Fin.ofNat n k = a := by
    rw [← residue_add]
    exact residue_eq_of_val h
  exact (sub_val_eq_iff hk a (residue n origin)).2 place

theorem val_eq_of_sub {n : Nat} [NeZero n] (a : Fin n) (origin : Int) :
    (a.val : Int) = (origin + ((a - residue n origin).val : Nat)) % n := by
  have place := (sub_val_eq_iff (a - residue n origin).isLt a (residue n origin)).1 rfl
  rw [← residue_add] at place
  rw [← residue_val, place]

variable {originX originY : Int} {height : Nat} {x : Fin 64} {y : Fin 32} {column row : Nat}

theorem Covers.steps (small : height ≤ 32) (h : Covers originX originY height x y column row) :
    (x - residue 64 originX).val = column ∧ (y - residue 32 originY).val = row := by
  have columns := h.column_lt
  have rows := h.row_lt
  exact ⟨sub_val_of_eq (by omega) h.x_eq, sub_val_of_eq (by omega) h.y_eq⟩

theorem covers_of_lt (hx : (x - residue 64 originX).val < 8) (hy : (y - residue 32 originY).val < height) :
    Covers originX originY height x y (x - residue 64 originX).val (y - residue 32 originY).val :=
  ⟨hx, hy, val_eq_of_sub x originX, val_eq_of_sub y originY⟩

theorem Covers.lights (sprite : Sprite) (small : height ≤ 32) (h : Covers originX originY height x y column row) :
    sprite.lights (residue 64 originX) (residue 32 originY) height x y =
      (sprite row).toNat.testBit (7 - column) := by
  obtain ⟨hx, hy⟩ := h.steps small
  simp [Sprite.lights, hx, hy, h.column_lt, h.row_lt]

theorem Covers.unique (small : height ≤ 32) (h : Covers originX originY height x y column row) {column' row' : Nat}
    (h' : Covers originX originY height x y column' row') : column' = column ∧ row' = row := by
  obtain ⟨hx, hy⟩ := h.steps small
  obtain ⟨hx', hy'⟩ := h'.steps small
  exact ⟨hx'.symm.trans hx, hy'.symm.trans hy⟩

theorem exists_covers_of_lights {sprite : Sprite}
    (h : sprite.lights (residue 64 originX) (residue 32 originY) height x y = true) :
    ∃ column row, Covers originX originY height x y column row := by
  simp only [Sprite.lights, Bool.and_eq_true, decide_eq_true_eq] at h
  exact ⟨_, _, covers_of_lt h.1.1 h.1.2⟩

theorem lights_eq_false_of_not_covers (sprite : Sprite)
    (h : ∀ column row, ¬ Covers originX originY height x y column row) :
    sprite.lights (residue 64 originX) (residue 32 originY) height x y = false := by
  rw [← Bool.not_eq_true]
  intro lit
  obtain ⟨column, row, covers⟩ := exists_covers_of_lights lit
  exact h column row covers

theorem collides_iff (sprite : Sprite) (small : height ≤ 32) (pixel : Fin 64 → Fin 32 → Bool) :
    sprite.Collides (residue 64 originX) (residue 32 originY) height pixel ↔
      ∃ x y column row, Covers originX originY height x y column row ∧ pixel x y ∧
        (sprite row).toNat.testBit (7 - column) := by
  constructor
  · rintro ⟨x, y, lit, lights⟩
    obtain ⟨column, row, covers⟩ := exists_covers_of_lights lights
    rw [covers.lights sprite small] at lights
    exact ⟨x, y, column, row, covers, lit, lights⟩
  · rintro ⟨x, y, column, row, covers, lit, bit⟩
    rw [← covers.lights sprite small] at bit
    exact ⟨x, y, lit, bit⟩

end Sprite

theorem State.get_setV (s : State) (k : Fin 16) (z : Int) : (s.setV k z).v.get k = z := by
  simp [State.setV, Vector.get_eq_getElem]

theorem State.get_setV_of_ne (s : State) {j k : Fin 16} (apart : k ≠ j) (z : Int) :
    (s.setV k z).v.get j = s.v.get j := by
  simp [State.setV, Vector.get_eq_getElem, Fin.val_ne_of_ne apart]

namespace Machine

variable {π : Type} {m : Machine π}

def spriteAt (m : Machine π) : Sprite := fun k => m.bus.memory.get (residue 4096 (m.state.i + k))

def spriteReads (m : Machine π) (height : Nat) : List Access :=
  (List.range height).map fun k : Nat => .read (wrap (m.state.i + k)) (m.spriteAt k)

/-- A machine with a new screen behind so many rows of its sprite, of which the flag says whether they collided. -/
def drawn (m : Machine π) (height : Nat) (collided : Prop) [Decidable collided] (screen : Framebuffer) : Machine π :=
  { m with
    state := { m.state.setV State.flag (if collided then 1 else 0) with screen }
    bus := Bus.ofMemory m.bus.memory (m.bus.log ++ m.spriteReads height) }

theorem i_drawn (height : Nat) (collided : Prop) [Decidable collided] (screen : Framebuffer) :
    (m.drawn height collided screen).state.i = m.state.i := rfl

theorem screen_drawn (height : Nat) (collided : Prop) [Decidable collided] (screen : Framebuffer) :
    (m.drawn height collided screen).state.screen = screen := rfl

theorem readByte_drawn (k : Nat) (collided : Prop) [Decidable collided] (screen : Framebuffer) :
    Core.readByte (wrap (m.state.i + k)) (m.drawn k collided screen) =
      (.ok (m.spriteAt k), m.drawn (k + 1) collided screen) := by
  have read := Bus.read_ofMemory m.bus.memory (m.bus.log ++ m.spriteReads k) (wrap_inMemory (m.state.i + k))
  have place : residue 4096 (wrap (m.state.i + k)) = residue 4096 (m.state.i + k) := residue_emod _
  have row : m.bus.memory[residue 4096 (m.state.i + k)] = m.spriteAt k := rfl
  have reads : m.spriteReads (k + 1) = m.spriteReads k ++ [.read (wrap (m.state.i + k)) (m.spriteAt k)] := by
    simp [spriteReads, List.range_succ]
  simp only [place, row, List.append_assoc, ← reads] at read
  simp only [Core.readByte, drawn, read]

theorem flag_turned (s : State) (screen : Framebuffer) {before after : Prop} [Decidable before]
    [Decidable after] {hit : Bool} (collision : after ↔ before ∨ hit = true) :
    (if hit = true then State.setV { s.setV State.flag (if before then 1 else 0) with screen } State.flag 1
      else { s.setV State.flag (if before then 1 else 0) with screen }) =
      { s.setV State.flag (if after then 1 else 0) with screen } := by
  cases hit with
  | false =>
    have same : after ↔ before := by simpa using collision
    simp only [Bool.false_eq_true, if_false, same]
  | true =>
    have collided : after := collision.2 (.inr rfl)
    simp [State.setV, collided]

theorem modifyState_apply (f : State → State) (m : Machine π) :
    Core.modifyState f m = (.ok (), { m with state := f m.state }) := rfl

variable {pixel : Fin 64 → Fin 32 → Bool} {X Y : Int} {originX : Fin 64} {originY : Fin 32}

/-- A row turns over the pixels that it lights, and sets the flag if one of them was lit. -/
theorem drawRow_drawn (hX : residue 64 X = originX) (hY : residue 32 Y = originY) {k : Nat} (hk : k < 32)
    {screen : Framebuffer}
    (shows : screen.Shows fun x y => pixel x y ^^ m.spriteAt.lights originX originY k x y) :
    ∃ screen', drawRow X Y k (m.drawn k (m.spriteAt.Collides originX originY k pixel) screen) =
        (.ok (), m.drawn (k + 1) (m.spriteAt.Collides originX originY (k + 1) pixel) screen') ∧
      screen'.Shows fun x y => pixel x y ^^ m.spriteAt.lights originX originY (k + 1) x y := by
  obtain ⟨turned, hit⟩ := flipRow_spec shows X (Y + k) (m.spriteAt k)
  rw [residue_add, hX, hY] at turned hit
  simp only [← m.spriteAt.xor_lights_succ originX originY hk pixel] at turned
  refine ⟨(flipRow screen X (Y + k) (m.spriteAt k)).2, ?_, turned⟩
  have collision := m.spriteAt.collides_succ originX originY hk pixel
  rw [← hit] at collision
  rw [drawRow, getState_bind, i_drawn, Action.bind_ok (readByte_drawn k _ screen), modifyState_apply, screen_drawn]
  exact congrArg (fun s => (Except.ok (), ({ m with
    state := s, bus := Bus.ofMemory m.bus.memory (m.bus.log ++ m.spriteReads (k + 1)) } : Machine π)))
    (flag_turned m.state _ collision)

theorem bus_withLog (memory : m.bus.IsMemory) (log : List Access) :
    Bus.ofMemory m.bus.memory log = { m.bus with log } :=
  congrArg (fun b : Bus => { b with log }) memory.eq_ofMemory.symm

/-- The flag and the screen are all that the registers show of a sprite, and its reads all that the bus shows. -/
theorem drawn_eq (memory : m.bus.IsMemory) (height : Nat) (collided : Prop) [Decidable collided]
    (screen : Framebuffer) :
    m.drawn height collided screen = { m with
      state := { m.state.setV State.flag ((m.drawn height collided screen).state.v.get State.flag) with screen }
      bus := { m.bus with log := m.bus.log ++ m.spriteReads height } } := by
  have flag : (m.drawn height collided screen).state.v.get State.flag = if collided then 1 else 0 :=
    m.state.get_setV _ _
  rw [flag, ← bus_withLog memory]
  rfl

theorem Represents.spriteAt {r : Reference} (h : m.Represents r) : m.spriteAt = r.byteAt := by
  funext k
  have place := h.state.place k
  rw [wrap, show (4096 : Int) = (4096 : Nat) from rfl, residue_emod] at place
  rw [Machine.spriteAt, place, h.bus, Bus.memory_ofMemory, Reference.byteAt]
  exact Vector.getElem_ofFn _

variable [Host π]

/-- A sprite turns over the pixels that it lights; the screen is rendered once, behind its last row. -/
theorem draw_run (memory : m.bus.IsMemory) (shows : m.state.screen.Shows pixel) (x y : Fin 16) {height : Nat}
    (small : height ≤ 32) :
    let originX := residue 64 (m.state.v.get x)
    let originY := residue 32 (m.state.v.get y)
    ∃ screen, (screen.Shows fun x y => pixel x y ^^ m.spriteAt.lights originX originY height x y) ∧
      draw x y height m = (.ok (), { m.drawn height (m.spriteAt.Collides originX originY height pixel) screen with
        host := Host.render screen m.host }) := by
  intro originX originY
  generalize hX : m.state.v.get x % m.state.screen.width = X
  generalize hY : m.state.v.get y % m.state.screen.height = Y
  have left : residue 64 X = originX := by rw [← hX, shows.width, residue_emod]
  have top : residue 32 Y = originY := by rw [← hY, shows.height, residue_emod]
  clear_value originX originY
  let rows (k : Nat) (m₀ : Machine π) : Prop :=
    ∃ screen, m₀ = m.drawn k (m.spriteAt.Collides originX originY k pixel) screen ∧
      screen.Shows fun x y => pixel x y ^^ m.spriteAt.lights originX originY k x y
  have start : rows 0 { m with state := m.state.setV State.flag 0 } := by
    refine ⟨m.state.screen, ?_, by simpa only [Sprite.lights_zero, Bool.xor_false] using shows⟩
    simp only [drawn, if_neg (m.spriteAt.not_collides_zero originX originY pixel), spriteReads, List.range_zero,
      List.map_nil, List.append_nil, ← memory.eq_ofMemory]
    rfl
  obtain ⟨m₁, ran, screen, rfl, turned⟩ := @each_range π (drawRow X Y) rows height (fun k hk m₀ h₀ => by
    obtain ⟨screen, rfl, shown⟩ := h₀
    obtain ⟨screen', row, turned⟩ := drawRow_drawn left top (show k < 32 by omega) shown
    exact ⟨_, row, screen', rfl, turned⟩) _ start
  refine ⟨screen, turned, ?_⟩
  rw [draw, getState_bind, hX, hY]
  have flagged : (Core.modifyState fun s => s.setV State.flag 0 : Effect π Unit) m =
      (.ok (), { m with state := m.state.setV State.flag 0 }) := rfl
  rw [Action.bind_ok flagged, Action.bind_ok ran]
  rfl

theorem draw_represents {r : Reference} (h : m.Represents r) (x y : Fin 16) {height : Nat} (small : height ≤ 32) :
    ∃ m' : Machine π, draw x y height m = (.ok (), m') ∧
      m'.Represents
        (r.draw (Fin.ofNat 64 (r.v x).toNat) (Fin.ofNat 32 (r.v y).toNat) height) := by
  have memory : m.bus.IsMemory := ⟨_, h.bus⟩
  obtain ⟨screen, turned, ran⟩ := draw_run memory h.state.screen x y small
  rw [h.state.v x, h.state.v y, residue_ofNat, residue_ofNat, h.spriteAt] at turned ran
  refine ⟨_, ran, ?_, ?_⟩
  · have flagged := h.state.setV State.flag (show (if r.Collides (Fin.ofNat 64 (r.v x).toNat)
      (Fin.ofNat 32 (r.v y).toNat) height then (1 : Int) else 0) =
        (if r.Collides (Fin.ofNat 64 (r.v x).toNat) (Fin.ofNat 32 (r.v y).toNat) height then (1 : UInt8) else 0).toNat
      by split <;> rfl)
    exact { flagged with screen := turned }
  · have cells : m.bus.memory = Vector.ofFn r.memory := by rw [h.bus, Bus.memory_ofMemory]
    exact congrArg (fun cells => Bus.ofMemory cells _) cells

/-- **Drawing.** The pixels of the screen behind a draw are those before it, turned over where the sprite has a bit on
them. The sprite wraps around the screen and the memory, covers no pixel twice, and its origin is read before the flag
is written. The flag tells whether a pixel that was lit has been turned over. Each row is read once, from the top;
nothing else is changed. -/
theorem draw_exact (memory : m.bus.IsMemory) (size : m.state.screen.width = 64 ∧ m.state.screen.height = 32)
    (w : Nat) :
    let originX := m.state.v.get (fieldX w) % 64
    let originY := m.state.v.get (fieldY w) % 32
    let Hit (x : Fin 64) (y : Fin 32) : Prop := ∃ column row,
      Sprite.Covers originX originY (fieldN w) x y column row ∧
        m.state.screen.pixel x.val y.val ∧ (m.spriteAt row).toNat.testBit (7 - column)
    ∃ m' : Machine π, execute ⟨.draw, w⟩ m = (.ok (), m') ∧
      (m'.state.screen.width = 64 ∧ m'.state.screen.height = 32) ∧
      (∀ x y column row, Sprite.Covers originX originY (fieldN w) x y column row →
        m'.state.screen.pixel x.val y.val =
          (m.state.screen.pixel x.val y.val ^^ (m.spriteAt row).toNat.testBit (7 - column)) ∧
        ∀ column' row', Sprite.Covers originX originY (fieldN w) x y column' row' → column' = column ∧ row' = row) ∧
      (∀ x y, (∀ column row, ¬ Sprite.Covers originX originY (fieldN w) x y column row) →
        m'.state.screen.pixel x.val y.val = m.state.screen.pixel x.val y.val) ∧
      ((∃ x y, Hit x y) → m'.state.v.get State.flag = 1) ∧
      ((¬ ∃ x y, Hit x y) → m'.state.v.get State.flag = 0) ∧
      m' = { m with
        state := { m.state.setV State.flag (m'.state.v.get State.flag) with screen := m'.state.screen }
        bus := { m.bus with log := m.bus.log ++ m.spriteReads (fieldN w) }
        host := Host.render m'.state.screen m.host } := by
  intro originX originY Hit
  have small : fieldN w ≤ 32 := by
    unfold fieldN
    omega
  obtain ⟨pixel, shows⟩ := Framebuffer.exists_shows size
  obtain ⟨screen, turned, ran⟩ := draw_run memory shows (fieldX w) (fieldY w) small
  have left : residue 64 (m.state.v.get (fieldX w)) = residue 64 originX := (residue_emod _).symm
  have top : residue 32 (m.state.v.get (fieldY w)) = residue 32 originY := (residue_emod _).symm
  rw [left, top] at turned ran
  have hits : (∃ x y, Hit x y) ↔ m.spriteAt.Collides (residue 64 originX) (residue 32 originY) (fieldN w) pixel := by
    rw [m.spriteAt.collides_iff small pixel]
    simp only [Hit, shows.pixel_val]
  refine ⟨_, ran, ⟨turned.width, turned.height⟩, ?_, ?_, ?_, ?_, ?_⟩
  · intro x y column row covers
    refine ⟨?_, fun column' row' => covers.unique small⟩
    rw [shows.pixel_val, ← covers.lights m.spriteAt small]
    exact turned.pixel_val x y
  · intro x y uncovered
    have dark := Sprite.lights_eq_false_of_not_covers m.spriteAt uncovered
    have kept := turned.pixel_val x y
    rw [dark, Bool.xor_false, ← shows.pixel_val] at kept
    exact kept
  · intro hit
    exact (m.state.get_setV _ _).trans (if_pos (hits.1 hit))
  · intro missed
    exact (m.state.get_setV _ _).trans (if_neg (missed ∘ hits.2))
  · have frame := drawn_eq memory (fieldN w)
      (m.spriteAt.Collides (residue 64 originX) (residue 32 originY) (fieldN w) pixel) screen
    exact congrArg (fun m' : Machine π => { m' with host := Host.render screen m.host }) frame

/-- A sprite of five full rows across the corner of the screen and the end of the memory, drawn twice. -/
theorem draw_exact_twice :
    let m : Machine Unit := {
      state := { v := Vector.replicate 16 62, i := 4094 }
      bus := Bus.ofMemory (Vector.replicate 4096 0xFF) []
      host := () }
    ∃ m₁ m₂ : Machine Unit,
      execute ⟨.draw, 0xD005⟩ m = (.ok (), m₁) ∧ m₁.state.screen.pixel 0 0 = true ∧ m₁.state.v.get State.flag = 0 ∧
      execute ⟨.draw, 0xD005⟩ m₁ = (.ok (), m₂) ∧ m₂.state.screen.pixel 0 0 = false ∧
        m₂.state.v.get State.flag = 1 := by
  intro m
  have memory : m.bus.IsMemory := Bus.isMemory_ofMemory _ _
  have cells : m.bus.memory = Vector.replicate 4096 0xFF := Bus.memory_ofMemory _ _
  have dark (x : Fin 64) (y : Fin 32) : m.state.screen.pixel x.val y.val = false :=
    Framebuffer.screen_shows.pixel_val x y
  have column : m.state.v.get (fieldX 0xD005) = 62 := by simp [m, Vector.get_eq_getElem]
  have row : m.state.v.get (fieldY 0xD005) = 62 := by simp [m, Vector.get_eq_getElem]
  have size : m.state.screen.width = 64 ∧ m.state.screen.height = 32 := ⟨rfl, rfl⟩
  clear_value m
  have full (m' : Machine Unit) (same : m'.bus.memory = m.bus.memory) (k : Nat) : m'.spriteAt k = 0xFF := by
    simp [spriteAt, same, cells, Vector.get_eq_getElem]
  have corner : Sprite.Covers (62 % 64) (62 % 32) (fieldN 0xD005) 0 0 2 2 := by
    constructor <;> decide
  have bit : (0xFF : UInt8).toNat.testBit (7 - 2) = true := by decide
  obtain ⟨m₁, first, size₁, turned, -, -, missed, frame⟩ := draw_exact memory size 0xD005
  have lit : m₁.state.screen.pixel 0 0 = true := by
    rw [column, row] at turned
    have pixel := (turned 0 0 2 2 corner).1
    rw [dark, full m rfl, bit] at pixel
    exact pixel
  have unset : m₁.state.v.get State.flag = 0 := by
    apply missed
    rintro ⟨x, y, c, r, -, before, -⟩
    rw [dark] at before
    cases before
  have bus : m₁.bus = Bus.ofMemory m.bus.memory (m.bus.log ++ m.spriteReads (fieldN 0xD005)) := by
    rw [bus_withLog memory]
    exact congrArg Core.bus frame
  have memory₁ : m₁.bus.IsMemory := by
    rw [bus]
    exact Bus.isMemory_ofMemory _ _
  have same : m₁.bus.memory = m.bus.memory := by rw [bus, Bus.memory_ofMemory]
  have column₁ : m₁.state.v.get (fieldX 0xD005) = 62 := by
    rw [frame, ← column]
    exact m.state.get_setV_of_ne (by decide) _
  have row₁ : m₁.state.v.get (fieldY 0xD005) = 62 := by
    rw [frame, ← row]
    exact m.state.get_setV_of_ne (by decide) _
  obtain ⟨m₂, second, -, turned₂, -, hit, -, -⟩ := draw_exact memory₁ size₁ 0xD005
  rw [column₁, row₁] at turned₂ hit
  refine ⟨m₁, m₂, first, lit, unset, second, ?_, ?_⟩
  · have pixel := (turned₂ 0 0 2 2 corner).1
    rw [full m₁ same, bit] at pixel
    refine pixel.trans ?_
    show (m₁.state.screen.pixel 0 0 ^^ true) = false
    rw [lit]
    rfl
  · apply hit
    refine ⟨0, 0, 2, 2, corner, lit, ?_⟩
    rw [full m₁ same]
    exact bit

end Machine

end Chip8
