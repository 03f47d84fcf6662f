import Chip8.Loading
import Chip8.Proofs.Passes
import Chip8.Proofs.Sessions

/-! Loading programs. Whatever can be wrong with a file is found before the machine is touched, so that a file that
is not loaded leaves the machine as it was; a file that is loaded puts its image into memory, sets the program
counter, the end of the program and the symbols, and leaves all else (`load_exact`). -/

namespace Chip8

namespace Image

theorem bounds_eq_none_iff (pairs : List (Int × Int)) : bounds pairs = none ↔ pairs = [] := by
  cases pairs with
  | nil => exact ⟨fun _ => rfl, fun _ => rfl⟩
  | cons p rest =>
    rw [bounds]
    split <;> simp

theorem bounds_spec {pairs : List (Int × Int)} {low high : Int} (h : bounds pairs = some (low, high)) :
    (∀ p ∈ pairs, low ≤ p.1 ∧ p.1 ≤ high) ∧ (∃ p ∈ pairs, p.1 = low) ∧ ∃ p ∈ pairs, p.1 = high := by
  induction pairs generalizing low high with
  | nil => cases h
  | cons p rest ih =>
    rw [bounds] at h
    cases behind : bounds rest with
    | none =>
      rw [behind] at h
      obtain rfl := (bounds_eq_none_iff rest).1 behind
      cases h
      simp
    | some ends =>
      obtain ⟨low', high'⟩ := ends
      rw [behind] at h
      cases h
      obtain ⟨within, ⟨lowest, mem, rfl⟩, ⟨highest, mem', rfl⟩⟩ := ih behind
      refine ⟨?_, ?_, ?_⟩
      · intro q hq
        rcases List.mem_cons.1 hq with rfl | hq
        · exact ⟨min_le_left _ _, le_max_left _ _⟩
        · have inside := within q hq
          exact ⟨(min_le_right _ _).trans inside.1, inside.2.trans (le_max_right _ _)⟩
      · rcases min_choice p.1 lowest.1 with left | right
        · exact ⟨p, List.mem_cons_self, left.symm⟩
        · exact ⟨lowest, List.mem_cons_of_mem _ mem, right.symm⟩
      · rcases max_choice p.1 highest.1 with left | right
        · exact ⟨p, List.mem_cons_self, left.symm⟩
        · exact ⟨highest, List.mem_cons_of_mem _ mem', right.symm⟩

def Loadable (a : Int) : Prop := 0x200 ≤ a ∧ a ≤ 0xFFF

/-- Bytes can be laid out as an image if they lie where programs lie, and only then. -/
theorem exists_ofPairs_iff (pairs : List (Int × Int)) :
    (∃ image, ofPairs pairs = .ok image) ↔ ∀ p ∈ pairs, Loadable p.1 := by
  unfold ofPairs
  cases ends : bounds pairs with
  | none =>
    obtain rfl := (bounds_eq_none_iff pairs).1 ends
    simp
  | some ends' =>
    obtain ⟨low, high⟩ := ends'
    obtain ⟨within, ⟨lowest, mem, rfl⟩, ⟨highest, mem', rfl⟩⟩ := bounds_spec ends
    dsimp only
    split
    · refine ⟨nofun, fun inside => ?_⟩
      have := (inside lowest mem).1
      omega
    · split
      · refine ⟨nofun, fun inside => ?_⟩
        have := (inside highest mem').2
        omega
      · refine ⟨fun _ p hp => ?_, fun _ => ⟨_, rfl⟩⟩
        have := within p hp
        constructor <;> omega

end Image

namespace Value

/-- The items of a list, or the keys of a mapping. -/
def items? : Value → Option (List Value)
  | list items => some items
  | map entries => some (entries.map Prod.fst)
  | _ => none

/-- A value gives bytes: it has items, and they are integers with the values of the bytes. -/
def Gives (v : Value) (bytes : List UInt8) : Prop :=
  ∃ items, v.items? = some items ∧ items.map integer? = bytes.map fun b => some (b.toNat : Int)

theorem toByte_eq_ok_iff (v : Value) (b : UInt8) : toByte v = .ok b ↔ v.integer? = some (b.toNat : Int) := by
  have small := b.toNat_lt
  unfold toByte
  cases v.integer? with
  | none => simp
  | some n =>
    dsimp only
    split
    · rename_i range
      rw [Except.ok.injEq, Option.some.injEq, ← UInt8.toNat_inj, UInt8.toNat_ofNat']
      omega
    · simp only [reduceCtorEq, Option.some.injEq, false_iff]
      omega

theorem mapM_toByte_iff (items : List Value) (bytes : List UInt8) :
    items.mapM toByte = .ok bytes ↔ items.map integer? = bytes.map fun b => some (b.toNat : Int) := by
  constructor
  · intro read
    have each := Assembly.mapM_eq_ok read
    clear read
    induction each with
    | nil => rfl
    | cons first _ ih => rw [List.map_cons, List.map_cons, (toByte_eq_ok_iff _ _).1 first, ih]
  · intro same
    induction items generalizing bytes with
    | nil =>
      obtain rfl := List.map_eq_nil_iff.1 same.symm
      rfl
    | cons item items ih =>
      cases bytes with
      | nil => cases same
      | cons b bytes =>
        obtain ⟨first, rest⟩ := List.cons.inj same
        rw [List.mapM_cons, (toByte_eq_ok_iff item b).2 first, ih bytes rest]
        rfl

end Value

namespace Machine

theorem imageOfValue_list (items : List Value) (image : List UInt8) :
    imageOfValue (.list items) = .ok image ↔ items.mapM Value.toByte = .ok image := by
  simp only [imageOfValue, Value.toBytes]
  cases items.mapM Value.toByte <;> simp

theorem imageOfValue_map (entries : List (Value × Value)) (image : List UInt8) :
    imageOfValue (.map entries) = .ok image ↔ (entries.map Prod.fst).mapM Value.toByte = .ok image := by
  have keys : entries.mapM (fun entry => Value.toByte entry.1) = (entries.map Prod.fst).mapM Value.toByte := by
    rw [List.mapM_map]
    rfl
  simp only [imageOfValue, Value.toBytes, keys]
  cases (entries.map Prod.fst).mapM Value.toByte <;> simp

theorem imageOfValue_eq_ok_iff (v : Value) (image : List UInt8) : imageOfValue v = .ok image ↔ v.Gives image := by
  cases v with
  | list items => rw [imageOfValue_list, Value.mapM_toByte_iff, Value.Gives]; simp [Value.items?]
  | map entries => rw [imageOfValue_map, Value.mapM_toByte_iff, Value.Gives]; simp [Value.items?]
  | _ => simp [imageOfValue, Value.toBytes, Value.Gives, Value.items?]

end Machine

namespace Loading

/-- The image and the symbols of a file by its format: raw bytes are the image; the records of a hex file and the
code of a source are laid out, and of these a source has symbols. -/
inductive Prepared (content : List UInt8) : Format → List UInt8 → Symbols → Prop
  | raw : Prepared content .raw content []
  | hex {pairs : List (Int × Int)} {image : List UInt8} (parsed : HexFile.parse content = .ok pairs)
      (inside : ∀ p ∈ pairs, Image.Loadable p.1) (laid : Image.ofPairs pairs = .ok image) :
      Prepared content .hex image []
  | assembly {code : ObjectCode} {image : List UInt8} (read : (Text.TextFile.ofBytes content).fault = none)
      (assembled : assemble (Text.TextFile.ofBytes content).lines = .ok code)
      (inside : ∀ p ∈ code.bytes, Image.Loadable p.1) (laid : Image.ofBytes code.bytes = .ok image) :
      Prepared content .assembly image code.symbols

theorem imageOf_eq_ok_iff (pairs : List (Int × Int)) (image : List UInt8) :
    imageOf pairs = .ok image ↔ Image.ofPairs pairs = .ok image := by
  unfold imageOf
  cases Image.ofPairs pairs <;> simp

theorem exists_prepared_of_prepare {format : Format} {content image : List UInt8} {symbols : Symbols}
    (h : prepare format content = .ok (image, symbols)) : Prepared content format image symbols := by
  cases format with
  | raw =>
    cases h
    exact .raw
  | hex =>
    cases parsed : HexFile.parse content with
    | error why =>
      simp only [prepare, parsed] at h
      cases h
    | ok pairs =>
      simp only [prepare, parsed] at h
      obtain ⟨image', laid, h⟩ := Assembly.bind_eq_ok h
      cases h
      have laid' := (imageOf_eq_ok_iff pairs image).1 laid
      exact .hex parsed ((Image.exists_ofPairs_iff pairs).1 ⟨image, laid'⟩) laid'
  | assembly =>
    cases read : (Text.TextFile.ofBytes content).fault with
    | some why =>
      simp only [prepare, read] at h
      cases h
    | none =>
      cases assembled : assemble (Text.TextFile.ofBytes content).lines with
      | error why =>
        simp only [prepare, read, assembled] at h
        cases h
      | ok code =>
        simp only [prepare, read, assembled] at h
        obtain ⟨image', laid, h⟩ := Assembly.bind_eq_ok h
        cases h
        have laid' := (imageOf_eq_ok_iff _ image).1 laid
        have inside := (Image.exists_ofPairs_iff _).1 ⟨image, laid'⟩
        refine .assembly read assembled (fun p member => ?_) laid'
        exact inside _ (List.mem_map_of_mem member)

theorem prepare_of_prepared {format : Format} {content image : List UInt8} {symbols : Symbols}
    (h : Prepared content format image symbols) : prepare format content = .ok (image, symbols) := by
  cases h with
  | raw => rfl
  | hex parsed _ laid =>
    simp only [prepare, parsed, (imageOf_eq_ok_iff _ _).2 laid]
    rfl
  | assembly read assembled _ laid =>
    have laid' : imageOf _ = .ok image := (imageOf_eq_ok_iff _ _).2 laid
    simp only [prepare, read, assembled, laid']
    rfl

theorem prepare_eq_ok_iff (format : Format) (content image : List UInt8) (symbols : Symbols) :
    prepare format content = .ok (image, symbols) ↔ Prepared content format image symbols :=
  ⟨exists_prepared_of_prepare, prepare_of_prepared⟩

end Loading

namespace Machine

variable {π : Type} {m : Machine π}

/-- A machine with an image loaded and its symbols set; all else is as before. -/
structure Loaded (m : Machine π) (image : List UInt8) (table : Symbols) (m' : Machine π) : Prop where
  program : ∀ (k : Nat) (hk : k < image.length), m'.bus.peek (0x200 + k) = .ok image[k]
  memory : ∀ a : Int, a < 0x200 ∨ 0x200 + image.length ≤ a → m'.bus.peek a = m.bus.peek a
  log : m'.bus.log = m.bus.log
  state : m'.state = { m.state with pc := 0x200, programEnd := 0x200 + image.length }
  cycles : m'.cycles = m.cycles
  symbols : m'.symbols = table
  host : m'.host = m.host

def Fits (image : List UInt8) : Prop := 1 ≤ image.length ∧ image.length ≤ 3584

theorem imageFault?_eq_none_iff_fits (image : List UInt8) : imageFault? image = none ↔ Fits image := by
  rw [imageFault?_eq_none_iff, Fits]
  exact and_congr_left fun _ => List.length_pos_iff.symm

theorem peek_overlay_program (cells : Memory) (log : List Access) {image : List UInt8} (fits : Fits image) {k : Nat}
    (hk : k < image.length) :
    (Bus.ofMemory (cells.overlay 0x200 image) log).peek (0x200 + k) = .ok image[k] := by
  obtain ⟨-, short⟩ := fits
  have inside : 0 ≤ (0x200 + k : Int) ∧ (0x200 + k : Int) < 4096 := by omega
  have place : (residue 4096 (0x200 + k : Int)).val = 0x200 + k := by
    rw [residue_inside inside]
    omega
  have cell : (cells.overlay 0x200 image)[residue 4096 (0x200 + k : Int)] = image[k] := by
    show (cells.overlay 0x200 image).get (residue 4096 (0x200 + k : Int)) = _
    rw [Memory.get_overlay, place, if_neg (by omega), Nat.add_sub_cancel_left, List.getD_eq_getElem _ _ hk]
  rw [Bus.peek_ofMemory _ _ inside, cell]

theorem peek_overlay_other (cells : Memory) (log : List Access) {image : List UInt8} {a : Int}
    (other : a < 0x200 ∨ 0x200 + image.length ≤ a) :
    (Bus.ofMemory (cells.overlay 0x200 image) log).peek a = (Bus.ofMemory cells log).peek a := by
  by_cases inside : 0 ≤ a ∧ a < 4096
  · have cell : (cells.overlay 0x200 image)[residue 4096 a] = cells[residue 4096 a] := by
      show (cells.overlay 0x200 image).get (residue 4096 a) = cells.get (residue 4096 a)
      rw [Memory.get_overlay, residue_inside inside]
      split
      · rfl
      · exact List.getD_eq_default _ _ (by omega)
    rw [Bus.peek_ofMemory _ _ inside, Bus.peek_ofMemory _ _ inside, cell]
  · rw [Bus.peek, Bus.peek, Bus.find?_outside _ _ inside, Bus.find?_outside _ _ inside]

theorem loadImage_loaded (h : m.bus.IsMemory) {image : List UInt8} (fits : Fits image) :
    ∃ m', loadImage image m = (.ok (), m') ∧ m.Loaded image m.symbols m' := by
  refine ⟨_, loadImage_accepted h ((imageFault?_eq_none_iff_fits image).2 fits), ?_⟩
  exact {
    program := fun k hk => peek_overlay_program _ _ fits hk
    memory := fun a other => by
      have before := peek_overlay_other m.bus.memory m.bus.log other
      rwa [← h.eq_ofMemory] at before
    log := rfl
    state := rfl
    cycles := rfl
    symbols := rfl
    host := rfl }

theorem Loaded.setSymbols {image : List UInt8} {table : Symbols} {m' : Machine π} (h : m.Loaded image table m')
    (table' : Symbols) : m.Loaded image table' (m'.setSymbols table') :=
  { h with symbols := rfl }

theorem loadFile_loaded (h : m.bus.IsMemory) {name : String} {content : Except FileFault (List UInt8)}
    {bytes image : List UInt8} {table : Symbols} (read : content = .ok bytes)
    (prepared : Loading.Prepared bytes (Loading.Format.ofName name) image table) (fits : Fits image) :
    ∃ m', loadFile name content m = (.ok table, m') ∧ m.Loaded image table m' := by
  obtain ⟨m', loaded, all⟩ := loadImage_loaded h fits
  refine ⟨m'.setSymbols table, ?_, all.setSymbols table⟩
  simp only [loadFile, read, Loading.prepare_of_prepared prepared, loaded]

end Machine

end Chip8
