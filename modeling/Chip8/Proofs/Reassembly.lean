import Chip8.Disassembly
import Chip8.Proofs.Encoding
import Chip8.Proofs.Passes

/-! Listings can be assembled again. The text of a word, instruction or data, assembles to its two bytes
(`emits_wordText`), and so a listing behind an origin assembles to the memory that it lists
(`disassemble_assembles`). -/

namespace Chip8

open Text (Plain HexNumeral)

namespace Assembly

/-- The number of two bytes, high byte first. -/
def wordNumber (pair : UInt8 × UInt8) : Nat := pair.1.toNat * 256 + pair.2.toNat

theorem wordNumber_lt (pair : UInt8 × UInt8) : wordNumber pair < 65536 := by
  have high := pair.1.toNat_lt
  have low := pair.2.toNat_lt
  unfold wordNumber
  omega

theorem wordBytes_wordNumber (pair : UInt8 × UInt8) : wordBytes (wordNumber pair) = [pair.1, pair.2] := by
  have low := pair.2.toNat_lt
  have high := pair.1.toNat_lt
  have first : ((wordNumber pair : Int) / 256 % 256).toNat = pair.1.toNat := by
    unfold wordNumber
    omega
  have second : ((wordNumber pair : Int) % 256).toNat = pair.2.toNat := by
    unfold wordNumber
    omega
  rw [wordBytes, lowByte, lowByte, first, second, UInt8.ofNat_toNat, UInt8.ofNat_toNat]

theorem ofLine_mnemonic (m : Mnemonic) (text : List Char) :
    Statement.ofLine m.name text = .instruction m.name text := by
  cases m <;> simp [Statement.ofLine, Mnemonic.name]

/-- A line without label that emits these bytes, whatever the symbols. -/
structure Emits (l : SourceLine) (bytes : List UInt8) : Prop where
  label : l.label = none
  statement : ∃ s, l.statement? = some s ∧ (∀ text, s ≠ .origin text) ∧ s.size = bytes.length ∧
    ∀ symbols, s.emit symbols = .ok bytes

theorem emits_instruction {op : Opcode} {w : Nat} (small : w < 65536) (fits : op.Fits w) :
    Emits (SourceLine.parse (Instruction.text ⟨op, w⟩)) (wordBytes w) := by
  have plain : ∀ p ∈ op.slots.map (Slot.text w), Plain p := fun p hp => by
    obtain ⟨slot, -, rfl⟩ := List.mem_map.1 hp
    exact slot.plain_text w
  have parsed : SourceLine.parse (Instruction.text ⟨op, w⟩) =
      ⟨none, some (Text.uppercase op.mnemonic.name,
        List.intercalate [',', ' '] (op.slots.map (Slot.text w)))⟩ :=
    parse_operationText op.mnemonic.plain_name plain
  rw [Mnemonic.uppercase_name] at parsed
  rw [parsed]
  refine ⟨rfl, _, congrArg some (ofLine_mnemonic _ _), nofun, rfl, fun symbols => ?_⟩
  simp only [Statement.emit]
  rw [encode_slots symbols small fits]
  rfl

theorem emits_data {digits : List Char} {w : Nat} (h : HexNumeral digits w) :
    Emits (SourceLine.parse (['D', 'W'] ++ ' ' :: '$' :: digits)) (wordBytes w) := by
  have plain : Plain ('$' :: digits) := h.plain.cons (by decide)
  have name : Plain ['D', 'W'] := Text.plain_of_all (by decide) (by decide)
  have upper : Text.uppercase ['D', 'W'] = ['D', 'W'] := by decide
  have data : Statement.ofLine ['D', 'W'] ('$' :: digits) = .words ['$' :: digits] := by
    simp [Statement.ofLine, operandsOf_plain plain]
  rw [parse_operand name plain, upper]
  refine ⟨rfl, _, congrArg some data, nofun, rfl, fun symbols => ?_⟩
  simp [Statement.emit, valueOf_hex symbols h]

theorem emits_wordText {w : Nat} (small : w < 65536) :
    Emits (SourceLine.parse (wordText w)) (wordBytes w) := by
  have same : wordOf w = w := by
    unfold wordOf
    omega
  unfold wordText Instruction.ofWord?
  rw [same]
  cases decoded : Opcode.ofWord? w with
  | none =>
    have hex : (Text.upperHex 4 (w : Int)).toList = Text.padZeros 4 (Text.upperHexDigits w) :=
      String.toList_ofList
    rw [hex]
    exact emits_data ((Text.hexNumeral_upper w).padZeros 4)
  | some op => exact emits_instruction small (Opcode.fits_of_ofWord? decoded)

variable {ls : List SourceLine} {blocks : List (List UInt8)}

theorem collect_emits (h : List.Forall₂ Emits ls blocks) (line : Nat) (counter : Int) (symbols : Symbols) :
    collect line counter symbols ls = .ok symbols := by
  induction h generalizing line counter with
  | nil => rfl
  | @cons l block ls blocks first _ ih =>
    obtain ⟨s, statement, moves, -, -⟩ := first.statement
    have behind : counterBehind line counter (some s) = .ok (counter + s.size) := by
      cases s with
      | origin text => exact absurd rfl (moves text)
      | _ => rfl
    rw [collect, first.label, statement, behind]
    exact ih _ _

theorem emitFrom_emits (h : List.Forall₂ Emits ls blocks) (line : Nat) (counter : Int) (symbols : Symbols) :
    emitFrom symbols line counter ls = .ok (place counter blocks.flatten) := by
  induction h generalizing line counter with
  | nil => rfl
  | @cons l block ls blocks first _ ih =>
    obtain ⟨s, statement, moves, -, emit⟩ := first.statement
    rw [List.flatten_cons, place_append]
    cases s with
    | origin text => exact absurd rfl (moves text)
    | _ =>
      simp only [emitFrom, statement, emit, atLine]
      show (emitFrom symbols (line + 1) (counter + block.length) ls >>= fun later => _) = _
      rw [ih]
      rfl

theorem assemble_origin {digits : List Char} {start : Nat} (h : HexNumeral digits start)
    {lines : List (List Char)} (emits : List.Forall₂ Emits (lines.map SourceLine.parse) blocks) :
    assemble ((['O', 'R', 'G'] ++ ' ' :: '$' :: digits) :: lines) =
      .ok { symbols := [], bytes := place start blocks.flatten } := by
  have plain : Plain ('$' :: digits) := h.plain.cons (by decide)
  have name : Plain ['O', 'R', 'G'] := Text.plain_of_all (by decide) (by decide)
  have upper : Text.uppercase ['O', 'R', 'G'] = ['O', 'R', 'G'] := by decide
  have origin : originOf 1 ('$' :: digits) = .ok (start : Int) := by
    rw [originOf, valueOf_hex [] h]
    rfl
  have parsed := parse_operand name plain
  rw [upper] at parsed
  have statement : SourceLine.statement? ⟨none, some (['O', 'R', 'G'], '$' :: digits)⟩ =
      some (.origin ('$' :: digits)) := rfl
  have first : collect 1 0x200 []
      (⟨none, some (['O', 'R', 'G'], '$' :: digits)⟩ :: lines.map SourceLine.parse) = .ok [] := by
    rw [collect, statement]
    simp only [define, counterBehind, origin]
    exact collect_emits emits _ _ _
  have second : emitFrom [] 1 0x200
      (⟨none, some (['O', 'R', 'G'], '$' :: digits)⟩ :: lines.map SourceLine.parse) =
      .ok (place start blocks.flatten) := by
    simp only [emitFrom, statement, origin]
    exact emitFrom_emits emits _ _ _
  unfold assemble
  dsimp only
  rw [List.map_cons, parsed, first]
  show (emitFrom [] 1 0x200 _ >>= fun bytes => _) = _
  rw [second]
  rfl

theorem place_map_range (address : Int) (f : Nat → UInt8) (n : Nat) :
    place address ((List.range n).map f) = (List.range n).map fun i : Nat => (address + i, f i) := by
  induction n with
  | zero => rfl
  | succ n ih =>
    rw [List.range_succ, List.map_append, place_append, ih, List.map_append]
    simp [place]

theorem flatten_pairs (f : Nat → UInt8) (n : Nat) :
    ((List.range n).map fun k => [f (2 * k), f (2 * k + 1)]).flatten = (List.range (2 * n)).map f := by
  induction n with
  | zero => rfl
  | succ n ih =>
    rw [List.range_succ, List.map_append, List.flatten_append, ih, Nat.mul_succ, List.range_succ,
      List.range_succ]
    simp

end Assembly

namespace Disassembly

def byteDigits (b : UInt8) : List Char :=
  [(Nat.digitChar (b.toNat / 16)).toUpper, (Nat.digitChar (b.toNat % 16)).toUpper]

theorem padZeros_byte (b : UInt8) : Text.padZeros 2 (Text.upperHexDigits b.toNat) = byteDigits b := by
  have high : b.toNat / 16 < 16 := by
    have := b.toNat_lt
    omega
  have one : Text.padZeros 1 (Text.upperHexDigits (b.toNat / 16)) =
      [(Nat.digitChar (b.toNat / 16)).toUpper] := by
    simp [Text.upperHexDigits, Text.padZeros, Nat.toDigits_of_lt_base high]
  rw [Text.padZeros_upperHexDigits_succ Nat.one_pos, one]
  rfl

def byteAt (cells : Memory) (address : Nat) : UInt8 := cells.get (Fin.ofNat 4096 address)

theorem peek_byteAt (cells : Memory) (log : List Access) {address : Nat} (inside : address < 4096) :
    (Bus.ofMemory cells log).peek address = .ok (byteAt cells address) := by
  have place : residue 4096 (address : Int) = Fin.ofNat 4096 address := residue_ofNat address
  rw [Bus.peek_ofMemory cells log (by omega)]
  exact congrArg (fun k => Except.ok (cells.get k)) place

theorem rowsTo_ofMemory (cells : Memory) (log : List Access) {stop fuel address : Nat} (inside : stop ≤ 4096)
    (enough : stop ≤ address + fuel) :
    rowsTo (Bus.ofMemory cells log) stop fuel address = .ok ((List.range ((stop - address) / 2)).map fun k =>
      rowOf (address + 2 * k : Nat) (byteAt cells (address + 2 * k)) (byteAt cells (address + 2 * k + 1))) := by
  induction fuel generalizing address with
  | zero =>
    have none : (stop - address) / 2 = 0 := by omega
    rw [none]
    rfl
  | succ fuel ih =>
    rw [rowsTo]
    by_cases more : address + 1 < stop
    · have count : (stop - address) / 2 = (stop - (address + 2)) / 2 + 1 := by omega
      have rest := @ih (address + 2) (by omega)
      have next : (address : Int) + 2 = (address + 2 : Nat) := by omega
      have second : (address : Int) + 1 = (address + 1 : Nat) := by omega
      rw [if_pos (by omega), second, peek_byteAt cells log (by omega), peek_byteAt cells log (by omega), next]
      show (rowsTo _ _ _ _ >>= fun rows => _) = _
      rw [rest, count, List.range_succ_eq_map, List.map_cons, List.map_map]
      refine congrArg Except.ok (congrArg (List.cons _) (List.map_congr_left fun k _ => ?_))
      have further : address + 2 + 2 * k = address + 2 * (k + 1) := by omega
      rw [further]
      rfl
    · have none : (stop - address) / 2 = 0 := by omega
      rw [if_neg (by omega), none]
      rfl

def listing (cells : Memory) (start n : Nat) : List ListingRow :=
  (List.range n).map fun k =>
    rowOf (start + 2 * k : Nat) (byteAt cells (start + 2 * k)) (byteAt cells (start + 2 * k + 1))

theorem disassemble_ofMemory (cells : Memory) (log : List Access) (start length : Nat) :
    disassemble (Bus.ofMemory cells log) start length =
      .ok (listing cells start ((min (start + length) 4096 - start) / 2)) := by
  have stop : min ((start : Int) + length) memorySize = (min (start + length) 4096 : Nat) := by
    have size : (memorySize : Int) = 4096 := rfl
    omega
  unfold disassemble
  dsimp only
  rw [stop]
  exact rowsTo_ofMemory cells log (Nat.min_le_right _ _) (by omega)

open Assembly in
theorem emits_listing (cells : Memory) (start n : Nat) :
    List.Forall₂ Emits (((listing cells start n).map ListingRow.text).map SourceLine.parse)
      ((List.range n).map fun k => [byteAt cells (start + 2 * k), byteAt cells (start + 2 * k + 1)]) := by
  rw [listing, List.map_map, List.map_map, List.forall₂_map_left_iff, List.forall₂_map_right_iff,
    List.forall₂_same]
  intro k _
  have word := emits_wordText (wordNumber_lt (byteAt cells (start + 2 * k), byteAt cells (start + 2 * k + 1)))
  rw [wordBytes_wordNumber] at word
  exact word

end Disassembly

open Assembly Disassembly in
/-- **Listings.** A listing of memory has a row for every two bytes before the end of the range and of memory,
with their addresses and their digits; and its texts behind an origin assemble to these bytes at these
addresses, without symbols. -/
theorem disassemble_assembles (cells : Memory) (log : List Access) (start length : Nat) :
    let n := (min (start + length) 4096 - start) / 2
    ∃ rows, disassemble (Bus.ofMemory cells log) start length = .ok rows ∧
      rows.map ListingRow.address = (List.range n).map (fun k => ((start + 2 * k : Nat) : Int)) ∧
      rows.map ListingRow.bytes = (List.range n).map (fun k =>
        byteDigits (byteAt cells (start + 2 * k)) ++ ' ' :: byteDigits (byteAt cells (start + 2 * k + 1))) ∧
      ∀ (width : Nat) (upper : Bool),
        assemble (("ORG $".toList ++ Text.padZeros width
            (if upper then Text.upperHexDigits start else Text.lowerHexDigits start)) ::
          rows.map ListingRow.text) =
        .ok {
          symbols := []
          bytes := (List.range (2 * n)).map fun i : Nat => ((start + i : Int), byteAt cells (start + i)) } := by
  intro n
  refine ⟨_, disassemble_ofMemory cells log start length, ?_, ?_, fun width upper => ?_⟩
  · rw [listing, List.map_map]
    rfl
  · rw [listing, List.map_map]
    refine List.map_congr_left fun k _ => ?_
    rw [← padZeros_byte, ← padZeros_byte]
    rfl
  · have numeral :
        HexNumeral (if upper then Text.upperHexDigits start else Text.lowerHexDigits start) start := by
      cases upper
      · exact Text.hexNumeral_lower start
      · exact Text.hexNumeral_upper start
    have pairs := flatten_pairs (fun i => byteAt cells (start + i)) n
    have placed := place_map_range start (fun i => byteAt cells (start + i)) (2 * n)
    rw [← pairs] at placed
    have assembled := assemble_origin (numeral.padZeros width) (emits_listing cells start n)
    rw [← placed]
    exact assembled

end Chip8
