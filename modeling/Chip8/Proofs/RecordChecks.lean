import Chip8.Proofs.HexRecords

/-! What the parser checks of a hex file. Each record that it accepts has numerals in its fields, as many bytes as it
says and a sum of zero (`Balanced`), and it is well formed if it is written in digits alone (`parse_wellFormed_iff`).
Numerals may be more than digits: with a sign they give numbers that are no bytes (`parse_signed`). -/

namespace Chip8

namespace HexFile

open Assembly (bind_eq_ok mapM_eq_ok isHexDigit)
open Text (hexValue)

/-- The text of a record as it should be: a colon, and two digits for each byte, with the right count and a sum of
zero. -/
inductive WellFormed : List Char → Prop
  | intro {r : RawRecord} {digits : List Char} (spelled : Spelled r.bytes digits)
    (count : r.data.length = r.count.toNat) (zero : r.total % 256 = 0) : WellFormed (':' :: digits)

/-- Whether the number of the type makes the text of a record one that ends the file. -/
def endsFile (text : List Char) : Bool := Text.readInt? .hexadecimal ((text.drop 7).take 2) == some 1

/-- The records of lines, up to the first that ends the file. -/
def recordTexts : List (List Char) → List (List Char)
  | [] => []
  | l :: ls =>
    match recordText? l with
    | none => recordTexts ls
    | some text => if endsFile text then [text] else text :: recordTexts ls

/-- A text with numerals for the fields of a record, in their places. It has two characters for each byte of the
data, and the numbers add up to zero modulo 256. -/
structure Balanced (text : List Char) (r : Record) : Prop where
  size : text.length = 2 * r.data.length + 11
  count : Text.readInt? .hexadecimal ((text.drop 1).take 2) = some (r.data.length : Int)
  address : Text.readInt? .hexadecimal ((text.drop 3).take 4) = some r.address
  type : Text.readInt? .hexadecimal ((text.drop 7).take 2) = some r.type
  data : (pairsOf ((text.drop 9).take (text.length - 11))).map (Text.readInt? .hexadecimal) = r.data.map some
  checksum : Text.readInt? .hexadecimal (text.drop (text.length - 2)) = some r.checksum
  zero : (r.data.length + r.address / 256 + r.address % 256 + r.type + r.data.sum + r.checksum) % 256 = 0

/-! ### An accepted record -/

theorem field_eq_ok_iff {text : List Char} {n : Int} : field text = .ok n ↔ Text.readInt? .hexadecimal text = some n := by
  unfold field
  cases Text.readInt? .hexadecimal text <;> simp

theorem length_pairsOf (cs : List Char) : (pairsOf cs).length = cs.length / 2 := by
  induction cs using pairsOf.induct with
  | case1 a b rest ih =>
    rw [pairsOf, List.length_cons, ih, List.length_cons, List.length_cons]
    omega
  | case2 cs short =>
    rcases cs with _ | ⟨a, _ | ⟨b, rest⟩⟩
    · rfl
    · simp [pairsOf]
    · exact absurd rfl (short a b rest)

theorem foldl_eq_sum (data : List Int) (n : Int) : data.foldl (· + ·) n = n + data.sum := by
  induction data generalizing n with
  | nil => simp
  | cons d data ih => rw [List.foldl_cons, ih, List.sum_cons, add_assoc]

theorem map_readInt?_of_mapM {texts : List (List Char)} {data : List Int} (h : texts.mapM field = .ok data) :
    texts.map (Text.readInt? .hexadecimal) = data.map some := by
  have each := mapM_eq_ok h
  clear h
  induction each with
  | nil => rfl
  | cons first _ ih => rw [List.map_cons, List.map_cons, field_eq_ok_iff.1 first, ih]

theorem length_dataText {text : List Char} (long : 11 ≤ text.length) :
    ((text.drop 9).take (text.length - 11)).length = text.length - 11 := by
  rw [List.length_take, List.length_drop]
  omega

theorem balanced_of_parse {line : Nat} {text : List Char} {r : Record} (h : Record.parse line text = .ok r)
    (long : 11 ≤ text.length) (same : r.sum = r.checksum) : Balanced text r := by
  unfold Record.parse at h
  obtain ⟨count, counted, h⟩ := bind_eq_ok h
  obtain ⟨address, addressed, h⟩ := bind_eq_ok h
  obtain ⟨type, typed, h⟩ := bind_eq_ok h
  obtain ⟨checksum, summed, h⟩ := bind_eq_ok h
  split at h
  · rename_i length
    obtain ⟨data, read, h⟩ := bind_eq_ok h
    cases h
    have pairs := (mapM_eq_ok read).length_eq
    rw [length_pairsOf, length_dataText long] at pairs
    rw [length_dataText long] at length
    -- There are twice as many characters as the count says, so the pairs leave none over.
    have right : count = data.length := by omega
    refine ⟨?_, ?_, field_eq_ok_iff.1 addressed, field_eq_ok_iff.1 typed, map_readInt?_of_mapM read,
      field_eq_ok_iff.1 summed, ?_⟩
    · dsimp only
      omega
    · rw [← right]
      exact field_eq_ok_iff.1 counted
    · simp only [Record.sum, foldl_eq_sum] at same
      dsimp only
      omega
  · cases h

theorem readRecord_eq_ok {line : Nat} {base : Int} {text : List Char} {d : Directive}
    (h : readRecord line base text = .ok d) : ∃ r, Balanced text r ∧ r.directive line base = .ok d := by
  unfold readRecord at h
  split at h
  · cases h
  · rename_i long
    split at h
    · cases h
    · rename_i r parsed
      split at h
      · rename_i same
        exact ⟨r, balanced_of_parse parsed (Nat.not_lt.1 long) same, h⟩
      · cases h

theorem directive_eq_endOfFile {line : Nat} {base : Int} {r : Record} {d : Directive}
    (h : r.directive line base = .ok d) : d = .endOfFile ↔ r.type = 1 := by
  unfold Record.directive at h
  cases read : Text.readInt? .hexadecimal r.dataText with
  | none =>
    simp only [read] at h
    split_ifs at h <;> cases h <;> simp_all
  | some n =>
    simp only [read] at h
    split_ifs at h <;> cases h <;> simp_all

theorem endsFile_iff {line : Nat} {base : Int} {text : List Char} {d : Directive}
    (h : readRecord line base text = .ok d) : endsFile text = true ↔ d = .endOfFile := by
  obtain ⟨r, balanced, done⟩ := readRecord_eq_ok h
  rw [directive_eq_endOfFile done, endsFile, balanced.type, beq_iff_eq, Option.some.injEq]

theorem exists_cons_of_recordText? {line text : List Char} (h : recordText? line = some text) :
    ∃ digits, text = ':' :: digits := by
  unfold recordText? at h
  dsimp only at h
  split at h
  · rename_i first
    cases h
    obtain ⟨rest, whole⟩ := List.head?_eq_some_iff.1 first
    have colon : Text.isBlank ':' = false := by decide
    have stripped := Text.strip_append_cons (List.forall_mem_nil _) colon (rest.takeWhile (· != ';'))
    rw [List.nil_append, ← List.nil_append (':' :: _), Text.stripRight_append_cons colon] at stripped
    refine ⟨Text.stripRight (rest.takeWhile (· != ';')), ?_⟩
    rw [whole, List.takeWhile_cons_of_pos (by decide)]
    exact stripped
  · cases h

/-! ### Digits -/

theorem isDigit_hexValue {c : Char} (h : isHexDigit c = true) : IsDigit c (hexValue c) ∧ hexValue c < 16 := by
  have range := Text.toNat_of_isHexDigit h
  exact Text.of_ascii (P := fun c => isHexDigit c = true → IsDigit c (hexValue c) ∧ hexValue c < 16)
    (by decide +kernel) (by omega) h

theorem exists_spelled {digits : List Char} (h : ∀ c ∈ digits, isHexDigit c = true) {n : Nat}
    (length : digits.length = 2 * n) : ∃ bytes, Spelled bytes digits ∧ bytes.length = n := by
  induction n generalizing digits with
  | zero =>
    rw [List.eq_nil_of_length_eq_zero length]
    exact ⟨[], .nil, rfl⟩
  | succ n ih =>
    obtain ⟨a, b, rest, rfl⟩ : ∃ a b rest, digits = a :: b :: rest := by
      rcases digits with _ | ⟨a, _ | ⟨b, rest⟩⟩
      · simp at length
      · simp at length
        omega
      · exact ⟨a, b, rest, rfl⟩
    rw [List.forall_mem_cons, List.forall_mem_cons] at h
    obtain ⟨bytes, spelled, size⟩ := ih h.2.2 (by simp only [List.length_cons] at length; omega)
    obtain ⟨upper, high⟩ := isDigit_hexValue h.1
    obtain ⟨lower, low⟩ := isDigit_hexValue h.2.1
    have byte : (UInt8.ofNat (hexValue a * 16 + hexValue b)).toNat = hexValue a * 16 + hexValue b :=
      toNat_ofNat (by omega)
    have upper' : (hexValue a * 16 + hexValue b) / 16 = hexValue a := by omega
    have lower' : (hexValue a * 16 + hexValue b) % 16 = hexValue b := by omega
    refine ⟨UInt8.ofNat (hexValue a * 16 + hexValue b) :: bytes, .cons ?_ ?_ spelled, by simp [size]⟩
    · rwa [byte, upper']
    · rwa [byte, lower']

theorem RawRecord.exists_of_length {bytes : List UInt8} (long : 5 ≤ bytes.length) :
    ∃ r : RawRecord, r.bytes = bytes := by
  rcases bytes with _ | ⟨count, _ | ⟨high, _ | ⟨low, _ | ⟨type, rest⟩⟩⟩⟩
  · simp at long
  · simp at long
  · simp at long
  · simp at long
  · have ne : rest ≠ [] := by
      rintro rfl
      simp at long
    refine ⟨⟨count, high, low, type, rest.dropLast, rest.getLast ne⟩, ?_⟩
    rw [bytes, List.dropLast_append_getLast]

theorem wellFormed_of_readRecord {line : Nat} {base : Int} {digits : List Char} {d : Directive}
    (h : readRecord line base (':' :: digits) = .ok d) (hex : ∀ c ∈ digits, isHexDigit c = true) :
    WellFormed (':' :: digits) := by
  obtain ⟨r, balanced, -⟩ := readRecord_eq_ok h
  have size := balanced.size
  rw [List.length_cons] at size
  have even : digits.length = 2 * (r.data.length + 5) := by omega
  obtain ⟨bytes, spelled, length⟩ := exists_spelled hex even
  have long : 5 ≤ bytes.length := by omega
  obtain ⟨raw, rfl⟩ := RawRecord.exists_of_length long
  obtain ⟨dataText, -, read⟩ := raw.readRecord_spelled line base spelled
  rw [h] at read
  split at read
  · rename_i count
    split at read
    · rename_i zero
      exact .intro spelled count zero
    · cases read
  · cases read

theorem wellFormed_iff {line : Nat} {base : Int} {digits : List Char} {d : Directive}
    (h : readRecord line base (':' :: digits) = .ok d) :
    WellFormed (':' :: digits) ↔ ∀ c ∈ digits, isHexDigit c = true := by
  refine ⟨fun wellFormed => ?_, wellFormed_of_readRecord h⟩
  cases wellFormed with
  | intro spelled _ _ => exact spelled.isHexDigit

/-! ### A file -/

def Directive.baseBehind (base : Int) : Directive → Int
  | .base value => value
  | .data _ | .endOfFile | .start => base

def Directive.bytes : Directive → List (Int × Int)
  | .data bytes => bytes
  | .base _ | .endOfFile | .start => []

/-- A pass over lines that are accepted, with the bytes that it gives. -/
inductive Accepts (fault : Option Text.EncodingFault) : Nat → Int → List (List Char) → List (Int × Int) → Prop
  | finish {line : Nat} {base : Int} (readable : fault = none) : Accepts fault line base [] []
  | other {line : Nat} {base : Int} {l : List Char} {ls : List (List Char)} {pairs : List (Int × Int)}
    (noRecord : recordText? l = none) (later : Accepts fault (line + 1) base ls pairs) :
    Accepts fault line base (l :: ls) pairs
  | last {line : Nat} {base : Int} {l text : List Char} {ls : List (List Char)} (record : recordText? l = some text)
    (read : readRecord line base text = .ok .endOfFile) (ends : endsFile text = true) : Accepts fault line base (l :: ls) []
  | more {line : Nat} {base : Int} {l text : List Char} {ls : List (List Char)} {d : Directive}
    {pairs : List (Int × Int)} (record : recordText? l = some text) (read : readRecord line base text = .ok d)
    (goesOn : endsFile text = false) (later : Accepts fault (line + 1) (d.baseBehind base) ls pairs) :
    Accepts fault line base (l :: ls) (d.bytes ++ pairs)

theorem accepts_of_readLines {fault : Option Text.EncodingFault} {line : Nat} {base : Int} {ls : List (List Char)}
    {pairs : List (Int × Int)} (h : readLines fault line base ls = .ok pairs) : Accepts fault line base ls pairs := by
  induction ls generalizing line base pairs with
  | nil =>
    cases fault with
    | none =>
      cases h
      exact .finish rfl
    | some why => cases h
  | cons l ls ih =>
    rw [readLines] at h
    cases record : recordText? l with
    | none =>
      rw [record] at h
      exact .other record (ih h)
    | some text =>
      rw [record] at h
      obtain ⟨d, read, h⟩ := bind_eq_ok h
      have ends := endsFile_iff read
      cases d with
      | endOfFile =>
        cases h
        exact .last record read (ends.2 rfl)
      | data bytes =>
        obtain ⟨later, rest, h⟩ := bind_eq_ok h
        cases h
        exact .more record read (by simpa using ends) (ih rest)
      | base value => exact .more record read (by simpa using ends) (ih h)
      | start => exact .more record read (by simpa using ends) (ih h)

/-- All records up to the end of the file are accepted. -/
theorem Accepts.records {fault : Option Text.EncodingFault} {line : Nat} {base : Int} {ls : List (List Char)}
    {pairs : List (Int × Int)} (h : Accepts fault line base ls pairs) :
    ∀ text ∈ recordTexts ls, ∃ line base d, readRecord line base text = .ok d := by
  induction h with
  | finish => exact List.forall_mem_nil _
  | other noRecord _ ih => rwa [recordTexts, noRecord]
  | last record read ends =>
    rw [recordTexts, record]
    dsimp only
    rw [if_pos ends, List.forall_mem_singleton]
    exact ⟨_, _, _, read⟩
  | more record read goesOn _ ih =>
    rw [recordTexts, record]
    dsimp only
    rw [if_neg (ne_true_of_eq_false goesOn), List.forall_mem_cons]
    exact ⟨⟨_, _, _, read⟩, ih⟩

theorem recordText?_of_mem {ls : List (List Char)} {text : List Char} (h : text ∈ recordTexts ls) :
    ∃ l ∈ ls, recordText? l = some text := by
  induction ls with
  | nil => cases h
  | cons l ls ih =>
    rw [recordTexts] at h
    cases record : recordText? l with
    | none =>
      rw [record] at h
      obtain ⟨l', member, same⟩ := ih h
      exact ⟨l', List.mem_cons_of_mem l member, same⟩
    | some first =>
      rw [record] at h
      dsimp only at h
      split at h
      · rw [List.mem_singleton] at h
        exact ⟨l, List.mem_cons_self, by rw [record, h]⟩
      · rcases List.mem_cons.1 h with rfl | later
        · exact ⟨l, List.mem_cons_self, record⟩
        · obtain ⟨l', member, same⟩ := ih later
          exact ⟨l', List.mem_cons_of_mem l member, same⟩

/-- Bytes at addresses from zero on, or a base from zero on. -/
def Directive.InRange : Directive → Prop
  | .data bytes => ∀ p ∈ bytes, 0 ≤ p.1 ∧ 0 ≤ p.2 ∧ p.2 ≤ 255
  | .base value => 0 ≤ value
  | .endOfFile | .start => True

theorem inRange_dataAt {address : Int} (above : 0 ≤ address) (bytes : List UInt8) :
    ∀ p ∈ dataAt address (bytes.map fun b => (b.toNat : Int)), 0 ≤ p.1 ∧ 0 ≤ p.2 ∧ p.2 ≤ 255 := by
  intro p member
  rw [dataAt_eq_mapIdx, List.mem_mapIdx] at member
  obtain ⟨i, inside, rfl⟩ := member
  have small := (bytes[i]).toNat_lt
  dsimp only
  omega

theorem nonneg_of_readInt? {data : List UInt8} {dataText : List Char} (spelled : Spelled data dataText) {n : Int}
    (read : Text.readInt? .hexadecimal dataText = some n) : 0 ≤ n := by
  by_cases none : data = []
  · subst none
    cases spelled
    cases read
  · rw [(spelled.numeral none).readInt?] at read
    cases read
    exact Int.natCast_nonneg _

theorem inRange_of_wellFormed {line : Nat} {base : Int} {text : List Char} {d : Directive}
    (h : readRecord line base text = .ok d) (wellFormed : WellFormed text) (above : 0 ≤ base) : d.InRange := by
  cases wellFormed with
  | @intro r digits spelled count zero =>
    obtain ⟨dataText, spelledData, read⟩ := r.readRecord_spelled line base spelled
    rw [h, if_pos count, if_pos zero, Record.directive] at read
    have address : 0 ≤ (r.fields dataText).address :=
      Int.add_nonneg (Int.mul_nonneg (Int.natCast_nonneg _) (by decide)) (Int.natCast_nonneg _)
    have set (unit n : Int) (positive : 0 ≤ unit) (value : Text.readInt? .hexadecimal dataText = some n) :
        0 ≤ n * unit := Int.mul_nonneg (nonneg_of_readInt? spelledData value) positive
    have same : (r.fields dataText).dataText = dataText := rfl
    rw [same] at read
    cases value : Text.readInt? .hexadecimal dataText with
    | none =>
      simp only [value] at read
      split_ifs at read <;> cases read
      · exact inRange_dataAt (Int.add_nonneg above address) r.data
      · trivial
      · trivial
    | some n =>
      simp only [value] at read
      split_ifs at read <;> cases read
      · exact inRange_dataAt (Int.add_nonneg above address) r.data
      · trivial
      · exact set 16 n (by decide) value
      · exact set 65536 n (by decide) value
      · trivial

theorem Directive.InRange.bytes {d : Directive} (h : d.InRange) : ∀ p ∈ d.bytes, 0 ≤ p.1 ∧ 0 ≤ p.2 ∧ p.2 ≤ 255 := by
  cases d with
  | data bytes => exact h
  | base value => exact List.forall_mem_nil _
  | endOfFile => exact List.forall_mem_nil _
  | start => exact List.forall_mem_nil _

theorem Directive.InRange.baseBehind {d : Directive} (h : d.InRange) {base : Int} (above : 0 ≤ base) :
    0 ≤ d.baseBehind base := by
  cases d with
  | base value => exact h
  | data bytes => exact above
  | endOfFile => exact above
  | start => exact above

theorem Accepts.inRange {fault : Option Text.EncodingFault} {line : Nat} {base : Int} {ls : List (List Char)}
    {pairs : List (Int × Int)} (h : Accepts fault line base ls pairs) (above : 0 ≤ base)
    (wellFormed : ∀ text ∈ recordTexts ls, WellFormed text) : ∀ p ∈ pairs, 0 ≤ p.1 ∧ 0 ≤ p.2 ∧ p.2 ≤ 255 := by
  induction h with
  | finish => exact List.forall_mem_nil _
  | other noRecord _ ih =>
    rw [recordTexts, noRecord] at wellFormed
    exact ih above wellFormed
  | last => exact List.forall_mem_nil _
  | more record read goesOn _ ih =>
    rw [recordTexts, record] at wellFormed
    dsimp only at wellFormed
    rw [if_neg (ne_true_of_eq_false goesOn), List.forall_mem_cons] at wellFormed
    have range := inRange_of_wellFormed read wellFormed.1 above
    exact List.forall_mem_append.2 ⟨range.bytes, ih (range.baseBehind above) wellFormed.2⟩

/-- **Accepted files.** Each record of a file that is parsed, up to the first that ends the file, has numerals in its
fields, with the right count and a sum of zero, and it is well formed exactly if they are written in digits alone. If
all records are well formed then all addresses and values are in range. -/
theorem parse_wellFormed_iff {content : List UInt8} {pairs : List (Int × Int)} (h : parse content = .ok pairs) :
    (∀ text ∈ recordTexts (Text.TextFile.ofBytes content).lines,
      (∃ r, Balanced text r) ∧ (WellFormed text ↔ ∀ c ∈ text.tail, isHexDigit c = true)) ∧
    ((∀ text ∈ recordTexts (Text.TextFile.ofBytes content).lines, WellFormed text) →
      ∀ p ∈ pairs, 0 ≤ p.1 ∧ 0 ≤ p.2 ∧ p.2 ≤ 255) := by
  have accepts := accepts_of_readLines h
  refine ⟨fun text member => ?_, accepts.inRange (le_refl 0)⟩
  obtain ⟨line, base, d, read⟩ := accepts.records text member
  obtain ⟨l, -, record⟩ := recordText?_of_mem member
  obtain ⟨digits, rfl⟩ := exists_cons_of_recordText? record
  obtain ⟨r, balanced, -⟩ := readRecord_eq_ok read
  exact ⟨⟨r, balanced⟩, wellFormed_iff read⟩

/-- A byte and the end of the file, and a line behind it that is no record any more. -/
theorem parse_wellFormed_iff_byte :
    let content : List UInt8 := ":01020000609d ; byte\n:00000001FF\n:-".toList.map fun c => UInt8.ofNat c.toNat
    parse content = .ok [(0x200, 0x60)] ∧
      (∀ text ∈ recordTexts (Text.TextFile.ofBytes content).lines, WellFormed text) ∧
      ∀ p ∈ [((0x200 : Int), (0x60 : Int))], 0 ≤ p.1 ∧ 0 ≤ p.2 ∧ p.2 ≤ 255 := by
  intro content
  have parsed : parse content = .ok [(0x200, 0x60)] := by decide +kernel
  have records : recordTexts (Text.TextFile.ofBytes content).lines =
      [":01020000609d".toList, ":00000001FF".toList] := by
    decide +kernel
  obtain ⟨each, range⟩ := parse_wellFormed_iff parsed
  have wellFormed : ∀ text ∈ recordTexts (Text.TextFile.ofBytes content).lines, WellFormed text := by
    intro text member
    refine (each text member).2.2 ?_
    rw [records] at member
    have digits : [":01020000609d".toList, ":00000001FF".toList].all
        (fun text => text.tail.all isHexDigit) = true := by
      decide +kernel
    exact List.all_eq_true.1 (List.all_eq_true.1 digits text member)
  exact ⟨parsed, wellFormed, range wellFormed⟩

/-- A sign in the place of a digit is accepted, and gives a value that is no byte. -/
theorem parse_signed :
    let content : List UInt8 := ":01020000-1FE".toList.map fun c => UInt8.ofNat c.toNat
    parse content = .ok [(0x200, -1)] ∧
      ":01020000-1FE".toList ∈ recordTexts (Text.TextFile.ofBytes content).lines ∧
      ¬ WellFormed ":01020000-1FE".toList := by
  refine ⟨by decide +kernel, by decide +kernel, fun wellFormed => ?_⟩
  generalize same : ":01020000-1FE".toList = text at wellFormed
  cases wellFormed with
  | @intro r digits spelled count zero =>
    have sign : '-' ∈ digits := by
      have tail : digits = ":01020000-1FE".toList.tail := by rw [same, List.tail_cons]
      rw [tail]
      decide
    exact absurd (spelled.isHexDigit '-' sign) (by decide)

end HexFile

end Chip8
