import Chip8.Proofs.Images
import Chip8.Proofs.Numerals
import Chip8.Proofs.SourceText

/-! Hex files as they are written. A record is a line of digits with a count and a checksum, a file lists records
among other lines (`Lists`), and the parser answers with the bytes of the records at their addresses
(`readLines_lists`). So a program that is cut into records is loaded as it is (`parse_exact`). -/

namespace Chip8

namespace HexFile

open Text (HexNumeral)

inductive Kind
  | data | endOfFile | segment | startSegment | linear | startLinear
  deriving DecidableEq

def Kind.code : Kind → UInt8
  | .data => 0
  | .endOfFile => 1
  | .segment => 2
  | .startSegment => 3
  | .linear => 4
  | .startLinear => 5

/-- A record to be written. A new base is given by two bytes. -/
structure Entry where
  kind : Kind
  address : Nat
  bytes : List UInt8
  address_lt : address < 65536
  short : bytes.length ≤ 255
  twoBytes : kind = .segment ∨ kind = .linear → bytes.length = 2

def Entry.body (r : Entry) : List UInt8 :=
  UInt8.ofNat r.bytes.length :: UInt8.ofNat (r.address / 256) :: UInt8.ofNat (r.address % 256) :: r.kind.code ::
    r.bytes

def IsDigit (c : Char) (d : Nat) : Prop := c = Nat.digitChar d ∨ c = (Nat.digitChar d).toUpper

instance (c : Char) (d : Nat) : Decidable (IsDigit c d) := inferInstanceAs (Decidable (_ ∨ _))

/-- Bytes as digits, two for each. -/
inductive Spelled : List UInt8 → List Char → Prop
  | nil : Spelled [] []
  | cons {b : UInt8} {high low : Char} {bytes : List UInt8} {digits : List Char} (upper : IsDigit high (b.toNat / 16))
    (lower : IsDigit low (b.toNat % 16)) (rest : Spelled bytes digits) :
    Spelled (b :: bytes) (high :: low :: digits)

theorem spelled_cons_iff {b : UInt8} {high low : Char} {bytes : List UInt8} {digits : List Char} :
    Spelled (b :: bytes) (high :: low :: digits) ↔
      IsDigit high (b.toNat / 16) ∧ IsDigit low (b.toNat % 16) ∧ Spelled bytes digits := by
  constructor
  · intro h
    cases h with
    | cons upper lower rest => exact ⟨upper, lower, rest⟩
  · rintro ⟨upper, lower, rest⟩
    exact .cons upper lower rest

instance Spelled.decidable : (bytes : List UInt8) → (digits : List Char) → Decidable (Spelled bytes digits)
  | [], [] => .isTrue .nil
  | _ :: bytes, _ :: _ :: digits =>
    have := decidable bytes digits
    decidable_of_iff _ spelled_cons_iff.symm
  | [], _ :: _ => .isFalse nofun
  | _ :: _, [] => .isFalse nofun
  | _ :: _, [_] => .isFalse nofun

/-- The line of a record: a colon, digits with the right checksum, and perhaps a comment. -/
inductive Written (r : Entry) : List Char → Prop
  | intro {before digits after comment : List Char} {checksum : UInt8} (blank : ∀ c ∈ before, Text.isBlank c = true)
    (spelled : Spelled (r.body ++ [checksum]) digits)
    (zero : ((r.body ++ [checksum]).map UInt8.toNat).sum % 256 = 0) (blank' : ∀ c ∈ after, Text.isBlank c = true)
    (comment? : comment = [] ∨ comment.head? = some ';') : Written r (before ++ ':' :: digits ++ after ++ comment)

/-- The records of lines. A line that is no record starts with no colon, and an end of the file ends the list. -/
inductive Lists : List (List Char) → List Entry → Prop
  | nil : Lists [] []
  | other {line : List Char} {lines : List (List Char)} {rs : List Entry}
    (first : (line.dropWhile Text.isBlank).head? ≠ some ':') (rest : Lists lines rs) : Lists (line :: lines) rs
  | record {line : List Char} {lines : List (List Char)} {r : Entry} {rs : List Entry} (goesOn : r.kind ≠ .endOfFile)
    (written : Written r line) (rest : Lists lines rs) : Lists (line :: lines) (r :: rs)
  | endOfFile {line : List Char} {r : Entry} (last : r.kind = .endOfFile) (written : Written r line)
    (lines : List (List Char)) : Lists (line :: lines) [r]

def bigEndian (bytes : List UInt8) : Nat := bytes.foldl (fun n b => n * 256 + b.toNat) 0

def Entry.newBase? (r : Entry) : Option Int :=
  if r.kind = .segment then some (16 * bigEndian r.bytes)
  else if r.kind = .linear then some (65536 * bigEndian r.bytes)
  else none

/-- The base behind records: the last one that was set, or zero. -/
def baseBehind (past : List Entry) : Int := (past.filterMap Entry.newBase?).getLast?.getD 0

/-- The bytes of a record at their addresses. -/
def Entry.placed (r : Entry) (base : Int) : List (Int × Int) :=
  if r.kind = .data then r.bytes.mapIdx fun i b => (base + r.address + i, (b.toNat : Int)) else []

def placedBehind : List Entry → List Entry → List (Int × Int)
  | _, [] => []
  | past, r :: rs => r.placed (baseBehind past) ++ placedBehind (past ++ [r]) rs

/-! ### Digits -/

theorem isDigit_spec {c : Char} {d : Nat} (h : IsDigit c d) (small : d < 16) :
    Assembly.isHexDigit c = true ∧ Text.hexValue c = d := by
  have each : ∀ d < 16, (Assembly.isHexDigit (Nat.digitChar d) = true ∧ Text.hexValue (Nat.digitChar d) = d) ∧
      Assembly.isHexDigit (Nat.digitChar d).toUpper = true ∧ Text.hexValue (Nat.digitChar d).toUpper = d := by
    decide
  rcases h with rfl | rfl
  · exact (each d small).1
  · exact (each d small).2

namespace Spelled

variable {bytes : List UInt8} {digits : List Char}

theorem length (h : Spelled bytes digits) : digits.length = 2 * bytes.length := by
  induction h with
  | nil => rfl
  | cons _ _ _ ih =>
    simp only [List.length_cons, ih]
    omega

theorem isHexDigit (h : Spelled bytes digits) : ∀ c ∈ digits, Assembly.isHexDigit c = true := by
  induction h with
  | nil => exact List.forall_mem_nil _
  | @cons b high low bytes digits upper lower _ ih =>
    have small := b.toNat_lt
    rw [List.forall_mem_cons, List.forall_mem_cons]
    exact ⟨(isDigit_spec upper (by omega)).1, (isDigit_spec lower (by omega)).1, ih⟩

theorem value (h : Spelled bytes digits) (n : Nat) :
    (digits.map Text.hexValue).foldl (fun n d => n * 16 + d) n = bytes.foldl (fun n b => n * 256 + b.toNat) n := by
  induction h generalizing n with
  | nil => rfl
  | @cons b high low bytes digits upper lower _ ih =>
    have small := b.toNat_lt
    rw [List.map_cons, List.map_cons, List.foldl_cons, List.foldl_cons, List.foldl_cons, ih,
      (isDigit_spec upper (by omega)).2, (isDigit_spec lower (by omega)).2]
    congr 1
    omega

theorem numeral (h : Spelled bytes digits) (ne : bytes ≠ []) : HexNumeral digits (bigEndian bytes) where
  ne := by
    intro empty
    have length := h.length
    have positive := List.length_pos_iff.2 ne
    rw [empty, List.length_nil] at length
    omega
  digits := h.isHexDigit
  value := h.value 0

theorem append (bytes : List UInt8) {bytes' : List UInt8} (h : Spelled (bytes ++ bytes') digits) :
    ∃ ds ds', digits = ds ++ ds' ∧ Spelled bytes ds ∧ Spelled bytes' ds' := by
  induction bytes generalizing digits with
  | nil => exact ⟨[], digits, rfl, .nil, h⟩
  | cons b bytes ih =>
    cases h with
    | cons upper lower rest =>
      obtain ⟨ds, ds', rfl, first, second⟩ := ih rest
      exact ⟨_, ds', rfl, .cons upper lower first, second⟩

end Spelled

/-! ### A record -/

theorem field_eq_ok {digits : List Char} {n : Nat} (h : HexNumeral digits n) : field digits = .ok (n : Int) := by
  rw [field, h.readInt?]

theorem mapM_field {bytes : List UInt8} {digits : List Char} (h : Spelled bytes digits) :
    (pairsOf digits).mapM field = .ok (bytes.map fun b => (b.toNat : Int)) := by
  induction h with
  | nil => rfl
  | @cons b high low bytes digits upper lower _ ih =>
    have first := (Spelled.cons upper lower .nil).numeral (List.cons_ne_nil b [])
    have byte : bigEndian [b] = b.toNat := by simp [bigEndian]
    rw [byte] at first
    rw [pairsOf, List.mapM_cons, field_eq_ok first, ih]
    rfl

theorem foldl_add (bytes : List UInt8) (n : Nat) :
    (bytes.map fun b => (b.toNat : Int)).foldl (· + ·) (n : Int) = ((n + (bytes.map UInt8.toNat).sum : Nat) : Int) := by
  induction bytes generalizing n with
  | nil => rfl
  | cons b bytes ih =>
    rw [List.map_cons, List.map_cons, List.foldl_cons, List.sum_cons, ← Nat.add_assoc, ← ih (n + b.toNat)]
    rfl

/-- The fields of a record, as bytes. -/
structure RawRecord where
  count : UInt8
  high : UInt8
  low : UInt8
  type : UInt8
  data : List UInt8
  checksum : UInt8

namespace RawRecord

variable {r : RawRecord} {digits : List Char}

def bytes (r : RawRecord) : List UInt8 := r.count :: r.high :: r.low :: r.type :: (r.data ++ [r.checksum])

def total (r : RawRecord) : Nat := (r.bytes.map UInt8.toNat).sum

def fields (r : RawRecord) (dataText : List Char) : Record where
  address := r.high.toNat * 256 + r.low.toNat
  type := r.type.toNat
  dataText := dataText
  data := r.data.map fun b => (b.toNat : Int)
  checksum := r.checksum.toNat

theorem take_drop_append (before : List Char) {cut after : List Char} {i n : Nat} (start : before.length = i)
    (length : cut.length = n) : ((before ++ (cut ++ after)).drop i).take n = cut := by
  rw [List.drop_left' start, List.take_left' length]

theorem cut_fields {count address type checksum : List Char} (dataText : List Char) (hc : count.length = 2)
    (ha : address.length = 4) (ht : type.length = 2) (hs : checksum.length = 2) {text : List Char}
    (whole : ':' :: (count ++ (address ++ (type ++ (dataText ++ checksum)))) = text) :
    text.length = dataText.length + 11 ∧ (text.drop 1).take 2 = count ∧ (text.drop 3).take 4 = address ∧
      (text.drop 7).take 2 = type ∧ (text.drop 9).take (text.length - 11) = dataText ∧
      text.drop (text.length - 2) = checksum := by
  have size : text.length = dataText.length + 11 := by
    rw [← whole]
    simp only [List.length_cons, List.length_append]
    omega
  have ends : (':' :: (count ++ address ++ type ++ dataText)).length = dataText.length + 11 - 2 := by
    simp only [List.length_cons, List.length_append]
    omega
  have cut : (':' :: (count ++ address ++ type ++ dataText) ++ checksum).drop (dataText.length + 11 - 2) = checksum :=
    List.drop_left' ends
  rw [size, Nat.add_sub_cancel, ← whole]
  refine ⟨rfl, ?_, ?_, ?_, ?_, ?_⟩
  · exact take_drop_append [':'] rfl hc
  · exact take_drop_append (':' :: count) (by simp [hc]) ha
  · rw [← List.append_assoc]
    exact take_drop_append (':' :: (count ++ address)) (by simp [hc, ha]) ht
  · rw [← List.append_assoc, ← List.append_assoc]
    exact take_drop_append (':' :: (count ++ address ++ type)) (by simp [hc, ha, ht]) rfl
  · rw [← List.append_assoc, ← List.append_assoc, ← List.append_assoc]
    exact cut

/-- Digits for the bytes of a record are parsed if there are as many data bytes as its count says. -/
theorem parse_spelled (line : Nat) (h : Spelled r.bytes digits) :
    ∃ dataText, Spelled r.data dataText ∧ (':' :: digits).length = dataText.length + 11 ∧
      Record.parse line (':' :: digits) =
        if r.data.length = r.count.toNat then .ok (r.fields dataText) else .error (.length line) := by
  obtain ⟨c, rest, rfl, spelledCount, h⟩ := Spelled.append [_] h
  obtain ⟨a, rest, rfl, spelledAddress, h⟩ := Spelled.append [_, _] h
  obtain ⟨t, rest, rfl, spelledType, h⟩ := Spelled.append [_] h
  obtain ⟨dataText, s, rfl, spelledData, spelledSum⟩ := Spelled.append _ h
  have counted := field_eq_ok (spelledCount.numeral (List.cons_ne_nil _ _))
  have addressed := field_eq_ok (spelledAddress.numeral (List.cons_ne_nil _ _))
  have typed := field_eq_ok (spelledType.numeral (List.cons_ne_nil _ _))
  have summed := field_eq_ok (spelledSum.numeral (List.cons_ne_nil _ _))
  simp only [bigEndian, List.foldl_cons, List.foldl_nil, Nat.zero_mul, Nat.zero_add] at counted addressed typed summed
  have long : (dataText.length : Int) = r.count.toNat * 2 ↔ r.data.length = r.count.toNat := by
    rw [spelledData.length]
    omega
  obtain ⟨size, countText, addressText, typeText, dataText', checksumText⟩ :=
    cut_fields dataText spelledCount.length spelledAddress.length spelledType.length spelledSum.length rfl
  refine ⟨dataText, spelledData, size, ?_⟩
  unfold Record.parse
  rw [countText, addressText, typeText, dataText', checksumText, counted, addressed, typed, summed]
  show (if _ then _ else _ : Except RecordFault Record) = _
  by_cases right : r.data.length = r.count.toNat
  · rw [if_pos (long.2 right), if_pos right, mapM_field spelledData]
    rfl
  · rw [if_neg (right ∘ long.1), if_neg right]

/-- With the right count, the checksum is right if all bytes add up to zero. -/
theorem sum_fields_iff (right : r.data.length = r.count.toNat) (dataText : List Char) :
    (r.fields dataText).sum = (r.fields dataText).checksum ↔ r.total % 256 = 0 := by
  have high := r.high.toNat_lt
  have low := r.low.toNat_lt
  have small := r.checksum.toNat_lt
  have added := foldl_add r.data 0
  simp only [Nat.cast_zero, Nat.zero_add] at added
  simp only [Record.sum, fields, total, bytes, List.length_map, List.map_cons, List.map_append, List.map_nil,
    List.sum_cons, List.sum_append, List.sum_nil, added]
  omega

theorem readRecord_spelled (line : Nat) (base : Int) (h : Spelled r.bytes digits) :
    ∃ dataText, Spelled r.data dataText ∧ readRecord line base (':' :: digits) =
      if r.data.length = r.count.toNat then
        if r.total % 256 = 0 then (r.fields dataText).directive line base
        else .error (.checksum line (r.fields dataText).sum r.checksum.toNat)
      else .error (.malformed line (':' :: digits) (.length line)) := by
  obtain ⟨dataText, spelled, size, parsed⟩ := parse_spelled line h
  refine ⟨dataText, spelled, ?_⟩
  rw [readRecord, if_neg (by omega), parsed]
  by_cases right : r.data.length = r.count.toNat
  · rw [if_pos right, if_pos right]
    exact if_congr (sum_fields_iff right dataText) rfl rfl
  · rw [if_neg right, if_neg right]

end RawRecord

theorem toNat_ofNat {n : Nat} (small : n < 256) : (UInt8.ofNat n).toNat = n := by
  rw [UInt8.toNat_ofNat']
  exact Nat.mod_eq_of_lt small

namespace Entry

variable {r : Entry} {checksum : UInt8}

def raw (r : Entry) (checksum : UInt8) : RawRecord where
  count := UInt8.ofNat r.bytes.length
  high := UInt8.ofNat (r.address / 256)
  low := UInt8.ofNat (r.address % 256)
  type := r.kind.code
  data := r.bytes
  checksum := checksum

theorem count_raw : (r.raw checksum).data.length = (r.raw checksum).count.toNat :=
  (toNat_ofNat (Nat.lt_succ_of_le r.short)).symm

theorem address_raw (dataText : List Char) : ((r.raw checksum).fields dataText).address = r.address := by
  have range := r.address_lt
  show (((UInt8.ofNat (r.address / 256)).toNat : Int) * 256 + (UInt8.ofNat (r.address % 256)).toNat) = _
  rw [toNat_ofNat (by omega), toNat_ofNat (Nat.mod_lt _ (by decide))]
  omega

end Entry

variable {r : Entry} {digits : List Char} {checksum : UInt8}

theorem dataAt_eq_mapIdx (address : Int) (bytes : List UInt8) :
    dataAt address (bytes.map fun b => (b.toNat : Int)) = bytes.mapIdx fun i b => (address + i, (b.toNat : Int)) := by
  induction bytes generalizing address with
  | nil => rfl
  | cons b bytes ih =>
    have next (i : Nat) : address + 1 + (i : Int) = address + ((i + 1 : Nat) : Int) := by omega
    simp only [List.map_cons, dataAt, ih, List.mapIdx_cons, next, Nat.cast_zero, add_zero]

def Entry.directive (r : Entry) (base : Int) : Directive :=
  if r.kind = .data then .data (r.placed base)
  else if r.kind = .endOfFile then .endOfFile
  else (r.newBase?.map Directive.base).getD .start

theorem readRecord_spelled (line : Nat) (base : Int) (h : Spelled (r.body ++ [checksum]) digits)
    (zero : ((r.body ++ [checksum]).map UInt8.toNat).sum % 256 = 0) :
    readRecord line base (':' :: digits) = .ok (r.directive base) := by
  obtain ⟨dataText, spelled, read⟩ := RawRecord.readRecord_spelled (r := r.raw checksum) line base h
  have balanced : (r.raw checksum).total % 256 = 0 := zero
  have based (two : r.bytes.length = 2) : Text.readInt? .hexadecimal dataText = some (bigEndian r.bytes : Int) := by
    apply HexNumeral.readInt?
    apply spelled.numeral
    intro empty
    have none : r.bytes = [] := empty
    rw [none] at two
    cases two
  rw [read, if_pos Entry.count_raw, if_pos balanced, Record.directive, Entry.address_raw]
  cases kind : r.kind with
  | data => simp [RawRecord.fields, Entry.raw, Entry.directive, Entry.placed, Kind.code, kind, dataAt_eq_mapIdx]
  | endOfFile => simp [RawRecord.fields, Entry.raw, Entry.directive, Kind.code, kind]
  | segment =>
    have value := based (r.twoBytes (.inl kind))
    simp [RawRecord.fields, Entry.raw, Entry.directive, Entry.newBase?, Kind.code, kind, value, mul_comm]
  | linear =>
    have value := based (r.twoBytes (.inr kind))
    simp [RawRecord.fields, Entry.raw, Entry.directive, Entry.newBase?, Kind.code, kind, value, mul_comm]
  | startSegment => simp [RawRecord.fields, Entry.raw, Entry.directive, Entry.newBase?, Kind.code, kind]
  | startLinear => simp [RawRecord.fields, Entry.raw, Entry.directive, Entry.newBase?, Kind.code, kind]

/-! ### A line -/

theorem not_mark_of_isHexDigit {c : Char} (h : Assembly.isHexDigit c = true) :
    Text.isBlank c = false ∧ c ≠ ';' := by
  have range := Text.toNat_of_isHexDigit h
  constructor
  · simp only [Text.isBlank, Bool.or_eq_false_iff, Bool.and_eq_false_iff, decide_eq_false_iff_not,
      beq_eq_false_iff_ne]
    omega
  · rintro rfl
    revert range
    decide

theorem isBlank_semicolon {cs : List Char} (h : ∀ c ∈ cs, Text.isBlank c = true) : ∀ c ∈ cs, (c != ';') = true := by
  intro c hc
  rw [bne_iff_ne]
  rintro rfl
  cases h _ hc

/-- The text of the record on a line. -/
theorem recordText?_written {line : List Char} (h : Written r line) :
    ∃ digits checksum, recordText? line = some (':' :: digits) ∧ Spelled (r.body ++ [checksum]) digits ∧
      ((r.body ++ [checksum]).map UInt8.toNat).sum % 256 = 0 := by
  obtain @⟨before, digits, after, comment, checksum, blank, spelled, zero, blank', comment?⟩ := h
  refine ⟨digits, checksum, ?_, spelled, zero⟩
  have colon : Text.isBlank ':' = false := by decide
  have dark : ∀ c ∈ ':' :: digits, Text.isBlank c = false ∧ (c != ';') = true := by
    rw [List.forall_mem_cons]
    refine ⟨⟨colon, by decide⟩, fun c hc => ?_⟩
    obtain ⟨dark, other⟩ := not_mark_of_isHexDigit (spelled.isHexDigit c hc)
    exact ⟨dark, bne_iff_ne.2 other⟩
  have bare : Text.strip (':' :: digits) = ':' :: digits := by
    apply Text.strip_eq_self
    · intro c first
      exact (dark c (List.mem_of_mem_head? first)).1
    · intro c last
      exact (dark c (List.mem_of_mem_getLast? last)).1
  have trimmed : Text.stripRight (':' :: digits ++ after) = ':' :: digits := by
    have whole := Text.strip_append_cons (List.forall_mem_nil _) colon digits
    rw [Text.stripRight_append_blank blank', ← whole]
    exact bare
  have shape (rest : List Char) : before ++ ':' :: digits ++ after ++ rest =
      before ++ ':' :: (digits ++ after ++ rest) := by
    simp
  rw [recordText?, shape, Text.strip_append_cons blank colon, ← List.cons_append, ← List.cons_append]
  rcases comment? with rfl | marked
  · have uncommented : (':' :: digits).takeWhile (· != ';') = ':' :: digits :=
      List.takeWhile_eq_self_iff.2 fun c hc => (dark c hc).2
    rw [List.append_nil, trimmed, uncommented, bare]
    rfl
  · obtain ⟨tail, rfl⟩ := List.head?_eq_some_iff.1 marked
    have uncommented : ∀ c ∈ ':' :: digits ++ after, (c != ';') = true :=
      List.forall_mem_append.2 ⟨fun c hc => (dark c hc).2, isBlank_semicolon blank'⟩
    -- The comment may end in blanks, which are gone before it is cut off.
    rw [Text.stripRight_append_cons (by decide), List.takeWhile_append_of_pos uncommented,
      List.takeWhile_cons_of_neg (by decide), List.append_nil]
    have cut := Text.strip_append_cons (List.forall_mem_nil _) colon (digits ++ after)
    rw [List.nil_append, ← List.cons_append, trimmed] at cut
    rw [cut]
    rfl

theorem recordText?_other {line : List Char} (first : (line.dropWhile Text.isBlank).head? ≠ some ':') :
    recordText? line = none := by
  rw [← Text.stripLeft, ← Text.head?_strip] at first
  rw [recordText?]
  exact if_neg first

/-! ### A file -/

theorem baseBehind_snoc (past : List Entry) (r : Entry) :
    baseBehind (past ++ [r]) = r.newBase?.getD (baseBehind past) := by
  unfold baseBehind
  rw [List.filterMap_append]
  cases base : r.newBase? with
  | none => simp [base]
  | some value => simp [base]

/-- A record on a line adds its bytes and may set the base for the lines behind it, unless it ends the file. -/
theorem readLines_written {l : List Char} (written : Written r l) (line : Nat) (base : Int) (ls : List (List Char)) :
    readLines none line base (l :: ls) =
      if r.kind = .endOfFile then .ok []
      else (readLines none (line + 1) (r.newBase?.getD base) ls).map (r.placed base ++ ·) := by
  obtain ⟨digits, checksum, text, spelled, zero⟩ := recordText?_written written
  rw [readLines, text]
  dsimp only
  rw [readRecord_spelled line base spelled zero, Entry.directive]
  by_cases data : r.kind = .data
  · have goesOn : r.kind ≠ .endOfFile := by simp [data]
    have same : r.newBase? = none := by simp [Entry.newBase?, data]
    rw [if_pos data, if_neg goesOn, same, Option.getD_none]
    rfl
  · have nothing : r.placed base = [] := if_neg data
    rw [if_neg data, nothing]
    by_cases last : r.kind = .endOfFile
    · rw [if_pos last, if_pos last]
      rfl
    · rw [if_neg last, if_neg last]
      have unmoved (read : Except HexFault (List (Int × Int))) : read.map ([] ++ ·) = read := by cases read <;> rfl
      rw [unmoved]
      cases r.newBase? <;> rfl

theorem readLines_lists {lines : List (List Char)} {rs : List Entry} (h : Lists lines rs) (line : Nat)
    (past : List Entry) : readLines none line (baseBehind past) lines = .ok (placedBehind past rs) := by
  -- The base is that of all records before, so the list of these grows along the file.
  induction h generalizing line past with
  | nil => rfl
  | other first _ ih =>
    rw [readLines, recordText?_other first]
    exact ih _ _
  | record goesOn written _ ih =>
    rw [readLines_written written, if_neg goesOn, ← baseBehind_snoc, ih]
    rfl
  | @endOfFile l r last written lines =>
    have nothing : r.placed (baseBehind past) = [] := if_neg (by simp [last])
    rw [readLines_written written, if_pos last, placedBehind, nothing]
    rfl

end HexFile

namespace Machine

variable {π : Type}

/-- Loads the program of a hex file; symbols are left alone. -/
def loadHexFile (content : List UInt8) : Action (Machine π) LoadFault Unit := fun m =>
  match HexFile.parse content with
  | .error why => (.error (.hex why), m)
  | .ok pairs =>
    match Loading.imageOf pairs with
    | .error why => (.error why, m)
    | .ok image =>
      match loadImage image m with
      | (.error why, m) => (.error (.machine why), m)
      | (.ok (), m) => (.ok (), m)

theorem loadHexFile_of_gives {content : List UInt8} {pairs : List (Int × Int)} {program : List UInt8}
    (parsed : HexFile.parse content = .ok pairs) (gives : Image.Gives pairs program) (fits : Fits program) {v : Value}
    (value : v.Gives program) (m : Machine π) :
    (loadHexFile content m).2 = (loadProgram v m).2 ∧
      (m.bus.IsMemory → ∃ m', loadProgram v m = (.ok (), m') ∧ loadHexFile content m = (.ok (), m')) := by
  have laid := (Loading.imageOf_eq_ok_iff _ _).2 (Image.ofPairs_of_gives gives fits.2)
  have offered := (imageOfValue_eq_ok_iff v program).2 value
  simp only [loadHexFile, parsed, laid, loadProgram, offered]
  constructor
  · rcases loadImage program m with ⟨_ | _, m'⟩ <;> rfl
  · intro memory
    obtain ⟨m', loaded, -⟩ := loadImage_loaded memory fits
    exact ⟨m', loaded, by rw [loaded]⟩

end Machine

namespace HexFile

theorem gives_of_perm {pairs : List (Int × Int)} {program : List UInt8}
    (h : pairs.Perm (program.mapIdx fun k b => ((0x200 + k : Int), (b.toNat : Int)))) :
    Image.Gives pairs program := by
  intro q
  rw [h.mem_iff, List.mem_mapIdx]
  constructor
  · rintro ⟨k, inside, rfl⟩
    exact ⟨k, _, List.getElem?_eq_getElem inside, rfl⟩
  · rintro ⟨k, b, byte, rfl⟩
    obtain ⟨inside, rfl⟩ := List.getElem?_eq_some_iff.1 byte
    exact ⟨k, inside, rfl⟩

/-- A file of records is parsed to their bytes at their addresses. Records that a program was cut into load it, in
whatever order, with the same machine as the program itself. -/
theorem parse_exact {content : List UInt8} {rs : List Entry} (decodable : (Text.TextFile.ofBytes content).fault = none)
    (written : Lists (Text.TextFile.ofBytes content).lines rs) :
    parse content = .ok (placedBehind [] rs) ∧
    ∀ (π : Type) (m : Machine π) (program : List UInt8) (v : Value), 1 ≤ program.length → program.length ≤ 3584 →
      (placedBehind [] rs).Perm (program.mapIdx fun k b => ((0x200 + k : Int), (b.toNat : Int))) → v.Gives program →
      (Machine.loadHexFile content m).2 = (Machine.loadProgram v m).2 ∧
        (m.bus.IsMemory → ∃ m', Machine.loadProgram v m = (.ok (), m') ∧
          Machine.loadHexFile content m = (.ok (), m')) := by
  have parsed : parse content = .ok (placedBehind [] rs) := by
    rw [parse, decodable]
    exact readLines_lists written 1 []
  refine ⟨parsed, fun π m program v some short cut value => ?_⟩
  exact Machine.loadHexFile_of_gives parsed (gives_of_perm cut) ⟨some, short⟩ value m

/-- The second byte of a program before the first, which stands at a base of its own. -/
theorem parse_exact_reversed :
    let content : List UInt8 :=
      " :0102010005f7 ; second\n:020000020020DC\nloop\n:01000000609F\n:00000001FF\n:?".toList.map fun c =>
        UInt8.ofNat c.toNat
    parse content = .ok [(0x201, 0x05), (0x200, 0x60)] ∧ ∀ m : Machine Unit, m.bus.IsMemory →
      ∃ m', Machine.loadProgram (.list [.int 0x60, .int 0x05]) m = (.ok (), m') ∧
        Machine.loadHexFile content m = (.ok (), m') := by
  intro content
  let second : Entry := ⟨.data, 0x201, [0x05], by decide, by decide, by decide⟩
  let base : Entry := ⟨.segment, 0, [0x00, 0x20], by decide, by decide, by decide⟩
  let first : Entry := ⟨.data, 0, [0x60], by decide, by decide, by decide⟩
  let last : Entry := ⟨.endOfFile, 0, [], by decide, by decide, by decide⟩
  have decodable : (Text.TextFile.ofBytes content).fault = none := by decide +kernel
  have lines : (Text.TextFile.ofBytes content).lines = [" :0102010005f7 ; second".toList, ":020000020020DC".toList,
      "loop".toList, ":01000000609F".toList, ":00000001FF".toList, ":?".toList] := by
    decide +kernel
  have written : Lists (Text.TextFile.ofBytes content).lines [second, base, first, last] := by
    have space : ∀ c ∈ [' '], Text.isBlank c = true := List.forall_mem_singleton.2 rfl
    have none : ∀ c ∈ [], Text.isBlank c = true := List.forall_mem_nil _
    have line₁ : Written second " :0102010005f7 ; second".toList :=
      @Written.intro second [' '] "0102010005f7".toList [' '] "; second".toList 0xF7 space (by decide +kernel)
        (by decide +kernel) space (.inr rfl)
    have line₂ : Written base ":020000020020DC".toList :=
      @Written.intro base [] "020000020020DC".toList [] [] 0xDC none (by decide +kernel) (by decide +kernel) none
        (.inl rfl)
    have line₄ : Written first ":01000000609F".toList :=
      @Written.intro first [] "01000000609F".toList [] [] 0x9F none (by decide +kernel) (by decide +kernel) none
        (.inl rfl)
    have line₅ : Written last ":00000001FF".toList :=
      @Written.intro last [] "00000001FF".toList [] [] 0xFF none (by decide +kernel) (by decide +kernel) none (.inl rfl)
    rw [lines]
    exact .record (by decide) line₁ (.record (by decide) line₂ (.other (by decide)
      (.record (by decide) line₄ (.endOfFile rfl line₅ _))))
  have placed : placedBehind [] [second, base, first, last] = [(0x201, 0x05), (0x200, 0x60)] := by decide
  obtain ⟨parsed, loaded⟩ := parse_exact decodable written
  rw [placed] at parsed loaded
  refine ⟨parsed, fun m memory => ?_⟩
  have swapped : [((0x201 : Int), (0x05 : Int)), (0x200, 0x60)].Perm
      (([0x60, 0x05] : List UInt8).mapIdx fun k b => ((0x200 + k : Int), (b.toNat : Int))) :=
    List.Perm.swap (0x200, 0x60) (0x201, 0x05) []
  have gives : (Value.list [.int 0x60, .int 0x05]).Gives [0x60, 0x05] := ⟨_, rfl, by decide⟩
  exact (loaded Unit m [0x60, 0x05] _ (by decide) (by decide) swapped gives).2 memory

end HexFile

end Chip8
