import Chip8.Proofs.RecordChecks
import Chip8.Proofs.TextFiles

/-! Corrupted hex files. A digit adds itself or sixteen times itself to the sum of a record, so no other digit in its
place leaves the sum zero (`not_wellFormed_of_replaced`). The parser gets to the record, since nothing before it ends
the file, and does not accept it (`corrupted_refused`). -/

namespace Chip8

namespace HexFile

open Assembly (isHexDigit)
open Text (hexValue textLines)

/-! ### A digit of a record -/

/-- The sum of bytes by the digits that spell them. -/
def pairSum : List Char → Nat
  | a :: b :: rest => hexValue a * 16 + hexValue b + pairSum rest
  | _ => 0

theorem Spelled.sum {bytes : List UInt8} {digits : List Char} (h : Spelled bytes digits) :
    (bytes.map UInt8.toNat).sum = pairSum digits := by
  induction h with
  | nil => rfl
  | @cons b high low bytes digits upper lower _ ih =>
    have small := b.toNat_lt
    rw [List.map_cons, List.sum_cons, ih, pairSum, (isDigit_spec upper (by omega)).2,
      (isDigit_spec lower (by omega)).2]
    omega

/-- Another digit in a place changes the sum by the difference of the two, or by sixteen times that. -/
theorem pairSum_replace (before after : List Char) (even : (before.length + after.length) % 2 = 1) (c c' : Char) :
    pairSum (before ++ c :: after) + hexValue c' = pairSum (before ++ c' :: after) + hexValue c ∨
      pairSum (before ++ c :: after) + 16 * hexValue c' = pairSum (before ++ c' :: after) + 16 * hexValue c := by
  induction before using pairsOf.induct with
  | case1 a b rest ih =>
    simp only [List.length_cons] at even
    have later := ih (by omega)
    simp only [List.cons_append, pairSum]
    omega
  | case2 before short =>
    rcases before with _ | ⟨a, _ | ⟨b, rest⟩⟩
    · rcases after with _ | ⟨d, after⟩
      · simp at even
      · simp only [List.nil_append, pairSum]
        omega
    · simp only [List.cons_append, List.nil_append, pairSum]
      omega
    · exact absurd rfl (short a b rest)

theorem not_wellFormed_of_replaced {before after : List Char} {c c' : Char}
    (h : WellFormed (':' :: (before ++ c :: after))) (other : hexValue c' ≠ hexValue c) :
    ¬ WellFormed (':' :: (before ++ c' :: after)) := by
  intro h'
  cases h with
  | intro spelled _ zero =>
    cases h' with
    | intro spelled' _ zero' =>
      rw [RawRecord.total, spelled.sum] at zero
      rw [RawRecord.total, spelled'.sum] at zero'
      have small := (isDigit_hexValue (spelled.isHexDigit c (by simp))).2
      have small' := (isDigit_hexValue (spelled'.isHexDigit c' (by simp))).2
      have length := spelled.length
      rw [List.length_append, List.length_cons] at length
      have changed := pairSum_replace before after (by omega) c c'
      omega

/-! ### The line of a record -/

theorem recordText?_digit {gap digits : List Char} (blank : ∀ c ∈ gap, Text.isBlank c = true)
    (hex : ∀ c ∈ digits, isHexDigit c = true) (rest : List Char) :
    ∃ tail, ∀ c, isHexDigit c = true →
      recordText? (gap ++ ':' :: digits ++ c :: rest) = some (':' :: (digits ++ c :: tail)) := by
  refine ⟨Text.stripRight ((Text.stripRight rest).takeWhile (· != ';')), fun c digit => ?_⟩
  have colon : Text.isBlank ':' = false := by decide
  obtain ⟨dark, unmarked⟩ := not_mark_of_isHexDigit digit
  have uncut : (c :: Text.stripRight rest).takeWhile (· != ';') = c :: (Text.stripRight rest).takeWhile (· != ';') :=
    List.takeWhile_cons_of_pos (bne_iff_ne.2 unmarked)
  have clear : ∀ d ∈ ':' :: digits, (d != ';') = true := by
    rw [List.forall_mem_cons]
    exact ⟨by decide, fun d member => bne_iff_ne.2 (not_mark_of_isHexDigit (hex d member)).2⟩
  have bare (more : List Char) : Text.strip (':' :: digits ++ c :: more) = ':' :: digits ++ c :: Text.stripRight more := by
    have whole := Text.strip_append_cons (List.forall_mem_nil _) colon (digits ++ c :: more)
    rw [List.nil_append, ← List.cons_append] at whole
    rw [whole, Text.stripRight_append_cons dark]
  have line : Text.strip (gap ++ ':' :: digits ++ c :: rest) = ':' :: digits ++ c :: Text.stripRight rest := by
    rw [List.append_assoc, List.cons_append, Text.strip_append_cons blank colon, ← List.cons_append,
      Text.stripRight_append_cons dark]
  rw [recordText?, line, List.takeWhile_append_of_pos clear, uncut, bare]
  rfl

/-! ### A file -/

/-- Lines none of which is a record that ends the file. -/
def GoesOn (lines : List (List Char)) : Prop := ∀ l ∈ lines, ∀ text, recordText? l = some text → endsFile text = false

theorem mem_recordTexts {before : List (List Char)} (goesOn : GoesOn before) {line text : List Char}
    (record : recordText? line = some text) (after : List (List Char)) :
    text ∈ recordTexts (before ++ line :: after) := by
  induction before with
  | nil =>
    rw [List.nil_append, recordTexts, record]
    dsimp only
    split <;> simp
  | cons l before ih =>
    unfold GoesOn at goesOn
    rw [List.forall_mem_cons] at goesOn
    rw [List.cons_append, recordTexts]
    cases first : recordText? l with
    | none => exact ih goesOn.2
    | some other =>
      dsimp only
      rw [if_neg (by simp [goesOn.1 other first])]
      exact List.mem_cons_of_mem _ (ih goesOn.2)

theorem Accepts.not_goesOn {why : Text.EncodingFault} {line : Nat} {base : Int} {ls : List (List Char)}
    {pairs : List (Int × Int)} (h : Accepts (some why) line base ls pairs) : ¬ GoesOn ls := by
  intro goesOn
  induction h with
  | finish readable => cases readable
  | other _ _ ih => exact ih fun l member => goesOn l (List.mem_cons_of_mem _ member)
  | last record _ ends =>
    rw [goesOn _ List.mem_cons_self _ record] at ends
    cases ends
  | more _ _ _ _ ih => exact ih fun l member => goesOn l (List.mem_cons_of_mem _ member)

/-- Bytes that end within the digits of a record, behind lines that do not end the file. -/
inductive WithinRecord (front : List UInt8) : Prop
  | intro {before : List (List Char)} {gap digits : List Char} (readable : (Text.decodeUtf8 front).2 = none)
    (lines : textLines front = before ++ [gap ++ ':' :: digits]) (goesOn : GoesOn before)
    (blank : ∀ c ∈ gap, Text.isBlank c = true) (hex : ∀ c ∈ digits, isHexDigit c = true)

theorem ascii_of_isHexDigit {b : UInt8} (h : isHexDigit (Char.ofNat b.toNat) = true) :
    b < 0x80 ∧ Char.ofNat b.toNat ≠ '\r' ∧ Char.ofNat b.toNat ≠ '\n' := by
  have range := Text.toNat_of_isHexDigit h
  have small := b.toNat_lt
  have valid : b.toNat.isValidChar := .inl (by omega)
  have code : (Char.ofNat b.toNat).toNat = b.toNat := by rw [Char.toNat_ofNat, if_pos valid]
  refine ⟨UInt8.lt_iff_toNat_lt.2 ?_, ?_, ?_⟩
  · show b.toNat < 128
    omega
  · intro same
    rw [same] at range
    revert range
    decide
  · intro same
    rw [same] at range
    revert range
    decide

theorem accepted_of_parse {content : List UInt8} {pairs : List (Int × Int)} (h : parse content = .ok pairs)
    {before : List (List Char)} (goesOn : GoesOn before) {line text : List Char}
    (record : recordText? line = some text) {after : List (List Char)}
    (lines : textLines content = before ++ line :: after) : ∃ line base d, readRecord line base text = .ok d := by
  have whole := Text.lines_ofBytes content
  rw [parse] at h
  rw [lines] at whole
  rcases whole with same | ⟨faulty, first⟩
  · rw [same] at h
    exact (accepts_of_readLines h).records text (mem_recordTexts goesOn record after)
  · obtain ⟨why, fault⟩ := Option.ne_none_iff_exists'.1 faulty
    rw [fault] at h
    -- The record that ends the file before its fault is this one or stands behind it.
    by_cases short : (Text.TextFile.ofBytes content).lines.length ≤ before.length
    · have within := List.prefix_of_prefix_length_le first (List.prefix_append _ _) short
      exact absurd (fun l member => goesOn l (within.subset member)) (accepts_of_readLines h).not_goesOn
    · have reach := List.prefix_of_prefix_length_le (List.prefix_append before (line :: after)) first (by omega)
      obtain ⟨others, split⟩ := reach
      rw [← split, List.prefix_append_right_inj] at first
      rcases others with _ | ⟨other, others⟩
      · rw [← split, List.append_nil] at short
        exact absurd (Nat.le_refl _) short
      · obtain ⟨rfl, -⟩ := List.cons_prefix_cons.1 first
        rw [← split] at h
        exact (accepts_of_readLines h).records text (mem_recordTexts goesOn record others)

theorem parse_corrupted {front back : List UInt8} {b b' : UInt8} (within : WithinRecord front)
    (wellFormed : ∀ text ∈ recordTexts (textLines (front ++ b :: back)), WellFormed text)
    (digit : isHexDigit (Char.ofNat b.toNat) = true) (digit' : isHexDigit (Char.ofNat b'.toNat) = true)
    (other : hexValue (Char.ofNat b'.toNat) ≠ hexValue (Char.ofNat b.toNat)) :
    ∃ why, parse (front ++ b' :: back) = .error why := by
  cases parsed : parse (front ++ b' :: back) with
  | error why => exact ⟨why, rfl⟩
  | ok pairs =>
    obtain ⟨readable, lines, goesOn, blank, hex⟩ := within
    obtain ⟨rest, later, all⟩ := Text.textLines_ascii readable lines back
    obtain ⟨tail, record⟩ := recordText?_digit blank hex rest
    obtain ⟨ascii, notReturn, notFeed⟩ := ascii_of_isHexDigit digit
    obtain ⟨ascii', notReturn', notFeed'⟩ := ascii_of_isHexDigit digit'
    have was := wellFormed _ (by
      rw [all b ascii notReturn notFeed]
      exact mem_recordTexts goesOn (record _ digit) later)
    obtain ⟨line, base, d, read⟩ :=
      accepted_of_parse parsed goesOn (record _ digit') (all b' ascii' notReturn' notFeed')
    refine absurd (wellFormed_of_readRecord read fun c member => ?_) (not_wellFormed_of_replaced was other)
    cases was with
    | intro spelled _ _ =>
      rcases List.mem_append.1 member with first | second
      · exact hex c first
      · rcases List.mem_cons.1 second with rfl | behind
        · exact digit'
        · exact spelled.isHexDigit c (by simp [behind])

/-- **Corrupted files.** In a file of well-formed records, another digit in the place of one in a record, up to the one
that ends the file, is noticed whatever the field, and nothing of the file is loaded. -/
theorem corrupted_refused {front back : List UInt8} {b b' : UInt8} (within : WithinRecord front)
    (wellFormed : ∀ text ∈ recordTexts (textLines (front ++ b :: back)), WellFormed text)
    (digit : isHexDigit (Char.ofNat b.toNat) = true) (digit' : isHexDigit (Char.ofNat b'.toNat) = true)
    (other : hexValue (Char.ofNat b'.toNat) ≠ hexValue (Char.ofNat b.toNat)) {π : Type} (m : Machine π) :
    ∃ why, Machine.loadHexFile (front ++ b' :: back) m = (.error (.hex why), m) ∧
      ∀ name, Loading.Format.ofName name = .hex →
        Machine.loadFile name (.ok (front ++ b' :: back)) m = (.error (.hex why), m) := by
  obtain ⟨why, refused⟩ := parse_corrupted within wellFormed digit digit' other
  refine ⟨why, by rw [Machine.loadHexFile, refused], fun name hex => ?_⟩
  apply Machine.loadFile_prepared
  rw [hex, Loading.prepare, refused]

/-- An eight for a zero in the data of a record with a blank before it and a comment behind it. -/
theorem corrupted_refused_data :
    let front : List UInt8 := " :01020100".toList.map fun c => UInt8.ofNat c.toNat
    let back : List UInt8 := "5f7 ; five\n:00000001FF".toList.map fun c => UInt8.ofNat c.toNat
    parse (front ++ 0x30 :: back) = .ok [(0x201, 0x05)] ∧
      ∃ why, Machine.loadHexFile (front ++ 0x38 :: back) (Machine.powerOn () : Machine Unit) =
          (.error (.hex why), Machine.powerOn ()) ∧
        ∀ name, Loading.Format.ofName name = .hex →
          Machine.loadFile name (.ok (front ++ 0x38 :: back)) (Machine.powerOn () : Machine Unit) =
            (.error (.hex why), Machine.powerOn ()) := by
  intro front back
  refine ⟨by decide +kernel, ?_⟩
  have within : WithinRecord front :=
    @WithinRecord.intro front [] [' '] "01020100".toList (by decide +kernel) (by decide +kernel) (List.forall_mem_nil _)
      (List.forall_mem_singleton.2 rfl) (List.all_eq_true.1 (by decide))
  have records : recordTexts (textLines (front ++ 0x30 :: back)) = [":0102010005f7".toList, ":00000001FF".toList] := by
    decide +kernel
  have five : WellFormed (':' :: "0102010005f7".toList) :=
    @WellFormed.intro ⟨1, 2, 1, 0, [5], 0xF7⟩ _ (by decide) rfl rfl
  have last : WellFormed (':' :: "00000001FF".toList) :=
    @WellFormed.intro ⟨0, 0, 0, 1, [], 0xFF⟩ _ (by decide) rfl rfl
  have wellFormed : ∀ text ∈ recordTexts (textLines (front ++ 0x30 :: back)), WellFormed text := by
    rw [records, List.forall_mem_cons, List.forall_mem_singleton]
    exact ⟨five, last⟩
  exact corrupted_refused within wellFormed (by decide) (by decide) (by decide) (Machine.powerOn ())

end HexFile

end Chip8
