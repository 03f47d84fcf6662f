import Chip8.Proofs.Notations
import Chip8.Proofs.SourceParts

/-! The layout of a source. Lines that are empty but for a comment, blanks and comments at the ends of a line, the
blanks behind a mnemonic and around the commas between operands, the letters of mnemonics, registers and keywords,
and whether a label stands on its own line: an edit of any of these (`Edit`) leaves the parts of the source alike, in
both passes (`Edit.parts`), and so any number of edits leaves what it assembles to (`assemble_edited`). -/

namespace Chip8

namespace Assembly

open Text (Blanks SameLetters isBlank strip stripLeft stripRight)

variable {l l' label name name' gap t t' u : List Char}

/-! ### Lines -/

def codeOf (line : List Char) : List Char := line.takeWhile (· != ';')

theorem codeOf_append (clear : ';' ∉ l) (rest : List Char) : codeOf (l ++ rest) = l ++ codeOf rest :=
  List.takeWhile_append_of_pos fun c member => by simpa using fun same : c = ';' => clear (same ▸ member)

theorem codeOf_of_not_mem (clear : ';' ∉ l) : codeOf l = l := Text.takeWhile_of_not_mem clear

theorem codeOf_comment (l text : List Char) : codeOf (l ++ ';' :: text) = codeOf l := by
  unfold codeOf
  rw [List.takeWhile_append]
  split
  case isTrue whole =>
    rw [List.takeWhile_cons_of_neg (by decide), List.append_nil]
    exact ((List.takeWhile_prefix _).eq_of_length whole).symm
  case isFalse => rfl

/-- What a line says that has lost its comment and the blanks at its ends. -/
def SourceLine.ofBody (body : List Char) : SourceLine :=
  match Text.cut? ':' body with
  | none => { label := none, statement := statementOf? body }
  | some (before, after) => { label := some (strip before), statement := statementOf? (strip after) }

theorem parse_eq (l : List Char) : SourceLine.parse l = SourceLine.ofBody (strip (codeOf l)) := rfl

theorem parse_unlabelled (colonless : ':' ∉ codeOf l) :
    SourceLine.parse l = ⟨none, statementOf? (strip (codeOf l))⟩ := by
  have clear : ':' ∉ strip (codeOf l) := fun member => colonless ((Text.mem_strip (by decide)).1 member)
  rw [parse_eq, SourceLine.ofBody, Text.cut?_of_not_mem clear]

theorem parse_labelled (colonless : ':' ∉ label) (uncommented : ';' ∉ label) (rest : List Char) :
    SourceLine.parse (label ++ ':' :: rest) = ⟨some (strip label), statementOf? (strip (codeOf rest))⟩ := by
  have code : codeOf (label ++ ':' :: rest) = label ++ ':' :: codeOf rest := by
    rw [codeOf_append uncommented]
    exact congrArg _ (List.takeWhile_cons_of_pos (by decide))
  have body : strip (label ++ ':' :: codeOf rest) = stripLeft label ++ ':' :: stripRight (codeOf rest) := by
    rw [strip, Text.stripLeft_append_cons (by decide), Text.stripRight_append_cons (by decide)]
  have clear : ':' ∉ stripLeft label := fun member => colonless ((List.dropWhile_suffix _).mem member)
  rw [parse_eq, code, body, SourceLine.ofBody, Text.cut?_append clear]
  dsimp only
  rw [Text.strip_stripLeft, Text.strip_stripRight]

/-! ### Statements -/

/-- A mnemonic as it is written: no blank, and no comment begins in it. -/
structure Token (name : List Char) : Prop where
  ne : name ≠ []
  dark : ∀ c ∈ name, isBlank c = false
  uncommented : ';' ∉ name

structure Gap (gap : List Char) : Prop where
  ne : gap ≠ []
  blanks : Blanks gap

theorem strip_name (h : Token name) (u : List Char) : strip (name ++ u) = name ++ stripRight u := by
  obtain ⟨c, name', rfl⟩ := List.exists_cons_of_ne_nil h.ne
  have left : stripLeft (c :: name' ++ u) = c :: name' ++ u := Text.stripLeft_of_not_blank (h.dark c (by simp))
  rw [strip, left]
  obtain ⟨init, last, split⟩ := List.eq_nil_or_concat (c :: name') |>.resolve_left (by simp)
  rw [List.concat_eq_append] at split
  have dark : isBlank last = false := h.dark last (by rw [split]; simp)
  rw [split, List.append_assoc, List.append_assoc]
  exact Text.stripRight_append_cons dark init u

/-- The mnemonic takes in what follows it up to a blank. -/
theorem statementOf?_token (h : Token name) (u : List Char) :
    statementOf? (strip (name ++ u)) =
      some (Text.uppercase name ++ Text.uppercase ((stripRight u).takeWhile fun c => !isBlank c),
        stripLeft ((stripRight u).dropWhile fun c => !isBlank c)) := by
  have dark : ∀ c ∈ name, (!isBlank c) = true := fun c member => by rw [h.dark c member]; rfl
  have some : (name ++ stripRight u).isEmpty = false := by simp [h.ne]
  rw [strip_name h, statementOf?, some, if_neg (by decide)]
  dsimp only
  rw [List.takeWhile_append_of_pos dark, List.dropWhile_append_of_pos dark, Text.uppercase_append]

theorem statementOf?_gap (h : Token name) (hgap : Gap gap) (u : List Char) :
    ∃ t, strip t = strip u ∧ statementOf? (strip (name ++ (gap ++ u))) = some (Text.uppercase name, t) := by
  obtain ⟨b, -, split⟩ := Text.exists_stripRight (gap ++ u)
  have same : strip (stripRight (gap ++ u)) = strip u := by
    rw [Text.strip_stripRight, Text.strip_blanks_append hgap.blanks]
  rw [statementOf?_token h]
  cases kept : stripRight (gap ++ u) with
  | nil =>
    rw [kept] at same
    exact ⟨[], same, by simp [Text.uppercase, stripLeft]⟩
  | cons c rest =>
    obtain ⟨d, gap', rfl⟩ := List.exists_cons_of_ne_nil hgap.ne
    have blank : isBlank c = true := by
      rw [kept] at split
      rw [← (List.cons.inj split).1]
      exact hgap.blanks d (by simp)
    rw [kept] at same
    refine ⟨stripLeft (c :: rest), (Text.strip_stripLeft _).trans same, ?_⟩
    rw [List.takeWhile_cons_of_neg (by simp [blank]), List.dropWhile_cons_of_neg (by simp [blank])]
    simp [Text.uppercase]

/-! ### Operands -/

variable {pieces ps qs : List (List Char)} {p p' q : List Char} {symbols : Symbols}

theorem operandsOf_congr (h : strip t = strip t') : operandsOf t = operandsOf t' := by
  unfold operandsOf
  rw [← Text.map_strip_splitOn_strip (by decide) t, ← Text.map_strip_splitOn_strip (by decide) t', h]

theorem not_mem_intercalate {c : Char} (other : c ≠ ',') :
    c ∉ List.intercalate [','] pieces ↔ ∀ q ∈ pieces, c ∉ q := by
  induction pieces with
  | nil => simp
  | cons p ps ih =>
    cases ps with
    | nil => simp [List.intercalate]
    | cons q qs =>
      rw [Text.intercalate_cons_cons, List.mem_append, List.mem_append, not_or, not_or, ih,
        List.forall_mem_cons (a := p), List.mem_singleton]
      exact and_congr_right fun _ => and_iff_right other

def Operand.IsName (o : Operand) : Prop := (∃ k, o = .register k) ∨ ∃ k, o = .keyword k

theorem classify_sameLetters (h : SameLetters p p') (named : (Operand.classify p).IsName) :
    Operand.classify p' = Operand.classify p := by
  rw [classify_eq_iff]
  rcases named with ⟨k, register⟩ | ⟨k, keyword⟩
  · rw [register]
    cases classify_eq_iff.1 register with
    | register name => exact .register (h.uppercase ▸ name)
  · rw [keyword]
    cases classify_eq_iff.1 keyword with
    | keyword name => exact .keyword (h.uppercase ▸ name)

theorem not_isName_nil : ¬ (Operand.classify []).IsName := by
  have address : Operand.classify [] = .address [] := rfl
  rw [address]
  rintro (⟨k, same⟩ | ⟨k, same⟩) <;> cases same

/-! ### Numerals -/

/-- A character that stands in no numeral. -/
structure Foreign (c : Char) : Prop where
  noBlank : Text.isNumeralBlank c = false
  noMark : c ∉ ['+', '-', '_', 'x', 'X']
  noDigit : Text.digitValue? .hexadecimal c = none

theorem foreign_comma : Foreign ',' := ⟨by decide, by decide, by decide⟩

section Foreign

variable {c : Char} (h : Foreign c) {cs : List Char}
include h

omit cs in
theorem Foreign.ne {mark : Char} (among : mark ∈ ['+', '-', '_', 'x', 'X']) : c ≠ mark :=
  fun same => h.noMark (same ▸ among)

theorem Foreign.digits?_eq_none (member : c ∈ cs) : Text.digits? .hexadecimal cs = none := by
  fun_induction Text.digits? .hexadecimal cs with
  | case1 => cases member
  | case2 d =>
    cases List.mem_singleton.1 member
    rw [h.noDigit]
    rfl
  | case3 => rfl
  | case4 d e cs value digit ih₁ ih₂ =>
    have later : c ∈ e :: cs := by
      rcases List.mem_cons.1 member with rfl | later
      · rw [h.noDigit] at digit
        cases digit
      · exact later
    split
    case isTrue mark =>
      have noMark : c ≠ e := mark ▸ h.ne (by simp)
      rw [ih₁ ((List.mem_cons.1 later).resolve_left noMark)]
      rfl
    case isFalse =>
      rw [ih₂ later]
      rfl

theorem Foreign.readUnsigned?_eq_none (member : c ∈ cs) : Text.readUnsigned? .hexadecimal cs = none := by
  have kept : c ∈ Text.dropHexMark cs := by
    unfold Text.dropHexMark
    split
    case h_1 z x cs =>
      split
      case isTrue marked =>
        have noZero : c ≠ z := by
          rintro rfl
          have digit := h.noDigit
          simp [Text.digitValue?, marked.1] at digit
        have noMark : c ≠ x ∧ c ≠ '_' := by
          refine ⟨?_, h.ne (by simp)⟩
          rcases marked.2 with rfl | rfl
          · exact h.ne (by simp)
          · exact h.ne (by simp)
        have later := (List.mem_cons.1 ((List.mem_cons.1 member).resolve_left noZero)).resolve_left noMark.1
        split
        · exact (List.mem_cons.1 later).resolve_left noMark.2
        · exact later
      case isFalse => exact member
    case h_2 => exact member
  rw [Text.readUnsigned?, Text.readNat?, h.digits?_eq_none kept]
  rfl

theorem Foreign.readInt?_eq_none (member : c ∈ cs) : Text.readInt? .hexadecimal cs = none := by
  have kept (cs : List Char) (member : c ∈ cs) : c ∈ cs.dropWhile Text.isNumeralBlank := by
    rw [← List.takeWhile_append_dropWhile (p := Text.isNumeralBlank) (l := cs), List.mem_append] at member
    refine member.resolve_left fun blank => ?_
    have := List.mem_takeWhile_imp blank
    rw [h.noBlank] at this
    cases this
  have trimmed := List.mem_reverse.2 (kept _ (List.mem_reverse.2 (kept cs member)))
  rw [Text.readInt?]
  generalize (List.dropWhile _ _).reverse = digits at trimmed
  unfold Text.readSigned?
  split
  case h_1 => rw [h.readUnsigned?_eq_none ((List.mem_cons.1 trimmed).resolve_left (h.ne (by simp)))]; rfl
  case h_2 => rw [h.readUnsigned?_eq_none ((List.mem_cons.1 trimmed).resolve_left (h.ne (by simp)))]; rfl
  case h_3 => rw [h.readUnsigned?_eq_none trimmed]; rfl

end Foreign

theorem not_mem_hexSuffix {text : List Char} (suffix : hasHexSuffix text = true) : ',' ∉ text := by
  obtain ⟨d, ds, h, rfl, first, digits, final⟩ := hasHexSuffix_iff.1 suffix
  intro inside
  rw [List.mem_cons, List.mem_append, List.mem_singleton] at inside
  rcases inside with rfl | digit | rfl
  · exact absurd first (by decide)
  · exact absurd (digits ',' digit) (by decide)
  · exact absurd final (by decide)

theorem valueOf_comma (comma : ',' ∈ t) : (valueOf [] t).toOption = none := by
  have inside : ',' ∈ strip t := (Text.mem_strip (by decide)).2 comma
  have hex {text : List Char} (inside : ',' ∈ text) : (readHex text).toOption = none := by
    have malformed : Text.readInt .hexadecimal text = .error (.malformed .hexadecimal text) := by
      simp [Text.readInt, Text.countedDigits, foreign_comma.readInt?_eq_none inside]
    rw [readHex, malformed]
    rfl
  unfold valueOf
  dsimp only
  generalize strip t = text at inside
  split_ifs with dollar mark suffix decimal
  · obtain ⟨rest, rfl⟩ := List.head?_eq_some_iff.1 dollar
    exact hex ((List.mem_cons.1 inside).resolve_left (by decide))
  · exact hex inside
  · exact absurd inside (not_mem_hexSuffix suffix)
  · have digit := List.all_eq_true.1 (Bool.and_eq_true_iff.1 decimal).2 ',' inside
    exact absurd digit (by decide)
  · rfl

/-! ### Statements that do the same -/

theorem encode_congr (h : (operandsOf t).map Operand.classify = (operandsOf t').map Operand.classify) :
    (encode symbols name t).toOption = (encode symbols name t').toOption := by
  unfold encode
  cases Mnemonic.ofName? name with
  | none => rfl
  | some m =>
    dsimp only
    rw [h]
    cases (candidates m).find? fun op => fitAll ((operandsOf t').map Operand.classify) op.slots <;> rfl

def directives : List (List Char) := [['O', 'R', 'G'], ['D', 'B'], ['D', 'W']]

/-- Statements with the same mnemonic that differ in their operands in nothing that counts for it. -/
theorem alike_ofLine (origin : name ∈ directives → (valueOf [] t).toOption = (valueOf [] t').toOption)
    (data : name ∈ directives → operandsOf t = operandsOf t')
    (operands : name ∉ directives → (operandsOf t).map Operand.classify = (operandsOf t').map Operand.classify) :
    Part.Alike (.statement (.ofLine name t)) (.statement (.ofLine name t')) := by
  unfold Statement.ofLine
  split_ifs with isOrigin isBytes isWords
  · have same := origin (by simp [directives, isOrigin])
    constructor
    · intro p
      simp only [Part.reserve, same]
    · intro symbols p
      simp only [Part.emit, same]
  · rw [data (by simp [directives, isBytes])]
    exact .refl _
  · rw [data (by simp [directives, isWords])]
    exact .refl _
  · have same := operands (by simp [directives, isOrigin, isBytes, isWords])
    constructor
    · intro p
      rfl
    · intro symbols p
      have emits (text : List Char) : (Statement.emit symbols (.instruction name text)).toOption =
          (encode symbols name text).toOption.map fun word => wordBytes word := by
        rw [Statement.emit, toOption_bind]
        cases encode symbols name text <;> rfl
      simp only [Part.emit, emits, encode_congr same]

theorem alike_of_strip (name : List Char) (h : strip t = strip t') :
    Part.Alike (.statement (.ofLine name t)) (.statement (.ofLine name t')) := by
  have operands := operandsOf_congr h
  exact alike_ofLine (fun _ => by simp only [valueOf, h]) (fun _ => operands) fun _ => by rw [operands]

/-! ### Edits -/

/-- What stands before a mnemonic on its line: blanks, or a label with its colon and blanks. -/
inductive Opens : List Char → List Char → Prop
  | blank {before code : List Char} (blanks : Blanks before) (colonless : ':' ∉ codeOf code) : Opens before code
  | label {label blanks : List Char} (colonless : ':' ∉ label) (uncommented : ';' ∉ label) (blank : Blanks blanks)
      (code : List Char) : Opens (label ++ ':' :: blanks) code

/-- An operand is written otherwise: with other blanks around it, or, if it is a register or a keyword of an
instruction, in other letters. -/
inductive OperandEdit (name : List Char) : List Char → List Char → Prop
  | blanks {before after before' after' : List Char} (word : List Char) (hbefore : Blanks before)
      (hafter : Blanks after) (hbefore' : Blanks before') (hafter' : Blanks after') :
      OperandEdit name (before ++ (word ++ after)) (before' ++ (word ++ after'))
  | letters {p p' : List Char} (instruction : Text.uppercase name ∉ directives)
      (named : (Operand.classify (strip p)).IsName) (same : SameLetters p p') : OperandEdit name p p'

/-- Edits of a line: blanks at its ends, a comment behind it, other blanks behind the mnemonic, the mnemonic in other
letters, and one of the operands, between commas, written otherwise. -/
inductive LineEdit : List Char → List Char → Prop
  | leading {blanks : List Char} (h : Blanks blanks) (line : List Char) : LineEdit line (blanks ++ line)
  | trailing {blanks : List Char} (h : Blanks blanks) (line : List Char) : LineEdit line (line ++ blanks)
  | comment (line text : List Char) : LineEdit line (line ++ ';' :: text)
  | gap {before name gap gap' rest : List Char} (opens : Opens before (name ++ (gap ++ rest))) (token : Token name)
      (hgap : Gap gap) (hgap' : Gap gap') :
      LineEdit (before ++ (name ++ (gap ++ rest))) (before ++ (name ++ (gap' ++ rest)))
  | mnemonic {before name name' rest : List Char} (opens : Opens before (name ++ rest)) (token : Token name)
      (same : SameLetters name name') : LineEdit (before ++ (name ++ rest)) (before ++ (name' ++ rest))
  | operand {before name gap p p' rest : List Char} {ps qs : List (List Char)}
      (opens : Opens before (name ++ (gap ++ (List.intercalate [','] (ps ++ p :: qs) ++ rest))))
      (token : Token name) (hgap : Gap gap) (clear : ∀ q ∈ ps ++ p :: qs, ',' ∉ q ∧ ';' ∉ q)
      (edit : OperandEdit name p p') (ends : rest = [] ∨ ∃ text, rest = ';' :: text) :
      LineEdit (before ++ (name ++ (gap ++ (List.intercalate [','] (ps ++ p :: qs) ++ rest))))
        (before ++ (name ++ (gap ++ (List.intercalate [','] (ps ++ p' :: qs) ++ rest))))

/-- Edits of a source that leave the assembly alone: of one line, by a line that is empty but for a comment, and by
giving a label a line of its own. -/
inductive Edit : List (List Char) → List (List Char) → Prop
  | line {l l' : List Char} (h : LineEdit l l') (above below : List (List Char)) :
      Edit (above ++ l :: below) (above ++ l' :: below)
  | insert {l : List Char} (empty : Blanks (codeOf l)) (above below : List (List Char)) :
      Edit (above ++ below) (above ++ l :: below)
  | label {label rest : List Char} (colonless : ':' ∉ label) (uncommented : ';' ∉ label)
      (clear : ':' ∉ codeOf rest) (above below : List (List Char)) :
      Edit (above ++ (label ++ ':' :: rest) :: below) (above ++ (label ++ [':']) :: rest :: below)

theorem Opens.exists_parse {before code : List Char} (h : Opens before code) : ∃ label, ∀ code',
    (':' ∈ codeOf code' → ':' ∈ codeOf code) →
      SourceLine.parse (before ++ code') = ⟨label, statementOf? (strip (codeOf code'))⟩ := by
  have skip {b : List Char} (blanks : Blanks b) (code' : List Char) :
      strip (codeOf (b ++ code')) = strip (codeOf code') := by
    rw [codeOf_append (Text.not_mem_blanks blanks (by decide)), Text.strip_blanks_append blanks]
  cases h with
  | blank blanks colonless =>
    refine ⟨none, fun code' colons => ?_⟩
    rw [← parse_unlabelled fun colon => colonless (colons colon), parse_eq, parse_eq, skip blanks]
  | @label label b colonless uncommented blank =>
    refine ⟨some (strip label), fun code' _ => ?_⟩
    rw [List.append_assoc, List.cons_append, parse_labelled colonless uncommented, skip blank]

namespace OperandEdit

variable (h : OperandEdit name p p')
include h

theorem mem_iff {c : Char} (dark : isBlank c = false) (mark : c.toNat < 65) : c ∈ p ↔ c ∈ p' := by
  cases h with
  | blanks word hbefore hafter hbefore' hafter' =>
    simp [Text.not_mem_blanks hbefore dark, Text.not_mem_blanks hafter dark, Text.not_mem_blanks hbefore' dark,
      Text.not_mem_blanks hafter' dark]
  | letters _ _ same => exact same.mem_iff fun d => Text.eq_of_toUpper_eq mark

theorem clear {c : Char} (dark : isBlank c = false) (mark : c.toNat < 65) (clear : ∀ q ∈ ps ++ p :: qs, c ∉ q) :
    ∀ q ∈ ps ++ p' :: qs, c ∉ q := by
  simp only [List.forall_mem_append, List.forall_mem_cons] at clear ⊢
  exact ⟨clear.1, fun member => clear.2.1 ((h.mem_iff dark mark).2 member), clear.2.2⟩

theorem alike (clear : ∀ q ∈ ps ++ p :: qs, ',' ∉ q)
    (ht : strip t = strip (List.intercalate [','] (ps ++ p :: qs)))
    (ht' : strip t' = strip (List.intercalate [','] (ps ++ p' :: qs))) :
    Part.Alike (.statement (.ofLine (Text.uppercase name) t)) (.statement (.ofLine (Text.uppercase name) t')) := by
  have operands := (operandsOf_congr ht).trans (operandsOf_pieces (List.forall_mem_nil _) (by simp) clear)
  have operands' := (operandsOf_congr ht').trans
    (operandsOf_pieces (List.forall_mem_nil _) (by simp) (h.clear (by decide) (by decide) clear))
  cases h with
  | @blanks before after before' after' word hbefore hafter hbefore' hafter' =>
    have same : strip (before ++ (word ++ after)) = strip (before' ++ (word ++ after')) := by
      rw [Text.strip_blanks_append hbefore, Text.strip_append_blanks hafter, Text.strip_blanks_append hbefore',
        Text.strip_append_blanks hafter']
    have equal : operandsOf t = operandsOf t' := by
      rw [operands, operands', List.map_append, List.map_append, List.map_cons, List.map_cons, same]
    refine alike_ofLine (fun _ => ?_) (fun _ => equal) fun _ => by rw [equal]
    -- A number with a comma is none before and after; without one the operand is the whole text.
    by_cases alone : ps = [] ∧ qs = []
    · obtain ⟨rfl, rfl⟩ := alone
      have whole : strip t = strip t' := by
        rw [ht, ht']
        simpa [List.intercalate] using same
      simp only [valueOf, whole]
    · have two (p : List Char) : 2 ≤ (ps ++ p :: qs).length := by
        rw [List.length_append, List.length_cons]
        by_contra short
        exact alone ⟨List.length_eq_zero_iff.1 (by omega), List.length_eq_zero_iff.1 (by omega)⟩
      have comma {p t : List Char} (ht : strip t = strip (List.intercalate [','] (ps ++ p :: qs))) : ',' ∈ t := by
        rw [← Text.mem_strip (show isBlank ',' = false by decide), ht, Text.mem_strip (by decide)]
        exact comma_mem_intercalate (two p) []
      rw [valueOf_comma (comma ht), valueOf_comma (comma ht')]
  | letters instruction named same =>
    refine alike_ofLine (fun directive => absurd directive instruction)
      (fun directive => absurd directive instruction) fun _ => ?_
    have some {p : List Char} (ne : strip p ≠ []) : (ps ++ p :: qs).map strip ≠ [[]] := by
      intro single
      have member : strip p ∈ (ps ++ p :: qs).map strip := List.mem_map_of_mem (by simp)
      rw [single] at member
      exact ne (List.mem_singleton.1 member)
    have ne : strip p ≠ [] := fun empty => not_isName_nil (empty ▸ named)
    have ne' : strip p' ≠ [] := fun empty => ne (same.strip.eq_nil_iff.2 empty)
    rw [operands, operands', if_neg (some ne), if_neg (some ne')]
    simp [classify_sameLetters same.strip named]

end OperandEdit

theorem alike_parts (label : Option (List Char)) {name t t' : List Char}
    (h : Part.Alike (.statement (.ofLine name t)) (.statement (.ofLine name t'))) :
    List.Forall₂ Part.Alike (SourceLine.mk label (some (name, t))).parts
      (SourceLine.mk label (some (name, t'))).parts :=
  List.rel_append (alike_self _) (.cons h .nil)

theorem alike_of_parse (h : SourceLine.parse l = SourceLine.parse l') :
    List.Forall₂ Part.Alike (SourceLine.parse l).parts (SourceLine.parse l').parts := by
  rw [h]
  exact alike_self _

theorem codeOf_trailing {blanks : List Char} (h : Blanks blanks) (l : List Char) :
    strip (codeOf (l ++ blanks)) = strip (codeOf l) := by
  by_cases commented : ';' ∈ l
  · obtain ⟨before, after, rfl⟩ := List.append_of_mem commented
    rw [List.append_assoc, List.cons_append, codeOf_comment, codeOf_comment]
  · rw [codeOf_append commented, codeOf_of_not_mem commented, codeOf_of_not_mem (Text.not_mem_blanks h (by decide)),
      Text.strip_append_blanks h]

theorem codeOf_gap (token : Token name) (hgap : Gap gap) (u : List Char) :
    codeOf (name ++ (gap ++ u)) = name ++ (gap ++ codeOf u) := by
  rw [codeOf_append token.uncommented, codeOf_append (Text.not_mem_blanks hgap.blanks (by decide))]

theorem codeOf_pieces (clear : ∀ q ∈ pieces, ';' ∉ q) {rest : List Char}
    (ends : rest = [] ∨ ∃ text, rest = ';' :: text) :
    codeOf (List.intercalate [','] pieces ++ rest) = List.intercalate [','] pieces := by
  have clear := (not_mem_intercalate (by decide)).2 clear
  rcases ends with rfl | ⟨text, rfl⟩
  · rw [List.append_nil, codeOf_of_not_mem clear]
  · rw [codeOf_comment, codeOf_of_not_mem clear]

/-- Behind what stands before a mnemonic, blanks and operands can be exchanged for others that are read alike. -/
theorem Opens.parts {before u u' gap' : List Char} (opens : Opens before (name ++ (gap ++ u))) (token : Token name)
    (hgap : Gap gap) (hgap' : Gap gap') (colons : ':' ∈ codeOf u' → ':' ∈ codeOf u)
    (alike : ∀ t t', strip t = strip (codeOf u) → strip t' = strip (codeOf u') →
      Part.Alike (.statement (.ofLine (Text.uppercase name) t)) (.statement (.ofLine (Text.uppercase name) t'))) :
    List.Forall₂ Part.Alike (SourceLine.parse (before ++ (name ++ (gap ++ u)))).parts
      (SourceLine.parse (before ++ (name ++ (gap' ++ u')))).parts := by
  have colons' : ':' ∈ codeOf (name ++ (gap' ++ u')) → ':' ∈ codeOf (name ++ (gap ++ u)) := by
    have dark : ':' ∉ gap' := Text.not_mem_blanks hgap'.blanks (by decide)
    simp only [codeOf_gap token hgap, codeOf_gap token hgap', List.mem_append]
    tauto
  obtain ⟨label, parsed⟩ := opens.exists_parse
  obtain ⟨t, ht, statement⟩ := statementOf?_gap token hgap (codeOf u)
  obtain ⟨t', ht', statement'⟩ := statementOf?_gap token hgap' (codeOf u')
  rw [parsed _ id, parsed _ colons', codeOf_gap token hgap, codeOf_gap token hgap', statement, statement']
  exact alike_parts label (alike t t' ht ht')

theorem Token.sameLetters (token : Token name) (same : SameLetters name name') : Token name' where
  ne empty := token.ne (same.eq_nil_iff.2 empty)
  dark := same.dark token.dark
  uncommented mark := token.uncommented ((same.mem_iff fun _ => Text.eq_of_toUpper_eq (by decide)).2 mark)

theorem LineEdit.parts (h : LineEdit l l') :
    List.Forall₂ Part.Alike (SourceLine.parse l).parts (SourceLine.parse l').parts := by
  cases h with
  | leading h line =>
    apply alike_of_parse
    rw [parse_eq, parse_eq, codeOf_append (Text.not_mem_blanks h (by decide)), Text.strip_blanks_append h]
  | trailing h line =>
    apply alike_of_parse
    rw [parse_eq, parse_eq, codeOf_trailing h]
  | comment line text =>
    apply alike_of_parse
    rw [parse_eq, parse_eq, codeOf_comment]
  | gap opens token hgap hgap' =>
    exact opens.parts token hgap hgap' id fun t t' ht ht' => alike_of_strip _ (ht.trans ht'.symm)
  | @mnemonic before name name' rest opens token same =>
    have token' := token.sameLetters same
    have colons : ':' ∈ codeOf (name' ++ rest) → ':' ∈ codeOf (name ++ rest) := by
      have mark : ':' ∈ name ↔ ':' ∈ name' := same.mem_iff fun _ => Text.eq_of_toUpper_eq (by decide)
      rw [codeOf_append token.uncommented, codeOf_append token'.uncommented, List.mem_append, List.mem_append, mark]
      exact id
    obtain ⟨label, parsed⟩ := opens.exists_parse
    apply alike_of_parse
    rw [parsed _ id, parsed _ colons, codeOf_append token.uncommented, codeOf_append token'.uncommented,
      statementOf?_token token, statementOf?_token token', same.uppercase]
  | @operand before name gap p p' rest ps qs opens token hgap clear edit ends =>
    have noComma : ∀ q ∈ ps ++ p :: qs, ',' ∉ q := fun q among => (clear q among).1
    have noMark : ∀ q ∈ ps ++ p :: qs, ';' ∉ q := fun q among => (clear q among).2
    have code := codeOf_pieces noMark ends
    have code' := codeOf_pieces (edit.clear (by decide) (by decide) noMark) ends
    refine opens.parts token hgap hgap ?_ fun t t' ht ht' => edit.alike noComma (code ▸ ht) (code' ▸ ht')
    rw [code, code', ← not_imp_not, not_mem_intercalate (by decide), not_mem_intercalate (by decide)]
    exact edit.clear (by decide) (by decide)

theorem Edit.parts {source source' : List (List Char)} (h : Edit source source') :
    List.Forall₂ Part.Alike (sourceParts source) (sourceParts source') := by
  cases h with
  | line h above below =>
    simp only [sourceParts, List.flatMap_append, List.flatMap_cons]
    exact List.rel_append (alike_self _) (List.rel_append h.parts (alike_self _))
  | @insert l empty above below =>
    have nothing : (SourceLine.parse l).parts = [] := by
      have body : strip (codeOf l) = [] := by
        rw [← List.append_nil (codeOf l), Text.strip_blanks_append empty]
        rfl
      rw [parse_eq, body]
      rfl
    simp only [sourceParts, List.flatMap_append, List.flatMap_cons, nothing, List.nil_append]
    exact alike_self _
  | @label label rest colonless uncommented clear above below =>
    have split : (SourceLine.parse (label ++ ':' :: rest)).parts =
        (SourceLine.parse (label ++ [':'])).parts ++ (SourceLine.parse rest).parts := by
      rw [parse_labelled colonless uncommented, parse_labelled colonless uncommented, parse_unlabelled clear]
      exact (congrArg (· ++ _) (List.append_nil _)).symm
    simp only [sourceParts, List.flatMap_append, List.flatMap_cons, split, List.append_assoc]
    exact alike_self _

theorem toOption_eq_some {ε α : Type} {x : Except ε α} {a : α} : x.toOption = some a ↔ x = .ok a := by
  cases x <;> simp [Except.toOption]

/-- **Layout.** However a source is edited, if only its layout changes, it assembles to the same symbols and the same
bytes, and what does not assemble does not assemble then either. -/
theorem assemble_edited {source source' : List (List Char)} (h : Relation.ReflTransGen Edit source source')
    (code : ObjectCode) : assemble source' = .ok code ↔ assemble source = .ok code := by
  have same : (assemble source').toOption = (assemble source).toOption := by
    induction h with
    | refl => rfl
    | tail _ edit ih =>
      rw [← ih, assemble_parts, assemble_parts]
      exact (assembleParts_alike edit.parts).symm
  rw [← toOption_eq_some, ← toOption_eq_some, same]

theorem assemble_edited_label :
    let source := ["a: LD V1, 5".toList]
    let source' := ["; five".toList, "a:".toList, " LD v1,5".toList]
    let code : ObjectCode := { symbols := [("a", 0x200)], bytes := [(0x200, 0x61), (0x201, 5)] }
    Relation.ReflTransGen Edit source source' ∧ assemble source = .ok code ∧ assemble source' = .ok code := by
  intro source source' code
  have moved : Edit source ["a:".toList, " LD V1, 5".toList] :=
    @Edit.label "a".toList " LD V1, 5".toList (by decide) (by decide) (by decide) [] []
  have token : Token "LD".toList :=
    ⟨by decide, List.forall_mem_cons.2 ⟨rfl, List.forall_mem_singleton.2 rfl⟩, by decide⟩
  have blank : Blanks " ".toList := List.forall_mem_singleton.2 rfl
  have none : Blanks [] := List.forall_mem_nil _
  have letters : LineEdit " LD V1, 5".toList " LD v1, 5".toList :=
    @LineEdit.operand " ".toList "LD".toList " ".toList "V1".toList "v1".toList [] [] [" 5".toList]
      (.blank blank (by decide)) token ⟨by decide, blank⟩
      (List.forall_mem_cons.2 ⟨by decide, List.forall_mem_singleton.2 (by decide)⟩)
      (.letters (by decide) (.inl ⟨⟨1, by decide⟩, by decide⟩) rfl) (.inl rfl)
  have blanks : LineEdit " LD v1, 5".toList " LD v1,5".toList :=
    @LineEdit.operand " ".toList "LD".toList " ".toList " 5".toList "5".toList [] ["v1".toList] []
      (.blank blank (by decide)) token ⟨by decide, blank⟩
      (List.forall_mem_cons.2 ⟨by decide, List.forall_mem_singleton.2 (by decide)⟩)
      (@OperandEdit.blanks _ " ".toList [] [] [] "5".toList blank none none none) (.inl rfl)
  have comment : Edit ["a:".toList, " LD v1,5".toList] source' :=
    @Edit.insert "; five".toList none [] ["a:".toList, " LD v1,5".toList]
  have edited : Relation.ReflTransGen Edit source source' :=
    (((Relation.ReflTransGen.single moved).tail (.line letters ["a:".toList] [])).tail
      (.line blanks ["a:".toList] [])).tail comment
  have assembled : assemble source = .ok code := by decide
  exact ⟨edited, assembled, (assemble_edited edited code).2 assembled⟩

end Assembly

end Chip8
