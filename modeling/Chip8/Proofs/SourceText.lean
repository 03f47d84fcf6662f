import Chip8.Assembly
import Chip8.Proofs.Memory

/-! How a line of source is read. Blanks at the ends do not count, a comma separates operands, and an operation
as it is listed is read as its mnemonic and its operands again (`parse_operationText`). -/

namespace Chip8

namespace Text

variable {cs : List Char} {c : Char}

theorem of_ascii {P : Char → Prop} (each : ∀ n < 128, P (Char.ofNat n)) (ascii : c.toNat < 128) : P c := by
  have checked := each c.toNat ascii
  rwa [Char.ofNat_toNat] at checked

theorem strip_eq_self (first : ∀ c, cs.head? = some c → isBlank c = false)
    (last : ∀ c, cs.getLast? = some c → isBlank c = false) : strip cs = cs := by
  rcases List.eq_nil_or_concat cs with rfl | ⟨front, c, rfl⟩
  · rfl
  · rw [List.concat_eq_append] at first last ⊢
    have left : stripLeft (front ++ [c]) = front ++ [c] := by
      cases front with
      | nil => exact stripLeft_of_not_blank (first c rfl)
      | cons d front => exact stripLeft_of_not_blank (first d rfl)
    rw [strip, left, stripRight_of_not_blank (last c (by simp))]

theorem stripLeft_blank (h : isBlank c = true) (cs : List Char) : stripLeft (c :: cs) = stripLeft cs :=
  List.dropWhile_cons_of_pos h

/-- What a character that is no blank is part of does not vanish. -/
theorem strip_ne_nil (member : c ∈ cs) (h : isBlank c = false) : strip cs ≠ [] := by
  intro empty
  have left : stripLeft cs = [] := by
    rw [strip, stripRight, List.reverse_eq_nil_iff, List.dropWhile_eq_nil_iff] at empty
    unfold stripLeft at empty ⊢
    cases kept : cs.dropWhile isBlank with
    | nil => rfl
    | cons d ds =>
      have blank : isBlank d = true := by
        rw [kept] at empty
        exact empty d (by simp)
      have first := List.head?_dropWhile_not isBlank cs
      rw [kept] at first
      simp [blank] at first
  rw [stripLeft, List.dropWhile_eq_nil_iff] at left
  have blank := left c member
  rw [h] at blank
  cases blank

theorem strip_strip (cs : List Char) : strip (strip cs) = strip cs := by
  apply strip_eq_self
  · intro c first
    obtain ⟨kept, lost⟩ : stripRight (stripLeft cs) <+: stripLeft cs := by
      rw [stripRight, ← List.reverse_suffix, List.reverse_reverse]
      exact List.dropWhile_suffix isBlank
    have head : (stripLeft cs).head? = some c := by
      rw [← lost, List.head?_append, show (stripRight (stripLeft cs)).head? = some c from first]
      rfl
    have dark := List.head?_dropWhile_not isBlank cs
    rw [show cs.dropWhile isBlank = stripLeft cs from rfl, head] at dark
    simpa using dark
  · intro c last
    have dark := List.head?_dropWhile_not isBlank (stripLeft cs).reverse
    rw [strip, stripRight, List.getLast?_reverse] at last
    rw [last] at dark
    simpa using dark

theorem stripLeft_append_blank {before : List Char} (h : ∀ c ∈ before, isBlank c = true) (cs : List Char) :
    stripLeft (before ++ cs) = stripLeft cs :=
  List.dropWhile_append_of_pos h

theorem stripRight_append_blank {after : List Char} (h : ∀ c ∈ after, isBlank c = true) (cs : List Char) :
    stripRight (cs ++ after) = stripRight cs := by
  rw [stripRight, stripRight, List.reverse_append,
    List.dropWhile_append_of_pos fun c hc => h c (List.mem_reverse.1 hc)]

theorem stripRight_append_cons (h : isBlank c = false) (before after : List Char) :
    stripRight (before ++ c :: after) = before ++ c :: stripRight after := by
  have dark : (c :: before.reverse).dropWhile isBlank = c :: before.reverse :=
    List.dropWhile_cons_of_neg (by simp [h])
  unfold stripRight
  rw [List.reverse_append, List.reverse_cons, List.append_assoc, List.singleton_append, List.dropWhile_append, dark]
  split
  · rename_i empty
    rw [List.isEmpty_iff.1 empty]
    simp
  · simp

theorem strip_append_cons {before : List Char} (blank : ∀ c ∈ before, isBlank c = true) (h : isBlank c = false)
    (rest : List Char) : strip (before ++ c :: rest) = stripRight (c :: rest) := by
  rw [strip, stripLeft_append_blank blank, stripLeft_of_not_blank h]

theorem head?_strip (cs : List Char) : (strip cs).head? = (stripLeft cs).head? := by
  have first := List.head?_dropWhile_not isBlank cs
  unfold strip
  unfold stripLeft
  cases kept : cs.dropWhile isBlank with
  | nil => rfl
  | cons c rest =>
    rw [kept] at first
    have stays := stripRight_append_cons (show isBlank c = false by simpa using first) [] rest
    rw [List.nil_append, List.nil_append] at stays
    rw [stays]
    rfl

variable {sep : Char}

theorem splitOn_of_not_mem (h : sep ∉ cs) : splitOn sep cs = [cs] := by
  induction cs with
  | nil => rfl
  | cons c cs ih =>
    simp only [List.mem_cons, not_or] at h
    rw [splitOn, if_neg (Ne.symm h.1), ih h.2]

theorem splitOn_append (h : sep ∉ cs) (rest : List Char) :
    splitOn sep (cs ++ sep :: rest) = cs :: splitOn sep rest := by
  induction cs with
  | nil => rw [List.nil_append, splitOn, if_pos rfl]
  | cons c cs ih =>
    simp only [List.mem_cons, not_or] at h
    rw [List.cons_append, splitOn, if_neg (Ne.symm h.1), ih h.2]

theorem splitOn_prepend {gap rest piece : List Char} {pieces : List (List Char)} (clear : sep ∉ gap)
    (h : splitOn sep rest = piece :: pieces) : splitOn sep (gap ++ rest) = (gap ++ piece) :: pieces := by
  induction gap with
  | nil => exact h
  | cons c gap ih =>
    simp only [List.mem_cons, not_or] at clear
    rw [List.cons_append, splitOn, if_neg (Ne.symm clear.1), ih clear.2]
    rfl

theorem intercalate_cons_cons (between piece next : List Char) (pieces : List (List Char)) :
    List.intercalate between (piece :: next :: pieces) =
      piece ++ (between ++ List.intercalate between (next :: pieces)) := by
  simp [List.intercalate]

/-- The pieces of a text that was put together, each but the first with the gap before it. -/
theorem splitOn_intercalate {gap : List Char} (clear : sep ∉ gap) {piece : List Char}
    {pieces : List (List Char)} (h : ∀ p ∈ piece :: pieces, sep ∉ p) :
    splitOn sep (List.intercalate (sep :: gap) (piece :: pieces)) = piece :: pieces.map (gap ++ ·) := by
  induction pieces generalizing piece with
  | nil =>
    rw [List.forall_mem_cons] at h
    simpa using splitOn_of_not_mem h.1
  | cons next pieces ih =>
    rw [List.forall_mem_cons] at h
    rw [intercalate_cons_cons, List.cons_append, splitOn_append h.1, splitOn_prepend clear (ih h.2)]
    rfl

theorem takeWhile_of_not_mem (h : sep ∉ cs) : cs.takeWhile (· != sep) = cs := by
  rw [List.takeWhile_eq_self_iff]
  intro c hc
  simpa using fun same : c = sep => h (same ▸ hc)

theorem cut?_of_not_mem (h : sep ∉ cs) : cut? sep cs = none := by
  have none : cs.dropWhile (· != sep) = [] := by
    rw [List.dropWhile_eq_nil_iff]
    intro c hc
    simpa using fun same : c = sep => h (same ▸ hc)
  rw [cut?, none]

/-- A character that stands for itself wherever it occurs in a line: graphic ASCII but a comma, a semicolon
and a colon. -/
def isPlain (c : Char) : Bool :=
  0x21 ≤ c.toNat && c.toNat < 0x7f && c != ',' && c != ';' && c != ':'

theorem toNat_of_isPlain (h : isPlain c = true) : 0x21 ≤ c.toNat ∧ c.toNat < 0x7f := by
  simp only [isPlain, Bool.and_eq_true, decide_eq_true_eq] at h
  exact h.1.1.1

theorem isBlank_of_isPlain (h : isPlain c = true) : isBlank c = false := by
  have range := toNat_of_isPlain h
  simp only [isBlank, Bool.or_eq_false_iff, Bool.and_eq_false_iff, decide_eq_false_iff_not,
    beq_eq_false_iff_ne]
  omega

structure Plain (cs : List Char) : Prop where
  ne : cs ≠ []
  chars : ∀ c ∈ cs, isPlain c = true

namespace Plain

variable (h : Plain cs)

include h

theorem not_mem (mark : isPlain sep = false) : sep ∉ cs := fun member => by
  rw [h.chars sep member] at mark
  cases mark

theorem head?_not_blank : ∀ c, cs.head? = some c → isBlank c = false := fun c first =>
  isBlank_of_isPlain (h.chars c (List.mem_of_mem_head? first))

theorem getLast?_not_blank : ∀ c, cs.getLast? = some c → isBlank c = false := fun c last =>
  isBlank_of_isPlain (h.chars c (List.mem_of_mem_getLast? last))

theorem strip : strip cs = cs := strip_eq_self h.head?_not_blank h.getLast?_not_blank

theorem takeWhile_append (rest : List Char) :
    (cs ++ ' ' :: rest).takeWhile (fun c => !isBlank c) = cs := by
  have dark : ∀ c ∈ cs, (!isBlank c) = true := fun c hc => by rw [isBlank_of_isPlain (h.chars c hc)]; rfl
  rw [List.takeWhile_append_of_pos dark, List.takeWhile_cons_of_neg (by decide), List.append_nil]

theorem dropWhile_append (rest : List Char) :
    (cs ++ ' ' :: rest).dropWhile (fun c => !isBlank c) = ' ' :: rest := by
  have dark : ∀ c ∈ cs, (!isBlank c) = true := fun c hc => by rw [isBlank_of_isPlain (h.chars c hc)]; rfl
  rw [List.dropWhile_append_of_pos dark, List.dropWhile_cons_of_neg (by decide)]

end Plain

end Text

namespace Assembly

open Text (Plain isPlain isBlank)

variable {name : List Char} {operands : List (List Char)}

theorem comma_mem_intercalate {pieces : List (List Char)} (two : 2 ≤ pieces.length) (gap : List Char) :
    ',' ∈ List.intercalate (',' :: gap) pieces := by
  cases pieces with
  | nil => cases two
  | cons p ps =>
    cases ps with
    | nil => exact absurd two (Nat.not_succ_le_self 1)
    | cons q qs =>
      rw [Text.intercalate_cons_cons]
      simp

/-- Texts with commas between them, and blanks behind the commas, are the operands, but for a single one that is
blank. -/
theorem operandsOf_pieces {pieces : List (List Char)} {gap : List Char} (blank : ∀ c ∈ gap, isBlank c = true)
    (ne : pieces ≠ []) (clear : ∀ q ∈ pieces, ',' ∉ q) :
    operandsOf (List.intercalate (',' :: gap) pieces) =
      if pieces.map Text.strip = [[]] then [] else pieces.map Text.strip := by
  obtain ⟨p, ps, rfl⟩ := List.exists_cons_of_ne_nil ne
  have commaless : ',' ∉ gap := fun member => absurd (blank _ member) (by decide)
  have split := Text.splitOn_intercalate commaless clear
  have stripped : (ps.map (gap ++ ·)).map Text.strip = ps.map Text.strip := by
    rw [List.map_map]
    refine List.map_congr_left fun q _ => ?_
    rw [Function.comp_apply, Text.strip, Text.stripLeft_append_blank blank, Text.strip]
  have empty : (Text.strip (List.intercalate (',' :: gap) (p :: ps))).isEmpty = true ↔
      (p :: ps).map Text.strip = [[]] := by
    cases ps with
    | nil => simp [List.intercalate]
    | cons q qs =>
      have comma : ',' ∈ List.intercalate (',' :: gap) (p :: q :: qs) := comma_mem_intercalate (by simp) gap
      refine iff_of_false ?_ (by simp)
      rw [List.isEmpty_iff]
      exact Text.strip_ne_nil comma (by decide)
  unfold operandsOf
  simp only [empty, split, List.map_cons, stripped]

theorem operandsOf_intercalate (h : ∀ p ∈ operands, Plain p) :
    operandsOf (List.intercalate [',', ' '] operands) = operands := by
  by_cases none : operands = []
  · rw [none]
    rfl
  · have stripped : operands.map Text.strip = operands := by
      rw [List.map_congr_left (g := id) fun p hp => (h p hp).strip, List.map_id]
    have some : operands ≠ [[]] := by
      rintro rfl
      exact (h [] (List.mem_singleton_self _)).ne rfl
    have blank : ∀ c ∈ [' '], isBlank c = true := List.forall_mem_singleton.2 (by decide)
    rw [operandsOf_pieces blank none fun p hp => (h p hp).not_mem (by decide), stripped, if_neg some]

theorem head?_intercalate {piece : List Char} (h : Plain piece) (pieces : List (List Char)) :
    ∃ c, (List.intercalate [',', ' '] (piece :: pieces)).head? = some c ∧ isPlain c = true := by
  obtain ⟨c, rest, rfl⟩ := List.exists_cons_of_ne_nil h.ne
  refine ⟨c, ?_, h.chars c List.mem_cons_self⟩
  cases pieces <;> simp [List.intercalate]

theorem getLast?_intercalate {piece : List Char} {pieces : List (List Char)}
    (h : ∀ p ∈ piece :: pieces, Plain p) :
    ∃ c, (List.intercalate [',', ' '] (piece :: pieces)).getLast? = some c ∧ isPlain c = true := by
  induction pieces generalizing piece with
  | nil =>
    rw [List.forall_mem_cons] at h
    refine ⟨piece.getLast h.1.ne, ?_, h.1.chars _ (List.getLast_mem h.1.ne)⟩
    simpa using List.getLast?_eq_getLast_of_ne_nil h.1.ne
  | cons next pieces ih =>
    rw [List.forall_mem_cons] at h
    obtain ⟨c, last, plain⟩ := ih h.2
    refine ⟨c, ?_, plain⟩
    rw [Text.intercalate_cons_cons, List.getLast?_append, List.getLast?_append, last]
    rfl

theorem mem_intercalate {c : Char} (h : ∀ p ∈ operands, Plain p)
    (member : c ∈ List.intercalate [',', ' '] operands) : isPlain c = true ∨ c = ',' ∨ c = ' ' := by
  induction operands with
  | nil => cases member
  | cons piece pieces ih =>
    rw [List.forall_mem_cons] at h
    cases pieces with
    | nil => exact .inl (h.1.chars c (by simpa using member))
    | cons next pieces =>
      rw [Text.intercalate_cons_cons] at member
      rcases List.mem_append.1 member with here | later
      · exact .inl (h.1.chars c here)
      · rcases List.mem_append.1 later with between | rest
        · exact .inr (by simpa using between)
        · exact ih h.2 rest

/-- A line that is read as it stands: its ends are no blanks, and it has neither comment nor label. -/
theorem parse_of_bare {line : List Char} (first : ∀ c, line.head? = some c → isBlank c = false)
    (last : ∀ c, line.getLast? = some c → isBlank c = false) (uncommented : ';' ∉ line)
    (unlabelled : ':' ∉ line) :
    SourceLine.parse line = ⟨none, statementOf? line⟩ := by
  rw [SourceLine.parse, Text.takeWhile_of_not_mem uncommented, Text.strip_eq_self first last,
    Text.cut?_of_not_mem unlabelled]

theorem statementOf?_name (h : Plain name) : statementOf? name = some (Text.uppercase name, []) := by
  have dark : ∀ c ∈ name, (!isBlank c) = true := fun c hc => by
    rw [Text.isBlank_of_isPlain (h.chars c hc)]
    rfl
  have whole : name.takeWhile (fun c => !isBlank c) = name := List.takeWhile_eq_self_iff.2 dark
  have behind : name.dropWhile (fun c => !isBlank c) = [] := List.dropWhile_eq_nil_iff.2 dark
  rw [statementOf?, if_neg (by simpa using h.ne)]
  dsimp only
  rw [whole, behind]
  rfl

theorem statementOf?_append (h : Plain name) {text : List Char}
    (first : ∀ c, text.head? = some c → isBlank c = false) :
    statementOf? (name ++ ' ' :: text) = some (Text.uppercase name, text) := by
  have bare : Text.stripLeft (' ' :: text) = text := by
    rw [Text.stripLeft_blank (by decide)]
    cases text with
    | nil => rfl
    | cons c text => exact Text.stripLeft_of_not_blank (first c rfl)
  rw [statementOf?, if_neg (by simp)]
  dsimp only
  rw [h.takeWhile_append, h.dropWhile_append, bare]

/-- An operation as it is listed is read as its mnemonic and its operands. -/
theorem parse_operationText (hname : Plain name) (h : ∀ p ∈ operands, Plain p) :
    SourceLine.parse (operationText name operands) =
      ⟨none, some (Text.uppercase name, List.intercalate [',', ' '] operands)⟩ := by
  cases operands with
  | nil =>
    have parsed := parse_of_bare hname.head?_not_blank hname.getLast?_not_blank
      (hname.not_mem (show Text.isPlain ';' = false by decide))
      (hname.not_mem (show Text.isPlain ':' = false by decide))
    rw [operationText, List.isEmpty_nil, if_pos rfl, parsed, statementOf?_name hname]
    rfl
  | cons piece pieces =>
    obtain ⟨c, head, headPlain⟩ := head?_intercalate (h piece List.mem_cons_self) pieces
    obtain ⟨d, last, lastPlain⟩ := getLast?_intercalate h
    have clear {mark : Char} (special : isPlain mark = false) (other : mark ≠ ',' ∧ mark ≠ ' ') :
        mark ∉ name ++ ' ' :: List.intercalate [',', ' '] (piece :: pieces) := by
      intro member
      rcases List.mem_append.1 member with inName | behind
      · exact hname.not_mem special inName
      · rcases List.mem_cons.1 behind with space | inText
        · exact other.2 space
        · rcases mem_intercalate h inText with plain | comma | space
          · rw [special] at plain
            cases plain
          · exact other.1 comma
          · exact other.2 space
    have listed : operationText name (piece :: pieces) =
        name ++ ' ' :: List.intercalate [',', ' '] (piece :: pieces) := rfl
    rw [listed]
    -- From here on only the ends of the operands and the marks they lack count.
    generalize List.intercalate [',', ' '] (piece :: pieces) = text at head last clear ⊢
    have nameHead : ∀ c, (name ++ ' ' :: text).head? = some c → isBlank c = false := by
      intro c first
      rw [List.head?_append_of_ne_nil _ hname.ne] at first
      exact hname.head?_not_blank c first
    have textHead : ∀ c, text.head? = some c → isBlank c = false := by
      rw [head]
      rintro c ⟨⟩
      exact Text.isBlank_of_isPlain headPlain
    have textLast : ∀ c, (name ++ ' ' :: text).getLast? = some c → isBlank c = false := by
      rw [List.getLast?_append, List.getLast?_cons, last]
      rintro c ⟨⟩
      exact Text.isBlank_of_isPlain lastPlain
    rw [parse_of_bare nameHead textLast (clear (by decide) (by decide)) (clear (by decide) (by decide)),
      statementOf?_append hname textHead]

theorem parse_operand (hname : Plain name) {operand : List Char} (h : Plain operand) :
    SourceLine.parse (name ++ ' ' :: operand) = ⟨none, some (Text.uppercase name, operand)⟩ := by
  have single : List.intercalate [',', ' '] [operand] = operand := by simp [List.intercalate]
  have parsed := parse_operationText hname (List.forall_mem_singleton.2 h)
  have listed : operationText name [operand] = name ++ ' ' :: List.intercalate [',', ' '] [operand] := rfl
  rwa [listed, single] at parsed

theorem operandsOf_plain {operand : List Char} (h : Plain operand) : operandsOf operand = [operand] := by
  have single : List.intercalate [',', ' '] [operand] = operand := by simp [List.intercalate]
  have operands := operandsOf_intercalate (List.forall_mem_singleton.2 h)
  rwa [single] at operands

end Assembly

end Chip8
