import Chip8.Proofs.SourceText

/-! Texts up to what a reader does not see. Stripping takes the blanks of a text off and nothing else
(`exists_strip`), so blanks around the pieces of a text are lost where the pieces are stripped
(`map_strip_splitOn_strip`). Texts that differ in the case of their ASCII letters have the same capitals
(`SameLetters.uppercase`) and the same marks (`SameLetters.mem_iff`). -/

namespace Chip8

namespace Text

variable {cs ds b : List Char} {c sep : Char}

/-! ### Blanks -/

abbrev Blanks (cs : List Char) : Prop := ∀ c ∈ cs, isBlank c = true

theorem not_mem_blanks (h : Blanks b) (dark : isBlank c = false) : c ∉ b := fun member => by
  rw [h c member] at dark
  cases dark

theorem strip_blanks_append (h : Blanks b) (cs : List Char) : strip (b ++ cs) = strip cs := by
  rw [strip, stripLeft_append_blank h, strip]

theorem strip_append_blanks (h : Blanks b) (cs : List Char) : strip (cs ++ b) = strip cs := by
  unfold strip stripLeft
  rw [List.dropWhile_append]
  split
  case isTrue empty =>
    rw [List.isEmpty_iff.1 empty, List.dropWhile_eq_nil_iff.2 h]
  case isFalse => exact stripRight_append_blank h _

theorem exists_stripLeft (cs : List Char) : ∃ b, Blanks b ∧ cs = b ++ stripLeft cs :=
  ⟨cs.takeWhile isBlank, fun _ member => List.mem_takeWhile_imp member, List.takeWhile_append_dropWhile.symm⟩

theorem exists_stripRight (cs : List Char) : ∃ b, Blanks b ∧ cs = stripRight cs ++ b := by
  obtain ⟨b, blanks, split⟩ := exists_stripLeft cs.reverse
  refine ⟨b.reverse, fun c member => blanks c (List.mem_reverse.1 member), ?_⟩
  rw [stripRight, ← List.reverse_append, ← stripLeft, ← split, List.reverse_reverse]

theorem exists_strip (cs : List Char) : ∃ b b', Blanks b ∧ Blanks b' ∧ cs = b ++ (strip cs ++ b') := by
  obtain ⟨b, blanks, split⟩ := exists_stripLeft cs
  obtain ⟨b', blanks', split'⟩ := exists_stripRight (stripLeft cs)
  exact ⟨b, b', blanks, blanks', by rw [strip, ← split', ← split]⟩

theorem strip_stripLeft (cs : List Char) : strip (stripLeft cs) = strip cs := by
  obtain ⟨b, blanks, split⟩ := exists_stripLeft cs
  conv_rhs => rw [split, strip_blanks_append blanks]

theorem strip_stripRight (cs : List Char) : strip (stripRight cs) = strip cs := by
  obtain ⟨b, blanks, split⟩ := exists_stripRight cs
  conv_rhs => rw [split, strip_append_blanks blanks]

theorem mem_strip (dark : isBlank c = false) : c ∈ strip cs ↔ c ∈ cs := by
  obtain ⟨b, b', blanks, blanks', split⟩ := exists_strip cs
  conv_rhs => rw [split]
  simp [not_mem_blanks blanks dark, not_mem_blanks blanks' dark]

theorem stripLeft_append_cons (dark : isBlank c = false) (cs rest : List Char) :
    stripLeft (cs ++ c :: rest) = stripLeft cs ++ c :: rest := by
  unfold stripLeft
  rw [List.dropWhile_append]
  split
  case isTrue empty => rw [List.isEmpty_iff.1 empty, List.dropWhile_cons_of_neg (by simp [dark]), List.nil_append]
  case isFalse => rfl

/-! ### Pieces -/

theorem cut?_append (clear : sep ∉ cs) (rest : List Char) : cut? sep (cs ++ sep :: rest) = some (cs, rest) := by
  have before : ∀ c ∈ cs, (c != sep) = true := fun c member => by
    simpa using fun same : c = sep => clear (same ▸ member)
  rw [cut?, List.dropWhile_append_of_pos before, List.takeWhile_append_of_pos before,
    List.dropWhile_cons_of_neg (by simp), List.takeWhile_cons_of_neg (by simp)]
  simp

theorem splitOn_append_clear (clear : sep ∉ b) (cs : List Char) :
    ∃ init last, splitOn sep cs = init ++ [last] ∧ splitOn sep (cs ++ b) = init ++ [last ++ b] := by
  induction cs with
  | nil => exact ⟨[], [], rfl, splitOn_of_not_mem clear⟩
  | cons c cs ih =>
    obtain ⟨init, last, split, joined⟩ := ih
    by_cases here : c = sep
    · exact ⟨[] :: init, last, by rw [splitOn, if_pos here, split]; rfl,
        by rw [List.cons_append, splitOn, if_pos here, joined]; rfl⟩
    · cases init with
      | nil =>
        exact ⟨[], c :: last, by rw [splitOn, if_neg here, split]; rfl,
          by rw [List.cons_append, splitOn, if_neg here, joined]; rfl⟩
      | cons piece init =>
        exact ⟨(c :: piece) :: init, last, by rw [splitOn, if_neg here, split]; rfl,
          by rw [List.cons_append, splitOn, if_neg here, joined]; rfl⟩

theorem map_strip_splitOn_append (dark : isBlank sep = false) (h : Blanks b) (cs : List Char) :
    (splitOn sep (cs ++ b)).map strip = (splitOn sep cs).map strip := by
  obtain ⟨init, last, split, joined⟩ := splitOn_append_clear (not_mem_blanks h dark) cs
  rw [split, joined, List.map_append, List.map_append, List.map_singleton, List.map_singleton,
    strip_append_blanks h]

theorem map_strip_splitOn_prepend (dark : isBlank sep = false) (h : Blanks b) (cs : List Char) :
    (splitOn sep (b ++ cs)).map strip = (splitOn sep cs).map strip := by
  obtain ⟨piece, pieces, split⟩ := List.exists_cons_of_ne_nil (splitOn_ne_nil sep cs)
  rw [splitOn_prepend (not_mem_blanks h dark) split, split, List.map_cons, List.map_cons, strip_blanks_append h]

theorem map_strip_splitOn_strip (dark : isBlank sep = false) (cs : List Char) :
    (splitOn sep (strip cs)).map strip = (splitOn sep cs).map strip := by
  obtain ⟨b, b', blanks, blanks', split⟩ := exists_strip cs
  conv_rhs => rw [split, map_strip_splitOn_prepend dark blanks, map_strip_splitOn_append dark blanks']

/-! ### Letters -/

/-- The same text but for the case of its ASCII letters. -/
def SameLetters (cs ds : List Char) : Prop := cs.map Char.toUpper = ds.map Char.toUpper

theorem toUpper_cases (c : Char) :
    c.toUpper = c ∨ 97 ≤ c.toNat ∧ c.toNat ≤ 122 ∧ c.toUpper.toNat = c.toNat - 32 := by
  by_cases ascii : c.toNat < 128
  · exact of_ascii (P := fun c => c.toUpper = c ∨ 97 ≤ c.toNat ∧ c.toNat ≤ 122 ∧ c.toUpper.toNat = c.toNat - 32)
      (by decide +kernel) ascii
  · left
    unfold Char.toUpper
    rw [dif_neg]
    rintro ⟨-, high⟩
    exact ascii (Nat.lt_of_le_of_lt (UInt32.le_iff_toNat_le.mp high) (by decide))

theorem isBlank_toUpper (c : Char) : isBlank c.toUpper = isBlank c := by
  rcases toUpper_cases c with same | ⟨low, high, upper⟩
  · rw [same]
  · have dark {d : Char} (letter : 65 ≤ d.toNat ∧ d.toNat ≤ 122) : isBlank d = false := by
      simp only [isBlank, Bool.or_eq_false_iff, Bool.and_eq_false_iff, decide_eq_false_iff_not,
        beq_eq_false_iff_ne]
      omega
    rw [dark (by omega), dark (by omega)]

theorem uppercaseChar_toUpper (c : Char) : uppercaseChar c.toUpper = uppercaseChar c := by
  rcases toUpper_cases c with same | ⟨low, high, upper⟩
  · rw [same]
  · have again : c.toUpper.toUpper = c.toUpper := by
      rcases toUpper_cases c.toUpper with same | ⟨low', -, -⟩
      · exact same
      · omega
    rw [uppercaseChar_of_lt (by omega), uppercaseChar_of_lt (by omega), again]

namespace SameLetters

variable (h : SameLetters cs ds)
include h

theorem map_toUpper : cs.map Char.toUpper = ds.map Char.toUpper := h

theorem uppercase : uppercase cs = uppercase ds := by
  have upper (cs : List Char) : Text.uppercase (cs.map Char.toUpper) = Text.uppercase cs := by
    simp only [Text.uppercase, List.flatMap_map, uppercaseChar_toUpper]
  rw [← upper cs, ← upper ds, h.map_toUpper]

theorem mem_iff (mark : ∀ d : Char, d.toUpper = c.toUpper → d = c) : c ∈ cs ↔ c ∈ ds := by
  have upper (cs : List Char) : c ∈ cs ↔ c.toUpper ∈ cs.map Char.toUpper := by
    rw [List.mem_map]
    constructor
    · exact fun member => ⟨c, member, rfl⟩
    · rintro ⟨d, member, same⟩
      rwa [← mark d same]
  rw [upper cs, upper ds, h.map_toUpper]

theorem eq_nil_iff : cs = [] ↔ ds = [] := by
  rw [← List.map_eq_nil_iff (f := Char.toUpper), h.map_toUpper,
    List.map_eq_nil_iff]

theorem dark (dark : ∀ c ∈ cs, isBlank c = false) : ∀ d ∈ ds, isBlank d = false := by
  intro d member
  have upper : d.toUpper ∈ cs.map Char.toUpper := by
    rw [h.map_toUpper]
    exact List.mem_map_of_mem member
  obtain ⟨c, member', same⟩ := List.mem_map.1 upper
  rw [← isBlank_toUpper, ← same, isBlank_toUpper, dark c member']

theorem strip : SameLetters (strip cs) (strip ds) := by
  have left (cs : List Char) : stripLeft (cs.map Char.toUpper) = (stripLeft cs).map Char.toUpper := by
    simp only [stripLeft, List.dropWhile_map, Function.comp_def, isBlank_toUpper]
  have right (cs : List Char) : stripRight (cs.map Char.toUpper) = (stripRight cs).map Char.toUpper := by
    simp only [stripRight, ← List.map_reverse, List.dropWhile_map, Function.comp_def, isBlank_toUpper]
  unfold SameLetters Text.strip
  rw [← right, ← right, ← left, ← left, h.map_toUpper]

end SameLetters

theorem eq_of_toUpper_eq {mark : Char} (noLetter : mark.toNat < 65) {d : Char} (same : d.toUpper = mark.toUpper) :
    d = mark := by
  have fixed : mark.toUpper = mark := (toUpper_cases mark).resolve_right (by omega)
  rw [fixed] at same
  rcases toUpper_cases d with unchanged | ⟨low, -, upper⟩
  · rw [← unchanged, same]
  · rw [same] at upper
    omega

end Text

end Chip8
