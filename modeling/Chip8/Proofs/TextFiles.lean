import Chip8.Proofs.SourceText
import Chip8.Text.TextFile

/-! Text files in parts. Bytes that can be read go on to be read in the same way whatever follows them
(`decodeFrom_append`), their last line goes on with the first line of what follows (`linesOf_append`), and a file
that cannot be read to its end has only lines of the text before the fault (`lines_prefix`). -/

namespace Chip8.Text

theorem readTail_append {ok : UInt8 → Bool} {n : Nat} {bytes tail : List UInt8} (h : readTail ok n bytes = .ok tail)
    (rest : List UInt8) : readTail ok n (bytes ++ rest) = .ok tail ∧ n ≤ bytes.length := by
  induction n generalizing ok bytes tail with
  | zero => exact ⟨h, Nat.zero_le _⟩
  | succ n ih =>
    cases bytes with
    | nil => cases h
    | cons b bytes =>
      rw [List.cons_append]
      simp only [readTail] at h ⊢
      split at h
      · rename_i good
        rw [if_pos good]
        cases later : readTail isContinuation n bytes with
        | ok tail' =>
          rw [later] at h
          obtain ⟨same, enough⟩ := ih later
          rw [same]
          exact ⟨h, Nat.succ_le_succ enough⟩
        | error why =>
          rw [later] at h
          cases h
      · cases h

theorem readChar_append {a : UInt8} {bytes : List UInt8} {c : Char} {skip : Nat} (h : readChar a bytes = .ok (c, skip))
    (rest : List UInt8) : readChar a (bytes ++ rest) = .ok (c, skip) ∧ skip ≤ bytes.length := by
  cases bytes with
  | nil =>
    unfold readChar at h ⊢
    dsimp only at h ⊢
    split_ifs at h ⊢ <;> cases h
    exact ⟨rfl, Nat.le_refl 0⟩
  | cons b bytes =>
    have surrogate : startsSurrogate a (b :: bytes ++ rest) = startsSurrogate a (b :: bytes) := rfl
    unfold readChar at h ⊢
    dsimp only at h ⊢
    rw [surrogate]
    split_ifs at h ⊢
    · cases h
      exact ⟨rfl, Nat.zero_le _⟩
    all_goals
      split at h
      · rename_i tail read
        cases h
        obtain ⟨same, enough⟩ := readTail_append read rest
        rw [same]
        exact ⟨rfl, enough⟩
      · cases h

/-- Bytes that can be read are read in the same way before others, which are read from there on. -/
theorem decodeFrom_append {offset skip : Nat} {bytes : List UInt8} {cs : List Char}
    (h : decodeFrom offset skip bytes = (cs, none)) (within : skip ≤ bytes.length) (rest : List UInt8) :
    decodeFrom offset skip (bytes ++ rest) =
      (cs ++ (decodeFrom (offset + bytes.length) 0 rest).1, (decodeFrom (offset + bytes.length) 0 rest).2) := by
  induction bytes generalizing offset skip cs with
  | nil =>
    obtain rfl := Nat.le_zero.1 within
    cases h
    rfl
  | cons a bytes ih =>
    have next : offset + (a :: bytes).length = offset + 1 + bytes.length := by
      rw [List.length_cons]
      omega
    rw [List.cons_append, next]
    cases skip with
    | succ skip =>
      rw [decodeFrom] at h ⊢
      exact ih h (Nat.le_of_succ_le_succ within)
    | zero =>
      rw [decodeFrom] at h ⊢
      cases first : readChar a bytes with
      | error why =>
        rw [first] at h
        cases h
      | ok result =>
        obtain ⟨c, skip⟩ := result
        obtain ⟨same, enough⟩ := readChar_append first rest
        rw [first] at h
        rw [same]
        cases later : decodeFrom (offset + 1) skip bytes with
        | mk cs' fault =>
          simp only [later, Prod.mk.injEq] at h
          obtain ⟨rfl, rfl⟩ := h
          simp only [ih later enough, List.cons_append]

/-! ### Lines -/

/-- Line ends are unified on both sides of a place that is not within one. -/
theorem unifyLineEnds_append {before after : List Char}
    (apart : before.getLast? = some '\r' → after.head? ≠ some '\n') :
    unifyLineEnds (before ++ after) = unifyLineEnds before ++ unifyLineEnds after := by
  induction before using unifyLineEnds.induct with
  | case1 => rfl
  | case2 cs ih =>
    have later : unifyLineEnds (cs ++ after) = unifyLineEnds cs ++ unifyLineEnds after := by
      refine ih fun last => apart ?_
      rw [List.getLast?_cons_cons, List.getLast?_cons, last, Option.getD_some]
    rw [List.cons_append, List.cons_append, unifyLineEnds, unifyLineEnds, later, List.cons_append]
  | case3 c cs alone ih =>
    have alone' : ∀ ds, c = '\r' → cs ++ after = '\n' :: ds → False := by
      intro ds same next
      cases cs with
      | nil =>
        rw [List.nil_append] at next
        exact apart (by rw [same, List.getLast?_singleton]) (by rw [next, List.head?_cons])
      | cons d cs =>
        obtain ⟨rfl, -⟩ := List.cons.inj next
        exact alone cs same rfl
    have later : unifyLineEnds (cs ++ after) = unifyLineEnds cs ++ unifyLineEnds after := by
      refine ih fun last => apart ?_
      rw [List.getLast?_cons, last, Option.getD_some]
    rw [List.cons_append, unifyLineEnds.eq_3 c (cs ++ after) alone', unifyLineEnds.eq_3 c cs alone, later,
      List.cons_append]

theorem splitOn_join {sep : Char} {us vs piece piece' : List Char} {pieces pieces' : List (List Char)}
    (first : splitOn sep us = pieces ++ [piece]) (second : splitOn sep vs = piece' :: pieces') :
    splitOn sep (us ++ vs) = pieces ++ (piece ++ piece') :: pieces' := by
  induction us generalizing pieces piece with
  | nil =>
    obtain ⟨rfl, rfl⟩ : pieces = [] ∧ piece = [] := by
      rcases pieces with _ | ⟨p, pieces⟩
      · simpa [splitOn] using first.symm
      · simp [splitOn] at first
    exact second
  | cons c us ih =>
    rw [List.cons_append]
    rw [splitOn] at first ⊢
    by_cases here : c = sep
    · rw [if_pos here] at first ⊢
      rcases pieces with _ | ⟨p, pieces⟩
      · obtain ⟨-, none⟩ := List.cons.inj first
        exact absurd none (splitOn_ne_nil sep us)
      · obtain ⟨rfl, rest⟩ := List.cons.inj first
        rw [ih rest]
        rfl
    · rw [if_neg here] at first ⊢
      cases rest : splitOn sep us with
      | nil => exact absurd rest (splitOn_ne_nil sep us)
      | cons q qs =>
        rw [rest] at first
        rcases pieces with _ | ⟨p, pieces⟩
        · obtain ⟨rfl, rfl⟩ := List.cons.inj first
          rw [@ih _ [] rest]
          rfl
        · obtain ⟨rfl, rfl⟩ := List.cons.inj first
          rw [@ih _ (q :: pieces) rest]
          rfl

theorem linesOf_append {before after piece piece' : List Char} {lines lines' : List (List Char)}
    (apart : before.getLast? = some '\r' → after.head? ≠ some '\n') (first : linesOf before = lines ++ [piece])
    (second : linesOf after = piece' :: lines') : linesOf (before ++ after) = lines ++ (piece ++ piece') :: lines' := by
  rw [linesOf, unifyLineEnds_append apart]
  exact splitOn_join first second

def textLines (bytes : List UInt8) : List (List Char) := linesOf (decodeUtf8 bytes).1

theorem linesOf_ne_nil (cs : List Char) : linesOf cs ≠ [] := splitOn_ne_nil _ _

/-- The complete lines of a text are lines of any longer text. -/
theorem dropLast_linesOf_prefix {before after : List Char}
    (apart : before.getLast? = some '\r' → after.head? ≠ some '\n') :
    (linesOf before).dropLast <+: linesOf (before ++ after) := by
  obtain ⟨piece', lines', second⟩ := List.exists_cons_of_ne_nil (linesOf_ne_nil after)
  have first := (List.dropLast_append_getLast (linesOf_ne_nil before)).symm
  rw [linesOf_append apart first second]
  exact List.prefix_append _ _

theorem dropOpenReturn_prefix {cs rest : List Char} :
    (linesOf (dropOpenReturn cs)).dropLast <+: linesOf (cs ++ rest) := by
  unfold dropOpenReturn
  split
  · rename_i last
    obtain ⟨before, rfl⟩ := List.getLast?_eq_some_iff.1 last
    rw [List.dropLast_concat, List.append_assoc]
    exact dropLast_linesOf_prefix fun _ next => nomatch next
  · rename_i last
    exact dropLast_linesOf_prefix fun same => absurd same last

/-- The lines of a file are those of its text, or the first of them if there is a fault. -/
theorem lines_ofBytes (bytes : List UInt8) :
    (TextFile.ofBytes bytes).lines = textLines bytes ∨
      (TextFile.ofBytes bytes).fault ≠ none ∧ (TextFile.ofBytes bytes).lines <+: textLines bytes := by
  unfold TextFile.ofBytes textLines
  rcases decodeUtf8 bytes with ⟨cs, _ | fault⟩
  · exact .inl rfl
  · obtain ⟨rest, whole⟩ := charsWithin_fst_prefix (fault.block bytes.length) cs
    refine .inr ⟨nofun, ?_⟩
    dsimp only
    conv_rhs => rw [← whole]
    exact dropOpenReturn_prefix

/-- A byte of ASCII that is no line end, behind bytes that can be read: its character stands on the last line of those,
and what follows it does not depend on it. -/
theorem textLines_ascii {front : List UInt8} (readable : (decodeUtf8 front).2 = none) {lines : List (List Char)}
    {piece : List Char} (last : textLines front = lines ++ [piece]) (back : List UInt8) :
    ∃ rest later, ∀ b : UInt8, b < 0x80 → Char.ofNat b.toNat ≠ '\r' → Char.ofNat b.toNat ≠ '\n' →
      textLines (front ++ b :: back) = lines ++ (piece ++ Char.ofNat b.toNat :: rest) :: later := by
  obtain ⟨rest, later, second⟩ :=
    List.exists_cons_of_ne_nil (linesOf_ne_nil (decodeFrom (front.length + 1) 0 back).1)
  refine ⟨rest, later, fun b ascii notReturn notFeed => ?_⟩
  have read : decodeUtf8 front = ((decodeUtf8 front).1, none) := Prod.ext rfl readable
  have one : readChar b back = .ok (Char.ofNat b.toNat, 0) := by rw [readChar, if_pos ascii]
  have chars : (decodeUtf8 (front ++ b :: back)).1 =
      (decodeUtf8 front).1 ++ Char.ofNat b.toNat :: (decodeFrom (front.length + 1) 0 back).1 := by
    rw [decodeUtf8, decodeFrom_append read (Nat.zero_le _), Nat.zero_add, decodeFrom, one]
  have line : linesOf (Char.ofNat b.toNat :: (decodeFrom (front.length + 1) 0 back).1) =
      (Char.ofNat b.toNat :: rest) :: later := by
    rw [linesOf] at second
    rw [linesOf, unifyLineEnds.eq_3 _ _ fun _ same => absurd same notReturn, if_neg notReturn, splitOn,
      if_neg notFeed, second]
  rw [textLines, chars]
  exact linesOf_append (fun _ next => notFeed (Option.some.inj next)) last line

end Chip8.Text
