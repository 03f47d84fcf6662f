import Chip8.Proofs.Encoding
import Chip8.Proofs.Letters

/-! The notations of a number: hexadecimal digits behind a dollar sign, behind the mark 0x or before an h, and
decimal digits (`Writes`). The tests that tell them apart exclude each other (`NumberForm.accepts_iff`), so their
order does not matter, and a text is read in the form that it has before symbols count (`valueOf_eq`). All texts
of a number are read as that number, whatever labels there are (`numberForms_agree`). -/

namespace Chip8

namespace Text

open Assembly (isHexDigit)

/-! ### Decimal numerals -/

theorem isHexDigit_of_isDigit {c : Char} (h : c.isDigit = true) : isHexDigit c = true := by
  rw [isHexDigit, h, Bool.true_or]

section Decimal

variable {cs : List Char} (ne : cs ≠ []) (digits : ∀ c ∈ cs, c.isDigit = true)
include ne digits

theorem digits?_decimal : digits? .decimal cs = some (cs.map fun c => c.toNat - '0'.toNat) := by
  refine digits?_eq_some ne fun c hc => ⟨?_, ?_⟩
  · rw [digitValue?, decimalValue?_of_isDigit (digits c hc)]
    rfl
  · rintro rfl
    exact absurd (digits '_' hc) (by decide)

theorem readNat?_decimal : readNat? .decimal cs = some (Nat.ofDigitChars 10 cs 0) := by
  have value : ofDigits 10 (cs.map fun c => c.toNat - '0'.toNat) = Nat.ofDigitChars 10 cs 0 := by
    simp only [ofDigits, List.foldl_map, Nat.ofDigitChars, Nat.mul_comm]
  rw [readNat?, digits?_decimal ne digits, Option.map_some, Radix.base, value]

theorem countedDigits_decimal : countedDigits .decimal cs = cs.length := by
  have bare : cs.dropWhile isNumeralBlank = cs :=
    dropWhile_numeralBlank fun c hc => (isHexDigit_plain (isHexDigit_of_isDigit (digits c hc))).1
  have unsigned : dropSign cs = cs := by
    unfold dropSign
    split
    · exact absurd (digits '+' List.mem_cons_self) (by decide)
    · exact absurd (digits '-' List.mem_cons_self) (by decide)
    · rfl
  have run : cs.takeWhile (fun c => c == '_' || (decimalValue? c).isSome) = cs := by
    rw [List.takeWhile_eq_self_iff]
    intro c hc
    rw [decimalValue?_of_isDigit (digits c hc), Option.isSome_some, Bool.or_true]
  rw [countedDigits, bare, unsigned, leadingDigits, run, digits?_decimal ne digits, Option.getD_some,
    List.length_map]

theorem readInt_decimal (limit : Option Nat) :
    readInt .decimal cs limit =
      if limit.any (· < cs.length) then .error (.tooLong cs.length) else .ok (Nat.ofDigitChars 10 cs 0) := by
  obtain ⟨c, rest, rfl⟩ := List.exists_cons_of_ne_nil ne
  have plain (d : Char) (hd : d ∈ c :: rest) := isHexDigit_plain (isHexDigit_of_isDigit (digits d hd))
  have sign := (plain c List.mem_cons_self).2
  simp only [List.mem_cons, not_or] at sign
  have read : readInt? .decimal (c :: rest) = some (Nat.ofDigitChars 10 (c :: rest) 0 : Int) := by
    rw [readInt?_unsigned .decimal (fun d hd => (plain d hd).1) ⟨sign.2.1, sign.2.2.1⟩, readUnsigned?,
      readNat?_decimal ne digits]
    rfl
  rw [readInt, countedDigits_decimal ne digits, read]

end Decimal

/-! ### Hexadecimal numerals -/

theorem toUpper_isHexDigit (c : Char) : isHexDigit c.toUpper = isHexDigit c ∧ hexValue c.toUpper = hexValue c := by
  rcases toUpper_cases c with same | ⟨-, high, -⟩
  · rw [same]
    exact ⟨rfl, rfl⟩
  · exact of_ascii (P := fun c => isHexDigit c.toUpper = isHexDigit c ∧ hexValue c.toUpper = hexValue c)
      (by decide +kernel) (Nat.lt_of_le_of_lt high (by decide))

/-- The hexadecimal digits of a number, with any zeros before them and letters of either case. -/
def HexDigits (n : Nat) (ds : List Char) : Prop :=
  ∃ zeros, SameLetters ds (List.replicate zeros '0' ++ Nat.toDigits 16 n)

theorem HexNumeral.sameLetters {cs ds : List Char} {n : Nat} (h : HexNumeral ds n) (same : SameLetters cs ds) :
    HexNumeral cs n where
  ne := fun empty => h.ne (same.eq_nil_iff.1 empty)
  digits := by
    have upper (cs : List Char) : (cs.map Char.toUpper).all isHexDigit = cs.all isHexDigit := by
      simp only [List.all_map, Function.comp_def, toUpper_isHexDigit]
    rw [← List.all_eq_true, ← upper, same.map_toUpper, upper, List.all_eq_true]
    exact h.digits
  value := by
    have upper (cs : List Char) : (cs.map Char.toUpper).map hexValue = cs.map hexValue := by
      simp only [List.map_map, Function.comp_def, toUpper_isHexDigit]
    rw [← upper, same.map_toUpper, upper, h.value]

theorem HexDigits.numeral {n : Nat} {ds : List Char} (h : HexDigits n ds) : HexNumeral ds n := by
  obtain ⟨zeros, same⟩ := h
  have padded := (hexNumeral_lower n).padZeros (zeros + (lowerHexDigits n).length)
  rw [padZeros, Nat.add_sub_cancel] at padded
  exact padded.sameLetters same

theorem HexNumeral.readInt?_marked {ds : List Char} {n : Nat} (h : HexNumeral ds n) {x : Char}
    (mark : x = 'x' ∨ x = 'X') : Text.readInt? .hexadecimal ('0' :: x :: ds) = some (n : Int) := by
  have dark : ∀ d ∈ '0' :: x :: ds, isNumeralBlank d = false := by
    rw [List.forall_mem_cons, List.forall_mem_cons]
    refine ⟨by decide, ?_, fun d hd => (isHexDigit_plain (h.digits d hd)).1⟩
    rcases mark with rfl | rfl <;> decide
  have unmarked : dropHexMark ('0' :: x :: ds) = ds := by
    unfold dropHexMark
    dsimp only
    rw [if_pos ⟨by decide, mark⟩]
    split
    · exact absurd (h.digits '_' List.mem_cons_self) (by decide)
    · rfl
  rw [readInt?_unsigned .hexadecimal dark (by decide), Text.readUnsigned?, unmarked, h.readNat?]
  rfl

end Text

namespace Assembly

open Text (hasHexMark HexDigits HexNumeral Plain SameLetters Blanks)

/-! ### The forms of a number -/

inductive NumberForm
  | dollar
  | marked
  | suffixed
  | decimal
  deriving DecidableEq

def NumberForm.accepts : NumberForm → List Char → Bool
  | dollar, text => text.head? == some '$'
  | marked, text => hasHexMark text
  | suffixed, text => hasHexSuffix text
  | decimal, text => isDecimal text

def NumberForm.read (limit : Option Nat) : NumberForm → List Char → Except SourceFault Int
  | dollar, text => readHex text.tail
  | marked, text => readHex text
  | suffixed, text => readHex text.dropLast
  | decimal, text => (Text.readInt .decimal text limit).mapError .numeral

/-- The texts of a number in each form: its digits with any zeros before them, letters in either case. Digits with
an h behind them begin with a decimal one. -/
inductive Writes : NumberForm → Nat → List Char → Prop
  | dollar {n : Nat} {ds : List Char} (digits : HexDigits n ds) : Writes .dollar n ('$' :: ds)
  | marked {n : Nat} {ds : List Char} {x : Char} (mark : x = 'x' ∨ x = 'X') (digits : HexDigits n ds) :
    Writes .marked n ('0' :: x :: ds)
  | suffixed {n : Nat} {d : Char} {ds : List Char} {h : Char} (first : d.isDigit = true)
    (digits : HexDigits n (d :: ds)) (mark : h = 'h' ∨ h = 'H') : Writes .suffixed n (d :: ds ++ [h])
  | decimal (zeros n : Nat) : Writes .decimal n (List.replicate zeros '0' ++ Nat.toDigits 10 n)

theorem exists_writes (f : NumberForm) (n : Nat) : ∃ text, Writes f n text := by
  cases f with
  | dollar => exact ⟨_, .dollar ⟨0, rfl⟩⟩
  | marked => exact ⟨_, .marked (.inl rfl) ⟨0, rfl⟩⟩
  -- a zero in front, for the digits may begin with a letter
  | suffixed => exact ⟨_, .suffixed (d := '0') (by decide) ⟨1, rfl⟩ (.inl rfl)⟩
  | decimal => exact ⟨_, .decimal 0 n⟩

/-! ### The tests -/

variable {text : List Char}

theorem hasHexMark_iff :
    hasHexMark text = true ↔ ∃ x rest, text = '0' :: x :: rest ∧ (x = 'x' ∨ x = 'X') := by
  constructor
  · intro marked
    unfold hasHexMark at marked
    split at marked
    · rename_i x rest
      exact ⟨x, rest, rfl, by simpa using marked⟩
    · cases marked
  · rintro ⟨x, rest, rfl, mark⟩
    simpa [hasHexMark] using mark

theorem hasHexSuffix_iff :
    hasHexSuffix text = true ↔ ∃ d ds h, text = d :: (ds ++ [h]) ∧ d.isDigit = true ∧
      (∀ c ∈ ds, isHexDigit c = true) ∧ (h = 'h' ∨ h = 'H') := by
  constructor
  · intro suffix
    cases text with
    | nil => cases suffix
    | cons d rest =>
      simp only [hasHexSuffix, Bool.and_eq_true, Bool.or_eq_true, beq_iff_eq, List.all_eq_true] at suffix
      obtain ⟨⟨first, last⟩, digits⟩ := suffix
      rcases List.eq_nil_or_concat rest with rfl | ⟨ds, h, rfl⟩
      · simp at last
      · rw [List.concat_eq_append] at last digits ⊢
        rw [List.getLast?_concat, Option.some_inj, Option.some_inj] at last
        rw [List.dropLast_concat] at digits
        exact ⟨d, ds, h, rfl, first, digits, last⟩
  · rintro ⟨d, ds, h, rfl, first, digits, mark⟩
    simpa [hasHexSuffix, first, mark] using digits

theorem isDecimal_iff : isDecimal text = true ↔ text ≠ [] ∧ ∀ c ∈ text, c.isDigit = true := by
  simp [isDecimal]

/-- The x of a mark is no digit, and it is not the h at the end. -/
theorem not_hasHexMark_of_hasHexSuffix (suffix : hasHexSuffix text = true) : ¬ hasHexMark text = true := by
  intro marked
  obtain ⟨d, ds, h, rfl, -, digits, final⟩ := hasHexSuffix_iff.1 suffix
  obtain ⟨x, rest, same, mark⟩ := hasHexMark_iff.1 marked
  -- there may be no digit but the first, and then the x would be the h
  have second : x ∈ ds ++ [h] := by
    rw [(List.cons.inj same).2]
    exact List.mem_cons_self
  rcases List.mem_append.1 second with digit | last
  · rcases mark with rfl | rfl <;> exact absurd (digits _ digit) (by decide)
  · rw [List.mem_singleton.1 last] at mark
    rcases final with rfl | rfl <;> revert mark <;> decide

theorem not_hasHexMark_of_isDecimal (decimal : isDecimal text = true) : ¬ hasHexMark text = true := by
  intro marked
  obtain ⟨x, rest, rfl, mark⟩ := hasHexMark_iff.1 marked
  have digit := (isDecimal_iff.1 decimal).2 x (by simp)
  rcases mark with rfl | rfl <;> exact absurd digit (by decide)

theorem not_hasHexSuffix_of_isDecimal (decimal : isDecimal text = true) : ¬ hasHexSuffix text = true := by
  intro suffix
  obtain ⟨d, ds, h, rfl, -, -, final⟩ := hasHexSuffix_iff.1 suffix
  have digit := (isDecimal_iff.1 decimal).2 h (by simp)
  rcases final with rfl | rfl <;> exact absurd digit (by decide)

namespace NumberForm

/-- The form that a text is taken for: the tests in the order in which they are made. -/
def of? (text : List Char) : Option NumberForm :=
  if text.head? = some '$' then some dollar
  else if hasHexMark text then some marked
  else if hasHexSuffix text then some suffixed
  else if isDecimal text then some decimal
  else none

variable {f g : NumberForm}

theorem head?_ne_of_accepts (accepted : f.accepts text = true) (other : f ≠ dollar) : text.head? ≠ some '$' := by
  have digit : ∃ d rest, text = d :: rest ∧ d.isDigit = true := by
    cases f with
    | dollar => exact absurd rfl other
    | marked =>
      obtain ⟨x, rest, rfl, -⟩ := hasHexMark_iff.1 accepted
      exact ⟨'0', x :: rest, rfl, by decide⟩
    | suffixed =>
      obtain ⟨d, ds, h, rfl, first, -⟩ := hasHexSuffix_iff.1 accepted
      exact ⟨d, ds ++ [h], rfl, first⟩
    | decimal =>
      obtain ⟨ne, digits⟩ := isDecimal_iff.1 accepted
      obtain ⟨d, rest, rfl⟩ := List.exists_cons_of_ne_nil ne
      exact ⟨d, rest, rfl, digits d List.mem_cons_self⟩
  obtain ⟨d, rest, rfl, digit⟩ := digit
  intro dollar
  obtain rfl : d = '$' := by simpa using dollar
  exact absurd digit (by decide)

/-- The tests exclude each other, so that none hides behind an earlier one. -/
theorem accepts_iff : f.accepts text = true ↔ of? text = some f := by
  constructor
  · intro accepted
    unfold of?
    cases f with
    | dollar => exact if_pos (by simpa [accepts] using accepted)
    | marked =>
      rw [if_neg (head?_ne_of_accepts accepted nofun)]
      exact if_pos accepted
    | suffixed =>
      rw [if_neg (head?_ne_of_accepts accepted nofun), if_neg (not_hasHexMark_of_hasHexSuffix accepted)]
      exact if_pos accepted
    | decimal =>
      rw [if_neg (head?_ne_of_accepts accepted nofun), if_neg (not_hasHexMark_of_isDecimal accepted),
        if_neg (not_hasHexSuffix_of_isDecimal accepted)]
      exact if_pos accepted
  · intro taken
    unfold of? at taken
    split_ifs at taken with dollar mark suffix decimal
    · cases taken
      simpa [accepts] using dollar
    · cases taken
      exact mark
    · cases taken
      exact suffix
    · cases taken
      exact decimal

theorem eq_of_accepts (first : f.accepts text = true) (second : g.accepts text = true) : f = g :=
  Option.some.inj ((accepts_iff.1 first).symm.trans (accepts_iff.1 second))

end NumberForm

/-- A text is read in the form that it has, and a symbol is looked up only if it has none. -/
theorem valueOf_eq (symbols : Symbols) (text : List Char) (limit : Option Nat) :
    valueOf symbols text limit =
      (NumberForm.of? (Text.strip text)).elim
        ((symbols.address? (String.ofList (Text.strip text))).elim (.error (.undefined (Text.strip text))) .ok)
        fun f => f.read limit (Text.strip text) := by
  unfold valueOf NumberForm.of?
  dsimp only
  split_ifs
  · rfl
  · rfl
  · rfl
  · rfl
  · cases symbols.address? (String.ofList (Text.strip text)) <;> rfl

/-! ### The texts of a number -/

theorem isDecimal_digits (zeros n : Nat) : isDecimal (List.replicate zeros '0' ++ Nat.toDigits 10 n) = true := by
  refine isDecimal_iff.2 ⟨List.append_ne_nil_of_right_ne_nil _ Nat.toDigits_ne_nil, fun c hc => ?_⟩
  rcases List.mem_append.1 hc with zero | digit
  · rw [List.eq_of_mem_replicate zero]
    decide
  · exact Nat.isDigit_of_mem_toDigits (by decide) (by decide) digit

theorem ofDigitChars_digits (zeros n : Nat) :
    Nat.ofDigitChars 10 (List.replicate zeros '0' ++ Nat.toDigits 10 n) 0 = n := by
  rw [Nat.ofDigitChars_append, Nat.ofDigitChars_replicate_zero, Nat.mul_zero,
    Nat.ofDigitChars_toDigits (by decide) (by decide)]

namespace Writes

variable {f g : NumberForm} {n m : Nat}

theorem plain (h : Writes f n text) : Plain text := by
  cases h with
  | dollar digits => exact digits.numeral.plain.cons (by decide)
  | marked mark digits =>
    refine (digits.numeral.plain.cons ?_).cons (by decide)
    rcases mark with rfl | rfl <;> decide
  | suffixed first digits mark =>
    refine ⟨List.cons_ne_nil _ _, ?_⟩
    rw [List.forall_mem_append, List.forall_mem_singleton]
    refine ⟨digits.numeral.plain.chars, ?_⟩
    rcases mark with rfl | rfl <;> decide
  | decimal zeros =>
    obtain ⟨ne, digits⟩ := isDecimal_iff.1 (isDecimal_digits zeros n)
    exact ⟨ne, fun c hc => Text.isPlain_of_isHexDigit (Text.isHexDigit_of_isDigit (digits c hc))⟩

theorem accepts (h : Writes f n text) : f.accepts text = true := by
  cases h with
  | dollar => rfl
  | @marked _ ds x mark => exact hasHexMark_iff.2 ⟨x, ds, rfl, mark⟩
  | @suffixed _ d ds final first digits mark =>
    exact hasHexSuffix_iff.2
      ⟨d, ds, final, rfl, first, fun c hc => digits.numeral.digits c (List.mem_cons_of_mem d hc), mark⟩
  | decimal zeros => exact isDecimal_digits zeros n

theorem read (h : Writes f n text) (limit : Option Nat) :
    f.read limit text =
      if f = .decimal ∧ limit.any (· < text.length) then .error (.numeral (.tooLong text.length)) else .ok n := by
  cases h with
  | dollar digits =>
    rw [if_neg fun long => nomatch long.1]
    exact digits.numeral.readHex
  | marked mark digits =>
    rw [if_neg fun long => nomatch long.1]
    exact Text.readHex_of_readInt? (digits.numeral.readInt?_marked mark)
  | suffixed first digits mark =>
    rw [if_neg fun long => nomatch long.1]
    rw [NumberForm.read, List.dropLast_concat]
    exact digits.numeral.readHex
  | decimal zeros =>
    obtain ⟨ne, digits⟩ := isDecimal_iff.1 (isDecimal_digits zeros n)
    rw [NumberForm.read, Text.readInt_decimal ne digits, ofDigitChars_digits]
    by_cases long : limit.any (· < (List.replicate zeros '0' ++ Nat.toDigits 10 n).length)
    · rw [if_pos long, if_pos ⟨rfl, long⟩]
      rfl
    · rw [if_neg long, if_neg fun h => long h.2]
      rfl

theorem strip_padded (h : Writes f n text) {before after : List Char} (blank : Blanks before)
    (blank' : Blanks after) : Text.strip (before ++ text ++ after) = text := by
  rw [Text.strip_append_blanks blank', Text.strip_blanks_append blank, h.plain.strip]

/-- No text is written in two forms or for two numbers. -/
theorem unique (h : Writes f n text) (h' : Writes g m text) : g = f ∧ m = n := by
  obtain rfl : g = f := NumberForm.eq_of_accepts h'.accepts h.accepts
  have same := (h'.read none).symm.trans (h.read none)
  simp only [Option.any_none, Bool.false_eq_true, and_false, if_false, Except.ok.injEq, Int.natCast_inj] at same
  exact ⟨rfl, same⟩

end Writes

/-- Every number has texts in each form. With blanks around it such a text is read as the number whatever labels
there are, the text itself among them; where the digits have a limit, decimal ones can be too many. No other form
takes the text, and it is a text of no other number. -/
theorem numberForms_agree (f : NumberForm) (n : Nat) :
    (∃ text, Writes f n text) ∧
      ∀ text before after : List Char, Writes f n text → Blanks before → Blanks after →
        (∀ symbols, valueOf symbols (before ++ text ++ after) none = .ok n) ∧
        (∀ symbols limit, valueOf symbols (before ++ text ++ after) limit =
          if f = .decimal ∧ limit.any (· < text.length) then .error (.numeral (.tooLong text.length)) else .ok n) ∧
        (∀ g, g.accepts (Text.strip (before ++ text ++ after)) = true ↔ g = f) ∧
        ∀ g m, Writes g m text → g = f ∧ m = n := by
  refine ⟨exists_writes f n, fun text before after h blank blank' => ?_⟩
  have bare := h.strip_padded blank blank'
  have value (symbols : Symbols) (limit : Option Nat) :
      valueOf symbols (before ++ text ++ after) limit = f.read limit text := by
    rw [valueOf_eq, bare, NumberForm.accepts_iff.1 h.accepts]
    rfl
  refine ⟨fun symbols => ?_, fun symbols limit => ?_, fun g => ?_, fun g m other => h.unique other⟩
  · rw [value, h.read, if_neg (by simp)]
  · rw [value, h.read]
  · rw [bare]
    exact ⟨fun taken => NumberForm.eq_of_accepts taken h.accepts, fun same => same ▸ h.accepts⟩

/-- The number 177 before an h, where labels have the text and its digits as names. -/
theorem numberForms_agree_labelled :
    Writes .suffixed 177 ['0', 'B', '1', 'h'] ∧ Blanks [' ', '\t'] ∧ Blanks ['\n'] ∧
      valueOf [("0B1h", 7), ("0B1", 8)] [' ', '\t', '0', 'B', '1', 'h', '\n'] none = .ok 177 ∧
      NumberForm.marked.accepts ['0', 'B', '1', 'h'] = false := by
  have digits : HexDigits 177 ['0', 'B', '1'] := ⟨1, by unfold SameLetters; decide⟩
  have written : Writes .suffixed 177 ('0' :: (['B', '1'] ++ ['h'])) := .suffixed (by decide) digits (.inl rfl)
  have blank : Blanks [' ', '\t'] := List.forall_mem_cons.2 ⟨rfl, List.forall_mem_singleton.2 rfl⟩
  have blank' : Blanks ['\n'] := List.forall_mem_singleton.2 rfl
  have agree := (numberForms_agree .suffixed 177).2 _ _ _ written blank blank'
  exact ⟨written, blank, blank', agree.1 _, rfl⟩

end Assembly

end Chip8
