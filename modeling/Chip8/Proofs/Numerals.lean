import Chip8.Assembly.Operand

/-! Hexadecimal numerals. A text of ASCII hexadecimal digits reads to its value, whatever the case of its
letters and however many zeros it starts with (`HexNumeral.readInt?`), and both ways of writing a number give
such a text of it (`hexNumeral_lower`, `hexNumeral_upper`). -/

namespace Chip8

namespace Text

open Assembly (isHexDigit)

def hexValue (c : Char) : Nat := (digitValue? .hexadecimal c).getD 0

/-- Hexadecimal digits, at least one, with their value. -/
structure HexNumeral (cs : List Char) (n : Nat) : Prop where
  ne : cs ≠ []
  digits : ∀ c ∈ cs, isHexDigit c = true
  value : ofDigits 16 (cs.map hexValue) = n

theorem toNat_of_isHexDigit {c : Char} (h : isHexDigit c = true) :
    (0x30 ≤ c.toNat ∧ c.toNat ≤ 0x39) ∨ (0x41 ≤ c.toNat ∧ c.toNat ≤ 0x46) ∨
      (0x61 ≤ c.toNat ∧ c.toNat ≤ 0x66) := by
  rw [isHexDigit, Bool.or_eq_true] at h
  rcases h with decimal | letter
  · simp only [Char.isDigit, Bool.and_eq_true, decide_eq_true_eq] at decimal
    exact .inl ⟨UInt32.le_iff_toNat_le.1 decimal.1, UInt32.le_iff_toNat_le.1 decimal.2⟩
  · unfold letterValue? at letter
    split at letter
    · rename_i low
      simp only [Bool.and_eq_true, decide_eq_true_eq] at low
      exact .inr (.inr ⟨UInt32.le_iff_toNat_le.1 low.1, UInt32.le_iff_toNat_le.1 low.2⟩)
    · split at letter
      · rename_i high
        simp only [Bool.and_eq_true, decide_eq_true_eq] at high
        exact .inr (.inl ⟨UInt32.le_iff_toNat_le.1 high.1, UInt32.le_iff_toNat_le.1 high.2⟩)
      · cases letter

theorem digitValue?_of_isHexDigit {c : Char} (h : isHexDigit c = true) :
    digitValue? .hexadecimal c = some (hexValue c) := by
  have some : (digitValue? .hexadecimal c).isSome = true := by
    unfold digitValue?
    cases decimal : decimalValue? c with
    | some d => rfl
    | none =>
      rw [isHexDigit, Bool.or_eq_true] at h
      rcases h with digit | letter
      · rw [decimalValue?_of_isDigit digit] at decimal
        cases decimal
      · exact letter
  obtain ⟨d, value⟩ := Option.isSome_iff_exists.1 some
  rw [hexValue, value, Option.getD_some]

/-- No digit is a mark of any kind to a reader of numerals. -/
theorem isHexDigit_plain {c : Char} (h : isHexDigit c = true) :
    isNumeralBlank c = false ∧ c ∉ ['_', '+', '-', 'x', 'X'] := by
  have range := toNat_of_isHexDigit h
  constructor
  · have graphic : isBlank c = false := by
      simp only [isBlank, Bool.or_eq_false_iff, Bool.and_eq_false_iff, decide_eq_false_iff_not,
        beq_eq_false_iff_ne]
      omega
    rw [isNumeralBlank, graphic, Bool.false_and]
  · intro mark
    have code : c.toNat ∈ ['_', '+', '-', 'x', 'X'].map Char.toNat := List.mem_map_of_mem mark
    simp only [List.map_cons, List.map_nil, List.mem_cons, List.not_mem_nil, or_false] at code
    rcases code with code | code | code | code | code <;>
      · rw [code] at range
        revert range
        decide

theorem ofDigits_zeros (base k : Nat) (ds : List Nat) :
    ofDigits base (List.replicate k 0 ++ ds) = ofDigits base ds := by
  induction k with
  | zero => rfl
  | succ k ih =>
    rw [List.replicate_succ, List.cons_append, ofDigits, List.foldl_cons, Nat.zero_mul]
    exact ih

theorem dropWhile_numeralBlank {cs : List Char} (dark : ∀ c ∈ cs, isNumeralBlank c = false) :
    cs.dropWhile isNumeralBlank = cs := by
  cases cs with
  | nil => rfl
  | cons c cs => simp [dark c List.mem_cons_self]

theorem readInt?_unsigned (r : Radix) {c : Char} {cs : List Char} (dark : ∀ d ∈ c :: cs, isNumeralBlank d = false)
    (sign : c ≠ '+' ∧ c ≠ '-') : readInt? r (c :: cs) = (readUnsigned? r (c :: cs)).map Int.ofNat := by
  have bare : ((c :: cs).reverse.dropWhile isNumeralBlank).reverse = c :: cs := by
    rw [dropWhile_numeralBlank fun d hd => dark d (List.mem_reverse.1 hd), List.reverse_reverse]
  rw [readInt?, dropWhile_numeralBlank dark, bare]
  exact readSigned?.eq_3 _ _ (fun _ h => sign.1 (List.cons.inj h).1) (fun _ h => sign.2 (List.cons.inj h).1)

theorem readHex_of_readInt? {cs : List Char} {n : Int} (h : readInt? .hexadecimal cs = some n) :
    Assembly.readHex cs = .ok n := by
  have read : readInt .hexadecimal cs = .ok n := by simp [readInt, countedDigits, h]
  rw [Assembly.readHex, read]
  rfl

namespace HexNumeral

variable {cs : List Char} {n : Nat}

theorem snoc (h : HexNumeral cs n) {c : Char} (digit : isHexDigit c = true) :
    HexNumeral (cs ++ [c]) (n * 16 + hexValue c) where
  ne := by simp
  digits := List.forall_mem_append.2 ⟨h.digits, by simpa using digit⟩
  value := by rw [List.map_append, List.map_singleton, ofDigits_append, h.value]

theorem padZeros (h : HexNumeral cs n) (width : Nat) : HexNumeral (Text.padZeros width cs) n where
  ne := by
    unfold Text.padZeros
    exact List.append_ne_nil_of_right_ne_nil _ h.ne
  digits := by
    refine List.forall_mem_append.2 ⟨fun c hc => ?_, h.digits⟩
    rw [List.eq_of_mem_replicate hc]
    decide
  value := by
    have zero : hexValue '0' = 0 := by decide
    rw [Text.padZeros, List.map_append, List.map_replicate, zero, ofDigits_zeros, h.value]

theorem readNat? (h : HexNumeral cs n) : Text.readNat? .hexadecimal cs = some n := by
  have read : digits? .hexadecimal cs = some (cs.map hexValue) := by
    refine digits?_eq_some h.ne fun c hc => ⟨digitValue?_of_isHexDigit (h.digits c hc), ?_⟩
    have := (isHexDigit_plain (h.digits c hc)).2
    simp only [List.mem_cons, not_or] at this
    exact this.1
  simp only [Text.readNat?, read, Option.map_some, Radix.base, h.value]

theorem readUnsigned? (h : HexNumeral cs n) : Text.readUnsigned? .hexadecimal cs = some n := by
  have unmarked : dropHexMark cs = cs := by
    match cs, h.digits with
    | [], _ | [_], _ => rfl
    | c :: d :: cs, digits =>
      have := (isHexDigit_plain (digits d (by simp))).2
      simp only [List.mem_cons, not_or] at this
      simp [dropHexMark, this]
  simp only [Text.readUnsigned?, unmarked, h.readNat?]

theorem readInt? (h : HexNumeral cs n) : Text.readInt? .hexadecimal cs = some (n : Int) := by
  obtain ⟨c, rest, rfl⟩ := List.exists_cons_of_ne_nil h.ne
  have plain := (isHexDigit_plain (h.digits c List.mem_cons_self)).2
  simp only [List.mem_cons, not_or] at plain
  rw [readInt?_unsigned .hexadecimal (fun d hd => (isHexDigit_plain (h.digits d hd)).1)
    ⟨plain.2.1, plain.2.2.1⟩, h.readUnsigned?]
  rfl

theorem readHex (h : HexNumeral cs n) : Assembly.readHex cs = .ok (n : Int) := readHex_of_readInt? h.readInt?

end HexNumeral

theorem hexNumeral_of_digits (digit : Nat → Char)
    (good : ∀ d < 16, isHexDigit (digit d) = true ∧ hexValue (digit d) = d) {write : Nat → List Char}
    (small : ∀ n < 16, write n = [digit n])
    (large : ∀ n, 16 ≤ n → write n = write (n / 16) ++ [digit (n % 16)]) (n : Nat) :
    HexNumeral (write n) n := by
  induction n using Nat.strongRecOn with
  | ind n ih =>
    by_cases less : n < 16
    · obtain ⟨hex, value⟩ := good n less
      rw [small n less]
      exact ⟨by simp, by simpa using hex, by simp [ofDigits, value]⟩
    · obtain ⟨hex, value⟩ := good (n % 16) (Nat.mod_lt _ (by decide))
      have more := (ih (n / 16) (by omega)).snoc hex
      rw [value, Nat.div_add_mod'] at more
      rw [large n (by omega)]
      exact more

theorem hexNumeral_lower (n : Nat) : HexNumeral (lowerHexDigits n) n := by
  refine hexNumeral_of_digits Nat.digitChar (by decide) (fun n less => ?_) (fun n more => ?_) n
  · exact Nat.toDigits_of_lt_base less
  · exact Nat.toDigits_of_base_le (by decide) more

theorem hexNumeral_upper (n : Nat) : HexNumeral (upperHexDigits n) n := by
  refine hexNumeral_of_digits (fun d => (Nat.digitChar d).toUpper) (by decide) (fun n less => ?_)
    (fun n more => ?_) n
  · rw [upperHexDigits, Nat.toDigits_of_lt_base less, List.map_singleton]
  · rw [upperHexDigits, Nat.toDigits_of_base_le (by decide) more, List.map_append, List.map_singleton]
    rfl

end Text

end Chip8
