import Chip8.Proofs.Decoding
import Chip8.Proofs.SourceText

/-! Operands and encoding. The operand texts of a word are classified as what they stand for, the first opcode
that they fit is that of the word, and its fields add up to the word (`encode_slots`). The other way round, an
encoded word is one of an opcode of the mnemonic, with the operand values in its fields (`encode_eq_ok`). -/

namespace Chip8

open Text (Plain HexNumeral)

theorem Text.isPlain_of_isHexDigit {c : Char} (h : Assembly.isHexDigit c = true) : isPlain c = true := by
  have range := toNat_of_isHexDigit h
  have other {mark : Char} (code : mark.toNat < 0x30 ∨ mark.toNat = 0x3a ∨ mark.toNat = 0x3b) : c ≠ mark := by
    rintro rfl
    omega
  simp only [isPlain, Bool.and_eq_true, decide_eq_true_eq, bne_iff_ne]
  exact ⟨⟨⟨by omega, other (by decide)⟩, other (by decide)⟩, other (by decide)⟩

theorem Text.HexNumeral.plain {cs : List Char} {n : Nat} (h : HexNumeral cs n) : Plain cs :=
  ⟨h.ne, fun c hc => isPlain_of_isHexDigit (h.digits c hc)⟩

theorem Text.Plain.cons {cs : List Char} (h : Plain cs) {c : Char} (plain : isPlain c = true) :
    Plain (c :: cs) :=
  ⟨List.cons_ne_nil c cs, List.forall_mem_cons.2 ⟨plain, h.chars⟩⟩

theorem Text.plain_of_all {cs : List Char} (ne : cs ≠ []) (all : cs.all isPlain = true) : Plain cs :=
  ⟨ne, List.all_eq_true.1 all⟩

theorem Mnemonic.plain_name (m : Mnemonic) : Plain m.name := by
  cases m <;> exact Text.plain_of_all (by decide) (by decide)

theorem Mnemonic.uppercase_name (m : Mnemonic) : Text.uppercase m.name = m.name := by
  have ascii : ∀ c ∈ m.name, c.toNat < 0x80 := fun c hc =>
    Nat.lt_succ_of_lt (Text.toNat_of_isPlain (m.plain_name.chars c hc)).2
  rw [Text.uppercase_of_ascii ascii]
  cases m <;> decide

theorem Keyword.plain_name (k : Keyword) : Plain k.name := by
  cases k <;> exact Text.plain_of_all (by decide) (by decide)

namespace Slot

def field (w : Nat) : Slot → Nat
  | .regX => (fieldX w).val
  | .regY => (fieldY w).val
  | .height => fieldN w
  | .byte => fieldByte w
  | .address => fieldAddress w
  | .reg0 | .keyword _ => 0

def operand (w : Nat) : Slot → Assembly.Operand
  | .regX => .register (fieldX w)
  | .regY => .register (fieldY w)
  | .height => .immediate ('$' :: digitText (fieldN w))
  | .byte => .immediate ('$' :: Text.padZeros 2 (digitText (fieldByte w)))
  | .address => .address ('$' :: Text.padZeros 3 (digitText (fieldAddress w)))
  | .reg0 => .register State.base
  | .keyword k => .keyword k

theorem plain_text (w : Nat) (slot : Slot) : Plain (slot.text w) := by
  cases slot with
  | regX => exact (Text.hexNumeral_upper _).plain.cons (by decide)
  | regY => exact (Text.hexNumeral_upper _).plain.cons (by decide)
  | height => exact ((Text.hexNumeral_upper _).plain.cons (by decide)).cons (by decide)
  | byte => exact (((Text.hexNumeral_upper _).padZeros 2).plain.cons (by decide)).cons (by decide)
  | address => exact ((Text.hexNumeral_upper _).padZeros 3).plain.cons (by decide)
  | reg0 => exact show Plain ['V', '0'] from Text.plain_of_all (by decide) (by decide)
  | keyword k => exact k.plain_name

theorem field_lt (w : Nat) (slot : Slot) : slot.field w < (Assembly.slotField slot).2 := by
  cases slot with
  | regX => exact (fieldX w).isLt
  | regY => exact (fieldY w).isLt
  | height | byte | address => exact Nat.mod_lt _ (by decide)
  | reg0 | keyword => exact Nat.one_pos

end Slot

namespace Assembly

theorem classify_register (k : Fin 16) : Operand.classify ('V' :: digitText k.val) = .register k := by
  revert k; decide

theorem classify_keyword (k : Keyword) : Operand.classify k.name = .keyword k := by
  cases k <;> decide

/-- A text that starts with a mark is neither a register nor a keyword. -/
theorem names_marked {mark : Char} (rest : List Char) (same : Text.uppercaseChar mark = [mark])
    (other : mark ∉ ['V', 'I', 'D', 'S', 'K', 'F', 'B', '[']) :
    register? (Text.uppercase (mark :: rest)) = none ∧
      Keyword.ofName? (Text.uppercase (mark :: rest)) = none := by
  have upper : Text.uppercase (mark :: rest) = mark :: Text.uppercase rest := by
    rw [Text.uppercase, List.flatMap_cons, same]
    rfl
  simp only [List.mem_cons, List.not_mem_nil, or_false, not_or] at other
  rw [upper]
  constructor
  · unfold register?
    split
    · rename_i d same
      exact absurd (List.cons.inj same).1 other.1
    · rfl
  · simp [Keyword.ofName?, Keyword.all, Keyword.name, Ne.symm, other]

theorem classify_immediate (rest : List Char) : Operand.classify ('#' :: rest) = .immediate rest := by
  obtain ⟨register, keyword⟩ := names_marked rest (show Text.uppercaseChar '#' = ['#'] by decide) (by decide)
  simp only [Operand.classify, register, keyword]

theorem classify_address (rest : List Char) : Operand.classify ('$' :: rest) = .address ('$' :: rest) := by
  obtain ⟨register, keyword⟩ := names_marked rest (show Text.uppercaseChar '$' = ['$'] by decide) (by decide)
  simp [Operand.classify, register, keyword]

theorem classify_text (w : Nat) (slot : Slot) : Operand.classify (slot.text w) = slot.operand w := by
  cases slot with
  | regX => exact classify_register _
  | regY => exact classify_register _
  | height => exact classify_immediate _
  | byte => exact classify_immediate _
  | address => exact classify_address _
  | reg0 => exact classify_register 0
  | keyword k => exact classify_keyword k

theorem valueOf_hex (symbols : Symbols) {cs : List Char} {n : Nat} (h : HexNumeral cs n) :
    valueOf symbols ('$' :: cs) = .ok (n : Int) := by
  have strip := (h.plain.cons (show Text.isPlain '$' = true by decide)).strip
  simp only [valueOf, strip, List.head?_cons, if_true, List.tail_cons, h.readHex]

theorem slotValue_immediate (symbols : Symbols) (name text : List Char) (slot : Slot) :
    slotValue symbols name slot (.immediate text) = slotValue symbols name slot (.address text) := rfl

theorem slotValue_hex (symbols : Symbols) (name : List Char) {w : Nat} {slot : Slot} {cs : List Char}
    (h : HexNumeral cs (slot.field w)) :
    slotValue symbols name slot (.address ('$' :: cs)) = .ok (slot.field w) := by
  have less := slot.field_lt w
  unfold slotValue
  dsimp only
  rw [valueOf_hex symbols h]
  dsimp only
  rw [if_pos (by omega), Int.toNat_natCast]

theorem slotValue_operand (symbols : Symbols) (name : List Char) (w : Nat) (slot : Slot) :
    slotValue symbols name slot (slot.operand w) = .ok (slot.field w) := by
  cases slot with
  | regX | regY | reg0 | keyword => rfl
  | height =>
    rw [Slot.operand, slotValue_immediate]
    exact slotValue_hex symbols name (Text.hexNumeral_upper _)
  | byte =>
    rw [Slot.operand, slotValue_immediate]
    exact slotValue_hex symbols name ((Text.hexNumeral_upper _).padZeros 2)
  | address => exact slotValue_hex symbols name ((Text.hexNumeral_upper _).padZeros 3)

theorem slotValue_eq_ok {symbols : Symbols} {name text : List Char} {slot : Slot} {v : Nat}
    (h : slotValue symbols name slot (.address text) = .ok v) : valueOf symbols text = .ok (v : Int) := by
  unfold slotValue at h
  dsimp only at h
  split at h
  · cases h
  · rename_i number read
    split at h
    · rename_i range
      cases h
      rw [read, Int.toNat_of_nonneg range.1]
    · cases h

def withFields (word : Nat) (slots : List Slot) (values : List Nat) : Nat :=
  (slots.zip values).foldl (fun sum p => sum + p.2 * (slotField p.1).1) word

theorem addFields_operands (symbols : Symbols) (name : List Char) (w : Nat) (slots : List Slot) (word : Nat) :
    addFields symbols name word slots (slots.map (Slot.operand w)) =
      .ok (withFields word slots (slots.map (Slot.field w))) := by
  induction slots generalizing word with
  | nil => rfl
  | cons slot slots ih =>
    rw [List.map_cons, addFields, slotValue_operand]
    exact ih _

/-- The fields of a word, on top of what its pattern fixes, are the word. -/
theorem withFields_fields {op : Opcode} {w : Nat} (small : w < 65536) (fits : op.Fits w) :
    withFields op.base op.slots (op.slots.map (Slot.field w)) = w := by
  cases op <;> simp [Opcode.Fits, Opcode.digits] at fits <;>
    simp [withFields, Opcode.slots, Opcode.base, Opcode.digits, Slot.field, slotField, fieldX, fieldY, fieldN,
      fieldByte, fieldAddress] <;> omega

/-- The opcode of a word is the first one that its operands fit. -/
theorem find?_operands (op : Opcode) (w : Nat) :
    (candidates op.mnemonic).find? (fun other => fitAll (op.slots.map (Slot.operand w)) other.slots) =
      some op := by
  cases op <;> rfl

theorem encode_slots (symbols : Symbols) {op : Opcode} {w : Nat} (small : w < 65536) (fits : op.Fits w) :
    encode symbols op.mnemonic.name (List.intercalate [',', ' '] (op.slots.map (Slot.text w))) = .ok w := by
  have operands : operandsOf (List.intercalate [',', ' '] (op.slots.map (Slot.text w))) =
      op.slots.map (Slot.text w) :=
    operandsOf_intercalate fun p hp => by
      obtain ⟨slot, -, rfl⟩ := List.mem_map.1 hp
      exact slot.plain_text w
  have classified : (op.slots.map (Slot.text w)).map Operand.classify = op.slots.map (Slot.operand w) := by
    rw [List.map_map]
    exact List.map_congr_left fun slot _ => classify_text w slot
  rw [encode, Mnemonic.ofName?_name]
  dsimp only
  rw [operands, classified, find?_operands]
  dsimp only
  rw [addFields_operands, withFields_fields small fits]

theorem slotValue_lt {symbols : Symbols} {name : List Char} {slot : Slot} {o : Operand} {v : Nat}
    (fits : o.fits slot = true) (h : slotValue symbols name slot o = .ok v) : v < (slotField slot).2 := by
  unfold slotValue at h
  cases o with
  | register k =>
    cases h
    cases slot with
    | regX | regY => exact k.isLt
    | reg0 => exact Nat.one_pos
    | height | byte | address | keyword => cases fits
  | keyword k =>
    cases h
    cases slot with
    | keyword => exact Nat.one_pos
    | regX | regY | reg0 | height | byte | address => cases fits
  | immediate text | address text =>
    dsimp only at h
    split at h
    · cases h
    · split at h
      · rename_i range
        cases h
        omega
      · cases h

/-- Operands that fit slots, with values that fit the fields. -/
inductive Filled (symbols : Symbols) (name : List Char) : List Operand → List Slot → List Nat → Prop
  | nil : Filled symbols name [] [] []
  | cons {o : Operand} {slot : Slot} {v : Nat} {os : List Operand} {slots : List Slot} {values : List Nat}
    (fits : o.fits slot = true) (value : slotValue symbols name slot o = .ok v)
    (rest : Filled symbols name os slots values) : Filled symbols name (o :: os) (slot :: slots) (v :: values)

theorem addFields_eq_ok {symbols : Symbols} {name : List Char} {slots : List Slot} {os : List Operand}
    (fits : fitAll os slots = true) {word w : Nat} (h : addFields symbols name word slots os = .ok w) :
    ∃ values, Filled symbols name os slots values ∧ w = withFields word slots values := by
  induction os generalizing slots word with
  | nil =>
    cases slots with
    | nil =>
      cases h
      exact ⟨[], .nil, rfl⟩
    | cons => cases fits
  | cons o os ih =>
    cases slots with
    | nil => cases fits
    | cons slot slots =>
      rw [fitAll, Bool.and_eq_true] at fits
      rw [addFields] at h
      cases value : slotValue symbols name slot o with
      | error why =>
        rw [value] at h
        cases h
      | ok v =>
        rw [value] at h
        obtain ⟨values, filled, sum⟩ := ih fits.2 h
        exact ⟨v :: values, .cons fits.1 value filled, sum⟩

/-- Values that fit the fields of an opcode make a word of it that has them in its fields. -/
theorem fields_withFields {op : Opcode} {values : List Nat}
    (small : List.Forall₂ (fun slot v => v < (slotField slot).2) op.slots values) :
    op.Fits (withFields op.base op.slots values) ∧ withFields op.base op.slots values < 65536 ∧
      op.slots.map (Slot.field (withFields op.base op.slots values)) = values := by
  -- By the number of slots, since each brings a value and its bound.
  cases op with
  | clearScreen | ret =>
    cases small
    simp [Opcode.Fits, Opcode.digits, withFields, Opcode.base, Opcode.slots]
  | jump | call | skipPressed | skipReleased =>
    simp only [Opcode.slots, List.forall₂_cons_left_iff, List.forall₂_nil_left_iff, slotField] at small
    obtain ⟨a, _, less, rfl, rfl⟩ := small
    simp [Opcode.Fits, Opcode.digits, withFields, Opcode.base, Opcode.slots, slotField, Slot.field, fieldX,
      fieldAddress]
    omega
  | draw =>
    simp only [Opcode.slots, List.forall₂_cons_left_iff, List.forall₂_nil_left_iff, slotField] at small
    obtain ⟨a, _, less, ⟨b, _, less', ⟨c, _, less'', rfl, rfl⟩, rfl⟩, rfl⟩ := small
    simp [Opcode.Fits, Opcode.digits, withFields, Opcode.base, Opcode.slots, slotField, Slot.field, fieldX,
      fieldY, fieldN]
    omega
  | _ =>
    simp only [Opcode.slots, List.forall₂_cons_left_iff, List.forall₂_nil_left_iff, slotField] at small
    obtain ⟨a, _, less, ⟨b, _, less', rfl, rfl⟩, rfl⟩ := small
    simp [Opcode.Fits, Opcode.digits, withFields, Opcode.base, Opcode.slots, slotField, Slot.field, fieldX,
      fieldY, fieldByte, fieldAddress]
    omega

variable {symbols : Symbols} {name : List Char} {os : List Operand} {slots : List Slot} {values : List Nat}

theorem Filled.small (h : Filled symbols name os slots values) :
    List.Forall₂ (fun slot v => v < (slotField slot).2) slots values := by
  induction h with
  | nil => exact .nil
  | cons fits value _ ih => exact .cons (slotValue_lt fits value) ih

theorem Filled.value (h : Filled symbols name os slots values) {j : Nat} {o : Operand}
    (operand : os[j]? = some o) :
    ∃ slot v, slots[j]? = some slot ∧ values[j]? = some v ∧ o.fits slot = true ∧
      slotValue symbols name slot o = .ok v := by
  induction h generalizing j with
  | nil => cases operand
  | @cons first slot v os slots values fits value rest ih =>
    cases j with
    | zero =>
      cases operand
      exact ⟨slot, v, rfl, rfl, fits, value⟩
    | succ j => exact ih operand

/-- What an encoded word is: a word of an opcode of the mnemonic whose slots the operands fit, with their
values in its fields. -/
theorem encode_eq_ok {text : List Char} {w : Nat} (h : encode symbols name text = .ok w) :
    ∃ op : Opcode, op.mnemonic.name = name ∧ op.Fits w ∧ w < 65536 ∧
      Filled symbols name ((operandsOf text).map Operand.classify) op.slots
        (op.slots.map (Slot.field w)) := by
  unfold encode at h
  split at h
  · cases h
  · rename_i m named
    dsimp only at h
    split at h
    · cases h
    · rename_i op found
      have mnemonic : op.mnemonic = m := by
        have member := List.mem_of_find?_eq_some found
        simpa [candidates] using (List.mem_filter.1 member).2
      have name_eq : m.name = name := by
        simpa using List.find?_some named
      have fits : fitAll ((operandsOf text).map Operand.classify) op.slots = true := by
        simpa using List.find?_some found
      obtain ⟨values, filled, rfl⟩ := addFields_eq_ok fits h
      obtain ⟨ofOpcode, less, fields⟩ := fields_withFields filled.small
      refine ⟨op, by rw [mnemonic, name_eq], ofOpcode, less, ?_⟩
      rw [fields]
      exact filled

end Assembly

end Chip8
