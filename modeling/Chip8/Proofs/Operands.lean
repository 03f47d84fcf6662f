import Chip8.Proofs.Encoding
import Chip8.Proofs.Passes

/-! What operands say. A text spells a register, a keyword, or a number with the mark of an immediate or without
one (`Spells`); a slot takes some of these (`Suits`). No operands suit two opcodes of one mnemonic
(`eq_of_suits`), so the words of an instruction are those that decode to its mnemonic with the numbers of its
operands in their fields (`encode_exact`). -/

namespace Chip8

def Slot.bits : Slot → Nat
  | .regX | .regY | .height => 4
  | .byte => 8
  | .address => 12
  | .reg0 | .keyword _ => 0

theorem Keyword.ofName?_eq_some_iff {name : List Char} {k : Keyword} :
    Keyword.ofName? name = some k ↔ name = k.name := by
  constructor
  · intro found
    have same : k.name = name := by simpa using List.find?_some found
    exact same.symm
  · rintro rfl
    exact k.ofName?_name

namespace Assembly

theorem slotField_snd (slot : Slot) : (slotField slot).2 = 2 ^ slot.bits := by
  cases slot <;> rfl

theorem register?_eq_some_iff {name : List Char} {k : Fin 16} :
    register? name = some k ↔ name = 'V' :: digitText k.val := by
  constructor
  · intro found
    unfold register? at found
    split at found
    · have same := List.find?_some found
      rw [beq_iff_eq] at same
      rw [same]
    · cases found
  · rintro rfl
    revert k
    decide

/-- The operand that a text spells, in letters of either case. -/
inductive Spells : List Char → Operand → Prop
  | register {text : List Char} {k : Fin 16} (name : Text.uppercase text = 'V' :: digitText k.val) :
    Spells text (.register k)
  | keyword {text : List Char} {k : Keyword} (name : Text.uppercase text = k.name) : Spells text (.keyword k)
  | immediate (rest : List Char) : Spells ('#' :: rest) (.immediate rest)
  | address {text : List Char} (noRegister : ∀ k : Fin 16, Text.uppercase text ≠ 'V' :: digitText k.val)
    (noKeyword : ∀ k : Keyword, Text.uppercase text ≠ k.name) (unmarked : text.head? ≠ some '#') :
    Spells text (.address text)

/-- The operands that a slot takes. The mark of an immediate may be left out, an address has none. -/
inductive Suits : Operand → Slot → Prop
  | x (k : Fin 16) : Suits (.register k) .regX
  | y (k : Fin 16) : Suits (.register k) .regY
  | base : Suits (.register State.base) .reg0
  | keyword (k : Keyword) : Suits (.keyword k) (.keyword k)
  | marked {slot : Slot} (text : List Char) (immediate : slot = .byte ∨ slot = .height) :
    Suits (.immediate text) slot
  | unmarked {slot : Slot} (text : List Char) (number : slot = .byte ∨ slot = .height ∨ slot = .address) :
    Suits (.address text) slot

/-- The number of an operand. A keyword has no field, so it counts nothing. -/
def Operand.amount (symbols : Symbols) : Operand → Except SourceFault Int
  | .register k => .ok k.val
  | .keyword _ => .ok 0
  | .immediate text | .address text => valueOf symbols text

theorem classify_eq_iff {text : List Char} {o : Operand} : Operand.classify text = o ↔ Spells text o := by
  constructor
  · rintro rfl
    unfold Operand.classify
    dsimp only
    split
    · rename_i named
      exact .register (register?_eq_some_iff.1 named)
    · rename_i unnamed
      have noRegister : ∀ k : Fin 16, Text.uppercase text ≠ 'V' :: digitText k.val := by
        intro k name
        rw [register?_eq_some_iff.2 name] at unnamed
        cases unnamed
      split
      · rename_i named
        exact .keyword (Keyword.ofName?_eq_some_iff.1 named)
      · rename_i unknown
        have noKeyword : ∀ k : Keyword, Text.uppercase text ≠ k.name := by
          intro k name
          rw [Keyword.ofName?_eq_some_iff.2 name] at unknown
          cases unknown
        split
        · exact .immediate _
        · rename_i unmarked
          refine .address noRegister noKeyword ?_
          intro mark
          obtain ⟨rest, rfl⟩ := List.head?_eq_some_iff.1 mark
          exact unmarked rest rfl
  · intro spelled
    induction spelled with
    | register name => simp only [Operand.classify, register?_eq_some_iff.2 name]
    | @keyword text k name =>
      have unnamed : register? (Text.uppercase text) = none := by
        rw [name]
        cases k <;> rfl
      simp only [Operand.classify, unnamed, Keyword.ofName?_eq_some_iff.2 name]
    | immediate rest => exact classify_immediate rest
    | @address text noRegister noKeyword unmarked =>
      have unnamed : register? (Text.uppercase text) = none :=
        Option.eq_none_iff_forall_ne_some.2 fun k named => noRegister k (register?_eq_some_iff.1 named)
      have unknown : Keyword.ofName? (Text.uppercase text) = none :=
        Option.eq_none_iff_forall_ne_some.2 fun k named => noKeyword k (Keyword.ofName?_eq_some_iff.1 named)
      simp only [Operand.classify, unnamed, unknown]
      split
      · exact absurd rfl unmarked
      · rfl

theorem fits_iff {o : Operand} {slot : Slot} : o.fits slot = true ↔ Suits o slot := by
  constructor
  · intro fits
    cases o with
    | register k =>
      cases slot with
      | regX => exact .x k
      | regY => exact .y k
      | reg0 =>
        have zero : k = State.base := Fin.ext (eq_of_beq fits)
        rw [zero]
        exact .base
      | height | byte | address | keyword => cases fits
    | keyword k =>
      cases slot with
      | keyword k' =>
        have same : k = k' := eq_of_beq fits
        rw [same]
        exact .keyword k'
      | regX | regY | reg0 | height | byte | address => cases fits
    | immediate text =>
      cases slot with
      | byte => exact .marked text (.inl rfl)
      | height => exact .marked text (.inr rfl)
      | regX | regY | reg0 | address | keyword => cases fits
    | address text =>
      cases slot with
      | byte => exact .unmarked text (.inl rfl)
      | height => exact .unmarked text (.inr (.inl rfl))
      | address => exact .unmarked text (.inr (.inr rfl))
      | regX | regY | reg0 | keyword => cases fits
  · intro suits
    induction suits with
    | x | y | base => rfl
    | keyword k => exact beq_self_eq_true k
    | marked text immediate => rcases immediate with rfl | rfl <;> rfl
    | unmarked text number => rcases number with rfl | rfl | rfl <;> rfl

theorem fitAll_iff {os : List Operand} {slots : List Slot} :
    fitAll os slots = true ↔ List.Forall₂ Suits os slots := by
  induction os generalizing slots with
  | nil => cases slots <;> simp [fitAll]
  | cons o os ih =>
    cases slots with
    | nil => simp [fitAll]
    | cons slot slots => simp [fitAll, fits_iff, ih]

/-! ### One opcode -/

inductive Kind
  | register
  | number
  | keyword (k : Keyword)
  deriving DecidableEq

def Operand.kind : Operand → Kind
  | .register _ => .register
  | .immediate _ | .address _ => .number
  | .keyword k => .keyword k

def kindOf : Slot → Kind
  | .regX | .regY | .reg0 => .register
  | .byte | .height | .address => .number
  | .keyword k => .keyword k

theorem Suits.kind {o : Operand} {slot : Slot} (h : Suits o slot) : o.kind = kindOf slot := by
  induction h with
  | x | y | base | keyword => rfl
  | marked text immediate => rcases immediate with rfl | rfl <;> rfl
  | unmarked text number => rcases number with rfl | rfl | rfl <;> rfl

def form (op : Opcode) : Mnemonic × List Kind := (op.mnemonic, op.slots.map kindOf)

theorem nodup_form : (Opcode.all.map form).Nodup := by decide

theorem kinds_of_suits {os : List Operand} {slots : List Slot} (h : List.Forall₂ Suits os slots) :
    os.map Operand.kind = slots.map kindOf := by
  induction h with
  | nil => rfl
  | cons suits _ ih => rw [List.map_cons, List.map_cons, suits.kind, ih]

/-- No operands suit two opcodes of one mnemonic. -/
theorem eq_of_suits {os : List Operand} {op op' : Opcode} (same : op.mnemonic = op'.mnemonic)
    (h : List.Forall₂ Suits os op.slots) (h' : List.Forall₂ Suits os op'.slots) : op = op' := by
  apply List.inj_on_of_nodup_map nodup_form op.mem_all op'.mem_all
  rw [form, form, same, ← kinds_of_suits h, ← kinds_of_suits h']

theorem mem_candidates {m : Mnemonic} {op : Opcode} : op ∈ candidates m ↔ op.mnemonic = m := by
  simp [candidates, Opcode.mem_all]

/-- In whatever order the opcodes of a mnemonic stand, the first one that operands suit is the only one. -/
theorem find?_of_suits {m : Mnemonic} {table : List Opcode} (order : table.Perm (candidates m))
    {os : List Operand} {op : Opcode} (mnemonic : op.mnemonic = m) (suits : List.Forall₂ Suits os op.slots) :
    table.find? (fun other => fitAll os other.slots) = some op := by
  cases found : table.find? fun other => fitAll os other.slots with
  | none =>
    have member : op ∈ table := order.mem_iff.2 (mem_candidates.2 mnemonic)
    exact absurd (fitAll_iff.2 suits) (List.find?_eq_none.1 found op member)
  | some other =>
    have member := mem_candidates.1 (order.mem_iff.1 (List.mem_of_find?_eq_some found))
    have fits : fitAll os other.slots = true := by simpa using List.find?_some found
    rw [eq_of_suits (member.trans mnemonic.symm) (fitAll_iff.1 fits) suits]

theorem find?_perm {m : Mnemonic} {table : List Opcode} (order : table.Perm (candidates m))
    (os : List Operand) :
    table.find? (fun op => fitAll os op.slots) = (candidates m).find? fun op => fitAll os op.slots := by
  cases found : (candidates m).find? fun op => fitAll os op.slots with
  | none =>
    apply List.find?_eq_none.2
    intro op member
    exact List.find?_eq_none.1 found op (order.mem_iff.1 member)
  | some op =>
    have fits : fitAll os op.slots = true := by simpa using List.find?_some found
    exact find?_of_suits order (mem_candidates.1 (List.mem_of_find?_eq_some found)) (fitAll_iff.1 fits)

/-! ### Values -/

def inField (name : List Char) (slot : Slot) (v : Int) : Except SourceFault Nat :=
  if 0 ≤ v ∧ v < 2 ^ slot.bits then .ok v.toNat else .error (.outOfRange v name)

variable {symbols : Symbols} {name : List Char}

theorem slotValue_eq {o : Operand} {slot : Slot} (suits : Suits o slot) :
    slotValue symbols name slot o = o.amount symbols >>= inField name slot := by
  have width : ((slotField slot).2 : Int) = 2 ^ slot.bits := by
    rw [slotField_snd]
    exact Nat.cast_pow 2 slot.bits
  have number (text : List Char) :
      slotValue symbols name slot (.address text) = valueOf symbols text >>= inField name slot := by
    unfold slotValue inField
    rw [← width]
    dsimp only
    split
    · rename_i failed
      rw [failed]
      rfl
    · rename_i v value
      rw [value]
      rfl
  induction suits with
  | x k | y k =>
    have small : (0 : Int) ≤ k.val ∧ (k.val : Int) < 2 ^ 4 := by omega
    exact (if_pos small).symm
  | base | keyword => rfl
  | marked text => exact (slotValue_immediate _ _ _ _).trans (number text)
  | unmarked text => exact number text

theorem inField_eq_ok {slot : Slot} {v : Int} (range : 0 ≤ v ∧ v < 2 ^ slot.bits) :
    inField name slot v = .ok v.toNat := if_pos range

theorem inField_eq_error {slot : Slot} {v : Int} (outside : ¬ (0 ≤ v ∧ v < 2 ^ slot.bits)) :
    inField name slot v = .error (.outOfRange v name) := if_neg outside

def Takes (text : List Char) (slot : Slot) : Prop := ∃ o, Spells text o ∧ Suits o slot

def Stands (symbols : Symbols) (text : List Char) (slot : Slot) (v : Int) : Prop :=
  ∃ o, Spells text o ∧ Suits o slot ∧ o.amount symbols = .ok v

/-- A text that a slot takes, with a number that its field holds. -/
def Holds (symbols : Symbols) (text : List Char) (slot : Slot) : Prop :=
  ∃ v, Stands symbols text slot v ∧ 0 ≤ v ∧ v < 2 ^ slot.bits

theorem takes_iff {text : List Char} {slot : Slot} : Takes text slot ↔ Suits (Operand.classify text) slot := by
  constructor
  · rintro ⟨o, spells, suits⟩
    rwa [classify_eq_iff.2 spells]
  · intro suits
    exact ⟨_, classify_eq_iff.1 rfl, suits⟩

theorem stands_iff {text : List Char} {slot : Slot} {v : Int} :
    Stands symbols text slot v ↔
      Suits (Operand.classify text) slot ∧ (Operand.classify text).amount symbols = .ok v := by
  constructor
  · rintro ⟨o, spells, stands⟩
    rwa [classify_eq_iff.2 spells]
  · intro stands
    exact ⟨_, classify_eq_iff.1 rfl, stands⟩

theorem forall₂_takes_iff {texts : List (List Char)} {slots : List Slot} :
    List.Forall₂ Takes texts slots ↔ List.Forall₂ Suits (texts.map Operand.classify) slots := by
  rw [List.forall₂_map_left_iff]
  constructor
  · apply List.Forall₂.imp
    intro text slot takes
    exact takes_iff.1 takes
  · apply List.Forall₂.imp
    intro text slot suits
    exact takes_iff.2 suits

theorem Stands.slotValue (name : List Char) {text : List Char} {slot : Slot} {v : Int}
    (h : Stands symbols text slot v) :
    slotValue symbols name slot (Operand.classify text) = inField name slot v := by
  obtain ⟨suits, amount⟩ := stands_iff.1 h
  rw [slotValue_eq suits, amount]
  rfl

theorem stands_of_slotValue {text : List Char} {slot : Slot} {n : Nat}
    (suits : Suits (Operand.classify text) slot)
    (value : Assembly.slotValue symbols name slot (Operand.classify text) = .ok n) :
    Stands symbols text slot n ∧ n < 2 ^ slot.bits := by
  rw [slotValue_eq suits] at value
  obtain ⟨v, amount, value⟩ := bind_eq_ok value
  unfold inField at value
  split at value
  · rename_i range
    cases value
    have natural := Int.toNat_of_nonneg range.1
    refine ⟨stands_iff.2 ⟨suits, by rw [amount, natural]⟩, ?_⟩
    have less := range.2
    rw [← natural] at less
    exact_mod_cast less
  · cases value

/-! ### The whole instruction -/

theorem Filled.suits {os : List Operand} {slots : List Slot} {values : List Nat}
    (h : Filled symbols name os slots values) : List.Forall₂ Suits os slots := by
  induction h with
  | nil => exact .nil
  | cons fits _ _ ih => exact .cons (fits_iff.1 fits) ih

theorem Filled.sum {os : List Operand} {slots : List Slot} {values : List Nat}
    (h : Filled symbols name os slots values) (word : Nat) :
    addFields symbols name word slots os = .ok (withFields word slots values) := by
  induction h generalizing word with
  | nil => rfl
  | cons _ value _ ih =>
    rw [addFields, value]
    exact ih _

theorem exists_filled (name : List Char) {texts : List (List Char)} {slots : List Slot}
    (h : List.Forall₂ (Holds symbols) texts slots) :
    ∃ values, Filled symbols name (texts.map Operand.classify) slots values := by
  induction h with
  | nil => exact ⟨[], .nil⟩
  | @cons text slot texts slots holds _ ih =>
    obtain ⟨v, stands, range⟩ := holds
    obtain ⟨values, filled⟩ := ih
    refine ⟨v.toNat :: values, .cons ?_ ?_ filled⟩
    · exact fits_iff.2 (stands_iff.1 stands).1
    · rw [stands.slotValue name, inField_eq_ok range]

theorem filled_iff {texts : List (List Char)} {slots : List Slot} {field : Slot → Nat} :
    Filled symbols name (texts.map Operand.classify) slots (slots.map field) ↔
      List.Forall₂ (fun text slot => Stands symbols text slot (field slot) ∧ field slot < 2 ^ slot.bits)
        texts slots := by
  constructor
  · intro filled
    induction texts generalizing slots with
    | nil =>
      cases slots with
      | nil => exact .nil
      | cons => cases filled
    | cons text texts ih =>
      cases slots with
      | nil => cases filled
      | cons slot slots =>
        cases filled with
        | cons fits value rest => exact .cons (stands_of_slotValue (fits_iff.1 fits) value) (ih rest)
  · intro stand
    induction stand with
    | nil => exact .nil
    | @cons text slot texts slots stands _ ih =>
      obtain ⟨stands, less⟩ := stands
      refine .cons (fits_iff.2 (stands_iff.1 stands).1) ?_ ih
      rw [stands.slotValue name, inField_eq_ok ⟨by omega, by exact_mod_cast less⟩]
      rfl

/-- The first number that its field does not hold is the one that is reported. -/
theorem addFields_outOfRange {os : List Operand} {slots : List Slot} {j : Nat} {values : List Nat}
    (before : Filled symbols name (os.take j) (slots.take j) values) {o : Operand} {slot : Slot}
    (operand : os[j]? = some o) (position : slots[j]? = some slot) {why : SourceFault}
    (bad : slotValue symbols name slot o = .error why) (word : Nat) :
    addFields symbols name word slots os = .error why := by
  induction j generalizing os slots values word with
  | zero =>
    rw [← List.head?_eq_getElem?, List.head?_eq_some_iff] at operand position
    obtain ⟨os, rfl⟩ := operand
    obtain ⟨slots, rfl⟩ := position
    rw [addFields, bad]
  | succ j ih =>
    cases os with
    | nil => cases operand
    | cons first os =>
      cases slots with
      | nil => cases position
      | cons slot' slots =>
        cases before with
        | cons _ value rest =>
          rw [addFields, value]
          exact ih rest operand position _

theorem encode_of_suits {text : List Char} {op : Opcode} (mnemonic : op.mnemonic.name = name)
    (suits : List.Forall₂ Suits ((operandsOf text).map Operand.classify) op.slots) :
    encode symbols name text =
      addFields symbols name op.base op.slots ((operandsOf text).map Operand.classify) := by
  have found := find?_of_suits (List.Perm.refl _) (rfl : op.mnemonic = op.mnemonic) suits
  rw [encode, ← mnemonic, Mnemonic.ofName?_name]
  dsimp only
  rw [found]

/-- The encoding of an instruction with the opcodes of each mnemonic in some order. -/
def encodeAmong (order : Mnemonic → List Opcode) (symbols : Symbols) (name text : List Char) :
    Except SourceFault Nat :=
  match Mnemonic.ofName? name with
  | none => .error (.unknownMnemonic name)
  | some m =>
    let operands := (operandsOf text).map Operand.classify
    match (order m).find? fun op => fitAll operands op.slots with
    | none => .error (.invalidOperands name text)
    | some op => addFields symbols name op.base op.slots operands

theorem encodeAmong_candidates : encodeAmong candidates = encode := rfl

theorem encodeAmong_perm {order : Mnemonic → List Opcode} (perm : ∀ m, (order m).Perm (candidates m)) :
    encodeAmong order = encode := by
  funext symbols name text
  rw [← encodeAmong_candidates, encodeAmong, encodeAmong]
  cases Mnemonic.ofName? name with
  | none => rfl
  | some m =>
    dsimp only
    rw [find?_perm (perm m)]

/-- A word that denotes an instruction: it decodes to an opcode of the mnemonic, with the numbers that the operands
stand for in its fields. -/
structure Denotes (symbols : Symbols) (name : List Char) (texts : List (List Char)) (op : Opcode)
    (w : Nat) : Prop where
  small : w < 65536
  instruction : Instruction.ofWord? w = some ⟨op, w⟩
  mnemonic : op.mnemonic.name = name
  fields : List.Forall₂ (fun text slot => Stands symbols text slot (slot.field w) ∧ slot.field w < 2 ^ slot.bits)
    texts op.slots

theorem Denotes.fits {texts : List (List Char)} {op : Opcode} {w : Nat} (h : Denotes symbols name texts op w) :
    op.Fits w := by
  have decoded := h.instruction
  rw [Instruction.ofWord?, Option.map_eq_some_iff] at decoded
  obtain ⟨op', found, same⟩ := decoded
  cases same
  exact Opcode.fits_of_ofWord? found

theorem Denotes.filled {texts : List (List Char)} {op : Opcode} {w : Nat} (h : Denotes symbols name texts op w) :
    Filled symbols name (texts.map Operand.classify) op.slots (op.slots.map (Slot.field w)) :=
  filled_iff.2 h.fields

theorem denotes_of_filled {texts : List (List Char)} {op : Opcode} {w : Nat} (small : w < 65536)
    (fits : op.Fits w) (mnemonic : op.mnemonic.name = name)
    (filled : Filled symbols name (texts.map Operand.classify) op.slots (op.slots.map (Slot.field w))) :
    Denotes symbols name texts op w := by
  refine ⟨small, ?_, mnemonic, filled_iff.1 filled⟩
  rw [Instruction.ofWord?, Opcode.ofWord?_of_fits fits, Option.map_some]

theorem Denotes.reported {texts : List (List Char)} {op : Opcode} {w : Nat} (h : Denotes symbols name texts op w) :
    Operation.ofWord w = Operation.ofInstruction ⟨op, w⟩ ∧ (Operation.ofWord w).isUnknown = false ∧
      (Operation.ofWord w).mnemonic = String.ofList name := by
  have word : wordOf w = w := by
    have small := h.small
    unfold wordOf
    omega
  have decoded : Operation.ofWord w = Operation.ofInstruction ⟨op, w⟩ := by
    simp only [Operation.ofWord, word, h.instruction]
  refine ⟨decoded, ?_⟩
  rw [decoded, ← h.mnemonic]
  cases op <;> exact ⟨rfl, rfl⟩

/-- A word is the encoding of an instruction exactly if it denotes the instruction. -/
theorem encode_eq_ok_iff {text : List Char} {w : Nat} :
    encode symbols name text = .ok w ↔ ∃ op, Denotes symbols name (operandsOf text) op w := by
  constructor
  · intro encoded
    obtain ⟨op, mnemonic, fits, small, filled⟩ := encode_eq_ok encoded
    exact ⟨op, denotes_of_filled small fits mnemonic filled⟩
  · rintro ⟨op, denotes⟩
    rw [encode_of_suits denotes.mnemonic denotes.filled.suits, denotes.filled.sum,
      withFields_fields denotes.small denotes.fits]

theorem exists_denotes {texts : List (List Char)} {op : Opcode} (mnemonic : op.mnemonic.name = name)
    (holds : List.Forall₂ (Holds symbols) texts op.slots) : ∃ w, Denotes symbols name texts op w := by
  obtain ⟨values, filled⟩ := exists_filled name holds
  obtain ⟨fits, small, fields⟩ := fields_withFields filled.small
  refine ⟨_, denotes_of_filled small fits mnemonic ?_⟩
  rwa [fields]

theorem Stands.eq {text : List Char} {slot : Slot} {v v' : Int} (h : Stands symbols text slot v)
    (h' : Stands symbols text slot v') : v = v' := by
  have same := (stands_iff.1 h).2.symm.trans (stands_iff.1 h').2
  exact Except.ok.inj same

theorem Denotes.opcode {texts : List (List Char)} {op op' : Opcode} {w : Nat}
    (h : Denotes symbols name texts op' w) (mnemonic : op.mnemonic.name = name)
    (takes : List.Forall₂ Takes texts op.slots) : op' = op := by
  have same : op'.mnemonic = op.mnemonic := by
    apply Option.some.inj
    rw [← Mnemonic.ofName?_name, ← Mnemonic.ofName?_name, h.mnemonic, mnemonic]
  exact eq_of_suits same h.filled.suits (forall₂_takes_iff.1 takes)

/-- **Encoding.** Operands are what stands between commas, less the blanks around it. The encoding of an instruction is
the word that decodes to its mnemonic with the numbers of its operands in their fields, and there is one if an opcode
of the mnemonic takes the operands and its fields hold their numbers. A number that its field does not hold is refused.
No operands are taken by two opcodes of a mnemonic, so the order in which these are tried makes no difference. -/
theorem encode_exact (symbols : Symbols) (name text : List Char) :
    (∀ pieces : List (List Char), pieces ≠ [] → (∀ q ∈ pieces, ',' ∉ q) → text = List.intercalate [','] pieces →
      operandsOf text = if pieces.map Text.strip = [[]] then [] else pieces.map Text.strip) ∧
    (∀ w, encode symbols name text = .ok w ↔ ∃ op, Denotes symbols name (operandsOf text) op w) ∧
    (∀ op w, Denotes symbols name (operandsOf text) op w →
      Operation.ofWord w = Operation.ofInstruction ⟨op, w⟩ ∧ (Operation.ofWord w).isUnknown = false ∧
        (Operation.ofWord w).mnemonic = String.ofList name) ∧
    (∀ op : Opcode, op.mnemonic.name = name → List.Forall₂ (Holds symbols) (operandsOf text) op.slots →
      ∃ w, encode symbols name text = .ok w ∧ Denotes symbols name (operandsOf text) op w) ∧
    (∀ op : Opcode, op.mnemonic.name = name → List.Forall₂ Takes (operandsOf text) op.slots →
      ∀ (j : Nat) (o : List Char) (slot : Slot) (v : Int), (operandsOf text)[j]? = some o →
        op.slots[j]? = some slot → Stands symbols o slot v → ¬ (0 ≤ v ∧ v < 2 ^ slot.bits) →
        ∃ why, encode symbols name text = .error why ∧
          (List.Forall₂ (Holds symbols) ((operandsOf text).take j) (op.slots.take j) →
            why = .outOfRange v name)) ∧
    (∀ (texts : List (List Char)) (op op' : Opcode), op.mnemonic = op'.mnemonic →
      List.Forall₂ Takes texts op.slots → List.Forall₂ Takes texts op'.slots → op = op') ∧
    (∀ order : Mnemonic → List Opcode, (∀ m, (order m).Perm (candidates m)) →
      encodeAmong order symbols name text = encode symbols name text) := by
  refine ⟨?_, fun w => encode_eq_ok_iff, ?_, ?_, ?_, ?_, ?_⟩
  · rintro pieces ne clear rfl
    exact operandsOf_pieces (List.forall_mem_nil _) ne clear
  · intro op w denotes
    exact denotes.reported
  · intro op mnemonic holds
    obtain ⟨w, denotes⟩ := exists_denotes mnemonic holds
    exact ⟨w, encode_eq_ok_iff.2 ⟨op, denotes⟩, denotes⟩
  · intro op mnemonic takes j o slot v operand position stands outside
    have bad := (stands.slotValue name).trans (inField_eq_error outside)
    cases encoded : encode symbols name text with
    | error why =>
      refine ⟨why, rfl, ?_⟩
      intro before
      obtain ⟨values, filled⟩ := exists_filled name before
      rw [List.map_take] at filled
      rw [encode_of_suits mnemonic (forall₂_takes_iff.1 takes),
        addFields_outOfRange filled (by rw [List.getElem?_map, operand]; rfl) position bad] at encoded
      exact (Except.error.inj encoded).symm
    | ok w =>
      -- The word would hold the number in the field of the slot.
      obtain ⟨op', denotes⟩ := encode_eq_ok_iff.1 encoded
      cases denotes.opcode mnemonic takes
      obtain ⟨inside, rfl⟩ := List.getElem?_eq_some_iff.1 operand
      obtain ⟨inside', rfl⟩ := List.getElem?_eq_some_iff.1 position
      obtain ⟨held, less⟩ := denotes.fields.get inside inside'
      rw [stands.eq held] at outside
      exact absurd ⟨Int.natCast_nonneg _, by exact_mod_cast less⟩ outside
  · intro texts op op' same takes takes'
    exact eq_of_suits same (forall₂_takes_iff.1 takes) (forall₂_takes_iff.1 takes')
  · intro order perm
    rw [encodeAmong_perm perm]

/-- Operands in small letters, with blanks and a tab around the comma. -/
theorem encode_exact_spaced :
    encode [] "LD".toList " v1 ,\t0x1F ".toList = .ok 0x611F ∧
      Denotes [] "LD".toList ["v1".toList, "0x1F".toList] .loadByte 0x611F := by
  obtain ⟨read, sound, -⟩ := encode_exact [] "LD".toList " v1 ,\t0x1F ".toList
  have operands := read [" v1 ".toList, "\t0x1F ".toList] (by simp) (by decide) rfl
  have encoded : encode [] "LD".toList " v1 ,\t0x1F ".toList = .ok 0x611F := by decide
  have stripped : [" v1 ".toList, "\t0x1F ".toList].map Text.strip = ["v1".toList, "0x1F".toList] := by decide
  rw [stripped, if_neg (by decide)] at operands
  obtain ⟨op, denotes⟩ := (sound 0x611F).1 encoded
  have decoded : Instruction.ofWord? 0x611F = some ⟨.loadByte, 0x611F⟩ := rfl
  cases decoded.symm.trans denotes.instruction
  rw [operands] at denotes
  exact ⟨encoded, denotes⟩

end Assembly

end Chip8
