import Chip8.Proofs.Encoding
import Chip8.Proofs.Passes

/-! Labels. What was assembled is laid out line by line by one location counter (`Layout`), the label of a
line is the counter there, and wherever a label is used it stands for that address (`Resolves`). -/

namespace Chip8

namespace Assembly

def counterAt (ls : List SourceLine) (k : Nat) : Int := (ls.take k).foldl moved 0x200

/-- The labels of the lines before a line, each with the counter at its own. -/
def labelsBefore (ls : List SourceLine) (k : Nat) : Symbols :=
  (List.range k).filterMap fun j => (ls[j]?.bind SourceLine.name?).map fun name => (name, counterAt ls j)

def bytesBefore (symbols : Symbols) (ls : List SourceLine) (k : Nat) : List (Int × UInt8) :=
  (List.range k).flatMap fun j => place (counterAt ls j) ((ls[j]?.map (blockOf symbols)).getD [])

variable {ls : List SourceLine} {k : Nat} {l : SourceLine} {symbols : Symbols}

theorem counterAt_succ (line : ls[k]? = some l) : counterAt ls (k + 1) = moved (counterAt ls k) l := by
  obtain ⟨hk, rfl⟩ := List.getElem?_eq_some_iff.1 line
  rw [counterAt, List.take_succ_eq_append_getElem hk, List.foldl_append]
  rfl

theorem labelsBefore_succ (line : ls[k]? = some l) :
    labelsBefore ls (k + 1) =
      labelsBefore ls k ++ (l.name?.map fun name => (name, counterAt ls k)).toList := by
  rw [labelsBefore, List.range_succ, List.filterMap_append, List.filterMap_cons, line, Option.bind_some]
  cases l.name? <;> rfl

theorem bytesBefore_succ (line : ls[k]? = some l) :
    bytesBefore symbols ls (k + 1) =
      bytesBefore symbols ls k ++ place (counterAt ls k) (blockOf symbols l) := by
  rw [bytesBefore, List.range_succ, List.flatMap_append, List.flatMap_singleton, line]
  rfl

theorem firstPass_take {final : Symbols × Int} (h : firstPass ls = .ok final) (hk : k ≤ ls.length) :
    firstPass (ls.take k) = .ok (labelsBefore ls k, counterAt ls k) := by
  refine foldLines_take (fun k => (labelsBefore ls k, counterAt ls k)) h rfl
    (fun k l line p here run => ?_) hk
  rw [(reserve_eq_ok run).1, labelsBefore_succ here, counterAt_succ here]

theorem secondPass_take {final : List (Int × UInt8) × Int} (h : secondPass symbols ls = .ok final)
    (hk : k ≤ ls.length) :
    secondPass symbols (ls.take k) = .ok (bytesBefore symbols ls k, counterAt ls k) := by
  refine foldLines_take (fun k => (bytesBefore symbols ls k, counterAt ls k)) h rfl
    (fun k l line p here run => ?_) hk
  rw [(emitLine_eq_ok run).1, bytesBefore_succ here, counterAt_succ here]

theorem emit_of_secondPass {final : List (Int × UInt8) × Int} (h : secondPass symbols ls = .ok final)
    (member : l ∈ ls) {s : Statement} (statement : l.statement? = some s) :
    s.emit symbols = .ok (blockOf symbols l) := by
  obtain ⟨k, hk, rfl⟩ := List.getElem_of_mem member
  obtain ⟨number, run⟩ := foldLines_step (fun k => (bytesBefore symbols ls k, counterAt ls k))
    (fun _ hk => secondPass_take h hk) (List.getElem?_eq_getElem hk)
  exact (emitLine_eq_ok run).2 s statement

theorem address?_eq_none_iff (table : Symbols) (name : String) :
    table.address? name = none ↔ name ∉ table.map Prod.fst := by
  induction table with
  | nil => simp [Symbols.address?]
  | cons entry table ih =>
    rw [Symbols.address?, List.lookup_cons]
    by_cases same : name = entry.1
    · simp [same]
    · have differs : (name == entry.1) = false := beq_false_of_ne same
      rw [differs, List.map_cons, List.mem_cons, not_or]
      exact ih.trans ⟨fun h => ⟨same, h⟩, fun h => h.2⟩

theorem nodup_labelsBefore {final : Symbols × Int} (h : firstPass ls = .ok final) (hk : k ≤ ls.length) :
    ((labelsBefore ls k).map Prod.fst).Nodup := by
  induction k with
  | zero => exact List.nodup_nil
  | succ k ih =>
    have line : ls[k]? = some ls[k] := List.getElem?_eq_getElem hk
    obtain ⟨number, run⟩ := foldLines_step (fun k => (labelsBefore ls k, counterAt ls k))
      (fun _ hk => firstPass_take h hk) line
    -- A label is refused if it is in the table so far, and that table is `labelsBefore`.
    have fresh := (reserve_eq_ok run).2
    rw [labelsBefore_succ line, List.map_append]
    cases named : ls[k].name? with
    | none => simpa using ih (Nat.le_of_succ_le hk)
    | some name =>
      have new := (address?_eq_none_iff _ name).1 (fresh name named)
      refine List.nodup_append.2 ⟨ih (Nat.le_of_succ_le hk), List.nodup_singleton _, ?_⟩
      intro old before other single same
      rw [same, List.mem_singleton.1 single] at before
      exact new before

theorem address?_of_mem {table : Symbols} (names : (table.map Prod.fst).Nodup) {name : String} {address : Int}
    (member : (name, address) ∈ table) : table.address? name = some address := by
  induction table with
  | nil => cases member
  | cons entry table ih =>
    rw [List.map_cons, List.nodup_cons] at names
    rw [Symbols.address?, List.lookup_cons]
    rcases List.mem_cons.1 member with rfl | later
    · simp
    · have differs : (name == entry.1) = false :=
        beq_false_of_ne fun same => names.1 (same ▸ List.mem_map_of_mem later)
      rw [differs]
      exact ih names.2 later

theorem mem_labelsBefore (line : ls[k]? = some l) {name : String} (named : l.name? = some name) :
    (name, counterAt ls k) ∈ labelsBefore ls ls.length := by
  obtain ⟨hk, -⟩ := List.getElem?_eq_some_iff.1 line
  refine List.mem_filterMap.2 ⟨k, List.mem_range.2 hk, ?_⟩
  rw [line, Option.bind_some, named]
  rfl

theorem bytesBefore_run
    (emitted : ∀ l ∈ ls, ∀ s, l.statement? = some s → s.emit symbols = .ok (blockOf symbols l))
    {j : Nat} (hkj : k ≤ j) (hj : j ≤ ls.length)
    (moves : ∀ i l text, k ≤ i → i < j → ls[i]? = some l → l.statement? ≠ some (.origin text)) :
    bytesBefore symbols ls j = bytesBefore symbols ls k ++
      place (counterAt ls k) (((ls.take j).drop k).flatMap (blockOf symbols)) ∧
    counterAt ls j = counterAt ls k + (((ls.take j).drop k).flatMap (blockOf symbols)).length := by
  obtain ⟨d, rfl⟩ := Nat.exists_eq_add_of_le hkj
  clear hkj
  -- On the number of lines: the counter stays behind the bytes, so the block of the next line follows them.
  induction d with
  | zero =>
    have empty : (ls.take (k + 0)).drop k = [] := by simp
    rw [empty]
    simp [place]
  | succ d ih =>
    have here : k + d < ls.length := by omega
    have line : ls[k + d]? = some ls[k + d] := List.getElem?_eq_getElem here
    obtain ⟨before, counter⟩ := ih (by omega) fun i l text low high => moves i l text low (by omega)
    have further : (ls.take (k + (d + 1))).drop k = (ls.take (k + d)).drop k ++ [ls[k + d]] := by
      rw [← Nat.add_assoc, List.take_succ_eq_append_getElem here, List.drop_append_of_le_length]
      rw [List.length_take]
      omega
    have next := moved_eq_add (emitted ls[k + d] (List.getElem_mem here))
      (fun text => moves (k + d) _ text (by omega) (by omega) line) (counterAt ls (k + d))
    rw [further, List.flatMap_append, List.flatMap_singleton, place_append, ← counter, ← List.append_assoc,
      ← before]
    refine ⟨bytesBefore_succ line, ?_⟩
    rw [← Nat.add_assoc, counterAt_succ line, next, counter, List.length_append]
    omega

/-- Labels that no number, no mark of one and no mark of an immediate could be. -/
structure Unreserved (label : List Char) : Prop where
  dollar : label.head? ≠ some '$'
  immediate : label.head? ≠ some '#'
  mark : Text.hasHexMark label = false
  suffix : hasHexSuffix label = false
  decimal : isDecimal label = false

/-- A label as an operand: as it is, unless it is the name of a register or a keyword, or behind the mark of
an immediate. -/
inductive Names (label : List Char) : List Char → Prop
  | plain (register : register? (Text.uppercase label) = none)
    (keyword : Keyword.ofName? (Text.uppercase label) = none) : Names label label
  | immediate {rest : List Char} (bare : Text.strip rest = label) : Names label ('#' :: rest)

/-- In a line that uses it, a label stands for an address: as an item of data, and as an operand in the field
of its slot, which is one for numbers. -/
structure Resolves (symbols : Symbols) (label : List Char) (address : Int) (l : SourceLine) : Prop where
  bytes : ∀ (items : List (List Char)) (i : Nat),
    l.statement? = some (.bytes items) → items[i]? = some label →
    (blockOf symbols l)[i]? = some (lowByte address)
  words : ∀ (items : List (List Char)) (i : Nat),
    l.statement? = some (.words items) → items[i]? = some label →
    (blockOf symbols l)[2 * i]? = some (lowByte (address / 256)) ∧
      (blockOf symbols l)[2 * i + 1]? = some (lowByte address)
  operand : ∀ (name text : List Char) (j : Nat) (o : List Char),
    l.statement? = some (.instruction name text) → (operandsOf text)[j]? = some o → Names label o →
    ∃ (op : Opcode) (w : Nat) (slot : Slot), op.mnemonic.name = name ∧ op.Fits w ∧ w < 65536 ∧
      op.slots[j]? = some slot ∧ (slot = .address ∨ slot = .byte ∨ slot = .height) ∧
      (slot.field w : Int) = address ∧ blockOf symbols l = wordBytes w

theorem valueOf_label {label : List Char} {address : Int} (bare : Text.strip label = label)
    (free : Unreserved label) (found : symbols.address? (String.ofList label) = some address) :
    valueOf symbols label = .ok address := by
  simp only [valueOf, bare, if_neg free.dollar, free.mark, free.suffix, free.decimal, found]
  rfl

theorem valueOf_strip (symbols : Symbols) {text label : List Char} (bare : Text.strip text = label) :
    valueOf symbols text = valueOf symbols label := by
  have again : Text.strip label = label := by rw [← bare, Text.strip_strip]
  unfold valueOf
  rw [bare, again]

theorem classify_names {label o : List Char} (bare : Text.strip label = label) (free : Unreserved label)
    (names : Names label o) : ∃ text, Text.strip text = label ∧
      (Operand.classify o = .immediate text ∨ Operand.classify o = .address text) := by
  cases names with
  | plain register keyword =>
    refine ⟨label, bare, .inr ?_⟩
    unfold Operand.classify
    dsimp only
    rw [register, keyword]
    dsimp only
    split
    · exact absurd rfl free.immediate
    · rfl
  | @immediate rest same => exact ⟨rest, same, .inl (classify_immediate rest)⟩

theorem slot_of_fits_immediate {text : List Char} {slot : Slot}
    (suits : (Operand.immediate text).fits slot = true) : slot = .byte ∨ slot = .height := by
  cases slot with
  | byte => exact .inl rfl
  | height => exact .inr rfl
  | regX | regY | reg0 | keyword | address => cases suits

theorem slot_of_fits_address {text : List Char} {slot : Slot}
    (suits : (Operand.address text).fits slot = true) :
    slot = .address ∨ slot = .byte ∨ slot = .height := by
  cases slot with
  | address => exact .inl rfl
  | byte => exact .inr (.inl rfl)
  | height => exact .inr (.inr rfl)
  | regX | regY | reg0 | keyword => cases suits

theorem values_getElem? {items : List (List Char)} {values : List Int} (h : Values symbols items values)
    {i : Nat} {text : List Char} (item : items[i]? = some text) :
    ∃ value, values[i]? = some value ∧ valueOf symbols text = .ok value := by
  induction h generalizing i with
  | nil => cases item
  | @cons first value items values read rest ih =>
    cases i with
    | zero =>
      cases item
      exact ⟨value, rfl, read⟩
    | succ i => exact ih item

theorem wordBytes_getElem? {values : List Int} {i : Nat} {value : Int} (h : values[i]? = some value) :
    (values.flatMap wordBytes)[2 * i]? = some (lowByte (value / 256)) ∧
      (values.flatMap wordBytes)[2 * i + 1]? = some (lowByte value) := by
  induction values generalizing i with
  | nil => cases h
  | cons first values ih =>
    cases i with
    | zero =>
      cases h
      exact ⟨rfl, rfl⟩
    | succ i => exact ih h

/-- A label that is in the table stands for its address in every line that could be emitted. -/
theorem resolves {label : List Char} {address : Int}
    (emits : ∀ s, l.statement? = some s → s.emit symbols = .ok (blockOf symbols l))
    (bare : Text.strip label = label) (free : Unreserved label)
    (found : symbols.address? (String.ofList label) = some address) :
    Resolves symbols label address l := by
  have known := valueOf_label bare free found
  refine ⟨fun items i statement item => ?_, fun items i statement item => ?_,
    fun name text j o statement operand names => ?_⟩
  · obtain ⟨values, read, block⟩ := emit_bytes (emits _ statement)
    obtain ⟨value, at_, evaluated⟩ := values_getElem? read item
    cases known.symm.trans evaluated
    rw [block, List.getElem?_map, at_]
    rfl
  · obtain ⟨values, read, block⟩ := emit_words (emits _ statement)
    obtain ⟨value, at_, evaluated⟩ := values_getElem? read item
    cases known.symm.trans evaluated
    rw [block]
    exact wordBytes_getElem? at_
  · obtain ⟨w, encoded, block⟩ := emit_instruction (emits _ statement)
    obtain ⟨op, mnemonic, fits, small, filled⟩ := encode_eq_ok encoded
    have classified : ((operandsOf text).map Operand.classify)[j]? = some (Operand.classify o) := by
      rw [List.getElem?_map, operand]
      rfl
    obtain ⟨slot, v, slotAt, valueAt, suits, value⟩ := filled.value classified
    rw [List.getElem?_map, slotAt] at valueAt
    cases valueAt
    obtain ⟨inner, same, kind⟩ := classify_names bare free names
    have evaluated : valueOf symbols inner = .ok ((slot.field w : Nat) : Int) := by
      rcases kind with kind | kind <;> rw [kind] at value <;> exact slotValue_eq_ok value
    have numeric : slot = .address ∨ slot = .byte ∨ slot = .height := by
      rcases kind with kind | kind <;> rw [kind] at suits
      · exact .inr (slot_of_fits_immediate suits)
      · exact slot_of_fits_address suits
    rw [valueOf_strip symbols same] at evaluated
    cases known.symm.trans evaluated
    exact ⟨op, w, slot, mnemonic, fits, small, slotAt, numeric, rfl, block⟩

/-- How lines are laid out in what they were assembled to. -/
structure Layout (ls : List SourceLine) (code : ObjectCode) : Prop where
  /-- Before every line both passes have the same counter. -/
  passes : ∀ k ≤ ls.length, firstPass (ls.take k) = .ok (labelsBefore ls k, counterAt ls k) ∧
    secondPass code.symbols (ls.take k) = .ok (bytesBefore code.symbols ls k, counterAt ls k)
  symbols : code.symbols = labelsBefore ls ls.length
  bytes : code.bytes = bytesBefore code.symbols ls ls.length
  /-- What a line emits is as long as the first pass reserved for it. -/
  reserved : ∀ (k : Nat) (l : SourceLine) (s : Statement), ls[k]? = some l → l.statement? = some s →
    s.emit code.symbols = .ok (blockOf code.symbols l) ∧ (blockOf code.symbols l).length = s.size ∧
      ((∀ text, s ≠ .origin text) → counterAt ls (k + 1) = counterAt ls k + s.size)
  origin : ∀ (k : Nat) (l : SourceLine) (text : List Char),
    ls[k]? = some l → l.statement? = some (.origin text) →
    valueOf [] text = .ok (counterAt ls (k + 1))
  /-- Up to the next origin bytes follow each other, from the counter on. -/
  consecutive : ∀ k j : Nat, k ≤ j → j ≤ ls.length →
    (∀ i l text, k ≤ i → i < j → ls[i]? = some l → l.statement? ≠ some (.origin text)) →
    bytesBefore code.symbols ls j = bytesBefore code.symbols ls k ++
      place (counterAt ls k) (((ls.take j).drop k).flatMap (blockOf code.symbols)) ∧
    counterAt ls j = counterAt ls k + (((ls.take j).drop k).flatMap (blockOf code.symbols)).length
  /-- A label is in the table with the counter at its line, and stands for it wherever it is used. -/
  labels : ∀ (k : Nat) (l : SourceLine) (label : List Char),
    ls[k]? = some l → l.label = some label → label ≠ [] →
    code.symbols.address? (String.ofList label) = some (counterAt ls k) ∧
      (Unreserved label → valueOf code.symbols label = .ok (counterAt ls k) ∧
        ∀ l' ∈ ls, Resolves code.symbols label (counterAt ls k) l')

theorem label_parse {line label : List Char} (h : (SourceLine.parse line).label = some label) :
    Text.strip label = label := by
  unfold SourceLine.parse at h
  dsimp only at h
  split at h
  · cases h
  · cases h
    exact Text.strip_strip _

/-- **Layout.** Where a source assembles, both passes have the same counter at every line, each line's bytes
stand from there on, as many as were reserved, and its label is that counter in the table and in every use. -/
theorem assemble_layout {lines : List (List Char)} {code : ObjectCode} (h : assemble lines = .ok code) :
    Layout (lines.map SourceLine.parse) code := by
  obtain ⟨⟨last, first⟩, last', second⟩ := assemble_eq_ok h
  have bare : ∀ l ∈ lines.map SourceLine.parse, ∀ label, l.label = some label → Text.strip label = label := by
    intro l member label labelled
    obtain ⟨line, -, rfl⟩ := List.mem_map.1 member
    exact label_parse labelled
  -- Of the parsing only this counts, that labels have no blanks at their ends.
  generalize lines.map SourceLine.parse = ls at first second bare ⊢
  have emits : ∀ l ∈ ls, ∀ s, l.statement? = some s → s.emit code.symbols = .ok (blockOf code.symbols l) :=
    fun l member s statement => emit_of_secondPass second member statement
  have all := firstPass_take first (Nat.le_refl ls.length)
  have emitted := secondPass_take second (Nat.le_refl ls.length)
  rw [List.take_length] at all emitted
  have table : code.symbols = labelsBefore ls ls.length :=
    congrArg Prod.fst (Except.ok.inj (first.symm.trans all))
  have names : (code.symbols.map Prod.fst).Nodup := by
    rw [table]
    exact nodup_labelsBefore first (Nat.le_refl ls.length)
  refine ⟨fun k hk => ⟨firstPass_take first hk, secondPass_take second hk⟩, table,
    congrArg Prod.fst (Except.ok.inj (second.symm.trans emitted)), ?_, ?_, ?_, ?_⟩
  · intro k l s line statement
    have emit := emits l (List.mem_of_getElem? line) s statement
    refine ⟨emit, length_emit emit, fun moves => ?_⟩
    rw [counterAt_succ line, ← length_emit emit]
    refine moved_eq_add (emits l (List.mem_of_getElem? line)) (fun text same => ?_) _
    exact moves text (Option.some.inj (statement.symm.trans same))
  · intro k l text line statement
    obtain ⟨number, run⟩ := foldLines_step (fun k => (labelsBefore ls k, counterAt ls k))
      (fun _ hk => firstPass_take first hk) line
    exact reserve_origin run statement
  · intro k j hkj hj moves
    exact bytesBefore_run emits hkj hj moves
  · intro k l label line labelled ne
    have named : l.name? = some (String.ofList label) := by
      obtain ⟨c, rest, rfl⟩ := List.exists_cons_of_ne_nil ne
      rw [SourceLine.name?, labelled]
      rfl
    have found : code.symbols.address? (String.ofList label) = some (counterAt ls k) := by
      refine address?_of_mem names ?_
      rw [table]
      exact mem_labelsBefore line named
    have stripped := bare l (List.mem_of_getElem? line) label labelled
    exact ⟨found, fun free => ⟨valueOf_label stripped free found,
      fun l' member => resolves (emits l' member) stripped free found⟩⟩

/-- A source that uses its labels before and after their lines. -/
theorem assemble_layout_sprite :
    let lines := ["  JP main ; over data", "  ORG $300", "main: LD I, sprite", "sprite: DB $F0, main",
      "  DW sprite"].map String.toList
    let code : ObjectCode := {
      symbols := [("main", 0x300), ("sprite", 0x302)]
      bytes := [(0x200, 0x13), (0x201, 0x00), (0x300, 0xA3), (0x301, 0x02), (0x302, 0xF0), (0x303, 0x00),
        (0x304, 0x03), (0x305, 0x02)] }
    assemble lines = .ok code ∧ Layout (lines.map SourceLine.parse) code := by
  intro lines code
  have run : assemble lines = .ok code := by decide +kernel
  exact ⟨run, assemble_layout run⟩

end Assembly

end Chip8
