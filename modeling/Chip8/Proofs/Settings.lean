import Chip8.Config
import Chip8.Pacing
import Chip8.Proofs.Passes
import Chip8.Proofs.Presses

/-! The settings that a value gives. Reading a mapping fails with a refusal of what it holds, but for one slip: also a
value that is no mapping is asked for its entries where a section should stand. What is read has positive settings and
a key map with one entry for each host key, the last of the usable ones (`ofMapping_exact`). -/

namespace Chip8

/-- Whether a fault says that a value is refused. A section that has no entries to ask for gives the one other
fault. -/
def ConfigFault.isRefusal : ConfigFault → Bool
  | notMapping .. => false
  | _ => true

namespace Config

open Assembly (bind_eq_ok)

/-! ### Faults of the values -/

section Refuses

variable {α β : Type}

/-- Every fault is a refusal. -/
def Refuses (x : Except ConfigFault α) : Prop := ∀ e, x = .error e → e.isRefusal = true

theorem refuses_ok (a : α) : Refuses (.ok a) := by
  intro e h
  cases h

theorem refuses_bind {x : Except ConfigFault α} {f : α → Except ConfigFault β} (hx : Refuses x)
    (hf : ∀ a, Refuses (f a)) : Refuses (x >>= f) := by
  intro e h
  cases x with
  | error why =>
    cases h
    exact hx e rfl
  | ok a => exact hf a e h

theorem refuses_refusal {because : String → ConfigFault} (h : ∀ s, (because s).isRefusal = true) (v : Value) :
    Refuses (.error (refusal because v) : Except ConfigFault α) := by
  intro e raised
  cases raised
  unfold refusal
  split
  · exact h _
  · rfl

theorem refuses_readInt (v : Value) : Refuses (readInt v) := by
  cases v with
  | int n => exact refuses_ok n
  | text s =>
    intro e h
    simp only [readInt] at h
    cases read : Text.readInt (if Text.hasHexMark s.toList = true then .hexadecimal else .decimal) s.toList with
    | ok n =>
      rw [read] at h
      cases h
    | error why =>
      rw [read] at h
      cases h
      rfl
  | _ => exact refuses_refusal (fun _ => rfl) _

theorem refuses_readPositive (setting : String) (v : Value) : Refuses (readPositive setting v) := by
  intro e h
  unfold readPositive at h
  cases read : readInt v with
  | error why =>
    rw [read] at h
    cases h
    exact refuses_readInt v _ read
  | ok n =>
    rw [read] at h
    dsimp only at h
    split at h
    · cases h
    · have refusal : ∀ s, (ConfigFault.notPositive setting s).isRefusal = true := fun _ => rfl
      exact refuses_refusal refusal v e h

theorem refuses_readOptional (v : Value) : Refuses (readOptional v) := by
  intro e h
  have some? : readOptional v = .ok none ∨ readOptional v = (readInt v).map some := by
    cases v <;> simp [readOptional]
  rcases some? with none | some
  · rw [none] at h
    cases h
  · rw [some] at h
    cases read : readInt v with
    | error why =>
      rw [read] at h
      cases h
      exact refuses_readInt v _ read
    | ok n =>
      rw [read] at h
      cases h

theorem refuses_readText (v : Value) : Refuses (readText v) := by
  intro e h
  unfold readText at h
  split at h
  · cases h
  · cases h
    rfl

end Refuses

/-! ### Sections -/

variable {entries : List (Value × Value)}

/-- A section that does not count as false and is no mapping. -/
def Unfit (name : String) (entries : List (Value × Value)) : Prop :=
  ∃ v, lookup? name entries = some v ∧ v.isTruthy = true ∧ ∀ inner, v ≠ .map inner

/-- A section that is missing or counts as false. -/
def Idle (name : String) (entries : List (Value × Value)) : Prop :=
  ∀ v, lookup? name entries = some v → v.isTruthy = false

theorem section_unfit {name : String} {v : Value} (found : lookup? name entries = some v) (truthy : v.isTruthy = true)
    (noMap : ∀ inner, v ≠ .map inner) : section? name entries = .error (.notMapping v.typeName "get") := by
  unfold section?
  rw [found]
  cases v with
  | map inner => exact absurd rfl (noMap inner)
  | _ => simp only [truthy, if_true]

theorem section_of_not_unfit {name : String} (fit : ¬ Unfit name entries) :
    ∃ inner, section? name entries = .ok inner := by
  unfold section?
  cases found : lookup? name entries with
  | none => exact ⟨[], rfl⟩
  | some v =>
    cases v with
    | map inner => exact ⟨inner, rfl⟩
    | _ => exact ⟨[], if_neg fun truthy => fit ⟨_, found, truthy, nofun⟩⟩

/-- A reader of a section that refuses nothing but values fails otherwise exactly on a section that is no mapping. -/
theorem section_bind_unfit {α : Type} {name : String} {f : List (Value × Value) → Except ConfigFault α}
    (hf : ∀ inner, Refuses (f inner)) :
    (∃ e, section? name entries >>= f = .error e ∧ e.isRefusal = false) ↔ Unfit name entries := by
  constructor
  · rintro ⟨e, raised, other⟩
    by_contra fit
    obtain ⟨inner, read⟩ := section_of_not_unfit fit
    rw [read] at raised
    exact absurd (hf inner e raised) (by rw [other]; decide)
  · rintro ⟨v, found, truthy, noMap⟩
    refine ⟨.notMapping v.typeName "get", ?_, rfl⟩
    rw [section_unfit found truthy noMap]
    rfl

theorem readMachine_unfit :
    (∃ e, readMachine entries = .error e ∧ e.isRefusal = false) ↔ Unfit "machine" entries :=
  section_bind_unfit fun _ =>
    refuses_bind (refuses_readPositive _ _) fun _ =>
      refuses_bind (refuses_readPositive _ _) fun _ =>
        refuses_bind (refuses_readOptional _) fun _ => refuses_ok _

theorem readDisplay_unfit :
    (∃ e, readDisplay entries = .error e ∧ e.isRefusal = false) ↔ Unfit "display" entries :=
  section_bind_unfit fun _ =>
    refuses_bind (refuses_readPositive _ _) fun _ =>
      refuses_bind (refuses_readText _) fun _ =>
        refuses_bind (refuses_readText _) fun _ => refuses_ok _

theorem readPositive_pos {setting : String} {v : Value} {n : Int} (h : readPositive setting v = .ok n) : 0 < n := by
  unfold readPositive at h
  cases read : readInt v with
  | error why =>
    rw [read] at h
    cases h
  | ok m =>
    rw [read] at h
    dsimp only at h
    split at h
    · cases h
      assumption
    · cases h

theorem readMachine_pos {machine : MachineSettings} (h : readMachine entries = .ok machine) :
    0 < machine.instructionsPerFrame ∧ 0 < machine.timerHz := by
  obtain ⟨inner, -, h⟩ := bind_eq_ok h
  obtain ⟨instructionsPerFrame, frames, h⟩ := bind_eq_ok h
  obtain ⟨timerHz, ticks, h⟩ := bind_eq_ok h
  obtain ⟨seed, -, h⟩ := bind_eq_ok h
  cases h
  exact ⟨readPositive_pos frames, readPositive_pos ticks⟩

theorem readDisplay_pos {display : DisplaySettings} (h : readDisplay entries = .ok display) :
    0 < display.scale := by
  obtain ⟨inner, -, h⟩ := bind_eq_ok h
  obtain ⟨scale, sized, h⟩ := bind_eq_ok h
  obtain ⟨foreground, -, h⟩ := bind_eq_ok h
  obtain ⟨background, -, h⟩ := bind_eq_ok h
  cases h
  exact readPositive_pos sized

/-! ### The key map -/

variable {keymap : Keymap} {name : String} {n : Int}

def hostName (hostKey : Value) : String := String.ofList (Text.uppercase hostKey.plain.toList)

/-- What an entry of the key map sets; nothing if its key is none of the keypad. -/
def assigned? (entry : Value × Value) : Option (String × Int) :=
  match readInt entry.2 with
  | .ok n => if 0 ≤ n ∧ n < 16 then some (hostName entry.1, n) else none
  | .error _ => none

def assign (keymap : Keymap) (entry : Value × Value) : Keymap :=
  (assigned? entry).elim keymap fun a => setKey a.1 a.2 keymap

/-- The entry sets a key, and no later entry sets one for the same name. -/
def LastFor (name : String) (n : Int) (inner : List (Value × Value)) : Prop :=
  ∃ before entry after, inner = before ++ entry :: after ∧ assigned? entry = some (name, n) ∧
    ∀ e ∈ after, ∀ k, assigned? e ≠ some (name, k)

theorem map_setKey (hostKey : String) (key : Int) (keymap : Keymap) :
    (setKey hostKey key keymap).map Prod.fst =
      if hostKey ∈ keymap.map Prod.fst then keymap.map Prod.fst else keymap.map Prod.fst ++ [hostKey] := by
  induction keymap with
  | nil => rfl
  | cons entry rest ih =>
    unfold setKey
    by_cases same : entry.1 = hostKey
    · simp [same]
    · rw [if_neg same, List.map_cons, ih]
      have other : ¬ hostKey = entry.1 := fun h => same h.symm
      by_cases there : hostKey ∈ rest.map Prod.fst
      · rw [if_pos there, List.map_cons, if_pos (List.mem_cons_of_mem _ there)]
      · rw [if_neg there, List.map_cons, if_neg (by rw [List.mem_cons]; exact not_or.2 ⟨other, there⟩),
          List.cons_append]

theorem setKey_nodup (hostKey : String) (key : Int) (once : (keymap.map Prod.fst).Nodup) :
    ((setKey hostKey key keymap).map Prod.fst).Nodup := by
  rw [map_setKey]
  split
  case isTrue => exact once
  case isFalse new => exact once.append (List.nodup_singleton hostKey) (List.disjoint_singleton.2 new)

theorem mem_setKey {hostKey : String} {key : Int} (once : (keymap.map Prod.fst).Nodup) :
    (name, n) ∈ setKey hostKey key keymap ↔
      name = hostKey ∧ n = key ∨ name ≠ hostKey ∧ (name, n) ∈ keymap := by
  induction keymap with
  | nil => simp [setKey]
  | cons entry rest ih =>
    obtain ⟨first, k⟩ := entry
    rw [List.map_cons, List.nodup_cons] at once
    have member : (name, n) ∈ rest → name ∈ rest.map Prod.fst := fun h => List.mem_map.2 ⟨_, h, rfl⟩
    unfold setKey
    by_cases same : first = hostKey
    · subst same
      rw [if_pos rfl, List.mem_cons, List.mem_cons, Prod.mk.injEq, Prod.mk.injEq]
      have := once.1
      grind
    · rw [if_neg same, List.mem_cons, ih once.2, List.mem_cons, Prod.mk.injEq]
      grind

theorem assign_of_none {entry : Value × Value} (h : assigned? entry = none) : assign keymap entry = keymap := by
  rw [assign, h, Option.elim_none]

theorem assign_of_some {entry : Value × Value} (h : assigned? entry = some (name, n)) :
    assign keymap entry = setKey name n keymap := by
  rw [assign, h, Option.elim_some]

variable {inner : List (Value × Value)} {entry : Value × Value}

theorem not_lastFor_nil : ¬ LastFor name n [] := by
  rintro ⟨before, entry, after, split, -⟩
  exact absurd split (by simp)

theorem lastFor_snoc : LastFor name n (inner ++ [entry]) ↔
    assigned? entry = some (name, n) ∨ (∀ k, assigned? entry ≠ some (name, k)) ∧ LastFor name n inner := by
  constructor
  · rintro ⟨before, e, after, split, sets, last⟩
    rcases snoc_eq_iff.1 split with ⟨-, rfl, -⟩ | ⟨after', rfl, init⟩
    · exact .inl sets
    · rw [List.forall_mem_append, List.forall_mem_singleton] at last
      exact .inr ⟨last.2, before, e, after', init, sets, last.1⟩
  · rintro (sets | ⟨skipped, before, e, after, rfl, sets, last⟩)
    · exact ⟨inner, entry, [], rfl, sets, List.forall_mem_nil _⟩
    · refine ⟨before, e, after ++ [entry], List.append_assoc _ _ _, sets, ?_⟩
      exact List.forall_mem_append.2 ⟨last, List.forall_mem_singleton.2 skipped⟩

/-- Entries that set no key are skipped, and of several for one name the last stays. -/
theorem foldl_assign (inner : List (Value × Value)) :
    ((inner.foldl assign []).map Prod.fst).Nodup ∧
      ∀ name n, (name, n) ∈ inner.foldl assign [] ↔ LastFor name n inner := by
  induction inner using List.reverseRecOn with
  | nil => exact ⟨List.nodup_nil, fun name n => iff_of_false List.not_mem_nil not_lastFor_nil⟩
  | append_singleton inner entry ih =>
    obtain ⟨once, member⟩ := ih
    rw [List.foldl_append, List.foldl_cons, List.foldl_nil]
    cases sets : assigned? entry with
    | none =>
      rw [assign_of_none sets]
      refine ⟨once, fun name n => ?_⟩
      rw [lastFor_snoc, sets, member]
      simp
    | some a =>
      rw [assign_of_some sets]
      refine ⟨setKey_nodup _ _ once, fun name n => ?_⟩
      rw [lastFor_snoc, sets, mem_setKey once, member, Option.some_inj, Prod.ext_iff]
      grind

theorem assigned_range (h : assigned? entry = some (name, n)) : 0 ≤ n ∧ n < 16 := by
  unfold assigned? at h
  cases read : readInt entry.2 with
  | error why =>
    rw [read] at h
    cases h
  | ok k =>
    rw [read] at h
    dsimp only at h
    split at h
    · cases h
      assumption
    · cases h

theorem LastFor.range (h : LastFor name n inner) : 0 ≤ n ∧ n < 16 := by
  obtain ⟨_, _, _, -, sets, -⟩ := h
  exact assigned_range sets

/-- Whether what a warning of the entry would show can be written. -/
def Printable (entry : Value × Value) : Prop :=
  entry.1.isWritable = true ∧ entry.2.isWritable = true ∧
    ∀ n, readInt entry.2 = .ok n → (Value.int n).isWritable = true

theorem isWritable_of_readInt {v : Value} (read : readInt v = .ok n) (h : (Value.int n).isWritable = true) :
    v.isWritable = true := by
  cases v with
  | int k =>
    cases read
    exact h
  | text s => rfl
  | _ => cases read

theorem isWritable_of_key (low : 0 ≤ n) (high : n < 16) : (Value.int n).isWritable = true := by
  have limit : 16 ≤ Text.digitLimit := by decide
  have power (k : Nat) : k < Nat.pow 10 k := Nat.lt_pow_self (by decide)
  have below : n.natAbs < Nat.pow 10 Text.digitLimit := Nat.lt_of_lt_of_le (by omega) (power Text.digitLimit).le
  simp only [Value.isWritable, Text.exceedsDigitLimit, Bool.not_eq_true', decide_eq_false_iff_not]
  exact Nat.not_le.2 below

theorem warn_apply (values : List Value) (message : ConfigWarning) (w : List ConfigWarning) :
    warn values message w =
      if values.all Value.isWritable then (.ok (), w ++ [message]) else (.error .unwritable, w) := by
  unfold warn
  split <;> rfl

theorem readText_apply (v : Value) (w : List ConfigWarning) :
    (lift (readText v) : Reading String) w = if v.isWritable then (.ok v.plain, w) else (.error .unwritable, w) := by
  unfold readText
  split <;> rfl

theorem readKey_printable {hostKey key : Value} (h : Printable (hostKey, key)) (keymap : Keymap)
    (w : List ConfigWarning) :
    ∃ w', readKey keymap hostKey key w = (.ok (assign keymap (hostKey, key)), w') := by
  obtain ⟨host, value, number⟩ := h
  dsimp only at host value number
  cases read : readInt key with
  | error why =>
    have skipped : assigned? (hostKey, key) = none := by simp only [assigned?, read]
    rw [assign_of_none skipped]
    simp [readKey, read, Action.bind_apply, warn_apply, host, value]
  | ok n =>
    have shown := number n read
    by_cases inside : 0 ≤ n ∧ n < 16
    · have sets : assigned? (hostKey, key) = some (hostName hostKey, n) := by simp [assigned?, read, inside]
      rw [assign_of_some sets]
      simp [readKey, read, Action.bind_apply, readText_apply, host, inside, hostName]
    · have skipped : assigned? (hostKey, key) = none := by simp only [assigned?, read, if_neg inside]
      rw [assign_of_none skipped]
      simp only [readKey, read, if_neg inside]
      simp [Action.bind_apply, warn_apply, host, shown]

theorem readKey_unprintable {hostKey key : Value} (h : ¬ Printable (hostKey, key)) (w : List ConfigWarning) :
    readKey keymap hostKey key w = (.error .unwritable, w) := by
  cases read : readInt key with
  | error why =>
    have hidden : [hostKey, key].all Value.isWritable = false := by
      rw [← Bool.not_eq_true, List.all_eq_true]
      intro shown
      refine h ⟨shown _ (by simp), shown _ (by simp), fun n number => ?_⟩
      rw [read] at number
      cases number
    simp [readKey, read, Action.bind_apply, warn_apply, hidden]
  | ok n =>
    have hidden : ¬ (hostKey.isWritable = true ∧ (Value.int n).isWritable = true) := by
      rintro ⟨host, number⟩
      refine h ⟨host, isWritable_of_readInt read number, fun k same => ?_⟩
      cases read.symm.trans same
      exact number
    by_cases inside : 0 ≤ n ∧ n < 16
    · have host : hostKey.isWritable = false :=
        Bool.not_eq_true _ ▸ fun shown => hidden ⟨shown, isWritable_of_key inside.1 inside.2⟩
      simp [readKey, read, Action.bind_apply, readText_apply, host, inside]
    · simp only [readKey, read, if_neg inside]
      simp [Action.bind_apply, warn_apply, hidden]

theorem readKeys_printable (h : ∀ entry ∈ inner, Printable entry) (keymap : Keymap) (w : List ConfigWarning) :
    ∃ w', readKeys keymap inner w = (.ok (inner.foldl assign keymap), w') := by
  induction inner generalizing keymap w with
  | nil => exact ⟨w, rfl⟩
  | cons entry inner ih =>
    rw [List.forall_mem_cons] at h
    obtain ⟨w₁, first⟩ := readKey_printable h.1 keymap w
    obtain ⟨w₂, rest⟩ := ih h.2 (assign keymap entry) w₁
    exact ⟨w₂, (Action.bind_ok first).trans rest⟩

theorem readKeys_unprintable (h : ¬ ∀ entry ∈ inner, Printable entry) (keymap : Keymap) (w : List ConfigWarning) :
    ∃ w', readKeys keymap inner w = (.error .unwritable, w') := by
  induction inner generalizing keymap w with
  | nil => exact absurd (List.forall_mem_nil _) h
  | cons entry inner ih =>
    rw [List.forall_mem_cons] at h
    by_cases here : Printable entry
    · obtain ⟨w₁, first⟩ := readKey_printable here keymap w
      obtain ⟨w₂, rest⟩ := ih (fun later => h ⟨here, later⟩) (assign keymap entry) w₁
      exact ⟨w₂, (Action.bind_ok first).trans rest⟩
    · exact ⟨w, Action.bind_error (readKey_unprintable here w)⟩

inductive KeymapEnds (entries : List (Value × Value)) : Except ConfigFault Keymap → Prop
  | idle (idle : Idle "keymap" entries) : KeymapEnds entries (.ok defaultKeymap)
  | unfit {v : Value} (found : lookup? "keymap" entries = some v) (truthy : v.isTruthy = true)
      (noMap : ∀ inner, v ≠ .map inner) : KeymapEnds entries (.error (.notMapping v.typeName "items"))
  | keys {inner : List (Value × Value)} (found : lookup? "keymap" entries = some (.map inner)) (some : inner ≠ [])
      (printable : ∀ entry ∈ inner, Printable entry) : KeymapEnds entries (.ok (inner.foldl assign []))
  | unprintable {inner : List (Value × Value)} (found : lookup? "keymap" entries = some (.map inner))
      (hidden : ¬ ∀ entry ∈ inner, Printable entry) : KeymapEnds entries (.error .unwritable)

theorem readKeymap_ends (entries : List (Value × Value)) (w : List ConfigWarning) :
    KeymapEnds entries (readKeymap entries w).1 := by
  unfold readKeymap
  cases found : lookup? "keymap" entries with
  | none =>
    refine .idle fun v there => ?_
    rw [found] at there
    cases there
  | some v =>
    cases truthy : v.isTruthy with
    | false =>
      simp only [truthy, Bool.false_eq_true, if_false]
      refine .idle fun v' there => ?_
      cases found.symm.trans there
      exact truthy
    | true =>
      simp only [truthy, if_true]
      cases v with
      | map inner =>
        have some : inner ≠ [] := by
          rintro rfl
          cases truthy
        by_cases printable : ∀ entry ∈ inner, Printable entry
        · obtain ⟨w', read⟩ := readKeys_printable printable [] w
          simp only [read]
          exact .keys found some printable
        · obtain ⟨w', read⟩ := readKeys_unprintable printable [] w
          simp only [read]
          exact .unprintable found printable
      | _ => exact .unfit found truthy nofun

/-! ### The configuration -/

def Announced (entries : List (Value × Value)) : Prop :=
  ∀ entry ∈ entries, isSection entry.1 = true ∨ entry.1.isWritable = true

theorem warnSections_announced (h : Announced entries) (w : List ConfigWarning) :
    ∃ w', warnSections entries w = (.ok (), w') := by
  induction entries generalizing w with
  | nil => exact ⟨w, rfl⟩
  | cons entry entries ih =>
    obtain ⟨here, later⟩ := List.forall_mem_cons.1 h
    obtain ⟨key, value⟩ := entry
    cases known : isSection key with
    | true =>
      obtain ⟨w', rest⟩ := ih later w
      refine ⟨w', ?_⟩
      simp [warnSections, known, rest]
    | false =>
      have shown : key.isWritable = true := here.resolve_left (by rw [known]; decide)
      obtain ⟨w', rest⟩ := ih later (w ++ [.unknownSection key.plain])
      refine ⟨w', ?_⟩
      simp [warnSections, known, Action.bind_apply, warn_apply, shown, rest]

theorem warnSections_unannounced (h : ¬ Announced entries) (w : List ConfigWarning) :
    ∃ w', warnSections entries w = (.error .unwritable, w') := by
  induction entries generalizing w with
  | nil => exact absurd (List.forall_mem_nil _) h
  | cons entry entries ih =>
    obtain ⟨key, value⟩ := entry
    cases known : isSection key with
    | true =>
      obtain ⟨w', rest⟩ := ih (fun later => h (List.forall_mem_cons.2 ⟨.inl known, later⟩)) w
      refine ⟨w', ?_⟩
      simp [warnSections, known, rest]
    | false =>
      cases shown : key.isWritable with
      | true =>
        obtain ⟨w', rest⟩ :=
          ih (fun later => h (List.forall_mem_cons.2 ⟨.inr shown, later⟩)) (w ++ [.unknownSection key.plain])
        refine ⟨w', ?_⟩
        simp [warnSections, known, Action.bind_apply, warn_apply, shown, rest]
      | false =>
        refine ⟨w, ?_⟩
        simp [warnSections, known, Action.bind_apply, warn_apply, shown]

inductive Ends (entries : List (Value × Value)) : Except ConfigFault Config → Prop
  | unannounced (hidden : ¬ Announced entries) : Ends entries (.error .unwritable)
  | machine (announced : Announced entries) {e : ConfigFault} (failed : readMachine entries = .error e) :
      Ends entries (.error e)
  | display (announced : Announced entries) {machine : MachineSettings} (read : readMachine entries = .ok machine)
      {e : ConfigFault} (failed : readDisplay entries = .error e) : Ends entries (.error e)
  | keymap (announced : Announced entries) {machine : MachineSettings} (read : readMachine entries = .ok machine)
      {display : DisplaySettings} (shown : readDisplay entries = .ok display) {e : ConfigFault}
      (failed : KeymapEnds entries (.error e)) : Ends entries (.error e)
  | read (announced : Announced entries) {machine : MachineSettings} (read : readMachine entries = .ok machine)
      {display : DisplaySettings} (shown : readDisplay entries = .ok display) {keymap : Keymap}
      (keys : KeymapEnds entries (.ok keymap)) : Ends entries (.ok { machine, display, keymap })

theorem readEntries_ends (entries : List (Value × Value)) (w : List ConfigWarning) :
    Ends entries (readEntries entries w).1 := by
  unfold readEntries
  by_cases announced : Announced entries
  · obtain ⟨w₁, warned⟩ := warnSections_announced announced w
    rw [Action.bind_ok warned]
    cases read : readMachine entries with
    | error e => exact .machine announced read
    | ok machine =>
      cases shown : readDisplay entries with
      | error e => exact .display announced read shown
      | ok display =>
        have ends := readKeymap_ends entries w₁
        simp only [lift, Action.bind_apply, Action.pure_apply]
        rcases ended : readKeymap entries w₁ with ⟨e | keymap, w₂⟩
        · rw [ended] at ends
          exact .keymap announced read shown ends
        · rw [ended] at ends
          exact .read announced read shown ends
  · obtain ⟨w₁, warned⟩ := warnSections_unannounced announced w
    rw [Action.bind_error warned]
    exact .unannounced announced

/-- The reading comes to a section that is no mapping. -/
def Meets (entries : List (Value × Value)) : Prop :=
  Announced entries ∧
    (Unfit "machine" entries ∨
      (∃ machine, readMachine entries = .ok machine) ∧
        (Unfit "display" entries ∨
          (∃ display, readDisplay entries = .ok display) ∧ Unfit "keymap" entries))

theorem KeymapEnds.unfit_iff {e : ConfigFault} (h : KeymapEnds entries (.error e)) :
    e.isRefusal = false ↔ Unfit "keymap" entries := by
  cases h with
  | unfit found truthy noMap => exact iff_of_true rfl ⟨_, found, truthy, noMap⟩
  | unprintable found hidden =>
    refine iff_of_false (by decide) ?_
    rintro ⟨v, there, -, noMap⟩
    exact noMap _ (Option.some.inj (there.symm.trans found))

theorem KeymapEnds.not_unfit {keymap : Keymap} (h : KeymapEnds entries (.ok keymap)) :
    ¬ Unfit "keymap" entries := by
  rintro ⟨v, there, truthy, noMap⟩
  cases h with
  | idle idle => exact absurd truthy (by rw [idle v there]; decide)
  | keys found => exact noMap _ (Option.some.inj (there.symm.trans found))

theorem Ends.error_iff {r : Except ConfigFault Config} (h : Ends entries r) :
    (∃ e, r = .error e ∧ e.isRefusal = false) ↔ Meets entries := by
  cases h with
  | unannounced hidden =>
    refine iff_of_false ?_ fun meets => hidden meets.1
    rintro ⟨e, same, other⟩
    cases same
    cases other
  | machine announced failed => simp [Meets, announced, ← readMachine_unfit, failed]
  | display announced read failed =>
    simp [Meets, announced, ← readMachine_unfit, ← readDisplay_unfit, read, failed]
  | keymap announced read shown failed =>
    simp [Meets, announced, ← readMachine_unfit, ← readDisplay_unfit, read, shown, failed.unfit_iff]
  | read announced read shown keys =>
    simp [Meets, announced, ← readMachine_unfit, ← readDisplay_unfit, read, shown, keys.not_unfit]

/-- What a configuration is that was read from a mapping. -/
structure Settled (entries : List (Value × Value)) (c : Config) : Prop where
  instructionsPerFrame : 0 < c.machine.instructionsPerFrame
  timerHz : 0 < c.machine.timerHz
  scale : 0 < c.display.scale
  range : ∀ entry ∈ c.keymap, 0 ≤ entry.2 ∧ entry.2 < 16
  once : (c.keymap.map Prod.fst).Nodup
  standard : Idle "keymap" entries → c.keymap = defaultKeymap
  last : ∀ inner, lookup? "keymap" entries = some (.map inner) → inner ≠ [] →
    ∀ name n, (name, n) ∈ c.keymap ↔ LastFor name n inner

theorem KeymapEnds.range (h : KeymapEnds entries (.ok keymap)) : ∀ entry ∈ keymap, 0 ≤ entry.2 ∧ entry.2 < 16 := by
  cases h with
  | idle => decide
  | keys =>
    rintro ⟨name, n⟩ there
    exact (((foldl_assign _).2 name n).1 there).range

theorem KeymapEnds.once (h : KeymapEnds entries (.ok keymap)) : (keymap.map Prod.fst).Nodup := by
  cases h with
  | idle => decide
  | keys => exact (foldl_assign _).1

theorem KeymapEnds.standard (h : KeymapEnds entries (.ok keymap)) (idle : Idle "keymap" entries) :
    keymap = defaultKeymap := by
  cases h with
  | idle => rfl
  | @keys inner found some =>
    cases inner with
    | nil => exact absurd rfl some
    | cons => cases idle _ found

theorem KeymapEnds.last (h : KeymapEnds entries (.ok keymap)) (found : lookup? "keymap" entries = some (.map inner))
    (some : inner ≠ []) : (name, n) ∈ keymap ↔ LastFor name n inner := by
  cases h with
  | idle idle =>
    cases inner with
    | nil => exact absurd rfl some
    | cons => cases idle _ found
  | keys there =>
    cases there.symm.trans found
    exact (foldl_assign _).2 name n

theorem Ends.settled {c : Config} (h : Ends entries (.ok c)) : Settled entries c := by
  cases h with
  | read announced read shown keys =>
    obtain ⟨frames, ticks⟩ := readMachine_pos read
    exact {
      instructionsPerFrame := frames
      timerHz := ticks
      scale := readDisplay_pos shown
      range := keys.range
      once := keys.once
      standard := keys.standard
      last := fun _ found some _ _ => keys.last found some }

theorem Ends.ok_iff {r : Except ConfigFault Config} (h : Ends entries r) (announced : Announced entries)
    {machine : MachineSettings} (read : readMachine entries = .ok machine) {display : DisplaySettings}
    (shown : readDisplay entries = .ok display) (found : lookup? "keymap" entries = some (.map inner)) :
    (∃ c, r = .ok c) ↔ ∀ entry ∈ inner, Printable entry := by
  have printable : ∀ {keys : Keymap}, KeymapEnds entries (.ok keys) → ∀ entry ∈ inner, Printable entry := by
    intro keys ends
    cases ends with
    | idle idle =>
      cases inner with
      | nil => exact List.forall_mem_nil _
      | cons => cases idle _ found
    | keys there _ printable =>
      cases there.symm.trans found
      exact printable
  cases h with
  | unannounced hidden => exact absurd announced hidden
  | machine _ failed => cases failed.symm.trans read
  | display _ _ failed => cases failed.symm.trans shown
  | keymap _ _ _ failed =>
    refine iff_of_false (fun ⟨c, same⟩ => by cases same) fun printable => ?_
    cases failed with
    | unfit there _ noMap => exact noMap _ (Option.some.inj (there.symm.trans found))
    | unprintable there hidden =>
      cases there.symm.trans found
      exact hidden printable
  | read _ _ _ keys => exact iff_of_true ⟨_, rfl⟩ (printable keys)

theorem make_of_pos (τ : Type) {instructionsPerFrame timerHz : Int} (frames : 0 < instructionsPerFrame)
    (ticks : 0 < timerHz) :
    Pacer.make τ instructionsPerFrame timerHz 5 = .ok { instructionsPerFrame, timerHz, maxCatchUp := 5 } := by
  unfold Pacer.make
  rw [if_neg (Int.not_le.2 frames), if_neg (Int.not_le.2 ticks), if_neg (by decide)]

/-- A value gives a configuration or is refused, but for one that has a section which is no mapping and is come to.
A configuration has positive settings, which a pacer takes, and each host key with the last usable entry for it. The
entries of the key map that are not usable are skipped; but for one that no warning can show they are no fault. -/
theorem ofMapping_exact (τ : Type) (v : Value) (w : List ConfigWarning) :
    ((∃ e, (ofMapping v w).1 = .error e ∧ e.isRefusal = false) ↔
      ∃ entries, v = .map entries ∧ Meets entries) ∧
    (∀ c, (ofMapping v w).1 = .ok c → ∃ entries, v = .map entries ∧ Settled entries c ∧
      ∃ p : Pacer τ, Pacer.make τ c.machine.instructionsPerFrame c.machine.timerHz 5 = .ok p) ∧
    ∀ entries inner, v = .map entries → Announced entries → (∃ machine, readMachine entries = .ok machine) →
      (∃ display, readDisplay entries = .ok display) → lookup? "keymap" entries = some (.map inner) →
      ((∃ c, (ofMapping v w).1 = .ok c) ↔ ∀ entry ∈ inner, Printable entry) := by
  by_cases mapping : ∃ entries, v = .map entries
  · obtain ⟨entries, rfl⟩ := mapping
    have ends : Ends entries (ofMapping (.map entries) w).1 := readEntries_ends entries w
    refine ⟨?_, fun c read => ?_, ?_⟩
    · simp only [ends.error_iff, Value.map.injEq, exists_eq_left']
    · have settled : Settled entries c := (read ▸ ends).settled
      exact ⟨entries, rfl, settled, _, make_of_pos τ settled.instructionsPerFrame settled.timerHz⟩
    · rintro _ inner ⟨⟩ announced ⟨machine, read⟩ ⟨display, shown⟩ found
      exact ends.ok_iff announced read shown found
  · have refused : (ofMapping v w).1 = .error (.rootNotMapping v.typeName) := by
      cases v with
      | map entries => exact absurd ⟨entries, rfl⟩ mapping
      | _ => rfl
    refine ⟨iff_of_false ?_ ?_, fun c read => ?_, ?_⟩
    · rintro ⟨e, raised, other⟩
      cases refused.symm.trans raised
      cases other
    · rintro ⟨entries, rfl, -⟩
      exact mapping ⟨entries, rfl⟩
    · cases refused.symm.trans read
    · rintro entries inner rfl
      exact absurd ⟨entries, rfl⟩ mapping

/-- Host keys in both cases, a key outside the keypad and a text that is no number. -/
def repeatedKeys : List (Value × Value) :=
  [(.text "q", .int 4), (.text "Q", .text "0x5"), (.text "w", .int 16), (.text "q", .text "seven")]

theorem ofMapping_exact_repeated :
    (ofMapping (.map [(.text "keymap", .map repeatedKeys)]) []).1 = .ok { keymap := [("Q", 5)] } ∧
      LastFor "Q" 5 repeatedKeys := by
  have read : (ofMapping (.map [(.text "keymap", .map repeatedKeys)]) []).1 = .ok { keymap := [("Q", 5)] } := by
    decide +kernel
  obtain ⟨-, settled, -⟩ := ofMapping_exact Rat (.map [(.text "keymap", .map repeatedKeys)]) []
  obtain ⟨_, ⟨⟩, settled, -⟩ := settled _ read
  exact ⟨read, (settled.last repeatedKeys rfl (List.cons_ne_nil _ _) "Q" 5).1 (List.mem_singleton.2 rfl)⟩

/-- A section that is a list is asked for its entries, which is no refusal of it. -/
theorem ofMapping_list : ofMapping (.map [(.text "machine", .list [.int 1])]) [] =
      (.error (.notMapping "list" "get"), []) ∧
    (ConfigFault.notMapping "list" "get").isRefusal = false :=
  ⟨rfl, rfl⟩

end Config

end Chip8
