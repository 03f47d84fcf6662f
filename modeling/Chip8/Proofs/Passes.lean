import Chip8.Assembly
import Chip8.Proofs.Memory

/-! The two passes of the assembler, line by line. Each is a fold over the lines with a location counter
(`collect_eq_map`, `emitFrom_eq_map`), and the counters move alike: the second pass moves it by the bytes that
it emits, the first by the size of the statement, which is their number (`length_emit`). -/

namespace Chip8

namespace Assembly

variable {σ ε : Type}

theorem bind_eq_ok {α β : Type} {x : Except ε α} {f : α → Except ε β} {b : β} (h : x >>= f = .ok b) :
    ∃ a, x = .ok a ∧ f a = .ok b := by
  cases x with
  | error why => cases h
  | ok a => exact ⟨a, rfl, h⟩

def foldLines (step : Nat → σ → SourceLine → Except ε σ) : Nat → σ → List SourceLine → Except ε σ
  | _, s, [] => .ok s
  | line, s, l :: ls => do
    let s ← step line s l
    foldLines step (line + 1) s ls

variable {step : Nat → σ → SourceLine → Except ε σ}

theorem foldLines_cons (line : Nat) (s : σ) (l : SourceLine) (ls : List SourceLine) :
    foldLines step line s (l :: ls) = step line s l >>= fun s => foldLines step (line + 1) s ls := rfl

theorem foldLines_snoc (line : Nat) (s : σ) (ls : List SourceLine) (l : SourceLine) :
    foldLines step line s (ls ++ [l]) =
      foldLines step line s ls >>= fun s => step (line + ls.length) s l := by
  induction ls generalizing line s with
  | nil =>
    rw [List.nil_append, foldLines_cons]
    show _ = step line s l
    cases step line s l <;> rfl
  | cons first ls ih =>
    rw [List.cons_append, foldLines_cons, foldLines_cons]
    cases step line s first with
    | error why => rfl
    | ok s' =>
      have count : line + (first :: ls).length = line + 1 + ls.length := by
        rw [List.length_cons]
        omega
      rw [count]
      exact ih (line + 1) s'

/-- What succeeds for all lines succeeds for the first of them. -/
theorem foldLines_prefix {line : Nat} {s s' : σ} {ls later : List SourceLine}
    (h : foldLines step line s (ls ++ later) = .ok s') : ∃ middle, foldLines step line s ls = .ok middle := by
  induction ls generalizing line s with
  | nil => exact ⟨s, rfl⟩
  | cons first ls ih =>
    obtain ⟨s₁, stepped, rest⟩ := bind_eq_ok h
    obtain ⟨middle, run⟩ := ih rest
    refine ⟨middle, ?_⟩
    rw [foldLines_cons, stepped]
    exact run

/-- Where all lines succeed and each goes from one of a row of states to the next, the first lines lead to
their state. -/
theorem foldLines_take (state : Nat → σ) {ls : List SourceLine} {s final : σ}
    (h : foldLines step 1 s ls = .ok final) (start : state 0 = s)
    (next : ∀ k l line s', ls[k]? = some l → step line (state k) l = .ok s' → s' = state (k + 1)) {k : Nat}
    (hk : k ≤ ls.length) : foldLines step 1 s (ls.take k) = .ok (state k) := by
  induction k with
  | zero =>
    rw [start]
    rfl
  | succ k ih =>
    have line : ls[k]? = some ls[k] := List.getElem?_eq_getElem hk
    -- That this line succeeds is known only because all lines do.
    obtain ⟨s', whole⟩ : ∃ s', foldLines step 1 s (ls.take (k + 1)) = .ok s' := by
      rw [← List.take_append_drop (k + 1) ls] at h
      exact foldLines_prefix h
    rw [List.take_succ_eq_append_getElem hk, foldLines_snoc, ih (Nat.le_of_succ_le hk)] at whole ⊢
    rw [← next k ls[k] _ s' line whole]
    exact whole

/-- Each line goes from its state to the next. -/
theorem foldLines_step (state : Nat → σ) {ls : List SourceLine} {s : σ}
    (h : ∀ k ≤ ls.length, foldLines step 1 s (ls.take k) = .ok (state k)) {k : Nat} {l : SourceLine}
    (line : ls[k]? = some l) : ∃ number, step number (state k) l = .ok (state (k + 1)) := by
  obtain ⟨hk, rfl⟩ := List.getElem?_eq_some_iff.1 line
  have whole := h (k + 1) hk
  rw [List.take_succ_eq_append_getElem hk, foldLines_snoc, h k (Nat.le_of_lt hk)] at whole
  exact ⟨_, whole⟩

/-- A line of the first pass: its label gets the counter, which moves on. -/
def reserve (line : Nat) (p : Symbols × Int) (l : SourceLine) : Except AssemblyFault (Symbols × Int) := do
  let symbols ← define line p.2 p.1 l.label
  let next ← counterBehind line p.2 l.statement?
  pure (symbols, next)

/-- A line of the second pass: its bytes stand from the counter on, which moves behind them. -/
def emitLine (symbols : Symbols) (line : Nat) (p : List (Int × UInt8) × Int) (l : SourceLine) :
    Except AssemblyFault (List (Int × UInt8) × Int) :=
  match l.statement? with
  | none => .ok p
  | some (.origin text) => do
    let next ← originOf line text
    pure (p.1, next)
  | some s => do
    let bytes ← atLine line (s.emit symbols)
    pure (p.1 ++ place p.2 bytes, p.2 + bytes.length)

def firstPass (ls : List SourceLine) : Except AssemblyFault (Symbols × Int) :=
  foldLines reserve 1 ([], 0x200) ls

def secondPass (symbols : Symbols) (ls : List SourceLine) : Except AssemblyFault (List (Int × UInt8) × Int) :=
  foldLines (emitLine symbols) 1 ([], 0x200) ls

theorem collect_eq_map (line : Nat) (counter : Int) (symbols : Symbols) (ls : List SourceLine) :
    collect line counter symbols ls = (foldLines reserve line (symbols, counter) ls).map Prod.fst := by
  induction ls generalizing line counter symbols with
  | nil => rfl
  | cons l ls ih =>
    rw [collect, foldLines_cons, reserve]
    cases define line counter symbols l.label with
    | error why => rfl
    | ok symbols' =>
      cases counterBehind line counter l.statement? with
      | error why => rfl
      | ok next => exact ih (line + 1) next symbols'

theorem emitFrom_eq_map (symbols : Symbols) (line : Nat) (counter : Int) (bytes : List (Int × UInt8))
    (ls : List SourceLine) :
    (emitFrom symbols line counter ls).map (bytes ++ ·) =
      (foldLines (emitLine symbols) line (bytes, counter) ls).map Prod.fst := by
  induction ls generalizing line counter bytes with
  | nil =>
    show Except.ok (bytes ++ []) = _
    rw [List.append_nil]
    rfl
  | cons l ls ih =>
    rw [foldLines_cons]
    unfold emitFrom emitLine
    cases l.statement? with
    | none => exact ih (line + 1) counter bytes
    | some s =>
      cases s with
      | origin text =>
        dsimp only
        cases originOf line text with
        | error why => rfl
        | ok next => exact ih (line + 1) next bytes
      | bytes items | words items | instruction name text =>
        dsimp only
        cases atLine line (Statement.emit symbols _) with
        | error why => rfl
        | ok block =>
          refine Eq.trans ?_ (ih (line + 1) (counter + block.length) (bytes ++ place counter block))
          dsimp only [bind, Except.bind]
          cases emitFrom symbols (line + 1) (counter + block.length) ls with
          | error why => rfl
          | ok later => exact congrArg Except.ok (List.append_assoc ..).symm

theorem map_fst_eq_ok {α β : Type} {x : Except ε (α × β)} {a : α} (h : x.map Prod.fst = .ok a) :
    ∃ b, x = .ok (a, b) := by
  cases x with
  | error why => cases h
  | ok p =>
    cases h
    exact ⟨p.2, rfl⟩

theorem assemble_eq_ok {lines : List (List Char)} {code : ObjectCode} (h : assemble lines = .ok code) :
    (∃ counter, firstPass (lines.map SourceLine.parse) = .ok (code.symbols, counter)) ∧
      ∃ counter, secondPass code.symbols (lines.map SourceLine.parse) = .ok (code.bytes, counter) := by
  obtain ⟨symbols, collected, rest⟩ := bind_eq_ok h
  obtain ⟨bytes, emitted, rest⟩ := bind_eq_ok rest
  cases rest
  rw [collect_eq_map] at collected
  have second := emitFrom_eq_map symbols 1 0x200 [] (lines.map SourceLine.parse)
  rw [emitted] at second
  exact ⟨map_fst_eq_ok collected, map_fst_eq_ok second.symm⟩

def SourceLine.name? (l : SourceLine) : Option String :=
  (l.label.filter fun label => !label.isEmpty).map String.ofList

def blockOf (symbols : Symbols) (l : SourceLine) : List UInt8 :=
  match l.statement? with
  | none => []
  | some s => (s.emit symbols).toOption.getD []

def moved (counter : Int) (l : SourceLine) : Int :=
  match l.statement? with
  | none => counter
  | some (.origin text) => (valueOf [] text).toOption.getD counter
  | some s => counter + s.size

theorem place_append (address : Int) (bs cs : List UInt8) :
    place address (bs ++ cs) = place address bs ++ place (address + bs.length) cs := by
  induction bs generalizing address with
  | nil => simp [place]
  | cons b bs ih =>
    have next : address + 1 + (bs.length : Int) = address + (bs.length + 1 : Nat) := by omega
    rw [List.cons_append, place, place, ih, List.cons_append, List.length_cons, next]

theorem mapM_eq_ok {α β : Type} {f : α → Except ε β} {xs : List α} {ys : List β} (h : xs.mapM f = .ok ys) :
    List.Forall₂ (fun x y => f x = .ok y) xs ys := by
  induction xs generalizing ys with
  | nil =>
    cases h
    exact .nil
  | cons x xs ih =>
    rw [List.mapM_cons] at h
    obtain ⟨y, value, h⟩ := bind_eq_ok h
    obtain ⟨zs, rest, h⟩ := bind_eq_ok h
    cases h
    exact .cons value (ih rest)

section Emission

variable {symbols : Symbols} {items : List (List Char)} {block : List UInt8}

abbrev Values (symbols : Symbols) (items : List (List Char)) (values : List Int) : Prop :=
  List.Forall₂ (fun text value => valueOf symbols text = .ok value) items values

theorem values_of_mapM {f : List Int → List UInt8}
    (h : (do
      let values ← items.mapM fun text => valueOf symbols text
      pure (f values)) = .ok block) :
    ∃ values, Values symbols items values ∧ block = f values := by
  obtain ⟨values, read, h⟩ := bind_eq_ok h
  cases h
  exact ⟨values, mapM_eq_ok read, rfl⟩

theorem emit_bytes (h : Statement.emit symbols (.bytes items) = .ok block) :
    ∃ values, Values symbols items values ∧ block = values.map lowByte := values_of_mapM h

theorem emit_words (h : Statement.emit symbols (.words items) = .ok block) :
    ∃ values, Values symbols items values ∧ block = values.flatMap wordBytes := values_of_mapM h

theorem emit_instruction {name text : List Char}
    (h : Statement.emit symbols (.instruction name text) = .ok block) :
    ∃ w, encode symbols name text = .ok w ∧ block = wordBytes w := by
  obtain ⟨w, encoded, h⟩ := bind_eq_ok h
  cases h
  exact ⟨w, encoded, rfl⟩

/-- A statement emits as many bytes as were reserved for it. -/
theorem length_emit {s : Statement} (h : s.emit symbols = .ok block) : block.length = s.size := by
  cases s with
  | origin text =>
    cases h
    rfl
  | bytes items =>
    obtain ⟨values, read, rfl⟩ := emit_bytes h
    rw [List.length_map]
    exact read.length_eq.symm
  | words items =>
    obtain ⟨values, read, rfl⟩ := emit_words h
    have count : values.length = items.length := read.length_eq.symm
    simp [List.length_flatMap, wordBytes, count, Statement.size, Nat.mul_comm]
  | instruction name text =>
    obtain ⟨w, -, rfl⟩ := emit_instruction h
    rfl

end Emission

variable {line : Nat} {symbols : Symbols} {l : SourceLine}

theorem atLine_eq_ok {α : Type} {x : Except SourceFault α} {a : α} (h : atLine line x = .ok a) :
    x = .ok a := by
  cases x with
  | error why => cases h
  | ok b =>
    cases h
    rfl

theorem originOf_eq_ok {text : List Char} {next : Int} (h : originOf line text = .ok next) :
    valueOf [] text = .ok next := atLine_eq_ok h

theorem counterBehind_eq_ok {counter next : Int} (h : counterBehind line counter l.statement? = .ok next) :
    next = moved counter l := by
  unfold moved
  cases statement : l.statement? with
  | none =>
    rw [statement] at h
    cases h
    rfl
  | some s =>
    rw [statement] at h
    cases s with
    | origin text =>
      dsimp only
      rw [originOf_eq_ok h]
      rfl
    | _ =>
      cases h
      rfl

theorem define_eq_ok {counter : Int} {symbols' : Symbols}
    (h : define line counter symbols l.label = .ok symbols') :
    symbols' = symbols ++ (l.name?.map fun name => (name, counter)).toList ∧
      ∀ name, l.name? = some name → symbols.address? name = none := by
  unfold SourceLine.name?
  cases label : l.label with
  | none =>
    rw [label] at h
    cases h
    exact ⟨(List.append_nil _).symm, nofun⟩
  | some cs =>
    rw [label] at h
    cases cs with
    | nil =>
      cases h
      exact ⟨(List.append_nil _).symm, nofun⟩
    | cons c cs =>
      rw [define, if_neg (by simp)] at h
      split at h
      · cases h
      · rename_i fresh
        cases h
        refine ⟨rfl, ?_⟩
        rintro name ⟨⟩
        simpa using fresh

theorem reserve_eq_ok {p p' : Symbols × Int} (h : reserve line p l = .ok p') :
    p' = (p.1 ++ (l.name?.map fun name => (name, p.2)).toList, moved p.2 l) ∧
      ∀ name, l.name? = some name → p.1.address? name = none := by
  obtain ⟨symbols, defined, h⟩ := bind_eq_ok h
  obtain ⟨next, behind, h⟩ := bind_eq_ok h
  cases h
  obtain ⟨rfl, fresh⟩ := define_eq_ok defined
  exact ⟨Prod.ext rfl (counterBehind_eq_ok behind), fresh⟩

theorem reserve_origin {p p' : Symbols × Int} (h : reserve line p l = .ok p') {text : List Char}
    (statement : l.statement? = some (.origin text)) : valueOf [] text = .ok p'.2 := by
  obtain ⟨symbols, -, h⟩ := bind_eq_ok h
  obtain ⟨next, behind, h⟩ := bind_eq_ok h
  cases h
  rw [statement] at behind
  exact originOf_eq_ok behind

theorem emitLine_eq_ok {p p' : List (Int × UInt8) × Int} (h : emitLine symbols line p l = .ok p') :
    p' = (p.1 ++ place p.2 (blockOf symbols l), moved p.2 l) ∧
      ∀ s, l.statement? = some s → s.emit symbols = .ok (blockOf symbols l) := by
  unfold emitLine at h
  unfold blockOf moved
  cases statement : l.statement? with
  | none =>
    rw [statement] at h
    cases h
    exact ⟨by simp [place], nofun⟩
  | some s =>
    rw [statement] at h
    cases s with
    | origin text =>
      dsimp only at h ⊢
      obtain ⟨next, moves, h⟩ := bind_eq_ok h
      cases h
      rw [originOf_eq_ok moves]
      refine ⟨by simp [place, Statement.emit, Except.toOption], ?_⟩
      rintro s ⟨⟩
      rfl
    | bytes items | words items | instruction name text =>
      dsimp only at h ⊢
      obtain ⟨block, emits, h⟩ := bind_eq_ok h
      have emit := atLine_eq_ok emits
      cases h
      rw [emit]
      refine ⟨?_, ?_⟩
      · rw [← length_emit emit]
        rfl
      · rintro s ⟨⟩
        exact emit

/-- But for an origin, a line moves the counter by the bytes that it emits. -/
theorem moved_eq_add (emits : ∀ s, l.statement? = some s → s.emit symbols = .ok (blockOf symbols l))
    (moves : ∀ text, l.statement? ≠ some (.origin text)) (counter : Int) :
    moved counter l = counter + (blockOf symbols l).length := by
  cases statement : l.statement? with
  | none => simp [moved, blockOf, statement]
  | some s =>
    have length := length_emit (emits s statement)
    unfold moved
    rw [statement, length]
    cases s with
    | origin text => exact absurd statement (moves text)
    | _ => rfl

end Assembly

end Chip8
