import Chip8.Proofs.Operands

/-! What assembling depends on. The parts of a source are its labels and its statements in their order; empty lines
and the numbers of lines leave no trace in them, and the passes look at nothing else (`assemble_parts`). Parts that
both passes treat alike can stand for each other (`assembleParts_alike`). -/

namespace Chip8

namespace Assembly

inductive Part
  | label (name : String)
  | statement (s : Statement)

def SourceLine.parts (l : SourceLine) : List Part :=
  (l.name?.map Part.label).toList ++ (l.statement?.map Part.statement).toList

namespace Part

/-- A part in the first pass; none if it is a fault. -/
def reserve (p : Symbols × Int) : Part → Option (Symbols × Int)
  | label name => if (p.1.address? name).isSome then none else some (p.1 ++ [(name, p.2)], p.2)
  | statement (.origin text) => (valueOf [] text).toOption.map fun next => (p.1, next)
  | statement s => some (p.1, p.2 + s.size)

def emit (symbols : Symbols) (p : List (Int × UInt8) × Int) : Part → Option (List (Int × UInt8) × Int)
  | label _ => some p
  | statement (.origin text) => (valueOf [] text).toOption.map fun next => (p.1, next)
  | statement s => (s.emit symbols).toOption.map fun bytes => (p.1 ++ place p.2 bytes, p.2 + bytes.length)

end Part

def sourceParts (lines : List (List Char)) : List Part := lines.flatMap fun line => (SourceLine.parse line).parts

def assembleParts (parts : List Part) : Option ObjectCode := do
  let reserved ← parts.foldlM Part.reserve ([], 0x200)
  let emitted ← parts.foldlM (Part.emit reserved.1) ([], 0x200)
  pure { symbols := reserved.1, bytes := emitted.1 }

variable {σ ε α β : Type}

theorem toOption_bind (x : Except ε α) (f : α → Except ε β) :
    (x >>= f).toOption = x.toOption >>= fun a => (f a).toOption := by
  cases x <;> rfl

theorem toOption_atLine (line : Nat) (x : Except SourceFault α) : (atLine line x).toOption = x.toOption := by
  cases x <;> rfl

theorem label_parts (line : Nat) (p : Symbols × Int) (l : SourceLine) :
    (l.name?.map Part.label).toList.foldlM Part.reserve p =
      (define line p.2 p.1 l.label).toOption.map fun symbols => (symbols, p.2) := by
  unfold SourceLine.name?
  cases l.label with
  | none => rfl
  | some label =>
    cases label with
    | nil => rfl
    | cons c cs =>
      show Part.reserve p (.label (String.ofList (c :: cs))) >>= pure = _
      rw [bind_pure]
      simp only [Part.reserve, define, List.isEmpty_cons, Bool.false_eq_true, if_false]
      split <;> rfl

theorem statement_parts (line : Nat) (p : Symbols × Int) (l : SourceLine) :
    (l.statement?.map Part.statement).toList.foldlM Part.reserve p =
      (counterBehind line p.2 l.statement?).toOption.map fun next => (p.1, next) := by
  cases l.statement? with
  | none => rfl
  | some s =>
    show Part.reserve p (.statement s) >>= pure = _
    rw [bind_pure]
    cases s with
    | origin text =>
      show _ = (atLine line (valueOf [] text)).toOption.map _
      rw [toOption_atLine]
      rfl
    | _ => rfl

theorem reserve_parts (line : Nat) (p : Symbols × Int) (l : SourceLine) :
    (reserve line p l).toOption = l.parts.foldlM Part.reserve p := by
  rw [SourceLine.parts, List.foldlM_append, label_parts line, reserve, toOption_bind]
  cases (define line p.2 p.1 l.label).toOption with
  | none => rfl
  | some symbols =>
    show _ = (l.statement?.map Part.statement).toList.foldlM Part.reserve (symbols, p.2)
    rw [statement_parts line]
    show (counterBehind line p.2 l.statement? >>= fun next => pure (symbols, next)).toOption = _
    cases counterBehind line p.2 l.statement? <;> rfl

theorem emitLine_parts (symbols : Symbols) (line : Nat) (p : List (Int × UInt8) × Int) (l : SourceLine) :
    (emitLine symbols line p l).toOption = l.parts.foldlM (Part.emit symbols) p := by
  have labels : (l.name?.map Part.label).toList.foldlM (Part.emit symbols) p = some p := by
    cases l.name? <;> rfl
  rw [SourceLine.parts, List.foldlM_append, labels, emitLine]
  cases l.statement? with
  | none => rfl
  | some s =>
    show _ = Part.emit symbols p (.statement s) >>= pure
    rw [bind_pure]
    cases s with
    | origin text =>
      show (atLine line (valueOf [] text) >>= fun next => pure (p.1, next)).toOption = _
      rw [toOption_bind, toOption_atLine, Part.emit]
      cases valueOf [] text <;> rfl
    | bytes items | words items | instruction name text =>
      dsimp only
      simp only [toOption_bind, toOption_atLine, Part.emit]
      cases Statement.emit symbols _ <;> rfl

theorem foldLines_parts {step : Nat → σ → SourceLine → Except ε σ} {act : σ → Part → Option σ}
    (h : ∀ line s l, (step line s l).toOption = l.parts.foldlM act s) (line : Nat) (s : σ) (ls : List SourceLine) :
    (foldLines step line s ls).toOption = (ls.flatMap SourceLine.parts).foldlM act s := by
  induction ls generalizing line s with
  | nil => rfl
  | cons l ls ih =>
    rw [foldLines_cons, toOption_bind, h, List.flatMap_cons, List.foldlM_append]
    exact congrArg _ (funext fun s' => ih (line + 1) s')

/-- Whether and what a source assembles to depends on its parts only. -/
theorem assemble_parts (lines : List (List Char)) : (assemble lines).toOption = assembleParts (sourceParts lines) := by
  have parts : sourceParts lines = (lines.map SourceLine.parse).flatMap SourceLine.parts := by
    rw [sourceParts, List.flatMap_map]
  have bytes (symbols : Symbols) : emitFrom symbols 1 0x200 (lines.map SourceLine.parse) =
      (foldLines (emitLine symbols) 1 ([], 0x200) (lines.map SourceLine.parse)).map Prod.fst := by
    rw [← emitFrom_eq_map]
    cases emitFrom symbols 1 0x200 (lines.map SourceLine.parse) <;> rfl
  rw [parts, assembleParts, ← foldLines_parts reserve_parts 1, assemble, toOption_bind, collect_eq_map]
  cases foldLines reserve 1 ([], 0x200) (lines.map SourceLine.parse) with
  | error why => rfl
  | ok reserved =>
    dsimp only [Except.map, Except.toOption, Option.bind_eq_bind, Option.bind_some]
    rw [bytes, ← foldLines_parts (emitLine_parts reserved.1) 1]
    cases foldLines (emitLine reserved.1) 1 ([], 0x200) (lines.map SourceLine.parse) <;> rfl

/-- Parts that both passes treat alike. -/
structure Part.Alike (a b : Part) : Prop where
  reserve : ∀ p, a.reserve p = b.reserve p
  emit : ∀ symbols p, a.emit symbols p = b.emit symbols p

theorem Part.Alike.refl (a : Part) : a.Alike a := ⟨fun _ => rfl, fun _ _ => rfl⟩

theorem alike_self (parts : List Part) : List.Forall₂ Part.Alike parts parts :=
  List.forall₂_same.2 fun a _ => .refl a

theorem foldlM_alike {act : σ → Part → Option σ} {as bs : List Part}
    (h : List.Forall₂ (fun a b => ∀ s, act s a = act s b) as bs) (s : σ) : as.foldlM act s = bs.foldlM act s := by
  induction h generalizing s with
  | nil => rfl
  | cons same _ ih =>
    rw [List.foldlM_cons, List.foldlM_cons, same]
    exact congrArg _ (funext ih)

theorem assembleParts_alike {as bs : List Part} (h : List.Forall₂ Part.Alike as bs) :
    assembleParts as = assembleParts bs := by
  have first := foldlM_alike (h.imp fun _ _ same => same.reserve) ([], 0x200)
  rw [assembleParts, assembleParts, first]
  exact congrArg _ (funext fun reserved => by
    rw [foldlM_alike (h.imp fun _ _ same => same.emit reserved.1)])

end Assembly

end Chip8
