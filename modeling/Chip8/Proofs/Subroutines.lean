import Chip8.Proofs.Runs
import Chip8.Proofs.Tone

/-! Calls and returns. A call puts the address behind it on the stack and a return takes the uppermost address off;
nothing else a run is made of moves the stack pointer or writes to the stack (`move_flow`). So the stack pointer
counts the calls that have not returned, and the first return to the level of a call leads behind that call, with
all that lay below untouched (`calls_return`). -/

namespace Chip8

theorem State.stack_setStack_self (s : State) (k : Fin 16) (z : Int) : (s.setStack k z).stack.get k = z := by
  simp [State.setStack, Vector.get_eq_getElem]

theorem State.stack_setStack_of_ne (s : State) {k j : Fin 16} (ne : k ≠ j) (z : Int) :
    (s.setStack k z).stack.get j = s.stack.get j := by
  have ne' : k.val ≠ j.val := fun same => ne (Fin.ext same)
  simp [State.setStack, Vector.get_eq_getElem, ne']

/-- What an instruction does to the stack: a call from an address, a return, or neither. -/
inductive State.Flow (s s' : State) : Option Opcode → Prop
  | call (k : Fin 16) (room : s.sp = k.val) (above : s'.sp = k.val + 1)
      (pushed : s'.stack = (s.setStack k ((s.pc + 2) % 65536)).stack) : Flow s s' (some .call)
  | ret (k : Fin 16) (used : s.sp = k.val + 1) (below : s'.sp = k.val) (kept : s'.stack = s.stack)
      (pc : s'.pc = s.stack.get k) : Flow s s' (some .ret)
  | other {op : Option Opcode} (noCall : op ≠ some .call) (noRet : op ≠ some .ret) (level : s'.sp = s.sp)
      (kept : s'.stack = s.stack) : Flow s s' op

/-- The stack pointer lies on the stack or right above it. -/
def State.OnStack (s : State) : Prop := 0 ≤ s.sp ∧ s.sp ≤ 16

namespace State.Flow

variable {s s' : State} {op : Option Opcode}

theorem onStack (flow : s.Flow s' op) (h : s.OnStack) : s'.OnStack := by
  have low := h.1
  have high := h.2
  cases flow with
  | call k room above => constructor <;> omega
  | ret k used below => constructor <;> omega
  | other _ _ level =>
    rw [OnStack, level]
    exact h

theorem level (flow : s.Flow s' op) :
    s'.sp = s.sp + op.toList.count .call - op.toList.count .ret := by
  cases flow with
  | call k room above =>
    rw [room, above]
    rfl
  | ret k used below =>
    rw [used, below]
    show (k.val : Int) = (k.val + 1 : Int) + (0 : Nat) - (1 : Nat)
    omega
  | other noCall noRet level =>
    have calls : op.toList.count .call = 0 := List.count_eq_zero.2 fun member =>
      noCall (Option.mem_toList.1 member)
    have rets : op.toList.count .ret = 0 := List.count_eq_zero.2 fun member =>
      noRet (Option.mem_toList.1 member)
    rw [level, calls, rets]
    omega

theorem below (flow : s.Flow s' op) {k : Fin 16} (hk : k.val < s.sp) : s'.stack.get k = s.stack.get k := by
  cases flow with
  | call top room above pushed =>
    have ne : top ≠ k := fun same => by omega
    rw [pushed, s.stack_setStack_of_ne ne]
  | ret _ _ _ kept => rw [kept]
  | other _ _ _ kept => rw [kept]

end State.Flow

namespace Machine

variable {π : Type}

def flow (m : Machine π) : Int × Vector Int 16 := (m.state.sp, m.state.stack)

variable [Host π] {m : Machine π}

theorem steady_flow : Steady (flow : Machine π → Int × Vector Int 16) where
  bus _ _ := rfl
  state _ _ same := congrArg Prod.snd same
  clearDisplay _ := rfl
  render _ _ := rfl
  isPressed _ _ := rfl
  waitKey _ := rfl
  randomByte _ := rfl

/-- An opcode that completes does to the stack what it should, and one that fails does nothing to it. -/
theorem perform_flow (h : m.state.OnStack) (bus : Bus) (op : Opcode) (w : Nat) :
    let begun : Machine π := { m with bus, state := { m.state with pc := (m.state.pc + 2) % 65536 } }
    (∃ m', perform op w begun = (.ok (), m') ∧ m.state.Flow m'.state (some op)) ∨
      ∃ f m', perform op w begun = (.error f, m') ∧ m.state.Flow m'.state none := by
  intro begun
  have low := h.1
  have high := h.2
  by_cases isCall : op = .call
  · subst isCall
    by_cases full : 16 ≤ m.state.sp
    · exact .inr ⟨_, begun, call_full (fieldAddress w) full, .other nofun nofun rfl rfl⟩
    · have room : m.state.sp = (⟨m.state.sp.toNat, by omega⟩ : Fin 16).val := by simp only; omega
      exact .inl ⟨_, call_room (m := begun) (fieldAddress w) room, .call _ room (by rw [← room]) rfl⟩
  by_cases isRet : op = .ret
  · subst isRet
    by_cases empty : m.state.sp = 0
    · exact .inr ⟨_, begun, ret_empty empty, .other nofun nofun rfl rfl⟩
    · have used : m.state.sp = (⟨(m.state.sp - 1).toNat, by omega⟩ : Fin 16).val + 1 := by simp only; omega
      have below : m.state.sp - 1 = ((m.state.sp - 1).toNat : Int) := by omega
      exact .inl ⟨_, ret_used (m := begun) used, .ret _ used below rfl rfl⟩
  -- every other opcode keeps the stack, whether it completes or fails
  have kept := perform_keeps steady_flow op w (fun flow => (flow.elim isCall isRet).elim) begun
  rcases run : perform op w begun with ⟨f | ⟨⟩, m'⟩
  · rw [run] at kept
    exact .inr ⟨f, m', rfl, .other nofun nofun (congrArg Prod.fst kept) (congrArg Prod.snd kept)⟩
  · rw [run] at kept
    refine .inl ⟨m', rfl, .other ?_ ?_ (congrArg Prod.fst kept) (congrArg Prod.snd kept)⟩
    · exact fun same => isCall (Option.some.inj same)
    · exact fun same => isRet (Option.some.inj same)

def executed (m : Machine π) : Option Opcode :=
  match (step 1 m).1 with
  | .ok (some t) => some t.instruction.opcode
  | _ => none

theorem executed_of_stepOnce {m' : Machine π} {t : Trace} (loaded : m.state.isLoaded = true)
    (once : (chip8 π).stepOnce m = (.ok t, m')) : m.executed = some t.instruction.opcode := by
  rw [executed, step_one_of_stepOnce loaded once]

theorem executed_of_stepOnce_error {m' : Machine π} {f : Fault} (loaded : m.state.isLoaded = true)
    (once : (chip8 π).stepOnce m = (.error f, m')) : m.executed = none := by
  rw [executed, step_one_of_stepOnce_error loaded once]

theorem executed_unloaded (unloaded : ¬ m.state.isLoaded = true) : m.executed = none := by
  rw [executed, step_one, if_neg unloaded]

theorem step_flow (h : m.state.OnStack) : m.state.Flow (step 1 m).2.state m.executed := by
  by_cases loaded : m.state.isLoaded = true
  · rcases stepOnce_begins m with ⟨f, m₁, once, begun⟩ | ⟨i, m₁, once, begun, -⟩
    · rw [executed_of_stepOnce_error loaded once, step_one_of_stepOnce_error loaded once, begun]
      exact .other nofun nofun rfl rfl
    · rw [begun] at once
      rcases perform_flow h m₁.bus i.opcode i.word with ⟨m₂, run, flow⟩ | ⟨f, m₂, run, flow⟩
      · have completed := once.trans (Action.bind_ok run)
        rw [executed_of_stepOnce loaded completed, step_one_of_stepOnce loaded completed]
        exact flow
      · have failed := once.trans (Action.bind_error run)
        rw [executed_of_stepOnce_error loaded failed, step_one_of_stepOnce_error loaded failed]
        exact flow
  · rw [executed_unloaded loaded, step_one, if_neg loaded]
    exact .other nofun nofun rfl rfl

theorem address_of_executed (h : m.bus.IsMemory) {op : Opcode} (run : m.executed = some op) :
    0 ≤ m.state.pc ∧ m.state.pc < 4096 := by
  by_cases loaded : m.state.isLoaded = true
  · rcases stepOnce_begins m with ⟨f, m₁, once, -⟩ | ⟨i, m₁, -, -, -, byte, read⟩
    · rw [executed_of_stepOnce_error loaded once] at run
      cases run
    · exact h.inside_of_peek read
  · rw [executed_unloaded loaded] at run
    cases run

end Machine

/-- What a run of a machine is made of: single steps, ticks of the timers, programs that are loaded or offered,
symbols that are set, and changes of the host from outside. -/
inductive Move (π : Type)
  | step
  | tick
  | load (image : List UInt8)
  | offer (v : Value)
  | symbols (table : Symbols)
  | input (f : π → π)

namespace Machine

variable {π : Type}

theorem state_loadBlock (address : Int) (block : List UInt8) (m : Machine π) :
    (loadBlock address block m).2.state = m.state := by
  unfold loadBlock
  split <;> rfl

theorem state_reset (m : Machine π) : (reset m).2.state = {} := by
  rw [reset_def, Action.bind_ok (Action.modify_apply _ m)]
  refine Action.bind_invariant (P := fun m' : Machine π => m'.state = {}) (fun m' h => ?_) (fun _ m' h => ?_) _ rfl
  · exact (state_loadBlock _ _ m').trans h
  · refine Action.bind_invariant (P := fun m' : Machine π => m'.state = {}) (fun m' h => ?_) (fun _ m' h => h) _ h
    exact (state_loadBlock _ _ m').trans h

theorem flow_loadImage (image : List UInt8) (m : Machine π) : (loadImage image m).2.flow = m.flow := by
  cases refused : imageFault? image with
  | some why => rw [loadImage_rejected refused]
  | none =>
    have state := state_loadBlock programBase image m
    have unfolded : loadImage image m = (loadBlock programBase image >>= fun _ =>
        Core.modifyState fun s => { s with pc := programBase, programEnd := programBase + image.length } :
        Effect π Unit) m := by
      rw [loadImage, refused]
    rw [unfolded]
    rcases run : loadBlock programBase image m with ⟨f | ⟨⟩, m'⟩
    · rw [run] at state
      rw [Action.bind_error run, flow, flow, state]
    · rw [run] at state
      rw [Action.bind_ok run]
      show (m'.state.sp, m'.state.stack) = _
      rw [state]
      rfl

theorem flow_loadProgram (v : Value) (m : Machine π) : (loadProgram v m).2.flow = m.flow := by
  cases read : imageOfValue v with
  | error why => rw [loadProgram_rejected read]
  | ok image =>
    rw [loadProgram, read]
    exact flow_loadImage image m

variable [Host π] {m : Machine π}

def move (m : Machine π) : Move π → Machine π
  | .step => (step 1 m).2
  | .tick => m.tick
  | .load image => (loadImage image m).2
  | .offer v => (loadProgram v m).2
  | .symbols table => m.setSymbols table
  | .input f => { m with host := f m.host }

def follow (m : Machine π) (moves : List (Move π)) : Machine π := moves.foldl move m

theorem follow_cons (m : Machine π) (c : Move π) (moves : List (Move π)) :
    m.follow (c :: moves) = (m.move c).follow moves := rfl

def executedBy (m : Machine π) : Move π → Option Opcode
  | .step => m.executed
  | _ => none

/-- The opcodes of the instructions that a run completes, in order. -/
def opcodes (m : Machine π) : List (Move π) → List Opcode
  | [] => []
  | c :: moves => (m.executedBy c).toList ++ (m.move c).opcodes moves

omit [Host π] in
theorem flow_of_same {m' : Machine π} (same : m'.flow = m.flow) : m.state.Flow m'.state none :=
  .other nofun nofun (congrArg Prod.fst same) (congrArg Prod.snd same)

theorem move_flow (h : m.state.OnStack) (c : Move π) : m.state.Flow (m.move c).state (m.executedBy c) := by
  cases c with
  | step => exact step_flow h
  | tick =>
    have same : m.tick.flow = m.flow := by rw [tick_eq]; rfl
    exact flow_of_same same
  | load image => exact flow_of_same (flow_loadImage image m)
  | offer v => exact flow_of_same (flow_loadProgram v m)
  | symbols table => exact flow_of_same rfl
  | input f => exact flow_of_same rfl

theorem follow_onStack (h : m.state.OnStack) (moves : List (Move π)) : (m.follow moves).state.OnStack := by
  induction moves generalizing m with
  | nil => exact h
  | cons c moves ih => exact ih ((move_flow h c).onStack h)

/-- The stack pointer counts the calls that have not returned. -/
theorem follow_level (h : m.state.OnStack) (moves : List (Move π)) :
    (m.follow moves).state.sp =
      m.state.sp + (m.opcodes moves).count .call - (m.opcodes moves).count .ret := by
  induction moves generalizing m with
  | nil => simp [follow, opcodes]
  | cons c moves ih =>
    have flow := move_flow h c
    have level := flow.level
    have later := ih (flow.onStack h)
    rw [follow_cons, later, level, opcodes, List.count_append, List.count_append]
    omega

/-- The next instruction is a return that leaves the stack pointer at a level. -/
def ReturnsTo (d : Int) (m : Machine π) : Prop := m.executed = some .ret ∧ (step 1 m).2.state.sp = d

/-- No step of a run is a return to a level. -/
def StaysAbove (d : Int) (m : Machine π) (moves : List (Move π)) : Prop :=
  ∀ earlier later, moves = earlier ++ .step :: later → ¬ (m.follow earlier).ReturnsTo d

theorem StaysAbove.head {d : Int} {c : Move π} {moves : List (Move π)} (h : m.StaysAbove d (c :: moves))
    (step : c = .step) : ¬ m.ReturnsTo d := by
  subst step
  exact h [] moves rfl

theorem StaysAbove.tail {d : Int} {c : Move π} {moves : List (Move π)} (h : m.StaysAbove d (c :: moves)) :
    (m.move c).StaysAbove d moves := by
  intro earlier later split
  have whole : c :: moves = (c :: earlier) ++ .step :: later := by rw [split, List.cons_append]
  exact h (c :: earlier) later whole

/-- Within a call: the stack pointer lies above the level of the call, and the slots up to that level are as the call
left them. -/
structure Within (d : Fin 16) (slots : Vector Int 16) (s : State) : Prop where
  above : d.val < s.sp
  high : s.sp ≤ 16
  kept : ∀ k ≤ d, s.stack.get k = slots.get k

variable {d : Fin 16} {slots : Vector Int 16}

theorem Within.onStack {s : State} (h : Within d slots s) : s.OnStack :=
  ⟨by have := h.above; omega, h.high⟩

theorem executedBy_eq_some {c : Move π} {op : Opcode} (run : m.executedBy c = some op) :
    c = .step ∧ m.executed = some op := by
  cases c with
  | step => exact ⟨rfl, run⟩
  | _ => cases run

/-- A move stays within a call unless it is a return to the level of the call. -/
theorem move_within (h : Within d slots m.state) {c : Move π} (stays : c = .step → ¬ m.ReturnsTo d.val) :
    Within d slots (m.move c).state := by
  have flow := move_flow h.onStack c
  have above := h.above
  have kept : ∀ k ≤ d, (m.move c).state.stack.get k = slots.get k := fun k hk =>
    (flow.below (by have : k.val ≤ d.val := hk; omega)).trans (h.kept k hk)
  refine ⟨?_, (flow.onStack h.onStack).2, kept⟩
  generalize run : m.executedBy c = op at flow
  cases flow with
  | call k room up => omega
  | ret k used down =>
    -- the pointer was above the level, so it could only come to stand on it
    by_contra low
    obtain ⟨rfl, executed⟩ := executedBy_eq_some run
    have onLevel : (step 1 m).2.state.sp = d.val := by
      have lower : (step 1 m).2.state.sp = k.val := down
      have notAbove : ¬ (d.val : Int) < (step 1 m).2.state.sp := low
      omega
    exact stays rfl ⟨executed, onLevel⟩
  | other _ _ level => omega

theorem follow_within (h : Within d slots m.state) {moves : List (Move π)}
    (stays : m.StaysAbove d.val moves) : Within d slots (m.follow moves).state := by
  induction moves generalizing m with
  | nil => exact h
  | cons c moves ih => exact ih (move_within h stays.head) stays.tail

theorem StaysAbove.of_prefix {l : Int} {earlier moves : List (Move π)} (h : m.StaysAbove l moves)
    (first : earlier <+: moves) : m.StaysAbove l earlier := by
  obtain ⟨rest, rfl⟩ := first
  intro before after split
  refine h before (after ++ rest) ?_
  rw [split, List.append_assoc, List.cons_append]

theorem within_of_call (h : m.bus.IsMemory) (onStack : m.state.OnStack) (call : m.executed = some .call) :
    ∃ d : Fin 16, m.state.sp = d.val ∧
      Within d (m.state.setStack d (m.state.pc + 2)).stack (step 1 m).2.state := by
  have flow := step_flow onStack
  obtain ⟨low, high⟩ := address_of_executed h call
  have behind : (m.state.pc + 2) % 65536 = m.state.pc + 2 := by omega
  rw [call] at flow
  cases flow with
  | call d room above pushed =>
    rw [behind] at pushed
    refine ⟨d, room, ⟨by omega, by omega, fun k _ => ?_⟩⟩
    rw [pushed]
  | other noCall => exact absurd rfl noCall

theorem back_of_within {s : State} {back : Int} (h : Within d (s.setStack d back).stack m.state)
    (returns : m.ReturnsTo d.val) :
    (step 1 m).2.state.pc = back ∧ ∀ k < d, (step 1 m).2.state.stack.get k = s.stack.get k := by
  obtain ⟨ret, level⟩ := returns
  have flow := step_flow h.onStack
  rw [ret] at flow
  cases flow with
  | ret k used below kept pc =>
    obtain rfl : k = d := Fin.ext (by omega)
    refine ⟨?_, fun j hj => ?_⟩
    · rw [pc, h.kept k le_rfl, s.stack_setStack_self]
    · rw [kept, h.kept j (le_of_lt hj), s.stack_setStack_of_ne (ne_of_gt hj)]
  | other _ noRet => exact absurd rfl noRet

/-- Many instructions are that many single steps, or as many as it takes to fail. -/
theorem stepMany_follow (loaded : m.state.isLoaded = true) (n : Nat) (last : Option Trace) :
    ∃ k ≤ n, ((chip8 π).stepMany n last m).2 = m.follow (List.replicate k .step) := by
  induction n generalizing last m with
  | zero => exact ⟨0, le_rfl, rfl⟩
  | succ n ih =>
    rcases once : (chip8 π).stepOnce m with ⟨f | t, m'⟩
    · have one : m.move .step = m' := congrArg Prod.snd (step_one_of_stepOnce_error loaded once)
      refine ⟨1, Nat.succ_pos n, ?_⟩
      rw [stepMany_failed once]
      exact one.symm
    · have one : m.move .step = m' := congrArg Prod.snd (step_one_of_stepOnce loaded once)
      obtain ⟨k, most, later⟩ := ih (isLoaded_of_completed loaded once) (some t)
      refine ⟨k + 1, Nat.succ_le_succ most, ?_⟩
      rw [stepMany_completed once, later, List.replicate_succ, follow_cons, one]

theorem step_follow (n : Int) (m : Machine π) :
    ∃ k ≤ n.toNat, (step n m).2 = m.follow (List.replicate k .step) := by
  rw [step_eq]
  split
  · exact stepMany_follow ‹_› _ none
  · exact ⟨0, Nat.zero_le _, rfl⟩

/-- **Calls and returns.** A call at a level of the stack, and then any moves up to the first return to that level:
the return leads behind the call, the stack pointer is at the level again, and no slot below it has changed in
between. In a run from a reset the stack pointer is the number of calls less the number of returns that were
executed, and no further instruction changes a slot below it. All steps at once are single steps. -/
theorem calls_return (m : Machine π) (moves : List (Move π)) :
    (m.bus.IsMemory → ∀ d : Fin 16, m.state.sp = d.val → m.executed = some .call →
      let entered := (step 1 m).2
      let back := (step 1 (entered.follow moves)).2
      entered.StaysAbove d.val moves → (entered.follow moves).ReturnsTo d.val →
      back.state.pc = m.state.pc + 2 ∧ back.state.sp = d.val ∧
        ∀ k < d, (∀ earlier, earlier <+: moves → (entered.follow earlier).state.stack.get k = m.state.stack.get k) ∧
          back.state.stack.get k = m.state.stack.get k) ∧
    (let start := (reset m).2
      let now := start.follow moves
      now.state.sp = (start.opcodes moves).count .call - (start.opcodes moves).count .ret ∧
        ∀ k : Fin 16, k.val < now.state.sp → (step 1 now).2.state.stack.get k = now.state.stack.get k) ∧
    ∀ n, ∃ k ≤ n.toNat, (step n m).2 = m.follow (List.replicate k .step) := by
  refine ⟨fun memory d level call => ?_, ?_, fun n => step_follow n m⟩
  · intro entered back stays returns
    have onStack : m.state.OnStack := by
      constructor <;> omega
    obtain ⟨d', level', within⟩ := within_of_call memory onStack call
    obtain rfl : d' = d := Fin.ext (by omega)
    obtain ⟨pc, below⟩ := back_of_within (follow_within within stays) returns
    refine ⟨pc, returns.2, fun k hk => ⟨fun earlier first => ?_, below k hk⟩⟩
    have kept := (follow_within within (stays.of_prefix first)).kept k (le_of_lt hk)
    rw [kept, m.state.stack_setStack_of_ne (ne_of_gt hk)]
  · intro start now
    have empty : start.state.sp = 0 := congrArg State.sp (state_reset m)
    have onStack : start.state.OnStack := by
      constructor <;> omega
    have level := follow_level onStack moves
    rw [empty, Int.zero_add] at level
    exact ⟨level, fun k hk => (step_flow (follow_onStack onStack moves)).below hk⟩

theorem executed_fresh {image : List UInt8} {r r' : Reference} (h : m.Represents r) (hr : r.Bounded)
    (short : image.length ≤ 3584) (memory : r.memory = (Reference.fresh image).memory)
    (programEnd : r.programEnd = (Reference.fresh image).programEnd) {k : Nat} (pc : r.pc = 0x200 + k)
    (hk : k + 1 < image.length) {op : Opcode} {w : Nat}
    (word : (image.getD k 0).toNat * 256 + (image.getD (k + 1) 0).toNat = w) (fits : op.Fits w)
    (row : Reference.row op w (Answers.ofHost m.host) r.advance = .ok r') :
    m.executed = some op ∧ (step 1 m).2.Represents r' ∧ r'.Bounded := by
  obtain ⟨loaded, t, m', once, instruction, left⟩ := stepOnce_fresh h hr short memory programEnd pc hk word fits row
  rw [executed_of_stepOnce loaded once, step_one_of_stepOnce loaded once, instruction]
  exact ⟨rfl, left⟩

/-- A program of two calls, each of the instruction behind it, and a return. -/
def nested : List UInt8 := [0x22, 0x02, 0x22, 0x04, 0x00, 0xEE]

/-- Its run: the second call finds the stack pointer at one, and a return follows. -/
theorem nested_steps {m₀ : Machine Unit} (fresh : m₀.Represents (Reference.fresh nested)) :
    let m := (step 1 m₀).2
    m.bus.IsMemory ∧ m.state.sp = 1 ∧ m.executed = some .call ∧ ((step 1 m).2.follow [.tick]).ReturnsTo 1 := by
  have short : nested.length ≤ 3584 := by decide
  have fitsFirst : Opcode.Fits .call 0x2202 := Opcode.fits_of_ofWord? (by decide)
  have fitsSecond : Opcode.Fits .call 0x2204 := Opcode.fits_of_ofWord? (by decide)
  have fitsRet : Opcode.Fits .ret 0x00EE := Opcode.fits_of_ofWord? (by decide)
  have bounded := Reference.fresh_bounded short
  obtain ⟨-, h₁, bounded₁⟩ := executed_fresh fresh bounded short rfl rfl (k := 0) rfl (by decide) rfl fitsFirst rfl
  obtain ⟨call, h₂, bounded₂⟩ := executed_fresh h₁ bounded₁ short rfl rfl (k := 2) rfl (by decide) rfl fitsSecond rfl
  obtain ⟨r, h₃, bounded₃, memory, programEnd, pc, sp⟩ : ∃ r, (step 1 (step 1 m₀).2).2.tick.Represents r ∧
      r.Bounded ∧ r.memory = (Reference.fresh nested).memory ∧
      r.programEnd = (Reference.fresh nested).programEnd ∧ r.pc = 0x204 ∧ r.sp = 2 :=
    ⟨_, h₂.tick, bounded₂.of_flow bounded₂.pc rfl rfl rfl, rfl, rfl, rfl, rfl⟩
  have row : Reference.row .ret 0x00EE (Answers.ofHost (step 1 (step 1 m₀).2).2.tick.host) r.advance =
      .ok { r.advance with sp := r.sp - 1, pc := r.stack (Fin.ofNat 16 (r.sp - 1)) } := by
    simp [Reference.row, Reference.advance, sp]
  obtain ⟨ret, h₄, -⟩ := executed_fresh h₃ bounded₃ short memory programEnd (k := 4) pc (by decide) rfl fitsRet row
  have level : (step 1 (step 1 (step 1 m₀).2).2.tick).2.state.sp = (r.sp - 1 : Nat) := h₄.state.sp
  rw [sp] at level
  exact ⟨(h₁.sound bounded₁).bus, h₁.state.sp, call, ret, level⟩

/-- The inner call of the program is answered by the return, a tick later. -/
theorem calls_return_nested :
    let m : Machine Unit := (step 1 (loadImage nested (powerOn ())).2).2
    let back := (step 1 ((step 1 m).2.follow [.tick])).2
    m.state.sp = 1 ∧ m.executed = some .call ∧ back.state.pc = m.state.pc + 2 ∧ back.state.sp = 1 ∧
      back.state.stack.get 0 = m.state.stack.get 0 := by
  obtain ⟨m₀, loaded⟩ : ∃ m₀, m₀ = (loadImage nested (powerOn ())).2 := ⟨_, rfl⟩
  have fresh : m₀.Represents (Reference.fresh nested) := by
    rw [loaded]
    exact (loadImage_powerOn () (by decide)).1
  rw [← loaded]
  intro m back
  obtain ⟨memory, level, call, returns⟩ := nested_steps fresh
  have stays : (step 1 m).2.StaysAbove 1 [.tick] := fun earlier later split => by
    have member : (Move.step : Move Unit) ∈ [Move.tick] := by
      rw [split]
      exact List.mem_append_right _ List.mem_cons_self
    simp at member
  obtain ⟨pc, sp, slots⟩ := (calls_return m [.tick]).1 memory 1 level call stays returns
  exact ⟨level, call, pc, sp, (slots 0 (by decide)).2⟩

end Machine

end Chip8
