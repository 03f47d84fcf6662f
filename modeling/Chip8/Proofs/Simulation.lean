import Chip8.Proofs.Decoding
import Chip8.Proofs.Sprites

/-! Each opcode on a machine that represents a reference machine: it does what its row says
(`perform_meets`). -/

namespace Chip8

namespace Reference

/-- What a failing instruction leaves: an interrupted wait goes back to its instruction. -/
def afterFault (r : Reference) : Fault → Reference
  | .keyWait _ => { r with pc := r.pc - 2 }
  | _ => r

end Reference

namespace Machine

variable {π : Type}

section bytes

theorem lowByte_toNat (b : UInt8) : lowByte b.toNat = b := by
  have := b.toNat_lt
  rw [lowByte, show ((b.toNat : Int) % 256).toNat = b.toNat by omega, UInt8.ofNat_toNat]

theorem toNat_emod (b : UInt8) : (b.toNat : Int) % 256 = b.toNat := by
  have := b.toNat_lt
  omega

theorem byte_beq (a b : UInt8) : ((a.toNat : Int) == b.toNat) = (a == b) := by
  rw [Bool.eq_iff_iff, beq_iff_eq, beq_iff_eq, Int.natCast_inj, UInt8.toNat_inj]

theorem byte_bne (a b : UInt8) : ((a.toNat : Int) != b.toNat) = (a != b) := by
  rw [bne, byte_beq, bne]

theorem fieldByte_eq (w : Nat) : (fieldByte w : Int) = (UInt8.ofNat (fieldByte w)).toNat := by
  have : fieldByte w < 256 := Nat.mod_lt _ (by decide)
  rw [UInt8.toNat_ofNat', Nat.mod_eq_of_lt this]

theorem add_emod (a b : UInt8) : ((a.toNat : Int) + b.toNat) % 256 = (a + b).toNat := by
  rw [UInt8.toNat_add]
  omega

theorem sub_emod (a b : UInt8) : ((a.toNat : Int) - b.toNat) % 256 = (a - b).toNat := by
  have := a.toNat_lt
  have := b.toNat_lt
  rw [UInt8.toNat_sub]
  omega

theorem half_emod (a : UInt8) : (a.toNat : Int) / (2 : Int) % (256 : Int) = (a >>> 1).toNat := by
  have := a.toNat_lt
  have one : (1 : UInt8).toNat % 8 = 1 := rfl
  rw [UInt8.toNat_shiftRight, one, Nat.shiftRight_eq_div_pow, Nat.pow_one]
  omega

theorem double_emod (a : UInt8) : (a.toNat : Int) * (2 : Int) % (256 : Int) = (a <<< 1).toNat := by
  have one : (1 : UInt8).toNat % 8 = 1 := rfl
  rw [UInt8.toNat_shiftLeft, one, Nat.shiftLeft_eq, Nat.pow_one]
  omega

theorem flag_congr {p q : Prop} [Decidable p] [Decidable q] (h : p ↔ q) :
    (if p then 1 else 0 : UInt8) = if decide q then 1 else 0 := by
  simp only [h, decide_eq_true_eq]

theorem lowBit_eq (a : UInt8) : a &&& 1 = if (a.toNat : Int) % 2 == 1 then 1 else 0 := by
  apply UInt8.toNat_inj.1
  rw [UInt8.toNat_and, UInt8.toNat_one, Nat.and_one_is_mod]
  simp only [beq_iff_eq]
  split <;> simp <;> omega

theorem highBit_eq (a : UInt8) : a >>> 7 = if (a.toNat : Int) / 128 % 2 == 1 then 1 else 0 := by
  have := a.toNat_lt
  have seven : (7 : UInt8).toNat % 8 = 7 := rfl
  apply UInt8.toNat_inj.1
  rw [UInt8.toNat_shiftRight, seven, Nat.shiftRight_eq_div_pow]
  simp only [beq_iff_eq]
  split <;> simp <;> omega

end bytes

theorem memory_skipIf (r : Reference) (c : Bool) : (r.skipIf c).memory = r.memory := by
  cases c <;> rfl

/-- The result of an effect is what a row says. A failure leaves bus and registers but for the program
counter. -/
def Meets (m : Machine π) (r : Reference) (result : Except Fault Unit × Machine π) :
    Except Fault Reference → Prop
  | .ok r' => result.1 = .ok () ∧ result.2.Represents r'
  | .error fault =>
    result.1 = .error fault ∧ result.2.Represents (r.afterFault fault) ∧ result.2.bus = m.bus

variable {m : Machine π} {r : Reference}

theorem meets_modifyState (h : m.Represents r) {f : State → State} {r' : Reference}
    (hs : (f m.state).Shows r') (same : r'.memory = r.memory) :
    m.Meets r (Core.modifyState f m) (.ok r') :=
  ⟨rfl, h.of_shows hs same⟩

theorem meets_setV (h : m.Represents r) {x : Fin 16} {f : State → Int} {byte : UInt8}
    (hz : f m.state = byte.toNat) :
    m.Meets r (Core.modifyState (fun s => s.setV x (f s)) m) (.ok (r.setV x byte)) :=
  meets_modifyState h (h.state.setV x hz) rfl

theorem meets_setResult (h : m.Represents r) {x : Fin 16} {flagged : State → Bool}
    {f : State → Int} {flag byte : UInt8} (hflag : flag = if flagged m.state then 1 else 0)
    (hz : f m.state % 256 = byte.toNat) :
    m.Meets r (Core.modifyState (fun s => s.setResult x (flagged s) (f s)) m)
      (.ok (r.setFlagged x flag byte)) :=
  meets_modifyState h (h.state.setResult x hflag hz) rfl

theorem meets_skipIf (h : m.Represents r) (low : r.pc ≤ 0x1000) {c : State → Bool} {d : Bool}
    (hc : c m.state = d) :
    m.Meets r (Core.modifyState (fun s => s.skipIf (c s)) m) (.ok (r.skipIf d)) :=
  meets_modifyState h (h.state.skipIf low hc) (memory_skipIf r d)

theorem meets_setI (h : m.Represents r) {f : State → Int} {i : Fin 4096} (hi : f m.state = i.val) :
    m.Meets r (Core.modifyState (fun s => { s with i := f s }) m) (.ok { r with i }) :=
  meets_modifyState h { h.state with i := hi } rfl

theorem meets_of_represents {result : Except Fault Unit × Machine π} {r' : Reference}
    (h : ∃ m', result = (.ok (), m') ∧ m'.Represents r') : m.Meets r result (.ok r') := by
  obtain ⟨m', rfl, h'⟩ := h
  exact ⟨rfl, h'⟩

theorem slot?_of_eq {sp : Int} {k : Fin 16} (h : sp = k.val) : State.slot? sp = some k := by
  have inside : 0 ≤ sp ∧ sp < 16 := by omega
  rw [State.slot?, dif_pos inside]
  exact congrArg some (Fin.ext (by simp only [h, Int.toNat_natCast]))

theorem ret_used {k : Fin 16} (used : m.state.sp = k.val + 1) :
    ret m = (.ok (), { m with state := { m.state with sp := m.state.sp - 1, pc := m.state.stack.get k } }) := by
  have above : m.state.sp ≠ 0 := by omega
  have top : State.slot? (m.state.sp - 1) = some k := slot?_of_eq (by omega)
  rw [ret, getState_bind, if_neg above, top]
  rfl

theorem ret_empty (empty : m.state.sp = 0) : ret m = (.error (.stackUnderflow (m.state.pc - 2)), m) := by
  rw [ret, getState_bind, if_pos empty]
  rfl

theorem call_room (target : Nat) {k : Fin 16} (room : m.state.sp = k.val) :
    call target m = (.ok (), { m with
      state := { m.state.setStack k m.state.pc with sp := m.state.sp + 1, pc := target } }) := by
  have below : ¬ 16 ≤ m.state.sp := by omega
  rw [call, getState_bind, if_neg below, slot?_of_eq room]
  rfl

theorem call_full (target : Nat) (full : 16 ≤ m.state.sp) :
    call target m = (.error (.stackOverflow (m.state.pc - 2) m.state.sp), m) := by
  rw [call, getState_bind, if_pos full]
  rfl

theorem ret_meets (h : m.Represents r) (hsp : r.sp ≤ 16) (w : Nat) (a : Answers) :
    m.Meets r (ret m) (Reference.row .ret w a r) := by
  have pc := h.state.pc
  have sp := h.state.sp
  by_cases empty : r.sp = 0
  · simp only [Reference.row, empty, if_true]
    rw [ret_empty (by omega), pc]
    exact ⟨rfl, h, rfl⟩
  · have below : m.state.sp - 1 = (r.sp - 1 : Nat) := by omega
    have slot : (Fin.ofNat 16 (r.sp - 1)).val = r.sp - 1 := Nat.mod_eq_of_lt (by omega)
    have used : m.state.sp = (Fin.ofNat 16 (r.sp - 1)).val + 1 := by omega
    simp only [Reference.row, empty, if_false]
    rw [ret_used used]
    exact ⟨rfl, { h.state with sp := below, pc := h.state.stack _ }, h.bus⟩

theorem call_meets (h : m.Represents r) (hsp : r.sp ≤ 16) (w : Nat) (a : Answers) :
    m.Meets r (call (fieldAddress w) m) (Reference.row .call w a r) := by
  have pc := h.state.pc
  have sp := h.state.sp
  by_cases full : r.sp = 16
  · simp only [Reference.row, full, if_true]
    rw [call_full _ (by omega), pc, sp, full]
    exact ⟨rfl, h, rfl⟩
  · have slot : (Fin.ofNat 16 r.sp).val = r.sp := Nat.mod_eq_of_lt (by omega)
    have room : m.state.sp = (Fin.ofNat 16 r.sp).val := by omega
    simp only [Reference.row, full, if_false]
    rw [call_room _ room]
    have pushed : m.state.sp + 1 = (r.sp + 1 : Nat) := by omega
    have stack : ∀ k : Fin 16, (m.state.stack.set (Fin.ofNat 16 r.sp) m.state.pc)[k] =
        (Function.update r.stack (Fin.ofNat 16 r.sp) r.pc k : Int) := by
      intro k
      by_cases here : k = Fin.ofNat 16 r.sp
      · subst here
        simp [pc]
      · have : (Fin.ofNat 16 r.sp).val ≠ k.val := fun e => here (Fin.ext e.symm)
        rw [Function.update_of_ne here, ← h.state.stack k]
        exact Vector.getElem_set_ne _ _ this
    exact ⟨rfl, { h.state with stack, sp := pushed, pc := rfl }, h.bus⟩

variable [Host π]

theorem waitKey_apply (m : Machine π) :
    waitKey m =
      match (Host.waitKey m.host).1 with
      | .error (.interrupted why) => (.error (.keyWait why), { m with
          state := { m.state with pc := (m.state.pc - 2) % 65536 }
          host := (Host.waitKey m.host).2 })
      | .error (.noSuchKey key) => (.error (.noSuchKey key), { m with host := (Host.waitKey m.host).2 })
      | .ok key =>
        (if 0 ≤ key ∧ key < 16 then .ok key else .error (.invalidKey key),
          { m with host := (Host.waitKey m.host).2 }) := by
  show (ask Host.waitKey >>= _) m = _
  rw [Action.bind_ok (show ask Host.waitKey m = (.ok (Host.waitKey m.host).1, _) from rfl)]
  rcases (Host.waitKey m.host).1 with (why | key) | key
  · rfl
  · rfl
  · by_cases h : 0 ≤ key ∧ key < 16
    · simp only [h, and_self, if_true]
      rfl
    · simp only [h, if_false]
      rfl

theorem awaitKey_meets (h : m.Represents r) (low : 2 ≤ r.pc ∧ r.pc ≤ 0x1000) (w : Nat) :
    m.Meets r (perform .awaitKey w m) (Reference.row .awaitKey w (Answers.ofHost m.host) r) := by
  have wait := waitKey_apply m
  have performed : perform .awaitKey w m =
      (waitKey >>= fun key => Core.modifyState (State.setV · (fieldX w) key)) m := rfl
  have answered : (Answers.ofHost m.host).key = (Host.waitKey m.host).1 := rfl
  rw [performed]
  simp only [Reference.row, answered]
  rcases answer : (Host.waitKey m.host).1 with (why | key) | key
  · rw [answer] at wait
    have back : (m.state.pc - 2) % 65536 = (r.pc - 2 : Nat) := by
      have := h.state.pc
      omega
    rw [Action.bind_error wait]
    exact ⟨rfl, ⟨{ h.state with pc := back }, h.bus⟩, rfl⟩
  · rw [answer] at wait
    rw [Action.bind_error wait]
    exact ⟨rfl, ⟨h.state, h.bus⟩, rfl⟩
  · rw [answer] at wait
    by_cases valid : 0 ≤ key ∧ key < 16
    · simp only [valid, and_self, if_true] at wait ⊢
      rw [Action.bind_ok wait]
      exact ⟨rfl, h.state.setV _ (byte_of_int (by omega)), h.bus⟩
    · simp only [valid, if_false] at wait ⊢
      rw [Action.bind_error wait]
      exact ⟨rfl, ⟨h.state, h.bus⟩, rfl⟩

/-- Every opcode does what its row says, or fails as its row says. -/
theorem perform_meets (h : m.Represents r) (hsp : r.sp ≤ 16) (low : 2 ≤ r.pc ∧ r.pc ≤ 0x1000)
    (op : Opcode) (w : Nat) :
    m.Meets r (perform op w m) (Reference.row op w (Answers.ofHost m.host) r) := by
  have vx := h.state.v (fieldX w)
  have vy := h.state.v (fieldY w)
  have v0 := h.state.v State.base
  have byte := fieldByte_eq w
  have key : (m.state.v.get (fieldX w) % 16).toNat = (r.v (fieldX w)).toNat % 16 := by omega
  cases op with
  | clearScreen => exact ⟨rfl, { h.state with screen := h.state.screen.clear }, h.bus⟩
  | ret => exact ret_meets h hsp w _
  | jump => exact meets_modifyState h { h.state with pc := rfl } rfl
  | call => exact call_meets h hsp w _
  | skipEqByte =>
    exact meets_skipIf h low.2 (by rw [vx, byte, byte_beq])
  | skipNeByte =>
    exact meets_skipIf h low.2 (by rw [vx, byte, byte_bne])
  | skipEq =>
    exact meets_skipIf h low.2 (by rw [vx, vy, byte_beq])
  | skipNe =>
    exact meets_skipIf h low.2 (by rw [vx, vy, byte_bne])
  | loadByte => exact meets_setV h byte
  | addByte => exact meets_setV h (by rw [vx, byte, add_emod])
  | move => exact meets_setV h vy
  | or => exact meets_setResult h rfl (by rw [vx, vy, lowByte_toNat, lowByte_toNat, toNat_emod])
  | and => exact meets_setResult h rfl (by rw [vx, vy, lowByte_toNat, lowByte_toNat, toNat_emod])
  | xor => exact meets_setResult h rfl (by rw [vx, vy, lowByte_toNat, lowByte_toNat, toNat_emod])
  | add => exact meets_setResult h (flag_congr (by omega)) (by rw [vx, vy, add_emod])
  | sub =>
    exact meets_setResult h (flag_congr (by rw [vx, vy, UInt8.le_iff_toNat_le]; omega))
      (by rw [vx, vy, sub_emod])
  | shiftRight => exact meets_setResult h (by rw [vx, lowBit_eq]) (by rw [vx, half_emod])
  | subFrom =>
    exact meets_setResult h (flag_congr (by rw [vx, vy, UInt8.le_iff_toNat_le]; omega))
      (by rw [vx, vy, sub_emod])
  | shiftLeft => exact meets_setResult h (by rw [vx, highBit_eq]) (by rw [vx, double_emod])
  | loadIndex => exact meets_setI h (by simp [fieldAddress])
  | jumpFromV0 =>
    exact meets_modifyState h { h.state with pc := by simp only [v0, wrap]; omega } rfl
  | random =>
    refine ⟨rfl, h.state.setV _ ?_, h.bus⟩
    rw [byte, lowByte_toNat]
    rfl
  | draw =>
    have small : fieldN w < 16 := Nat.mod_lt _ (by decide)
    exact meets_of_represents (draw_represents h _ _ (le_trans small.le (by decide)))
  | skipPressed =>
    refine ⟨rfl, h.state.skipIf low.2 ?_, by rw [memory_skipIf]; exact h.bus⟩
    rw [key]
    rfl
  | skipReleased =>
    refine ⟨rfl, h.state.skipIf low.2 ?_, by rw [memory_skipIf]; exact h.bus⟩
    rw [key]
    rfl
  | loadDelay => exact meets_setV h h.state.delay
  | awaitKey => exact awaitKey_meets h low w
  | setDelay => exact meets_modifyState h { h.state with delay := vx } rfl
  | setSound => exact meets_modifyState h { h.state with sound := vx } rfl
  | addIndex =>
    exact meets_setI h (by rw [vx, h.state.i, wrap]; simp [Fin.val_add])
  | glyph => exact meets_setI h (by rw [vx]; have := (r.v (fieldX w)).toNat_lt; simp; omega)
  | decimal => exact meets_of_represents (storeDecimal_represents h vx)
  | store => exact meets_of_represents (storeRegisters_represents h _)
  | restore => exact meets_of_represents (restoreRegisters_represents h _)

end Machine

end Chip8
