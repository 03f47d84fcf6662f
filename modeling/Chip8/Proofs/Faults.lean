import Chip8.Proofs.Sessions

/-! Why a single step fails. The causes are those of the instruction set and of the keyboard and no
others (`step_one_eq_error_iff`): no access ever leaves the memory, no slot of the stack is missed, and each
word that fits an opcode has an executor. -/

namespace Chip8

namespace Machine

variable {π : Type}

/-- The byte at an address of the memory, as an observer reads it. -/
def byteAt (m : Machine π) (address : Int) : UInt8 := m.bus.memory.get (residue 4096 address)

def word (m : Machine π) : Nat :=
  (m.byteAt m.state.pc).toNat * 256 + (m.byteAt (m.state.pc + 1)).toNat

def Inside (m : Machine π) : Prop := 0x200 ≤ m.state.pc ∧ m.state.pc + 1 < m.state.programEnd

instance (m : Machine π) : Decidable m.Inside := inferInstanceAs (Decidable (_ ∧ _))

def codeReads (m : Machine π) : List Access :=
  if m.Inside then
    [.read m.state.pc (m.byteAt m.state.pc), .read (m.state.pc + 1) (m.byteAt (m.state.pc + 1))]
  else []

/-- Why the next instruction fails. -/
inductive CycleFault [Host π] (m : Machine π) : Fault → Prop
  | outside (h : m.state.pc < 0x200 ∨ m.state.programEnd ≤ m.state.pc + 1) :
    CycleFault m (.programCounter m.state.pc 0x200 m.state.programEnd)
  | unknown (h : m.Inside) (hw : ∀ op : Opcode, ¬ op.Fits m.word) :
    CycleFault m (.unknownOpcode m.state.pc m.word)
  | underflow (h : m.Inside) (hw : m.word = 0x00EE) (sp : m.state.sp = 0) :
    CycleFault m (.stackUnderflow m.state.pc)
  | overflow (h : m.Inside) (hw : m.word / 0x1000 = 2) (sp : m.state.sp = 16) :
    CycleFault m (.stackOverflow m.state.pc 16)
  | interrupted (h : m.Inside) (hw : m.word / 0x1000 = 0xF ∧ m.word % 0x100 = 0x0A)
    {why : Interruption} (answer : (Host.waitKey m.host).1 = .error (.interrupted why)) :
    CycleFault m (.keyWait why)
  | invalidKey (h : m.Inside) (hw : m.word / 0x1000 = 0xF ∧ m.word % 0x100 = 0x0A) {key : Int}
    (answer : (Host.waitKey m.host).1 = .ok key) (range : ¬ (0 ≤ key ∧ key < 16)) :
    CycleFault m (.invalidKey key)
  /-- A keyboard may refuse an event of its own; the step hands that on. -/
  | refused (h : m.Inside) (hw : m.word / 0x1000 = 0xF ∧ m.word % 0x100 = 0x0A) {key : Int}
    (answer : (Host.waitKey m.host).1 = .error (.noSuchKey key)) :
    CycleFault m (.noSuchKey key)

/-- The accesses of a step, reported or left in the log by a failure. -/
def accesses : Except Fault (Option Trace) × Machine π → List Access
  | (.ok (some t), _) => t.accesses
  | (_, m) => m.bus.log

end Machine

namespace Opcode

variable {w : Nat}

theorem fits_ret_iff (h : w < 65536) : Fits .ret w ↔ w = 0x00EE := by
  simp only [Fits, digits]
  simp
  omega

theorem fits_call_iff (h : w < 65536) : Fits .call w ↔ w / 0x1000 = 2 := by
  simp only [Fits, digits]
  simp
  omega

theorem fits_awaitKey_iff (h : w < 65536) :
    Fits .awaitKey w ↔ w / 0x1000 = 0xF ∧ w % 0x100 = 0x0A := by
  simp only [Fits, digits]
  simp
  omega

end Opcode

namespace Machine

variable {π : Type} {m : Machine π} {r : Reference}

theorem Represents.byteAt (h : m.Represents r) {address : Int} {k : Nat}
    (place : address = r.pc + k) : m.byteAt address = r.codeByte k := by
  rw [Machine.byteAt, Reference.codeByte, h.memory, place]
  have same : residue 4096 ((r.pc : Int) + k) = Fin.ofNat 4096 (r.pc + k) := by
    rw [← Int.natCast_add, residue_ofNat]
  simp only [same]
  exact Vector.getElem_ofFn _

theorem Represents.word (h : m.Represents r) : m.word = r.word := by
  have pc := h.state.pc
  rw [Machine.word, Reference.word, h.byteAt (k := 0) (by omega), h.byteAt (k := 1) (by omega)]

theorem Represents.inside_iff (h : m.Represents r) : m.Inside ↔ r.Inside := by
  have pc := h.state.pc
  have programEnd := h.state.programEnd
  unfold Machine.Inside Reference.Inside
  omega

theorem Represents.codeReads (h : m.Represents r) :
    m.codeReads = if r.Inside then r.codeReads else [] := by
  have pc := h.state.pc
  have first := h.byteAt (k := 0) (show m.state.pc = r.pc + (0 : Nat) by omega)
  have second := h.byteAt (k := 1) (show m.state.pc + 1 = r.pc + (1 : Nat) by omega)
  simp only [Machine.codeReads, first, second, h.inside_iff]
  rw [pc, Reference.codeReads]

theorem cycle_eq_error_of_row (inside : r.Inside) {op : Opcode} (fits : op.Fits r.word) {a : Answers}
    {f : Fault} (row : Reference.row op r.word a r.advance = .error f) : r.cycle a = .error f := by
  rw [Reference.cycle, if_pos inside, Opcode.ofWord?_of_fits fits]
  exact row

theorem isLoaded_of_inside (inside : m.Inside) : m.state.isLoaded = true := by
  obtain ⟨low, high⟩ := inside
  unfold State.isLoaded programBase
  exact decide_eq_true (by omega)

variable [Host π]

theorem cycle_eq_error_iff (h : m.Represents r) (f : Fault) :
    r.cycle (Answers.ofHost m.host) = .error f ↔ m.CycleFault f := by
  have pc := h.state.pc
  have sp := h.state.sp
  have programEnd := h.state.programEnd
  have low := r.word_lt
  have word := h.word
  have begun : (r.advance.pc : Int) - 2 = m.state.pc := by
    rw [Reference.advance_pc]
    omega
  constructor
  · intro failed
    by_cases inside : r.Inside
    · have inside' := h.inside_iff.2 inside
      rw [Reference.cycle, if_pos inside] at failed
      cases decoded : Opcode.ofWord? r.word with
      | none =>
        rw [decoded] at failed
        cases failed
        rw [← pc, ← word] at *
        exact .unknown inside' ((Opcode.ofWord?_eq_none_iff _).1 decoded)
      | some op =>
        rw [decoded] at failed
        have fits := Opcode.fits_of_ofWord? decoded
        rcases Reference.row_eq_error_iff.1 failed with
          ⟨rfl, empty, rfl⟩ | ⟨rfl, full, rfl⟩ | ⟨rfl, why, answer, rfl⟩ | ⟨rfl, key, answer, range, rfl⟩
        · rw [begun]
          exact .underflow inside' (by rw [word]; exact (Opcode.fits_ret_iff low).1 fits)
            (by rw [sp]; exact congrArg Int.ofNat empty)
        · rw [begun]
          exact .overflow inside' (by rw [word]; exact (Opcode.fits_call_iff low).1 fits)
            (by rw [sp]; exact congrArg Int.ofNat full)
        · have wait := (Opcode.fits_awaitKey_iff low).1 fits
          rw [← word] at wait
          cases why with
          | interrupted why => exact .interrupted inside' wait answer
          | noSuchKey key => exact .refused inside' wait answer
        · have wait := (Opcode.fits_awaitKey_iff low).1 fits
          rw [← word] at wait
          exact .invalidKey inside' wait answer range
    · rw [Reference.cycle, if_neg inside] at failed
      cases failed
      rw [← pc, ← programEnd]
      refine .outside ?_
      unfold Reference.Inside at inside
      omega
  · intro fault
    cases fault with
    | outside outside =>
      have : ¬ r.Inside := by
        unfold Reference.Inside
        omega
      rw [Reference.cycle, if_neg this, pc, programEnd]
      rfl
    | unknown inside unknown =>
      rw [word] at unknown
      rw [Reference.cycle, if_pos (h.inside_iff.1 inside), (Opcode.ofWord?_eq_none_iff _).2 unknown, pc,
        word]
    | underflow inside fits empty =>
      rw [word, ← Opcode.fits_ret_iff low] at fits
      refine cycle_eq_error_of_row (h.inside_iff.1 inside) fits (Reference.row_eq_error_iff.2 ?_)
      refine .inl ⟨rfl, ?_, by rw [begun]⟩
      rw [Reference.advance_sp]
      omega
    | overflow inside fits full =>
      rw [word, ← Opcode.fits_call_iff low] at fits
      refine cycle_eq_error_of_row (h.inside_iff.1 inside) fits (Reference.row_eq_error_iff.2 ?_)
      refine .inr (.inl ⟨rfl, ?_, by rw [begun]⟩)
      rw [Reference.advance_sp]
      omega
    | interrupted inside fits answer =>
      rw [word, ← Opcode.fits_awaitKey_iff low] at fits
      refine cycle_eq_error_of_row (h.inside_iff.1 inside) fits (Reference.row_eq_error_iff.2 ?_)
      exact .inr (.inr (.inl ⟨rfl, _, answer, rfl⟩))
    | invalidKey inside fits answer range =>
      rw [word, ← Opcode.fits_awaitKey_iff low] at fits
      refine cycle_eq_error_of_row (h.inside_iff.1 inside) fits (Reference.row_eq_error_iff.2 ?_)
      exact .inr (.inr (.inr ⟨rfl, _, answer, range, rfl⟩))
    | refused inside fits answer =>
      rw [word, ← Opcode.fits_awaitKey_iff low] at fits
      refine cycle_eq_error_of_row (h.inside_iff.1 inside) fits (Reference.row_eq_error_iff.2 ?_)
      exact .inr (.inr (.inl ⟨rfl, _, answer, rfl⟩))

theorem step_one_eq_error_iff (h : m.Represents r) (hr : r.Bounded)
    (loaded : m.state.isLoaded = true) (f : Fault) :
    (step 1 m).1 = .error f ↔ m.CycleFault f := by
  have meets := step_one_meets h hr loaded
  rw [← cycle_eq_error_iff h]
  cases result : r.cycle (Answers.ofHost m.host) with
  | ok r' =>
    rw [result] at meets
    obtain ⟨t, m', run, -⟩ := meets
    rw [run]
    exact ⟨nofun, nofun⟩
  | error f' =>
    rw [result] at meets
    obtain ⟨m', run, -⟩ := meets
    rw [run]
    exact ⟨fun same => congrArg Except.error (Except.error.inj same),
      fun same => congrArg Except.error (Except.error.inj same)⟩

theorem step_one_eq_ok_iff (h : m.Represents r) (hr : r.Bounded) (loaded : m.state.isLoaded = true) :
    (∃ t, (step 1 m).1 = .ok (some t)) ↔ ∀ f, ¬ m.CycleFault f := by
  constructor
  · rintro ⟨t, run⟩ f fault
    rw [← step_one_eq_error_iff h hr loaded, run] at fault
    cases fault
  · intro sane
    have meets := step_one_meets h hr loaded
    split at meets
    · obtain ⟨t, m', run, -⟩ := meets
      exact ⟨t, by rw [run]⟩
    · rename_i f failed
      exact absurd ((cycle_eq_error_iff h f).1 failed) (sane f)

/-- What is neither a call, nor a return, nor a wait for a key cannot fail. -/
theorem step_one_of_plain (h : m.Sound) (inside : m.Inside) {op : Opcode} (fits : op.Fits m.word)
    (plain : op ≠ .ret ∧ op ≠ .call ∧ op ≠ .awaitKey) :
    ∃ t m', step 1 m = (.ok (some t), m') := by
  obtain ⟨r, represents, bounded, -⟩ := h.exists_represents
  have low : m.word < 65536 := by
    rw [represents.word]
    exact r.word_lt
  have loaded := isLoaded_of_inside inside
  have sane : ∀ f, ¬ m.CycleFault f := by
    intro f fault
    cases fault with
    | outside outside =>
      obtain ⟨_, _⟩ := inside
      omega
    | unknown _ unknown => exact unknown op fits
    | underflow _ word _ => exact plain.1 (Opcode.fits_unique ((Opcode.fits_ret_iff low).2 word) fits)
    | overflow _ word _ =>
      exact plain.2.1 (Opcode.fits_unique ((Opcode.fits_call_iff low).2 word) fits)
    | interrupted _ word _ | invalidKey _ word _ _ | refused _ word _ =>
      exact plain.2.2 (Opcode.fits_unique ((Opcode.fits_awaitKey_iff low).2 word) fits)
  obtain ⟨t, run⟩ := (step_one_eq_ok_iff represents bounded loaded).2 sane
  exact ⟨t, (step 1 m).2, Prod.ext run rfl⟩

end Machine

namespace Session

variable {π : Type} [Host π]

end Session

end Chip8
