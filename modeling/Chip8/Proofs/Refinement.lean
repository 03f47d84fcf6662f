import Chip8.Proofs.Faults

/-! A machine refines the instruction table. Whatever came before it, a single step that succeeds is the
row of the one opcode that the word fits, on the one reference machine that the machine represents
(`Represents.unique`). -/

namespace Chip8

theorem Framebuffer.Shows.unique {fb : Framebuffer} {pixel pixel' : Fin 64 → Fin 32 → Bool}
    (h : fb.Shows pixel) (h' : fb.Shows pixel') : pixel = pixel' := by
  funext x y
  have same := (h.pixel x.val y.val).symm.trans (h'.pixel x.val y.val)
  rwa [residue_natCast, residue_natCast] at same

theorem byte_unique {z : Int} {a b : UInt8} (ha : z = a.toNat) (hb : z = b.toNat) : a = b := by
  apply UInt8.toNat_inj.1
  omega

theorem Machine.Represents.unique {π : Type} {m : Machine π} {r r' : Reference}
    (h : m.Represents r) (h' : m.Represents r') : r = r' := by
  have s := h.state
  have s' := h'.state
  have v : r.v = r'.v := funext fun k => byte_unique (s.v k) (s'.v k)
  have i : r.i = r'.i := Fin.ext (Int.ofNat.inj (s.i.symm.trans s'.i))
  have pc : r.pc = r'.pc := Int.ofNat.inj (s.pc.symm.trans s'.pc)
  have sp : r.sp = r'.sp := Int.ofNat.inj (s.sp.symm.trans s'.sp)
  have stack : r.stack = r'.stack :=
    funext fun k => Int.ofNat.inj ((s.stack k).symm.trans (s'.stack k))
  have delay := byte_unique s.delay s'.delay
  have sound := byte_unique s.sound s'.sound
  have programEnd : r.programEnd = r'.programEnd :=
    Int.ofNat.inj (s.programEnd.symm.trans s'.programEnd)
  have pixel := s.screen.unique s'.screen
  have memory : r.memory = r'.memory := by
    funext a
    have same := h.memory.symm.trans h'.memory
    have cell := congrArg (fun cells : Memory => cells[a]) same
    simpa using cell
  cases r
  cases r'
  simp only [Reference.mk.injEq]
  exact ⟨v, i, pc, sp, stack, delay, sound, programEnd, pixel, memory⟩

theorem Machine.loadImage_word {π : Type} {m : Machine π} (h : m.bus.IsMemory) (high low : UInt8)
    {image : List UInt8} (short : image.length ≤ 3582) :
    (loadImage (high :: low :: image) m).2.Inside ∧
      (loadImage (high :: low :: image) m).2.word = high.toNat * 256 + low.toNat := by
  have accepted : imageFault? (high :: low :: image) = none :=
    (imageFault?_eq_none_iff _).2 ⟨nofun, by simp only [List.length_cons]; omega⟩
  rw [loadImage_accepted h accepted]
  refine ⟨⟨show (0x200 : Int) ≤ programBase from Int.le_refl _, ?_⟩, ?_⟩
  · show programBase + 1 < programBase + ((high :: low :: image).length : Int)
    simp only [List.length_cons]
    omega
  · have first : residue 4096 programBase = 0x200 := by decide
    have second : residue 4096 (programBase + 1) = 0x201 := by decide
    have start : (0x200 : Fin 4096).val = 0x200 := rfl
    have next : (0x201 : Fin 4096).val = 0x200 + 1 := rfl
    simp only [word, byteAt, Bus.memory_ofMemory, first, second, Memory.get_overlay, start, next,
      Nat.lt_irrefl, Nat.sub_self, Nat.add_sub_cancel_left, Nat.not_lt.2 (Nat.le_succ _), if_false,
      List.getD_cons_zero, List.getD_cons_succ]

namespace Session

variable {π : Type} [Host π]

/-- **Refinement.** A step that succeeds does to the one reference machine that the machine represents what the table
says of the one opcode that the word fits, with the program counter behind the instruction, and leaves all else as it
was. -/
theorem step_one_refines (stops : π → Nat) (host : π) (commands : List (Command π)) {t : Trace}
    {m' : Machine π}
    (run : Machine.step 1 (ofCommands stops host commands).machine = (.ok (some t), m')) :
    let m := (ofCommands stops host commands).machine
    ∃ r op r', m.Represents r ∧ (∀ r₁, m.Represents r₁ → r₁ = r) ∧
      op.Fits m.word ∧ (∀ op' : Opcode, op'.Fits m.word → op' = op) ∧
      Reference.row op m.word (Answers.ofHost m.host) { r with pc := r.pc + 2 } = .ok r' ∧
      m'.Represents r' ∧ t.instruction = ⟨op, m.word⟩ ∧ t.address = m.state.pc := by
  intro m
  have sound : m.Sound := (ofCommands_sound stops host commands).machine
  obtain ⟨r, represents, bounded, -⟩ := sound.exists_represents
  have loaded : m.state.isLoaded = true := by
    by_contra unloaded
    rw [Machine.step_one, if_neg unloaded] at run
    cases run
  have meets := Machine.step_one_meets represents bounded loaded
  split at meets
  · obtain ⟨t, m'', ran, executed⟩ := meets
    cases run.symm.trans ran
    obtain ⟨op, fits, instruction, row⟩ := executed.instruction
    rw [← represents.word] at fits instruction row
    refine ⟨r, op, _, represents, fun r₁ other => other.unique represents, fits,
      fun op' fits' => Opcode.fits_unique fits fits', row, executed.represents, instruction, ?_⟩
    rw [executed.address, represents.state.pc]
  · obtain ⟨m'', ran, -⟩ := meets
    cases run.symm.trans ran

/-- The table is met by a program that loads a register. -/
theorem step_one_refines_loadByte :
    let m := (ofCommands (fun _ : Unit => 0) () [.loadImage [0x6A, 0x05]]).machine
    ∃ t m', Machine.step 1 m = (.ok (some t), m') ∧
      ∃ r op r', m.Represents r ∧ (∀ r₁, m.Represents r₁ → r₁ = r) ∧
        op.Fits m.word ∧ (∀ op' : Opcode, op'.Fits m.word → op' = op) ∧
        Reference.row op m.word (Answers.ofHost m.host) { r with pc := r.pc + 2 } = .ok r' ∧
        m'.Represents r' ∧ t.instruction = ⟨op, m.word⟩ ∧ t.address = m.state.pc := by
  have sound := (ofCommands_sound (fun _ : Unit => 0) () [.loadImage [0x6A, 0x05]]).machine
  obtain ⟨inside, word⟩ := Machine.loadImage_word (start_sound ()).machine.bus 0x6A 0x05
    (show [].length ≤ 3582 from Nat.zero_le _)
  rw [← machine_after_loadImage (fun _ => 0), ← ofCommands_singleton] at inside word
  have fits : Opcode.Fits .loadByte
      (ofCommands (fun _ : Unit => 0) () [.loadImage [0x6A, 0x05]]).machine.word := by
    have value : (0x6A : UInt8).toNat * 256 + (0x05 : UInt8).toNat = 0x6A05 := rfl
    rw [word, value]
    exact Opcode.fits_of_ofWord? (by decide)
  obtain ⟨t, m', run⟩ := Machine.step_one_of_plain sound inside fits (by decide)
  exact ⟨t, m', run, step_one_refines (fun _ => 0) () [.loadImage [0x6A, 0x05]] run⟩

end Session

end Chip8
