import Chip8.Proofs.Coupled
import Chip8.Proofs.Loading

/-! Starting over. A reset and a program file leave a machine that is made of the file and the host alone
(`loadFile_reset`), so that nothing of what was before can be told from what comes after (`restart_forgets`). -/

namespace Chip8

namespace Machine

variable {π ρ : Type} {m : Machine π}

/-- The byte at an address behind a reset and an image: the font at the bottom, the image, and zeros elsewhere. -/
def startByte (image : List UInt8) (a : Nat) : UInt8 :=
  if a < 0x200 then font.getD a 0 else image.getD (a - 0x200) 0

def restarted (image : List UInt8) (table : Symbols) (host : π) : Machine π where
  state := { programEnd := programBase + image.length }
  bus := Bus.ofMemory (Vector.ofFn fun a : Fin 4096 => startByte image a.val) []
  symbols := table
  host := host

theorem rehost_restarted (image : List UInt8) (table : Symbols) (host : π) (host' : ρ) :
    (restarted image table host).rehost host' = restarted image table host' := rfl

theorem get_cleared (cells : Memory) (a : Fin 4096) : (cleared cells).get a = font.getD a.val 0 := by
  have inside : a.val - 0 < (List.replicate memorySize (0 : UInt8)).length := by
    rw [List.length_replicate]
    exact a.isLt
  have zero : (cells.overlay 0 (List.replicate memorySize 0)).get a = 0 := by
    rw [Memory.get_overlay, if_neg (Nat.not_lt_zero _), List.getD_eq_getElem _ _ inside, List.getElem_replicate]
  rw [cleared, Memory.get_overlay, if_neg (Nat.not_lt_zero _), zero]
  rfl

theorem overlay_cleared (cells : Memory) (image : List UInt8) :
    (cleared cells).overlay 0x200 image = Vector.ofFn fun a : Fin 4096 => startByte image a.val := by
  apply Vector.ext
  intro k hk
  have cell := Memory.get_overlay (cleared cells) 0x200 image ⟨k, hk⟩
  rw [get_cleared] at cell
  rw [Vector.getElem_ofFn]
  refine cell.trans ?_
  dsimp only
  unfold startByte
  split
  · rfl
  · have dark : font.getD k 0 = 0 := by
      apply List.getD_eq_default
      have length : font.length = 80 := by decide
      omega
    rw [dark]

theorem loadImage_reset (memory : m.bus.IsMemory) {image : List UInt8} (accepted : imageFault? image = none)
    (table : Symbols) :
    ∃ m', loadImage image (reset m).2 = (.ok (), m') ∧ m'.setSymbols table = restarted image table m.host := by
  refine ⟨_, loadImage_accepted (reset_sound memory).bus accepted, ?_⟩
  rw [reset_eq memory]
  dsimp only
  rw [Bus.memory_ofMemory, Bus.log_ofMemory, overlay_cleared]
  rfl

/-- Whatever the machine, a file is refused for the same reason, or leaves a machine made of the file and the
host. -/
theorem loadFile_reset (name : String) (content : Except FileFault (List UInt8)) :
    (∃ why, ∀ {π : Type} (m : Machine π), m.bus.IsMemory →
      (loadFile name content (reset m).2).1 = .error why) ∨
    ∃ bytes image table, content = .ok bytes ∧ Loading.Prepared bytes (Loading.Format.ofName name) image table ∧
      Fits image ∧ ∀ {π : Type} (m : Machine π), m.bus.IsMemory →
        loadFile name content (reset m).2 = (.ok table, restarted image table m.host) := by
  rcases content with why | bytes
  · exact .inl ⟨.file why, fun _ _ => rfl⟩
  rcases prepared : Loading.prepare (Loading.Format.ofName name) bytes with why | ⟨image, table⟩
  · refine .inl ⟨why, fun m _ => ?_⟩
    rw [loadFile_prepared prepared]
  rcases refused : imageFault? image with _ | why
  · refine .inr ⟨bytes, image, table, rfl, (Loading.prepare_eq_ok_iff _ _ _ _).1 prepared,
      (imageFault?_eq_none_iff_fits image).1 refused, fun m memory => ?_⟩
    obtain ⟨m', loaded, same⟩ := loadImage_reset memory refused table
    simp only [loadFile, prepared, loaded, same]
  · refine .inl ⟨.machine (.invalidProgram why), fun m _ => ?_⟩
    simp only [loadFile, prepared, loadImage_rejected refused]

variable [Host π] [Host ρ] {R : π → ρ → Prop}

theorem restarted_alike (alike : SameAnswers R) (image : List UInt8) (table : Symbols) (host : Recorded π)
    (host' : Recorded ρ) (related : R host.host host'.host) (beats : List Beat) :
    let m := restarted image table host
    let m' := restarted image table host'
    m'.answers beats = m.answers beats ∧ ∃ told,
      (m.play beats).host.outputs = host.outputs ++ told ∧ (m'.play beats).host.outputs = host'.outputs ++ told := by
  intro m m'
  have start : R host.host host'.host ∧ ∃ told, host.outputs = host.outputs ++ told ∧
      host'.outputs = host'.outputs ++ told := ⟨related, [], (List.append_nil _).symm, (List.append_nil _).symm⟩
  obtain ⟨same, host₁, ran, -, told, outputs, outputs'⟩ :=
    play_coupled (alike.recorded host.outputs host'.outputs) m host' start beats
  have whole : m.rehost host' = m' := rehost_restarted image table host host'
  rw [whole] at same ran
  refine ⟨same, told, outputs, ?_⟩
  rw [ran]
  exact outputs'

/-- **Starting over.** On any two machines with memory, whatever happened to them, a reset succeeds and a file behind
it is loaded on both or refused on both, for the same reason. If it is loaded, both have the registers, the memory,
the symbols and the counts that come with the file: the font at the bottom of memory, the image, and zeros. From then
on, with hosts that give the same answers to all that they are asked, every run of steps and ticks gives the same
reports and the same failures, and tells the hosts the same. -/
theorem restart_forgets (alike : SameAnswers R) (m₁ : Machine (Recorded π)) (m₂ : Machine (Recorded ρ))
    (memory₁ : m₁.bus.IsMemory) (memory₂ : m₂.bus.IsMemory) (name : String)
    (content : Except FileFault (List UInt8)) :
    let r₁ := loadFile name content (reset m₁).2
    let r₂ := loadFile name content (reset m₂).2
    (reset m₁).1 = .ok () ∧ (reset m₂).1 = .ok () ∧ r₂.1 = r₁.1 ∧
    ∀ table, r₁.1 = .ok table →
      (∃ bytes image, content = .ok bytes ∧ Loading.Prepared bytes (Loading.Format.ofName name) image table ∧
        r₁.2.state = { pc := 0x200, programEnd := 0x200 + image.length } ∧
        ∀ a : Fin 4096, r₁.2.bus.peek a.val = .ok (startByte image a.val)) ∧
      (r₁.2.bus.log = [] ∧ r₁.2.cycles = 0 ∧ r₁.2.symbols = table) ∧
      (r₂.2.state = r₁.2.state ∧ r₂.2.bus = r₁.2.bus ∧ r₂.2.cycles = r₁.2.cycles ∧ r₂.2.symbols = r₁.2.symbols) ∧
      (R m₁.host.host m₂.host.host → ∀ beats, r₂.2.answers beats = r₁.2.answers beats ∧ ∃ told,
        (r₁.2.play beats).host.outputs = m₁.host.outputs ++ told ∧
          (r₂.2.play beats).host.outputs = m₂.host.outputs ++ told) := by
  intro r₁ r₂
  have reset₁ : (reset m₁).1 = .ok () := by rw [reset_eq memory₁]
  have reset₂ : (reset m₂).1 = .ok () := by rw [reset_eq memory₂]
  refine ⟨reset₁, reset₂, ?_⟩
  rcases loadFile_reset name content with ⟨why, refused⟩ | ⟨bytes, image, table, read, prepared, -, loaded⟩
  · have refused₁ : r₁.1 = .error why := refused m₁ memory₁
    have refused₂ : r₂.1 = .error why := refused m₂ memory₂
    refine ⟨refused₂.trans refused₁.symm, fun table ok => ?_⟩
    cases refused₁.symm.trans ok
  · have loaded₁ : r₁ = (.ok table, restarted image table m₁.host) := loaded m₁ memory₁
    have loaded₂ : r₂ = (.ok table, restarted image table m₂.host) := loaded m₂ memory₂
    clear_value r₁ r₂
    subst loaded₁ loaded₂
    refine ⟨rfl, ?_⟩
    rintro _ ⟨⟩
    refine ⟨⟨bytes, image, read, prepared, rfl, fun a => ?_⟩, ⟨rfl, rfl, rfl⟩, ⟨rfl, rfl, rfl, rfl⟩, ?_⟩
    · have inside : 0 ≤ (a.val : Int) ∧ (a.val : Int) < 4096 := by omega
      have byte : startByte image (residue 4096 (a.val : Int)).val = startByte image a.val := by rw [residue_natCast]
      exact (Bus.peek_ofMemory _ _ inside).trans (congrArg Except.ok ((Vector.getElem_ofFn _).trans byte))
    · exact restarted_alike alike image table m₁.host m₂.host

/-- A machine with another program and its symbols and one fresh from power-on, with different displays, start over
on a raw file. -/
theorem restart_forgets_jump :
    let host₁ : Recorded Peripherals := { host := { display := .recorded none } }
    let host₂ : Recorded Peripherals := { host := { display := .console {} } }
    let m₁ := (loadImage beep (powerOn host₁)).2.setSymbols [("START", 0x200)]
    let m₂ := powerOn host₂
    let r₁ := loadFile "jump.ch8" (.ok [0x12, 0x00]) (reset m₁).2
    let r₂ := loadFile "jump.ch8" (.ok [0x12, 0x00]) (reset m₂).2
    r₁.1 = .ok [] ∧ r₂.1 = .ok [] ∧ r₂.2.state = r₁.2.state ∧ r₂.2.bus = r₁.2.bus ∧
      r₂.2.answers [.step 4, .tick, .step 1] = r₁.2.answers [.step 4, .tick, .step 1] := by
  intro host₁ host₂
  obtain ⟨m₀, before⟩ : ∃ m₀, m₀ = (loadImage beep (powerOn host₁)).2 := ⟨_, rfl⟩
  obtain ⟨m₁, before₁⟩ : ∃ m₁, m₁ = m₀.setSymbols [("START", 0x200)] := ⟨_, rfl⟩
  obtain ⟨m₂, before₂⟩ : ∃ m₂, m₂ = powerOn host₂ := ⟨_, rfl⟩
  have memory₁ : m₁.bus.IsMemory := by
    have sound := loadImage_sound (powerOn_sound host₁) beep
    rw [← before] at sound
    rw [before₁]
    exact sound.bus
  have memory₂ : m₂.bus.IsMemory := by
    rw [before₂]
    exact (powerOn_sound host₂).bus
  have inputs : m₁.host.host.inputs = m₂.host.host.inputs := by
    have same₁ : m₁.host = host₁ := by
      have host := host_loadImage_powerOn host₁ beep
      rw [← before] at host
      rw [before₁]
      exact host
    have same₂ : m₂.host = host₂ := by rw [before₂, powerOn_eq]
    rw [same₁, same₂]
    rfl
  rw [← before, ← before₁, ← before₂]
  intro _ _ r₁ r₂
  have raw : Loading.Format.ofName "jump.ch8" = .raw := by decide
  have prepared : Loading.Prepared [0x12, 0x00] (Loading.Format.ofName "jump.ch8") [0x12, 0x00] [] := by
    rw [raw]
    exact .raw
  obtain ⟨m', ran, -⟩ := loadFile_loaded (reset_sound memory₁).bus rfl prepared ⟨by decide, by decide⟩
  have ok : r₁.1 = .ok [] := congrArg Prod.fst ran
  obtain ⟨-, -, same, loaded⟩ := restart_forgets Peripherals.sameAnswers_inputs m₁ m₂ memory₁ memory₂ "jump.ch8"
    (.ok [0x12, 0x00])
  obtain ⟨-, -, ⟨state, bus, -⟩, alike⟩ := loaded [] ok
  exact ⟨ok, same.trans ok, state, bus, (alike inputs _).1⟩

end Machine

end Chip8
