import Chip8.Proofs.Memory

/-! The log of a bus, for any devices and any calls. Each call that succeeds adds one entry, with the byte that it
read or replaced; each that fails adds nothing and leaves the bus (`calls_logs`). The writes of the log made again
lead from the bus before to the bus behind (`Logs.replay`), and taken back they lead to the bus before
(`Logs.revert`). -/

namespace Chip8

inductive BusCall
  | read (address : Int)
  | write (address data : Int)
  deriving DecidableEq

/-- The call that an access comes from. -/
def Access.call : Access → BusCall
  | .read address _ => .read address
  | .write address data _ => .write address data

/-- What a device answers from. A port forgets what it took. -/
def Device.contents : Device → Device
  | .ram cells isTruth => .ram cells isTruth
  | .port interface _ => .port interface []

namespace Bus

/-- What a bus answers from. -/
def contents (b : Bus) : Bus where
  devices := b.devices.map Device.contents
  mappings := b.mappings

def call (b : Bus) : BusCall → Bus
  | .read address =>
    match b.read address with
    | .ok (_, b') => b'
    | .error _ => b
  | .write address data =>
    match b.write address data with
    | .ok b' => b'
    | .error _ => b

def calls (b : Bus) (cs : List BusCall) : Bus := cs.foldl call b

/-- The accesses of a list that are writes, made again from the first to the last. -/
def replay (b : Bus) : List Access → Except BusFault Unit × Bus
  | [] => (.ok (), b)
  | .read _ _ :: accesses => b.replay accesses
  | .write address data _ :: accesses =>
    match b.load address data with
    | .error why => (.error why, b)
    | .ok b' => b'.replay accesses

/-- Calls from a bus to a bus, with the entries that they add to the log. An entry has the byte that was there at
that moment. -/
inductive Logs : Bus → List BusCall → List Access → Bus → Prop
  | nil (b : Bus) : Logs b [] [] b
  | read {b b' : Bus} {address : Int} {data : UInt8} {cs : List BusCall} {entries : List Access}
    (peeked : b.peek address = .ok data)
    (rest : Logs { b with log := b.log ++ [.read address data] } cs entries b') :
    Logs b (.read address :: cs) (.read address data :: entries) b'
  | write {b b₁ b' : Bus} {address data : Int} {previous : UInt8} {cs : List BusCall} {entries : List Access}
    (peeked : b.peek address = .ok previous) (loaded : b.load address data = .ok b₁)
    (rest : Logs { b₁ with log := b₁.log ++ [.write address data previous] } cs entries b') :
    Logs b (.write address data :: cs) (.write address data previous :: entries) b'
  | unread {b b' : Bus} {address : Int} {why : BusFault} {cs : List BusCall} {entries : List Access}
    (failed : b.read address = .error why) (rest : Logs b cs entries b') :
    Logs b (.read address :: cs) entries b'
  | unwritten {b b' : Bus} {address data : Int} {why : BusFault} {cs : List BusCall} {entries : List Access}
    (failed : b.write address data = .error why) (rest : Logs b cs entries b') :
    Logs b (.write address data :: cs) entries b'

variable {b b' c : Bus} {address data : Int}

theorem read_eq_ok {byte : UInt8} (h : b.read address = .ok (byte, b')) :
    b.peek address = .ok byte ∧ b' = { b with log := b.log ++ [.read address byte] } := by
  unfold read at h
  split at h
  · cases h
  · rename_i peeked
    cases h
    exact ⟨peeked, rfl⟩

theorem write_eq_ok (h : b.write address data = .ok b') :
    ∃ previous b₁, b.peek address = .ok previous ∧ b.load address data = .ok b₁ ∧
      b' = { b₁ with log := b₁.log ++ [.write address data previous] } := by
  unfold write at h
  split at h
  · cases h
  · rename_i previous peeked
    split at h
    · cases h
    · rename_i b₁ loaded
      cases h
      exact ⟨previous, b₁, peeked, loaded, rfl⟩

theorem calls_cons (b : Bus) (c : BusCall) (cs : List BusCall) : b.calls (c :: cs) = (b.call c).calls cs := rfl

theorem calls_logs (b : Bus) (cs : List BusCall) : ∃ entries, Logs b cs entries (b.calls cs) := by
  induction cs generalizing b with
  | nil => exact ⟨[], .nil b⟩
  | cons c cs ih =>
    obtain ⟨entries, rest⟩ := ih (b.call c)
    rw [calls_cons]
    cases c with
    | read address =>
      rcases outcome : b.read address with why | ⟨byte, b₁⟩
      · have same : b.call (.read address) = b := by simp only [call, outcome]
        rw [same] at rest ⊢
        exact ⟨entries, .unread outcome rest⟩
      · have next : b.call (.read address) = b₁ := by simp only [call, outcome]
        obtain ⟨peeked, rfl⟩ := read_eq_ok outcome
        rw [next] at rest ⊢
        exact ⟨.read address byte :: entries, .read peeked rest⟩
    | write address data =>
      rcases outcome : b.write address data with why | b₁
      · have same : b.call (.write address data) = b := by simp only [call, outcome]
        rw [same] at rest ⊢
        exact ⟨entries, .unwritten outcome rest⟩
      · have next : b.call (.write address data) = b₁ := by simp only [call, outcome]
        obtain ⟨previous, b₂, peeked, loaded, rfl⟩ := write_eq_ok outcome
        rw [next] at rest ⊢
        exact ⟨.write address data previous :: entries, .write peeked loaded rest⟩

theorem Logs.append {cs cs' : List BusCall} {entries entries' : List Access} {b'' : Bus}
    (h : Logs b cs entries b') (h' : Logs b' cs' entries' b'') : Logs b (cs ++ cs') (entries ++ entries') b'' := by
  induction h with
  | nil => exact h'
  | read peeked _ ih => exact .read peeked (ih h')
  | write peeked loaded _ ih => exact .write peeked loaded (ih h')
  | unread failed _ ih => exact .unread failed (ih h')
  | unwritten failed _ ih => exact .unwritten failed (ih h')

theorem Logs.unique {cs : List BusCall} {entries entries' : List Access} {b'' : Bus} (h : Logs b cs entries b')
    (h' : Logs b cs entries' b'') : entries' = entries ∧ b'' = b' := by
  induction h generalizing entries' b'' with
  | nil =>
    cases h'
    exact ⟨rfl, rfl⟩
  | read peeked _ ih =>
    cases h' with
    | read peeked' rest =>
      obtain rfl := Except.ok.inj (peeked'.symm.trans peeked)
      obtain ⟨rfl, rfl⟩ := ih rest
      exact ⟨rfl, rfl⟩
    | unread failed _ =>
      rw [Bus.read, peeked] at failed
      cases failed
  | write peeked loaded _ ih =>
    cases h' with
    | write peeked' loaded' rest =>
      obtain rfl := Except.ok.inj (peeked'.symm.trans peeked)
      obtain rfl := Except.ok.inj (loaded'.symm.trans loaded)
      obtain ⟨rfl, rfl⟩ := ih rest
      exact ⟨rfl, rfl⟩
    | unwritten failed _ =>
      rw [Bus.write, peeked] at failed
      simp only [loaded] at failed
      cases failed
  | unread failed _ ih =>
    cases h' with
    | read peeked _ =>
      rw [Bus.read, peeked] at failed
      cases failed
    | unread _ rest => exact ih rest
  | unwritten failed _ ih =>
    cases h' with
    | write peeked loaded _ =>
      rw [Bus.write, peeked] at failed
      simp only [loaded] at failed
      cases failed
    | unwritten _ rest => exact ih rest

/-! ### A write -/

theorem load_eq_ok_iff : b.load address data = .ok b' ↔
    ∃ number d offset d', b.find? address = some (number, d, offset) ∧ d.writeAt offset data = .ok d' ∧
      b' = b.setDevice number d' := by
  unfold load
  constructor
  · intro h
    split at h
    · cases h
    · rename_i number d offset found
      split at h
      · cases h
      · rename_i d' written
        cases h
        exact ⟨number, d, offset, d', found, written, rfl⟩
  · rintro ⟨number, d, offset, d', found, written, rfl⟩
    rw [found]
    dsimp only
    rw [written]

theorem find?_of_contents (same : c.contents = b.contents) {number : Nat} {d : Device} {offset : Int}
    (found : b.find? address = some (number, d, offset)) :
    ∃ e, c.find? address = some (number, e, offset) ∧ e.contents = d.contents := by
  obtain ⟨devices, mappings, -⟩ := Bus.mk.inj same
  unfold find? at found ⊢
  rw [mappings]
  split at found
  · cases found
  · rename_i m _
    rw [Option.map_eq_some_iff] at found
    obtain ⟨d', here, eq⟩ := found
    cases eq
    have alike : c.devices[m.device]?.map Device.contents = some d.contents := by
      rw [← Array.getElem?_map, devices, Array.getElem?_map, here, Option.map_some]
    rw [Option.map_eq_some_iff] at alike
    obtain ⟨e, there, alike⟩ := alike
    exact ⟨e, by rw [there, Option.map_some], alike⟩

theorem contents_setDevice (number : Nat) (d : Device) :
    (b.setDevice number d).contents = b.contents.setDevice number d.contents := by
  simp [contents, setDevice, Array.map_setIfInBounds]

end Bus

namespace Device

theorem setIfInBounds_eq_self {α : Type} {xs : Array α} {i : Nat} {x : α} (h : xs[i]? = some x) :
    xs.setIfInBounds i x = xs := by
  apply Array.ext_getElem?
  intro j
  rw [Array.getElem?_setIfInBounds]
  split
  · rename_i same
    subst same
    obtain ⟨inside, -⟩ := Array.getElem?_eq_some_iff.1 h
    rw [if_pos inside, h]
  · rfl

variable {d d' e : Device} {offset data : Int}

theorem writeAt_port {interface : Port} {writes : List (Int × Int)} (taken : interface.refusal? offset data = none) :
    (Device.port interface writes).writeAt offset data = .ok (.port interface (writes ++ [(offset, data)])) := by
  simp only [writeAt, taken]

theorem writeAt_port_eq_ok {interface : Port} {writes : List (Int × Int)}
    (written : (Device.port interface writes).writeAt offset data = .ok d') :
    interface.refusal? offset data = none ∧ d' = .port interface (writes ++ [(offset, data)]) := by
  cases taken : interface.refusal? offset data with
  | none =>
    rw [writeAt_port taken] at written
    exact ⟨rfl, (Except.ok.inj written).symm⟩
  | some why =>
    simp only [writeAt, taken] at written
    cases written

theorem writeAt_of_contents (same : e.contents = d.contents) (written : d.writeAt offset data = .ok d') :
    ∃ e', e.writeAt offset data = .ok e' ∧ e'.contents = d'.contents := by
  cases d with
  | ram cells isTruth =>
    cases e with
    | ram cells' isTruth' =>
      cases same
      exact ⟨d', written, rfl⟩
    | port => cases same
  | port interface writes =>
    cases e with
    | ram => cases same
    | port interface' writes' =>
      cases same
      obtain ⟨taken, rfl⟩ := writeAt_port_eq_ok written
      exact ⟨_, writeAt_port taken, rfl⟩

theorem readAt_of_contents (same : e.contents = d.contents) (offset : Int) : e.readAt offset = d.readAt offset := by
  have answers (d : Device) : d.contents.readAt offset = d.readAt offset := by cases d <;> rfl
  rw [← answers, same, answers]

theorem eq_of_contents_ram {cells : Array UInt8} {isTruth : Bool}
    (same : d.contents = (Device.ram cells isTruth).contents) : d = .ram cells isTruth := by
  cases d with
  | ram => exact same
  | port => cases same

/-- The byte that a write replaced can be put back. -/
theorem writeAt_back {previous : UInt8} (before : d.readAt offset = .ok previous)
    (written : d.writeAt offset data = .ok d') :
    ∃ d'', d'.writeAt offset previous.toNat = .ok d'' ∧ d''.contents = d.contents := by
  cases d with
  | ram cells isTruth =>
    rw [readAt] at before
    split at before
    · rename_i inside
      cases before
      rw [writeAt, if_pos inside] at written
      split at written
      · cases written
        have small := (cells.getD offset.toNat 0).toNat_lt
        have byte : 0 ≤ ((cells.getD offset.toNat 0).toNat : Int) ∧
            ((cells.getD offset.toNat 0).toNat : Int) < 256 := by omega
        rw [writeAt, Array.size_setIfInBounds, if_pos inside, if_pos byte]
        refine ⟨_, rfl, ?_⟩
        have lies : offset.toNat < cells.size := by omega
        have here : cells[offset.toNat]? = some (cells.getD offset.toNat 0) := by simp [lies]
        rw [contents, Int.toNat_natCast, UInt8.ofNat_toNat, Array.setIfInBounds_setIfInBounds,
          setIfInBounds_eq_self here]
        rfl
      · cases written
    · cases before
  | port interface writes =>
    obtain ⟨taken, rfl⟩ := writeAt_port_eq_ok written
    exact ⟨_, writeAt_port (interface.takes_bytes offset data previous taken), rfl⟩

end Device

namespace Bus

variable {b b' c : Bus} {address data : Int}

theorem load_of_contents (same : c.contents = b.contents) (loaded : b.load address data = .ok b') :
    ∃ c', c.load address data = .ok c' ∧ c'.contents = b'.contents := by
  obtain ⟨number, d, offset, d', found, written, rfl⟩ := load_eq_ok_iff.1 loaded
  obtain ⟨e, found', alike⟩ := find?_of_contents same found
  obtain ⟨e', written', alike'⟩ := Device.writeAt_of_contents alike written
  refine ⟨_, load_eq_ok_iff.2 ⟨number, e, offset, e', found', written', rfl⟩, ?_⟩
  rw [contents_setDevice, contents_setDevice, same, alike']

theorem find?_setDevice {number : Nat} {d : Device} {offset : Int}
    (found : b.find? address = some (number, d, offset)) (d' : Device) :
    b.devices[number]? = some d ∧ (b.setDevice number d').find? address = some (number, d', offset) := by
  unfold find? at found
  split at found
  · cases found
  · rename_i m first
    rw [Option.map_eq_some_iff] at found
    obtain ⟨d, here, eq⟩ := found
    cases eq
    refine ⟨here, ?_⟩
    obtain ⟨inside, -⟩ := Array.getElem?_eq_some_iff.1 here
    unfold find? setDevice
    dsimp only
    rw [first]
    dsimp only
    rw [Array.getElem?_setIfInBounds_self_of_lt inside, Option.map_some]

theorem load_back {previous : UInt8} (peeked : b.peek address = .ok previous)
    (loaded : b.load address data = .ok b') :
    ∃ b'', b'.load address previous.toNat = .ok b'' ∧ b''.contents = b.contents := by
  obtain ⟨number, d, offset, d', found, written, rfl⟩ := load_eq_ok_iff.1 loaded
  unfold peek at peeked
  rw [found] at peeked
  obtain ⟨d'', back, alike⟩ := Device.writeAt_back peeked written
  obtain ⟨here, found'⟩ := find?_setDevice found d'
  refine ⟨_, load_eq_ok_iff.2 ⟨number, d', offset, d'', found', back, rfl⟩, ?_⟩
  have same : b.contents.devices[number]? = some d.contents := by
    rw [contents, Array.getElem?_map, here, Option.map_some]
  rw [contents_setDevice, contents_setDevice, alike, setDevice, setDevice, Array.setIfInBounds_setIfInBounds,
    Device.setIfInBounds_eq_self same]

/-! ### A log -/

theorem log_of_load (loaded : b.load address data = .ok b') : b'.log = b.log := by
  obtain ⟨number, d, offset, d', -, -, rfl⟩ := load_eq_ok_iff.1 loaded
  rfl

theorem Logs.log {cs : List BusCall} {entries : List Access} (h : Logs b cs entries b') :
    b'.log = b.log ++ entries := by
  induction h with
  | nil => rw [List.append_nil]
  | read _ _ ih =>
    rw [ih, List.append_assoc]
    rfl
  | write _ loaded _ ih =>
    rw [ih, log_of_load loaded, List.append_assoc]
    rfl
  | unread _ _ ih => exact ih
  | unwritten _ _ ih => exact ih

/-- The log is no part of what a load goes by. -/
theorem load_withLog (loaded : b.load address data = .ok b') (log : List Access) :
    Bus.load { b with log } address data = .ok { b' with log } := by
  obtain ⟨number, d, offset, d', found, written, rfl⟩ := load_eq_ok_iff.1 loaded
  exact load_eq_ok_iff.2 ⟨number, d, offset, d', found, written, rfl⟩

theorem Logs.replay {cs : List BusCall} {entries : List Access} (h : Logs b cs entries b') (log : List Access) :
    Bus.replay { b with log } entries = (.ok (), { b' with log }) := by
  induction h with
  | nil => rfl
  | read _ _ ih => exact ih
  | write _ loaded _ ih =>
    rw [Bus.replay, load_withLog loaded log]
    exact ih
  | unread _ _ ih => exact ih
  | unwritten _ _ ih => exact ih

theorem Logs.revert {cs : List BusCall} {entries : List Access} (h : Logs b cs entries b') (log : List Access) :
    ∃ before, Bus.revert { b' with log } entries = (.ok (), before) ∧ before.contents = b.contents ∧
      before.log = log := by
  induction h with
  | nil b => exact ⟨{ b with log }, rfl, rfl, rfl⟩
  | read _ _ ih => exact ih
  | write peeked loaded _ ih =>
    -- What was written later is taken back first, up to what the bus no longer answers from.
    obtain ⟨later, reverted, alike, kept⟩ := ih
    obtain ⟨b₂, back, same⟩ := load_back peeked loaded
    obtain ⟨before, loaded', alike'⟩ := load_of_contents alike (load_withLog back _)
    refine ⟨before, ?_, alike'.trans same, (log_of_load loaded').trans kept⟩
    unfold Bus.revert at reverted ⊢
    rw [List.foldr_cons, reverted]
    dsimp only
    rw [loaded']
  | unread _ _ ih => exact ih
  | unwritten _ _ ih => exact ih

/-! ### What a bus answers from -/

theorem peek_of_contents (same : c.contents = b.contents) (address : Int) : c.peek address = b.peek address := by
  unfold peek
  cases found : b.find? address with
  | none =>
    cases found' : c.find? address with
    | none => rfl
    | some p =>
      obtain ⟨number, e, offset⟩ := p
      obtain ⟨d, there, -⟩ := find?_of_contents same.symm found'
      rw [found] at there
      cases there
  | some p =>
    obtain ⟨number, d, offset⟩ := p
    obtain ⟨e, found', alike⟩ := find?_of_contents same found
    rw [found']
    exact Device.readAt_of_contents alike offset

/-- A bus of cells is given by what it answers from, up to its log. -/
theorem eq_of_contents (cells : ∀ d ∈ b.devices, ∃ cells isTruth, d = Device.ram cells isTruth)
    (same : c.contents = b.contents) : c = { b with log := c.log } := by
  obtain ⟨devices, mappings, -⟩ := Bus.mk.inj same
  have kept : c.devices = b.devices := by
    have size : c.devices.size = b.devices.size := by
      rw [← Array.size_map (f := Device.contents), devices, Array.size_map]
    apply Array.ext size
    intro i inside inside'
    obtain ⟨bytes, isTruth, ram⟩ := cells _ (Array.getElem_mem inside')
    have alike : c.devices[i].contents = b.devices[i].contents := by
      have here := congrArg (fun ds : Array Device => ds[i]?) devices
      simpa [inside, inside'] using here
    rw [ram] at alike ⊢
    exact Device.eq_of_contents_ram alike
  rw [← kept, ← mappings]

end Bus

end Chip8
