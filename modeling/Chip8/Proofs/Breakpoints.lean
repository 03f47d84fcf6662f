import Chip8.Proofs.Runs

/-! Runs to a breakpoint. A run is followed instruction by instruction: behind each one the session is known
(`Reached`), and the loop ends behind the first at which the run is due to end, or at one that fails
(`runLoop_ended`). -/

namespace Chip8

/-- An instruction with these accesses, between these registers, at which an enabled breakpoint stops a run. -/
inductive Breakpoint.Stops (accesses : List Access) (before after : State) (bp : Breakpoint) : Prop
  | counter (enabled : bp.enabled = true) (kind : bp.kind = .counter) (next : bp.value = some after.pc)
  | memoryRead (enabled : bp.enabled = true) (kind : bp.kind = .memoryRead) (address : Int) (data : UInt8)
      (watched : bp.address = some address) (read : .read address data ∈ accesses)
  | memoryWrite (enabled : bp.enabled = true) (kind : bp.kind = .memoryWrite) (address data : Int) (previous : UInt8)
      (watched : bp.address = some address) (written : .write address data previous ∈ accesses)
  | registerValue (enabled : bp.enabled = true) (kind : bp.kind = .registerValue) (name : String) (value : Int)
      (watched : bp.register = some name) (awaited : bp.value = some value) (now : after.register? name = some value)
  | registerChange (enabled : bp.enabled = true) (kind : bp.kind = .registerChange) (name : String) (old new : Int)
      (watched : bp.register = some name) (was : before.register? name = some old)
      (now : after.register? name = some new) (changed : new ≠ old)

namespace Breakpoint

variable {bp : Breakpoint} {accesses : List Access} {before after : State}

theorem isCounterHit_iff (pc : Int) :
    bp.isCounterHit pc = true ↔ bp.enabled = true ∧ bp.kind = .counter ∧ bp.value = some pc := by
  simp [isCounterHit, and_assoc]

theorem any_readsAt (address : Option Int) :
    accesses.any (readsAt address) = true ↔ ∃ a data, address = some a ∧ .read a data ∈ accesses := by
  rw [List.any_eq_true]
  constructor
  · rintro ⟨access, member, reads⟩
    cases access with
    | read a data => exact ⟨a, data, by simpa [readsAt] using reads, member⟩
    | write => simp [readsAt] at reads
  · rintro ⟨a, data, rfl, member⟩
    exact ⟨.read a data, member, by simp [readsAt]⟩

theorem any_writesAt (address : Option Int) :
    accesses.any (writesAt address) = true ↔
      ∃ a data previous, address = some a ∧ .write a data previous ∈ accesses := by
  rw [List.any_eq_true]
  constructor
  · rintro ⟨access, member, writes⟩
    cases access with
    | read => simp [writesAt] at writes
    | write a data previous => exact ⟨a, data, previous, by simpa [writesAt] using writes, member⟩
  · rintro ⟨a, data, previous, rfl, member⟩
    exact ⟨.write a data previous, member, by simp [writesAt]⟩

theorem stops_iff : bp.Stops accesses before after ↔
    bp.isCounterHit after.pc = true ∨ bp.isHit accesses before after = true := by
  constructor
  · intro stops
    cases stops with
    | counter enabled kind next => exact .inl ((isCounterHit_iff _).2 ⟨enabled, kind, next⟩)
    | memoryRead enabled kind a data watched read =>
      simp only [isHit, enabled, kind, Bool.true_and]
      exact .inr ((any_readsAt _).2 ⟨a, data, watched, read⟩)
    | memoryWrite enabled kind a data previous watched written =>
      simp only [isHit, enabled, kind, Bool.true_and]
      exact .inr ((any_writesAt _).2 ⟨a, data, previous, watched, written⟩)
    | registerValue enabled kind name value watched awaited now => simp [isHit, enabled, kind, watched, awaited, now]
    | registerChange enabled kind name old new watched was now changed =>
      simp [isHit, enabled, kind, watched, was, now, changed]
  · rintro (counter | hit)
    · obtain ⟨enabled, kind, next⟩ := (isCounterHit_iff _).1 counter
      exact .counter enabled kind next
    · rw [isHit, Bool.and_eq_true] at hit
      obtain ⟨enabled, hit⟩ := hit
      cases kind : bp.kind with
      | counter => simp [kind] at hit
      | memoryRead =>
        rw [kind] at hit
        obtain ⟨a, data, watched, read⟩ := (any_readsAt _).1 hit
        exact .memoryRead enabled kind a data watched read
      | memoryWrite =>
        rw [kind] at hit
        obtain ⟨a, data, previous, watched, written⟩ := (any_writesAt _).1 hit
        exact .memoryWrite enabled kind a data previous watched written
      | registerValue =>
        simp only [kind] at hit
        split at hit
        · rename_i value now
          obtain ⟨name, watched, now⟩ := Option.bind_eq_some_iff.1 now
          exact .registerValue enabled kind name value watched (by simpa using hit) now
        · cases hit
      | registerChange =>
        simp only [kind] at hit
        split at hit
        · rename_i new old now was
          obtain ⟨name, watched, now⟩ := Option.bind_eq_some_iff.1 now
          obtain ⟨name', watched', was⟩ := Option.bind_eq_some_iff.1 was
          obtain rfl : name' = name := by simpa [watched'] using watched
          exact .registerChange enabled kind name' old new watched was now (by simpa using hit)
        · cases hit

end Breakpoint

def HistoryEntry.Stops (bps : List Breakpoint) (entry : HistoryEntry) : Prop :=
  ∃ bp ∈ bps, bp.Stops entry.snapshot.accesses entry.before entry.snapshot.state

namespace Machine

variable {π : Type} [Host π] {m m₁ m' : Machine π} {k : Nat} {last : Option Trace}

theorem state_of_completed {t : Trace} (once : (chip8 π).stepOnce m = (.ok t, m')) : t.state = m'.state := by
  rcases stepOnce_begins m with ⟨f, m₁, failed, -⟩ | ⟨i, m₁, begins, -⟩
  · rw [failed] at once
    cases once
  · rcases ran : perform i.opcode i.word m₁ with ⟨f | ⟨⟩, m₂⟩
    · rw [begins, Action.bind_error ran] at once
      cases once
    · rw [begins, Action.bind_ok ran] at once
      cases once
      rfl

theorem entries_succ (loaded : m.state.isLoaded = true) {first : Option Trace}
    (ran : (chip8 π).stepMany k first m = (.ok last, m₁)) {t : Trace} (once : (chip8 π).stepOnce m₁ = (.ok t, m')) :
    m.entries (k + 1) = ⟨t, m₁.state⟩ :: m.entries k := by
  induction k generalizing m first with
  | zero =>
    cases ran
    exact entries_completed loaded once 0
  | succ k ih =>
    rcases before : (chip8 π).stepOnce m with ⟨f | t₀, m₀⟩
    · rw [stepMany_failed before] at ran
      cases ran
    · rw [stepMany_completed before] at ran
      rw [entries_completed loaded before, entries_completed loaded before,
        ih (isLoaded_of_completed loaded before) ran]
      rfl

theorem entries_stuck (loaded : m.state.isLoaded = true) {first : Option Trace}
    (ran : (chip8 π).stepMany k first m = (.ok last, m₁)) {f : Fault}
    (once : (chip8 π).stepOnce m₁ = (.error f, m')) (j : Nat) : m.entries (k + j) = m.entries k := by
  induction k generalizing m first with
  | zero =>
    cases ran
    rw [Nat.zero_add, entries_failed loaded once, entries]
  | succ k ih =>
    rcases before : (chip8 π).stepOnce m with ⟨f | t₀, m₀⟩
    · rw [stepMany_failed before] at ran
      cases ran
    · rw [stepMany_completed before] at ran
      rw [Nat.add_right_comm, entries_completed loaded before, entries_completed loaded before,
        ih (isLoaded_of_completed loaded before) ran]

theorem entries_complete (loaded : m.state.isLoaded = true) (complete : (m.entries (k + 1)).length = k + 1) :
    (m.entries k).length = k := by
  induction k generalizing m with
  | zero => rfl
  | succ k ih =>
    rcases once : (chip8 π).stepOnce m with ⟨f | t, m'⟩
    · rw [entries_failed loaded once] at complete
      cases complete
    · rw [entries_completed loaded once, List.length_append, List.length_singleton] at complete ⊢
      rw [ih (isLoaded_of_completed loaded once) (Nat.succ.inj complete)]

theorem entries_complete_of_le (loaded : m.state.isLoaded = true) (complete : (m.entries k).length = k) {i : Nat}
    (upTo : i ≤ k) : (m.entries i).length = i := by
  induction k with
  | zero =>
    obtain rfl := Nat.le_zero.1 upTo
    rfl
  | succ k ih =>
    rcases Nat.lt_or_eq_of_le upTo with less | rfl
    · exact ih (entries_complete loaded complete) (Nat.le_of_lt_succ less)
    · exact complete

theorem stepMany_succ {first : Option Trace} (ran : (chip8 π).stepMany k first m = (.ok last, m₁)) :
    (chip8 π).stepMany (k + 1) first m = (chip8 π).stepMany 1 last m₁ := by
  rw [Processor.stepMany_add, Action.bind_ok ran]

end Machine

namespace Session

variable {π : Type} [Host π] {s s' s'' : Session π} {limit : Option Int} {k : Nat} {last : Option Trace}

/-- Behind so many instructions a run is due to end: that is the limit, or the last of them is one to stop at. -/
def Due (s : Session π) (limit : Option Int) (k : Nat) : Prop :=
  limit = some (k : Int) ∨ ∃ entry, (s.machine.entries k).head? = some entry ∧ entry.Stops s.debugger.breakpoints

/-- A session in which a run has come so many instructions far. -/
structure Reached (s : Session π) (k : Nat) (last : Option Trace) (s' : Session π) : Prop where
  ran : (chip8 π).stepMany k none s.machine = (.ok last, s'.machine)
  count : (s.machine.entries k).length = k
  history : s'.debugger.history = s.machine.entries k ++ s.debugger.history
  breakpoints : s'.debugger.breakpoints = s.debugger.breakpoints
  newest : ∀ entry, (s.machine.entries k).head? = some entry →
    last = some entry.snapshot ∧ entry.snapshot.state = s'.machine.state

namespace Reached

theorem loaded (h : Reached s k last s') (loaded : s.machine.state.isLoaded = true) :
    s'.machine.state.isLoaded = true := by
  have kept := Machine.isLoaded_stepMany s.machine k none
  rw [h.ran] at kept
  exact kept.trans loaded

theorem start (s : Session π) : Reached s 0 none s.started where
  ran := rfl
  count := rfl
  history := rfl
  breakpoints := rfl
  newest entry head := by
    rw [Machine.entries] at head
    cases head

theorem next (h : Reached s k last s') (loaded : s.machine.state.isLoaded = true) {t : Trace} {m' : Machine π}
    (once : (chip8 π).stepOnce s'.machine = (.ok t, m')) :
    s.machine.entries (k + 1) = ⟨t, s'.machine.state⟩ :: s.machine.entries k ∧
    ∃ s'', stepInstruction s' = (.ok (some t), s'') ∧ s''.debugger.previous = s'.machine.state ∧
      Reached s (k + 1) (some t) s'' := by
  have entries := Machine.entries_succ loaded h.ran once
  have step := stepInstruction_some (Machine.step_one_of_stepOnce (h.loaded loaded) once)
  refine ⟨entries, _, step, rfl, ?_, ?_, ?_, ?_, ?_⟩
  · rw [Machine.stepMany_succ h.ran, Machine.stepMany_completed once]
    rfl
  · rw [entries, List.length_cons, h.count]
  · rw [entries, List.cons_append, ← h.history]
  · exact h.breakpoints
  · intro entry head
    rw [entries] at head
    cases head
    exact ⟨rfl, Machine.state_of_completed once⟩

theorem exists_of_complete (loaded : s.machine.state.isLoaded = true)
    (complete : (s.machine.entries k).length = k) : ∃ last s', Reached s k last s' := by
  induction k with
  | zero => exact ⟨none, s.started, start s⟩
  | succ k ih =>
    obtain ⟨last, s', h⟩ := ih (Machine.entries_complete loaded complete)
    rcases once : (chip8 π).stepOnce s'.machine with ⟨f | t, m'⟩
    · have stuck := Machine.entries_stuck loaded h.ran once 1
      rw [stuck, h.count] at complete
      omega
    · obtain ⟨-, s'', -, -, next⟩ := h.next loaded once
      exact ⟨some t, s'', next⟩

theorem le_of_fails (h : Reached s k last s') (loaded : s.machine.state.isLoaded = true) {f : Fault} {m' : Machine π}
    (fails : (chip8 π).stepOnce s'.machine = (.error f, m')) {j : Nat} (complete : (s.machine.entries j).length = j) :
    j ≤ k := by
  by_contra beyond
  have stuck := Machine.entries_stuck loaded h.ran fails (j - k)
  rw [Nat.add_sub_cancel' (by omega)] at stuck
  rw [stuck, h.count] at complete
  omega

theorem unique (h : Reached s k last s') {last' : Option Trace} (h' : Reached s k last' s'') :
    last' = last ∧ s''.machine = s'.machine ∧ s''.debugger.history = s'.debugger.history := by
  obtain ⟨same, machine⟩ := Prod.mk.inj (h'.ran.symm.trans h.ran)
  exact ⟨Except.ok.inj same, machine, h'.history.trans h.history.symm⟩

theorem step_eq (h : Reached s k last s') (loaded : s.machine.state.isLoaded = true) :
    Machine.step k s.machine = (.ok last, s'.machine) := by
  rw [Machine.step_eq, if_pos loaded, Int.toNat_natCast]
  exact h.ran

end Reached

/-- The ways in which the loop of a run ends: where it is due to, at an instruction that fails, or with its fuel. -/
inductive Ended (s : Session π) (limit : Option Int) (total : Nat) :
    Except Fault (Option Trace) × Session π → Prop
  | due {k : Nat} {last : Option Trace} {s' s'' : Session π} (pos : 0 < k) (upTo : k ≤ total)
      (reached : Reached s k last s') (due : s.Due limit k) (first : ∀ i, 0 < i → i < k → ¬ s.Due limit i)
      (machine : s''.machine = s'.machine)
      (history : s''.debugger.history = s'.debugger.history) : Ended s limit total (.ok last, s'')
  | failed {k : Nat} {last : Option Trace} {s' s'' : Session π} {f : Fault} (below : k < total)
      (reached : Reached s k last s') (undue : ∀ i, 0 < i → i ≤ k → ¬ s.Due limit i)
      (fails : (chip8 π).stepOnce s'.machine = (.error f, s''.machine))
      (history : s''.debugger.history = s'.debugger.history) : Ended s limit total (.error f, s'')
  | exhausted {last : Option Trace} {s' : Session π} (reached : Reached s total last s')
      (undue : ∀ i, 0 < i → i < total → ¬ s.Due limit i) : Ended s limit total (.ok last, s')

/-- The last of so many instructions hits no breakpoint but one on the program counter. -/
def Missed (s : Session π) (k : Nat) : Prop :=
  ∀ entry, (s.machine.entries k).head? = some entry →
    ∀ bp ∈ s.debugger.breakpoints, bp.isHit entry.snapshot.accesses entry.before entry.snapshot.state = false

theorem Reached.exists_newest (h : Reached s k last s') (pos : 0 < k) :
    ∃ entry, (s.machine.entries k).head? = some entry := by
  rcases entries : s.machine.entries k with _ | ⟨entry, rest⟩
  · have count := h.count
    rw [entries] at count
    exact absurd count (Nat.ne_of_lt pos)
  · exact ⟨entry, rfl⟩

theorem missed_zero (s : Session π) : s.Missed 0 := by
  intro entry head
  rw [Machine.entries] at head
  cases head

theorem Due.of_counter (h : Reached s k last s') (pos : 0 < k)
    (hit : s'.debugger.hitsCounter s'.machine.state.pc = true) : s.Due limit k := by
  obtain ⟨bp, member, hit⟩ := List.any_eq_true.1 hit
  rw [h.breakpoints] at member
  obtain ⟨entry, head⟩ := h.exists_newest pos
  obtain ⟨-, state⟩ := h.newest entry head
  rw [← state] at hit
  exact .inr ⟨entry, head, bp, member, Breakpoint.stops_iff.2 (.inl hit)⟩

theorem not_due (h : Reached s k last s') (missed : s.Missed k) (more : limit.any (· ≤ (k : Int)) = false)
    (passing : s'.debugger.hitsCounter s'.machine.state.pc = false) : ¬ s.Due limit k := by
  rintro (full | ⟨entry, head, bp, member, stops⟩)
  · simp [full] at more
  · rcases Breakpoint.stops_iff.1 stops with counter | hit
    · obtain ⟨-, state⟩ := h.newest entry head
      rw [← h.breakpoints] at member
      rw [state] at counter
      exact List.any_eq_false.1 passing bp member counter
    · rw [missed entry head bp member] at hit
      cases hit

theorem le_limit {n : Int} (pos : 0 < n) (first : ∀ i, 0 < i → i < k → ¬ s.Due (some n) i) : k ≤ n := by
  by_contra beyond
  refine first n.toNat (by omega) (by omega) (.inl ?_)
  rw [Int.toNat_of_nonneg pos.le]

theorem Due.of_limit (positive : ∀ n, limit = some n → 0 < n) (first : ∀ i, 0 < i → i < k → ¬ s.Due limit i)
    (full : limit.any (· ≤ (k : Int)) = true) : 0 < k ∧ s.Due limit k := by
  obtain ⟨n, rfl, upTo⟩ : ∃ n, limit = some n ∧ n ≤ k := by
    cases limit with
    | none => cases full
    | some n => exact ⟨n, rfl, of_decide_eq_true full⟩
  have pos := positive n rfl
  have same : n = k := Int.le_antisymm upTo (le_limit pos first)
  exact ⟨by omega, .inl (congrArg some same)⟩

section newest

variable {t : Trace} {before : State} {rest : List HistoryEntry} (h : Reached s k (some t) s')
  (entries : s.machine.entries k = ⟨t, before⟩ :: rest) (previous : s'.debugger.previous = before)
include h entries previous

theorem Due.of_hit (hit : s'.debugger.isHit t.accesses s'.machine.state = true) : s.Due limit k := by
  have head : (s.machine.entries k).head? = some ⟨t, before⟩ := by rw [entries, List.head?_cons]
  obtain ⟨-, state⟩ := h.newest _ head
  obtain ⟨bp, member, hit⟩ := List.any_eq_true.1 hit
  rw [h.breakpoints] at member
  rw [previous, ← state] at hit
  exact .inr ⟨_, head, bp, member, Breakpoint.stops_iff.2 (.inr hit)⟩

theorem missed_of_pass (pass : s'.debugger.isHit t.accesses s'.machine.state = false) : s.Missed k := by
  intro entry newest bp member
  have head : (s.machine.entries k).head? = some ⟨t, before⟩ := by rw [entries, List.head?_cons]
  obtain ⟨-, state⟩ := h.newest _ head
  obtain rfl := Option.some.inj (head.symm.trans newest)
  rw [← h.breakpoints] at member
  have missed := List.any_eq_false.1 pass bp member
  rw [previous, ← state, Bool.not_eq_true] at missed
  exact missed

end newest

theorem runLoop_ended {stops : π → Nat} (loaded : s.machine.state.isLoaded = true)
    (unstopped : ∀ j : Nat, stops (Machine.step j s.machine).2.host = stops s.machine.host)
    (positive : ∀ n, limit = some n → 0 < n) {fuel total : Nat} (left : k + fuel = total)
    (h : Reached s k last s') (first : ∀ i, 0 < i → i < k → ¬ s.Due limit i) (missed : s.Missed k) :
    Ended s limit total (runLoop stops (stops s.machine.host) limit fuel k last s') := by
  induction fuel generalizing k last s' with
  | zero =>
    obtain rfl : k = total := left
    exact .exhausted h first
  | succ fuel ih =>
    have going : stops s'.machine.host = stops s.machine.host := by
      have here := unstopped k
      rw [Machine.step_eq, if_pos loaded, Int.toNat_natCast, h.ran] at here
      exact here
    cases more : limit.any (· ≤ (k : Int)) with
    | true =>
      obtain ⟨pos, due⟩ := Due.of_limit positive first more
      rw [runLoop_full more]
      exact .due pos (by omega) h due first rfl rfl
    | false =>
    by_cases reached : (k : Int) ≠ 0 ∧ s'.debugger.hitsCounter s'.machine.state.pc = true
    · rw [runLoop_counter going more fuel last reached.1 reached.2]
      exact .due (by omega) (by omega) h (.of_counter h (by omega) reached.2) first rfl rfl
    have passing : (k : Int) = 0 ∨ s'.debugger.hitsCounter s'.machine.state.pc = false := by
      rw [← Bool.not_eq_true]
      tauto
    have undue : ∀ i, 0 < i → i ≤ k → ¬ s.Due limit i := by
      intro i pos upTo
      rcases Nat.lt_or_eq_of_le upTo with before | rfl
      · exact first i pos before
      · exact not_due h missed more (passing.resolve_left (by omega))
    rcases once : (chip8 π).stepOnce s'.machine with ⟨f | t, m'⟩
    · rw [runLoop_failed going more fuel last passing (h.loaded loaded) once]
      exact .failed (by omega) h undue once rfl
    · obtain ⟨entries, s'', step, previous, next⟩ := h.next loaded once
      have earlier : ∀ i, 0 < i → i < k + 1 → ¬ s.Due limit i := fun i pos upTo =>
        undue i pos (Nat.le_of_lt_succ upTo)
      cases hit : s''.debugger.isHit t.accesses s''.machine.state with
      | true =>
        rw [runLoop_hit going more fuel last passing step hit]
        exact .due (Nat.succ_pos k) (by omega) next (.of_hit next entries previous hit) earlier rfl rfl
      | false =>
        rw [runLoop_completed going more fuel last passing step hit, ← Int.natCast_succ]
        exact ih (by omega) next earlier (missed_of_pass next entries previous hit)

namespace Ended

variable {total : Nat} {answer : Except Fault (Option Trace)} (h : Ended s limit total (answer, s''))
  (loaded : s.machine.state.isLoaded = true) {last : Option Trace} (reached : Reached s k last s')
include h loaded reached

theorem of_due (pos : 0 < k) (upTo : k ≤ total) (due : s.Due limit k)
    (first : ∀ i, 0 < i → i < k → ¬ s.Due limit i) :
    answer = .ok last ∧ s''.machine = s'.machine ∧ s''.debugger.history = s'.debugger.history := by
  cases h with
  | @due k' _ _ _ pos' _ reached' due' first' machine history =>
    obtain rfl : k' = k := by
      rcases lt_trichotomy k' k with less | same | more
      · exact absurd due' (first k' pos' less)
      · exact same
      · exact absurd due (first' k pos more)
    obtain ⟨rfl, machine', history'⟩ := reached.unique reached'
    exact ⟨rfl, machine.trans machine', history.trans history'⟩
  | @failed j _ _ _ _ _ reached' undue fails =>
    exact absurd due (undue k pos (reached'.le_of_fails loaded fails reached.count))
  | exhausted reached' undue =>
    rcases Nat.lt_or_eq_of_le upTo with less | rfl
    · exact absurd due (undue k pos less)
    · obtain ⟨rfl, machine, history⟩ := reached.unique reached'
      exact ⟨rfl, machine, history⟩

theorem of_fails (below : k < total) (undue : ∀ i, 0 < i → i ≤ k → ¬ s.Due limit i) {f : Fault} {m' : Machine π}
    (fails : (chip8 π).stepOnce s'.machine = (.error f, m')) :
    answer = .error f ∧ s''.machine = m' ∧ s''.debugger.history = s'.debugger.history := by
  cases h with
  | @due k' _ _ _ pos' _ reached' due' =>
    exact absurd due' (undue k' pos' (reached.le_of_fails loaded fails reached'.count))
  | @failed j _ _ _ _ _ reached' _ fails' history =>
    obtain rfl : j = k := Nat.le_antisymm (reached.le_of_fails loaded fails reached'.count)
      (reached'.le_of_fails loaded fails' reached.count)
    obtain ⟨-, machine', history'⟩ := reached.unique reached'
    rw [machine', fails] at fails'
    obtain ⟨same, machine⟩ := Prod.mk.inj fails'
    exact ⟨by rw [Except.error.inj same], machine.symm, history.trans history'⟩
  | exhausted reached' _ => exact absurd (reached.le_of_fails loaded fails reached'.count) (Nat.not_le.2 below)

theorem of_total (whole : k = total) (undue : ∀ i, 0 < i → i ≤ k → ¬ s.Due limit i) :
    answer = .ok last ∧ s''.machine = s'.machine ∧ s''.debugger.history = s'.debugger.history := by
  subst whole
  cases h with
  | @due k' _ _ _ pos' upTo' _ due' => exact absurd due' (undue k' pos' upTo')
  | @failed j _ _ _ _ below reached' _ fails =>
    exact absurd (reached'.le_of_fails loaded fails reached.count) (Nat.not_le.2 below)
  | exhausted reached' _ =>
    obtain ⟨rfl, machine, history⟩ := reached.unique reached'
    exact ⟨rfl, machine, history⟩

omit loaded reached in
theorem recorded : ∃ k, (s.machine.entries k).length = k ∧
    s''.debugger.history = s.machine.entries k ++ s.debugger.history ∧
    ∀ i, 0 < i → (i < k ∨ i = k ∧ ∃ f, answer = .error f) → ¬ s.Due limit i := by
  cases h with
  | due _ _ reached _ first _ history =>
    refine ⟨_, reached.count, history.trans reached.history, ?_⟩
    rintro i pos (less | ⟨-, f, ⟨⟩⟩)
    exact first i pos less
  | failed _ reached undue _ history =>
    refine ⟨_, reached.count, history.trans reached.history, ?_⟩
    rintro i pos (less | ⟨rfl, -⟩)
    · exact undue i pos less.le
    · exact undue i pos le_rfl
  | exhausted reached undue =>
    refine ⟨_, reached.count, reached.history, ?_⟩
    rintro i pos (less | ⟨-, f, ⟨⟩⟩)
    exact undue i pos less

end Ended

/-- Before it has used all its passes, a run with a limit is due to end. -/
theorem le_passes {bound : Nat} (positive : ∀ n, limit = some n → 0 < n) (enough : limit = none → k ≤ bound)
    (first : ∀ i, 0 < i → i < k → ¬ s.Due limit i) : k ≤ passes bound limit := by
  cases limit with
  | none => exact enough rfl
  | some n =>
    have upTo := le_limit (positive n rfl) first
    rw [passes]
    omega

theorem Due.of_breakpoint (loaded : s.machine.state.isLoaded = true) (complete : (s.machine.entries k).length = k)
    (pos : 0 < k) {bp : Breakpoint} (member : bp ∈ s.debugger.breakpoints) (enabled : bp.enabled = true)
    (kind : bp.kind = .counter) (here : bp.value = some (Machine.step k s.machine).2.state.pc) : s.Due limit k := by
  obtain ⟨last, s', reached⟩ := Reached.exists_of_complete loaded complete
  rw [reached.step_eq loaded] at here
  rw [← reached.breakpoints] at member
  apply Due.of_counter reached pos
  rw [Debugger.hitsCounter, List.any_eq_true]
  exact ⟨bp, member, (Breakpoint.isCounterHit_iff _).2 ⟨enabled, kind, here⟩⟩

/-- **Breakpoints.** A run of a loaded machine that nobody asks to stop ends behind the first instruction at which it
is due to: with the limit of steps, at an instruction that leads to a breakpoint, accesses memory at one, leaves a
register with its value or changes its register. The answer is what that instruction reports. If an instruction fails
before that, its failure is the answer, and those before it are recorded. A run without limit that is never due to end
goes through as many instructions as its bound allows. A limit that is not positive executes nothing. In any case the
debugger does not run afterwards, and no instruction but the first began at a breakpoint. -/
theorem run_to_first_hit (s : Session π) (loaded : s.machine.state.isLoaded = true) (stops : π → Nat)
    (unstopped : ∀ j : Nat, stops (Machine.step j s.machine).2.host = stops s.machine.host) (bound : Nat)
    (limit : Option Int) :
    let m := s.machine
    let r := run stops bound limit s
    let Recorded (k : Nat) : Prop := r.2.debugger.history = m.entries k ++ s.debugger.history
    r.2.debugger.running = false ∧
    (∀ n ≤ 0, limit = some n → r.1 = .ok none ∧ r.2.machine = m ∧ Recorded 0) ∧
    ((∀ n, limit = some n → 0 < n) →
      (∀ k, 0 < k → (limit = none → k ≤ bound) → (m.entries k).length = k → s.Due limit k →
        (∀ i, 0 < i → i < k → ¬ s.Due limit i) →
        (∃ entry, (m.entries k).head? = some entry ∧ r.1 = .ok (some entry.snapshot)) ∧
          r.2.machine = (Machine.step k m).2 ∧ Recorded k) ∧
      (∀ k f m', (limit = none → k < bound) → (m.entries k).length = k → (∀ i, 0 < i → i ≤ k → ¬ s.Due limit i) →
        Machine.step 1 (Machine.step k m).2 = (.error f, m') → r.1 = .error f ∧ r.2.machine = m' ∧ Recorded k) ∧
      (limit = none → (m.entries bound).length = bound → (∀ i, 0 < i → i ≤ bound → ¬ s.Due limit i) →
        r.2.machine = (Machine.step bound m).2 ∧ Recorded bound)) ∧
    ∃ newer, r.2.debugger.history = newer ++ s.debugger.history ∧
      ∀ i : Nat, 0 < i → (i < newer.length ∨ i = newer.length ∧ ∃ f, r.1 = .error f) →
        ∀ bp ∈ s.debugger.breakpoints, bp.enabled = true → bp.kind = .counter →
          bp.value ≠ some (Machine.step i m).2.state.pc := by
  intro m r Recorded
  rcases loop : runLoop stops (stops s.machine.host) limit (passes bound limit) 0 none s.started with ⟨answer, s''⟩
  obtain ran : r = (answer, s''.modifyDebugger Debugger.stop) := run_of_loop loop
  have history : r.2.debugger.history = s''.debugger.history := by rw [ran]; rfl
  have machine : r.2.machine = s''.machine := by rw [ran]; rfl
  have answered : r.1 = answer := by rw [ran]
  refine ⟨by rw [ran]; rfl, ?_⟩
  simp only [Recorded, history, machine, answered]
  clear_value r
  by_cases idle : ∃ n ≤ 0, limit = some n
  · obtain ⟨n, low, rfl⟩ := idle
    have full : (some n).any (· ≤ (0 : Int)) = true := decide_eq_true low
    rw [passes, runLoop_full full] at loop
    cases loop
    refine ⟨fun _ _ _ => ⟨rfl, rfl, rfl⟩, fun positive => absurd (positive n rfl) (Int.not_lt.2 low), [], rfl, ?_⟩
    rintro i pos (less | ⟨-, f, ⟨⟩⟩)
    exact absurd less (Nat.not_lt_zero i)
  have positive : ∀ n, limit = some n → 0 < n := by
    intro n same
    by_contra low
    exact idle ⟨n, Int.not_lt.1 low, same⟩
  have ended := runLoop_ended loaded unstopped positive (Nat.zero_add (passes bound limit)) (Reached.start s)
    (fun i _ before => absurd before (Nat.not_lt_zero i)) (missed_zero s)
  rw [Int.natCast_zero, loop] at ended
  refine ⟨fun n low same => absurd ⟨n, low, same⟩ idle, fun _ => ⟨?_, ?_, ?_⟩, ?_⟩
  · intro k pos enough complete due first
    obtain ⟨last, s', reached⟩ := Reached.exists_of_complete loaded complete
    obtain ⟨rfl, machine, history⟩ := ended.of_due loaded reached pos (le_passes positive enough first) due first
    obtain ⟨entry, head⟩ := reached.exists_newest pos
    obtain ⟨rfl, -⟩ := reached.newest entry head
    rw [reached.step_eq loaded]
    exact ⟨⟨entry, head, rfl⟩, machine, history.trans reached.history⟩
  · intro k f m' enough complete undue fails
    obtain ⟨last, s', reached⟩ := Reached.exists_of_complete loaded complete
    rw [reached.step_eq loaded] at fails
    have below : k + 1 ≤ passes bound limit := le_passes positive enough fun i pos before =>
      undue i pos (Nat.le_of_lt_succ before)
    obtain ⟨rfl, machine, history⟩ := ended.of_fails loaded reached below undue
      (Machine.stepOnce_of_step_one_error fails).2
    exact ⟨rfl, machine, history.trans reached.history⟩
  · rintro rfl complete undue
    obtain ⟨last, s', reached⟩ := Reached.exists_of_complete loaded complete
    obtain ⟨-, machine, history⟩ := ended.of_total loaded reached rfl undue
    rw [reached.step_eq loaded]
    exact ⟨machine, history.trans reached.history⟩
  · obtain ⟨k, complete, recorded, undue⟩ := ended.recorded
    refine ⟨_, recorded, ?_⟩
    rw [complete]
    intro i pos begun bp member enabled kind here
    have upTo : i ≤ k := begun.elim le_of_lt fun same => same.1.le
    exact undue i pos begun
      (.of_breakpoint loaded (Machine.entries_complete_of_le loaded complete upTo) pos member enabled kind here)

/-- A run without limit stops at a breakpoint, right before the instruction that would fail. -/
theorem run_to_first_hit_adrift :
    let m : Machine Unit := (Machine.loadImage adrift (Machine.powerOn ())).2
    let bp : Breakpoint := { kind := .counter, value := some 0x202 }
    let s : Session Unit := ⟨m, { Debugger.new m with breakpoints := [bp] }⟩
    let r := run (fun _ => 0) 10 none s
    s.machine.state.isLoaded = true ∧ r.2.debugger.running = false ∧ r.2.debugger.history.length = 1 ∧
      r.2.machine = (Machine.step 1 m).2 ∧ r.2.machine.state.pc = 0x202 := by
  obtain ⟨m, start⟩ : ∃ m, m = (Machine.loadImage adrift (Machine.powerOn ())).2 := ⟨_, rfl⟩
  have fresh : m.Represents (Reference.fresh adrift) := by
    rw [start]
    exact (Machine.loadImage_powerOn () (by decide)).1
  rw [← start]
  intro _ bp s r
  have short : adrift.length ≤ 3584 := by decide
  have bounded := Reference.fresh_bounded short
  obtain ⟨loaded, t, m₁, once, -, fresh₁, -⟩ := Machine.stepOnce_fresh fresh bounded short rfl rfl (k := 0) rfl
    (by decide) rfl (Opcode.fits_of_ofWord? (show Opcode.ofWord? 0x6A05 = some .loadByte by decide)) rfl
  have pc : m₁.state.pc = 0x202 := fresh₁.state.pc
  have entries : m.entries 1 = [⟨t, m.state⟩] := Machine.entries_completed loaded once 0
  have stops : s.Due none 1 := by
    refine .inr ⟨⟨t, m.state⟩, ?_, bp, List.mem_singleton_self bp, .counter rfl rfl ?_⟩
    · show (m.entries 1).head? = _
      rw [entries]
      rfl
    · show some 0x202 = some t.state.pc
      rw [Machine.state_of_completed once, pc]
  have step : (Machine.step 1 m).2 = m₁ := by rw [Machine.step_one_of_stepOnce loaded once]
  obtain ⟨ended, -, hits, -⟩ := run_to_first_hit s loaded (fun _ => 0) (fun _ => rfl) 10 none
  obtain ⟨-, machine, history⟩ := (hits nofun).1 1 Nat.one_pos (fun _ => by decide) (congrArg List.length entries) stops
    fun i pos before => absurd pos (Nat.not_lt.2 (Nat.le_of_lt_succ before))
  refine ⟨loaded, ended, ?_, machine, ?_⟩
  · rw [history, entries]
    rfl
  · rw [machine]
    show (Machine.step 1 m).2.state.pc = _
    rw [step, pc]

end Session

end Chip8
