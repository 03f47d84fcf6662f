import Chip8.Proofs.Sessions

/-! Breakpoints as a set. Of the edits of a debugger, additions and removals keep its breakpoints apart, and an update
does unless it turns one breakpoint into another that is there (`nodup_apply_iff`). So the breakpoints stay apart as
long as no update does that, and a breakpoint that is removed is gone unless it was there twice
(`edited_nodup_iff`). -/

namespace Chip8

/-- An update of a breakpoint that is there into another one that is there. -/
inductive BreakpointEdit.Collides (d : Debugger) : BreakpointEdit → Prop
  | update {old new : Breakpoint} (there : old ∈ d.breakpoints) (taken : new ∈ d.breakpoints) (other : new ≠ old) :
    Collides d (.update old new)

namespace Debugger

variable {old new bp : Breakpoint} {bps : List Breakpoint} {d : Debugger}

theorem replaceFirst_of_not_mem (absent : old ∉ bps) : replaceFirst old new bps = bps := by
  induction bps with
  | nil => rfl
  | cons b bps ih =>
    rw [List.mem_cons, not_or] at absent
    rw [replaceFirst, if_neg (Ne.symm absent.1), ih absent.2]

theorem exists_replaceFirst (there : old ∈ bps) :
    ∃ front back, bps = front ++ old :: back ∧ ∀ new, replaceFirst old new bps = front ++ new :: back := by
  induction bps with
  | nil => cases there
  | cons b bps ih =>
    by_cases here : b = old
    · refine ⟨[], bps, by rw [here, List.nil_append], fun new => ?_⟩
      rw [replaceFirst, if_pos here, List.nil_append]
    · obtain ⟨front, back, split, replaced⟩ := ih ((List.mem_cons.1 there).resolve_left (Ne.symm here))
      refine ⟨b :: front, back, by rw [split, List.cons_append], fun new => ?_⟩
      rw [replaceFirst, if_neg here, replaced, List.cons_append]

theorem nodup_replaceFirst_iff (distinct : bps.Nodup) :
    (replaceFirst old new bps).Nodup ↔ ¬ (old ∈ bps ∧ new ∈ bps ∧ new ≠ old) := by
  by_cases there : old ∈ bps
  · obtain ⟨front, back, split, replaced⟩ := exists_replaceFirst there
    rw [replaced]
    subst split
    rw [List.nodup_middle, List.nodup_cons] at distinct ⊢
    have elsewhere : new ∈ front ++ old :: back ↔ new = old ∨ new ∈ front ++ back := by
      simp only [List.mem_append, List.mem_cons]
      tauto
    constructor
    · rintro ⟨free, -⟩ ⟨-, taken, other⟩
      exact free ((elsewhere.1 taken).resolve_left other)
    · intro apart
      refine ⟨fun taken => ?_, distinct.2⟩
      by_cases same : new = old
      · exact distinct.1 (same ▸ taken)
      · exact apart ⟨there, elsewhere.2 (.inr taken), same⟩
  · rw [replaceFirst_of_not_mem there]
    exact ⟨fun _ collides => there collides.1, fun _ => distinct⟩

theorem nodup_add (distinct : d.breakpoints.Nodup) : (d.add bp).breakpoints.Nodup := by
  unfold add
  split
  · exact distinct
  · rename_i absent
    show (d.breakpoints ++ [bp]).Nodup
    rw [List.nodup_append_comm, List.singleton_append]
    exact List.nodup_cons.2 ⟨absent, distinct⟩

theorem nodup_apply_iff (distinct : d.breakpoints.Nodup) (e : BreakpointEdit) :
    (e.apply d).breakpoints.Nodup ↔ ¬ e.Collides d := by
  cases e with
  | add bp => exact ⟨fun _ => nofun, fun _ => nodup_add distinct⟩
  | update old new =>
    refine (nodup_replaceFirst_iff distinct).trans (not_congr ⟨fun h => .update h.1 h.2.1 h.2.2, fun collides => ?_⟩)
    cases collides with
    | update there taken other => exact ⟨there, taken, other⟩
  | remove bp => exact ⟨fun _ => nofun, fun _ => distinct.erase bp⟩

def edited (edits : List BreakpointEdit) (d : Debugger) : Debugger := edits.foldl (fun d e => e.apply d) d

theorem edited_snoc (edits : List BreakpointEdit) (e : BreakpointEdit) (d : Debugger) :
    edited (edits ++ [e]) d = e.apply (edited edits d) := by
  rw [edited, List.foldl_append]
  rfl

/-- Behind a removal a breakpoint is left if it was there twice. -/
theorem mem_remove_iff : bp ∈ (d.remove bp).breakpoints ↔ 2 ≤ d.breakpoints.count bp := by
  show bp ∈ d.breakpoints.erase bp ↔ _
  rw [← List.count_pos_iff, List.count_erase_self]
  omega

theorem nodup_edited (distinct : d.breakpoints.Nodup) {edits : List BreakpointEdit}
    (apart : ∀ past e, past ++ [e] <+: edits → ¬ e.Collides (edited past d)) : (edited edits d).breakpoints.Nodup := by
  induction edits using List.reverseRecOn with
  | nil => exact distinct
  | append_singleton edits e ih =>
    have before := ih fun past e' first => apart past e' (first.trans (List.prefix_append _ _))
    rw [edited_snoc]
    exact (nodup_apply_iff before e).2 (apart edits e (List.prefix_refl _))

/-- **Breakpoints as a set.** From a new debugger on, no two breakpoints are ever equal as long as no update turns one
into another that is there, and only so long. What is removed is left if it was there twice; so with breakpoints
apart it is gone. -/
theorem edited_nodup_iff {π : Type} (m : Machine π) (edits : List BreakpointEdit) :
    ((∀ past, past <+: edits → (edited past (.new m)).breakpoints.Nodup) ↔
      ∀ past e, past ++ [e] <+: edits → ¬ e.Collides (edited past (.new m))) ∧
    ∀ bp, (bp ∈ (edited (edits ++ [.remove bp]) (.new m)).breakpoints ↔
        2 ≤ (edited edits (.new m)).breakpoints.count bp) ∧
      ((edited edits (.new m)).breakpoints.Nodup → bp ∉ (edited (edits ++ [.remove bp]) (.new m)).breakpoints) := by
  refine ⟨⟨fun distinct past e first => ?_, fun apart past first => ?_⟩, fun bp => ?_⟩
  · have before := distinct past ((List.prefix_append _ _).trans first)
    have behind := distinct (past ++ [e]) first
    rw [edited_snoc] at behind
    exact (nodup_apply_iff before e).1 behind
  · have start : (Debugger.new m).breakpoints.Nodup := List.nodup_nil
    exact nodup_edited start fun past' e first' => apart past' e (first'.trans first)
  · rw [edited_snoc]
    have left : bp ∈ ((edited edits (.new m)).remove bp).breakpoints ↔
      2 ≤ (edited edits (.new m)).breakpoints.count bp := mem_remove_iff
    refine ⟨left, fun distinct member => ?_⟩
    have once := List.nodup_iff_count_le_one.1 distinct bp
    have twice := left.1 member
    omega

/-- An update of the first breakpoint into the second leaves that one twice, and once when it is removed. -/
theorem update_repeats :
    let first : Breakpoint := { kind := .counter, value := some 0x200 }
    let second : Breakpoint := { kind := .counter, value := some 0x202 }
    let edits : List BreakpointEdit := [.add first, .add second, .update first second]
    let d : Debugger := .new (Machine.powerOn () : Machine Unit)
    ¬ (edited edits d).breakpoints.Nodup ∧ second ∈ (edited (edits ++ [.remove second]) d).breakpoints := by
  intro first second edits d
  have twice : (edited edits d).breakpoints = [second, second] := rfl
  have once : (edited (edits ++ [.remove second]) d).breakpoints = [second] := rfl
  rw [twice, once]
  exact ⟨by decide, List.mem_singleton_self _⟩

end Debugger

end Chip8
