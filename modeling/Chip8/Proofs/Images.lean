import Chip8.Proofs.Loading

/-! Images of scattered bytes. An image reaches from the base to the highest address, and at each address it has the
last value given for it, or zero (`ofPairs_eq_ok`). So pairs that give a program byte by byte, in whatever order,
have the program as their image (`ofPairs_of_gives`), and of any pairs with one for each address the order does not
count (`ofPairs_perm`). -/

namespace Chip8.Image

/-- The byte that pairs put at an address: that of the last one for it, or zero. -/
def byteFor (pairs : List (Int × Int)) (address : Int) : UInt8 :=
  ((pairs.reverse.find? fun p => p.1 == address).map fun p => lowByte p.2).getD 0

theorem fill_snoc (base : Int) (pairs : List (Int × Int)) (p : Int × Int) (image : Array UInt8) :
    fill base (pairs ++ [p]) image =
      (fill base pairs image).setIfInBounds (p.1 - base).toNat (lowByte p.2) := by
  rw [fill, List.foldl_append]
  rfl

theorem size_fill (base : Int) (pairs : List (Int × Int)) (image : Array UInt8) :
    (fill base pairs image).size = image.size := by
  induction pairs using List.reverseRecOn with
  | nil => rfl
  | append_singleton pairs p ih => rw [fill_snoc, Array.size_setIfInBounds, ih]

theorem byteFor_snoc (pairs : List (Int × Int)) (p : Int × Int) (address : Int) :
    byteFor (pairs ++ [p]) address =
      if p.1 = address then lowByte p.2 else byteFor pairs address := by
  unfold byteFor
  rw [List.reverse_append, List.reverse_singleton, List.singleton_append]
  by_cases here : p.1 = address
  · rw [List.find?_cons_of_pos (by simpa using here), if_pos here]
    rfl
  · rw [List.find?_cons_of_neg (by simpa using here), if_neg here]

theorem getElem?_fill {base : Int} {pairs : List (Int × Int)} (above : ∀ p ∈ pairs, base ≤ p.1) {n k : Nat}
    (inside : k < n) : (fill base pairs (Array.replicate n 0))[k]? = some (byteFor pairs (base + k)) := by
  induction pairs using List.reverseRecOn with
  | nil => simp [fill, byteFor, inside]
  | append_singleton pairs p ih =>
    rw [List.forall_mem_append, List.forall_mem_singleton] at above
    rw [fill_snoc, byteFor_snoc, Array.getElem?_setIfInBounds, size_fill, Array.size_replicate]
    have place : (p.1 - base).toNat = k ↔ p.1 = base + k := by omega
    by_cases here : p.1 = base + k
    · rw [if_pos (place.2 here), if_pos (by omega), if_pos here]
    · rw [if_neg (here ∘ place.1), if_neg here]
      exact ih above.1

/-- What an image is: it ends at the highest address, and has the byte for each address. -/
theorem ofPairs_eq_ok {pairs : List (Int × Int)} {base : Int} {image : List UInt8}
    (h : ofPairs pairs base = .ok image) :
    (pairs = [] → image = []) ∧
    (pairs ≠ [] → (∃ p ∈ pairs, p.1 = base + image.length - 1) ∧ ∀ p ∈ pairs, p.1 < base + image.length) ∧
    ∀ k < image.length, image[k]? = some (byteFor pairs (base + k)) := by
  unfold ofPairs at h
  cases ends : bounds pairs with
  | none =>
    rw [ends] at h
    cases h
    obtain rfl := (bounds_eq_none_iff pairs).1 ends
    exact ⟨fun _ => rfl, fun ne => absurd rfl ne, nofun⟩
  | some ends' =>
    obtain ⟨low, high⟩ := ends'
    obtain ⟨within, ⟨lowest, mem, lowestAt⟩, ⟨highest, mem', highestAt⟩⟩ := bounds_spec ends
    have occupied := (within lowest mem).2
    rw [ends] at h
    dsimp only at h
    split at h
    · cases h
    · split at h
      · cases h
      · rename_i above _
        cases h
        have length : (fill base pairs (Array.replicate (high - base + 1).toNat 0)).toList.length =
            (high - base + 1).toNat := by
          rw [Array.length_toList, size_fill, Array.size_replicate]
        rw [length]
        refine ⟨fun empty => ?_, fun _ => ⟨⟨highest, mem', ?_⟩, fun p hp => ?_⟩, fun k inside => ?_⟩
        · rw [empty] at mem
          cases mem
        · omega
        · have below := (within p hp).2
          omega
        · rw [Array.getElem?_toList]
          refine getElem?_fill (fun p hp => ?_) inside
          have lower := (within p hp).1
          omega

/-- Pairs that give a program from the base on: its bytes at their addresses, and nothing else. -/
def Gives (pairs : List (Int × Int)) (program : List UInt8) : Prop :=
  ∀ q, q ∈ pairs ↔ ∃ (k : Nat) (b : UInt8), program[k]? = some b ∧ q = ((0x200 + k : Int), (b.toNat : Int))

variable {pairs : List (Int × Int)} {program : List UInt8}

theorem byteFor_of_gives (h : Gives pairs program) {k : Nat} {b : UInt8} (byte : program[k]? = some b) :
    byteFor pairs (0x200 + k) = b := by
  have member : ((0x200 + k : Int), (b.toNat : Int)) ∈ pairs := (h _).2 ⟨k, b, byte, rfl⟩
  unfold byteFor
  cases found : pairs.reverse.find? fun p => p.1 == (0x200 + k : Int) with
  | none =>
    have missed := List.find?_eq_none.1 found _ (List.mem_reverse.2 member)
    simp at missed
  | some p =>
    obtain ⟨k', b', byte', rfl⟩ := (h p).1 (List.mem_reverse.1 (List.mem_of_find?_eq_some found))
    have address : ((0x200 + k' : Int) == 0x200 + k) = true := by simpa using List.find?_some found
    have same : k' = k := by
      rw [beq_iff_eq] at address
      omega
    rw [same, byte] at byte'
    cases byte'
    have small := b.toNat_lt
    show lowByte b.toNat = b
    rw [lowByte, Int.emod_eq_of_lt (by omega) (by omega), Int.toNat_natCast, UInt8.ofNat_toNat]

theorem address_of_gives (h : Gives pairs program) {p : Int × Int} (member : p ∈ pairs) :
    ∃ k < program.length, p.1 = 0x200 + k := by
  obtain ⟨k, b, byte, rfl⟩ := (h p).1 member
  obtain ⟨inside, -⟩ := List.getElem?_eq_some_iff.1 byte
  exact ⟨k, inside, rfl⟩

theorem ofPairs_of_gives (h : Gives pairs program) (short : program.length ≤ 3584) :
    ofPairs pairs = .ok program := by
  have loadable : ∀ p ∈ pairs, Loadable p.1 := by
    intro p member
    obtain ⟨k, inside, address⟩ := address_of_gives h member
    constructor <;> omega
  obtain ⟨image, laid⟩ := (exists_ofPairs_iff pairs).2 loadable
  obtain ⟨empty, reach, bytes⟩ := ofPairs_eq_ok laid
  -- The image ends where the program does, since the highest address is that of the last byte.
  have length : image.length = program.length := by
    cases program with
    | nil =>
      have none : pairs = [] := by
        apply List.eq_nil_iff_forall_not_mem.2
        intro p member
        obtain ⟨k, inside, -⟩ := address_of_gives h member
        cases inside
      rw [empty none]
    | cons b rest =>
      have last : ((0x200 + rest.length : Int), (((b :: rest)[rest.length]).toNat : Int)) ∈ pairs :=
        (h _).2 ⟨rest.length, _, List.getElem?_eq_getElem (by simp), rfl⟩
      obtain ⟨⟨p, member, highest⟩, below⟩ := reach (List.ne_nil_of_mem last)
      obtain ⟨k, inside, address⟩ := address_of_gives h member
      have reached := below _ last
      rw [List.length_cons] at inside ⊢
      dsimp only at reached
      omega
  have same : image = program := by
    apply List.ext_getElem?
    intro k
    by_cases inside : k < image.length
    · have byte := List.getElem?_eq_getElem (length ▸ inside)
      rw [bytes k inside, byteFor_of_gives h byte, byte]
    · rw [List.getElem?_eq_none (by omega), List.getElem?_eq_none (by omega)]
  rw [laid, same]

/-! ### The image of any pairs -/

def addresses (pairs : List (Int × Int)) : Set Int := {a | ∃ p ∈ pairs, p.1 = a}

/-- Pairs as they are laid out from 0x200 on. The image ends at the highest address, and each of its bytes is the
low eight bits of the last value given for the address, or zero if none is given. -/
structure LaidOut (pairs : List (Int × Int)) (image : List UInt8) : Prop where
  empty : pairs = [] → image = []
  length : ∀ high, IsGreatest (addresses pairs) high → (image.length : Int) = high - 0x200 + 1
  last : ∀ k < image.length, ∀ front p back, pairs = front ++ p :: back → p.1 = 0x200 + (k : Int) →
    (∀ q ∈ back, q.1 ≠ 0x200 + (k : Int)) → image[k]? = some (lowByte p.2)
  gap : ∀ k < image.length, (∀ p ∈ pairs, p.1 ≠ 0x200 + (k : Int)) → image[k]? = some 0

/-- Why pairs are refused: the lowest address lies below the first one for programs, or else the highest above the
last one of the memory. -/
inductive Refused (pairs : List (Int × Int)) : ProgramFault → Prop
  | below {low : Int} (least : IsLeast (addresses pairs) low) (less : low < 0x200) : Refused pairs (.below low 0x200)
  | outside {high : Int} (above : ∀ p ∈ pairs, 0x200 ≤ p.1) (greatest : IsGreatest (addresses pairs) high)
    (more : 0xFFF < high) : Refused pairs (.outside high)

theorem extremes_of_bounds {pairs : List (Int × Int)} {low high : Int} (h : bounds pairs = some (low, high)) :
    IsLeast (addresses pairs) low ∧ IsGreatest (addresses pairs) high := by
  obtain ⟨within, lowest, highest⟩ := bounds_spec h
  refine ⟨⟨lowest, ?_⟩, highest, ?_⟩
  · rintro _ ⟨p, member, rfl⟩
    exact (within p member).1
  · rintro _ ⟨p, member, rfl⟩
    exact (within p member).2

theorem byteFor_of_last {pairs front back : List (Int × Int)} {p : Int × Int} (split : pairs = front ++ p :: back)
    (later : ∀ q ∈ back, q.1 ≠ p.1) : byteFor pairs p.1 = lowByte p.2 := by
  subst split
  induction back using List.reverseRecOn with
  | nil => rw [byteFor_snoc, if_pos rfl]
  | append_singleton back q ih =>
    rw [List.forall_mem_append, List.forall_mem_singleton] at later
    rw [← List.cons_append, ← List.append_assoc, byteFor_snoc, if_neg later.2]
    exact ih later.1

theorem byteFor_of_gap {pairs : List (Int × Int)} {address : Int} (none : ∀ p ∈ pairs, p.1 ≠ address) :
    byteFor pairs address = 0 := by
  induction pairs using List.reverseRecOn with
  | nil => rfl
  | append_singleton pairs p ih =>
    rw [List.forall_mem_append, List.forall_mem_singleton] at none
    rw [byteFor_snoc, if_neg none.2]
    exact ih none.1

theorem laidOut_of_ofPairs {pairs : List (Int × Int)} {image : List UInt8} (h : ofPairs pairs = .ok image) :
    LaidOut pairs image := by
  obtain ⟨empty, reach, bytes⟩ := ofPairs_eq_ok h
  refine ⟨empty, ?_, ?_, ?_⟩
  · rintro high ⟨⟨p, member, rfl⟩, greatest⟩
    obtain ⟨⟨q, last, ends⟩, below⟩ := reach (List.ne_nil_of_mem member)
    have most := greatest ⟨q, last, rfl⟩
    have less := below p member
    omega
  · intro k inside front p back split here later
    rw [← here] at later
    rw [bytes k inside, ← here, byteFor_of_last split later]
  · intro k inside none
    rw [bytes k inside, byteFor_of_gap none]

theorem refused_of_ofPairs {pairs : List (Int × Int)} {why : ProgramFault} (h : ofPairs pairs = .error why) :
    Refused pairs why := by
  unfold ofPairs at h
  cases ends : bounds pairs with
  | none =>
    rw [ends] at h
    cases h
  | some ends' =>
    obtain ⟨low, high⟩ := ends'
    obtain ⟨least, greatest⟩ := extremes_of_bounds ends
    rw [ends] at h
    dsimp only at h
    split at h
    · rename_i less
      cases h
      exact .below least less
    · rename_i above
      split at h
      · rename_i more
        cases h
        exact .outside (fun p member => (not_lt.1 above).trans (least.2 ⟨p, member, rfl⟩)) greatest (by omega)
      · cases h

/-! ### The order of the pairs -/

theorem bounds_cons_cons (p q : Int × Int) (rest : List (Int × Int)) :
    bounds (p :: q :: rest) = bounds (q :: p :: rest) := by
  simp only [bounds]
  cases bounds rest with
  | none => simp only [min_comm, max_comm]
  | some ends => simp only [min_left_comm, max_left_comm]

theorem bounds_perm {pairs pairs' : List (Int × Int)} (h : pairs.Perm pairs') : bounds pairs = bounds pairs' := by
  induction h with
  | nil => rfl
  | cons p _ ih => rw [bounds, bounds, ih]
  | swap p q rest => exact bounds_cons_cons q p rest
  | trans _ _ first second => exact first.trans second

theorem byteFor_of_mem {pairs : List (Int × Int)} (distinct : (pairs.map Prod.fst).Nodup) {p : Int × Int}
    (member : p ∈ pairs) : byteFor pairs p.1 = lowByte p.2 := by
  obtain ⟨front, back, split⟩ := List.append_of_mem member
  refine byteFor_of_last split fun q later same => ?_
  rw [split, List.map_append, List.map_cons] at distinct
  have apart := (List.nodup_cons.1 (List.nodup_append.1 distinct).2.1).1
  exact apart (List.mem_map.2 ⟨q, later, same⟩)

theorem byteFor_perm {pairs pairs' : List (Int × Int)} (distinct : (pairs.map Prod.fst).Nodup)
    (h : pairs'.Perm pairs) (address : Int) : byteFor pairs' address = byteFor pairs address := by
  by_cases given : ∃ p ∈ pairs, p.1 = address
  · obtain ⟨p, member, rfl⟩ := given
    have distinct' : (pairs'.map Prod.fst).Nodup := (h.map Prod.fst).nodup_iff.2 distinct
    rw [byteFor_of_mem distinct member, byteFor_of_mem distinct' (h.mem_iff.2 member)]
  · simp only [not_exists, not_and] at given
    rw [byteFor_of_gap given, byteFor_of_gap fun p member => given p (h.mem_iff.1 member)]

theorem ofPairs_perm {pairs pairs' : List (Int × Int)} (distinct : (pairs.map Prod.fst).Nodup)
    (h : pairs'.Perm pairs) : ofPairs pairs' = ofPairs pairs := by
  unfold ofPairs
  rw [bounds_perm h]
  cases ends : bounds pairs with
  | none => rfl
  | some ends' =>
    obtain ⟨low, high⟩ := ends'
    dsimp only
    split
    · rfl
    · rename_i above
      have lower : ∀ p ∈ pairs, 0x200 ≤ p.1 := fun p member =>
        (not_lt.1 above).trans ((extremes_of_bounds ends).1.2 ⟨p, member, rfl⟩)
      have same : fill 0x200 pairs' (Array.replicate (high - 0x200 + 1).toNat 0) =
          fill 0x200 pairs (Array.replicate (high - 0x200 + 1).toNat 0) := by
        apply Array.ext_getElem?
        intro k
        by_cases inside : k < (high - 0x200 + 1).toNat
        · rw [getElem?_fill (fun p member => lower p (h.mem_iff.1 member)) inside, getElem?_fill lower inside,
            byteFor_perm distinct h]
        · rw [Array.getElem?_eq_none (by rw [size_fill, Array.size_replicate]; omega),
            Array.getElem?_eq_none (by rw [size_fill, Array.size_replicate]; omega)]
      rw [same]

/-- **Images.** Pairs are laid out from 0x200 on if all their addresses lie from there to 0xFFF, and the image is then
one that a machine accepts unless there are no pairs; otherwise they are refused. The order of pairs counts only
where two have one address. -/
theorem ofPairs_exact (pairs : List (Int × Int)) :
    ((∀ p ∈ pairs, 0x200 ≤ p.1 ∧ p.1 ≤ 0xFFF) → ∃ image, ofPairs pairs = .ok image ∧ LaidOut pairs image ∧
      image.length ≤ maxProgramSize ∧ (pairs ≠ [] → Machine.imageFault? image = none)) ∧
    ((∃ p ∈ pairs, p.1 < 0x200 ∨ 0xFFF < p.1) → ∃ why, ofPairs pairs = .error why ∧ Refused pairs why) ∧
    ((pairs.map Prod.fst).Nodup → ∀ pairs' : List (Int × Int), pairs'.Perm pairs →
      ofPairs pairs' = ofPairs pairs) := by
  refine ⟨fun inside => ?_, fun outside => ?_, fun distinct pairs' h => ofPairs_perm distinct h⟩
  · obtain ⟨image, laid⟩ := (exists_ofPairs_iff pairs).2 inside
    obtain ⟨empty, reach, -⟩ := ofPairs_eq_ok laid
    have short : image.length ≤ 3584 := by
      by_cases none : pairs = []
      · rw [empty none]
        exact Nat.zero_le _
      · obtain ⟨⟨p, member, ends⟩, -⟩ := reach none
        have most := (inside p member).2
        omega
    refine ⟨image, laid, laidOut_of_ofPairs laid, short, fun ne => ?_⟩
    obtain ⟨⟨p, member, ends⟩, -⟩ := reach ne
    have least := (inside p member).1
    exact (Machine.imageFault?_eq_none_iff_fits image).2 ⟨by omega, short⟩
  · cases laid : ofPairs pairs with
    | error why => exact ⟨why, rfl, refused_of_ofPairs laid⟩
    | ok image =>
      obtain ⟨p, member, far⟩ := outside
      obtain ⟨least, most⟩ := (exists_ofPairs_iff pairs).1 ⟨image, laid⟩ p member
      omega

/-- A value of more than eight bits, one below zero and one that is replaced; an address too high; and a swap. -/
theorem ofPairs_exact_scattered :
    (∃ image, ofPairs [(0x203, 0x1F0), (0x201, -1), (0x203, 0x107)] = .ok image ∧
      LaidOut [(0x203, 0x1F0), (0x201, -1), (0x203, 0x107)] image ∧ image.length ≤ maxProgramSize ∧
      Machine.imageFault? image = none) ∧
    (∃ why, ofPairs [(0x200, 1), (0x1000, 2)] = .error why ∧ Refused [(0x200, 1), (0x1000, 2)] why) ∧
    ofPairs [(0x202, 2), (0x200, 1)] = ofPairs [(0x200, 1), (0x202, 2)] := by
  refine ⟨?_, (ofPairs_exact _).2.1 (by decide), (ofPairs_exact _).2.2 (by decide) _ (by decide)⟩
  obtain ⟨image, laid, bytes, short, accepted⟩ :=
    (ofPairs_exact [(0x203, 0x1F0), (0x201, -1), (0x203, 0x107)]).1 (by decide)
  exact ⟨image, laid, bytes, short, accepted (List.cons_ne_nil _ _)⟩

end Chip8.Image
