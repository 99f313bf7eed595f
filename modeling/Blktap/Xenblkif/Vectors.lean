import Mathlib.Data.List.Range
import Blktap.Xenblkif.Requests

/-!
# What a queued request transfers
-/

namespace Blktap.Xenblkif

def sectorsFrom (base secs : Nat) : List Nat := (List.range secs).map fun s => base + s * 512

def locate (vma pages addr : Nat) : Option (Nat × Nat) :=
  if vma ≤ addr ∧ addr < vma + pages * xcPageSize then
    some ((addr - vma) / xcPageSize, (addr - vma) % xcPageSize)
  else none

def TdIovec.places (vma pages : Nat) (v : TdIovec) : List (Option (Nat × Nat)) :=
  (sectorsFrom v.base v.secs).map (locate vma pages)

def TapReq.transfers (tapreq : TapReq) (vma pages : Nat) : List (Option (Nat × Nat)) :=
  (List.range tapreq.vreq.iovcnt).flatMap fun i => (tapreq.iov i).places vma pages

def segmentSectors (i : Nat) (seg : Segment) : List (Nat × Nat) :=
  (List.range (seg.lastSect - seg.firstSect + 1)).map fun s => (i, (seg.firstSect + s) * 512)

def BlkifRequest.sectors (msg : BlkifRequest) (skip : Nat) : List (Nat × Nat) :=
  (List.range' skip (msg.nrSegments - skip)).flatMap fun i => segmentSectors i (msg.seg i)

def Faithful (msg : BlkifRequest) (vma : Nat) (tapreq : TapReq) : Prop :=
  tapreq.vreq.sec = msg.sectorNumber ∧
    tapreq.transfers vma msg.nrSegments = (msg.sectors 0).map some

def Segment.adjacent (seg next : Segment) : Prop :=
  seg.lastSect + 1 = xcPageSize / 512 + next.firstSect

instance (seg next : Segment) : Decidable (seg.adjacent next) := inferInstanceAs (Decidable (_ = _))

def breaks (seg : Nat → Segment) : Nat → Nat
  | 0 => 0
  | 1 => 0
  | n + 2 => breaks seg (n + 1) + if (seg n).adjacent (seg (n + 1)) then 0 else 1

def leading (seg : Nat → Segment) : Nat → Nat
  | 0 => 0
  | n + 1 => if breaks seg (n + 1) = 0 then n + 1 else leading seg n

def BlkifRequest.sectorFits (msg : BlkifRequest) : Prop :=
  msg.sectorNumber < 2 ^ 54 ∨ 2 ^ 64 - 2 ^ 54 ≤ msg.sectorNumber ∧ msg.sectorNumber < 2 ^ 64

/-- The sector passes through an `off_t`, the segments are in their pages, and behind the first vector the slot has,
from before, what the rest of the segments needs. -/
structure Translates (msg : BlkifRequest) (vma : Nat) (tapreq : TapReq) : Prop where
  sector : msg.sectorFits
  inPage : ∀ i < msg.nrSegments, (msg.seg i).lastSect < xcPageSize / 512
  rest : ((List.range (breaks msg.seg msg.nrSegments)).flatMap fun i =>
    (tapreq.iov (i + 1)).places vma msg.nrSegments) =
      (msg.sectors (leading msg.seg msg.nrSegments)).map some

section Sectors
variable {vma pages base a b n : Nat} {seg : Nat → Segment} {iov : List Iovec}

theorem sectorsFrom_add : sectorsFrom base (a + b) = sectorsFrom base a ++ sectorsFrom (base + a * 512) b := by
  unfold sectorsFrom
  rw [List.range_add, List.map_append, List.map_map]
  congr 1
  apply List.map_congr_left
  intro s _
  simp only [Function.comp_apply, Nat.add_mul, Nat.add_assoc]

def Iovec.sectors (v : Iovec) : List Nat := sectorsFrom v.base (v.len / 512)

def segmentAddrs (vma i : Nat) (seg : Segment) : List Nat :=
  sectorsFrom (vma + i * xcPageSize + seg.firstSect * 512) (seg.lastSect - seg.firstSect + 1)

structure Vectored (vma : Nat) (seg : Nat → Segment) (n : Nat) (iov : List Iovec) : Prop where
  length : iov.length = breaks seg (n + 1) + 1
  whole : ∀ v ∈ iov, 512 ∣ v.len
  ends : ∀ v ∈ iov.getLast?, v.base + v.len = vma + n * xcPageSize + ((seg n).lastSect + 1) * 512
  sectors : iov.flatMap Iovec.sectors = (List.range (n + 1)).flatMap fun i => segmentAddrs vma i (seg i)
  head : ∀ v ∈ iov.head?, v.sectors =
    (List.range (leading seg (n + 1))).flatMap fun i => segmentAddrs vma i (seg i)

theorem vectored_first (ordered : (seg 0).firstSect ≤ (seg 0).lastSect) :
    Vectored vma seg 0 (vectorSegment (vma + 0 * xcPageSize) (seg 0) []) := by
  have size : ((seg 0).lastSect - (seg 0).firstSect + 1) * 512 / 512 =
      (seg 0).lastSect - (seg 0).firstSect + 1 := Nat.mul_div_cancel _ (by decide)
  constructor
  · rfl
  · simp [vectorSegment, Nat.dvd_mul_left]
  · simp only [vectorSegment, List.getLast?_nil, List.nil_append, List.getLast?_singleton,
      Option.mem_some_iff, forall_eq']
    omega
  · simp [vectorSegment, Iovec.sectors, segmentAddrs, size]
  · simp [vectorSegment, Iovec.sectors, segmentAddrs, size, leading, breaks]

theorem Vectored.next (vectored : Vectored vma seg n iov)
    (ordered : (seg (n + 1)).firstSect ≤ (seg (n + 1)).lastSect) :
    Vectored vma seg (n + 1) (vectorSegment (vma + (n + 1) * xcPageSize) (seg (n + 1)) iov) := by
  rcases List.eq_nil_or_concat iov with rfl | ⟨front, v, rfl⟩
  · cases vectored.length
  have whole : 512 ∣ v.len := vectored.whole v (by simp)
  have ends : v.base + v.len = _ := vectored.ends v (by simp)
  have sectors := vectored.sectors
  have head := vectored.head
  have length := vectored.length
  have size : ((seg (n + 1)).lastSect - (seg (n + 1)).firstSect + 1) * 512 / 512 =
      (seg (n + 1)).lastSect - (seg (n + 1)).firstSect + 1 := Nat.mul_div_cancel _ (by decide)
  have meets : vma + (n + 1) * xcPageSize + (seg (n + 1)).firstSect * 512 = v.base + v.len ↔
      (seg n).adjacent (seg (n + 1)) := by
    rw [ends]
    unfold Segment.adjacent xcPageSize
    omega
  simp only [vectorSegment, List.concat_eq_append, List.getLast?_concat] at *
  by_cases adjacent : (seg n).adjacent (seg (n + 1))
  · -- the last vector grows
    rw [if_neg (not_not.mpr (meets.mpr adjacent)), List.dropLast_concat]
    have grown : (Iovec.mk v.base (v.len + ((seg (n + 1)).lastSect - (seg (n + 1)).firstSect + 1) * 512)).sectors =
        v.sectors ++ segmentAddrs vma (n + 1) (seg (n + 1)) := by
      unfold Iovec.sectors segmentAddrs
      dsimp only
      rw [Nat.add_mul_div_right _ _ (by decide), sectorsFrom_add, Nat.div_mul_cancel whole,
        meets.mpr adjacent]
    constructor
    · simpa [breaks, adjacent] using length
    · intro w member
      rcases List.mem_append.mp member with member | member
      · exact vectored.whole w (List.mem_append_left _ member)
      · rw [List.mem_singleton.mp member]
        exact Nat.dvd_add whole (Nat.dvd_mul_left _ _)
    · simp only [List.getLast?_concat, Option.mem_some_iff, forall_eq']
      have meets := meets.mpr adjacent
      omega
    · rw [List.range_succ, List.flatMap_append, List.flatMap_append, ← sectors, List.flatMap_append,
        List.append_assoc]
      simp [grown]
    · intro w first
      cases front with
      | nil =>
          have single : breaks seg (n + 2) = 0 := by simpa [breaks, adjacent] using length.symm
          have single' : breaks seg (n + 1) = 0 := by simpa using length.symm
          have before := head v (by simp)
          rw [show leading seg (n + 1) = n + 1 from if_pos single'] at before
          rw [show leading seg (n + 2) = n + 2 from if_pos single, List.range_succ, List.flatMap_append,
            ← before]
          simp only [List.nil_append, List.head?_cons, Option.mem_some_iff] at first
          rw [← first, grown]
          simp
      | cons w' front =>
          have several : breaks seg (n + 2) ≠ 0 := by
            simp only [breaks, adjacent, List.length_cons, List.length_append, List.length_nil] at length ⊢
            omega
          rw [show leading seg (n + 2) = leading seg (n + 1) from if_neg several]
          exact head w (by simpa using first)
  · -- another vector begins
    rw [if_pos (fun same => adjacent (meets.mp same))]
    constructor
    · simpa [breaks, adjacent] using length
    · intro w member
      rcases List.mem_append.mp member with member | member
      · exact vectored.whole w member
      · rw [List.mem_singleton.mp member]
        exact Nat.dvd_mul_left _ _
    · simp only [List.getLast?_concat, Option.mem_some_iff, forall_eq']
      omega
    · rw [List.flatMap_append, sectors, List.range_succ (n := n + 1), List.flatMap_append]
      simp [Iovec.sectors, segmentAddrs, size]
    · intro w first
      have several : breaks seg (n + 2) ≠ 0 := by simp [breaks, adjacent]
      rw [show leading seg (n + 2) = leading seg (n + 1) from if_neg several]
      apply head
      cases front <;> simpa using first

theorem vectored (ordered : ∀ i ≤ n, (seg i).firstSect ≤ (seg i).lastSect) :
    Vectored vma seg n ((List.range (n + 1)).foldl
      (fun iov i => vectorSegment (vma + i * xcPageSize) (seg i) iov) []) := by
  induction n with
  | zero => exact vectored_first (ordered 0 (Nat.le_refl 0))
  | succ n ih =>
      rw [List.range_succ, List.foldl_append]
      exact (ih fun i small => ordered i (Nat.le_succ_of_le small)).next (ordered (n + 1) (Nat.le_refl _))

theorem leading_le : leading seg n ≤ n := by
  induction n with
  | zero => exact Nat.le_refl 0
  | succ n ih =>
      unfold leading
      split
      · exact Nat.le_refl _
      · exact Nat.le_succ_of_le ih

end Sectors

section Places
variable {vma pages i n : Nat} {seg : Segment} {msg : BlkifRequest} {tapreq : TapReq}

theorem locate_offset {addr page off : Nat} (found : locate vma pages addr = some (page, off)) :
    off < xcPageSize := by
  unfold locate at found
  split at found
  · cases found
    exact Nat.mod_lt _ (by decide)
  · cases found

theorem locate_inside {off : Nat} (inside : i < pages) (small : off < xcPageSize) :
    locate vma pages (vma + i * xcPageSize + off) = some (i, off) := by
  unfold xcPageSize at small
  have offset : vma + i * 4096 + off - vma = off + 4096 * i := by omega
  unfold locate xcPageSize
  rw [if_pos (by omega), offset, Nat.add_mul_div_left _ _ (by decide), Nat.add_mul_mod_self_left,
    Nat.div_eq_of_lt small, Nat.mod_eq_of_lt small, Nat.zero_add]

theorem segment_places (inside : i < pages) (inPage : seg.lastSect < xcPageSize / 512)
    (ordered : seg.firstSect ≤ seg.lastSect) :
    (segmentAddrs vma i seg).map (locate vma pages) = (segmentSectors i seg).map some := by
  unfold segmentAddrs sectorsFrom segmentSectors
  rw [List.map_map, List.map_map]
  apply List.map_congr_left
  intro s member
  have bound := List.mem_range.mp member
  have inPage : seg.lastSect < 8 := inPage
  simp only [Function.comp_apply]
  rw [Nat.add_assoc, ← Nat.add_mul]
  apply locate_inside inside
  unfold xcPageSize
  omega

theorem segments_places (inPage : ∀ i < pages, (msg.seg i).lastSect < xcPageSize / 512)
    (ordered : ∀ i < pages, (msg.seg i).firstSect ≤ (msg.seg i).lastSect) (part : n ≤ pages) :
    ((List.range n).flatMap fun i => segmentAddrs vma i (msg.seg i)).map (locate vma pages) =
      ((List.range n).flatMap fun i => segmentSectors i (msg.seg i)).map some := by
  rw [List.map_flatMap, List.map_flatMap]
  apply List.flatMap_congr
  intro i member
  have inside := Nat.lt_of_lt_of_le (List.mem_range.mp member) part
  exact segment_places inside (inPage i inside) (ordered i inside)

theorem sectors_split (part : n ≤ msg.nrSegments) :
    msg.sectors 0 = ((List.range n).flatMap fun i => segmentSectors i (msg.seg i)) ++ msg.sectors n := by
  unfold BlkifRequest.sectors
  rw [← List.flatMap_append, List.range_eq_range', Nat.sub_zero]
  congr 1
  have append := List.range'_append_1 (s := 0) (m := n) (n := msg.nrSegments - n)
  rw [Nat.zero_add, Nat.add_sub_cancel' part] at append
  exact append.symm

theorem not_faithful_beyond (inside : i < msg.nrSegments) (beyond : (msg.seg i).lastSect = xcPageSize / 512)
    (ordered : (msg.seg i).firstSect ≤ (msg.seg i).lastSect) :
    tapreq.transfers vma msg.nrSegments ≠ (msg.sectors 0).map some := by
  intro same
  have member : (i, xcPageSize) ∈ msg.sectors 0 := by
    unfold BlkifRequest.sectors segmentSectors
    simp only [List.mem_flatMap, List.mem_range'_1, List.mem_map, List.mem_range, Prod.mk.injEq]
    refine ⟨i, by omega, (msg.seg i).lastSect - (msg.seg i).firstSect, by omega, rfl, ?_⟩
    rw [Nat.add_sub_cancel' ordered, beyond]
    rfl
  have found := same ▸ List.mem_map_of_mem (f := some) member
  unfold TapReq.transfers TdIovec.places at found
  simp only [List.mem_flatMap, List.mem_map] at found
  obtain ⟨_, _, addr, _, place⟩ := found
  exact Nat.lt_irrefl _ (locate_offset place)

end Places

section Faithful
variable {vma : Nat} {msg : BlkifRequest} {tapreq after : TapReq}

theorem requestMalformed_false (wellFormed : requestMalformed msg = false) :
    storedSegments msg = msg.nrSegments ∧ ∀ i < msg.nrSegments,
      (msg.seg i).firstSect ≤ (msg.seg i).lastSect ∧ (msg.seg i).lastSect ≤ xcPageSize / 512 := by
  unfold requestMalformed at wellFormed
  rw [Bool.or_eq_false_iff, decide_eq_false_iff_not, List.any_eq_false] at wellFormed
  obtain ⟨few, each⟩ := wellFormed
  refine ⟨?_, fun i inside => ?_⟩
  · have none : (List.range msg.nrSegments).find? (fun i => segmentFails (msg.seg i)) = none :=
      List.find?_eq_none.mpr each
    unfold storedSegments
    rw [if_neg few, none]
  · have fine := each i (List.mem_range.mpr inside)
    unfold segmentFails at fine
    simpa using fine

theorem offsetSector_iff : offsetSector (msg.sectorNumber * 512 % 2 ^ 64) = msg.sectorNumber ↔
    msg.sectorFits := by
  unfold offsetSector BlkifRequest.sectorFits
  simp only [Nat.reducePow]
  split <;> omega

def BlkifRequest.vectors (msg : BlkifRequest) (vma : Nat) : List Iovec :=
  (List.range msg.nrSegments).foldl
    (fun iov i => vectorSegment (vma + i * xcPageSize) (msg.seg i) iov) []

theorem parseRequest_vectors (wellFormed : requestMalformed msg = false) :
    (xenioVectorRequest { (parseRequest msg tapreq.xenio).1 with vma := some vma } vma).iov = msg.vectors vma := by
  have segs : ∀ i < msg.nrSegments, (parseRequest msg tapreq.xenio).1.segs i = msg.seg i := by
    intro i inside
    unfold parseRequest
    rw [(requestMalformed_false wellFormed).1]
    exact if_pos inside
  unfold xenioVectorRequest BlkifRequest.vectors
  dsimp only
  apply List.foldl_ext
  intro iov i member
  rw [segs i (List.mem_range.mp member)]

theorem makeVbdRequest_vectors (wellFormed : requestMalformed msg = false)
    (accepted : makeVbdRequest (some vma) { tapreq with xenio := (parseRequest msg tapreq.xenio).1 } =
      (after, false)) :
    after.vreq.sec = offsetSector (msg.sectorNumber * 512 % 2 ^ 64) ∧
      after.xenio.iov = msg.vectors vma ∧ after.vreq.iovcnt = (msg.vectors vma).length ∧
      after.iov = match msg.vectors vma with
        | [] => tapreq.iov
        | v :: _ => Function.update tapreq.iov 0 ⟨v.base, v.len / 512⟩ := by
  have iov := @parseRequest_vectors vma msg tapreq wellFormed
  unfold makeVbdRequest mmapOne at accepted
  split at accepted
  · cases accepted
  · simp only [Bool.false_eq_true, if_false, Prod.mk.injEq, and_true] at accepted
    subst accepted
    unfold vectorRequest
    dsimp only
    rw [iov]
    exact ⟨rfl, rfl, rfl, rfl⟩

theorem transfers_split (inPage : ∀ i < msg.nrSegments, (msg.seg i).lastSect < xcPageSize / 512)
    (ordered : ∀ i < msg.nrSegments, (msg.seg i).firstSect ≤ (msg.seg i).lastSect)
    (count : after.vreq.iovcnt = (msg.vectors vma).length)
    (iov : after.iov = match msg.vectors vma with
      | [] => tapreq.iov
      | v :: _ => Function.update tapreq.iov 0 ⟨v.base, v.len / 512⟩) :
    after.transfers vma msg.nrSegments =
      (((List.range (leading msg.seg msg.nrSegments)).flatMap fun i =>
        segmentSectors i (msg.seg i)).map some) ++
      (List.range (breaks msg.seg msg.nrSegments)).flatMap fun i =>
        (tapreq.iov (i + 1)).places vma msg.nrSegments := by
  unfold TapReq.transfers
  rw [count]
  cases segments : msg.nrSegments with
  | zero =>
      have empty : msg.vectors vma = [] := by
        unfold BlkifRequest.vectors
        rw [segments]
        rfl
      rw [empty]
      rfl
  | succ n =>
      have vectored : Vectored vma msg.seg n (msg.vectors vma) := by
        unfold BlkifRequest.vectors
        rw [segments]
        exact vectored fun i small => ordered i (segments ▸ Nat.lt_succ_of_le small)
      obtain ⟨v, rest, shape⟩ := List.exists_cons_of_ne_nil
        (List.ne_nil_of_length_eq_add_one vectored.length)
      rw [shape] at iov
      have first : (TdIovec.mk v.base (v.len / 512)).places vma (n + 1) =
          ((List.range (leading msg.seg (n + 1))).flatMap fun i =>
            segmentSectors i (msg.seg i)).map some := by
        rw [← segments, ← segments_places inPage ordered leading_le, segments,
          ← vectored.head v (by simp [shape])]
        rfl
      rw [vectored.length, List.range_succ_eq_map, List.flatMap_cons, List.flatMap_map, iov, ← first]
      simp

/-- A queued request transfers the guest's segments exactly when it is `Translates`. -/
theorem makeVbdRequest_faithful_iff (wellFormed : requestMalformed msg = false)
    (accepted : makeVbdRequest (some vma) { tapreq with xenio := (parseRequest msg tapreq.xenio).1 } =
      (after, false)) :
    Faithful msg vma after ↔ Translates msg vma tapreq := by
  obtain ⟨sec, -, count, iov⟩ := makeVbdRequest_vectors wellFormed accepted
  obtain ⟨_, segments⟩ := requestMalformed_false wellFormed
  have ordered : ∀ i < msg.nrSegments, (msg.seg i).firstSect ≤ (msg.seg i).lastSect :=
    fun i inside => (segments i inside).1
  have lead := @leading_le msg.nrSegments msg.seg
  unfold Faithful
  rw [sec, offsetSector_iff]
  by_cases inPage : ∀ i < msg.nrSegments, (msg.seg i).lastSect < xcPageSize / 512
  · have split : after.transfers vma msg.nrSegments =
        (((List.range (leading msg.seg msg.nrSegments)).flatMap fun i =>
          segmentSectors i (msg.seg i)).map some) ++
        (List.range (breaks msg.seg msg.nrSegments)).flatMap fun i =>
          (tapreq.iov (i + 1)).places vma msg.nrSegments :=
      transfers_split inPage ordered count iov
    rw [split, sectors_split lead, List.map_append, List.append_cancel_left_eq]
    exact ⟨fun ⟨small, rest⟩ => ⟨small, inPage, rest⟩, fun right => ⟨right.sector, right.rest⟩⟩
  · refine ⟨fun ⟨_, same⟩ => ?_, fun right => absurd right.inPage inPage⟩
    push Not at inPage
    obtain ⟨i, inside, beyond⟩ := inPage
    exact absurd same (not_faithful_beyond inside ((segments i inside).2.antisymm beyond) (ordered i inside))

end Faithful

def twoPages (first last : Nat) : BlkifRequest where
  operation := blkifOpRead
  nrSegments := 2
  id := 7
  sectorNumber := 8
  seg := fun i => if i = 0 then ⟨1, 0, 7⟩ else ⟨2, first, last⟩

def clearedSlot : TapReq where
  vreq := ⟨.read, 0, 0⟩
  xenio := ⟨0, 0, 0, 0, fun _ => ⟨0, 0, 0⟩, 0, none, []⟩
  iov := fun _ => ⟨0, 0⟩
  msg := twoPages 0 7
  seq := 0

def preparedSlot (msg : BlkifRequest) : TapReq :=
  (makeVbdRequest (some xcPageSize)
    { clearedSlot with xenio := (parseRequest msg clearedSlot.xenio).1 }).1

theorem makeVbdRequest_faithful_twoPages :
    Faithful (twoPages 0 7) xcPageSize (preparedSlot (twoPages 0 7)) ↔
      Translates (twoPages 0 7) xcPageSize clearedSlot :=
  makeVbdRequest_faithful_iff (by decide) (Prod.ext rfl (by decide))

theorem makeVbdRequest_drops_segments :
    requestMalformed (twoPages 1 7) = false ∧
      makeVbdRequest (some xcPageSize)
        { clearedSlot with xenio := (parseRequest (twoPages 1 7) clearedSlot.xenio).1 } =
          (preparedSlot (twoPages 1 7), false) ∧
      ¬ Faithful (twoPages 1 7) xcPageSize (preparedSlot (twoPages 1 7)) := by
  refine ⟨by decide, Prod.ext rfl (by decide), ?_⟩
  unfold Faithful
  decide +kernel

end Blktap.Xenblkif
