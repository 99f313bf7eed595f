import Blktap.Xenblkif.Vectors

/-! # What an accepted request may reach -/

namespace Blktap.Xenblkif

def Segment.InPage (seg : Segment) : Prop := seg.firstSect ≤ seg.lastSect ∧ seg.lastSect ≤ 7

def Mapped (vma pages base len : Nat) : Prop := vma ≤ base ∧ base + len ≤ vma + pages * xcPageSize

def TapReq.Built (vma pages : Nat) (tapreq : TapReq) : Prop :=
  ∀ v ∈ tapreq.xenio.iov, Mapped vma pages v.base v.len

def TapReq.Given (vma pages : Nat) (tapreq : TapReq) : Prop :=
  ∀ i < tapreq.vreq.iovcnt, Mapped vma pages (tapreq.iov i).base ((tapreq.iov i).secs * 512)

structure Stays (vectors : Nat → Nat → TapReq → Prop) (msg : BlkifRequest) : Prop where
  inPage : requestMalformed msg = false → ∀ i < msg.nrSegments, (msg.seg i).InPage
  inside : requestMalformed msg = false → ∀ (vma : Nat) (tapreq after : TapReq),
    makeVbdRequest (some vma) { tapreq with xenio := (parseRequest msg tapreq.xenio).1 } = (after, false) →
      vectors vma msg.nrSegments after
  sector : requestMalformed msg = false → ∀ (vma : Nat) (tapreq after : TapReq),
    makeVbdRequest (some vma) { tapreq with xenio := (parseRequest msg tapreq.xenio).1 } = (after, false) →
      after.vreq.sec = msg.sectorNumber

def BlkifRequest.Caught (msg : BlkifRequest) : Prop :=
  11 < msg.nrSegments ∨
    ∃ i < msg.nrSegments, (msg.seg i).lastSect < (msg.seg i).firstSect ∨ 8 < (msg.seg i).lastSect

def BlkifRequest.Meets (msg : BlkifRequest) : Prop :=
  (∀ i < msg.nrSegments, (msg.seg i).lastSect ≠ 8) ∧
    (msg.operation ≠ blkifOpRead ∧ msg.operation ≠ blkifOpWrite ∨ msg.sectorFits)

section Stays
variable {vma pages i n : Nat} {seg : Segment} {msg : BlkifRequest} {tapreq after : TapReq}

theorem requestMalformed_iff : requestMalformed msg = true ↔ msg.Caught := by
  simp only [requestMalformed, segmentFails, Bool.or_eq_true, decide_eq_true_eq, List.any_eq_true, List.mem_range]
  rfl

theorem vectorSegment_mapped (inPage : seg.InPage) (inside : i < pages) {iov : List Iovec}
    (before : ∀ v ∈ iov, Mapped vma pages v.base v.len) :
    ∀ v ∈ vectorSegment (vma + i * xcPageSize) seg iov, Mapped vma pages v.base v.len := by
  obtain ⟨ordered, last⟩ := inPage
  have page : (i + 1) * xcPageSize ≤ pages * xcPageSize := Nat.mul_le_mul_right _ inside
  have ends : vma + i * xcPageSize + seg.firstSect * 512 + (seg.lastSect - seg.firstSect + 1) * 512 ≤
      vma + pages * xcPageSize := by
    simp only [xcPageSize] at page ⊢
    omega
  have new : Mapped vma pages (vma + i * xcPageSize + seg.firstSect * 512)
      ((seg.lastSect - seg.firstSect + 1) * 512) := ⟨by omega, ends⟩
  intro v member
  rcases List.eq_nil_or_concat iov with rfl | ⟨front, w, rfl⟩
  · simp only [vectorSegment, List.getLast?_nil, List.nil_append, List.mem_singleton] at member
    subst member
    exact new
  · simp only [vectorSegment, List.concat_eq_append, List.getLast?_concat, List.dropLast_concat] at member
    split at member
    · rcases List.mem_append.mp member with old | last
      · exact before v (by simpa using old)
      · cases List.mem_singleton.mp last
        exact new
    · rename_i meets
      rcases List.mem_append.mp member with old | last
      · exact before v (by simp [old])
      · cases List.mem_singleton.mp last
        have start := (before w (by simp)).1
        refine ⟨start, ?_⟩
        have next := not_not.mp meets
        dsimp only
        omega

theorem vectors_mapped (inPage : ∀ i < msg.nrSegments, (msg.seg i).InPage) :
    ∀ v ∈ msg.vectors vma, Mapped vma msg.nrSegments v.base v.len := by
  have part : ∀ n ≤ msg.nrSegments, ∀ v ∈ (List.range n).foldl
      (fun iov i => vectorSegment (vma + i * xcPageSize) (msg.seg i) iov) [], Mapped vma msg.nrSegments v.base v.len := by
    intro n
    induction n with
    | zero => simp
    | succ n ih =>
        intro short
        rw [List.range_succ, List.foldl_append]
        exact vectorSegment_mapped (inPage n short) short (ih (Nat.le_of_succ_le short))
  exact part _ (Nat.le_refl _)

theorem makeVbdRequest_makes (op : tdOp msg.operation ≠ none) :
    ∃ after, makeVbdRequest (some vma) { tapreq with xenio := (parseRequest msg tapreq.xenio).1 } = (after, false) := by
  unfold makeVbdRequest
  rw [parseRequest_op]
  cases found : tdOp msg.operation with
  | none => exact absurd found op
  | some op => exact ⟨_, rfl⟩

theorem tdOp_none : tdOp msg.operation = none ↔ msg.operation ≠ blkifOpRead ∧ msg.operation ≠ blkifOpWrite := by
  unfold tdOp
  split
  · simp_all
  · split
    · simp_all
    · simp_all

theorem Stays.meets {vectors : Nat → Nat → TapReq → Prop} (stays : Stays vectors msg)
    (accepted : requestMalformed msg = false) : msg.Meets := by
  refine ⟨fun i inside last => ?_, ?_⟩
  · have inPage := (stays.inPage accepted i inside).2
    omega
  · by_cases op : tdOp msg.operation = none
    · exact .inl (tdOp_none.mp op)
    · obtain ⟨after, made⟩ := @makeVbdRequest_makes 0 msg clearedSlot op
      have sector := stays.sector accepted 0 clearedSlot after made
      rw [(makeVbdRequest_vectors accepted made).1] at sector
      exact .inr (offsetSector_iff.mp sector)

theorem BlkifRequest.Meets.stays (meets : msg.Meets) {vectors : Nat → Nat → TapReq → Prop}
    (inside : requestMalformed msg = false → (∀ i < msg.nrSegments, (msg.seg i).InPage) → ∀ (vma : Nat)
      (tapreq after : TapReq), makeVbdRequest (some vma)
        { tapreq with xenio := (parseRequest msg tapreq.xenio).1 } = (after, false) →
          vectors vma msg.nrSegments after) : Stays vectors msg := by
  have inPage (accepted : requestMalformed msg = false) : ∀ i < msg.nrSegments, (msg.seg i).InPage := by
    intro i small
    obtain ⟨ordered, last⟩ := (requestMalformed_false accepted).2 i small
    have other := meets.1 i small
    have last : (msg.seg i).lastSect ≤ 8 := last
    exact ⟨ordered, by omega⟩
  refine ⟨inPage, fun accepted => inside accepted (inPage accepted), fun accepted vma tapreq after made => ?_⟩
  have sec := (makeVbdRequest_vectors accepted made).1
  rw [sec]
  rcases meets.2 with other | fits
  · unfold makeVbdRequest at made
    rw [parseRequest_op, tdOp_none.mpr other] at made
    cases made
  · exact offsetSector_iff.mpr fits

theorem vectors_length (ordered : ∀ i < msg.nrSegments, (msg.seg i).firstSect ≤ (msg.seg i).lastSect) :
    (msg.vectors vma).length = breaks msg.seg msg.nrSegments + min 1 msg.nrSegments := by
  unfold BlkifRequest.vectors
  cases segments : msg.nrSegments with
  | zero => rfl
  | succ n =>
      have built : Vectored vma msg.seg n _ := vectored fun i small => ordered i (segments ▸ Nat.lt_succ_of_le small)
      rw [built.length]
      simp

theorem given_of_built (accepted : requestMalformed msg = false)
    (made : makeVbdRequest (some vma) { tapreq with xenio := (parseRequest msg tapreq.xenio).1 } = (after, false))
    (built : after.Built vma pages) (single : breaks msg.seg msg.nrSegments = 0) : after.Given vma pages := by
  obtain ⟨-, vectors, count, iov⟩ := makeVbdRequest_vectors accepted made
  have length := @vectors_length vma msg fun i inside => ((requestMalformed_false accepted).2 i inside).1
  intro i small
  rw [count] at small
  cases shape : msg.vectors vma with
  | nil => simp [shape] at small
  | cons v rest =>
      have first : i = 0 := by omega
      subst first
      obtain ⟨start, ends⟩ := built v (by simp [vectors, shape])
      rw [shape] at iov
      rw [iov]
      simp only [Function.update_self]
      exact ⟨start, (Nat.add_le_add_left (Nat.div_mul_le_self _ _) _).trans ends⟩

def staleSlot : TapReq := { clearedSlot with iov := fun _ => ⟨0, 1⟩ }

theorem not_given_of_breaks (accepted : requestMalformed msg = false)
    (made : makeVbdRequest (some 1) { staleSlot with xenio := (parseRequest msg staleSlot.xenio).1 } = (after, false))
    (several : breaks msg.seg msg.nrSegments ≠ 0) : ¬ after.Given 1 pages := by
  obtain ⟨-, -, count, iov⟩ := makeVbdRequest_vectors accepted made
  have length := @vectors_length 1 msg fun i inside => ((requestMalformed_false accepted).2 i inside).1
  have some : 0 < msg.nrSegments := by
    apply Nat.pos_of_ne_zero
    intro zero
    rw [zero] at several
    exact several rfl
  intro given
  have second := (given 1 (by omega)).1
  have kept : after.iov 1 = ⟨0, 1⟩ := by
    rw [iov]
    split
    · rfl
    · exact Function.update_of_ne Nat.one_ne_zero _ _
  rw [kept] at second
  exact absurd second (by decide)

/-- Only a segment that ends with sector 8, or a sector number that an `off_t` does not keep, takes an accepted
request out of its bounds; what the VBD is given is moreover out of bounds when there are several vectors. -/
theorem untrusted_iff (msg : BlkifRequest) :
    (Stays TapReq.Built msg ↔ msg.Caught ∨ msg.Meets) ∧
    (Stays TapReq.Given msg ↔ msg.Caught ∨ msg.Meets ∧
      (msg.operation ≠ blkifOpRead ∧ msg.operation ≠ blkifOpWrite ∨ breaks msg.seg msg.nrSegments = 0)) := by
  by_cases caught : msg.Caught
  · have refused : ¬ requestMalformed msg = false := by
      rw [requestMalformed_iff.mpr caught]
      exact Bool.noConfusion
    have stays (vectors : Nat → Nat → TapReq → Prop) : Stays vectors msg :=
      ⟨fun accepted => absurd accepted refused, fun accepted => absurd accepted refused,
        fun accepted => absurd accepted refused⟩
    exact ⟨iff_of_true (stays _) (.inl caught), iff_of_true (stays _) (.inl caught)⟩
  have accepted : requestMalformed msg = false := Bool.eq_false_iff.mpr (mt requestMalformed_iff.mp caught)
  have built (inPage : ∀ i < msg.nrSegments, (msg.seg i).InPage) (vma : Nat) (tapreq after : TapReq)
      (made : makeVbdRequest (some vma) { tapreq with xenio := (parseRequest msg tapreq.xenio).1 } = (after, false)) :
      after.Built vma msg.nrSegments := by
    unfold TapReq.Built
    rw [(makeVbdRequest_vectors accepted made).2.1]
    exact vectors_mapped inPage
  rw [or_iff_right caught, or_iff_right caught]
  refine ⟨⟨fun stays => stays.meets accepted, fun meets => meets.stays fun _ => built⟩, ?_, ?_⟩
  · intro stays
    refine ⟨stays.meets accepted, ?_⟩
    by_cases op : tdOp msg.operation = none
    · exact .inl (tdOp_none.mp op)
    · obtain ⟨after, made⟩ := @makeVbdRequest_makes 1 msg staleSlot op
      exact .inr (not_not.mp fun several => not_given_of_breaks accepted made several (stays.inside accepted _ _ _ made))
  · rintro ⟨meets, single⟩
    apply meets.stays
    intro _ inPage vma tapreq after made
    rcases single with other | single
    · unfold makeVbdRequest at made
      rw [parseRequest_op, tdOp_none.mpr other] at made
      cases made
    · exact given_of_built accepted made (built inPage vma tapreq after made) single

end Stays

def nineSectors : BlkifRequest where
  operation := blkifOpRead
  nrSegments := 1
  id := 0
  sectorNumber := 0
  seg := fun _ => ⟨1, 0, 8⟩

theorem untrusted_beyond_page : requestMalformed nineSectors = false ∧ ¬ Stays TapReq.Built nineSectors ∧
    (makeVbdRequest (some xcPageSize)
      { clearedSlot with xenio := (parseRequest nineSectors clearedSlot.xenio).1 }).1.xenio.iov =
        [⟨xcPageSize, xcPageSize + 512⟩] := by
  have accepted : requestMalformed nineSectors = false := by decide
  refine ⟨accepted, fun stays => ?_, by decide⟩
  exact absurd (stays.inPage accepted 0 (by decide)).2 (by decide)

end Blktap.Xenblkif
