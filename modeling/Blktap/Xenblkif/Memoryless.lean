import Blktap.Xenblkif.Slots
import Blktap.Xenblkif.Untrusted

/-!
# What a slot keeps from one request to the next
-/

namespace Blktap.Xenblkif

structure VbdFields where
  error : Int
  prevError : Int
  submitting : Int
  secsPending : Int
  numRetries : Int
  deriving DecidableEq

structure Slot where
  tapreq : TapReq
  vbd : VbdFields

structure VbdRequest where
  op : TdOp
  sec : Nat
  iov : List TdIovec
  vbd : VbdFields
  deriving DecidableEq

structure Use where
  msg : BlkifRequest
  mapped : Option Nat
  unmapped : Bool
  vbd : VbdRequest → Int × VbdFields

structure Served where
  vreq : Option VbdRequest
  status : Int
  unmap : Option (Nat × Nat)
  deriving DecidableEq

def Slot.prepared (s : Slot) (u : Use) : TapReq := preparedRequest u.mapped { s.tapreq with msg := u.msg }

def Slot.vreq (s : Slot) (u : Use) : VbdRequest :=
  let tapreq := s.prepared u
  ⟨tapreq.vreq.op, tapreq.vreq.sec, (List.range tapreq.vreq.iovcnt).map tapreq.iov, s.vbd⟩

def TapReq.unmap (tapreq : TapReq) : Option (Nat × Nat) := tapreq.xenio.vma.map fun vma => (vma, tapreq.xenio.nSegs)

def Slot.serve (s : Slot) (u : Use) : Served :=
  if requestFails u.msg u.mapped then ⟨none, -1, (s.prepared u).unmap⟩
  else ⟨some (s.vreq u), if (u.vbd (s.vreq u)).1 ≠ 0 then -1 else 0, (s.prepared u).unmap⟩

def TapReq.completed (tapreq : TapReq) (unmapped : Bool) (status : Int) : TapReq :=
  { tapreq with xenio := { tapreq.xenio with
      status := status, vma := if unmapped then none else tapreq.xenio.vma } }

def Slot.use (s : Slot) (u : Use) : Slot :=
  { tapreq := (s.prepared u).completed u.unmapped (s.serve u).status
    vbd := if requestFails u.msg u.mapped then s.vbd else (u.vbd (s.vreq u)).2 }

def Use.Memoryless (u : Use) : Prop :=
  ∀ (memory memory' : Slot) (history history' : List Use),
    (history.foldl Slot.use memory).serve u = (history'.foldl Slot.use memory').serve u

def Served.filled (served : Served) : Option (TdOp × Nat × List TdIovec) × Option Int × Option (Nat × Nat) :=
  match served.vreq with
  | none => (none, some served.status, served.unmap)
  | some vreq => (some (vreq.op, vreq.sec, vreq.iov), none, served.unmap)

def Use.MemorylessFilled (u : Use) : Prop :=
  ∀ (memory memory' : Slot) (history history' : List Use),
    ((history.foldl Slot.use memory).serve u).filled = ((history'.foldl Slot.use memory').serve u).filled

def BlkifRequest.Proper (msg : BlkifRequest) : Prop :=
  requestMalformed msg = false ∧ (msg.operation = blkifOpRead ∨ msg.operation = blkifOpWrite)

section Memoryless
variable {u : Use} {s s' : Slot} {vma : Nat}

theorem proper_iff {msg : BlkifRequest} :
    msg.Proper ↔ requestMalformed msg = false ∧ (tdOp msg.operation).isNone = false := by
  unfold BlkifRequest.Proper tdOp
  refine and_congr_right fun _ => ?_
  split
  · simp_all
  · split
    · simp_all
    · simp_all

theorem unmap_refused (refused : ¬ u.msg.Proper) : (s.prepared u).unmap =
    s.tapreq.xenio.vma.map fun vma => (vma, u.msg.nrSegments) := by
  unfold Slot.prepared preparedRequest
  by_cases malformed : requestMalformed u.msg = true
  · rw [if_pos malformed]
    rfl
  · rw [if_neg malformed]
    rw [proper_iff, not_and] at refused
    have other := refused (Bool.eq_false_iff.mpr malformed)
    unfold makeVbdRequest
    rw [parseRequest_op]
    cases op : tdOp u.msg.operation with
    | none => rfl
    | some op' => simp [op] at other

theorem serve_refused (refused : ¬ u.msg.Proper) : s.serve u =
    ⟨none, -1, s.tapreq.xenio.vma.map fun vma => (vma, u.msg.nrSegments)⟩ := by
  have fails : requestFails u.msg u.mapped = true := by
    rw [proper_iff] at refused
    unfold requestFails
    cases malformed : requestMalformed u.msg <;> simp_all
  unfold Slot.serve
  rw [if_pos fails, unmap_refused refused]

theorem serve_unmapped (proper : u.msg.Proper) (unmapped : u.mapped = none) : s.serve u = ⟨none, -1, none⟩ := by
  obtain ⟨parses, op⟩ := proper_iff.mp proper
  have fails : requestFails u.msg u.mapped = true := by simp [requestFails, unmapped]
  unfold Slot.serve
  rw [if_pos fails]
  congr 1
  unfold Slot.prepared preparedRequest
  rw [parses, unmapped]
  simp only [Bool.false_eq_true, if_false]
  unfold makeVbdRequest
  rw [parseRequest_op]
  cases known : tdOp u.msg.operation with
  | none => simp [known] at op
  | some op' => rfl

structure Slot.Makes (s : Slot) (u : Use) (vma : Nat) (op : TdOp) : Prop where
  op : (s.vreq u).op = op
  sec : (s.vreq u).sec = offsetSector (u.msg.sectorNumber * 512 % 2 ^ 64)
  iov : (s.vreq u).iov = (List.range (u.msg.vectors vma).length).map
    (match u.msg.vectors vma with
      | [] => s.tapreq.iov
      | v :: _ => Function.update s.tapreq.iov 0 ⟨v.base, v.len / 512⟩)
  serve : s.serve u = ⟨some (s.vreq u), if (u.vbd (s.vreq u)).1 ≠ 0 then -1 else 0, some (vma, u.msg.nrSegments)⟩

theorem serve_mapped (parses : requestMalformed u.msg = false) {op : TdOp} (known : tdOp u.msg.operation = some op)
    (mapped : u.mapped = some vma) : s.Makes u vma op := by
  have fails : requestFails u.msg u.mapped = false := by simp [requestFails, parses, known, mapped]
  obtain ⟨after, made⟩ := @makeVbdRequest_makes vma u.msg { s.tapreq with msg := u.msg } (by rw [known]; simp)
  have prepared : s.prepared u = after := by
    unfold Slot.prepared preparedRequest
    simp only [parses, mapped, Bool.false_eq_true, if_false]
    rw [made]
  obtain ⟨sec, -, count, iov⟩ := makeVbdRequest_vectors parses made
  have rest : after.vreq.op = op ∧ after.xenio.vma = some vma ∧ after.xenio.nSegs = u.msg.nrSegments := by
    unfold makeVbdRequest at made
    rw [parseRequest_op, known] at made
    simp only [mmapOne, Bool.false_eq_true, if_false, Prod.mk.injEq, and_true] at made
    subst made
    exact ⟨rfl, rfl, rfl⟩
  constructor
  · unfold Slot.vreq
    rw [prepared]
    exact rest.1
  · unfold Slot.vreq
    rw [prepared]
    exact sec
  · unfold Slot.vreq
    rw [prepared]
    dsimp only
    rw [count]
    refine congrArg (List.map · _) (iov.trans ?_)
    cases u.msg.vectors vma <;> rfl
  · unfold Slot.serve TapReq.unmap
    simp only [fails, Bool.false_eq_true, if_false, prepared, rest.2.1, rest.2.2, Option.map_some]

theorem makes_single {op : TdOp} (makes : s.Makes u vma op) (makes' : s'.Makes u vma op)
    (single : (u.msg.vectors vma).length ≤ 1) : (s.vreq u).iov = (s'.vreq u).iov := by
  rw [makes.iov, makes'.iov]
  cases vectors : u.msg.vectors vma with
  | nil => rfl
  | cons v rest =>
      have alone : rest = [] := by
        rw [vectors] at single
        exact List.length_eq_zero_iff.mp (by simpa using single)
      subst alone
      simp

theorem makes_second {op : TdOp} (makes : s.Makes u vma op) (several : 1 < (u.msg.vectors vma).length) :
    (s.vreq u).iov[1]? = some (s.tapreq.iov 1) := by
  rw [makes.iov]
  cases vectors : u.msg.vectors vma with
  | nil => simp [vectors] at several
  | cons v rest =>
      rw [vectors] at several
      have second : 1 < (v :: rest).length := several
      rw [List.getElem?_map, List.getElem?_range second]
      rfl

def rawMemory (vectors : TdIovec) (vma : Option Nat) (error : Int) : Slot where
  tapreq := { clearedSlot with
    iov := fun _ => vectors, xenio := { clearedSlot.xenio with vma := vma } }
  vbd := ⟨error, 0, 0, 0, 0⟩

theorem not_memoryless_refused (refused : ¬ u.msg.Proper) :
    ((rawMemory ⟨0, 0⟩ none 0).serve u).filled ≠ ((rawMemory ⟨0, 0⟩ (some 0) 0).serve u).filled := by
  rw [serve_refused refused, serve_refused refused]
  intro same
  have unmap := congrArg (fun filled => filled.2.2) same
  cases unmap

theorem vectors_single (parses : requestMalformed u.msg = false) :
    (u.msg.vectors vma).length ≤ 1 ↔ breaks u.msg.seg u.msg.nrSegments = 0 := by
  have length := @vectors_length vma u.msg fun i inside => ((requestMalformed_false parses).2 i inside).1
  cases count : u.msg.nrSegments with
  | zero => simp [length, count, breaks]
  | succ n =>
      rw [count] at length
      rw [length]
      omega

/-- A use does not depend on the slot's history only when its grants cannot be mapped. Of what is filled in for it
moreover a request with one vector is independent. -/
theorem memoryless_iff (u : Use) : (u.Memoryless ↔ u.msg.Proper ∧ u.mapped = none) ∧
    (u.MemorylessFilled ↔ u.msg.Proper ∧ (u.mapped = none ∨ breaks u.msg.seg u.msg.nrSegments = 0)) := by
  by_cases proper : u.msg.Proper
  · obtain ⟨parses, known⟩ := proper_iff.mp proper
    obtain ⟨op, known⟩ : ∃ op, tdOp u.msg.operation = some op := by
      apply Option.isSome_iff_exists.mp
      simpa using known
    rw [and_iff_right proper, and_iff_right proper]
    cases mapped : u.mapped with
    | none =>
        have same (memory memory' : Slot) : memory.serve u = memory'.serve u := by
          rw [serve_unmapped proper mapped, serve_unmapped proper mapped]
        exact ⟨iff_of_true (fun _ _ _ _ => same _ _) rfl,
          iff_of_true (fun _ _ _ _ => congrArg Served.filled (same _ _)) (.inl rfl)⟩
    | some vma =>
        have makes (memory : Slot) : memory.Makes u vma op := serve_mapped parses known mapped
        have filled (memory : Slot) : (memory.serve u).filled =
            (some (op, offsetSector (u.msg.sectorNumber * 512 % 2 ^ 64), (memory.vreq u).iov), none,
              some (vma, u.msg.nrSegments)) := by
          rw [(makes memory).serve, ← (makes memory).op, ← (makes memory).sec]
          rfl
        refine ⟨iff_of_false (fun memoryless => ?_) (by simp), ?_⟩
        · have same := memoryless (rawMemory ⟨0, 0⟩ none 0) (rawMemory ⟨0, 0⟩ none 1) [] []
          rw [List.foldl_nil, List.foldl_nil, (makes _).serve, (makes _).serve] at same
          have fields := congrArg (fun served : Served => served.vreq.map VbdRequest.vbd) same
          exact absurd fields (by simp [Slot.vreq, rawMemory])
        · rw [or_iff_right (by simp), ← @vectors_single u vma parses]
          constructor
          · intro memoryless
            by_contra several
            have same := memoryless (rawMemory ⟨0, 0⟩ none 0) (rawMemory ⟨1, 0⟩ none 0) [] []
            rw [List.foldl_nil, List.foldl_nil, filled, filled] at same
            have iov : ((rawMemory ⟨0, 0⟩ none 0).vreq u).iov = ((rawMemory ⟨1, 0⟩ none 0).vreq u).iov := by
              simpa using same
            have second := makes_second (makes (rawMemory ⟨0, 0⟩ none 0)) (Nat.lt_of_not_le several)
            rw [iov, makes_second (makes (rawMemory ⟨1, 0⟩ none 0)) (Nat.lt_of_not_le several)] at second
            exact absurd second (by simp [rawMemory])
          · intro single memory memory' history history'
            rw [filled, filled, makes_single (makes _) (makes _) single]
  · have differs := not_memoryless_refused proper
    refine ⟨iff_of_false (fun memoryless => ?_) fun both => proper both.1,
      iff_of_false (fun memoryless => ?_) fun both => proper both.1⟩
    · exact differs (congrArg Served.filled (memoryless (rawMemory ⟨0, 0⟩ none 0) (rawMemory ⟨0, 0⟩ (some 0) 0) [] []))
    · exact differs (memoryless (rawMemory ⟨0, 0⟩ none 0) (rawMemory ⟨0, 0⟩ (some 0) 0) [] [])

end Memoryless

section Interface
variable {u : Use} {s : Slot} {grants : Grants} {i slot : Nat} {blkif : Blkif}

theorem completeRequest_slot (error final : Bool) (room : blkif.nReqsFree < blkif.ringSize) :
    ∃ after, completeRequest u.unmapped error final blkif slot = some after ∧
      after.reqs slot = (blkif.reqs slot).completed u.unmapped (if error then -1 else 0) ∧
      after.ring.rsps = blkif.ring.rsps ++ [respond (blkif.reqs slot) (if error then -1 else 0)] := by
  unfold completeRequest
  rw [freeRequest_eq (by exact room)]
  refine ⟨_, rfl, ?_, rfl⟩
  exact Function.update_self _ _ _

theorem slot_prepared (same : blkif.reqs slot = s.tapreq) (msg : s.tapreq.msg = u.msg) (mapped : grants.map i = u.mapped) :
    preparedRequest (grants.map i) (blkif.reqs slot) = s.prepared u := by
  unfold Slot.prepared
  rw [same, mapped, ← msg]

theorem queueRequest_serves (same : blkif.reqs slot = s.tapreq) (msg : s.tapreq.msg = u.msg)
    (mapped : grants.map i = u.mapped) (unmapped : grants.unmap i = u.unmapped)
    (fails : requestFails u.msg u.mapped = true) (room : blkif.nReqsFree < blkif.ringSize) :
    ∃ after, queueRequest grants i blkif slot = some after ∧ after.reqs slot = (s.use u).tapreq ∧
      after.ring.rsps = blkif.ring.rsps ++ [respond (s.prepared u) (s.serve u).status] := by
  obtain ⟨stats, action⟩ := queueRequest_eq grants i blkif slot
  rw [slot_prepared same msg mapped, same, msg, mapped, fails, unmapped] at action
  have own : (blkif.setReq slot (s.prepared u)).reqs slot = s.prepared u := Function.update_self _ _ _
  obtain ⟨after, finished, slots, rsps⟩ := @completeRequest_slot u slot
    { blkif.setReq slot (s.prepared u) with stats := stats } true true room
  refine ⟨after, action.trans finished, slots.trans ?_, rsps.trans ?_⟩
  · simp only [own, Slot.use, Slot.serve, fails, if_true]
  · simp only [own, Slot.serve, fails, if_true]
    rfl

theorem queueRequest_queues (same : blkif.reqs slot = s.tapreq) (msg : s.tapreq.msg = u.msg)
    (mapped : grants.map i = u.mapped) (passes : requestFails u.msg u.mapped = false) :
    ∃ after, queueRequest grants i blkif slot = some after ∧ after.reqs slot = s.prepared u ∧
      after.queued = blkif.queued ++ [slot] := by
  obtain ⟨stats, action⟩ := queueRequest_eq grants i blkif slot
  rw [slot_prepared same msg mapped, same, msg, mapped, passes] at action
  exact ⟨_, action, Function.update_self _ _ _, rfl⟩

theorem requestCb_serves (final : Bool) (held : blkif.reqs slot = s.prepared u) (passes : requestFails u.msg u.mapped = false)
    (room : blkif.nReqsFree < blkif.ringSize) :
    ∃ after, requestCb u.unmapped (decide ((u.vbd (s.vreq u)).1 ≠ 0)) final blkif slot = some after ∧
      after.reqs slot = (s.use u).tapreq ∧
      after.ring.rsps = blkif.ring.rsps ++ [respond (s.prepared u) (s.serve u).status] := by
  obtain ⟨after, finished, slots, rsps⟩ := @completeRequest_slot u slot blkif (decide ((u.vbd (s.vreq u)).1 ≠ 0)) final room
  unfold requestCb
  rw [finished]
  refine ⟨_, rfl, slots.trans ?_, rsps.trans ?_⟩
  · simp only [held, Slot.use, Slot.serve, passes, Bool.false_eq_true, if_false, decide_eq_true_eq]
  · simp only [held, Slot.serve, passes, Bool.false_eq_true, if_false, decide_eq_true_eq]

end Interface

def firstError (before : Int) (results : List Int) : Int :=
  results.foldl (fun error err => if error ≠ 0 then error else err) before

def onePageUse (results : List Int) : Use where
  msg := ⟨blkifOpRead, 1, 7, 8, fun _ => ⟨1, 0, 7⟩⟩
  mapped := some xcPageSize
  unmapped := true
  vbd := fun vreq =>
    let error := firstError vreq.vbd.error results
    (error, { vreq.vbd with error := error })

theorem memoryless_stale_error : ¬ (onePageUse [0]).Memoryless ∧ (onePageUse [0]).msg.Proper ∧
    ((rawMemory ⟨0, 0⟩ none 0).serve (onePageUse [0])).status = 0 ∧
    (([onePageUse [-28]].foldl Slot.use (rawMemory ⟨0, 0⟩ none 0)).serve (onePageUse [0])).status = -1 := by
  have fresh : ((rawMemory ⟨0, 0⟩ none 0).serve (onePageUse [0])).status = 0 := by decide +kernel
  have used : (([onePageUse [-28]].foldl Slot.use (rawMemory ⟨0, 0⟩ none 0)).serve (onePageUse [0])).status = -1 := by
    decide +kernel
  refine ⟨fun memoryless => ?_, ⟨by decide, by decide⟩, fresh, used⟩
  have same := memoryless (rawMemory ⟨0, 0⟩ none 0) (rawMemory ⟨0, 0⟩ none 0) [] [onePageUse [-28]]
  rw [List.foldl_nil] at same
  rw [same, used] at fresh
  exact absurd fresh (by decide)

end Blktap.Xenblkif
