import Mathlib.Data.List.Perm.Basic
import Mathlib.Data.List.Count
import Blktap.Xenblkif.Requests

namespace Blktap.Xenblkif
open Lib

def slotsFrom (array : Nat → Nat) (base n : Nat) : List Nat :=
  (List.range n).map fun j => array (base + j)

def freeSlots (blkif : Blkif) : List Nat :=
  slotsFrom blkif.reqsFree (blkif.ringSize - blkif.nReqsFree) blkif.nReqsFree

def responses (blkif : Blkif) (seq : Nat) : Nat := blkif.ring.rsps.countP (·.seq = seq)

def holding (blkif : Blkif) (slots : List Nat) (seq : Nat) : Nat :=
  slots.countP fun slot => (blkif.reqs slot).seq = seq

structure Sound (blkif : Blkif) : Prop where
  freeOnce : (freeSlots blkif).Nodup
  exclusive : ∀ slot < blkif.ringSize, slot ∈ freeSlots blkif ↔ slot ∉ blkif.queued
  total : (freeSlots blkif).length + blkif.queued.length = blkif.ringSize
  answered : ∀ seq, responses blkif seq + holding blkif blkif.queued seq =
    if seq < blkif.ring.reqCons then 1 else 0
  echoed : ∀ rsp ∈ blkif.ring.rsps, ∃ msg, blkif.ring.prod[rsp.seq]? = some msg ∧ rsp.id = msg.id

structure Good (hand : List Nat) (blkif : Blkif) : Prop where
  size : blkif.ring.size = blkif.ringSize
  slots : (freeSlots blkif ++ (hand ++ blkif.queued)).Perm (List.range blkif.ringSize)
  count : blkif.ring.reqCons = blkif.ring.rsps.length + (hand ++ blkif.queued).length
  behind : blkif.ring.reqCons ≤ blkif.ring.prod.length
  answered : ∀ seq, responses blkif seq + holding blkif (hand ++ blkif.queued) seq =
    if seq < blkif.ring.reqCons then 1 else 0
  held : ∀ slot ∈ hand ++ blkif.queued,
    blkif.ring.prod[(blkif.reqs slot).seq]? = some (blkif.reqs slot).msg
  named : ∀ slot ∈ blkif.queued, (blkif.reqs slot).xenio.id = (blkif.reqs slot).msg.id
  echoed : ∀ rsp ∈ blkif.ring.rsps, ∃ msg, blkif.ring.prod[rsp.seq]? = some msg ∧ rsp.id = msg.id

@[simp] theorem slotsFrom_length (array : Nat → Nat) (base n : Nat) :
    (slotsFrom array base n).length = n := by simp [slotsFrom]

theorem slotsFrom_succ (array : Nat → Nat) (base n : Nat) :
    slotsFrom array base (n + 1) = array base :: slotsFrom array (base + 1) n := by
  simp only [slotsFrom, List.range_succ_eq_map, List.map_cons, List.map_map, Nat.add_zero]
  congr 1
  apply List.map_congr_left
  intro j _
  simp only [Function.comp_apply]
  congr 1
  omega

theorem slotsFrom_snoc (array : Nat → Nat) (base n : Nat) :
    slotsFrom array base (n + 1) = slotsFrom array base n ++ [array (base + n)] := by
  simp [slotsFrom, List.range_succ]

theorem mem_slotsFrom {array : Nat → Nat} {base n slot : Nat} :
    slot ∈ slotsFrom array base n ↔ ∃ k, base ≤ k ∧ k < base + n ∧ array k = slot := by
  simp only [slotsFrom, List.mem_map, List.mem_range]
  constructor
  · rintro ⟨j, bound, rfl⟩
    exact ⟨base + j, by omega, by omega, rfl⟩
  · rintro ⟨k, above, below, rfl⟩
    exact ⟨k - base, by omega, by congr 1; omega⟩

theorem slotsFrom_congr {array array' : Nat → Nat} {base n : Nat}
    (same : ∀ k, base ≤ k → k < base + n → array k = array' k) :
    slotsFrom array base n = slotsFrom array' base n := by
  apply List.map_congr_left
  intro j member
  exact same _ (by omega) (by have := List.mem_range.mp member; omega)

section Good
variable {hand : List Nat} {blkif : Blkif}

theorem Good.nodup (good : Good hand blkif) :
    (freeSlots blkif ++ (hand ++ blkif.queued)).Nodup :=
  good.slots.nodup_iff.mpr List.nodup_range

theorem Good.apart (good : Good hand blkif) {slot : Nat} (free : slot ∈ freeSlots blkif) :
    slot ∉ hand ++ blkif.queued :=
  fun member => (List.nodup_append.mp good.nodup).2.2 slot free slot member rfl

theorem Good.total (good : Good hand blkif) :
    blkif.nReqsFree + (hand ++ blkif.queued).length = blkif.ringSize := by
  have lengths := good.slots.length_eq
  rw [List.length_append, freeSlots, slotsFrom_length, List.length_range] at lengths
  exact lengths

theorem Good.sound (good : Good [] blkif) : Sound blkif where
  freeOnce := (List.nodup_append.mp good.nodup).1
  exclusive := by
    intro slot bound
    have member : slot ∈ freeSlots blkif ++ ([] ++ blkif.queued) :=
      good.slots.mem_iff.mpr (List.mem_range.mpr bound)
    constructor
    · intro free queued
      exact good.apart free queued
    · intro absent
      exact (List.mem_append.mp member).resolve_right absent
  total := by
    rw [freeSlots, slotsFrom_length]
    exact good.total
  answered := good.answered
  echoed := good.echoed

end Good

def takeOne (blkif : Blkif) (msg : BlkifRequest) : Blkif :=
  let slot := blkif.reqsFree (blkif.ringSize - blkif.nReqsFree)
  { blkif with
    reqs := Function.update blkif.reqs slot
      { blkif.reqs slot with msg := msg, seq := blkif.ring.reqCons }
    nReqsFree := blkif.nReqsFree - 1
    ring := { blkif.ring with reqCons := blkif.ring.reqCons + 1 } }

theorem freeSlots_takeOne {blkif : Blkif} (msg : BlkifRequest)
    (room : 0 < blkif.nReqsFree) (fits : blkif.nReqsFree ≤ blkif.ringSize) :
    freeSlots blkif =
      blkif.reqsFree (blkif.ringSize - blkif.nReqsFree) :: freeSlots (takeOne blkif msg) := by
  obtain ⟨free, eq⟩ := Nat.exists_eq_succ_of_ne_zero (Nat.pos_iff_ne_zero.mp room)
  simp only [freeSlots, takeOne, eq, slotsFrom_succ, Nat.succ_eq_add_one, Nat.add_sub_cancel]
  congr 2
  omega

theorem holding_congr (blkif blkif' : Blkif) (slots : List Nat) (seq : Nat)
    (same : ∀ slot ∈ slots, (blkif'.reqs slot).seq = (blkif.reqs slot).seq) :
    holding blkif' slots seq = holding blkif slots seq := by
  apply List.countP_congr
  intro slot member
  simp only [same slot member]

theorem Good.takeOne {hand : List Nat} {blkif : Blkif} (good : Good hand blkif)
    {msg : BlkifRequest} (next : blkif.ring.prod[blkif.ring.reqCons]? = some msg)
    (room : 0 < blkif.nReqsFree) :
    Good (hand ++ [blkif.reqsFree (blkif.ringSize - blkif.nReqsFree)]) (takeOne blkif msg) := by
  have fits : blkif.nReqsFree ≤ blkif.ringSize := by have := good.total; omega
  have split := freeSlots_takeOne msg room fits
  set slot := blkif.reqsFree (blkif.ringSize - blkif.nReqsFree) with slotEq
  have fresh : ∀ other ∈ hand ++ blkif.queued, other ≠ slot := by
    rintro other member rfl
    exact good.apart (split ▸ List.mem_cons_self) member
  have others : ∀ other ∈ hand ++ blkif.queued,
      (Xenblkif.takeOne blkif msg).reqs other = blkif.reqs other := by
    intro other member
    exact Function.update_of_ne (fresh other member) _ _
  have self : (Xenblkif.takeOne blkif msg).reqs slot =
      { blkif.reqs slot with msg := msg, seq := blkif.ring.reqCons } :=
    Function.update_self _ _ _
  have swap : (hand ++ [slot] ++ blkif.queued).Perm (slot :: (hand ++ blkif.queued)) := by
    rw [List.append_assoc]
    exact List.perm_middle
  constructor
  · exact good.size
  · refine (List.Perm.append_left _ swap).trans ?_
    refine List.perm_middle.trans ?_
    rw [← List.cons_append, ← split]
    exact good.slots
  · have count := good.count
    simp only [Xenblkif.takeOne, List.length_append, List.length_singleton] at count ⊢
    omega
  · have bound := (List.getElem?_eq_some_iff.mp next).1
    exact bound
  · intro seq
    have before := good.answered seq
    have same := holding_congr blkif (Xenblkif.takeOne blkif msg) (hand ++ blkif.queued)
      seq (fun other member => by rw [others other member])
    have counted : holding (Xenblkif.takeOne blkif msg) (hand ++ [slot] ++ blkif.queued) seq =
        holding blkif (hand ++ blkif.queued) seq + if blkif.ring.reqCons = seq then 1 else 0 := by
      rw [holding, swap.countP_eq, List.countP_cons, ← same, self]
      simp [holding]
    have unanswered : responses (Xenblkif.takeOne blkif msg) seq = responses blkif seq := rfl
    have advanced : (Xenblkif.takeOne blkif msg).ring.reqCons = blkif.ring.reqCons + 1 := rfl
    have queuedSame : (Xenblkif.takeOne blkif msg).queued = blkif.queued := rfl
    rw [queuedSame, counted, unanswered, advanced]
    split_ifs at before ⊢ <;> omega
  · intro other member
    rcases List.mem_cons.mp (swap.mem_iff.mp member) with rfl | member
    · rw [self]
      exact next
    · rw [others other member]
      exact good.held other member
  · intro other member
    rw [others other (List.mem_append_right _ member)]
    exact good.named other member
  · exact good.echoed

structure Completed (blkif after : Blkif) (slot : Nat) (answer : Response) : Prop where
  ringSize : after.ringSize = blkif.ringSize
  nReqsFree : after.nReqsFree = blkif.nReqsFree + 1
  reqsFree : after.reqsFree =
    Function.update blkif.reqsFree (blkif.ringSize - (blkif.nReqsFree + 1)) slot
  queued : after.queued = blkif.queued
  rsps : after.ring.rsps = blkif.ring.rsps ++ [answer]
  prod : after.ring.prod = blkif.ring.prod
  reqCons : after.ring.reqCons = blkif.ring.reqCons
  size : after.ring.size = blkif.ring.size
  reqs : ∀ other ≠ slot, after.reqs other = blkif.reqs other

theorem freeRequest_eq {blkif : Blkif} {slot : Nat} (room : blkif.nReqsFree < blkif.ringSize) :
    freeRequest blkif slot = some { blkif with
      nReqsFree := blkif.nReqsFree + 1
      reqsFree := Function.update blkif.reqsFree (blkif.ringSize - (blkif.nReqsFree + 1)) slot } :=
  if_neg (by omega)

theorem freeRequest_full {blkif : Blkif} {slot : Nat} (full : blkif.ringSize ≤ blkif.nReqsFree) :
    freeRequest blkif slot = none :=
  if_pos (by omega)

theorem completeRequest_completed (unmapped error final : Bool) {blkif : Blkif} (slot : Nat)
    (room : blkif.nReqsFree < blkif.ringSize) :
    ∃ after answer, completeRequest unmapped error final blkif slot = some after ∧
      Completed blkif after slot answer ∧ answer.seq = (blkif.reqs slot).seq ∧
      answer.id = (blkif.reqs slot).xenio.id := by
  unfold completeRequest
  rw [freeRequest_eq (by exact room)]
  refine ⟨_, respond (blkif.reqs slot) (if error then -1 else 0), rfl, ?_, rfl, rfl⟩
  constructor <;> try rfl
  intro other different
  exact Function.update_of_ne different _ _

theorem completeRequest_full {unmapped error final : Bool} {blkif : Blkif} {slot : Nat}
    (full : blkif.ringSize ≤ blkif.nReqsFree) :
    completeRequest unmapped error final blkif slot = none := by
  unfold completeRequest
  rw [freeRequest_full (by exact full)]
  rfl

theorem freeSlots_completed {blkif after : Blkif} {slot : Nat} {answer : Response}
    (completed : Completed blkif after slot answer) (room : blkif.nReqsFree < blkif.ringSize) :
    freeSlots after = slot :: freeSlots blkif := by
  simp only [freeSlots, completed.ringSize, completed.nReqsFree, completed.reqsFree,
    slotsFrom_succ, Function.update_self]
  rw [show blkif.ringSize - (blkif.nReqsFree + 1) + 1 = blkif.ringSize - blkif.nReqsFree by omega]
  congr 1
  apply slotsFrom_congr
  intro k above _
  exact Function.update_of_ne (by omega) _ _

theorem Good.completed {hand : List Nat} {blkif after : Blkif} {slot : Nat} {answer : Response}
    (good : Good (slot :: hand) blkif) (completed : Completed blkif after slot answer)
    (seq : answer.seq = (blkif.reqs slot).seq) (id : answer.id = (blkif.reqs slot).msg.id) :
    Good hand after := by
  have room : blkif.nReqsFree < blkif.ringSize := by
    have := good.total
    simp only [List.cons_append, List.length_cons] at this
    omega
  have once : slot ∉ hand ++ blkif.queued := by
    have nodup := (List.nodup_append.mp good.nodup).2.1
    exact (List.nodup_cons.mp nodup).1
  have others : ∀ other ∈ hand ++ blkif.queued, after.reqs other = blkif.reqs other := by
    rintro other member
    exact completed.reqs other fun equal => once (equal ▸ member)
  constructor
  · rw [completed.size, completed.ringSize]
    exact good.size
  · rw [freeSlots_completed completed room, completed.queued, completed.ringSize]
    exact List.perm_middle.symm.trans good.slots
  · have count := good.count
    simp only [completed.reqCons, completed.rsps, completed.queued, List.cons_append,
      List.length_cons, List.length_append, List.length_nil] at count ⊢
    omega
  · rw [completed.reqCons, completed.prod]
    exact good.behind
  · intro seq'
    have before := good.answered seq'
    have same := holding_congr blkif after (hand ++ blkif.queued) seq'
      (fun other member => by rw [others other member])
    have answered : responses after seq' =
        responses blkif seq' + if (blkif.reqs slot).seq = seq' then 1 else 0 := by
      simp [responses, completed.rsps, List.countP_append, List.countP_cons, seq]
    have counted : holding blkif (slot :: hand ++ blkif.queued) seq' =
        holding blkif (hand ++ blkif.queued) seq' +
          if (blkif.reqs slot).seq = seq' then 1 else 0 := by
      simp [holding, List.countP_cons]
    rw [completed.queued, same, answered, completed.reqCons]
    omega
  · intro other member
    rw [completed.queued] at member
    rw [others other member, completed.prod]
    exact good.held other (List.mem_cons_of_mem _ member)
  · intro other member
    rw [completed.queued] at member
    rw [others other (List.mem_append_right _ member)]
    exact good.named other member
  · intro rsp member
    rw [completed.prod]
    rw [completed.rsps] at member
    rcases List.mem_append.mp member with member | member
    · exact good.echoed rsp member
    · rw [List.mem_singleton.mp member]
      exact ⟨_, seq ▸ good.held slot List.mem_cons_self, id⟩

structure Passed (blkif after : Blkif) (slot : Nat) : Prop where
  ringSize : after.ringSize = blkif.ringSize
  nReqsFree : after.nReqsFree = blkif.nReqsFree
  reqsFree : after.reqsFree = blkif.reqsFree
  queued : after.queued = blkif.queued ++ [slot]
  ring : after.ring = blkif.ring
  seq : (after.reqs slot).seq = (blkif.reqs slot).seq
  msg : (after.reqs slot).msg = (blkif.reqs slot).msg
  id : (after.reqs slot).xenio.id = (blkif.reqs slot).msg.id
  reqs : ∀ other ≠ slot, after.reqs other = blkif.reqs other

theorem Good.passed {hand : List Nat} {blkif after : Blkif} {slot : Nat}
    (good : Good (slot :: hand) blkif) (passed : Passed blkif after slot) : Good hand after := by
  have free : freeSlots after = freeSlots blkif := by
    simp only [freeSlots, passed.ringSize, passed.nReqsFree, passed.reqsFree]
  have swap : (hand ++ after.queued).Perm (slot :: hand ++ blkif.queued) := by
    rw [passed.queued, ← List.append_assoc]
    exact (@List.perm_append_comm _ _ [slot])
  have seqs : ∀ other, (after.reqs other).seq = (blkif.reqs other).seq := by
    intro other
    by_cases same : other = slot
    · rw [same, passed.seq]
    · rw [passed.reqs other same]
  have msgs : ∀ other, (after.reqs other).msg = (blkif.reqs other).msg := by
    intro other
    by_cases same : other = slot
    · rw [same, passed.msg]
    · rw [passed.reqs other same]
  constructor
  · rw [passed.ring, passed.ringSize]
    exact good.size
  · rw [free, passed.ringSize]
    exact (List.Perm.append_left _ swap).trans good.slots
  · rw [passed.ring, swap.length_eq]
    exact good.count
  · rw [passed.ring]
    exact good.behind
  · intro seq
    have same := holding_congr blkif after (hand ++ after.queued) seq
      (fun other _ => seqs other)
    have moved : holding blkif (hand ++ after.queued) seq =
        holding blkif (slot :: hand ++ blkif.queued) seq := swap.countP_eq _
    have unanswered : responses after seq = responses blkif seq := by
      simp only [responses, passed.ring]
    rw [same, moved, unanswered, passed.ring]
    exact good.answered seq
  · intro other member
    rw [passed.ring, seqs, msgs]
    exact good.held other (swap.mem_iff.mp member)
  · intro other member
    by_cases same : other = slot
    · rw [same, passed.id, passed.msg]
    · rw [passed.reqs other same]
      rw [passed.queued] at member
      exact good.named other
        ((List.mem_append.mp member).resolve_right fun h => same (List.mem_singleton.mp h))
  · rw [passed.ring]
    exact good.echoed

def requestFails (msg : BlkifRequest) (mapped : Option Nat) : Bool :=
  requestMalformed msg || (tdOp msg.operation).isNone || mapped.isNone

theorem makeVbdRequest_spec (mapped : Option Nat) (tapreq : TapReq) :
    (makeVbdRequest mapped tapreq).1.seq = tapreq.seq ∧
    (makeVbdRequest mapped tapreq).1.msg = tapreq.msg ∧
    (makeVbdRequest mapped tapreq).1.xenio.id = tapreq.xenio.id ∧
    (makeVbdRequest mapped tapreq).2 = ((tdOp tapreq.xenio.op).isNone || mapped.isNone) := by
  unfold makeVbdRequest
  cases known : tdOp tapreq.xenio.op with
  | none => exact ⟨rfl, rfl, rfl, rfl⟩
  | some op =>
      cases mapped with
      | none => exact ⟨rfl, rfl, rfl, rfl⟩
      | some vma => exact ⟨rfl, rfl, rfl, rfl⟩

def preparedRequest (mapped : Option Nat) (tapreq : TapReq) : TapReq :=
  let parsed := { tapreq with xenio := (parseRequest tapreq.msg tapreq.xenio).1 }
  if requestMalformed tapreq.msg then parsed else (makeVbdRequest mapped parsed).1

theorem preparedRequest_spec (mapped : Option Nat) (tapreq : TapReq) :
    (preparedRequest mapped tapreq).seq = tapreq.seq ∧
    (preparedRequest mapped tapreq).msg = tapreq.msg ∧
    (preparedRequest mapped tapreq).xenio.id = tapreq.msg.id := by
  unfold preparedRequest
  split
  · exact ⟨rfl, rfl, rfl⟩
  · obtain ⟨seq, msg, id, _⟩ := makeVbdRequest_spec mapped
      { tapreq with xenio := (parseRequest tapreq.msg tapreq.xenio).1 }
    exact ⟨seq, msg, id⟩

theorem queueRequest_eq (grants : Grants) (i : Nat) (blkif : Blkif) (slot : Nat) :
    ∃ stats, queueRequest grants i blkif slot =
      let prepared := blkif.setReq slot (preparedRequest (grants.map i) (blkif.reqs slot))
      if requestFails (blkif.reqs slot).msg (grants.map i) then
        completeRequest (grants.unmap i) true true { prepared with stats := stats } slot
      else some { prepared with queued := blkif.queued ++ [slot] } := by
  unfold queueRequest preparedRequest requestFails
  by_cases malformed : requestMalformed (blkif.reqs slot).msg
  · simp only [parseRequest_fails, malformed, if_true, Bool.true_or]
    exact ⟨_, rfl⟩
  · obtain ⟨_, _, _, fails⟩ := makeVbdRequest_spec (grants.map i)
      { blkif.reqs slot with
        xenio := (parseRequest (blkif.reqs slot).msg (blkif.reqs slot).xenio).1 }
    simp only [parseRequest_op] at fails
    simp only [parseRequest_fails, malformed, if_false, Bool.false_or, fails, Bool.false_eq_true]
    exact ⟨_, rfl⟩

theorem queueRequest_passed {grants : Grants} {i : Nat} {blkif : Blkif} {slot : Nat}
    (passes : requestFails (blkif.reqs slot).msg (grants.map i) = false) :
    ∃ after, queueRequest grants i blkif slot = some after ∧ Passed blkif after slot := by
  obtain ⟨stats, action⟩ := queueRequest_eq grants i blkif slot
  obtain ⟨seq, msg, id⟩ := preparedRequest_spec (grants.map i) (blkif.reqs slot)
  simp only [passes, Bool.false_eq_true, if_false] at action
  refine ⟨_, action, ?_⟩
  have self : (blkif.setReq slot (preparedRequest (grants.map i) (blkif.reqs slot))).reqs slot =
    preparedRequest (grants.map i) (blkif.reqs slot) := Function.update_self _ _ _
  constructor <;> try rfl
  · exact (congrArg TapReq.seq self).trans seq
  · exact (congrArg TapReq.msg self).trans msg
  · exact (congrArg (fun tapreq : TapReq => tapreq.xenio.id) self).trans id
  · intro other different
    exact Function.update_of_ne different _ _

theorem queueRequest_failed {grants : Grants} {i : Nat} {blkif : Blkif} {slot : Nat}
    (fails : requestFails (blkif.reqs slot).msg (grants.map i) = true)
    (room : blkif.nReqsFree < blkif.ringSize) :
    ∃ after answer, queueRequest grants i blkif slot = some after ∧
      Completed blkif after slot answer ∧ answer.seq = (blkif.reqs slot).seq ∧
      answer.id = (blkif.reqs slot).msg.id := by
  obtain ⟨stats, action⟩ := queueRequest_eq grants i blkif slot
  obtain ⟨seqSame, _, idSame⟩ := preparedRequest_spec (grants.map i) (blkif.reqs slot)
  simp only [fails, if_true] at action
  set prepared : Blkif :=
    { blkif.setReq slot (preparedRequest (grants.map i) (blkif.reqs slot)) with stats := stats }
  have self : prepared.reqs slot = preparedRequest (grants.map i) (blkif.reqs slot) :=
    Function.update_self _ _ _
  obtain ⟨after, answer, finished, completed, seq, id⟩ :=
    @completeRequest_completed (grants.unmap i) true true prepared slot room
  refine ⟨after, answer, action.trans finished, ?_, ?_, ?_⟩
  · refine { completed with reqs := ?_ }
    intro other different
    rw [completed.reqs other different]
    exact Function.update_of_ne different _ _
  · rw [seq, self, seqSame]
  · rw [id, self, idSame]

theorem queueRequest_full {grants : Grants} {i : Nat} {blkif : Blkif} {slot : Nat}
    (fails : requestFails (blkif.reqs slot).msg (grants.map i) = true)
    (full : blkif.ringSize ≤ blkif.nReqsFree) : queueRequest grants i blkif slot = none := by
  obtain ⟨stats, action⟩ := queueRequest_eq grants i blkif slot
  rw [action, fails]
  exact completeRequest_full full

end Blktap.Xenblkif
