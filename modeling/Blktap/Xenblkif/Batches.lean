import Mathlib.Data.List.Nodup
import Mathlib.Data.Nat.Find
import Mathlib.Order.Basic
import Mathlib.Tactic.Set
import Blktap.Xenblkif.Slots

/-! # Batches of ring requests -/

namespace Blktap.Xenblkif
open Lib

/-- The requests that one ring event takes from the guest. It is `none` when at some look the ring
holds more of them than there are free slots. -/
def batch : Nat → List BlkifRequest → List (List BlkifRequest) → Option (List BlkifRequest)
  | free, waiting, [] =>
      if free = 0 then some []
      else if waiting.length ≤ free then some waiting else none
  | free, waiting, msgs :: arrivals =>
      if free = 0 then some []
      else if (waiting ++ msgs).length ≤ free then
        if waiting ++ msgs = [] then some []
        else (batch (free - (waiting ++ msgs).length) [] arrivals).map ((waiting ++ msgs) ++ ·)
      else none

def BatchOk (grants : Grants) (arrivals : List (List BlkifRequest)) (blkif : Blkif) : Prop :=
  ∃ msgs, batch blkif.nReqsFree (blkif.ring.prod.drop blkif.ring.reqCons) arrivals = some msgs ∧
    ∀ i (below : i + 1 < msgs.length), requestFails msgs[i] (grants.map i) = false

def EventOk (blkif : Blkif) : Event → Prop
  | .ringEvent grants arrivals => BatchOk grants arrivals blkif
  | .complete slot _ _ _ => slot ∈ blkif.queued

def Connected (blkif : Blkif) : Prop :=
  ∃ size prod memory array, reqsInit ⟨size, prod, 0, [], 0⟩ memory array = some blkif

def takeMany (blkif : Blkif) (n : Nat) : Blkif :=
  { blkif with
    reqs := copyRequests blkif (blkif.ringSize - blkif.nReqsFree) n
    nReqsFree := blkif.nReqsFree - n
    ring := { blkif.ring with reqCons := blkif.ring.reqCons + n } }

theorem takeMany_zero (blkif : Blkif) : takeMany blkif 0 = blkif := rfl

theorem takeMany_succ {blkif : Blkif} {n : Nat} {msg : BlkifRequest}
    (next : blkif.ring.prod[blkif.ring.reqCons + n]? = some msg)
    (room : n < blkif.nReqsFree) (fits : blkif.nReqsFree ≤ blkif.ringSize) :
    takeMany blkif (n + 1) = takeOne (takeMany blkif n) msg := by
  have place : blkif.ringSize - (blkif.nReqsFree - n) =
      blkif.ringSize - blkif.nReqsFree + n := by omega
  simp only [takeMany, takeOne, copyRequests, next, place, Nat.sub_sub, Nat.add_assoc]

theorem Good.takeMany {hand : List Nat} {blkif : Blkif} (good : Good hand blkif) {n : Nat}
    (room : n ≤ blkif.nReqsFree) (waiting : n ≤ blkif.ring.unconsumed) :
    Good (hand ++ slotsFrom blkif.reqsFree (blkif.ringSize - blkif.nReqsFree) n)
      (takeMany blkif n) := by
  induction n with
  | zero => simpa [slotsFrom, takeMany_zero] using good
  | succ n ih =>
      have fits : blkif.nReqsFree ≤ blkif.ringSize := by have := good.total; omega
      have bound : blkif.ring.reqCons + n < blkif.ring.prod.length := by
        unfold Ring.unconsumed at waiting; omega
      have next := List.getElem?_eq_getElem bound
      have before := ih (by omega) (by omega)
      rw [takeMany_succ next room fits, slotsFrom_snoc, ← List.append_assoc]
      have place : blkif.ringSize - (blkif.nReqsFree - n) =
        blkif.ringSize - blkif.nReqsFree + n := by omega
      have after := before.takeOne next
        (by simp only [Xenblkif.takeMany]; omega)
      rw [← place]
      exact after

theorem copyRequests_other {blkif : Blkif} {base n slot : Nat}
    (absent : slot ∉ slotsFrom blkif.reqsFree base n) :
    copyRequests blkif base n slot = blkif.reqs slot := by
  induction n with
  | zero => rfl
  | succ n ih =>
      rw [slotsFrom_snoc, List.mem_append, List.mem_singleton, not_or] at absent
      cases next : blkif.ring.prod[blkif.ring.reqCons + n]? with
      | none =>
          simp only [copyRequests, next]
          exact ih absent.1
      | some msg =>
          simp only [copyRequests, next]
          rw [Function.update_of_ne absent.2, ih absent.1]

theorem copyRequests_msg {blkif : Blkif} {base n j : Nat}
    (nodup : (slotsFrom blkif.reqsFree base n).Nodup) (below : j < n)
    (bound : blkif.ring.reqCons + n ≤ blkif.ring.prod.length) :
    (copyRequests blkif base n (blkif.reqsFree (base + j))).msg =
      blkif.ring.prod[blkif.ring.reqCons + j] := by
  induction n with
  | zero => omega
  | succ n ih =>
      rw [slotsFrom_snoc] at nodup
      have next := List.getElem?_eq_getElem (l := blkif.ring.prod)
        (i := blkif.ring.reqCons + n) (by omega)
      simp only [copyRequests, next]
      rcases Nat.lt_succ_iff_lt_or_eq.mp below with earlier | rfl
      · have member : blkif.reqsFree (base + j) ∈ slotsFrom blkif.reqsFree base n :=
          mem_slotsFrom.mpr ⟨base + j, by omega, by omega, rfl⟩
        have different : blkif.reqsFree (base + j) ≠ blkif.reqsFree (base + n) :=
          (List.nodup_append.mp nodup).2.2 _ member _ List.mem_cons_self
        rw [Function.update_of_ne different]
        exact ih (List.nodup_append.mp nodup).1 earlier (by omega)
      · rw [Function.update_self]

structure Loaded (start fetched : Blkif) (msgs : List BlkifRequest) : Prop where
  good : Good (slotsFrom start.reqsFree (start.ringSize - start.nReqsFree) msgs.length) fetched
  ringSize : fetched.ringSize = start.ringSize
  reqsFree : fetched.reqsFree = start.reqsFree
  free : fetched.nReqsFree + msgs.length = start.nReqsFree
  msg : ∀ j (below : j < msgs.length),
    (fetched.reqs (start.reqsFree (start.ringSize - start.nReqsFree + j))).msg = msgs[j]

theorem Good.arrive {hand : List Nat} {blkif : Blkif} (good : Good hand blkif)
    (msgs : List BlkifRequest) : Good hand (blkif.arrive msgs) where
  size := good.size
  slots := good.slots
  count := good.count
  behind := by
    have := good.behind
    simp only [Blkif.arrive, List.length_append]
    omega
  answered := good.answered
  held := by
    intro slot member
    exact List.getElem?_append_left (List.getElem?_eq_some_iff.mp (good.held slot member)).1 ▸
      good.held slot member
  named := good.named
  echoed := by
    intro rsp member
    obtain ⟨msg, found, id⟩ := good.echoed rsp member
    exact ⟨msg, List.getElem?_append_left (List.getElem?_eq_some_iff.mp found).1 ▸ found, id⟩

theorem Loaded.arrive {start fetched : Blkif} {taken : List BlkifRequest}
    (loaded : Loaded start fetched taken) (msgs : List BlkifRequest) :
    Loaded start (fetched.arrive msgs) taken :=
  ⟨loaded.good.arrive msgs, loaded.ringSize, loaded.reqsFree, loaded.free, loaded.msg⟩

theorem Loaded.takeMany {start fetched : Blkif} {taken : List BlkifRequest}
    (loaded : Loaded start fetched taken) {waiting : List BlkifRequest}
    (waitingEq : fetched.ring.prod.drop fetched.ring.reqCons = waiting)
    (room : waiting.length ≤ fetched.nReqsFree) (fits : start.nReqsFree ≤ start.ringSize) :
    Loaded start (takeMany fetched waiting.length) (taken ++ waiting) := by
  have unconsumed : waiting.length = fetched.ring.unconsumed := by
    rw [← waitingEq, List.length_drop]
    rfl
  have free := loaded.free
  have place : fetched.ringSize - fetched.nReqsFree =
      start.ringSize - start.nReqsFree + taken.length := by
    rw [loaded.ringSize]; omega
  have nodup : (slotsFrom fetched.reqsFree (fetched.ringSize - fetched.nReqsFree)
      waiting.length).Nodup := by
    have all := (List.nodup_append.mp loaded.good.nodup).1
    refine List.Sublist.nodup ?_ all
    exact (List.range_sublist.mpr room).map _
  constructor
  · have after := loaded.good.takeMany room (Nat.le_of_eq unconsumed)
    rw [loaded.reqsFree, place] at after
    convert after using 1
    simp only [slotsFrom, List.length_append, List.range_add, List.map_append, List.map_map]
    congr 1
    apply List.map_congr_left
    intro j _
    simp only [Function.comp_apply, Nat.add_assoc]
  · exact loaded.ringSize
  · exact loaded.reqsFree
  · simp only [Xenblkif.takeMany, List.length_append]
    omega
  · intro j below
    rw [List.length_append] at below
    simp only [Xenblkif.takeMany]
    by_cases earlier : j < taken.length
    · rw [List.getElem_append_left earlier, ← loaded.msg j earlier, copyRequests_other]
      intro member
      refine @Good.apart _ _ loaded.good (start.reqsFree (start.ringSize - start.nReqsFree + j)) ?_ ?_
      · obtain ⟨k, above, under, eq⟩ := mem_slotsFrom.mp member
        exact mem_slotsFrom.mpr ⟨k, above, by omega, eq⟩
      · exact List.mem_append_left _ (mem_slotsFrom.mpr ⟨_, by omega, by omega, rfl⟩)
    · rw [List.getElem_append_right (by omega)]
      have bound : fetched.ring.reqCons + waiting.length ≤ fetched.ring.prod.length := by
        have := loaded.good.behind
        unfold Ring.unconsumed at unconsumed
        omega
      have copied := copyRequests_msg (j := j - taken.length) nodup (by omega) bound
      rw [place] at copied ⊢
      rw [show start.ringSize - start.nReqsFree + taken.length + (j - taken.length) =
        start.ringSize - start.nReqsFree + j by omega, loaded.reqsFree] at copied
      rw [copied]
      simp only [← waitingEq, List.getElem_drop]

theorem work_iff {hand : List Nat} {blkif : Blkif} (good : Good hand blkif) :
    blkif.ring.work = true ↔ 0 < blkif.ring.unconsumed ∧ blkif.nReqsFree ≠ 0 := by
  have count := good.count
  have total := good.total
  have size := good.size
  simp only [Ring.work, Bool.and_eq_true, decide_eq_true_eq]
  constructor
  · rintro ⟨some, room⟩
    exact ⟨some, by omega⟩
  · rintro ⟨some, room⟩
    exact ⟨some, by omega⟩

theorem fetchRequests_full {hand : List Nat} {blkif : Blkif} (good : Good hand blkif)
    (full : blkif.nReqsFree = 0) : fetchRequests blkif = some (blkif, 0) := by
  have idle : ¬ blkif.ring.work = true := by
    rw [work_iff good]
    exact fun busy => busy.2 full
  simp only [fetchRequests, getRequests, if_neg idle, Nat.not_lt_zero, if_false]
  rfl

theorem fetchRequests_all {hand : List Nat} {blkif : Blkif} (good : Good hand blkif)
    (room : blkif.nReqsFree ≠ 0) (fits : blkif.ring.unconsumed ≤ blkif.nReqsFree) :
    fetchRequests blkif =
      some (takeMany blkif blkif.ring.unconsumed, blkif.ring.unconsumed) := by
  have all : getRequests blkif.ring blkif.nReqsFree =
      (blkif.ring.unconsumed, blkif.ring.unconsumed) := by
    unfold getRequests getRequestsOnce
    by_cases work : blkif.ring.work = true
    · rw [if_pos work, if_neg room, if_pos fits]
    · rw [if_neg work]
      rw [work_iff good] at work
      have : blkif.ring.unconsumed = 0 := by
        by_contra some
        exact work ⟨by omega, room⟩
      rw [this]
  simp only [fetchRequests, all, if_neg (Nat.not_lt.mpr fits)]
  rfl

theorem fetchRequests_overrun {hand : List Nat} {blkif : Blkif} (good : Good hand blkif)
    (room : blkif.nReqsFree ≠ 0) (excess : blkif.nReqsFree < blkif.ring.unconsumed) :
    fetchRequests blkif = none := by
  have work : blkif.ring.work = true := (work_iff good).mpr ⟨by omega, room⟩
  have counted : getRequests blkif.ring blkif.nReqsFree =
      (blkif.nReqsFree + 1, blkif.nReqsFree) := by
    unfold getRequests getRequestsOnce
    rw [if_pos work, if_neg room, if_neg (by omega)]
  simp only [fetchRequests, counted, if_pos (Nat.lt_succ_self _)]

theorem fetchLoop_spec {start fetched : Blkif} {taken waiting : List BlkifRequest}
    (arrivals : List (List BlkifRequest)) (loaded : Loaded start fetched taken)
    (fits : start.nReqsFree ≤ start.ringSize)
    (waitingEq : fetched.ring.prod.drop fetched.ring.reqCons = waiting) :
    (fetchLoop fetched arrivals = none ∧ batch fetched.nReqsFree waiting arrivals = none) ∨
    ∃ after msgs, fetchLoop fetched arrivals = some after ∧
      batch fetched.nReqsFree waiting arrivals = some msgs ∧
      Loaded start after (taken ++ msgs) := by
  have length : ∀ blkif : Blkif, (blkif.ring.prod.drop blkif.ring.reqCons).length =
    blkif.ring.unconsumed := fun blkif => List.length_drop
  induction arrivals generalizing fetched taken waiting with
  | nil =>
      have unconsumed := length fetched
      rw [waitingEq] at unconsumed
      simp only [fetchLoop, batch]
      by_cases full : fetched.nReqsFree = 0
      · rw [fetchRequests_full loaded.good full, if_pos full]
        exact .inr ⟨fetched, [], rfl, rfl, by simpa using loaded⟩
      · rw [if_neg full]
        by_cases room : waiting.length ≤ fetched.nReqsFree
        · rw [fetchRequests_all loaded.good full (unconsumed ▸ room), if_pos room, ← unconsumed]
          exact .inr ⟨_, waiting, rfl, rfl, loaded.takeMany waitingEq room fits⟩
        · rw [fetchRequests_overrun loaded.good full (by omega), if_neg room]
          exact .inl ⟨rfl, rfl⟩
  | cons msgs arrivals ih =>
      have arrived := loaded.arrive msgs
      have waitingNow : (fetched.arrive msgs).ring.prod.drop (fetched.arrive msgs).ring.reqCons =
          waiting ++ msgs := by
        simp only [Blkif.arrive]
        rw [List.drop_append_of_le_length loaded.good.behind, waitingEq]
      have unconsumed := length (fetched.arrive msgs)
      rw [waitingNow] at unconsumed
      have same : (fetched.arrive msgs).nReqsFree = fetched.nReqsFree := rfl
      simp only [fetchLoop, batch]
      by_cases full : fetched.nReqsFree = 0
      · rw [fetchRequests_full arrived.good full, if_pos full]
        exact .inr ⟨_, [], rfl, rfl, by simpa using arrived⟩
      · rw [if_neg full]
        by_cases room : (waiting ++ msgs).length ≤ fetched.nReqsFree
        · rw [fetchRequests_all arrived.good full (by rw [← unconsumed]; exact room), if_pos room,
            ← unconsumed]
          have next := arrived.takeMany waitingNow room fits
          by_cases empty : waiting ++ msgs = []
          · simp only [Option.bind_some, empty, List.length_nil, if_true]
            refine .inr ⟨_, [], rfl, rfl, ?_⟩
            rw [empty] at next
            exact next
          · have positive : (waiting ++ msgs).length ≠ 0 := by
              rw [Ne, List.length_eq_zero_iff]; exact empty
            simp only [Option.bind_some, if_neg empty, if_neg positive]
            have drained : (takeMany (fetched.arrive msgs) (waiting ++ msgs).length).ring.prod.drop
                (takeMany (fetched.arrive msgs) (waiting ++ msgs).length).ring.reqCons = [] := by
              rw [List.drop_eq_nil_iff]
              simp only [takeMany, unconsumed, Ring.unconsumed]
              omega
            rcases ih next drained with ⟨failed, none⟩ | ⟨after, rest, done, more, result⟩
            · refine .inl ⟨failed, ?_⟩
              rw [show fetched.nReqsFree - (waiting ++ msgs).length =
                (takeMany (fetched.arrive msgs) (waiting ++ msgs).length).nReqsFree from rfl, none]
              rfl
            · refine .inr ⟨after, (waiting ++ msgs) ++ rest, done, ?_, ?_⟩
              · rw [show fetched.nReqsFree - (waiting ++ msgs).length =
                  (takeMany (fetched.arrive msgs) (waiting ++ msgs).length).nReqsFree from rfl, more]
                rfl
              · rw [← List.append_assoc]
                exact result
        · rw [fetchRequests_overrun arrived.good full (by omega), if_neg room]
          exact .inl ⟨rfl, rfl⟩

structure Progress (base n m : Nat) (fetched blkif : Blkif) : Prop where
  good : Good (slotsFrom fetched.reqsFree (base + m) (n - m)) blkif
  ringSize : blkif.ringSize = fetched.ringSize
  nReqsFree : blkif.nReqsFree = fetched.nReqsFree
  reqsFree : blkif.reqsFree = fetched.reqsFree
  msg : ∀ slot, (blkif.reqs slot).msg = (fetched.reqs slot).msg

theorem queueRequests_progress {grants : Grants} {base n m : Nat} {fetched : Blkif}
    (good : Good (slotsFrom fetched.reqsFree base n) fetched) (below : m ≤ n)
    (pass : ∀ j < m, requestFails (fetched.reqs (fetched.reqsFree (base + j))).msg
      (grants.map j) = false) :
    ∃ blkif, queueRequests grants base m fetched = some blkif ∧ Progress base n m fetched blkif := by
  induction m with
  | zero => exact ⟨fetched, rfl, good, rfl, rfl, rfl, fun _ => rfl⟩
  | succ m ih =>
      obtain ⟨blkif, earlier, progress⟩ := ih (by omega) fun j bound => pass j (by omega)
      have passes := pass m (Nat.lt_succ_self m)
      rw [← progress.msg] at passes
      obtain ⟨after, action, passed⟩ := queueRequest_passed passes
      refine ⟨after, ?_, ?_⟩
      · simp only [queueRequests, earlier, Option.bind_some, progress.reqsFree]
        exact action
      · have hand : slotsFrom fetched.reqsFree (base + m) (n - m) =
            fetched.reqsFree (base + m) ::
              slotsFrom fetched.reqsFree (base + (m + 1)) (n - (m + 1)) := by
          rw [show n - m = n - (m + 1) + 1 by omega, slotsFrom_succ]
          rfl
        constructor
        · exact (hand ▸ progress.good).passed passed
        · rw [passed.ringSize, progress.ringSize]
        · rw [passed.nReqsFree, progress.nReqsFree]
        · rw [passed.reqsFree, progress.reqsFree]
        · intro slot
          by_cases same : slot = fetched.reqsFree (base + m)
          · rw [same, passed.msg, progress.msg]
          · rw [passed.reqs slot same, progress.msg]

theorem queueRequests_good {grants : Grants} {base n : Nat} {fetched : Blkif}
    (good : Good (slotsFrom fetched.reqsFree base n) fetched)
    (pass : ∀ j, j + 1 < n → requestFails (fetched.reqs (fetched.reqsFree (base + j))).msg
      (grants.map j) = false) :
    ∃ blkif, queueRequests grants base n fetched = some blkif ∧ Good [] blkif := by
  cases n with
  | zero => exact ⟨fetched, rfl, good⟩
  | succ m =>
      obtain ⟨blkif, earlier, progress⟩ := queueRequests_progress good (Nat.le_succ m)
        fun j below => pass j (by omega)
      have last : Good [fetched.reqsFree (base + m)] blkif := by
        have := progress.good
        rwa [Nat.add_sub_cancel_left, slotsFrom_succ] at this
      simp only [queueRequests, earlier, Option.bind_some, progress.reqsFree]
      cases fails : requestFails (blkif.reqs (fetched.reqsFree (base + m))).msg (grants.map m) with
      | false =>
          obtain ⟨after, action, passed⟩ := queueRequest_passed fails
          exact ⟨after, action, last.passed passed⟩
      | true =>
          have room := last.total
          simp only [List.cons_append, List.length_cons] at room
          obtain ⟨after, answer, action, completed, seq, id⟩ :=
            queueRequest_failed fails (by omega)
          exact ⟨after, action, last.completed completed seq id⟩

structure Lost (base left slot : Nat) (blkif : Blkif) : Prop where
  unqueued : slot ∉ blkif.queued
  gone : ∀ k, base ≤ k → k < blkif.ringSize → blkif.reqsFree k ≠ slot
  room : base + blkif.nReqsFree + left ≤ blkif.ringSize

theorem Lost.queueRequest {grants : Grants} {base left slot i : Nat} {blkif after : Blkif}
    (lost : Lost base (left + 1) slot blkif) (inside : base + i < blkif.ringSize)
    (action : queueRequest grants i blkif (blkif.reqsFree (base + i)) = some after) :
    Lost base left slot after := by
  have other : blkif.reqsFree (base + i) ≠ slot := lost.gone _ (by omega) inside
  have room := lost.room
  cases fails : requestFails (blkif.reqs (blkif.reqsFree (base + i))).msg (grants.map i) with
  | false =>
      obtain ⟨_, passing, passed⟩ := queueRequest_passed fails
      cases Option.some.inj (action.symm.trans passing)
      constructor
      · rw [passed.queued, List.mem_append, List.mem_singleton, not_or]
        exact ⟨lost.unqueued, other.symm⟩
      · rw [passed.ringSize, passed.reqsFree]
        exact lost.gone
      · rw [passed.nReqsFree, passed.ringSize]
        omega
  | true =>
      obtain ⟨_, _, failing, completed, _, _⟩ := queueRequest_failed fails (by omega)
      cases Option.some.inj (action.symm.trans failing)
      constructor
      · rw [completed.queued]
        exact lost.unqueued
      · intro k above below
        rw [completed.ringSize] at below
        rw [completed.reqsFree, Function.update_apply]
        split
        · exact other
        · exact lost.gone k above below
      · rw [completed.nReqsFree, completed.ringSize]
        omega

theorem queueRequests_ringSize {grants : Grants} {base n : Nat} {blkif after : Blkif}
    (action : queueRequests grants base n blkif = some after) :
    after.ringSize = blkif.ringSize := by
  induction n generalizing after with
  | zero => cases Option.some.inj action; rfl
  | succ n ih =>
      obtain ⟨mid, earlier, last⟩ := Option.bind_eq_some_iff.mp action
      rw [← ih earlier]
      cases fails : requestFails (mid.reqs (mid.reqsFree (base + n))).msg (grants.map n) with
      | false =>
          obtain ⟨_, passing, passed⟩ := queueRequest_passed fails
          cases Option.some.inj (last.symm.trans passing)
          exact passed.ringSize
      | true =>
          by_cases room : mid.nReqsFree < mid.ringSize
          · obtain ⟨_, _, failing, completed, _, _⟩ := queueRequest_failed fails room
            cases Option.some.inj (last.symm.trans failing)
            exact completed.ringSize
          · rw [queueRequest_full fails (by omega)] at last
            cases last

theorem queueRequests_lost {grants : Grants} {base n i slot : Nat} {fetched early after : Blkif}
    (below : i < n) (inside : base + n ≤ fetched.ringSize)
    (reached : queueRequests grants base (i + 1) fetched = some early)
    (lost : Lost base (n - (i + 1)) slot early)
    (action : queueRequests grants base n fetched = some after) : Lost base 0 slot after := by
  suffices keep : ∀ m, i + 1 ≤ m → m ≤ n → ∀ mid, queueRequests grants base m fetched = some mid →
      Lost base (n - m) slot mid by
    have := keep n below (Nat.le_refl n) after action
    rwa [Nat.sub_self] at this
  intro m above
  induction m, above using Nat.le_induction with
  | base =>
      intro _ mid same
      cases Option.some.inj (reached.symm.trans same)
      exact lost
  | succ m above ih =>
      intro bound mid turn
      obtain ⟨before, earlier, last⟩ := Option.bind_eq_some_iff.mp turn
      have lostBefore := ih (by omega) before earlier
      rw [show n - m = n - (m + 1) + 1 by omega] at lostBefore
      exact lostBefore.queueRequest
        (by have := queueRequests_ringSize earlier; omega) last

theorem Lost.unsound {base slot : Nat} {blkif : Blkif} (lost : Lost base 0 slot blkif)
    (valid : slot < blkif.ringSize) : ¬ Sound blkif := by
  intro sound
  have free := (sound.exclusive slot valid).mpr lost.unqueued
  obtain ⟨k, above, below, eq⟩ := mem_slotsFrom.mp free
  have := lost.room
  exact lost.gone k (by omega) (by omega) eq

theorem slotsFrom_injective {array : Nat → Nat} {base n j k : Nat}
    (nodup : (slotsFrom array base n).Nodup) (hj : base ≤ j ∧ j < base + n)
    (hk : base ≤ k ∧ k < base + n) (same : array j = array k) : j = k := by
  have inj := List.inj_on_of_nodup_map nodup (x := j - base) (y := k - base)
    (List.mem_range.mpr (by omega)) (List.mem_range.mpr (by omega))
  rw [show base + (j - base) = j by omega, show base + (k - base) = k by omega] at inj
  have := inj same
  omega

theorem queueRequests_unsound {grants : Grants} {base n i : Nat} {fetched : Blkif}
    (good : Good (slotsFrom fetched.reqsFree base n) fetched)
    (place : base + n = fetched.ringSize - fetched.nReqsFree) (early : i + 1 < n)
    (fails : requestFails (fetched.reqs (fetched.reqsFree (base + i))).msg (grants.map i) = true)
    (pass : ∀ j < i, requestFails (fetched.reqs (fetched.reqsFree (base + j))).msg
      (grants.map j) = false) (after : Blkif)
    (action : queueRequests grants base n fetched = some after) : ¬ Sound after := by
  have total := good.total
  rw [List.length_append, slotsFrom_length] at total
  have nodupAll : (slotsFrom fetched.reqsFree base (n + fetched.nReqsFree)).Nodup := by
    have nodup := (List.perm_append_comm.append_right fetched.queued).nodup_iff.mp
      (List.append_assoc _ _ _ ▸ good.nodup)
    have joined : slotsFrom fetched.reqsFree base n ++ freeSlots fetched =
        slotsFrom fetched.reqsFree base (n + fetched.nReqsFree) := by
      simp only [freeSlots, slotsFrom, List.range_add, List.map_append, List.map_map, ← place]
      congr 1
      apply List.map_congr_left
      intro j _
      simp only [Function.comp_apply, Nat.add_assoc]
    exact joined ▸ (List.nodup_append.mp nodup).1
  obtain ⟨blkif, earlier, progress⟩ := queueRequests_progress good (by omega : i ≤ n) pass
  have failsNow := fails
  rw [← progress.msg] at failsNow
  have sizes := progress.ringSize
  have frees := progress.nReqsFree
  obtain ⟨next, answer, turn, completed, _, _⟩ :=
    @queueRequest_failed grants i _ _ failsNow (by omega)
  have reached : queueRequests grants base (i + 1) fetched = some next := by
    simp only [queueRequests, earlier, Option.bind_some, progress.reqsFree]
    exact turn
  have lost : Lost base (n - (i + 1)) (fetched.reqsFree (base + (n - 1))) next := by
    constructor
    · rw [completed.queued]
      have nodup := (List.nodup_append.mp progress.good.nodup).2.1
      have member : fetched.reqsFree (base + (n - 1)) ∈
          slotsFrom fetched.reqsFree (base + i) (n - i) :=
        mem_slotsFrom.mpr ⟨_, by omega, by omega, rfl⟩
      intro queued
      exact (List.nodup_append.mp nodup).2.2 _ member _ queued rfl
    · intro k above below equal
      rw [completed.ringSize] at below
      rw [completed.reqsFree, Function.update_apply] at equal
      split at equal
      · have := slotsFrom_injective nodupAll (by omega) (by omega) equal
        omega
      · rename_i different
        rw [progress.reqsFree] at equal
        have := slotsFrom_injective nodupAll (by omega) (by omega) equal
        omega
    · rw [completed.nReqsFree, completed.ringSize]
      omega
  have lostAfter := queueRequests_lost (by omega) (by omega) reached lost action
  refine lostAfter.unsound ?_
  have member : fetched.reqsFree (base + (n - 1)) ∈ slotsFrom fetched.reqsFree base n :=
    mem_slotsFrom.mpr ⟨_, by omega, by omega, rfl⟩
  have valid := List.mem_range.mp (good.slots.mem_iff.mp
    (List.mem_append_right _ (List.mem_append_left _ member)))
  rwa [queueRequests_ringSize action]

theorem Good.counted {hand : List Nat} {blkif : Blkif} (good : Good hand blkif) (stats : Stats) :
    Good hand { blkif with stats := stats } :=
  ⟨good.size, good.slots, good.count, good.behind, good.answered, good.held, good.named,
    good.echoed⟩

theorem ringEvent_spec {grants : Grants} {arrivals : List (List BlkifRequest)} {blkif : Blkif}
    (good : Good [] blkif) :
    (BatchOk grants arrivals blkif →
      ∃ after, ringEvent grants arrivals blkif = some after ∧ Good [] after) ∧
    (¬ BatchOk grants arrivals blkif →
      ∀ after, ringEvent grants arrivals blkif = some after → ¬ Sound after) := by
  have fits : blkif.nReqsFree ≤ blkif.ringSize := by have := good.total; omega
  have loaded : Loaded blkif
      { blkif with stats := { blkif.stats with kicksIn := blkif.stats.kicksIn + 1 } } [] :=
    ⟨good.counted _, rfl, rfl, rfl, fun _ below => absurd below (Nat.not_lt_zero _)⟩
  rcases fetchLoop_spec arrivals loaded fits rfl with
    ⟨stuck, none⟩ | ⟨fetched, msgs, taken, batchEq, loaded⟩
  · constructor
    · rintro ⟨msgs, some, _⟩
      cases none.symm.trans some
    · intro _ after action
      simp only [ringEvent, stuck] at action
      cases action
  · have size : batchSize blkif fetched = msgs.length := by
      have := loaded.free
      rw [List.nil_append] at this
      unfold batchSize
      omega
    rw [List.nil_append] at loaded
    set base := blkif.ringSize - blkif.nReqsFree with baseEq
    set counted : Blkif :=
      { fetched with stats := { fetched.stats with
          reqsIn := fetched.stats.reqsIn + msgs.length } } with countedEq
    have goodFetched : Good (slotsFrom counted.reqsFree base msgs.length) counted := by
      have := loaded.good.counted counted.stats
      rwa [← loaded.reqsFree] at this
    have message : ∀ j (below : j < msgs.length),
        (counted.reqs (counted.reqsFree (base + j))).msg = msgs[j] := by
      intro j below
      rw [← loaded.msg j below]
      exact congrArg (fun array : Nat → Nat => (fetched.reqs (array (base + j))).msg) loaded.reqsFree
    have event : ringEvent grants arrivals blkif =
        if msgs.length = 0 then some fetched
        else queueRequests grants base msgs.length counted := by
      simp only [ringEvent, taken, Option.bind_some, size]
      rfl
    have okIff : BatchOk grants arrivals blkif ↔
        ∀ i (below : i + 1 < msgs.length), requestFails msgs[i] (grants.map i) = false := by
      constructor
      · rintro ⟨others, same, pass⟩
        cases Option.some.inj (batchEq.symm.trans same)
        exact pass
      · exact fun pass => ⟨msgs, batchEq, pass⟩
    rw [okIff, event]
    constructor
    · intro pass
      by_cases empty : msgs.length = 0
      · rw [if_pos empty]
        refine ⟨fetched, rfl, ?_⟩
        have := loaded.good
        rwa [empty] at this
      · rw [if_neg empty]
        refine queueRequests_good goodFetched fun j below => ?_
        rw [message j (by omega)]
        exact pass j below
    · intro broken after action
      have some : msgs.length ≠ 0 := by
        intro empty
        exact broken fun i below => absurd below (by omega)
      rw [if_neg some] at action
      have failing : ∃ i, ∃ below : i + 1 < msgs.length,
          requestFails msgs[i] (grants.map i) = true := by
        by_contra none
        refine broken fun i below => ?_
        by_contra fails
        exact none ⟨i, below, by simpa using fails⟩
      classical
      obtain ⟨below, fails⟩ := Nat.find_spec failing
      refine queueRequests_unsound goodFetched ?_ below ?_ ?_ after action
      · have free := loaded.free
        have size := loaded.ringSize
        change base + msgs.length = fetched.ringSize - fetched.nReqsFree
        omega
      · rw [message _ (by omega)]
        exact fails
      · intro j before
        rw [message j (by omega)]
        by_contra failsEarlier
        exact Nat.find_min failing before ⟨by omega, by simpa using failsEarlier⟩

theorem complete_good {blkif : Blkif} {slot : Nat} (error final unmapped : Bool)
    (good : Good [] blkif) (queued : slot ∈ blkif.queued) :
    ∃ after, step blkif (.complete slot error final unmapped) = some after ∧ Good [] after := by
  have swap := List.perm_cons_erase queued
  have hand : Good [slot] { blkif with queued := blkif.queued.erase slot } := by
    constructor
    · exact good.size
    · exact (List.Perm.append_left _ swap.symm).trans good.slots
    · exact good.count.trans (congrArg (blkif.ring.rsps.length + ·) swap.length_eq)
    · exact good.behind
    · intro seq
      have moved := swap.countP_eq fun slot => decide ((blkif.reqs slot).seq = seq)
      exact (congrArg (responses blkif seq + ·) moved.symm).trans (good.answered seq)
    · exact fun other member => good.held other (swap.mem_iff.mpr member)
    · exact fun other member => good.named other (List.mem_of_mem_erase member)
    · exact good.echoed
  have room := hand.total
  simp only [List.cons_append, List.length_cons] at room
  obtain ⟨after, answer, action, completed, seq, id⟩ :=
    @completeRequest_completed unmapped error final
      { blkif with queued := blkif.queued.erase slot } slot (by simp only; omega)
  have kept := hand.completed completed seq (id.trans (good.named slot queued))
  have event : step blkif (.complete slot error final unmapped) =
      some { after with stats := { after.stats with
        errorsImg := after.stats.errorsImg + if error then 1 else 0 } } := by
    simp only [step, if_pos queued, requestCb, action, Option.map_some]
  exact ⟨_, event, kept.counted _⟩

theorem reqsInit_good (size : Nat) (prod : List BlkifRequest) (memory : Nat → TapReq)
    (array : Nat → Nat) :
    ∃ blkif, reqsInit ⟨size, prod, 0, [], 0⟩ memory array = some blkif ∧ Good [] blkif := by
  have filled : ∀ n ≤ size, ∃ blkif : Blkif,
      (List.range n).foldlM freeRequest
        { ringSize := size, reqs := memory, nReqsFree := 0, reqsFree := array
          ring := ⟨size, prod, 0, [], 0⟩, stats := {}, queued := [] } = some blkif ∧
      blkif.ring = ⟨size, prod, 0, [], 0⟩ ∧ blkif.queued = [] ∧ blkif.ringSize = size ∧
      blkif.nReqsFree = n ∧ (freeSlots blkif).Perm (List.range n) := by
    intro n
    induction n with
    | zero => exact fun _ => ⟨_, rfl, rfl, rfl, rfl, rfl, List.Perm.refl _⟩
    | succ n ih =>
        intro bound
        obtain ⟨blkif, earlier, ring, queued, ringSize, free, slots⟩ := ih (by omega)
        refine ⟨{ blkif with
            nReqsFree := blkif.nReqsFree + 1
            reqsFree := Function.update blkif.reqsFree
              (blkif.ringSize - (blkif.nReqsFree + 1)) n },
          ?_, ring, queued, ringSize, congrArg (· + 1) free, ?_⟩
        · rw [List.range_succ, List.foldlM_append, earlier]
          simp only [List.foldlM_cons, List.foldlM_nil, Option.bind_eq_bind, Option.bind_some]
          rw [freeRequest_eq (by omega)]
          rfl
        · have split : freeSlots { blkif with
              nReqsFree := blkif.nReqsFree + 1
              reqsFree := Function.update blkif.reqsFree
                (blkif.ringSize - (blkif.nReqsFree + 1)) n } = n :: freeSlots blkif := by
            simp only [freeSlots, slotsFrom_succ, Function.update_self]
            rw [show blkif.ringSize - (blkif.nReqsFree + 1) + 1 =
              blkif.ringSize - blkif.nReqsFree by omega]
            congr 1
            apply slotsFrom_congr
            intro k above _
            exact Function.update_of_ne (by omega) _ _
          rw [split, List.range_succ]
          exact (List.Perm.cons n slots).trans (@List.perm_append_comm _ [n] _)
  obtain ⟨blkif, action, ring, queued, ringSize, free, slots⟩ := filled size (Nat.le_refl size)
  refine ⟨blkif, action, ?_⟩
  constructor
  · rw [ring, ringSize]
  · rw [queued, ringSize]
    simpa using slots
  · simp [ring, queued]
  · simp [ring]
  · intro seq
    simp [responses, holding, ring, queued]
  · simp [queued]
  · simp [queued]
  · simp [ring]

theorem step_good {blkif after : Blkif} {event : Event} (good : Good [] blkif)
    (ok : EventOk blkif event) (action : step blkif event = some after) : Good [] after := by
  cases event with
  | ringEvent grants arrivals =>
      obtain ⟨result, done, kept⟩ := (ringEvent_spec good).1 ok
      cases Option.some.inj (action.symm.trans done)
      exact kept
  | complete slot error final unmapped =>
      obtain ⟨result, done, kept⟩ := complete_good error final unmapped good ok
      cases Option.some.inj (action.symm.trans done)
      exact kept

/-- In a run whose batches are all handled well the slots stay sound, and from there the next event
keeps them so exactly when it is handled well too. -/
theorem slots_sound_iff {start blkif : Blkif} (connected : Connected start)
    (run : Run step EventOk start blkif) :
    Sound blkif ∧
    ∀ event, (∃ after, step blkif event = some after ∧ Sound after) ↔ EventOk blkif event := by
  have good : Good [] blkif := by
    obtain ⟨size, prod, memory, array, init⟩ := connected
    obtain ⟨first, same, goodStart⟩ := reqsInit_good size prod memory array
    cases Option.some.inj (init.symm.trans same)
    exact run.invariant (I := Good []) (fun _ _ _ good ok action => step_good good ok action)
      goodStart
  refine ⟨good.sound, fun event => ⟨?_, fun ok => ?_⟩⟩
  · rintro ⟨after, action, sound⟩
    cases event with
    | ringEvent grants arrivals =>
        by_contra broken
        exact (ringEvent_spec good).2 broken after action sound
    | complete slot error final unmapped =>
        by_contra unheld
        simp only [EventOk] at unheld
        simp only [step, if_neg unheld] at action
        cases action
  · cases event with
    | ringEvent grants arrivals =>
        obtain ⟨after, done, kept⟩ := (ringEvent_spec good).1 ok
        exact ⟨after, done, kept.sound⟩
    | complete slot error final unmapped =>
        obtain ⟨after, done, kept⟩ := complete_good error final unmapped good ok
        exact ⟨after, done, kept.sound⟩

def blankSegment : Segment := ⟨0, 0, 0⟩

def readRequest (id : Nat) : BlkifRequest := ⟨blkifOpRead, 1, id, 0, fun _ => blankSegment⟩

def badRequest (id : Nat) : BlkifRequest := ⟨blkifOpRead, 12, id, 0, fun _ => blankSegment⟩

def blankTapReq : TapReq :=
  ⟨⟨.read, 0, 0⟩, ⟨0, 0, 0, 0, fun _ => blankSegment, 0, none, []⟩, fun _ => ⟨0, 0⟩,
    ⟨0, 0, 0, 0, fun _ => blankSegment⟩, 0⟩

def smallBlkif (prod : List BlkifRequest) : Option Blkif :=
  reqsInit ⟨2, prod, 0, [], 0⟩ (fun _ => blankTapReq) fun _ => 0

def grantAll : Grants := ⟨fun i => some (i * 65536), fun _ => true⟩

theorem slots_sound_connected :
    ∃ blkif, smallBlkif [readRequest 7] = some blkif ∧ Sound blkif ∧
      ∀ event, (∃ after, step blkif event = some after ∧ Sound after) ↔ EventOk blkif event := by
  obtain ⟨blkif, init, _⟩ := reqsInit_good 2 [readRequest 7] (fun _ => blankTapReq)
    fun _ => 0
  exact ⟨blkif, init, slots_sound_iff ⟨_, _, _, _, init⟩ (.refl blkif)⟩

theorem slots_lost_after_malformed :
    ∃ start after, Connected start ∧ smallBlkif [badRequest 7, readRequest 8] = some start ∧
      step start (.ringEvent grantAll [[]]) = some after ∧
      after.ring.rsps.map Response.id = [7, 7] ∧ ¬ Sound after := by
  have outcome : ((smallBlkif [badRequest 7, readRequest 8]).bind fun start =>
      (step start (.ringEvent grantAll [[]])).map fun after =>
        (after.ring.rsps.map Response.id, freeSlots after)) = some ([7, 7], [1, 1]) := by
    decide +kernel
  obtain ⟨start, init, rest⟩ := Option.bind_eq_some_iff.mp outcome
  obtain ⟨after, action, results⟩ := Option.map_eq_some_iff.mp rest
  obtain ⟨ids, free⟩ := Prod.mk.inj results
  refine ⟨start, after, ⟨_, _, _, _, init⟩, init, action, ids, fun sound => ?_⟩
  have once := sound.freeOnce
  rw [free] at once
  exact absurd once (by decide)

end Blktap.Xenblkif
