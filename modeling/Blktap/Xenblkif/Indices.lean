import Blktap.Xenblkif.Xenio
import Mathlib.Data.Nat.Cast.Defs

/-!
# The indices of the ring (`xenio-blkif.c`)

Producer and consumer index are numbers of 32 bits that wrap. The producer index is the guest's, who may set it to
anything between two looks at it. What the macros of the ring find, and the request that an index stands for, are
parameters.
-/

namespace Blktap.Xenblkif.Indices

abbrev RingIdx := BitVec 32

structure Look where
  work : Bool
  reqProd : RingIdx

structure Fetch where
  n : Nat
  reqCons : RingIdx
  reqs : Nat → Option BlkifRequest

variable (request : RingIdx → BlkifRequest)

/-- The loop of `__xenio_blkif_get_requests`, at `rc`, with `reqs` from `base` on. The counter is incremented before
the loop is left. -/
def copyRequests (rp : RingIdx) (base count n : Nat) (rc : RingIdx) (reqs : Nat → Option BlkifRequest) : Fetch :=
  if rc = rp then ⟨n, rc, reqs⟩
  else if count ≤ n then ⟨n + 1, rc, reqs⟩
  else copyRequests rp base count (n + 1) (rc + 1) (Function.update reqs (base + n) (some (request rc)))
termination_by count - n

def getRequestsOnce (count : Nat) (rp : RingIdx) (s : Fetch) : Fetch :=
  if count = 0 then s
  else
    let taken := copyRequests request rp s.n count 0 s.reqCons s.reqs
    { taken with n := s.n + taken.n }

def getRequests (count : Int) : List Look → Fetch → Option Fetch
  | [], _ => none
  | look :: looks, s =>
      if !look.work then some s
      else if count ≤ s.n then some s
      else getRequests count looks (getRequestsOnce request (count - s.n).toNat look.reqProd s)

structure Right (count : Int) (s t : Fetch) : Prop where
  bounded : t.n ≤ count
  advanced : t.reqCons = s.reqCons + BitVec.ofNat 32 t.n
  stored : ∀ i < t.n, t.reqs i = some (request (s.reqCons + BitVec.ofNat 32 i))
  kept : ∀ i, t.n ≤ i → t.reqs i = s.reqs i

def ahead (rp rc : RingIdx) : Nat := (rp - rc).toNat

def Fits (count : Int) : List Look → Nat → RingIdx → Prop
  | [], _, _ => True
  | look :: looks, n, rc => look.work = true → n < count →
      n + ahead look.reqProd rc ≤ count ∧ Fits count looks (n + ahead look.reqProd rc) look.reqProd

section Copy
variable {request} {rp rc : RingIdx} {base count n : Nat} {reqs : Nat → Option BlkifRequest}

theorem ahead_self : ahead rp rp = 0 := by
  simp [ahead]

theorem ahead_pos (ne : rc ≠ rp) : ahead rp rc = ahead rp (rc + 1) + 1 := by
  unfold ahead
  bv_omega

theorem add_ahead : rc + BitVec.ofNat 32 (ahead rp rc) = rp := by
  unfold ahead
  bv_omega

def stored (request : RingIdx → BlkifRequest) (base k : Nat) (rc : RingIdx) (reqs : Nat → Option BlkifRequest) :
    Nat → Option BlkifRequest :=
  fun i => if base ≤ i ∧ i < base + k then some (request (rc + BitVec.ofNat 32 (i - base))) else reqs i

theorem stored_zero : stored request base 0 rc reqs = reqs := by
  funext i
  exact if_neg (by omega)

theorem stored_succ (k : Nat) : stored request (base + 1) k (rc + 1) (Function.update reqs base (some (request rc))) =
    stored request base (k + 1) rc reqs := by
  funext i
  simp only [stored]
  by_cases first : i = base
  · subst first
    rw [if_neg (by omega), if_pos (by omega), Function.update_self, Nat.sub_self]
    simp
  · rw [Function.update_of_ne first]
    by_cases inside : base + 1 ≤ i ∧ i < base + 1 + k
    · have place : i - base = i - (base + 1) + 1 := by omega
      rw [if_pos inside, if_pos (by omega), place]
      congr 2
      rw [BitVec.ofNat_add]
      bv_omega
    · rw [if_neg inside, if_neg (by omega)]

theorem stored_add (k m : Nat) : stored request (base + k) m (rc + BitVec.ofNat 32 k) (stored request base k rc reqs) =
    stored request base (k + m) rc reqs := by
  induction k generalizing base rc reqs with
  | zero => simp [stored_zero]
  | succ k ih =>
      have next := @ih (rc + 1) (base + 1) (Function.update reqs base (some (request rc)))
      rw [stored_succ, stored_succ] at next
      have place : rc + 1 + BitVec.ofNat 32 k = rc + BitVec.ofNat 32 (k + 1) := by
        rw [BitVec.ofNat_add]
        bv_omega
      rw [place, Nat.add_right_comm base 1 k, Nat.add_assoc base k 1] at next
      rw [next, Nat.add_right_comm k m 1]

theorem copyRequests_all (room : n + ahead rp rc ≤ count) : copyRequests request rp base count n rc reqs =
    ⟨n + ahead rp rc, rp, stored request (base + n) (ahead rp rc) rc reqs⟩ := by
  fun_induction copyRequests with
  | case1 n reqs => rw [ahead_self, stored_zero, Nat.add_zero]
  | case2 n rc reqs ne full =>
      have more := ahead_pos ne
      omega
  | case3 n rc reqs ne more ih =>
      have next := ahead_pos ne
      rw [ih (by omega), next, ← stored_succ, Nat.add_assoc n 1, Nat.add_comm 1, Nat.add_assoc base]

theorem copyRequests_full (start : n ≤ count) (full : count < n + ahead rp rc) :
    copyRequests request rp base count n rc reqs =
      ⟨count + 1, rc + BitVec.ofNat 32 (count - n), stored request (base + n) (count - n) rc reqs⟩ := by
  fun_induction copyRequests with
  | case1 n reqs =>
      rw [ahead_self] at full
      omega
  | case2 n rc reqs ne beyond =>
      have last : n = count := by omega
      subst last
      rw [Nat.sub_self, stored_zero]
      simp
  | case3 n rc reqs ne more ih =>
      have next := ahead_pos ne
      have place : count - n = count - (n + 1) + 1 := by omega
      rw [ih (by omega) (by omega), place, ← stored_succ, BitVec.ofNat_add, Nat.add_assoc base]
      congr 1
      bv_omega

end Copy

section Runs
variable {request} {count : Int} {look : Look} {looks : List Look} {s t : Fetch} {start : RingIdx}
  {reqs : Nat → Option BlkifRequest} {k : Nat}

def taken (request : RingIdx → BlkifRequest) (start : RingIdx) (reqs : Nat → Option BlkifRequest) (n : Nat) : Fetch :=
  ⟨n, start + BitVec.ofNat 32 n, stored request 0 n start reqs⟩

theorem getRequestsOnce_fits {n : Nat} (some : 0 < k)
    (fits : ahead look.reqProd (start + BitVec.ofNat 32 n) ≤ k) :
    getRequestsOnce request k look.reqProd (taken request start reqs n) =
      taken request start reqs (n + ahead look.reqProd (start + BitVec.ofNat 32 n)) := by
  have all := @copyRequests_all request look.reqProd (start + BitVec.ofNat 32 n) n k 0 (stored request 0 n start reqs)
    (by omega)
  have added := @stored_add request start 0 reqs n (ahead look.reqProd (start + BitVec.ofNat 32 n))
  unfold getRequestsOnce
  rw [if_neg (by omega)]
  dsimp only [taken]
  rw [all]
  rw [Nat.zero_add] at added
  simp only [Nat.zero_add, Nat.add_zero, added, BitVec.ofNat_add, ← BitVec.add_assoc, add_ahead]

theorem getRequestsOnce_over {n : Nat} (some : 0 < k)
    (beyond : k < ahead look.reqProd (start + BitVec.ofNat 32 n)) :
    getRequestsOnce request k look.reqProd (taken request start reqs n) =
      { taken request start reqs (n + k) with n := n + k + 1 } := by
  have full := @copyRequests_full request look.reqProd (start + BitVec.ofNat 32 n) n k 0 (stored request 0 n start reqs)
    (Nat.zero_le k) (by omega)
  have added := @stored_add request start 0 reqs n k
  unfold getRequestsOnce
  rw [if_neg (by omega)]
  dsimp only [taken]
  rw [full]
  rw [Nat.zero_add] at added
  simp only [Nat.add_zero, Nat.sub_zero, added, BitVec.ofNat_add, ← BitVec.add_assoc, Nat.add_assoc]

theorem taken_right {n : Nat} (bounded : n ≤ count) : Right request count ⟨0, start, reqs⟩ (taken request start reqs n) := by
  refine ⟨bounded, rfl, fun i small => ?_, fun i large => ?_⟩
  · have small : i < n := small
    simp only [taken, stored]
    rw [if_pos (by omega), Nat.sub_zero]
  · have large : n ≤ i := large
    exact if_neg (by omega)

theorem getRequests_full (full : count ≤ s.n) (returned : getRequests request count looks s = some t) : t = s := by
  cases looks with
  | nil => cases returned
  | cons look looks =>
      unfold getRequests at returned
      rw [if_pos full, ite_self] at returned
      exact (Option.some.inj returned).symm

theorem getRequests_right_iff {n : Nat} (room : n ≤ count) (returned : getRequests request count looks
    (taken request start reqs n) = some t) :
    Right request count ⟨0, start, reqs⟩ t ↔ Fits count looks n (start + BitVec.ofNat 32 n) := by
  induction looks generalizing n with
  | nil => cases returned
  | cons look looks ih =>
      unfold getRequests at returned
      unfold Fits
      by_cases work : look.work = true
      · rw [work] at returned ⊢
        simp only [Bool.not_true, Bool.false_eq_true, if_false] at returned
        by_cases full : count ≤ n
        · rw [if_pos (show count ≤ (taken request start reqs n).n from full)] at returned
          cases returned
          exact iff_of_true (taken_right room) fun _ more => absurd more (by omega)
        · rw [if_neg (show ¬ count ≤ (taken request start reqs n).n from full)] at returned
          change getRequests request count looks (getRequestsOnce request (count - n).toNat look.reqProd _) = _ at returned
          by_cases fits : ahead look.reqProd (start + BitVec.ofNat 32 n) ≤ (count - n).toNat
          · rw [getRequestsOnce_fits (by omega) fits] at returned
            rw [ih (by omega) returned, BitVec.ofNat_add, ← BitVec.add_assoc, add_ahead]
            exact ⟨fun rest _ _ => ⟨by omega, rest⟩, fun meets => (meets rfl (by omega)).2⟩
          · rw [getRequestsOnce_over (by omega) (by omega)] at returned
            have last := getRequests_full (by dsimp only; omega) returned
            have bounded : ¬ t.n ≤ count := by
              rw [last]
              dsimp only
              omega
            exact iff_of_false (fun right => bounded right.bounded) fun meets => fits (by
              have room := (meets rfl (by omega)).1
              omega)
      · rw [Bool.eq_false_iff.mpr work] at returned
        cases returned
        exact iff_of_true (taken_right room) fun found => absurd found work

theorem getRequests_inside {n : Nat} (room : n ≤ count) (returned : getRequests request count looks
    (taken request start reqs n) = some t) : ∀ i : Nat, count ≤ i → t.reqs i = reqs i := by
  induction looks generalizing n with
  | nil => cases returned
  | cons look looks ih =>
      have outside (m : Nat) (fits : m ≤ count) : ∀ i : Nat, count ≤ i → (taken request start reqs m).reqs i = reqs i :=
        fun i large => if_neg (by omega)
      unfold getRequests at returned
      split at returned
      · cases returned
        exact outside n room
      · split at returned
        · cases returned
          exact outside n room
        · rename_i more
          have more : ¬ count ≤ n := more
          change getRequests request count looks (getRequestsOnce request (count - n).toNat look.reqProd _) = _ at returned
          by_cases fits : ahead look.reqProd (start + BitVec.ofNat 32 n) ≤ (count - n).toNat
          · rw [getRequestsOnce_fits (by omega) fits] at returned
            exact ih (by omega) returned
          · rw [getRequestsOnce_over (by omega) (by omega)] at returned
            rw [getRequests_full (by dsimp only; omega) returned]
            exact outside _ (by omega)

theorem taken_zero : taken request start reqs 0 = ⟨0, start, reqs⟩ := by
  simp [taken, stored_zero]

theorem getRequests_returns {again : Look} (quiet : (getRequestsOnce request count.toNat look.reqProd
    ⟨0, start, reqs⟩).reqCons = look.reqProd → again.work = false) :
    ∃ t, getRequests request count [look, again] ⟨0, start, reqs⟩ = some t := by
  unfold getRequests
  split
  · exact ⟨_, rfl⟩
  · split
    · exact ⟨_, rfl⟩
    · rename_i more
      have more : ¬ count ≤ 0 := more
      change ∃ t, getRequests request count [again] (getRequestsOnce request (count - 0).toNat look.reqProd _) = some t
      rw [Int.sub_zero]
      rw [← @taken_zero request] at quiet ⊢
      by_cases fits : ahead look.reqProd (start + BitVec.ofNat 32 0) ≤ count.toNat
      · have reached := @getRequestsOnce_fits request look start reqs _ 0 (by omega) fits
        rw [reached] at quiet ⊢
        have quiet := quiet (by
          simp only [taken, Nat.zero_add]
          rw [show start + BitVec.ofNat 32 0 = start by simp, add_ahead])
        unfold getRequests
        rw [quiet]
        exact ⟨_, rfl⟩
      · rw [getRequestsOnce_over (by omega) (by omega)]
        unfold getRequests
        rw [if_pos (show count ≤ ((0 + count.toNat + 1 : Nat) : Int) by omega), ite_self]
        exact ⟨_, rfl⟩

/-- Whatever the guest does to its index, a call is right if and only if no look finds more requests than there is
room for. It writes inside of its array in any case, and it returns when the index does not move. -/
theorem fetch_right_iff (request : RingIdx → BlkifRequest) (count : Int) (start : RingIdx)
    (reqs : Nat → Option BlkifRequest) :
    (∀ looks t, getRequests request count looks ⟨0, start, reqs⟩ = some t →
      (Right request count ⟨0, start, reqs⟩ t ↔ 0 ≤ count ∧ Fits count looks 0 start) ∧
      ∀ i : Nat, count ≤ i → t.reqs i = reqs i) ∧
    ∀ look again, ((getRequestsOnce request count.toNat look.reqProd ⟨0, start, reqs⟩).reqCons = look.reqProd →
      again.work = false) → ∃ t, getRequests request count [look, again] ⟨0, start, reqs⟩ = some t := by
  refine ⟨fun looks t returned => ?_, fun look again quiet => getRequests_returns quiet⟩
  by_cases room : 0 ≤ count
  · rw [← @taken_zero request] at returned
    have right := getRequests_right_iff room returned
    rw [show start + BitVec.ofNat 32 0 = start by simp] at right
    exact ⟨right.trans (and_iff_right room).symm, getRequests_inside room returned⟩
  · have same := getRequests_full (show count ≤ ((⟨0, start, reqs⟩ : Fetch).n : Int) by dsimp only; omega) returned
    rw [same]
    exact ⟨iff_of_false (fun right => room right.bounded) fun both => room both.1, fun _ _ => rfl⟩

end Runs

def numbered (idx : RingIdx) : BlkifRequest := ⟨blkifOpRead, 0, idx.toNat, 0, fun _ => ⟨0, 0, 0⟩⟩

theorem fetch_counts_one_more : ∃ t, getRequests numbered 1 [⟨true, 2⟩, ⟨true, 2⟩] ⟨0, 0, fun _ => none⟩ = some t ∧
    ¬ Right numbered 1 ⟨0, 0, fun _ => none⟩ t ∧ t.n = 2 ∧ t.reqCons = 1 := by
  refine ⟨⟨2, 1, Function.update (fun _ => none) 0 (some (numbered 0))⟩, ?_, fun right => ?_, rfl, rfl⟩
  · simp [getRequests, getRequestsOnce, copyRequests]
  · exact absurd right.bounded (by decide)

end Blktap.Xenblkif.Indices
