import Mathlib.Algebra.Order.Ring.Nat
import Mathlib.Data.List.FinRange
import Blktap.Lib.Run

/-!
# Streaming an image (`tapdisk-stream.c`)

Sixteen requests read an image ahead. A request is free, or pending in the block device, or completed and waiting for
its turn to be written. The device takes every request that is queued and calls back later, for several requests at
once: only the last of these calls is final.
-/

namespace Blktap.Tapdisk.Stream
open Lib

def einval : Int := 22
def eio : Int := 5

def maxReqs : Nat := 16

def reqSecs : Nat := 4096 * 32 / 512

abbrev Slot := Fin maxReqs

structure StreamReq where
  sec : Nat
  secs : Nat

/-- `struct tapdisk_stream`, with the array of free requests from its last one on, the sectors that were written, and
whether the image has been closed -/
structure TdStream where
  err : Int
  secIn : Nat
  secOut : Nat
  count : Nat
  pending : List Slot
  completed : List Slot
  reqs : Slot → StreamReq
  free : List Slot
  out : List Nat
  closed : Bool

/-- `tapdisk_stream_set_position` on an image of `size` sectors. All numbers have 64 bits. -/
def TdStream.setPosition (s : TdStream) (size count skip : Nat) : Except Int TdStream :=
  let count := if count = 2 ^ 64 - 1 then (size + 2 ^ 64 - skip) % 2 ^ 64 else count
  if (count + skip) % 2 ^ 64 > size then .error (-einval)
  else .ok { s with secIn := skip, secOut := skip, count := count }

def TdStream.createReqs (s : TdStream) : TdStream := { s with free := (List.finRange maxReqs).reverse }

def tapdiskStreamOpen (size count skip : Nat) : Except Int TdStream :=
  (TdStream.setPosition ⟨0, 0, 0, 0, [], [], fun _ => ⟨0, 0⟩, [], [], false⟩ size count skip).map TdStream.createReqs

/-- `TAILQ_INSERT_AFTER`, which uses the entry before; at the end of a `TAILQ_FOREACH` that is a null pointer. -/
def insertAfter (queue : List Slot) (itr : Option Slot) (req : Slot) : Option (List Slot) :=
  itr.map fun itr => queue.flatMap fun i => if i = itr then [i, req] else [i]

namespace TdStream
variable (s : TdStream)

def stop : Bool := s.pending.isEmpty && (s.count == 0 || s.err != 0)

def freeReq (req : Slot) : Option TdStream :=
  if maxReqs ≤ s.free.length then none else some { s with free := req :: s.free }

def printRequest (req : Slot) : TdStream :=
  { s with
    out := s.out ++ List.range' (s.reqs req).sec (s.reqs req).secs
    secOut := (s.secOut + (s.reqs req).secs) % 2 ^ 64 }

def writeFrom : List Slot → TdStream → Option TdStream
  | [], s => some s
  | req :: rest, s =>
      if (s.reqs req).sec ≠ s.secOut then some s
      else
        let printed := { s.printRequest req with completed := s.completed.erase req }
        (printed.freeReq req).bind (writeFrom rest)

def writeData : Option TdStream := writeFrom s.completed s

def queueCompleted (req : Slot) : Option TdStream :=
  (insertAfter s.completed (s.completed.find? fun itr => (s.reqs req).sec < (s.reqs itr).sec) req).map fun completed =>
    { s with completed }

def queueRequest (req : Slot) : TdStream :=
  let secs := min reqSecs s.count
  { s with
    reqs := Function.update s.reqs req ⟨s.secIn, secs⟩
    count := s.count - secs
    secIn := (s.secIn + secs) % 2 ^ 64
    pending := s.pending ++ [req] }

def queueFrom : List Slot → TdStream → TdStream
  | [], s => s
  | req :: rest, s =>
      if s.count ≠ 0 ∧ s.err = 0 then queueFrom rest (({ s with free := rest } : TdStream).queueRequest req) else s

def queueRequests : TdStream := queueFrom s.free s

def finish : Option TdStream :=
  s.writeData.map fun s => if s.stop then { s with closed := true } else s.queueRequests

def completeRequest (req : Slot) (error : Int) (final : Bool) : Option TdStream :=
  let removed := { s with pending := s.pending.erase req }
  let moved := if error = 0 then removed.queueCompleted req else ({ removed with err := eio } : TdStream).freeReq req
  if final then moved.bind finish else moved

end TdStream

structure Kick where
  others : List (Slot × Int)
  last : Slot × Int

def Kick.all (k : Kick) : List (Slot × Int) := k.others ++ [k.last]

def completeAll : List (Slot × Int) → TdStream → Option TdStream
  | [], s => some s
  | c :: rest, s => (s.completeRequest c.1 c.2 false).bind (completeAll rest)

/-- The state after the callbacks; `none` where a null pointer is used or the array of free requests is full -/
def step (s : TdStream) (k : Kick) : Option TdStream :=
  (completeAll k.others s).bind fun s => s.completeRequest k.last.1 k.last.2 true

structure Enabled (s : TdStream) (k : Kick) : Prop where
  closed : s.closed = false
  once : (k.all.map Prod.fst).Nodup
  pending : ∀ c ∈ k.all, c.1 ∈ s.pending

/-- Each request is in one place, what was written begins the range, and the stream stops when no request is pending. -/
structure Right (count skip : Nat) (s : TdStream) : Prop where
  place : (s.free ++ s.pending ++ s.completed).Perm (List.finRange maxReqs)
  begins : s.out <+: List.range' skip count
  stops : s.closed = true ↔ s.pending = []
  whole : s.closed = true → s.err = 0 → s.out = List.range' skip count

def left (s : TdStream) : Nat := s.count + (s.pending.map fun req => (s.reqs req).secs).sum

def KickRight (count skip : Nat) (s : TdStream) (k : Kick) : Prop :=
  ∃ t, step s k = some t ∧ Right count skip t ∧ (t.err ≠ 0 ↔ s.err ≠ 0 ∨ ∃ c ∈ k.all, c.2 ≠ 0) ∧ left t < left s

def AllFail (k : Kick) : Prop := ∀ c ∈ k.all, c.2 ≠ 0

structure Unread (s : TdStream) : Prop where
  place : (s.free ++ s.pending).Perm (List.finRange maxReqs)
  completed : s.completed = []
  out : s.out = []
  closed : s.closed = false
  secs : ∀ req ∈ s.pending, 0 < (s.reqs req).secs

section Unread
variable {s t : TdStream} {req : Slot} {error : Int}

theorem Unread.apart (unread : Unread s) : (s.free ++ s.pending).Nodup :=
  unread.place.nodup_iff.mpr (List.nodup_finRange _)

theorem Unread.room (unread : Unread s) (here : req ∈ s.pending) : s.free.length < maxReqs := by
  have length := unread.place.length_eq
  have pos := List.length_pos_of_mem here
  rw [List.length_append, List.length_finRange] at length
  omega

theorem Unread.moved (unread : Unread s) (here : req ∈ s.pending) :
    ((req :: s.free) ++ s.pending.erase req).Perm (List.finRange maxReqs) :=
  (List.perm_middle.symm.trans ((List.perm_cons_erase here).symm.append_left s.free)).trans unread.place

theorem Unread.fails (unread : Unread s) (here : req ∈ s.pending) (fail : error ≠ 0) :
    ∃ t, s.completeRequest req error false = some t ∧ Unread t ∧ t.err = eio ∧ t.pending = s.pending.erase req ∧
      left t < left s := by
  refine ⟨{ s with free := req :: s.free, pending := s.pending.erase req, err := eio }, ?_,
    ⟨unread.moved here, unread.completed, unread.out, unread.closed,
      fun other member => unread.secs other (List.mem_of_mem_erase member)⟩, rfl, rfl, ?_⟩
  · simp only [TdStream.completeRequest, fail, if_false, TdStream.freeReq, (unread.room here).not_ge,
      Bool.false_eq_true]
  · have sum := ((List.perm_cons_erase here).map fun req => (s.reqs req).secs).sum_nat
    have pos := unread.secs req here
    rw [List.map_cons, List.sum_cons] at sum
    unfold left
    dsimp only
    omega

theorem Unread.succeeds (unread : Unread s) : s.completeRequest req 0 false = none := by
  simp only [TdStream.completeRequest, if_true, TdStream.queueCompleted, unread.completed, List.find?_nil, insertAfter,
    Option.map_none, Bool.false_eq_true, if_false]

theorem Unread.all (cs : List (Slot × Int)) (unread : Unread s) (once : (cs.map Prod.fst).Nodup)
    (pending : ∀ c ∈ cs, c.1 ∈ s.pending) (fail : ∀ c ∈ cs, c.2 ≠ 0) :
    ∃ t, completeAll cs s = some t ∧ Unread t ∧ (cs ≠ [] → t.err = eio ∧ left t < left s) := by
  induction cs generalizing s with
  | nil => exact ⟨s, rfl, unread, fun some => absurd rfl some⟩
  | cons c cs ih =>
      rw [List.map_cons, List.nodup_cons] at once
      obtain ⟨t, run, kept, err, rest, less⟩ := unread.fails (pending c List.mem_cons_self) (fail c List.mem_cons_self)
      have still : ∀ other ∈ cs, other.1 ∈ t.pending := fun other member => by
        rw [rest]
        refine (List.mem_erase_of_ne fun same => once.1 ?_).mpr (pending other (List.mem_cons_of_mem c member))
        exact same ▸ List.mem_map_of_mem member
      obtain ⟨w, run', kept', ends⟩ :=
        ih kept once.2 still fun other member => fail other (List.mem_cons_of_mem c member)
      refine ⟨w, by rw [completeAll, run, Option.bind_some, run'], kept', fun _ => ?_⟩
      cases cs with
      | nil =>
          cases run'
          exact ⟨err, less⟩
      | cons other cs =>
          obtain ⟨err', less'⟩ := ends (List.cons_ne_nil _ _)
          exact ⟨err', less'.trans less⟩

theorem Unread.some_succeeds (cs : List (Slot × Int)) (unread : Unread s) (once : (cs.map Prod.fst).Nodup)
    (pending : ∀ c ∈ cs, c.1 ∈ s.pending) (success : ∃ c ∈ cs, c.2 = 0) : completeAll cs s = none := by
  induction cs generalizing s with
  | nil => exact absurd success (by simp)
  | cons c cs ih =>
      by_cases here : c.2 = 0
      · rw [completeAll, here, unread.succeeds, Option.bind_none]
      · rw [List.map_cons, List.nodup_cons] at once
        obtain ⟨t, run, kept, -, rest, -⟩ := unread.fails (pending c List.mem_cons_self) here
        have still : ∀ other ∈ cs, other.1 ∈ t.pending := fun other member => by
          rw [rest]
          refine (List.mem_erase_of_ne fun same => once.1 ?_).mpr (pending other (List.mem_cons_of_mem c member))
          exact same ▸ List.mem_map_of_mem member
        obtain ⟨other, member, works⟩ := success
        have behind := (List.mem_cons.mp member).resolve_left fun same => here (same ▸ works)
        rw [completeAll, run, Option.bind_some, ih kept once.2 still ⟨other, behind, works⟩]

theorem completeAll_append (cs ds : List (Slot × Int)) (s : TdStream) :
    completeAll (cs ++ ds) s = (completeAll cs s).bind (completeAll ds) := by
  induction cs generalizing s with
  | nil => rfl
  | cons c cs ih =>
      rw [List.cons_append, completeAll, completeAll, Option.bind_assoc]
      exact congrArg _ (funext fun t => ih t)

theorem step_eq (s : TdStream) (k : Kick) : step s k = (completeAll k.all s).bind TdStream.finish := by
  rw [Kick.all, completeAll_append, Option.bind_assoc]
  refine congrArg _ (funext fun t => ?_)
  rw [completeAll, Option.bind_assoc]
  change _ = (t.completeRequest k.last.1 k.last.2 false).bind fun u => (completeAll [] u).bind TdStream.finish
  rfl

theorem Unread.finish (unread : Unread s) (err : s.err = eio) :
    s.finish = some (if s.pending = [] then { s with closed := true } else s) := by
  have written : s.writeData = some s := by
    rw [TdStream.writeData, unread.completed]
    rfl
  have wrong : s.err ≠ 0 := by
    rw [err]
    decide
  have idle : s.queueRequests = s := by
    rw [TdStream.queueRequests]
    cases s.free with
    | nil => rfl
    | cons req rest => exact if_neg fun both => wrong both.2
  rw [TdStream.finish, written, Option.map_some, idle]
  by_cases empty : s.pending = []
  · simp [TdStream.stop, empty, wrong]
  · simp [TdStream.stop, empty]

end Unread

structure Kept (s : TdStream) : Prop where
  place : (s.free ++ s.pending).Perm (List.finRange maxReqs)
  completed : s.completed = []
  out : s.out = []
  stops : s.closed = true ↔ s.pending = []
  failed : s.closed = true → s.err ≠ 0
  secs : ∀ req ∈ s.pending, 0 < (s.reqs req).secs

section Kept
variable {s t : TdStream} {k : Kick} {count skip : Nat}

theorem Kept.right (kept : Kept s) : Right count skip s := by
  refine ⟨?_, ?_, kept.stops, fun closed err => absurd err (kept.failed closed)⟩
  · rw [kept.completed, List.append_nil]
    exact kept.place
  · rw [kept.out]
    exact List.nil_prefix

theorem Kept.unread (kept : Kept s) (closed : s.closed = false) : Unread s :=
  ⟨kept.place, kept.completed, kept.out, closed, kept.secs⟩

theorem Kept.fails (kept : Kept s) (enabled : Enabled s k) (fail : AllFail k) :
    ∃ t, step s k = some t ∧ Kept t ∧ t.err ≠ 0 ∧ left t < left s := by
  have some : k.all ≠ [] := List.append_ne_nil_of_right_ne_nil _ (List.cons_ne_nil _ _)
  obtain ⟨t, run, unread, ends⟩ := (kept.unread enabled.closed).all k.all enabled.once enabled.pending fail
  obtain ⟨err, less⟩ := ends some
  have wrong : t.err ≠ 0 := by
    rw [err]
    decide
  refine ⟨_, by rw [step_eq, run, Option.bind_some, unread.finish err], ?_⟩
  by_cases empty : t.pending = []
  · rw [if_pos empty]
    exact ⟨⟨unread.place, unread.completed, unread.out, iff_of_true rfl empty, fun _ => wrong, unread.secs⟩, wrong,
      less⟩
  · rw [if_neg empty]
    refine ⟨⟨unread.place, unread.completed, unread.out, iff_of_false ?_ empty, fun _ => wrong, unread.secs⟩, wrong,
      less⟩
    rw [unread.closed]
    exact Bool.false_ne_true

theorem Kept.right_iff (kept : Kept s) (enabled : Enabled s k) : KickRight count skip s k ↔ AllFail k := by
  constructor
  · rintro ⟨t, run, -⟩ c member works
    have crash := (kept.unread enabled.closed).some_succeeds k.all enabled.once enabled.pending ⟨c, member, works⟩
    rw [step_eq, crash] at run
    cases run
  · intro fail
    obtain ⟨t, run, keeps, err, less⟩ := kept.fails enabled fail
    refine ⟨t, run, keeps.right, iff_of_true err (Or.inr ⟨k.last, ?_⟩), less⟩
    have last : k.last ∈ k.all := List.mem_append_right _ List.mem_cons_self
    exact ⟨last, fail _ last⟩

theorem queueFrom_kept (free : List Slot) (unread : Unread s) (same : s.free = free) (err : s.err = 0)
    (more : s.count ≠ 0 → s.pending ≠ [] ∨ free ≠ []) :
    Unread (TdStream.queueFrom free s) ∧ (s.count ≠ 0 → (TdStream.queueFrom free s).pending ≠ []) := by
  induction free generalizing s with
  | nil => exact ⟨unread, fun some => (more some).resolve_right fun no => no rfl⟩
  | cons req rest ih =>
      rw [TdStream.queueFrom]
      by_cases stop : s.count ≠ 0 ∧ s.err = 0
      swap
      · rw [if_neg stop]
        exact ⟨unread, fun some => absurd ⟨some, err⟩ stop⟩
      rw [if_pos stop]
      have apart := unread.apart
      rw [same] at apart
      have absent : req ∉ s.pending := fun member =>
        (List.nodup_cons.mp apart).1 (List.mem_append_right rest member)
      have next : Unread (({ s with free := rest } : TdStream).queueRequest req) := by
        refine ⟨?_, unread.completed, unread.out, unread.closed, fun other member => ?_⟩
        · have place := unread.place
          rw [same] at place
          change (rest ++ (s.pending ++ [req])).Perm _
          rw [← List.append_assoc]
          exact (List.perm_append_singleton req _).trans place
        · change 0 < (Function.update s.reqs req ⟨s.secIn, min reqSecs s.count⟩ other).secs
          rcases List.mem_append.mp member with old | new
          · rw [Function.update_of_ne (fun here : other = req => absent (here ▸ old))]
            exact unread.secs other old
          · rw [List.mem_singleton.mp new, Function.update_self]
            exact Nat.lt_min.mpr ⟨by decide, Nat.pos_of_ne_zero stop.1⟩
      have some : (({ s with free := rest } : TdStream).queueRequest req).pending ≠ [] :=
        List.append_ne_nil_of_right_ne_nil _ (List.cons_ne_nil _ _)
      obtain ⟨kept, pending⟩ := ih next rfl err fun _ => Or.inl some
      refine ⟨kept, fun _ => ?_⟩
      by_cases done : (({ s with free := rest } : TdStream).queueRequest req).count = 0
      · have idle : TdStream.queueFrom rest (({ s with free := rest } : TdStream).queueRequest req) =
            ({ s with free := rest } : TdStream).queueRequest req := by
          cases rest with
          | nil => rfl
          | cons other rest => exact if_neg fun both => both.1 done
        rw [idle]
        exact some
      · exact pending done

theorem opened_eq {size given : Nat} (accepted : tapdiskStreamOpen size given skip = .ok s) :
    s = ⟨0, skip, skip, s.count, [], [], fun _ => ⟨0, 0⟩, (List.finRange maxReqs).reverse, [], false⟩ := by
  unfold tapdiskStreamOpen TdStream.setPosition at accepted
  dsimp only at accepted
  split_ifs at accepted <;> cases accepted <;> rfl

theorem unread_opened {size given : Nat} (accepted : tapdiskStreamOpen size given skip = .ok s) : Unread s := by
  rw [opened_eq accepted]
  refine ⟨?_, rfl, rfl, rfl, nofun⟩
  change ((List.finRange maxReqs).reverse ++ []).Perm _
  rw [List.append_nil]
  exact List.reverse_perm _

theorem kept_start {size given : Nat} (accepted : tapdiskStreamOpen size given skip = .ok s) (some : s.count ≠ 0) :
    Kept s.queueRequests := by
  have whole := opened_eq accepted
  have free : s.free = (List.finRange maxReqs).reverse := by rw [whole]
  have err : s.err = 0 := by rw [whole]
  obtain ⟨unread, pending⟩ := queueFrom_kept s.free (unread_opened accepted) rfl err fun _ =>
    Or.inr (by rw [free]; decide)
  refine ⟨unread.place, unread.completed, unread.out, iff_of_false ?_ (pending some), fun closed => ?_, unread.secs⟩
  · exact fun closed => Bool.false_ne_true (unread.closed.symm.trans closed)
  · exact absurd (unread.closed.symm.trans closed) Bool.false_ne_true

theorem start_right_iff {size given : Nat} (accepted : tapdiskStreamOpen size given skip = .ok s) :
    Right s.count skip s.queueRequests ↔ s.count ≠ 0 := by
  constructor
  · intro right none
    have whole := opened_eq accepted
    rw [none] at whole right
    rw [whole] at right
    exact Bool.false_ne_true (right.stops.mpr rfl)
  · exact fun some => (kept_start accepted some).right

end Kept

/-- **Streaming.** For every position that is accepted, the stream starts right exactly if there is something to read,
and stays right in every run in which no read succeeds; what happens next is right exactly if again no read does. -/
theorem stream_right {size given skip : Nat} {s : TdStream} (accepted : tapdiskStreamOpen size given skip = .ok s) :
    (Right s.count skip s.queueRequests ↔ s.count ≠ 0) ∧
      ∀ t, s.count ≠ 0 → Run step (fun s k => Enabled s k ∧ AllFail k) s.queueRequests t →
        Right s.count skip t ∧ ∀ k, Enabled t k → (KickRight s.count skip t k ↔ AllFail k) := by
  refine ⟨start_right_iff accepted, fun t some run => ?_⟩
  have kept : Kept t := by
    refine run.invariant (fun s k t kept good action => ?_) (kept_start accepted some)
    obtain ⟨t', run, keeps, -⟩ := kept.fails good.1 good.2
    exact Option.some.inj (run.symm.trans action) ▸ keeps
  exact ⟨kept.right, fun k enabled => kept.right_iff enabled⟩

def small : TdStream := ⟨0, 0, 0, 8, [], [], fun _ => ⟨0, 0⟩, (List.finRange maxReqs).reverse, [], false⟩

def lastSlot : Slot := ⟨15, by decide⟩

theorem small_pending : small.queueRequests.pending = [lastSlot] := by
  decide

theorem small_enabled (error : Int) : Enabled small.queueRequests ⟨[], (lastSlot, error)⟩ :=
  ⟨by decide, List.nodup_singleton _, fun c member => by
    rw [List.mem_singleton.mp member, small_pending]
    exact List.mem_singleton_self _⟩

theorem small_right : ∃ s, step small.queueRequests ⟨[], (lastSlot, 5)⟩ = some s ∧ Right 8 0 s ∧
    ∀ k, Enabled s k → (KickRight 8 0 s k ↔ AllFail k) := by
  have fail : AllFail ⟨[], (lastSlot, 5)⟩ := by
    intro c member
    rw [List.mem_singleton.mp member]
    decide
  have accepted : tapdiskStreamOpen 8 8 0 = .ok small := rfl
  obtain ⟨s, run, kept, -⟩ := (kept_start accepted (by decide)).fails (small_enabled 5) fail
  obtain ⟨right, next⟩ := (stream_right accepted).2 s (by decide) (.single ⟨small_enabled 5, fail⟩ run)
  exact ⟨s, run, right, next⟩

theorem success_crashes : ¬∀ (size given skip : Nat) (s : TdStream), tapdiskStreamOpen size given skip = .ok s →
    ∀ t, Run step Enabled s.queueRequests t →
      Right s.count skip t ∧ ∀ k, Enabled t k → KickRight s.count skip t k := by
  intro all
  obtain ⟨s, run, -⟩ := (all 8 8 0 small rfl _ (.refl _)).2 _ (small_enabled 0)
  have accepted : tapdiskStreamOpen 8 8 0 = .ok small := rfl
  have unread : Unread small.queueRequests := (kept_start accepted (by decide)).unread (by decide)
  rw [step_eq, unread.some_succeeds _ (small_enabled 0).once (small_enabled 0).pending
    ⟨_, List.mem_singleton_self _, rfl⟩] at run
  cases run

end Blktap.Tapdisk.Stream
