import Blktap.Llcache.Llpcache
import Blktap.Lib.Run

/-! # Runs of the persistent leaf cache -/

namespace Blktap.Llcache
open Lib Tapdisk

def Target.other : Target → Target
  | .localLeaf => .sharedLeaf
  | .sharedLeaf => .localLeaf

theorem Target.ne_iff {t u : Target} : t ≠ u ↔ t = u.other := by
  cases t <;> cases u <;> simp [Target.other]

namespace Llp
variable {w w' : Llp} {i j n x : Nat} {target : Target} {error : Int} {extent : Tapdisk.Extent} {free : List Nat}
  {treq : WriteTreq}

def forked (w : Llp) (i : Nat) (free : List Nat) (treq : WriteTreq) : Llp :=
  { w with
    free
    queued := Function.update w.queued i fun _ => true
    reqv := Function.update w.reqv i { treq, error := (w.reqv i).error, pending := fun _ => true } }

theorem update_both (f : Target → Bool) :
    Function.update (Function.update f .localLeaf true) .sharedLeaf true = fun _ => true := by
  funext t
  cases t <;> simp

theorem forkWrite_cons (some : w.free = i :: free) : w.forkWrite treq = w.forked i free treq := by
  simp [forkWrite, some, take, requeueTreq, forked, update_both]

theorem forkWrite_nil (none : w.free = []) : w.forkWrite treq = w.completeRequest treq (-ebusy) := by
  simp [forkWrite, none]

def InUse (w : Llp) (i : Nat) : Prop := i < maxReq ∧ i ∉ w.free

structure Serves (w : Llp) (i : Nat) : Prop where
  pending : ∃ t, (w.reqv i).pending t = true
  live : (w.reqv i).treq.write ∉ w.guest.history.ended
  begun : (w.reqv i).treq.write < w.guest.history.count
  unanswered : w.guest.answers (w.reqv i).treq.write = []
  extent : w.guest.ask (w.reqv i).treq.write = (w.reqv i).treq.extent
  outcome : ∀ t, w.outcome (w.reqv i).treq.write t = none ↔ (w.reqv i).pending t = true
  error : ∀ t e, w.outcome (w.reqv i).treq.write t = some e →
    (counted t e = 0 → (w.reqv i).error = 0) ∧
      ((w.reqv i).error = 0 ∨ (w.reqv i).error = counted t e)

structure Sound (w : Llp) : Prop where
  running : w.panicked = false
  slots : FreeList maxReq w.free
  idle : ∀ i, ¬ w.InUse i → ∀ t, (w.reqv i).pending t = false
  queue : ∀ i t, w.queued i t = (w.reqv i).pending t
  serves : ∀ i, w.InUse i → w.Serves i
  owner : ∀ i j, w.InUse i → w.InUse j → (w.reqv i).treq.write = (w.reqv j).treq.write → i = j
  unasked : ∀ n, w.guest.history.count ≤ n → w.guest.answers n = [] ∧ ∀ t, w.outcome n t = none
  owned : ∀ n < w.guest.history.count, n ∉ w.guest.history.ended →
    ∃ i, w.InUse i ∧ (w.reqv i).treq.write = n
  whole : ∀ n ∈ w.guest.history.ended, ∃ res, w.guest.answers n = [((w.guest.ask n).sectors, res)]
  leaves : ∀ t, (w.leaf t).Recent w.guest.history
  stored : ∀ n t, w.outcome n t = some 0 → ∀ x ∈ (w.guest.ask n).sectors, (w.leaf t).stored n x = true
  mirror : w.mode = .mirror → ∀ n, w.outcome n .localLeaf ≠ some (-enospc)

/-- How a write has to be answered -/
structure Reported (outcome : Target → Option Int) (res : Int) : Prop where
  success : res = 0 → outcome .sharedLeaf = some 0 ∧
    (outcome .localLeaf = some 0 ∨ outcome .localLeaf = some (-enospc))
  error : ∀ t e, outcome t = some e → counted t e ≠ 0 →
    ∃ u e', outcome u = some e' ∧ counted u e' ≠ 0 ∧ res = e'

/-- Every write is answered once, when both clones have ended, and every read shows what the last successful writes have
written. -/
structure Right (w : Llp) : Prop where
  served : w.panicked = false
  once : ∀ n < w.guest.history.count,
    (∃ res, w.guest.answers n = [((w.guest.ask n).sectors, res)]) ∨
      w.guest.answers n = [] ∧ ∃ i t, w.queued i t = true ∧ (w.reqv i).treq.write = n
  reported : ∀ n, ∀ answer ∈ w.guest.answers n, Reported (w.outcome n) answer.2
  reads : w.guest.Reads

def Merges (w : Llp) (i : Nat) (target : Target) (error : Int) : Prop :=
  ∀ first ∈ w.outcome (w.reqv i).treq.write target.other,
    counted target.other first = 0 ∨
      counted target error ≠ 0 ∧ ((w.reqv i).error = 0 ∨ (w.reqv i).error = -enospc)

def Meets (w : Llp) : Event → Prop
  | .finish i target error => w.Merges i target error
  | .read _ => w.mode = .mirror
  | _ => True

instance : Decidable (w.Merges i target error) :=
  inferInstanceAs (Decidable (∀ first ∈ w.outcome (w.reqv i).treq.write target.other, counted target.other first = 0 ∨
    counted target error ≠ 0 ∧ ((w.reqv i).error = 0 ∨ (w.reqv i).error = -enospc)))

instance (w : Llp) : (event : Event) → Decidable (w.Meets event)
  | .finish i target error => inferInstanceAs (Decidable (w.Merges i target error))
  | .read _ => inferInstanceAs (Decidable (w.mode = .mirror))
  | .write _ | .store _ _ _ | .fetch _ _ => .isTrue trivial

def Broken (w : Llp) : Prop :=
  w.panicked = true ∨ w.Sound ∧ ∃ n, ∃ answer ∈ w.guest.answers n, ¬ Reported (w.outcome n) answer.2

theorem Serves.of_same (serves : w.Serves i) (req : w'.reqv i = w.reqv i)
    (live : (w.reqv i).treq.write ∉ w'.guest.history.ended)
    (count : w.guest.history.count ≤ w'.guest.history.count)
    (answers : w'.guest.answers (w.reqv i).treq.write = w.guest.answers (w.reqv i).treq.write)
    (ask : w'.guest.ask (w.reqv i).treq.write = w.guest.ask (w.reqv i).treq.write)
    (outcome : w'.outcome (w.reqv i).treq.write = w.outcome (w.reqv i).treq.write) : w'.Serves i := by
  constructor <;> rw [req]
  · exact serves.pending
  · exact live
  · exact serves.begun.trans_le count
  · rw [answers, serves.unanswered]
  · rw [ask, serves.extent]
  · rw [outcome]
    exact serves.outcome
  · rw [outcome]
    exact serves.error

theorem Sound.inUse (sound : w.Sound) {t : Target} (pending : (w.reqv i).pending t = true) : w.InUse i := by
  by_contra idle
  rw [sound.idle i idle t] at pending
  cases pending

theorem Sound.fork (sound : w.Sound) (some : w.free = i :: free) :
    (forked { w with guest := w.guest.startWrite extent } i free
      { write := w.guest.history.count, extent }).Sound := by
  have member : i ∈ w.free := some ▸ List.mem_cons_self
  obtain ⟨small, taken, rest⟩ := (some ▸ sound.slots : FreeList maxReq (i :: free)).head
  have fresh := sound.unasked _ (Nat.le_refl w.guest.history.count)
  have use : ∀ j, ¬ (j < maxReq ∧ j ∉ free) → ¬ w.InUse j := by
    rintro j unused ⟨small, notFree⟩
    exact unused ⟨small, fun found => notFree (some ▸ List.mem_cons_of_mem _ found)⟩
  have other : ∀ j, j ≠ i → j < maxReq ∧ j ∉ free → w.InUse j := by
    rintro j ne ⟨small, notFree⟩
    refine ⟨small, fun found => ?_⟩
    rw [some] at found
    exact (List.mem_cons.mp found).elim ne notFree
  have old : ∀ j, w.InUse j → (w.reqv j).treq.write ≠ w.guest.history.count := fun j inUse =>
    Nat.ne_of_lt (sound.serves j inUse).begun
  have known : ∀ n ∈ w.guest.history.ended, n ≠ w.guest.history.count := fun n ended =>
    Nat.ne_of_lt (w.guest.history.begun n ended)
  constructor
  · exact sound.running
  · exact rest
  · intro j unused t
    have ne : j ≠ i := by
      rintro rfl
      exact unused ⟨small, taken⟩
    simpa [forked, ne] using sound.idle j (use j unused) t
  · intro j t
    by_cases same : j = i
    · simp [forked, same]
    · simpa [forked, same] using sound.queue j t
  · intro j inUse
    by_cases same : j = i
    · subst same
      constructor <;> simp [forked, Guest.startWrite, fresh, History.start]
      · exact ⟨.localLeaf⟩
      · exact History.count_not_ended
    · have inUse' := other j same inUse
      apply (sound.serves j inUse').of_same
      · simp [forked, same]
      · exact (sound.serves j inUse').live
      · exact Nat.le_succ _
      · rfl
      · simp [forked, Guest.startWrite, old j inUse']
      · rfl
  · intro j k inUse inUse' same
    by_cases first : j = i <;> by_cases second : k = i
    · rw [first, second]
    · simp [forked, first, second] at same
      exact absurd same.symm (old k (other k second inUse'))
    · simp [forked, first, second] at same
      exact absurd same (old j (other j first inUse))
    · simp [forked, first, second] at same
      exact sound.owner j k (other j first inUse) (other k second inUse') same
  · exact fun n bound => sound.unasked n (Nat.le_of_succ_le bound)
  · intro n bound live
    by_cases new : n = w.guest.history.count
    · refine ⟨i, ⟨small, taken⟩, ?_⟩
      simp [forked, new]
    · obtain ⟨j, inUse, write⟩ := sound.owned n (Nat.lt_of_le_of_ne (Nat.le_of_lt_succ bound) new) live
      have ne : j ≠ i := by
        rintro rfl
        exact inUse.2 member
      refine ⟨j, ⟨inUse.1, fun found => inUse.2 (some ▸ List.mem_cons_of_mem _ found)⟩, ?_⟩
      simpa [forked, ne] using write
  · intro n ended
    simpa [forked, Guest.startWrite, known n ended] using sound.whole n ended
  · exact fun t => (sound.leaves t).start
  · intro n t worked x inside
    have ne : n ≠ w.guest.history.count := by
      rintro rfl
      cases (fresh.2 t).symm.trans worked
    exact sound.stored n t worked x (by simpa [forked, Guest.startWrite, ne] using inside)
  · exact sound.mirror

theorem Sound.refuse (sound : w.Sound) :
    (completeRequest { w with guest := w.guest.startWrite extent }
      { write := w.guest.history.count, extent } (-ebusy)).Sound := by
  have fresh := sound.unasked _ (Nat.le_refl w.guest.history.count)
  have old : ∀ j, w.InUse j → (w.reqv j).treq.write ≠ w.guest.history.count := fun j inUse =>
    Nat.ne_of_lt (sound.serves j inUse).begun
  have history : (completeRequest { w with guest := w.guest.startWrite extent }
      { write := w.guest.history.count, extent } (-ebusy)).guest.history =
      w.guest.history.start.finish w.guest.history.count := by
    apply Guest.answer_history
    simp [Guest.startWrite]
  have ended : ∀ {m}, m ∈ (w.guest.history.start.finish w.guest.history.count).ended ↔
      m = w.guest.history.count ∨ m ∈ w.guest.history.ended :=
    History.mem_finish (Nat.lt_succ_self w.guest.history.count)
  constructor
  · exact sound.running
  · exact sound.slots
  · exact sound.idle
  · exact sound.queue
  · intro j inUse
    have serves := sound.serves j inUse
    apply serves.of_same
    · rfl
    · rw [history, ended]
      exact not_or.mpr ⟨old j inUse, serves.live⟩
    · rw [history]
      exact Nat.le_succ _
    · simp [completeRequest, Guest.answer, Guest.startWrite, old j inUse]
    · simp [completeRequest, Guest.answer, Guest.startWrite, old j inUse]
    · rfl
  · exact sound.owner
  · intro n bound
    rw [history] at bound
    have ne : n ≠ w.guest.history.count := Nat.ne_of_gt bound
    simpa [completeRequest, Guest.answer, Guest.startWrite, ne] using
      sound.unasked n (Nat.le_of_succ_le bound)
  · intro n bound live
    rw [history] at bound live
    rw [ended] at live
    obtain ⟨ne, live⟩ := not_or.mp live
    exact sound.owned n (Nat.lt_of_le_of_ne (Nat.le_of_lt_succ bound) ne) live
  · intro n member
    rw [history] at member
    by_cases new : n = w.guest.history.count
    · refine ⟨-ebusy, ?_⟩
      simp [completeRequest, Guest.answer, Guest.startWrite, new, fresh.1]
    · have whole := sound.whole n ((ended.mp member).resolve_left new)
      simpa [completeRequest, Guest.answer, Guest.startWrite, new] using whole
  · intro t
    rw [history]
    exact (sound.leaves t).start.finish
  · intro n t worked x inside
    have ne : n ≠ w.guest.history.count := by
      rintro rfl
      cases (fresh.2 t).symm.trans worked
    exact sound.stored n t worked x (by
      simpa [completeRequest, Guest.answer, Guest.startWrite, ne] using inside)
  · exact sound.mirror

@[simp] theorem counted_shared (e : Int) : counted .sharedLeaf e = e := by simp [counted, switches]

theorem counted_local (e : Int) : counted .localLeaf e = if e = -enospc then 0 else e := by
  simp [counted, switches]

theorem counted_eq (failed : counted target error ≠ 0) : counted target error = error := by
  unfold counted at failed ⊢
  split at failed
  · exact absurd rfl failed
  · exact if_neg ‹_›

theorem mergeError_self : ((w.dequeue i target error).mergeError i target error).reqv i =
    (w.reqv i).merge target (counted target error) := by
  simp [mergeError, dequeue]

theorem mergeError_of_ne (ne : j ≠ i) :
    ((w.dequeue i target error).mergeError i target error).reqv j = w.reqv j := by
  simp [mergeError, dequeue, ne]

theorem dequeue_outcome {t : Target} : (w.dequeue i target error).outcome n t =
    if n = (w.reqv i).treq.write ∧ t = target then some error else w.outcome n t := by
  by_cases write : n = (w.reqv i).treq.write
  · by_cases same : t = target <;> simp [dequeue, write, same]
  · simp [dequeue, write]

theorem dequeue_queued {t : Target} : (w.dequeue i target error).queued j t =
    if j = i ∧ t = target then false else w.queued j t := by
  by_cases request : j = i
  · by_cases same : t = target <;> simp [dequeue, request, same]
  · simp [dequeue, request]

theorem Sound.dequeue_queue (sound : w.Sound) (j : Nat) (t : Target) :
    (w.dequeue i target error).queued j t =
      (((w.dequeue i target error).mergeError i target error).reqv j).pending t := by
  rw [dequeue_queued, sound.queue]
  by_cases request : j = i
  · subst request
    rw [mergeError_self]
    by_cases same : t = target <;> simp [LlpcacheRequest.merge, same]
  · rw [mergeError_of_ne request, if_neg fun both => request both.1]

theorem Sound.dequeue_of_ne (sound : w.Sound) (use : w.InUse i) (use' : w.InUse j) (ne : j ≠ i) :
    (w.dequeue i target error).outcome (w.reqv j).treq.write = w.outcome (w.reqv j).treq.write := by
  funext t
  rw [dequeue_outcome, if_neg]
  exact fun both => ne (sound.owner j i use' use both.1)

theorem Sound.dequeue_stored (sound : w.Sound) (use : w.InUse i)
    (done : error = 0 → ∀ x ∈ (w.reqv i).treq.extent.sectors,
      (w.leaf target).stored (w.reqv i).treq.write x = true) {t : Target}
    (worked : (w.dequeue i target error).outcome n t = some 0) :
    ∀ x ∈ (w.guest.ask n).sectors, (w.leaf t).stored n x = true := by
  rw [dequeue_outcome] at worked
  split at worked
  · rename_i both
    obtain ⟨rfl, rfl⟩ := both
    rw [(sound.serves i use).extent]
    exact done (Option.some.inj worked)
  · exact sound.stored n t worked

theorem Sound.dequeue_mirror (sound : w.Sound)
    (mirror : ((w.dequeue i target error).mergeError i target error).mode = .mirror) :
    (w.dequeue i target error).outcome n .localLeaf ≠ some (-enospc) := by
  by_cases switch : switches target error = true
  · simp [mergeError, switch] at mirror
  · rw [dequeue_outcome]
    split
    · rename_i both
      intro same
      exact switch (by simp [switches, ← both.2, Option.some.inj same])
    · exact sound.mirror (by simpa [mergeError, dequeue, switch] using mirror) n

theorem Sound.merge (sound : w.Sound) (use : w.InUse i)
    (done : error = 0 → ∀ x ∈ (w.reqv i).treq.extent.sectors,
      (w.leaf target).stored (w.reqv i).treq.write x = true)
    (other : (w.reqv i).pending target.other = true) :
    ((w.dequeue i target error).mergeError i target error).Sound := by
  have serves := sound.serves i use
  have write : ∀ j, (((w.dequeue i target error).mergeError i target error).reqv j).treq =
      (w.reqv j).treq := by
    intro j
    by_cases same : j = i
    · rw [same, mergeError_self]
      rfl
    · rw [mergeError_of_ne same]
  constructor
  · exact sound.running
  · exact sound.slots
  · intro j unused t
    have ne : j ≠ i := fun same => unused (same ▸ use)
    rw [mergeError_of_ne ne]
    exact sound.idle j unused t
  · exact sound.dequeue_queue
  · intro j inUse
    by_cases same : j = i
    · subst same
      constructor <;> rw [mergeError_self]
      · refine ⟨target.other, ?_⟩
        cases target <;> simpa [LlpcacheRequest.merge, Target.other] using other
      · exact serves.live
      · exact serves.begun
      · exact serves.unanswered
      · exact serves.extent
      · intro t
        change (w.dequeue j target error).outcome (w.reqv j).treq.write t = none ↔ _
        rw [dequeue_outcome]
        by_cases ended : t = target
        · simp [ended, LlpcacheRequest.merge]
        · simpa [ended, LlpcacheRequest.merge] using serves.outcome t
      · intro t e found
        change (w.dequeue j target error).outcome (w.reqv j).treq.write t = some e at found
        rw [dequeue_outcome] at found
        by_cases ended : t = target
        · subst ended
          rw [if_pos ⟨rfl, rfl⟩] at found
          cases found
          refine ⟨fun zero => ?_, llWriteError_or _ _⟩
          simp [LlpcacheRequest.merge, zero]
        · rw [if_neg fun both => ended both.2, Target.ne_iff.mp ended] at found
          cases ((serves.outcome _).mpr other).symm.trans found
    · apply (sound.serves j inUse).of_same
      · exact mergeError_of_ne same
      · exact (sound.serves j inUse).live
      · exact Nat.le_refl _
      · rfl
      · rfl
      · exact sound.dequeue_of_ne use inUse same
  · intro j k inUse inUse' same
    rw [write, write] at same
    exact sound.owner j k inUse inUse' same
  · intro n bound
    refine ⟨(sound.unasked n bound).1, fun t => ?_⟩
    change (w.dequeue i target error).outcome n t = none
    have ne : n ≠ (w.reqv i).treq.write := Nat.ne_of_gt (serves.begun.trans_le bound)
    rw [dequeue_outcome, if_neg fun both => ne both.1]
    exact (sound.unasked n bound).2 t
  · intro n bound live
    obtain ⟨j, inUse, owns⟩ := sound.owned n bound live
    exact ⟨j, inUse, (congrArg WriteTreq.write (write j)).trans owns⟩
  · exact sound.whole
  · exact sound.leaves
  · exact fun n t worked => sound.dequeue_stored use done worked
  · exact fun mirror n => sound.dequeue_mirror mirror

def settle (w : Llp) (i : Nat) (target : Target) (error : Int) : Llp :=
  let merged := (w.dequeue i target error).mergeError i target error
  { merged.completeRequest (merged.reqv i).treq (merged.reqv i).error with free := i :: w.free }

theorem Sound.writeCb (sound : w.Sound) (queued : w.queued i target = true) :
    (w.dequeue i target error).writeCb i target error =
      if (w.reqv i).pending target.other then (w.dequeue i target error).mergeError i target error
      else w.settle i target error := by
  have pending : (w.reqv i).pending target = true := (sound.queue i target).symm.trans queued
  have room := sound.slots.length_lt (sound.inUse pending).1 (sound.inUse pending).2
  have merged : ∀ t, (((w.dequeue i target error).mergeError i target error).reqv i).pending t =
      if t = target then false else (w.reqv i).pending t := by
    intro t
    rw [mergeError_self]
    by_cases same : t = target <;> simp [LlpcacheRequest.merge, same]
  unfold Llp.writeCb
  rw [show ((w.dequeue i target error).reqv i).pending target = true from pending, if_pos rfl]
  dsimp only
  rw [merged, merged]
  have left : ((if Target.localLeaf = target then false else (w.reqv i).pending .localLeaf) = true ∨
      (if Target.sharedLeaf = target then false else (w.reqv i).pending .sharedLeaf) = true) ↔
      (w.reqv i).pending target.other = true := by
    cases target <;> simp [Target.other]
  by_cases other : (w.reqv i).pending target.other = true
  · rw [if_pos (left.mpr other), if_pos other]
  · rw [if_neg fun some => other (left.mp some), if_neg other]
    exact if_neg (Nat.not_le.mpr room)

theorem settle_guest : (w.settle i target error).guest =
    w.guest.answer (w.reqv i).treq.write (w.reqv i).treq.extent.sectors
      (llWriteError (w.reqv i).error (counted target error)) := by
  unfold settle completeRequest
  dsimp only
  rw [mergeError_self]
  rfl

theorem Sound.settle (sound : w.Sound) (use : w.InUse i)
    (done : error = 0 → ∀ x ∈ (w.reqv i).treq.extent.sectors,
      (w.leaf target).stored (w.reqv i).treq.write x = true)
    (other : (w.reqv i).pending target.other = false) : (w.settle i target error).Sound := by
  have serves := sound.serves i use
  have history : (w.settle i target error).guest.history = w.guest.history.finish (w.reqv i).treq.write := by
    rw [settle_guest]
    apply Guest.answer_history
    rw [serves.extent]
  have ended : ∀ {m}, m ∈ (w.guest.history.finish (w.reqv i).treq.write).ended ↔
      m = (w.reqv i).treq.write ∨ m ∈ w.guest.history.ended := History.mem_finish serves.begun
  have ask : (w.settle i target error).guest.ask = w.guest.ask := by rw [settle_guest]; rfl
  have answers : ∀ n, n ≠ (w.reqv i).treq.write →
      (w.settle i target error).guest.answers n = w.guest.answers n := by
    intro n ne
    rw [settle_guest]
    exact Function.update_of_ne ne _ _
  have before : ∀ j, (w.settle i target error).InUse j → w.InUse j ∧ j ≠ i := by
    rintro j ⟨small, notFree⟩
    exact ⟨⟨small, fun found => notFree (List.mem_cons_of_mem _ found)⟩,
      fun same => notFree (same ▸ List.mem_cons_self)⟩
  have request : ∀ j, j ≠ i → (w.settle i target error).reqv j = w.reqv j := fun j ne => mergeError_of_ne ne
  constructor
  · exact sound.running
  · exact sound.slots.cons use.1 use.2
  · intro j unused t
    by_cases same : j = i
    · subst same
      change (((w.dequeue j target error).mergeError j target error).reqv j).pending t = false
      rw [mergeError_self]
      by_cases last : t = target
      · simp [LlpcacheRequest.merge, last]
      · rw [Target.ne_iff.mp last]
        cases target <;> simpa [LlpcacheRequest.merge, Target.other] using other
    · rw [request j same]
      apply sound.idle j
      rintro ⟨small, notFree⟩
      exact unused ⟨small, fun found => (List.mem_cons.mp found).elim same notFree⟩
  · exact sound.dequeue_queue
  · intro j inUse
    obtain ⟨inUse, ne⟩ := before j inUse
    have serves' := sound.serves j inUse
    have write : (w.reqv j).treq.write ≠ (w.reqv i).treq.write := fun same =>
      ne (sound.owner j i inUse use same)
    apply serves'.of_same
    · exact request j ne
    · rw [history, ended]
      exact not_or.mpr ⟨write, serves'.live⟩
    · rw [history]
      exact Nat.le_refl _
    · exact answers _ write
    · rw [ask]
    · exact sound.dequeue_of_ne use inUse ne
  · intro j k inUse inUse' same
    obtain ⟨inUse, first⟩ := before j inUse
    obtain ⟨inUse', second⟩ := before k inUse'
    rw [request j first, request k second] at same
    exact sound.owner j k inUse inUse' same
  · intro n bound
    rw [history] at bound
    have ne : n ≠ (w.reqv i).treq.write := Nat.ne_of_gt (serves.begun.trans_le bound)
    refine ⟨(answers n ne).trans (sound.unasked n bound).1, fun t => ?_⟩
    change (w.dequeue i target error).outcome n t = none
    rw [dequeue_outcome, if_neg fun both => ne both.1]
    exact (sound.unasked n bound).2 t
  · intro n bound live
    rw [history] at bound live
    rw [ended] at live
    obtain ⟨ne, live⟩ := not_or.mp live
    obtain ⟨j, inUse, owns⟩ := sound.owned n bound live
    have other : j ≠ i := by
      rintro rfl
      exact ne owns.symm
    refine ⟨j, ⟨inUse.1, fun found => (List.mem_cons.mp found).elim other inUse.2⟩, ?_⟩
    rw [request j other]
    exact owns
  · intro n member
    rw [history] at member
    rw [ask]
    by_cases own : n = (w.reqv i).treq.write
    · refine ⟨llWriteError (w.reqv i).error (counted target error), ?_⟩
      rw [settle_guest, own, serves.extent]
      simp [Guest.answer, serves.unanswered]
    · rw [answers n own]
      exact sound.whole n ((ended.mp member).resolve_left own)
  · intro t
    rw [history]
    exact (sound.leaves t).finish
  · intro n t worked
    rw [ask]
    exact sound.dequeue_stored use done worked
  · exact fun mirror n => sound.dequeue_mirror mirror

theorem Sound.store (sound : w.Sound) (queued : w.queued i target = true) :
    ({ w with leaf := Function.update w.leaf target ((w.leaf target).put (w.reqv i).treq.write x) } :
      Llp).Sound := by
  have serves := sound.serves i (sound.inUse ((sound.queue i target).symm.trans queued))
  refine ⟨sound.running, sound.slots, sound.idle, sound.queue, fun j inUse =>
    (sound.serves j inUse).of_same rfl (sound.serves j inUse).live (Nat.le_refl _) rfl rfl rfl,
    sound.owner, sound.unasked, sound.owned, sound.whole, fun t => ?_, fun n t worked y inside => ?_,
    sound.mirror⟩
  · by_cases same : t = target
    · subst same
      simpa using (sound.leaves t).put serves.begun serves.live
    · simpa [same] using sound.leaves t
  · by_cases same : t = target
    · subst same
      simpa using Store.put_keeps (sound.stored n t worked y inside)
    · simpa [same] using sound.stored n t worked y inside

theorem Sound.reading (sound : w.Sound) {guest : Guest} {route : Nat → LlpMode}
    (history : guest.history = w.guest.history) (ask : guest.ask = w.guest.ask)
    (answers : guest.answers = w.guest.answers) : ({ w with guest, route } : Llp).Sound := by
  constructor
  case serves =>
    intro j inUse
    apply (sound.serves j inUse).of_same
    · rfl
    · rw [history]
      exact (sound.serves j inUse).live
    · exact (congrArg History.count history).ge
    · rw [answers]
    · rw [ask]
    · rfl
  all_goals try simp only [history, ask, answers]
  · exact sound.running
  · exact sound.slots
  · exact sound.idle
  · exact sound.queue
  · exact sound.owner
  · exact sound.unasked
  · exact sound.owned
  · exact sound.whole
  · exact sound.leaves
  · exact sound.stored
  · exact sound.mirror

inductive Steps (w : Llp) : Event → Llp → Prop
  | fork (extent : Tapdisk.Extent) (i : Nat) (free : List Nat) : 0 < extent.secs → w.free = i :: free →
      Steps w (.write extent) (forked { w with guest := w.guest.startWrite extent } i free
        { write := w.guest.history.count, extent })
  | refuse (extent : Tapdisk.Extent) : 0 < extent.secs → w.free = [] →
      Steps w (.write extent) (completeRequest { w with guest := w.guest.startWrite extent }
        { write := w.guest.history.count, extent } (-ebusy))
  | store (i : Nat) (target : Target) (x : Nat) : w.queued i target = true →
      Steps w (.store i target x)
        { w with leaf := Function.update w.leaf target ((w.leaf target).put (w.reqv i).treq.write x) }
  | merge (i : Nat) (target : Target) (error : Int) : w.InUse i →
      (error = 0 → ∀ x ∈ (w.reqv i).treq.extent.sectors,
        (w.leaf target).stored (w.reqv i).treq.write x = true) →
      (w.reqv i).pending target.other = true →
      Steps w (.finish i target error) ((w.dequeue i target error).mergeError i target error)
  | settle (i : Nat) (target : Target) (error : Int) : w.InUse i →
      (error = 0 → ∀ x ∈ (w.reqv i).treq.extent.sectors,
        (w.leaf target).stored (w.reqv i).treq.write x = true) →
      (w.reqv i).pending target.other = false →
      Steps w (.finish i target error) (w.settle i target error)
  | read (extent : Tapdisk.Extent) : w.mode = .mirror →
      Steps w (.read extent) { w with
        guest := w.guest.startRead extent, route := Function.update w.route w.guest.reads w.mode }
  | panic (extent : Tapdisk.Extent) (w' : Llp) : w.mode = .shared → w'.panicked = true →
      Steps w (.read extent) w'
  | fetch (r x : Nat) : r < w.guest.reads →
      Steps w (.fetch r x) { w with guest := w.guest.fetch r {x} (w.shows (w.route r) x) }

theorem Sound.steps (sound : w.Sound) {event : Event} (action : w.step event = some w') :
    w.Steps event w' := by
  unfold Llp.step at action
  rw [if_neg (by simp [sound.running])] at action
  cases event with
  | write extent =>
      dsimp only at action
      split at action
      · cases action
      · rename_i positive
        cases free : w.free with
        | nil =>
            rw [@forkWrite_nil { w with guest := w.guest.startWrite extent } _ free] at action
            cases action
            exact .refuse extent (Nat.pos_of_ne_zero positive) free
        | cons i rest =>
            rw [@forkWrite_cons { w with guest := w.guest.startWrite extent } _ _ _ free] at action
            cases action
            exact .fork extent i rest (Nat.pos_of_ne_zero positive) free
  | store i target x =>
      dsimp only at action
      split at action
      · rename_i possible
        cases action
        exact .store i target x possible.1
      · cases action
  | finish i target error =>
      dsimp only at action
      split at action
      · rename_i possible
        have use := sound.inUse ((sound.queue i target).symm.trans possible.1)
        rw [sound.writeCb possible.1] at action
        split at action
        · rename_i other
          cases action
          exact .merge i target error use possible.2 other
        · rename_i other
          cases action
          exact .settle i target error use possible.2 (Bool.eq_false_iff.mpr other)
      · cases action
  | read extent =>
      dsimp only at action
      split at action
      · cases action
      · unfold queueRead at action
        dsimp only at action
        split at action
        · cases action
          exact .read extent ‹_›
        · cases action
          exact .panic extent _ ‹_› rfl
  | fetch r x =>
      dsimp only at action
      split at action
      · rename_i possible
        cases action
        exact .fetch r x possible.1
      · cases action

theorem Steps.sound {event : Event} (sound : w.Sound) (steps : w.Steps event w') :
    w'.panicked = true ∨ w'.Sound := by
  cases steps with
  | fork extent i free _ some => exact .inr (sound.fork some)
  | refuse => exact .inr sound.refuse
  | store i target x queued => exact .inr (sound.store queued)
  | merge i target error use done other => exact .inr (sound.merge use done other)
  | settle i target error use done other => exact .inr (sound.settle use done other)
  | read => exact .inr (sound.reading rfl rfl rfl)
  | panic extent w' _ panicked => exact .inl panicked
  | fetch => exact .inr (sound.reading rfl rfl rfl)

theorem Steps.ended {event : Event} (sound : w.Sound) (steps : w.Steps event w')
    (running : w'.panicked = false) (ended : n ∈ w.guest.history.ended) :
    w'.guest.answers n = w.guest.answers n ∧ w'.outcome n = w.outcome n := by
  have begun := w.guest.history.begun n ended
  have served : ∀ i, w.InUse i → n ≠ (w.reqv i).treq.write := by
    rintro i use rfl
    exact (sound.serves i use).live ended
  have dequeue : ∀ i target error, w.InUse i → (w.dequeue i target error).outcome n = w.outcome n := by
    intro i target error use
    funext t
    rw [dequeue_outcome, if_neg fun both => served i use both.1]
  cases steps with
  | fork => exact ⟨rfl, rfl⟩
  | refuse =>
      refine ⟨?_, rfl⟩
      simp [completeRequest, Guest.answer, Guest.startWrite, Nat.ne_of_lt begun]
  | store => exact ⟨rfl, rfl⟩
  | merge i target error use => exact ⟨rfl, dequeue i target error use⟩
  | settle i target error use =>
      refine ⟨?_, dequeue i target error use⟩
      rw [settle_guest]
      exact Function.update_of_ne (served i use) _ _
  | read => exact ⟨rfl, rfl⟩
  | panic extent w' _ panicked => cases running.symm.trans panicked
  | fetch => exact ⟨rfl, rfl⟩

theorem Sound.live_unanswered (sound : w.Sound) (live : n ∉ w.guest.history.ended) :
    w.guest.answers n = [] := by
  by_cases begun : n < w.guest.history.count
  · obtain ⟨i, use, write⟩ := sound.owned n begun live
    exact write ▸ (sound.serves i use).unanswered
  · exact (sound.unasked n (Nat.not_lt.mp begun)).1

theorem reported_success {outcome : Target → Option Int} :
    (∀ t, ∃ e, outcome t = some e ∧ counted t e = 0) ↔ outcome .sharedLeaf = some 0 ∧
      (outcome .localLeaf = some 0 ∨ outcome .localLeaf = some (-enospc)) := by
  constructor
  · intro well
    obtain ⟨e, shared, zero⟩ := well .sharedLeaf
    obtain ⟨e', own, zero'⟩ := well .localLeaf
    rw [counted_shared] at zero
    rw [counted_local] at zero'
    refine ⟨zero ▸ shared, ?_⟩
    split at zero'
    · rename_i full
      exact .inr (full ▸ own)
    · exact .inl (zero' ▸ own)
  · rintro ⟨shared, own⟩ t
    cases t with
    | sharedLeaf => exact ⟨0, shared, counted_shared 0⟩
    | localLeaf =>
        rcases own with own | own
        · exact ⟨0, own, by decide⟩
        · exact ⟨_, own, by decide⟩

theorem Serves.reported_iff (serves : w.Serves i) (other : (w.reqv i).pending target.other = false) :
    Reported ((w.dequeue i target error).outcome (w.reqv i).treq.write)
      (llWriteError (w.reqv i).error (counted target error)) ↔ w.Merges i target error := by
  obtain ⟨first, ended⟩ := Option.ne_none_iff_exists'.mp fun none =>
    Bool.false_ne_true (other.symm.trans ((serves.outcome _).mp none))
  obtain ⟨kept, or⟩ := serves.error target.other first ended
  have own : (w.dequeue i target error).outcome (w.reqv i).treq.write target = some error := by
    rw [dequeue_outcome, if_pos ⟨rfl, rfl⟩]
  have companion : (w.dequeue i target error).outcome (w.reqv i).treq.write target.other = some first := by
    rw [dequeue_outcome, if_neg fun both => by cases target <;> cases both.2]
    exact ended
  have cases' : ∀ t, t = target ∨ t = target.other := fun t =>
    or_iff_not_imp_left.mpr Target.ne_iff.mp
  unfold Merges
  constructor
  · intro reported other found
    cases ended.symm.trans found
    by_contra drops
    obtain ⟨failed, drops⟩ := not_or.mp drops
    obtain ⟨u, e', found', failed', same⟩ := reported.error _ _ companion failed
    have merged : llWriteError (w.reqv i).error (counted target error) = 0 := if_neg drops
    rw [merged] at same
    exact failed' (by rw [← same]; cases u <;> decide)
  · intro merges
    rcases merges first ended with worked | ⟨failed, free⟩
    · have merged : llWriteError (w.reqv i).error (counted target error) = counted target error := by
        rw [kept worked]
        by_cases zero : counted target error = 0
        · rw [zero, llWriteError_zero]
        · exact if_pos ⟨zero, .inl rfl⟩
      rw [merged]
      refine ⟨fun zero => reported_success.mp fun t => ?_, fun t e found failed => ?_⟩
      · rcases cases' t with rfl | rfl
        · exact ⟨error, own, zero⟩
        · exact ⟨first, companion, worked⟩
      · rcases cases' t with rfl | rfl
        · cases own.symm.trans found
          exact ⟨_, _, own, failed, counted_eq failed⟩
        · cases companion.symm.trans found
          exact absurd worked failed
    · have merged : llWriteError (w.reqv i).error (counted target error) = counted target error :=
        if_pos ⟨failed, free⟩
      rw [merged]
      exact ⟨fun zero => absurd zero failed, fun _ _ _ _ => ⟨target, error, own, failed, counted_eq failed⟩⟩

structure Good (w : Llp) : Prop extends w.Sound where
  reported : ∀ n, ∀ answer ∈ w.guest.answers n, Reported (w.outcome n) answer.2
  reads : w.guest.Reads
  routed : ∀ r < w.guest.reads, w.route r = .mirror
  kept : ∀ r, ∀ n ∈ (w.guest.reading r).seen, w.guest.Succeeded n → w.outcome n .localLeaf = some 0

theorem Good.succeeded (good : w.Good) (mirror : w.mode = .mirror) (ended : n ∈ w.guest.history.ended)
    (succeeded : w.guest.Succeeded n) : w.outcome n .localLeaf = some 0 := by
  obtain ⟨res, whole⟩ := good.whole n ended
  have member : ((w.guest.ask n).sectors, res) ∈ w.guest.answers n := by rw [whole]; exact List.mem_singleton_self _
  obtain ⟨_, worked⟩ := (good.reported n _ member).success (succeeded _ member)
  exact worked.resolve_right (good.mirror mirror n)

theorem Good.shows (good : w.Good) {r : Nat} (bound : r < w.guest.reads) :
    w.guest.history.Recent (w.guest.Due r x) (w.shows (w.route r) x) := by
  have stored : ∀ n, w.guest.Due r x n → (w.leaf .localLeaf).stored n x = true := fun n due =>
    good.stored n .localLeaf (good.kept r n due.1 due.2.1) x due.2.2
  rw [good.routed r bound]
  change w.guest.history.Recent _ (((w.leaf .localLeaf).content x).getD _)
  cases found : (w.leaf .localLeaf).content x with
  | none =>
      apply History.recent_none
      intro n due
      cases (stored n due).symm.trans ((good.leaves .localLeaf).empty x found n)
  | some writer => exact ((good.leaves .localLeaf).recent x writer found).mono stored

theorem settle_answers (serves : w.Serves i) :
    (w.settle i target error).guest.answers (w.reqv i).treq.write =
      [((w.reqv i).treq.extent.sectors, llWriteError (w.reqv i).error (counted target error))] := by
  rw [settle_guest]
  simp [Guest.answer, serves.unanswered]

theorem refuse_answers (sound : w.Sound) :
    (completeRequest { w with guest := w.guest.startWrite extent }
      { write := w.guest.history.count, extent } (-ebusy)).guest.answers w.guest.history.count =
      [(extent.sectors, -ebusy)] := by
  simp [completeRequest, Guest.answer, Guest.startWrite, (sound.unasked _ (Nat.le_refl _)).1]

theorem Steps.reported {event : Event} (good : w.Good) (steps : w.Steps event w')
    (running : w'.panicked = false) (meets : w.Meets event) :
    ∀ n, ∀ answer ∈ w'.guest.answers n, Reported (w'.outcome n) answer.2 := by
  intro n answer member
  by_cases ended : n ∈ w.guest.history.ended
  · obtain ⟨answers, outcome⟩ := steps.ended good.toSound running ended
    rw [outcome]
    exact good.reported n answer (answers ▸ member)
  · have unanswered := good.toSound.live_unanswered ended
    have nothing : w'.guest.answers n = w.guest.answers n → Reported (w'.outcome n) answer.2 := by
      intro same
      rw [same, unanswered] at member
      exact absurd member List.not_mem_nil
    cases steps with
    | fork => exact nothing rfl
    | refuse extent =>
        by_cases new : n = w.guest.history.count
        · subst new
          rw [refuse_answers good.toSound] at member
          cases List.mem_singleton.mp member
          refine ⟨fun zero => absurd (show -ebusy = 0 from zero) (by decide), fun t e found => ?_⟩
          cases ((good.unasked _ (Nat.le_refl _)).2 t).symm.trans found
        · exact nothing (by simp [completeRequest, Guest.answer, Guest.startWrite, new])
    | store => exact nothing rfl
    | merge => exact nothing rfl
    | settle i target error use done other =>
        have serves := good.serves i use
        by_cases own : n = (w.reqv i).treq.write
        · subst own
          rw [settle_answers serves] at member
          cases List.mem_singleton.mp member
          exact (serves.reported_iff other).mpr meets
        · apply nothing
          rw [settle_guest]
          exact Function.update_of_ne own _ _
    | read => exact nothing rfl
    | panic extent w' _ panicked => cases running.symm.trans panicked
    | fetch => exact nothing rfl

theorem Steps.reads {event : Event} (good : w.Good) (steps : w.Steps event w')
    (running : w'.panicked = false) : w'.guest.Reads := by
  cases steps with
  | fork => exact good.reads.startWrite
  | refuse => exact good.reads.startWrite.answer History.count_not_ended
  | store => exact good.reads
  | merge => exact good.reads
  | settle i target error use =>
      rw [settle_guest]
      exact good.reads.answer (good.serves i use).live
  | read => exact good.reads.startRead
  | panic extent w' _ panicked => cases running.symm.trans panicked
  | fetch r x bound => exact good.reads.fetch fun y member => Finset.mem_singleton.mp member ▸ good.shows bound

theorem Steps.good {event : Event} (good : w.Good) (steps : w.Steps event w') (meets : w.Meets event) :
    w'.Good := by
  have running : w'.panicked = false := by
    cases steps with
    | panic extent w' shared panicked => exact nomatch shared.symm.trans meets
    | settle => exact good.running
    | _ => exact good.running
  have sound := (steps.sound good.toSound).resolve_left (Bool.eq_false_iff.mp running)
  have seen : ∀ r, ∀ n ∈ (w.guest.reading r).seen, w'.guest.Succeeded n →
      w'.outcome n .localLeaf = some 0 := by
    intro r n member succeeded
    obtain ⟨answers, outcome⟩ := steps.ended good.toSound running (w.guest.seen_ended r member)
    rw [outcome]
    exact good.kept r n member fun answer found => succeeded answer (answers ▸ found)
  refine ⟨sound, steps.reported good running meets, steps.reads good running, ?_, ?_⟩
  · intro r bound
    cases steps with
    | read extent mode =>
        by_cases new : r = w.guest.reads
        · simp [new, mode]
        · simpa [new] using good.routed r (Nat.lt_of_le_of_ne (Nat.le_of_lt_succ bound) new)
    | panic extent w' _ panicked => cases running.symm.trans panicked
    | settle =>
        rw [settle_guest] at bound
        exact good.routed r bound
    | _ => exact good.routed r bound
  · intro r n member succeeded
    cases steps with
    | read extent mode =>
        by_cases new : r = w.guest.reads
        · subst new
          have member' : n ∈ w.guest.history.ended := by simpa [Guest.startRead] using member
          exact good.succeeded mode member' succeeded
        · apply seen r n _ succeeded
          simpa [Guest.startRead, new] using member
    | fetch r' x =>
        apply seen r n _ succeeded
        by_cases same : r = r'
        · simpa [Guest.fetch, same] using member
        · simpa [Guest.fetch, same] using member
    | panic extent w' _ panicked => cases running.symm.trans panicked
    | settle =>
        apply seen r n _ succeeded
        rw [settle_guest] at member
        exact member
    | _ => exact seen r n member succeeded

theorem Good.right (good : w.Good) : w.Right where
  served := good.running
  once n begun := by
    by_cases ended : n ∈ w.guest.history.ended
    · exact .inl (good.whole n ended)
    · obtain ⟨i, use, write⟩ := good.owned n begun ended
      obtain ⟨t, pending⟩ := (good.serves i use).pending
      exact .inr ⟨good.toSound.live_unanswered ended, i, t, (good.queue i t).trans pending, write⟩
  reported := good.reported
  reads := good.reads

theorem Broken.stays {event : Event} (broken : w.Broken) (action : w.step event = some w') : w'.Broken := by
  rcases broken with panicked | ⟨sound, n, answer, member, wrong⟩
  · simp [Llp.step, panicked] at action
  · have steps := sound.steps action
    rcases steps.sound sound with panicked | sound'
    · exact .inl panicked
    · have ended : n ∈ w.guest.history.ended := by
        by_contra live
        rw [sound.live_unanswered live] at member
        exact absurd member List.not_mem_nil
      obtain ⟨answers, outcome⟩ := steps.ended sound sound'.running ended
      exact .inr ⟨sound', n, answer, answers ▸ member, outcome ▸ wrong⟩

theorem Good.breaks {event : Event} (good : w.Good) (misses : ¬ w.Meets event)
    (action : w.step event = some w') : w'.Broken := by
  have steps := good.toSound.steps action
  rcases steps.sound good.toSound with panicked | sound'
  · exact .inl panicked
  · cases steps with
    | settle i target error use done other =>
        have serves := good.serves i use
        refine .inr ⟨sound', (w.reqv i).treq.write, _,
          settle_answers serves ▸ List.mem_singleton_self _, ?_⟩
        exact fun reported => misses ((serves.reported_iff other).mp reported)
    | merge i target error use done other =>
        refine absurd (fun first found => ?_) misses
        cases (((good.serves i use).outcome _).mpr other).symm.trans found
    | read extent mode => exact absurd mode misses
    | panic extent w' shared panicked => exact .inl panicked
    | _ => exact absurd trivial misses

end Llp

end Blktap.Llcache
