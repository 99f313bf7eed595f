import Blktap.Lcache.Lcache
import Blktap.Lib.Run
import Mathlib.Data.Finset.Card

/-! # Runs of the local read cache -/

namespace Blktap.Lcache
open Lib Tapdisk

namespace Cache
variable {w w' : Cache} {i n r x : Nat} {part : Finset Nat} {err error res : Int} {extent : Tapdisk.Extent}
  {probe : Option Bool} {after : Guest}

/-- What a guest write has put in the leaf stays there until another one replaces it, and a read shows what
the last successful writes have written. -/
structure Right (w : Cache) : Prop where
  served : w.panicked = false
  kept : ∀ n x, w.leaf.stored n x = true → ∃ m, w.leaf.content x = some (some m)
  reads : w.guest.Reads

def Meets (w : Cache) : Event → Prop
  | .storeBack _ x => ∀ n < w.guest.history.count, w.leaf.stored n x = false
  | _ => True

instance (w : Cache) : (event : Event) → Decidable (w.Meets event)
  | .storeBack _ x => inferInstanceAs (Decidable (∀ n < w.guest.history.count, w.leaf.stored n x = false))
  | .write _ | .store _ _ | .answer _ _ _ | .read _ | .hit _ _ | .miss _ _ _ | .part _ _ _ _ | .backDone _ _ =>
    .isTrue trivial

structure InRead (w : Cache) (i : Nat) : Prop where
  small : i < maxReq
  taken : i ∉ w.free
  idle : w.writing i = false
  pending : (w.reqv i).secs = (w.forwarded i).card
  begun : (w.reqv i).treq.read < w.guest.reads
  undue : ∀ x ∈ (w.reqv i).treq.extent.sectors, ∀ n, ¬ w.guest.Due (w.reqv i).treq.read x n

structure Good (w : Cache) : Prop where
  running : w.panicked = false
  slots : FreeList maxReq w.free
  reading : ∀ i, (w.forwarded i).Nonempty → w.InRead i
  writing : ∀ i, w.writing i = true → i < maxReq ∧ i ∉ w.free
  leaf : w.leaf.Recent w.guest.history
  answered : ∀ n, ∀ answer ∈ w.guest.answers n, answer.2 = 0 → ∀ x ∈ answer.1, w.leaf.stored n x = true
  done : ∀ n ∈ w.guest.history.ended, (w.guest.ask n).sectors ⊆ w.guest.answered n
  unasked : ∀ n, w.guest.history.count ≤ n → w.guest.answers n = []
  reads : w.guest.Reads

theorem Good.due_stored (good : w.Good) (due : w.guest.Due r x n) : w.leaf.stored n x = true := by
  obtain ⟨seen, succeeded, inside⟩ := due
  obtain ⟨answer, member, covers⟩ :=
    Guest.mem_answered.mp (good.done n (w.guest.seen_ended r seen) inside)
  exact good.answered n answer member (succeeded answer member) x covers

theorem Good.right (good : w.Good) : w.Right where
  served := good.running
  kept n x stored := by
    cases found : w.leaf.content x with
    | none => exact nomatch stored.symm.trans (good.leaf.empty x found n)
    | some writer =>
        obtain ⟨m, rfl, _⟩ := good.leaf.recent x writer found n stored
        exact ⟨m, rfl⟩
  reads := good.reads

theorem Good.goesOn (good : w.Good) (reads : w.guest.reads ≤ after.reads)
    (due : ∀ r < w.guest.reads, ∀ x n, after.Due r x n → w.guest.Due r x n)
    (leaf : w.leaf.Recent after.history)
    (answered : ∀ n, ∀ answer ∈ after.answers n, answer.2 = 0 → ∀ x ∈ answer.1, w.leaf.stored n x = true)
    (done : ∀ n ∈ after.history.ended, (after.ask n).sectors ⊆ after.answered n)
    (unasked : ∀ n, after.history.count ≤ n → after.answers n = [])
    (shows : after.Reads) : ({ w with guest := after } : Cache).Good where
  running := good.running
  slots := good.slots
  reading i held := by
    have here := good.reading i held
    exact ⟨here.small, here.taken, here.idle, here.pending, here.begun.trans_le reads,
      fun x inside n found => here.undue x inside n (due _ here.begun x n found)⟩
  writing := good.writing
  leaf := leaf
  answered := answered
  done := done
  unasked := unasked
  reads := shows

theorem Good.startWrite (good : w.Good) : ({ w with guest := w.guest.startWrite extent } : Cache).Good := by
  apply good.goesOn
  · exact Nat.le_refl _
  · exact fun r _ x n due => Guest.due_startWrite due
  · exact good.leaf.start
  · exact good.answered
  · intro n ended
    have old := Nat.ne_of_lt (w.guest.history.begun n ended)
    rw [show (w.guest.startWrite extent).ask n = _ from Function.update_of_ne old _ _]
    exact good.done n ended
  · exact fun n bound => good.unasked n (Nat.le_of_succ_le bound)
  · exact good.reads.startWrite

theorem Good.answer (good : w.Good) (begun : n < w.guest.history.count) (live : n ∉ w.guest.history.ended)
    (stored : res = 0 → ∀ x ∈ part, w.leaf.stored n x = true) :
    ({ w with guest := w.guest.answer n part res } : Cache).Good := by
  have answers_self : (w.guest.answer n part res).answers n = w.guest.answers n ++ [(part, res)] :=
    Function.update_self ..
  have answers : ∀ m, m ≠ n → (w.guest.answer n part res).answers m = w.guest.answers m :=
    fun m other => Function.update_of_ne other _ _
  apply good.goesOn
  · exact Nat.le_refl _
  · exact fun r _ x m due => Guest.due_answer live due
  · change w.leaf.Recent (if _ then _ else _ : History)
    split
    · exact good.leaf.finish
    · exact good.leaf
  · intro m answer member
    by_cases same : m = n
    · subst same
      rw [answers_self] at member
      rcases List.mem_append.mp member with old | new
      · exact good.answered m answer old
      · cases List.mem_singleton.mp new
        exact stored
    · exact good.answered m answer (answers m same ▸ member)
  · intro m member
    rcases (Guest.mem_ended_answer begun).mp member with ⟨rfl, all⟩ | old
    · exact fun x asked => Guest.mem_answered_answer.mpr (Finset.mem_union.mp (all asked))
    · have other : m ≠ n := fun same => live (same ▸ old)
      unfold Guest.answered
      rw [answers m other]
      exact good.done m old
  · intro m bound
    rw [Guest.answer_count] at bound
    rw [answers m (Nat.ne_of_gt (begun.trans_le bound))]
    exact good.unasked m bound
  · exact good.reads.answer live

theorem Good.startRead (good : w.Good) : ({ w with guest := w.guest.startRead extent } : Cache).Good := by
  apply good.goesOn
  · exact Nat.le_succ _
  · exact fun r old x n due => Guest.due_startRead (Nat.ne_of_lt old) due
  · exact good.leaf
  · exact good.answered
  · exact good.done
  · exact good.unasked
  · exact good.reads.startRead

theorem Good.fetch (good : w.Good) {writer : Option Nat}
    (recent : ∀ x ∈ part, w.guest.history.Recent (w.guest.Due r x) writer) :
    ({ w with guest := w.guest.fetch r part writer } : Cache).Good := by
  apply good.goesOn
  · exact Nat.le_refl _
  · exact fun s _ x n due => Guest.due_fetch due
  · exact good.leaf
  · exact good.answered
  · exact good.done
  · exact good.unasked
  · exact good.reads.fetch recent

theorem Good.store (good : w.Good) (begun : n < w.guest.history.count) (live : n ∉ w.guest.history.ended) :
    ({ w with leaf := w.leaf.put n x } : Cache).Good := by
  refine { good with reading := ?_, leaf := good.leaf.put begun live, answered := ?_ }
  · intro i held
    have here := good.reading i held
    exact ⟨here.small, here.taken, here.idle, here.pending, here.begun, here.undue⟩
  · exact fun m answer member worked y inside => Store.put_keeps (good.answered m answer member worked y inside)

theorem Good.storeBack (good : w.Good) (meets : w.Meets (.storeBack i x)) :
    ({ w with leaf := w.leaf.putOld x } : Cache).Good := by
  have unused : ∀ n, w.leaf.stored n x = false := by
    intro n
    by_cases begun : n < w.guest.history.count
    · exact meets n begun
    · exact Bool.eq_false_iff.mpr fun stored => begun (good.leaf.known n x stored)
  refine { good with reading := ?_, leaf := good.leaf.putOld unused, answered := good.answered }
  intro i held
  have here := good.reading i held
  exact ⟨here.small, here.taken, here.idle, here.pending, here.begun, here.undue⟩

theorem Good.resize (good : w.Good) {reqv : Nat → LcacheRequest} {free : List Nat} {wrEn : Bool}
    (slots : FreeList maxReq free) (same : ∀ i, (w.forwarded i).Nonempty → i ∉ free ∧ reqv i = w.reqv i)
    (writing : ∀ i, w.writing i = true → i ∉ free) :
    ({ w with reqv, free, wrEn } : Cache).Good := by
  refine { good with slots, reading := ?_, writing := fun i held => ⟨(good.writing i held).1, writing i held⟩ }
  intro i held
  have here := good.reading i held
  obtain ⟨out, req⟩ := same i held
  constructor
  · exact here.small
  · exact out
  · exact here.idle
  · exact (congrArg LcacheRequest.secs req).trans here.pending
  · simpa only [req] using here.begun
  · simpa only [req] using here.undue

theorem Good.freeRequest (good : w.Good) (small : i < maxReq) (taken : i ∉ w.free) (idle : w.writing i = false)
    (empty : w.forwarded i = ∅) : (w.freeRequest i).Good := by
  unfold Cache.freeRequest
  rw [if_neg (Nat.not_le.mpr (good.slots.length_lt small taken))]
  apply good.resize (good.slots.cons small taken)
  · refine fun j held => ⟨fun member => ?_, rfl⟩
    rcases List.mem_cons.mp member with rfl | member
    · exact Finset.not_nonempty_empty (empty ▸ held)
    · exact (good.reading j held).taken member
  · intro j held member
    rcases List.mem_cons.mp member with rfl | member
    · exact nomatch held.symm.trans idle
    · exact (good.writing j held).2 member

theorem Good.queueRead (good : w.Good) (begun : r < w.guest.reads) (ready : Bool)
    (missing : ∀ x ∈ extent.sectors, w.leaf.content x = none) :
    (w.queueRead ⟨r, extent⟩ ready).Good := by
  unfold Cache.queueRead
  split
  · exact good
  · rename_i i rest free
    obtain ⟨small, out, slots⟩ := (free ▸ good.slots).head
    have apart : ∀ j, j ∉ w.free → j ∉ rest ∧ j ≠ i := fun j taken =>
      ⟨fun found => taken (free ▸ List.mem_cons_of_mem _ found), fun same => taken (free ▸ same ▸ List.mem_cons_self)⟩
    have took : (w.take i rest ⟨r, extent⟩).Good := good.resize slots
      (fun j held => ⟨(apart j (good.reading j held).taken).1,
        Function.update_of_ne (apart j (good.reading j held).taken).2 _ _⟩)
      fun j held => (apart j (good.writing j held).2).1
    split
    · refine { took with reading := ?_ }
      intro j held
      by_cases same : j = i
      · subst same
        have idle : w.writing j = false := Bool.eq_false_iff.mpr fun writing =>
          (apart j (good.writing j writing).2).2 rfl
        refine ⟨small, out, idle, ?_, ?_, ?_⟩
        · simp [take, Tapdisk.Extent.sectors]
        · simpa [take] using begun
        · intro x inside n due
          have inside' : x ∈ extent.sectors := by simpa [take] using inside
          have due' : w.guest.Due r x n := by simpa [take] using due
          exact nomatch (good.due_stored due').symm.trans (good.leaf.empty x (missing x inside') n)
      · have held' : (w.forwarded j).Nonempty := by simpa [same] using held
        have here := took.reading j held'
        refine ⟨here.small, here.taken, here.idle, ?_, here.begun, here.undue⟩
        exact here.pending.trans (congrArg Finset.card (Function.update_of_ne same _ _).symm)
    · exact took

def gaveBack (w : Cache) (i : Nat) (part : Finset Nat) (err : Int) : Cache :=
  { w with
    forwarded := Function.update w.forwarded i (w.forwarded i \ part)
    reqv := Function.update w.reqv i
      { w.reqv i with
        secs := (w.reqv i).secs - part.card
        err := if (w.reqv i).err ≠ 0 then (w.reqv i).err else err } }

theorem Good.gaveBack (good : w.Good) (some : part.Nonempty) (inside : part ⊆ w.forwarded i) :
    (w.gaveBack i part err).Good := by
  have own := good.reading i (some.mono inside)
  refine { good with reading := ?_ }
  intro j held
  by_cases same : j = i
  · subst same
    constructor
    · exact own.small
    · exact own.taken
    · exact own.idle
    · simp [Cache.gaveBack, Finset.card_sdiff_of_subset inside, own.pending]
    · simpa [Cache.gaveBack] using own.begun
    · simpa [Cache.gaveBack] using own.undue
  · have here := good.reading j (by simpa [Cache.gaveBack, same] using held)
    constructor
    · exact here.small
    · exact here.taken
    · exact here.idle
    · simpa [Cache.gaveBack, same] using here.pending
    · simpa [Cache.gaveBack, same] using here.begun
    · simpa [Cache.gaveBack, same] using here.undue

theorem Good.completeRead (good : w.Good) (small : i < maxReq) (taken : i ∉ w.free)
    (idle : w.writing i = false) (empty : w.forwarded i = ∅)
    (undue : ∀ x ∈ (w.reqv i).treq.extent.sectors, ∀ n, ¬ w.guest.Due (w.reqv i).treq.read x n) :
    (w.completeRead i probe).Good := by
  unfold Cache.completeRead
  dsimp only
  split
  · exact good.freeRequest small taken idle empty
  · have delivered : (w.deliver (w.reqv i).treq).Good :=
      good.fetch fun x inside => History.recent_none (undue x inside)
    have enabled : ({ w.deliver (w.reqv i).treq with wrEn := probe.getD w.wrEn } : Cache).Good :=
      delivered.resize good.slots (fun j held => ⟨(good.reading j held).taken, rfl⟩)
        fun j held => (good.writing j held).2
    split
    · refine { enabled with reading := ?_, writing := ?_ }
      · intro j held
        have here := enabled.reading j held
        have other : j ≠ i := by
          rintro rfl
          exact Finset.not_nonempty_empty (empty ▸ held)
        exact ⟨here.small, here.taken, (Function.update_of_ne other _ _).trans here.idle, here.pending, here.begun,
          here.undue⟩
      · intro j held
        by_cases same : j = i
        · subst same
          exact ⟨small, taken⟩
        · exact enabled.writing j ((Function.update_of_ne same _ _).symm.trans held)
    · exact enabled.freeRequest small taken idle empty

theorem readCb_back (enough : part.card ≤ (w.reqv i).secs) :
    readCb { w with forwarded := Function.update w.forwarded i (w.forwarded i \ part) } i part.card err probe =
      if (w.reqv i).secs - part.card = 0 then (w.gaveBack i part err).completeRead i probe
      else w.gaveBack i part err :=
  if_neg (Nat.not_lt.mpr enough)

theorem Good.readPart (good : w.Good) (some : part.Nonempty) (inside : part ⊆ w.forwarded i) :
    (readCb { w with forwarded := Function.update w.forwarded i (w.forwarded i \ part) } i part.card
      err probe).Good := by
  have own := good.reading i (some.mono inside)
  rw [readCb_back (own.pending ▸ Finset.card_le_card inside)]
  split
  · rename_i last
    have all : part = w.forwarded i := by
      apply Finset.eq_of_subset_of_card_le inside
      exact own.pending ▸ Nat.le_of_sub_eq_zero last
    apply (good.gaveBack some inside).completeRead own.small own.taken own.idle
    · simp [Cache.gaveBack, all]
    · simpa [Cache.gaveBack] using own.undue
  · exact good.gaveBack some inside

theorem Good.backDone (good : w.Good) (held : w.writing i = true) :
    (writeCb { w with writing := Function.update w.writing i false } i error).Good := by
  obtain ⟨small, taken⟩ := good.writing i held
  have empty : w.forwarded i = ∅ := Finset.not_nonempty_iff_eq_empty.mp fun reading =>
    nomatch held.symm.trans (good.reading i reading).idle
  have before : ∀ j, Function.update w.writing i false j = true → w.writing j = true := by
    intro j writing
    by_cases same : j = i
    · exact same ▸ held
    · exact (Function.update_of_ne same _ _).symm.trans writing
  have ended : ({ w with writing := Function.update w.writing i false } : Cache).Good := by
    refine { good with reading := ?_, writing := fun j writing => good.writing j (before j writing) }
    intro j reading
    have here := good.reading j reading
    refine ⟨here.small, here.taken, ?_, here.pending, here.begun, here.undue⟩
    exact Bool.eq_false_iff.mpr fun writing => nomatch (before j writing).symm.trans here.idle
  unfold Cache.writeCb
  split
  · have off : ({ w with writing := Function.update w.writing i false, wrEn := false } : Cache).Good :=
      ended.resize ended.slots (fun j reading => ⟨(ended.reading j reading).taken, rfl⟩)
        fun j writing => (ended.writing j writing).2
    exact off.freeRequest small taken (Function.update_self ..) empty
  · exact ended.freeRequest small taken (Function.update_self ..) empty

theorem Good.step (good : w.Good) {event : Event} (meets : w.Meets event)
    (action : w.step event = some w') : w'.Good := by
  unfold Cache.step at action
  rw [if_neg (by simp [good.running])] at action
  cases event with
  | write extent =>
      dsimp only at action
      split at action
      · cases action
      · cases action
        exact good.startWrite
  | store n x =>
      dsimp only at action
      split at action
      · rename_i possible
        cases action
        exact good.store possible.1 possible.2.1
      · cases action
  | answer n part res =>
      dsimp only at action
      split at action
      · rename_i possible
        cases action
        exact good.answer possible.1 possible.2.1 possible.2.2.2.2
      · cases action
  | read extent =>
      dsimp only at action
      split at action
      · cases action
      · cases action
        exact good.startRead
  | hit r x =>
      dsimp only at action
      split at action
      · rename_i writer found
        split at action
        · cases action
          apply good.fetch
          intro y member
          cases Finset.mem_singleton.mp member
          exact (good.leaf.recent x writer found).mono fun n due => good.due_stored due
        · cases action
      · cases action
  | miss r extent ready =>
      dsimp only at action
      split at action
      · rename_i possible
        cases action
        exact good.queueRead possible.1 ready possible.2.2.2
      · cases action
  | part i part err probe =>
      dsimp only at action
      split at action
      · rename_i possible
        cases action
        exact good.readPart possible.1 possible.2
      · cases action
  | storeBack i x =>
      dsimp only at action
      split at action
      · cases action
        exact @Good.storeBack w i x good meets
      · cases action
  | backDone i error =>
      dsimp only at action
      split at action
      · rename_i writing
        cases action
        exact good.backDone writing
      · cases action

end Cache

end Blktap.Lcache
