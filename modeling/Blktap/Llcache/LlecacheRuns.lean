import Blktap.Llcache.Llecache
import Blktap.Lib.Run
import Mathlib.Data.Finset.Card

/-! # Runs of the ephemeral leaf cache -/

namespace Blktap.Llcache
open Lib Tapdisk

namespace Lle
variable {w w' : Lle} {i j n m r x : Nat} {part : Finset Nat} {error res : Int} {extent : Tapdisk.Extent}
  {free : List Nat} {hole : Option Nat}

def Full (w : Lle) : Prop := ∃ n, ∃ part ∈ w.outcome n, part.2 = -enospc

def WrittenLocal (w : Lle) (n : Nat) : Prop :=
  (∀ x ∈ (w.guest.ask n).sectors, ∃ part ∈ w.outcome n, x ∈ part.1) ∧ ∀ part ∈ w.outcome n, part.2 = 0

def Written (w : Lle) (n : Nat) : Prop :=
  w.WrittenLocal n ∨
    w.Full ∧ ∀ x ∈ (w.guest.ask n).sectors, (w.leaf .sharedLeaf).stored n x = true

/-- Every sector of a write is answered once, success means that the write is in a leaf, and a read shows what
the last successful writes have written. -/
structure Right (w : Lle) : Prop where
  served : w.panicked = false
  once : ∀ n, w.guest.Once n
  complete : ∀ n < w.guest.history.count, (w.guest.ask n).sectors ⊆ w.guest.answered n ∨
    (w.sharing n).Nonempty ∨ ∃ i, (w.forwarded i).Nonempty ∧ (w.reqv i).treq.write = n
  success : ∀ n ∈ w.guest.history.ended, w.guest.Succeeded n → w.Written n
  reads : w.guest.Reads

/-- When the last part of a write works, none before it has failed; and a sector that SHARED has had since it
was opened is not one that LOCAL has for the read. -/
def Meets (w : Lle) : Event → Prop
  | .part i part error => error = 0 → part = w.forwarded i → ∀ before ∈ w.outcome (w.reqv i).treq.write, before.2 = 0
  | .fetch r x => w.route r = .shared → (w.leaf .sharedLeaf).content x = some none →
      ∀ n ∈ (w.guest.reading r).seen, (w.leaf .localLeaf).stored n x = false
  | _ => True

instance (w : Lle) : (event : Event) → Decidable (w.Meets event)
  | .part i part error => inferInstanceAs (Decidable (error = 0 → part = w.forwarded i →
      ∀ before ∈ w.outcome (w.reqv i).treq.write, before.2 = 0))
  | .fetch r x => inferInstanceAs (Decidable (w.route r = .shared →
      (w.leaf .sharedLeaf).content x = some none →
      ∀ n ∈ (w.guest.reading r).seen, (w.leaf .localLeaf).stored n x = false))
  | .write _ _ | .store _ _ | .shareStore _ _ | .shareAnswer _ _ _ | .read _ => .isTrue trivial

structure AtLocal (w : Lle) (i : Nat) : Prop where
  small : i < maxReq
  taken : i ∉ w.free
  live : (w.reqv i).treq.write ∉ w.guest.history.ended
  begun : (w.reqv i).treq.write < w.guest.history.count
  unanswered : w.guest.answers (w.reqv i).treq.write = []
  unshared : w.sharing (w.reqv i).treq.write = ∅
  extent : w.guest.ask (w.reqv i).treq.write = (w.reqv i).treq.extent
  pending : (w.reqv i).pending = (w.forwarded i).card
  inside : w.forwarded i ⊆ (w.reqv i).treq.extent.sectors
  parts : ∀ x ∈ (w.reqv i).treq.extent.sectors, x ∈ w.forwarded i ∨
    ∃ part ∈ w.outcome (w.reqv i).treq.write, x ∈ part.1
  origin : w.origin (w.reqv i).treq.write = .localLeaf

structure AtShared (w : Lle) (n : Nat) : Prop where
  live : n ∉ w.guest.history.ended
  begun : n < w.guest.history.count
  covers : (w.guest.ask n).sectors ⊆ w.guest.answered n ∪ w.sharing n
  apart : Disjoint (w.guest.answered n) (w.sharing n)
  inside : w.sharing n ⊆ (w.guest.ask n).sectors
  stored : ∀ answer ∈ w.guest.answers n, answer.2 = 0 →
    ∀ x ∈ answer.1, (w.leaf .sharedLeaf).stored n x = true

structure Idle (w : Lle) (n : Nat) : Prop where
  live : n ∉ w.guest.history.ended
  begun : n < w.guest.history.count
  unanswered : w.guest.answers n = []
  unshared : w.sharing n = ∅
  unforwarded : ∀ i, (w.forwarded i).Nonempty → (w.reqv i).treq.write ≠ n

structure Good (w : Lle) (hole : Option Nat) : Prop where
  running : w.panicked = false
  slots : FreeList maxReq w.free
  requests : ∀ i, (w.forwarded i).Nonempty → w.AtLocal i
  owner : ∀ i j, (w.forwarded i).Nonempty → (w.forwarded j).Nonempty →
    (w.reqv i).treq.write = (w.reqv j).treq.write → i = j
  shares : ∀ n, (w.sharing n).Nonempty → w.AtShared n
  unasked : ∀ n, w.guest.history.count ≤ n →
    w.guest.answers n = [] ∧ w.outcome n = [] ∧ w.sharing n = ∅
  owned : ∀ n < w.guest.history.count, n ∉ w.guest.history.ended → hole ≠ some n →
    (w.sharing n).Nonempty ∨ ∃ i, (w.forwarded i).Nonempty ∧ (w.reqv i).treq.write = n
  idle : ∀ n, hole = some n → w.Idle n
  once : ∀ n, w.guest.Once n
  done : ∀ n ∈ w.guest.history.ended, (w.guest.ask n).sectors ⊆ w.guest.answered n
  written : ∀ n ∈ w.guest.history.ended, w.guest.Succeeded n → w.Written n
  leaves : ∀ t, (w.leaf t).Recent w.guest.history
  kept : ∀ n, ∀ part ∈ w.outcome n, part.2 = 0 → ∀ x ∈ part.1, (w.leaf .localLeaf).stored n x = true
  origin : ∀ n x, (w.leaf .localLeaf).stored n x = true → w.origin n = .localLeaf
  alone : w.mode = .localLeaf → ∀ n, w.sharing n = ∅ ∧ ∀ x, (w.leaf .sharedLeaf).stored n x = false
  early : ∀ n < w.guest.history.count, w.origin n = .localLeaf →
    ∀ m x, (w.leaf .sharedLeaf).stored m x = true → m ∉ w.guest.history.before n
  full : w.mode = .shared → w.Full
  seenLocal : ∀ r < w.guest.reads, w.route r = .localLeaf →
    ∀ n ∈ (w.guest.reading r).seen, w.guest.Succeeded n → w.WrittenLocal n
  reads : w.guest.Reads
  asked : ∀ n < w.guest.history.count, (w.guest.ask n).sectors.Nonempty

theorem Good.right (good : w.Good none) : w.Right where
  served := good.running
  once := good.once
  complete n begun := by
    by_cases ended : n ∈ w.guest.history.ended
    · exact .inl (good.done n ended)
    · exact .inr (good.owned n begun ended nofun)
  success := good.written
  reads := good.reads

theorem Good.due_stored (good : w.Good hole) (local_ : w.WrittenLocal n) (inside : x ∈ (w.guest.ask n).sectors) :
    (w.leaf .localLeaf).stored n x = true := by
  obtain ⟨part, member, covers⟩ := local_.1 x inside
  exact good.kept n part member (local_.2 part member) x covers

theorem Good.shows (good : w.Good hole) (bound : r < w.guest.reads) (meets : w.Meets (.fetch r x)) :
    w.guest.history.Recent (w.guest.Due r x) (w.shows (w.route r) x) := by
  have leaf : ∀ must : Nat → Prop, (∀ n, must n → (w.leaf .localLeaf).stored n x = true) →
      w.guest.history.Recent must (((w.leaf .localLeaf).content x).getD none) := by
    intro must stored
    cases found : (w.leaf .localLeaf).content x with
    | none =>
        apply History.recent_none
        intro n due
        cases (stored n due).symm.trans ((good.leaves .localLeaf).empty x found n)
    | some writer => exact ((good.leaves .localLeaf).recent x writer found).mono stored
  have due : ∀ n, w.guest.Due r x n → (w.leaf .localLeaf).stored n x = true ∨
      (w.leaf .sharedLeaf).stored n x = true := by
    rintro n ⟨seen, succeeded, inside⟩
    rcases good.written n (w.guest.seen_ended r seen) succeeded with written | ⟨_, written⟩
    · exact .inl (good.due_stored written inside)
    · exact .inr (written x inside)
  cases route : w.route r with
  | localLeaf =>
      exact leaf _ fun n due => good.due_stored (good.seenLocal r bound route n due.1 due.2.1) due.2.2
  | shared =>
      change w.guest.history.Recent _ (((w.leaf .sharedLeaf).content x).getD _)
      cases found : (w.leaf .sharedLeaf).content x with
      | none =>
          refine leaf _ fun n here => (due n here).resolve_right fun stored => ?_
          cases stored.symm.trans ((good.leaves .sharedLeaf).empty x found n)
      | some writer =>
          have recent := (good.leaves .sharedLeaf).recent x writer found
          intro n here
          rcases due n here with stored | stored
          · cases writer with
            | none => exact nomatch stored.symm.trans (meets route found n here.1)
            | some m =>
                exact ⟨m, rfl, good.early n here.begun (good.origin n x stored) m x
                  ((good.leaves .sharedLeaf).wrote m x found)⟩
          · exact recent n stored

theorem WrittenLocal.of_same (written : w.WrittenLocal n) (ask : w'.guest.ask n = w.guest.ask n)
    (outcome : w'.outcome n = w.outcome n) : w'.WrittenLocal n := by
  unfold WrittenLocal
  rw [ask, outcome]
  exact written

theorem Written.of_same (written : w.Written n) (ask : w'.guest.ask n = w.guest.ask n)
    (outcome : w'.outcome n = w.outcome n) (full : w.Full → w'.Full)
    (stored : ∀ x, (w.leaf .sharedLeaf).stored n x = true → (w'.leaf .sharedLeaf).stored n x = true) :
    w'.Written n := by
  rcases written with written | ⟨space, written⟩
  · exact .inl (written.of_same ask outcome)
  · exact .inr ⟨full space, fun x inside => stored x (written x (ask ▸ inside))⟩

theorem AtLocal.of_same (here : w.AtLocal i) (taken : i ∉ w'.free) (req : w'.reqv i = w.reqv i)
    (forwarded : w'.forwarded i = w.forwarded i)
    (live : (w.reqv i).treq.write ∉ w'.guest.history.ended)
    (count : w.guest.history.count ≤ w'.guest.history.count)
    (answers : w'.guest.answers (w.reqv i).treq.write = w.guest.answers (w.reqv i).treq.write)
    (sharing : w'.sharing (w.reqv i).treq.write = w.sharing (w.reqv i).treq.write)
    (ask : w'.guest.ask (w.reqv i).treq.write = w.guest.ask (w.reqv i).treq.write)
    (outcome : w'.outcome (w.reqv i).treq.write = w.outcome (w.reqv i).treq.write)
    (origin : w'.origin (w.reqv i).treq.write = w.origin (w.reqv i).treq.write) : w'.AtLocal i := by
  refine ⟨here.small, taken, ?_, ?_, ?_, ?_, ?_, ?_, ?_, ?_, ?_⟩ <;> rw [req]
  · exact live
  · exact here.begun.trans_le count
  · rw [answers, here.unanswered]
  · rw [sharing, here.unshared]
  · rw [ask, here.extent]
  · rw [forwarded, here.pending]
  · rw [forwarded]
    exact here.inside
  · rw [forwarded, outcome]
    exact here.parts
  · rw [origin, here.origin]

theorem AtShared.of_same (here : w.AtShared n) (live : n ∉ w'.guest.history.ended)
    (count : w.guest.history.count ≤ w'.guest.history.count)
    (answers : w'.guest.answers n = w.guest.answers n) (ask : w'.guest.ask n = w.guest.ask n)
    (sharing : w'.sharing n = w.sharing n)
    (stored : ∀ x, (w.leaf .sharedLeaf).stored n x = true → (w'.leaf .sharedLeaf).stored n x = true) :
    w'.AtShared n := by
  have answered : w'.guest.answered n = w.guest.answered n := by
    unfold Guest.answered
    rw [answers]
  refine ⟨live, here.begun.trans_le count, ?_, ?_, ?_, ?_⟩
  · rw [ask, answered, sharing]
    exact here.covers
  · rw [answered, sharing]
    exact here.apart
  · rw [ask, sharing]
    exact here.inside
  · rw [answers]
    exact fun answer member worked x inside => stored x (here.stored answer member worked x inside)

def started (w : Lle) (extent : Tapdisk.Extent) : Lle :=
  { w with
    guest := w.guest.startWrite extent
    origin := Function.update w.origin w.guest.history.count w.mode }

theorem Good.start (good : w.Good none) (positive : extent.sectors.Nonempty) :
    (w.started extent).Good (some w.guest.history.count) := by
  have fresh := good.unasked _ (Nat.le_refl w.guest.history.count)
  have ask : ∀ m, m ≠ w.guest.history.count → (w.started extent).guest.ask m = w.guest.ask m :=
    fun m old => Function.update_of_ne old _ _
  have origin : ∀ m, m ≠ w.guest.history.count → (w.started extent).origin m = w.origin m :=
    fun m old => Function.update_of_ne old _ _
  have old : ∀ n ∈ w.guest.history.ended, n ≠ w.guest.history.count := fun n ended =>
    Nat.ne_of_lt (w.guest.history.begun n ended)
  constructor
  · exact good.running
  · exact good.slots
  · intro i held
    have here := good.requests i held
    have ne := Nat.ne_of_lt here.begun
    exact here.of_same here.taken rfl rfl here.live (Nat.le_succ _) rfl rfl (ask _ ne) rfl (origin _ ne)
  · exact good.owner
  · intro n held
    have here := good.shares n held
    exact here.of_same here.live (Nat.le_succ _) rfl (ask _ (Nat.ne_of_lt here.begun)) rfl fun _ => id
  · exact fun n bound => good.unasked n (Nat.le_of_succ_le bound)
  · intro n bound live other
    exact good.owned n (Nat.lt_of_le_of_ne (Nat.le_of_lt_succ bound) fun same => other (same ▸ rfl)) live nofun
  · rintro n same
    cases same
    refine ⟨History.count_not_ended, Nat.lt_succ_self _, fresh.1, fresh.2.2, fun i held => ?_⟩
    exact Nat.ne_of_lt (good.requests i held).begun
  · exact fun n => (good.once n).startWrite fresh.1
  · intro n ended
    rw [ask n (old n ended)]
    exact good.done n ended
  · exact fun n ended succeeded =>
      (good.written n ended succeeded).of_same (ask n (old n ended)) rfl id fun _ => id
  · exact fun t => (good.leaves t).start
  · exact good.kept
  · intro n x stored
    rw [origin n (Nat.ne_of_lt ((good.leaves _).known n x stored))]
    exact good.origin n x stored
  · exact good.alone
  · intro n bound early m x stored
    by_cases new : n = w.guest.history.count
    · have mode : w.mode = .localLeaf := by simpa [started, new] using early
      cases stored.symm.trans ((good.alone mode m).2 x)
    · have before : (w.started extent).guest.history.before n = w.guest.history.before n :=
        Function.update_of_ne new _ _
      rw [before]
      exact good.early n (Nat.lt_of_le_of_ne (Nat.le_of_lt_succ bound) new) (origin n new ▸ early) m x stored
  · exact good.full
  · intro r bound route n seen succeeded
    exact (good.seenLocal r bound route n seen succeeded).of_same
      (ask n (old n (w.guest.seen_ended r seen))) rfl
  · exact good.reads.startWrite
  · intro n bound
    by_cases new : n = w.guest.history.count
    · simpa [started, Guest.startWrite, new] using positive
    · rw [ask n new]
      exact good.asked n (Nat.lt_of_le_of_ne (Nat.le_of_lt_succ bound) new)

theorem Idle.of_same (idle : w.Idle n) (guest : w'.guest = w.guest) (sharing : w'.sharing n = w.sharing n)
    (requests : ∀ i, (w'.forwarded i).Nonempty → (w'.reqv i).treq.write ≠ n) : w'.Idle n := by
  refine ⟨?_, ?_, ?_, ?_, requests⟩
  · rw [guest]
    exact idle.live
  · rw [guest]
    exact idle.begun
  · rw [guest]
    exact idle.unanswered
  · rw [sharing]
    exact idle.unshared

theorem Good.resize (good : w.Good hole) {reqv : Nat → LlecacheRequest} (slots : FreeList maxReq free)
    (same : ∀ i, (w.forwarded i).Nonempty → i ∉ free ∧ reqv i = w.reqv i) :
    ({ w with reqv, free } : Lle).Good hole := by
  constructor
  · exact good.running
  · exact slots
  · intro i held
    have here := good.requests i held
    exact here.of_same (same i held).1 (same i held).2 rfl here.live (Nat.le_refl _) rfl rfl rfl rfl rfl
  · intro i j held held' write
    change (reqv i).treq.write = (reqv j).treq.write at write
    rw [(same i held).2, (same j held').2] at write
    exact good.owner i j held held' write
  · intro n held
    have here := good.shares n held
    exact here.of_same here.live (Nat.le_refl _) rfl rfl rfl fun _ => id
  · exact good.unasked
  · intro n bound live other
    refine (good.owned n bound live other).imp id ?_
    rintro ⟨i, held, write⟩
    refine ⟨i, held, ?_⟩
    change (reqv i).treq.write = n
    rw [(same i held).2]
    exact write
  · intro n idle
    refine (good.idle n idle).of_same rfl rfl fun i held => ?_
    change (reqv i).treq.write ≠ n
    rw [(same i held).2]
    exact (good.idle n idle).unforwarded i held
  · exact good.once
  · exact good.done
  · exact fun n ended succeeded => (good.written n ended succeeded).of_same rfl rfl id fun _ => id
  · exact good.leaves
  · exact good.kept
  · exact good.origin
  · exact good.alone
  · exact good.early
  · exact good.full
  · exact fun r bound route n seen succeeded =>
      (good.seenLocal r bound route n seen succeeded).of_same rfl rfl
  · exact good.reads
  · exact good.asked

theorem Good.answerWhole (good : w.Good (some n)) (ask : w.guest.ask n = extent)
    (written : res = 0 → w.WrittenLocal n) : (w.completeRequest ⟨n, extent⟩ res).Good none := by
  have idle := good.idle n rfl
  have history : (w.completeRequest ⟨n, extent⟩ res).guest.history = w.guest.history.finish n := by
    apply Guest.answer_history
    rw [ask]
  have ended : ∀ {m}, m ∈ (w.guest.history.finish n).ended ↔ m = n ∨ m ∈ w.guest.history.ended :=
    History.mem_finish idle.begun
  have answers : ∀ m, m ≠ n →
      (w.completeRequest ⟨n, extent⟩ res).guest.answers m = w.guest.answers m := fun m other =>
    Function.update_of_ne other _ _
  have own : (w.completeRequest ⟨n, extent⟩ res).guest.answers n = [(extent.sectors, res)] := by
    simp [completeRequest, Guest.answer, idle.unanswered]
  constructor
  · exact good.running
  · exact good.slots
  · intro i held
    have here := good.requests i held
    have other := idle.unforwarded i held
    apply here.of_same
    · exact here.taken
    · rfl
    · rfl
    · rw [history, ended]
      exact not_or.mpr ⟨other, here.live⟩
    · rw [history]
      exact Nat.le_refl _
    · exact answers _ other
    · rfl
    · rfl
    · rfl
    · rfl
  · exact good.owner
  · intro m held
    have here := good.shares m held
    have other : m ≠ n := by
      rintro rfl
      exact Finset.not_nonempty_empty (idle.unshared ▸ held)
    apply here.of_same
    · rw [history, ended]
      exact not_or.mpr ⟨other, here.live⟩
    · rw [history]
      exact Nat.le_refl _
    · exact answers _ other
    · rfl
    · rfl
    · exact fun _ => id
  · intro m bound
    rw [history] at bound
    rw [answers m (Nat.ne_of_gt (idle.begun.trans_le bound))]
    exact good.unasked m bound
  · intro m bound live _
    rw [history] at bound live
    obtain ⟨other, live⟩ := not_or.mp (mt ended.mpr live)
    exact good.owned m bound live fun same => other (Option.some.inj same).symm
  · intro _ held
    cases held
  · intro m
    apply Guest.Once.answer good.once
    · simp [Guest.answered, idle.unanswered]
    · rw [ask]
  · intro m member
    rw [history] at member
    change (w.guest.ask m).sectors ⊆ _
    by_cases same : m = n
    · subst same
      intro x inside
      exact Guest.mem_answered_answer.mpr (.inr (ask ▸ inside))
    · unfold Guest.answered
      rw [answers m same]
      exact good.done m ((ended.mp member).resolve_left same)
  · intro m member succeeded
    rw [history] at member
    by_cases same : m = n
    · subst same
      have zero := succeeded (extent.sectors, res) (own ▸ List.mem_singleton_self _)
      exact .inl ((written zero).of_same rfl rfl)
    · apply (good.written m ((ended.mp member).resolve_left same) _).of_same rfl rfl id fun _ => id
      exact fun answer found => succeeded answer (answers m same ▸ found)
  · intro t
    rw [history]
    exact (good.leaves t).finish
  · exact good.kept
  · exact good.origin
  · exact good.alone
  · intro m bound
    rw [history] at bound ⊢
    exact good.early m bound
  · exact good.full
  · intro r bound route m seen succeeded
    have other : m ≠ n := by
      rintro rfl
      exact idle.live (w.guest.seen_ended r seen)
    apply (good.seenLocal r bound route m seen _).of_same rfl rfl
    exact fun answer found => succeeded answer (answers m other ▸ found)
  · exact good.reads.answer idle.live
  · intro m bound
    rw [history] at bound
    exact good.asked m bound

theorem Good.forward (good : w.Good (some n)) (small : i < maxReq) (taken : i ∉ w.free)
    (free : w.forwarded i = ∅) (ask : w.guest.ask n = extent) (positive : extent.sectors.Nonempty)
    (origin : w.origin n = .localLeaf) :
    ({ w with
      reqv := Function.update w.reqv i ⟨⟨n, extent⟩, extent.secs, error⟩
      forwarded := Function.update w.forwarded i extent.sectors } : Lle).Good none := by
  have idle := good.idle n rfl
  have forwarded : ∀ j, j ≠ i → Function.update w.forwarded i extent.sectors j = w.forwarded j :=
    fun j ne => Function.update_of_ne ne _ _
  have reqv : ∀ j, j ≠ i → Function.update w.reqv i ⟨⟨n, extent⟩, extent.secs, error⟩ j = w.reqv j :=
    fun j ne => Function.update_of_ne ne _ _
  constructor
  · exact good.running
  · exact good.slots
  · intro j held
    by_cases same : j = i
    · subst same
      refine ⟨small, taken, ?_, ?_, ?_, ?_, ?_, ?_, ?_, ?_, ?_⟩ <;> simp only [Function.update_self]
      · exact idle.live
      · exact idle.begun
      · exact idle.unanswered
      · exact idle.unshared
      · exact ask
      · simp [Tapdisk.Extent.sectors]
      · exact Finset.Subset.refl _
      · exact fun x inside => .inl inside
      · exact origin
    · have here := good.requests j (forwarded j same ▸ held)
      exact here.of_same here.taken (reqv j same) (forwarded j same) here.live (Nat.le_refl _) rfl rfl rfl rfl rfl
  · intro j k held held' write
    change (Function.update w.reqv i _ j).treq.write = (Function.update w.reqv i _ k).treq.write at write
    by_cases first : j = i <;> by_cases second : k = i
    · rw [first, second]
    · rw [first, Function.update_self, reqv k second] at write
      exact absurd write.symm (idle.unforwarded k (forwarded k second ▸ held'))
    · rw [second, Function.update_self, reqv j first] at write
      exact absurd write (idle.unforwarded j (forwarded j first ▸ held))
    · rw [reqv j first, reqv k second] at write
      exact good.owner j k (forwarded j first ▸ held) (forwarded k second ▸ held') write
  · intro m held
    have here := good.shares m held
    exact here.of_same here.live (Nat.le_refl _) rfl rfl rfl fun _ => id
  · exact good.unasked
  · intro m bound live _
    by_cases same : m = n
    · subst same
      refine .inr ⟨i, ?_, ?_⟩
      · simpa using positive
      · simp
    · refine (good.owned m bound live fun hole => same (Option.some.inj hole).symm).imp id ?_
      rintro ⟨j, held, write⟩
      have ne : j ≠ i := by
        rintro rfl
        exact Finset.not_nonempty_empty (free ▸ held)
      refine ⟨j, ?_, ?_⟩
      · simpa [ne] using held
      · simpa [ne] using write
  · intro _ held
    cases held
  · exact good.once
  · exact good.done
  · exact fun m ended succeeded => (good.written m ended succeeded).of_same rfl rfl id fun _ => id
  · exact good.leaves
  · exact good.kept
  · exact good.origin
  · exact good.alone
  · exact good.early
  · exact good.full
  · exact fun r bound route m seen succeeded =>
      (good.seenLocal r bound route m seen succeeded).of_same rfl rfl
  · exact good.reads
  · exact good.asked

theorem Good.share (good : w.Good (some n)) (ask : w.guest.ask n = extent)
    (positive : extent.sectors.Nonempty) (mode : w.mode = .shared) :
    (w.queueShared ⟨n, extent⟩).Good none := by
  have idle := good.idle n rfl
  have other : ∀ m, m ≠ n → (w.queueShared ⟨n, extent⟩).sharing m = w.sharing m := fun m ne =>
    Function.update_of_ne ne _ _
  have own : (w.queueShared ⟨n, extent⟩).sharing n = extent.sectors := Function.update_self ..
  constructor
  · exact good.running
  · exact good.slots
  · intro i held
    have here := good.requests i held
    exact here.of_same here.taken rfl rfl here.live (Nat.le_refl _) rfl (other _ (idle.unforwarded i held))
      rfl rfl rfl
  · exact good.owner
  · intro m held
    by_cases same : m = n
    · subst same
      have nothing : (w.queueShared ⟨m, extent⟩).guest.answered m = ∅ := by
        simp [queueShared, Guest.answered, idle.unanswered]
      refine ⟨idle.live, idle.begun, ?_, ?_, ?_, ?_⟩
      · rw [own, ← ask]
        exact Finset.subset_union_right
      · rw [nothing]
        exact Finset.disjoint_empty_left _
      · rw [own, ← ask]
        rfl
      · intro answer member
        exact absurd (show answer ∈ w.guest.answers m from member) (by simp [idle.unanswered])
    · have here := good.shares m (other m same ▸ held)
      exact here.of_same here.live (Nat.le_refl _) rfl rfl (other m same) fun _ => id
  · intro m bound
    rw [other m (Nat.ne_of_gt (idle.begun.trans_le bound))]
    exact good.unasked m bound
  · intro m bound live _
    by_cases same : m = n
    · subst same
      exact .inl (own ▸ positive)
    · rw [other m same]
      exact good.owned m bound live fun hole => same (Option.some.inj hole).symm
  · intro _ held
    cases held
  · exact good.once
  · exact good.done
  · exact fun m ended succeeded => (good.written m ended succeeded).of_same rfl rfl id fun _ => id
  · exact good.leaves
  · exact good.kept
  · exact good.origin
  · exact fun mode' => nomatch mode.symm.trans mode'
  · exact good.early
  · exact good.full
  · exact fun r bound route m seen succeeded =>
      (good.seenLocal r bound route m seen succeeded).of_same rfl rfl
  · exact good.reads
  · exact good.asked

theorem Good.switch (good : w.Good hole) (full : w.Full) : ({ w with mode := .shared } : Lle).Good hole := by
  constructor
  · exact good.running
  · exact good.slots
  · intro i held
    have here := good.requests i held
    exact here.of_same here.taken rfl rfl here.live (Nat.le_refl _) rfl rfl rfl rfl rfl
  · exact good.owner
  · intro m held
    have here := good.shares m held
    exact here.of_same here.live (Nat.le_refl _) rfl rfl rfl fun _ => id
  · exact good.unasked
  · exact good.owned
  · exact fun m idle => (good.idle m idle).of_same rfl rfl (good.idle m idle).unforwarded
  · exact good.once
  · exact good.done
  · exact fun m ended succeeded => (good.written m ended succeeded).of_same rfl rfl id fun _ => id
  · exact good.leaves
  · exact good.kept
  · exact good.origin
  · exact nofun
  · exact good.early
  · exact fun _ => full
  · exact fun r bound route m seen succeeded =>
      (good.seenLocal r bound route m seen succeeded).of_same rfl rfl
  · exact good.reads
  · exact good.asked

def gaveBack (w : Lle) (i : Nat) (part : Finset Nat) (error merged : Int) : Lle :=
  { w.giveBack i part error with
    reqv := Function.update w.reqv i
      { w.reqv i with pending := (w.reqv i).pending - part.card, error := merged } }

theorem gaveBack_treq {merged : Int} (j : Nat) :
    ((w.gaveBack i part error merged).reqv j).treq = (w.reqv j).treq := by
  by_cases same : j = i <;> simp [gaveBack, same]

theorem gaveBack_outcome {merged : Int} (other : n ≠ (w.reqv i).treq.write) :
    (w.gaveBack i part error merged).outcome n = w.outcome n := Function.update_of_ne other _ _

theorem gaveBack_outcome_self {merged : Int} : (w.gaveBack i part error merged).outcome (w.reqv i).treq.write =
    w.outcome (w.reqv i).treq.write ++ [(part, error)] := Function.update_self ..

theorem gaveBack_full {merged : Int} (full : w.Full) : (w.gaveBack i part error merged).Full := by
  obtain ⟨n, answer, member, space⟩ := full
  refine ⟨n, answer, ?_, space⟩
  by_cases own : n = (w.reqv i).treq.write
  · rw [own, gaveBack_outcome_self, ← own]
    exact List.mem_append_left _ member
  · rw [gaveBack_outcome own]
    exact member

theorem Good.gaveBack (good : w.Good none) (some : part.Nonempty) (inside : part ⊆ w.forwarded i)
    (done : error = 0 → ∀ x ∈ part, (w.leaf .localLeaf).stored (w.reqv i).treq.write x = true) (merged : Int) :
    (w.gaveBack i part error merged).Good
      (if part = w.forwarded i then Option.some (w.reqv i).treq.write else none) := by
  have held := some.mono inside
  have own := good.requests i held
  have forwarded : ∀ j, j ≠ i → (w.gaveBack i part error merged).forwarded j = w.forwarded j :=
    fun j ne => Function.update_of_ne ne _ _
  have forwarded_self : (w.gaveBack i part error merged).forwarded i = w.forwarded i \ part :=
    Function.update_self ..
  have before : ∀ j, ((w.gaveBack i part error merged).forwarded j).Nonempty → (w.forwarded j).Nonempty := by
    intro j held'
    by_cases same : j = i
    · exact same ▸ held
    · exact forwarded j same ▸ held'
  have write : ∀ j, j ≠ i → (w.forwarded j).Nonempty → (w.reqv j).treq.write ≠ (w.reqv i).treq.write :=
    fun j ne held' same => ne (good.owner j i held' held same)
  constructor
  · exact good.running
  · exact good.slots
  · intro j held'
    by_cases same : j = i
    · subst same
      refine ⟨own.small, own.taken, ?_, ?_, ?_, ?_, ?_, ?_, ?_, ?_, ?_⟩ <;> try rw [gaveBack_treq]
      · exact own.live
      · exact own.begun
      · exact own.unanswered
      · exact own.unshared
      · exact own.extent
      · rw [forwarded_self, Finset.card_sdiff_of_subset inside, ← own.pending]
        simp [Lle.gaveBack]
      · rw [forwarded_self]
        exact Finset.sdiff_subset.trans own.inside
      · intro x asked
        rw [forwarded_self, gaveBack_outcome_self]
        rcases own.parts x asked with waiting | ⟨part', member, covers⟩
        · by_cases back : x ∈ part
          · exact .inr ⟨(part, error), List.mem_append_right _ (List.mem_singleton_self _), back⟩
          · exact .inl (Finset.mem_sdiff.mpr ⟨waiting, back⟩)
        · exact .inr ⟨part', List.mem_append_left _ member, covers⟩
      · exact own.origin
    · have here := good.requests j (forwarded j same ▸ held')
      exact here.of_same here.taken (Function.update_of_ne same _ _) (forwarded j same) here.live (Nat.le_refl _)
        rfl rfl rfl (gaveBack_outcome (write j same (forwarded j same ▸ held'))) rfl
  · intro j k first second same
    rw [gaveBack_treq, gaveBack_treq] at same
    exact good.owner j k (before j first) (before k second) same
  · intro m held'
    have here := good.shares m held'
    exact here.of_same here.live (Nat.le_refl _) rfl rfl rfl fun _ => id
  · intro m bound
    rw [gaveBack_outcome (Nat.ne_of_gt (own.begun.trans_le bound))]
    exact good.unasked m bound
  · intro m bound live hole
    by_cases same : m = (w.reqv i).treq.write
    · have some' : part ≠ w.forwarded i := fun all => hole (by rw [if_pos all, same])
      refine .inr ⟨i, ?_, ?_⟩
      · rw [forwarded_self]
        exact Finset.sdiff_nonempty.mpr fun all => some' (Finset.Subset.antisymm inside all)
      · rw [gaveBack_treq, same]
    · refine (good.owned m bound live nofun).imp id ?_
      rintro ⟨j, held', owns⟩
      have ne : j ≠ i := by
        rintro rfl
        exact same owns.symm
      refine ⟨j, ?_, ?_⟩
      · rw [forwarded j ne]
        exact held'
      · rw [gaveBack_treq]
        exact owns
  · intro m hole
    split at hole
    · rename_i all
      cases hole
      refine ⟨own.live, own.begun, own.unanswered, own.unshared, fun j held' => ?_⟩
      rw [gaveBack_treq]
      have ne : j ≠ i := by
        rintro rfl
        rw [forwarded_self, all, sdiff_self] at held'
        exact Finset.not_nonempty_empty held'
      exact write j ne (forwarded j ne ▸ held')
    · cases hole
  · exact good.once
  · exact good.done
  · intro m ended succeeded
    have other : m ≠ (w.reqv i).treq.write := by
      rintro rfl
      exact own.live ended
    exact (good.written m ended succeeded).of_same rfl (gaveBack_outcome other) gaveBack_full fun _ => id
  · exact good.leaves
  · intro m answer member
    by_cases same : m = (w.reqv i).treq.write
    · subst same
      rw [gaveBack_outcome_self] at member
      rcases List.mem_append.mp member with old | new
      · exact good.kept _ answer old
      · cases List.mem_singleton.mp new
        exact done
    · rw [gaveBack_outcome same] at member
      exact good.kept m answer member
  · exact good.origin
  · exact good.alone
  · exact good.early
  · exact fun mode => gaveBack_full (good.full mode)
  · intro r bound route m seen succeeded
    have other : m ≠ (w.reqv i).treq.write := by
      rintro rfl
      exact own.live (w.guest.seen_ended r seen)
    exact (good.seenLocal r bound route m seen succeeded).of_same rfl (gaveBack_outcome other)
  · exact good.reads
  · exact good.asked

theorem storeIn_same {target : Target} : (w.storeIn target n x).leaf target = (w.leaf target).put n x :=
  Function.update_self ..

theorem storeIn_keeps {target t : Target} {y : Nat} (stored : (w.leaf t).stored m y = true) :
    ((w.storeIn target n x).leaf t).stored m y = true := by
  by_cases same : t = target
  · rw [same, storeIn_same]
    exact Store.put_keeps (same ▸ stored)
  · simpa [storeIn, same] using stored

def Allows (w : Lle) (n : Nat) : Target → Prop
  | .localLeaf => w.origin n = .localLeaf
  | .sharedLeaf => w.mode = .shared

theorem Good.storeIn (good : w.Good hole) {target : Target} (live : n ∉ w.guest.history.ended)
    (begun : n < w.guest.history.count) (allows : w.Allows n target) :
    (w.storeIn target n x).Good hole := by
  have stored : ∀ t m y, ((w.storeIn target n x).leaf t).stored m y = true →
      (w.leaf t).stored m y = true ∨ t = target ∧ m = n := by
    intro t m y held
    by_cases same : t = target
    · rw [same, storeIn_same] at held
      by_cases own : m = n
      · exact .inr ⟨same, own⟩
      · exact .inl (by simpa [Store.put, own, same] using held)
    · exact .inl (by simpa [Lle.storeIn, same] using held)
  constructor
  · exact good.running
  · exact good.slots
  · intro i held
    have here := good.requests i held
    exact here.of_same here.taken rfl rfl here.live (Nat.le_refl _) rfl rfl rfl rfl rfl
  · exact good.owner
  · intro m held
    have here := good.shares m held
    exact here.of_same here.live (Nat.le_refl _) rfl rfl rfl fun y => storeIn_keeps
  · exact good.unasked
  · exact good.owned
  · exact fun m idle => (good.idle m idle).of_same rfl rfl (good.idle m idle).unforwarded
  · exact good.once
  · exact good.done
  · exact fun m ended succeeded =>
      (good.written m ended succeeded).of_same rfl rfl id fun y => storeIn_keeps
  · intro t
    by_cases same : t = target
    · rw [same, storeIn_same]
      exact (good.leaves target).put begun live
    · simpa [Lle.storeIn, same] using good.leaves t
  · exact fun m part member worked y inside => storeIn_keeps (good.kept m part member worked y inside)
  · intro m y held
    rcases stored _ m y held with old | ⟨same, rfl⟩
    · exact good.origin m y old
    · subst same
      exact allows
  · intro mode m
    refine ⟨(good.alone mode m).1, fun y => Bool.eq_false_iff.mpr fun held => ?_⟩
    rcases stored _ m y held with old | ⟨same, rfl⟩
    · cases old.symm.trans ((good.alone mode m).2 y)
    · subst same
      cases allows.symm.trans mode
  · intro k bound origin m y held
    rcases stored _ m y held with old | ⟨_, rfl⟩
    · exact good.early k bound origin m y old
    · exact fun member => live (w.guest.history.past k member)
  · exact good.full
  · exact fun r bound route m seen succeeded =>
      (good.seenLocal r bound route m seen succeeded).of_same rfl rfl
  · exact good.reads
  · exact good.asked

def shareAnswered (w : Lle) (n : Nat) (part : Finset Nat) (res : Int) : Lle :=
  { w with
    sharing := Function.update w.sharing n (w.sharing n \ part)
    guest := w.guest.answer n part res }

theorem Good.shareAnswered (good : w.Good none) (some : part.Nonempty) (inside : part ⊆ w.sharing n)
    (done : res = 0 → ∀ x ∈ part, (w.leaf .sharedLeaf).stored n x = true) :
    (w.shareAnswered n part res).Good none := by
  have held := some.mono inside
  have own := good.shares n held
  have mode : w.mode = .shared := by
    cases mode : w.mode with
    | localLeaf => exact absurd ((good.alone mode n).1 ▸ held) Finset.not_nonempty_empty
    | shared => rfl
  have count : (w.shareAnswered n part res).guest.history.count = w.guest.history.count := Guest.answer_count
  have ended : ∀ {m}, m ∈ (w.shareAnswered n part res).guest.history.ended ↔
      m = n ∧ (w.guest.ask n).sectors ⊆ w.guest.answered n ∪ part ∨ m ∈ w.guest.history.ended :=
    Guest.mem_ended_answer own.begun
  have answers : ∀ m, m ≠ n → (w.shareAnswered n part res).guest.answers m = w.guest.answers m :=
    fun m other => Function.update_of_ne other _ _
  have answers_self : (w.shareAnswered n part res).guest.answers n = w.guest.answers n ++ [(part, res)] :=
    Function.update_self ..
  have sharing : ∀ m, m ≠ n → (w.shareAnswered n part res).sharing m = w.sharing m :=
    fun m other => Function.update_of_ne other _ _
  have sharing_self : (w.shareAnswered n part res).sharing n = w.sharing n \ part := Function.update_self ..
  have unshared : ∀ i, (w.forwarded i).Nonempty → (w.reqv i).treq.write ≠ n := by
    rintro i held' rfl
    exact Finset.not_nonempty_empty ((good.requests i held').unshared ▸ held)
  have left : ∀ x, x ∈ w.sharing n → x ∉ part → ¬ (w.guest.ask n).sectors ⊆ w.guest.answered n ∪ part := by
    intro x waiting other all
    rcases Finset.mem_union.mp (all (own.inside waiting)) with answered | back
    · exact Finset.disjoint_left.mp own.apart answered waiting
    · exact other back
  constructor
  · exact good.running
  · exact good.slots
  · intro i held'
    have here := good.requests i held'
    have other := unshared i held'
    apply here.of_same
    · exact here.taken
    · rfl
    · rfl
    · rw [ended]
      exact not_or.mpr ⟨fun same => other same.1, here.live⟩
    · exact count.ge
    · exact answers _ other
    · exact sharing _ other
    · rfl
    · rfl
    · rfl
  · exact good.owner
  · intro m held'
    by_cases same : m = n
    · subst same
      rw [sharing_self] at held'
      obtain ⟨x, waiting⟩ := held'
      obtain ⟨waiting, other⟩ := Finset.mem_sdiff.mp waiting
      refine ⟨?_, count ▸ own.begun, ?_, ?_, ?_, ?_⟩
      · rw [ended]
        exact not_or.mpr ⟨fun all => left x waiting other all.2, own.live⟩
      · intro y asked
        rw [sharing_self, Finset.mem_union, Finset.mem_sdiff]
        rcases Finset.mem_union.mp (own.covers asked) with answered | waiting'
        · exact .inl (Guest.mem_answered_answer.mpr (.inl answered))
        · by_cases back : y ∈ part
          · exact .inl (Guest.mem_answered_answer.mpr (.inr back))
          · exact .inr ⟨waiting', back⟩
      · rw [sharing_self, Finset.disjoint_left]
        intro y answered waiting'
        obtain ⟨waiting', other'⟩ := Finset.mem_sdiff.mp waiting'
        rcases Guest.mem_answered_answer.mp answered with answered | back
        · exact Finset.disjoint_left.mp own.apart answered waiting'
        · exact other' back
      · rw [sharing_self]
        exact Finset.sdiff_subset.trans own.inside
      · intro answer member worked
        rw [answers_self] at member
        rcases List.mem_append.mp member with old | new
        · exact own.stored answer old worked
        · cases List.mem_singleton.mp new
          exact done worked
    · have here := good.shares m (sharing m same ▸ held')
      apply here.of_same
      · rw [ended]
        exact not_or.mpr ⟨fun own => same own.1, here.live⟩
      · exact count.ge
      · exact answers m same
      · rfl
      · exact sharing m same
      · exact fun _ => id
  · intro m bound
    rw [count] at bound
    have other : m ≠ n := Nat.ne_of_gt (own.begun.trans_le bound)
    rw [answers m other, sharing m other]
    exact good.unasked m bound
  · intro m bound live _
    rw [count] at bound
    obtain ⟨some', live⟩ := not_or.mp (mt ended.mpr live)
    by_cases same : m = n
    · subst same
      obtain ⟨x, asked, missing⟩ := Finset.not_subset.mp fun all => some' ⟨rfl, all⟩
      obtain ⟨unanswered, other⟩ := not_or.mp (mt Finset.mem_union.mpr missing)
      have waiting := (Finset.mem_union.mp (own.covers asked)).resolve_left unanswered
      exact .inl ⟨x, sharing_self ▸ Finset.mem_sdiff.mpr ⟨waiting, other⟩⟩
    · rw [sharing m same]
      exact good.owned m bound live nofun
  · intro _ held
    cases held
  · intro m
    apply Guest.Once.answer good.once
    · exact own.apart.mono_right inside
    · exact inside.trans own.inside
  · intro m member
    rcases ended.mp member with ⟨rfl, all⟩ | old
    · intro x asked
      exact Guest.mem_answered_answer.mpr (Finset.mem_union.mp (all asked))
    · have other : m ≠ n := fun same => own.live (same ▸ old)
      change (w.guest.ask m).sectors ⊆ _
      unfold Guest.answered
      rw [answers m other]
      exact good.done m old
  · intro m member succeeded
    rcases ended.mp member with ⟨rfl, all⟩ | old
    · refine .inr ⟨good.full mode, fun x asked => ?_⟩
      rcases Finset.mem_union.mp (all asked) with answered | back
      · obtain ⟨answer, found, covers⟩ := Guest.mem_answered.mp answered
        refine own.stored answer found (succeeded answer ?_) x covers
        rw [answers_self]
        exact List.mem_append_left _ found
      · refine done (succeeded (part, res) ?_) x back
        rw [answers_self]
        exact List.mem_append_right _ (List.mem_singleton_self _)
    · have other : m ≠ n := fun same => own.live (same ▸ old)
      apply (good.written m old _).of_same rfl rfl id fun _ => id
      exact fun answer found => succeeded answer (answers m other ▸ found)
  · intro t
    change (w.leaf t).Recent (if _ then _ else _ : History)
    split
    · exact (good.leaves t).finish
    · exact good.leaves t
  · exact good.kept
  · exact good.origin
  · exact fun mode' => nomatch mode.symm.trans mode'
  · intro m bound
    rw [count] at bound
    rw [show (w.shareAnswered n part res).guest.history.before = _ from Guest.answer_before]
    exact good.early m bound
  · exact good.full
  · intro r bound route m seen succeeded
    have other : m ≠ n := by
      rintro rfl
      exact own.live (w.guest.seen_ended r seen)
    apply (good.seenLocal r bound route m seen _).of_same rfl rfl
    exact fun answer found => succeeded answer (answers m other ▸ found)
  · exact good.reads.answer own.live
  · intro m bound
    rw [count] at bound
    exact good.asked m bound

theorem Good.startRead (good : w.Good none) :
    ({ w with guest := w.guest.startRead extent, route := Function.update w.route w.guest.reads w.mode } :
      Lle).Good none := by
  constructor
  · exact good.running
  · exact good.slots
  · intro i held
    have here := good.requests i held
    exact here.of_same here.taken rfl rfl here.live (Nat.le_refl _) rfl rfl rfl rfl rfl
  · exact good.owner
  · intro m held
    have here := good.shares m held
    exact here.of_same here.live (Nat.le_refl _) rfl rfl rfl fun _ => id
  · exact good.unasked
  · exact good.owned
  · intro _ held
    cases held
  · exact good.once
  · exact good.done
  · exact fun m ended succeeded => (good.written m ended succeeded).of_same rfl rfl id fun _ => id
  · exact good.leaves
  · exact good.kept
  · exact good.origin
  · exact good.alone
  · exact good.early
  · exact good.full
  · intro r bound route n seen succeeded
    by_cases new : r = w.guest.reads
    · have mode : w.mode = .localLeaf := by simpa [new] using route
      have ended : n ∈ w.guest.history.ended := by simpa [Guest.startRead, new] using seen
      rcases good.written n ended succeeded with written | ⟨_, stored⟩
      · exact written.of_same rfl rfl
      · obtain ⟨x, inside⟩ := good.asked n (w.guest.history.begun n ended)
        cases (stored x inside).symm.trans ((good.alone mode n).2 x)
    · refine WrittenLocal.of_same (good.seenLocal r (Nat.lt_of_le_of_ne (Nat.le_of_lt_succ bound) new) ?_ n
        ?_ succeeded) rfl rfl
      · simpa [new] using route
      · simpa [Guest.startRead, new] using seen
  · exact good.reads.startRead
  · exact good.asked

theorem Good.fetch (good : w.Good none) (bound : r < w.guest.reads) (meets : w.Meets (.fetch r x)) :
    ({ w with guest := w.guest.fetch r {x} (w.shows (w.route r) x) } : Lle).Good none := by
  constructor
  · exact good.running
  · exact good.slots
  · intro i held
    have here := good.requests i held
    exact here.of_same here.taken rfl rfl here.live (Nat.le_refl _) rfl rfl rfl rfl rfl
  · exact good.owner
  · intro m held
    have here := good.shares m held
    exact here.of_same here.live (Nat.le_refl _) rfl rfl rfl fun _ => id
  · exact good.unasked
  · exact good.owned
  · intro _ held
    cases held
  · exact good.once
  · exact good.done
  · exact fun m ended succeeded => (good.written m ended succeeded).of_same rfl rfl id fun _ => id
  · exact good.leaves
  · exact good.kept
  · exact good.origin
  · exact good.alone
  · exact good.early
  · exact good.full
  · intro s bound' route n seen succeeded
    refine WrittenLocal.of_same (good.seenLocal s bound' route n ?_ succeeded) rfl rfl
    by_cases same : s = r
    · simpa [Guest.fetch, same] using seen
    · simpa [Guest.fetch, same] using seen
  · apply good.reads.fetch
    intro y member
    cases Finset.mem_singleton.mp member
    exact good.shows bound meets
  · exact good.asked

theorem sectors_nonempty (positive : extent.secs ≠ 0) : extent.sectors.Nonempty :=
  Finset.nonempty_Ico.mpr (Nat.lt_add_of_pos_right (Nat.pos_of_ne_zero positive))

theorem Good.queueWrite (good : w.Good none) (positive : extent.secs ≠ 0) (ready : Bool) :
    ((w.started extent).queueWrite ⟨w.guest.history.count, extent⟩ ready).Good none := by
  have some := sectors_nonempty positive
  have started := good.start some
  have ask : (w.started extent).guest.ask w.guest.history.count = extent := Function.update_self ..
  have failed : ∀ {v : Lle}, v.Good (Option.some w.guest.history.count) →
      v.guest.ask w.guest.history.count = extent →
      (v.completeRequest ⟨w.guest.history.count, extent⟩ (-ebusy)).Good none := fun good asks =>
    good.answerWhole asks fun zero => absurd zero (by decide)
  unfold Lle.queueWrite
  split
  · rename_i mode
    unfold forwardWrite
    split
    · exact failed started ask
    · rename_i i rest free
      obtain ⟨small, out, slots⟩ := ((show w.free = i :: rest from free) ▸ good.slots).head
      have taken : ∀ j, (w.forwarded j).Nonempty → j ∉ rest ∧ j ≠ i := by
        intro j held
        have taken := (good.requests j held).taken
        rw [show w.free = i :: rest from free] at taken
        exact ⟨fun found => taken (List.mem_cons_of_mem _ found), fun same => taken (same ▸ List.mem_cons_self)⟩
      have unforwarded : w.forwarded i = ∅ := Finset.not_nonempty_iff_eq_empty.mp fun held =>
        (taken i held).2 rfl
      split
      · have resized := started.resize slots fun j held => ⟨(taken j held).1, rfl⟩
        exact resized.forward small out unforwarded ask some
          (show Function.update _ _ _ _ = _ from (Function.update_self ..).trans mode)
      · apply failed
        · exact started.resize slots fun j held =>
            ⟨(taken j held).1, Function.update_of_ne (taken j held).2 _ _⟩
        · exact ask
  · rename_i mode
    exact started.share ask some mode

theorem Good.freeRequest (good : w.Good none) (small : i < maxReq) (taken : i ∉ w.free)
    (empty : w.forwarded i = ∅) : (w.freeRequest i).Good none := by
  unfold Lle.freeRequest
  rw [if_neg (Nat.not_le.mpr (good.slots.length_lt small taken))]
  apply good.resize
  · exact good.slots.cons small taken
  · refine fun j held => ⟨fun member => ?_, rfl⟩
    rcases List.mem_cons.mp member with rfl | member
    · exact Finset.not_nonempty_empty (empty ▸ held)
    · exact (good.requests j held).taken member

theorem writeCb_giveBack (enough : part.card ≤ (w.reqv i).pending) :
    (w.giveBack i part error).writeCb i part.card error =
      if (w.reqv i).pending - part.card ≠ 0 then w.gaveBack i part error (llWriteError (w.reqv i).error error)
      else if llWriteError (w.reqv i).error error = -enospc then
        (queueShared
          { w.gaveBack i part error (llWriteError (w.reqv i).error error) with mode := .shared }
          (w.reqv i).treq).freeRequest i
      else
        ((w.gaveBack i part error (llWriteError (w.reqv i).error error)).completeRequest
          (w.reqv i).treq error).freeRequest i :=
  if_neg (Nat.not_lt.mpr enough)

theorem Good.backPart (good : w.Good none) (some : part.Nonempty) (inside : part ⊆ w.forwarded i)
    (done : error = 0 → ∀ x ∈ part, (w.leaf .localLeaf).stored (w.reqv i).treq.write x = true)
    (meets : w.Meets (.part i part error)) : ((w.giveBack i part error).writeCb i part.card error).Good none := by
  have own := good.requests i (some.mono inside)
  have gave := good.gaveBack some inside done (llWriteError (w.reqv i).error error)
  rw [writeCb_giveBack (own.pending ▸ Finset.card_le_card inside)]
  by_cases all : part = w.forwarded i
  · have last : (w.reqv i).pending - part.card = 0 := by rw [own.pending, all, Nat.sub_self]
    rw [if_pos all] at gave
    have empty : (w.gaveBack i part error (llWriteError (w.reqv i).error error)).forwarded i = ∅ :=
      (Function.update_self ..).trans (by rw [all, Finset.sdiff_self])
    rw [if_neg (not_not.mpr last)]
    split
    · rename_i space
      have full : (w.gaveBack i part error (llWriteError (w.reqv i).error error)).Full := by
        refine ⟨(w.reqv i).treq.write, (part, error), ?_, ?_⟩
        · rw [gaveBack_outcome_self]
          exact List.mem_append_right _ (List.mem_singleton_self _)
        · rcases llWriteError_or (w.reqv i).error error with zero | kept
          · exact absurd (zero.symm.trans space) (by decide)
          · exact kept.symm.trans space
      have shared := (gave.switch full).share own.extent ((some.mono inside).mono own.inside) rfl
      exact shared.freeRequest own.small own.taken empty
    · have whole : ((w.gaveBack i part error (llWriteError (w.reqv i).error error)).completeRequest
          (w.reqv i).treq error).Good none := by
        refine gave.answerWhole own.extent fun zero => ⟨fun x asked => ?_, fun answer member => ?_⟩
        · rw [gaveBack_outcome_self]
          rcases own.parts x (own.extent ▸ asked) with waiting | ⟨answer, member, covers⟩
          · exact ⟨(part, error), List.mem_append_right _ (List.mem_singleton_self _), all ▸ waiting⟩
          · exact ⟨answer, List.mem_append_left _ member, covers⟩
        · rw [gaveBack_outcome_self] at member
          rcases List.mem_append.mp member with old | new
          · exact meets zero all answer old
          · cases List.mem_singleton.mp new
            exact zero
      exact whole.freeRequest own.small own.taken empty
  · have more : (w.reqv i).pending - part.card ≠ 0 := by
      rw [own.pending]
      exact Nat.sub_ne_zero_of_lt (Finset.card_lt_card (inside.ssubset_of_ne all))
    rw [if_neg all] at gave
    rw [if_pos more]
    exact gave

theorem Good.step (good : w.Good none) {event : Event} (meets : w.Meets event)
    (action : w.step event = some w') : w'.Good none := by
  unfold Lle.step at action
  rw [if_neg (by simp [good.running])] at action
  cases event with
  | write extent ready =>
      dsimp only at action
      split at action
      · cases action
      · cases action
        exact good.queueWrite ‹_› ready
  | store i x =>
      dsimp only at action
      split at action
      · rename_i waiting
        cases action
        have own := good.requests i ⟨x, waiting⟩
        exact good.storeIn own.live own.begun own.origin
      · cases action
  | part i part error =>
      dsimp only at action
      split at action
      · rename_i possible
        cases action
        exact good.backPart possible.1 possible.2.1 possible.2.2 meets
      · cases action
  | shareStore n x =>
      dsimp only at action
      split at action
      · rename_i waiting
        cases action
        have own := good.shares n ⟨x, waiting⟩
        refine good.storeIn own.live own.begun ?_
        change w.mode = .shared
        cases mode : w.mode with
        | localLeaf => exact absurd ((good.alone mode n).1 ▸ waiting) (Finset.notMem_empty x)
        | shared => rfl
      · cases action
  | shareAnswer n part res =>
      dsimp only at action
      split at action
      · rename_i possible
        cases action
        exact good.shareAnswered possible.1 possible.2.1 possible.2.2
      · cases action
  | read extent =>
      dsimp only at action
      split at action
      · cases action
      · cases action
        exact good.startRead
  | fetch r x =>
      dsimp only at action
      split at action
      · rename_i possible
        cases action
        exact good.fetch possible.1 meets
      · cases action

end Lle

end Blktap.Llcache
