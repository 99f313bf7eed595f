import Blktap.Tapdisk.FilterTurns
import Blktap.Tapdisk.TqueueLinks

/-! # Callbacks of a queue with a filter -/

namespace Blktap.Tapdisk.Filter
open Optimize Tqueue

def handed (s : Filtered) (record : Nat → Nat) (flight : List Nat) (t : Nat) : Iocb :=
  if s.faulted t = true ∧ t ∈ flight then hidden s.filter (s.asked t) (record t) else s.asked t

def Tfilter.pool (f : Tfilter) : Nat := if f.injects then f.iocbs else 0

structure Held (s : Filtered) (record : Nat → Nat) (groups : List Group) (flight : List Nat) : Prop where
  represents : Represents s.mem.numOpios (handed s record flight) s.mem groups
  all : (groups.flatMap Group.iocbs).Perm flight
  pool : (s.filter.flist ++ (flight.filter s.faulted).map record).Perm (List.range s.filter.pool)
  saved : ∀ t ∈ flight, s.faulted t = true →
    s.filter.records (record t) = ⟨(s.asked t).nbytes, (s.asked t).data⟩
  failed : ∀ t ∈ flight, s.failed t = false

structure Fine (s : Filtered) (t : Nat) : Prop where
  own : (s.asked t).data = .user t
  outside : s.filter.has t = false
  inside : (s.asked t).buf.toNat + (s.asked t).nbytes.toNat < 2 ^ 63

def waiting (s : Filtered) (deferred work : List Nat) : List Nat :=
  deferred ++ s.queue.queued ++ s.queue.inFlight.flatten ++ work

def Correct (s : Filtered) (t : Nat) (res : BitVec 64) : Prop :=
  res ≠ (s.asked t).nbytes ↔ s.faulted t = true ∨ s.failed t = true

structure Core (s : Filtered) (record : Nat → Nat) (groups : List Group) (deferred work : List Nat) : Prop where
  held : Held s record groups s.queue.inFlight.flatten
  inFlight : (groups.map Group.iocbs).Perm s.queue.inFlight
  links : s.queue.Links deferred
  nodup : (waiting s deferred work).Nodup
  once : ((s.calls.map fun call => (call.tiocb, call.iocb)) ++
    (waiting s deferred work).map fun t => (t, s.asked t)).Perm s.requests
  own : ∀ r ∈ s.requests, r.2.data = .user r.1
  fine : ∀ t ∈ waiting s deferred work, Fine s t
  clear : ∀ t ∈ deferred ++ s.queue.queued, s.faulted t = false ∧ s.failed t = false
  error : ∀ call ∈ s.calls, call.err ≠ 0 ↔ call.faulted = true ∨ call.failed = true

structure Cancelling (s : Filtered) (rest : List Nat) (tiocb : Nat) (left : List Nat) (err : Int) : Prop where
  low : -2 ^ 31 ≤ err
  negative : err < 0
  chained : Chained s.queue.next left
  last : ∀ last ∈ left.getLast?, s.queue.next last = none
  link : tiocb ∉ rest → s.queue.next tiocb = left.head?
  clear : ∀ t ∈ left, s.faulted t = false ∧ s.failed t = true

def Doing (s : Filtered) (rest work : List Nat) : Prop :=
  match s.work with
  | .idle => work = []
  | .events reports => work = reports.map Event.obj ∧ ∀ report ∈ reports, Correct s report.obj report.res
  | .cancel tiocb left err _ => work = left ∧ Cancelling s rest tiocb left err

structure Sound (s : Filtered) (record : Nat → Nat) (groups : List Group) (deferred work : List Nat) : Prop where
  core : Core s record groups deferred work
  doing : Doing s (waiting s deferred work) work

variable {s after : Filtered} {record : Nat → Nat} {groups : List Group} {deferred work : List Nat} {t : Nat}

theorem Held.congr {flight : List Nat} (held : Held s record groups flight) (mem : after.mem = s.mem)
    (filter : after.filter = s.filter) (asked : after.asked = s.asked) (faulted : after.faulted = s.faulted)
    (failed : after.failed = s.failed) : Held after record groups flight := by
  obtain ⟨represents, all, pool, saved, none⟩ := held
  have same : handed after record flight = handed s record flight := by
    funext t
    rw [handed, handed, asked, faulted, filter]
  constructor
  · rw [mem, same]
    exact represents
  · exact all
  · rw [filter, faulted]
    exact pool
  · rw [filter, faulted, asked]
    exact saved
  · rw [failed]
    exact none

theorem Fine.congr (fine : Fine s t) (asked : after.asked = s.asked) (filter : after.filter = s.filter) :
    Fine after t := by
  constructor
  · rw [asked, fine.own]
  · rw [filter, fine.outside]
  · rw [asked]
    exact fine.inside

namespace Core

theorem not_in_flight (core : Core s record groups deferred work) {other : Nat}
    (member : other ∈ deferred ++ s.queue.queued ∨ other ∈ work) : other ∉ s.queue.inFlight.flatten := by
  have nodup := core.nodup
  simp only [waiting, List.nodup_append, List.mem_append] at nodup
  intro inside
  rcases member with before | behind
  · exact nodup.1.2.2 other (List.mem_append.mp before) other inside rfl
  · exact nodup.2.2 other (Or.inr inside) other behind rfl

theorem outstanding (core : Core s record groups deferred work) :
    (waiting s deferred work).Perm s.outstanding := by
  have parts := core.once.map Prod.fst
  simp only [List.map_append, List.map_map] at parts
  have same : (Prod.fst ∘ fun t => (t, s.asked t)) = id := rfl
  rw [same, List.map_id] at parts
  exact perm_diff parts

theorem mem_asked (core : Core s record groups deferred work) (away : t ∉ s.queue.inFlight.flatten) :
    s.mem.iocbs t = s.asked t := by
  rw [core.held.represents.others t fun inside => away (core.held.all.mem_iff.mp inside)]
  exact if_neg fun both => away both.2

theorem tiocbOf (core : Core s record groups deferred work) (away : t ∉ s.queue.inFlight.flatten)
    (member : t ∈ waiting s deferred work) : s.tiocbOf t = some t := by
  have fine := core.fine t member
  simp only [Filtered.tiocbOf, core.mem_asked away, fine.own, fine.outside, Bool.false_eq_true, if_false]

theorem complete {res : BitVec 64} (core : Core s record groups deferred (t :: work)) (correct : Correct s t res)
    (w : Work) : Core (s.completeTiocb t res w) record groups deferred work := by
  have member : t ∈ waiting s deferred (t :: work) := List.mem_append_right _ List.mem_cons_self
  have away : t ∉ s.queue.inFlight.flatten := core.not_in_flight (Or.inr List.mem_cons_self)
  have here := core.mem_asked away
  have sublist : (waiting s deferred work).Sublist (waiting s deferred (t :: work)) :=
    (List.sublist_cons_self t work).append_left _
  refine ⟨core.held.congr rfl rfl rfl rfl rfl, core.inFlight, core.links, core.nodup.sublist sublist, ?_, core.own,
    fun other inside => (core.fine other (sublist.subset inside)).congr rfl rfl, core.clear, ?_⟩
  · refine List.Perm.trans ?_ core.once
    have middle : (waiting s deferred (t :: work)).Perm (t :: waiting s deferred work) := List.perm_middle
    simp only [Filtered.completeTiocb, List.map_append, List.map_cons, List.map_nil, here, List.append_assoc]
    exact (middle.symm.map fun t => (t, s.asked t)).append_left _
  · intro call inside
    rcases List.mem_append.mp inside with before | last
    · exact core.error call before
    · rw [List.mem_singleton.mp last]
      refine Iff.trans ?_ correct
      have error := eventError_range s.mem ⟨t, res⟩
      dsimp only at error
      rw [here] at error
      rcases error with ⟨none, same⟩ | ⟨⟨-, negative⟩, different⟩
      · exact iff_of_false (fun some => some none) fun some => some same
      · exact iff_of_true (Int.ne_of_lt negative) different

end Core

theorem cancelled_correct {err : Int} (low : -2 ^ 31 ≤ err) (negative : err < 0) (fine : Fine s t)
    (failed : s.failed t = true) : Correct s t (BitVec.ofInt 64 err) := by
  have inside := fine.inside
  exact iff_of_true (code_ne _ low negative (by omega)) (Or.inr failed)

namespace Sound

theorem queue (sound : Sound s record groups deferred work) (p : Prep) (allowed : s.Allowed (.queue p)) :
    ∃ deferred', Sound (s.queueTiocb p) record groups deferred' work := by
  obtain ⟨⟨held, inFlight, links, nodup, once, own, fine, clear, error⟩, doing⟩ := sound
  obtain ⟨unused, outside, small⟩ := allowed
  have fresh : p.tiocb ∉ waiting s deferred work := fun member => unused
    ((Core.outstanding ⟨held, inFlight, links, nodup, once, own, fine, clear, error⟩).mem_iff.mp member)
  have away : ∀ {other}, other ∈ waiting s deferred work → other ≠ p.tiocb := by
    rintro other member rfl
    exact fresh member
  have parts := fresh
  simp only [waiting, List.mem_append, not_or] at parts
  obtain ⟨deferred', relinks⟩ := Queue.tapdiskQueueTiocb_links links
    (show p.tiocb ∉ deferred ++ s.queue.queued by simp [parts.1.1.1, parts.1.1.2])
  have same_flight : (s.queueTiocb p).queue.inFlight = s.queue.inFlight := relinks.inFlight
  have perm : (waiting (s.queueTiocb p) deferred' work).Perm (p.tiocb :: waiting s deferred work) := by
    simp only [waiting, same_flight]
    exact (relinks.perm.append_right _).append_right _
  have asked : ∀ other, other ≠ p.tiocb → (s.queueTiocb p).asked other = s.asked other := fun other apart =>
    Function.update_of_ne apart _ _
  have faulted : ∀ other, other ≠ p.tiocb → (s.queueTiocb p).faulted other = s.faulted other := fun other apart =>
    Function.update_of_ne apart _ _
  have failed : ∀ other, other ≠ p.tiocb → (s.queueTiocb p).failed other = s.failed other := fun other apart =>
    Function.update_of_ne apart _ _
  have here : (s.queueTiocb p).asked p.tiocb = p.iocb := Function.update_self ..
  have flight : ∀ other ∈ s.queue.inFlight.flatten, other ≠ p.tiocb := by
    rintro other member rfl
    exact parts.1.2 member
  have inside' : ∀ other ∈ deferred' ++ (s.queueTiocb p).queue.queued, other = p.tiocb ∨
      other ∈ deferred ++ s.queue.queued := by
    intro other member
    simpa using relinks.perm.mem_iff.mp member
  have correct : ∀ other res, other ≠ p.tiocb → Correct s other res → Correct (s.queueTiocb p) other res := by
    intro other res apart correct
    rw [Correct, asked other apart, faulted other apart, failed other apart]
    exact correct
  refine ⟨deferred', ⟨⟨?_, ?_, ?_, ?_, ?_⟩, ?_, relinks.links, ?_, ?_, ?_, ?_, ?_, error⟩, ?_⟩
  · have same : handed (s.queueTiocb p) record (s.queueTiocb p).queue.inFlight.flatten =
        Function.update (handed s record s.queue.inFlight.flatten) p.tiocb p.iocb := by
      funext other
      rw [same_flight]
      by_cases this : other = p.tiocb
      · rw [this, Function.update_self, handed, here]
        exact if_neg fun both => parts.1.2 both.2
      · rw [Function.update_of_ne this, handed, handed, asked other this, faulted other this]
        rfl
    rw [same]
    exact held.represents.prep p.iocb fun inside => parts.1.2 (held.all.mem_iff.mp inside)
  · rw [same_flight]
    exact held.all
  · rw [same_flight, List.filter_congr fun other member => faulted other (flight other member)]
    exact held.pool
  · rw [same_flight]
    intro other member hit
    rw [faulted other (flight other member)] at hit
    rw [asked other (flight other member)]
    exact held.saved other member hit
  · rw [same_flight]
    intro other member
    rw [failed other (flight other member)]
    exact held.failed other member
  · rw [same_flight]
    exact inFlight
  · exact perm.nodup_iff.mpr (List.nodup_cons.mpr ⟨fresh, nodup⟩)
  · have map : (waiting s deferred work).map (fun t => (t, (s.queueTiocb p).asked t)) =
        (waiting s deferred work).map fun t => (t, s.asked t) :=
      List.map_congr_left fun other member => by rw [asked other (away member)]
    have all := perm.map fun t => (t, (s.queueTiocb p).asked t)
    rw [List.map_cons, map, here] at all
    refine (all.append_left _).trans (List.perm_middle.trans ?_)
    exact (once.cons _).trans (@List.perm_append_comm _ [(p.tiocb, p.iocb)] _)
  · intro r member
    rcases List.mem_append.mp member with before | last
    · exact own r before
    · rw [List.mem_singleton.mp last]
      rfl
  · intro other member
    rcases List.mem_cons.mp (perm.mem_iff.mp member) with rfl | before
    · refine ⟨by rw [here]; rfl, outside, by rw [here]; exact small⟩
    · have kept := fine other before
      refine ⟨?_, kept.outside, ?_⟩
      · rw [asked other (away before), kept.own]
      · rw [asked other (away before)]
        exact kept.inside
  · intro other member
    rcases inside' other member with rfl | before
    · exact ⟨Function.update_self .., Function.update_self ..⟩
    · have waits : other ∈ waiting s deferred work := List.mem_append_left _ (List.mem_append_left _ before)
      rw [faulted other (away waits), failed other (away waits)]
      exact clear other before
  · have behind : ∀ {other}, other ∈ work → other ∈ waiting s deferred work := List.mem_append_right _
    have apart : ∀ {other}, other ∈ work → other ∉ deferred ++ s.queue.queued := by
      intro other member inside
      have disjoint := (List.nodup_append.mp nodup).2.2
      exact disjoint other (List.mem_append_left _ inside) other member rfl
    have links' : ∀ other, other ∉ deferred ++ s.queue.queued → other ≠ p.tiocb →
        (s.queueTiocb p).queue.next other = s.queue.next other := fun other place different =>
      relinks.others other place (by simpa using different)
    unfold Doing at doing ⊢
    change match s.work with | .idle => _ | .events reports => _ | .cancel tiocb left err _ => _
    split at doing
    · exact doing
    · obtain ⟨rfl, all⟩ := doing
      refine ⟨rfl, fun report member => ?_⟩
      exact correct _ _ (away (behind (List.mem_map_of_mem member))) (all report member)
    · obtain ⟨rfl, cancelling⟩ := doing
      refine ⟨rfl, cancelling.low, cancelling.negative, cancelling.chained.congr ?_, ?_, ?_, ?_⟩
      · exact fun other member => links' other (apart member) (away (behind member))
      · intro last member
        have inside := List.mem_of_mem_getLast? member
        rw [links' last (apart inside) (away (behind inside))]
        exact cancelling.last last member
      · intro gone
        have gone' : _ ∉ p.tiocb :: waiting s deferred work := fun member => gone (perm.mem_iff.mpr member)
        rw [List.mem_cons, not_or] at gone'
        rw [links' _ _ gone'.1]
        · exact cancelling.link gone'.2
        · exact fun inside => gone'.2 (List.mem_append_left _ (List.mem_append_left _ inside))
      · intro other member
        rw [faulted other (away (behind member)), failed other (away (behind member))]
        exact cancelling.clear other member

theorem next (sound : Sound s record groups deferred work) (busy : s.work ≠ .idle) (meets : s.Meets .next) :
    ∃ after deferred' work', s.next = some after ∧ after.filter = s.filter ∧
      Sound after record groups deferred' work' := by
  have core := sound.core
  have doing := sound.doing
  unfold Doing at doing
  unfold Filtered.next
  unfold Filtered.Meets at meets
  cases at' : s.work with
  | idle => exact absurd at' busy
  | events reports =>
      rw [at'] at doing
      obtain ⟨rfl, all⟩ := doing
      cases reports with
      | nil =>
          obtain ⟨deferred', relinks⟩ := Queue.queueDeferredTiocbs_links s.queue.size core.links
          let after : Filtered := { s with queue := s.queue.queueDeferredTiocbs s.queue.size, work := .idle }
          have perm : (waiting after deferred' []).Perm (waiting s deferred []) := by
            simp only [waiting, after, relinks.inFlight]
            exact (relinks.perm.append_right _).append_right _
          refine ⟨after, deferred', [], rfl, rfl, ⟨?_, ?_, relinks.links, perm.nodup_iff.mpr core.nodup, ?_,
            core.own, ?_, ?_, core.error⟩, rfl⟩
          · have same : after.queue.inFlight = s.queue.inFlight := relinks.inFlight
            rw [same]
            exact core.held.congr rfl rfl rfl rfl rfl
          · exact relinks.inFlight ▸ core.inFlight
          · exact ((perm.map fun t => (t, s.asked t)).append_left _).trans core.once
          · exact fun t member => (core.fine t (perm.mem_iff.mp member)).congr rfl rfl
          · intro t member
            exact core.clear t (by simpa using relinks.perm.mem_iff.mp member)
      | cons report reports =>
          have member : report.obj ∈ waiting s deferred ((report :: reports).map Event.obj) :=
            List.mem_append_right _ List.mem_cons_self
          have away := core.not_in_flight (Or.inr (List.mem_cons_self (a := report.obj) (l := reports.map Event.obj)))
          have found := core.tiocbOf away member
          dsimp only
          rw [found, Option.map_some]
          have later := core.complete (all report List.mem_cons_self) (.events reports)
          refine ⟨_, deferred, reports.map Event.obj, rfl, rfl, later, rfl, ?_⟩
          exact fun other inside => all other (List.mem_cons_of_mem _ inside)
  | cancel tiocb left err failed =>
      rw [at'] at doing meets
      dsimp only at doing meets ⊢
      obtain ⟨rfl, cancelling⟩ := doing
      have link : s.queue.next tiocb = work.head? := by
        by_cases again : tiocb ∈ s.outstanding
        · obtain ⟨rfl, unlinked⟩ := meets again
          exact unlinked
        · exact cancelling.link fun member => again (core.outstanding.mem_iff.mp member)
      rw [link]
      cases work with
      | nil =>
          refine ⟨_, deferred, [], rfl, rfl, ⟨core.held.congr rfl rfl rfl rfl rfl, core.inFlight, ?_, core.nodup,
            core.once, core.own, fun t member => (core.fine t member).congr rfl rfl, core.clear, core.error⟩, rfl⟩
          exact ⟨core.links.queued, core.links.chained, core.links.ends, core.links.last, core.links.nodup⟩
      | cons t left =>
          obtain ⟨low, negative, chained, last, -, clear⟩ := cancelling
          have member : t ∈ waiting s deferred (t :: left) := List.mem_append_right _ List.mem_cons_self
          have correct := cancelled_correct low negative (core.fine t member) (clear t List.mem_cons_self).2
          refine ⟨_, deferred, left, rfl, rfl, core.complete correct _, rfl, low, negative, chained.tail, ?_, ?_, ?_⟩
          · intro last' inside
            apply last
            cases left with
            | nil => exact (nomatch inside)
            | cons second left => rwa [List.getLast?_cons_cons]
          · intro _
            cases left with
            | nil => exact last t rfl
            | cons second left => exact chained.rel
          · exact fun other inside => clear other (List.mem_cons_of_mem _ inside)

theorem cancel {err : Int} (core : Core s record groups deferred []) (idle : s.work = .idle) (ends : s.Ends)
    (low : -2 ^ 31 ≤ err) (negative : err < 0) (pending : Nat) :
    ∃ after work', s.cancelTiocbs err pending = some after ∧
      (after.filter = s.filter ∧ after.asked = s.asked ∧ after.faulted = s.faulted) ∧
      Sound after record groups deferred work' := by
  unfold Filtered.cancelTiocbs
  cases queued : s.queue.queued with
  | nil =>
      refine ⟨s, [], rfl, ⟨rfl, rfl, rfl⟩, core, ?_⟩
      unfold Doing
      rw [idle]
  | cons first left =>
      have apart := core.nodup
      have member : first ∈ waiting s deferred [] := by simp [waiting, queued]
      have away := core.not_in_flight (Or.inl (show first ∈ deferred ++ s.queue.queued by simp [queued]))
      dsimp only
      rw [core.tiocbOf away member, Option.map_some]
      let emptied : Filtered := { s with
        queue := { s.queue with queued := [] }
        failed := fun t => s.failed t || (first :: left).contains t }
      have perm : (waiting emptied deferred (first :: left)).Perm (waiting s deferred []) := by
        simp only [waiting, emptied, queued, List.append_nil, List.append_assoc]
        exact (@List.perm_append_comm _ s.queue.inFlight.flatten _).append_left _
      have links := core.links
      have chained := links.queued
      rw [queued] at chained
      have nodup := List.nodup_append.mp links.nodup
      have stays : ∀ t, t ∉ first :: left → emptied.failed t = s.failed t := by
        intro t outside
        have none : (first :: left).contains t = false := by simpa using outside
        simp only [emptied, none, Bool.or_false]
      have marked : ∀ t ∈ first :: left, emptied.failed t = true := by
        intro t inside
        have here : (first :: left).contains t = true := by simpa using inside
        simp only [emptied, here, Bool.or_true]
      have outside : ∀ t ∈ s.queue.inFlight.flatten, t ∉ first :: left := by
        intro t inside both
        exact core.not_in_flight (Or.inl (show t ∈ deferred ++ s.queue.queued by
          rw [queued]
          exact List.mem_append_right _ both)) inside
      have held := core.held
      have before : Core emptied record groups deferred (first :: left) := by
        refine ⟨⟨held.represents, held.all, held.pool, held.saved, ?_⟩, core.inFlight, ?_,
          perm.nodup_iff.mpr apart, ?_, core.own, ?_, ?_, core.error⟩
        · intro t inside
          rw [stays t (outside t inside)]
          exact held.failed t inside
        · exact ⟨List.isChain_nil, links.chained, links.ends, links.last, by simpa [emptied] using nodup.1⟩
        · exact ((perm.map fun t => (t, s.asked t)).append_left _).trans core.once
        · exact fun t inside => (core.fine t (perm.mem_iff.mp inside)).congr rfl rfl
        · intro t inside
          have place : t ∈ deferred := by simpa [emptied] using inside
          have not_queued : t ∉ first :: left := fun both => nodup.2.2 t place t (queued ▸ both) rfl
          rw [stays t not_queued]
          exact core.clear t (List.mem_append_left _ place)
      have fine : Fine emptied first := before.fine first (List.mem_append_right _ List.mem_cons_self)
      have correct := cancelled_correct low negative fine (marked first List.mem_cons_self)
      refine ⟨_, left, rfl, ⟨rfl, rfl, rfl⟩, before.complete correct _, rfl, low, negative, chained.tail, ?_, ?_, ?_⟩
      · intro last inside
        apply ends last
        rw [queued]
        cases left with
        | nil => exact (nomatch inside)
        | cons second left => rwa [List.getLast?_cons_cons]
      · intro _
        cases left with
        | nil => exact ends first (by rw [queued]; rfl)
        | cons second left => exact chained.rel
      · intro t inside
        have both : t ∈ first :: left := List.mem_cons_of_mem _ inside
        have plain := (core.clear t (by rw [queued]; exact List.mem_append_right _ both)).1
        exact ⟨plain, marked t both⟩

end Sound
end Blktap.Tapdisk.Filter
