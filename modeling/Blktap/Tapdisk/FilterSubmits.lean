import Blktap.Tapdisk.FilterCalls
import Mathlib.Data.List.Flatten

/-! # Submission and completion through the filter -/

namespace Blktap.Tapdisk.Filter
open Optimize Tqueue Lib

variable {s after : Filtered} {record : Nat → Nat} {groups new done left : List Group} {deferred work flight : List Nat}
  {random : Nat → Nat} {words : BitVec 64 → BitVec 64} {events : List Event} {t : Nat} {g : Group}

section Groups
variable {num : Nat} {prepared : Nat → Iocb} {mem : State}

theorem represents_first (represents : Represents num prepared mem groups) (member : g ∈ groups) :
    ∃ others, Represents num prepared mem (g :: others) := by
  obtain ⟨before, behind, rfl⟩ := List.append_of_mem member
  exact ⟨_, represents.perm List.perm_middle⟩

theorem members_eq (represents : Represents num prepared mem groups) (member : g ∈ groups) :
    members mem g.head = g.iocbs := by
  obtain ⟨others, first⟩ := represents_first represents member
  cases g with
  | single io =>
      obtain ⟨⟨pointer, data⟩, -⟩ := single_spec first
      simp only [members, Group.head_single, data, Group.iocbs]
  | chain io op rest =>
      have data : (mem.iocbs io).data = .opio op := (represents.holds _ member).2.1
      obtain ⟨mem', walked, -⟩ := release_spec (fun io _ => io) first
      simp only [members, Group.head_chain, data, State.expandIocb, walked, Option.map_some, Option.getD_some]
      rfl

theorem iocbs_headD (g : Group) : g.iocbs.headD 0 = g.head := by
  cases g <;> rfl

theorem heads_nodup (nodup : (groups.flatMap Group.iocbs).Nodup) : (groups.map Group.head).Nodup := by
  rw [List.nodup_flatMap] at nodup
  refine List.Pairwise.map _ ?_ nodup.2
  intro a b apart same
  exact apart (head_mem a) (same ▸ head_mem b)

theorem group_unique (nodup : (groups.flatMap Group.iocbs).Nodup) {g' : Group} (first : g ∈ groups)
    (second : g' ∈ groups) (here : t ∈ g.iocbs) (there : t ∈ g'.iocbs) : g = g' := by
  obtain ⟨before, behind, rfl⟩ := List.append_of_mem first
  have all : (before ++ g :: behind).Perm (g :: (before ++ behind)) := List.perm_middle
  rcases List.mem_cons.mp (all.mem_iff.mp second) with rfl | other
  · rfl
  · have apart := (all.flatMap_right Group.iocbs).nodup_iff.mp nodup
    rw [List.flatMap_cons, List.nodup_append'] at apart
    exact absurd (List.mem_flatMap.mpr ⟨g', other, there⟩) (apart.2.2 here)

end Groups

theorem Held.perm {others : List Group} (held : Held s record groups flight) (same : groups.Perm others) :
    Held s record others flight :=
  ⟨held.represents.perm same, (same.flatMap_right _).symm.trans held.all, held.pool, held.saved, held.failed⟩

theorem Held.recorded (held : Held s record groups flight) (member : t ∈ flight) (fault : s.faulted t = true) :
    record t < s.filter.pool ∧ record t ∉ s.filter.flist := by
  have here : record t ∈ (flight.filter s.faulted).map record :=
    List.mem_map_of_mem (List.mem_filter.mpr ⟨member, fault⟩)
  refine ⟨List.mem_range.mp (held.pool.mem_iff.mp (List.mem_append_right _ here)), fun free => ?_⟩
  have nodup := held.pool.nodup_iff.mpr List.nodup_range
  exact (List.nodup_append.mp nodup).2.2 _ free _ here rfl

theorem pool_lt {f : Tfilter} {fio : Nat} (inside : fio < f.pool) : f.injects = true ∧ fio < f.iocbs := by
  unfold Tfilter.pool at inside
  split at inside
  · exact ⟨‹_›, inside⟩
  · exact absurd inside (Nat.not_lt_zero _)

structure Submission (s : Filtered) (random : Nat → Nat) (words : BitVec 64 → BitVec 64) (groups : List Group)
    (f : Tfilter) (mem : State) (new : List Group) (record : Nat → Nat) : Prop where
  filtered : ∃ mem₁, s.filtered random words = { s with filter := f, mem := mem₁, faulted := s.faultedBy random }
  merged : s.merged random words = some (mem, new.map Group.head)
  queued : new.flatMap Group.iocbs = s.queue.queued
  held : Held { s with filter := f, mem := mem, faulted := s.faultedBy random } record (new ++ groups)
    (s.queue.inFlight.flatten ++ s.queue.queued)
  same : s.filter.Same f
  dhash : ∀ sec, f.dhash sec ≠ s.filter.dhash sec → ∃ t ∈ s.queue.queued, s.faultedBy random t = false ∧
    (s.asked t).opcode = ioCmdPwrite ∧ sec ∈ (Tfilter.sectorsOf (s.asked t)).map Prod.fst

theorem faultedBy_iff (plain : s.faulted t = false) :
    s.faultedBy random t = true ↔ t ∈ s.filter.faults random s.queue.queued := by
  simp only [Filtered.faultedBy, plain, Bool.false_or, List.contains_iff_mem]

theorem faultedBy_away (away : t ∉ s.queue.queued) : s.faultedBy random t = s.faulted t := by
  have none : (s.filter.faults random s.queue.queued).contains t = false := by
    rw [← Bool.not_eq_true, List.contains_iff_mem]
    exact fun member => away (faults_sublist.subset member)
  simp only [Filtered.faultedBy, none, Bool.or_false]

theorem Core.submission (core : Core s record groups deferred []) (random : Nat → Nat)
    (words : BitVec 64 → BitVec 64) : ∃ f mem new record', Submission s random words groups f mem new record' := by
  obtain ⟨represents, all, pool, saved, unfailed⟩ := core.held
  have links := List.nodup_append.mp core.links.nodup
  have used := pool.nodup_iff.mpr List.nodup_range
  obtain ⟨free, unused, apart⟩ := List.nodup_append.mp used
  obtain ⟨f, mem₁, hide, run, hides⟩ := filterIocbs_hides (s := s.mem) random words links.2.1 free
  let faults := s.filter.faults random s.queue.queued
  let record' : Nat → Nat := fun t => if t ∈ faults then hide t else record t
  have queued : ∀ t ∈ s.queue.queued, t ∉ s.queue.inFlight.flatten ∧ s.mem.iocbs t = s.asked t ∧
      s.faulted t = false ∧ Fine s t := by
    intro t member
    have both : t ∈ deferred ++ s.queue.queued := List.mem_append_right _ member
    have away := core.not_in_flight (Or.inl both)
    have waits : t ∈ waiting s deferred [] := List.mem_append_left _ (List.mem_append_left _ both)
    exact ⟨away, core.mem_asked away, (core.clear t both).1, core.fine t waits⟩
  have apart' : ∀ t ∈ s.queue.inFlight.flatten, t ∉ s.queue.queued := fun t inside member =>
    (queued t member).1 inside
  have inside : ∀ t ∈ faults, t ∈ s.queue.queued := fun t member => faults_sublist.subset member
  let sub : Filtered := { s with filter := f, mem := mem₁, faulted := s.faultedBy random }
  have old : ∀ t ∈ s.queue.inFlight.flatten, s.faultedBy random t = s.faulted t ∧ record' t = record t := by
    intro t member
    exact ⟨faultedBy_away (apart' t member), if_neg fun fault => apart' t member (inside t fault)⟩
  have handed_old : ∀ t ∈ s.queue.inFlight.flatten,
      handed sub record' (s.queue.inFlight.flatten ++ s.queue.queued) t =
        handed s record s.queue.inFlight.flatten t := by
    intro t member
    obtain ⟨faulted, record_same⟩ := old t member
    simp only [handed, sub, faulted, record_same, member, List.mem_append, true_or, and_true, hidden,
      hides.same.address]
  have handed_new : ∀ t, t ∉ s.queue.inFlight.flatten →
      mem₁.iocbs t = handed sub record' (s.queue.inFlight.flatten ++ s.queue.queued) t := by
    intro t away
    by_cases fault : t ∈ faults
    · obtain ⟨-, here, plain, -⟩ := queued t (inside t fault)
      have hit : s.faultedBy random t = true := (faultedBy_iff plain).mpr fault
      have both : sub.faulted t = true ∧ t ∈ s.queue.inFlight.flatten ++ s.queue.queued :=
        ⟨hit, List.mem_append_right _ (inside t fault)⟩
      rw [handed, if_pos both, (hides.hides t fault).1, here]
      simp only [hidden, sub, record', if_pos fault, hides.same.address]
    · rw [hides.others t fault, core.mem_asked away, handed, if_neg]
      rintro ⟨hit, member⟩
      rcases List.mem_append.mp member with flight | queue
      · exact away flight
      · exact fault ((faultedBy_iff (queued t queue).2.2.1).mp hit)
  have before : Represents s.mem.numOpios (handed sub record' (s.queue.inFlight.flatten ++ s.queue.queued)) mem₁
      groups := by
    refine represents.congr ?_ ?_ hides.only.opios hides.only.numOpios hides.only.free
    · intro t member
      have flight := all.mem_iff.mp member
      refine ⟨handed_old t flight, hides.others t fun fault => apart' t flight (inside t fault)⟩
    · intro t member
      exact handed_new t fun flight => member (all.mem_iff.mpr flight)
  have fresh : ∀ t ∈ s.queue.queued, t ∉ groups.flatMap Group.iocbs ∧
      (handed sub record' (s.queue.inFlight.flatten ++ s.queue.queued) t).Valid := by
    intro t member
    obtain ⟨away, -, -, fine⟩ := queued t member
    refine ⟨fun both => away (all.mem_iff.mp both), ?_⟩
    have small := fine.inside
    unfold handed
    split
    · refine ⟨?_, _, rfl⟩
      change (s.asked t).buf.toNat + 0 < 2 ^ 63
      omega
    · exact ⟨fine.inside, t, fine.own⟩
  obtain ⟨mem, new, merge, merged, whole⟩ := ioMerge_spec (before.enqueue links.2.1 fresh)
  have shape : s.filtered random words = sub := by
    unfold Filtered.filtered
    rw [run]
  refine ⟨f, mem, new, record', ⟨mem₁, shape⟩, ?_, whole, ⟨?_, ?_, ?_, ?_, ?_⟩, hides.same, ?_⟩
  · unfold Filtered.merged
    rw [shape]
    exact merge
  · have size := merged.size
    change mem.numOpios = _ at size
    rw [← size] at merged
    exact merged
  · rw [List.flatMap_append, whole]
    exact (all.append_left _).trans List.perm_append_comm
  · have pool' : f.pool = s.filter.pool := by
      rw [Tfilter.pool, Tfilter.pool, hides.same.injects, hides.same.iocbs]
    have first : s.queue.inFlight.flatten.filter (s.faultedBy random) = s.queue.inFlight.flatten.filter s.faulted :=
      List.filter_congr fun t member => (old t member).1
    have second : (s.queue.queued.filter (s.faultedBy random)).Perm faults := by
      refine (List.perm_ext_iff_of_nodup (links.2.1.filter _) (links.2.1.sublist faults_sublist)).mpr fun t => ?_
      rw [List.mem_filter]
      constructor
      · rintro ⟨member, hit⟩
        exact (faultedBy_iff (queued t member).2.2.1).mp hit
      · intro fault
        exact ⟨inside t fault, (faultedBy_iff (queued t (inside t fault)).2.2.1).mpr fault⟩
    have map₁ : (s.queue.inFlight.flatten.filter s.faulted).map record' =
        (s.queue.inFlight.flatten.filter s.faulted).map record :=
      List.map_congr_left fun t member => (old t (List.mem_of_mem_filter member)).2
    have map₂ : faults.map record' = faults.map hide := List.map_congr_left fun t fault => if_pos fault
    have moved := (second.map record').append_left ((s.queue.inFlight.flatten.filter s.faulted).map record')
    rw [map₂] at moved
    change (f.flist ++ ((s.queue.inFlight.flatten ++ s.queue.queued).filter (s.faultedBy random)).map record').Perm
      (List.range f.pool)
    rw [pool', List.filter_append, List.map_append, first]
    refine (moved.append_left _).trans (List.Perm.trans ?_ pool)
    rw [map₁, hides.flist, ← List.append_assoc, List.append_assoc (List.map hide _)]
    exact List.perm_append_comm
  · intro t member hit
    rcases List.mem_append.mp member with flight | queue
    · obtain ⟨faulted, record_same⟩ := old t flight
      have fault : s.faulted t = true := by
        rw [← faulted]
        exact hit
      have outside := (core.held.recorded flight fault).2
      have kept : f.records (record t) = s.filter.records (record t) := by
        apply hides.records
        rw [hides.flist] at outside
        exact fun member => outside (List.mem_append_left _ member)
      rw [record_same]
      change f.records (record t) = _
      rw [kept]
      exact saved t flight fault
    · obtain ⟨-, here, plain, -⟩ := queued t queue
      have fault := (faultedBy_iff plain).mp hit
      have kept := (hides.hides t fault).2
      rw [here] at kept
      have same : record' t = hide t := if_pos fault
      rw [same]
      exact kept
  · intro t member
    rcases List.mem_append.mp member with flight | queue
    · exact unfailed t flight
    · exact (core.clear t (List.mem_append_right _ queue)).2
  · intro sec changed
    obtain ⟨t, member, plain, write, covers⟩ := hides.dhash sec changed
    obtain ⟨-, here, unfaulted, -⟩ := queued t member
    rw [here] at write covers
    refine ⟨t, member, ?_, write, covers⟩
    rw [← Bool.not_eq_true, faultedBy_iff unfaulted]
    exact plain

theorem Core.submitted {f : Tfilter} {mem mem' : State} {taken back : List Group} {q : Queue}
    (core : Core s record groups deferred []) {record' : Nat → Nat}
    (submission : Submission s random words groups f mem (taken ++ back) record')
    (represents : Represents mem.numOpios
      (handed { s with filter := f, mem := mem, faulted := s.faultedBy random } record'
        (s.queue.inFlight.flatten ++ s.queue.queued)) mem' (taken ++ groups))
    (plain : ∀ t ∈ back.flatMap Group.iocbs, s.faultedBy random t = false)
    (inFlight : q.inFlight = s.queue.inFlight ++ taken.map Group.iocbs) (queued : q.queued = back.flatMap Group.iocbs)
    (next : q.next = s.queue.next) (deferred' : q.deferred = s.queue.deferred) :
    Core { s with queue := q, filter := f, mem := mem', faulted := s.faultedBy random } record' (taken ++ groups)
      deferred [] := by
  have whole := submission.queued
  rw [List.flatMap_append] at whole
  have flat : q.inFlight.flatten = s.queue.inFlight.flatten ++ taken.flatMap Group.iocbs := by
    rw [inFlight, List.flatten_append, List.flatMap_def]
  have parts : (q.inFlight.flatten ++ q.queued) = s.queue.inFlight.flatten ++ s.queue.queued := by
    rw [flat, queued, ← whole, List.append_assoc]
  let sub : Filtered := { s with queue := q, filter := f, mem := mem', faulted := s.faultedBy random }
  have waits : waiting sub deferred [] = deferred ++ q.queued ++ q.inFlight.flatten ++ [] := rfl
  have perm : (waiting sub deferred []).Perm (waiting s deferred []) := by
    rw [waits, waiting, List.append_nil, List.append_nil, List.append_assoc, List.append_assoc]
    apply List.Perm.append_left
    have swapped : (q.inFlight.flatten ++ q.queued).Perm (s.queue.queued ++ s.queue.inFlight.flatten) :=
      parts ▸ List.perm_append_comm
    exact List.perm_append_comm.trans swapped
  have same : handed sub record' q.inFlight.flatten =
      handed { s with filter := f, mem := mem, faulted := s.faultedBy random } record'
        (s.queue.inFlight.flatten ++ s.queue.queued) := by
    funext t
    apply if_congr ?_ rfl rfl
    rw [← parts, List.mem_append]
    refine and_congr_right fun hit => (or_iff_left fun back => ?_).symm
    rw [queued] at back
    exact absurd (hit.symm.trans (plain t back)) (by simp)
  have held := submission.held
  have links := core.links
  have sublist : q.queued.Sublist s.queue.queued := by
    rw [queued, ← whole]
    exact List.sublist_append_right _ _
  refine ⟨⟨?_, ?_, ?_, ?_, ?_⟩, ?_, ⟨?_, ?_, ?_, ?_, ?_⟩, ?_, ?_, core.own, ?_, ?_, core.error⟩
  · have size : mem'.numOpios = mem.numOpios := represents.size
    change Represents mem'.numOpios (handed sub record' q.inFlight.flatten) mem' _
    rw [same, size]
    exact represents
  · change (_ : List Nat).Perm q.inFlight.flatten
    rw [flat, List.flatMap_append]
    exact (core.held.all.append_left _).trans List.perm_append_comm
  · have pool := held.pool
    change (f.flist ++ ((s.queue.inFlight.flatten ++ s.queue.queued).filter (s.faultedBy random)).map record').Perm _
      at pool
    have none : q.queued.filter (s.faultedBy random) = [] := by
      rw [List.filter_eq_nil_iff, queued]
      intro t member
      simp [plain t member]
    rw [← parts, List.filter_append, none, List.append_nil] at pool
    exact pool
  · intro t member hit
    apply held.saved t ?_ hit
    rw [← parts]
    exact List.mem_append_left _ member
  · intro t member
    apply held.failed t
    rw [← parts]
    exact List.mem_append_left _ member
  · change (_ : List (List Nat)).Perm q.inFlight
    rw [inFlight, List.map_append]
    exact (core.inFlight.append_left _).trans List.perm_append_comm
  · change Chained q.next q.queued
    rw [next, queued]
    have chained := links.queued
    rw [← whole] at chained
    exact (List.isChain_append.mp chained).2.1
  · change Chained q.next deferred
    rw [next]
    exact links.chained
  · exact deferred'.trans links.ends
  · intro tail member
    change q.next tail = none
    rw [next]
    exact links.last tail member
  · exact links.nodup.sublist (sublist.append_left _)
  · exact perm.nodup_iff.mpr core.nodup
  · exact ((perm.map fun t => (t, s.asked t)).append_left _).trans core.once
  · intro t member
    have fine := core.fine t (perm.mem_iff.mp member)
    exact ⟨fine.own, (submission.same.has t).trans fine.outside, fine.inside⟩
  · intro t member
    have both : t ∈ deferred ++ s.queue.queued := (sublist.append_left deferred).subset member
    have clear := core.clear t both
    refine ⟨?_, clear.2⟩
    rcases List.mem_append.mp member with inside | inside
    · have away : t ∉ s.queue.queued := fun there =>
        (List.nodup_append.mp links.nodup).2.2 t inside t there rfl
      exact (faultedBy_away away).trans clear.1
    · exact plain t (queued ▸ inside)

theorem Submission.records {f : Tfilter} {mem : State} (submission : Submission s random words groups f mem new record)
    (filter : after.filter = f) (asked : after.asked = s.asked) (faulted : after.faulted = s.faultedBy random) :
    s.Records after := by
  intro sec changed
  rw [filter] at changed
  obtain ⟨t, -, plain, write, covers⟩ := submission.dhash sec changed
  refine ⟨t, ?_, ?_, Or.inl ?_⟩
  · rw [asked]
    exact covers
  · rw [faulted]
    exact plain
  · rw [asked]
    exact write

theorem Filtered.Records.refl (s : Filtered) : s.Records s := fun _ changed => absurd rfl changed

theorem Core.idle (core : Core s record groups deferred []) (idle : s.work = .idle) :
    Sound s record groups deferred [] := by
  refine ⟨core, ?_⟩
  unfold Doing
  rw [idle]

theorem Core.lioSubmit {result : Int} (core : Core s record groups deferred [])
    (allowed : s.Allowed (.lioSubmit random words result)) (meets : s.Meets (.lioSubmit random words result)) :
    ∃ after record' groups' work', s.lioSubmit random words result = some after ∧ s.Records after ∧
      Sound after record' groups' deferred work' := by
  obtain ⟨idle, low, -⟩ := allowed
  unfold Filtered.lioSubmit
  by_cases empty : s.queue.queued = []
  · rw [if_pos empty]
    exact ⟨s, record, groups, [], rfl, .refl s, core.idle idle⟩
  obtain ⟨f, mem, new, record', submission⟩ := core.submission random words
  obtain ⟨mem₁, filtered⟩ := submission.filtered
  rw [if_neg empty, submission.merged, Option.bind_some]
  dsimp only
  rw [filtered]
  let taken := new.take result.toNat
  let back := new.drop result.toNat
  have whole : taken ++ back = new := List.take_append_drop _ _
  have parted : Submission s random words groups f mem (taken ++ back) record' := whole ▸ submission
  have represents := parted.held.represents
  have taken_members : ((new.map Group.head).take result.toNat).map (members mem) = taken.map Group.iocbs := by
    rw [← List.map_take, List.map_map]
    apply List.map_congr_left
    intro g member
    exact members_eq represents (List.mem_append_left _ (List.mem_append_left _ member))
  rw [taken_members]
  by_cases some_back : result.toNat < (new.map Group.head).length
  · rw [if_pos some_back]
    obtain ⟨ends, none⟩ := meets mem _ submission.merged (by omega)
    obtain ⟨mem', expand, after⟩ := ioExpandIocbs_spec (represents.perm
      (show ((taken ++ back) ++ groups).Perm (back ++ (taken ++ groups)) by
        rw [← List.append_assoc]
        exact List.perm_append_comm.append_right _))
    have expand' : mem.ioExpandIocbs ((new.map Group.head).drop result.toNat) =
        some (mem', back.flatMap Group.iocbs) := by
      rw [← List.map_drop]
      exact expand
    rw [expand', Option.bind_some]
    have suffix := parted.queued
    rw [List.flatMap_append] at suffix
    have plain : ∀ t ∈ back.flatMap Group.iocbs, s.faultedBy random t = false := by
      intro t member
      obtain ⟨g, inside, here⟩ := List.mem_flatMap.mp member
      have place : g.head ∈ (new.map Group.head).drop result.toNat := by
        rw [← List.map_drop]
        exact List.mem_map_of_mem inside
      have queued : t ∈ s.queue.queued := suffix ▸ List.mem_append_right _ member
      have clear := (core.clear t (List.mem_append_right _ queued)).1
      rw [← Bool.not_eq_true, faultedBy_iff clear]
      apply none g.head place
      rw [members_eq represents (List.mem_append_left _ (List.mem_append_right _ inside))]
      exact here
    let q : Queue := { s.queue with
      iocbsPending := s.queue.iocbsPending + result.toNat
      tiocbsPending := s.queue.tiocbsPending + s.queue.queued.length
      inFlight := s.queue.inFlight ++ taken.map Group.iocbs
      queued := back.flatMap Group.iocbs }
    have before := @Core.submitted s record groups deferred random words f mem mem' taken back q core record' parted
      after plain rfl rfl rfl rfl
    have ends' : Filtered.Ends
        { s with queue := q, filter := f, mem := mem', faulted := s.faultedBy random } := by
      intro last member
      apply ends last
      rw [← suffix, List.getLast?_append]
      change (back.flatMap Group.iocbs).getLast? = some last at member
      rw [member]
      rfl
    have err : -2 ^ 31 ≤ (if result < 0 then result else -eio) ∧ (if result < 0 then result else -eio) < 0 := by
      split
      · exact ⟨low, ‹_›⟩
      · decide
    obtain ⟨last, work', cancelled, ⟨filter, asked, faulted⟩, sound⟩ :=
      Sound.cancel before idle ends' err.1 err.2 (back.flatMap Group.iocbs).length
    exact ⟨last, record', _, work', cancelled, submission.records filter asked faulted, sound⟩
  · rw [if_neg some_back]
    rw [List.length_map] at some_back
    have none : back = [] := List.drop_eq_nil_of_le (Nat.le_of_not_lt some_back)
    let q : Queue := { s.queue with
      iocbsPending := s.queue.iocbsPending + result.toNat
      tiocbsPending := s.queue.tiocbsPending + s.queue.queued.length
      inFlight := s.queue.inFlight ++ taken.map Group.iocbs
      queued := [] }
    have all : Represents mem.numOpios (handed { s with filter := f, mem := mem, faulted := s.faultedBy random } record'
        (s.queue.inFlight.flatten ++ s.queue.queued)) mem (taken ++ groups) := by
      rw [none, List.append_nil] at represents
      exact represents
    have after := @Core.submitted s record groups deferred random words f mem mem taken back q core record' parted all
      (by rw [none]; nofun) rfl (by rw [none]; rfl) rfl rfl
    exact ⟨_, record', _, [], rfl, submission.records rfl rfl rfl, after.idle idle⟩

theorem reported_parts {prepared : Nat → Iocb} {parts : List (List Event)}
    (names : parts.map (fun part => part.map Event.obj) = done.map Group.iocbs)
    (heads : events.map Event.obj = done.map Group.head) (answers : List.Forall₂ (Answers prepared) events parts)
    (bounded : List.Forall₂ (Bounded prepared) events parts) :
    ∀ r ∈ parts.flatten, ∃ event ∈ events, ∃ g ∈ done, ∃ part, r ∈ part ∧ event.obj = g.head ∧
      part.map Event.obj = g.iocbs ∧ Answers prepared event part ∧ Bounded prepared event part := by
  induction answers generalizing done with
  | nil => nofun
  | @cons event part events parts answer _ ih =>
      cases done with
      | nil => cases heads
      | cons g done =>
          rw [List.map_cons, List.map_cons, List.cons.injEq] at heads names
          cases bounded with
          | cons bound bounded =>
              intro r member
              rw [List.flatten_cons, List.mem_append] at member
              rcases member with here | behind
              · exact ⟨event, List.mem_cons_self, g, List.mem_cons_self, part, here, heads.1, names.1, answer, bound⟩
              · obtain ⟨e, inside, g', member, rest⟩ := ih names.2 heads.2 bounded r behind
                exact ⟨e, List.mem_cons_of_mem _ inside, g', List.mem_cons_of_mem _ member, rest⟩

theorem failedBy_iff (held : Held s record (done ++ left) flight) (heads : events.map Event.obj = done.map Group.head)
    {event : Event} (listed : event ∈ events) (member : g ∈ done) (head : event.obj = g.head) (inside : t ∈ g.iocbs) :
    s.failedBy events t = true ↔ event.res ≠ (s.mem.iocbs event.obj).nbytes := by
  have nodup := held.represents.nodup
  have flight := held.all.mem_iff.mp (List.mem_flatMap.mpr ⟨g, List.mem_append_left _ member, inside⟩)
  rw [Filtered.failedBy, held.failed t flight, Bool.false_or, List.any_eq_true]
  constructor
  · rintro ⟨other, listed', bad⟩
    rw [Bool.and_eq_true, List.contains_iff_mem, decide_eq_true_iff] at bad
    obtain ⟨g', member', head'⟩ : ∃ g' ∈ done, g'.head = other.obj := by
      have place : other.obj ∈ done.map Group.head := heads ▸ List.mem_map_of_mem listed'
      exact List.mem_map.mp place
    have here := bad.2
    rw [← head', members_eq held.represents (List.mem_append_left _ member')] at here
    have same := group_unique nodup (List.mem_append_left _ member) (List.mem_append_left _ member') inside here
    have unique : (events.map Event.obj).Nodup := by
      rw [heads]
      rw [List.flatMap_append] at nodup
      exact heads_nodup (List.nodup_append.mp nodup).1
    have equal : other = event := by
      apply List.inj_on_of_nodup_map unique listed' listed
      rw [← head', head, same]
    rw [← equal]
    exact bad.1
  · intro bad
    refine ⟨event, listed, ?_⟩
    rw [Bool.and_eq_true, List.contains_iff_mem, decide_eq_true_iff, head,
      members_eq held.represents (List.mem_append_left _ member)]
    exact ⟨head ▸ bad, inside⟩

structure Reports (s : Filtered) (events : List Event) (words : BitVec 64 → BitVec 64) (record : Nat → Nat)
    (done left : List Group) (flight : List Nat) (f : Tfilter) (mem : State) (reports : List Event) : Prop where
  run : s.reported words events = some ({ s with
    filter := f, mem := mem, work := .events reports, failed := s.failedBy events }, reports.length)
  objs : reports.map Event.obj = done.flatMap Group.iocbs
  held : Held { s with
    filter := f, mem := mem, work := .events reports, failed := s.failedBy events } record left flight
  correct : ∀ r ∈ reports, Correct { s with
    filter := f, mem := mem, work := .events reports, failed := s.failedBy events } r.obj r.res
  same : s.filter.Same f
  dhash : ∀ sec, f.dhash sec ≠ s.filter.dhash sec → ∃ t ∈ done.flatMap Group.iocbs, s.faulted t = false ∧
    (s.asked t).opcode ≠ ioCmdPwrite ∧ sec ∈ (Tfilter.sectorsOf (s.asked t)).map Prod.fst ∧ sec < s.filter.secs ∧
    s.filter.checks = true

theorem faulted_correct {res : BitVec 64} (bound : res.toNat ≤ 0 ∨ 2 ^ 63 ≤ res.toNat) (fine : Fine s t)
    (full : res = 0 → (s.asked t).nbytes ≠ 0) : res ≠ (s.asked t).nbytes := by
  rintro rfl
  have small := fine.inside
  have zero : (s.asked t).nbytes = 0 := by
    apply BitVec.eq_of_toNat_eq
    change (s.asked t).nbytes.toNat = 0
    omega
  exact full zero zero

theorem Held.reports {before : List Nat} (held : Held s record (done ++ left) before)
    (fine : ∀ t ∈ before, Fine s t) (heads : events.map Event.obj = done.map Group.head)
    (answered : ∀ event ∈ events, Filtered.Answered (s.mem.iocbs event.obj).nbytes event.res)
    (seen : ∀ event ∈ events, s.Seen event)
    (behind : (left.flatMap Group.iocbs).Perm flight) (words : BitVec 64 → BitVec 64) :
    ∃ f mem reports, Reports s events words record done left flight f mem reports := by
  obtain ⟨mem₁, parts, split, later, names, answers, bounded⟩ := ioSplit_spec held.represents heads
  have nodup := held.represents.nodup
  have all := held.all
  rw [List.flatMap_append] at nodup all
  let ios := done.flatMap Group.iocbs
  obtain ⟨ios_nodup, -, apart⟩ := List.nodup_append.mp nodup
  have objs : parts.flatten.map Event.obj = ios := by
    rw [List.map_flatten, names, ← List.flatMap_def]
  have inside : ∀ t ∈ ios, t ∈ before := fun t member => all.mem_iff.mp (List.mem_append_left _ member)
  have left_inside : ∀ t ∈ left.flatMap Group.iocbs, t ∈ before := fun t member =>
    all.mem_iff.mp (List.mem_append_right _ member)
  have not_left : ∀ t ∈ ios, t ∉ left.flatMap Group.iocbs := fun t member both => apart t member t both rfl
  have records := (all.filter s.faulted).map record
  rw [List.filter_append, List.map_append] at records
  have used := held.pool.nodup_iff.mpr List.nodup_range
  have unique := List.nodup_append.mp (records.nodup_iff.mpr (List.nodup_append.mp used).2.1)
  have returning : Returning s.filter mem₁ s.asked s.faulted record ios := by
    refine ⟨?_, ?_, ?_, ?_, ios_nodup, unique.1⟩
    · exact fun t member hit => (pool_lt (held.recorded (inside t member) hit).1).1
    · intro t member hit
      rw [later.others t (not_left t member), handed, if_pos ⟨hit, inside t member⟩]
      exact ⟨rfl, held.saved t (inside t member) hit, (pool_lt (held.recorded (inside t member) hit).1).2⟩
    · intro t member plain
      rw [later.others t (not_left t member), handed, if_neg (by simp [plain])]
    · intro t member
      have kept := fine t (inside t member)
      exact ⟨t, kept.own, kept.outside⟩
  obtain ⟨f, mem, run, recovers⟩ := filterEvents_recovers words returning
  let then' : Filtered := { s with
    filter := f, mem := mem, work := .events parts.flatten, failed := s.failedBy events }
  have handed_left : ∀ t ∈ left.flatMap Group.iocbs, handed then' record flight t = handed s record before t := by
    intro t member
    simp only [handed, then', behind.mem_iff.mp member, left_inside t member, and_true, hidden, recovers.same.address]
  refine ⟨f, mem, parts.flatten, ?_, objs, ⟨?_, behind, ?_, ?_, ?_⟩, ?_, recovers.same, ?_⟩
  · simp only [Filtered.reported, split, Option.map_some, objs]
    rw [run]
  · have size : mem.numOpios = s.mem.numOpios := recovers.only.numOpios.trans later.size
    change Represents mem.numOpios (handed then' record flight) mem left
    rw [size]
    refine later.congr ?_ ?_ recovers.only.opios recovers.only.numOpios recovers.only.free
    · intro t member
      exact ⟨handed_left t member, recovers.others t fun both => not_left t both member⟩
    · intro t outside
      have gone : handed then' record flight t = s.asked t :=
        if_neg fun both => outside (behind.mem_iff.mpr both.2)
      rw [gone]
      by_cases here : t ∈ ios
      · exact recovers.recovers t here
      · rw [recovers.others t here, later.others t outside]
        apply if_neg
        rintro ⟨-, both⟩
        rcases List.mem_append.mp (all.mem_iff.mpr both) with first | second
        · exact here first
        · exact outside second
  · have pool' : f.pool = s.filter.pool := by
      rw [Tfilter.pool, Tfilter.pool, recovers.same.injects, recovers.same.iocbs]
    change (f.flist ++ (flight.filter s.faulted).map record).Perm (List.range f.pool)
    rw [pool']
    refine List.Perm.trans ?_ held.pool
    have moved := (behind.symm.filter s.faulted).map record
    refine (recovers.flist.append moved).trans ?_
    have middle := (@List.perm_append_comm _ ((ios.filter s.faulted).map record) s.filter.flist).append_right
      (((left.flatMap Group.iocbs).filter s.faulted).map record)
    rw [List.append_assoc s.filter.flist] at middle
    exact middle.trans (records.append_left _)
  · intro t member hit
    have member' := behind.mem_iff.mpr member
    have kept : f.records (record t) = s.filter.records (record t) := by
      apply recovers.records
      intro both
      exact unique.2.2 _ both _ (List.mem_map_of_mem (List.mem_filter.mpr ⟨member', hit⟩)) rfl
    change f.records (record t) = _
    rw [kept]
    exact held.saved t (left_inside t member') hit
  · intro t member
    have member' := behind.mem_iff.mpr member
    change s.failedBy events t = false
    rw [← Bool.not_eq_true]
    intro failed
    rw [Filtered.failedBy, held.failed t (left_inside t member'), Bool.false_or, List.any_eq_true] at failed
    obtain ⟨event, listed, bad⟩ := failed
    rw [Bool.and_eq_true, List.contains_iff_mem] at bad
    obtain ⟨g, here, head⟩ : ∃ g ∈ done, g.head = event.obj := by
      have place : event.obj ∈ done.map Group.head := heads ▸ List.mem_map_of_mem listed
      exact List.mem_map.mp place
    have both := bad.2
    rw [← head, members_eq held.represents (List.mem_append_left _ here)] at both
    exact not_left t (List.mem_flatMap.mpr ⟨g, here, both⟩) member'
  · intro r member
    obtain ⟨event, listed, g, here, part, place, head, name, answer, bound⟩ :=
      reported_parts names heads answers bounded r member
    have obj : r.obj ∈ g.iocbs := name ▸ List.mem_map_of_mem place
    have flies : r.obj ∈ before := inside _ (List.mem_flatMap.mpr ⟨g, here, obj⟩)
    have failed := failedBy_iff held heads listed here head obj
    have covers := congrArg List.length (held.represents.covers g (List.mem_append_left _ here)).bytes
    rw [Iocb.bytes_length, ← name, List.flatMap_map, ← head] at covers
    by_cases hit : s.faulted r.obj = true
    · have zero : (handed s record before r.obj).nbytes = 0 := by
        rw [handed, if_pos ⟨hit, flies⟩]
        rfl
      have limit := bound (by rw [← covers]; exact answered event listed) r place
      have result := answer r place
      rw [zero] at limit
      rw [zero, ← covers, BitVec.toNat_inj] at result
      have full : r.res = 0 → (s.asked r.obj).nbytes ≠ 0 := by
        intro whole
        apply (seen event listed).1 (result.mp whole) r.obj ?_ hit
        rw [head, members_eq held.represents (List.mem_append_left _ here)]
        exact obj
      have wrong := faulted_correct limit (fine _ flies) full
      exact iff_of_true wrong (Or.inl hit)
    · have same : handed s record before r.obj = s.asked r.obj := if_neg fun both => hit both.1
      have result := answer r place
      rw [same, ← covers, BitVec.toNat_inj] at result
      have plain : s.faulted r.obj = true ↔ False := iff_of_false hit id
      change r.res ≠ (s.asked r.obj).nbytes ↔ s.faulted r.obj = true ∨ s.failedBy events r.obj = true
      rw [plain, false_or, failed]
      exact not_congr result
  · intro sec changed
    obtain ⟨t, member, rest⟩ := recovers.dhash sec changed
    exact ⟨t, member, rest⟩

theorem failedBy_away (held : Held s record (done ++ left) flight) (heads : events.map Event.obj = done.map Group.head)
    (away : t ∉ done.flatMap Group.iocbs) : s.failedBy events t = s.failed t := by
  have none : (events.any fun event =>
      event.res ≠ (s.mem.iocbs event.obj).nbytes && (members s.mem event.obj).contains t) = false := by
    rw [← Bool.not_eq_true, List.any_eq_true]
    rintro ⟨event, listed, bad⟩
    rw [Bool.and_eq_true, List.contains_iff_mem] at bad
    obtain ⟨g, here, head⟩ : ∃ g ∈ done, g.head = event.obj := by
      have place : event.obj ∈ done.map Group.head := heads ▸ List.mem_map_of_mem listed
      exact List.mem_map.mp place
    have inside := bad.2
    rw [← head, members_eq held.represents (List.mem_append_left _ here)] at inside
    exact away (List.mem_flatMap.mpr ⟨g, here, inside⟩)
  rw [Filtered.failedBy, none, Bool.or_false]

theorem Core.reported {q : Queue} (core : Core s record (done ++ left) deferred [])
    (heads : events.map Event.obj = done.map Group.head)
    (answered : ∀ event ∈ events, Filtered.Answered (s.mem.iocbs event.obj).nbytes event.res)
    (seen : ∀ event ∈ events, s.Seen event)
    (inFlight : (left.map Group.iocbs).Perm q.inFlight) (queued : q.queued = s.queue.queued)
    (next : q.next = s.queue.next) (deferred' : q.deferred = s.queue.deferred) (words : BitVec 64 → BitVec 64) :
    ∃ f mem reports, Reports s events words record done left q.inFlight.flatten f mem reports ∧
      Sound { s with
        queue := q, filter := f, mem := mem, work := .events reports, failed := s.failedBy events }
        record left deferred (reports.map Event.obj) := by
  have behind : (left.flatMap Group.iocbs).Perm q.inFlight.flatten := by
    rw [List.flatMap_def]
    exact inFlight.flatten
  have all := core.held.all
  rw [List.flatMap_append] at all
  have fine : ∀ t ∈ s.queue.inFlight.flatten, Fine s t := fun t member =>
    core.fine t (List.mem_append_left _ (List.mem_append_right _ member))
  obtain ⟨f, mem, reports, reported⟩ := core.held.reports fine heads answered seen behind words
  let then' : Filtered := { s with
    queue := q, filter := f, mem := mem, work := .events reports, failed := s.failedBy events }
  have waits : waiting then' deferred (reports.map Event.obj) =
      deferred ++ q.queued ++ q.inFlight.flatten ++ reports.map Event.obj := rfl
  have perm : (waiting then' deferred (reports.map Event.obj)).Perm (waiting s deferred []) := by
    rw [waits, waiting, List.append_nil, queued, reported.objs, List.append_assoc]
    apply List.Perm.append_left
    exact List.perm_append_comm.trans ((behind.symm.append_left _).trans all)
  have links := core.links
  refine ⟨f, mem, reports, reported, ⟨reported.held.congr rfl rfl rfl rfl rfl, inFlight, ⟨?_, ?_, ?_, ?_, ?_⟩,
    perm.nodup_iff.mpr core.nodup, ?_, core.own, ?_, ?_, core.error⟩, rfl, reported.correct⟩
  · change Chained q.next q.queued
    rw [next, queued]
    exact links.queued
  · change Chained q.next deferred
    rw [next]
    exact links.chained
  · exact deferred'.trans links.ends
  · intro tail member
    change q.next tail = none
    rw [next]
    exact links.last tail member
  · change (deferred ++ q.queued).Nodup
    rw [queued]
    exact links.nodup
  · exact ((perm.map fun t => (t, s.asked t)).append_left _).trans core.once
  · intro t member
    have kept := core.fine t (perm.mem_iff.mp member)
    exact ⟨kept.own, (reported.same.has t).trans kept.outside, kept.inside⟩
  · intro t member
    change t ∈ deferred ++ q.queued at member
    rw [queued] at member
    have away := core.not_in_flight (Or.inl member)
    have clear := core.clear t member
    refine ⟨clear.1, (failedBy_away core.held heads fun inside => away ?_).trans clear.2⟩
    exact all.mem_iff.mp (List.mem_append_left _ inside)

theorem Reports.records {f : Tfilter} {mem : State} {reports : List Event} {flight' : List Nat}
    (reported : Reports s events words record done left flight f mem reports)
    (held : Held s record (done ++ left) flight') (heads : events.map Event.obj = done.map Group.head)
    (seen : ∀ event ∈ events, s.Seen event) (filter : after.filter = f) (asked : after.asked = s.asked)
    (faulted : after.faulted = s.faulted) (failed : after.failed = s.failedBy events) : s.Records after := by
  intro sec changed
  rw [filter] at changed
  obtain ⟨t, member, plain, read, covers, inside, checks⟩ := reported.dhash sec changed
  refine ⟨t, ?_, ?_, Or.inr ?_⟩
  · rw [asked]
    exact covers
  · rw [faulted]
    exact plain
  · rw [failed, ← Bool.not_eq_true]
    obtain ⟨g, here, obj⟩ := List.mem_flatMap.mp member
    have listed : g.head ∈ events.map Event.obj := heads ▸ List.mem_map_of_mem here
    obtain ⟨event, listed, head⟩ := List.mem_map.mp listed
    intro bad
    have wrong := (failedBy_iff held heads listed here head obj).mp bad
    have place : t ∈ members s.mem event.obj := by
      rw [head, members_eq held.represents (List.mem_append_left _ here)]
      exact obj
    rcases (seen event listed).2 checks wrong t place plain with write | outside
    · exact read write
    · obtain ⟨sector, there, rfl⟩ := List.mem_map.mp covers
      exact absurd (outside sector there) (Nat.not_le.mpr inside)

theorem Core.event (core : Core s record groups deferred []) (allowed : s.Allowed (.event words events))
    (meets : s.Meets (.event words events)) :
    ∃ after groups' work', s.lioEvent words events = some after ∧ s.Records after ∧
      Sound after record groups' deferred work' := by
  obtain ⟨-, some_heads, answered⟩ := allowed
  have firsts : (groups.map Group.head).Perm (s.queue.inFlight.map (·.headD 0)) := by
    have all := core.inFlight.map (·.headD 0)
    rw [List.map_map] at all
    rwa [List.map_congr_left fun g _ => (iocbs_headD g).symm]
  obtain ⟨done, left, perm, heads⟩ := choose_groups some_heads firsts
  have held := core.held.perm perm.symm
  have parted : Core s record (done ++ left) deferred [] :=
    { core with held := held, inFlight := (perm.map _).trans core.inFlight }
  let kept : List Nat → Bool := fun group => !(events.map Event.obj).contains (group.headD 0)
  have unique := heads_nodup held.represents.nodup
  rw [List.map_append] at unique
  have apart := (List.nodup_append.mp unique).2.2
  have inFlight : (left.map Group.iocbs).Perm (s.queue.inFlight.filter kept) := by
    have filtered := parted.inFlight.filter kept
    have none : (done.map Group.iocbs).filter kept = [] := by
      rw [List.filter_eq_nil_iff]
      intro group member
      obtain ⟨g, here, rfl⟩ := List.mem_map.mp member
      have listed : g.head ∈ events.map Event.obj := heads ▸ List.mem_map_of_mem here
      simp only [kept, iocbs_headD, List.contains_iff_mem.mpr listed, Bool.not_true, Bool.false_eq_true,
        not_false_eq_true]
    have all : (left.map Group.iocbs).filter kept = left.map Group.iocbs := by
      rw [List.filter_eq_self]
      intro group member
      obtain ⟨g, here, rfl⟩ := List.mem_map.mp member
      simp only [kept, iocbs_headD, Bool.not_eq_true', ← Bool.not_eq_true, List.contains_iff_mem]
      intro listed
      rw [← heads] at listed
      exact apart _ listed _ (List.mem_map_of_mem here) rfl
    rwa [List.map_append, List.filter_append, none, all, List.nil_append] at filtered
  let q : Queue := { s.queue with
    iocbsPending := s.queue.iocbsPending - events.length
    tiocbsPending := s.queue.tiocbsPending - (done.flatMap Group.iocbs).length
    inFlight := s.queue.inFlight.filter kept }
  obtain ⟨f, mem, reports, reported, sound⟩ :=
    @Core.reported s record done left deferred events q parted heads.symm answered meets inFlight rfl rfl rfl words
  have count : reports.length = (done.flatMap Group.iocbs).length := by
    rw [← reported.objs, List.length_map]
  refine ⟨_, left, _, ?_, ?_, sound⟩
  · rw [Filtered.lioEvent, reported.run, Option.map_some, count]
  · refine reported.records held heads.symm meets ?_ ?_ ?_ ?_ <;> rfl

theorem reported_queue (s : Filtered) (q : Queue) (words : BitVec 64 → BitVec 64) (events : List Event) :
    { s with queue := q }.reported words events =
      (s.reported words events).map fun (after, split) => ({ after with queue := q }, split) := by
  unfold Filtered.reported
  cases s.mem.ioSplit events <;> rfl

theorem Core.rwioSubmit {results : Nat → BitVec 64} {then' : BitVec 64 → BitVec 64}
    (core : Core s record groups deferred []) (allowed : s.Allowed (.rwioSubmit random words results then'))
    (meets : s.Meets (.rwioSubmit random words results then')) :
    ∃ after record' groups' work', s.rwioSubmit random words results then' = some after ∧ s.Records after ∧
      Sound after record' groups' deferred work' := by
  obtain ⟨idle, answered⟩ := allowed
  unfold Filtered.rwioSubmit
  by_cases empty : s.queue.queued = []
  · rw [if_pos empty]
    exact ⟨s, record, groups, [], rfl, .refl s, core.idle idle⟩
  obtain ⟨f, mem, new, record', submission⟩ := core.submission random words
  obtain ⟨mem₁, filtered⟩ := submission.filtered
  rw [if_neg empty, submission.merged, Option.bind_some]
  dsimp only
  rw [filtered]
  have parted : Submission s random words groups f mem (new ++ []) record' := by
    rw [List.append_nil]
    exact submission
  let q : Queue := { s.queue with inFlight := s.queue.inFlight ++ new.map Group.iocbs, queued := [] }
  have before := @Core.submitted s record groups deferred random words f mem mem new [] q core record' parted
    submission.held.represents nofun rfl rfl rfl rfl
  let sub : Filtered := { s with queue := q, filter := f, mem := mem, faulted := s.faultedBy random }
  let events : List Event := (new.map Group.head).map fun io => ⟨io, results io⟩
  have heads : events.map Event.obj = new.map Group.head := by
    rw [List.map_map]
    exact List.map_id _
  have answers : ∀ event ∈ events, Filtered.Answered (sub.mem.iocbs event.obj).nbytes event.res := by
    intro event member
    obtain ⟨io, inside, rfl⟩ := List.mem_map.mp member
    exact answered mem _ submission.merged io inside
  have seen : ∀ event ∈ events, sub.Seen event := by
    intro event member
    obtain ⟨io, inside, rfl⟩ := List.mem_map.mp member
    have here := meets mem _ submission.merged io inside
    rw [filtered] at here
    exact here
  obtain ⟨f', mem', reports, reported, sound⟩ :=
    @Core.reported sub record' new groups deferred events { s.queue with queued := [] } before heads answers seen
      core.inFlight rfl rfl rfl then'
  have run := (reported_queue sub { s.queue with queued := [] } then' events).trans (congrArg _ reported.run)
  change Filtered.reported { s with
    queue := { s.queue with queued := [] }, filter := f, mem := mem, faulted := s.faultedBy random } _ _ = _ at run
  refine ⟨_, record', groups, _, by rw [run]; rfl, ?_, sound⟩
  have back : Filtered.Records sub
      { sub with filter := f', mem := mem', work := .events reports, failed := sub.failedBy events } := by
    refine reported.records before.held heads seen ?_ ?_ ?_ ?_ <;> rfl
  intro sec changed
  by_cases same : f'.dhash sec = f.dhash sec
  · let first : Filtered := { sub with
      filter := f, mem := mem', work := .events reports, failed := sub.failedBy events }
    have recorded : s.Records first := by
      refine submission.records ?_ ?_ ?_ <;> rfl
    exact recorded sec fun unchanged => changed (same.trans unchanged)
  · exact back sec same

end Blktap.Tapdisk.Filter
