import Blktap.Tapdisk.FilterQueue
import Mathlib.Data.List.Nodup

/-! # What the filter does to operations -/

namespace Blktap.Tapdisk.Filter
open Optimize

variable {f f' : Tfilter} {s : State} {random : Nat → Nat} {words : BitVec 64 → BitVec 64} {io : Nat} {ios : List Nat}

namespace Tfilter

structure Same (f f' : Tfilter) : Prop where
  injects : f'.injects = f.injects
  checks : f'.checks = f.checks
  secs : f'.secs = f.secs
  iocbs : f'.iocbs = f.iocbs
  fiocbs : f'.fiocbs = f.fiocbs

theorem Same.refl (f : Tfilter) : Same f f := ⟨rfl, rfl, rfl, rfl, rfl⟩

theorem Same.trans {f'' : Tfilter} (first : Same f f') (second : Same f' f'') : Same f f'' :=
  ⟨second.injects.trans first.injects, second.checks.trans first.checks, second.secs.trans first.secs,
    second.iocbs.trans first.iocbs, second.fiocbs.trans first.fiocbs⟩

theorem Same.address (same : Same f f') (fio : Nat) : f'.address fio = f.address fio := by
  rw [Tfilter.address, Tfilter.address, same.fiocbs]

theorem Same.has (same : Same f f') (iop : Nat) : f'.has iop = f.has iop := by
  rw [Tfilter.has, Tfilter.has, same.fiocbs, same.iocbs]

theorem Same.draws (same : Same f f') : f'.draws random = f.draws random := by
  funext io
  rw [Tfilter.draws, Tfilter.draws, same.injects]

theorem has_address {fio : Nat} (inside : fio < f.iocbs) : f.has (f.address fio) = true := by
  simp only [has, address, fiocbSize, Bool.and_eq_true]
  exact ⟨decide_eq_true (Nat.le_add_right _ _), decide_eq_true (by omega)⟩

theorem address_record (f : Tfilter) (fio : Nat) : (f.address fio - f.fiocbs) / fiocbSize = fio := by
  simp only [address, fiocbSize]
  omega

structure Checks (f f' : Tfilter) (sectors : List Nat) : Prop where
  same : Same f f'
  flist : f'.flist = f.flist
  records : f'.records = f.records
  dhash : ∀ sec, f'.dhash sec ≠ f.dhash sec → sec ∈ sectors ∧ sec < f.secs

theorem Checks.refl (f : Tfilter) (sectors : List Nat) : Checks f f sectors :=
  ⟨.refl f, rfl, rfl, fun _ changed => absurd rfl changed⟩

theorem Checks.trans {f'' : Tfilter} {sectors : List Nat} (first : Checks f f' sectors)
    (second : Checks f' f'' sectors) : Checks f f'' sectors where
  same := first.same.trans second.same
  flist := second.flist.trans first.flist
  records := second.records.trans first.records
  dhash sec changed := by
    by_cases later : f''.dhash sec = f'.dhash sec
    · exact first.dhash sec (later ▸ changed)
    · have place := second.dhash sec later
      rwa [first.same.secs] at place

theorem checkHash_checks (f : Tfilter) (write : Bool) (sec : Nat) (sum : BitVec 64) (sectors : List Nat) :
    Checks f (f.checkHash write sec sum) sectors := by
  unfold checkHash
  split
  · exact .refl f sectors
  split
  · exact ⟨⟨rfl, rfl, rfl, rfl, rfl⟩, rfl, rfl, fun _ changed => absurd rfl changed⟩
  · exact .refl f sectors

theorem insertHash_checks {sec : Nat} {sectors : List Nat} (sum : BitVec 64) (member : sec ∈ sectors)
    (inside : sec < f.secs) : Checks f (f.insertHash sec sum) sectors := by
  refine ⟨⟨rfl, rfl, rfl, rfl, rfl⟩, rfl, rfl, fun other changed => ?_⟩
  by_cases here : other = sec
  · rw [here]
    exact ⟨member, inside⟩
  · exact absurd (Function.update_of_ne here _ _) changed

theorem checkSector_checks {type : Check} {rw : Bool} {sec : Nat} {sectors : List Nat} (sum : BitVec 64)
    (member : sec ∈ sectors) :
    Checks f (f.checkSector type rw sec sum) (if (type = .pre ↔ rw = true) then sectors else []) := by
  unfold checkSector
  split
  · exact .refl f _
  next inside =>
    rw [Nat.not_le] at inside
    cases rw <;> cases type
    · exact .refl f _
    · have first := checkHash_checks f false sec sum sectors
      refine first.trans (insertHash_checks sum member ?_)
      rw [first.same.secs]
      exact inside
    · exact insertHash_checks sum member inside
    · exact checkHash_checks f true sec sum _

theorem foldl_checks {α : Type} {g : Tfilter → α → Tfilter} {l : List α} {sectors : List Nat}
    (turn : ∀ f, ∀ a ∈ l, Checks f (g f a) sectors) (f : Tfilter) : Checks f (l.foldl g f) sectors := by
  induction l generalizing f with
  | nil => exact .refl f sectors
  | cons a l ih =>
      have first := turn f a List.mem_cons_self
      exact first.trans (ih (fun f b member => turn f b (List.mem_cons_of_mem _ member)) (g f a))

theorem checkData_checks (f : Tfilter) (type : Check) (words : BitVec 64 → BitVec 64) (iocb : Iocb) :
    Checks f (f.checkData type words iocb)
      (if (type = .pre ↔ iocb.opcode = ioCmdPwrite) then (sectorsOf iocb).map Prod.fst else []) := by
  apply foldl_checks
  rintro f ⟨sec, buf⟩ member
  have turn := @checkSector_checks f type (decide (iocb.opcode = ioCmdPwrite)) sec _ (chksum words buf)
    (List.mem_map_of_mem (f := Prod.fst) member)
  simpa only [decide_eq_true_eq] using turn

end Tfilter

def hidden (f : Tfilter) (iocb : Iocb) (fio : Nat) : Iocb := { iocb with nbytes := 0, data := .user (f.address fio) }

structure OnlyIocbs (s s' : State) : Prop where
  opios : s'.opios = s.opios
  numOpios : s'.numOpios = s.numOpios
  free : s'.free = s.free

theorem OnlyIocbs.trans {s' s'' : State} (first : OnlyIocbs s s') (second : OnlyIocbs s' s'') : OnlyIocbs s s'' :=
  ⟨second.opios.trans first.opios, second.numOpios.trans first.numOpios, second.free.trans first.free⟩

structure Hides (f : Tfilter) (s : State) (ios faults : List Nat) (f' : Tfilter) (s' : State) (record : Nat → Nat) :
    Prop where
  same : f.Same f'
  only : OnlyIocbs s s'
  flist : f.flist = faults.map record ++ f'.flist
  hides : ∀ io ∈ faults, s'.iocbs io = hidden f (s.iocbs io) (record io) ∧
    f'.records (record io) = ⟨(s.iocbs io).nbytes, (s.iocbs io).data⟩
  others : ∀ io, io ∉ faults → s'.iocbs io = s.iocbs io
  records : ∀ fio, fio ∉ faults.map record → f'.records fio = f.records fio
  dhash : ∀ sec, f'.dhash sec ≠ f.dhash sec → ∃ io ∈ ios, io ∉ faults ∧ (s.iocbs io).opcode = ioCmdPwrite ∧
    sec ∈ (Tfilter.sectorsOf (s.iocbs io)).map Prod.fst

theorem faults_sublist : (f.faults random ios).Sublist ios := (List.take_sublist _ _).trans List.filter_sublist

theorem filterIocb_checks (words : BitVec 64 → BitVec 64) (plain : f.draws random io = false ∨ f.flist = []) :
    ∃ f', f.filterIocb random words s io = (f', s) ∧ f.Checks f'
      (if (s.iocbs io).opcode = ioCmdPwrite then (Tfilter.sectorsOf (s.iocbs io)).map Prod.fst else []) := by
  unfold Tfilter.filterIocb
  split
  next drawn =>
    have empty := plain.resolve_left (by simp [drawn])
    refine ⟨f, ?_, .refl f _⟩
    simp only [Tfilter.injectFault, empty]
  next =>
    split
    · have checks := f.checkData_checks .pre words (s.iocbs io)
      simp only [true_iff] at checks
      exact ⟨_, rfl, checks⟩
    · exact ⟨f, rfl, .refl f _⟩

theorem filterIocbs_hides (random : Nat → Nat) (words : BitVec 64 → BitVec 64) (nodup : ios.Nodup)
    (free : f.flist.Nodup) : ∃ f' s' record, f.filterIocbs random words s ios = (f', s') ∧
      Hides f s ios (f.faults random ios) f' s' record := by
  induction ios generalizing f s with
  | nil =>
      have none' : f.faults random [] = [] := List.take_nil
      rw [none']
      refine ⟨f, s, fun _ => 0, rfl, .refl f, ⟨rfl, rfl, rfl⟩, rfl, nofun, fun _ _ => rfl, fun _ _ => rfl, ?_⟩
      exact fun _ changed => absurd rfl changed
  | cons io ios ih =>
      rw [List.nodup_cons] at nodup
      by_cases fault : f.draws random io = true ∧ f.flist ≠ []
      · obtain ⟨drawn, some_free⟩ := fault
        obtain ⟨fio, flist, here⟩ := List.exists_cons_of_ne_nil some_free
        let f₁ : Tfilter := { f with
          flist := flist, records := Function.update f.records fio ⟨(s.iocbs io).nbytes, (s.iocbs io).data⟩ }
        let s₁ : State := s.setIocb io (hidden f (s.iocbs io) fio)
        have same₁ : f.Same f₁ := ⟨rfl, rfl, rfl, rfl, rfl⟩
        have only₁ : OnlyIocbs s s₁ := ⟨rfl, rfl, rfl⟩
        have turn : f.filterIocb random words s io = (f₁, s₁) := by
          simp only [Tfilter.filterIocb, drawn, if_true, Tfilter.injectFault, here]
          rfl
        rw [here, List.nodup_cons] at free
        obtain ⟨f', s', record, rest, hides⟩ := ih (f := f₁) (s := s₁) nodup.2 free.2
        have faults : f.faults random (io :: ios) = io :: f₁.faults random ios := by
          simp only [Tfilter.faults, List.filter_cons_of_pos drawn, here, List.length_cons, List.take_succ_cons]
          rfl
        have away : ∀ other ∈ f₁.faults random ios, other ≠ io := by
          rintro other member rfl
          exact nodup.1 (faults_sublist.subset member)
        have kept : ∀ other, other ≠ io → s₁.iocbs other = s.iocbs other := fun other apart =>
          Function.update_of_ne apart _ _
        let record' : Nat → Nat := Function.update record io fio
        have here' : record' io = fio := Function.update_self ..
        have behind : ∀ other ∈ f₁.faults random ios, record' other = record other := fun other member =>
          Function.update_of_ne (away other member) _ _
        have map : (f₁.faults random ios).map record' = (f₁.faults random ios).map record := List.map_congr_left behind
        have unused : fio ∉ (f₁.faults random ios).map record := by
          intro member
          have inside : fio ∈ f₁.flist := hides.flist ▸ List.mem_append_left _ member
          exact free.1 inside
        refine ⟨f', s', record', ?_, ⟨same₁.trans hides.same, only₁.trans hides.only, ?_, ?_, ?_, ?_, ?_⟩⟩
        · simp only [Tfilter.filterIocbs, List.foldl_cons, turn] at rest ⊢
          exact rest
        · rw [faults, List.map_cons, map, here', here, List.cons_append]
          exact congrArg _ hides.flist
        · rw [faults]
          intro other member
          rcases List.mem_cons.mp member with rfl | member
          · rw [here', hides.others _ fun inside => away _ inside rfl, hides.records fio unused]
            exact ⟨Function.update_self .., Function.update_self ..⟩
          · rw [behind other member, ← kept other (away other member)]
            exact hides.hides other member
        · rw [faults]
          intro other outside
          rw [List.mem_cons, not_or] at outside
          rw [hides.others other outside.2, kept other outside.1]
        · rw [faults, List.map_cons, map, here']
          intro other outside
          rw [List.mem_cons, not_or] at outside
          rw [hides.records other outside.2]
          exact Function.update_of_ne outside.1 _ _
        · intro sec changed
          obtain ⟨other, member, outside, write, covers⟩ := hides.dhash sec changed
          have apart : other ≠ io := fun same => nodup.1 (same ▸ member)
          rw [kept other apart] at write covers
          refine ⟨other, List.mem_cons_of_mem _ member, ?_, write, covers⟩
          rw [faults, List.mem_cons, not_or]
          exact ⟨apart, outside⟩
      · rw [not_and_or, Bool.not_eq_true, not_not] at fault
        obtain ⟨f₁, turn, checks⟩ := filterIocb_checks (s := s) words fault
        obtain ⟨f', s', record, rest, hides⟩ := ih (f := f₁) (s := s) nodup.2 (checks.flist ▸ free)
        have faults : f.faults random (io :: ios) = f₁.faults random ios := by
          simp only [Tfilter.faults, checks.flist, checks.same.draws]
          rcases fault with drawn | empty
          · rw [List.filter_cons_of_neg (by simp [drawn])]
          · simp [empty]
        have first : io ∉ f₁.faults random ios := fun inside => nodup.1 (faults_sublist.subset inside)
        refine ⟨f', s', record, ?_, ?_⟩
        · simp only [Tfilter.filterIocbs, List.foldl_cons, turn] at rest ⊢
          exact rest
        rw [faults]
        refine ⟨checks.same.trans hides.same, hides.only, checks.flist ▸ hides.flist, ?_, hides.others, ?_, ?_⟩
        · intro other member
          obtain ⟨hides, saved⟩ := hides.hides other member
          refine ⟨hides.trans ?_, saved⟩
          rw [hidden, hidden, checks.same.address]
        · intro fio outside
          rw [hides.records fio outside, checks.records]
        · intro sec changed
          by_cases later : f'.dhash sec = f₁.dhash sec
          · obtain ⟨member, -⟩ := checks.dhash sec (later ▸ changed)
            split at member
            next write => exact ⟨io, List.mem_cons_self, first, write, member⟩
            next => cases member
          · obtain ⟨other, member, rest⟩ := hides.dhash sec later
            exact ⟨other, List.mem_cons_of_mem _ member, rest⟩

structure Returning (f : Tfilter) (s : State) (asked : Nat → Iocb) (faulted : Nat → Bool) (record : Nat → Nat)
    (ios : List Nat) : Prop where
  injects : ∀ io ∈ ios, faulted io = true → f.injects = true
  hides : ∀ io ∈ ios, faulted io = true → s.iocbs io = hidden f (asked io) (record io) ∧
    f.records (record io) = ⟨(asked io).nbytes, (asked io).data⟩ ∧ record io < f.iocbs
  plain : ∀ io ∈ ios, faulted io = false → s.iocbs io = asked io
  own : ∀ io ∈ ios, ∃ pointer, (asked io).data = .user pointer ∧ f.has pointer = false
  nodup : ios.Nodup
  apart : ((ios.filter faulted).map record).Nodup

structure Recovers (f : Tfilter) (s : State) (asked : Nat → Iocb) (faulted : Nat → Bool) (record : Nat → Nat)
    (ios : List Nat) (f' : Tfilter) (s' : State) : Prop where
  same : f.Same f'
  only : OnlyIocbs s s'
  flist : f'.flist.Perm ((ios.filter faulted).map record ++ f.flist)
  recovers : ∀ io ∈ ios, s'.iocbs io = asked io
  others : ∀ io, io ∉ ios → s'.iocbs io = s.iocbs io
  records : ∀ fio, fio ∉ (ios.filter faulted).map record → f'.records fio = f.records fio
  dhash : ∀ sec, f'.dhash sec ≠ f.dhash sec → ∃ io ∈ ios, faulted io = false ∧ (asked io).opcode ≠ ioCmdPwrite ∧
    sec ∈ (Tfilter.sectorsOf (asked io)).map Prod.fst ∧ sec < f.secs ∧ f.checks = true

variable {asked : Nat → Iocb} {faulted : Nat → Bool} {record : Nat → Nat}

theorem filterEvent_recovers (words : BitVec 64 → BitVec 64)
    (returning : Returning f s asked faulted record (io :: ios)) (fault : faulted io = true) :
    ∃ f' s', f.filterEvent words s io = (f', s') ∧ f.Same f' ∧ f'.dhash = f.dhash ∧
      f'.flist = record io :: f.flist ∧ f'.records = Function.update f.records (record io) {} ∧
      s' = s.setIocb io (asked io) := by
  obtain ⟨here, saved, inside⟩ := returning.hides io List.mem_cons_self fault
  have injects := returning.injects io List.mem_cons_self fault
  have found : f.faultInjected s io = some (record io) := by
    simp only [Tfilter.faultInjected, here, hidden, Tfilter.has_address inside, if_true, Tfilter.address_record]
  have turn : f.filterEvent words s io = f.recoverFault s io (record io) := by
    simp only [Tfilter.filterEvent, injects, if_true, found]
  refine ⟨_, _, turn, ⟨rfl, rfl, rfl, rfl, rfl⟩, rfl, rfl, rfl, ?_⟩
  simp only [here, saved, hidden]

theorem filterEvent_plain (words : BitVec 64 → BitVec 64)
    (returning : Returning f s asked faulted record (io :: ios)) (plain : faulted io = false) :
    ∃ f', f.filterEvent words s io = (f', s) ∧ f.Checks f'
      (if f.checks = true ∧ (asked io).opcode ≠ ioCmdPwrite then (Tfilter.sectorsOf (asked io)).map Prod.fst
        else []) := by
  have here := returning.plain io List.mem_cons_self plain
  obtain ⟨pointer, data, outside⟩ := returning.own io List.mem_cons_self
  have none' : (if f.injects then f.faultInjected s io else none) = none := by
    have found : f.faultInjected s io = none := by
      simp only [Tfilter.faultInjected, here, data, outside, Bool.false_eq_true, if_false]
    rw [found, ite_self]
  by_cases checks : f.checks = true
  · have turn : f.filterEvent words s io = (f.checkData .post words (s.iocbs io), s) := by
      simp only [Tfilter.filterEvent, none', checks, if_true]
    have all := f.checkData_checks .post words (s.iocbs io)
    refine ⟨_, turn, ?_⟩
    simpa only [reduceCtorEq, false_iff, here, checks, true_and, ne_eq] using all
  · refine ⟨f, ?_, .refl f _⟩
    simp only [Tfilter.filterEvent, none', checks, if_false, Bool.false_eq_true]

theorem filterEvents_recovers (words : BitVec 64 → BitVec 64) (returning : Returning f s asked faulted record ios) :
    ∃ f' s', f.filterEvents words s ios = (f', s') ∧ Recovers f s asked faulted record ios f' s' := by
  induction ios generalizing f s with
  | nil =>
      refine ⟨f, s, rfl, .refl f, ⟨rfl, rfl, rfl⟩, List.Perm.refl _, nofun, fun _ _ => rfl, fun _ _ => rfl, ?_⟩
      exact fun _ changed => absurd rfl changed
  | cons io ios ih =>
      have nodup := List.nodup_cons.mp returning.nodup
      have away : ∀ other ∈ ios, other ≠ io := by
        rintro other member rfl
        exact nodup.1 member
      by_cases fault : faulted io = true
      · obtain ⟨f₁, s₁, turn, same, dhash, flist, records, rfl⟩ := filterEvent_recovers words returning fault
        have filter : (io :: ios).filter faulted = io :: ios.filter faulted := List.filter_cons_of_pos fault
        have apart := returning.apart
        rw [filter, List.map_cons, List.nodup_cons] at apart
        have next : Returning f₁ (s.setIocb io (asked io)) asked faulted record ios := by
          refine ⟨?_, ?_, ?_, ?_, nodup.2, apart.2⟩
          · intro other member hit
            rw [same.injects]
            exact returning.injects other (List.mem_cons_of_mem _ member) hit
          · intro other member hit
            obtain ⟨here, saved, inside⟩ := returning.hides other (List.mem_cons_of_mem _ member) hit
            have distinct : record other ≠ record io := fun equal =>
              apart.1 (equal ▸ List.mem_map_of_mem (List.mem_filter.mpr ⟨member, hit⟩))
            refine ⟨(Function.update_of_ne (away other member) _ _).trans (here.trans ?_), ?_, ?_⟩
            · rw [hidden, hidden, same.address]
            · rw [records, Function.update_of_ne distinct, saved]
            · rw [same.iocbs]
              exact inside
          · intro other member miss
            exact (Function.update_of_ne (away other member) _ _).trans
              (returning.plain other (List.mem_cons_of_mem _ member) miss)
          · intro other member
            obtain ⟨pointer, data, outside⟩ := returning.own other (List.mem_cons_of_mem _ member)
            exact ⟨pointer, data, (same.has pointer).trans outside⟩
        have only₁ : OnlyIocbs s (s.setIocb io (asked io)) := ⟨rfl, rfl, rfl⟩
        obtain ⟨f', s', rest, recovers⟩ := ih next
        refine ⟨f', s', ?_, ⟨same.trans recovers.same, only₁.trans recovers.only, ?_, ?_, ?_, ?_, ?_⟩⟩
        · simp only [Tfilter.filterEvents, List.foldl_cons, turn] at rest ⊢
          exact rest
        · rw [filter, List.map_cons]
          have perm := recovers.flist
          rw [flist] at perm
          exact perm.trans List.perm_middle
        · intro other member
          rcases List.mem_cons.mp member with rfl | member
          · rw [recovers.others _ nodup.1]
            exact Function.update_self ..
          · exact recovers.recovers other member
        · intro other outside
          rw [List.mem_cons, not_or] at outside
          rw [recovers.others other outside.2]
          exact Function.update_of_ne outside.1 _ _
        · rw [filter, List.map_cons]
          intro fio outside
          rw [List.mem_cons, not_or] at outside
          rw [recovers.records fio outside.2, records, Function.update_of_ne outside.1]
        · intro sec changed
          rw [← dhash] at changed
          obtain ⟨other, member, miss, read, covers, inside, checks⟩ := recovers.dhash sec changed
          rw [same.secs] at inside
          rw [same.checks] at checks
          exact ⟨other, List.mem_cons_of_mem _ member, miss, read, covers, inside, checks⟩
      · rw [Bool.not_eq_true] at fault
        obtain ⟨f₁, turn, checked⟩ := filterEvent_plain words returning fault
        have filter : (io :: ios).filter faulted = ios.filter faulted := List.filter_cons_of_neg (by simp [fault])
        have apart := returning.apart
        rw [filter] at apart
        have next : Returning f₁ s asked faulted record ios := by
          refine ⟨?_, ?_, ?_, ?_, nodup.2, apart⟩
          · intro other member hit
            rw [checked.same.injects]
            exact returning.injects other (List.mem_cons_of_mem _ member) hit
          · intro other member hit
            obtain ⟨here, saved, inside⟩ := returning.hides other (List.mem_cons_of_mem _ member) hit
            refine ⟨here.trans ?_, checked.records ▸ saved, checked.same.iocbs.symm ▸ inside⟩
            rw [hidden, hidden, checked.same.address]
          · exact fun other member miss => returning.plain other (List.mem_cons_of_mem _ member) miss
          · intro other member
            obtain ⟨pointer, data, outside⟩ := returning.own other (List.mem_cons_of_mem _ member)
            exact ⟨pointer, data, (checked.same.has pointer).trans outside⟩
        obtain ⟨f', s', rest, recovers⟩ := ih next
        refine ⟨f', s', ?_, ⟨checked.same.trans recovers.same, recovers.only, ?_, ?_, ?_, ?_, ?_⟩⟩
        · simp only [Tfilter.filterEvents, List.foldl_cons, turn] at rest ⊢
          exact rest
        · rw [filter]
          exact checked.flist ▸ recovers.flist
        · intro other member
          rcases List.mem_cons.mp member with rfl | member
          · rw [recovers.others _ nodup.1, returning.plain _ List.mem_cons_self fault]
          · exact recovers.recovers other member
        · intro other outside
          rw [List.mem_cons, not_or] at outside
          exact recovers.others other outside.2
        · rw [filter]
          intro fio outside
          rw [recovers.records fio outside, checked.records]
        · intro sec changed
          by_cases later : f'.dhash sec = f₁.dhash sec
          · obtain ⟨covers, inside⟩ := checked.dhash sec (later ▸ changed)
            split at covers
            next read => exact ⟨io, List.mem_cons_self, fault, read.2, covers, inside, read.1⟩
            next => cases covers
          · obtain ⟨other, member, miss, read, covers, inside, checks⟩ := recovers.dhash sec later
            rw [checked.same.secs] at inside
            rw [checked.same.checks] at checks
            exact ⟨other, List.mem_cons_of_mem _ member, miss, read, covers, inside, checks⟩

end Blktap.Tapdisk.Filter
