import Blktap.Lib.FreeList
import Blktap.Lib.Queues
import Blktap.Lib.Run
import Blktap.Vindex.Vindex
import Mathlib.Data.Fintype.EquivFin

/-! # The pools of the driver of a VHD index -/

namespace Blktap.Vindex
open Lib

def Index.InBlock (x : Index) (blk : Nat) (t : Treq) : Prop :=
  t.secs = 0 ∨ x.blkOf t.sec = blk ∧ t.sec % x.spb + t.secs ≤ x.spb

namespace Driver

def waiting (s : Driver) : List Waiting := queued (fun b => (s.blocks b).queue) vhdIndexCacheSize

def Cached (s : Driver) (b : Nat) : Prop := ∃ i < vhdIndexCacheSize, s.cache i = some b

end Driver

structure Pool (free : List Nat) (indexSet : Nat → Bool) (waiting : List Waiting) (flights : List Flight) : Prop where
  once : (free ++ waiting.map (·.req) ++ flights.map (·.req)).Perm (List.range vhdIndexRequests)
  unset : ∀ req ∈ free, indexSet req = false

structure Files (fds : Nat → FileRef) (flights : List Flight) : Prop where
  paired : ∀ i, (fds i).refcnt = flights.countP (·.file = i)
  held : ∀ f ∈ flights, (fds f.file).fid = f.fid ∧ (fds f.file).opened
  named : ∀ i, (fds i).fid ≠ 0 → (fds i).opened

structure Slots (cache : Nat → Option Nat) (cacheFree : List Nat) (blk : Nat → Nat) : Prop where
  distinct : ∀ i < vhdIndexCacheSize, ∀ j < vhdIndexCacheSize, ∀ b c, cache i = some b → cache j = some c →
    blk b = blk c → i = j
  small : ∀ i < vhdIndexCacheSize, ∀ b, cache i = some b → b < vhdIndexCacheSize
  spare : FreeList vhdIndexCacheSize cacheFree
  apart : ∀ b ∈ cacheFree, ∀ i < vhdIndexCacheSize, cache i ≠ some b

structure Tables (x : Index) (cache : Nat → Option Nat) (cacheFree : List Nat) (blocks : Nat → Block)
    (metas : List MetaRead) (replaying : Option Nat) : Prop where
  once : (metas.map (·.block)).Nodup
  kept : ∀ m ∈ metas, (∃ i < vhdIndexCacheSize, cache i = some m.block) ∧ (blocks m.block).blk = m.blk ∧
    (blocks m.block).pending ∧ (blocks m.block).valid = false
  sec : ∀ m ∈ metas, m.sec = m.blk * x.spb % 2 ^ 32
  reads : ∀ b, (blocks b).pending → ∃ m ∈ metas, m.block = b
  answered : ∀ b, (blocks b).pending = false → replaying ≠ some b → (blocks b).queue = []
  within : ∀ b, ∀ w ∈ (blocks b).queue, x.InBlock (blocks b).blk w.treq
  read : ∀ b, (blocks b).valid → (blocks b).table = x.entry (blocks b).blk
  blank : ∀ b, (blocks b).valid = false → (blocks b).table = Block.zero.table
  spare : ∀ b ∈ cacheFree, (blocks b).pending = false
  replay : ∀ b, replaying = some b → (∃ i < vhdIndexCacheSize, cache i = some b) ∧ (blocks b).valid ∧
    (blocks b).pending = false

structure Good (x : Index) (s : Driver) : Prop where
  alive : s.fault = none
  pool : Pool s.free s.indexSet s.waiting s.flights
  files : Files s.fds s.flights
  slots : Slots s.cache s.cacheFree fun b => (s.blocks b).blk
  tables : Tables x s.cache s.cacheFree s.blocks s.metas s.replaying
  inside : ∀ b t, s.replaying = some b → s.call = some t → x.InBlock (s.blocks b).blk t

section Lookup
variable {x : Index} {s s' : Driver} {t : Treq} {b c blk sec n : Nat} {opens : Bool}

theorem Driver.Cached.small (good : Good x s) (cached : s.Cached b) : b < vhdIndexCacheSize := by
  obtain ⟨i, small, here⟩ := cached
  exact good.slots.small i small b here

theorem getBlock_some (found : s.getBlock blk = some b) : s.Cached b ∧ (s.blocks b).blk = blk := by
  obtain ⟨i, member, found⟩ := List.exists_of_findSome?_eq_some found
  obtain ⟨here, same⟩ := Option.filter_eq_some_iff.mp found
  exact ⟨⟨i, List.mem_range.mp member, here⟩, of_decide_eq_true same⟩

theorem getBlock_none (found : s.getBlock blk = none) (cached : s.Cached b) : (s.blocks b).blk ≠ blk := by
  obtain ⟨i, small, here⟩ := cached
  intro same
  have missed := List.findSome?_eq_none_iff.mp found i (List.mem_range.mpr small)
  rw [here] at missed
  simp [Option.filter, same] at missed

theorem getBlock_cached (good : Good x s) (cached : s.Cached b) : s.getBlock (s.blocks b).blk = some b := by
  cases found : s.getBlock (s.blocks b).blk with
  | none => exact absurd rfl (getBlock_none found cached)
  | some c =>
      obtain ⟨⟨j, smallJ, there⟩, same⟩ := getBlock_some found
      obtain ⟨i, smallI, here⟩ := cached
      have place := good.slots.distinct j smallJ i smallI c b there here same
      rw [place, here] at there
      exact there.symm

@[simp] theorem getBlock_free (free : List Nat) : { s with free }.getBlock blk = s.getBlock blk := rfl

theorem Good.touchBlock (good : Good x s) (b : Nat) : Good x (s.touchBlock b) where
  alive := good.alive
  pool := good.pool
  files := good.files
  slots := good.slots
  tables := ⟨good.tables.once, good.tables.kept, good.tables.sec, good.tables.reads, good.tables.answered,
    good.tables.within, good.tables.read, good.tables.blank, good.tables.spare, good.tables.replay⟩
  inside := good.inside

theorem touchRead_cases (x : Index) (s : Driver) (sec : Nat) :
    touchRead x s sec = s ∨ ∃ b, touchRead x s sec = s.touchBlock b := by
  simp only [touchRead]
  split
  · exact .inl rfl
  · split
    · exact .inl rfl
    · exact .inr ⟨_, rfl⟩

theorem touchRead_same {β : Type} (f : Driver → β) (same : ∀ b, f (s.touchBlock b) = f s) (x : Index) (sec : Nat) :
    f (touchRead x s sec) = f s := by
  rcases touchRead_cases x s sec with untouched | ⟨b, touched⟩
  · rw [untouched]
  · rw [touched, same]

theorem Good.touchRead (good : Good x s) (sec : Nat) : Good x (touchRead x s sec) := by
  rcases touchRead_cases x s sec with same | ⟨b, touched⟩
  · rw [same]
    exact good
  · rw [touched]
    exact good.touchBlock b

theorem Good.setCall (good : Good x s) (inside : ∀ b, s.replaying = some b → x.InBlock (s.blocks b).blk t) :
    Good x (s.setCall t) where
  alive := good.alive
  pool := good.pool
  files := good.files
  slots := good.slots
  tables := good.tables
  inside := by
    intro b t' replaying called
    cases called
    exact inside b replaying

theorem Good.forward (good : Good x s) (t : Treq) : Good x (s.forward t) :=
  ⟨good.alive, good.pool, good.files, good.slots, good.tables, good.inside⟩

theorem Good.failRead (good : Good x s) (t : Treq) (err : Int) : Good x (s.failRead t err) where
  alive := good.alive
  pool := good.pool
  files := good.files
  slots := good.slots
  tables := good.tables
  inside := fun _ _ _ called => nomatch called

end Lookup

section Pieces
variable {x : Index} {t : Treq} {blk n : Nat}

theorem Index.InBlock.take (x : Index) (t : Treq) : x.InBlock (x.blkOf t.sec) (t.take (x.inBlock t)) := by
  have small := Nat.mod_lt t.sec x.spb_pos
  refine .inr ⟨rfl, ?_⟩
  change t.sec % x.spb + min t.secs (x.spb - t.sec % x.spb) ≤ x.spb
  omega

theorem Index.InBlock.advance (inside : x.InBlock blk t) (n : Nat) : x.InBlock blk (t.advance n) := by
  rcases inside with done | ⟨here, room⟩
  · left
    simp [Treq.advance, done]
  · by_cases left : t.secs ≤ n
    · exact .inl (Nat.sub_eq_zero_of_le left)
    · have stays : t.sec % x.spb + n < x.spb := by omega
      have spread : t.sec + n = t.sec % x.spb + n + x.spb * (t.sec / x.spb) := by
        have whole := Nat.mod_add_div t.sec x.spb
        omega
      right
      change (t.sec + n) / x.spb % 2 ^ 32 = blk ∧ (t.sec + n) % x.spb + (t.secs - n) ≤ x.spb
      rw [spread, Nat.add_mul_div_left _ _ x.spb_pos, Nat.add_mul_mod_self_left, Nat.div_eq_of_lt stays,
        Nat.mod_eq_of_lt stays, Nat.zero_add]
      exact ⟨here, by omega⟩

theorem inBlock_le (x : Index) (t : Treq) : x.inBlock t ≤ t.secs := Nat.min_le_left _ _

end Pieces

section Requests
variable {x : Index} {s : Driver} {t : Treq} {b req : Nat} {rest : List Nat}

def Driver.wait (s : Driver) (b req : Nat) (rest : List Nat) (t : Treq) : Driver :=
  { s with free := rest }.setBlock b { s.blocks b with queue := (s.blocks b).queue ++ [Waiting.mk req t] }

theorem queueRequest_cases (good : Good x s) (found : s.getBlock (x.blkOf t.sec) = some b)
    (pending : (s.blocks b).pending) :
    s.free = [] ∧ queueRequest x s t = (s, -ebusy) ∨
      ∃ req rest, s.free = req :: rest ∧ queueRequest x s t = (s.wait b req rest t, 0) := by
  cases free : s.free with
  | nil => exact .inl ⟨rfl, by simp only [queueRequest, Driver.allocateRequest, free]⟩
  | cons req rest =>
      have unset := good.pool.unset req (by rw [free]; exact List.mem_cons_self)
      refine .inr ⟨req, rest, rfl, ?_⟩
      simp only [queueRequest, Driver.allocateRequest, free, unset, Bool.false_eq_true, if_false,
        getBlock_free, found, pending, if_true, Driver.wait]

theorem Slots.congr {cache : Nat → Option Nat} {cacheFree : List Nat} {blk blk' : Nat → Nat}
    (slots : Slots cache cacheFree blk) (same : ∀ i, blk' i = blk i) : Slots cache cacheFree blk' := by
  rwa [funext same]

theorem Tables.setQueue {cache : Nat → Option Nat} {cacheFree : List Nat} {blocks : Nat → Block}
    {metas : List MetaRead} {replaying : Option Nat} (tables : Tables x cache cacheFree blocks metas replaying)
    (queue : List Waiting) (within : ∀ w ∈ queue, x.InBlock (blocks b).blk w.treq)
    (answered : (blocks b).pending = false → replaying ≠ some b → queue = []) :
    Tables x cache cacheFree (Function.update blocks b { blocks b with queue }) metas replaying := by
  have state (i : Nat) : (Function.update blocks b { blocks b with queue } i).blk = (blocks i).blk ∧
      (Function.update blocks b { blocks b with queue } i).pending = (blocks i).pending ∧
      (Function.update blocks b { blocks b with queue } i).valid = (blocks i).valid ∧
      (Function.update blocks b { blocks b with queue } i).table = (blocks i).table := by
    by_cases here : i = b
    · rw [here, Function.update_self]
      exact ⟨rfl, rfl, rfl, rfl⟩
    · rw [Function.update_of_ne here]
      exact ⟨rfl, rfl, rfl, rfl⟩
  constructor
  case once => exact tables.once
  case sec => exact tables.sec
  case kept =>
    intro m member
    rw [(state m.block).1, (state m.block).2.1, (state m.block).2.2.1]
    exact tables.kept m member
  case reads =>
    intro i
    rw [(state i).2.1]
    exact tables.reads i
  case answered =>
    intro i
    rw [(state i).2.1]
    by_cases here : i = b
    · subst here
      rw [Function.update_self]
      exact answered
    · rw [Function.update_of_ne here]
      exact tables.answered i
  case within =>
    intro i
    rw [(state i).1]
    by_cases here : i = b
    · subst here
      rw [Function.update_self]
      exact within
    · rw [Function.update_of_ne here]
      exact tables.within i
  case read =>
    intro i
    rw [(state i).1, (state i).2.2.1, (state i).2.2.2]
    exact tables.read i
  case blank =>
    intro i
    rw [(state i).2.2.1, (state i).2.2.2]
    exact tables.blank i
  case spare =>
    intro i
    rw [(state i).2.1]
    exact tables.spare i
  case replay =>
    intro i
    rw [(state i).2.1, (state i).2.2.1]
    exact tables.replay i

theorem update_blk {blocks : Nat → Block} {block : Block} (same : block.blk = (blocks b).blk) (i : Nat) :
    (Function.update blocks b block i).blk = (blocks i).blk := by
  by_cases here : i = b
  · rw [here, Function.update_self, same]
  · rw [Function.update_of_ne here]

theorem wait_waiting (s : Driver) (req : Nat) (rest : List Nat) (t : Treq) (small : b < vhdIndexCacheSize) :
    (s.wait b req rest t).waiting.Perm (⟨req, t⟩ :: s.waiting) := by
  apply queued_append small
  · intro i other
    simp only [Driver.wait, Driver.setBlock, Function.update_of_ne other]
  · simp only [Driver.wait, Driver.setBlock, Function.update_self]

theorem Good.wait (good : Good x s) (free : s.free = req :: rest) (cached : s.Cached b) (pending : (s.blocks b).pending)
    (within : x.InBlock (s.blocks b).blk t) : Good x (s.wait b req rest t) where
  alive := good.alive
  files := good.files
  slots := good.slots.congr (update_blk rfl)
  pool := by
    have waiting := wait_waiting s req rest t (cached.small good)
    have once := good.pool.once
    rw [free] at once
    constructor
    · refine List.Perm.trans (List.Perm.append_right _ ?_) once
      exact ((waiting.map (·.req)).append_left rest).trans List.perm_middle
    · intro other member
      exact good.pool.unset other (by rw [free]; exact List.mem_cons_of_mem _ member)
  tables := by
    apply good.tables.setQueue
    · intro w member
      rcases List.mem_append.mp member with old | new
      · exact good.tables.within b w old
      · rw [List.mem_singleton.mp new]
        exact within
    · intro settled
      rw [pending] at settled
      cases settled
  inside := by
    intro c t' replaying called
    have same : ((s.wait b req rest t).blocks c).blk = (s.blocks c).blk := update_blk (by rfl) c
    rw [same]
    exact good.inside c t' replaying called

end Requests

section FilePool
variable {x : Index} {s : Driver} {t : Treq} {fid i req : Nat} {rest : List Nat} {opens : Bool}

theorem lesser_eq {seqno : Nat → Nat} {lru : Option Nat} {c : Nat} (found : lesser seqno lru c = some i) :
    i = c ∨ lru = some i := by
  cases lru with
  | none => exact .inl (Option.some.inj found).symm
  | some least =>
      simp only [lesser] at found
      split at found
      · exact .inl (Option.some.inj found).symm
      · exact .inr found

theorem foldl_lesser_mem {seqno : Nat → Nat} {candidates : List Nat} {lru : Option Nat}
    (found : candidates.foldl (lesser seqno) lru = some i) : lru = some i ∨ i ∈ candidates := by
  induction candidates generalizing lru with
  | nil => exact .inl found
  | cons c candidates ih =>
      rcases ih found with here | later
      · rcases lesser_eq here with rfl | before
        · exact .inr List.mem_cons_self
        · exact .inl before
      · exact .inr (List.mem_cons_of_mem _ later)

theorem leastUsed_mem {seqno : Nat → Nat} {candidates : List Nat} (found : leastUsed seqno candidates = some i) :
    i ∈ candidates :=
  (foldl_lesser_mem found).resolve_left nofun

structure Takes (fds fds' : Nat → FileRef) (i fid : Nat) : Prop where
  fid : (fds' i).fid = fid
  opened : (fds' i).opened
  count : ∀ j, (fds' j).refcnt = (fds j).refcnt + if j = i then 1 else 0
  kept : ∀ j, (fds j).refcnt ≠ 0 → (fds' j).fid = (fds j).fid ∧ (fds' j).opened = (fds j).opened
  named : ∀ j, (fds' j).fid ≠ 0 → (fds' j).opened

theorem useFile_fds (s : Driver) (i j : Nat) : ((s.useFile i).fds j).fid = (s.fds j).fid ∧
    ((s.useFile i).fds j).opened = (s.fds j).opened ∧
    ((s.useFile i).fds j).refcnt = (s.fds j).refcnt + if j = i then 1 else 0 := by
  by_cases here : j = i
  · simp [Driver.useFile, here]
  · simp [Driver.useFile, here]

theorem getFile_takes (files : Files s.fds s.flights) (used : fid ≠ 0)
    (available : (s.findFile fid).isSome ∨ opens ∧ s.lruFile.isSome) :
    ∃ i fds, s.getFile fid opens = ({ s with fds }, .ok i) ∧ Takes s.fds fds i fid := by
  cases found : s.findFile fid with
  | some i =>
      have named : (s.fds i).fid = fid := by simpa using List.find?_some found
      refine ⟨i, (s.useFile i).fds, ?_, ?_⟩
      · simp only [Driver.getFile, found]
        rfl
      · constructor
        case fid => rw [(useFile_fds s i i).1, named]
        case opened =>
          rw [(useFile_fds s i i).2.1]
          exact files.named i (named ▸ used)
        case count => exact fun j => (useFile_fds s i j).2.2
        case kept => exact fun j _ => ⟨(useFile_fds s i j).1, (useFile_fds s i j).2.1⟩
        case named =>
          intro j
          rw [(useFile_fds s i j).1, (useFile_fds s i j).2.1]
          exact files.named j
  | none =>
      obtain ⟨opens, room⟩ := available.resolve_left (by rw [found]; exact Bool.false_ne_true)
      obtain ⟨i, least⟩ := Option.isSome_iff_exists.mp room
      have unused : (s.fds i).refcnt = 0 := of_decide_eq_true (List.mem_filter.mp (leastUsed_mem least)).2
      let opened : Driver :=
        { s with fds := Function.update s.fds i { s.fds i with opened := true, fid := fid, refcnt := 0 } }
      have other {j : Nat} (apart : j ≠ i) : opened.fds j = s.fds j := Function.update_of_ne apart _ _
      have here : opened.fds i = { s.fds i with opened := true, fid := fid, refcnt := 0 } := Function.update_self ..
      refine ⟨i, (opened.useFile i).fds, ?_, ?_⟩
      · simp only [Driver.getFile, found, least, opens, if_true]
        rfl
      · constructor
        case fid => rw [(useFile_fds opened i i).1, here]
        case opened => rw [(useFile_fds opened i i).2.1, here]
        case count =>
          intro j
          rw [(useFile_fds opened i j).2.2]
          by_cases apart : j = i
          · rw [apart, here, unused]
          · rw [other apart]
        case kept =>
          intro j used
          have apart : j ≠ i := fun same => used (same ▸ unused)
          rw [(useFile_fds opened i j).1, (useFile_fds opened i j).2.1, other apart]
          exact ⟨rfl, rfl⟩
        case named =>
          intro j
          rw [(useFile_fds opened i j).1, (useFile_fds opened i j).2.1]
          by_cases apart : j = i
          · rw [apart, here]
            exact fun _ => rfl
          · rw [other apart]
            exact files.named j

def Driver.launch (s : Driver) (rest : List Nat) (fds : Nat → FileRef) (f : Flight) : Driver :=
  { s with free := rest, fds, indexSet := Function.update s.indexSet f.req true, flights := f :: s.flights }

theorem scheduleDataRead_cases (good : Good x s) (ready : readable x s t) (used : (firstEntry x s t).fileId ≠ 0)
    (available : s.free = [] ∨ (s.findFile (firstEntry x s t).fileId).isSome ∨ opens ∧ s.lruFile.isSome) :
    s.free = [] ∧ scheduleDataRead x s t opens = (s, -ebusy) ∨
      ∃ req rest file fds, s.free = req :: rest ∧ Takes s.fds fds file (firstEntry x s t).fileId ∧
        scheduleDataRead x s t opens =
          (s.launch rest fds ⟨req, t, file, (fds file).fid, (firstEntry x s t).offset⟩, 0) := by
  cases free : s.free with
  | nil =>
      left
      simp only [scheduleDataRead, ready, if_true, Driver.allocateRequest, free, and_self]
  | cons req rest =>
      right
      have unset := good.pool.unset req (by rw [free]; exact List.mem_cons_self)
      have room := available.resolve_left (by rw [free]; exact List.cons_ne_nil req rest)
      obtain ⟨file, fds, got, takes⟩ := getFile_takes (s := { s with free := rest }) good.files used room
      refine ⟨req, rest, file, fds, rfl, takes, ?_⟩
      simp only [scheduleDataRead, ready, if_true, Driver.allocateRequest, free, unset, Bool.false_eq_true, if_false,
        got, Driver.launch]

theorem Pool.nodup {free : List Nat} {indexSet : Nat → Bool} {waiting : List Waiting} {flights : List Flight}
    (pool : Pool free indexSet waiting flights) : free.Nodup :=
  (pool.once.nodup_iff.mpr List.nodup_range).of_append_left.of_append_left

theorem Files.launch {fds fds' : Nat → FileRef} {flights : List Flight} {f : Flight} (files : Files fds flights)
    (takes : Takes fds fds' f.file f.fid) : Files fds' (f :: flights) where
  named := takes.named
  paired := by
    intro i
    rw [takes.count, files.paired, List.countP_cons]
    simp only [decide_eq_true_eq, eq_comm (a := i)]
  held := by
    intro g member
    rcases List.mem_cons.mp member with rfl | old
    · exact ⟨takes.fid, takes.opened⟩
    · have counted : 0 < flights.countP (·.file = g.file) :=
        List.countP_pos_iff.mpr ⟨g, old, decide_eq_true rfl⟩
      have busy : (fds g.file).refcnt ≠ 0 := by
        rw [files.paired]
        exact Nat.ne_of_gt counted
      rw [(takes.kept _ busy).1, (takes.kept _ busy).2]
      exact files.held g old

theorem Good.launch {f : Flight} {fds : Nat → FileRef} (good : Good x s) (free : s.free = f.req :: rest)
    (takes : Takes s.fds fds f.file f.fid) : Good x (s.launch rest fds f) where
  alive := good.alive
  slots := good.slots
  tables := good.tables
  inside := good.inside
  files := good.files.launch takes
  pool := by
    have once := good.pool.once
    have nodup := good.pool.nodup
    rw [free] at once nodup
    constructor
    · apply List.Perm.trans _ once
      exact List.perm_middle
    · intro other member
      have apart : other ≠ f.req := fun same => (List.nodup_cons.mp nodup).1 (same ▸ member)
      change Function.update s.indexSet f.req true other = false
      rw [Function.update_of_ne apart]
      exact good.pool.unset other (by rw [free]; exact List.mem_cons_of_mem _ member)

end FilePool

section BlockCache
variable {x : Index} {s s' t : Driver} {b blk : Nat}

theorem Slots.all {cache : Nat → Option Nat} {cacheFree : List Nat} {blk : Nat → Nat}
    (slots : Slots cache cacheFree blk) (full : ∀ i < vhdIndexCacheSize, cache i ≠ none) (small : b < vhdIndexCacheSize) :
    ∃ i < vhdIndexCacheSize, cache i = some b := by
  have taken (i : Fin vhdIndexCacheSize) : ∃ c : Fin vhdIndexCacheSize, cache i = some c.val := by
    obtain ⟨c, here⟩ := Option.ne_none_iff_exists'.mp (full i i.isLt)
    exact ⟨⟨c, slots.small i i.isLt c here⟩, here⟩
  choose table here using taken
  have injective : Function.Injective table := by
    intro i j same
    exact Fin.ext (slots.distinct i i.isLt j j.isLt _ _ (here i) (here j) (by rw [same]))
  obtain ⟨i, found⟩ := Finite.injective_iff_surjective.mp injective ⟨b, small⟩
  exact ⟨i, i.isLt, by rw [here, found]⟩

structure Spared (s t : Driver) (b : Nat) : Prop where
  rest : t = { s with cache := t.cache, cacheFree := t.cacheFree }
  small : b < vhdIndexCacheSize
  settled : (s.blocks b).pending = false
  room : ∃ i < vhdIndexCacheSize, t.cache i = none
  apart : ∀ i < vhdIndexCacheSize, t.cache i ≠ some b
  old : ∀ i c, t.cache i = some c → s.cache i = some c
  kept : ∀ i c, s.cache i = some c → c = b ∨ t.cache i = some c
  free : FreeList vhdIndexCacheSize t.cacheFree
  sub : ∀ c ∈ t.cacheFree, c ∈ s.cacheFree
  taken : b ∉ t.cacheFree

theorem allocateBlock_cases (good : Good x s) :
    s.allocateBlock = none ∨
      ∃ b t, s.allocateBlock = some ((t.initializeBlock b).touchBlock b, b) ∧ Spared s t b := by
  have slots := good.slots
  cases free : s.cacheFree with
  | cons b rest =>
      have spare := slots.spare
      rw [free] at spare
      have member : b ∈ s.cacheFree := by rw [free]; exact List.mem_cons_self
      obtain ⟨small, taken, spare⟩ := spare.head
      refine .inr ⟨b, { s with cacheFree := rest }, by simp only [Driver.allocateBlock, free], ?_⟩
      constructor
      case rest => rfl
      case small => exact small
      case settled => exact good.tables.spare b member
      case room =>
        by_contra full
        push Not at full
        obtain ⟨i, inside, here⟩ := slots.all full small
        exact slots.apart b member i inside here
      case apart => exact slots.apart b member
      case old => exact fun i c here => here
      case kept => exact fun i c here => .inr here
      case free => exact spare
      case sub => exact fun c later => by rw [free]; exact List.mem_cons_of_mem _ later
      case taken => exact taken
  | nil =>
      cases least : s.lruBlock with
      | none => exact .inl (by simp only [Driver.allocateBlock, free, least, Option.bind_none])
      | some i =>
          obtain ⟨member, settled⟩ := List.mem_filter.mp (leastUsed_mem least)
          have inside := List.mem_range.mp member
          cases here : s.cache i with
          | none =>
              rw [here] at settled
              cases settled
          | some b =>
              rw [here] at settled
              have emptied : Function.update s.cache i none i = none := Function.update_self ..
              have elsewhere {j : Nat} (apart : j ≠ i) : Function.update s.cache i none j = s.cache j :=
                Function.update_of_ne apart _ _
              refine .inr ⟨b, { s with cache := Function.update s.cache i none }, ?_, ?_⟩
              · simp only [Driver.allocateBlock, free, least, Option.bind_some, here, Option.map_some]
              · constructor
                case rest => rfl
                case small => exact slots.small i inside b here
                case settled => simpa using settled
                case room => exact ⟨i, inside, emptied⟩
                case apart =>
                  intro j small there
                  by_cases same : j = i
                  · rw [same] at there
                    exact nomatch emptied.symm.trans there
                  · exact same (slots.distinct j small i inside b b ((elsewhere same).symm.trans there) here rfl)
                case old =>
                  intro j c there
                  by_cases same : j = i
                  · rw [same] at there
                    exact nomatch emptied.symm.trans there
                  · exact (elsewhere same).symm.trans there
                case kept =>
                  intro j c there
                  by_cases same : j = i
                  · rw [same, here] at there
                    exact .inl (Option.some.inj there).symm
                  · exact .inr ((elsewhere same).trans there)
                case free => exact slots.spare
                case sub => exact fun c later => later
                case taken => simp [free]

structure Fetched (x : Index) (s s' : Driver) (b blk : Nat) : Prop where
  rest : s' = { s with blocks := s'.blocks, cache := s'.cache, cacheFree := s'.cacheFree,
                       metas := ⟨b, blk, blk * x.spb % 2 ^ 32⟩ :: s.metas }
  small : b < vhdIndexCacheSize
  settled : (s.blocks b).pending = false
  here : ∃ seqno, s'.blocks b = { Block.zero with blk, seqno, pending := true }
  others : ∀ c, c ≠ b → ∃ seqno, s'.blocks c = { s.blocks c with seqno }
  cached : ∃ i < vhdIndexCacheSize, s'.cache i = some b
  once : ∀ i < vhdIndexCacheSize, ∀ j < vhdIndexCacheSize, s'.cache i = some b → s'.cache j = some b → i = j
  old : ∀ i c, s'.cache i = some c → c = b ∨ s.cache i = some c
  kept : ∀ i c, s.cache i = some c → c = b ∨ s'.cache i = some c
  free : FreeList vhdIndexCacheSize s'.cacheFree
  sub : ∀ c ∈ s'.cacheFree, c ∈ s.cacheFree
  taken : b ∉ s'.cacheFree

def Driver.fetch (x : Index) (t : Driver) (b i blk : Nat) : Driver :=
  let touched := (t.initializeBlock b).touchBlock b
  let named := touched.setBlock b { touched.blocks b with blk }
  let placed : Driver := { named with cache := Function.update named.cache i (some b) }
  { placed.setBlock b { placed.blocks b with pending := true } with
    metas := ⟨b, blk, blk * x.spb % 2 ^ 32⟩ :: placed.metas }

theorem fetch_here (x : Index) (t : Driver) (b i blk : Nat) :
    ∃ seqno, (t.fetch x b i blk).blocks b = { Block.zero with blk, seqno, pending := true } := by
  refine ⟨(((t.initializeBlock b).touchBlock b).blocks b).seqno, ?_⟩
  simp [Driver.fetch, Driver.setBlock, Driver.touchBlock, Driver.initializeBlock]

theorem fetch_other (x : Index) (t : Driver) {b c : Nat} (i blk : Nat) (other : c ≠ b) :
    ∃ seqno, (t.fetch x b i blk).blocks c = { t.blocks c with seqno } := by
  refine ⟨(((t.initializeBlock b).touchBlock b).blocks c).seqno, ?_⟩
  simp [Driver.fetch, Driver.setBlock, Driver.touchBlock, Driver.initializeBlock, other]

theorem Spared.fetched {i : Nat} (spared : Spared s t b) (inside : i < vhdIndexCacheSize) (empty : t.cache i = none) :
    Fetched x s (t.fetch x b i blk) b blk := by
  have blocks : t.blocks = s.blocks := by rw [spared.rest]
  have placed : (t.fetch x b i blk).cache i = some b := Function.update_self ..
  have elsewhere {j : Nat} (apart : j ≠ i) : (t.fetch x b i blk).cache j = t.cache j := Function.update_of_ne apart _ _
  constructor
  case rest =>
    rw [spared.rest]
    rfl
  case small => exact spared.small
  case settled => exact spared.settled
  case here => exact fetch_here x t b i blk
  case others =>
    intro c other
    rw [← blocks]
    exact fetch_other x t i blk other
  case cached => exact ⟨i, inside, placed⟩
  case once =>
    have only (j : Nat) (small : j < vhdIndexCacheSize) (there : (t.fetch x b i blk).cache j = some b) : j = i := by
      by_contra apart
      exact spared.apart j small ((elsewhere apart).symm.trans there)
    exact fun j small k small' there there' => (only j small there).trans (only k small' there').symm
  case old =>
    intro j c there
    by_cases same : j = i
    · rw [same, placed] at there
      exact .inl (Option.some.inj there).symm
    · exact .inr (spared.old j c ((elsewhere same).symm.trans there))
  case kept =>
    intro j c there
    rcases spared.kept j c there with same | stays
    · exact .inl same
    · have apart : j ≠ i := by
        rintro rfl
        exact nomatch empty.symm.trans stays
      exact .inr ((elsewhere apart).trans stays)
  case free => exact spared.free
  case sub => exact spared.sub
  case taken => exact spared.taken

theorem scheduleMetaRead_cases (good : Good x s) (blk : Nat) :
    scheduleMetaRead x s blk = (s, -ebusy) ∨
      ∃ b s', scheduleMetaRead x s blk = (s', 0) ∧ Fetched x s s' b blk ∧ s.allocateBlock.isSome := by
  rcases allocateBlock_cases good with none | ⟨b, t, allocated, spared⟩
  · left
    simp only [scheduleMetaRead, Driver.installBlock, none, Option.map_none]
  · obtain ⟨i, small, empty⟩ := spared.room
    cases place : (List.range vhdIndexCacheSize).find? fun i => t.cache i = none with
    | none =>
        have full := List.find?_eq_none.mp place i (List.mem_range.mpr small)
        simp [empty] at full
    | some j =>
        have inside := List.mem_range.mp (List.mem_of_find?_eq_some place)
        have empty : t.cache j = none := by simpa using List.find?_some place
        refine .inr ⟨b, t.fetch x b j blk, ?_, spared.fetched inside empty, by rw [allocated]; rfl⟩
        have cache : (((t.initializeBlock b).touchBlock b).setBlock b
            { ((t.initializeBlock b).touchBlock b).blocks b with blk }).cache = t.cache := rfl
        simp only [scheduleMetaRead, Driver.installBlock, allocated, Option.map_some, cache, place]
        rfl

theorem Fetched.queue (fetched : Fetched x s s' b blk) (good : Good x s) (idle : s.replaying = none) (c : Nat) :
    (s'.blocks c).queue = (s.blocks c).queue := by
  by_cases here : c = b
  · obtain ⟨seqno, same⟩ := fetched.here
    rw [here, same, good.tables.answered b fetched.settled (by rw [idle]; exact nofun)]
    rfl
  · obtain ⟨seqno, same⟩ := fetched.others c here
    rw [same]

theorem Fetched.slots (fetched : Fetched x s s' b blk) (good : Good x s) (missed : s.getBlock blk = none) :
    Slots s'.cache s'.cacheFree fun c => (s'.blocks c).blk := by
  obtain ⟨seqno, here⟩ := fetched.here
  have named : (s'.blocks b).blk = blk := by rw [here]
  have others {c : Nat} (other : c ≠ b) : (s'.blocks c).blk = (s.blocks c).blk := by
    obtain ⟨seqno, same⟩ := fetched.others c other
    rw [same]
  -- no table that was in the cache is of this block
  have fresh {i c : Nat} (small : i < vhdIndexCacheSize) (other : c ≠ b) (there : s'.cache i = some c) :
      (s'.blocks c).blk ≠ blk := by
    rw [others other]
    exact getBlock_none missed ⟨i, small, (fetched.old i c there).resolve_left other⟩
  constructor
  case distinct =>
    intro i smallI j smallJ c d atI atJ same
    by_cases first : c = b <;> by_cases second : d = b
    · rw [first] at atI
      rw [second] at atJ
      exact fetched.once i smallI j smallJ atI atJ
    · rw [first, named] at same
      exact absurd same.symm (fresh smallJ second atJ)
    · rw [second, named] at same
      exact absurd same (fresh smallI first atI)
    · rw [others first, others second] at same
      exact good.slots.distinct i smallI j smallJ c d ((fetched.old i c atI).resolve_left first)
        ((fetched.old j d atJ).resolve_left second) same
  case small =>
    intro i small c there
    rcases fetched.old i c there with rfl | before
    · exact fetched.small
    · exact good.slots.small i small c before
  case spare => exact fetched.free
  case apart =>
    intro c member i small there
    rcases fetched.old i c there with rfl | before
    · exact fetched.taken member
    · exact good.slots.apart c (fetched.sub c member) i small before

theorem Fetched.tables (fetched : Fetched x s s' b blk) (good : Good x s) (idle : s.replaying = none) :
    Tables x s'.cache s'.cacheFree s'.blocks (⟨b, blk, blk * x.spb % 2 ^ 32⟩ :: s.metas) none := by
  have tables := good.tables
  obtain ⟨seqno, here⟩ := fetched.here
  have reading {m : MetaRead} (member : m ∈ s.metas) : m.block ≠ b := by
    intro same
    have pending := (tables.kept m member).2.2.1
    rw [same, fetched.settled] at pending
    cases pending
  constructor
  case once =>
    refine List.nodup_cons.mpr ⟨fun member => ?_, tables.once⟩
    obtain ⟨m, before, same⟩ := List.mem_map.mp member
    exact reading before same
  case kept =>
    intro m member
    rcases List.mem_cons.mp member with rfl | before
    · exact ⟨fetched.cached, by rw [here], by rw [here], by rw [here]; rfl⟩
    · obtain ⟨⟨i, small, there⟩, named, state⟩ := tables.kept m before
      obtain ⟨seqno, same⟩ := fetched.others m.block (reading before)
      rw [same]
      exact ⟨⟨i, small, (fetched.kept i m.block there).resolve_left (reading before)⟩, named, state⟩
  case sec =>
    intro m member
    rcases List.mem_cons.mp member with rfl | before
    · rfl
    · exact tables.sec m before
  case reads =>
    intro c pending
    by_cases same : c = b
    · exact ⟨_, List.mem_cons_self, same.symm⟩
    · obtain ⟨seqno, stays⟩ := fetched.others c same
      rw [stays] at pending
      obtain ⟨m, member, of⟩ := tables.reads c pending
      exact ⟨m, List.mem_cons_of_mem _ member, of⟩
  case answered =>
    intro c settled _
    rw [fetched.queue good idle]
    by_cases same : c = b
    · rw [same, here] at settled
      cases settled
    · obtain ⟨seqno, stays⟩ := fetched.others c same
      rw [stays] at settled
      exact tables.answered c settled (by rw [idle]; exact nofun)
  case within =>
    intro c w member
    by_cases same : c = b
    · rw [same, here] at member
      cases member
    · obtain ⟨seqno, stays⟩ := fetched.others c same
      rw [stays] at member ⊢
      exact tables.within c w member
  case read =>
    intro c valid
    by_cases same : c = b
    · rw [same, here] at valid
      cases valid
    · obtain ⟨seqno, stays⟩ := fetched.others c same
      rw [stays] at valid ⊢
      exact tables.read c valid
  case blank =>
    intro c invalid
    by_cases same : c = b
    · rw [same, here]
    · obtain ⟨seqno, stays⟩ := fetched.others c same
      rw [stays] at invalid ⊢
      exact tables.blank c invalid
  case spare =>
    intro c member
    have apart : c ≠ b := fun same => fetched.taken (same ▸ member)
    obtain ⟨seqno, stays⟩ := fetched.others c apart
    rw [stays]
    exact tables.spare c (fetched.sub c member)
  case replay => exact fun _ none => nomatch none

theorem Fetched.waiting (fetched : Fetched x s s' b blk) (good : Good x s) (idle : s.replaying = none) :
    s'.waiting = s.waiting := congrArg (queued · _) (funext (fetched.queue good idle))

theorem Good.fetch (good : Good x s) (fetched : Fetched x s s' b blk) (missed : s.getBlock blk = none)
    (idle : s.replaying = none) : Good x s' := by
  have waiting := fetched.waiting good idle
  have replaying : s'.replaying = none := by
    rw [fetched.rest]
    exact idle
  constructor
  case alive =>
    rw [fetched.rest]
    exact good.alive
  case pool =>
    rw [waiting, fetched.rest]
    exact good.pool
  case files =>
    rw [fetched.rest]
    exact good.files
  case slots => exact fetched.slots good missed
  case tables =>
    have metas : s'.metas = ⟨b, blk, blk * x.spb % 2 ^ 32⟩ :: s.metas := by rw [fetched.rest]
    rw [replaying, metas]
    exact fetched.tables good idle
  case inside =>
    intro c t none
    rw [replaying] at none
    cases none

end BlockCache
end Blktap.Vindex
