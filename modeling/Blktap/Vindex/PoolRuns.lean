import Blktap.Vindex.Pools

/-! # Runs of the driver of a VHD index -/

namespace Blktap.Vindex
open Lib

def Index.mapped (x : Index) (sec : Nat) : Option Entry :=
  if x.bat (x.blkOf sec) = ddBlkUnused then none
  else some (x.entry (x.blkOf sec) (sec % x.spb)) |>.filter (·.used)

inductive Turned (x : Index) (s : Driver) (t : Treq) : Driver → Prop
  | fails (err : Int) : err ≠ 0 → Turned x s t (s.failRead t err)
  | forwards (n : Nat) : n ≤ t.secs → (∀ i < n, x.mapped (t.sec + i) = none) →
      Turned x s t ((s.forward (t.take n)).setCall (t.advance n))
  | reads (n req file : Nat) (rest : List Nat) (fds : Nat → FileRef) (entry : Entry) : n ≤ t.secs →
      readCacheSpan x s t true = some n → x.mapped t.sec = some entry → s.free = req :: rest → Takes s.fds fds file entry.fileId →
      Turned x s t ((s.launch rest fds ⟨req, t.take n, file, entry.fileId, entry.offset⟩).setCall (t.advance n))
  | waits (req b : Nat) (rest : List Nat) : s.free = req :: rest → s.getBlock (x.blkOf t.sec) = some b →
      (s.blocks b).pending → Turned x s t ((s.wait b req rest (t.take (x.inBlock t))).setCall (t.advance (x.inBlock t)))
  | fetches (s' : Driver) (req b : Nat) (rest : List Nat) : s.free = req :: rest →
      s.getBlock (x.blkOf t.sec) = none → Fetched x s s' b (x.blkOf t.sec) →
      Turned x s t ((s'.wait b req rest (t.take (x.inBlock t))).setCall (t.advance (x.inBlock t)))
  | loses (s' : Driver) (b : Nat) : s.free = [] → s.allocateBlock.isSome → readCache x s t.sec = .cacheMiss →
      s.getBlock (x.blkOf t.sec) = none → Fetched x s s' b (x.blkOf t.sec) → Turned x s t (s'.setCall (t.advance (x.inBlock t)))

def TurnMeets (x : Index) (s : Driver) (t : Treq) (opens : Bool) : Prop :=
  readCache x s t.sec = .bitSet → ∃ n ∈ readCacheSpan x s t true, readable x s (t.take n) ∧
    (s.free = [] ∨ (s.findFile (firstEntry x s t).fileId).isSome ∨ opens ∧ s.lruFile.isSome)

instance (x : Index) (s : Driver) (t : Treq) (opens : Bool) : Decidable (TurnMeets x s t opens) :=
  inferInstanceAs (Decidable (_ → _))

/-- No data read ends. A read of a table ends only of a block whose first sector is a 32 bit number, and it fails only
when no request waits. -/
def Meets (x : Index) (s : Driver) : Step → Prop
  | .read _ _ => True
  | .turn opens => ∀ t ∈ s.call, t.secs ≠ 0 → TurnMeets x s t opens
  | .metaDone i ok => ∀ m ∈ s.metas[i]?, m.blk * x.spb < 2 ^ 32 ∧ (ok ∨ (s.blocks m.block).queue = [])
  | .dataDone _ _ => False

instance (x : Index) (s : Driver) (e : Step) : Decidable (Meets x s e) :=
  match e with
  | .read _ _ => inferInstanceAs (Decidable True)
  | .turn opens => inferInstanceAs (Decidable (∀ t ∈ s.call, t.secs ≠ 0 → TurnMeets x s t opens))
  | .metaDone i ok =>
      inferInstanceAs (Decidable (∀ m ∈ s.metas[i]?, m.blk * x.spb < 2 ^ 32 ∧ (ok ∨ (s.blocks m.block).queue = [])))
  | .dataDone _ _ => inferInstanceAs (Decidable False)

section Turns
variable {x : Index} {s s' : Driver} {t : Treq} {b n : Nat} {opens : Bool}

theorem takeWhile_range {p : Nat → Bool} {m i : Nat} (before : i < ((List.range m).takeWhile p).length) : p i := by
  have same : ((List.range m).takeWhile p)[i] = i := by
    rw [List.IsPrefix.getElem (List.takeWhile_prefix p) before, List.getElem_range]
  have holds := List.all_eq_true.mp List.all_takeWhile _ (List.getElem_mem before)
  rwa [same] at holds

theorem takeWhile_range_pos {p : Nat → Bool} {m : Nat} (more : 0 < m) (first : p 0) :
    0 < ((List.range m).takeWhile p).length := by
  cases m with
  | zero => cases more
  | succ m => simp [List.range_succ_eq_map, first]

theorem readCacheSpan_some {value : Bool} (span : readCacheSpan x s t value = some n) :
    ∃ b, s.getBlock (x.blkOf t.sec) = some b ∧ s.blockValid b ∧ n ≤ x.inBlock t ∧
      (∀ i < n, ((s.blocks b).table (t.sec % x.spb + i)).used = value) ∧
      (0 < x.inBlock t → ((s.blocks b).table (t.sec % x.spb)).used = value → 0 < n) := by
  simp only [readCacheSpan] at span
  split at span
  · cases span
  · cases found : s.getBlock (x.blkOf t.sec) with
    | none =>
        rw [found] at span
        cases span
    | some b =>
        simp only [found] at span
        split at span
        case isTrue valid =>
          cases span
          refine ⟨b, rfl, valid, ?_, ?_, ?_⟩
          · simpa using (List.takeWhile_prefix (l := List.range (x.inBlock t)) _).length_le
          · intro i before
            simpa using takeWhile_range before
          · intro more first
            apply takeWhile_range_pos more
            simpa using first
        case isFalse => cases span

theorem sector_inBlock {i : Nat} (inside : i < x.inBlock t) :
    x.blkOf (t.sec + i) = x.blkOf t.sec ∧ (t.sec + i) % x.spb = t.sec % x.spb + i := by
  have room : t.sec % x.spb + i < x.spb := by
    have bound := Nat.lt_of_lt_of_le inside (Nat.min_le_right _ _)
    omega
  have spread : t.sec + i = t.sec % x.spb + i + x.spb * (t.sec / x.spb) := by
    have whole := Nat.mod_add_div t.sec x.spb
    omega
  constructor
  · rw [Index.blkOf, spread, Nat.add_mul_div_left _ _ x.spb_pos, Nat.div_eq_of_lt room, Nat.zero_add]
    rfl
  · rw [spread, Nat.add_mul_mod_self_left, Nat.mod_eq_of_lt room]

theorem inBlock_pos (x : Index) (more : t.secs ≠ 0) : 0 < x.inBlock t := by
  have small := Nat.mod_lt t.sec x.spb_pos
  simp only [Index.inBlock]
  omega

def Shows (x : Index) (s : Driver) (sec : Nat) : Found → Prop
  | .invalid => x.vhdBlocks ≤ x.blkOf sec
  | .batClear => x.bat (x.blkOf sec) = ddBlkUnused
  | .cacheMiss => s.getBlock (x.blkOf sec) = none
  | .metaReadPending => ∃ b, s.getBlock (x.blkOf sec) = some b ∧ (s.blocks b).pending
  | .bitClear => x.blkOf sec < x.vhdBlocks ∧ ∃ b, s.getBlock (x.blkOf sec) = some b ∧
      (s.blocks b).pending = false ∧ ((s.blocks b).table (sec % x.spb)).used = false
  | .bitSet => x.bat (x.blkOf sec) ≠ ddBlkUnused ∧ ∃ b, s.getBlock (x.blkOf sec) = some b ∧
      (s.blocks b).pending = false ∧ ((s.blocks b).table (sec % x.spb)).used

theorem readCache_shows (x : Index) (s : Driver) (sec : Nat) : Shows x s sec (readCache x s sec) := by
  simp only [readCache]
  split
  · assumption
  · split
    · assumption
    · cases found : s.getBlock (x.blkOf sec) with
      | none => exact found
      | some b =>
          dsimp only
          split
          · exact ⟨b, found, ‹_›⟩
          · split
            · exact ⟨‹_›, b, found, Bool.eq_false_of_not_eq_true ‹¬ (s.blocks b).pending›, ‹_›⟩
            · exact ⟨Nat.lt_of_not_le ‹_›, b, found, Bool.eq_false_of_not_eq_true ‹¬ (s.blocks b).pending›,
                Bool.eq_false_of_not_eq_true ‹_›⟩

theorem readCache_touchRead (x : Index) (s : Driver) (sec sec' : Nat) :
    Shows x (touchRead x s sec') sec = Shows x s sec := by
  funext found
  rcases touchRead_cases x s sec' with same | ⟨b, touched⟩
  · rw [same]
  · rw [touched]
    cases found <;> rfl

theorem blockValid_eq (settled : (s.blocks b).pending = false) : s.blockValid b = (s.blocks b).valid := by
  simp only [Driver.blockValid, settled, Bool.not_false, Bool.true_and]

theorem readable_first (ready : readable x s t) (more : 0 < t.secs) : (firstEntry x s t).fileId ≠ 0 := by
  simp only [readable] at ready
  split at ready
  · cases ready
  · next b found =>
      have all := List.all_eq_true.mp (Bool.and_eq_true_iff.mp ready).2 0 (List.mem_range.mpr more)
      simp only [firstEntry, found, Option.map_some, Option.getD_some]
      simp at all
      exact all.1

theorem Good.mapped (good : Good x s) (found : s.getBlock (x.blkOf t.sec) = some b) (valid : (s.blocks b).valid)
    (allocated : x.bat (x.blkOf t.sec) ≠ ddBlkUnused) (used : ((s.blocks b).table (t.sec % x.spb)).used) :
    x.mapped t.sec = some ((s.blocks b).table (t.sec % x.spb)) := by
  rw [good.tables.read b valid, (getBlock_some found).2] at used ⊢
  simp only [Index.mapped, allocated, if_false, Option.filter_some, used, if_true]

theorem readCacheSpan_valid (inside : x.blkOf t.sec < x.vhdBlocks) (found : s.getBlock (x.blkOf t.sec) = some b)
    (valid : s.blockValid b) (value : Bool) : ∃ n, readCacheSpan x s t value = some n := by
  simp only [readCacheSpan, Nat.not_le.mpr inside, if_false, found, valid, if_true]
  exact ⟨_, rfl⟩

theorem goOn_done (alive : s.fault = none) (t : Treq) (n : Nat) : goOn t n (s, 0) = s.setCall (t.advance n) := by
  simp only [goOn, alive, Option.isSome_none, Bool.false_eq_true, if_false, if_true]

theorem goOn_fails (alive : s.fault = none) (t : Treq) (n : Nat) {err : Int} (failed : err ≠ 0) :
    goOn t n (s, err) = s.failRead t err := by
  simp only [goOn, alive, Option.isSome_none, Bool.false_eq_true, if_false, failed]

theorem Good.idle (good : Good x s) (call : s.call = some t) (more : t.secs ≠ 0)
    (missed : s.getBlock (x.blkOf t.sec) = none) : s.replaying = none := by
  cases replaying : s.replaying with
  | none => rfl
  | some b =>
      obtain ⟨cached, _, _⟩ := good.tables.replay b replaying
      have here := (good.inside b t replaying call).resolve_left more
      exact absurd here.1.symm (getBlock_none missed cached)

theorem Good.clears (good : Good x s) (shows : Shows x s t.sec .bitClear) :
    ∃ n, readCacheSpan x s t false = some n ∧ n ≤ t.secs ∧ ∀ i < n, x.mapped (t.sec + i) = none := by
  obtain ⟨inside, b, found, settled, clear⟩ := shows
  -- the table of a block that has not been read looks used
  have valid : (s.blocks b).valid := by
    by_contra invalid
    rw [good.tables.blank b (Bool.eq_false_of_not_eq_true invalid)] at clear
    cases clear
  obtain ⟨n, span⟩ := readCacheSpan_valid inside found (blockValid_eq settled ▸ valid) false
  refine ⟨n, span, ?_⟩
  obtain ⟨c, same, _, bound, unused, _⟩ := readCacheSpan_some span
  cases found.symm.trans same
  refine ⟨Nat.le_trans bound (inBlock_le x t), fun i before => ?_⟩
  have place := sector_inBlock (x := x) (t := t) (Nat.lt_of_lt_of_le before bound)
  have entry := unused i before
  rw [good.tables.read b valid, (getBlock_some found).2] at entry
  simp only [Index.mapped, place.1, place.2, Option.filter_some, entry, Bool.false_eq_true, if_false, ite_self]

theorem Good.queued (good : Good x s) (shows : Shows x s t.sec .metaReadPending) :
    Turned x s t (goOn t (x.inBlock t) (queueRequest x s (t.take (x.inBlock t)))) := by
  obtain ⟨b, found, pending⟩ := shows
  rcases queueRequest_cases (t := t.take (x.inBlock t)) good found pending with ⟨_, full⟩ | ⟨req, rest, free, waits⟩
  · rw [full, goOn_fails good.alive t _ (by decide)]
    exact .fails _ (by decide)
  · rw [waits, goOn_done (s := s.wait b req rest _) good.alive]
    exact .waits req b rest free found pending

theorem Good.missed (good : Good x s) (call : s.call = some t) (more : t.secs ≠ 0)
    (miss : readCache x s t.sec = .cacheMiss) (missed : s.getBlock (x.blkOf t.sec) = none) :
    Turned x s t (match scheduleMetaRead x s (x.blkOf t.sec) with
      | (scheduled, err) =>
          if scheduled.fault.isSome then scheduled
          else if err ≠ 0 then scheduled.failRead t err
          else goOn t (x.inBlock t) ((queueRequest x scheduled (t.take (x.inBlock t))).1, 0)) := by
  rcases scheduleMetaRead_cases good (x.blkOf t.sec) with full | ⟨b, s', scheduled, fetched, room⟩
  · rw [full]
    simp only [good.alive, Option.isSome_none, Bool.false_eq_true, if_false]
    exact .fails _ (by decide)
  · have fetching := good.fetch fetched missed (good.idle call more missed)
    obtain ⟨seqno, here⟩ := fetched.here
    have named : (s'.blocks b).blk = x.blkOf t.sec := by rw [here]
    have found : s'.getBlock (x.blkOf t.sec) = some b := named ▸ getBlock_cached fetching fetched.cached
    have pending : (s'.blocks b).pending := by rw [here]
    have same : s'.free = s.free := by rw [fetched.rest]
    simp only [scheduled, fetching.alive, Option.isSome_none, Bool.false_eq_true, if_false, ne_eq, not_true_eq_false]
    rcases queueRequest_cases (t := t.take (x.inBlock t)) fetching found pending with
      ⟨none, full⟩ | ⟨req, rest, free, waits⟩
    · rw [full, goOn_done fetching.alive]
      exact .loses s' b (same ▸ none) room miss missed fetched
    · rw [waits, goOn_done (s := s'.wait b req rest _) fetching.alive]
      exact .fetches s' req b rest (same ▸ free) missed fetched

theorem Good.readsData (good : Good x s) (more : t.secs ≠ 0) (shows : Shows x s t.sec .bitSet)
    (span : readCacheSpan x s t true = some n) (ready : readable x s (t.take n))
    (available : s.free = [] ∨ (s.findFile (firstEntry x s t).fileId).isSome ∨ opens ∧ s.lruFile.isSome) :
    Turned x s t (goOn t n (scheduleDataRead x s (t.take n) opens)) := by
  obtain ⟨allocated, b, found, settled, used⟩ := shows
  obtain ⟨c, same, valid, bound, _, positive⟩ := readCacheSpan_some span
  cases found.symm.trans same
  have file := readable_first ready (positive (inBlock_pos x more) used)
  rcases scheduleDataRead_cases good ready file available with ⟨_, full⟩ | ⟨req, rest, i, fds, free, takes, launched⟩
  · rw [full, goOn_fails good.alive t n (by decide)]
    exact .fails _ (by decide)
  · have entry : firstEntry x s (t.take n) = (s.blocks b).table (t.sec % x.spb) := by
      simp only [firstEntry, Treq.take, found, Option.map_some, Option.getD_some]
    have mapped := good.mapped found (blockValid_eq settled ▸ valid) allocated used
    rw [launched, goOn_done (s := s.launch rest fds _) good.alive, takes.fid, entry]
    rw [entry] at takes
    exact .reads n req i rest fds _ (Nat.le_trans bound (inBlock_le x t)) span mapped free takes

theorem turnRead_turned (good : Good x s) (call : s.call = some t) (more : t.secs ≠ 0) (meets : TurnMeets x s t opens) :
    Turned x (touchRead x s t.sec) t (turnRead x s t opens) := by
  have shows := readCache_shows x s t.sec
  rw [← readCache_touchRead x s t.sec t.sec] at shows
  have touched := good.touchRead t.sec
  have called : (touchRead x s t.sec).call = some t :=
    (touchRead_same Driver.call (fun _ => rfl) x t.sec).trans call
  simp only [turnRead]
  cases found : readCache x s t.sec with
  | invalid => exact .fails _ (by decide)
  | batClear =>
      rw [found] at shows
      apply Turned.forwards _ (inBlock_le x t)
      intro i inside
      simp only [Index.mapped, (sector_inBlock inside).1, show x.bat (x.blkOf t.sec) = ddBlkUnused from shows, if_true]
  | bitClear =>
      rw [found] at shows
      obtain ⟨n, span, bound, unused⟩ := touched.clears shows
      simp only [span]
      exact .forwards n bound unused
  | bitSet =>
      rw [found] at shows
      obtain ⟨n, span, ready, available⟩ := meets found
      rw [← touchRead_same (readable x · (t.take n)) (fun _ => rfl) x t.sec] at ready
      rw [← touchRead_same (fun s => s.free = [] ∨ (s.findFile (firstEntry x s t).fileId).isSome ∨
        opens ∧ s.lruFile.isSome) (fun _ => rfl) x t.sec] at available
      have span := (touchRead_same (readCacheSpan x · t true) (fun _ => rfl) x t.sec).trans span
      simp only [span]
      exact touched.readsData more shows span ready available
  | cacheMiss =>
      rw [found] at shows
      exact touched.missed called more ((touchRead_same (readCache x · t.sec) (fun _ => rfl) x t.sec).trans found) shows
  | metaReadPending =>
      rw [found] at shows
      exact touched.queued shows

theorem Good.turned (good : Good x s) (call : s.call = some t) (more : t.secs ≠ 0) (turned : Turned x s t s') :
    Good x s' := by
  have onward (n : Nat) (b : Nat) (replaying : s.replaying = some b) : x.InBlock (s.blocks b).blk (t.advance n) :=
    (good.inside b t replaying call).advance n
  cases turned with
  | fails err => exact good.failRead t err
  | forwards n => exact (good.forward _).setCall (onward n)
  | reads n req file rest fds entry _ _ _ free takes =>
      exact (good.launch (f := ⟨req, t.take n, file, entry.fileId, entry.offset⟩) free takes).setCall (onward n)
  | waits req b rest free found pending =>
      obtain ⟨cached, named⟩ := getBlock_some found
      have waits := good.wait free cached pending (named ▸ Index.InBlock.take x t)
      apply waits.setCall
      intro c replaying
      rw [show ((s.wait b req rest _).blocks c).blk = (s.blocks c).blk from update_blk (by rfl) c]
      exact onward _ c replaying
  | fetches s' req b rest free missed fetched =>
      have idle := good.idle call more missed
      have fetching := good.fetch fetched missed idle
      obtain ⟨seqno, here⟩ := fetched.here
      have named : (s'.blocks b).blk = x.blkOf t.sec := by rw [here]
      have waits := fetching.wait (by rw [fetched.rest]; exact free) fetched.cached (by rw [here])
        (named ▸ Index.InBlock.take x t)
      apply waits.setCall
      intro c replaying
      rw [show (s'.wait b req rest _).replaying = s'.replaying from rfl, fetched.rest] at replaying
      exact nomatch idle.symm.trans replaying
  | loses s' b _ _ _ missed fetched =>
      have idle := good.idle call more missed
      apply (good.fetch fetched missed idle).setCall
      intro c replaying
      rw [fetched.rest] at replaying
      exact nomatch idle.symm.trans replaying

theorem pop_waiting {w : Waiting} {rest : List Waiting} (small : b < vhdIndexCacheSize)
    (queue : (s.blocks b).queue = w :: rest) :
    s.waiting.Perm (w :: (s.setBlock b { s.blocks b with queue := rest }).waiting) := by
  apply queued_pop small
  · intro i other
    simp only [Driver.setBlock, Function.update_of_ne other]
  · simp only [Driver.setBlock, Function.update_self, queue]

theorem Good.turnReplay (good : Good x s) (idle : s.call = none) (replaying : s.replaying = some b) :
    Good x (turnReplay s b) := by
  obtain ⟨cached, valid, settled⟩ := good.tables.replay b replaying
  simp only [Vindex.turnReplay]
  cases queue : (s.blocks b).queue with
  | nil =>
      have tables := good.tables
      refine ⟨good.alive, good.pool, good.files, good.slots, ?_, nofun⟩
      refine ⟨tables.once, tables.kept, tables.sec, tables.reads, ?_, tables.within, tables.read, tables.blank,
        tables.spare, nofun⟩
      intro c settled _
      by_cases here : c = b
      · rw [here]
        exact queue
      · exact tables.answered c settled fun same => here (Option.some.inj (replaying.symm.trans same)).symm
  | cons w rest =>
      have within := good.tables.within b
      rw [queue] at within
      dsimp only
      constructor
      case alive => exact good.alive
      case files => exact good.files
      case slots => exact good.slots.congr (update_blk rfl)
      case tables =>
        apply good.tables.setQueue
        · exact fun w member => within w (List.mem_cons_of_mem _ member)
        · exact fun _ other => absurd replaying other
      case inside =>
        intro c t same called
        cases called
        cases replaying.symm.trans same
        rw [show ((s.setBlock b { s.blocks b with queue := rest }).blocks b).blk = (s.blocks b).blk from
          update_blk (by rfl) b]
        exact within w List.mem_cons_self
      case pool =>
        have waiting := pop_waiting (Driver.Cached.small good cached) queue
        have once := good.pool.once
        constructor
        · refine List.Perm.trans (List.Perm.append_right _ ?_) once
          exact List.perm_middle.symm.trans ((waiting.map Waiting.req).append_left s.free).symm
        · intro req member
          by_cases same : req = w.req
          · rw [same]
            exact Function.update_self ..
          · have old := (List.mem_cons.mp member).resolve_left same
            exact (Function.update_of_ne same _ _).trans (good.pool.unset req old)

theorem Good.queueRead (good : Good x s) (idle : s.replaying = none) (sec secs : Nat) :
    Good x (queueRead s sec secs) :=
  ⟨good.alive, good.pool, good.files, good.slots, good.tables, fun _ _ replaying => nomatch idle.symm.trans replaying⟩

end Turns

section Completions
variable {x : Index} {s s' : Driver} {m : MetaRead} {rest : List MetaRead} {b i : Nat}

theorem Tables.settle {cache : Nat → Option Nat} {cacheFree : List Nat} {blocks : Nat → Block} {metas : List MetaRead}
    (tables : Tables x cache cacheFree blocks metas none) (perm : metas.Perm (m :: rest)) {table : Nat → Entry}
    {valid : Bool} {replaying : Option Nat} (read : valid → table = x.entry m.blk)
    (blank : valid = false → table = Block.zero.table) (only : ∀ b, replaying = some b → b = m.block ∧ valid)
    (answered : replaying ≠ some m.block → (blocks m.block).queue = []) :
    Tables x cache cacheFree
      (Function.update blocks m.block { blocks m.block with table := table, valid := valid, pending := false })
      rest replaying := by
  have here : Function.update blocks m.block { blocks m.block with table := table, valid := valid, pending := false }
      m.block = { blocks m.block with table := table, valid := valid, pending := false } := Function.update_self ..
  have others {c : Nat} (other : c ≠ m.block) : Function.update blocks m.block
      { blocks m.block with table := table, valid := valid, pending := false } c = blocks c :=
    Function.update_of_ne other _ _
  have nodup := (perm.map MetaRead.block).nodup_iff.mp tables.once
  obtain ⟨fresh, once⟩ := List.nodup_cons.mp nodup
  have old {m' : MetaRead} (member : m' ∈ rest) : m' ∈ metas ∧ m'.block ≠ m.block := by
    refine ⟨perm.mem_iff.mpr (List.mem_cons_of_mem _ member), fun same => fresh ?_⟩
    exact List.mem_map.mpr ⟨m', member, same⟩
  obtain ⟨cached, named, pending, _⟩ := tables.kept m (perm.mem_iff.mpr List.mem_cons_self)
  constructor
  case once => exact once
  case kept =>
    intro m' member
    rw [others (old member).2]
    exact tables.kept m' (old member).1
  case sec => exact fun m' member => tables.sec m' (old member).1
  case reads =>
    intro c pending
    by_cases same : c = m.block
    · rw [same, here] at pending
      cases pending
    · rw [others same] at pending
      obtain ⟨m', member, of⟩ := tables.reads c pending
      rcases List.mem_cons.mp (perm.mem_iff.mp member) with rfl | stays
      · exact absurd of.symm same
      · exact ⟨m', stays, of⟩
  case answered =>
    intro c settled other
    by_cases same : c = m.block
    · rw [same] at other
      rw [same, here]
      exact answered other
    · rw [others same] at settled ⊢
      exact tables.answered c settled nofun
  case within =>
    intro c
    by_cases same : c = m.block
    · rw [same, here]
      exact tables.within m.block
    · rw [others same]
      exact tables.within c
  case read =>
    intro c
    by_cases same : c = m.block
    · rw [same, here]
      exact fun valid => named ▸ read valid
    · rw [others same]
      exact tables.read c
  case blank =>
    intro c
    by_cases same : c = m.block
    · rw [same, here]
      exact blank
    · rw [others same]
      exact tables.blank c
  case spare =>
    intro c member
    by_cases same : c = m.block
    · rw [same, here]
    · rw [others same]
      exact tables.spare c member
  case replay =>
    intro c replaying
    obtain ⟨rfl, valid⟩ := only c replaying
    rw [here]
    exact ⟨cached, valid, rfl⟩

def Driver.settle (s : Driver) (m : MetaRead) (rest : List MetaRead) (table : Nat → Entry) (valid : Bool)
    (replaying : Option Nat) : Driver :=
  { s.setBlock m.block { s.blocks m.block with table := table, valid := valid, pending := false } with
    metas := rest, replaying := replaying }

theorem settle_waiting {table : Nat → Entry} {valid : Bool} {replaying : Option Nat} :
    (s.settle m rest table valid replaying).waiting = s.waiting := by
  apply congrArg (queued · vhdIndexCacheSize)
  funext c
  by_cases here : c = m.block
  · simp [Driver.settle, Driver.setBlock, here]
  · simp [Driver.settle, Driver.setBlock, here]

theorem Good.settle (good : Good x s) (idle : s.call = none ∧ s.replaying = none) (perm : s.metas.Perm (m :: rest))
    {table : Nat → Entry} {valid : Bool} {replaying : Option Nat} (read : valid → table = x.entry m.blk)
    (blank : valid = false → table = Block.zero.table) (only : ∀ b, replaying = some b → b = m.block ∧ valid)
    (answered : replaying ≠ some m.block → (s.blocks m.block).queue = []) :
    Good x (s.settle m rest table valid replaying) where
  alive := good.alive
  files := good.files
  slots := good.slots.congr (update_blk rfl)
  tables := by
    have tables := good.tables
    rw [idle.2] at tables
    exact tables.settle perm read blank only answered
  inside := fun _ _ _ called => nomatch idle.1.symm.trans called
  pool := by
    rw [settle_waiting]
    exact good.pool

theorem completeMetaRead_cases (good : Good x s) {ok : Bool} (idle : s.replaying = none)
    (meets : Meets x s (.metaDone i ok)) (action : completeMetaRead x s i ok = some s') :
    ∃ m rest, s.metas.Perm (m :: rest) ∧
      (s' = s.settle m rest (x.entry m.blk) true (some m.block) ∨
        (s.blocks m.block).queue = [] ∧ s' = s.settle m rest Block.zero.table false none) := by
  obtain ⟨m, found, action⟩ := Option.map_eq_some_iff.mp action
  obtain ⟨short, done⟩ := meets m found
  obtain ⟨inside, this⟩ := List.getElem?_eq_some_iff.mp found
  have perm : s.metas.Perm (m :: s.metas.eraseIdx i) := by
    have removed := (List.getElem_cons_eraseIdx_perm inside).symm
    rwa [this] at removed
  have member : m ∈ s.metas := List.mem_of_getElem? found
  obtain ⟨cached, named, pending, unread⟩ := good.tables.kept m member
  have blk : x.blkOf m.sec = m.blk := by
    rw [good.tables.sec m member, Nat.mod_eq_of_lt short, Index.blkOf, Nat.mul_div_cancel _ x.spb_pos]
    exact Nat.mod_eq_of_lt (Nat.lt_of_le_of_lt (Nat.le_mul_of_pos_right _ x.spb_pos) short)
  have there : ({ s with metas := s.metas.eraseIdx i } : Driver).getBlock (x.blkOf m.sec) = some m.block := by
    rw [blk, ← named]
    exact (getBlock_cached good cached : s.getBlock (s.blocks m.block).blk = some m.block)
  refine ⟨m, s.metas.eraseIdx i, perm, ?_⟩
  simp only [there, pending, if_true] at action
  split at action
  · left
    rw [← action]
    simp [Driver.settle, Driver.setBlock]
  · next failed =>
      have empty := done.resolve_left failed
      right
      refine ⟨empty, ?_⟩
      rw [← action]
      simp [Driver.settle, Driver.setBlock, empty, idle, unread, Block.zero]

theorem Good.turn (good : Good x s) {opens : Bool} (meets : Meets x s (.turn opens))
    (action : turn x s opens = some s') : Good x s' := by
  cases call : s.call with
  | some t =>
      simp only [Vindex.turn, call] at action
      cases action
      split
      · exact ⟨good.alive, good.pool, good.files, good.slots, good.tables, nofun⟩
      · next more =>
          have called := (touchRead_same Driver.call (fun _ => rfl) x t.sec).trans call
          exact (good.touchRead t.sec).turned called more (turnRead_turned good call more (meets t call more))
  | none =>
      cases replaying : s.replaying with
      | none =>
          simp only [Vindex.turn, call, replaying] at action
          cases action
      | some b =>
          simp only [Vindex.turn, call, replaying] at action
          cases action
          exact good.turnReplay call replaying

theorem Good.step {e : Step} (good : Good x s) (meets : Meets x s e) (action : step x s e = some s') : Good x s' := by
  have alive : s.fault.isSome = false := by
    rw [good.alive]
    rfl
  simp only [Vindex.step, alive, Bool.false_eq_true, if_false] at action
  cases e with
  | turn opens => exact good.turn meets action
  | read sec secs =>
      simp only at action
      split at action
      · next idle =>
          cases action
          exact good.queueRead idle.2 sec secs
      · cases action
  | metaDone i ok =>
      simp only at action
      split at action
      · next idle =>
          obtain ⟨m, rest, perm, rfl | ⟨empty, rfl⟩⟩ := completeMetaRead_cases good idle.2 meets action
          · exact good.settle idle perm (fun _ => rfl) nofun (fun b same => ⟨(Option.some.inj same).symm, rfl⟩)
              (fun other => absurd rfl other)
          · exact good.settle idle perm nofun (fun _ => rfl) nofun (fun _ => empty)
      · cases action
  | dataDone i err => exact meets.elim

theorem Good.init (x : Index) : Good x init where
  alive := rfl
  pool := by
    have empty : Vindex.init.waiting = [] := queued_nil fun _ _ => rfl
    constructor
    · rw [empty]
      simpa [Vindex.init] using List.reverse_perm _
    · exact fun _ _ => rfl
  files := ⟨fun _ => rfl, nofun, fun _ named => absurd rfl named⟩
  slots := ⟨nofun, nofun, .all, nofun⟩
  tables := by
    constructor
    case once => exact List.nodup_nil
    case kept => exact nofun
    case sec => exact nofun
    case reads => exact nofun
    case answered => exact fun _ _ _ => rfl
    case within => exact nofun
    case read => exact nofun
    case blank => exact fun _ _ => rfl
    case spare => exact fun _ _ => rfl
    case replay => exact nofun
  inside := nofun

structure Sound (x : Index) (s : Driver) : Prop where
  alive : s.fault = none
  once : (s.free ++ s.waiting.map (·.req) ++ s.flights.map (·.req)).Perm (List.range vhdIndexRequests)
  paired : ∀ i, (s.fds i).refcnt = s.flights.countP (·.file = i)
  held : ∀ f ∈ s.flights, (s.fds f.file).fid = f.fid ∧ (s.fds f.file).opened
  kept : ∀ m ∈ s.metas, s.Cached m.block ∧ (s.blocks m.block).blk = m.blk ∧ (s.blocks m.block).pending
  answered : ∀ b, (s.blocks b).queue ≠ [] → s.replaying = some b ∨ ∃ m ∈ s.metas, m.block = b
  trusted : ∀ b, s.blockValid b → (s.blocks b).table = x.entry (s.blocks b).blk

theorem Good.sound (good : Good x s) : Sound x s where
  alive := good.alive
  once := good.pool.once
  paired := good.files.paired
  held := good.files.held
  kept := fun m member =>
    ⟨(good.tables.kept m member).1, (good.tables.kept m member).2.1, (good.tables.kept m member).2.2.1⟩
  answered := by
    intro b some
    by_cases pending : (s.blocks b).pending
    · exact .inr (good.tables.reads b pending)
    · by_contra other
      exact some (good.tables.answered b (Bool.eq_false_of_not_eq_true pending) fun here => other (.inl here))
  trusted := fun b valid => good.tables.read b (Bool.and_eq_true_iff.mp valid).2

/-- As long as no step reaches a null pointer or an assertion, the pools are right in every state. -/
theorem pools_sound (x : Index) {s : Driver} (run : Run (step x) (Meets x) init s) : Sound x s :=
  (run.invariant (I := Good x) (fun _ _ _ good meets action => good.step meets action) (Good.init x)).sound

theorem oneFile_blocks : 1 < 2 ^ 32 := by decide

def oneFile : Index where
  spb := 4
  spb_pos := by decide
  vhdBlocks := 1
  vhdBlocks_lt := oneFile_blocks
  bat := fun _ => 0
  entry := fun _ i => ⟨1, i⟩

theorem pools_sound_read : ∃ s : Driver, s.flights.length = 1 ∧ Sound oneFile s := by
  obtain ⟨s, action, reads⟩ := Option.map_eq_some_iff.mp (by decide +kernel :
    (runEvents (guarded (step oneFile) (Meets oneFile)) init [.read 0 4, .turn true, .turn true, .metaDone 0 true,
      .turn true, .turn true, .turn true, .turn true]).map (fun s : Driver => s.flights.length) = some 1)
  exact ⟨s, reads, pools_sound oneFile (trace_of_guarded _ action).run⟩

theorem data_read_faults : ∃ s, Run (step oneFile) (fun _ _ => True) init s ∧ ¬ Sound oneFile s := by
  obtain ⟨s, action, fault⟩ := Option.map_eq_some_iff.mp (by decide +kernel :
    (runEvents (step oneFile) init [.read 0 4, .turn true, .turn true, .metaDone 0 true, .turn true, .turn true,
      .turn true, .turn true, .dataDone 0 0]).map (fun s : Driver => s.fault) = some (some .null))
  refine ⟨s, run_of_runEvents _ (fun _ _ => trivial) action, fun sound => ?_⟩
  rw [sound.alive] at fault
  cases fault

end Completions
end Blktap.Vindex
