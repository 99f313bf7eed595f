import Blktap.Libvhd.Fill

/-!
# Coalescing an image into its parent (`vhd-util-coalesce.c`)

The sectors that a child has are written to the parent on which it lies, block by block: a full block at once, and any
other one run by run. The child reads through the parent while that is going on.
-/

namespace Blktap.Libvhd.Coalesce
open Lib Action

/-- What the child is coalesced into: an image that is open for `vhd_io_write`, or a file for `__raw_io_write`. An
ancestor has other images above it. -/
structure Parent (σ : Type) where
  write : Nat → Nat → (Nat → UInt8) → Action σ Unit
  below : σ → Below
  above : List Vhd

def stack : List Vhd → Below → Below
  | [], below => below
  | vhd :: above, below => .layer ((stack above below).under vhd)

section Code
variable {σ : Type}

def Parent.beneath (parent : Parent σ) (s : σ) : Below := stack parent.above (parent.below s)

def runLength (marked : Nat → Bool) : Nat → Nat → Nat
  | 0, _ => 0
  | left + 1, i => if marked i then runLength marked left (i + 1) + 1 else 0

/-- The loop of `vhd_util_coalesce_block`: `skip` turns are left out by `i += secs`. -/
def coalesceRuns (parent : Parent σ) (marked : Nat → Bool) (sec : Nat) (buf : Nat → UInt8) :
    Nat → Nat → Nat → Action σ Unit
  | 0, _, _ => pure ()
  | left + 1, i, skip + 1 => coalesceRuns parent marked sec buf left (i + 1) skip
  | left + 1, i, 0 =>
      if !marked i then coalesceRuns parent marked sec buf left (i + 1) 0
      else do
        parent.write (sec + i) (runLength marked (left + 1) i) fun p => buf (i * 512 + p)
        coalesceRuns parent marked sec buf left (i + 1) (runLength marked (left + 1) i)

def blockFull (batmap : Option Batmap) (block : Nat) : Outcome Bool :=
  match batmap with
  | some batmap => batmap.test block
  | none => .ok false

def vhdUtilCoalesceBlock (parent : Parent σ) (child : Vhd) (bat : Bat) (batmap : Option Batmap) (block : Nat) :
    Action σ Unit :=
  if bat.bat block = ddBlkUnused then pure ()
  else do
    let s ← get
    let buf ← lift (vhdIoRead ((parent.beneath s).under child) (block * child.spb) child.spb)
    let full ← lift (blockFull batmap block)
    if full then parent.write (block * child.spb) child.spb buf
    else do
      let map ← lift (vhdReadBitmap child bat block)
      coalesceRuns parent (vhdBitmapTest child map) (block * child.spb) buf child.spb 0 0

def coalesceBlocks (parent : Parent σ) (child : Vhd) (bat : Bat) (batmap : Option Batmap) : Nat → Nat → Action σ Unit
  | 0, _ => pure ()
  | left + 1, block => do
      vhdUtilCoalesceBlock parent child bat batmap block
      coalesceBlocks parent child bat batmap left (block + 1)

def loadBatmap (child : Context) : Outcome (Option Batmap) :=
  if child.hasBatmap then do
    let batmap ← vhdReadBatmap child
    .ok (some batmap)
  else .ok none

def vhdUtilCoalesceOnto (parent : Parent σ) (child : Context) : Action σ Unit := do
  let bat ← lift (vhdReadBat child.toVhd)
  let batmap ← lift (loadBatmap child)
  coalesceBlocks parent child.toVhd bat batmap bat.entries 0

end Code

def imageParent (grand : Below) : Parent Handle where
  write := vhdIoWrite
  below := fun s => .layer (grand.under s.toVhd)
  above := []

structure RawFile where
  file : File
  isBlock : Bool
  faults : List (Option Fault)

def rawIoWrite (sec secs : Nat) (buf : Nat → UInt8) : Action RawFile Unit := fun s =>
  let room := if s.isBlock then min (secs * 512) (s.file.size - sec * 512) else secs * 512
  let left := fun n => { s with file := s.file.put (sec * 512) n buf, faults := s.faults.tail }
  match s.faults.head?.join with
  | some fault => (.error fault.code, left (min room (fault.secs * 512)))
  | none =>
      if room < secs * 512 then (.error (if room = 0 then -enospc else -eio), left room)
      else (.ok (), left (secs * 512))

def rawParent : Parent RawFile where
  write := rawIoWrite
  below := fun s => .raw s.file
  above := []

section Purpose
variable {σ : Type} (parent : Parent σ) (child : Context) (s t : σ)

def Parent.shows (sector o : Nat) : UInt8 := ((parent.beneath s).under child.toVhd).byte sector o

def Moves (child : Vhd) (sector : Nat) : Prop := child.holds sector ∧ sector / child.spb < child.batEntries

structure Spared : Prop where
  shows : ∀ sector o, o < 512 → parent.shows child t sector o = parent.shows child s sector o
  kept : ∀ sector o, o < 512 → ¬ Moves child.toVhd sector →
    (parent.below t).byte sector o = (parent.below s).byte sector o

/-- The parent shows all that the child does, but for sectors of blocks behind the part of the table that is loaded. -/
structure Coalesced : Prop extends Spared parent child s t where
  moved : ∀ sector o, o < 512 → (child.holds sector → sector / child.spb < child.batEntries) →
    (parent.below t).byte sector o = parent.shows child s sector o

structure Tidy : Prop where
  laid : child.Laid
  map : child.SoundBatmap
  type : child.type = .diff
  footer : ∀ block, child.allocated block → (child.entry block + child.bmSecs + child.spb) * 512 + 512 ≤ child.file.size
  covers : ∀ block < child.batEntries, child.allocated block → child.Covers block

def Slots (vhd : Vhd) (sec secs : Nat) : Prop := ∀ nr, sec ≤ nr → nr < sec + secs → vhd.slot nr < vhd.table.len

def InTables (sec secs : Nat) : Chain → Prop
  | .base vhd => vhd.typeDynamic = true → Slots vhd sec secs
  | .differRaw vhd _ => Slots vhd sec secs
  | .differ vhd parent => Slots vhd sec secs ∧ InTables sec secs parent

def BelowReads (sec secs : Nat) : Below → Prop
  | .nothing => True
  | .raw file => file.rawOk sec secs
  | .layer parent => parent.ReadOk sec secs fun _ => True

structure Readable (below : Below) : Prop where
  map : child.hasBatmap = true → child.MapReadable
  inDisk : ∀ block < child.batEntries, child.allocated block → (block + 1) * child.spb * 512 ≤ child.currSize
  reads : ∀ block < child.batEntries, child.allocated block → BelowReads (block * child.spb) child.spb below

end Purpose

section Reads
variable {below : Below} {vhd : Vhd} {chain : Chain} {dest after : Dest} {sec secs block i fuel mapOff : Nat}

theorem readLink_defined (valid : vhd.Valid) (dynamic : vhd.typeDynamic = true) (slots : Slots vhd sec secs)
    (some : 0 < secs) (enough : secs < fuel) : readLink vhd vhd.table fuel sec secs mapOff dest ≠ .undefined := by
  induction fuel generalizing sec secs mapOff dest with
  | zero => omega
  | succ fuel ih =>
      have positive := valid.spb_pos
      have offset := Nat.mod_lt sec positive
      have inside := slots sec (Nat.le_refl _) (by omega)
      have next : ∀ cnt dest, 0 < cnt → (if secs - cnt = 0 then .ok dest
          else readLink vhd vhd.table fuel (sec + cnt) (secs - cnt) (mapOff + cnt) dest) ≠ Outcome.undefined := by
        intro cnt dest more
        split
        · simp
        · exact ih (fun nr low high => slots nr (by omega) (by omega)) (by omega) (by omega)
      unfold readLink
      by_cases unused : vhd.lookup sec = ddBlkUnused
      · rw [readLinkTurn_unused secs mapOff dest valid inside unused, Outcome.ok_bind]
        exact next _ _ (by omega)
      by_cases loaded : vhd.slot sec < vhd.batEntries
      · rw [readLinkTurn_extent secs mapOff dest valid dynamic loaded unused, Outcome.ok_bind]
        exact next _ _ (by omega)
      · -- a slot behind the entries is an error
        have bitmap : vhdReadBitmap vhd vhd.table (vhd.slot sec) = .error (-erange) := by
          unfold vhdReadBitmap
          rw [if_neg (by simp [dynamic]), if_pos (show vhd.table.entries ≤ _ from Nat.not_lt.mp loaded)]
        unfold readLinkTurn
        rw [if_neg positive.ne']
        dsimp only
        rw [if_neg (Nat.not_le.mpr inside), if_neg (show ¬ vhd.table.bat _ = _ from unused), bitmap]
        simp

theorem dynamicRead_defined (valid : chain.Valid) (slots : InTables sec secs chain) (some : 0 < secs) :
    dynamicRead sec secs chain dest ≠ .undefined := by
  have layer : ∀ vhd : Vhd, vhd.Valid → vhd.typeDynamic = true → Slots vhd sec secs → ∀ dest,
      readLayer vhd sec secs dest ≠ .undefined := by
    intro vhd valid dynamic slots dest
    unfold readLayer
    rw [vhdReadBat_table valid dynamic, Outcome.ok_bind]
    exact readLink_defined valid dynamic slots some (Nat.lt_succ_self _)
  induction chain generalizing dest with
  | base vhd =>
      by_cases dynamic : vhd.typeDynamic = true
      · exact layer vhd (valid.base_valid dynamic) dynamic (slots dynamic) dest
      · unfold dynamicRead readLayer
        rw [vhdReadBat_fixed (Bool.eq_false_iff.mpr dynamic)]
        simp
  | differRaw vhd raw =>
      refine Outcome.bind_defined (layer vhd valid.2 (Vhd.dynamic_of_diff valid.1) slots dest) fun mid _ => ?_
      split
      · simp
      · unfold rawReadLink
        split <;> simp
  | differ vhd parent ih =>
      refine Outcome.bind_defined (layer vhd valid.2.1 (Vhd.dynamic_of_diff valid.1) slots.1 dest) fun mid _ => ?_
      split
      · simp
      · exact ih valid.2.2 slots.2

theorem mapFits_spb (valid : vhd.Valid) : mapFits vhd.spb = true := by
  obtain ⟨k, _, high, size⟩ := valid.blockSize
  have bound : 2 ^ k ≤ 2 ^ 31 := Nat.pow_le_pow_right (by decide) (by omega)
  have spb := valid.spb_mul
  unfold mapFits
  rw [decide_eq_true_iff]
  omega

theorem vhdReadBitmap_eq (dynamic : vhd.typeDynamic = true) (loaded : block < vhd.batEntries)
    (used : vhd.entry block ≠ ddBlkUnused) : vhdReadBitmap vhd vhd.table block =
      vhd.file.read (vhd.entry block * 512) (vhdBytesPadded (vhd.spb / 8)) := by
  have entry : vhd.table.bat block = vhd.entry block := table_entry loaded
  unfold vhdReadBitmap
  rw [if_neg (by simp [dynamic]), if_neg (show ¬ vhd.table.entries ≤ block from Nat.not_le.mpr loaded), entry,
    if_neg used]

theorem vhdReadBitmap_ok (valid : vhd.Valid) (dynamic : vhd.typeDynamic = true) (loaded : block < vhd.batEntries)
    (allocated : vhd.allocated block) :
    vhdReadBitmap vhd vhd.table block = .ok fun i => vhd.file.byte (vhd.entry block * 512 + i) :=
  (vhdReadBitmap_eq dynamic loaded allocated.2).trans (File.read_ok (valid.bitmap block allocated))

theorem slot_of_block {nr : Nat} (loaded : block < vhd.batEntries) (low : block * vhd.spb ≤ nr)
    (high : nr < block * vhd.spb + vhd.spb) : nr / vhd.spb = block ∧ vhd.slot nr = block := by
  have here : nr / vhd.spb = block := Nat.div_eq_of_lt_le low (by rw [Nat.succ_mul]; exact high)
  have bound : vhd.batEntries < 2 ^ 32 := Nat.mod_lt _ (by decide)
  refine ⟨here, ?_⟩
  unfold Vhd.slot
  rw [here, Nat.mod_eq_of_lt (loaded.trans bound)]

theorem block_slots (loaded : block < vhd.batEntries) : Slots vhd (block * vhd.spb) vhd.spb :=
  fun _ low high => ((slot_of_block loaded low high).2.trans_lt loaded).trans_le table_len

theorem vhdIoRead_defined (valid : (below.under vhd).Valid) (own : vhd.Valid) (dynamic : vhd.typeDynamic = true)
    (loaded : block < vhd.batEntries)
    (slots : ∀ parent, below = .layer parent → InTables (block * vhd.spb) vhd.spb parent) :
    vhdIoRead (below.under vhd) (block * vhd.spb) vhd.spb ≠ .undefined := by
  have inside := block_slots loaded
  have tables : InTables (block * vhd.spb) vhd.spb (below.under vhd) := by
    cases below with
    | nothing => exact fun _ => inside
    | raw file => exact inside
    | layer parent => exact ⟨inside, slots parent rfl⟩
  unfold vhdIoRead
  rw [Below.under_top]
  dsimp only
  split
  · simp
  rw [if_neg (by simp [dynamic]), vhdReadBat_table own dynamic, Outcome.ok_bind, if_neg (by simp [mapFits_spb own])]
  exact Outcome.bind_defined (dynamicRead_defined valid tables own.spb_pos) fun _ _ => by simp

theorem readOk_fewer {missing missing' : Nat → Prop} (fewer : ∀ nr, missing' nr → missing nr)
    (ok : chain.ReadOk sec secs missing) : chain.ReadOk sec secs missing' := by
  have layer : ∀ vhd : Vhd, ∀ {missing missing' : Nat → Prop}, (∀ nr, missing' nr → missing nr) →
      vhd.LayerOk sec secs missing → vhd.LayerOk sec secs missing' :=
    fun vhd _ _ fewer ok => ⟨ok.1, fun nr small lost => ok.2 nr small (fewer nr lost)⟩
  have left : ∀ vhd : Vhd, ∀ {missing missing' : Nat → Prop}, (∀ nr, missing' nr → missing nr) →
      ∀ nr, vhd.remaining sec missing' nr → vhd.remaining sec missing nr :=
    fun vhd _ _ fewer nr lost => ⟨fewer nr lost.1, lost.2⟩
  induction chain generalizing missing missing' with
  | base vhd => exact ⟨ok.1, layer vhd fewer ok.2⟩
  | differRaw vhd raw =>
      exact ⟨layer vhd fewer ok.1, ok.2.imp (fun all nr small lost => all nr small (left vhd fewer nr lost)) id⟩
  | differ vhd parent ih =>
      refine ⟨layer vhd fewer ok.1, ok.2.imp (fun all nr small lost => all nr small (left vhd fewer nr lost)) ?_⟩
      exact ih (left vhd fewer)

theorem readOk_under (dynamic : vhd.typeDynamic = true) (layer : ∀ missing, vhd.LayerOk sec secs missing)
    (reads : BelowReads sec secs below) (missing : Nat → Prop) : (below.under vhd).ReadOk sec secs missing := by
  cases below with
  | nothing => exact ⟨dynamic, layer missing⟩
  | raw file => exact ⟨layer missing, .inr reads⟩
  | layer parent => exact ⟨layer missing, .inr (readOk_fewer (fun _ _ => trivial) reads)⟩

theorem vhdIoRead_works (valid : (below.under vhd).Valid) (own : vhd.Valid) (dynamic : vhd.typeDynamic = true)
    (loaded : block < vhd.batEntries) (inDisk : (block + 1) * vhd.spb * 512 ≤ vhd.currSize)
    (reads : BelowReads (block * vhd.spb) vhd.spb below) :
    ∃ buf, vhdIoRead (below.under vhd) (block * vhd.spb) vhd.spb = .ok buf := by
  have inside : (block * vhd.spb + vhd.spb) * 512 ≤ vhd.currSize := by
    rw [← Nat.succ_mul]
    exact inDisk
  have fits : (block * vhd.spb + vhd.spb) * 512 ≤ (below.under vhd).top.currSize := by
    rw [Below.under_top]
    exact inside
  have ok := readOk_under dynamic (Fill.layerOk_block own dynamic loaded inside) reads fun _ => True
  obtain ⟨buf, read, -⟩ := (vhdIoRead_shows_iff valid fits).mpr (fun _ => ⟨mapFits_spb own, ok⟩) _ (.refl _)
  exact ⟨buf, read⟩

theorem dynamicRead_top (valid : (below.under vhd).Valid)
    (action : dynamicRead sec secs (below.under vhd) dest = .ok after) :
    ∃ mid, readLayer vhd sec secs dest = .ok mid ∧ ∀ p, mid.map (p / 512) = true → after.buf p = mid.buf p := by
  cases below with
  | nothing => exact ⟨after, action, fun _ _ => rfl⟩
  | raw file =>
      obtain ⟨mid, layer, rest⟩ := Outcome.bind_eq_ok.mp action
      refine ⟨mid, layer, fun p found => ?_⟩
      split at rest
      · cases rest
        rfl
      · exact (rawReadLink_filled rest).2.old p (.inl found)
  | layer parent =>
      obtain ⟨mid, layer, rest⟩ := Outcome.bind_eq_ok.mp action
      refine ⟨mid, layer, fun p found => ?_⟩
      split at rest
      · cases rest
        rfl
      · exact dynamicRead_keeps valid.2.2 rest p found

theorem read_own {buf : Nat → UInt8} (chain : (below.under vhd).Valid) (valid : vhd.Valid)
    (dynamic : vhd.typeDynamic = true) (loaded : block < vhd.batEntries)
    (used : vhd.table.bat block ≠ ddBlkUnused)
    (read : vhdIoRead (below.under vhd) (block * vhd.spb) vhd.spb = .ok buf) (small : i < vhd.spb)
    (marked : vhd.marks (vhd.table.bat block) i = true) :
    Moves vhd (block * vhd.spb + i) ∧
      ∀ o < 512, vhd.content (block * vhd.spb + i) o = some (buf (i * 512 + o)) := by
  obtain ⟨quotient, slot⟩ := @slot_of_block vhd block (block * vhd.spb + i) loaded (by omega) (by omega)
  have rest : (block * vhd.spb + i) % vhd.spb = i := Nat.mul_add_mod_of_lt small
  have found : vhd.finds (block * vhd.spb + i) := by
    unfold Vhd.finds Vhd.lookup
    rw [slot, rest]
    exact ⟨loaded, used, marked⟩
  unfold vhdIoRead at read
  rw [Below.under_top] at read
  dsimp only at read
  split at read
  · cases read
  rename_i inDisk
  rw [if_neg (by simp [dynamic])] at read
  obtain ⟨_, -, read⟩ := Outcome.bind_eq_ok.mp read
  split at read
  · cases read
  obtain ⟨after, action, read⟩ := Outcome.bind_eq_ok.mp read
  cases read
  obtain ⟨mid, layer, same⟩ := dynamicRead_top chain action
  have filled := (readLayer_ok valid dynamic layer).2
  have copied : vhd.copies (block * vhd.spb) (block * vhd.spb + i) :=
    ⟨not_passedOver_aligned (Nat.mul_mod_left _ _), found⟩
  have held : vhd.holds (block * vhd.spb + i) := by
    refine ⟨?_, fun _ => ?_⟩
    · omega
    · have entry := lookup_allocated valid (slot.symm ▸ loaded) found.2.1
      rw [slot] at entry
      rw [quotient, rest, ← entry.2, show vhd.lookup (block * vhd.spb + i) = vhd.table.bat block by
        unfold Vhd.lookup
        rw [slot]]
      exact ⟨entry.1, marked⟩
  refine ⟨⟨held, by rw [quotient]; exact loaded⟩, fun o inSector => ?_⟩
  have place : (i * 512 + o) / 512 = i ∧ (i * 512 + o) % 512 = o := by omega
  rw [same _ ((filled.map _).mpr (.inr (by rw [place.1]; exact ⟨small, copied⟩))),
    filled.new _ rfl (by rw [place.1]; exact ⟨small, copied⟩), place.1, place.2,
    source_position valid dynamic found held]
  unfold Vhd.content
  rw [if_pos held]

end Reads

/-- The parent can be read and written while the state is `good`. Where something fails, `fails` holds. -/
structure Parent.Works {σ : Type} (parent : Parent σ) (child : Vhd) (good : σ → Prop) (fails : Prop) : Prop where
  valid : ∀ s, good s → ((parent.beneath s).under child).Valid
  tables : ∀ s block, good s → block < child.batEntries → child.allocated block →
    ∀ chain, parent.beneath s = .layer chain → InTables (block * child.spb) child.spb chain
  reads : ∀ s block, good s → block < child.batEntries → child.allocated block → ¬ fails →
    ∃ buf, vhdIoRead ((parent.beneath s).under child) (block * child.spb) child.spb = .ok buf
  write : ∀ s sec secs buf, good s → 0 < secs → (∀ nr, sec ≤ nr → nr < sec + secs → Moves child nr) →
    wp (parent.write sec secs buf)
      (fun _ t => good t ∧ ∀ nr o, o < 512 → (parent.below t).byte nr o =
        if sec ≤ nr ∧ nr < sec + secs then buf ((nr - sec) * 512 + o) else (parent.below s).byte nr o)
      (fun _ t => fails ∧ ∀ nr o, o < 512 → ¬ (sec ≤ nr ∧ nr < sec + secs) →
        (parent.below t).byte nr o = (parent.below s).byte nr o) s

section Runs
variable {σ : Type} {parent : Parent σ} {child : Vhd} {good : σ → Prop} {fails : Prop} {s t u : σ}
  {done done' : Nat → Prop} {sec secs : Nat} {buf : Nat → UInt8} {marked : Nat → Bool}

def Kept (parent : Parent σ) (child : Vhd) (s t : σ) : Prop :=
  ∀ nr o, o < 512 → ¬ Moves child nr → (parent.below t).byte nr o = (parent.below s).byte nr o

structure Progress (parent : Parent σ) (child : Vhd) (good : σ → Prop) (s : σ) (done : Nat → Prop) (t : σ) : Prop where
  good : good t
  kept : Kept parent child s t
  moved : ∀ nr o, o < 512 → Moves child nr → done nr → child.content nr o = some ((parent.below t).byte nr o)

theorem Progress.mono (progress : Progress parent child good s done t)
    (weaker : ∀ nr, Moves child nr → done' nr → done nr) : Progress parent child good s done' t :=
  ⟨progress.good, progress.kept, fun nr o small moves did => progress.moved nr o small moves (weaker nr moves did)⟩

theorem Progress.write (progress : Progress parent child good s done t) (works : parent.Works child good fails)
    (positive : 0 < secs) (own : ∀ i < secs, Moves child (sec + i) ∧
      ∀ o < 512, child.content (sec + i) o = some (buf (i * 512 + o))) :
    wp (parent.write sec secs buf)
      (fun _ u => Progress parent child good s (fun nr => done nr ∨ sec ≤ nr ∧ nr < sec + secs) u)
      (fun _ u => fails ∧ Kept parent child s u) t := by
  have range : ∀ nr, sec ≤ nr → nr < sec + secs → Moves child nr ∧
      ∀ o < 512, child.content nr o = some (buf ((nr - sec) * 512 + o)) := by
    intro nr low high
    have here := own (nr - sec) (by omega)
    rwa [Nat.add_sub_cancel' low] at here
  apply (works.write t sec secs buf progress.good positive fun nr low high => (range nr low high).1).mono
  · rintro _ u ⟨good, wrote⟩
    refine ⟨good, fun nr o small still => ?_, fun nr o small moves did => ?_⟩
    · rw [wrote nr o small, if_neg fun inside => still (range nr inside.1 inside.2).1]
      exact progress.kept nr o small still
    · rw [wrote nr o small]
      by_cases inside : sec ≤ nr ∧ nr < sec + secs
      · rw [if_pos inside]
        exact (range nr inside.1 inside.2).2 o small
      · -- what was moved before stays, as the write is to other sectors
        rw [if_neg inside]
        exact progress.moved nr o small moves (did.resolve_right inside)
  · rintro _ u ⟨failed, spared⟩
    refine ⟨failed, fun nr o small still => ?_⟩
    rw [spared nr o small fun inside => still (range nr inside.1 inside.2).1]
    exact progress.kept nr o small still

theorem runLength_spec (left i : Nat) : runLength marked left i ≤ left ∧
    (∀ j < runLength marked left i, marked (i + j) = true) ∧
    (runLength marked left i < left → marked (i + runLength marked left i) = false) := by
  induction left generalizing i with
  | zero =>
      refine ⟨Nat.le_refl 0, fun j small => absurd small (Nat.not_lt_zero j), fun less => ?_⟩
      exact absurd less (Nat.lt_irrefl 0)
  | succ left ih =>
      unfold runLength
      by_cases first : marked i = true
      · rw [if_pos first]
        obtain ⟨bound, all, ends⟩ := ih (i + 1)
        refine ⟨Nat.succ_le_succ bound, fun j small => ?_, fun less => ?_⟩
        · cases j with
          | zero => exact first
          | succ j =>
              rw [← Nat.add_assoc, Nat.add_right_comm]
              exact all j (Nat.lt_of_succ_lt_succ small)
        · rw [← Nat.add_assoc, Nat.add_right_comm]
          exact ends (Nat.lt_of_succ_lt_succ less)
      · rw [if_neg first]
        refine ⟨Nat.zero_le _, fun j small => absurd small (Nat.not_lt_zero j), fun _ => ?_⟩
        rw [Nat.add_zero]
        exact Bool.eq_false_iff.mpr first

def passed (done : Nat → Prop) (marked : Nat → Bool) (n sec k nr : Nat) : Prop :=
  done nr ∨ ∃ j < n, j < k ∧ marked j = true ∧ nr = sec + j

theorem wp_coalesceRuns {n left i skip : Nat} (works : parent.Works child good fails)
    (own : ∀ i < n, marked i = true → Moves child (sec + i) ∧
      ∀ o < 512, child.content (sec + i) o = some (buf (i * 512 + o)))
    (all : i + left = n) (progress : Progress parent child good s (passed done marked n sec (i + skip)) t) :
    wp (coalesceRuns parent marked sec buf left i skip)
      (fun _ u => Progress parent child good s (passed done marked n sec n) u)
      (fun _ u => fails ∧ Kept parent child s u) t := by
  induction left generalizing i skip t with
  | zero =>
      refine progress.mono fun nr _ did => did.imp_right ?_
      rintro ⟨j, small, -, bit, same⟩
      exact ⟨j, small, by omega, bit, same⟩
  | succ left ih =>
      cases skip with
      | succ skip =>
          refine ih (by omega) ?_
          rwa [Nat.add_right_comm, Nat.add_assoc]
      | zero =>
          unfold coalesceRuns
          rw [wp_ite]
          refine ⟨fun clear => ih (by omega) (progress.mono fun nr _ did => did.imp_right ?_), fun set => ?_⟩
          · rintro ⟨j, small, before, bit, same⟩
            have other : j ≠ i := by
              rintro rfl
              simp [bit] at clear
            exact ⟨j, small, by omega, bit, same⟩
          · have first : marked i = true := by simpa using set
            obtain ⟨bound, run, ends⟩ := @runLength_spec marked (left + 1) i
            have positive : 0 < runLength marked (left + 1) i := by
              unfold runLength
              rw [if_pos first]
              exact Nat.succ_pos _
            rw [wp_bind]
            apply (progress.write works positive fun j small => ?_).mono
            · intro _ u progress'
              refine ih (by omega) (progress'.mono ?_)
              rintro nr - (did | ⟨j, small, before, bit, rfl⟩)
              · exact .inl (.inl did)
              · by_cases early : j < i
                · exact .inl (.inr ⟨j, small, by omega, bit, rfl⟩)
                · refine .inr ⟨by omega, ?_⟩
                  -- the bit behind the run is clear, or there is none
                  by_contra late
                  have last : j = i + runLength marked (left + 1) i := by omega
                  rw [last, ends (by omega)] at bit
                  cases bit
            · exact fun _ _ failed => failed
            · have here := own (i + j) (by omega) (run j small)
              refine ⟨by rw [Nat.add_assoc]; exact here.1, fun o small' => ?_⟩
              rw [Nat.add_assoc, here.2 o small', Nat.add_mul, Nat.add_assoc]

theorem block_of {nr block : Nat} (inside : nr / child.spb = block) :
    nr = block * child.spb + nr % child.spb := by
  rw [← inside, Nat.mul_comm]
  exact (Nat.div_add_mod nr child.spb).symm

theorem wp_coalesceBlock {batmap : Option Batmap} {block : Nat} (works : parent.Works child good fails)
    (valid : child.Valid) (dynamic : child.typeDynamic = true) (loaded : block < child.batEntries)
    (full : child.allocated block → ∃ full, blockFull batmap block = .ok full ∧
      (full = true → ∀ i < child.spb, child.marks (child.entry block) i = true))
    (progress : Progress parent child good s (fun nr => nr / child.spb < block) t) :
    wp (vhdUtilCoalesceBlock parent child child.table batmap block)
      (fun _ u => Progress parent child good s (fun nr => nr / child.spb < block + 1) u)
      (fun _ u => fails ∧ Kept parent child s u) t := by
  have positive := valid.spb_pos
  have entry : child.table.bat block = child.entry block := table_entry loaded
  have marks : ∀ nr, Moves child nr → nr / child.spb = block →
      child.entry block ≠ ddBlkUnused ∧ child.marks (child.entry block) (nr % child.spb) = true := by
    intro nr moves here
    have held := moves.1.2 dynamic
    rw [here] at held
    exact ⟨held.1.2, held.2⟩
  unfold vhdUtilCoalesceBlock
  rw [wp_ite, entry]
  refine ⟨fun unused => progress.mono fun nr moves did => ?_, fun used => ?_⟩
  · by_contra late
    -- a block without an entry has no sector to move
    exact (marks nr moves (by omega)).1 unused
  · have allocated : child.allocated block := ⟨loaded.trans_le valid.covers, used⟩
    obtain ⟨whole, test, full⟩ := full allocated
    rw [← entry] at used
    simp only [wp_bind, wp_get, test, wp_lift_ok]
    have defined := vhdIoRead_defined (works.valid t progress.good) valid dynamic loaded
      (works.tables t block progress.good loaded allocated)
    refine wp_lift defined (fun buf read => ?_) fun code failed => ?_
    swap
    · refine ⟨by_contra fun well => ?_, progress.kept⟩
      obtain ⟨_, read⟩ := works.reads t block progress.good loaded allocated well
      rw [read] at failed
      cases failed
    have own : ∀ i < child.spb, child.marks (child.table.bat block) i = true → _ := fun i small bit =>
      read_own (works.valid t progress.good) valid dynamic loaded used read small bit
    cases whole with
    | true =>
        refine (progress.write works positive fun i small => own i small ?_).mono ?_ fun _ _ failed => failed
        · rw [entry]
          exact full rfl i small
        · intro _ u progress'
          refine progress'.mono fun nr moves did => ?_
          by_cases here : nr / child.spb = block
          · have place := block_of here
            have rest := Nat.mod_lt nr positive
            exact .inr (by omega)
          · exact .inl (by omega)
    | false =>
        have bitmap := vhdReadBitmap_ok valid dynamic loaded allocated
        rw [← entry] at bitmap
        simp only [Bool.false_eq_true, if_false, wp_bind, bitmap, wp_lift_ok]
        change wp (coalesceRuns parent (child.marks (child.table.bat block)) _ _ _ _ _) _ _ _
        have start : Progress parent child good s (passed (fun nr => nr / child.spb < block)
            (child.marks (child.table.bat block)) child.spb (block * child.spb) (0 + 0)) t :=
          progress.mono fun nr _ did => by
            rcases did with earlier | ⟨j, _, early, _⟩
            · exact earlier
            · exact absurd early (Nat.not_lt_zero j)
        refine (wp_coalesceRuns works own (Nat.zero_add _) start).mono ?_ fun _ _ failed => failed
        intro _ u progress'
        refine progress'.mono fun nr moves did => ?_
        by_cases here : nr / child.spb = block
        · have bit := (marks nr moves here).2
          rw [← entry] at bit
          have rest := Nat.mod_lt nr positive
          exact .inr ⟨nr % child.spb, rest, rest, bit, block_of here⟩
        · exact .inl (by omega)

theorem wp_coalesceBlocks {batmap : Option Batmap} {left block : Nat} (works : parent.Works child good fails)
    (valid : child.Valid) (dynamic : child.typeDynamic = true) (all : block + left = child.batEntries)
    (full : ∀ block < child.batEntries, child.allocated block → ∃ full, blockFull batmap block = .ok full ∧
      (full = true → ∀ i < child.spb, child.marks (child.entry block) i = true))
    (progress : Progress parent child good s (fun nr => nr / child.spb < block) t) :
    wp (coalesceBlocks parent child child.table batmap left block)
      (fun _ u => Progress parent child good s (fun nr => nr / child.spb < child.batEntries) u)
      (fun _ u => fails ∧ Kept parent child s u) t := by
  induction left generalizing block t with
  | zero =>
      rw [Nat.add_zero] at all
      rw [all] at progress
      exact progress
  | succ left ih =>
      have loaded : block < child.batEntries := by omega
      unfold coalesceBlocks
      rw [wp_bind]
      refine (wp_coalesceBlock works valid dynamic loaded (full block loaded) progress).mono ?_ fun _ _ failed => failed
      exact fun _ u progress' => ih (by omega) progress'

end Runs

section Onto
variable {σ : Type} {parent : Parent σ} {child : Context} {good : σ → Prop} {fails : Prop} {s t : σ}

theorem stack_byte (above : List Vhd) (below : Below) (nr o : Nat) :
    (stack above below).byte nr o = (above.findSome? fun vhd => vhd.content nr o).getD (below.byte nr o) := by
  induction above with
  | nil => rfl
  | cons vhd above ih =>
      change ((stack above below).under vhd).byte nr o = _
      rw [Below.under_byte, ih, List.findSome?_cons]
      cases vhd.content nr o <;> rfl

theorem not_moves {vhd : Vhd} {nr o : Nat} (absent : vhd.content nr o = none) : ¬ Moves vhd nr := by
  intro moves
  unfold Vhd.content at absent
  rw [if_pos moves.1] at absent
  cases absent

theorem Kept.spared (kept : Kept parent child.toVhd s t) : Spared parent child s t := by
  refine ⟨fun sector o small => ?_, kept⟩
  unfold Parent.shows Parent.beneath
  rw [Below.under_byte, Below.under_byte, stack_byte, stack_byte]
  cases content : child.content sector o with
  | some value => rfl
  | none => rw [kept sector o small (not_moves content)]

theorem Progress.coalesced (flat : parent.above = [])
    (progress : Progress parent child.toVhd good s (fun nr => nr / child.spb < child.batEntries) t) :
    Coalesced parent child s t := by
  refine ⟨progress.kept.spared, fun sector o small loaded => ?_⟩
  unfold Parent.shows Parent.beneath
  rw [flat, Below.under_byte]
  by_cases held : child.holds sector
  · rw [progress.moved sector o small ⟨held, loaded held⟩ (loaded held)]
    rfl
  · have content : child.content sector o = none := if_neg held
    rw [content]
    exact progress.kept sector o small fun moves => held moves.1

theorem blockFull_marks {batmap : Option Batmap} {block : Nat} (tidy : Tidy child)
    (load : loadBatmap child = .ok batmap) (loaded : block < child.batEntries) (allocated : child.allocated block) :
    ∃ full, blockFull batmap block = .ok full ∧
      (full = true → ∀ i < child.spb, child.marks (child.entry block) i = true) := by
  unfold loadBatmap at load
  split at load
  · rename_i has
    obtain ⟨map, read, load⟩ := Outcome.bind_eq_ok.mp load
    cases load
    have from' := vhdReadBatmap_loaded tidy.laid tidy.map read
    have size : map.header.batmapSize = child.batmapHeader.batmapSize := by rw [from'.header]
    change ∃ full, map.test block = .ok full ∧ _
    unfold Batmap.test
    by_cases outside : map.header.batmapSize * 2 ^ 12 % 2 ^ 32 ≤ block
    · exact ⟨false, if_pos outside, fun same => by cases same⟩
    · have covers := tidy.covers block loaded allocated has (by rw [← size]; exact Nat.not_le.mp outside)
      rw [← from'.mapBytes] at covers
      rw [if_neg outside, if_neg (by omega)]
      exact ⟨_, rfl, fun bit => (from'.sound block (from'.mapBytes ▸ covers.1) bit).2⟩
  · cases load
    exact ⟨false, rfl, fun same => by cases same⟩

theorem loadBatmap_cases (laid : child.Laid) : loadBatmap child ≠ .undefined ∧
    ((child.hasBatmap = true → child.MapReadable) → ∃ batmap, loadBatmap child = .ok batmap) := by
  unfold loadBatmap
  split
  · rename_i has
    refine ⟨Outcome.bind_defined ?_ fun _ _ => by simp, fun map => ?_⟩
    · unfold vhdReadBatmap
      rw [if_neg (by simp [has]), vhdReadBatmapHeader_ok (laid.marker (Context.looks_of_has has)), Outcome.ok_bind]
      split
      · simp
      · rw [if_neg (Nat.not_lt.mpr (laid.map has).2.1)]
        refine Outcome.bind_defined (File.read_defined _ _ _) fun map _ => ?_
        split <;> simp
    · obtain ⟨batmap, read⟩ := (map has).read has
      rw [read, Outcome.ok_bind]
      exact ⟨some batmap, rfl⟩
  · exact ⟨by simp, fun _ => ⟨_, rfl⟩⟩

theorem wp_coalesceOnto (works : parent.Works child.toVhd good fails) (tidy : Tidy child)
    (map : ¬ fails → child.hasBatmap = true → child.MapReadable) (start : good s) :
    wp (vhdUtilCoalesceOnto parent child)
      (fun _ t => Progress parent child.toVhd good s (fun nr => nr / child.spb < child.batEntries) t)
      (fun _ t => fails ∧ Kept parent child.toVhd s t) s := by
  have valid := tidy.laid.vhd tidy.footer
  obtain ⟨defined, readable⟩ := loadBatmap_cases tidy.laid
  have same : Kept parent child.toVhd s s := fun _ _ _ _ => rfl
  unfold vhdUtilCoalesceOnto
  rw [vhdReadBat_table valid tidy.laid.dynamic, wp_bind, wp_lift_ok, wp_bind]
  refine wp_lift defined (fun batmap load => ?_) fun code failed => ?_
  · have progress : Progress parent child.toVhd good s (fun nr => nr / child.spb < 0) s :=
      ⟨start, same, fun _ _ _ _ none => absurd none (Nat.not_lt_zero _)⟩
    exact wp_coalesceBlocks works valid tidy.laid.dynamic (Nat.zero_add _)
      (fun block loaded => blockFull_marks tidy load loaded) progress
  · refine ⟨by_contra fun well => ?_, same⟩
    obtain ⟨_, load⟩ := readable (map well)
    rw [load] at failed
    cases failed

theorem wp_coalesceParent (works : parent.Works child.toVhd good fails) (flat : parent.above = []) (tidy : Tidy child)
    (map : ¬ fails → child.hasBatmap = true → child.MapReadable) (start : good s) :
    wp (vhdUtilCoalesceOnto parent child) (fun _ t => Coalesced parent child s t)
      (fun _ t => fails ∧ Spared parent child s t) s :=
  (wp_coalesceOnto works tidy map start).mono (fun _ _ progress => progress.coalesced flat) fun _ _ failed =>
    ⟨failed.1, failed.2.spared⟩

end Onto

section Image
variable {grand : Below} {child : Context} {s t : Handle} {blocks : List Nat} {bound sec secs : Nat} {buf : Nat → UInt8}

theorem mem_blocksOf {vhd : Vhd} {block : Nat} (positive : 0 < vhd.spb) (some : 0 < secs)
    (member : block ∈ vhd.blocksOf sec secs) : ∃ nr, sec ≤ nr ∧ nr < sec + secs ∧ nr / vhd.spb = block := by
  unfold Vhd.blocksOf at member
  obtain ⟨low, high⟩ := List.mem_range'_1.mp member
  by_cases first : block = sec / vhd.spb
  · exact ⟨sec, Nat.le_refl _, by omega, first.symm⟩
  · refine ⟨block * vhd.spb, ?_, ?_, Nat.mul_div_cancel _ positive⟩
    · exact ((Nat.div_lt_iff_lt_mul positive).mp (by omega)).le
    · have last : block * vhd.spb ≤ sec + (secs - 1) := (Nat.le_div_iff_mul_le positive).mp (by omega)
      omega

theorem wp_vhdIoWrite_allows (valid : s.Valid) (allows : s.typeDynamic = true → s.Allows blocks bound)
    (among : ∀ block ∈ s.blocksOf sec secs, block ∈ blocks) :
    wp (vhdIoWrite sec secs buf)
      (fun _ t => t.Valid ∧ s.SameFields t ∧ (t.typeDynamic = true → t.Allows blocks bound) ∧
        s.toVhd.Wrote t.toVhd sec secs buf)
      (fun _ t => s.toVhd.Spares t.toVhd (inRange sec secs)) s := by
  unfold vhdIoWrite
  simp only [wp_bind, wp_get, wp_ite, wp_fail]
  refine ⟨fun _ _ _ _ _ => rfl, fun inDisk => ⟨fun fixed => ?_, fun dynamic => ?_⟩⟩
  · rw [Bool.not_eq_true'] at fixed
    apply (wp_fixedWrite fixed (valid.fixed fixed) (Nat.not_lt.mp inDisk)).mono
    · rintro _ t ⟨fields, fixed', wrote⟩
      have type : t.typeDynamic = s.typeDynamic := by
        rw [fields]
        rfl
      have static : ¬ t.typeDynamic = true := by simp [type, fixed]
      refine ⟨⟨fun h => absurd h static, fun h => absurd h static, fun _ => fixed'⟩, fields, fun h => ?_, wrote⟩
      exact absurd h static
    · exact fun _ t failed => failed.2
  · simp only [Bool.not_eq_true', Bool.not_eq_false] at dynamic
    apply (wp_dynamicWrite (valid.sound dynamic) (allows dynamic) among (Nat.not_lt.mp inDisk)).mono
    · rintro _ t ⟨sound, allows', fields, footed, wrote⟩
      have moving : t.typeDynamic = true := by
        rw [fields]
        exact dynamic
      refine ⟨⟨fun _ => sound, fun _ block allocated => ?_, fun h => ?_⟩, fields, fun _ => allows', wrote⟩
      · have last := Nat.mul_le_mul_right 512 (allows'.room.extents block allocated)
        exact (Nat.add_le_add_right last 512).trans footed
      · rw [moving] at h
        cases h
    · exact fun _ t failed => failed.spares

structure Sure (child : Context) (grand : Below) (s : Handle) : Prop extends Readable child grand where
  clear : s.Clear
  dynamic : s.typeDynamic = true
  spb : s.spb = child.spb
  size : child.currSize ≤ s.currSize
  loaded : ∀ block < child.batEntries, child.allocated block → block < s.batEntries

theorem Readable.within {below : Below} (readable : Readable child below) (dynamic : child.typeDynamic = true)
    (positive : 0 < child.spb) (some : 0 < secs) (moves : ∀ nr, sec ≤ nr → nr < sec + secs → Moves child.toVhd nr) :
    (sec + secs) * 512 ≤ child.currSize := by
  have last : Moves child.toVhd (sec + secs - 1) := moves _ (by omega) (by omega)
  have inDisk := readable.inDisk _ last.2 (last.1.2 dynamic).1
  have before : sec + secs ≤ ((sec + secs - 1) / child.spb + 1) * child.spb := by
    have := Nat.div_add_mod (sec + secs - 1) child.spb
    have := Nat.mod_lt (sec + secs - 1) positive
    rw [Nat.succ_mul, Nat.mul_comm (_ / child.spb)]
    omega
  exact (Nat.mul_le_mul_right 512 before).trans inDisk

theorem works_vhdIoWrite (sure : t.Clear) (dynamic : t.typeDynamic = true) (valid : t.Valid)
    (allows : t.Allows blocks bound) (some : 0 < secs) (among : ∀ block ∈ t.blocksOf sec secs, block ∈ blocks)
    (inDisk : (sec + secs) * 512 ≤ t.currSize) :
    wp (vhdIoWrite sec secs buf) (fun _ u => u.Clear) (fun _ _ => False) t := by
  unfold vhdIoWrite
  simp only [wp_bind, wp_get, wp_ite, wp_fail]
  refine ⟨fun outside => absurd inDisk (Nat.not_le.mpr outside), fun _ => ⟨fun fixed => ?_, fun _ => ?_⟩⟩
  · simp [dynamic] at fixed
  · exact (works_dynamicWrite (valid.sound dynamic) sure allows some among inDisk).imp fun _ _ done => done.2

theorem imageParent_works (tidy : Tidy child) (positive : 0 < s.spb) (parents : grand.Valid s.type)
    (covers : ∀ nr, Moves child.toVhd nr → nr / s.spb ∈ blocks)
    (tables : ∀ block < child.batEntries, child.allocated block →
      InTables (block * child.spb) child.spb (grand.under s.toVhd)) :
    (imageParent grand).Works child.toVhd (fun t => t.Valid ∧ s.SameFields t ∧
      (t.typeDynamic = true → t.Allows blocks bound) ∧ (Sure child grand s → t.Clear)) (¬ Sure child grand s) := by
  have own := tidy.laid.vhd tidy.footer
  have chain : ∀ t : Handle, t.Valid → s.SameFields t → (((imageParent grand).beneath t).under child.toVhd).Valid := by
    intro t valid fields
    refine ⟨tidy.type, own, Below.valid_under valid ?_⟩
    rw [fields]
    exact parents
  constructor
  · exact fun t ⟨valid, fields, _⟩ => chain t valid fields
  · rintro t block ⟨valid, fields, -⟩ loaded allocated
    rintro _ ⟨⟩
    have inTables := tables block loaded allocated
    have type : t.typeDynamic = s.typeDynamic := by rw [fields]; rfl
    have slots : Slots t.toVhd (block * child.spb) child.spb = Slots s.toVhd (block * child.spb) child.spb := by
      rw [fields]
      rfl
    cases grand <;> simpa only [Below.under, InTables, slots, type] using inTables
  · rintro t block ⟨valid, fields, -⟩ loaded allocated sure
    have sure := not_not.mp sure
    have dynamic : t.typeDynamic = true := by rw [fields]; exact sure.dynamic
    have spb : t.spb = child.spb := by rw [fields]; exact sure.spb
    have entries : block < t.batEntries := by rw [fields]; exact sure.loaded block loaded allocated
    have inDisk := sure.inDisk block loaded allocated
    have size : child.currSize ≤ t.currSize := by rw [fields]; exact sure.size
    refine vhdIoRead_works (chain t valid fields) own tidy.laid.dynamic loaded inDisk ?_
    refine readOk_under dynamic (fun missing => ?_) (sure.reads block loaded allocated) _
    rw [← spb, Nat.succ_mul] at inDisk
    rw [← spb]
    exact Fill.layerOk_block (valid.vhd dynamic) dynamic entries (inDisk.trans size) missing
  · rintro t sec secs buf ⟨valid, fields, allows, clear⟩ some moves
    have spb : t.spb = s.spb := by rw [fields]; rfl
    have bytes : ∀ (u : Handle) nr o,
        ((imageParent grand).below u).byte nr o = (u.content nr o).getD (grand.byte nr o) :=
      fun u nr o => grand.under_byte u.toVhd nr o
    have among : ∀ block ∈ t.blocksOf sec secs, block ∈ blocks := by
      intro block member
      obtain ⟨nr, low, high, rfl⟩ := mem_blocksOf (spb ▸ positive) some member
      rw [spb]
      exact covers nr (moves nr low high)
    have works : Sure child grand s → wp (vhdIoWrite sec secs buf) (fun _ u => u.Clear) (fun _ _ => False) t := by
      intro sure
      have dynamic : t.typeDynamic = true := by rw [fields]; exact sure.dynamic
      have size : child.currSize ≤ t.currSize := by rw [fields]; exact sure.size
      exact works_vhdIoWrite (clear sure) dynamic valid (allows dynamic) some among
        ((sure.within tidy.laid.dynamic own.spb_pos some moves).trans size)
    have run : wp (vhdIoWrite sec secs buf)
        (fun _ u => (u.Valid ∧ t.SameFields u ∧ (u.typeDynamic = true → u.Allows blocks bound) ∧
          t.toVhd.Wrote u.toVhd sec secs buf) ∧ (Sure child grand s → u.Clear))
        (fun _ u => t.toVhd.Spares u.toVhd (inRange sec secs) ∧ ¬ Sure child grand s) t := by
      have writes := @wp_vhdIoWrite_allows t blocks bound sec secs buf valid allows among
      -- an error is only excluded where nothing can fail
      by_cases sure : Sure child grand s
      · exact (writes.and (works sure)).mono (fun _ _ done => ⟨done.1, fun _ => done.2⟩) fun _ _ done => done.2.elim
      · exact writes.mono (fun _ _ done => ⟨done, fun sure' => absurd sure' sure⟩) fun _ _ spares => ⟨spares, sure⟩
    apply run.mono
    · rintro _ u ⟨⟨valid', fields', allows', wrote⟩, clear'⟩
      refine ⟨⟨valid', fields.trans fields', allows', clear'⟩, fun nr o small => ?_⟩
      rw [bytes, bytes, wrote nr o small]
      split <;> rfl
    · rintro _ u ⟨spares, unsure⟩
      refine ⟨unsure, fun nr o small outside => ?_⟩
      rw [bytes, bytes, spares nr o outside small]

end Image

section Raw
variable {child : Context} {s : RawFile}

theorem rawByte_put {file : File} {off n : Nat} {data : Nat → UInt8} (sector o : Nat) :
    (file.put off n data).rawByte sector o =
      if off ≤ sector * 512 + o ∧ sector * 512 + o < off + n then data (sector * 512 + o - off)
      else file.rawByte sector o := by
  unfold File.rawByte File.put
  dsimp only
  by_cases inside : off ≤ sector * 512 + o ∧ sector * 512 + o < off + n
  · rw [if_pos inside, if_pos]
    split <;> omega
  · rw [if_neg inside]
    by_cases before : sector * 512 + o < file.size
    · rw [if_pos before, if_pos]
      split <;> omega
    · rw [if_neg before, ite_self]

structure RawSure (child : Context) (s : RawFile) : Prop extends Readable child (.raw s.file) where
  faults : s.faults = []
  room : s.isBlock = true → child.currSize ≤ s.file.size

theorem rawParent_works (tidy : Tidy child) : rawParent.Works child.toVhd
    (fun t => t.isBlock = s.isBlock ∧ s.file.size ≤ t.file.size ∧ (RawSure child s → t.faults = []))
    (¬ RawSure child s) := by
  have own := tidy.laid.vhd tidy.footer
  have chain : ∀ t : RawFile, (Below.under (.raw t.file) child.toVhd).Valid := fun _ => ⟨tidy.type, own⟩
  constructor
  · exact fun t _ => chain t
  · exact fun t block _ _ _ _ same => by cases same
  · rintro t block ⟨-, size, -⟩ loaded allocated sure
    have sure := not_not.mp sure
    have reads : s.file.rawOk (block * child.spb) child.spb := sure.reads block loaded allocated
    exact vhdIoRead_works (chain t) own tidy.laid.dynamic loaded (sure.inDisk block loaded allocated)
      ⟨reads.1.trans size, reads.2⟩
  · rintro t sec secs buf ⟨device, size, clear⟩ some moves
    have fits : RawSure child s → t.isBlock = true → (sec + secs) * 512 ≤ t.file.size := by
      intro sure block
      have inDisk := sure.within tidy.laid.dynamic own.spb_pos some moves
      exact inDisk.trans ((sure.room (device ▸ block)).trans size)
    have spares : ∀ {n : Nat}, n ≤ secs * 512 → ∀ nr o, o < 512 → ¬ (sec ≤ nr ∧ nr < sec + secs) →
        (t.file.put (sec * 512) n buf).rawByte nr o = t.file.rawByte nr o := by
      intro n part nr o small outside
      rw [rawByte_put, if_neg (by omega)]
    change wp (rawIoWrite sec secs buf) _ _ t
    unfold wp rawIoWrite
    dsimp only
    have part : (if t.isBlock = true then min (secs * 512) (t.file.size - sec * 512) else secs * 512) ≤ secs * 512 := by
      split <;> omega
    cases fault : t.faults.head?.join with
    | some fault =>
        refine ⟨fun sure => ?_, spares ((Nat.min_le_left _ _).trans part)⟩
        rw [clear sure] at fault
        cases fault
    | none =>
        dsimp only
        by_cases short :
            (if t.isBlock = true then min (secs * 512) (t.file.size - sec * 512) else secs * 512) < secs * 512
        · rw [if_pos short]
          refine ⟨fun sure => ?_, spares part⟩
          split at short
          · have := fits sure (by assumption)
            omega
          · omega
        · rw [if_neg short]
          refine ⟨⟨device, size.trans (File.le_put_size _ _ _ _), fun sure => ?_⟩, fun nr o small => ?_⟩
          · rw [clear sure]
            rfl
          change (t.file.put (sec * 512) (secs * 512) buf).rawByte nr o = _
          rw [rawByte_put]
          by_cases inside : sec ≤ nr ∧ nr < sec + secs
          · rw [if_pos inside, if_pos (by omega), Nat.sub_mul, ← Nat.sub_add_comm (Nat.mul_le_mul_right 512 inside.1)]
          · rw [if_neg inside, if_neg (by omega)]
            rfl

theorem coalesce_raw (tidy : Tidy child) :
    wp (vhdUtilCoalesceOnto rawParent child) (fun _ t => Coalesced rawParent child s t)
      (fun _ t => ¬ RawSure child s ∧ Spared rawParent child s t) s :=
  wp_coalesceParent (rawParent_works tidy) rfl tidy (fun sure => (not_not.mp sure).map)
    ⟨rfl, Nat.le_refl _, RawSure.faults⟩

end Raw

section Sample

def halfChild : Context := (halfOpen .diff (2 * 2 ^ 21)).toContext

theorem halfChild_tidy : Tidy halfChild := by
  have valid : (halfOpen .diff (2 * 2 ^ 21)).Valid := halfOpen_valid (by decide) (by decide)
  exact ⟨(valid.sound rfl).laid, (valid.sound rfl).disk, rfl, valid.footer rfl, fun _ _ _ has => by cases has⟩

theorem halfChild_readable {below : Below} (reads : ∀ block < 2, BelowReads (block * 4096) 4096 below) :
    Readable halfChild below := by
  refine ⟨fun has => ?_, fun block loaded _ => ?_, fun block loaded _ => reads block loaded⟩
  · have none : halfChild.hasBatmap = false := hasBatmap_unlooked rfl
    rw [none] at has
    cases has
  · have last : (block + 1) * 4096 * 512 ≤ 2 * 4096 * 512 := by
      have : block < 2 := loaded
      omega
    exact last

structure HalfParent (s : Handle) : Prop where
  same : s = halfOpen .dynamic (2 * 2 ^ 21)
  valid : s.Valid
  parents : Below.nothing.Valid s.type
  spb : s.spb = halfChild.spb
  allows : s.Allows (List.range 2) (s.endAfter (List.range 2) s.dataEnd)
  covers : ∀ nr, Moves halfChild.toVhd nr → nr / s.spb ∈ List.range 2
  tables : ∀ block < halfChild.batEntries, halfChild.allocated block →
    InTables (block * halfChild.spb) halfChild.spb (Below.nothing.under s.toVhd)

theorem halfParent : ∃ s, HalfParent s := by
  obtain ⟨s, same⟩ : ∃ s, s = halfOpen .dynamic (2 * 2 ^ 21) := ⟨_, rfl⟩
  have spb : s.spb = halfChild.spb := same ▸ rfl
  have entries : s.batEntries = halfChild.batEntries := same ▸ rfl
  refine ⟨s, same, same ▸ halfOpen_valid (by decide) (by decide), same ▸ Fill.halfOpen_parents, spb,
    same ▸ Fill.halfOpen_allows, fun nr moves => ?_, fun block loaded _ _ => ?_⟩
  · have inDisk : nr * 512 < 2 * 2 ^ 21 := moves.1.1
    rw [show s.spb = 4096 from spb, List.mem_range]
    omega
  · rw [← entries] at loaded
    exact spb ▸ block_slots loaded

theorem coalesce_raw_half : ∃ s, RawSure halfChild s ∧
    wp (vhdUtilCoalesceOnto rawParent halfChild) (fun _ t => Coalesced rawParent halfChild s t)
      (fun _ t => ¬ RawSure halfChild s ∧ Spared rawParent halfChild s t) s := by
  obtain ⟨s, same⟩ : ∃ s : RawFile, s = ⟨⟨2 * 2 ^ 21, fun _ => 0⟩, false, []⟩ := ⟨_, rfl⟩
  have sure : RawSure halfChild s := by
    refine ⟨halfChild_readable fun block small => ?_, same ▸ rfl, fun device => ?_⟩
    · have fits : block * 4096 * 512 + 4096 * 512 ≤ 2 * 2 ^ 21 := by omega
      exact same ▸ ⟨fits, by decide⟩
    · rw [same] at device
      cases device
  exact ⟨s, sure, coalesce_raw halfChild_tidy⟩

end Sample

end Blktap.Libvhd.Coalesce
