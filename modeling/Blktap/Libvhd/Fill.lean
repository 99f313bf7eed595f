import Blktap.Libvhd.WriteFails
import Blktap.Libvhd.WriteRuns
import Blktap.Libvhd.WriteWorks

/-!
# Filling an image (`vhd-util-fill.c`)

Each block that the table has an entry for is read through the chain and written back, as a whole. The reads and the
writes are checked against the size of the disk, which may end in front of the last block of the table.
-/

namespace Blktap.Libvhd.Fill
open Lib Action

def dynamicReadAt (below : Below) (vhd : Vhd) (bat : Bat) (sec secs : Nat) : Outcome Dest := do
  let dest ← readLink vhd bat (secs + 1) sec secs 0 ⟨fun _ => false, fun _ => 0⟩
  match below with
  | .nothing => .ok dest
  | .raw file => if dest.done secs then .ok dest else rawReadLink file sec secs dest
  | .layer parent => if dest.done secs then .ok dest else dynamicRead sec secs parent dest

def vhdIoRead (below : Below) (sec secs : Nat) : Action Handle (Nat → UInt8) := do
  let s ← Action.get
  if s.currSize < (sec + secs) * 512 then Action.fail (-erange)
  else if !s.typeDynamic then Action.lift (s.file.read (sec * 512) (secs * 512))
  else do
    vhdGetBat
    let bat ← loadedBat
    if !mapFits secs then Action.undefined
    else do
      let dest ← Action.lift (dynamicReadAt below s.toVhd bat sec secs)
      pure dest.buf

def fill (below : Below) (secs : Nat) : Nat → Nat → Action Handle Unit
  | 0, _ => pure ()
  | n + 1, sec => do
      let buf ← vhdIoRead below sec secs
      vhdIoWrite sec secs buf
      fill below secs n (sec + secs)

def vhdUtilFill (below : Below) : Action Handle Unit := do
  vhdGetBat
  let s ← Action.get
  fill below s.spb s.maxBatSize 0

def Fills (below : Below) (s : Handle) : Prop :=
  ∃ t, vhdUtilFill below s = (.ok (), t) ∧
    (∀ sector o, o < 512 → (below.under t.toVhd).byte sector o = (below.under s.toVhd).byte sector o) ∧
    ∀ block, block * s.blockSize < s.currSize → t.full block

structure Fillable (below : Below) (s : Handle) : Prop where
  whole : s.maxBatSize * s.blockSize ≤ s.currSize
  allows : s.Allows (List.range s.maxBatSize) (s.endAfter (List.range s.maxBatSize) s.dataEnd)
  reads : ∀ block < s.maxBatSize, (below.under s.toVhd).SectorReadOk (block * s.spb) s.spb

section Fields
variable {s t : Handle}

theorem Handle.SameFields.refl (s : Handle) : s.SameFields s := rfl

instance : Std.Refl Handle.SameFields := ⟨Handle.SameFields.refl⟩

instance : IsTrans Handle Handle.SameFields := ⟨fun _ _ _ first second => first.trans second⟩

theorem same_of_grows {α : Type} {m : Action Handle α} (grows : Steps Handle.Grown m) : Steps Handle.SameFields m :=
  fun s => (grows s).1

theorem same_vhdTruncate (size : Nat) : Steps Handle.SameFields (vhdTruncate size) := by
  intro s
  unfold vhdTruncate
  dsimp only
  cases s.faults.head?.join with
  | some fault => rfl
  | none => rfl

theorem same_vhdWriteFooter : Steps Handle.SameFields vhdWriteFooter := by
  have copy : ∀ off, Steps Handle.SameFields (vhdWriteFooterAt off) := by
    intro off
    unfold vhdWriteFooterAt
    exact .bind .get fun s => .ite (.fail _) (same_of_grows (grows_vhdWrite _ _ _))
  unfold vhdWriteFooter footerOffset
  refine .bind (.bind .get fun s => .ite (.pure _) (same_of_grows grows_endOfData)) fun off => ?_
  refine .bind (copy off) fun _ => .bind .get fun s => ?_
  exact .bind (.when (same_vhdTruncate _)) fun _ => .when (copy 0)

theorem same_vhdIoWrite (sec secs : Nat) (buf : Nat → UInt8) : Steps Handle.SameFields (vhdIoWrite sec secs buf) := by
  have tables : Steps Handle.SameFields loadTables := by
    unfold loadTables
    refine .bind (same_of_grows grows_vhdGetBat) fun _ => .bind .get fun s => ?_
    exact .when (.bind (same_of_grows grows_vhdGetBatmap) fun _ => .pure _)
  have result : ∀ first second, Steps Handle.SameFields (writeResult first second) := by
    intro first second
    rcases first with code | _
    · exact .fail code
    · rcases second with code | _
      · exact .fail code
      · exact .pure ()
  unfold vhdIoWrite dynamicWrite
  refine .bind .get fun s => .ite (.fail _) (.ite (same_of_grows (grows_vhdWrite _ _ _)) ?_)
  refine .bind tables fun _ => .bind (same_of_grows (grows_writeLoop _ _ _ _)) fun loop => ?_
  exact .bind same_vhdWriteFooter.attempt fun footer => result loop footer

theorem same_vhdIoRead (below : Below) (sec secs : Nat) : Steps Handle.SameFields (vhdIoRead below sec secs) := by
  unfold vhdIoRead
  refine .bind .get fun s => .ite (.fail _) (.ite (.lift _) (.bind (same_of_grows grows_vhdGetBat) fun _ => ?_))
  refine .bind (same_of_grows grows_loadedBat) fun bat => .ite .undefined (.bind (.lift _) fun dest => .pure _)

end Fields

section Reads
variable {below : Below} {s t : Handle} {sec secs block : Nat} {buf : Nat → UInt8}

theorem dynamicReadAt_eq {vhd : Vhd} {bat : Bat} (read : vhdReadBat vhd = .ok bat) :
    dynamicRead sec secs (below.under vhd) ⟨fun _ => false, fun _ => 0⟩ = dynamicReadAt below vhd bat sec secs := by
  unfold dynamicReadAt
  cases below <;> simp only [Below.under, dynamicRead, readLayer, read, Outcome.ok_bind]
  cases readLink vhd bat (secs + 1) sec secs 0 ⟨fun _ => false, fun _ => 0⟩ <;> rfl

theorem works_vhdIoRead (sound : s.Sound) (read : Libvhd.vhdIoRead (below.under s.toVhd) sec secs = .ok buf) :
    wp (vhdIoRead below sec secs) (fun buf' t => buf' = buf ∧ s.Loads t) (fun _ _ => False) s := by
  unfold Libvhd.vhdIoRead at read
  rw [Below.under_top] at read
  dsimp only at read
  split at read
  case isTrue => cases read
  rename_i inDisk
  rw [if_neg (by simp [sound.laid.dynamic])] at read
  obtain ⟨bat, table, read⟩ := Outcome.bind_eq_ok.mp read
  split at read
  case isTrue => cases read
  rename_i fits
  obtain ⟨dest, found, read⟩ := Outcome.bind_eq_ok.mp read
  cases read
  have same := vhdReadBat_eq table
  rw [dynamicReadAt_eq table] at found
  unfold vhdIoRead
  simp only [wp_bind, wp_get]
  rw [if_neg inDisk, if_neg (by simp [sound.laid.dynamic])]
  simp only [wp_bind]
  apply ((works_getBat sound.laid).and (wp_getBat sound.laid)).mono
  · rintro _ t ⟨-, loads, loaded, -⟩
    rw [wp_loadedBat loaded, sound.table, ← same, if_neg fits]
    simp only [wp_bind, found, wp_lift_ok, wp_pure]
    exact ⟨trivial, loads⟩
  · exact fun _ _ h => h.1

theorem layerOk_block {vhd : Vhd} (valid : vhd.Valid) (dynamic : vhd.typeDynamic = true)
    (loaded : block < vhd.batEntries) (inDisk : (block * vhd.spb + vhd.spb) * 512 ≤ vhd.currSize)
    (missing : Nat → Prop) : vhd.LayerOk (block * vhd.spb) vhd.spb missing := by
  have positive := valid.spb_pos
  have start : block * vhd.spb % vhd.spb = 0 := Nat.mul_mod_left ..
  have inBlock : ∀ sector, block * vhd.spb ≤ sector → sector < block * vhd.spb + vhd.spb →
      (vhd.slot sector < vhd.batEntries ∧ vhd.lookup sector = vhd.entry (sector / vhd.spb)) ∧
        (vhd.finds sector ↔ vhd.holds sector) := by
    intro sector low high
    have here : sector / vhd.spb = block := by
      rw [Nat.div_eq_iff positive]
      omega
    exact finds_iff_holds dynamic valid (here ▸ loaded) ((Nat.mul_lt_mul_of_pos_right high (by decide)).trans_le inDisk)
  have near : ∀ sector, ¬ vhd.passedOver (block * vhd.spb) sector := by
    intro sector passed
    have nearer := passed.2.1
    rw [start] at nearer
    exact Nat.not_lt_zero _ nearer
  have readable : ∀ sector, block * vhd.spb ≤ sector → sector < block * vhd.spb + vhd.spb → vhd.readable sector := by
    intro sector low high
    have slot := (inBlock sector low high).1.1
    exact ⟨slot.trans_le table_len, .inr slot⟩
  refine ⟨⟨readable _ (Nat.le_refl _) (Nat.lt_add_of_pos_right positive), fun sector low high _ =>
    readable sector low high⟩, fun nr small _ => ?_⟩
  have finds := (inBlock (block * vhd.spb + nr) (Nat.le_add_right _ _) (Nat.add_lt_add_left small _)).2
  exact ⟨fun copied => finds.mp copied.2, fun held => ⟨near _, finds.mpr held⟩⟩

theorem readOk_same (valid : t.toVhd.Valid) (dynamic : t.typeDynamic = true) (fields : s.SameFields t)
    (loaded : block < s.batEntries) (inDisk : (block * s.spb + s.spb) * 512 ≤ s.currSize)
    (same : ∀ nr < s.spb, t.holds (block * s.spb + nr) ↔ s.holds (block * s.spb + nr))
    (ok : (below.under s.toVhd).SectorReadOk (block * s.spb) s.spb) :
    (below.under t.toVhd).SectorReadOk (block * s.spb) s.spb := by
  have spb : t.spb = s.spb := by rw [fields]; rfl
  have dynamic' : s.typeDynamic = true := by rw [← dynamic, fields]; rfl
  have layer : t.LayerOk (block * s.spb) s.spb fun _ => True := by
    rw [← spb]
    apply layerOk_block valid dynamic
    · rw [fields]
      exact loaded
    · rw [fields]
      exact inDisk
  have rest : ∀ nr < s.spb, s.remaining (block * s.spb) (fun _ => True) nr ↔
      t.remaining (block * s.spb) (fun _ => True) nr :=
    fun nr small => and_congr_right fun _ => not_congr (same nr small).symm
  have complete : Complete s.spb (s.remaining (block * s.spb) fun _ => True) →
      Complete s.spb (t.remaining (block * s.spb) fun _ => True) :=
    fun all nr small lost => all nr small ((rest nr small).mpr lost)
  unfold Chain.SectorReadOk at ok ⊢
  rw [Below.under_top] at ok ⊢
  intro _
  obtain ⟨map, ok⟩ := ok dynamic'
  refine ⟨map, ?_⟩
  cases below with
  | nothing => exact ⟨dynamic, layer⟩
  | raw file => exact ⟨layer, ok.2.imp_left complete⟩
  | layer parent => exact ⟨layer, ok.2.imp complete fun below => below.congr rest⟩

end Reads

structure Progress (below : Below) (s : Handle) (bound n : Nat) (t : Handle) : Prop where
  sound : t.Sound
  clear : t.Clear
  allows : t.Allows (List.range s.maxBatSize) bound
  footer : ∀ block, t.allocated block → (t.entry block + t.bmSecs + t.spb) * 512 + 512 ≤ t.file.size
  fields : s.SameFields t
  content : ∀ sector o, o < 512 → t.content sector o =
    if sector < n * s.spb then some ((below.under s.toVhd).byte sector o) else s.content sector o

section Runs
variable {below : Below} {s t u : Handle} {bound n : Nat}

theorem Progress.loads (progress : Progress below s bound n t) (loads : t.Loads u) : Progress below s bound n u := by
  have file : u.file = t.file := by rw [loads.fields]
  have kept := loads.keeps progress.sound.toSoundDisk progress.allows.room
  refine ⟨loads.sound progress.sound, loads.clear progress.clear, kept.allows progress.allows fun _ =>
    file ▸ Nat.le_refl _, ?_, progress.fields.trans kept.fields, fun sector o small => ?_⟩
  · rw [loads.context]
    exact progress.footer
  · rw [kept.content sector o small]
    exact progress.content sector o small

theorem Progress.shows (progress : Progress below s bound n t) {sector o : Nat} (small : o < 512) :
    (below.under t.toVhd).byte sector o = (below.under s.toVhd).byte sector o := by
  rw [Below.under_byte, progress.content sector o small]
  split
  · rfl
  · rw [Below.under_byte]

theorem content_isSome {vhd : Vhd} {sector o : Nat} : (vhd.content sector o).isSome = true ↔ vhd.holds sector := by
  unfold Vhd.content
  split
  · simpa
  · simpa

theorem blocksOf_block {vhd : Vhd} (positive : 0 < vhd.spb) : vhd.blocksOf (n * vhd.spb) vhd.spb = [n] := by
  have first : n * vhd.spb / vhd.spb = n := Nat.mul_div_cancel _ positive
  have last : (n * vhd.spb + (vhd.spb - 1)) / vhd.spb = n := by
    rw [Nat.div_eq_iff positive]
    omega
  unfold Vhd.blocksOf
  rw [first, last, Nat.add_sub_cancel_left]
  rfl

theorem Fillable.inDisk (fillable : Fillable below s) (size : ∃ k, 9 ≤ k ∧ k < 32 ∧ s.blockSize = 2 ^ k)
    (more : n < s.maxBatSize) : (n * s.spb + s.spb) * 512 ≤ s.currSize := by
  refine Nat.le_trans ?_ fillable.whole
  rw [← Vhd.spb_mul size, ← Nat.mul_assoc, ← Nat.succ_mul]
  exact Nat.mul_le_mul_right 512 (Nat.mul_le_mul_right _ more)

theorem Progress.written {buf : Nat → UInt8} (progress : Progress below s bound n t)
    (written : t.Written (List.range s.maxBatSize) bound (n * s.spb) s.spb buf u) (clear : u.Clear)
    (shown : ∀ nr < s.spb, ∀ o < 512, buf (nr * 512 + o) = (below.under s.toVhd).byte (n * s.spb + nr) o) :
    Progress below s bound (n + 1) u := by
  refine ⟨written.sound, clear, written.allows, fun block allocated => ?_, progress.fields.trans written.fields,
    fun sector o small => ?_⟩
  · have last := Nat.mul_le_mul_right 512 (written.allows.room.extents block allocated)
    exact (Nat.add_le_add_right last 512).trans written.footed
  · rw [written.wrote sector o small, progress.content sector o small, Nat.succ_mul]
    by_cases before : sector < n * s.spb
    · rw [if_neg (by omega), if_pos before, if_pos (by omega)]
    · rw [if_neg before]
      by_cases inBlock : sector < n * s.spb + s.spb
      · have place : n * s.spb + (sector - n * s.spb) = sector := by omega
        rw [if_pos ⟨Nat.not_lt.mp before, inBlock⟩, if_pos inBlock, shown _ (by omega) o small, place]
      · rw [if_neg (fun inside => inBlock inside.2), if_neg inBlock]

theorem works_block (fillable : Fillable below s) (parents : below.Valid s.type) (progress : Progress below s bound n t)
    (more : n < s.maxBatSize) :
    wp (vhdIoRead below (n * s.spb) s.spb)
      (fun buf u => wp (vhdIoWrite (n * s.spb) s.spb buf) (fun _ w => Progress below s bound (n + 1) w)
        (fun _ _ => False) u) (fun _ _ => False) t := by
  have laid := progress.sound.laid
  have valid := laid.vhd progress.footer
  have spb : t.spb = s.spb := by rw [progress.fields]; rfl
  have size : ∃ k, 9 ≤ k ∧ k < 32 ∧ s.blockSize = 2 ^ k := by
    have size := laid.blockSize
    rwa [progress.fields] at size
  have parents' : below.Valid t.type := by
    rw [progress.fields]
    exact parents
  have inDisk := fillable.inDisk size more
  have inDisk' : (n * s.spb + s.spb) * 512 ≤ t.currSize := by
    rw [progress.fields]
    exact inDisk
  have positive : 0 < s.spb := Vhd.spb_pos size
  have loaded := fillable.allows.fits.loaded n (List.mem_range.mpr more)
  have same : ∀ nr < s.spb, t.holds (n * s.spb + nr) ↔ s.holds (n * s.spb + nr) := by
    intro nr _
    have content := progress.content (n * s.spb + nr) 0 (by decide)
    rw [if_neg (Nat.not_lt.mpr (Nat.le_add_right _ _))] at content
    rw [← content_isSome (o := 0), ← content_isSome (o := 0), content]
  have ok := readOk_same valid laid.dynamic progress.fields loaded inDisk same (fillable.reads n more)
  obtain ⟨buf, read, shown⟩ := shows_of_readOk (below.under_valid laid.dynamic valid parents')
    (by rw [Below.under_top]; exact inDisk') ok
  apply (works_vhdIoRead progress.sound read).imp
  rintro _ u ⟨rfl, loads⟩
  have progress' := progress.loads loads
  have size' : u.currSize = t.currSize := by rw [loads.fields]
  have blocks : ∀ block ∈ u.blocksOf (n * s.spb) s.spb, block ∈ List.range s.maxBatSize := by
    have spb' : u.spb = s.spb := by rw [progress'.fields]; rfl
    have single : u.blocksOf (n * u.spb) u.spb = [n] := blocksOf_block (by rw [spb']; exact positive)
    rw [spb'] at single
    rw [single]
    intro block member
    rw [List.mem_singleton.mp member]
    exact List.mem_range.mpr more
  have inDisk'' : (n * s.spb + s.spb) * 512 ≤ u.currSize := size' ▸ inDisk'
  unfold vhdIoWrite
  simp only [wp_bind, wp_get]
  rw [if_neg (Nat.not_lt.mpr inDisk''), if_neg (by simp [progress'.sound.laid.dynamic])]
  apply (works_dynamicWrite progress'.sound progress'.clear progress'.allows positive blocks inDisk'').imp
  rintro _ w ⟨written, clear⟩
  refine progress'.written written clear fun nr small o inSector => ?_
  rw [shown nr small o inSector, progress.shows inSector]

theorem works_fill (fillable : Fillable below s) (parents : below.Valid s.type) (left : Nat)
    (progress : Progress below s bound n t) (all : n + left = s.maxBatSize) :
    wp (fill below s.spb left (n * s.spb)) (fun _ u => Progress below s bound s.maxBatSize u) (fun _ _ => False) t := by
  induction left generalizing n t with
  | zero =>
      rw [Nat.add_zero] at all
      rw [all] at progress
      exact progress
  | succ left ih =>
      unfold fill
      simp only [wp_bind]
      apply (works_block fillable parents progress (by omega)).imp
      intro buf u run
      apply run.imp
      intro _ w progress'
      have next := ih progress' (by omega)
      rwa [Nat.succ_mul] at next

theorem fills_of_fillable (valid : s.Valid) (dynamic : s.typeDynamic = true) (parents : below.Valid s.type)
    (clear : s.Clear) (covers : s.currSize ≤ s.maxBatSize * s.blockSize) (fillable : Fillable below s) :
    Fills below s := by
  have sound := valid.sound dynamic
  have start : Progress below s (s.endAfter (List.range s.maxBatSize) s.dataEnd) 0 s := by
    refine ⟨sound, clear, fillable.allows, valid.footer dynamic, Handle.SameFields.refl s, fun sector o _ => ?_⟩
    rw [Nat.zero_mul, if_neg (Nat.not_lt_zero _)]
  have run : wp (vhdUtilFill below)
      (fun _ u => Progress below s (s.endAfter (List.range s.maxBatSize) s.dataEnd) s.maxBatSize u)
      (fun _ _ => False) s := by
    unfold vhdUtilFill
    simp only [wp_bind, wp_get]
    apply ((works_getBat sound.laid).and (wp_getBat sound.laid)).mono
    · rintro _ t ⟨-, loads, -⟩
      have spb : t.spb = s.spb := by rw [loads.fields]
      have max : t.maxBatSize = s.maxBatSize := by rw [loads.fields]
      rw [spb, max]
      have run := works_fill fillable parents s.maxBatSize (start.loads loads) (Nat.zero_add _)
      rwa [Nat.zero_mul] at run
    · exact fun _ _ h => h.1
  unfold wp at run
  rcases action : vhdUtilFill below s with ⟨_ | _ | _, t⟩
  · rw [action] at run
    have progress : Progress below s _ s.maxBatSize t := run
    refine ⟨t, action, fun sector o small => progress.shows small, fun block inDisk => ?_⟩
    have laid := progress.sound.laid
    have whole := Vhd.spb_mul sound.laid.blockSize
    have more : block < s.maxBatSize := Nat.lt_of_mul_lt_mul_right (inDisk.trans_le covers)
    have spb : t.spb = s.spb := by rw [progress.fields]; rfl
    have positive : 0 < s.spb := Vhd.spb_pos sound.laid.blockSize
    have held : ∀ nr < s.spb, t.holds (block * s.spb + nr) := by
      intro nr small
      rw [← content_isSome (o := 0), progress.content _ 0 (by decide), if_pos]
      · rfl
      · refine (Nat.add_lt_add_left small _).trans_le ?_
        rw [← Nat.succ_mul]
        exact Nat.mul_le_mul_right _ more
    have place : ∀ nr < s.spb, (block * s.spb + nr) / s.spb = block ∧ (block * s.spb + nr) % s.spb = nr := by
      intro nr small
      rw [Nat.mul_comm, Nat.mul_add_div positive, Nat.div_eq_of_lt small, Nat.mul_add_mod, Nat.mod_eq_of_lt small]
      exact ⟨rfl, rfl⟩
    have marked : ∀ nr < s.spb, t.allocated block ∧ t.marks (t.entry block) nr = true := by
      intro nr small
      have held := (held nr small).2 laid.dynamic
      rw [spb, (place nr small).1, (place nr small).2] at held
      exact held
    refine ⟨(marked 0 positive).1, fun nr small => (marked nr (spb ▸ small)).2⟩
  · rw [action] at run
    exact run.elim
  · rw [action] at run
    exact run.elim

end Runs

section Size
variable {below : Below} {s t : Handle} {sec secs left : Nat}

theorem fill_inDisk (action : fill below secs left sec s = (.ok (), t)) (more : 0 < left) :
    (sec + left * secs) * 512 ≤ s.currSize := by
  induction left generalizing s sec with
  | zero => exact absurd more (Nat.lt_irrefl 0)
  | succ left ih =>
      unfold fill at action
      obtain ⟨buf, u, read, action⟩ := bind_ok.mp action
      obtain ⟨_, w, write, action⟩ := bind_ok.mp action
      have inDisk : (sec + secs) * 512 ≤ s.currSize := by
        unfold vhdIoRead at read
        rw [get_bind] at read
        by_contra out
        rw [if_pos (Nat.lt_of_not_le out)] at read
        cases read
      have first := same_vhdIoRead below sec secs s
      have second := same_vhdIoWrite sec secs buf u
      rw [read] at first
      rw [write] at second
      have fields : s.SameFields w := Handle.SameFields.trans first second
      have size : w.currSize = s.currSize := by rw [fields]
      rw [Nat.succ_mul, Nat.add_comm (left * secs), ← Nat.add_assoc]
      rcases Nat.eq_zero_or_pos left with rfl | more
      · rw [Nat.zero_mul]
        exact inDisk
      · rw [← size]
        exact ih action more

theorem whole_of_fills (valid : s.Valid) (dynamic : s.typeDynamic = true) (fills : Fills below s) :
    s.maxBatSize * s.blockSize ≤ s.currSize := by
  obtain ⟨t, action, -⟩ := fills
  unfold vhdUtilFill at action
  obtain ⟨_, u, table, action⟩ := bind_ok.mp action
  rw [get_bind] at action
  have fields := same_of_grows grows_vhdGetBat s
  rw [table] at fields
  have spb : u.spb = s.spb := by rw [show u = _ from fields]; rfl
  have max : u.maxBatSize = s.maxBatSize := by rw [show u = _ from fields]
  have size : u.currSize = s.currSize := by rw [show u = _ from fields]
  rcases Nat.eq_zero_or_pos s.maxBatSize with none | some
  · rw [none, Nat.zero_mul]
    exact Nat.zero_le _
  · have inDisk := fill_inDisk action (max.symm ▸ some)
    rw [Nat.zero_add, spb, max, size, Nat.mul_assoc, Vhd.spb_mul (valid.sound dynamic).laid.blockSize] at inDisk
    exact inDisk

end Size

/-- An image whose table has entries for the whole disk is filled if its blocks are whole blocks of the disk that may be
written and read, and only if they are whole blocks of the disk. -/
theorem vhdUtilFill_fills {below : Below} {s : Handle} (valid : s.Valid) (dynamic : s.typeDynamic = true)
    (parents : below.Valid s.type) (clear : s.Clear) (covers : s.currSize ≤ s.maxBatSize * s.blockSize) :
    (Fillable below s → Fills below s) ∧ (Fills below s → s.maxBatSize * s.blockSize ≤ s.currSize) :=
  ⟨fills_of_fillable valid dynamic parents clear covers, whole_of_fills valid dynamic⟩

section HalfOpen
variable {currSize : Nat}

theorem halfOpen_clear : (halfOpen .dynamic currSize).Clear := by
  refine ⟨rfl, .inl (by decide : cookieIn (halfOpen .dynamic 0).footer = footerCookie), fun has => ?_⟩
  rw [hasBatmap_unlooked halfOpen_blind] at has
  cases has

theorem halfOpen_parents : Below.nothing.Valid (halfOpen .dynamic currSize).type := by
  intro type
  cases type

theorem halfOpen_allows : (halfOpen .dynamic (2 * 2 ^ 21)).Allows (List.range 2)
    ((halfOpen .dynamic (2 * 2 ^ 21)).endAfter (List.range 2) (halfOpen .dynamic (2 * 2 ^ 21)).dataEnd) := by
  have ends : (halfOpen .dynamic (2 * 2 ^ 21)).endAfter (List.range 2) (halfOpen .dynamic (2 * 2 ^ 21)).dataEnd <
      ddBlkUnused := by decide +kernel
  refine ⟨⟨fun block allocated => ?_, fun looks => by cases looks⟩,
    ⟨List.nodup_range, by decide +kernel, fun _ _ has => ?_, Nat.le_refl _, fun _ _ _ => ?_⟩,
    fun device => by cases device⟩
  · rw [(halfOpen_allocated allocated).2]
    decide +kernel
  · rw [hasBatmap_unlooked halfOpen_blind] at has
    cases has
  · exact ends.trans_le ((Nat.le_add_right _ _).trans (Nat.le_add_right _ _))

theorem halfOpen_fillable : Fillable .nothing (halfOpen .dynamic (2 * 2 ^ 21)) := by
  refine ⟨by decide, halfOpen_allows, fun block small _ => ⟨by decide +kernel, by decide, ?_⟩⟩
  have valid := (halfOpen_valid (by decide) (by decide) : (halfOpen .dynamic (2 * 2 ^ 21)).Valid)
  apply layerOk_block (valid.vhd (by decide)) (by decide)
  · exact Nat.lt_of_lt_of_le small (by decide +kernel)
  · have last : block * (halfOpen .dynamic (2 * 2 ^ 21)).spb ≤ 1 * (halfOpen .dynamic (2 * 2 ^ 21)).spb :=
      Nat.mul_le_mul_right _ (Nat.le_of_lt_succ small)
    refine (Nat.mul_le_mul_right 512 (Nat.add_le_add_right last _)).trans ?_
    decide +kernel

end HalfOpen

theorem halfOpen_fills : Fills .nothing (halfOpen .dynamic (2 * 2 ^ 21)) :=
  (vhdUtilFill_fills (halfOpen_valid (by decide) (by decide)) (by decide) halfOpen_parents halfOpen_clear
    (by decide)).1 halfOpen_fillable

theorem halfOpen_partial : ∃ s : Handle, s.Valid ∧ s.typeDynamic = true ∧ Below.nothing.Valid s.type ∧ s.Clear ∧
    s.currSize ≤ s.maxBatSize * s.blockSize ∧ ¬ Fills .nothing s := by
  have valid : (halfOpen .dynamic (2 ^ 21 + 512)).Valid := halfOpen_valid (by decide) (by decide)
  refine ⟨halfOpen .dynamic (2 ^ 21 + 512), valid, by decide, halfOpen_parents, halfOpen_clear, by decide,
    fun fills => ?_⟩
  exact absurd (whole_of_fills valid (by decide) fills) (by decide)

end Blktap.Libvhd.Fill
