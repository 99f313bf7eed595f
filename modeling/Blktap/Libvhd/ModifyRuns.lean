import Blktap.Libvhd.Modify

/-! # Runs of a killing -/

namespace Blktap.Libvhd
open Lib Action

def Context.diskMap (ctx : Context) : Batmap where
  header := ctx.batmapHeader
  mapBytes := ctx.batmapBytes
  map := fun i => ctx.file.byte (ctx.batmapHeader.batmapOffset + i)

theorem vhdReadBatmap_eq {ctx : Context} (has : ctx.hasBatmap = true)
    (header : ctx.batmapHeaderOffset + 512 ≤ ctx.file.size) (valid : ctx.batmapHeader.valid = true)
    (size : ctx.batmapBytes ≤ ctx.batmapHeader.batmapSize * 512)
    (fits : ctx.batmapHeader.batmapOffset + ctx.batmapBytes ≤ ctx.file.size) :
    vhdReadBatmap ctx = if ctx.validBatmap ctx.diskMap then .ok ctx.diskMap else .error (-einval) := by
  unfold vhdReadBatmap
  rw [if_neg (by simp [has]), vhdReadBatmapHeader_ok header, Outcome.ok_bind, if_neg (by simp [valid]),
    if_neg (Nat.not_lt.mpr size), File.read_ok fits, Outcome.ok_bind]
  by_cases same : ctx.validBatmap ctx.diskMap = true
  · rw [if_pos same]
    exact if_neg (not_not.mpr (beq_iff_eq.mp same))
  · rw [if_neg same]
    exact if_pos fun equal => same (beq_iff_eq.mpr equal)

theorem wp_of_ok {σ α : Type} {m : Action σ α} {s t : σ} {a : α} {post : α → σ → Prop} {stop : Int → σ → Prop}
    (returns : m s = (.ok a, t)) : wp m post stop s ↔ post a t := by
  unfold wp
  rw [returns]

namespace Modify

def along (s : Handle) (n : Nat) (file : File) (bat : Option Bat) (batmap : Option Batmap) : Handle :=
  { s with oldBitmap_eq := s.bitmap_eq, faults := s.faults.drop n, file, bat, batmap }

section Along
variable {s : Handle} {n off size : Nat} {file : File} {bat : Option Bat} {batmap : Option Batmap}
  {data : Nat → UInt8} {post : Unit → Handle → Prop} {stop : Int → Handle → Prop}

theorem along_isBlock : (along s n file bat batmap).isBlock = s.isBlock := rfl

theorem along_typeDynamic : (along s n file bat batmap).typeDynamic = s.typeDynamic := rfl

theorem along_footer : (along s n file bat batmap).footer = s.footer := rfl

theorem along_failed : Failed s (along s n file bat batmap) ↔ ∃ i < n, fault s i ≠ none := by
  have length : (along s n file bat batmap).faults.length = s.faults.length - n := List.length_drop
  unfold Failed
  rw [length]
  constructor
  · rintro ⟨i, small, fails⟩
    exact ⟨i, by omega, fails⟩
  · rintro ⟨i, small, fails⟩
    refine ⟨i, ?_, fails⟩
    have inside : i < s.faults.length := by
      by_contra beyond
      apply fails
      unfold fault
      rw [List.drop_of_length_le (Nat.le_of_not_lt beyond)]
      rfl
    omega

theorem wp_vhdWrite_along (inside : s.isBlock = true → off + size ≤ file.size) :
    wp (vhdWrite off size data) post stop (along s n file bat batmap) ↔
      match fault s n with
      | some fault =>
          stop fault.code (along s (n + 1) (file.put off (min size (fault.secs * 512)) data) bat batmap)
      | none => post () (along s (n + 1) (file.put off size data) bat batmap) := by
  have room : (along s n file bat batmap).roomFor off size = size := by
    unfold Handle.roomFor
    split
    · rename_i isBlock
      have fits := inside isBlock
      change min size (file.size - off) = size
      omega
    · rfl
  have tail : (along s n file bat batmap).faults.tail = s.faults.drop (n + 1) := List.tail_drop
  have head : (along s n file bat batmap).faults.head?.join = fault s n := rfl
  unfold wp vhdWrite
  dsimp only
  rw [room, tail, head]
  cases fault s n with
  | some fault => rfl
  | none =>
      rw [if_neg (Nat.lt_irrefl _)]
      rfl

theorem wp_vhdTruncate_along :
    wp (vhdTruncate size) post stop (along s n file bat batmap) ↔
      match fault s n with
      | some fault => stop fault.code (along s (n + 1) file bat batmap)
      | none => post () (along s (n + 1) (file.truncate size) bat batmap) := by
  have tail : (along s n file bat batmap).faults.tail = s.faults.drop (n + 1) := List.tail_drop
  have head : (along s n file bat batmap).faults.head?.join = fault s n := rfl
  unfold wp vhdTruncate
  dsimp only
  rw [tail, head]
  cases fault s n with
  | some fault => rfl
  | none => rfl

end Along

section Table
variable {s : Handle} {post : Unit → Handle → Prop} {stop : Int → Handle → Prop}

theorem Fresh.getBat (fresh : Fresh s) : vhdGetBat s = (.ok (), { s with bat := some s.toVhd.table }) := by
  have laid := fresh.intact.laid
  have room := fresh.intact.room
  have behind := fresh.headers_behind
  have loaded := laid.loaded_le
  have start : s.tableOffset + vhdBytesPadded (s.maxBatSize * 4) = s.batmapHeaderOffset := rfl
  have read : vhdReadBat s.toVhd = .ok s.toVhd.table :=
    vhdReadBat_within laid.covers (by omega) laid.dynamic
  unfold vhdGetBat
  rw [get_bind, if_neg (by simp [fresh.bat]), read, lift_ok_bind]
  rfl

theorem Fresh.validBatmap (fresh : Fresh s) (has : s.hasBatmap = true) : s.validBatmap s.diskMap = true :=
  beq_iff_eq.mpr (fresh.intact.map has).sum

theorem Fresh.getBatmap (fresh : Fresh s) (has : s.hasBatmap = true) (bat : Option Bat) :
    vhdGetBatmap { s with bat } = (.ok s.diskMap, { s with bat, batmap := some s.diskMap }) := by
  have readable := fresh.intact.map has
  have read := vhdReadBatmap_eq has readable.header readable.valid readable.size readable.fits
  rw [if_pos (fresh.validBatmap has)] at read
  unfold vhdGetBatmap
  rw [get_bind, if_neg (by simp [has])]
  dsimp only
  rw [fresh.batmap, Option.filter_none]
  dsimp only
  rw [modify_bind]
  rw [read, lift_ok_bind]
  rfl

def memory (s : Handle) : Option Batmap := if s.hasBatmap then some s.diskMap else none

theorem Fresh.wp_zeroBat (fresh : Fresh s) :
    wp vhdUtilZeroBat post stop s ↔ wp vhdWriteBat (fun _ t => wp clearBatmap post stop t) stop
      (along s 0 s.file (some s.toVhd.table.erased) (memory s)) := by
  unfold vhdUtilZeroBat memory when
  rw [wp_bind, wp_of_ok fresh.getBat, wp_bind, wp_get, wp_bind]
  by_cases has : s.hasBatmap = true
  · rw [if_pos has, if_pos has, wp_bind, wp_of_ok (fresh.getBatmap has _), wp_pure, wp_bind, wp_modify, wp_bind]
    rfl
  · rw [if_neg has, if_neg has, wp_pure, wp_bind, wp_modify, wp_bind, ← fresh.batmap]
    rfl

end Table

section Map
variable {s : Handle} {erased sum : Nat} {file : File} {bat : Option Bat} {post : Unit → Handle → Prop}
  {stop : Int → Handle → Prop}

def clearedMap (s : Handle) : Batmap := s.diskMap.cleared (mapBytes s.toVhd)

def mapWrites (s : Handle) : Nat := if fault s 1 = none then 3 else 2

theorem Fresh.wp_clearBatmap (fresh : Fresh s) :
    wp clearBatmap post stop (along s 1 file bat (memory s)) ↔
      (s.hasBatmap = true ∧ mapBytes s.toVhd ≤ s.batmapBytes) ∧
        wp (vhdWriteBatmap (clearedMap s)) post stop (along s 1 file bat (some (clearedMap s))) := by
  have spb : s.spb ≠ 0 := Nat.ne_of_gt (Vhd.spb_pos fresh.intact.laid.blockSize)
  unfold clearBatmap memory
  rw [wp_bind, wp_get, if_neg (show ¬ (along s 1 file bat _).spb = 0 from spb)]
  cases has : s.hasBatmap with
  | false => exact iff_of_false id fun h => absurd h.1.1 (by simp)
  | true =>
      change wp (if s.batmapBytes < mapBytes s.toVhd then undefined else _) post stop _ ↔ _
      by_cases long : s.batmapBytes < mapBytes s.toVhd
      · rw [if_pos long]
        exact iff_of_false id fun h => absurd h.1.2 (by omega)
      · rw [if_neg long, wp_bind, wp_modify]
        exact (and_iff_right ⟨rfl, Nat.le_of_not_lt long⟩).symm

theorem sumLeft_lt (s : Handle) (cleared : Nat) : sumLeft s cleared < 2 ^ 32 := checksumBatmap_lt ..

theorem Middle.writeBatmap (middle : Middle s erased 0 s.batmapHeader.checksum file) (fresh : Fresh s)
    (has : s.hasBatmap = true) (fits : mapBytes s.toVhd ≤ s.batmapBytes) :
    ∃ file' sum, Middle s erased (clearedBytes s) sum file' ∧
      (sumLeft s (clearedBytes s) = sum ↔
        Summed s ∨ sumLeft s (clearedBytes s) = s.batmapHeader.checksum) ∧
      ∀ batmap (post : Unit → Handle → Prop) (stop : Int → Handle → Prop),
        wp (vhdWriteBatmap (clearedMap s)) post stop (along s 1 file bat batmap) ↔
          post () (along s (mapWrites s) file' bat batmap) := by
  have laid := fresh.intact.laid
  have size := (laid.map has).2.1
  have ends := Context.batmap_le_headers has
  have room := middle.room
  have has' : (s.toContext.withFile file).hasBatmap = true := (middle.hasBatmap laid).trans has
  have start : ∀ batmap (post : Unit → Handle → Prop) (stop : Int → Handle → Prop),
      wp (vhdWriteBatmap (clearedMap s)) post stop (along s 1 file bat batmap) ↔
        match fault s 1 with
        | some fault => post () (along s 2 (file.put s.batmapHeader.batmapOffset
            (min s.batmapBytes (fault.secs * 512)) (mapLeft s (mapBytes s.toVhd))) bat batmap)
        | none => wp (vhdWrite s.batmapHeaderOffset 512
            (s.batmapHeader.withSum (sumLeft s (mapBytes s.toVhd))).bytes) post (fun _ t => post () t)
            (along s 2 (file.put s.batmapHeader.batmapOffset s.batmapBytes (mapLeft s (mapBytes s.toVhd))) bat
              batmap) := by
    intro batmap post stop
    unfold vhdWriteBatmap writeBatmapSectors
    simp only [wp_bind, wp_attempt, wp_get, wp_pure]
    rw [if_neg (show ¬ (!(along s 1 file bat batmap).hasBatmap) = true by
        rw [show (along s 1 file bat batmap).hasBatmap = true from has']; decide),
      if_neg (show ¬ (clearedMap s).header.batmapSize * 512 < (along s 1 file bat batmap).batmapBytes from
        Nat.not_lt.mpr size), wp_bind]
    refine (wp_vhdWrite_along fun _ => ?_).trans ?_
    · change s.batmapHeader.batmapOffset + s.batmapBytes ≤ file.size
      omega
    · cases fault s 1 with
      | some fault => rfl
      | none => rfl
  unfold clearedBytes mapWrites Summed
  -- `vhd_write_batmap` drops both errors; what gets to the disk of its two writes decides which sum is left there
  cases first : fault s 1 with
  | some fault1 =>
      have middle' := middle.put_map fresh has (m := mapBytes s.toVhd) (n := min s.batmapBytes (fault1.secs * 512))
        (Nat.min_le_left _ _)
      rw [show min (mapBytes s.toVhd) (min s.batmapBytes (fault1.secs * 512)) =
        min (mapBytes s.toVhd) (fault1.secs * 512) by omega] at middle'
      refine ⟨_, _, middle', ?_, fun batmap post stop => ?_⟩
      · simp
      · rw [start, first]
        rfl
  | none =>
      have middle' := middle.put_map fresh has (m := mapBytes s.toVhd) (n := s.batmapBytes) (Nat.le_refl _)
      rw [Nat.min_eq_left fits] at middle'
      have inside : s.isBlock = true → s.batmapHeaderOffset + 512 ≤ (file.put s.batmapHeader.batmapOffset s.batmapBytes
          (mapLeft s (mapBytes s.toVhd))).size := fun _ => middle'.marker laid
      cases second : fault s 2 with
      | some fault2 =>
          rcases Nat.eq_zero_or_pos fault2.secs with nothing | some
          · refine ⟨_, _, middle', ?_, fun batmap post stop => ?_⟩
            · simp [nothing]
            · rw [start, first]
              refine (wp_vhdWrite_along inside).trans ?_
              rw [second]
              dsimp only
              rw [nothing, Nat.zero_mul, Nat.min_zero, File.put_nothing middle'.past]
              rfl
          · refine ⟨_, _, middle'.put_head fresh has (sumLeft_lt s (mapBytes s.toVhd)), ?_, fun batmap post stop => ?_⟩
            · simp [some]
            · rw [start, first]
              refine (wp_vhdWrite_along inside).trans ?_
              rw [second]
              dsimp only
              rw [Nat.min_eq_left (by omega)]
              rfl
      | none =>
          refine ⟨_, _, middle'.put_head fresh has (sumLeft_lt s (mapBytes s.toVhd)), ?_, fun batmap post stop => ?_⟩
          · simp
          · rw [start, first]
            refine (wp_vhdWrite_along inside).trans ?_
            rw [second]
            rfl

end Map

section Tail
variable {s : Handle} {erased cleared sum n : Nat} {file : File} {bat : Option Bat}

theorem Fresh.endOfExtents (fresh : Fresh s) :
    s.endOfExtents s.headers s.toVhd.table.erased * 512 = s.headers := by
  have ends : s.endOfExtents s.headers s.toVhd.table.erased = s.headers / 512 := by
    apply Nat.le_antisymm
    · refine endOfExtents_le.mpr ⟨Nat.le_refl _, fun i loaded used => absurd ?_ used⟩
      exact if_pos loaded
    · exact (endOfExtents_le.mp (Nat.le_refl _)).1
  rw [ends]
  exact Nat.div_mul_cancel fresh.intact.bounds

theorem Stage.wp_getBatmap (stage : Stage s erased cleared sum file) (fresh : Fresh s) (has : s.hasBatmap = true)
    {post : Batmap → Handle → Prop} {stop : Int → Handle → Prop} :
    wp vhdGetBatmap post stop (along s n file bat (some (clearedMap s))) ↔
      if sumLeft s (mapBytes s.toVhd) = s.batmapHeader.checksum then
        post (clearedMap s) (along s n file bat (some (clearedMap s)))
      else if sumLeft s cleared = sum then
        post (s.toContext.withFile file).diskMap (along s n file bat (some (s.toContext.withFile file).diskMap))
      else stop (-einval) (along s n file bat none) := by
  have laid := fresh.intact.laid
  have header := stage.header (Context.looks_of_has has)
  have has' : (s.toContext.withFile file).hasBatmap = true := (stage.hasBatmap laid).trans has
  have readable := fresh.intact.map has
  have ends := Context.batmap_le_headers has
  have room := stage.room
  have size := readable.size
  have valid : s.validBatmap (clearedMap s) = decide (sumLeft s (mapBytes s.toVhd) = s.batmapHeader.checksum) := rfl
  have found : (s.toContext.withFile file).validBatmap (s.toContext.withFile file).diskMap =
      decide (sumLeft s cleared = sum) := by
    unfold Vhd.validBatmap Context.diskMap
    dsimp only
    rw [header]
    have same := @checksum_congr s.toVhd s.batmapHeader.batmapVersion _ _ fun i small => stage.map has i (by omega)
    change (s.checksumBatmap s.batmapHeader.batmapVersion (fun i => file.byte (s.batmapHeader.batmapOffset + i)) ==
      sum) = _
    rw [same]
    rfl
  have read : vhdReadBatmap (s.toContext.withFile file) =
      if sumLeft s cleared = sum then .ok (s.toContext.withFile file).diskMap else .error (-einval) := by
    rw [vhdReadBatmap_eq has' (stage.marker laid) (by rw [header]; exact readable.valid) (by rw [header]; exact size)
      (by rw [header]; change s.batmapHeader.batmapOffset + s.batmapBytes ≤ file.size; omega), found]
    simp only [decide_eq_true_eq]
  unfold vhdGetBatmap
  rw [wp_bind, wp_get, if_neg (by simp [show (along s n file bat (some (clearedMap s))).hasBatmap = true from has'])]
  by_cases inMemory : sumLeft s (mapBytes s.toVhd) = s.batmapHeader.checksum
  · have kept : (along s n file bat (some (clearedMap s))).batmap.filter
        (along s n file bat (some (clearedMap s))).validBatmap = some (clearedMap s) :=
      Option.filter_some_pos (valid.trans (decide_eq_true inMemory))
    rw [if_pos inMemory, kept]
    rfl
  · have dropped : (along s n file bat (some (clearedMap s))).batmap.filter
        (along s n file bat (some (clearedMap s))).validBatmap = none :=
      Option.filter_some_neg (valid.trans (decide_eq_false inMemory))
    rw [if_neg inMemory, dropped]
    dsimp only
    rw [wp_bind, wp_modify, wp_bind]
    change wp (lift (vhdReadBatmap (s.toContext.withFile file))) _ _ _ ↔ _
    rw [read]
    by_cases onDisk : sumLeft s cleared = sum
    · rw [if_pos onDisk, if_pos onDisk]
      rfl
    · rw [if_neg onDisk, if_neg onDisk]
      rfl

theorem Stage.wp_endOfData (stage : Stage s erased cleared sum file) (fresh : Fresh s) (has : s.hasBatmap = true) :
    ∃ batmap, ∀ (post : Nat → Handle → Prop) (stop : Int → Handle → Prop),
      wp endOfData post stop (along s n file (some s.toVhd.table.erased) (some (clearedMap s))) ↔
        if sumLeft s (mapBytes s.toVhd) = s.batmapHeader.checksum ∨ sumLeft s cleared = sum then
          post s.headers (along s n file (some s.toVhd.table.erased) batmap)
        else stop (-einval) (along s n file (some s.toVhd.table.erased) none) := by
  have laid := fresh.intact.laid
  have header := stage.header (Context.looks_of_has has)
  have has' : (s.toContext.withFile file).hasBatmap = true := (stage.hasBatmap laid).trans has
  have headers : ∀ checksum, s.headersEnd (some (s.batmapHeader.withSum checksum)) = s.headers := by
    intro checksum
    unfold Context.headers
    rw [if_pos has]
    rfl
  have dynamic : ¬ (!s.typeDynamic) = true := by simp [laid.dynamic]
  have rest : ∀ (found : Batmap) batmap checksum, found.header = s.batmapHeader.withSum checksum →
      ∀ (post : Nat → Handle → Prop) (stop : Int → Handle → Prop),
      wp (pure ((along s n file (some s.toVhd.table.erased) (some (clearedMap s))).headersEnd (some found.header)))
        (fun ends t => wp vhdGetBat (fun _ t => wp loadedBat (fun bat t => wp (pure ((along s n file
          (some s.toVhd.table.erased) (some (clearedMap s))).endOfExtents ends bat * 512)) post stop t) stop t) stop t)
        stop (along s n file (some s.toVhd.table.erased) batmap) ↔
      post s.headers (along s n file (some s.toVhd.table.erased) batmap) := by
    intro found batmap checksum same post stop
    rw [wp_pure, same, show (along s n file _ _).headersEnd (some (s.batmapHeader.withSum checksum)) = s.headers from
      headers checksum]
    change post (s.endOfExtents s.headers s.toVhd.table.erased * 512) _ ↔ _
    rw [fresh.endOfExtents]
  have all : ∀ (post : Nat → Handle → Prop) (stop : Int → Handle → Prop),
      wp endOfData post stop (along s n file (some s.toVhd.table.erased) (some (clearedMap s))) ↔
        if sumLeft s (mapBytes s.toVhd) = s.batmapHeader.checksum then
          post s.headers (along s n file (some s.toVhd.table.erased) (some (clearedMap s)))
        else if sumLeft s cleared = sum then
          post s.headers (along s n file (some s.toVhd.table.erased) (some (s.toContext.withFile file).diskMap))
        else stop (-einval) (along s n file (some s.toVhd.table.erased) none) := by
    intro post stop
    unfold endOfData endOfHeaders
    simp only [wp_bind, wp_get]
    rw [along_typeDynamic, if_neg dynamic, wp_bind]
    simp only [wp_bind, wp_get]
    rw [along_typeDynamic, if_neg dynamic, if_pos (show (along s n file _ _).hasBatmap = true from has'), wp_bind]
    refine (stage.wp_getBatmap fresh has).trans ?_
    split
    · exact rest (clearedMap s) _ s.batmapHeader.checksum rfl post stop
    · split
      · exact rest (s.toContext.withFile file).diskMap _ sum header post stop
      · rfl
  by_cases inMemory : sumLeft s (mapBytes s.toVhd) = s.batmapHeader.checksum
  · refine ⟨some (clearedMap s), fun post stop => (all post stop).trans ?_⟩
    rw [if_pos inMemory, if_pos (.inl inMemory)]
  · refine ⟨some (s.toContext.withFile file).diskMap, fun post stop => (all post stop).trans ?_⟩
    rw [if_neg inMemory]
    simp only [inMemory, false_or]

def footed (s : Handle) (file : File) (size : Nat) : File := file.put s.headers size (sealFooter s.footer)

def copied (s : Handle) (file : File) (size : Nat) : File :=
  ((footed s file 512).truncate (s.headers + 512)).put 0 size (sealFooter s.footer)

theorem Fresh.wp_writeFooterAt (fresh : Fresh s) (regular : s.isBlock = false) (off : Nat) (batmap : Option Batmap)
    {post : Unit → Handle → Prop} {stop : Int → Handle → Prop} :
    wp (vhdWriteFooterAt off) post stop (along s n file bat batmap) ↔
      match fault s n with
      | some fault => stop fault.code
          (along s (n + 1) (file.put off (min 512 (fault.secs * 512)) (sealFooter s.footer)) bat batmap)
      | none => post () (along s (n + 1) (file.put off 512 (sealFooter s.footer)) bat batmap) := by
  have known : ¬ (cookieIn s.footer ≠ footerCookie ∧ cookieIn s.footer ≠ poisonCookie) :=
    fun unknown => unknown.1 fresh.cookie
  unfold vhdWriteFooterAt
  rw [wp_bind, wp_get, along_footer, if_neg known]
  exact wp_vhdWrite_along fun isBlock => absurd isBlock (by simp [regular])

theorem Stage.wp_writeFooter (stage : Stage s erased cleared sum file) (fresh : Fresh s) (has : s.hasBatmap = true)
    (regular : s.isBlock = false) : ∃ batmap, ∀ (post : Unit → Handle → Prop) (stop : Int → Handle → Prop),
      wp vhdWriteFooter post stop (along s n file (some s.toVhd.table.erased) (some (clearedMap s))) ↔
        if sumLeft s (mapBytes s.toVhd) = s.batmapHeader.checksum ∨ sumLeft s cleared = sum then
          match fault s n, fault s (n + 1), fault s (n + 2) with
          | some fault, _, _ => stop fault.code (along s (n + 1) (footed s file (min 512 (fault.secs * 512)))
              (some s.toVhd.table.erased) batmap)
          | none, some fault, _ => stop fault.code (along s (n + 2) (footed s file 512)
              (some s.toVhd.table.erased) batmap)
          | none, none, some fault => stop fault.code (along s (n + 3) (copied s file (min 512 (fault.secs * 512)))
              (some s.toVhd.table.erased) batmap)
          | none, none, none => post () (along s (n + 3) (copied s file 512) (some s.toVhd.table.erased) batmap)
        else stop (-einval) (along s n file (some s.toVhd.table.erased) none) := by
  obtain ⟨batmap, ends⟩ := stage.wp_endOfData (n := n) fresh has
  refine ⟨batmap, fun post stop => ?_⟩
  have block : ¬ s.isBlock = true := by simp [regular]
  unfold vhdWriteFooter footerOffset
  rw [wp_bind, wp_bind, wp_get, along_isBlock, if_neg block]
  refine (ends _ _).trans ?_
  split
  · rw [wp_bind]
    refine (fresh.wp_writeFooterAt regular s.headers batmap).trans ?_
    cases fault s n with
    | some fault => rfl
    | none =>
        dsimp only
        rw [wp_bind, wp_get]
        unfold when
        rw [along_isBlock, if_pos regular, wp_bind]
        refine wp_vhdTruncate_along.trans ?_
        cases fault s (n + 1) with
        | some fault => rfl
        | none =>
            dsimp only
            rw [along_typeDynamic, if_pos fresh.intact.laid.dynamic]
            refine (fresh.wp_writeFooterAt regular 0 batmap).trans ?_
            cases fault s (n + 2) with
            | some fault => rfl
            | none => rfl
  · rfl

end Tail

end Modify

end Blktap.Libvhd
