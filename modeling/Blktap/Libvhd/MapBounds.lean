import Blktap.Libvhd.Create
import Blktap.Libvhd.Growth

/-!
# The bytes of the map of full blocks that are used (`libvhd.c`)

The map has a bit for each block. Its buffer is sized when it is made or read, and the bytes that are written
and summed are counted each time, from a size in blocks that is rounded down to a multiple of eight.
-/

namespace Blktap.Libvhd.MapBounds
open Lib Action

/-- The place in the map that `test_bit`, `set_bit` and `clear_bit` use for the block, an `int`. None is
used for a block past `batmap_size`. -/
def byteUsed (batmap : Batmap) (block : UInt32) : Option Int :=
  if batmap.header.batmapSize * 2 ^ 12 % 2 ^ 32 ≤ block.toNat then none
  else if block.toNat < 2 ^ 31 then some ((block.toNat : Int) / 8)
  else some (((block.toNat : Int) - 2 ^ 32) / 8)

def clearBit (addr : Nat → UInt8) (nr : Nat) : Nat → UInt8 :=
  Function.update addr (nr / 8) (addr (nr / 8) &&& ~~~(0x80 >>> UInt8.ofNat (nr % 8)))

def Batmap.clear (batmap : Batmap) (block : Nat) : Outcome Batmap :=
  if batmap.header.batmapSize * 2 ^ 12 % 2 ^ 32 ≤ block then .ok batmap
  else if batmap.mapBytes ≤ block / 8 ∨ 2 ^ 31 ≤ block then .undefined
  else .ok { batmap with map := clearBit batmap.map block }

def outgrown (s : Handle) : Bool :=
  match s.batmap with
  | some batmap => s.hasBatmap && decide (batmap.mapBytes < s.batmapBytes)
  | none => false

def vhdGetBatmap : Action Handle Unit := do
  let s ← get
  if outgrown s then undefined
  else do
    let _ ← Libvhd.vhdGetBatmap
    pure ()

def vhdPutBatmap : Action Handle Unit := do
  let s ← get
  when (s.hasBatmap = true) (modify fun s => { s with batmap := none })

def vhdBatmapTest (block : UInt32) : Action Handle Unit := do
  let _ ← batmapTest block.toNat
  pure ()

def changeMap (change : Batmap → Outcome Batmap) : Action Handle Unit := do
  let s ← get
  match s.batmap with
  | some batmap =>
      when (s.hasBatmap = true) do
        let batmap ← lift (change batmap)
        modify fun s => { s with batmap := some batmap }
  | none => pure ()

def vhdBatmapSet (block : UInt32) : Action Handle Unit := changeMap fun batmap => batmap.set block.toNat

def vhdBatmapClear (block : UInt32) : Action Handle Unit := changeMap fun batmap => Batmap.clear batmap block.toNat

def vhdWriteBatmap : Action Handle Unit := do
  let s ← get
  if outgrown s then undefined
  else
    match s.batmap with
    | some batmap => Libvhd.vhdWriteBatmap batmap
    | none => when (s.hasBatmap = true) undefined

def resizeFooter (footer : Nat → UInt8) (size p : Nat) : UInt8 :=
  if 48 ≤ p ∧ p < 56 then beByte 8 size (p - 48)
  else if 56 ≤ p ∧ p < 60 then beByte 4 (vhdChs size) (p - 56)
  else footer p

def vhdSetVirtSize (size : UInt64) : Action Handle Unit := do
  vhdSetVirtSizeNoWrite size.toNat
  modify fun s => { s with footer := resizeFooter s.footer size.toNat }
  let s ← get
  if !s.isBlock && outgrown s then undefined else vhdWriteFooter

inductive MapCall
  | get
  | put
  | create
  | write
  | test (block : UInt32)
  | set (block : UInt32)
  | clear (block : UInt32)
  | resize (size : UInt64)

def MapCall.perform : MapCall → Action Handle Unit
  | .get => vhdGetBatmap
  | .put => vhdPutBatmap
  | .create => vhdCreateBatmap
  | .write => vhdWriteBatmap
  | .test block => vhdBatmapTest block
  | .set block => vhdBatmapSet block
  | .clear block => vhdBatmapClear block
  | .resize size => vhdSetVirtSize size

inductive Reached (s : Handle) : Handle → Prop
  | start : Reached s s
  | call {t : Handle} (call : MapCall) : Reached s t → (call.perform t).1 ≠ .undefined →
      Reached s (call.perform t).2

def Inside (s : Handle) : Prop :=
  ∀ batmap, s.batmap = some batmap → s.hasBatmap = true → ∀ block : UInt32, block.toNat * s.blockSize < s.currSize →
    ∀ i, byteUsed batmap block = some i → 0 ≤ i ∧ i < batmap.mapBytes ∧ i < s.batmapBytes

def sectors (s : Handle) (batmap : Batmap) : Nat := min (min (batmap.mapBytes / 512) (s.batmapBytes / 512)) (2 ^ 19)

def Covered (s : Handle) : Prop :=
  ∀ batmap, s.batmap = some batmap → s.hasBatmap = true →
    batmap.header.batmapSize % 2 ^ 20 ≤ sectors s batmap ∨ s.currSize ≤ sectors s batmap * 4096 * s.blockSize

structure Fit (s : Handle) : Prop where
  size : s.currSize < 2 ^ 64
  whole : ∀ batmap, s.batmap = some batmap → 512 ∣ batmap.mapBytes

section Step
variable {s t : Handle} {batmap batmap' : Batmap} {block : Nat}

def KeepsFit (s t : Handle) : Prop := Fit s → Fit t

instance : Std.Refl KeepsFit := ⟨fun _ fit => fit⟩

instance : IsTrans Handle KeepsFit := ⟨fun _ _ _ first second fit => second (first fit)⟩

theorem KeepsFit.of_same (size : t.currSize = s.currSize) (memory : t.batmap = s.batmap) : KeepsFit s t :=
  fun fit => ⟨size ▸ fit.size, fun batmap loaded => fit.whole batmap (memory ▸ loaded)⟩

theorem KeepsFit.of_map (size : t.currSize = s.currSize) (whole : ∀ batmap, t.batmap = some batmap → 512 ∣ batmap.mapBytes) :
    KeepsFit s t :=
  fun fit => ⟨size ▸ fit.size, whole⟩

theorem fits_vhdWrite (off size : Nat) (data : Nat → UInt8) : Steps KeepsFit (vhdWrite off size data) := by
  intro s
  unfold vhdWrite
  dsimp only
  cases s.faults.head?.join with
  | some fault => exact .of_same rfl rfl
  | none =>
      dsimp only
      split
      · exact .of_same rfl rfl
      · exact .of_same rfl rfl

theorem fits_vhdTruncate (size : Nat) : Steps KeepsFit (vhdTruncate size) := by
  intro s
  unfold vhdTruncate
  dsimp only
  cases s.faults.head?.join with
  | some fault => exact .of_same rfl rfl
  | none => exact .of_same rfl rfl

theorem whole_vhdReadBatmap {ctx : Context} (read : vhdReadBatmap ctx = .ok batmap) : 512 ∣ batmap.mapBytes := by
  unfold vhdReadBatmap at read
  split at read
  · cases read
  · obtain ⟨header, _, read⟩ := Outcome.bind_eq_ok.mp read
    split at read
    · cases read
    · split at read
      · cases read
      · obtain ⟨map, _, read⟩ := Outcome.bind_eq_ok.mp read
        split at read
        · cases read
        · cases read
          exact Nat.dvd_mul_left ..

theorem fits_vhdGetBatmap : Steps KeepsFit Libvhd.vhdGetBatmap := by
  unfold Libvhd.vhdGetBatmap
  refine .bind .get fun s => .ite (.fail _) ?_
  cases s.batmap.filter s.validBatmap with
  | some batmap => exact .pure batmap
  | none =>
      refine .bind (.modify fun t => .of_map rfl ?_) fun _ => .lift_bind fun batmap read => ?_
      · simp
      · refine .bind (.modify fun t => .of_map rfl ?_) fun _ => .pure batmap
        intro found same
        rw [← Option.some.inj same]
        exact whole_vhdReadBatmap read

theorem fits_vhdGetBat : Steps KeepsFit vhdGetBat := by
  unfold vhdGetBat
  refine .bind .get fun s => .ite (.pure _) (.bind (.lift _) fun bat => ?_)
  exact .modify fun _ => .of_same rfl rfl

theorem fits_loadedBat : Steps KeepsFit loadedBat := by
  unfold loadedBat
  refine .bind .get fun s => ?_
  cases s.bat with
  | some bat => exact .pure bat
  | none => exact .undefined

theorem fits_endOfData : Steps KeepsFit endOfData := by
  have headers : Steps KeepsFit endOfHeaders := by
    unfold endOfHeaders
    refine .bind .get fun s => .ite (.pure _) (.ite ?_ (.pure _))
    exact .bind fits_vhdGetBatmap fun _ => .pure _
  unfold endOfData
  refine .bind .get fun s => .ite (.pure _) (.bind headers fun _ => ?_)
  exact .bind fits_vhdGetBat fun _ => .bind fits_loadedBat fun _ => .pure _

theorem fits_vhdWriteFooter : Steps KeepsFit vhdWriteFooter := by
  have footer : ∀ off, Steps KeepsFit (vhdWriteFooterAt off) := by
    intro off
    unfold vhdWriteFooterAt
    exact .bind .get fun s => .ite (.fail _) (fits_vhdWrite _ _ _)
  unfold vhdWriteFooter footerOffset
  refine .bind (.bind .get fun s => .ite (.pure _) fits_endOfData) fun off => .bind (footer off) fun _ => ?_
  exact .bind .get fun s => .bind (.when (fits_vhdTruncate _)) fun _ => .when (footer 0)

theorem fits_vhdWriteBatmap (batmap : Batmap) : Steps KeepsFit (Libvhd.vhdWriteBatmap batmap) := by
  have sectors : Steps KeepsFit (writeBatmapSectors batmap) := by
    unfold writeBatmapSectors
    refine .bind .get fun s => .ite (.fail _) (.ite .undefined ?_)
    exact .bind (fits_vhdWrite _ _ _) fun _ => fits_vhdWrite _ _ _
  unfold Libvhd.vhdWriteBatmap
  exact .bind sectors.attempt fun _ => .pure _

theorem fits_vhdCreateBatmap : Steps KeepsFit vhdCreateBatmap := by
  unfold vhdCreateBatmap
  refine .bind .get fun s => .ite (.fail _) ?_
  refine .bind (.modify fun t => .of_map rfl ?_) fun _ => fits_vhdWriteBatmap _
  intro found same
  rw [← Option.some.inj same]
  exact Nat.dvd_mul_left ..

theorem fits_changeMap {change : Batmap → Outcome Batmap}
    (keeps : ∀ batmap batmap', change batmap = .ok batmap' → batmap'.mapBytes = batmap.mapBytes) :
    Steps KeepsFit (changeMap change) := by
  intro s
  unfold changeMap
  simp only [bind, Action.get]
  cases loaded : s.batmap with
  | none => exact .of_same rfl rfl
  | some batmap =>
      cases s.hasBatmap with
      | false => exact .of_same rfl rfl
      | true =>
          simp only [Action.when, if_true, lift]
          cases action : change batmap with
          | error code => exact .of_same rfl rfl
          | undefined => exact .of_same rfl rfl
          | ok batmap' =>
              intro fit
              refine ⟨fit.size, fun found same => ?_⟩
              rw [← Option.some.inj same, keeps batmap batmap' action]
              exact fit.whole batmap loaded

theorem fits_setVirtSizeNoWrite {size : Nat} (bound : size < 2 ^ 64) : Steps KeepsFit (vhdSetVirtSizeNoWrite size) := by
  unfold vhdSetVirtSizeNoWrite
  refine .bind .get fun s => .ite (.fail _) (.modify fun t fit => ?_)
  exact ⟨bound, fit.whole⟩

theorem batmap_set_bytes (set : batmap.set block = .ok batmap') : batmap'.mapBytes = batmap.mapBytes := by
  unfold Batmap.set at set
  split at set
  · cases set
    rfl
  · split at set
    · cases set
    · cases set
      rfl

theorem batmap_clear_bytes (clear : Batmap.clear batmap block = .ok batmap') :
    batmap'.mapBytes = batmap.mapBytes := by
  unfold Batmap.clear at clear
  split at clear
  · cases clear
    rfl
  · split at clear
    · cases clear
    · cases clear
      rfl

theorem fits_perform (call : MapCall) : Steps KeepsFit call.perform := by
  cases call with
  | get => exact .bind .get fun s => .ite .undefined (.bind fits_vhdGetBatmap fun _ => .pure _)
  | put => exact .bind .get fun s => .when (.modify fun t => .of_map rfl (by simp))
  | create => exact fits_vhdCreateBatmap
  | write =>
      refine .bind .get fun s => .ite .undefined ?_
      cases s.batmap with
      | some batmap => exact fits_vhdWriteBatmap batmap
      | none => exact .when .undefined
  | test block =>
      have test : Steps KeepsFit (batmapTest block.toNat) := by
        unfold batmapTest
        refine .bind .get fun s => .ite (.pure _) ?_
        cases s.batmap with
        | some batmap => exact .lift _
        | none => exact .pure _
      exact .bind test fun _ => .pure _
  | set block => exact fits_changeMap fun _ _ set => batmap_set_bytes set
  | clear block => exact fits_changeMap fun _ _ clear => batmap_clear_bytes clear
  | resize size =>
      refine .bind (fits_setVirtSizeNoWrite size.toNat_lt) fun _ => ?_
      refine .bind (.modify fun t => .of_same rfl rfl) fun _ => .bind .get fun s => ?_
      exact .ite .undefined fits_vhdWriteFooter

theorem Reached.fit {s₀ : Handle} (reached : Reached s₀ s) (fit : Fit s₀) : Fit s := by
  induction reached with
  | start => exact fit
  | call call _ _ ih => exact fits_perform call _ ih

theorem batmapBytes_whole : 512 ∣ s.batmapBytes := Nat.dvd_mul_left ..

theorem byteUsed_inside (fit : Fit s) (loaded : s.batmap = some batmap) (block : UInt32) (i : Int)
    (used : byteUsed batmap block = some i) :
    (0 ≤ i ∧ i < batmap.mapBytes ∧ i < s.batmapBytes) ↔ block.toNat < sectors s batmap * 4096 := by
  obtain ⟨k, whole⟩ := fit.whole batmap loaded
  obtain ⟨m, summed⟩ := batmapBytes_whole (s := s)
  have small := block.toNat_lt
  have bits : sectors s batmap = min (min k m) (2 ^ 19) := by
    unfold sectors
    rw [whole, summed, Nat.mul_div_cancel_left _ (by decide), Nat.mul_div_cancel_left _ (by decide)]
  rw [whole, summed, bits]
  unfold byteUsed at used
  split at used
  · cases used
  · split at used
    · cases used
      omega
    · cases used
      omega

theorem byteUsed_isSome (block : UInt32) :
    (∃ i, byteUsed batmap block = some i) ↔ block.toNat < batmap.header.batmapSize % 2 ^ 20 * 4096 := by
  have shift : batmap.header.batmapSize * 2 ^ 12 % 2 ^ 32 = batmap.header.batmapSize % 2 ^ 20 * 4096 := by omega
  unfold byteUsed
  rw [shift]
  split
  · simp only [reduceCtorEq, exists_false, false_iff]
    omega
  · split <;> simp only [Option.some.injEq, exists_eq', true_iff] <;> omega

theorem inside_iff_covered (fit : Fit s) : Inside s ↔ Covered s := by
  unfold Inside Covered
  refine forall_congr' fun batmap => forall_congr' fun loaded => forall_congr' fun has => ?_
  constructor
  · intro inside
    by_contra uncovered
    have reach : batmap.header.batmapSize % 2 ^ 20 < 2 ^ 20 := Nat.mod_lt _ (by decide)
    have beyond : sectors s batmap < batmap.header.batmapSize % 2 ^ 20 := by omega
    have small : sectors s batmap * 4096 < 2 ^ 32 := by omega
    let block := UInt32.ofNat (sectors s batmap * 4096)
    have place : block.toNat = sectors s batmap * 4096 := UInt32.toNat_ofNat_of_lt' small
    obtain ⟨i, used⟩ := (@byteUsed_isSome batmap block).mpr (by omega)
    have there := (byteUsed_inside fit loaded block i used).mp (inside block (by rw [place]; omega) i used)
    omega
  · intro covered block disk i used
    apply (byteUsed_inside fit loaded block i used).mpr
    have below := (byteUsed_isSome block).mp ⟨i, used⟩
    cases covered with
    | inl little => exact Nat.lt_of_lt_of_le below (Nat.mul_le_mul_right 4096 little)
    | inr all =>
        exact Nat.lt_of_mul_lt_mul_right (Nat.lt_of_lt_of_le disk all)

theorem test_undefined_iff (block : UInt32) : batmap.test block.toNat = .undefined ↔
    ∃ i, byteUsed batmap block = some i ∧ ¬ (0 ≤ i ∧ i < batmap.mapBytes) := by
  have small := block.toNat_lt
  unfold Batmap.test byteUsed
  split
  · simp
  · split
    · next outside =>
        refine iff_of_true rfl ?_
        split
        · refine ⟨_, rfl, ?_⟩
          omega
        · refine ⟨_, rfl, ?_⟩
          omega
    · next inside =>
        refine iff_of_false (by simp) ?_
        rw [if_pos (by omega)]
        rintro ⟨i, same, outside⟩
        rw [← Option.some.inj same] at outside
        omega

theorem batmapBytes_short (size : s.currSize < 2 ^ 64) :
    s.batmapBytes / 512 * 4096 * 2 ^ 21 < s.currSize ↔
      2 ^ 33 ≤ s.currSize ∧ 0 < s.currSize % 2 ^ 33 ∧ s.currSize % 2 ^ 33 < 2 ^ 24 := by
  have secs : s.batmapBytes / 512 = secsRoundUpNoZero (s.currSize / 2 ^ 24) := Nat.mul_div_cancel _ (by decide)
  rw [secs]
  unfold secsRoundUpNoZero secsRoundUp
  split <;> omega

/-- In every run the bytes used for the blocks of the disk are in the map exactly as long as its sectors, both those
in memory and those of the current size, have a bit for each block, or the header claims no more sectors. -/
theorem reached_inside_iff {s₀ : Handle} (closed : s₀.batmap = none) (size : s₀.currSize < 2 ^ 64)
    (reached : Reached s₀ s) : (Inside s ↔ Covered s) ∧
      (s.batmapBytes / 512 * 4096 * 2 ^ 21 < s.currSize ↔
        2 ^ 33 ≤ s.currSize ∧ 0 < s.currSize % 2 ^ 33 ∧ s.currSize % 2 ^ 33 < 2 ^ 24) := by
  have fit := reached.fit ⟨size, fun batmap loaded => by simp [closed] at loaded⟩
  exact ⟨inside_iff_covered fit, batmapBytes_short fit.size⟩

end Step

theorem modern_bitmaps : false = (true && 0x00010003 == 1) := rfl

def justOver : Handle where
  file :=
    { size := 2 ^ 20
      byte := fun p =>
        if 18432 ≤ p ∧ p < 18944 then
          BatmapHeader.bytes
            { cookie := true, batmapOffset := 18944, batmapSize := 2, batmapVersion := 0x00010002
              checksum := 2 ^ 32 - 1, marker := 0 } (p - 18432)
        else 0 }
  type := .dynamic
  currSize := 4097 * 2 ^ 21
  tableOffset := 512 * 3
  maxBatSize := 4097
  blockSize := 2 ^ 21
  oldBitmap := false
  tapdisk := true
  crtrVer := 0x00010003
  dataOffset := 512
  loc := List.replicate 8 .unused
  oldBitmap_eq := modern_bitmaps
  isBlock := false
  sparse := false
  spp := 1
  spp_pos := Nat.one_pos
  footer := fun _ => 0
  bat := none
  batmap := none
  faults := []

def justOverRead : Handle := (MapCall.get.perform justOver).2

theorem justOverRead_reached : Reached justOver justOverRead := .call .get .start (by decide +kernel)

theorem justOver_iff : (Inside justOverRead ↔ Covered justOverRead) ∧
    (justOverRead.batmapBytes / 512 * 4096 * 2 ^ 21 < justOverRead.currSize ↔
      2 ^ 33 ≤ justOverRead.currSize ∧ 0 < justOverRead.currSize % 2 ^ 33 ∧
        justOverRead.currSize % 2 ^ 33 < 2 ^ 24) :=
  reached_inside_iff rfl (by decide) (.call .get .start (by decide +kernel))

theorem justOver_outside :
    ¬ ∀ s₀ s : Handle, s₀.batmap = none → s₀.currSize < 2 ^ 64 → Reached s₀ s → Inside s := by
  intro inside
  have read : (justOverRead.batmap.map fun batmap => (batmap.mapBytes, byteUsed batmap 4096)) =
      some (512, some 512) := by decide +kernel
  obtain ⟨batmap, loaded, same⟩ := Option.map_eq_some_iff.mp read
  obtain ⟨bytes, used⟩ := Prod.mk.inj same
  have bound := inside justOver justOverRead rfl (by decide) justOverRead_reached batmap loaded
    (by decide +kernel) 4096 (by decide +kernel) 512 used
  rw [bytes] at bound
  exact absurd bound.2.1 (by decide)

end Blktap.Libvhd.MapBounds
