import Blktap.Libvhd.Create

/-! # What the functions of `__vhd_create` leave -/

namespace Blktap.Libvhd
open Lib Action

variable {s t : Handle} {off size : Nat} {data : Nat → UInt8}

def Handle.wrote (s : Handle) (off size : Nat) (data : Nat → UInt8) : Handle :=
  { s.put off size data with faults := s.faults.tail }

def Handle.HasRoom (s : Handle) (stop : Nat) : Prop := s.isBlock = true → stop ≤ s.file.size

theorem vhdWrite_ok (positive : 0 < size) (action : vhdWrite off size data s = (.ok (), t)) :
    t = s.wrote off size data ∧ s.HasRoom (off + size) := by
  unfold vhdWrite at action
  dsimp only at action
  split at action
  · cases action
  · split at action
    · cases action
    · rename_i room
      refine ⟨(congrArg Prod.snd action).symm, fun isBlock => ?_⟩
      unfold Handle.roomFor at room
      rw [if_pos isBlock] at room
      omega

theorem wp_vhdWrite_quiet {post : Unit → Handle → Prop} {stop : Int → Handle → Prop}
    (quiet : s.faults.head?.join = none) (positive : 0 < size)
    (done : s.HasRoom (off + size) → post () (s.wrote off size data))
    (full : ¬ s.HasRoom (off + size) → ∀ file : File, file.size = s.file.size →
      stop (-enospc) { s with file := file, faults := s.faults.tail }) :
    wp (vhdWrite off size data) post stop s := by
  unfold wp vhdWrite
  dsimp only
  rw [quiet]
  dsimp only
  by_cases room : s.roomFor off size < size
  · rw [if_pos room]
    have isBlock : s.isBlock = true := by
      by_contra regular
      unfold Handle.roomFor at room
      rw [if_neg regular] at room
      omega
    have cut : s.roomFor off size = min size (s.file.size - off) := if_pos isBlock
    apply full
    · intro fits
      have := fits isBlock
      omega
    · unfold File.put
      dsimp only
      split <;> omega
  · rw [if_neg room]
    apply done
    intro isBlock
    have cut : s.roomFor off size = min size (s.file.size - off) := if_pos isBlock
    omega

theorem vhdBytesPadded_pos (bytes : Nat) : 0 < vhdBytesPadded bytes :=
  Nat.mul_pos (secsRoundUpNoZero_pos _) (by decide)

theorem Vhd.batmapBytes_pos (vhd : Vhd) : 0 < vhd.batmapBytes :=
  Nat.mul_pos (secsRoundUpNoZero_pos _) (by decide)

def Handle.mapped (s : Handle) (batmap : Batmap) : Handle :=
  (s.wrote batmap.header.batmapOffset s.batmapBytes batmap.map).wrote s.batmapHeaderOffset 512
    { batmap.header with
      checksum := s.checksumBatmap batmap.header.batmapVersion batmap.map }.bytes

def Quiet (faults : List (Option Fault)) : Prop :=
  faults.head?.join = none ∧ faults.tail.head?.join = none

instance (faults : List (Option Fault)) : Decidable (Quiet faults) :=
  inferInstanceAs (Decidable (_ ∧ _))

/-- What `vhd_write_batmap` leaves. It reports no error: when the device has no room for one of the two
writes, the rest is left out. -/
def Handle.MapLeft (s : Handle) (batmap : Batmap) (t : Handle) : Prop :=
  t = s.mapped batmap ∧ s.HasRoom (batmap.header.batmapOffset + s.batmapBytes) ∧
      s.HasRoom (s.batmapHeaderOffset + 512) ∨
    (¬ s.HasRoom (batmap.header.batmapOffset + s.batmapBytes) ∨
        ¬ s.HasRoom (s.batmapHeaderOffset + 512)) ∧
      ∃ file faults, file.size = s.file.size ∧
        t = { s with oldBitmap_eq := s.bitmap_eq, file := file, faults := faults }

theorem File.put_size_inside {file : File} (inside : off + size ≤ file.size) :
    (file.put off size data).size = file.size := by
  unfold File.put
  dsimp only
  split <;> omega

theorem vhdWriteBatmap_covers {batmap : Batmap} (has : s.hasBatmap = true)
    (action : vhdWriteBatmap batmap s = (.ok (), t)) :
    s.batmapBytes ≤ batmap.header.batmapSize * 512 := by
  by_contra cut
  have stuck : writeBatmapSectors batmap s = (.undefined, s) := by
    unfold writeBatmapSectors
    rw [get_bind, if_neg (by simp [has]), if_pos (Nat.lt_of_not_le cut)]
    rfl
  unfold vhdWriteBatmap at action
  obtain ⟨result, u, attempted, -⟩ := bind_ok.mp action
  unfold Action.attempt at attempted
  rw [stuck] at attempted
  cases attempted

theorem vhdWriteBatmap_ok {batmap : Batmap} (quiet : Quiet s.faults) (has : s.hasBatmap = true)
    (action : vhdWriteBatmap batmap s = (.ok (), t)) : s.MapLeft batmap t := by
  have short := Nat.not_lt.mpr (vhdWriteBatmap_covers has action)
  suffices run : wp (vhdWriteBatmap batmap) (fun _ => s.MapLeft batmap) (fun _ _ => False) s from
    run.ok action
  unfold vhdWriteBatmap writeBatmapSectors
  simp only [wp_bind, wp_attempt, wp_get, wp_ite, wp_fail, wp_pure]
  refine ⟨fun absent => absurd has (by simpa using absent), fun _ =>
    ⟨fun cut => absurd cut short, fun _ => ?_⟩⟩
  apply wp_vhdWrite_quiet quiet.1 s.batmapBytes_pos
  · intro room
    have same : s.isBlock = true →
        (s.wrote batmap.header.batmapOffset s.batmapBytes batmap.map).file.size = s.file.size :=
      fun isBlock => File.put_size_inside (room isBlock)
    apply wp_vhdWrite_quiet quiet.2 (by decide)
    · intro room'
      exact .inl ⟨rfl, room, fun isBlock => same isBlock ▸ room' isBlock⟩
    · intro full file size
      have isBlock : s.isBlock = true := by
        by_contra regular
        exact full fun isBlock => absurd isBlock regular
      exact .inr ⟨.inr fun room' => full fun isBlock => (same isBlock).symm ▸ room' isBlock, file, _,
        size.trans (same isBlock), rfl⟩
  · intro full file size
    exact .inr ⟨.inl full, file, _, size, rfl⟩

def Handle.Rewrites (s t : Handle) : Prop :=
  ∃ file faults, t = { s with oldBitmap_eq := s.bitmap_eq, file := file, faults := faults } ∧
    (s.isBlock = true → file.size = s.file.size)

theorem wp_vhdWrite_any {post : Unit → Handle → Prop} {stop : Int → Handle → Prop}
    (works : ∀ t, s.Rewrites t → post () t) (fails : ∀ code t, s.Rewrites t → stop code t) :
    wp (vhdWrite off size data) post stop s := by
  have cut : ∀ part ≤ s.roomFor off size,
      s.Rewrites ({ s with faults := s.faults.tail }.put off part data) := by
    intro part small
    refine ⟨_, _, rfl, fun isBlock => ?_⟩
    have room : s.roomFor off size = min size (s.file.size - off) := if_pos isBlock
    change (s.file.put off part data).size = s.file.size
    unfold File.put
    dsimp only
    split <;> omega
  unfold wp vhdWrite
  dsimp only
  cases s.faults.head?.join with
  | some fault => exact fails _ _ (cut _ (Nat.min_le_left _ _))
  | none =>
      dsimp only
      by_cases room : s.roomFor off size < size
      · rw [if_pos room]
        exact fails _ _ (cut _ (Nat.le_refl _))
      · rw [if_neg room]
        exact works _ (cut _ (Nat.le_of_not_lt room))

theorem Handle.Rewrites.trans {u : Handle} (first : s.Rewrites t) (second : t.Rewrites u) :
    s.Rewrites u := by
  obtain ⟨file, faults, rfl, size⟩ := first
  obtain ⟨file', faults', rfl, size'⟩ := second
  exact ⟨file', faults', rfl, fun isBlock => (size' isBlock).trans (size isBlock)⟩

theorem vhdWriteBatmap_rewrites {batmap : Batmap} (has : s.hasBatmap = true)
    (action : vhdWriteBatmap batmap s = (.ok (), t)) : s.Rewrites t := by
  have short := Nat.not_lt.mpr (vhdWriteBatmap_covers has action)
  suffices run : wp (vhdWriteBatmap batmap) (fun _ => s.Rewrites) (fun _ _ => False) s from
    run.ok action
  unfold vhdWriteBatmap writeBatmapSectors
  simp only [wp_bind, wp_attempt, wp_get, wp_ite, wp_fail, wp_pure]
  refine ⟨fun absent => absurd has (by simpa using absent), fun _ =>
    ⟨fun cut => absurd cut short, fun _ => ?_⟩⟩
  apply wp_vhdWrite_any
  · intro u first
    apply wp_vhdWrite_any
    · exact fun v second => first.trans second
    · exact fun _ v second => first.trans second
  · exact fun _ u first => first

section Metadata
variable {found : Outcome Parent} {raw : Bool} {made : Nat × ParentStamp}

def parentSize (found : Outcome Parent) (raw : Bool) : Nat :=
  match found with
  | .ok parent =>
      match if raw then .ok (parent.fileSize, fun _ => 0) else parent.image with
      | .ok image => image.1.toNat
      | _ => 0
  | _ => 0

def Handle.headed (s : Handle) (size : Nat) : Handle :=
  { s with
    oldBitmap_eq := s.bitmap_eq
    tableOffset := 512 * 3, blockSize := 2 ^ vhdBlockShift, dataOffset := 512
    currSize := size, maxBatSize := blocksUp size % 2 ^ 32 }

theorem vhdInitializeHeader_parent (diff : s.type = .diff)
    (action : vhdInitializeHeader found size raw s = (.ok made, t)) :
    ∃ parent image, found = .ok parent ∧
      (if raw then .ok (parent.fileSize, fun _ => 0) else parent.image) = .ok image ∧
      made.1 = image.1.toNat ∧ made.2.uuid = image.2 ∧
      t = s.headed (if size = 0 then image.1.toNat else size) ∧
      image.1.toNat ≤ if size = 0 then image.1.toNat else size := by
  unfold vhdInitializeHeader at action
  rw [get_bind] at action
  split at action
  · simp at action
  simp only [modify_bind] at action
  rw [if_neg (by rw [diff]; decide)] at action
  obtain ⟨parent, _, first, action⟩ := bind_ok.mp action
  obtain ⟨rfl, rfl⟩ := lift_ok.mp first
  obtain ⟨image, _, first, action⟩ := bind_ok.mp action
  obtain ⟨taken, rfl⟩ := lift_ok.mp first
  refine ⟨parent, image, rfl, taken, ?_⟩
  generalize (if size = 0 then image.1.toNat else size) = chosen at action ⊢
  split at action
  · cases fail_ok.mp action
  rename_i large
  rw [modify_bind] at action
  obtain ⟨name, _, first, action⟩ := bind_ok.mp action
  obtain ⟨-, rfl⟩ := lift_ok.mp first
  obtain ⟨rfl, rfl⟩ := pure_ok.mp action
  exact ⟨rfl, rfl, rfl, Nat.le_of_not_lt large⟩

theorem vhdInitializeHeader_ok (same : s.currSize = size)
    (action : vhdInitializeHeader found size raw s = (.ok made, t)) :
    t = s.headed (if s.type = .diff ∧ size = 0 then parentSize found raw else size) ∧
      made.1 = if s.type = .diff then parentSize found raw else 0 := by
  cases type : s.type with
  | fixed =>
      unfold vhdInitializeHeader at action
      rw [get_bind] at action
      simp [Vhd.typeDynamic, type] at action
  | dynamic =>
      unfold vhdInitializeHeader at action
      simp only [get_bind, modify_bind] at action
      rw [if_neg (by simp [Vhd.typeDynamic, type]), if_pos type] at action
      obtain ⟨rfl, rfl⟩ := pure_ok.mp action
      subst same
      exact ⟨rfl, rfl⟩
  | diff =>
      obtain ⟨parent, image, rfl, taken, psize, -, written, -⟩ :=
        vhdInitializeHeader_parent type action
      have size_eq : parentSize (.ok parent) raw = image.1.toNat := by
        simp only [parentSize, taken]
      rw [size_eq]
      simp only [true_and, if_true]
      exact ⟨written, psize⟩

theorem vhdCreateBatmap_steps (action : vhdCreateBatmap s = (.ok (), t)) :
    vhdWriteBatmap s.freshBatmap { s with batmap := some s.freshBatmap } = (.ok (), t) := by
  unfold vhdCreateBatmap at action
  rw [get_bind] at action
  split at action
  · cases fail_ok.mp action
  rwa [modify_bind] at action

def Handle.tabled (s : Handle) : Handle :=
  { s with bat := some s.freshBat }.wrote s.tableOffset (vhdBytesPadded (s.maxBatSize * 4))
    s.freshBat.bytes

theorem vhdCreateBat_ok (action : vhdCreateBat s = (.ok (), t)) :
    t = s.tabled ∧ s.maxBatSize < 2 ^ 31 ∧
      s.HasRoom (s.tableOffset + vhdBytesPadded (s.maxBatSize * 4)) := by
  unfold vhdCreateBat at action
  rw [get_bind] at action
  split at action
  · cases fail_ok.mp action
  split at action
  · cases undefined_ok.mp action
  rename_i small
  rw [modify_bind] at action
  unfold vhdWriteBat loadedBat at action
  simp only [get_bind] at action
  obtain ⟨bat, _, first, action⟩ := bind_ok.mp action
  obtain ⟨rfl, rfl⟩ := pure_ok.mp first
  obtain ⟨written, room⟩ := vhdWrite_ok (vhdBytesPadded_pos _) action
  exact ⟨written, Nat.lt_of_not_le small, room⟩

end Metadata

section Locators
variable {found : Outcome Parent} {code maxBytes i : Nat} {codes : List Nat}

def locatorText (found : Outcome Parent) (code : Nat) : Outcome (List UInt8) := do
  let parent ← found
  let name ← parent.relative
  encodeLocation code name

def locatorAt (code : Nat) (text : List UInt8) (off : Nat) : Locator where
  code := code
  dataSpace := vhdBytesPadded text.length
  dataLen := text.length
  dataOffset := off

def Handle.located (s : Handle) (i code : Nat) (text : List UInt8) (off : Nat) : Handle :=
  { s.wrote off (vhdBytesPadded text.length) fun p => text.getD p 0 with
    loc := s.loc.set i (locatorAt code text off) }

theorem locatorAt_size (code : Nat) (text : List UInt8) (off : Nat) :
    (locatorAt code text off).size = vhdBytesPadded text.length := by
  have large : ¬ vhdBytesPadded text.length < 512 := by
    have := secsRoundUpNoZero_pos text.length
    unfold vhdBytesPadded
    omega
  have whole : vhdBytesPadded text.length % 512 = 0 := Nat.mul_mod_left _ _
  unfold Locator.size locatorAt
  dsimp only
  rw [if_neg large, if_pos whole]

structure Placed (found : Outcome Parent) (code : Nat) (text : List UInt8) : Prop where
  encoded : locatorText found code = .ok text
  known : code = macxCode ∨ code = w2kuCode ∨ code = w2ruCode
  length : text.length < 2 ^ 31
  size : vhdBytesPadded text.length < 2 ^ 31

theorem Handle.wrote_size (room : s.HasRoom (off + size)) (isBlock : s.isBlock = true) :
    (s.wrote off size data).file.size = s.file.size :=
  File.put_size_inside (room isBlock)

theorem vhdParentLocatorWriteAt_ok
    (action : vhdParentLocatorWriteAt found off code maxBytes i s = (.ok (), t)) :
    ∃ text, Placed found code text ∧ t = s.located i code text off ∧
      (s.isBlock = true → t.file.size = s.file.size) := by
  unfold vhdParentLocatorWriteAt at action
  rw [modify_bind, get_bind] at action
  split at action
  · cases fail_ok.mp action
  split at action
  · cases fail_ok.mp action
  rename_i known
  obtain ⟨parent, _, first, action⟩ := bind_ok.mp action
  obtain ⟨rfl, rfl⟩ := lift_ok.mp first
  obtain ⟨name, _, first, action⟩ := bind_ok.mp action
  obtain ⟨relative, rfl⟩ := lift_ok.mp first
  obtain ⟨text, _, first, action⟩ := bind_ok.mp action
  obtain ⟨encoded, rfl⟩ := lift_ok.mp first
  dsimp only at action
  split at action
  · cases undefined_ok.mp action
  rename_i small
  split at action
  · cases fail_ok.mp action
  obtain ⟨_, u, first, action⟩ := bind_ok.mp action
  obtain ⟨rfl, room⟩ := vhdWrite_ok (vhdBytesPadded_pos _) first
  obtain rfl := modify_ok.mp action
  refine ⟨text, ⟨?_, by omega, by omega, by omega⟩, ?_, Handle.wrote_size room⟩
  · unfold locatorText
    simp [relative, encoded]
  · unfold Handle.located Handle.wrote Handle.put
    simp [locatorAt]

def Handle.locatedAll (s : Handle) (i off : Nat) : List (Nat × List UInt8) → Handle
  | [] => s
  | (code, text) :: texts =>
      (s.located i code text off).locatedAll (i + 1) (off + vhdBytesPadded text.length) texts

theorem writeLocators_ok (room : i + codes.length ≤ s.loc.length)
    (action : writeLocators found codes i off s = (.ok (), t)) :
    ∃ texts : List (Nat × List UInt8), texts.map Prod.fst = codes ∧
      (∀ entry ∈ texts, Placed found entry.1 entry.2) ∧ t = s.locatedAll i off texts ∧
      (s.isBlock = true → t.file.size = s.file.size) := by
  induction codes generalizing s i off with
  | nil =>
      obtain ⟨-, rfl⟩ := pure_ok.mp action
      exact ⟨[], rfl, by simp, rfl, fun _ => rfl⟩
  | cons code codes ih =>
      rw [List.length_cons] at room
      unfold writeLocators at action
      obtain ⟨_, u, first, action⟩ := bind_ok.mp action
      obtain ⟨text, placed, rfl, size⟩ := vhdParentLocatorWriteAt_ok first
      rw [get_bind] at action
      have here : ((s.located i code text off).loc.getD i .unused).size =
          vhdBytesPadded text.length := by
        change ((s.loc.set i (locatorAt code text off)).getD i .unused).size = _
        rw [List.getD_eq_getElem _ _ (by rw [List.length_set]; omega), List.getElem_set_self,
          locatorAt_size]
      rw [here] at action
      obtain ⟨texts, codes_eq, all, rfl, size'⟩ := ih (by
        change i + 1 + codes.length ≤ (s.loc.set i _).length
        rw [List.length_set]
        omega) action
      refine ⟨(code, text) :: texts, by simp [codes_eq], ?_, rfl, ?_⟩
      · intro entry member
        rcases List.mem_cons.mp member with rfl | later
        · exact placed
        · exact all entry later
      · intro isBlock
        exact (size' isBlock).trans (size isBlock)

end Locators

theorem writeBlocks_ok {n pos : Nat} (action : writeBlocks n pos s = (.ok (), t)) :
    ∃ file faults, t = { s with file := file, faults := faults } ∧
      (s.isBlock = true → file.size = s.file.size) ∧
      (s.isBlock = false → pos = s.file.size → file.size = pos + n * 2 ^ vhdBlockShift) := by
  induction n generalizing s pos with
  | zero =>
      obtain ⟨-, rfl⟩ := pure_ok.mp action
      exact ⟨s.file, s.faults, rfl, fun _ => rfl, fun _ last => by simp [last]⟩
  | succ n ih =>
      unfold writeBlocks at action
      obtain ⟨_, u, first, action⟩ := bind_ok.mp action
      obtain ⟨rfl, room⟩ := vhdWrite_ok (by decide) first
      obtain ⟨file, faults, rfl, device, regular⟩ := ih action
      refine ⟨file, faults, rfl, ?_, ?_⟩
      · intro isBlock
        exact (device isBlock).trans (Handle.wrote_size room isBlock)
      · intro isRegular last
        have grown : (s.wrote pos (2 ^ vhdBlockShift) fun _ => 0).file.size =
            pos + 2 ^ vhdBlockShift := by
          change (s.file.put pos (2 ^ vhdBlockShift) _).size = _
          unfold File.put
          dsimp only
          rw [if_neg (by decide), ← last]
          exact Nat.max_eq_right (Nat.le_add_right _ _)
        rw [regular isRegular grown.symm, Nat.succ_mul]
        omega

theorem vhdWriteFooterAt_ok (action : vhdWriteFooterAt off s = (.ok (), t)) :
    t = s.wrote off 512 (sealFooter s.footer) ∧ s.HasRoom (off + 512) := by
  unfold vhdWriteFooterAt at action
  rw [get_bind] at action
  split at action
  · cases fail_ok.mp action
  · exact vhdWrite_ok (by decide) action

theorem vhdWriteHeaderAt_ok {parent : ParentStamp}
    (action : vhdWriteHeaderAt parent off s = (.ok (), t)) :
    t = s.wrote off 1024 (sealHeader (headerOut s.toContext parent)) ∧ s.HasRoom (off + 1024) ∧
      validHeader (sealHeader (headerOut s.toContext parent)) = true := by
  unfold vhdWriteHeaderAt at action
  rw [get_bind] at action
  split at action
  · cases fail_ok.mp action
  split at action
  · cases fail_ok.mp action
  rename_i valid
  obtain ⟨written, room⟩ := vhdWrite_ok (by decide) action
  exact ⟨written, room, by simpa using valid⟩

def Handle.trailer (s : Handle) : Nat := if s.isBlock then s.file.size - 512 else s.file.size

theorem writeTrailer_ok (action : writeTrailer s = (.ok (), t)) :
    t = s.wrote s.trailer 512 (sealFooter s.footer) ∧ (s.isBlock = true → 512 ≤ s.file.size) := by
  unfold writeTrailer at action
  rw [get_bind] at action
  split at action
  · cases fail_ok.mp action
  rename_i large
  obtain ⟨written, -⟩ := vhdWriteFooterAt_ok action
  exact ⟨written, fun isBlock => Nat.le_of_not_lt fun small => large ⟨isBlock, small⟩⟩

section Ends
variable {r : Request} {stamp : Stamp} {made : Nat × ParentStamp}

def Request.endSize (r : Request) (psize size : Nat) : Nat :=
  if r.mbytes = 0 then size else if r.bytes ≠ 0 then roundUp r.bytes.toNat else psize

def Handle.sized (s : Handle) (size : Nat) (stamp : Stamp) : Handle :=
  { s with
    oldBitmap_eq := s.bitmap_eq
    currSize := size
    footer := footerOut { s.toContext with currSize := size } stamp size }

def Handle.fronted (s : Handle) (parent : ParentStamp) : Handle :=
  (s.wrote 0 512 (sealFooter s.footer)).wrote 512 1024 (sealHeader (headerOut s.toContext parent))

def Handle.trailed (s : Handle) : Handle := s.wrote s.trailer 512 (sealFooter s.footer)

theorem createEnds_ok (action : createEnds r stamp made s = (.ok (), t)) :
    (r.mbytes ≠ 0 → r.endSize made.1 s.currSize / 2 ^ vhdBlockShift ≤ s.maxBatSize) ∧
      ∃ u, u = s.sized (r.endSize made.1 s.currSize) stamp ∧
        (s.isBlock = true → t.file.size = s.file.size ∧ 512 ≤ s.file.size) ∧
        (s.type = .fixed → t = u.trailed) ∧
        (s.type ≠ .fixed → t = (u.fronted made.2).trailed ∧
          validHeader (sealHeader (headerOut u.toContext made.2)) = true) := by
  unfold createEnds at action
  obtain ⟨_, v, first, action⟩ := bind_ok.mp action
  have resized : v = { s with currSize := r.endSize made.1 s.currSize } ∧
      (r.mbytes ≠ 0 → r.endSize made.1 s.currSize / 2 ^ vhdBlockShift ≤ s.maxBatSize) := by
    unfold Request.endSize
    by_cases plain : r.mbytes = 0
    · unfold Action.when at first
      rw [if_neg (not_not.mpr plain)] at first
      obtain ⟨-, rfl⟩ := pure_ok.mp first
      simp [plain]
    · unfold Action.when vhdSetVirtSizeNoWrite at first
      rw [if_pos plain, get_bind] at first
      simp only [if_neg plain]
      generalize (if r.bytes ≠ 0 then roundUp r.bytes.toNat else made.1) = size at first ⊢
      split at first
      · cases fail_ok.mp first
      rename_i fits
      obtain rfl := modify_ok.mp first
      exact ⟨rfl, fun _ => Nat.le_of_not_lt fits⟩
  obtain ⟨rfl, fits⟩ := resized
  refine ⟨fits, _, rfl, ?_⟩
  rw [modify_bind, get_bind] at action
  change ((Action.when (s.type ≠ .fixed) (vhdWriteFooterAt 0 >>= fun _ => vhdWriteHeaderAt made.2 512)) >>=
    fun _ => writeTrailer) (s.sized (r.endSize made.1 s.currSize) stamp) = _ at action
  generalize sized : s.sized (r.endSize made.1 s.currSize) stamp = u at action ⊢
  have block : u.isBlock = s.isBlock := by rw [← sized]; rfl
  have size : u.file.size = s.file.size := by rw [← sized]; rfl
  obtain ⟨_, v, first, action⟩ := bind_ok.mp action
  obtain ⟨rfl, large⟩ := writeTrailer_ok action
  by_cases fixed : s.type = .fixed
  · unfold Action.when at first
    rw [if_neg (not_not.mpr fixed)] at first
    obtain ⟨-, rfl⟩ := pure_ok.mp first
    refine ⟨fun isBlock => ?_, fun _ => rfl, fun other => absurd fixed other⟩
    rw [← block] at isBlock
    have reach : u.HasRoom (u.trailer + 512) := by
      intro _
      have last : u.trailer = u.file.size - 512 := if_pos isBlock
      rw [last]
      exact Nat.le_of_eq (Nat.sub_add_cancel (large isBlock))
    exact ⟨(Handle.wrote_size reach isBlock).trans size, size ▸ large isBlock⟩
  · unfold Action.when at first
    rw [if_pos fixed] at first
    obtain ⟨_, w, footer, header⟩ := bind_ok.mp first
    obtain ⟨rfl, room⟩ := vhdWriteFooterAt_ok footer
    obtain ⟨rfl, room', valid⟩ := vhdWriteHeaderAt_ok header
    refine ⟨fun isBlock => ?_, fun other => absurd other fixed, fun _ => ⟨rfl, valid⟩⟩
    rw [← block] at isBlock
    have kept : (u.fronted made.2).file.size = u.file.size :=
      (Handle.wrote_size room' isBlock).trans (Handle.wrote_size room isBlock)
    have reach : (u.fronted made.2).HasRoom ((u.fronted made.2).trailer + 512) := by
      intro _
      have last : (u.fronted made.2).trailer = (u.fronted made.2).file.size - 512 := if_pos isBlock
      rw [last]
      exact Nat.le_of_eq (Nat.sub_add_cancel (large isBlock))
    exact ⟨(Handle.wrote_size reach isBlock).trans (kept.trans size),
      size ▸ kept ▸ large isBlock⟩

end Ends

end Blktap.Libvhd
