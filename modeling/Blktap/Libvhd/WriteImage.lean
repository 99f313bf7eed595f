import Blktap.Libvhd.Contents
import Blktap.Libvhd.WriteFooter

/-! # What `vhd_io_write` does -/

namespace Blktap.Libvhd
open Lib Action

def Handle.lastAfter (s : Handle) (sec secs : Nat) : Nat :=
  s.endAfter (s.blocksOf sec secs) s.dataEnd

/-- A write to a dynamic image meets the limits of the code. -/
structure Handle.DynamicOk (s : Handle) (sec secs : Nat) : Prop where
  room : s.Room
  loaded : ∀ block ∈ s.blocksOf sec secs, block < s.batEntries
  covers : ∀ block ∈ s.blocksOf sec secs, s.Covers block
  entries : ∀ block ∈ s.blocksOf sec secs, ¬ s.allocated block →
    s.lastAfter sec secs < ddBlkUnused + s.bmSecs + s.spb
  device : s.isBlock = true → s.lastAfter sec secs * 512 + 512 ≤ s.file.size

structure Handle.Allows (s : Handle) (blocks : List Nat) (bound : Nat) : Prop where
  room : s.Room
  fits : s.WriteFits blocks bound
  device : s.isBlock = true → bound * 512 + 512 ≤ s.file.size

def Handle.WriteOk (s : Handle) (sec secs : Nat) : Prop :=
  s.typeDynamic = true → s.DynamicOk sec secs

structure Handle.Valid (s : Handle) : Prop where
  sound : s.typeDynamic = true → s.Sound
  footer : s.typeDynamic = true → ∀ block, s.allocated block →
    (s.entry block + s.bmSecs + s.spb) * 512 + 512 ≤ s.file.size
  fixed : s.typeDynamic = false → s.toVhd.ValidFixed

section Write
variable {s t u : Handle} {sec secs bound : Nat} {buf : Nat → UInt8}

theorem Handle.DynamicOk.allows (ok : s.DynamicOk sec secs) :
    s.Allows (s.blocksOf sec secs) (s.lastAfter sec secs) :=
  ⟨ok.room, ⟨List.nodup_range', ok.loaded, ok.covers, Nat.le_refl _, ok.entries⟩, ok.device⟩

theorem Handle.Kept.allows {blocks : List Nat} (kept : s.Kept t) (allows : s.Allows blocks bound)
    (grows : s.isBlock = true → s.file.size ≤ t.file.size) : t.Allows blocks bound := by
  have fits := allows.fits
  have entries : t.batEntries = s.batEntries := by rw [kept.fields]; rfl
  have bm : t.bmSecs = s.bmSecs := by rw [kept.fields]; rfl
  have spb : t.spb = s.spb := by rw [kept.fields]; rfl
  have isBlock : t.isBlock = s.isBlock := by rw [kept.fields]
  refine ⟨kept.room, ⟨fits.nodup, ?_, fun block member => kept.covers block (fits.covers block member),
    ?_, ?_⟩, ?_⟩
  · rw [entries]
    exact fits.loaded
  · rw [kept.ends, Handle.endAfter_congr kept.fields fun block _ => kept.allocated block]
    exact fits.ends
  · intro block member unused
    rw [kept.allocated] at unused
    rw [bm, spb]
    exact fits.entries block member unused
  · rw [isBlock]
    exact fun block => (allows.device block).trans (grows block)

theorem wp_loadTables (sound : s.SoundDisk) :
    wp loadTables (fun _ t => s.Loads t ∧ t.Ready) (fun _ t => s.Loads t) s := by
  unfold loadTables
  simp only [wp_bind, wp_get, wp_when]
  apply (wp_getBat sound.laid).mono
  · rintro _ t ⟨loads, bat, same⟩
    have bat' : t.bat = some t.tableInUse := bat.trans (by rw [loads.inUse])
    refine ⟨fun has => ?_, fun hasnt => ⟨loads, bat', fun has => absurd has hasnt⟩⟩
    apply (wp_getBatmap (loads.soundDisk sound)).mono
    · rintro batmap u ⟨more, bat'', some, _⟩
      refine ⟨loads.trans more, ?_, fun _ => by rw [some]; rfl⟩
      rw [bat'', bat', more.inUse]
    · exact fun _ u more => loads.trans more
  · exact fun _ t loads => loads

theorem Handle.SameFields.footerFits (fields : s.SameFields t)
    (device : s.isBlock = true → bound * 512 + 512 ≤ s.file.size) (grows : s.file.size ≤ t.file.size)
    (ends : t.dataEnd ≤ bound) : t.FooterFits := by
  intro isBlock
  rw [fields] at isBlock
  have last := Nat.mul_le_mul_right 512 ends
  exact (Nat.add_le_add_right last 512).trans ((device isBlock).trans grows)

theorem Handle.FooterFits.footed (fits : s.FooterFits) :
    s.dataEnd * 512 + 512 ≤ s.footedSize := by
  unfold Handle.footedSize
  split
  · exact fits ‹_›
  · exact Nat.le_refl _

def Handle.LoopDone (s : Handle) (blocks : List Nat) (bound sec secs : Nat) (buf : Nat → UInt8)
    (result : Except Int Unit) (t : Handle) : Prop :=
  s.Left t bound (inRange sec secs) ∧ (result = .ok () → t.Sound ∧ t.Ready ∧
    t.WriteFits blocks bound ∧ s.toVhd.Wrote t.toVhd sec secs buf)

structure Handle.Written (s : Handle) (blocks : List Nat) (bound sec secs : Nat)
    (buf : Nat → UInt8) (t : Handle) : Prop where
  sound : t.Sound
  allows : t.Allows blocks bound
  fields : s.SameFields t
  footed : t.dataEnd * 512 + 512 ≤ t.file.size
  wrote : s.toVhd.Wrote t.toVhd sec secs buf

structure Handle.Failed (s : Handle) (sec secs : Nat) (t : Handle) : Prop where
  disk : t.SoundDisk
  room : t.Room
  fields : s.SameFields t
  spares : s.toVhd.Spares t.toVhd (inRange sec secs)

theorem Handle.Left.failed (left : s.Left t bound (inRange sec secs)) : s.Failed sec secs t :=
  ⟨left.disk, left.room, left.fields, left.spares⟩

theorem Handle.Kept.failed (kept : s.Kept t) : s.Failed sec secs t :=
  ⟨kept.disk, kept.room, kept.fields, fun nr o _ small => kept.content nr o small⟩

theorem Handle.Failed.after (failed : t.Failed sec secs u) (kept : s.Kept t) :
    s.Failed sec secs u :=
  ⟨failed.disk, failed.room, kept.fields.trans failed.fields, fun nr o apart small =>
    (failed.spares nr o apart small).trans (kept.content nr o small)⟩

theorem Handle.Failed.kept (failed : s.Failed sec secs t) (kept : t.Kept u) :
    s.Failed sec secs u :=
  ⟨kept.disk, kept.room, failed.fields.trans kept.fields, fun nr o apart small =>
    (kept.content nr o small).trans (failed.spares nr o apart small)⟩

theorem wp_finish {blocks : List Nat} {result : Except Int Unit}
    (done : s.LoopDone blocks bound sec secs buf result t)
    (device : s.isBlock = true → bound * 512 + 512 ≤ s.file.size)
    (grows : s.file.size ≤ t.file.size) :
    wp (attempt vhdWriteFooter)
      (fun footer u => wp (writeResult result footer)
        (fun _ w => s.Written blocks bound sec secs buf w) (fun _ w => s.Failed sec secs w) u)
      (fun _ w => s.Failed sec secs w) t := by
  obtain ⟨left, done⟩ := done
  have fits := left.fields.footerFits device grows left.ends
  rw [wp_attempt]
  apply (wp_vhdWriteFooter left.disk left.room fits).mono
  · rintro _ w ⟨footed, whole⟩
    cases result with
    | error code => exact left.failed.kept footed
    | ok _ =>
        obtain ⟨sound', _, fits', wrote⟩ := done rfl
        have allows' : t.Allows blocks bound := ⟨left.room, fits', fun isBlock => by
          rw [left.fields] at isBlock
          exact (device isBlock).trans grows⟩
        refine ⟨footed.sound sound', footed.allows allows' fun isBlock => ?_,
          left.fields.trans footed.fields, ?_, fun nr o small => ?_⟩
        · rw [whole, Handle.footedSize, if_pos isBlock]
        · rw [whole, footed.ends]
          exact fits.footed
        · rw [footed.content nr o small, wrote nr o small]
  · intro code w footed
    cases result with
    | error _ => exact left.failed.kept footed
    | ok _ => exact left.failed.kept footed

theorem wp_withFooter (sound : s.Sound) {blocks : List Nat} (allows : s.Allows blocks bound)
    {loop : Action Handle (Except Int Unit)} (steps : Steps Handle.Grown loop)
    (spec : ∀ t, s.SameFields t → t.Sound → t.Ready → t.Allows blocks bound →
      wp loop (t.LoopDone blocks bound sec secs buf)
        (fun _ u => t.Left u bound (inRange sec secs)) t) :
    wp (loadTables >>= fun _ => loop >>= fun result => attempt vhdWriteFooter >>= fun footer =>
        writeResult result footer)
      (fun _ t => s.Written blocks bound sec secs buf t) (fun _ t => s.Failed sec secs t) s := by
  simp only [wp_bind]
  apply (wp_loadTables sound.toSoundDisk).mono
  · rintro _ t ⟨loads, ready⟩
    have kept := loads.keeps sound.toSoundDisk allows.room
    have file : t.file = s.file := by rw [loads.fields]
    have allows := kept.allows allows fun _ => file ▸ Nat.le_refl _
    apply (steps.wp (spec t kept.fields (kept.sound sound) ready allows)).mono
    · rintro result u ⟨done, _, grows⟩
      apply (wp_finish done allows.device grows).mono
      · rintro footer w result
        apply result.mono
        · intro _ w written
          exact ⟨written.sound, written.allows, kept.fields.trans written.fields, written.footed,
            fun nr o small => by rw [written.wrote nr o small, kept.content nr o small]⟩
        · exact fun _ w failed => failed.after kept
      · exact fun _ w failed => failed.after kept
    · rintro code u ⟨left, _⟩
      exact left.failed.after kept
  · exact fun _ t loads => (loads.keeps sound.toSoundDisk allows.room).failed

theorem wp_dynamicWrite (sound : s.Sound) {blocks : List Nat} (allows : s.Allows blocks bound)
    (among : ∀ block ∈ s.blocksOf sec secs, block ∈ blocks)
    (inDisk : (sec + secs) * 512 ≤ s.currSize) :
    wp (dynamicWrite sec secs buf) (fun _ t => s.Written blocks bound sec secs buf t)
      (fun _ t => s.Failed sec secs t) s := by
  refine wp_withFooter sound allows (grows_writeLoop _ _ _ _) fun t fields sound' ready allows' => ?_
  refine wp_writeLoop (secs + 1) (Nat.lt_succ_self _) sound' allows'.room ready allows'.fits ?_ ?_
  · rw [fields]
    exact among
  · rw [fields]
    exact inDisk

theorem fixed_content {vhd : Vhd} (fixed : vhd.typeDynamic = false) (nr o : Nat) :
    vhd.content nr o =
      if nr * 512 < vhd.currSize then some (vhd.file.byte (nr * 512 + o)) else none := by
  unfold Vhd.content Vhd.holds Vhd.position
  simp [fixed]

theorem wp_fixedWrite (fixed : s.typeDynamic = false) (valid : s.toVhd.ValidFixed)
    (inDisk : (sec + secs) * 512 ≤ s.currSize) :
    wp (vhdWrite (sec * 512) (secs * 512) buf)
      (fun _ t => s.SameFields t ∧ t.toVhd.ValidFixed ∧ s.toVhd.Wrote t.toVhd sec secs buf)
      (fun _ t => s.SameFields t ∧ s.toVhd.Spares t.toVhd (inRange sec secs)) s := by
  have before : sec * 512 + secs * 512 ≤ s.currSize := by
    rw [← Nat.add_mul]
    exact inDisk
  have content : ∀ faults n, n ≤ secs * 512 → ∀ nr o, o < 512 →
      ({ s with faults }.put (sec * 512) n buf).content nr o =
        if nr * 512 < s.currSize then
          some (if sec * 512 ≤ nr * 512 + o ∧ nr * 512 + o < sec * 512 + n
            then buf (nr * 512 + o - sec * 512) else s.file.byte (nr * 512 + o))
        else none := by
    intro faults n part nr o small
    let t := { s with faults }.put (sec * 512) n buf
    have fixed' : t.typeDynamic = false := fixed
    refine (fixed_content fixed' nr o).trans ?_
    change (if nr * 512 < s.currSize then some ((s.file.put (sec * 512) n buf).byte (nr * 512 + o))
      else none) = _
    split
    · rename_i inside
      have within := whole_sector valid.1 inside small
      have inFile : nr * 512 + o < s.file.size :=
        Nat.lt_of_lt_of_le within (Nat.le_of_add_right_le valid.2)
      unfold File.put
      dsimp only
      rw [if_pos inFile]
    · rfl
  have apart : ∀ {n nr o : Nat}, n ≤ secs * 512 → o < 512 → ¬ inRange sec secs nr →
      ¬ (sec * 512 ≤ nr * 512 + o ∧ nr * 512 + o < sec * 512 + n) := by
    intro n nr o part small outside inside
    unfold inRange at outside
    omega
  apply wp_vhdWrite
  · intro faults _
    refine ⟨rfl, ⟨valid.1, valid.2.trans (grown_put s faults _ _ _).2⟩, fun nr o small => ?_⟩
    rw [content faults _ (Nat.le_refl _) nr o small, fixed_content fixed nr o]
    by_cases inside : sec ≤ nr ∧ nr < sec + secs
    · have here : nr * 512 < s.currSize := by omega
      have place : nr * 512 + o - sec * 512 = (nr - sec) * 512 + o := by
        rw [Nat.sub_mul]
        omega
      rw [if_pos inside, if_pos here, if_pos (by omega), place]
    · rw [if_neg inside, if_neg (apart (Nat.le_refl _) small inside)]
  · intro faults _ n part _
    refine ⟨rfl, fun nr o outside small => ?_⟩
    rw [content faults n part nr o small, fixed_content fixed nr o, if_neg (apart part small outside)]

theorem wp_vhdIoWrite (valid : s.Valid) (ok : s.WriteOk sec secs) :
    wp (vhdIoWrite sec secs buf)
      (fun _ t => t.Valid ∧ s.SameFields t ∧ s.toVhd.Wrote t.toVhd sec secs buf)
      (fun _ t => s.SameFields t ∧ s.toVhd.Spares t.toVhd (inRange sec secs)) s := by
  unfold vhdIoWrite
  simp only [wp_bind, wp_get, wp_ite, wp_fail]
  refine ⟨fun _ => ⟨rfl, fun _ _ _ _ => rfl⟩, fun inDisk => ⟨fun fixed => ?_, fun dynamic => ?_⟩⟩
  · rw [Bool.not_eq_true'] at fixed
    apply (wp_fixedWrite fixed (valid.fixed fixed) (Nat.not_lt.mp inDisk)).imp
    rintro _ t ⟨fields, fixed', wrote⟩
    have type : t.typeDynamic = s.typeDynamic := by rw [fields]; rfl
    rw [← type] at fixed
    have static : ¬ t.typeDynamic = true := by simp [fixed]
    exact ⟨⟨fun h => absurd h static, fun h => absurd h static, fun _ => fixed'⟩, fields, wrote⟩
  · simp only [Bool.not_eq_true', Bool.not_eq_false] at dynamic
    apply (wp_dynamicWrite (valid.sound dynamic) (ok dynamic).allows (fun _ member => member)
      (Nat.not_lt.mp inDisk)).mono
    · rintro _ t ⟨sound, allows, fields, footed, wrote⟩
      have moving : t.typeDynamic = true := by rw [fields]; exact dynamic
      refine ⟨⟨fun _ => sound, fun _ block allocated => ?_, fun h => ?_⟩, fields, wrote⟩
      · have last := Nat.mul_le_mul_right 512 (allows.room.extents block allocated)
        exact (Nat.add_le_add_right last 512).trans footed
      · rw [moving] at h
        cases h
    · exact fun _ t failed => ⟨failed.fields, failed.spares⟩

end Write

end Blktap.Libvhd
