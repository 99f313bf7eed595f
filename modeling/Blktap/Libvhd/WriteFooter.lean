import Blktap.Libvhd.WriteLoop

/-! # The footer after a write -/

namespace Blktap.Libvhd
open Lib Action

structure Handle.Kept (s t : Handle) : Prop where
  fields : s.SameFields t
  disk : t.SoundDisk
  sound : s.Sound → t.Sound
  room : t.Room
  ends : t.dataEnd = s.dataEnd
  allocated : ∀ block, t.allocated block ↔ s.allocated block
  covers : ∀ block, s.Covers block → t.Covers block
  content : ∀ sector o, o < 512 → t.content sector o = s.content sector o

def Handle.FooterFits (s : Handle) : Prop :=
  s.isBlock = true → s.dataEnd * 512 + 512 ≤ s.file.size

def Handle.footedSize (s : Handle) : Nat :=
  if s.isBlock then s.file.size else s.dataEnd * 512 + 512

section Kept
variable {s t u : Handle}

theorem Handle.Kept.trans (first : s.Kept t) (second : t.Kept u) : s.Kept u := by
  refine ⟨first.fields.trans second.fields, second.disk, fun sound => second.sound (first.sound sound),
    second.room, second.ends.trans first.ends,
    fun block => (second.allocated block).trans (first.allocated block),
    fun block covers => second.covers block (first.covers block covers), fun sector o small => ?_⟩
  rw [second.content sector o small, first.content sector o small]

theorem Handle.Loads.keeps (loads : s.Loads t) (sound : s.SoundDisk) (room : s.Room) : s.Kept t := by
  refine ⟨?_, loads.soundDisk sound, loads.sound, loads.room room, loads.dataEnd, fun _ => ?_,
    fun _ covers => ?_, fun _ _ _ => ?_⟩
  · unfold Handle.SameFields
    rw [loads.fields]
  · rw [loads.context]
  · rw [loads.context]
    exact covers
  · rw [loads.context]

theorem Handle.Leaves.keeps (leaves : s.Leaves t) (sound : s.SoundDisk) (room : s.Room) :
    s.Kept t := by
  have max : t.maxBatSize = s.maxBatSize := by rw [leaves.fields]
  refine ⟨?_, leaves.soundDisk sound room, fun sound => leaves.sound sound room,
    leaves.room_of sound room, (leaves.same sound room).2, fun block => ?_,
    fun block covers => covers.edit (leaves.writes sound room block).edit sound.laid,
    fun _ _ small => leaves.content sound room small⟩
  · unfold Handle.SameFields
    rw [leaves.fields]
  · unfold Vhd.allocated
    rw [max]
    exact and_congr_right fun bound => by rw [leaves.entry sound.laid bound]

theorem Handle.Kept.refl (sound : s.SoundDisk) (room : s.Room) : s.Kept s :=
  (Handle.Loads.refl s).keeps sound room

theorem Handle.leaves_put (sound : s.SoundDisk) {off size : Nat} {data : Nat → UInt8}
    (apart : off + size ≤ 512 ∨ s.dataEnd * 512 ≤ off) {faults : List (Option Fault)} :
    s.Leaves ({ s with faults }.put off size data) := by
  have grows : s.file.size ≤ ({ s with faults }.put off size data).file.size := Context.put_size_le
  refine ⟨rfl, File.put_past sound.laid.past, fun fits => fits.trans grows,
    sound.laid.table.trans grows, fun looks => (sound.laid.marker looks).trans grows, ?_⟩
  intro p low before
  refine File.put_outside sound.laid.past fun inside => ?_
  rcases apart with front | behind
  · exact absurd (Nat.lt_of_lt_of_le inside.2 front) (Nat.not_lt.mpr low)
  · exact absurd (Nat.lt_of_lt_of_le before behind) (Nat.not_lt.mpr inside.1)

theorem Handle.leaves_truncate (sound : s.SoundDisk) (room : s.Room)
    {faults : List (Option Fault)} :
    s.Leaves { s with faults, file := s.file.truncate (s.dataEnd * 512 + 512) } := by
  refine ⟨rfl, File.truncate_past _ _, fun _ => Nat.le_add_right _ _,
    (Handle.table_le sound.laid).trans (Nat.le_add_right _ _),
    fun looks => (room.marker looks).trans (Nat.le_add_right _ _), ?_⟩
  intro p low before
  exact File.truncate_byte sound.laid.past (Nat.lt_add_right _ before)

theorem Handle.leaves_faults (sound : s.SoundDisk) {faults : List (Option Fault)} :
    s.Leaves { s with faults } :=
  ⟨rfl, sound.laid.past, id, sound.laid.table, sound.laid.marker, fun _ _ _ => rfl⟩

end Kept

section Footer
variable {s t : Handle} {off : Nat}

theorem wp_vhdWriteFooterAt (sound : s.SoundDisk) (room : s.Room)
    (apart : off = 0 ∨ s.dataEnd * 512 ≤ off) :
    wp (vhdWriteFooterAt off) (fun _ t => s.Kept t ∧ t.file.size = max s.file.size (off + 512))
      (fun _ t => s.Kept t) s := by
  unfold vhdWriteFooterAt
  simp only [wp_bind, wp_get, wp_ite, wp_fail]
  refine ⟨fun _ => .refl sound room, fun _ => ?_⟩
  have outside : ∀ n ≤ 512, off + n ≤ 512 ∨ s.dataEnd * 512 ≤ off :=
    fun n part => apart.imp_left fun front => by rw [front, Nat.zero_add]; exact part
  apply wp_vhdWrite
  · intro faults _
    exact ⟨(Handle.leaves_put sound (outside 512 (Nat.le_refl _))).keeps sound room, rfl⟩
  · intro faults _ n part _
    exact (Handle.leaves_put sound (outside n part)).keeps sound room

theorem wp_footerOffset (sound : s.SoundDisk) (room : s.Room) (fits : s.FooterFits) :
    wp footerOffset (fun off t => s.Kept t ∧ t.file = s.file ∧ s.dataEnd * 512 ≤ off ∧
      off + 512 = s.footedSize) (fun _ t => s.Kept t) s := by
  unfold footerOffset Handle.footedSize
  simp only [wp_bind, wp_get, wp_ite, wp_pure]
  refine ⟨fun isBlock => ?_, fun regular => ?_⟩
  · have fits := fits isBlock
    rw [if_pos isBlock]
    refine ⟨.refl sound room, trivial, ?_, Nat.sub_add_cancel ?_⟩
    · exact Nat.le_sub_of_add_le fits
    · exact (Nat.le_add_left _ _).trans fits
  · rw [if_neg regular]
    apply (wp_endOfData sound).mono
    · rintro _ t ⟨rfl, loads, _⟩
      exact ⟨loads.keeps sound room, by rw [loads.fields], Nat.le_refl _, rfl⟩
    · exact fun _ t loads => loads.keeps sound room

theorem wp_vhdWriteFooter (sound : s.SoundDisk) (room : s.Room) (fits : s.FooterFits) :
    wp vhdWriteFooter (fun _ t => s.Kept t ∧ t.file.size = s.footedSize) (fun _ t => s.Kept t) s := by
  unfold vhdWriteFooter
  simp only [wp_bind]
  apply (wp_footerOffset sound room fits).mono
  · rintro off t ⟨kept, file, behind, last⟩
    apply (wp_vhdWriteFooterAt kept.disk kept.room (.inr (kept.ends ▸ behind))).mono
    · rintro _ u ⟨footed, size⟩
      have kept' := kept.trans footed
      simp only [wp_get, wp_when]
      have isBlock : u.isBlock = s.isBlock := by rw [kept'.fields]
      have finish : ∀ w : Handle, u.Kept w → w.file.size = s.footedSize →
          (u.typeDynamic = true → wp (vhdWriteFooterAt 0)
            (fun _ t => s.Kept t ∧ t.file.size = s.footedSize) (fun _ t => s.Kept t) w) ∧
          (¬ u.typeDynamic = true → s.Kept w ∧ w.file.size = s.footedSize) := by
        intro w more size'
        refine ⟨fun _ => ?_, fun _ => ⟨kept'.trans more, size'⟩⟩
        apply (wp_vhdWriteFooterAt more.disk more.room (.inl rfl)).mono
        · rintro _ x ⟨copied, size''⟩
          refine ⟨(kept'.trans more).trans copied, ?_⟩
          rw [size'', size']
          omega
        · exact fun _ x copied => (kept'.trans more).trans copied
      refine ⟨fun regular => ?_, fun block => ?_⟩
      · rw [isBlock] at regular
        apply wp_vhdTruncate
        · intro faults
          apply finish
          · have off : off + 512 = u.dataEnd * 512 + 512 := by
              rw [last, kept'.ends]
              unfold Handle.footedSize
              rw [if_neg (by simp [regular])]
            rw [off]
            exact (Handle.leaves_truncate kept'.disk kept'.room).keeps kept'.disk kept'.room
          · exact last
        · exact fun faults _ => kept'.trans ((Handle.leaves_faults kept'.disk).keeps kept'.disk kept'.room)
      · apply finish u (.refl kept'.disk kept'.room)
        rw [isBlock, Bool.not_eq_false] at block
        have whole : s.footedSize = s.file.size := if_pos block
        rw [size, file, last, whole, Nat.max_self]
    · exact fun _ u footed => kept.trans footed
  · exact fun _ t kept => kept

end Footer

end Blktap.Libvhd
