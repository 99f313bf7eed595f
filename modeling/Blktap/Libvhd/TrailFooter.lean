import Blktap.Libvhd.Trail
import Blktap.Libvhd.WriteImage

/-! # The footer at the end of a write -/

namespace Blktap.Libvhd
open Lib Action

structure Handle.Footed (s : Handle) : Prop where
  cookie : cookieIn s.footer = footerCookie ∨ cookieIn s.footer = poisonCookie
  whole : 512 ∣ s.file.size
  copy : ∀ o < 512, s.file.byte o = sealFooter s.footer o
  last : ∀ o < 512, s.file.last o = sealFooter s.footer o
  behind : s.dataEnd * 512 + 512 ≤ s.file.size

section Footer
variable {s t u : Handle} {blocks : List Nat} {off : Nat}

theorem Handle.Footed.trails (footed : s.Footed) : s.Trails blocks s :=
  ⟨rfl, Nat.le_refl _, footed.behind, fun _ => Nat.le_refl _, footed.whole,
    not_misleads_own (sealFooter_valid footed.cookie) footed.last, fun _ => Iff.rfl, fun _ _ => rfl,
    fun _ _ => rfl, fun _ allocated absent => absurd allocated absent⟩

theorem Handle.Trails.put_footer (trails : s.Trails blocks t) (footed : s.Footed) (disk : t.SoundDisk)
    (room : t.Room) (apart : off = 0 ∨ t.dataEnd * 512 ≤ off) (aligned : 512 ∣ off) {n : Nat}
    (part : n ≤ 512) (sectors : 512 ∣ n) {faults : List (Option Fault)} :
    s.Trails blocks ({ t with faults }.put off n (sealFooter t.footer)) := by
  have same : t.footer = s.footer := by rw [trails.fields]
  have outside : off + n ≤ 512 ∨ t.dataEnd * 512 ≤ off := by omega
  have leaves : t.Leaves ({ t with faults }.put off n (sealFooter t.footer)) :=
    Handle.leaves_put disk outside
  have table := Handle.table_le disk.laid
  have front := disk.laid.front
  apply trails.put disk.laid (leaves.writes disk room 0).edit (leaves.same disk room).2 aligned
    sectors
  · intro p low high inTable
    have inside := Handle.inTable disk.laid inTable
    omega
  · intro p low high outsidePart
    have before := Nat.lt_of_lt_of_le outsidePart.1 (Nat.mul_le_mul_right 512 trails.ends)
    obtain rfl : off = 0 := by omega
    rw [trails.outside p outsidePart, footed.copy p (by omega), same, Nat.sub_zero]
  · intro k here _
    obtain rfl : k = 0 := by omega
    rw [same]
    refine not_misleads_own (sealFooter_valid footed.cookie) fun o _ => ?_
    rw [Nat.zero_mul, Nat.zero_add]

theorem wp_vhdWriteFooterAt_trails (trails : s.Trails blocks t) (footed : s.Footed) (disk : t.SoundDisk)
    (room : t.Room) (apart : off = 0 ∨ t.dataEnd * 512 ≤ off) (aligned : 512 ∣ off) :
    wp (vhdWriteFooterAt off)
      (fun _ u => s.Trails blocks u ∧ ∀ o < 512, u.file.byte (off + o) = sealFooter s.footer o)
      (fun _ u => s.Trails blocks u) t := by
  have same : t.footer = s.footer := by rw [trails.fields]
  unfold vhdWriteFooterAt
  simp only [wp_bind, wp_get, wp_ite, wp_fail]
  refine ⟨fun _ => trails, fun _ => ?_⟩
  apply wp_vhdWrite
  · intro faults _
    refine ⟨trails.put_footer footed disk room apart aligned (Nat.le_refl _) (Nat.dvd_refl _),
      fun o small => ?_⟩
    refine (File.put_inside (Nat.le_add_right _ _) (Nat.add_lt_add_left small _)).trans ?_
    rw [Nat.add_sub_cancel_left, same]
  · exact fun faults _ n part rest => trails.put_footer footed disk room apart aligned part
      (sectors_part trails.whole aligned (Nat.dvd_refl _) rest)

theorem Handle.Trails.truncate (trails : s.Trails blocks t) (footed : s.Footed) (disk : t.SoundDisk)
    (room : t.Room) (regular : s.isBlock = false)
    (footer : ∀ o < 512, t.file.byte (t.dataEnd * 512 + o) = sealFooter s.footer o)
    {faults : List (Option Fault)} :
    s.Trails blocks { t with faults, file := t.file.truncate (t.dataEnd * 512 + 512) } := by
  have leaves : t.Leaves { t with faults, file := t.file.truncate (t.dataEnd * 512 + 512) } :=
    Handle.leaves_truncate disk room
  have edit := (leaves.writes disk room 0).edit
  have max : t.maxBatSize = s.maxBatSize := by rw [trails.fields]
  have bm : t.bmSecs = s.bmSecs := by rw [trails.fields]; rfl
  have spb : t.spb = s.spb := by rw [trails.fields]; rfl
  have byte : ∀ p, p < t.dataEnd * 512 + 512 →
      (t.file.truncate (t.dataEnd * 512 + 512)).byte p = t.file.byte p :=
    fun p inside => File.truncate_byte disk.laid.past inside
  have before := Nat.mul_le_mul_right 512 trails.ends
  refine ⟨trails.fields.trans rfl, trails.ends.trans (leaves.same disk room).2.ge,
    Nat.add_le_add_right before 512, fun isBlock => absurd isBlock (by simp [regular]),
    Nat.dvd_add (Nat.dvd_mul_left _ _) (Nat.dvd_refl _), ?_, fun p => ?_, fun p outside => ?_,
    fun block allocated => ?_, fun block allocated absent => ?_⟩
  · refine not_misleads_own (sealFooter_valid footed.cookie) fun o small => ?_
    unfold File.last
    change (t.file.truncate _).byte (t.dataEnd * 512 + 512 - 512 + o) = _
    rw [Nat.add_sub_cancel, byte _ (Nat.add_lt_add_left small _), footer o small]
  · rw [edit.inMetadata_iff disk.laid, trails.areas]
  · rw [← trails.outside p outside]
    exact byte p (Nat.lt_add_right _ (Nat.lt_of_lt_of_le outside.1 before))
  · rw [leaves.entry disk.laid (max ▸ allocated.1), trails.kept block allocated]
  · have bound : block < t.maxBatSize := allocated.1
    have entry := leaves.entry disk.laid bound
    have allocated : t.allocated block := ⟨bound, entry ▸ allocated.2⟩
    have last := Nat.mul_le_mul_right 512 (room.extents block allocated)
    rw [bm, spb] at last
    rw [entry]
    refine ⟨(trails.fresh block allocated absent).1, (trails.fresh block allocated absent).2.1, ?_,
      fun _ => Nat.le_add_right_of_le last⟩
    refine Nat.le_add_right_of_le (Nat.le_trans (Nat.mul_le_mul_right 512 ?_) last)
    exact Nat.le_add_right _ _

theorem wp_vhdWriteFooter_trails (trails : s.Trails blocks t) (footed : s.Footed) (disk : t.SoundDisk)
    (room : t.Room) (fits : t.FooterFits) :
    wp vhdWriteFooter (fun _ u => s.Trails blocks u) (fun _ u => s.Trails blocks u) t := by
  have offset : wp footerOffset (fun off u => s.Trails blocks u ∧ 512 ∣ off ∧
      (u.isBlock = false → off = u.dataEnd * 512)) (fun _ u => s.Trails blocks u) t := by
    unfold footerOffset
    simp only [wp_bind, wp_get, wp_ite, wp_pure]
    refine ⟨fun isBlock => ⟨trails, Nat.dvd_sub trails.whole (Nat.dvd_refl _), fun regular => ?_⟩,
      fun _ => ?_⟩
    · rw [isBlock] at regular
      cases regular
    · apply (wp_endOfData disk).mono
      · rintro _ u ⟨rfl, loads, _⟩
        refine ⟨trails.loads loads, Nat.dvd_mul_left _ _, fun _ => ?_⟩
        rw [loads.dataEnd]
        rfl
      · exact fun _ u loads => trails.loads loads
  unfold vhdWriteFooter
  simp only [wp_bind]
  apply ((wp_footerOffset disk room fits).and offset).mono
  · rintro off u ⟨⟨kept, _, behind, _⟩, trails', aligned, place⟩
    have apart : off = 0 ∨ u.dataEnd * 512 ≤ off := .inr (kept.ends ▸ behind)
    apply ((wp_vhdWriteFooterAt kept.disk kept.room apart).and
      (wp_vhdWriteFooterAt_trails trails' footed kept.disk kept.room apart aligned)).mono
    · rintro _ v ⟨⟨footed', _⟩, trailsFooter, footer⟩
      simp only [wp_get, wp_when]
      have finish : ∀ w : Handle, v.Kept w → s.Trails blocks w →
          (v.typeDynamic = true → wp (vhdWriteFooterAt 0)
            (fun _ x => s.Trails blocks x) (fun _ x => s.Trails blocks x) w) ∧
          (¬ v.typeDynamic = true → s.Trails blocks w) := by
        refine fun w more trailsCut => ⟨fun _ => ?_, fun _ => trailsCut⟩
        exact (wp_vhdWriteFooterAt_trails trailsCut footed more.disk more.room (.inl rfl)
          (Nat.dvd_zero _)).imp fun _ _ copied => copied.1
      have isBlock : v.isBlock = s.isBlock := by rw [trailsFooter.fields]
      have isBlock' : u.isBlock = s.isBlock := by rw [trails'.fields]
      refine ⟨fun regular => ?_, fun _ => finish v (.refl footed'.disk footed'.room) trailsFooter⟩
      rw [isBlock] at regular
      have here : off = v.dataEnd * 512 := by
        rw [footed'.ends]
        exact place (isBlock'.trans regular)
      rw [here] at footer ⊢
      apply wp_vhdTruncate
      · intro faults
        exact finish _ ((Handle.leaves_truncate footed'.disk footed'.room).keeps footed'.disk
          footed'.room) (trailsFooter.truncate footed footed'.disk footed'.room regular footer)
      · exact fun faults _ => trailsFooter.memory rfl rfl
          ((Handle.leaves_faults footed'.disk).same footed'.disk footed'.room).2
    · exact fun _ v failed => failed.2
  · exact fun _ u failed => failed.2

end Footer

section Write
variable {s t u : Handle} {blocks : List Nat} {sec secs bound : Nat} {buf : Nat → UInt8}

end Write

end Blktap.Libvhd
