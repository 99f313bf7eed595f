import Blktap.Lib.Liberal
import Blktap.Libvhd.Keeps
import Blktap.Libvhd.Resize

/-! # The size that a resize comes to -/

namespace Blktap.Libvhd.Resize
open Lib Action

def Tidy (s : Handle) : Prop := ∀ batmap, s.batmap = some batmap → batmap.header.valid = true

structure Peeks (s t : Handle) : Prop where
  fields : t = { s with bat := t.bat, batmap := t.batmap }
  tidy : Tidy s → Tidy t

structure Held (s t : Handle) : Prop where
  fields : t = { s with oldBitmap_eq := s.bitmap_eq, file := t.file, loc := t.loc, bat := t.bat, batmap := t.batmap
                        faults := t.faults }
  size : s.file.size ≤ t.file.size
  tidy : Tidy s → Tidy t
  map : t.batmap.isSome = s.batmap.isSome

section Relations
variable {s t u : Handle}

theorem Peeks.refl (s : Handle) : Peeks s s := ⟨rfl, id⟩

theorem Peeks.trans (first : Peeks s t) (second : Peeks t u) : Peeks s u := by
  refine ⟨?_, fun tidy => second.tidy (first.tidy tidy)⟩
  rw [second.fields, first.fields]

theorem Held.refl (s : Handle) : Held s s := ⟨rfl, le_rfl, id, rfl⟩

theorem Held.trans (first : Held s t) (second : Held t u) : Held s u := by
  refine ⟨?_, first.size.trans second.size, fun tidy => second.tidy (first.tidy tidy), second.map.trans first.map⟩
  rw [second.fields, first.fields]

instance : Std.Refl Peeks := ⟨Peeks.refl⟩
instance : IsTrans Handle Peeks := ⟨fun _ _ _ => Peeks.trans⟩
instance : Std.Refl Held := ⟨Held.refl⟩
instance : IsTrans Handle Held := ⟨fun _ _ _ => Held.trans⟩

theorem Peeks.of_bat (bat : Option Bat) : Peeks s { s with bat } := ⟨rfl, id⟩

theorem Peeks.of_map {batmap : Option Batmap} (tidy : ∀ b, batmap = some b → b.header.valid = true) :
    Peeks s { s with batmap } := ⟨rfl, fun _ => tidy⟩

theorem Peeks.held (peeks : Peeks s t) (map : t.batmap.isSome = s.batmap.isSome) : Held s t := by
  refine ⟨?_, ?_, peeks.tidy, map⟩
  · rw [peeks.fields]
  · rw [peeks.fields]

theorem hasBatmap_looks (has : hasBatmap s = true) : s.looksForBatmap = true := by
  unfold hasBatmap at has
  rw [Bool.or_eq_true, Bool.and_eq_true] at has
  exact has.elim Context.looks_of_has And.left

theorem hasBatmap_of_loaded (looks : s.looksForBatmap = true) (tidy : Tidy s) (loaded : s.batmap.isSome = true) :
    hasBatmap s = true := by
  obtain ⟨batmap, loaded⟩ := Option.isSome_iff_exists.mp loaded
  unfold hasBatmap
  rw [looks, loaded, Option.any_some, tidy batmap loaded, Bool.and_true, Bool.or_true]

end Relations

section Lookups
variable {s : Handle}

theorem valid_of_read {ctx : Context} {batmap : Batmap} (read : vhdReadBatmap ctx = .ok batmap) :
    batmap.header.valid = true := by
  unfold vhdReadBatmap at read
  split at read
  · cases read
  · obtain ⟨header, _, read⟩ := Outcome.bind_eq_ok.mp read
    split at read
    · cases read
    · rename_i valid
      split at read
      · cases read
      · obtain ⟨map, _, read⟩ := Outcome.bind_eq_ok.mp read
        split at read
        · cases read
        · cases read
          simpa using valid

theorem peeks_vhdGetBat : Steps Peeks vhdGetBat := by
  refine .bind .get fun s => .ite (.pure _) (.bind (.lift _) fun bat => .modify fun t => ?_)
  exact .of_bat _

theorem peeks_loadedBat : Steps Peeks loadedBat := by
  refine .bind .get fun s => ?_
  cases s.bat with
  | some bat => exact .pure _
  | none => exact .undefined

theorem peeks_vhdGetBatmap : Steps Peeks vhdGetBatmap := by
  refine .bind .get fun s => .ite (.fail _) (.ite .undefined ?_)
  cases s.batmap.filter s.validBatmap with
  | some batmap => exact .pure _
  | none =>
      refine .bind (.modify fun t => .of_map nofun) fun _ => .lift_bind fun batmap read => ?_
      refine .bind (.modify fun t => .of_map ?_) fun _ => .pure _
      rintro _ ⟨⟩
      exact valid_of_read read

theorem peeks_getMap : Steps Peeks getMap :=
  .bind .get fun _ => .when (.bind peeks_vhdGetBatmap fun _ => .pure _)

theorem peeks_endOfHeaders : Steps Peeks endOfHeaders :=
  .bind .get fun _ => .ite (.pure _) (.ite (.bind peeks_vhdGetBatmap fun _ => .pure _) (.pure _))

theorem peeks_endOfData : Steps Peeks endOfData := by
  refine .bind .get fun _ => .ite (.pure _) (.bind peeks_endOfHeaders fun _ => ?_)
  exact .bind peeks_vhdGetBat fun _ => .bind peeks_loadedBat fun _ => .pure _

theorem peeks_footerOffset : Steps Peeks footerOffset := .bind .get fun _ => .ite (.pure _) peeks_endOfData

theorem wlp_vhdGetBatmap : wlp vhdGetBatmap (fun _ t => t.batmap.isSome = true) (fun _ _ => True) s := by
  unfold vhdGetBatmap
  simp only [wlp_bind, wlp_get, wlp_ite, wlp_fail, implies_true, wlp_undefined, true_and]
  intro _ _
  cases kept : s.batmap.filter s.validBatmap with
  | some batmap =>
      rw [Option.filter_eq_some_iff] at kept
      rw [wlp_pure, kept.1]
      rfl
  | none =>
      simp only [wlp_bind, wlp_modify]
      exact wlp_lift (fun _ _ => rfl) fun _ _ => trivial

end Lookups

structure Sound (s : Handle) : Prop where
  dynamic : s.typeDynamic = true
  size : 1024 ≤ s.file.size
  carries : be64 s.footer 48 = s.currSize
  small : s.blockSize < 2 ^ 32
  tidy : Tidy s

structure Shows (n : Nat) (file : File) : Prop where
  first : be64 file.byte 48 = n
  last : be64 file.byte (file.size - 512 + 48) = n

structure Footed (n : Nat) (isBlock : Bool) (file : File) : Prop extends Shows n file where
  whole : isBlock = false → 512 ∣ file.size

section Footer
variable {s t u : Handle} {n off : Nat} {faults : List (Option Fault)}

theorem le_headersEnd (s : Handle) (header : Option BatmapHeader) : s.dataOffset + 1024 ≤ s.headersEnd header := by
  unfold Context.headersEnd
  refine le_trans ?_ (foldl_max_ge _ (fun loc : Locator => loc.code = 0) _ _)
  cases header <;> simp only <;> omega

theorem wlp_endOfHeaders (dynamic : s.typeDynamic = true) :
    wlp endOfHeaders (fun end' _ => s.dataOffset + 1024 ≤ end') (fun _ _ => True) s := by
  unfold endOfHeaders
  simp only [wlp_bind, wlp_get, dynamic, Bool.not_true, Bool.false_eq_true, if_false]
  split
  · rw [wlp_bind]
    exact wlp_vhdGetBatmap.mono (fun batmap _ _ => le_headersEnd s _) fun _ _ _ => trivial
  · exact le_headersEnd s none

theorem wlp_endOfData (dynamic : s.typeDynamic = true) :
    wlp endOfData (fun off _ => 512 ∣ off ∧ 1024 ≤ off) (fun _ _ => True) s := by
  unfold endOfData
  simp only [wlp_bind, wlp_get, dynamic, Bool.not_true, Bool.false_eq_true, if_false]
  apply (wlp_endOfHeaders dynamic).mono
  · intro headers t behind
    apply peeks_vhdGetBat.wlp.mono
    · intro _ t _
      apply peeks_loadedBat.wlp.mono
      · intro bat t _
        have last := (endOfExtents_le.mp (le_refl (s.endOfExtents headers bat))).1
        exact ⟨Nat.dvd_mul_left .., by omega⟩
      · exact fun _ _ _ => trivial
    · exact fun _ _ _ => trivial
  · exact fun _ _ _ => trivial

def Fits (isBlock : Bool) (file : File) (off : Nat) : Prop :=
  (isBlock = true ∧ off = file.size - 512) ∨ (isBlock = false ∧ 512 ∣ off ∧ 1024 ≤ off)

theorem wlp_footerOffset (sound : Sound s) : wlp footerOffset (fun off _ => Fits s.isBlock s.file off)
    (fun _ _ => True) s := by
  unfold footerOffset
  simp only [wlp_bind, wlp_get, wlp_ite, wlp_pure]
  refine ⟨fun device => .inl ⟨device, rfl⟩, fun regular => ?_⟩
  apply (wlp_endOfData sound.dynamic).mono
  · exact fun off _ behind => .inr ⟨by simpa using regular, behind⟩
  · exact fun _ _ _ => trivial

structure Rewrites (s t : Handle) : Prop where
  fields : t = { s with file := t.file, bat := t.bat, batmap := t.batmap, faults := t.faults }
  sound : Sound s → Sound t
  footed : Sound s → Footed s.currSize s.isBlock s.file → Footed s.currSize s.isBlock t.file

theorem Rewrites.refl (s : Handle) : Rewrites s s := ⟨rfl, id, fun _ => id⟩

theorem Rewrites.same (rewrites : Rewrites s t) : t.currSize = s.currSize ∧ t.isBlock = s.isBlock := by
  rw [rewrites.fields]
  exact ⟨rfl, rfl⟩

theorem Rewrites.trans (first : Rewrites s t) (second : Rewrites t u) : Rewrites s u := by
  refine ⟨?_, fun sound => second.sound (first.sound sound), fun sound footed => ?_⟩
  · rw [second.fields, first.fields]
  · have footed' := first.footed sound footed
    rw [← first.same.1, ← first.same.2] at footed' ⊢
    exact second.footed (first.sound sound) footed'

theorem Sound.of_same (sound : Sound s) (fields : t = { s with file := t.file, bat := t.bat, batmap := t.batmap
                                                               faults := t.faults })
    (size : 1024 ≤ t.file.size) (tidy : Tidy t) : Sound t := by
  refine ⟨?_, size, ?_, ?_, tidy⟩
  · rw [fields]
    exact sound.dynamic
  · rw [fields]
    exact sound.carries
  · rw [fields]
    exact sound.small

theorem Peeks.rewrites (peeks : Peeks s t) : Rewrites s t := by
  have file : t.file = s.file := by rw [peeks.fields]
  refine ⟨?_, fun sound => ?_, fun _ footed => ?_⟩
  · rw [peeks.fields]
  · refine sound.of_same ?_ (file ▸ sound.size) (peeks.tidy sound.tidy)
    rw [peeks.fields]
  · rw [file]
    exact footed

theorem be64_put_apart {file : File} {size p : Nat} {data : Nat → UInt8} (inside : p + 8 ≤ file.size)
    (apart : p + 8 ≤ off ∨ off + size ≤ p) : be64 (file.put off size data).byte p = be64 file.byte p := by
  have keeps : file.Keeps (fun q => p ≤ q ∧ q < p + 8) (file.put off size data) :=
    File.keeps_put (fun q member => by omega) fun q member => by omega
  exact be64_congr fun i small => (keeps (p + i) ⟨by omega, by omega⟩).2

theorem be64_put_here {file : File} {size p q : Nat} {data : Nat → UInt8} (there : q = off + p)
    (inside : p + 8 ≤ size) : be64 (file.put off size data).byte q = be64 data p := by
  apply be64_congr
  intro i small
  rw [File.put_inside (by omega) (by omega)]
  congr 1
  omega

theorem be64_put_none {file : File} {p : Nat} {data : Nat → UInt8} (inside : p + 8 ≤ file.size) :
    be64 (file.put off 0 data).byte p = be64 file.byte p := by
  apply be64_congr
  intro i small
  unfold File.put
  dsimp only
  rw [if_neg (by omega), if_pos (by omega)]

theorem put_size {file : File} {size : Nat} {data : Nat → UInt8} (positive : 0 < size) :
    (file.put off size data).size = max file.size (off + size) := if_neg (by omega)

theorem Footed.put {isBlock : Bool} {file : File} (footed : Footed n isBlock file) (size : 1024 ≤ file.size)
    {data : Nat → UInt8} (carries : be64 data 48 = n) (place : off = 0 ∨ Fits isBlock file off) {k : Nat}
    (part : k = 0 ∨ k = 512) : Footed n isBlock (file.put off k data) := by
  unfold Fits at place
  rcases part with rfl | rfl
  · have same : (file.put off 0 data).size = file.size := by
      unfold File.put
      rfl
    refine ⟨⟨?_, ?_⟩, ?_⟩
    · exact (be64_put_none (by omega)).trans footed.first
    · rw [same]
      exact (be64_put_none (by omega)).trans footed.last
    · rw [same]
      exact footed.whole
  · have apart : file.size ≤ off + 512 ∨ off + 512 ≤ file.size - 512 := by
      rcases place with front | ⟨_, last⟩ | ⟨regular, aligned, _⟩
      · omega
      · omega
      · have whole := footed.whole regular
        omega
    refine ⟨⟨?_, ?_⟩, ?_⟩
    · by_cases front : off = 0
      · exact (be64_put_here (by omega) (by omega)).trans carries
      · exact (be64_put_apart (by omega) (by omega)).trans footed.first
    · rw [put_size (by omega)]
      rcases apart with ends | apart
      · rw [max_eq_right ends, Nat.add_sub_cancel]
        exact (be64_put_here rfl (by omega)).trans carries
      · rw [max_eq_left (by omega)]
        exact (be64_put_apart (by omega) (by omega)).trans footed.last
    · rw [put_size (by omega)]
      intro regular
      have whole := footed.whole regular
      omega

theorem be64_seal (footer : Nat → UInt8) : be64 (sealFooter footer) 48 = be64 footer 48 :=
  be64_congr fun i small => sealFooter_front (by omega)

theorem Sound.rewrites_put (sound : Sound s) {data : Nat → UInt8} (carries : be64 data 48 = s.currSize)
    (place : off = 0 ∨ Fits s.isBlock s.file off) {k : Nat}
    (part : k = 512 ∨ 512 ∣ k ∨ off + k = s.file.size) (bound : k ≤ 512) :
    Rewrites s ({ s with faults }.put off k data) := by
  have grown : s.file.size ≤ (s.file.put off k data).size := File.le_put_size ..
  refine ⟨rfl, fun _ => sound.of_same rfl (sound.size.trans grown) sound.tidy, fun _ footed => ?_⟩
  refine footed.put sound.size carries place ?_
  have size := sound.size
  rcases part with whole | aligned | ends
  · exact .inr whole
  · omega
  · rcases place with front | ⟨_, last⟩ | ⟨regular, aligned, _⟩
    · omega
    · omega
    · have whole := footed.whole regular
      omega

theorem wlp_vhdWriteFooterAt (sound : Sound s) (place : off = 0 ∨ Fits s.isBlock s.file off) :
    wlp (vhdWriteFooterAt off)
      (fun _ t => Rewrites s t ∧ t.file = s.file.put off 512 (sealFooter s.footer)) (fun _ t => Rewrites s t) s := by
  have carries : be64 (sealFooter s.footer) 48 = s.currSize := (be64_seal _).trans sound.carries
  unfold vhdWriteFooterAt
  simp only [wlp_bind, wlp_get, wlp_ite, wlp_fail]
  refine ⟨fun _ => .refl s, fun _ => (wp_vhdWrite ?_ ?_).wlp⟩
  · exact fun faults _ => ⟨sound.rewrites_put carries place (.inl rfl) le_rfl, rfl⟩
  · exact fun faults _ k bound part => sound.rewrites_put carries place part bound

theorem be64_truncate {file : File} {stop p : Nat} (inside : stop ≤ file.size) (front : p + 8 ≤ stop) :
    be64 (file.truncate stop).byte p = be64 file.byte p :=
  be64_congr fun i small => (File.keeps_truncate inside (p + i) (show p + i < stop by omega)).2

theorem Sound.rewrites_truncate (sound : Sound s) (there : be64 s.file.byte (off + 48) = s.currSize)
    (inside : off + 512 ≤ s.file.size) (aligned : 512 ∣ off) (behind : 1024 ≤ off) :
    Rewrites s { s with faults, file := s.file.truncate (off + 512) } := by
  have size : (s.file.truncate (off + 512)).size = off + 512 := rfl
  refine ⟨rfl, fun _ => sound.of_same rfl ?_ sound.tidy, fun _ footed => ⟨⟨?_, ?_⟩, fun _ => ?_⟩⟩
  · change 1024 ≤ off + 512
    omega
  · exact (be64_truncate inside (by omega)).trans footed.first
  · rw [size, Nat.add_sub_cancel]
    exact (be64_truncate inside (by omega)).trans there
  · rw [size]
    omega

structure Ends (n off : Nat) (isBlock : Bool) (file : File) : Prop where
  last : be64 file.byte (off + 48) = n
  size : file.size = off + 512
  behind : 512 ≤ off
  whole : isBlock = false → 512 ∣ off

theorem Ends.copied {isBlock : Bool} {file : File} (ends : Ends n off isBlock file) {data : Nat → UInt8}
    (carries : be64 data 48 = n) : Footed n isBlock (file.put 0 512 data) := by
  have size := ends.size
  have behind := ends.behind
  have same : (file.put 0 512 data).size = off + 512 := by
    rw [put_size (by omega)]
    omega
  refine ⟨⟨?_, ?_⟩, fun regular => ?_⟩
  · exact (be64_put_here (by omega) (by omega)).trans carries
  · rw [same, Nat.add_sub_cancel]
    exact (be64_put_apart (by omega) (by omega)).trans ends.last
  · have whole := ends.whole regular
    omega

theorem wlp_vhdWriteFooter (sound : Sound s) :
    wlp vhdWriteFooter (fun _ t => Rewrites s t ∧ Footed s.currSize s.isBlock t.file) (fun _ t => Rewrites s t) s := by
  unfold vhdWriteFooter
  rw [wlp_bind]
  apply ((wlp_footerOffset sound).and peeks_footerOffset.wlp).mono
  · rintro off t ⟨fits, peeks⟩
    have sound' := peeks.rewrites.sound sound
    have file : t.file = s.file := by rw [peeks.fields]
    have isBlock := peeks.rewrites.same.2
    have fits' : Fits t.isBlock t.file off := by rwa [file, isBlock]
    rw [wlp_bind]
    apply (wlp_vhdWriteFooterAt sound' (.inr fits')).mono
    · rintro _ u ⟨wrote, written⟩
      have kept := peeks.rewrites.trans wrote
      have sound'' := kept.sound sound
      have finish : ∀ w, Rewrites u w → Ends s.currSize off s.isBlock w.file →
          wlp (when (u.typeDynamic = true) (vhdWriteFooterAt 0))
            (fun _ t => Rewrites s t ∧ Footed s.currSize s.isBlock t.file) (fun _ t => Rewrites s t) w := by
        intro w more ends
        have kept' := kept.trans more
        rw [wlp_when]
        refine ⟨fun _ => ?_, fun fixed => absurd sound''.dynamic fixed⟩
        apply (wlp_vhdWriteFooterAt (more.sound sound'') (.inl rfl)).mono
        · rintro _ x ⟨copied, written'⟩
          refine ⟨kept'.trans copied, ?_⟩
          rw [written']
          refine ends.copied ?_
          rw [be64_seal, (more.sound sound'').carries, kept'.same.1]
        · exact fun _ _ copied => kept'.trans copied
      have there : be64 u.file.byte (off + 48) = s.currSize := by
        rw [written, be64_put_here rfl (by omega), be64_seal, sound'.carries, peeks.rewrites.same.1]
      have size : u.file.size = max s.file.size (off + 512) := by
        rw [written, put_size (by omega), file]
      have isBlock' : u.isBlock = s.isBlock := kept.same.2
      have enough := sound.size
      rw [wlp_bind, wlp_get, wlp_bind, wlp_when, isBlock']
      refine ⟨fun regular => ?_, fun device => ?_⟩
      · obtain ⟨device, _⟩ | ⟨_, aligned, behind⟩ := fits
        · rw [regular] at device
          cases device
        have inside : off + 512 ≤ u.file.size := by omega
        apply (wp_vhdTruncate (fun faults => ?_) fun faults code => ?_).wlp
        · refine finish _ (sound''.rewrites_truncate (there.trans kept.same.1.symm) inside aligned behind) ?_
          exact ⟨(be64_truncate inside (by omega)).trans there, rfl, by omega, fun _ => aligned⟩
        · refine kept.trans ⟨rfl, fun sound => ?_, fun _ => id⟩
          exact sound.of_same rfl sound.size sound.tidy
      · obtain ⟨device, last⟩ | ⟨regular, _⟩ := fits
        · refine finish u (.refl u) ⟨there, by omega, by omega, fun regular => ?_⟩
          rw [device] at regular
          cases regular
        · exact absurd regular device
    · exact fun _ _ wrote => peeks.rewrites.trans wrote
  · exact fun _ _ both => both.2.rewrites

end Footer

section Data
variable {s t : Handle} {r : Resize}

theorem Held.of_put {faults : List (Option Fault)} {off size : Nat} {data : Nat → UInt8} :
    Held s ({ s with faults }.put off size data) := ⟨rfl, File.le_put_size .., id, rfl⟩

theorem held_vhdWrite (off size : Nat) (data : Nat → UInt8) : Steps Held (vhdWrite off size data) := by
  intro s
  unfold vhdWrite
  dsimp only
  split
  · exact .of_put
  · split
    · exact .of_put
    · exact .of_put

theorem held_vhdGetBat : Steps Held vhdGetBat :=
  .bind .get fun _ => .ite (.pure _) (.bind (.lift _) fun _ => .modify fun _ => ⟨rfl, le_rfl, id, rfl⟩)

theorem held_loadedBat : Steps Held loadedBat := by
  refine .bind .get fun s => ?_
  cases s.bat with
  | some bat => exact .pure _
  | none => exact .undefined

theorem held_loadedMap : Steps Held loadedMap := by
  refine .bind .get fun s => .ite (.pure _) ?_
  cases s.batmap with
  | some batmap => exact .pure _
  | none => exact .undefined

theorem held_call (result : Option Int) : Steps Held (call result) := by
  cases result with
  | some code => exact .fail _
  | none => exact .pure _

theorem held_writePieces (map pieces off size : Nat) : Steps Held (writePieces map pieces off size) := by
  induction pieces generalizing off size with
  | zero => exact .pure _
  | succ pieces ih => exact .bind (held_vhdWrite _ _ _) fun _ => ih _ _

theorem held_vhdWriteZeros (off size : Nat) : Steps Held (vhdWriteZeros off size) :=
  .ite (.fail _) (held_writePieces _ _ _ _)

theorem held_vhdJournalAddBlock (turn block : Nat) : Steps Held (r.vhdJournalAddBlock turn block) := by
  refine .bind held_vhdGetBat fun _ => .bind .get fun s => .bind held_loadedBat fun bat => ?_
  refine .ite (.fail _) (.ite (.pure _) ?_)
  refine .bind (.lift _) fun _ => .bind (held_call _) fun _ => .bind (.lift _) fun _ => ?_
  exact .bind (held_call _) fun _ => held_call _

theorem held_vhdMoveBlock (turn src offset : Nat) : Steps Held (r.vhdMoveBlock turn src offset) := by
  refine .bind held_loadedBat fun bat => .ite (.fail _) ?_
  refine .bind (held_vhdJournalAddBlock _ _) fun _ => .bind .get fun s => ?_
  refine .bind (.lift _) fun map => .bind (held_vhdWrite _ _ _) fun _ => .bind .get fun s => ?_
  refine .bind (.lift _) fun block => .bind (held_vhdWrite _ _ _) fun _ => ?_
  exact .bind (.modify fun _ => ⟨rfl, le_rfl, id, rfl⟩) fun _ => held_vhdWriteZeros _ _

theorem held_moveBlocks (eom turns : Nat) : Steps Held (r.moveBlocks eom turns) := by
  induction turns with
  | zero => exact .undefined
  | succ turn ih =>
      refine .bind .get fun s => .bind held_loadedBat fun bat => ?_
      refine .bind (.when (held_vhdWriteZeros _ _)) fun _ => .bind (held_vhdMoveBlock _ _ _) fun _ => ?_
      exact .bind held_loadedBat fun bat => .when ih

theorem held_vhdCheckForClobber (off : Nat) (skip : List Part) : Steps Held (vhdCheckForClobber off skip) :=
  .bind .get fun _ => .bind held_loadedBat fun _ => .bind held_loadedMap fun _ => .when (.fail _)

theorem held_shiftLocators (needed : Nat) (names : List (Option (Nat → UInt8))) (i : Nat) :
    Steps Held (shiftLocators needed names i) := by
  induction names generalizing i with
  | nil => exact .pure _
  | cons name rest ih =>
      cases name with
      | none => exact ih _
      | some name =>
          refine .bind .get fun s => .bind (held_vhdCheckForClobber _ _) fun _ => ?_
          refine .bind (held_vhdWrite _ _ _) fun _ => .bind (.modify fun _ => ⟨rfl, le_rfl, id, rfl⟩) fun _ => ih _

theorem shiftMap_valid (eob needed : Nat) (batmap : Batmap) :
    (shiftMap eob needed batmap).header.valid = batmap.header.valid := by
  unfold shiftMap
  split <;> rfl

theorem held_vhdShiftMetadata (eob batNeeded mapNeeded : Nat) :
    Steps Held (vhdShiftMetadata eob batNeeded mapNeeded) := by
  refine .bind .get fun s => .bind (.lift _) fun names => .bind (held_shiftLocators _ _ _) fun _ => ?_
  refine .bind .get fun _ => .when (.modify fun s => ⟨rfl, le_rfl, fun tidy => ?_, Option.isSome_map⟩)
  intro batmap shifted
  obtain ⟨before, loaded, rfl⟩ := Option.map_eq_some_iff.mp shifted
  rw [shiftMap_valid]
  exact tidy before loaded

theorem held_clearWay (eom batNeeded mapNeeded : Nat) : Steps Held (r.clearWay eom batNeeded mapNeeded) := by
  refine .bind .get fun s => .bind held_loadedBat fun bat => ?_
  exact .bind (.when (held_moveBlocks _ _)) fun _ => held_vhdShiftMetadata _ _ _

theorem held_vhdWriteHeader (header : Nat → UInt8) : Steps Held (vhdWriteHeader header) :=
  .bind .get fun _ => .ite (.fail _) (.ite (.fail _) (held_vhdWrite _ _ _))

theorem held_extendBat (old entries : Nat) : Steps Held (r.extendBat old entries) := by
  refine .bind .get fun s => .bind held_loadedBat fun bat => .ite .undefined ?_
  exact .bind (held_vhdWrite _ _ _) fun _ => .modify fun _ => ⟨rfl, le_rfl, id, rfl⟩

theorem held_vhdWriteBatmap (batmap : Batmap) : Steps Held (vhdWriteBatmap batmap) := by
  refine .bind (.attempt (.bind .get fun s => .ite .undefined ?_)) fun _ => .pure _
  exact .bind (held_vhdWrite _ _ _) fun _ => held_vhdWrite _ _ _

theorem held_checkEntries (entries : Nat) : Steps Held (checkEntries entries) := by
  refine .bind .get fun s => .bind (held_vhdCheckForClobber _ _) fun _ => .bind held_loadedMap fun batmap => ?_
  cases batmap with
  | some batmap => exact held_vhdCheckForClobber _ _
  | none => exact .pure _

end Data

structure Settled (has : Bool) (s : Handle) : Prop where
  loaded : has = true → s.looksForBatmap = true ∧ s.batmap.isSome = true
  unloaded : has = false → s.looksForBatmap = false ∨ s.batmap = none

section Settled
variable {s t u : Handle} {r : Resize} {has : Bool}

theorem Held.settled (held : Held s t) (settled : Settled has s) : Settled has t := by
  have looks : t.looksForBatmap = s.looksForBatmap := by
    rw [held.fields]
    rfl
  refine ⟨fun yes => ?_, fun no => ?_⟩
  · rw [looks, held.map]
    exact settled.loaded yes
  · rw [looks, ← Option.isNone_iff_eq_none, ← Option.not_isSome, held.map, Option.not_isSome,
      Option.isNone_iff_eq_none]
    exact settled.unloaded no

theorem Settled.hasBatmap_eq (settled : Settled has s) (tidy : Tidy s)
    (loads : hasBatmap s = true → s.batmap.isSome = true) : hasBatmap s = has := by
  cases has with
  | true => exact hasBatmap_of_loaded (settled.loaded rfl).1 tidy (settled.loaded rfl).2
  | false =>
      rw [Bool.eq_false_iff]
      intro has
      have some := loads has
      rcases settled.unloaded rfl with blind | none
      · rw [hasBatmap_looks has] at blind
        cases blind
      · rw [none] at some
        cases some

theorem wlp_loadedMap (settled : Settled has s) (tidy : Tidy s) :
    wlp loadedMap (fun batmap t => t = s ∧ hasBatmap s = has ∧ batmap.isSome = has ∧
      ∀ b, batmap = some b → s.batmap = some b) (fun _ _ => True) s := by
  unfold loadedMap
  rw [wlp_bind, wlp_get]
  cases present : hasBatmap s with
  | false =>
      have same := settled.hasBatmap_eq tidy fun has => absurd has (by rw [present]; nofun)
      rw [present] at same
      exact ⟨rfl, same, same, nofun⟩
  | true =>
      cases loaded : s.batmap with
      | none => trivial
      | some batmap =>
          have same := settled.hasBatmap_eq tidy fun _ => by rw [loaded]; rfl
          rw [present] at same
          exact ⟨rfl, same, same, fun _ same => same⟩

theorem wlp_endOfHeaders_held (loads : hasBatmap s = true → s.batmap.isSome = true) :
    wlp endOfHeaders (fun _ t => Held s t) (fun _ _ => True) s := by
  have kept : wlp endOfHeaders (fun _ t => t.batmap.isSome = s.batmap.isSome) (fun _ _ => True) s := by
    unfold endOfHeaders
    rw [wlp_bind, wlp_get, wlp_ite]
    refine ⟨fun _ => rfl, fun _ => ?_⟩
    rw [wlp_ite, wlp_bind]
    refine ⟨fun has => ?_, fun _ => rfl⟩
    exact wlp_vhdGetBatmap.mono (fun _ t loaded => loaded.trans (loads has).symm) fun _ _ _ => trivial
  apply (kept.and peeks_endOfHeaders.wlp).mono
  · exact fun _ t both => both.2.held both.1
  · exact fun _ _ _ => trivial

theorem wlp_makeRoom (settled : Settled has s) (tidy : Tidy s) (blocks : Nat) :
    wlp (r.makeRoom blocks) (fun _ t => Held s t) (fun _ _ => True) s := by
  unfold makeRoom
  rw [wlp_bind, wlp_get, wlp_bind]
  apply (wlp_loadedMap settled tidy).mono
  · rintro batmap s ⟨rfl, present, some, loaded⟩
    dsimp only
    rw [wlp_ite]
    refine ⟨fun _ => .refl _, fun _ => ?_⟩
    rw [wlp_bind]
    have loads : hasBatmap s = true → s.batmap.isSome = true := by
      intro has
      obtain ⟨b, found⟩ := Option.isSome_iff_exists.mp ((some.trans present.symm).trans has)
      rw [loaded b found]
      rfl
    apply (wlp_endOfHeaders_held loads).mono
    · exact fun eom t held => (held_clearWay _ _ _).wlp.mono (fun _ _ more => held.trans more) fun _ _ _ => trivial
    · exact fun _ _ _ => trivial
  · exact fun _ _ _ => trivial

theorem Held.sound (held : Held s t) (sound : Sound s) : Sound t := by
  have size := sound.size.trans held.size
  refine ⟨?_, size, ?_, ?_, held.tidy sound.tidy⟩
  · rw [held.fields]
    exact sound.dynamic
  · rw [held.fields]
    exact sound.carries
  · rw [held.fields]
    exact sound.small

theorem resizeTo_currSize (s : Handle) (size : Nat) : (resizeTo s size).currSize = size := rfl

theorem resizeTo_maxBatSize (s : Handle) (size : Nat) : (resizeTo s size).maxBatSize = s.maxBatSize := rfl

theorem resizeTo_blockSize (s : Handle) (size : Nat) : (resizeTo s size).blockSize = s.blockSize := rfl

theorem Sound.resizeTo (sound : Sound s) {size : Nat} (bound : size < 2 ^ 64) : Sound (resizeTo s size) where
  dynamic := sound.dynamic
  size := sound.size
  carries := by
    refine be64_beByte bound fun i small => ?_
    unfold Resize.resizeTo MapBounds.resizeFooter
    dsimp only
    rw [if_pos (by omega), Nat.add_sub_cancel_left]
  small := sound.small
  tidy := sound.tidy

theorem wlp_extendMap (loaded : s.batmap.isSome = true) {batmap : Batmap} (valid : batmap.header.valid = true)
    (old entries : Nat) : wlp (extendMap old entries batmap) (fun _ t => Held s t) (fun _ _ => True) s := by
  unfold extendMap
  dsimp only
  rw [wlp_ite]
  refine ⟨fun _ => trivial, fun _ => ?_⟩
  rw [wlp_bind]
  apply (held_vhdWriteBatmap _).wlp.mono
  · intro _ t held
    rw [wlp_modify]
    refine held.trans ⟨rfl, le_rfl, fun _ => ?_, ?_⟩
    · rintro _ ⟨⟩
      exact valid
    · rw [held.map, loaded]
      rfl
  · exact fun _ _ _ => trivial

structure Added (has : Bool) (blocks : Nat) (s t : Handle) : Prop where
  sound : Sound t
  blockSize : t.blockSize = s.blockSize
  unmapped : has = false → t.currSize = s.currSize
  mapped : has = true → t.currSize = blocks * s.blockSize ∧ t.maxBatSize = blocks ∧
    Footed t.currSize t.isBlock t.file

theorem wlp_finishEntries (sound : Sound s) (settled : Settled has s) (old : Nat) {blocks : Nat}
    (bound : blocks < 2 ^ 32) (size : s.maxBatSize = blocks) :
    wlp (finishEntries old blocks) (fun _ t => Added has blocks s t) (fun _ _ => True) s := by
  unfold finishEntries
  rw [wlp_bind]
  apply (wlp_loadedMap settled sound.tidy).mono
  · rintro batmap s ⟨rfl, _, some, loaded⟩
    cases batmap with
    | none =>
        refine ⟨sound, rfl, fun _ => rfl, fun yes => ?_⟩
        rw [yes] at some
        cases some
    | some batmap =>
        have there := loaded batmap rfl
        dsimp only
        rw [wlp_bind]
        apply (wlp_extendMap (by rw [there]; rfl) (sound.tidy batmap there) old blocks).mono
        · intro _ t held
          rw [wlp_bind, wlp_modify]
          have blockSize : t.blockSize = s.blockSize := by rw [held.fields]
          have fits : blocks * t.blockSize < 2 ^ 64 :=
            lt_of_lt_of_le (Nat.mul_lt_mul'' bound (blockSize ▸ sound.small)) (by decide)
          apply (wlp_vhdWriteFooter ((held.sound sound).resizeTo fits)).mono
          · rintro _ u ⟨rewrites, footed⟩
            have currSize : u.currSize = blocks * t.blockSize := rewrites.same.1
            have isBlock : u.isBlock = t.isBlock := rewrites.same.2
            refine ⟨rewrites.sound ((held.sound sound).resizeTo fits), ?_, fun no => ?_, fun _ => ⟨?_, ?_, ?_⟩⟩
            · rw [← blockSize, rewrites.fields]
              rfl
            · rw [no] at some
              cases some
            · rw [currSize, blockSize]
            · rw [← size, rewrites.fields]
              change t.maxBatSize = s.maxBatSize
              rw [held.fields]
            · rw [currSize, isBlock]
              exact footed
          · exact fun _ _ _ => trivial
        · exact fun _ _ _ => trivial
  · exact fun _ _ _ => trivial

theorem Added.of_fields {blocks : Nat} (added : Added has blocks t u) (blockSize : t.blockSize = s.blockSize)
    (currSize : t.currSize = s.currSize) : Added has blocks s u :=
  ⟨added.sound, added.blockSize.trans blockSize, fun no => (added.unmapped no).trans currSize,
    fun yes => blockSize ▸ added.mapped yes⟩

theorem wlp_vhdAddBatEntries (sound : Sound s) (settled : Settled has s) (entries : Nat) :
    wlp (r.vhdAddBatEntries entries) (fun _ t => Added has ((s.maxBatSize + entries) % 2 ^ 32) s t)
      (fun _ _ => True) s := by
  unfold vhdAddBatEntries
  rw [wlp_bind, wlp_get, wlp_bind]
  apply (held_checkEntries _).wlp.mono
  · intro _ a checked
    rw [wlp_bind, wlp_modify, wlp_bind, wlp_get, wlp_bind]
    generalize blocksEq : (s.maxBatSize + entries) % 2 ^ 32 = blocks
    have bound : blocks < 2 ^ 32 := blocksEq ▸ Nat.mod_lt _ (by decide)
    have soundA := checked.sound sound
    have settledA := checked.settled settled
    let b : Handle := { a with oldBitmap_eq := a.bitmap_eq, maxBatSize := blocks }
    have soundB : Sound b := ⟨soundA.dynamic, soundA.size, soundA.carries, soundA.small, soundA.tidy⟩
    have settledB : Settled has b := ⟨settledA.loaded, settledA.unloaded⟩
    apply (held_vhdWriteHeader _).wlp.mono
    · intro _ c wrote
      rw [wlp_bind]
      apply (held_extendBat _ _).wlp.mono
      · intro _ d extended
        have held : Held b d := wrote.trans extended
        have size : d.maxBatSize = blocks := by rw [held.fields]
        apply (wlp_finishEntries (held.sound soundB) (held.settled settledB) _ bound size).mono
        · intro _ t added
          refine added.of_fields ?_ ?_
          · rw [held.fields, ← show a.blockSize = s.blockSize by rw [checked.fields]]
          · rw [held.fields, ← show a.currSize = s.currSize by rw [checked.fields]]
        · exact fun _ _ _ => trivial
      · exact fun _ _ _ => trivial
    · exact fun _ _ _ => trivial
  · exact fun _ _ _ => trivial

theorem wlp_vhdGetBat : wlp vhdGetBat
    (fun _ t => t = { s with bat := t.bat } ∧ (s.bat = none → s.typeDynamic = true)) (fun _ _ => True) s := by
  unfold vhdGetBat
  rw [wlp_bind, wlp_get, wlp_ite]
  refine ⟨fun loaded => ⟨rfl, fun none => ?_⟩, fun _ => ?_⟩
  · rw [none] at loaded
    cases loaded
  · rw [wlp_bind]
    refine wlp_lift (fun bat read => ⟨rfl, fun _ => ?_⟩) fun _ _ => trivial
    unfold vhdReadBat at read
    split at read
    · cases read
    · rename_i dynamic
      simpa using dynamic

theorem wlp_getMap (tidy : Tidy s) :
    wlp getMap (fun _ t => Peeks s t ∧ Settled (hasBatmap s) t) (fun _ _ => True) s := by
  have kept : wlp getMap (fun _ t => (hasBatmap s = true → t.batmap.isSome = true) ∧
      (hasBatmap s = false → t.batmap = s.batmap)) (fun _ _ => True) s := by
    unfold getMap
    rw [wlp_bind, wlp_get, wlp_when, wlp_bind]
    refine ⟨fun has => ?_, fun blind => ⟨fun has => absurd has blind, fun _ => rfl⟩⟩
    refine wlp_vhdGetBatmap.mono (fun _ t loaded => ⟨fun _ => loaded, fun no => ?_⟩) fun _ _ _ => trivial
    rw [has] at no
    cases no
  apply (kept.and peeks_getMap.wlp).mono
  · rintro _ t ⟨⟨loaded, unloaded⟩, peeks⟩
    have looks : t.looksForBatmap = s.looksForBatmap := by
      rw [peeks.fields]
    refine ⟨peeks, fun yes => ⟨looks.trans (hasBatmap_looks yes), loaded yes⟩, fun no => ?_⟩
    rw [looks, unloaded no]
    by_contra neither
    push Not at neither
    have some := Option.isSome_iff_ne_none.mpr neither.2
    rw [hasBatmap_of_loaded (by simpa using neither.1) tidy some] at no
    cases no
  · exact fun _ _ _ => trivial

theorem wlp_vhdDynamicGrow (sound : Sound s) (settled : Settled has s) (secs : Nat) :
    wlp (r.vhdDynamicGrow secs)
      (fun _ t => s.spb ≠ 0 ∧ Added has ((s.maxBatSize + secsToBlocksUp s.toVhd secs) % 2 ^ 32) s t)
      (fun _ _ => True) s := by
  unfold vhdDynamicGrow
  rw [wlp_bind, wlp_get, wlp_ite]
  refine ⟨fun _ => trivial, fun positive => ?_⟩
  rw [wlp_bind]
  apply (wlp_makeRoom settled sound.tidy _).mono
  · intro _ t held
    have size : t.maxBatSize = s.maxBatSize := by rw [held.fields]
    rw [← size]
    refine (wlp_vhdAddBatEntries (held.sound sound) (held.settled settled) _).mono (fun _ u added => ?_)
      fun _ _ _ => trivial
    refine ⟨positive, added.of_fields ?_ ?_⟩
    · rw [held.fields]
    · rw [held.fields]
  · exact fun _ _ _ => trivial

def grownSize (r : Resize) (s : Handle) : Nat :=
  (s.maxBatSize + secsToBlocksUp s.toVhd (r.newSecs - s.currSize / 512)) % 2 ^ 32

theorem wlp_vhdDynamicResize (sound : Sound s) :
    wlp r.vhdDynamicResize
      (fun _ t => (s.currSize / 512 = r.newSecs ∧ t = s) ∨
        (s.currSize / 512 < r.newSecs ∧ s.spb ≠ 0 ∧ Added (hasBatmap s) (r.grownSize s) s t))
      (fun _ _ => True) s := by
  unfold vhdDynamicResize
  rw [wlp_bind, wlp_get, wlp_ite]
  refine ⟨fun same => .inl ⟨same, rfl⟩, fun differ => ?_⟩
  rw [wlp_bind]
  apply (wlp_vhdGetBat.and peeks_vhdGetBat.wlp).mono
  · rintro _ t ⟨⟨fields, _⟩, peeks⟩
    have sound' := peeks.rewrites.sound sound
    rw [wlp_bind]
    apply (wlp_getMap sound'.tidy).mono
    · rintro _ u ⟨more, settled⟩
      have peeks' := peeks.trans more
      have has : hasBatmap t = hasBatmap s := by
        rw [fields]
        rfl
      rw [has] at settled
      rw [wlp_ite]
      refine ⟨fun _ => trivial, fun grows => ?_⟩
      have sound'' := peeks'.rewrites.sound sound
      refine (wlp_vhdDynamicGrow sound'' settled _).mono (fun _ w grown => .inr ?_) fun _ _ _ => trivial
      have size : u.maxBatSize = s.maxBatSize := by rw [peeks'.fields]
      have blocks : secsToBlocksUp u.toVhd = secsToBlocksUp s.toVhd := by
        rw [peeks'.fields]
      rw [size, blocks] at grown
      refine ⟨by omega, ?_, grown.2.of_fields ?_ ?_⟩
      · rw [peeks'.fields] at grown
        exact grown.1
      · rw [peeks'.fields]
      · rw [peeks'.fields]
    · exact fun _ _ _ => trivial
  · exact fun _ _ _ => trivial

end Settled

section Calls
variable {s t u : Handle} {r : Resize} {n : Nat}

theorem Sound.withCookie (sound : Sound s) (cookie : List UInt8) :
    Sound { s with footer := withCookie cookie s.footer } where
  dynamic := sound.dynamic
  size := sound.size
  carries := by
    refine (be64_congr fun i small => ?_).trans sound.carries
    exact if_neg (by omega)
  small := sound.small
  tidy := sound.tidy

structure Sizes (s t : Handle) : Prop where
  currSize : t.currSize = s.currSize
  maxBatSize : t.maxBatSize = s.maxBatSize
  blockSize : t.blockSize = s.blockSize

theorem Rewrites.sizes (rewrites : Rewrites s t) : Sizes s t := by
  refine ⟨?_, ?_, ?_⟩
  · rw [rewrites.fields]
  · rw [rewrites.fields]
  · rw [rewrites.fields]

theorem Sizes.trans (first : Sizes s t) (second : Sizes t u) : Sizes s u :=
  ⟨second.currSize.trans first.currSize, second.maxBatSize.trans first.maxBatSize,
    second.blockSize.trans first.blockSize⟩

theorem wlp_call (result : Option Int) : wlp (call result) (fun _ t => t = s) (fun _ _ => True) s := by
  cases result with
  | some code => trivial
  | none => rfl

structure Disabled (s d : Handle) : Prop extends Sizes s d where
  sound : Sound d
  footed : Footed d.currSize d.isBlock d.file

theorem wlp_vhdJournalCreate (bare : s.bat = none) (sound : s.typeDynamic = true → Sound s) :
    wlp r.vhdJournalCreate (fun _ d => Disabled s d) (fun _ _ => True) s := by
  unfold vhdJournalCreate
  rw [wlp_bind]
  apply (wlp_vhdGetBat.and peeks_vhdGetBat.wlp).mono
  · rintro _ a ⟨⟨_, dynamic⟩, peeks⟩
    rw [wlp_bind]
    apply (peeks_getMap.wlp).mono
    · intro _ b more
      have looked := (peeks.trans more).rewrites
      have soundB := looked.sound (sound (dynamic bare))
      rw [wlp_bind]
      apply (wlp_call _).mono
      · rintro _ _ rfl
        rw [wlp_bind, wlp_modify, wlp_bind]
        apply (wlp_vhdWriteFooter (soundB.withCookie poisonCookie)).mono
        · rintro _ d ⟨disables, footed⟩
          apply (wlp_call _).mono
          · rintro _ d rfl
            have sizes : Sizes s d := looked.sizes.trans ⟨disables.sizes.currSize, disables.sizes.maxBatSize,
              disables.sizes.blockSize⟩
            refine ⟨sizes, disables.sound (soundB.withCookie _), ?_⟩
            rw [disables.same.1, disables.same.2]
            exact footed
          · exact fun _ _ _ => trivial
        · exact fun _ _ _ => trivial
      · exact fun _ _ _ => trivial
    · exact fun _ _ _ => trivial
  · exact fun _ _ _ => trivial

structure Enabled (s t : Handle) : Prop extends Sizes s t where
  footed : Footed s.currSize s.isBlock s.file → Footed s.currSize s.isBlock t.file

theorem wlp_vhdJournalEnableVhd (sound : Sound s) :
    wlp vhdJournalEnableVhd (fun _ t => Enabled s t) (fun _ t => Enabled s t) s := by
  unfold vhdJournalEnableVhd
  rw [wlp_bind, wlp_get, wlp_when]
  refine ⟨fun _ => ?_, fun _ => ⟨⟨rfl, rfl, rfl⟩, id⟩⟩
  rw [wlp_bind, wlp_modify]
  have sound' := sound.withCookie footerCookie
  have enabled : ∀ t, Rewrites { s with footer := withCookie footerCookie s.footer } t → Enabled s t :=
    fun t rewrites => ⟨⟨rewrites.sizes.currSize, rewrites.sizes.maxBatSize, rewrites.sizes.blockSize⟩, rewrites.footed sound'⟩
  exact (wlp_vhdWriteFooter sound').mono (fun _ t both => enabled t both.1) fun _ t rewrites => enabled t rewrites

end Calls

structure RoundsTo (blockSize size n : Nat) : Prop where
  multiple : blockSize ∣ n
  enough : size ≤ n
  least : n < size + blockSize

theorem roundsTo_blocks {blockSize size blocks : Nat} (positive : 0 < blockSize) :
    RoundsTo blockSize size (blocks * blockSize) ↔ blocks = (size + blockSize - 1) / blockSize := by
  rw [eq_comm, Nat.div_eq_iff positive]
  constructor
  · rintro ⟨_, enough, least⟩
    omega
  · rintro ⟨low, high⟩
    exact ⟨Nat.dvd_mul_left .., by omega, by omega⟩

section Spec
variable (r : Resize)

def bytes : Nat := r.megabytes.toNat * 2 ^ 20

structure Lands (t : Handle) : Prop where
  memory : RoundsTo t.blockSize r.bytes t.currSize
  disk : Shows t.currSize t.file
  covers : t.currSize ≤ t.maxBatSize * t.blockSize

def Already (s : Handle) : Prop := RoundsTo s.blockSize r.bytes s.currSize ∧ s.currSize ≤ s.maxBatSize * s.blockSize

/-- With the entries for the difference the table has one for each block of the new size, and no more. -/
def Fills (s : Handle) : Prop :=
  s.currSize / 512 < r.newSecs ∧ hasBatmap (r.vhdJournalCreate s).2 = true ∧
    r.grownSize s = (r.bytes + s.blockSize - 1) / s.blockSize

def megablocks : Nat := (r.bytes + (2 ^ vhdBlockShift - 1)) / 2 ^ vhdBlockShift * 2 ^ vhdBlockShift

/-- Blocks of 2 MiB give the size that whole blocks of the image give, and the table has room for it. -/
def FastFits (s : Handle) : Prop :=
  r.megablocks < 2 ^ 64 ∧ RoundsTo s.blockSize r.bytes r.megablocks ∧ r.megablocks ≤ s.maxBatSize * s.blockSize ∧
    (r.megablocks = s.currSize → Shows s.currSize s.file)

def Meets (s : Handle) : Prop := if r.fast then r.FastFits s else r.Already s ∨ r.Fills s

end Spec

section Result
variable {r : Resize} {s t d : Handle}

theorem not_rounds_of_grows (grows : s.currSize / 512 < r.newSecs) : ¬ RoundsTo s.blockSize r.bytes s.currSize := by
  intro rounds
  have enough := rounds.enough
  have small : r.newSecs ≤ r.megabytes.toNat * 2 ^ 11 := Nat.mod_le ..
  unfold bytes at enough
  omega

theorem fastSize_eq (bound : r.megablocks < 2 ^ 64) : r.fastSize = r.megablocks := by
  have whole : r.bytes < 2 ^ 64 := by
    unfold megablocks vhdBlockShift at bound
    omega
  have sum : r.bytes + (2 ^ vhdBlockShift - 1) < 2 ^ 64 := by
    unfold megablocks vhdBlockShift at bound
    unfold vhdBlockShift
    omega
  unfold fastSize megablocks bytes at *
  rw [Nat.mod_eq_of_lt whole, Nat.mod_eq_of_lt sum]

theorem fastSize_enough (enough : r.bytes ≤ r.fastSize) : r.megablocks < 2 ^ 64 := by
  unfold bytes fastSize megablocks bytes vhdBlockShift at *
  omega

theorem readHeaderAt_inside {file : File} {off : Nat} {header : Nat → UInt8}
    (read : readHeaderAt file off = .ok header) : 1024 ≤ file.size := by
  unfold readHeaderAt at read
  obtain ⟨bytes, read, _⟩ := Outcome.bind_eq_ok.mp read
  have inside := (File.read_ok_iff (by omega)).mp (Outcome.isOk_iff.mpr ⟨bytes, read⟩)
  omega

theorem opened_sound (opens : r.opened = .ok s) :
    s.bat = none ∧ s.file = r.file ∧ (s.typeDynamic = true → Sound s) := by
  unfold Resize.opened at opens
  obtain ⟨ctx, opened, opens⟩ := Outcome.bind_eq_ok.mp opens
  obtain ⟨footer, found, opens⟩ := Outcome.bind_eq_ok.mp opens
  cases opens
  unfold vhdOpen at opened
  rw [found, Outcome.ok_bind] at opened
  split at opened
  · cases opened
  · dsimp only at opened
    split at opened
    · rename_i fixed
      cases opened
      refine ⟨rfl, rfl, fun dynamic => absurd dynamic ?_⟩
      simpa using fixed
    · obtain ⟨header, read, same⟩ := Outcome.bind_eq_ok.mp opened
      cases same
      exact ⟨rfl, rfl, fun dynamic => ⟨dynamic, readHeaderAt_inside read, rfl, be32_lt .., nofun⟩⟩

theorem lands_same (sizes : Sizes s t) (shows' : Shows t.currSize t.file) : r.Lands t ↔ r.Already s := by
  unfold Already
  rw [← sizes.currSize, ← sizes.maxBatSize, ← sizes.blockSize]
  exact ⟨fun lands => ⟨lands.memory, lands.covers⟩, fun already => ⟨already.1, shows', already.2⟩⟩

theorem Sizes.grownSize_eq (sizes : Sizes s t) : r.grownSize t = r.grownSize s := by
  unfold grownSize secsToBlocksUp Vhd.spb
  rw [sizes.currSize, sizes.maxBatSize, sizes.blockSize]

theorem lands_added (sizes : Sizes s d) (created : d = (r.vhdJournalCreate s).2) (grows : d.currSize / 512 < r.newSecs)
    (positive : d.spb ≠ 0) {e : Handle} (added : Added (hasBatmap d) (r.grownSize d) d e) (enabled : Enabled e t) :
    r.Lands t ↔ r.Already s ∨ r.Fills s := by
  have small : ¬ RoundsTo s.blockSize r.bytes s.currSize :=
    not_rounds_of_grows (by rwa [← sizes.currSize])
  have blockSize : t.blockSize = s.blockSize :=
    enabled.blockSize.trans (added.blockSize.trans sizes.blockSize)
  have blocks : 0 < s.blockSize := by
    unfold Vhd.spb at positive
    rw [sizes.blockSize] at positive
    omega
  cases has : hasBatmap d with
  | false =>
      rw [has] at added
      have currSize : t.currSize = s.currSize :=
        enabled.currSize.trans ((added.unmapped rfl).trans sizes.currSize)
      constructor
      · intro lands
        have memory := lands.memory
        rw [currSize, blockSize] at memory
        exact absurd memory small
      · rintro (already | fills)
        · exact absurd already.1 small
        · have has' := fills.2.1
          rw [← created, has] at has'
          cases has'
  | true =>
      rw [has] at added
      obtain ⟨currSize, maxBatSize, footed⟩ := added.mapped rfl
      have whole : t.currSize = r.grownSize s * s.blockSize := by
        rw [enabled.currSize, currSize, sizes.grownSize_eq, sizes.blockSize]
      have covers : t.maxBatSize * t.blockSize = t.currSize := by
        rw [whole, enabled.maxBatSize, maxBatSize, blockSize, sizes.grownSize_eq]
      constructor
      · intro lands
        have memory := lands.memory
        rw [whole, blockSize, roundsTo_blocks blocks] at memory
        refine .inr ⟨by rwa [← sizes.currSize], ?_, memory⟩
        rwa [← created]
      · rintro (already | fills)
        · exact absurd already.1 small
        · refine ⟨?_, ?_, covers.ge⟩
          · rw [whole, blockSize, roundsTo_blocks blocks]
            exact fills.2.2
          · rw [enabled.currSize]
            exact (enabled.footed footed).toShows

theorem wlp_journaled (bare : s.bat = none) (sound : s.typeDynamic = true → Sound s) :
    wlp r.journaled (fun _ t => r.Lands t ↔ r.Already s ∨ r.Fills s) (fun _ _ => True) s := by
  unfold journaled
  rw [wlp_bind]
  apply ((wlp_vhdJournalCreate bare sound).and wlp_state).mono
  · rintro _ d ⟨disabled, created⟩
    rw [wlp_bind]
    apply (wlp_vhdDynamicResize disabled.sound).mono
    · intro _ e resized
      have soundE : Sound e := by
        rcases resized with ⟨_, rfl⟩ | ⟨_, _, added⟩
        · exact disabled.sound
        · exact added.sound
      rw [wlp_bind]
      apply (wlp_call _).mono
      · rintro _ e rfl
        have result : ∀ t, Enabled e t → (r.Lands t ↔ r.Already s ∨ r.Fills s) := by
          intro t enabled
          rcases resized with ⟨same, rfl⟩ | ⟨grows, positive, added⟩
          · have shows' := (enabled.footed disabled.footed).toShows
            rw [← enabled.currSize] at shows'
            have still : ¬ r.Fills s := fun fills => absurd fills.1 (by rw [← disabled.currSize]; omega)
            rw [lands_same (disabled.toSizes.trans enabled.toSizes) shows', or_iff_left still]
          · exact lands_added disabled.toSizes created grows positive added enabled
        rw [wlp_bind, wlp_attempt]
        exact (wlp_vhdJournalEnableVhd soundE).mono (fun _ t enabled => result t enabled) fun _ t enabled =>
          result t enabled
      · exact fun _ _ _ => trivial
    · exact fun _ _ _ => trivial
  · exact fun _ _ _ => trivial

theorem lands_fast {size : Nat} (currSize : t.currSize = size) (maxBatSize : t.maxBatSize = s.maxBatSize)
    (blockSize : t.blockSize = s.blockSize) (fast : r.fastSize = size)
    (disk : r.fastSize = r.megablocks →
      (Shows t.currSize t.file ↔ (r.megablocks = s.currSize → Shows s.currSize s.file))) :
    r.Lands t ↔ r.FastFits s := by
  constructor
  · intro lands
    have bound : r.megablocks < 2 ^ 64 := fastSize_enough (by rw [fast, ← currSize]; exact lands.memory.enough)
    have same : t.currSize = r.megablocks := by rw [currSize, ← fast, fastSize_eq bound]
    have memory := lands.memory
    have covers := lands.covers
    rw [same, blockSize] at memory
    rw [same, maxBatSize, blockSize] at covers
    exact ⟨bound, memory, covers, (disk (fastSize_eq bound)).mp lands.disk⟩
  · rintro ⟨bound, memory, covers, before⟩
    have same : t.currSize = r.megablocks := by rw [currSize, ← fast, fastSize_eq bound]
    refine ⟨?_, (disk (fastSize_eq bound)).mpr before, ?_⟩
    · rw [same, blockSize]
      exact memory
    · rw [same, maxBatSize, blockSize]
      exact covers

theorem wlp_vhdDynamicGrowFast (bare : s.bat = none) (sound : s.typeDynamic = true → Sound s) :
    wlp r.vhdDynamicGrowFast (fun _ t => r.Lands t ↔ r.FastFits s) (fun _ _ => True) s := by
  unfold vhdDynamicGrowFast
  rw [wlp_bind]
  apply (wlp_vhdGetBat.and peeks_vhdGetBat.wlp).mono
  · rintro _ a ⟨⟨_, dynamic⟩, peeks⟩
    have sound := sound (dynamic bare)
    rw [wlp_bind]
    apply (peeks_getMap.wlp).mono
    · intro _ b more
      have looked := (peeks.trans more).rewrites
      have file : b.file = s.file := by rw [(peeks.trans more).fields]
      rw [wlp_bind, wlp_get, wlp_ite]
      refine ⟨fun _ => trivial, fun large => ?_⟩
      rw [wlp_when]
      refine ⟨fun differs => ?_, fun same => ?_⟩
      · unfold vhdSetVirtSize
        rw [wlp_bind, wlp_get, wlp_ite]
        refine ⟨fun _ => trivial, fun _ => ?_⟩
        rw [wlp_bind, wlp_modify]
        have bound : r.fastSize < 2 ^ 64 := by
          unfold fastSize vhdBlockShift
          omega
        apply (wlp_vhdWriteFooter ((looked.sound sound).resizeTo bound)).mono
        · rintro _ t ⟨rewrites, footed⟩
          have currSize := rewrites.sizes.currSize
          have maxBatSize := rewrites.sizes.maxBatSize
          have blockSize := rewrites.sizes.blockSize
          rw [resizeTo_currSize] at currSize footed
          rw [resizeTo_maxBatSize, looked.sizes.maxBatSize] at maxBatSize
          rw [resizeTo_blockSize, looked.sizes.blockSize] at blockSize
          refine lands_fast currSize maxBatSize blockSize rfl fun whole => iff_of_true ?_ fun same => ?_
          · rw [currSize]
            exact footed.toShows
          · rw [whole, same] at differs
            exact absurd looked.sizes.currSize.symm differs
        · exact fun _ _ _ => trivial
      · have same : r.fastSize = b.currSize := by simpa using same
        refine lands_fast rfl looked.sizes.maxBatSize looked.sizes.blockSize same fun whole => ?_
        rw [file, looked.sizes.currSize]
        refine ⟨fun shows' _ => shows', fun before => before ?_⟩
        rw [← whole, same, looked.sizes.currSize]
    · exact fun _ _ _ => trivial
  · exact fun _ _ _ => trivial

/-- A resize that works gives the image the size that was asked for, exactly when it has it before, or has a map of full
blocks and a table with an entry for each block and no more. -/
theorem lands_iff (opens : r.opened = .ok s) (works : r.vhdUtilResize = .ok t) : r.Lands t ↔ r.Meets s := by
  obtain ⟨bare, _, sound⟩ := opened_sound opens
  unfold vhdUtilResize at works
  rw [opens, Outcome.ok_bind] at works
  unfold Meets
  split at works
  · cases works
  · split at works
    · rename_i action
      cases works
      split at action
      · rename_i fast
        rw [if_pos fast]
        exact (wlp_vhdDynamicGrowFast bare sound).ok action
      · rename_i journal
        rw [if_neg journal]
        exact (wlp_journaled bare sound).ok action
    · cases works
    · cases works

end Result

section Samples

def preallocated : File :=
  match vhdCreate (.ok ⟨false, .empty, []⟩) ⟨0, fun _ => 1⟩ ⟨4, none, 2 ^ 21, 3, 2 ^ 23, false⟩ with
  | .ok t => t.file
  | _ => .empty

def doubling : Resize where
  file := preallocated
  isBlock := false
  faults := []
  megabytes := 4
  fast := false
  starts := none
  syncs := none
  logs := fun _ => ⟨none, none, none⟩
  commits := none
  turns := 0
  heap := fun _ => 0

theorem doubling_sizes : doubling.vhdUtilResize.meets
    (fun t => decide (t.currSize = 10 * 2 ^ 20 ∧ t.blockSize = 2 ^ 21)) = true := by decide +kernel

theorem doubling_lands_iff :
    ∃ s t, doubling.opened = .ok s ∧ doubling.vhdUtilResize = .ok t ∧ (doubling.Lands t ↔ doubling.Meets s) := by
  obtain ⟨t, works, _⟩ := Outcome.meets_iff.mp doubling_sizes
  obtain ⟨s, opens, _⟩ := Outcome.bind_eq_ok.mp works
  exact ⟨s, t, opens, works, lands_iff opens works⟩

theorem doubling_misses : ∃ t, doubling.vhdUtilResize = .ok t ∧ t.currSize = 10 * 2 ^ 20 ∧ ¬ doubling.Lands t := by
  obtain ⟨t, works, sizes⟩ := Outcome.meets_iff.mp doubling_sizes
  obtain ⟨currSize, blockSize⟩ := of_decide_eq_true sizes
  refine ⟨t, works, currSize, fun lands => ?_⟩
  have least := lands.memory.least
  rw [currSize, blockSize] at least
  exact absurd least (by decide)

end Samples

end Blktap.Libvhd.Resize
