import Blktap.Libvhd.Growth
import Blktap.Libvhd.WriteMarks

/-! # The write loop and the footer -/

namespace Blktap.Libvhd
open Lib Action

def Vhd.blocksOf (vhd : Vhd) (sector secs : Nat) : List Nat :=
  List.range' (sector / vhd.spb) ((sector + (secs - 1)) / vhd.spb + 1 - sector / vhd.spb)

def Handle.endAfter (s : Handle) (blocks : List Nat) (last : Nat) : Nat :=
  blocks.foldl (fun last block => if s.allocated block then last else s.nextEnd last) last

/-- Writes to the blocks stay inside the tables and the 32 bits of an entry, and the data in front of
`bound`. -/
structure Handle.WriteFits (s : Handle) (blocks : List Nat) (bound : Nat) : Prop where
  nodup : blocks.Nodup
  loaded : ∀ block ∈ blocks, block < s.batEntries
  covers : ∀ block ∈ blocks, s.Covers block
  ends : s.endAfter blocks s.dataEnd ≤ bound
  entries : ∀ block ∈ blocks, ¬ s.allocated block → bound < ddBlkUnused + s.bmSecs + s.spb

def Vhd.Wrote (vhd vhd' : Vhd) (sector secs : Nat) (buf : Nat → UInt8) : Prop :=
  ∀ nr o, o < 512 → vhd'.content nr o =
    if sector ≤ nr ∧ nr < sector + secs then some (buf ((nr - sector) * 512 + o))
    else vhd.content nr o

structure Handle.Left (s t : Handle) (bound : Nat) (written : Nat → Prop) : Prop where
  fields : s.SameFields t
  disk : t.SoundDisk
  room : t.Room
  ends : t.dataEnd ≤ bound
  spares : s.toVhd.Spares t.toVhd written

section Ends
variable {s t : Handle} {blocks : List Nat} {last last' bound : Nat}

theorem Handle.roundUp_mono (step : Nat) (positive : 0 < step) {n m : Nat} (le : n ≤ m) :
    n + (if n % step = 0 then 0 else step - n % step) ≤
      m + if m % step = 0 then 0 else step - m % step := by
  have splitN := Nat.div_add_mod n step
  have splitM := Nat.div_add_mod m step
  have lowN := Nat.mod_lt n positive
  have lowM := Nat.mod_lt m positive
  rcases Nat.lt_or_ge (n / step) (m / step) with less | same
  · have gap : step * (n / step) + step ≤ step * (m / step) := by
      rw [← Nat.mul_succ]
      exact Nat.mul_le_mul_left step less
    split <;> split <;> omega
  · have same : n / step = m / step := Nat.le_antisymm (Nat.div_le_div_right le) same
    rw [same] at splitN
    split <;> split <;> omega

theorem Handle.nextEnd_mono (s : Handle) (le : last ≤ last') : s.nextEnd last ≤ s.nextEnd last' := by
  have rounded := Handle.roundUp_mono s.spp s.spp_pos (Nat.add_le_add_right le s.bmSecs)
  unfold Handle.nextEnd Handle.gap
  omega

theorem Handle.le_nextEnd (s : Handle) (last : Nat) : last ≤ s.nextEnd last := by
  unfold Handle.nextEnd
  omega

theorem Handle.endAfter_mono (s : Handle) (blocks : List Nat) (le : last ≤ last') :
    s.endAfter blocks last ≤ s.endAfter blocks last' := by
  induction blocks generalizing last last' with
  | nil => exact le
  | cons block rest ih =>
      apply ih
      dsimp only
      split
      · exact le
      · exact s.nextEnd_mono le

theorem Handle.le_endAfter (s : Handle) (blocks : List Nat) (last : Nat) :
    last ≤ s.endAfter blocks last := by
  induction blocks generalizing last with
  | nil => exact Nat.le_refl _
  | cons block rest ih =>
      refine Nat.le_trans ?_ (ih _)
      dsimp only
      split
      · exact Nat.le_refl _
      · exact s.le_nextEnd last

theorem Handle.endAfter_cons (s : Handle) (block : Nat) (rest : List Nat) (last : Nat) :
    s.endAfter (block :: rest) last =
      s.endAfter rest (if s.allocated block then last else s.nextEnd last) := rfl

theorem Handle.nextEnd_le (s : Handle) (last : Nat) {block : Nat} (member : block ∈ blocks)
    (unused : ¬ s.allocated block) : s.nextEnd last ≤ s.endAfter blocks last := by
  induction blocks generalizing last with
  | nil => cases member
  | cons first rest ih =>
      rw [Handle.endAfter_cons]
      rcases List.mem_cons.mp member with rfl | later
      · rw [if_neg unused]
        exact s.le_endAfter rest _
      · refine (ih _ later).trans (s.endAfter_mono rest ?_)
        split
        · exact Nat.le_refl _
        · exact s.le_nextEnd last

theorem Handle.endAfter_congr (fields : s.SameFields t)
    (same : ∀ block ∈ blocks, t.allocated block ↔ s.allocated block) :
    t.endAfter blocks last = s.endAfter blocks last := by
  have next : ∀ last, t.nextEnd last = s.nextEnd last := by
    intro last
    rw [fields]
    rfl
  induction blocks generalizing last with
  | nil => rfl
  | cons block rest ih =>
      obtain ⟨here, others⟩ := List.forall_mem_cons.mp same
      rw [Handle.endAfter_cons, Handle.endAfter_cons, ih others]
      simp only [here, next]

theorem Handle.endAfter_allocated (fields : s.SameFields t) {block : Nat} (nodup : blocks.Nodup)
    (member : block ∈ blocks) (unused : ¬ s.allocated block) (allocated : t.allocated block)
    (others : ∀ other ∈ blocks, other ≠ block → (t.allocated other ↔ s.allocated other)) :
    t.endAfter blocks (s.nextEnd last) = s.endAfter blocks last := by
  have next : ∀ last, t.nextEnd last = s.nextEnd last := by
    intro last
    rw [fields]
    rfl
  induction blocks generalizing last with
  | nil => cases member
  | cons first rest ih =>
      obtain ⟨fresh, nodup⟩ := List.nodup_cons.mp nodup
      rw [Handle.endAfter_cons, Handle.endAfter_cons]
      rcases List.mem_cons.mp member with rfl | later
      · rw [if_pos allocated, if_neg unused]
        refine Handle.endAfter_congr fields fun other inRest => ?_
        exact others other (List.mem_cons_of_mem _ inRest) fun same => fresh (same ▸ inRest)
      · have apart : first ≠ block := fun same => fresh (same ▸ later)
        have rest := fun last => @ih last nodup later fun other inRest =>
          others other (List.mem_cons_of_mem _ inRest)
        simp only [others first (List.mem_cons_self ..) apart, next]
        split
        · exact rest last
        · exact rest (s.nextEnd last)

theorem blocksOf_first {vhd : Vhd} (sector secs : Nat) :
    sector / vhd.spb ∈ vhd.blocksOf sector secs := by
  have low : sector / vhd.spb ≤ (sector + (secs - 1)) / vhd.spb :=
    Nat.div_le_div_right (Nat.le_add_right _ _)
  unfold Vhd.blocksOf
  rw [List.mem_range'_1]
  omega

theorem blocksOf_turn {vhd : Vhd} (positive : 0 < vhd.spb) {sector secs : Nat}
    (more : secs - min secs (vhd.spb - sector % vhd.spb) ≠ 0) :
    (sector + min secs (vhd.spb - sector % vhd.spb)) / vhd.spb = sector / vhd.spb + 1 ∧
      vhd.blocksOf sector secs = sector / vhd.spb ::
        vhd.blocksOf (sector + min secs (vhd.spb - sector % vhd.spb))
          (secs - min secs (vhd.spb - sector % vhd.spb)) := by
  have low := Nat.mod_lt sector positive
  have split := Nat.div_add_mod sector vhd.spb
  have cnt : min secs (vhd.spb - sector % vhd.spb) = vhd.spb - sector % vhd.spb := by omega
  rw [cnt] at more ⊢
  have next : (sector + (vhd.spb - sector % vhd.spb)) / vhd.spb = sector / vhd.spb + 1 := by
    have : sector + (vhd.spb - sector % vhd.spb) = vhd.spb * (sector / vhd.spb + 1) := by
      rw [Nat.mul_succ]
      omega
    rw [this, Nat.mul_div_cancel_left _ positive]
  have total : sector + (vhd.spb - sector % vhd.spb) + (secs - (vhd.spb - sector % vhd.spb) - 1) =
      sector + (secs - 1) := by omega
  have high : sector / vhd.spb + 1 ≤ (sector + (secs - 1)) / vhd.spb := by
    rw [← next, ← total]
    exact Nat.div_le_div_right (Nat.le_add_right _ _)
  refine ⟨next, ?_⟩
  unfold Vhd.blocksOf
  rw [next, total, show (sector + (secs - 1)) / vhd.spb + 1 - sector / vhd.spb =
    (sector + (secs - 1)) / vhd.spb + 1 - (sector / vhd.spb + 1) + 1 by omega, List.range'_succ]

end Ends

section Turn
variable {s t u : Handle} {block sec cnt : Nat} {buf : Nat → UInt8}

structure Handle.Finished (block sec cnt : Nat) (buf : Nat → UInt8) (t : Handle) : Prop where
  sound : t.Sound
  ready : t.Ready
  allocated : t.allocated block
  carries : t.Carries block sec cnt buf
  marks : ∀ nr < t.spb, sec ≤ nr → nr < sec + cnt → t.marks (t.entry block) nr = true

theorem Handle.Marked.carries (marked : t.Marked block sec cnt u) (laid : t.toContext.Laid)
    (allocated : t.allocated block) (inside : sec + cnt ≤ t.spb)
    (carries : t.Carries block sec cnt buf) : u.Carries block sec cnt buf := by
  intro nr o low high small
  have bm : u.bmSecs = t.bmSecs := by rw [marked.stores.fields]; rfl
  rw [marked.stores.entry laid allocated.1, bm, marked.data nr (by omega) o small]
  exact carries nr o low high small

theorem wp_turn (sound : s.Sound) (room : s.Room) (loaded : block < s.batEntries)
    (inside : sec + cnt ≤ s.spb) (fits : ¬ s.allocated block → s.freeEntry < ddBlkUnused)
    (covers : s.Covers block) (ready : s.Ready) :
    wp (writeData block sec cnt buf)
      (fun map t => wp (attempt (writeMarksOf block sec cnt map))
        (fun result u => s.Turn block (s.inTurn block sec cnt) u ∧
          (result = .ok () → Handle.Finished block sec cnt buf u)) (fun _ _ => False) t)
      (fun _ t => s.Turn block (s.inTurn block sec cnt) t) s := by
  apply (wp_writeData sound room loaded inside fits covers ready).imp
  rintro map t ⟨turn, sound', allocated, ready', carries, unmarked⟩
  rw [wp_attempt]
  have spb : t.spb = s.spb := by rw [turn.writes.fields]; rfl
  have entries : t.batEntries = s.batEntries := by rw [turn.writes.fields]; rfl
  have turnSectors : t.inTurn block sec cnt = s.inTurn block sec cnt := by
    unfold Vhd.inTurn
    rw [spb]
  cases map with
  | none =>
      refine ⟨turn, fun _ => ⟨sound', ready', allocated, carries, fun nr small _ _ => ?_⟩⟩
      exact unmarked.2 nr small
  | some map =>
      have after : ∀ {u}, t.Marked block sec cnt u → u.SoundDisk →
          s.Turn block (s.inTurn block sec cnt) u := by
        intro u marked disk
        exact turn.stores marked.stores disk
          (turnSectors ▸ marked.spares sound'.toSoundDisk allocated) sound.laid
      apply (wp_writeMarks sound' (entries ▸ loaded) allocated ready'
        (covers.edit turn.writes.edit sound.laid) unmarked).mono
      · rintro _ u ⟨marked, soundMarks, readyMarks, marks⟩
        have spb' : u.spb = t.spb := by rw [marked.stores.fields]; rfl
        refine ⟨after marked soundMarks.toSoundDisk, fun _ => ⟨soundMarks, readyMarks,
          (marked.stores.allocated_iff sound'.laid).mpr allocated,
          marked.carries sound'.laid allocated (spb ▸ inside) carries, fun nr small => ?_⟩⟩
        rw [spb'] at small
        rw [marked.stores.entry sound'.laid allocated.1]
        exact marks nr small
      · rintro _ u ⟨marked, disk⟩
        exact ⟨after marked disk, fun h => by cases h⟩

theorem Handle.Finished.content (finished : Handle.Finished block sec cnt buf t) {sector o : Nat}
    (inTurn : t.inTurn block sec cnt sector) (inDisk : sector * 512 < t.currSize) (small : o < 512) :
    t.content sector o = some (buf ((sector % t.spb - sec) * 512 + o)) := by
  obtain ⟨here, low, high⟩ := inTurn
  have inside := Nat.mod_lt sector (Vhd.spb_pos finished.sound.laid.blockSize)
  subst here
  rw [Vhd.content_own finished.sound.laid.dynamic finished.allocated,
    if_pos ⟨inDisk, finished.marks _ inside low high⟩]
  exact congrArg some (finished.carries _ o low high small)

end Turn

section Loop
variable {s t u : Handle} {block sector secs bound : Nat} {buf : Nat → UInt8}

def inRange (sector secs nr : Nat) : Prop := sector ≤ nr ∧ nr < sector + secs

theorem Handle.WriteFits.turn {written : Nat → Prop} {blocks : List Nat}
    (fits : s.WriteFits blocks bound) (member : block ∈ blocks) (turn : s.Turn block written t)
    (allocated : t.allocated block) (laid : s.toContext.Laid) : t.WriteFits blocks bound := by
  have others : ∀ other ∈ blocks, other ≠ block → (t.allocated other ↔ s.allocated other) :=
    fun other _ apart => turn.writes.edit.allocated_iff laid apart
  have entries : t.batEntries = s.batEntries := by rw [turn.writes.fields]; rfl
  have bm : t.bmSecs = s.bmSecs := by rw [turn.writes.fields]; rfl
  have spb : t.spb = s.spb := by rw [turn.writes.fields]; rfl
  constructor
  · exact fits.nodup
  · rw [entries]
    exact fits.loaded
  · exact fun other inList => (fits.covers other inList).edit turn.writes.edit laid
  · refine Nat.le_trans (t.endAfter_mono blocks turn.last) ?_
    by_cases used : s.allocated block
    · rw [if_pos used, Handle.endAfter_congr turn.writes.fields]
      · exact fits.ends
      · intro other inList
        by_cases same : other = block
        · subst same
          exact ⟨fun _ => used, fun _ => allocated⟩
        · exact others other inList same
    · rw [if_neg used, Handle.endAfter_allocated turn.writes.fields fits.nodup member used allocated
        others]
      exact fits.ends
  · intro other inList unused
    rw [bm, spb]
    refine fits.entries other inList fun used => unused ?_
    by_cases same : other = block
    · subst same
      exact allocated
    · exact (others other inList same).mpr used

theorem Handle.WriteFits.free {blocks : List Nat} (fits : s.WriteFits blocks bound)
    (member : block ∈ blocks) (unused : ¬ s.allocated block) : s.freeEntry < ddBlkUnused := by
  have entry := fits.entries block member unused
  have next := (s.nextEnd_le s.dataEnd member unused).trans fits.ends
  unfold Handle.nextEnd at next
  unfold Handle.freeEntry
  omega

theorem Handle.WriteFits.last {written : Nat → Prop} {blocks : List Nat}
    (fits : s.WriteFits blocks bound) (member : block ∈ blocks) (turn : s.Turn block written t) :
    t.dataEnd ≤ bound := by
  refine turn.last.trans (Nat.le_trans ?_ fits.ends)
  split
  · exact s.le_endAfter blocks _
  · exact s.nextEnd_le _ member ‹_›

theorem Handle.Left.trans {written : Nat → Prop} (first : s.Left t bound written)
    (second : t.Left u bound written) : s.Left u bound written := by
  refine ⟨?_, second.disk, second.room, second.ends, fun nr o apart small => ?_⟩
  · have first := first.fields
    have second := second.fields
    unfold Handle.SameFields at *
    rw [second, first]
  · rw [second.spares nr o apart small]
    exact first.spares nr o apart small

theorem Handle.Turn.left {written : Nat → Prop} {blocks : List Nat}
    (turn : s.Turn block written t) (fits : s.WriteFits blocks bound) (member : block ∈ blocks) :
    s.Left t bound written :=
  ⟨turn.writes.fields, turn.disk, turn.room, fits.last member turn, turn.spares⟩

theorem Handle.Left.mono {written written' : Nat → Prop} (left : s.Left t bound written)
    (more : ∀ nr, written nr → written' nr) : s.Left t bound written' :=
  ⟨left.fields, left.disk, left.room, left.ends,
    fun nr o apart small => left.spares nr o (fun h => apart (more nr h)) small⟩

theorem inTurn_iff {vhd : Vhd} (positive : 0 < vhd.spb) {nr : Nat} :
    vhd.inTurn (sector / vhd.spb) (sector % vhd.spb) (min secs (vhd.spb - sector % vhd.spb)) nr ↔
      inRange sector (min secs (vhd.spb - sector % vhd.spb)) nr := by
  have low := Nat.mod_lt sector positive
  have low' := Nat.mod_lt nr positive
  have split := Nat.div_add_mod sector vhd.spb
  have split' := Nat.div_add_mod nr vhd.spb
  unfold Vhd.inTurn inRange
  constructor
  · rintro ⟨same, above, below⟩
    rw [same] at split'
    omega
  · rintro ⟨above, below⟩
    have le : sector / vhd.spb ≤ nr / vhd.spb := Nat.div_le_div_right above
    have ge : nr / vhd.spb ≤ sector / vhd.spb := by
      apply Nat.le_of_lt_succ
      rw [Nat.div_lt_iff_lt_mul positive, Nat.succ_mul, Nat.mul_comm]
      omega
    have same : nr / vhd.spb = sector / vhd.spb := Nat.le_antisymm ge le
    rw [same] at split'
    exact ⟨same, by omega, by omega⟩

theorem offset_inTurn {spb nr : Nat} (same : nr / spb = sector / spb) :
    nr % spb - sector % spb = nr - sector := by
  have split := Nat.div_add_mod sector spb
  have split' := Nat.div_add_mod nr spb
  rw [same] at split'
  omega

theorem Vhd.Wrote.turn {vhd vhd' vhd'' : Vhd} {cnt : Nat}
    (first : ∀ nr o, inRange sector cnt nr → o < 512 →
      vhd'.content nr o = some (buf ((nr - sector) * 512 + o)))
    (spares : vhd.Spares vhd' (inRange sector cnt)) (part : cnt ≤ secs)
    (rest : vhd'.Wrote vhd'' (sector + cnt) (secs - cnt) fun p => buf (cnt * 512 + p)) :
    vhd.Wrote vhd'' sector secs buf := by
  intro nr o small
  rw [rest nr o small]
  by_cases early : inRange sector cnt nr
  · have inside : sector ≤ nr ∧ nr < sector + secs := ⟨early.1, by have := early.2; omega⟩
    rw [if_neg (by have := early.2; omega), if_pos inside]
    exact first nr o early small
  · rw [spares nr o early small]
    have same : (sector + cnt ≤ nr ∧ nr < sector + cnt + (secs - cnt)) ↔
        (sector ≤ nr ∧ nr < sector + secs) := by
      unfold inRange at early
      omega
    simp only [same]
    split
    · rename_i inside
      have place : cnt * 512 + ((nr - (sector + cnt)) * 512 + o) = (nr - sector) * 512 + o := by
        unfold inRange at early
        omega
      rw [place]
    · rfl

theorem wp_writeLoop (fuel : Nat) (enough : secs < fuel) (sound : s.Sound) (room : s.Room)
    (ready : s.Ready) {blocks : List Nat} (fits : s.WriteFits blocks bound)
    (among : ∀ block ∈ s.blocksOf sector secs, block ∈ blocks)
    (inDisk : (sector + secs) * 512 ≤ s.currSize) :
    wp (writeLoop fuel sector secs buf)
      (fun result t => s.Left t bound (inRange sector secs) ∧
        (result = .ok () → t.Sound ∧ t.Ready ∧ t.WriteFits blocks bound ∧
          s.toVhd.Wrote t.toVhd sector secs buf))
      (fun _ t => s.Left t bound (inRange sector secs)) s := by
  induction fuel generalizing s sector secs buf with
  | zero => exact absurd enough (Nat.not_lt_zero _)
  | succ fuel ih =>
      have positive : 0 < s.spb := Vhd.spb_pos sound.laid.blockSize
      have member : sector / s.spb ∈ blocks := among _ (blocksOf_first sector secs)
      have loaded := fits.loaded _ member
      have slot : s.slot sector = sector / s.spb :=
        Nat.mod_eq_of_lt (loaded.trans (Nat.mod_lt _ (by decide)))
      unfold writeLoop
      simp only [wp_bind, wp_get]
      rw [if_neg (Nat.ne_of_gt positive), slot]
      generalize count : min secs (s.spb - sector % s.spb) = cnt
      have inside : sector % s.spb + cnt ≤ s.spb := by
        have := Nat.mod_lt sector positive
        omega
      have part : cnt ≤ secs := count ▸ Nat.min_le_left _ _
      have turns : ∀ nr, s.inTurn (sector / s.spb) (sector % s.spb) cnt nr ↔
          inRange sector cnt nr := fun nr => count ▸ inTurn_iff positive
      have total : sector + cnt + (secs - cnt) = sector + secs := by omega
      have later : ∀ nr, inRange (sector + cnt) (secs - cnt) nr → inRange sector secs nr :=
        fun nr late => ⟨Nat.le_trans (Nat.le_add_right _ _) late.1, total ▸ late.2⟩
      have within : ∀ nr, s.inTurn (sector / s.spb) (sector % s.spb) cnt nr →
          inRange sector secs nr := by
        intro nr inTurn
        have inTurn := (turns nr).mp inTurn
        exact ⟨inTurn.1, by have := inTurn.2; omega⟩
      simp only [wp_bind]
      apply (wp_turn sound room loaded inside (fits.free member) (fits.covers _ member)
        ready).mono
      · intro map t run
        apply run.mono
        · rintro (code | _) u ⟨turn, finished⟩
          · exact ⟨(turn.left fits member).mono within, fun h => by cases h⟩
          · have finished := finished rfl
            have laid := sound.laid
            have spb : u.spb = s.spb := by rw [turn.writes.fields]; rfl
            have currSize : u.currSize = s.currSize := by rw [turn.writes.fields]
            have spares : s.toVhd.Spares u.toVhd (inRange sector cnt) := fun nr o apart small =>
              turn.spares nr o (fun h => apart ((turns nr).mp h)) small
            have shows : ∀ nr o, inRange sector cnt nr → o < 512 →
                u.content nr o = some (buf ((nr - sector) * 512 + o)) := by
              intro nr o early small
              have inTurn := (turns nr).mpr early
              have unchanged : u.inTurn (sector / s.spb) (sector % s.spb) cnt nr := by
                unfold Vhd.inTurn
                rw [spb]
                exact inTurn
              have inside : nr * 512 < u.currSize := by
                rw [currSize]
                refine Nat.lt_of_lt_of_le ?_ inDisk
                exact Nat.mul_lt_mul_of_pos_right
                  (Nat.lt_of_lt_of_le early.2 (Nat.add_le_add_left part _)) (by decide)
              rw [finished.content unchanged inside small, spb]
              rw [offset_inTurn inTurn.1]
            have moved := fits.turn member turn finished.allocated laid
            dsimp only
            by_cases last : secs - cnt = 0
            · rw [if_pos last, wp_pure]
              have all : cnt = secs := by omega
              subst all
              refine ⟨(turn.left fits member).mono within, fun _ =>
                ⟨finished.sound, finished.ready, moved, ?_⟩⟩
              intro nr o small
              by_cases early : inRange sector cnt nr
              · rw [shows nr o early small]
                exact (if_pos early).symm
              · rw [spares nr o early small]
                exact (if_neg early).symm
            · rw [if_neg last]
              obtain ⟨next, after⟩ := blocksOf_turn positive (count ▸ last)
              rw [count] at next after
              have among' : ∀ block ∈ u.blocksOf (sector + cnt) (secs - cnt), block ∈ blocks := by
                intro block inRest
                have same : u.blocksOf (sector + cnt) (secs - cnt) =
                    s.blocksOf (sector + cnt) (secs - cnt) := by
                  unfold Vhd.blocksOf
                  rw [spb]
                rw [same] at inRest
                exact among block (after ▸ List.mem_cons_of_mem _ inRest)
              have positiveCnt : 0 < cnt := by
                have := Nat.mod_lt sector positive
                omega
              apply (ih (by omega) finished.sound turn.room finished.ready moved among'
                (by rw [currSize, total]; exact inDisk)).mono
              · rintro result w ⟨left, done⟩
                refine ⟨((turn.left fits member).mono within).trans (left.mono later), fun success => ?_⟩
                obtain ⟨sound', ready', fits', wrote⟩ := done success
                exact ⟨sound', ready', fits', .turn shows spares part wrote⟩
              · exact fun _ w left => ((turn.left fits member).mono within).trans (left.mono later)
        · exact fun _ _ h => absurd h id
      · exact fun _ t turn => (turn.left fits member).mono within

end Loop

end Blktap.Libvhd
