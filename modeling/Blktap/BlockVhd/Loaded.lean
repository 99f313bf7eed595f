import Blktap.Lib.Run
import Blktap.BlockVhd.Rules

/-! # Which slots of the table the driver uses -/

namespace Blktap.BlockVhd
open Lib Libvhd Program

def VhdState.slot (opened : VhdState) (sector : Nat) : Nat := sector / opened.spb % 2 ^ 32

def VhdState.loads (opened : VhdState) (sector : Nat) : Prop :=
  opened.spb = 0 ∨ opened.slot sector < opened.bat.bat.entries ∨
    opened.vhd.maxBatSize < opened.slot sector

def VhdState.Fits (opened : VhdState) (treq : TdRequest) : Prop :=
  treq.sec < 2 ^ 64 ∧ ∀ i < treq.secs, opened.loads ((treq.sec + i) % 2 ^ 64)

def Inside (fault : Fault) : Prop := ∀ index, fault ≠ .slot index

@[simp] theorem inside_assertion : Inside .assertion := fun _ h => nomatch h
@[simp] theorem inside_memory : Inside .memory := fun _ h => nomatch h
@[simp] theorem inside_division : Inside .division := fun _ h => nomatch h
@[simp] theorem inside_endless : Inside .endless := fun _ h => nomatch h

theorem slot_zero (opened : VhdState) : opened.slot 0 = 0 := by
  rw [VhdState.slot, Nat.zero_div, Nat.zero_mod]

section Fits
variable {opened : VhdState} {treq : TdRequest}

theorem VhdState.Fits.shorten {secs : Nat} (fits : opened.Fits treq) (short : secs ≤ treq.secs) :
    opened.Fits { treq with secs } :=
  ⟨fits.1, fun i bound => fits.2 i (Nat.lt_of_lt_of_le bound short)⟩

theorem VhdState.Fits.advance (fits : opened.Fits treq) (secs : Nat) :
    opened.Fits (treq.advance secs) := by
  refine ⟨Nat.mod_lt _ (by decide), fun i bound => ?_⟩
  have sector : ((treq.advance secs).sec + i) % 2 ^ 64 = (treq.sec + (secs + i)) % 2 ^ 64 := by
    simp only [TdRequest.advance, Nat.mod_add_mod, Nat.add_assoc]
  have remains : i < treq.secs - secs := bound
  rw [sector]
  exact fits.2 (secs + i) (by omega)

theorem VhdState.Fits.first (fits : opened.Fits treq) (positive : treq.secs ≠ 0) :
    opened.loads treq.sec := by
  have first := fits.2 0 (Nat.pos_of_ne_zero positive)
  rwa [Nat.add_zero, Nat.mod_eq_of_lt fits.1] at first

end Fits

structure Loaded (opened s : VhdState) : Prop where
  dynamic : opened.vhd.type ≠ .fixed
  vhd : s.vhd = opened.vhd
  spb : s.spb = opened.spb
  entries : s.bat.bat.entries = opened.bat.bat.entries
  requests : ∀ ref, opened.slot (s.request ref).treq.sec < opened.bat.bat.entries
  chunks : ∀ ref, (s.request ref).op = .dataRead ∨ (s.request ref).op = .dataWrite →
    opened.Fits (s.request ref).treq
  blocks : ∀ i, (s.bitmapList i).blk < opened.bat.bat.entries
  pending : s.bat.pbwBlk < opened.bat.bat.entries

section Updates
variable {opened s : VhdState}

theorem Loaded.some_entry (h : Loaded opened s) : 0 < opened.bat.bat.entries :=
  Nat.lt_of_le_of_lt (Nat.zero_le _) h.pending

theorem Loaded.other {t : VhdState} (h : Loaded opened s) (vhd : t.vhd = s.vhd)
    (spb : t.spb = s.spb) (bat : t.bat = s.bat) (list : t.bitmapList = s.bitmapList)
    (pool : t.vreqList = s.vreqList) : Loaded opened t := by
  have request : ∀ ref, t.request ref = s.request ref :=
    fun ref => request_congr ref list pool (by rw [bat]) (by rw [bat])
  exact ⟨h.dynamic, vhd.trans h.vhd, spb.trans h.spb, bat ▸ h.entries,
    fun ref => request ref ▸ h.requests ref, fun ref => request ref ▸ h.chunks ref,
    fun i => list ▸ h.blocks i, bat ▸ h.pending⟩

theorem Loaded.setBitmap (h : Loaded opened s) (i : BitmapIndex) (f : VhdBitmap → VhdBitmap)
    (blk : (f (s.bitmapList i)).blk < opened.bat.bat.entries)
    (sec : opened.slot (f (s.bitmapList i)).req.treq.sec < opened.bat.bat.entries)
    (chunk : (f (s.bitmapList i)).req.op = .dataRead ∨ (f (s.bitmapList i)).req.op = .dataWrite →
      opened.Fits (f (s.bitmapList i)).req.treq) :
    Loaded opened (s.setBitmap i f) := by
  refine ⟨h.dynamic, h.vhd, h.spb, h.entries, fun ref => ?_, fun ref => ?_, fun j => ?_, h.pending⟩
  · rw [request_setBitmap]
    split
    · exact sec
    · exact h.requests ref
  · rw [request_setBitmap]
    split
    · exact chunk
    · exact h.chunks ref
  · rw [bitmapList_setBitmap]
    split
    · exact blk
    · exact h.blocks j

theorem Loaded.setBitmap_same (h : Loaded opened s) (i : BitmapIndex) (f : VhdBitmap → VhdBitmap)
    (blk : (f (s.bitmapList i)).blk = (s.bitmapList i).blk)
    (req : (f (s.bitmapList i)).req = (s.bitmapList i).req) : Loaded opened (s.setBitmap i f) := by
  apply h.setBitmap
  · rw [blk]
    exact h.blocks i
  · rw [req]
    exact h.requests (.bitmap i)
  · rw [req]
    exact h.chunks (.bitmap i)

theorem Loaded.setTx (h : Loaded opened s) (i : BitmapIndex)
    (f : VhdTransaction → VhdTransaction) : Loaded opened (s.setTx i f) :=
  h.setBitmap_same i _ rfl rfl

theorem Loaded.setRequest (h : Loaded opened s) (ref : RequestRef) (f : VhdRequest → VhdRequest)
    (sec : opened.slot (f (s.request ref)).treq.sec < opened.bat.bat.entries)
    (chunk : (f (s.request ref)).op = .dataRead ∨ (f (s.request ref)).op = .dataWrite →
      opened.Fits (f (s.request ref)).treq) :
    Loaded opened (s.setRequest ref f) := by
  have static : (s.setRequest ref f).vhd = s.vhd ∧ (s.setRequest ref f).spb = s.spb ∧
      (s.setRequest ref f).bat.bat = s.bat.bat ∧
      (s.setRequest ref f).bat.pbwBlk = s.bat.pbwBlk := by
    cases ref <;> exact ⟨rfl, rfl, rfl, rfl⟩
  obtain ⟨vhd, spb, bat, pending⟩ := static
  refine ⟨h.dynamic, vhd.trans h.vhd, spb.trans h.spb, ?_, fun other => ?_, fun other => ?_,
    fun i => ?_, ?_⟩
  · rw [bat]
    exact h.entries
  · rw [request_setRequest]
    split
    · exact sec
    · exact h.requests other
  · rw [request_setRequest]
    split
    · exact chunk
    · exact h.chunks other
  · rw [blk_setRequest]
    exact h.blocks i
  · rw [pending]
    exact h.pending

theorem Loaded.setRequest_same (h : Loaded opened s) (ref : RequestRef)
    (f : VhdRequest → VhdRequest) (treq : (f (s.request ref)).treq = (s.request ref).treq)
    (op : (f (s.request ref)).op = (s.request ref).op) : Loaded opened (s.setRequest ref f) := by
  apply h.setRequest
  · rw [treq]
    exact h.requests ref
  · rw [treq, op]
    exact h.chunks ref

theorem Loaded.clearRequest (h : Loaded opened s) (ref : RequestRef) :
    Loaded opened (s.setRequest ref fun _ => {}) := by
  apply h.setRequest
  · rw [slot_zero]
    exact h.some_entry
  · rintro (op | op) <;> cases op

theorem Loaded.own_sector (h : Loaded opened s) {blk : Nat} (loaded : blk < opened.bat.bat.entries) :
    opened.slot (blk * s.spb % 2 ^ 32) < opened.bat.bat.entries := by
  rw [h.spb]
  apply Nat.lt_of_le_of_lt _ loaded
  apply Nat.le_trans (Nat.mod_le _ _)
  apply Nat.le_trans (Nat.div_le_div_right (Nat.mod_le _ _))
  exact Nat.div_le_of_le_mul (Nat.le_of_eq (Nat.mul_comm _ _))

end Updates

section Cache
variable {opened s : VhdState}

theorem addToTransaction_loaded (i : BitmapIndex) (ref : RequestRef) :
    Keeps (Loaded opened) Inside (addToTransaction i ref) := by
  intro s h
  simp only [addToTransaction, wp_bind, wp_get, wp_assert, wp_modify, inside_assertion,
    implies_true, and_true]
  intro _
  exact (h.setRequest_same ref _ rfl rfl).setTx i _

theorem bitmapLruSeqno_loaded : Keeps (Loaded opened) Inside bitmapLruSeqno := by
  intro s h
  simp only [bitmapLruSeqno, wp_bind, wp_get, wp_ite, wp_set, wp_pure]
  refine ⟨fun _ => ?_, fun _ => h.other rfl rfl rfl rfl rfl⟩
  have halved : ∀ (slots : List BitmapIndex) (t : VhdState), Loaded opened t →
      Loaded opened (slots.foldl halveSeqno t) := by
    intro slots
    induction slots with
    | nil => exact fun _ ht => ht
    | cons slot slots ih =>
        intro t ht
        apply ih
        unfold halveSeqno
        split
        next i _ =>
          have halved := ht.setBitmap_same i (fun bm => { bm with seqno := bm.seqno / 2 }) rfl rfl
          exact halved.other rfl rfl rfl rfl rfl
        next => exact ht
  have start : Loaded opened { s with bmLru := 0 } := h.other rfl rfl rfl rfl rfl
  exact (halved _ _ start).other rfl rfl rfl rfl rfl

theorem touchBitmap_loaded (i : BitmapIndex) : Keeps (Loaded opened) Inside (touchBitmap i) :=
  bitmapLruSeqno_loaded.bind fun _ =>
    Keeps.modify fun _ h => h.setBitmap_same i _ rfl rfl

theorem installBitmap_loaded (i : BitmapIndex) :
    Keeps (Loaded opened) Inside (installBitmap i) := by
  apply Keeps.read
  intro s h
  split
  · rw [wp_bind]
    apply (touchBitmap_loaded i s h).imp
    intro _ t ht
    exact ht.other rfl rfl rfl rfl rfl
  · exact inside_assertion

theorem removeLruBitmap_loaded : Keeps (Loaded opened) Inside removeLruBitmap := by
  apply Keeps.read
  intro s h
  split
  · exact h
  · simp only [wp_bind, wp_set, wp_assert, wp_pure, inside_assertion, implies_true, and_true]
    exact fun _ => h.other rfl rfl rfl rfl rfl

theorem takeBitmap_loaded : Keeps (Loaded opened) Inside takeBitmap := by
  apply Keeps.read
  intro s h
  split
  · simp only [wp_bind, wp_set, wp_pure]
    exact h.other rfl rfl rfl rfl rfl
  · exact removeLruBitmap_loaded s h

theorem allocVhdBitmap_loaded {blk : Nat} (loaded : blk < opened.bat.bat.entries) :
    Keeps (Loaded opened) Inside (allocVhdBitmap blk) := by
  apply takeBitmap_loaded.bind
  intro found
  cases found with
  | none => exact Keeps.pure _
  | some i =>
      apply Keeps.bind _ fun _ => Keeps.pure _
      apply Keeps.modify
      intro s h
      apply h.setBitmap _ _ loaded
      · rw [slot_zero]
        exact h.some_entry
      · rintro (op | op) <;> cases op

theorem freeVhdBitmap_loaded (i : BitmapIndex) :
    Keeps (Loaded opened) Inside (freeVhdBitmap i) := by
  intro s h
  simp only [freeVhdBitmap, wp_bind, wp_get, wp_assert, inside_assertion, implies_true, and_true]
  intro _ _
  split
  · simp only [wp_ite, wp_throw, inside_memory, implies_true, wp_set, true_and]
    exact fun _ => h.other rfl rfl rfl rfl rfl
  · exact inside_assertion

theorem allocVhdRequest_loaded : Keeps (Loaded opened) Inside allocVhdRequest := by
  apply Keeps.read
  intro s h
  split
  · simp only [wp_bind, wp_set, wp_assert, wp_modify, wp_pure, inside_assertion, implies_true,
      and_true]
    intro _
    apply Loaded.clearRequest
    exact h.other rfl rfl rfl rfl rfl
  · exact h

theorem freeVhdRequest_loaded (ref : RequestRef) :
    Keeps (Loaded opened) Inside (freeVhdRequest ref) := by
  intro s h
  simp only [freeVhdRequest, wp_bind, wp_modify, wp_get, wp_ite, wp_throw, inside_memory,
    implies_true, wp_set, true_and]
  exact fun _ => (h.clearRequest ref).other rfl rfl rfl rfl rfl

theorem aioRead_loaded (ref : RequestRef) (offset : Nat) :
    Keeps (Loaded opened) Inside (aioRead ref offset) :=
  Keeps.modify fun _ h => h.other rfl rfl rfl rfl rfl

theorem aioWrite_loaded (ref : RequestRef) (offset : Nat) :
    Keeps (Loaded opened) Inside (aioWrite ref offset) :=
  Keeps.modify fun _ h => h.other rfl rfl rfl rfl rfl

theorem answer_loaded (answer : Answer) :
    Keeps (Loaded opened) Inside
      (modify fun s => { s with answers := s.answers ++ [answer] } : Driver PUnit) :=
  Keeps.modify fun _ h => h.other rfl rfl rfl rfl rfl

theorem readBitmapCache_loaded {sector : Nat} (op : VhdOp) (loads : opened.loads sector)
    (h : Loaded opened s) :
    wp (readBitmapCache sector op)
      (fun state t => Loaded opened t ∧
        (state ≠ .einval → opened.slot sector < opened.bat.bat.entries)) Inside s := by
  simp only [readBitmapCache, wp_bind, wp_get, wp_ite, true_and, wp_blockOf, wp_remainder, wp_pure,
    wp_batEntry, inside_division, implies_true, h.spb, h.vhd, h.entries, ne_eq, not_true_eq_false,
    false_implies, and_true]
  refine ⟨fun fixed => absurd fixed h.dynamic,
    fun _ positive _ => ⟨fun _ => h, fun accepted => ?_⟩⟩
  have loaded : opened.slot sector < opened.bat.bat.entries := by
    rcases loads with zero | loaded | refused
    · exact absurd zero positive
    · exact loaded
    · exact absurd refused accepted
  refine ⟨fun _ => ⟨fun _ => ?_, fun _ => ?_⟩, fun outside => absurd loaded outside⟩
  · exact ⟨fun _ => ⟨h, fun _ => loaded⟩, fun _ => ⟨h, fun _ => loaded⟩⟩
  · apply wp_testBatmap _ inside_memory
    intro full
    refine ⟨fun _ => ⟨h, fun _ => loaded⟩, fun _ => ?_⟩
    split
    · exact ⟨h, fun _ => loaded⟩
    · simp only [wp_bind]
      apply (touchBitmap_loaded _ _ h).imp
      intro _ t ht
      simp only [wp_ite, wp_pure]
      exact ⟨fun _ => ⟨ht, fun _ => loaded⟩, fun _ =>
        ⟨fun _ => ⟨ht, fun _ => loaded⟩, fun _ => ⟨ht, fun _ => loaded⟩⟩⟩

theorem runLength_le (map : Nat → Bool) (value : Bool) (n sec : Nat) :
    runLength map value n sec ≤ n := by
  induction n generalizing sec with
  | zero => exact Nat.le_refl _
  | succ n ih =>
      unfold runLength
      split
      · exact Nat.succ_le_succ (ih _)
      · exact Nat.zero_le _

theorem readBitmapCacheSpan_loaded (sector nrSecs : Nat) (value : Bool) (h : Loaded opened s) :
    wp (readBitmapCacheSpan sector nrSecs value)
      (fun secs t => Loaded opened t ∧ secs ≤ nrSecs) Inside s := by
  simp only [readBitmapCacheSpan, wp_bind, wp_get, wp_ite, wp_remainder, wp_blockOf, wp_pure,
    inside_division, implies_true, true_and]
  refine ⟨fun _ => ⟨h, Nat.le_refl _⟩, fun _ _ _ => ?_⟩
  apply wp_testBatmap _ inside_memory
  intro full
  refine ⟨fun _ => ⟨h, Nat.min_le_left _ _⟩, fun _ => ?_⟩
  split
  · exact inside_assertion
  · simp only [wp_bind, wp_assert, wp_pure, inside_assertion, implies_true, and_true]
    exact fun _ => ⟨h, Nat.le_trans (runLength_le ..) (Nat.min_le_left _ _)⟩

end Cache

section Schedule
variable {opened s : VhdState}

theorem scheduleBatWrite_loaded : Keeps (Loaded opened) Inside scheduleBatWrite := by
  intro s h
  have base : s.bat.pbwBlk - s.bat.pbwBlk % 128 < s.bat.bat.entries := by
    rw [h.entries]
    exact Nat.lt_of_le_of_lt (Nat.sub_le _ _) h.pending
  have cleared : Loaded opened (s.setRequest .bat fun _ => {}) := h.clearRequest .bat
  simp only [scheduleBatWrite, wp_bind, wp_get, wp_assert, wp_modify, wp_batEntry, wp_ite, wp_throw,
    inside_assertion, inside_memory, implies_true, and_true, true_and]
  refine fun _ => ⟨fun _ _ => ?_, fun outside => absurd base outside⟩
  have scheduled : Loaded opened ((s.setRequest .bat fun _ => {}).setRequest .bat fun r =>
      { r with treq := { r.treq with secs := 1 }, op := .batWrite }) := by
    apply cleared.setRequest
    · exact cleared.requests .bat
    · rintro (op | op) <;> cases op
  exact ⟨h.dynamic, h.vhd, h.spb, h.entries, scheduled.requests, scheduled.chunks, scheduled.blocks,
    h.pending⟩

theorem lockBitmap_loaded (i : BitmapIndex) : Keeps (Loaded opened) Inside (lockBitmap i) :=
  Keeps.modify fun _ h => h.setBitmap_same i _ rfl rfl

theorem unlockBitmap_loaded (i : BitmapIndex) : Keeps (Loaded opened) Inside (unlockBitmap i) :=
  Keeps.modify fun _ h => h.setBitmap_same i _ rfl rfl

theorem setTx_loaded (i : BitmapIndex) (f : VhdTransaction → VhdTransaction) :
    Keeps (Loaded opened) Inside (modify fun s => s.setTx i f : Driver PUnit) :=
  Keeps.modify fun _ h => h.setTx i f

theorem vhdZeros_loaded (size : Nat) : Keeps (Loaded opened) Inside (vhdZeros size) := by
  intro s h
  simp only [vhdZeros, wp_bind, wp_get, wp_assert, inside_assertion, implies_true, and_true]
  exact fun _ => h

theorem scheduleZeroBmWrite_loaded (i : BitmapIndex) (lbEnd : Nat) :
    Keeps (Loaded opened) Inside (scheduleZeroBmWrite i lbEnd) := by
  apply Keeps.read
  intro s h
  rw [wp_bind]
  apply (vhdZeros_loaded _ s h).imp
  intro _ t ht
  rw [wp_bind, wp_modify]
  have scheduled : Loaded opened (t.setRequest .zero fun _ =>
      { op := .zeroBmWrite
        treq := { sec := t.bat.pbwBlk * t.spb % 2 ^ 32
                  secs := s.bat.pbwOffset - lbEnd + s.bmSecs } }) := by
    apply ht.setRequest
    · exact ht.own_sector ht.pending
    · rintro (op | op) <;> cases op
  apply (lockBitmap_loaded i).bind _ _ scheduled
  intro _
  apply (addToTransaction_loaded i .zero).bind
  intro _
  exact aioWrite_loaded .zero _

theorem testBatmap_loaded (blk : Nat) : Keeps (Loaded opened) Inside (testBatmap blk) :=
  fun _ h => wp_testBatmap blk inside_memory fun _ => h

theorem batEntry_loaded {index : Nat} (loaded : index < opened.bat.bat.entries) :
    Keeps (Loaded opened) Inside (batEntry index) := by
  intro s h
  rw [wp_batEntry, h.entries]
  exact ⟨fun _ => h, fun outside => absurd loaded outside⟩

theorem assert_loaded (c : Bool) : Keeps (Loaded opened) Inside (assert c) := by
  intro s h
  rw [wp_assert]
  exact ⟨fun _ => h, fun _ => inside_assertion⟩

theorem scheduleRedundantBmWrite_loaded {blk : Nat} (loaded : blk < opened.bat.bat.entries) :
    Keeps (Loaded opened) Inside (scheduleRedundantBmWrite blk) := by
  apply Keeps.read
  intro s h
  apply (assert_loaded _).bind _ s h
  intro _
  apply (testBatmap_loaded blk).bind
  intro full
  apply (assert_loaded full).bind
  intro _
  apply allocVhdRequest_loaded.bind
  intro found
  cases found with
  | none => exact Keeps.pure _
  | some ref =>
      apply (batEntry_loaded loaded).bind
      intro entry
      apply (assert_loaded _).bind
      intro _
      apply Keeps.bind _ fun _ => aioWrite_loaded ref _
      apply Keeps.modify
      intro t ht
      apply ht.setRequest
      · exact ht.own_sector loaded
      · rintro (op | op) <;> cases op

theorem cachedBitmap_loaded {blk : Nat} (loaded : blk < opened.bat.bat.entries) :
    Keeps (Loaded opened) Inside (cachedBitmap blk) := by
  apply Keeps.read
  intro s h
  split
  · exact h
  · apply (allocVhdBitmap_loaded loaded).bind _ s h
    intro found
    cases found with
    | none => exact Keeps.pure _
    | some i => exact (installBitmap_loaded i).bind fun _ => Keeps.pure _

theorem reserveNewBlock_loaded {blk : Nat} (loaded : blk < opened.bat.bat.entries) :
    Keeps (Loaded opened) Inside (reserveNewBlock blk) := by
  intro s h
  simp only [reserveNewBlock, wp_bind, wp_get, wp_assert, wp_set, wp_pure, inside_assertion,
    implies_true, and_true]
  exact fun _ => ⟨h.dynamic, h.vhd, h.spb, h.entries, h.requests, h.chunks, h.blocks, loaded⟩

theorem lockBat_loaded : Keeps (Loaded opened) Inside lockBat :=
  Keeps.modify fun _ h =>
    ⟨h.dynamic, h.vhd, h.spb, h.entries, h.requests, h.chunks, h.blocks, h.pending⟩

theorem unlockBat_loaded : Keeps (Loaded opened) Inside unlockBat :=
  Keeps.modify fun _ h =>
    ⟨h.dynamic, h.vhd, h.spb, h.entries, h.requests, h.chunks, h.blocks, h.pending⟩

theorem updateBat_loaded {blk : Nat} (loaded : blk < opened.bat.bat.entries) :
    Keeps (Loaded opened) Inside (updateBat blk) := by
  apply (batEntry_loaded loaded).bind
  intro entry
  apply (assert_loaded _).bind
  intro _
  apply Keeps.read
  intro s h
  split
  · exact ((assert_loaded _).bind fun _ => Keeps.pure _) s h
  · apply (cachedBitmap_loaded loaded).bind _ s h
    intro found
    cases found with
    | none => exact Keeps.pure _
    | some i =>
        apply lockBat_loaded.bind
        intro _
        apply (reserveNewBlock_loaded loaded).bind
        intro lbEnd
        apply (scheduleZeroBmWrite_loaded i lbEnd).bind
        intro _
        exact (setTx_loaded i _).bind fun _ => Keeps.pure _

theorem syncWrite_loaded : Keeps (Loaded opened) Inside syncWrite := by
  apply Keeps.read
  intro s h
  split
  · exact h
  · exact h.other rfl rfl rfl rfl rfl

theorem allocateBlock_loaded {blk : Nat} (loaded : blk < opened.bat.bat.entries) :
    Keeps (Loaded opened) Inside (allocateBlock blk) := by
  apply (batEntry_loaded loaded).bind
  intro entry
  apply (assert_loaded _).bind
  intro _
  apply Keeps.read
  intro s h
  split
  · apply (assert_loaded _).bind _ s h
    intro _
    exact Keeps.ite _ (fun _ => Keeps.pure _) fun _ => Keeps.pure _
  · rw [wp_bind, wp_set]
    have reserved : Loaded opened { s with
        nextDb := s.nextDb + s.gap
        bat := { s.bat with pbwBlk := blk, pbwOffset := s.nextDb + s.gap } } :=
      ⟨h.dynamic, h.vhd, h.spb, h.entries, h.requests, h.chunks, h.blocks, loaded⟩
    apply (vhdZeros_loaded _).bind _ _ reserved
    intro _
    apply syncWrite_loaded.bind
    intro err
    apply Keeps.ite _ (fun _ => Keeps.pure _)
    intro _
    apply (cachedBitmap_loaded loaded).bind
    intro found
    cases found with
    | none => exact Keeps.pure _
    | some i =>
        apply lockBat_loaded.bind
        intro _
        apply (lockBitmap_loaded i).bind
        intro _
        apply scheduleBatWrite_loaded.bind
        intro _
        exact (addToTransaction_loaded i .bat).bind fun _ => Keeps.pure _

end Schedule

end Blktap.BlockVhd
