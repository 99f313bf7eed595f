import Blktap.BlockVhd.Loaded

/-!
# The slots used by requests and completions
-/

namespace Blktap.BlockVhd
open Lib Libvhd Program

section Chunks
variable {opened s : VhdState} {treq : TdRequest}

theorem blockOf_loaded {α : Type} {f : Nat → Driver α} {sector : Nat}
    (loaded : opened.slot sector < opened.bat.bat.entries)
    (each : ∀ blk, blk < opened.bat.bat.entries → Keeps (Loaded opened) Inside (f blk)) :
    Keeps (Loaded opened) Inside (blockOf sector >>= f) := by
  intro s h
  simp only [wp_bind, wp_blockOf, inside_division, implies_true, true_and]
  intro _
  rw [h.spb]
  exact each _ loaded s h

theorem remainder_loaded (sector : Nat) : Keeps (Loaded opened) Inside (remainder sector) := by
  intro s h
  simp only [wp_remainder, inside_division, implies_true, true_and]
  exact fun _ => h

theorem makeRequest_loaded (op : VhdOp) (flags : RequestFlags) (fits : opened.Fits treq)
    (loaded : opened.slot treq.sec < opened.bat.bat.entries) :
    Keeps (Loaded opened) Inside (makeRequest op treq flags) := by
  apply allocVhdRequest_loaded.bind
  intro found
  cases found with
  | none => exact Keeps.pure _
  | some ref =>
      apply Keeps.bind _ fun _ => Keeps.pure _
      exact Keeps.modify fun s h => h.setRequest ref _ loaded fun _ => fits

theorem dataReadTarget_loaded (loaded : opened.slot treq.sec < opened.bat.bat.entries) :
    Keeps (Loaded opened) Inside (dataReadTarget treq) := by
  apply Keeps.read
  intro s h
  apply Keeps.ite _ (fun _ => Keeps.pure _) _ s h
  intro _
  apply blockOf_loaded loaded
  intro blk bound
  apply (remainder_loaded _).bind
  intro sec
  apply (batEntry_loaded bound).bind
  intro entry
  apply (assert_loaded _).bind
  intro _
  apply Keeps.bind _ fun _ => Keeps.pure _
  apply Keeps.read
  intro t ht
  apply (testBatmap_loaded blk).bind _ t ht
  intro full
  apply Keeps.ite _ fun _ => Keeps.pure _
  intro _
  split
  · exact Keeps.throw inside_assertion
  · exact assert_loaded _

theorem scheduleDataRead_loaded (flags : RequestFlags) (fits : opened.Fits treq)
    (loaded : opened.slot treq.sec < opened.bat.bat.entries) :
    Keeps (Loaded opened) Inside (scheduleDataRead treq flags) := by
  apply (dataReadTarget_loaded loaded).bind
  intro offset
  apply (makeRequest_loaded _ flags fits loaded).bind
  intro found
  cases found with
  | none => exact Keeps.pure _
  | some ref => exact (aioRead_loaded ref _).bind fun _ => Keeps.pure _

theorem joinTransaction_loaded (blk : Nat) (ref : RequestRef) :
    Keeps (Loaded opened) Inside (joinTransaction blk ref) := by
  apply Keeps.read
  intro s h
  split
  · exact inside_assertion
  · apply (assert_loaded _).bind _ s h
    intro _
    apply (lockBitmap_loaded _).bind
    intro _
    apply Keeps.ite _ (fun _ => ?_) fun _ => addToTransaction_loaded _ ref
    apply Keeps.bind (Keeps.modify fun _ ht => ht.setBitmap_same _ _ rfl rfl)
    exact fun _ => Keeps.modify fun _ ht => ht.setRequest_same ref _ rfl rfl

theorem extendBat_loaded {blk : Nat} (loaded : blk < opened.bat.bat.entries) :
    Keeps (Loaded opened) Inside (extendBat blk) :=
  Keeps.read fun s h =>
    Keeps.ite _ (fun _ => allocateBlock_loaded loaded) (fun _ => updateBat_loaded loaded) s h

theorem dataWriteTarget_loaded (flags : RequestFlags)
    (loaded : opened.slot treq.sec < opened.bat.bat.entries) (h : Loaded opened s) :
    wp (dataWriteTarget treq flags)
      (fun target t => Loaded opened t ∧
        ∀ blk sec offset, target = .ok (blk, sec, offset) → blk < opened.bat.bat.entries)
      Inside s := by
  simp only [dataWriteTarget, wp_bind, wp_get, wp_ite, wp_pure, h.vhd, wp_blockOf, wp_remainder,
    inside_division, implies_true, true_and, h.spb]
  refine ⟨fun fixed => absurd fixed h.dynamic, fun _ _ _ => ?_⟩
  apply (batEntry_loaded loaded s h).imp
  intro entry t ht
  refine ⟨fun _ => ?_, fun _ => ⟨ht, ?_⟩⟩
  · apply (extendBat_loaded loaded t ht).imp
    intro err u hu
    refine ⟨fun _ => ⟨hu, ?_⟩, fun _ => ⟨hu, ?_⟩⟩
    · rintro _ _ _ ⟨⟩
    · rintro _ _ _ ⟨⟩
      exact loaded
  · rintro _ _ _ ⟨⟩
    exact loaded

theorem wantsRedundantBmWrite_loaded {blk : Nat} (sec : Nat)
    (loaded : blk < opened.bat.bat.entries) :
    Keeps (Loaded opened) Inside (wantsRedundantBmWrite blk sec) := by
  apply Keeps.read
  intro s h
  apply Keeps.ite _ (fun _ => Keeps.pure _) _ s h
  intro _
  apply (batEntry_loaded loaded).bind
  intro entry
  exact Keeps.ite _ (fun _ => Keeps.pure _) fun _ => testBatmap_loaded blk

theorem prepareBitmap_loaded {blk : Nat} (sec : Nat) (ref : RequestRef) (flags : RequestFlags)
    (loaded : blk < opened.bat.bat.entries) :
    Keeps (Loaded opened) Inside (prepareBitmap blk sec ref flags) := by
  apply Keeps.ite _ (fun _ => joinTransaction_loaded blk ref)
  intro _
  apply (wantsRedundantBmWrite_loaded sec loaded).bind
  intro wanted
  exact Keeps.ite _ (fun _ => scheduleRedundantBmWrite_loaded loaded) fun _ => Keeps.pure _

theorem scheduleDataWrite_loaded (flags : RequestFlags) (fits : opened.Fits treq)
    (loaded : opened.slot treq.sec < opened.bat.bat.entries) :
    Keeps (Loaded opened) Inside (scheduleDataWrite treq flags) := by
  intro s h
  rw [scheduleDataWrite, wp_bind]
  apply (dataWriteTarget_loaded flags loaded h).imp
  rintro target t ⟨ht, bound⟩
  rcases target with err | ⟨blk, sec, offset⟩
  · exact ht
  · apply (makeRequest_loaded _ flags fits loaded).bind _ t ht
    intro found
    cases found with
    | none => exact Keeps.pure _
    | some ref =>
        apply (prepareBitmap_loaded sec ref flags (bound _ _ _ rfl)).bind
        intro _
        exact (aioWrite_loaded ref _).bind fun _ => Keeps.pure _

theorem scheduleBitmapRead_loaded {blk : Nat} (loaded : blk < opened.bat.bat.entries) :
    Keeps (Loaded opened) Inside (scheduleBitmapRead blk) := by
  apply Keeps.read
  intro s h
  apply (assert_loaded _).bind _ s h
  intro _
  apply (batEntry_loaded loaded).bind
  intro entry
  apply (assert_loaded _).bind
  intro _
  apply (assert_loaded _).bind
  intro _
  apply (allocVhdBitmap_loaded loaded).bind
  intro found
  cases found with
  | none => exact Keeps.pure _
  | some i =>
      have named : Keeps (Loaded opened) Inside
          (modify fun s => s.setRequest (.bitmap i) fun _ =>
            { op := .bitmapRead
              treq := { sec := blk * s.spb % 2 ^ 32, secs := s.bmSecs } } : Driver PUnit) := by
        apply Keeps.modify
        intro t ht
        apply ht.setRequest
        · exact ht.own_sector loaded
        · rintro (op | op) <;> cases op
      apply named.bind
      intro _
      apply (aioRead_loaded _ _).bind
      intro _
      apply (lockBitmap_loaded i).bind
      intro _
      apply (installBitmap_loaded i).bind
      intro _
      apply Keeps.bind _ fun _ => Keeps.pure _
      exact Keeps.modify fun _ ht => ht.setBitmap_same i _ rfl rfl

theorem bitmapTarget_loaded (blk entry : Nat) :
    Keeps (Loaded opened) Inside (bitmapTarget blk entry) := by
  apply Keeps.read
  intro s h
  apply Keeps.ite _ _ (fun _ => Keeps.pure _) s h
  intro _
  exact (assert_loaded _).bind fun _ => Keeps.pure _

theorem scheduleBitmapWrite_loaded {blk : Nat} (loaded : blk < opened.bat.bat.entries) :
    Keeps (Loaded opened) Inside (scheduleBitmapWrite blk) := by
  apply Keeps.read
  intro s h
  apply (batEntry_loaded loaded).bind _ s h
  intro entry
  apply (assert_loaded _).bind
  intro _
  split
  · exact Keeps.throw inside_assertion
  next i _ =>
    apply (assert_loaded _).bind
    intro _
    apply (bitmapTarget_loaded blk entry).bind
    intro offset
    have named : Keeps (Loaded opened) Inside
        (modify fun s => s.setRequest (.bitmap i) fun _ =>
          { op := .bitmapWrite
            treq := { sec := blk * s.spb % 2 ^ 32, secs := s.bmSecs } } : Driver PUnit) := by
      apply Keeps.modify
      intro t ht
      apply ht.setRequest
      · exact ht.own_sector loaded
      · rintro (op | op) <;> cases op
    apply named.bind
    intro _
    apply (aioWrite_loaded _ _).bind
    intro _
    apply (lockBitmap_loaded i).bind
    intro _
    apply (touchBitmap_loaded i).bind
    intro _
    exact Keeps.modify fun _ ht => ht.setBitmap_same i _ rfl rfl

theorem vhdQueueRequest_loaded (op : VhdOp) (fits : opened.Fits treq)
    (loaded : opened.slot treq.sec < opened.bat.bat.entries) :
    Keeps (Loaded opened) Inside (vhdQueueRequest op treq) := by
  apply Keeps.read
  intro s h
  apply (assert_loaded _).bind _ s h
  intro _
  apply blockOf_loaded loaded
  intro blk bound
  split
  · exact Keeps.throw inside_assertion
  · apply (assert_loaded _).bind
    intro _
    apply allocVhdRequest_loaded.bind
    intro found
    cases found with
    | none => exact Keeps.pure _
    | some ref =>
        apply Keeps.bind (Keeps.modify fun _ ht => ht.setRequest ref _ loaded fun _ => fits)
        intro _
        apply Keeps.bind (Keeps.modify fun _ ht => ht.setBitmap_same _ _ rfl rfl)
        intro _
        exact (lockBitmap_loaded _).bind fun _ => Keeps.pure _

theorem served_loaded {m : Driver Int} (secs : Nat) (kept : Keeps (Loaded opened) Inside m) :
    Keeps (Loaded opened) Inside
      (do let err ← m; if err ≠ 0 then pure (.error err) else pure (.ok secs) :
        Driver (Except Int Nat)) := by
  apply kept.bind
  intro err
  exact Keeps.ite _ (fun _ => Keeps.pure _) fun _ => Keeps.pure _

theorem toBlockEnd_loaded {α : Type} {f : Nat → Driver α} (fits : opened.Fits treq)
    (each : ∀ secs, opened.Fits { treq with secs } → Keeps (Loaded opened) Inside (f secs)) :
    Keeps (Loaded opened) Inside (toBlockEnd treq >>= f) := by
  intro s h
  simp only [wp_bind, wp_toBlockEnd, inside_division, implies_true, true_and]
  intro _
  exact each _ (fits.shorten (Nat.min_le_left _ _)) s h

theorem span_loaded {α : Type} {f : Nat → Driver α} (value : Bool) (fits : opened.Fits treq)
    (each : ∀ secs, opened.Fits { treq with secs } → Keeps (Loaded opened) Inside (f secs)) :
    Keeps (Loaded opened) Inside (readBitmapCacheSpan treq.sec treq.secs value >>= f) := by
  intro s h
  rw [wp_bind]
  apply (readBitmapCacheSpan_loaded treq.sec treq.secs value h).imp
  intro secs t span
  exact each secs (fits.shorten span.2) t span.1

theorem readChunk_loaded (fits : opened.Fits treq) (positive : treq.secs ≠ 0) :
    Keeps (Loaded opened) Inside (readChunk treq) := by
  intro s h
  rw [readChunk, wp_bind]
  apply (readBitmapCache_loaded .dataRead (fits.first positive) h).imp
  rintro state t ⟨ht, loads⟩
  cases state with
  | einval => exact ht
  | batLocked => exact inside_assertion
  | batClear =>
      apply toBlockEnd_loaded fits _ t ht
      exact fun secs _ => (answer_loaded _).bind fun _ => Keeps.pure _
  | bitClear =>
      apply span_loaded false fits _ t ht
      exact fun secs _ => (answer_loaded _).bind fun _ => Keeps.pure _
  | bitSet =>
      have loaded := loads (by decide)
      apply span_loaded true fits _ t ht
      exact fun secs chunk => served_loaded secs (scheduleDataRead_loaded {} chunk loaded)
  | notCached =>
      have loaded := loads (by decide)
      apply blockOf_loaded loaded _ t ht
      intro blk bound
      apply (scheduleBitmapRead_loaded bound).bind
      intro err
      apply Keeps.ite _ (fun _ => Keeps.pure _)
      intro _
      apply toBlockEnd_loaded fits
      exact fun secs chunk => served_loaded secs (vhdQueueRequest_loaded .dataRead chunk loaded)
  | readPending =>
      have loaded := loads (by decide)
      apply toBlockEnd_loaded fits _ t ht
      exact fun secs chunk => served_loaded secs (vhdQueueRequest_loaded .dataRead chunk loaded)

theorem writeChunk_loaded (fits : opened.Fits treq) (positive : treq.secs ≠ 0) :
    Keeps (Loaded opened) Inside (writeChunk treq) := by
  intro s h
  rw [writeChunk, wp_bind]
  apply (readBitmapCache_loaded .dataWrite (fits.first positive) h).imp
  rintro state t ⟨ht, loads⟩
  cases state with
  | einval => exact ht
  | batLocked => exact ht
  | batClear =>
      have loaded := loads (by decide)
      apply toBlockEnd_loaded fits _ t ht
      exact fun secs chunk => served_loaded secs (scheduleDataWrite_loaded _ chunk loaded)
  | bitClear =>
      have loaded := loads (by decide)
      apply span_loaded false fits _ t ht
      exact fun secs chunk => served_loaded secs (scheduleDataWrite_loaded _ chunk loaded)
  | bitSet =>
      have loaded := loads (by decide)
      apply span_loaded true fits _ t ht
      exact fun secs chunk => served_loaded secs (scheduleDataWrite_loaded _ chunk loaded)
  | notCached =>
      have loaded := loads (by decide)
      apply toBlockEnd_loaded fits _ t ht
      intro secs chunk
      apply blockOf_loaded loaded
      intro blk bound
      apply (scheduleBitmapRead_loaded bound).bind
      intro err
      apply Keeps.ite _ (fun _ => Keeps.pure _)
      intro _
      exact served_loaded secs (vhdQueueRequest_loaded .dataWrite chunk loaded)
  | readPending =>
      have loaded := loads (by decide)
      apply toBlockEnd_loaded fits _ t ht
      exact fun secs chunk => served_loaded secs (vhdQueueRequest_loaded .dataWrite chunk loaded)

theorem queueLoop_loaded {chunk : TdRequest → Driver (Except Int Nat)}
    (each : ∀ treq, opened.Fits treq → treq.secs ≠ 0 → Keeps (Loaded opened) Inside (chunk treq))
    (fuel : Nat) (fits : opened.Fits treq) :
    Keeps (Loaded opened) Inside (queueLoop chunk fuel treq) := by
  induction fuel generalizing treq with
  | zero => exact Keeps.ite _ (fun _ => Keeps.pure _) fun _ => Keeps.throw inside_endless
  | succ fuel ih =>
      apply Keeps.ite _ (fun _ => Keeps.pure _)
      intro positive
      apply (each treq fits positive).bind
      intro served
      cases served with
      | error err => exact answer_loaded _
      | ok secs => exact ih (fits.advance secs)

theorem vhdQueueRead_loaded (fits : opened.Fits treq) :
    Keeps (Loaded opened) Inside (vhdQueueRead treq) :=
  queueLoop_loaded (fun _ => readChunk_loaded) _ fits

theorem vhdQueueWrite_loaded (fits : opened.Fits treq) :
    Keeps (Loaded opened) Inside (vhdQueueWrite treq) :=
  queueLoop_loaded (fun _ => writeChunk_loaded) _ fits

end Chunks

section Completions
variable {opened s : VhdState}

theorem signalCompletion_loaded (list : List RequestRef) (error : Int) :
    Keeps (Loaded opened) Inside (signalCompletion list error) := by
  apply Keeps.forM
  intro ref _
  apply Keeps.read
  intro s h
  exact ((answer_loaded _).bind fun _ => freeVhdRequest_loaded ref) s h

theorem setShadow_loaded (i : BitmapIndex) (sec secs : Nat) :
    Keeps (Loaded opened) Inside (setShadow i sec secs) :=
  Keeps.modify fun _ h => h.setBitmap_same i _ rfl rfl

theorem joinQueued_loaded (i : BitmapIndex) (ref : RequestRef) :
    Keeps (Loaded opened) Inside (joinQueued i ref) := by
  apply Keeps.bind (Keeps.modify fun _ h => h.setRequest_same ref _ rfl rfl)
  intro _
  apply (addToTransaction_loaded i ref).bind
  intro _
  apply Keeps.read
  intro s h
  apply Keeps.when _ _ s h
  intro _
  apply (setTx_loaded i _).bind
  intro _
  apply Keeps.when
  intro _
  exact (remainder_loaded _).bind fun _ => setShadow_loaded i _ _

theorem startNewBitmapTransaction_loaded {finishData : BitmapIndex → Driver Unit}
    (finishes : ∀ i, Keeps (Loaded opened) Inside (finishData i)) (i : BitmapIndex) :
    Keeps (Loaded opened) Inside (startNewBitmapTransaction finishData i) := by
  apply Keeps.read
  intro s h
  apply Keeps.when _ _ s h
  intro _
  apply Keeps.bind (Keeps.modify fun _ ht => ht.setBitmap_same i _ rfl rfl)
  intro _
  apply (batEntry_loaded (h.blocks i)).bind
  intro entry
  apply Keeps.bind (Keeps.when _ fun _ => setTx_loaded i _)
  intro _
  apply Keeps.bind (Keeps.forM _ fun ref _ => joinQueued_loaded i ref)
  intro _
  apply Keeps.read
  intro t ht
  exact Keeps.when _ (fun _ => finishes i) t ht

theorem initBat_loaded : Keeps (Loaded opened) Inside initBat := by
  apply Keeps.modify
  intro s h
  have cleared : Loaded opened (s.setRequest .bat fun r => { r with tx := none, error := 0 }) :=
    h.setRequest_same .bat _ rfl rfl
  exact ⟨h.dynamic, h.vhd, h.spb, h.entries, cleared.requests, cleared.chunks, cleared.blocks,
    h.some_entry⟩

theorem finishBatTransaction_loaded (i : BitmapIndex) :
    Keeps (Loaded opened) Inside (finishBatTransaction i) := by
  apply Keeps.read
  intro s h
  apply Keeps.when _ _ s h
  intro _
  apply Keeps.ite _ (fun _ => setTx_loaded i _)
  intro _
  exact unlockBat_loaded.bind fun _ => initBat_loaded

theorem setBatmap_loaded (blk : Nat) : Keeps (Loaded opened) Inside (setBatmap blk) := by
  apply Keeps.read
  intro s h
  split
  · exact h
  · split
    · exact ⟨h.dynamic, h.vhd, h.spb, h.entries, h.requests, h.chunks, h.blocks, h.pending⟩
    · exact inside_memory

theorem settleShadow_loaded (i : BitmapIndex) :
    Keeps (Loaded opened) Inside (settleShadow i) := by
  apply Keeps.read
  intro s h
  apply Keeps.ite _ _ _ s h
  · intro _
    exact Keeps.modify fun _ ht => ht.setBitmap_same i _ rfl rfl
  · intro _
    apply Keeps.bind (Keeps.modify fun _ ht => ht.setBitmap_same i _ rfl rfl)
    intro _
    apply (testBatmap_loaded _).bind
    intro full
    apply Keeps.read
    intro t ht
    exact Keeps.when _ (fun _ => setBatmap_loaded _) t ht

theorem unlockUnused_loaded (i : BitmapIndex) :
    Keeps (Loaded opened) Inside (unlockUnused i) :=
  Keeps.read fun s h => Keeps.when _ (fun _ => unlockBitmap_loaded i) s h

theorem finishDataWith_loaded {finishBitmap : BitmapIndex → Int → Driver Unit}
    (finishes : ∀ i error, Keeps (Loaded opened) Inside (finishBitmap i error)) (i : BitmapIndex) :
    Keeps (Loaded opened) Inside (finishDataWith finishBitmap i) := by
  apply (setTx_loaded i _).bind
  intro _
  apply Keeps.read
  intro s h
  exact Keeps.ite _ (fun _ => scheduleBitmapWrite_loaded (h.blocks i)) (fun _ => finishes i 0) s h

theorem finishBitmapTransactionFuel_loaded (fuel : Nat) (i : BitmapIndex) (error : Int) :
    Keeps (Loaded opened) Inside (finishBitmapTransactionFuel fuel i error) := by
  induction fuel generalizing i error with
  | zero => exact Keeps.throw inside_endless
  | succ fuel ih =>
      apply (setTx_loaded i _).bind
      intro _
      apply Keeps.read
      intro s h
      apply Keeps.ite _ _ _ s h
      · intro _
        apply (assert_loaded _).bind
        intro _
        apply (assert_loaded _).bind
        intro _
        exact Keeps.modify fun _ ht => ht.setRequest_same .bat _ rfl rfl
      · intro _
        apply (settleShadow_loaded i).bind
        intro _
        apply (signalCompletion_loaded _ _).bind
        intro _
        apply (setTx_loaded i _).bind
        intro _
        apply (startNewBitmapTransaction_loaded (finishDataWith_loaded ih) i).bind
        intro _
        apply (unlockUnused_loaded i).bind
        intro _
        exact finishBatTransaction_loaded i

theorem finishDataTransaction_loaded (i : BitmapIndex) :
    Keeps (Loaded opened) Inside (finishDataTransaction i) :=
  finishDataWith_loaded (finishBitmapTransactionFuel_loaded 2) i

theorem finishWhenCompleted_loaded (j i : BitmapIndex) :
    Keeps (Loaded opened) Inside (finishWhenCompleted j i) :=
  Keeps.read fun s h => Keeps.when _ (fun _ => finishDataTransaction_loaded i) s h

theorem setBatEntry_loaded {index : Nat} (value : Nat) (loaded : index < opened.bat.bat.entries) :
    Keeps (Loaded opened) Inside (setBatEntry index value) := by
  apply Keeps.read
  intro s h
  apply Keeps.ite _ _ _ s h
  · intro _ t ht
    exact ⟨h.dynamic, h.vhd, h.spb, h.entries, h.requests, h.chunks, h.blocks, h.pending⟩
  · rw [h.entries]
    exact fun outside => absurd loaded outside

theorem recordBatWrite_loaded (i : BitmapIndex) (error : Int) :
    Keeps (Loaded opened) Inside (recordBatWrite i error) := by
  apply Keeps.read
  intro s h
  apply Keeps.ite _ _ (fun _ => setTx_loaded i _) s h
  intro _
  apply (setBatEntry_loaded _ h.pending).bind
  intro _
  exact Keeps.modify fun _ ht => ht.other rfl rfl rfl rfl rfl

theorem settleBatWrite_loaded (ref : RequestRef) (i : BitmapIndex) (error : Int) :
    Keeps (Loaded opened) Inside (settleBatWrite ref i error) := by
  apply Keeps.read
  intro s h
  apply Keeps.ite _ _ _ s h
  · intro _
    exact (setTx_loaded i _).bind fun _ => finishWhenCompleted_loaded i i
  · intro _
    apply (setTx_loaded i _).bind
    intro _
    exact Keeps.when _ fun _ => finishBitmapTransactionFuel_loaded 2 i error

theorem finishBatWrite_loaded (ref : RequestRef) (error : Int) :
    Keeps (Loaded opened) Inside (finishBatWrite ref error) := by
  apply Keeps.read
  intro s h
  split
  · exact inside_assertion
  · apply (assert_loaded _).bind _ s h
    intro _
    apply (assert_loaded _).bind
    intro _
    apply (assert_loaded _).bind
    intro _
    apply (recordBatWrite_loaded _ error).bind
    intro _
    apply (settleBatWrite_loaded ref _ error).bind
    intro _
    exact finishBatTransaction_loaded _

theorem settleZeroBmWrite_loaded (j : BitmapIndex) (error : Int) :
    Keeps (Loaded opened) Inside (settleZeroBmWrite j error) := by
  apply Keeps.ite _ (fun _ => ?_) fun _ => scheduleBatWrite_loaded
  apply unlockBat_loaded.bind
  intro _
  exact initBat_loaded.bind fun _ => setTx_loaded j _

theorem finishZeroBmWrite_loaded (ref : RequestRef) (error : Int) :
    Keeps (Loaded opened) Inside (finishZeroBmWrite ref error) := by
  apply Keeps.read
  intro s h
  apply blockOf_loaded (h.requests ref) _ s h
  intro blk bound
  apply (assert_loaded _).bind
  intro _
  apply (assert_loaded _).bind
  intro _
  split
  · apply (assert_loaded _).bind
    intro _
    apply (setTx_loaded _ _).bind
    intro _
    apply (settleZeroBmWrite_loaded _ error).bind
    intro _
    exact finishWhenCompleted_loaded _ _
  · exact Keeps.throw inside_assertion
  · exact Keeps.throw inside_memory

theorem requeue_loaded (ref : RequestRef) : Keeps (Loaded opened) Inside (requeue ref) := by
  apply Keeps.read
  intro s h
  apply (freeVhdRequest_loaded ref).bind _ s h
  intro _
  apply Keeps.ite _ (fun op => vhdQueueRead_loaded (h.chunks ref (.inl op)))
  intro _
  apply Keeps.ite _ (fun op => vhdQueueWrite_loaded (h.chunks ref (.inr op)))
  exact fun _ => Keeps.throw inside_assertion

theorem finishBitmapRead_loaded (ref : RequestRef) (error : Int) :
    Keeps (Loaded opened) Inside (finishBitmapRead ref error) := by
  apply Keeps.read
  intro s h
  apply blockOf_loaded (h.requests ref) _ s h
  intro blk bound
  split
  · exact Keeps.throw inside_assertion
  · apply (assert_loaded _).bind
    intro _
    apply Keeps.bind (Keeps.modify fun _ ht => ht.setBitmap_same _ _ rfl rfl)
    intro _
    apply Keeps.ite
    · intro _
      apply Keeps.bind (Keeps.modify fun _ ht => ht.setBitmap_same _ _ rfl rfl)
      intro _
      apply Keeps.bind (Keeps.forM _ fun waiting _ => requeue_loaded waiting)
      exact fun _ => unlockUnused_loaded _
    · intro _
      apply (unlockBitmap_loaded _).bind
      intro _
      exact (freeVhdBitmap_loaded _).bind fun _ => signalCompletion_loaded _ _

theorem finishBitmapWrite_loaded (ref : RequestRef) (error : Int) :
    Keeps (Loaded opened) Inside (finishBitmapWrite ref error) := by
  apply Keeps.read
  intro s h
  apply blockOf_loaded (h.requests ref) _ s h
  intro blk bound
  split
  · exact Keeps.throw inside_memory
  · apply (assert_loaded _).bind
    intro _
    apply (assert_loaded _).bind
    intro _
    apply (assert_loaded _).bind
    intro _
    apply Keeps.bind (Keeps.modify fun _ ht => ht.setBitmap_same _ _ rfl rfl)
    exact fun _ => finishBitmapTransactionFuel_loaded 2 _ error

theorem finishDataWrite_loaded (ref : RequestRef) :
    Keeps (Loaded opened) Inside (finishDataWrite ref) := by
  apply Keeps.bind (Keeps.modify fun _ h => h.setRequest_same ref _ rfl rfl)
  intro _
  apply Keeps.read
  intro s h
  dsimp only
  split
  · apply blockOf_loaded (h.requests ref) _ s h
    intro blk bound
    apply (remainder_loaded _).bind
    intro sec
    split
    · exact Keeps.throw inside_assertion
    · apply (assert_loaded _).bind
      intro _
      apply (setTx_loaded _ _).bind
      intro _
      apply Keeps.bind (Keeps.when _ fun _ => setShadow_loaded _ _ _)
      exact fun _ => finishWhenCompleted_loaded _ _
  · apply Keeps.when _ _ s h
    intro _
    exact (assert_loaded _).bind fun _ => signalCompletion_loaded _ _

theorem logError_loaded {ref : RequestRef} {err : Int} {logged : Bool} (h : Loaded opened s)
    (short : err = 0 ∨ logged = false ∨ (s.request ref).treq.sec / s.spb < 2 ^ 32) :
    wp (logError ref err logged) (fun _ => Loaded opened) Inside s := by
  simp only [logError, wp_bind, wp_get, wp_when, wp_quotient, wp_batEntry, wp_pure, inside_division,
    implies_true, true_and]
  refine ⟨fun failed _ => ⟨fun _ => h, fun outside => ?_⟩, fun _ => h⟩
  have number : (s.request ref).treq.sec / s.spb < 2 ^ 32 := by
    rcases short with none | quiet | number
    · exact absurd none failed.1
    · rw [quiet] at failed
      exact absurd failed.2 Bool.false_ne_true
    · exact number
  have loaded := h.requests ref
  rw [VhdState.slot, ← h.spb, Nat.mod_eq_of_lt number, ← h.entries] at loaded
  exact absurd loaded outside

theorem vhdComplete_loaded {ref : RequestRef} {err : Int} {logged : Bool} (data : Nat → Bool)
    (h : Loaded opened s)
    (short : err = 0 ∨ logged = false ∨ (s.request ref).treq.sec / s.spb < 2 ^ 32) :
    wp (vhdComplete ref err logged data) (fun _ => Loaded opened) Inside s := by
  have noted : Loaded opened (s.setRequest ref fun r => { r with error := err }) :=
    h.setRequest_same ref _ rfl rfl
  have spb : (s.setRequest ref fun r => { r with error := err }).spb = s.spb := by
    cases ref <;> rfl
  rw [vhdComplete, wp_bind, wp_modify, wp_bind]
  apply (logError_loaded noted (by rwa [request_setRequest_self, spb])).imp
  intro _ t ht
  rw [wp_bind, wp_get]
  split
  · exact signalCompletion_loaded _ _ t ht
  · exact finishDataWrite_loaded ref t ht
  · apply Keeps.bind _ (fun _ => finishBitmapRead_loaded ref err) t ht
    unfold fillMap
    split
    · exact Keeps.modify fun _ ht => ht.setBitmap_same _ _ rfl rfl
    · exact Keeps.pure _
  · exact finishBitmapWrite_loaded ref err t ht
  · exact finishZeroBmWrite_loaded ref err t ht
  · exact freeVhdRequest_loaded ref t ht
  · exact finishBatWrite_loaded ref err t ht

end Completions

end Blktap.BlockVhd
