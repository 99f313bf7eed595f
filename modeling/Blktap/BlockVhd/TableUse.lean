import Blktap.BlockVhd.LoadedRuns

/-!
# The driver uses the slots that were loaded

The table is loaded for `curr_size >> 21` blocks, requests are admitted up to the size in sectors, and
a block is refused only past `max_bat_size`. In between lie the blocks whose slots the driver uses
although they were not loaded.
-/

namespace Blktap.BlockVhd
open Lib Libvhd Program

structure Bare (opened s : VhdState) : Prop where
  fixed : opened.vhd.type = .fixed
  vhd : s.vhd = opened.vhd
  spb : s.spb = 1
  entries : s.bat.bat.entries = 0
  empty : ∀ slot, s.bitmap slot = none

section Bare
variable {opened s : VhdState}

theorem Bare.other {t : VhdState} (h : Bare opened s) (vhd : t.vhd = s.vhd) (spb : t.spb = s.spb)
    (bat : t.bat.bat = s.bat.bat) (bitmap : t.bitmap = s.bitmap) : Bare opened t :=
  ⟨h.fixed, vhd.trans h.vhd, spb.trans h.spb, bat ▸ h.entries,
    fun slot => by rw [bitmap, h.empty]⟩

theorem Bare.setRequest (h : Bare opened s) (ref : RequestRef) (f : VhdRequest → VhdRequest) :
    Bare opened (s.setRequest ref f) := by
  cases ref <;> exact h.other rfl rfl rfl rfl

theorem Bare.no_bitmap (h : Bare opened s) (blk : Nat) : s.getBitmap blk = none := by
  unfold VhdState.getBitmap
  rw [List.findSome?_eq_none_iff]
  intro slot _
  rw [h.empty]
  rfl

theorem allocVhdRequest_bare : Keeps (Bare opened) Inside allocVhdRequest := by
  apply Keeps.read
  intro s h
  split
  · simp only [wp_bind, wp_set, wp_assert, wp_modify, wp_pure, inside_assertion, implies_true,
      and_true]
    intro _
    apply Bare.setRequest
    exact h.other rfl rfl rfl rfl
  · exact h

theorem freeVhdRequest_bare (ref : RequestRef) :
    Keeps (Bare opened) Inside (freeVhdRequest ref) := by
  intro s h
  simp only [freeVhdRequest, wp_bind, wp_modify, wp_get, wp_ite, wp_throw, inside_memory,
    implies_true, wp_set, true_and]
  exact fun _ => (h.setRequest ref _).other rfl rfl rfl rfl

theorem answer_bare (answer : Answer) :
    Keeps (Bare opened) Inside
      (modify fun s => { s with answers := s.answers ++ [answer] } : Driver PUnit) :=
  Keeps.modify fun _ h => h.other rfl rfl rfl rfl

theorem signalCompletion_bare (list : List RequestRef) (error : Int) :
    Keeps (Bare opened) Inside (signalCompletion list error) := by
  apply Keeps.forM
  intro ref _
  apply Keeps.read
  intro s h
  exact ((answer_bare _).bind fun _ => freeVhdRequest_bare ref) s h

theorem makeRequest_bare (op : VhdOp) (treq : TdRequest) (flags : RequestFlags) :
    Keeps (Bare opened) Inside (makeRequest op treq flags) := by
  apply allocVhdRequest_bare.bind
  intro found
  cases found with
  | none => exact Keeps.pure _
  | some ref =>
      apply Keeps.bind _ fun _ => Keeps.pure _
      exact Keeps.modify fun _ h => h.setRequest ref _

theorem readBitmapCache_bare (sector : Nat) (op : VhdOp) (h : Bare opened s) :
    wp (readBitmapCache sector op) (fun state t => Bare opened t ∧ state = .bitSet) Inside s := by
  simp only [readBitmapCache, wp_bind, wp_get, h.vhd, h.fixed, if_true, wp_pure, and_true]
  exact h

theorem readBitmapCacheSpan_bare (sector nrSecs : Nat) (value : Bool) :
    Keeps (Bare opened) Inside (readBitmapCacheSpan sector nrSecs value) := by
  intro s h
  simp only [readBitmapCacheSpan, wp_bind, wp_get, h.vhd, h.fixed, if_true, wp_pure]
  exact h

theorem scheduleDataRead_bare (treq : TdRequest) (flags : RequestFlags) :
    Keeps (Bare opened) Inside (scheduleDataRead treq flags) := by
  apply Keeps.bind
  · intro s h
    simp only [dataReadTarget, wp_bind, wp_get, h.vhd, h.fixed, if_true, wp_pure]
    exact h
  · intro offset
    apply (makeRequest_bare _ _ _).bind
    intro found
    cases found with
    | none => exact Keeps.pure _
    | some ref =>
        apply Keeps.bind (Keeps.modify fun _ h => h.other rfl rfl rfl rfl)
        exact fun _ => Keeps.pure _

theorem scheduleDataWrite_bare (treq : TdRequest) :
    Keeps (Bare opened) Inside (scheduleDataWrite treq {}) := by
  intro s h
  simp only [scheduleDataWrite, dataWriteTarget, wp_bind, wp_get, h.vhd, h.fixed, if_true, wp_pure]
  apply (makeRequest_bare _ _ _ s h).imp
  intro found t ht
  cases found with
  | none => exact ht
  | some ref =>
      simp only [prepareBitmap, wantsRedundantBmWrite, wp_bind, wp_get, ht.vhd, h.fixed, or_true,
        if_true, wp_pure, Bool.false_eq_true, if_false]
      exact ht.other rfl rfl rfl rfl

theorem readChunk_bare (treq : TdRequest) : Keeps (Bare opened) Inside (readChunk treq) := by
  intro s h
  rw [readChunk, wp_bind]
  apply (readBitmapCache_bare _ _ h).imp
  rintro state t ⟨ht, rfl⟩
  apply (readBitmapCacheSpan_bare _ _ _).bind _ t ht
  intro secs
  apply (scheduleDataRead_bare _ _).bind
  intro err
  exact Keeps.ite _ (fun _ => Keeps.pure _) fun _ => Keeps.pure _

theorem writeChunk_bare (treq : TdRequest) : Keeps (Bare opened) Inside (writeChunk treq) := by
  intro s h
  rw [writeChunk, wp_bind]
  apply (readBitmapCache_bare _ _ h).imp
  rintro state t ⟨ht, rfl⟩
  apply (readBitmapCacheSpan_bare _ _ _).bind _ t ht
  intro secs
  apply (scheduleDataWrite_bare _).bind
  intro err
  exact Keeps.ite _ (fun _ => Keeps.pure _) fun _ => Keeps.pure _

theorem queueLoop_bare {chunk : TdRequest → Driver (Except Int Nat)}
    (each : ∀ treq, Keeps (Bare opened) Inside (chunk treq)) (fuel : Nat) (treq : TdRequest) :
    Keeps (Bare opened) Inside (queueLoop chunk fuel treq) := by
  induction fuel generalizing treq with
  | zero => exact Keeps.ite _ (fun _ => Keeps.pure _) fun _ => Keeps.throw inside_endless
  | succ fuel ih =>
      apply Keeps.ite _ (fun _ => Keeps.pure _)
      intro _
      apply (each treq).bind
      intro served
      cases served with
      | error err => exact answer_bare _
      | ok secs => exact ih _

theorem vhdComplete_bare {ref : RequestRef} {err : Int} {logged : Bool} (data : Nat → Bool)
    (quiet : err = 0 ∨ logged = false) :
    Keeps (Bare opened) Inside (vhdComplete ref err logged data) := by
  have silent : ¬ (err ≠ 0 ∧ logged = true) := by
    rintro ⟨failed, passed⟩
    rcases quiet with none | quiet
    · exact failed none
    · exact Bool.false_ne_true (quiet.symm.trans passed)
  intro s h
  simp only [vhdComplete, logError, wp_bind, wp_modify, wp_get, wp_when, silent, false_implies,
    not_false_eq_true, true_implies, true_and]
  have noted : Bare opened (s.setRequest ref fun r => { r with error := err }) := h.setRequest ref _
  split
  · exact signalCompletion_bare _ _ _ noted
  · simp only [finishDataWrite, wp_bind, wp_modify, wp_get]
    have done := noted.setRequest ref fun r => { r with flags := { r.flags with finished := true } }
    split
    · simp only [wp_bind, wp_blockOf, wp_remainder, done.no_bitmap, wp_throw, inside_assertion,
        inside_division, implies_true, and_true]
    · simp only [wp_when, wp_bind, wp_assert, inside_assertion, implies_true, and_true]
      exact ⟨fun _ _ => signalCompletion_bare _ _ _ done, fun _ => done⟩
  · have filled : Keeps (Bare opened) Inside (fillMap ref data) := by
      unfold fillMap
      split
      · exact Keeps.modify fun _ ht => ht.other rfl rfl rfl rfl
      · exact Keeps.pure _
    apply filled.bind _ _ noted
    intro _ t ht
    simp only [finishBitmapRead, wp_bind, wp_get, wp_blockOf, ht.no_bitmap, wp_throw,
      inside_assertion, inside_division, implies_true, and_true]
  · simp only [finishBitmapWrite, wp_bind, wp_get, wp_blockOf, noted.no_bitmap, wp_throw,
      inside_memory, inside_division, implies_true, and_true]
  · simp only [finishZeroBmWrite, wp_bind, wp_get, wp_blockOf, wp_assert, noted.no_bitmap, wp_throw,
      inside_assertion, inside_division, implies_true, and_true]
  · exact freeVhdRequest_bare _ _ noted
  · simp only [finishBatWrite, wp_bind, wp_get, noted.no_bitmap, wp_throw, inside_assertion]

end Bare

structure Idle (opened s : VhdState) : Prop where
  dynamic : opened.vhd.type ≠ .fixed
  none : opened.bat.bat.entries = 0
  vhd : s.vhd = opened.vhd
  spb : s.spb = opened.spb
  entries : s.bat.bat.entries = opened.bat.bat.entries
  quiet : s.io = []

section Idle
variable {opened s : VhdState} {treq : TdRequest}

theorem readBitmapCache_idle {sector : Nat} (op : VhdOp) (loads : opened.loads sector)
    (h : Idle opened s) :
    wp (readBitmapCache sector op) (fun state t => Idle opened t ∧ state = .einval) Inside s := by
  simp only [readBitmapCache, wp_bind, wp_get, wp_ite, wp_blockOf, wp_remainder, inside_division,
    implies_true, true_and, h.spb, h.vhd, wp_pure]
  refine ⟨fun fixed => absurd fixed h.dynamic, fun _ positive _ => ?_⟩
  rcases loads with zero | loaded | refused
  · exact absurd zero positive
  · rw [h.none] at loaded
    exact absurd loaded (Nat.not_lt_zero _)
  · exact ⟨fun _ => ⟨h, trivial⟩, fun accepted => absurd refused accepted⟩

theorem readChunk_idle (fits : opened.Fits treq) (positive : treq.secs ≠ 0) :
    Keeps (Idle opened) Inside (readChunk treq) := by
  intro s h
  rw [readChunk, wp_bind]
  apply (readBitmapCache_idle _ (fits.first positive) h).imp
  rintro state t ⟨ht, rfl⟩
  exact ht

theorem writeChunk_idle (fits : opened.Fits treq) (positive : treq.secs ≠ 0) :
    Keeps (Idle opened) Inside (writeChunk treq) := by
  intro s h
  rw [writeChunk, wp_bind]
  apply (readBitmapCache_idle _ (fits.first positive) h).imp
  rintro state t ⟨ht, rfl⟩
  exact ht

theorem queueLoop_idle {chunk : TdRequest → Driver (Except Int Nat)}
    (each : ∀ treq, opened.Fits treq → treq.secs ≠ 0 → Keeps (Idle opened) Inside (chunk treq))
    (fuel : Nat) (fits : opened.Fits treq) :
    Keeps (Idle opened) Inside (queueLoop chunk fuel treq) := by
  induction fuel generalizing treq with
  | zero => exact Keeps.ite _ (fun _ => Keeps.pure _) fun _ => Keeps.throw inside_endless
  | succ fuel ih =>
      apply Keeps.ite _ (fun _ => Keeps.pure _)
      intro positive
      apply (each treq fits positive).bind
      intro served
      cases served with
      | error err => exact Keeps.modify fun _ h =>
          ⟨h.dynamic, h.none, h.vhd, h.spb, h.entries, h.quiet⟩
      | ok secs => exact ih (fits.advance secs)

end Idle

structure Fresh (opened : VhdState) : Prop where
  quiet : opened.io = []
  empty : ∀ slot, opened.bitmap slot = none
  list : ∀ i, opened.bitmapList i = {}
  requests : ∀ ref, opened.request ref = {}
  pending : opened.bat.pbwBlk = 0
  entries : opened.bat.bat.entries < 2 ^ 32
  fixed : opened.vhd.type = .fixed → opened.spb = 1 ∧ opened.bat.bat.entries = 0

section Open
variable {ctx : DriverContext} {flags : OpenFlags} {pageSize zeroSize : Nat} {opened s t : VhdState}

theorem findNextFreeBlock_fresh {bat : Bat}
    (found : findNextFreeBlock ctx.toContext s bat = .ok t) :
    ∃ first next, t = { s with firstDb := first, nextDb := next } := by
  obtain ⟨eom, _, result⟩ := Outcome.bind_eq_ok.mp found
  exact ⟨_, _, (Outcome.ok.inj result).symm⟩

theorem vhdReadBat_entries {vhd : Vhd} {bat : Bat} (read : vhdReadBat vhd = .ok bat) :
    bat.entries < 2 ^ 32 := by
  unfold vhdReadBat at read
  split at read
  · cases read
  · split at read
    · cases read
    · obtain ⟨buf, _, result⟩ := Outcome.bind_eq_ok.mp read
      cases result
      exact Nat.mod_lt _ (by decide)

theorem vhdInitializeBat_fresh (fresh : Fresh s) (dynamic : s.vhd.type ≠ .fixed)
    (initialised : vhdInitializeBat ctx.toContext flags s = .ok t) :
    Fresh t ∧ t.vhd = s.vhd := by
  obtain ⟨bat, read, rest⟩ := Outcome.bind_eq_ok.mp initialised
  obtain ⟨mid, placed, rest⟩ := Outcome.bind_eq_ok.mp rest
  obtain ⟨batmap, _, result⟩ := Outcome.bind_eq_ok.mp rest
  have same : ∃ first next, mid = { s with firstDb := first, nextDb := next } := by
    split at placed
    · exact ⟨s.firstDb, s.nextDb, (Outcome.ok.inj placed).symm⟩
    · exact findNextFreeBlock_fresh placed
  obtain ⟨first, next, rfl⟩ := same
  cases result
  exact ⟨⟨fresh.quiet, fresh.empty, fresh.list,
    fun ref => (request_congr ref rfl rfl rfl rfl).trans (fresh.requests ref), fresh.pending,
    vhdReadBat_entries read, fun fixed => absurd fixed dynamic⟩, rfl⟩

theorem vhdOpen_fresh (opens : vhdOpen ctx flags pageSize zeroSize = .ok opened) :
    Fresh opened := by
  obtain ⟨_, _, rest⟩ := Outcome.bind_eq_ok.mp opens
  have start (spp spb bmSecs padbmSize : Nat) (fixed : ctx.type = .fixed → spb = 1) :
      Fresh { vhd := ctx.toVhd, prealloc := flags.prealloc, spp, spb, bmSecs, padbmSize
              zeroSize := vhdInitialize flags pageSize zeroSize } :=
    ⟨rfl, fun _ => rfl, fun _ => rfl, fun ref => by cases ref <;> rfl, rfl, Nat.two_pow_pos 32,
      fun f => ⟨fixed f, rfl⟩⟩
  split at rest
  next dynamic =>
    have table : ctx.type ≠ .fixed := by
      intro fixed
      rw [Vhd.typeDynamic, fixed] at dynamic
      exact absurd dynamic (by decide)
    unfold vhdInitializeDynamicDisk at rest
    split at rest
    · cases rest
    · dsimp only at rest
      split at rest
      · cases rest
      · split at rest
        · cases rest
          exact start _ _ _ _ fun fixed => absurd fixed table
        · obtain ⟨mid, initialised, result⟩ := Outcome.bind_eq_ok.mp rest
          obtain ⟨fresh, vhd⟩ := vhdInitializeBat_fresh
            (start _ _ _ _ fun fixed => absurd fixed table) table initialised
          cases result
          exact ⟨fresh.quiet, fresh.empty, fresh.list,
            fun ref => (request_congr ref rfl rfl rfl rfl).trans (fresh.requests ref),
            fresh.pending, fresh.entries, fun fixed => absurd ((congrArg Vhd.type vhd).symm.trans fixed) table⟩
  next dynamic =>
    cases rest
    exact start 1 1 0 0 fun _ => rfl

end Open

def Allowed (rdonly : Bool) (opened s : VhdState) (event : Event) : Prop :=
  possible rdonly s event ∧
    match event with
    | .queue treq _ => opened.vhd.type = .fixed ∨ opened.Fits treq
    | .complete ref err logged _ _ =>
        err = 0 ∨ logged = false ∨
          opened.vhd.type ≠ .fixed ∧ (s.request ref).treq.sec / opened.spb < 2 ^ 32

def Tidy (opened s : VhdState) : Prop := Loaded opened s ∨ Idle opened s ∨ Bare opened s

section Runs
variable {ctx : DriverContext} {flags : OpenFlags} {pageSize zeroSize : Nat} {opened s t : VhdState}
  {rdonly : Bool} {event : Event}

theorem Fresh.tidy (fresh : Fresh opened) : Tidy opened opened := by
  by_cases fixed : opened.vhd.type = .fixed
  · obtain ⟨spb, none⟩ := fresh.fixed fixed
    exact .inr (.inr ⟨fixed, rfl, spb, none, fresh.empty⟩)
  by_cases none : opened.bat.bat.entries = 0
  · exact .inr (.inl ⟨fixed, none, rfl, rfl, rfl, fresh.quiet⟩)
  have positive : 0 < opened.bat.bat.entries := Nat.pos_of_ne_zero none
  refine .inl ⟨fixed, rfl, rfl, rfl, fun ref => ?_, fun ref => ?_, fun i => ?_, ?_⟩
  · rw [fresh.requests, slot_zero]
    exact positive
  · rw [fresh.requests]
    rintro (op | op) <;> cases op
  · rw [fresh.list]
    exact positive
  · rw [fresh.pending]
    exact positive

theorem runEvent_loaded (allowed : Allowed rdonly opened s event) (h : Loaded opened s) :
    wp (runEvent event) (fun _ => Loaded opened) Inside s := by
  cases event with
  | queue treq results =>
      have fits : opened.Fits treq := by
        rcases allowed.2 with fixed | fits
        · exact absurd fixed h.dynamic
        · exact fits
      have started : Loaded opened { s with results } := h.other rfl rfl rfl rfl rfl
      rw [runEvent, wp_bind, wp_modify]
      cases treq.op with
      | read => exact vhdQueueRead_loaded fits _ started
      | write => exact vhdQueueWrite_loaded fits _ started
  | complete ref err logged data results =>
      have started : Loaded opened
          { s with results, io := s.io.eraseP fun tiocb => tiocb.req = ref } :=
        h.other rfl rfl rfl rfl rfl
      rw [runEvent, wp_bind, wp_modify]
      apply vhdComplete_loaded data started
      rw [request_congr ref rfl rfl rfl rfl, h.spb]
      exact allowed.2.imp_right fun quiet => quiet.imp_right And.right

theorem runEvent_idle (allowed : Allowed rdonly opened s event) (h : Idle opened s) :
    wp (runEvent event) (fun _ => Idle opened) Inside s := by
  cases event with
  | queue treq results =>
      have fits : opened.Fits treq := by
        rcases allowed.2 with fixed | fits
        · exact absurd fixed h.dynamic
        · exact fits
      have started : Idle opened { s with results } :=
        ⟨h.dynamic, h.none, h.vhd, h.spb, h.entries, h.quiet⟩
      rw [runEvent, wp_bind, wp_modify]
      cases treq.op with
      | read => exact queueLoop_idle (fun _ => readChunk_idle) _ fits _ started
      | write => exact queueLoop_idle (fun _ => writeChunk_idle) _ fits _ started
  | complete ref err logged data results =>
      obtain ⟨tiocb, pending, _⟩ := allowed.1
      rw [h.quiet] at pending
      cases pending

theorem runEvent_bare (allowed : Allowed rdonly opened s event) (h : Bare opened s) :
    wp (runEvent event) (fun _ => Bare opened) Inside s := by
  cases event with
  | queue treq results =>
      have started : Bare opened { s with results } := h.other rfl rfl rfl rfl
      rw [runEvent, wp_bind, wp_modify]
      cases treq.op with
      | read => exact queueLoop_bare readChunk_bare _ _ _ started
      | write => exact queueLoop_bare writeChunk_bare _ _ _ started
  | complete ref err logged data results =>
      have quiet : err = 0 ∨ logged = false :=
        allowed.2.imp_right fun quiet => quiet.resolve_right fun table => table.1 h.fixed
      rw [runEvent, wp_bind, wp_modify]
      exact vhdComplete_bare data quiet _ (h.other rfl rfl rfl rfl)

theorem runEvent_tidy (allowed : Allowed rdonly opened s event) (h : Tidy opened s) :
    wp (runEvent event) (fun _ => Tidy opened) Inside s := by
  rcases h with loaded | idle | bare
  · exact (runEvent_loaded allowed loaded).imp fun _ _ => .inl
  · exact (runEvent_idle allowed idle).imp fun _ _ h => .inr (.inl h)
  · exact (runEvent_bare allowed bare).imp fun _ _ h => .inr (.inr h)

theorem execute_ok (action : execute s event = .ok t) : runEvent event s = .ok ((), t) := by
  unfold execute at action
  cases result : runEvent event s with
  | error fault =>
      rw [result] at action
      cases action
  | ok pair =>
      rw [result] at action
      cases action
      rfl

theorem execute_error {fault : Fault} (action : execute s event = .error fault) :
    runEvent event s = .error fault := by
  unfold execute at action
  cases result : runEvent event s with
  | error other =>
      rw [result] at action
      cases action
      rfl
  | ok pair =>
      rw [result] at action
      cases action

theorem execute_of_error {fault : Fault} (action : runEvent event s = .error fault) :
    execute s event = .error fault := by
  unfold execute
  rw [action]
  rfl

theorem step_ok (action : step s event = some t) : execute s event = .ok t := by
  unfold step at action
  cases result : execute s event with
  | error fault =>
      rw [result] at action
      cases action
  | ok u =>
      rw [result] at action
      cases action
      rfl

theorem run_tidy (fresh : Fresh opened) (run : Run step (Allowed rdonly opened) opened s) :
    Tidy opened s :=
  run.invariant
    (fun _ _ _ h allowed action =>
      (runEvent_tidy allowed h).ok (execute_ok (step_ok action)))
    fresh.tidy

theorem error_of_wp {m : Driver Unit} {fault : Fault}
    (fails : wp m (fun _ _ => False) (fun f => f = fault) s) : m s = .error fault := by
  unfold wp at fails
  split at fails
  · exact fails.elim
  next e result => rw [result, fails]

theorem Tidy.static (h : Tidy opened s) (fresh : Fresh opened) :
    s.vhd = opened.vhd ∧ s.spb = opened.spb ∧ s.bat.bat.entries = opened.bat.bat.entries := by
  rcases h with loaded | idle | bare
  · exact ⟨loaded.vhd, loaded.spb, loaded.entries⟩
  · exact ⟨idle.vhd, idle.spb, idle.entries⟩
  · obtain ⟨spb, none⟩ := fresh.fixed bare.fixed
    exact ⟨bare.vhd, bare.spb.trans spb.symm, bare.entries.trans none.symm⟩

theorem readBitmapCache_outside {sector : Nat} (op : VhdOp)
    (static : s.vhd = opened.vhd ∧ s.spb = opened.spb ∧
      s.bat.bat.entries = opened.bat.bat.entries)
    (dynamic : opened.vhd.type ≠ .fixed) (outside : ¬ opened.loads sector) :
    wp (readBitmapCache sector op) (fun _ _ => False) (fun f => f = .slot (opened.slot sector)) s := by
  obtain ⟨vhd, spb, entries⟩ := static
  unfold VhdState.loads at outside
  push Not at outside
  obtain ⟨positive, unloaded, accepted⟩ := outside
  simp only [readBitmapCache, wp_bind, wp_get, wp_ite, wp_blockOf, wp_remainder, wp_batEntry, vhd,
    spb, entries]
  refine ⟨fun fixed => absurd fixed dynamic, fun _ => ⟨fun zero => absurd zero positive, fun _ =>
    ⟨fun zero => absurd zero positive, fun _ => ⟨fun refused => ?_, fun _ =>
      ⟨fun loaded => ?_, fun _ => rfl⟩⟩⟩⟩⟩
  · exact absurd refused (Nat.not_lt.mpr accepted)
  · exact absurd loaded (Nat.not_lt.mpr unloaded)

theorem queue_outside {treq : TdRequest} (results : List Int) (fresh : Fresh opened)
    (h : Tidy opened s) (dynamic : opened.vhd.type ≠ .fixed)
    (admitted : possible rdonly s (.queue treq results)) (outside : ¬ opened.loads treq.sec) :
    execute s (.queue treq results) = .error (.slot (opened.slot treq.sec)) := by
  apply execute_of_error
  apply error_of_wp
  have positive : treq.secs ≠ 0 := by
    intro zero
    have check := admitted.2.2
    unfold tapdiskImageCheckTdRequest at check
    split at check
    · cases check
    · rw [if_pos (.inl zero)] at check
      cases check
  obtain ⟨n, secs⟩ := Nat.exists_eq_succ_of_ne_zero positive
  have chunk (op : VhdOp) : wp (readBitmapCache treq.sec op) (fun _ _ => False)
      (fun f => f = .slot (opened.slot treq.sec)) { s with results } :=
    readBitmapCache_outside op (h.static fresh) dynamic outside
  rw [runEvent, wp_bind, wp_modify]
  cases treq.op with
  | read =>
      dsimp only
      rw [vhdQueueRead, secs, queueLoop, if_neg positive, wp_bind, readChunk, wp_bind]
      exact (chunk .dataRead).imp fun _ _ => False.elim
  | write =>
      dsimp only
      rw [vhdQueueWrite, secs, queueLoop, if_neg positive, wp_bind, writeChunk, wp_bind]
      exact (chunk .dataWrite).imp fun _ _ => False.elim

theorem complete_outside {ref : RequestRef} {err : Int} {logged : Bool} {data : Nat → Bool}
    {results : List Int} (fresh : Fresh opened) (h : Tidy opened s)
    (pending : possible rdonly s (.complete ref err logged data results))
    (outside : ¬ (err = 0 ∨ logged = false ∨
      opened.vhd.type ≠ .fixed ∧ (s.request ref).treq.sec / opened.spb < 2 ^ 32)) :
    execute s (.complete ref err logged data results) =
      .error (.slot ((s.request ref).treq.sec / opened.spb)) := by
  push Not at outside
  obtain ⟨failed, passed, long⟩ := outside
  obtain ⟨vhd, spb, entries⟩ := h.static fresh
  have bounds : opened.spb ≠ 0 ∧
      opened.bat.bat.entries ≤ (s.request ref).treq.sec / opened.spb := by
    by_cases fixed : opened.vhd.type = .fixed
    · obtain ⟨one, none⟩ := fresh.fixed fixed
      rw [one, none]
      exact ⟨Nat.one_ne_zero, Nat.zero_le _⟩
    · have far := long fixed
      refine ⟨fun zero => ?_, Nat.le_trans (Nat.le_of_lt fresh.entries) far⟩
      rw [zero, Nat.div_zero] at far
      exact absurd far (by decide)
  apply execute_of_error
  apply error_of_wp
  simp only [runEvent, vhdComplete, logError, wp_bind, wp_modify, wp_get, wp_when, wp_quotient,
    wp_batEntry, request_setRequest_self]
  rw [request_congr ref rfl rfl rfl rfl]
  have same : ∀ t : VhdState, (t.setRequest ref fun r => { r with error := err }).spb = t.spb ∧
      (t.setRequest ref fun r => { r with error := err }).bat.bat = t.bat.bat := by
    intro t
    cases ref <;> exact ⟨rfl, rfl⟩
  rw [(same _).1, (same _).2, spb, entries]
  refine ⟨fun _ => ⟨fun zero => absurd zero bounds.1, fun _ => ⟨fun loaded => ?_, fun _ => rfl⟩⟩,
    fun quiet => ?_⟩
  · exact absurd loaded (Nat.not_lt.mpr bounds.2)
  · exact absurd ⟨failed, (Bool.not_eq_false _).mp passed⟩ quiet

/-- From an open on, a run of allowed events uses only slots that were loaded. A request that starts
at a block without a loaded slot, and a logged error that is not allowed, use another. -/
theorem table_slots_loaded (opens : vhdOpen ctx flags pageSize zeroSize = .ok opened)
    (run : Run step (Allowed flags.rdonly opened) opened s) :
    (∀ event, Allowed flags.rdonly opened s event →
      ∀ index, execute s event ≠ .error (.slot index)) ∧
    (∀ treq results, possible flags.rdonly s (.queue treq results) →
      opened.vhd.type ≠ .fixed → ¬ opened.loads treq.sec →
      execute s (.queue treq results) = .error (.slot (opened.slot treq.sec))) ∧
    (∀ ref err logged data results,
      possible flags.rdonly s (.complete ref err logged data results) →
      ¬ Allowed flags.rdonly opened s (.complete ref err logged data results) →
      execute s (.complete ref err logged data results) =
        .error (.slot ((s.request ref).treq.sec / opened.spb))) := by
  have fresh := vhdOpen_fresh opens
  have h := run_tidy fresh run
  refine ⟨fun event allowed index action => ?_, fun treq results admitted dynamic outside => ?_,
    fun ref err logged data results pending refused => ?_⟩
  · exact (runEvent_tidy allowed h).error (execute_error action) index rfl
  · exact queue_outside results fresh h dynamic admitted outside
  · exact complete_outside fresh h pending fun quiet => refused ⟨pending, quiet⟩

end Runs

def threeMiB : DriverContext where
  file := { size := 4096, byte := fun _ => 0xff }
  type := .dynamic
  currSize := 3 * 2 ^ 20
  tableOffset := 1536
  maxBatSize := 2
  blockSize := 2 ^ 21
  oldBitmap := false
  tapdisk := false
  crtrVer := 0
  dataOffset := 512
  loc := []
  oldBitmap_eq := rfl
  hdrVer := 0x00010000

def readWrite : OpenFlags := { rdonly := false, prealloc := false, query := false }

theorem threeMiB_opens :
    ∃ opened, vhdOpen threeMiB readWrite 4096 0 = .ok opened ∧ opened.vhd.type = .dynamic ∧
      opened.vhd.currSize = 3 * 2 ^ 20 ∧ opened.vhd.maxBatSize = 2 ∧ opened.spb = 4096 ∧
      opened.bat.bat.entries = 1 := by
  have facts : (vhdOpen threeMiB readWrite 4096 0).meets (fun s =>
      s.vhd.type = .dynamic ∧ s.vhd.currSize = 3 * 2 ^ 20 ∧ s.vhd.maxBatSize = 2 ∧ s.spb = 4096 ∧
        s.bat.bat.entries = 1) = true := by decide +kernel
  obtain ⟨opened, opens, facts⟩ := Outcome.meets_iff.mp facts
  exact ⟨opened, opens, of_decide_eq_true facts⟩

theorem table_slots_loaded_threeMiB :
    ∃ opened, vhdOpen threeMiB readWrite 4096 0 = .ok opened ∧
      ∀ index, execute opened (.queue { op := .write, sec := 4095, secs := 1 } []) ≠
        .error (.slot index) := by
  obtain ⟨opened, opens, type, size, maxBatSize, spb, entries⟩ := threeMiB_opens
  refine ⟨opened, opens, (table_slots_loaded opens (.refl _)).1 _ ⟨⟨?_, ?_, ?_⟩, .inr ⟨?_, ?_⟩⟩⟩
  · decide
  · decide
  · rw [infoSize, size]
    decide
  · decide
  · intro i bound
    have first : i = 0 := Nat.lt_one_iff.mp bound
    rw [first]
    refine .inr (.inl ?_)
    rw [VhdState.slot, spb, entries]
    decide

theorem table_slots_not_loaded :
    ∃ opened, vhdOpen threeMiB readWrite 4096 0 = .ok opened ∧
      possible false opened (.queue { op := .read, sec := 4096, secs := 1 } []) ∧
      opened.bat.bat.entries = 1 ∧
      execute opened (.queue { op := .read, sec := 4096, secs := 1 } []) = .error (.slot 1) := by
  obtain ⟨opened, opens, type, size, maxBatSize, spb, entries⟩ := threeMiB_opens
  have admitted : possible false opened (.queue { op := .read, sec := 4096, secs := 1 } []) := by
    refine ⟨by decide, by decide, ?_⟩
    rw [infoSize, size]
    decide
  have slot : opened.slot 4096 = 1 := by
    rw [VhdState.slot, spb]
    decide
  have dynamic : opened.vhd.type ≠ .fixed := by
    rw [type]
    decide
  have outside : ¬ opened.loads 4096 := by
    unfold VhdState.loads
    rw [slot, spb, entries, maxBatSize]
    decide
  have fault := queue_outside [] (vhdOpen_fresh opens) (vhdOpen_fresh opens).tidy dynamic admitted
    outside
  rw [slot] at fault
  exact ⟨opened, opens, admitted, entries, fault⟩

end Blktap.BlockVhd
