import Blktap.BlockVhd.PlaceRuns

/-! # Redundant writes of bitmaps -/

namespace Blktap.BlockVhd.Place
open Lib Libvhd

variable (spp : Nat)

def Image.eomSecs (s : Image) : Nat := (s.eom + 511) / 512

def Apart (s : Image) (e : Event) : Prop :=
  match s.user, e with
  | .nobody, .opened _ => s.spb % spp = 0 ∧ s.bmSecs ≤ spp ∧ s.eomSecs < 2 ^ 32
  | .driver d, .allocate blk _ =>
      d.locked = true ∨ (alignTo spp s.bmSecs d.nextDb + s.span < 2 ^ 32 ∧ blk < 2 ^ 30)
  | .library bat, .ioAllocate _ _ _ => s.eom % 512 = 0 ∧ alignTo spp s.bmSecs (s.endOfData bat) + s.span < 2 ^ 32
  | _, _ => True

instance (s : Image) (e : Event) : Decidable (Apart spp s e) := by
  unfold Apart
  generalize s.user = user
  rcases user with _ | d | bat <;> rcases e with _ | _ | _ | _ | _ | _ | _ | _ | _ | _ <;> infer_instance

def Foreign (s : Image) (d : Driver) (blk p : Nat) : Prop :=
  p < s.eom ∨
  (∃ other, other ≠ blk ∧ s.memory other ≠ ddBlkUnused ∧
    s.memory other * 512 ≤ p ∧ p < (s.memory other + s.span) * 512) ∨
  (d.locked = true ∧ d.pbwBlk ≠ blk ∧ d.pbwOffset * 512 ≤ p ∧ p < (d.pbwOffset + s.span) * 512)

def Clean (s : Image) : Prop :=
  ∀ d, s.user = .driver d → ∀ r ∈ d.io, r.op = .redundantBmWrite →
    r.offset + r.bytes = (s.memory r.blk + s.bmSecs) * 512 ∧ s.bmSecs * 512 ≤ r.bytes ∧
      ∀ p, r.offset ≤ p → p < r.offset + r.bytes → ¬ Foreign s d r.blk p

variable {spp} {s t : Image} {d : Driver} {blk : Nat}

theorem bmSecs_pos (s : Image) : 0 < s.bmSecs := secsRoundUpNoZero_pos _

theorem Apart.fits {e : Event} (apart : Apart spp s e) : Fits spp s e := by
  have some := bmSecs_pos s
  unfold Apart at apart
  unfold Fits
  split
  next user =>
    simp only [user] at apart
    refine apart.imp_right fun room => ⟨?_, room.2⟩
    have below := room.1
    simp only [Image.span, ddBlkUnused] at below ⊢
    omega
  next user =>
    simp only [user] at apart
    have room := apart.2
    simp only [Image.span, ddBlkUnused] at room ⊢
    omega
  · trivial

structure Blocks (spp : Nat) (s : Image) (bat : Nat → Nat) : Prop where
  behind : ∀ i, bat i ≠ ddBlkUnused → s.eomSecs ≤ bat i
  aligned : ∀ i, bat i ≠ ddBlkUnused → (bat i + s.bmSecs) % spp = 0
  below : ∀ i, bat i ≠ ddBlkUnused → bat i + s.span < 2 ^ 32
  apart : ∀ i j, i ≠ j → bat i ≠ ddBlkUnused → bat j ≠ ddBlkUnused →
    bat i + s.span ≤ bat j ∨ bat j + s.span ≤ bat i

theorem Blocks.update {bat : Nat → Nat} {place : Nat} (blocks : Blocks spp s bat) (behind : s.eomSecs ≤ place)
    (aligned : (place + s.bmSecs) % spp = 0) (below : place + s.span < 2 ^ 32)
    (last : ∀ i, bat i ≠ ddBlkUnused → bat i + s.span ≤ place) : Blocks spp s (Function.update bat blk place) where
  behind i used := by
    by_cases own : i = blk
    · subst own
      rwa [Function.update_self]
    · rw [Function.update_of_ne own] at used ⊢
      exact blocks.behind i used
  aligned i used := by
    by_cases own : i = blk
    · subst own
      rwa [Function.update_self]
    · rw [Function.update_of_ne own] at used ⊢
      exact blocks.aligned i used
  below i used := by
    by_cases own : i = blk
    · subst own
      rwa [Function.update_self]
    · rw [Function.update_of_ne own] at used ⊢
      exact blocks.below i used
  apart i j different used used' := by
    by_cases own : i = blk
    · subst own
      rw [Function.update_of_ne different.symm] at used' ⊢
      rw [Function.update_self]
      exact .inr (last j used')
    · rw [Function.update_of_ne own] at used ⊢
      by_cases own' : j = blk
      · subst own'
        rw [Function.update_self]
        exact .inl (last i used)
      · rw [Function.update_of_ne own'] at used' ⊢
        exact blocks.apart i j different used used'

theorem Blocks.part {bat bat' : Nat → Nat} (blocks : Blocks spp s bat)
    (part : ∀ i, bat' i = ddBlkUnused ∨ bat' i = bat i) : Blocks spp s bat' := by
  have same : ∀ i, bat' i ≠ ddBlkUnused → bat' i = bat i := fun i used => (part i).resolve_left used
  refine ⟨fun i used => ?_, fun i used => ?_, fun i used => ?_, fun i j different used used' => ?_⟩
  · have equal := same i used
    rw [equal] at used ⊢
    exact blocks.behind i used
  · have equal := same i used
    rw [equal] at used ⊢
    exact blocks.aligned i used
  · have equal := same i used
    rw [equal] at used ⊢
    exact blocks.below i used
  · have equal := same i used
    have equal' := same j used'
    rw [equal] at used ⊢
    rw [equal'] at used' ⊢
    exact blocks.apart i j different used used'

theorem endOfData_last {bat : Nat → Nat} :
    s.eom / 512 ≤ s.endOfData bat ∧ ∀ i < s.entries, bat i ≠ ddBlkUnused → bat i + s.span ≤ s.endOfData bat := by
  unfold Image.endOfData
  generalize s.entries = n
  induction n with
  | zero => simp
  | succ n ih =>
      obtain ⟨start, last⟩ := ih
      rw [List.range_succ, List.foldl_append, List.foldl_cons, List.foldl_nil]
      split
      next used =>
        refine ⟨start.trans (Nat.le_max_right ..), fun i bound used' => ?_⟩
        rcases Nat.lt_succ_iff_lt_or_eq.mp bound with earlier | rfl
        · exact (last i earlier used').trans (Nat.le_max_right ..)
        · rw [Image.span, Nat.add_comm s.bmSecs]
          exact Nat.le_max_left ..
      next unused =>
        refine ⟨start, fun i bound used' => ?_⟩
        rcases Nat.lt_succ_iff_lt_or_eq.mp bound with earlier | rfl
        · exact last i earlier used'
        · exact (unused used').elim

theorem nextFree_last (blocks : Blocks spp s s.disk) :
    s.eomSecs ≤ s.nextFree s.eomSecs ∧
      ∀ i < s.entries, s.disk i ≠ ddBlkUnused → s.disk i + s.span ≤ s.nextFree s.eomSecs := by
  suffices all : s.eomSecs ≤ s.nextFree s.eomSecs ∧
      (∀ i < s.entries, s.disk i ≠ ddBlkUnused → s.disk i + s.span ≤ s.nextFree s.eomSecs) ∧
      (s.nextFree s.eomSecs = s.eomSecs ∨
        ∃ i, s.disk i ≠ ddBlkUnused ∧ s.nextFree s.eomSecs = s.disk i + s.span) from ⟨all.1, all.2.1⟩
  unfold Image.nextFree
  generalize s.entries = n
  induction n with
  | zero => simp
  | succ n ih =>
      obtain ⟨start, last, reached⟩ := ih
      rw [List.range_succ, List.foldl_append, List.foldl_cons, List.foldl_nil]
      generalize List.foldl _ s.eomSecs (List.range n) = next at start last reached ⊢
      split
      next found =>
        obtain ⟨used, later⟩ := found
        have below := blocks.below n used
        have whole : (s.disk n + s.spb + s.bmSecs) % 2 ^ 32 = s.disk n + s.span := by
          simp only [Image.span] at below ⊢
          omega
        rw [whole]
        refine ⟨by omega, fun i bound used' => ?_, .inr ⟨n, used, rfl⟩⟩
        rcases Nat.lt_succ_iff_lt_or_eq.mp bound with earlier | rfl
        · have ends := last i earlier used'
          omega
        · exact le_rfl
      next passed =>
        refine ⟨start, fun i bound used => ?_, reached⟩
        rcases Nat.lt_succ_iff_lt_or_eq.mp bound with earlier | rfl
        · exact last i earlier used
        · -- the block begins below the end of another one, so it ends below it
          have early : s.disk i < next := by
            by_contra late
            exact passed ⟨used, by omega⟩
          rcases reached with first | ⟨j, used', ends⟩
          · have behind := blocks.behind i used
            omega
          · by_cases own : i = j
            · subst own
              omega
            · rcases blocks.apart i j own used used' with before | after
              · omega
              · omega

structure Driver.Laid (spp : Nat) (s : Image) (d : Driver) : Prop where
  pages : s.spb % spp = 0
  fits : s.bmSecs ≤ spp
  first : d.firstDb = alignTo spp s.bmSecs s.eomSecs
  start : s.eomSecs ≤ d.nextDb
  last : ∀ i, d.bat i ≠ ddBlkUnused → d.bat i + s.span ≤ d.nextDb
  reserved : d.locked = true →
    d.nextDb ≤ d.pbwOffset ∧ (d.pbwOffset + s.bmSecs) % spp = 0 ∧ d.pbwOffset + s.span < 2 ^ 32
  redundant : ∀ r ∈ d.io, r.op = .redundantBmWrite → d.bat r.blk ≠ ddBlkUnused ∧ d.bat r.blk ≠ d.firstDb ∧
    r.offset + spp * 512 = (d.bat r.blk + s.bmSecs) * 512 ∧ r.bytes = spp * 512

structure Laid (spp : Nat) (s : Image) : Prop where
  kept : Kept s
  blocks : Blocks spp s s.memory
  driver : ∀ d, s.user = .driver d → d.Laid spp s

theorem Laid.setDriver (laid : Laid spp s) (kept : Kept { s with user := .driver d }) (bat : d.bat = s.memory)
    (own : d.Laid spp s) : Laid spp { s with user := .driver d } where
  kept := kept
  blocks := by
    have blocks := laid.blocks
    rw [← bat] at blocks
    exact ⟨blocks.behind, blocks.aligned, blocks.below, blocks.apart⟩
  driver other equal := by
    cases equal
    exact ⟨own.pages, own.fits, own.first, own.start, own.last, own.reserved, own.redundant⟩

theorem Driver.Laid.initBat (laid : d.Laid spp s) : d.initBat.Laid spp s :=
  ⟨laid.pages, laid.fits, laid.first, laid.start, laid.last, nofun, laid.redundant⟩

theorem Driver.Laid.scheduleBatWrite (laid : d.Laid spp s) : d.scheduleBatWrite.Laid spp s :=
  ⟨laid.pages, laid.fits, laid.first, laid.start, laid.last, laid.reserved, laid.redundant⟩

theorem Driver.Laid.cons (laid : d.Laid spp s) {r : BlockIo} (own : r.op = .redundantBmWrite →
    d.bat r.blk ≠ ddBlkUnused ∧ d.bat r.blk ≠ d.firstDb ∧
      r.offset + spp * 512 = (d.bat r.blk + s.bmSecs) * 512 ∧ r.bytes = spp * 512) :
    { d with io := r :: d.io }.Laid spp s := by
  refine ⟨laid.pages, laid.fits, laid.first, laid.start, laid.last, laid.reserved, fun other member => ?_⟩
  rcases List.mem_cons.mp member with rfl | old
  · exact own
  · exact laid.redundant other old

theorem Driver.Laid.allocate (laid : d.Laid spp s) (positive : 0 < spp) {d' : Driver} {ok : Bool}
    (room : d.locked = true ∨ (alignTo spp s.bmSecs d.nextDb + s.span < 2 ^ 32 ∧ blk < 2 ^ 30))
    (action : allocate spp s d blk ok = some d') : d'.bat = d.bat ∧ d'.Laid spp s := by
  have later : d.nextDb ≤ alignTo spp s.bmSecs d.nextDb := le_alignTo
  have aligned : (alignTo spp s.bmSecs d.nextDb + s.bmSecs) % spp = 0 := alignTo_aligned positive
  unfold Place.allocate at action
  split at action
  · cases action
  split at action
  · split at action
    · cases action
      exact ⟨rfl, laid⟩
    · cases action
  next free =>
  obtain ⟨below, -⟩ := room.resolve_left free
  split at action
  · cases action
  split at action
  · cases action
    -- the gap is left behind in any case
    have moved : ∀ i, d.bat i ≠ ddBlkUnused → d.bat i + s.span ≤ alignTo spp s.bmSecs d.nextDb :=
      fun i used => (laid.last i used).trans later
    cases ok
    · exact ⟨rfl, laid.pages, laid.fits, laid.first, laid.start.trans later, moved,
        fun locked => (free locked).elim, laid.redundant⟩
    · exact ⟨rfl, laid.pages, laid.fits, laid.first, laid.start.trans later, moved,
        fun _ => ⟨le_rfl, aligned, below⟩, laid.redundant⟩
  · cases action
    cases ok
    · exact ⟨rfl, laid⟩
    · have reserved : Driver.Laid spp s
          { d with locked := true, pbwBlk := blk, pbwOffset := alignTo spp s.bmSecs d.nextDb, zeroing := true } :=
        ⟨laid.pages, laid.fits, laid.first, laid.start, laid.last, fun _ => ⟨later, aligned, below⟩, laid.redundant⟩
      exact ⟨rfl, reserved.cons nofun⟩

theorem paddedBitmapSize_page (positive : 0 < s.bmSecs) (fits : s.bmSecs ≤ spp) :
    paddedBitmapSize s.bmSecs (spp * 512) = spp * 512 := by
  have small : s.bmSecs < spp * 512 := by omega
  simp only [paddedBitmapSize, Nat.div_eq_of_lt small, Nat.mod_eq_of_lt small]
  rw [if_neg (by omega)]
  omega

theorem Driver.Laid.scheduleRedundantBmWrite (laid : d.Laid spp s) (blocks : Blocks spp s d.bat)
    (page : spp * 512 < 2 ^ 31) {d' : Driver} (action : scheduleRedundantBmWrite spp s d blk = some d') :
    d'.bat = d.bat ∧ d'.Laid spp s := by
  have some := bmSecs_pos s
  have fits := laid.fits
  simp only [Place.scheduleRedundantBmWrite, paddedBitmapSize_page some fits] at action
  split at action
  · cases action
  next inside =>
  obtain ⟨-, used, other⟩ := by simpa only [not_or] using inside
  cases action
  refine ⟨rfl, laid.cons fun _ => ⟨used, other, ?_, ?_⟩⟩
  · have below := blocks.below blk used
    have whole : spp ≤ d.bat blk + s.bmSecs :=
      Nat.le_of_dvd (by omega) (Nat.dvd_of_mod_eq_zero (blocks.aligned blk used))
    dsimp only
    omega
  · dsimp only
    rw [Nat.mul_div_cancel _ (by omega)]

theorem Laid.batWritten (laid : Laid spp s) (user : s.user = .driver d) {ok : Bool}
    (kept : Kept (finishBatWrite s d ok)) (started : d.writeStarted = true) : Laid spp (finishBatWrite s d ok) := by
  have memory := memory_driver user
  obtain ⟨own, -⟩ := laid.kept.reserved d user
  obtain ⟨locked, -⟩ := own.started started
  obtain ⟨unused, place, -⟩ := own.place locked
  have driver := laid.driver d user
  obtain ⟨later, aligned, below⟩ := driver.reserved locked
  cases ok
  · exact laid.setDriver kept memory.symm
      ⟨driver.pages, driver.fits, driver.first, driver.start, driver.last, driver.reserved, driver.redundant⟩
  · have blocks := laid.blocks
    rw [memory] at blocks
    have blocks : Blocks spp s (Function.update d.bat d.pbwBlk d.pbwOffset) :=
      blocks.update (driver.start.trans later) aligned below fun i used => (driver.last i used).trans later
    have updated : (finishBatWrite s d true).memory = Function.update d.bat d.pbwBlk d.pbwOffset := by
      simp only [finishBatWrite, Image.memory, Driver.initBat, small_mod place, if_true]
    refine ⟨kept, ?_, fun d' equal => ?_⟩
    · rw [updated]
      exact ⟨blocks.behind, blocks.aligned, blocks.below, blocks.apart⟩
    · cases equal
      refine ⟨driver.pages, driver.fits, driver.first, ?_, ?_, fun locked => Bool.noConfusion locked, ?_⟩
      · have start := driver.start
        change s.eomSecs ≤ d.pbwOffset + s.spb + s.bmSecs
        omega
      · intro i used
        change _ + s.span ≤ d.pbwOffset + s.spb + s.bmSecs
        simp only [Driver.initBat, small_mod place] at used ⊢
        by_cases same : i = d.pbwBlk
        · subst same
          rw [Function.update_self, Image.span]
          omega
        · rw [Function.update_of_ne same] at used ⊢
          have ends := driver.last i used
          omega
      · intro r member redundant
        obtain ⟨used, other, offset, bytes⟩ := driver.redundant r member redundant
        have different : r.blk ≠ d.pbwBlk := by
          intro same
          rw [same] at used
          exact used unused
        simp only [Driver.initBat, Function.update_of_ne different]
        exact ⟨used, other, offset, bytes⟩

theorem Laid.step {e : Event} (positive : 0 < spp) (page : spp * 512 < 2 ^ 31) (laid : Laid spp s)
    (apart : Apart spp s e) (action : step spp s e = some t) : Laid spp t := by
  have kept : Kept t := laid.kept.step apart.fits action
  unfold Place.step at action
  split at action
  next prealloc user =>
    cases action
    have memory : s.memory = s.disk := by simp [Image.memory, user]
    have blocks := laid.blocks
    rw [memory] at blocks
    simp only [Apart, user] at apart
    obtain ⟨pages, fits, small⟩ := apart
    have secs : secsRoundUp s.eom = s.eomSecs := Nat.mod_eq_of_lt small
    obtain ⟨start, last⟩ := nextFree_last blocks
    refine laid.setDriver kept (by rw [memory]; rfl) ⟨pages, fits, ?_, ?_, ?_, fun locked => Bool.noConfusion locked, fun r member => absurd member List.not_mem_nil⟩
    · rw [← secs]
      rfl
    · simpa only [openDriver, secs] using start
    · intro i used
      simpa only [openDriver, secs] using last i (laid.kept.bound i (by rw [memory]; exact used)) used
  next user =>
    cases action
    have memory : s.memory = s.disk := by simp [Image.memory, user]
    have blocks := laid.blocks
    rw [memory] at blocks
    exact ⟨kept, ⟨blocks.behind, blocks.aligned, blocks.below, blocks.apart⟩, fun d used => User.noConfusion used⟩
  next d blk ok user =>
    obtain ⟨d', taken, rfl⟩ := Option.map_eq_some_iff.mp action
    simp only [Apart, user] at apart
    obtain ⟨same, own⟩ := (laid.driver d user).allocate positive apart taken
    exact laid.setDriver kept (same.trans (memory_driver user).symm) own
  next d ok user =>
    split at action
    · cases action
      have driver := laid.driver d user
      have quiet : Driver.Laid spp s { d with zeroing := false } :=
        ⟨driver.pages, driver.fits, driver.first, driver.start, driver.last, driver.reserved, driver.redundant⟩
      cases ok
      · exact laid.setDriver kept (memory_driver user).symm quiet.initBat
      · exact laid.setDriver kept (memory_driver user).symm quiet.scheduleBatWrite
    · cases action
  next d ok user =>
    split at action
    next pending =>
      cases action
      exact laid.batWritten user kept pending.1
    · cases action
  next d user =>
    split at action
    · cases action
      exact laid.setDriver kept (memory_driver user).symm (laid.driver d user).initBat
    · cases action
  next d write blk user =>
    obtain ⟨d', taken, rfl⟩ := Option.map_eq_some_iff.mp action
    simp only [scheduleBitmap] at taken
    split at taken
    · cases taken
    · cases taken
      refine laid.setDriver kept (memory_driver user).symm ((laid.driver d user).cons ?_)
      intro redundant
      cases write <;> cases redundant
  next d blk user =>
    obtain ⟨d', taken, rfl⟩ := Option.map_eq_some_iff.mp action
    have memory := memory_driver user
    obtain ⟨same, own⟩ := (laid.driver d user).scheduleRedundantBmWrite (memory ▸ laid.blocks) page taken
    exact laid.setDriver kept (same.trans memory.symm) own
  next d user =>
    split at action
    · cases action
    · cases action
      have blocks := laid.blocks.part laid.kept.disk
      exact ⟨kept, ⟨blocks.behind, blocks.aligned, blocks.below, blocks.apart⟩, fun d used => User.noConfusion used⟩
  next bat blk written noted user =>
    split at action
    · cases action
    next inside =>
      cases action
      simp only [Apart, user] at apart
      obtain ⟨whole, below⟩ := apart
      have memory := memory_library user
      have bound := laid.kept.bound
      have blocks := laid.blocks
      rw [memory] at blocks bound
      obtain ⟨start, last⟩ : s.eom / 512 ≤ s.endOfData bat ∧
          ∀ i < s.entries, bat i ≠ ddBlkUnused → bat i + s.span ≤ s.endOfData bat := endOfData_last
      have later : s.endOfData bat ≤ alignTo spp s.bmSecs (s.endOfData bat) := le_alignTo
      have behind : s.eomSecs ≤ alignTo spp s.bmSecs (s.endOfData bat) := by
        simp only [Image.eomSecs]
        omega
      have new : Blocks spp s (Function.update bat blk (alignTo spp s.bmSecs (s.endOfData bat))) :=
        blocks.update behind (alignTo_aligned positive) below fun i used => (last i (bound i used) used).trans later
      cases written
      · exact laid
      · have place : alignTo spp s.bmSecs (s.endOfData bat) % 2 ^ 32 = alignTo spp s.bmSecs (s.endOfData bat) :=
          Nat.mod_eq_of_lt (by omega)
        refine ⟨kept, ?_, fun d used => User.noConfusion used⟩
        simp only [ioAllocateBlock, Image.memory, place, if_true]
        exact ⟨new.behind, new.aligned, new.below, new.apart⟩
  next bat user =>
    cases action
    have blocks := laid.blocks.part laid.kept.disk
    exact ⟨kept, ⟨blocks.behind, blocks.aligned, blocks.below, blocks.apart⟩, fun d used => User.noConfusion used⟩
  · cases action

theorem Laid.clean (positive : 0 < spp) (laid : Laid spp s) : Clean s := by
  intro d user r member redundant
  have memory := memory_driver user
  have blocks := laid.blocks
  rw [memory] at blocks ⊢
  obtain ⟨pages, fits, first, start, last, reserved, writes⟩ := laid.driver d user
  obtain ⟨used, other, offset, bytes⟩ := writes r member redundant
  have aligned := blocks.aligned r.blk used
  have some := bmSecs_pos s
  refine ⟨by omega, by omega, fun p low high => ?_⟩
  have ends := last r.blk used
  rintro (headers | ⟨block, different, used', begins, inside⟩ | ⟨locked, -, begins, -⟩)
  · -- the first place behind the headers lies a page in front
    have behind : d.firstDb ≤ d.bat r.blk := first ▸ alignTo_le positive (blocks.behind r.blk used) aligned
    have page : d.firstDb + s.bmSecs + spp ≤ d.bat r.blk + s.bmSecs :=
      add_page_le (first ▸ alignTo_aligned positive) aligned (by omega)
    have later : s.eomSecs ≤ d.firstDb := first ▸ le_alignTo
    simp only [Image.eomSecs] at later
    omega
  · rw [memory] at used' begins inside
    rcases blocks.apart r.blk block different.symm used used' with after | before
    · simp only [Image.span] at after
      omega
    · -- the other block ends with a page
      have whole : (d.bat block + s.span) % spp = 0 := by
        rw [Image.span, ← Nat.add_assoc, Nat.add_mod, blocks.aligned block used', pages, Nat.zero_add, Nat.zero_mod]
      have page : d.bat block + s.span + spp ≤ d.bat r.blk + s.bmSecs := add_page_le whole aligned (by omega)
      omega
  · have later := (reserved locked).1
    simp only [Image.span] at ends
    omega

theorem laid_create (eom blockSize entries : Nat) : Laid spp (create eom blockSize entries) :=
  ⟨kept_create eom blockSize entries,
    ⟨fun _ used => (used rfl).elim, fun _ used => (used rfl).elim, fun _ used => (used rfl).elim,
      fun _ _ _ used => (used rfl).elim⟩, nofun⟩

/-- In every run with blocks of whole pages whose bitmaps fit into a page, below 2^32 sectors, a redundant write
touches only the bitmap of its own block and what is in front of it. -/
theorem redundant_clean (spp eom blockSize entries : Nat) (positive : 0 < spp) (page : spp * 512 < 2 ^ 31)
    (run : Run (step spp) (Apart spp) (create eom blockSize entries) s) : Clean s :=
  (run.invariant (I := Laid spp) (fun _ _ _ laid apart action => laid.step positive page apart action)
    (laid_create eom blockSize entries)).clean positive

theorem redundant_clean_second : ∃ s : Image,
    (match s.user with | .driver d => d.io.map fun r => (r.offset, r.bytes) | _ => []) =
      [(4104 * 512, 4096), (4104 * 512, 4096), (4 * 512, 4 * 512)] ∧ Clean s := by
  obtain ⟨s, action, io⟩ := Option.map_eq_some_iff.mp (by decide +kernel :
    (runEvents (guarded (step 8) (Apart 8)) (create 2048 (2 ^ 21) 2)
      [.opened false, .allocate 0 true, .zeroed true, .batWritten true, .allocate 1 true, .zeroed true,
        .batWritten true, .redundant 1]).map
      (fun s : Image => match s.user with | .driver d => d.io.map fun r => (r.offset, r.bytes) | _ => []) =
      some [(4104 * 512, 4096), (4104 * 512, 4096), (4 * 512, 4 * 512)])
  exact ⟨s, io, redundant_clean 8 2048 (2 ^ 21) 2 (by decide) (by decide) (trace_of_guarded _ action).run⟩

theorem redundant_foreign : ∃ s, Run (step 8) (fun _ _ => True) (create 2048 2048 2) s ∧ ¬ Clean s := by
  obtain ⟨s, action, shown⟩ := Option.map_eq_some_iff.mp (by decide +kernel :
    (runEvents (step 8) (create 2048 2048 2)
      [.opened false, .allocate 0 true, .zeroed true, .batWritten true, .allocate 1 true, .zeroed true,
        .batWritten true, .redundant 1]).map
      (fun s : Image => match s.user with
        | .driver d => (d.io.head?.map fun r => (r.op, r.blk, r.offset, r.bytes), s.memory 0, s.span, true)
        | _ => (none, 0, 0, false)) =
      some (some (.redundantBmWrite, 1, 8 * 512, 4096), 7, 5, true))
  refine ⟨s, run_of_runEvents _ (fun _ _ => trivial) action, fun clean => ?_⟩
  split at shown
  next d user =>
    cases io : d.io with
    | nil => simp [io] at shown
    | cons r rest =>
        simp only [io, List.head?_cons, Option.map_some, Prod.mk.injEq, Option.some.injEq, and_true] at shown
        obtain ⟨⟨op, own, offset, bytes⟩, entry, span⟩ := shown
        obtain ⟨-, -, outside⟩ := clean d user r (by simp [io]) op
        apply outside (8 * 512) (by omega) (by omega)
        exact .inr (.inl ⟨0, by omega, by rw [entry]; decide, by omega, by omega⟩)
  · simp at shown

end Blktap.BlockVhd.Place
