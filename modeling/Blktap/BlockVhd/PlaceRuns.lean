import Blktap.BlockVhd.Place
import Blktap.Lib.Run

/-! # The entries of the table of blocks -/

namespace Blktap.BlockVhd.Place
open Lib Libvhd

variable (spp : Nat)

def Fits (s : Image) (e : Event) : Prop :=
  match s.user, e with
  | .driver d, .allocate blk _ => d.locked = true ∨ (alignTo spp s.bmSecs d.nextDb < ddBlkUnused ∧ blk < 2 ^ 30)
  | .library bat, .ioAllocate _ _ _ => alignTo spp s.bmSecs (s.endOfData bat) < ddBlkUnused
  | _, _ => True

def Within (s : Image) : Event → Prop
  | .allocate blk _ | .bitmap _ blk | .redundant blk => blk * s.spb < 2 ^ 32
  | _ => True

def Meets (s : Image) (e : Event) : Prop := Fits spp s e ∧ Within s e

instance (s : Image) (e : Event) : Decidable (Fits spp s e) := by
  unfold Fits
  split <;> infer_instance

instance (s : Image) (e : Event) : Decidable (Within s e) := by
  unfold Within
  split <;> infer_instance

instance (s : Image) (e : Event) : Decidable (Meets spp s e) :=
  inferInstanceAs (Decidable (Fits spp s e ∧ Within s e))

structure Right (s : Image) : Prop where
  placed : ∀ i sector, s.placed i = some sector → sector ≠ ddBlkUnused ∧ s.memory i = sector
  allocated : ∀ i, s.memory i ≠ ddBlkUnused → s.placed i = some (s.memory i)
  disk : ∀ i, s.disk i = ddBlkUnused ∨ s.disk i = s.memory i
  written : ∀ d, s.user = .driver d → d.writeStarted = true →
    d.slot + d.pbwBlk % 128 = d.pbwBlk ∧ d.batBuf (d.pbwBlk % 128) = d.pbwOffset ∧ d.pbwOffset ≠ ddBlkUnused
  sectors : ∀ d, s.user = .driver d → ∀ r ∈ d.io, r.sec = r.blk * s.spb

structure Driver.Reserved (d : Driver) : Prop where
  place : d.locked = true → d.bat d.pbwBlk = ddBlkUnused ∧ d.pbwOffset < ddBlkUnused ∧ d.pbwBlk < 2 ^ 30
  zeroing : d.zeroing = true → d.locked = true
  started : d.writeStarted = true → d.locked = true ∧ d.zeroing = false
  slot : d.writeStarted = true → d.slot = d.pbwBlk - d.pbwBlk % 128
  failed : d.failed = true → d.writeStarted = true
  buffer : d.writeStarted = true → ∀ i, d.batBuf i = if i = d.pbwBlk % 128 then d.pbwOffset else d.bat (d.slot + i)

structure Kept (s : Image) : Prop where
  placed : ∀ i, s.placed i = if s.memory i = ddBlkUnused then none else some (s.memory i)
  disk : ∀ i, s.disk i = ddBlkUnused ∨ s.disk i = s.memory i
  bound : ∀ i, s.memory i ≠ ddBlkUnused → i < s.entries
  reserved : ∀ d, s.user = .driver d → d.Reserved ∧ (d.locked = true → d.pbwBlk < s.entries)

variable {spp} {s t : Image} {d : Driver} {blk : Nat}

theorem small_mod {x : Nat} (small : x < ddBlkUnused) : x % 2 ^ 32 = x :=
  Nat.mod_eq_of_lt (Nat.lt_trans small (by decide))

theorem Driver.Reserved.scheduleBatWrite (locked : d.locked = true) (idle : d.zeroing = false) (unused : d.bat d.pbwBlk = ddBlkUnused)
    (place : d.pbwOffset < ddBlkUnused) (small : d.pbwBlk < 2 ^ 30) : d.scheduleBatWrite.Reserved where
  place _ := ⟨unused, place, small⟩
  zeroing _ := locked
  started _ := ⟨locked, idle⟩
  failed _ := rfl
  slot _ := by
    simp only [Driver.scheduleBatWrite]
    omega
  buffer _ i := by
    have slot : (d.pbwBlk - d.pbwBlk % 128) * 4 % 2 ^ 32 / 4 = d.pbwBlk - d.pbwBlk % 128 := by omega
    simp only [Driver.scheduleBatWrite, slot, small_mod place]

theorem Driver.Reserved.initBat (idle : d.zeroing = false) : d.initBat.Reserved := by
  constructor <;> simp [Driver.initBat, idle]

theorem Driver.Reserved.io (reserved : d.Reserved) (io : List BlockIo) : { d with io }.Reserved :=
  ⟨reserved.place, reserved.zeroing, reserved.started, reserved.slot, reserved.failed, reserved.buffer⟩

theorem memory_driver (user : s.user = .driver d) : s.memory = d.bat := by
  simp [Image.memory, user]

theorem memory_library {bat : Nat → Nat} (user : s.user = .library bat) : s.memory = bat := by
  simp [Image.memory, user]

theorem Kept.of_memory (kept : Kept s) (disk : t.disk = s.disk) (placed : t.placed = s.placed)
    (entries : t.entries = s.entries) (memory : t.memory = s.memory)
    (reserved : ∀ d, t.user = .driver d → d.Reserved ∧ (d.locked = true → d.pbwBlk < t.entries)) : Kept t := by
  refine ⟨?_, ?_, ?_, reserved⟩
  · rw [placed, memory]
    exact kept.placed
  · rw [disk, memory]
    exact kept.disk
  · rw [memory, entries]
    exact kept.bound

theorem Kept.driver (kept : Kept s) (user : s.user = .driver d) {d' : Driver} (same : d'.bat = d.bat)
    (reserved : d'.Reserved) (bound : d'.locked = true → d'.pbwBlk < s.entries) :
    Kept { s with user := .driver d' } := by
  refine kept.of_memory rfl rfl rfl (same.trans (memory_driver user).symm) ?_
  intro other equal
  cases equal
  exact ⟨reserved, bound⟩

theorem Kept.close (kept : Kept s) : Kept s.close := by
  refine ⟨fun i => ?_, fun i => .inr rfl, fun i used => ?_, nofun⟩
  · have memory : s.close.memory i = s.disk i := rfl
    rw [memory]
    simp only [Image.close]
    split
    · rfl
    next used =>
      have same : s.disk i = s.memory i := (kept.disk i).resolve_left used
      rw [kept.placed i, ← same, if_neg used]
  · have used : s.disk i ≠ ddBlkUnused := used
    exact kept.bound i ((kept.disk i).resolve_left used ▸ used)

theorem Kept.opened (kept : Kept s) (user : s.user = .nobody) (prealloc : Bool) :
    Kept { s with user := .driver (openDriver spp s prealloc) } := by
  refine kept.of_memory rfl rfl rfl (by simp [Image.memory, user, openDriver]) ?_
  intro other equal
  cases equal
  exact ⟨by constructor <;> simp [openDriver], nofun⟩

theorem Kept.ioOpened (kept : Kept s) (user : s.user = .nobody) : Kept { s with user := .library s.disk } := by
  exact kept.of_memory rfl rfl rfl (by simp [Image.memory, user]) nofun

theorem Kept.allocate (kept : Kept s) (user : s.user = .driver d) {d' : Driver} {ok : Bool}
    (fits : d.locked = true ∨ (alignTo spp s.bmSecs d.nextDb < ddBlkUnused ∧ blk < 2 ^ 30))
    (action : allocate spp s d blk ok = some d') : Kept { s with user := .driver d' } := by
  obtain ⟨reserved, bound⟩ := kept.reserved d user
  unfold Place.allocate at action
  split at action
  · cases action
  next inside =>
  obtain ⟨small, unused⟩ : blk < s.entries ∧ d.bat blk = ddBlkUnused := by simpa [not_or] using inside
  split at action
  · split at action
    · cases action
      exact kept.driver user rfl reserved bound
    · cases action
  next free =>
  obtain ⟨place, slot⟩ := fits.resolve_left free
  split at action
  · cases action
  next idle =>
  obtain ⟨zeroing, started⟩ : d.zeroing = false ∧ d.writeStarted = false := by simpa [not_or] using idle
  have calm : d.failed = false := by
    cases failed : d.failed with
    | false => rfl
    | true => simp [reserved.failed failed] at started
  split at action
  · cases action
    cases ok
    · exact kept.driver user rfl (by constructor <;> simp [allocateBlock, free, zeroing, started, calm])
        fun locked => (free locked).elim
    · exact kept.driver user rfl (.scheduleBatWrite rfl zeroing unused place slot) fun _ => small
  · cases action
    cases ok
    · exact kept.driver user rfl reserved bound
    · refine kept.driver user rfl ⟨fun _ => ⟨unused, place, slot⟩, fun _ => rfl, ?_, ?_, ?_, ?_⟩ fun _ => small
      · simp [updateBat, Driver.scheduleZeroBmWrite, started]
      · simp [updateBat, Driver.scheduleZeroBmWrite, started]
      · simp [updateBat, Driver.scheduleZeroBmWrite, calm]
      · simp [updateBat, Driver.scheduleZeroBmWrite, started]

theorem Kept.zeroed (kept : Kept s) (user : s.user = .driver d) (zeroing : d.zeroing = true) (ok : Bool) :
    Kept { s with user := .driver (finishZeroBmWrite d ok) } := by
  obtain ⟨reserved, bound⟩ := kept.reserved d user
  have locked := reserved.zeroing zeroing
  obtain ⟨unused, place, small⟩ := reserved.place locked
  cases ok
  · exact kept.driver user rfl (.initBat rfl) nofun
  · exact kept.driver user rfl (.scheduleBatWrite locked rfl unused place small) fun _ => bound locked

theorem Kept.batWritten (kept : Kept s) (user : s.user = .driver d) (started : d.writeStarted = true) (ok : Bool) :
    Kept (finishBatWrite s d ok) := by
  obtain ⟨reserved, bound⟩ := kept.reserved d user
  obtain ⟨locked, idle⟩ := reserved.started started
  obtain ⟨unused, place, small⟩ := reserved.place locked
  have slot := reserved.slot started
  have memory := memory_driver user
  cases ok
  · exact kept.driver user rfl
      ⟨reserved.place, reserved.zeroing, reserved.started, reserved.slot, fun _ => started, reserved.buffer⟩ bound
  · have updated : (finishBatWrite s d true).memory = Function.update d.bat d.pbwBlk d.pbwOffset := by
      simp only [finishBatWrite, Image.memory, Driver.initBat, small_mod place, if_true]
    refine ⟨fun i => ?_, fun i => ?_, fun i used => ?_, ?_⟩
    · rw [updated]
      by_cases own : i = d.pbwBlk
      · subst own
        simp [finishBatWrite, Nat.ne_of_lt place]
      · simp only [finishBatWrite, Function.update_of_ne own, if_true]
        rw [← memory, kept.placed i]
    · rw [updated]
      simp only [finishBatWrite, if_true]
      split
      next inside =>
        right
        rw [reserved.buffer started]
        by_cases own : i = d.pbwBlk
        · subst own
          rw [if_pos (by omega), Function.update_self]
        · rw [if_neg (by omega), Function.update_of_ne own]
          congr 1
          omega
      next outside =>
        have other : i ≠ d.pbwBlk := by omega
        rw [Function.update_of_ne other, ← memory]
        exact kept.disk i
    · rw [updated] at used
      by_cases own : i = d.pbwBlk
      · subst own
        exact bound locked
      · rw [Function.update_of_ne own, ← memory] at used
        exact kept.bound i used
    · intro other equal
      cases equal
      exact ⟨.initBat idle, nofun⟩

theorem Kept.ioAllocate (kept : Kept s) {bat : Nat → Nat} (user : s.user = .library bat) {written noted : Bool}
    (small : blk < s.entries) (unused : bat blk = ddBlkUnused)
    (fits : alignTo spp s.bmSecs (s.endOfData bat) < ddBlkUnused) :
    Kept (ioAllocateBlock spp s bat blk written noted) := by
  have memory := memory_library user
  unfold ioAllocateBlock
  split
  swap
  · exact kept
  simp only [small_mod fits]
  refine ⟨fun i => ?_, fun i => ?_, fun i used => ?_, nofun⟩
  · by_cases own : i = blk
    · subst own
      simp [Image.memory, Nat.ne_of_lt fits]
    · simp only [Image.memory, Function.update_of_ne own]
      rw [← memory, kept.placed i]
  · cases noted
    · by_cases own : i = blk
      · left
        subst own
        have same := kept.disk i
        rw [memory, unused] at same
        exact same.elim id id
      · simp only [Image.memory, Function.update_of_ne own]
        rw [← memory]
        exact kept.disk i
    · exact .inr rfl
  · by_cases own : i = blk
    · subst own
      exact small
    · simp only [Image.memory, Function.update_of_ne own] at used
      exact kept.bound i (memory ▸ used)

theorem Kept.step {e : Event} (kept : Kept s) (fits : Fits spp s e) (action : step spp s e = some t) : Kept t := by
  unfold Place.step at action
  split at action
  next user =>
    cases action
    exact kept.opened user _
  next user =>
    cases action
    exact kept.ioOpened user
  next d blk ok user =>
    obtain ⟨d', taken, rfl⟩ := Option.map_eq_some_iff.mp action
    simp only [Fits, user] at fits
    exact kept.allocate user fits taken
  next d ok user =>
    split at action
    next pending =>
      cases action
      exact kept.zeroed user pending.1 ok
    · cases action
  next d ok user =>
    split at action
    next pending =>
      cases action
      exact kept.batWritten user pending.1 ok
    · cases action
  next d user =>
    obtain ⟨reserved, bound⟩ := kept.reserved d user
    split at action
    next failed =>
      cases action
      exact kept.driver user rfl (.initBat (reserved.started (reserved.failed failed)).2) nofun
    · cases action
  next d write blk user =>
    obtain ⟨reserved, bound⟩ := kept.reserved d user
    obtain ⟨d', taken, rfl⟩ := Option.map_eq_some_iff.mp action
    simp only [scheduleBitmap] at taken
    split at taken
    · cases taken
    · cases taken
      exact kept.driver user rfl (reserved.io _) bound
  next d blk user =>
    obtain ⟨reserved, bound⟩ := kept.reserved d user
    obtain ⟨d', taken, rfl⟩ := Option.map_eq_some_iff.mp action
    simp only [scheduleRedundantBmWrite] at taken
    split at taken
    · cases taken
    · cases taken
      exact kept.driver user rfl (reserved.io _) bound
  next d user =>
    split at action
    · cases action
    · cases action
      exact kept.close
  next bat blk written noted user =>
    split at action
    · cases action
    next inside =>
      cases action
      obtain ⟨small, unused⟩ : blk < s.entries ∧ bat blk = ddBlkUnused := by simpa [not_or] using inside
      simp only [Fits, user] at fits
      exact kept.ioAllocate user small unused fits
  next user =>
    cases action
    exact kept.close
  · cases action

def Sectors (s : Image) : Prop := ∀ d, s.user = .driver d → ∀ r ∈ d.io, r.sec = r.blk * s.spb

theorem Sectors.same (sectors : Sectors s) (user : s.user = .driver d) {d' : Driver}
    (user' : t.user = .driver d') (io : d'.io = d.io) (block : t.blockSize = s.blockSize) : Sectors t := by
  intro other equal r member
  have same : d' = other := User.driver.inj (user'.symm.trans equal)
  subst same
  rw [io] at member
  rw [sectors d user r member, Image.spb, Image.spb, block]

theorem Sectors.cons (sectors : Sectors s) (user : s.user = .driver d) {d' : Driver} {r : BlockIo}
    (io : d'.io = r :: d.io) (own : r.sec = r.blk * s.spb) : Sectors { s with user := .driver d' } := by
  intro other equal other' member
  cases equal
  rw [io] at member
  rcases List.mem_cons.mp member with rfl | old
  · exact own
  · exact sectors d user other' old

theorem Sectors.step {e : Event} (sectors : Sectors s) (within : Within s e) (action : step spp s e = some t) :
    Sectors t := by
  unfold Place.step at action
  split at action
  next user =>
    cases action
    intro d equal r member
    cases equal
    cases member
  next user =>
    cases action
    exact nofun
  next d blk ok user =>
    obtain ⟨d', taken, rfl⟩ := Option.map_eq_some_iff.mp action
    unfold allocate at taken
    split at taken
    · cases taken
    split at taken
    · split at taken
      · cases taken
        exact sectors.same user rfl rfl rfl
      · cases taken
    split at taken
    · cases taken
    split at taken
    · cases taken
      cases ok <;> exact sectors.same user rfl rfl rfl
    · cases taken
      cases ok
      · exact sectors.same user rfl rfl rfl
      · exact sectors.cons user rfl (Nat.mod_eq_of_lt within)
  next d ok user =>
    split at action
    · cases action
      cases ok <;> exact sectors.same user rfl rfl rfl
    · cases action
  next d ok user =>
    split at action
    · cases action
      cases ok <;> exact sectors.same user rfl rfl rfl
    · cases action
  next d user =>
    split at action
    · cases action
      exact sectors.same user rfl rfl rfl
    · cases action
  next d write blk user =>
    obtain ⟨d', taken, rfl⟩ := Option.map_eq_some_iff.mp action
    simp only [scheduleBitmap] at taken
    split at taken
    · cases taken
    · cases taken
      exact sectors.cons user rfl (Nat.mod_eq_of_lt within)
  next d blk user =>
    obtain ⟨d', taken, rfl⟩ := Option.map_eq_some_iff.mp action
    simp only [scheduleRedundantBmWrite] at taken
    split at taken
    · cases taken
    · cases taken
      exact sectors.cons user rfl (Nat.mod_eq_of_lt within)
  next d user =>
    split at action
    · cases action
    · cases action
      exact nofun
  next bat blk written noted user =>
    split at action
    · cases action
    · cases action
      intro d equal
      unfold ioAllocateBlock at equal
      split at equal
      · cases equal
      · rw [user] at equal
        cases equal
  next user =>
    cases action
    exact nofun
  · cases action

theorem kept_create (eom blockSize entries : Nat) : Kept (create eom blockSize entries) :=
  ⟨fun i => by simp [create, Image.memory], fun i => .inl rfl, fun i used => (used rfl).elim, nofun⟩

end Blktap.BlockVhd.Place
