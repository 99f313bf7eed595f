import Blktap.Lib.Run
import Blktap.Libvhd.Keeps
import Blktap.Libvhdindex.Blocks

/-! # What is read of a block of the index -/

namespace Blktap.Libvhdindex
open Lib Libvhd

structure Index where
  ctx : Context
  written : Nat → Option (List Entry)

def Io.untouched (io : Io) : Bool := !io.memory || io.stop.any (·.bytes == 0)

def Io.works (io : Io) : Prop := io.memory = true ∧ io.stop = none

def step (s : Index) : Op → Option Index
  | .append io block =>
      match vhdiAppendBlock io block s.ctx with
      | (.ok sector, ctx) => some ⟨ctx, Function.update s.written sector (some block.table)⟩
      | (.error _, ctx) => some ⟨ctx, s.written⟩
      | (.undefined, _) => none
  | .write io block sector =>
      match vhdiWriteBlock io block sector s.ctx with
      | (.ok (), ctx) => some ⟨ctx, Function.update s.written sector.toNat (some block.table)⟩
      | (.error _, ctx) =>
          some ⟨ctx, if io.untouched then s.written else Function.update s.written sector.toNat none⟩
      | (.undefined, _) => none

def Context.blockBytes (ctx : Context) : Nat := vhdBytesPadded (ctx.spb * 8)

def Context.inBlock (ctx : Context) (sector p : Nat) : Prop :=
  sector * 512 ≤ p ∧ p < sector * 512 + ctx.blockBytes

/-- What is appended fills its sectors, and its sector has 32 bits; what is written does not overlap another block. -/
def Op.Meets (s : Index) : Op → Prop
  | .append io block =>
      (io.works → block.table.length = s.ctx.spb ∧ 2 ^ 15 ≤ s.ctx.vhdBlockSize) ∧
        s.ctx.file.size ≤ (2 ^ 32 - 1) * 512
  | .write io block sector =>
      (io.works → block.table.length = s.ctx.spb) ∧ block.table.length * 8 ≤ s.ctx.blockBytes ∧
        ∀ other, other ≠ sector.toNat → (s.written other).isSome = true →
          ∀ p, s.ctx.inBlock other p → ¬ s.ctx.inBlock sector.toNat p

structure RoundTrips (s : Index) : Prop where
  reads : ∀ sector table, s.written sector = some table → vhdiReadBlock s.ctx sector = .ok table
  appends : ∀ io block t, (Op.append io block).Meets s → step s (.append io block) = some t →
    ∀ sector table, s.written sector = some table →
      t.written sector = some table ∧ vhdiReadBlock t.ctx sector = .ok table

structure Context.Shows (ctx : Context) (sector : Nat) (table : List Entry) : Prop where
  length : table.length = ctx.spb
  inFile : sector * 512 + ctx.blockBytes ≤ ctx.file.size
  byte : ∀ p < ctx.blockBytes, ctx.file.byte (sector * 512 + p) = tableOut table p

def Index.Sound (s : Index) : Prop := ∀ sector table, s.written sector = some table → s.ctx.Shows sector table

section Sizes
variable {ctx : Context} {bytes : Nat}

theorem padded_eq (positive : 0 < bytes) (small : bytes ≤ (2 ^ 32 - 1) * 512) :
    vhdBytesPadded bytes = (bytes + 511) / 512 * 512 := by
  unfold vhdBytesPadded secsRoundUpNoZero secsRoundUp
  rw [Nat.mod_eq_of_lt (by omega), if_neg (by omega)]

theorem spb_lt (ctx : Context) : ctx.spb < 2 ^ 23 := by
  have size := ctx.blockSize_lt
  unfold Context.spb
  omega

theorem blockBytes_pos (ctx : Context) : 0 < ctx.blockBytes := by
  unfold Context.blockBytes vhdBytesPadded secsRoundUpNoZero
  split <;> omega

theorem entries_le (ctx : Context) : ctx.spb * 8 ≤ ctx.blockBytes := by
  have small := spb_lt ctx
  by_cases none : ctx.spb = 0
  · rw [none]
    exact Nat.zero_le _
  · unfold Context.blockBytes
    rw [padded_eq (by omega) (by omega)]
    omega

theorem admitted_pow (ctx : Context) : ∃ k < 32, ctx.vhdBlockSize = 2 ^ k := by
  have single := ctx.admitted
  unfold vhdiCheckBlockSize at single
  obtain ⟨k, bits⟩ := List.length_eq_one_iff.mp (beq_iff_eq.mp single)
  have bit : ∀ i < 32, ctx.vhdBlockSize.testBit i = decide (k = i) := by
    intro i small
    have member : i ∈ (List.range 32).filter (fun i => ctx.vhdBlockSize / 2 ^ i % 2 == 1) ↔ i = k := by
      rw [bits, List.mem_singleton]
    rw [List.mem_filter, List.mem_range, beq_iff_eq] at member
    rw [Nat.testBit_eq_decide_div_mod_eq]
    exact decide_eq_decide.mpr ⟨fun set => (member.mp ⟨small, set⟩).symm, fun same => (member.mpr same.symm).2⟩
  have small : k < 32 := by
    have member : k ∈ (List.range 32).filter (fun i => ctx.vhdBlockSize / 2 ^ i % 2 == 1) := by
      rw [bits]
      exact List.mem_singleton_self k
    exact List.mem_range.mp (List.mem_filter.mp member).1
  refine ⟨k, small, Nat.eq_of_testBit_eq fun i => ?_⟩
  rw [Nat.testBit_two_pow]
  by_cases low : i < 32
  · exact bit i low
  · rw [Nat.testBit_lt_two_pow (lt_of_lt_of_le ctx.blockSize_lt (Nat.pow_le_pow_right (by decide) (by omega)))]
    exact (decide_eq_false (by omega)).symm

theorem padded_pow : ∀ k < 32, vhdBytesPadded (2 ^ k / 512 * 8) = 2 ^ k / 512 * 8 ↔ 2 ^ 15 ≤ 2 ^ k := by
  decide

theorem blockBytes_eq (ctx : Context) : ctx.blockBytes = ctx.spb * 8 ↔ 2 ^ 15 ≤ ctx.vhdBlockSize := by
  obtain ⟨k, small, size⟩ := admitted_pow ctx
  unfold Context.blockBytes Context.spb
  rw [size]
  exact padded_pow k small

end Sizes

section Reads
variable {ctx ctx' : Context} {sector : Nat} {table : List Entry} {bytes : Nat → UInt8}

theorem entryIn_entryOut {entry : Entry} {i : Nat} (same : ∀ j < 8, bytes (8 * i + j) = entryOut entry j) :
    entryIn bytes i = entry := by
  have fileId : be32 bytes (8 * i) = entry.fileId.toNat :=
    be32_record [] _ entry.fileId.toNat_lt fun j small => by
      rw [same j (by omega), place, List.map_nil, List.sum_nil, Nat.zero_add]
      rfl
  have offset : be32 bytes (8 * i + 4) = entry.offset.toNat :=
    be32_record [word entry.fileId.toNat] [] entry.offset.toNat_lt fun j small => by
      rw [Nat.add_assoc]
      exact same (4 + j) (by omega)
  unfold entryIn
  rw [fileId, offset, UInt32.ofNat_toNat, UInt32.ofNat_toNat]

theorem entryIn_tableOut {i : Nat} (inside : i < table.length)
    (same : ∀ p < table.length * 8, bytes p = tableOut table p) : entryIn bytes i = table[i] := by
  apply entryIn_entryOut
  intro j small
  rw [same _ (by omega)]
  unfold tableOut
  rw [show (8 * i + j) / 8 = i by omega, show (8 * i + j) % 8 = j by omega, List.getElem?_eq_getElem inside]

theorem Context.Shows.read (shows : ctx.Shows sector table) : vhdiReadBlock ctx sector = .ok table := by
  have reads : ctx.file.read (sector * 512) ctx.blockBytes = .ok fun i => ctx.file.byte (sector * 512 + i) :=
    if_pos (.inr shows.inFile)
  have entries := entries_le ctx
  have length := shows.length
  unfold vhdiReadBlock
  rw [show vhdBytesPadded (ctx.spb * 8) = ctx.blockBytes from rfl, reads, Outcome.ok_bind]
  congr 1
  apply List.ext_getElem
  · rw [List.length_map, List.length_range, length]
  · intro i first second
    rw [List.getElem_map, List.getElem_range]
    exact entryIn_tableOut second fun p small => shows.byte p (by omega)

theorem Context.Shows.keep (shows : ctx.Shows sector table) (keeps : ctx.file.Keeps (ctx.inBlock sector) ctx'.file)
    (size : ctx'.vhdBlockSize = ctx.vhdBlockSize) : ctx'.Shows sector table := by
  have positive := blockBytes_pos ctx
  have spb : ctx'.spb = ctx.spb := by
    unfold Context.spb
    rw [size]
  have blockBytes : ctx'.blockBytes = ctx.blockBytes := by
    unfold Context.blockBytes
    rw [spb]
  refine ⟨shows.length.trans spb.symm, ?_, fun p inside => ?_⟩
  · have last := (keeps (sector * 512 + ctx.blockBytes - 1) ⟨by omega, by omega⟩).1
    omega
  · rw [(keeps (sector * 512 + p) ⟨by omega, by omega⟩).2]
    exact shows.byte p (by omega)

end Reads

section Calls
variable {io : Io} {ctx ctx' : Context} {block : Block} {off size : Nat} {bytes : Nat → UInt8}

theorem le_padded (small : size ≤ (2 ^ 32 - 1) * 512) : size ≤ vhdBytesPadded size := by
  by_cases none : size = 0
  · rw [none]
    exact Nat.zero_le _
  · have padded := padded_eq (Nat.pos_of_ne_zero none) small
    omega

theorem vhdiSeek_cases (io : Io) (off : Nat) (ctx : Context) :
    vhdiSeek io off ctx = (.ok (), ctx) ∨ ∃ code, vhdiSeek io off ctx = (.error code, ctx) := by
  unfold vhdiSeek
  split
  · exact .inr ⟨_, rfl⟩
  · exact .inl rfl

theorem vhdiSeek_sector (io : Io) (sector : Nat) (ctx : Context) : vhdiSeek io (sector * 512) ctx = (.ok (), ctx) := by
  have apart : ¬ (sector * 512 % 2 ^ 32 = 2 ^ 32 - 1 ∧ io.errno ≠ 0) := by omega
  unfold vhdiSeek
  exact congrFun (if_neg apart) ctx

theorem allocate_ok (memory : io.memory = true) : allocate io ctx = (.ok (), ctx) := by
  unfold allocate
  rw [if_pos memory]
  rfl

theorem allocate_error (memory : ¬ io.memory = true) : allocate io ctx = (.error (-enomem), ctx) := by
  unfold allocate
  rw [if_neg memory]
  rfl

theorem vhdiWrite_ok (free : io.stop = none) (small : size ≤ maxTransfer) :
    vhdiWrite io off size bytes ctx = (.ok (), { ctx with file := ctx.file.put off size bytes }) := by
  unfold vhdiWrite
  rw [free]
  exact if_neg (not_lt.mpr small)

theorem vhdiWrite_error (off : Nat) (bytes : Nat → UInt8) (ctx : Context)
    (stuck : ¬ (io.stop = none ∧ size ≤ maxTransfer)) :
    ∃ code n, n ≤ size ∧ (io.stop.any (·.bytes == 0) = true → n = 0) ∧
      vhdiWrite io off size bytes ctx = (.error code, { ctx with file := ctx.file.put off n bytes }) := by
  unfold vhdiWrite
  cases fault : io.stop with
  | some stop =>
      refine ⟨stop.code, _, ?_, fun atOnce => ?_, rfl⟩
      · exact le_trans (min_le_left ..) (Nat.sub_le ..)
      · have none := beq_iff_eq.mp atOnce
        rw [none, Nat.min_zero]
  | none =>
      have large : maxTransfer < size := not_le.mp fun small => stuck ⟨fault, small⟩
      exact ⟨-eio, maxTransfer, large.le, nofun, if_pos large⟩

theorem vhdiWrite_cases (io : Io) (off size : Nat) (bytes : Nat → UInt8) (ctx : Context) :
    (io.stop = none ∧ size ≤ maxTransfer ∧
        vhdiWrite io off size bytes ctx = (.ok (), { ctx with file := ctx.file.put off size bytes })) ∨
      ∃ code n, n ≤ size ∧ (io.stop.any (·.bytes == 0) = true → n = 0) ∧
        vhdiWrite io off size bytes ctx = (.error code, { ctx with file := ctx.file.put off n bytes }) := by
  by_cases works : io.stop = none ∧ size ≤ maxTransfer
  · exact .inl ⟨works.1, works.2, vhdiWrite_ok works.1 works.2⟩
  · exact .inr (vhdiWrite_error off bytes ctx works)

def Context.appended (ctx : Context) (block : Block) : Context :=
  { ctx with file := ctx.file.put (vhdBytesPadded ctx.file.size) (block.table.length * 8) (tableOut block.table) }

theorem append_ok (works : io.works) (seek : vhdiSeek io ctx.file.size ctx = (.ok (), ctx))
    (small : block.table.length * 8 ≤ maxTransfer) :
    vhdiAppendBlock io block ctx = (.ok (vhdBytesPadded ctx.file.size / 512 % 2 ^ 32), ctx.appended block) := by
  unfold vhdiAppendBlock
  rw [Action.get_bind, Action.ok_bind seek]
  have seekOff : vhdiSeek io (vhdBytesPadded ctx.file.size) ctx = (.ok (), ctx) := vhdiSeek_sector ..
  dsimp only
  rw [Action.ok_bind seekOff, Action.ok_bind (allocate_ok works.1),
    Action.ok_bind (Action.attempt_ok (vhdiWrite_ok works.2 small))]
  rfl

theorem append_cases (io : Io) (block : Block) (bound : ctx.file.size ≤ (2 ^ 32 - 1) * 512) :
    (io.works ∧ vhdiAppendBlock io block ctx =
        (.ok (vhdBytesPadded ctx.file.size / 512 % 2 ^ 32), ctx.appended block)) ∨
      ∃ code file, ctx.file.Keeps (· < ctx.file.size) file ∧
        vhdiAppendBlock io block ctx = (.error code, { ctx with file }) := by
  have same : ctx.file.Keeps (· < ctx.file.size) ctx.file := File.Keeps.refl fun _ inside => inside
  have behind := le_padded bound
  rcases vhdiSeek_cases io ctx.file.size ctx with seekEnd | ⟨code, seekEnd⟩
  case inr =>
    unfold vhdiAppendBlock
    rw [Action.get_bind]
    exact .inr ⟨code, ctx.file, same, Action.bind_error seekEnd⟩
  by_cases works : io.works ∧ block.table.length * 8 ≤ maxTransfer
  · exact .inl ⟨works.1, append_ok works.1 seekEnd works.2⟩
  have seekOff : vhdiSeek io (vhdBytesPadded ctx.file.size) ctx = (.ok (), ctx) := vhdiSeek_sector ..
  unfold vhdiAppendBlock
  rw [Action.get_bind, Action.ok_bind seekEnd]
  dsimp only
  rw [Action.ok_bind seekOff]
  by_cases memory : io.memory = true
  case neg => exact .inr ⟨_, ctx.file, same, Action.bind_error (allocate_error memory)⟩
  have stuck : ¬ (io.stop = none ∧ block.table.length * 8 ≤ maxTransfer) := fun free =>
    works ⟨⟨memory, free.1⟩, free.2⟩
  obtain ⟨code, n, _, _, failed⟩ :=
    vhdiWrite_error (vhdBytesPadded ctx.file.size) (tableOut block.table) ctx stuck
  have kept : ctx.file.Keeps (· < ctx.file.size)
      (ctx.file.put (vhdBytesPadded ctx.file.size) n (tableOut block.table)) :=
    File.keeps_put (fun _ inside => inside) fun p inside => .inl (lt_of_lt_of_le inside behind)
  rw [Action.ok_bind (allocate_ok memory), Action.ok_bind (Action.attempt_error failed)]
  dsimp only
  by_cases cut : io.truncates = true
  · rw [if_pos cut]
    refine .inr ⟨code, _, kept.trans ?_, rfl⟩
    intro p inside
    have before : p < vhdBytesPadded ctx.file.size := lt_of_lt_of_le inside behind
    exact ⟨before, if_pos ⟨before, (kept p inside).1⟩⟩
  · rw [if_neg cut]
    exact .inr ⟨code, _, kept, rfl⟩

def Spares (io : Io) (ctx : Context) (sector : Nat) (file : File) : Prop :=
  ∀ part : Nat → Prop, (∀ p, part p → p < ctx.file.size) →
    (io.untouched = true ∨ ∀ p, part p → ¬ ctx.inBlock sector p) → ctx.file.Keeps part file

theorem write_cases (io : Io) {sector : UInt32} (fits : block.table.length * 8 ≤ ctx.blockBytes) :
    (io.works ∧ vhdiWriteBlock io block sector ctx =
        (.ok (), { ctx with file := ctx.file.put (sector.toNat * 512) ctx.blockBytes (tableOut block.table) })) ∨
      ∃ code file, Spares io ctx sector.toNat file ∧
        vhdiWriteBlock io block sector ctx = (.error code, { ctx with file }) := by
  unfold vhdiWriteBlock
  rw [Action.ok_bind (vhdiSeek_sector ..), Action.get_bind]
  have room : ¬ vhdBytesPadded (ctx.spb * 8) < block.table.length * 8 := not_lt.mpr fits
  by_cases memory : io.memory = true
  case neg =>
    have same : Spares io ctx sector.toNat ctx.file := fun part inside _ => File.Keeps.refl inside
    exact .inr ⟨-enomem, ctx.file, same, Action.bind_error (allocate_error memory)⟩
  rw [Action.ok_bind (allocate_ok memory), if_neg room]
  rcases vhdiWrite_cases io (sector.toNat * 512) ctx.blockBytes (tableOut block.table) ctx with
    ⟨free, _, written⟩ | ⟨code, n, part, atOnce, failed⟩
  · exact .inl ⟨⟨memory, free⟩, written⟩
  · refine .inr ⟨code, _, fun region inside spared => ?_, failed⟩
    refine File.keeps_put inside fun p member => ?_
    rcases spared with untouched | apart
    · have none := atOnce (by rw [Io.untouched, memory] at untouched; exact untouched)
      omega
    · have outside := apart p member
      unfold Context.inBlock at outside
      omega

end Calls

section Steps
variable {s t : Index}

theorem Index.Sound.round (sound : s.Sound) {sector : Nat} {table : List Entry}
    (written : s.written sector = some table) : vhdiReadBlock s.ctx sector = .ok table :=
  (sound sector table written).read

theorem append_sound {io : Io} {block : Block} (sound : s.Sound) (meets : (Op.append io block).Meets s)
    (action : step s (.append io block) = some t) :
    t.Sound ∧ ∀ sector table, s.written sector = some table → t.written sector = some table := by
  obtain ⟨block_, bound⟩ := meets
  have behind := le_padded bound
  have low : vhdBytesPadded s.ctx.file.size / 512 < 2 ^ 32 := by
    unfold vhdBytesPadded secsRoundUpNoZero secsRoundUp
    split <;> omega
  have whole : vhdBytesPadded s.ctx.file.size / 512 * 512 = vhdBytesPadded s.ctx.file.size := by
    unfold vhdBytesPadded
    omega
  have inside : ∀ sector table, s.written sector = some table → ∀ p, s.ctx.inBlock sector p → p < s.ctx.file.size :=
    fun sector table written p member => lt_of_lt_of_le member.2 (sound sector table written).inFile
  unfold step at action
  dsimp only at action
  rcases append_cases io block bound with ⟨works, result⟩ | ⟨code, file, keeps, result⟩
  · rw [result, Nat.mod_eq_of_lt low] at action
    cases action
    obtain ⟨length, large⟩ := block_ works
    have fills : s.ctx.blockBytes = block.table.length * 8 := by
      rw [length]
      exact (blockBytes_eq s.ctx).mpr large
    have positive := blockBytes_pos s.ctx
    have fresh : ∀ sector table, s.written sector = some table → sector ≠ vhdBytesPadded s.ctx.file.size / 512 := by
      intro sector table written same
      have first := inside sector table written (sector * 512) ⟨le_rfl, by omega⟩
      omega
    constructor
    · intro sector table written
      change Function.update s.written _ (some block.table) sector = some table at written
      by_cases new : sector = vhdBytesPadded s.ctx.file.size / 512
      · rw [new, Function.update_self] at written
        cases written
        rw [new]
        refine ⟨length, ?_, fun p small => ?_⟩
        · rw [whole]
          change vhdBytesPadded s.ctx.file.size + s.ctx.blockBytes ≤ _
          rw [fills]
          exact File.put_reach (by omega)
        · change p < s.ctx.blockBytes at small
          rw [whole]
          exact (File.put_inside (by omega) (by omega)).trans (by rw [Nat.add_sub_cancel_left])
      · rw [Function.update_of_ne new] at written
        refine (sound sector table written).keep (File.keeps_put (inside sector table written) ?_) rfl
        exact fun p member => .inl (lt_of_lt_of_le (inside sector table written p member) behind)
    · intro sector table written
      exact (Function.update_of_ne (fresh sector table written) ..).trans written
  · rw [result] at action
    cases action
    refine ⟨fun sector table written => ?_, fun _ _ written => written⟩
    exact (sound sector table written).keep (keeps.mono (inside sector table written)) rfl

theorem write_sound {io : Io} {block : Block} {sector : UInt32} (sound : s.Sound)
    (meets : (Op.write io block sector).Meets s) (action : step s (.write io block sector) = some t) : t.Sound := by
  obtain ⟨length, fits, apart⟩ := meets
  have inside : ∀ other table, s.written other = some table → ∀ p, s.ctx.inBlock other p → p < s.ctx.file.size :=
    fun other table written p member => lt_of_lt_of_le member.2 (sound other table written).inFile
  have others : ∀ other table, other ≠ sector.toNat → s.written other = some table →
      ∀ p, s.ctx.inBlock other p → ¬ s.ctx.inBlock sector.toNat p :=
    fun other table differs written => apart other differs (by rw [written]; rfl)
  unfold step at action
  dsimp only at action
  rcases write_cases io fits with ⟨works, result⟩ | ⟨code, file, spares, result⟩
  · rw [result] at action
    cases action
    intro other table written
    change Function.update s.written _ (some block.table) other = some table at written
    by_cases same : other = sector.toNat
    · rw [same, Function.update_self] at written
      cases written
      rw [same]
      refine ⟨length works, File.put_reach (blockBytes_pos s.ctx), fun p small => ?_⟩
      change p < s.ctx.blockBytes at small
      exact (File.put_inside (by omega) (by omega)).trans (by rw [Nat.add_sub_cancel_left])
    · rw [Function.update_of_ne same] at written
      refine (sound other table written).keep (File.keeps_put (inside other table written) fun p member => ?_) rfl
      have outside := others other table same written p member
      unfold Context.inBlock at outside
      omega
  · rw [result] at action
    cases action
    intro other table written
    by_cases untouched : io.untouched = true
    · rw [if_pos untouched] at written
      exact (sound other table written).keep (spares _ (inside other table written) (.inl untouched)) rfl
    · rw [if_neg untouched] at written
      change Function.update s.written _ none other = some table at written
      by_cases same : other = sector.toNat
      · rw [same, Function.update_self] at written
        cases written
      · rw [Function.update_of_ne same] at written
        refine (sound other table written).keep (spares _ (inside other table written) (.inr ?_)) rfl
        exact others other table same written

end Steps

/-- While the calls meet the condition, every block is read as it was last written, and an append changes
none of them. -/
theorem blocks_round_trip {s t : Index} (start : ∀ sector, s.written sector = none)
    (run : Run step (fun s op => op.Meets s) s t) : RoundTrips t := by
  have sound : t.Sound := by
    refine run.invariant (fun s op t sound meets action => ?_) fun sector table written => ?_
    · cases op with
      | append io block => exact (append_sound sound meets action).1
      | write io block sector => exact write_sound sound meets action
    · rw [start sector] at written
      cases written
  refine ⟨fun sector table written => sound.round written, fun io block t' meets action sector table written => ?_⟩
  obtain ⟨sound', kept⟩ := append_sound sound meets action
  exact ⟨kept sector table written, sound'.round (kept sector table written)⟩

theorem append_unread {io : Io} {block : Block} {ctx ctx' : Context} {sector : Nat}
    (small : ctx.vhdBlockSize < 2 ^ 15) (length : block.table.length = ctx.spb)
    (bound : ctx.file.size ≤ (2 ^ 32 - 1) * 512) (appends : vhdiAppendBlock io block ctx = (.ok sector, ctx')) :
    ∃ code, vhdiReadBlock ctx' sector = .error code := by
  have behind := le_padded bound
  have open_ : ctx.blockBytes ≠ block.table.length * 8 := by
    rw [length]
    exact fun fills => absurd ((blockBytes_eq ctx).mp fills) (by omega)
  have entries := entries_le ctx
  rcases append_cases io block bound with ⟨_, result⟩ | ⟨code, file, _, result⟩
  case inr =>
    rw [result] at appends
    cases appends
  rw [result] at appends
  cases appends
  have place : vhdBytesPadded ctx.file.size / 512 % 2 ^ 32 * 512 = vhdBytesPadded ctx.file.size := by
    unfold vhdBytesPadded secsRoundUpNoZero secsRoundUp
    split <;> omega
  have size : (ctx.appended block).file.size < vhdBytesPadded ctx.file.size + ctx.blockBytes := by
    have positive := blockBytes_pos ctx
    unfold Context.appended File.put
    dsimp only
    split <;> omega
  have fails : ¬ (ctx.blockBytes = 0 ∨
      vhdBytesPadded ctx.file.size + ctx.blockBytes ≤ (ctx.appended block).file.size) := by
    have positive := blockBytes_pos ctx
    omega
  obtain ⟨code, failed⟩ : ∃ code, (ctx.appended block).file.read (vhdBytesPadded ctx.file.size) ctx.blockBytes =
      .error code := by
    unfold File.read
    rw [if_neg fails]
    split
    · exact ⟨_, rfl⟩
    · exact ⟨_, rfl⟩
  refine ⟨code, ?_⟩
  unfold vhdiReadBlock
  rw [place, show vhdBytesPadded ((ctx.appended block).spb * 8) = ctx.blockBytes from rfl, failed]
  rfl

theorem admits_pow : ∀ k < 32, vhdiCheckBlockSize (2 ^ k) = true := by
  decide

def created (k : Nat) (small : k < 32) : Context where
  file := ⟨512, fun _ => 0⟩
  vhdBlockSize := 2 ^ k
  blockSize_lt := Nat.pow_lt_pow_right (by decide) small
  admitted := admits_pow k small

def working : Io := { errno := 0, memory := true, stop := none, truncates := true }

def unusedBlock (n : Nat) (small : n < 2 ^ 31) : Block where
  table := List.replicate n ⟨0, 0xFFFFFFFF⟩
  entries_lt := by rwa [List.length_replicate]

def grown (k : Nat) (small : k < 32) (block : Block) : Index :=
  ⟨(created k small).appended block, Function.update (fun _ => none) 1 (some block.table)⟩

theorem grown_written {k : Nat} (small : k < 32) (block : Block) :
    (grown k small block).written 1 = some block.table := by
  unfold grown
  dsimp only
  rw [Function.update_self]

theorem created_append {k : Nat} (small : k < 32) {block : Block} (fits : block.table.length * 8 ≤ maxTransfer) :
    vhdiAppendBlock working block (created k small) = (.ok 1, (created k small).appended block) := by
  have place : vhdBytesPadded (created k small).file.size / 512 % 2 ^ 32 = 1 := by
    change vhdBytesPadded 512 / 512 % 2 ^ 32 = 1
    decide
  have appends : vhdiAppendBlock working block (created k small) =
      (.ok (vhdBytesPadded (created k small).file.size / 512 % 2 ^ 32), (created k small).appended block) :=
    append_ok ⟨rfl, rfl⟩ (vhdiSeek_sector working 1 _) fits
  rwa [place] at appends

theorem grown_step {k : Nat} (small : k < 32) {block : Block} (fits : block.table.length * 8 ≤ maxTransfer) :
    step ⟨created k small, fun _ => none⟩ (.append working block) = some (grown k small block) := by
  unfold step
  dsimp only
  rw [created_append small fits]
  rfl

theorem small_unread : ¬ RoundTrips (grown 12 (by decide) (unusedBlock 8 (by decide))) := by
  intro trips
  have appends : vhdiAppendBlock working (unusedBlock 8 (by decide)) (created 12 (by decide)) =
      (.ok 1, (created 12 (by decide)).appended (unusedBlock 8 (by decide))) := created_append _ (by decide)
  obtain ⟨code, failed⟩ := append_unread (by decide) rfl (by decide) appends
  have reads := trips.reads 1 _ (grown_written ..)
  cases failed.symm.trans reads

theorem large_read : RoundTrips (grown 21 (by decide) (unusedBlock 4096 (by decide))) := by
  have length : (unusedBlock 4096 (by decide)).table.length = 4096 := List.length_replicate
  have meets : (Op.append working (unusedBlock 4096 (by decide))).Meets ⟨created 21 (by decide), fun _ => none⟩ :=
    ⟨fun _ => ⟨length, by decide⟩, by decide⟩
  exact blocks_round_trip (fun _ => rfl) (.single meets (grown_step _ (by rw [length]; decide)))

end Blktap.Libvhdindex
