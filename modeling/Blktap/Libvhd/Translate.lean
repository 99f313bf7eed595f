import Blktap.Libvhd.Read
import Blktap.Libvhd.Table

/-!
# From logical to physical sectors (`vhd_offset`, `vhd-util-read.c`)
-/

namespace Blktap.Libvhd
open Lib

def low32 (nr : Nat) : Nat := nr % 2 ^ 32

def Bat.word (bat : Bat) (i : Nat) : Outcome Nat := if bat.len ≤ i then .undefined else .ok (bat.bat i)

def vhdOffset (vhd : Vhd) (sector : Nat) : Outcome Nat :=
  if !vhd.typeDynamic then .error (low32 sector)
  else do
    let bat ← vhdReadBat vhd
    if vhd.spb = 0 then .undefined
    else
      let word ← bat.word (low32 sector / vhd.spb)
      if word = ddBlkUnused then .ok ddBlkUnused
      else .ok (low32 (word + vhd.bmSecs + low32 sector % vhd.spb))

def printedOffset (vhd : Vhd) (bat : Bat) (cur : Nat) : Outcome (Option Nat) :=
  if vhd.spb = 0 then .undefined
  else do
    let word ← bat.word (low32 (cur / vhd.spb))
    .ok (if word = ddBlkUnused then none else some ((word + (cur % vhd.spb + 1)) * 512))

def vhdPrintLogicalToPhysical (vhd : Vhd) (bat : Bat) (sector count : Nat) : Outcome (List (Option Nat)) :=
  if vhd.currSize < (sector + count) * 512 % 2 ^ 64 then .error (-erange)
  else (List.range count).mapM fun i => printedOffset vhd bat (sector + i)

/-- The sector of the file from which a turn of `__vhd_io_dynamic_read_link` copies, or `none` where it passes over an
unallocated block. -/
def linkSector (vhd : Vhd) (bat : Bat) (sector : Nat) : Outcome (Option Nat) :=
  if vhd.spb = 0 then .undefined
  else do
    let word ← bat.word (vhd.slot sector)
    if word = ddBlkUnused then .ok none
    else if bat.entries ≤ vhd.slot sector then .error (-erange)
    else .ok (some (word + vhd.bmSecs + sector % vhd.spb))

def checkBlockRange (vhd : Vhd) (block : Nat) : Outcome Unit :=
  if vhd.maxBatSize < block then .error (-erange) else .ok ()

def rangeEnd (block : Nat) (count : Int) : Nat := ((block + count) % 2 ^ 64).toNat

def blocksOf (block : Nat) (count : Int) : List Nat := (List.range count.toNat).map fun i => (block + i) % 2 ^ 64

def vhdPrintBat (vhd : Vhd) (bat : Bat) (block : Nat) (count : Int) : Outcome (List (Option Nat)) := do
  checkBlockRange vhd (rangeEnd block count)
  (blocksOf block count).mapM fun cur => do
    let word ← bat.word cur
    .ok (if word = ddBlkUnused then none else some (word * 512))

def vhdPrintBitmap (vhd : Vhd) (bat : Bat) (block : Nat) (count : Int) : Outcome (List (Option (Nat → UInt8))) := do
  checkBlockRange vhd (rangeEnd block count)
  (blocksOf block count).mapM fun cur => do
    let word ← bat.word cur
    if word = ddBlkUnused then .ok none
    else do
      let bitmap ← vhdReadBitmap vhd bat (low32 cur)
      .ok (some bitmap)

section Links
variable {vhd : Vhd} {bat : Bat} {sector secs mapOff cnt : Nat} {dest dest' : Dest}

theorem vhdReadBlock_byte {block : Nat} {data : Nat → UInt8} (read : vhdReadBlock vhd bat block = .ok data)
    {i : Nat} (inside : i < vhd.spb * 512) :
    data i = if (bat.bat block + vhd.bmSecs) * 512 + i < vhd.file.size - 512
      then vhd.file.byte ((bat.bat block + vhd.bmSecs) * 512 + i) else 0 := by
  unfold vhdReadBlock at read
  split at read
  · cases read
  split at read
  · cases read
  split at read
  · cases read
  dsimp only at read
  split at read
  · split at read
    · cases read
    rename_i _ cut
    obtain ⟨buf, got, same⟩ := Outcome.bind_eq_ok.mp read
    cases same
    cases File.read_eq got
    dsimp only
    by_cases stored : i < vhd.file.size - 512 - (bat.bat block + vhd.bmSecs) * 512
    · rw [if_pos stored, if_pos (by omega)]
    · rw [if_neg stored, if_neg (by omega)]
  · rename_i whole
    cases File.read_eq read
    have size : vhd.spb * 512 ≤ vhd.blockSize := Nat.div_mul_le_self _ _
    rw [if_pos (by omega)]

end Links

section Agreement
variable {vhd : Vhd} {bat : Bat} {sector : Nat}

def reported (offset : Nat) : Option Nat := if offset = ddBlkUnused then none else some offset

structure Agrees (vhd : Vhd) (bat : Bat) (sector : Nat) (answer : Option Nat) : Prop where
  offset : ∃ off, vhdOffset vhd sector = .ok off ∧ reported off = answer
  printed : vhdPrintLogicalToPhysical vhd bat sector 1 = .ok [answer.map (· * 512)]
  link : linkSector vhd bat sector = .ok answer
  loaded : vhd.slot sector < bat.entries
  loaded32 : low32 sector / vhd.spb < bat.entries

/-- The blocks of the sector and of its low 32 bits are loaded, and both come to the same sector or to none. -/
structure Translates (vhd : Vhd) (bat : Bat) (sector : Nat) : Prop where
  spb : vhd.spb ≠ 0
  loaded : vhd.slot sector < bat.entries
  loaded32 : low32 sector / vhd.spb < bat.entries
  unused : bat.bat (vhd.slot sector) = ddBlkUnused → bat.bat (low32 sector / vhd.spb) = ddBlkUnused ∨
    low32 (bat.bat (low32 sector / vhd.spb) + vhd.bmSecs + low32 sector % vhd.spb) = ddBlkUnused
  used : bat.bat (vhd.slot sector) ≠ ddBlkUnused → bat.bat (low32 sector / vhd.spb) ≠ ddBlkUnused ∧ vhd.bmSecs = 1 ∧
    low32 (bat.bat (low32 sector / vhd.spb) + 1 + low32 sector % vhd.spb) =
      bat.bat (vhd.slot sector) + 1 + sector % vhd.spb ∧
    bat.bat (vhd.slot sector) + 1 + sector % vhd.spb ≠ ddBlkUnused

theorem vhdReadBat_len (loaded : vhdReadBat vhd = .ok bat) : bat.entries ≤ bat.len := by
  unfold vhdReadBat at loaded
  split at loaded
  · cases loaded
  split at loaded
  · cases loaded
  obtain ⟨buf, _, same⟩ := Outcome.bind_eq_ok.mp loaded
  cases same
  exact table_len

theorem Bat.word_loaded {i : Nat} (inside : i < bat.len) : bat.word i = .ok (bat.bat i) :=
  if_neg (Nat.not_le_of_lt inside)

variable (dynamic : vhd.typeDynamic = true) (loaded : vhdReadBat vhd = .ok bat)
include dynamic loaded

theorem vhdOffset_loaded (spb : vhd.spb ≠ 0) (block : low32 sector / vhd.spb < bat.len) :
    vhdOffset vhd sector = .ok (if bat.bat (low32 sector / vhd.spb) = ddBlkUnused then ddBlkUnused
      else low32 (bat.bat (low32 sector / vhd.spb) + vhd.bmSecs + low32 sector % vhd.spb)) := by
  unfold vhdOffset
  rw [if_neg (by simp [dynamic]), loaded, Outcome.ok_bind, if_neg spb]
  simp only [Bat.word_loaded block, Outcome.ok_bind]
  split <;> rfl

omit dynamic loaded

theorem printed_loaded (inside : (sector + 1) * 512 ≤ vhd.currSize) (spb : vhd.spb ≠ 0)
    (block : vhd.slot sector < bat.len) :
    vhdPrintLogicalToPhysical vhd bat sector 1 = .ok [if bat.bat (vhd.slot sector) = ddBlkUnused then none
      else some ((bat.bat (vhd.slot sector) + (sector % vhd.spb + 1)) * 512)] := by
  have room : ¬ vhd.currSize < (sector + 1) * 512 % 2 ^ 64 :=
    Nat.not_lt_of_le ((Nat.mod_le _ _).trans inside)
  have word : bat.word (low32 (sector / vhd.spb)) = .ok (bat.bat (vhd.slot sector)) := Bat.word_loaded block
  unfold vhdPrintLogicalToPhysical
  rw [if_neg room]
  change (printedOffset vhd bat sector >>= fun first => Outcome.ok [first]) = _
  unfold printedOffset
  rw [if_neg spb, word]
  rfl

theorem link_loaded (spb : vhd.spb ≠ 0) (entries : bat.entries ≤ bat.len) (block : vhd.slot sector < bat.entries) :
    linkSector vhd bat sector = .ok (if bat.bat (vhd.slot sector) = ddBlkUnused then none
      else some (bat.bat (vhd.slot sector) + vhd.bmSecs + sector % vhd.spb)) := by
  unfold linkSector
  rw [if_neg spb, Bat.word_loaded (Nat.lt_of_lt_of_le block entries), Outcome.ok_bind,
    if_neg (Nat.not_le_of_lt block)]
  split <;> rfl

theorem reported_used {offset : Nat} (used : offset ≠ ddBlkUnused) : reported offset = some offset := if_neg used

theorem reported_some {offset pos : Nat} (same : reported offset = some pos) : offset = pos ∧ pos ≠ ddBlkUnused := by
  unfold reported at same
  split at same
  · cases same
  · rename_i used
    cases same
    exact ⟨rfl, used⟩

include dynamic loaded

theorem agrees_iff (inside : (sector + 1) * 512 ≤ vhd.currSize) :
    (∃ answer, Agrees vhd bat sector answer) ↔ Translates vhd bat sector := by
  have entries := vhdReadBat_len loaded
  constructor
  · rintro ⟨answer, agrees⟩
    obtain ⟨off, offset, same⟩ := agrees.offset
    have spb : vhd.spb ≠ 0 := by
      intro zero
      have link := agrees.link
      unfold linkSector at link
      rw [if_pos zero] at link
      cases link
    have link := (link_loaded spb entries agrees.loaded).symm.trans agrees.link
    have printed := (printed_loaded inside spb (Nat.lt_of_lt_of_le agrees.loaded entries)).symm.trans agrees.printed
    cases (vhdOffset_loaded dynamic loaded spb (Nat.lt_of_lt_of_le agrees.loaded32 entries)).symm.trans offset
    cases Outcome.ok.inj link
    refine ⟨spb, agrees.loaded, agrees.loaded32, fun unused => ?_, fun used => ?_⟩
    · rw [if_pos unused] at same
      refine or_iff_not_imp_left.mpr fun other => ?_
      rw [if_neg other] at same
      by_contra apart
      cases (reported_used apart).symm.trans same
    · rw [if_neg used] at same printed
      rw [if_neg used] at printed
      have one : vhd.bmSecs = 1 := by
        have equal := List.head_eq_of_cons_eq (Outcome.ok.inj printed)
        rw [Option.map_some] at equal
        have := Option.some.inj equal
        omega
      obtain ⟨position, other⟩ := reported_some same
      rw [one] at position other
      have allocated : bat.bat (low32 sector / vhd.spb) ≠ ddBlkUnused := by
        intro unused
        rw [if_pos unused] at position
        exact other position.symm
      rw [if_neg allocated] at position
      exact ⟨allocated, one, position, other⟩
  · intro translates
    have block := Nat.lt_of_lt_of_le translates.loaded entries
    have offset := vhdOffset_loaded dynamic loaded translates.spb (Nat.lt_of_lt_of_le translates.loaded32 entries)
    have printed := printed_loaded inside translates.spb block
    have link := link_loaded translates.spb entries translates.loaded
    refine ⟨_, ⟨_, offset, ?_⟩, ?_, link, translates.loaded, translates.loaded32⟩
    · by_cases unused : bat.bat (vhd.slot sector) = ddBlkUnused
      · rw [if_pos unused]
        split
        · exact if_pos rfl
        · rename_i other
          exact if_pos ((translates.unused unused).resolve_left other)
      · obtain ⟨allocated, one, position, apart⟩ := translates.used unused
        rw [if_neg unused, if_neg allocated, one, position]
        exact reported_used apart
    · rw [printed]
      by_cases unused : bat.bat (vhd.slot sector) = ddBlkUnused
      · rw [if_pos unused, if_pos unused]
        rfl
      · obtain ⟨_, one, _⟩ := translates.used unused
        rw [if_neg unused, if_neg unused, one, Option.map_some, Nat.add_assoc, Nat.add_comm 1]

omit dynamic loaded

def RangeLoaded (vhd : Vhd) (bat : Bat) (block : Nat) (count : Int) : Prop :=
  checkBlockRange vhd (rangeEnd block count) = .ok () → ∀ cur ∈ blocksOf block count, cur < bat.entries

theorem mem_blocksOf {block cur : Nat} {count : Int} :
    cur ∈ blocksOf block count ↔ ∃ i < count.toNat, (block + i) % 2 ^ 64 = cur := by
  unfold blocksOf
  rw [List.mem_map]
  simp only [List.mem_range]

theorem range_below {block n : Nat} (small : bat.entries < 2 ^ 64) (number : block < 2 ^ 64)
    (all : ∀ i < n, (block + i) % 2 ^ 64 < bat.entries) : ∀ i < n, block + i < bat.entries := by
  intro i less
  have here := all i less
  induction i with
  | zero => rwa [Nat.add_zero, Nat.mod_eq_of_lt number] at here
  | succ i ih =>
      have before := ih (Nat.lt_of_succ_lt less) (all i (Nat.lt_of_succ_lt less))
      rwa [Nat.mod_eq_of_lt (by omega)] at here

theorem rangeLoaded_iff (small : bat.entries < 2 ^ 64) {block : Nat} (count : Int) (number : block < 2 ^ 64) :
    RangeLoaded vhd bat block count ↔
      count ≤ 0 ∨ vhd.maxBatSize < rangeEnd block count ∨ block + count ≤ bat.entries := by
  unfold RangeLoaded checkBlockRange
  constructor
  · intro inside
    by_contra other
    obtain ⟨positive, other⟩ := not_or.mp other
    obtain ⟨accepted, long⟩ := not_or.mp other
    have all := inside (if_neg accepted)
    have below := range_below small number (n := count.toNat) fun i less => all _ (mem_blocksOf.mpr ⟨i, less, rfl⟩)
    have last := below (count.toNat - 1) (by omega)
    omega
  · rintro (none | refused | short) accepted cur member
    · obtain ⟨i, less, _⟩ := mem_blocksOf.mp member
      omega
    · rw [if_pos refused] at accepted
      cases accepted
    · obtain ⟨i, less, rfl⟩ := mem_blocksOf.mp member
      have cut := Nat.mod_le (block + i) (2 ^ 64)
      omega

include dynamic loaded

/-- The translations agree on a sector exactly when it translates, and a range of blocks is loaded exactly when it is
empty, refused, or ends with the entries that are loaded. -/
theorem translations_iff :
    (∀ sector, (sector + 1) * 512 ≤ vhd.currSize →
      ((∃ answer, Agrees vhd bat sector answer) ↔ Translates vhd bat sector)) ∧
    ∀ block < 2 ^ 64, ∀ count : Int, RangeLoaded vhd bat block count ↔
      count ≤ 0 ∨ vhd.maxBatSize < rangeEnd block count ∨ block + count ≤ bat.entries := by
  have small : bat.entries < 2 ^ 64 := by
    unfold vhdReadBat at loaded
    split at loaded
    · cases loaded
    split at loaded
    · cases loaded
    obtain ⟨buf, _, same⟩ := Outcome.bind_eq_ok.mp loaded
    cases same
    exact Nat.lt_of_lt_of_le (Nat.mod_lt _ (by decide)) (by decide)
  exact ⟨fun sector => agrees_iff dynamic loaded, fun block number count => rangeLoaded_iff small count number⟩

end Agreement

section Samples

def twoSectors : Vhd where
  file := ⟨2048, fun p => if p = 3 then 3 else 0⟩
  type := .dynamic
  currSize := 2 ^ 22
  tableOffset := 0
  maxBatSize := 2
  blockSize := 2 ^ 22
  oldBitmap := false

theorem twoSectors_loaded : vhdReadBat twoSectors = .ok twoSectors.table :=
  vhdReadBat_within (by decide) (by decide) rfl

theorem twoSectors_iff :
    (∀ sector, (sector + 1) * 512 ≤ twoSectors.currSize →
      ((∃ answer, Agrees twoSectors twoSectors.table sector answer) ↔ Translates twoSectors twoSectors.table sector)) ∧
    ∀ block < 2 ^ 64, ∀ count : Int, RangeLoaded twoSectors twoSectors.table block count ↔
      count ≤ 0 ∨ twoSectors.maxBatSize < rangeEnd block count ∨ block + count ≤ twoSectors.table.entries :=
  translations_iff rfl twoSectors_loaded

theorem twoSectors_apart : linkSector twoSectors twoSectors.table 0 = .ok (some 5) ∧
    vhdOffset twoSectors 0 = .ok 5 ∧
    vhdPrintLogicalToPhysical twoSectors twoSectors.table 0 1 = .ok [some (4 * 512)] := by
  refine ⟨?_, ?_, ?_⟩ <;> decide +kernel

end Samples

end Blktap.Libvhd
