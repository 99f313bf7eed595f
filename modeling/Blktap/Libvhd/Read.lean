import Blktap.Libvhd.Chain

/-!
# Sector reads through a chain (`vhd_io_read`)

The loop of `__vhd_io_dynamic_read_link` steps over an unallocated block by a whole block, also when
the range starts inside the block. It then meets the next blocks at the same offset, and the sectors
in front of that offset in the first allocated block are passed differ.
-/

namespace Blktap.Libvhd
open Lib

structure Dest where
  map : Nat → Bool
  buf : Nat → UInt8

def copyData (test : Nat → Bool) (mapOff : Nat) (src : Nat → UInt8) : Nat → Dest → Dest
  | 0, dest => dest
  | i + 1, dest =>
      let dest := copyData test mapOff src i dest
      if dest.map (mapOff + i) then dest
      else if !test i then dest
      else
        { map := fun nr => if nr = mapOff + i then true else dest.map nr
          buf := fun p =>
            if p / 512 = mapOff + i then src (p - mapOff * 512) else dest.buf p }

def readLinkTurn (vhd : Vhd) (bat : Bat) (sector secs mapOff : Nat) (dest : Dest) :
    Outcome (Nat × Dest) :=
  if vhd.spb = 0 then .undefined
  else
    let sec := sector % vhd.spb
    if bat.len ≤ vhd.slot sector then .undefined
    else if bat.bat (vhd.slot sector) = ddBlkUnused then .ok (min secs vhd.spb, dest)
    else do
      let bitmap ← vhdReadBitmap vhd bat (vhd.slot sector)
      let data ← vhdReadBlock vhd bat (vhd.slot sector)
      let cnt := min secs (vhd.spb - sec)
      .ok (cnt, copyData (fun i => vhdBitmapTest vhd bitmap (sec + i)) mapOff
        (fun p => data (sec * 512 + p)) cnt dest)

def readLink (vhd : Vhd) (bat : Bat) : Nat → Nat → Nat → Nat → Dest → Outcome Dest
  | 0, _, _, _, _ => .undefined
  | fuel + 1, sector, secs, mapOff, dest => do
      let (cnt, dest) ← readLinkTurn vhd bat sector secs mapOff dest
      if secs - cnt = 0 then .ok dest
      else readLink vhd bat fuel (sector + cnt) (secs - cnt) (mapOff + cnt) dest

def maxTransfer : Nat := 0x7ffff000

def rawReadLink (raw : File) (sec secs : Nat) (dest : Dest) : Outcome Dest :=
  if sec * 512 + secs * 512 ≤ raw.size ∧ secs * 512 ≤ maxTransfer then
    .ok (copyData (fun _ => true) 0 (fun p => raw.byte (sec * 512 + p)) secs dest)
  else .error (-eio)

def Dest.done (dest : Dest) (secs : Nat) : Bool := (List.range secs).all dest.map

def readLayer (vhd : Vhd) (sec secs : Nat) (dest : Dest) : Outcome Dest := do
  let bat ← vhdReadBat vhd
  readLink vhd bat (secs + 1) sec secs 0 dest

def dynamicRead (sec secs : Nat) : Chain → Dest → Outcome Dest
  | .base vhd, dest => readLayer vhd sec secs dest
  | .differRaw vhd raw, dest => do
      let dest ← readLayer vhd sec secs dest
      if dest.done secs then .ok dest else rawReadLink raw sec secs dest
  | .differ vhd parent, dest => do
      let dest ← readLayer vhd sec secs dest
      if dest.done secs then .ok dest else dynamicRead sec secs parent dest

/-- `calloc(1, secs << (VHD_SECTOR_SHIFT - 3))`, computed in 32 bits, has a bit for each sector, and
the bits are numbered by an `int`. -/
def mapFits (secs : Nat) : Bool :=
  decide ((secs + 7) / 8 ≤ secs * 64 % 2 ^ 32 ∧ secs ≤ 2 ^ 31)

def vhdIoRead (chain : Chain) (sec secs : Nat) : Outcome (Nat → UInt8) :=
  let vhd := chain.top
  if vhd.currSize < (sec + secs) * 512 then .error (-erange)
  else if !vhd.typeDynamic then vhd.file.read (sec * 512) (secs * 512)
  else do
    let _ ← vhdReadBat vhd
    if !mapFits secs then .undefined
    else do
      let dest ← dynamicRead sec secs chain ⟨fun _ => false, fun _ => 0⟩
      .ok dest.buf

theorem copyData_map (test : Nat → Bool) (mapOff : Nat) (src : Nat → UInt8) (secs : Nat)
    (dest : Dest) (nr : Nat) :
    (copyData test mapOff src secs dest).map nr =
      (dest.map nr || decide (mapOff ≤ nr ∧ nr < mapOff + secs) && test (nr - mapOff)) := by
  induction secs with
  | zero => simp [copyData]
  | succ i ih =>
      simp only [copyData]
      by_cases here : nr = mapOff + i
      · subst here
        have before : (copyData test mapOff src i dest).map (mapOff + i) =
            dest.map (mapOff + i) := by
          rw [ih, decide_eq_false (by omega), Bool.false_and, Bool.or_false]
        cases found : dest.map (mapOff + i) <;> cases marked : test i <;>
          simp [before, found, marked]
      · have range : (mapOff ≤ nr ∧ nr < mapOff + (i + 1)) ↔ (mapOff ≤ nr ∧ nr < mapOff + i) := by
          omega
        split
        · simp only [ih, range]
        · split
          · simp only [ih, range]
          · simp only [if_neg here, ih, range]

theorem copyData_buf (test : Nat → Bool) (mapOff : Nat) (src : Nat → UInt8) (secs : Nat)
    (dest : Dest) (p : Nat) :
    (copyData test mapOff src secs dest).buf p =
      if dest.map (p / 512) = false ∧ mapOff ≤ p / 512 ∧ p / 512 < mapOff + secs ∧
        test (p / 512 - mapOff) = true
      then src (p - mapOff * 512) else dest.buf p := by
  induction secs with
  | zero =>
      rw [if_neg (by omega)]
      rfl
  | succ i ih =>
      have before := copyData_map test mapOff src i dest (mapOff + i)
      rw [decide_eq_false (by omega), Bool.false_and, Bool.or_false] at before
      simp only [copyData, before]
      by_cases here : p / 512 = mapOff + i
      · rw [if_neg (by omega)] at ih
        cases found : dest.map (mapOff + i) <;> cases marked : test i <;>
          simp [here, found, marked, ih]
      · have range : p / 512 < mapOff + (i + 1) ↔ p / 512 < mapOff + i := by omega
        split
        · simp only [ih, range]
        · split
          · simp only [ih, range]
          · simp only [if_neg here, ih, range]

structure Filled (nr : Nat → Nat) (takes : Nat → Prop) (value : Nat → UInt8) (dest after : Dest) :
    Prop where
  map : ∀ i, after.map i = true ↔ dest.map i = true ∨ takes i
  new : ∀ p, dest.map (nr p) = false → takes (nr p) → after.buf p = value p
  old : ∀ p, dest.map (nr p) = true ∨ ¬ takes (nr p) → after.buf p = dest.buf p

section Filled
variable {nr : Nat → Nat} {takes takes' : Nat → Prop} {value : Nat → UInt8}
  {dest mid after : Dest}

theorem Filled.none (nr : Nat → Nat) (value : Nat → UInt8) (dest : Dest) :
    Filled nr (fun _ => False) value dest dest :=
  ⟨by simp, fun _ _ h => h.elim, fun _ _ => rfl⟩

theorem Filled.trans (first : Filled nr takes value dest mid)
    (second : Filled nr takes' value mid after) :
    Filled nr (fun i => takes i ∨ takes' i) value dest after := by
  constructor
  · intro i
    rw [second.map, first.map, or_assoc]
  · intro p missing taken
    by_cases early : takes (nr p)
    · rw [second.old p (.inl ((first.map _).mpr (.inr early))), first.new p missing early]
    · refine second.new p ?_ (taken.resolve_left early)
      rw [← Bool.not_eq_true, first.map]
      simp [missing, early]
  · intro p kept
    rcases kept with found | untaken
    · rw [second.old p (.inl ((first.map _).mpr (.inl found))), first.old p (.inl found)]
    · rw [not_or] at untaken
      rw [second.old p (.inr untaken.2), first.old p (.inr untaken.1)]

theorem Filled.congr (filled : Filled nr takes value dest after)
    (same : ∀ i, takes i ↔ takes' i) : Filled nr takes' value dest after := by
  rwa [← funext fun i => propext (same i)]

end Filled

theorem copyData_filled {test : Nat → Bool} {mapOff secs : Nat} {src value : Nat → UInt8}
    {dest : Dest} (agree : ∀ p, mapOff ≤ p / 512 → p / 512 < mapOff + secs →
      src (p - mapOff * 512) = value p) :
    Filled (· / 512) (fun nr => mapOff ≤ nr ∧ nr < mapOff + secs ∧ test (nr - mapOff) = true) value dest
      (copyData test mapOff src secs dest) := by
  constructor
  · intro nr
    rw [copyData_map]
    simp [and_assoc]
  · intro p missing taken
    rw [copyData_buf, if_pos ⟨missing, taken⟩, agree p taken.1 taken.2.1]
  · intro p kept
    rw [copyData_buf, if_neg]
    rintro ⟨missing, taken⟩
    rcases kept with found | untaken
    · simp [found] at missing
    · exact untaken taken

end Blktap.Libvhd
