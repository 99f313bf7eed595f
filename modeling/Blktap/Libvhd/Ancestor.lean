import Blktap.Libvhd.Coalesce
import Blktap.Libvhd.MapBounds

/-!
# Coalescing an image into an ancestor (`vhd-util-coalesce.c`)

The sectors of a child are written to an image further down its chain. Then the images between lose their bits for these
sectors, and so show what the child does.
-/

namespace Blktap.Libvhd.Coalesce
open Lib Action

def enoent : Int := 2

/-- The image or raw file at the end of the chain, and the images between it and the child from top to bottom -/
structure Tower (σ : Type) where
  base : σ
  images : List Handle

section Code
variable {σ : Type}

def onBase (m : Action σ Unit) : Action (Tower σ) Unit := fun s =>
  ((m s.base).1, { s with base := (m s.base).2 })

def onImages (m : Action (List Handle) Unit) : Action (Tower σ) Unit := fun s =>
  ((m s.images).1, { s with images := (m s.images).2 })

def loadBetween (child : Vhd) : Action Handle Unit := do
  loadTables
  let s ← get
  if s.type ≠ .diff then fail (-enoent)
  else if child.blockSize ≠ s.blockSize then fail (-einval)
  else pure ()

/-- The paths and the files that they lead to are given; `load` is what is done with the last one. -/
def vhdUtilCoalesceLoadChain (load : Action σ Unit) (child : Context) : Action (Tower σ) Unit := do
  let _ ← lift (vhdReadBat child.toVhd)
  let _ ← lift (loadBatmap child)
  if child.type ≠ .diff then fail (-enoent)
  else do
    onImages (each (fun _ => loadBetween child.toVhd) 0)
    onBase load

def oldClearBit (addr : Nat → UInt8) (nr : Nat) : Nat → UInt8 :=
  Function.update addr (nr / 8) (addr (nr / 8) &&& ~~~(1 <<< UInt8.ofNat (nr % 8)))

def vhdBitmapClear (vhd : Vhd) (map : Nat → UInt8) (nr : Nat) : Nat → UInt8 :=
  if vhd.oldBitmap then oldClearBit map nr else MapBounds.clearBit map nr

def clearMarks (child vhd : Vhd) (cmap amap : Nat → UInt8) (dirty : Bool) : Nat → Bool × (Nat → UInt8)
  | 0 => (dirty, amap)
  | n + 1 =>
      if vhdBitmapTest child cmap n && vhdBitmapTest vhd (clearMarks child vhd cmap amap dirty n).2 n then
        (true, vhdBitmapClear vhd (clearMarks child vhd cmap amap dirty n).2 n)
      else clearMarks child vhd cmap amap dirty n

def clearFull (block : Nat) : Action Handle Unit := do
  let full ← batmapTest block
  when (full = true) do
    MapBounds.changeMap fun batmap => MapBounds.Batmap.clear batmap block
    MapBounds.vhdWriteBatmap

/-- `dirty` has no value before the loop; it is given one here. -/
def vhdUtilCoalesceClearBitmap (child : Vhd) (cmap : Nat → UInt8) (dirty : Bool) (block : Nat) :
    Action Handle Unit := do
  let s ← get
  if child.spb ≠ s.spb then fail (-einval)
  else do
    let bat ← loadedBat
    if bat.entries ≤ block ∨ bat.bat block = ddBlkUnused then pure ()
    else do
      let amap ← lift (vhdReadBitmap s.toVhd bat block)
      when ((clearMarks child s.toVhd cmap amap dirty child.spb).1 = true) do
        vhdWriteBitmap block (clearMarks child s.toVhd cmap amap dirty child.spb).2
        clearFull block

def vhdUtilCoalesceClearBitmaps (child : Vhd) (bat : Bat) (dirty : Nat → Nat → Bool) (block : Nat) :
    Action (List Handle) Unit :=
  if bat.bat block = ddBlkUnused then pure ()
  else do
    let map ← lift (vhdReadBitmap child bat block)
    each (fun i => vhdUtilCoalesceClearBitmap child map (dirty i block) block) 0

def clearBlocks (child : Vhd) (bat : Bat) (dirty : Nat → Nat → Bool) : Nat → Nat → Action (List Handle) Unit
  | 0, _ => pure ()
  | left + 1, block => do
      vhdUtilCoalesceClearBitmaps child bat dirty block
      clearBlocks child bat dirty left (block + 1)

def vhdUtilCoalesceAncestor (parent : Parent σ) (load : Action σ Unit) (child : Context) (dirty : Nat → Nat → Bool) :
    Action (Tower σ) Unit := do
  vhdUtilCoalesceLoadChain load child
  let s ← get
  onBase (vhdUtilCoalesceOnto { parent with above := s.images.map fun image => image.toVhd } child)
  let bat ← lift (vhdReadBat child.toVhd)
  onImages (clearBlocks child.toVhd bat dirty bat.entries 0)

end Code

section Purpose
variable {σ : Type} (parent : Parent σ) (child : Context) (s t : Tower σ)

def Tower.beneath : Below := stack (s.images.map fun image => image.toVhd) (parent.below s.base)

def Tower.shows (nr o : Nat) : UInt8 := ((s.beneath parent).under child.toVhd).byte nr o

def Tower.Spared : Prop :=
  ∀ nr o, o < 512 → nr * 512 < child.currSize → t.shows parent child nr o = s.shows parent child nr o

/-- The images between, over the ancestor, show all that the child did, but for sectors of blocks behind the part of a
table that is loaded. -/
structure Tower.Coalesced : Prop where
  spared : s.Spared parent child t
  moved : ∀ nr o, o < 512 → nr * 512 < child.currSize →
    (child.holds nr → nr / child.spb < child.batEntries ∧
      ∀ image ∈ s.images, image.holds nr → nr / child.spb < image.batEntries) →
    (t.beneath parent).byte nr o = s.shows parent child nr o

structure Between (child : Vhd) (image : Handle) : Prop where
  sound : image.Sound
  footer : ∀ block, image.allocated block →
    (image.entry block + image.bmSecs + image.spb) * 512 + 512 ≤ image.file.size
  covers : ∀ block < image.batEntries, image.allocated block → image.Covers block
  slots : ∀ block < child.batEntries, child.allocated block → Slots image.toVhd (block * child.spb) child.spb

end Purpose

section Rules
variable {σ : Type} {s : Tower σ} {post : Unit → Tower σ → Prop} {stop : Int → Tower σ → Prop}

theorem wp_onBase {m : Action σ Unit} : wp (onBase m) post stop s ↔
    wp m (fun _ b => post () { s with base := b }) (fun code b => stop code { s with base := b }) s.base := by
  unfold wp onBase
  rcases m s.base with ⟨_ | _ | _, b⟩ <;> rfl

theorem wp_onImages {m : Action (List Handle) Unit} : wp (onImages m) post stop s ↔
    wp m (fun _ l => post () { s with images := l }) (fun code l => stop code { s with images := l }) s.images := by
  unfold wp onImages
  rcases m s.images with ⟨_ | _ | _, l⟩ <;> rfl

end Rules

section Marks
variable {child vhd : Vhd} {map cmap amap : Nat → UInt8} {dirty : Bool} {n m : Nat}

theorem testBit_andNot (byte mask : UInt8) {j : Nat} (small : j < 8) :
    (byte &&& ~~~mask).toNat.testBit j = (byte.toNat.testBit j && !mask.toNat.testBit j) := by
  rw [UInt8.toNat_and, Nat.testBit_and, UInt8.toNat_not, show 256 - 1 - mask.toNat = 2 ^ 8 - (mask.toNat + 1) by omega,
    Nat.testBit_two_pow_sub_succ mask.toNat_lt, decide_eq_true small, Bool.true_and]

theorem vhdBitmapTest_clear : vhdBitmapTest vhd (vhdBitmapClear vhd map n) m =
    (vhdBitmapTest vhd map m && !decide (n = m)) := by
  have low : ∀ k : Nat, k % 8 < 8 := fun k => Nat.mod_lt k (by omega)
  unfold vhdBitmapTest vhdBitmapClear testBit oldTestBit oldClearBit MapBounds.clearBit
  by_cases byte : m / 8 = n / 8
  · have same : decide (n % 8 = m % 8) = decide (n = m) := decide_eq_decide.mpr (by omega)
    split
    · rw [byte, Function.update_self, testBit_andNot _ _ (low m), testBit_shifted_old (low n) (low m), same]
    · rw [byte, Function.update_self, testBit_andNot _ _ (by omega), testBit_shifted (low n) (low m), same]
  · have other : decide (n = m) = false := decide_eq_false (by omega)
    split <;> rw [Function.update_of_ne byte, other, Bool.not_false, Bool.and_true]

theorem clearMarks_test : vhdBitmapTest vhd (clearMarks child vhd cmap amap dirty n).2 m =
    (vhdBitmapTest vhd amap m && !(decide (m < n) && vhdBitmapTest child cmap m)) := by
  induction n with
  | zero => simp [clearMarks]
  | succ n ih =>
      have last : m = n ∨ decide (m < n + 1) = decide (m < n) ∧ decide (n = m) = false := by
        by_cases same : m = n
        · exact .inl same
        · exact .inr ⟨decide_eq_decide.mpr (by omega), decide_eq_false (Ne.symm same)⟩
      unfold clearMarks
      split
      case isTrue both =>
        rw [vhdBitmapTest_clear, ih]
        rcases last with rfl | ⟨before, other⟩
        · rw [Bool.and_eq_true] at both
          simp [both.1]
        · rw [before, other, Bool.not_false, Bool.and_true]
      case isFalse apart =>
        rw [ih]
        rcases last with rfl | ⟨before, -⟩
        · rw [ih] at apart
          cases bit : vhdBitmapTest child cmap m with
          | false => simp
          | true => simpa [bit] using apart
        · rw [before]

theorem clearMarks_clean (clean : (clearMarks child vhd cmap amap dirty n).1 = false) :
    (clearMarks child vhd cmap amap dirty n).2 = amap := by
  induction n with
  | zero => rfl
  | succ n ih =>
      unfold clearMarks at clean ⊢
      split at clean
      · cases clean
      · rename_i apart
        rw [if_neg apart]
        exact ih clean

end Marks

def Trimmed (child : Vhd) (s t : Handle) : Prop :=
  ∀ nr o, o < 512 → nr * 512 < child.currSize →
    t.content nr o = s.content nr o ∨ Moves child nr ∧ t.content nr o = none

structure Mapped (t : Handle) (batmap : Batmap) : Prop where
  header : batmap.header = { t.batmapHeader with checksum := batmap.header.checksum }
  cookie : batmap.header.cookie = true
  mapBytes : batmap.mapBytes = t.batmapBytes

/-- An image that is loaded. Its map of full blocks may be wrong, for `vhd_write_batmap` does not tell of an error. -/
structure Loaded (t : Handle) : Prop where
  laid : t.toContext.Laid
  table : t.bat = some t.toVhd.table
  map : t.hasBatmap = true → ∃ batmap, t.batmap = some batmap ∧ Mapped t batmap
  covers : ∀ block < t.batEntries, t.allocated block → t.Covers block

structure Cut (child : Vhd) (bound : Nat) (s t : Handle) : Prop where
  fields : s.SameFields t
  loaded : Loaded t
  trimmed : Trimmed child s t
  gone : ∀ nr o, o < 512 → Moves child nr → nr / child.spb < bound → nr / child.spb < s.batEntries →
    t.content nr o = none

section Cut
variable {child : Vhd} {s t u : Handle} {batmap : Batmap} {block bound off n : Nat} {data : Nat → UInt8}
  {faults : List (Option Fault)}

theorem Trimmed.trans (first : Trimmed child s t) (second : Trimmed child t u) : Trimmed child s u := by
  intro nr o small inDisk
  rcases second nr o small inDisk with same | lost
  · rw [same]
    exact first nr o small inDisk
  · exact .inr lost

theorem Trimmed.of_same (same : ∀ nr o, o < 512 → t.content nr o = s.content nr o) : Trimmed child s t :=
  fun nr o small _ => .inl (same nr o small)

theorem Cut.next (cut : Cut child block s t) (fields : t.SameFields u) (loaded : Loaded u)
    (trimmed : Trimmed child t u)
    (gone : ∀ nr o, o < 512 → Moves child nr → nr / child.spb = block → block < t.batEntries → u.content nr o = none) :
    Cut child (block + 1) s u := by
  refine ⟨cut.fields.trans fields, loaded, cut.trimmed.trans trimmed, fun nr o small moves early inTable => ?_⟩
  by_cases here : nr / child.spb = block
  · refine gone nr o small moves here ?_
    have entries : t.batEntries = s.batEntries := by rw [cut.fields]; rfl
    rw [entries, ← here]
    exact inTable
  · have before := cut.gone nr o small moves (by omega) inTable
    rcases trimmed nr o small moves.1.1 with same | lost
    · rw [same, before]
    · exact lost.2

theorem Cut.stay (cut : Cut child block s t) (gone : ∀ nr o, o < 512 → Moves child nr → nr / child.spb = block →
    block < t.batEntries → t.content nr o = none) : Cut child (block + 1) s t :=
  cut.next rfl cut.loaded (.of_same fun _ _ _ => rfl) gone

theorem Loaded.stores (loaded : Loaded t) (stores : t.Stores block u)
    (inside : u.allocated block → block < t.maxBatSize)
    (map : ∀ batmap, t.batmap = some batmap → ∃ map, u.batmap = some { batmap with map }) : Loaded u := by
  have laid := loaded.laid
  refine ⟨stores.edit.laid laid fun allocated => stores.own laid (inside allocated) allocated, ?_, fun has => ?_,
    fun other entry allocated => ?_⟩
  · rw [stores.sameTable laid, ← loaded.table, stores.fields]
  · rw [stores.edit.hasBatmap laid] at has
    obtain ⟨batmap, memory, mapped⟩ := loaded.map has
    obtain ⟨bits, memory'⟩ := map batmap memory
    have bytes : u.batmapBytes = t.batmapBytes := by rw [stores.fields]; rfl
    refine ⟨_, memory', ?_, mapped.cookie, mapped.mapBytes.trans bytes.symm⟩
    rw [stores.edit.batmapHeader (Context.looks_of_has has)]
    exact mapped.header
  · have entries : u.batEntries = t.batEntries := by rw [stores.fields]; rfl
    exact (loaded.covers other (entries ▸ entry) ((stores.allocated_iff laid).mp allocated)).edit stores.edit laid

theorem stores_map (laid : t.toContext.Laid) (has : t.hasBatmap = true)
    (inside : ∀ p, off ≤ p → p < off + n → t.inBatmap p ∨ t.inBatmapHeader p ∧ (data (p - off) = t.file.byte p ∨
      t.batmapHeaderOffset + 24 ≤ p ∧ p ≠ t.batmapHeaderOffset + 28)) (block : Nat) :
    t.Stores block ({ t with faults }.put off n data) := by
  have apart : ∀ p, off ≤ p → p < off + n → ¬ t.inTableArea p ∧
      ∀ block, t.allocated block → ¬ t.inExtent block p := by
    intro p low high
    rcases inside p low high with inMap | ⟨inHeader, -⟩
    · refine ⟨((laid.map has).2.2 p inMap).2.1, fun block allocated extent => ?_⟩
      exact laid.extent block allocated p extent (.inr (.inr (.inr ⟨has, inMap⟩)))
    · refine ⟨fun table => ?_, fun block allocated extent => ?_⟩
      · have := inHeader.1
        have := table.2
        unfold Vhd.batmapHeaderOffset at *
        omega
      · exact laid.extent block allocated p extent (.inr (.inr (.inl ⟨Context.looks_of_has has, inHeader⟩)))
  refine ⟨rfl, laid.edit fun p low high => ?_, fun p table => Context.put_kept laid fun low high =>
    absurd table (apart p low high).1⟩
  have free := apart p low high
  rcases inside p low high with inMap | ⟨inHeader, same | sum⟩
  · refine .inr ⟨fun table => absurd table free.1, fun other _ => free.2 other, fun _ header => ?_⟩
    exact ((laid.map has).2.2 p inMap).2.2 ⟨header.1, by omega⟩
  · exact .inl same
  · exact .inr ⟨fun table => absurd table free.1, fun other _ => free.2 other, fun _ header => by omega⟩

theorem wp_writeMap (loaded : Loaded t) (has : t.hasBatmap = true) (memory : t.batmap = some batmap) :
    wp MapBounds.vhdWriteBatmap (fun _ u => u.batmap = some batmap ∧ ∀ block, t.Stores block u)
      (fun _ _ => False) t := by
  obtain ⟨other, memory', mapped⟩ := loaded.map has
  cases memory.symm.trans memory'
  have laid := loaded.laid
  have room := (laid.map has).2.1
  have offset : batmap.header.batmapOffset = t.batmapHeader.batmapOffset := by rw [mapped.header]
  have size : batmap.header.batmapSize = t.batmapHeader.batmapSize := by rw [mapped.header]
  have inside : MapBounds.outgrown t = false := by
    unfold MapBounds.outgrown
    rw [memory]
    simp [mapped.mapBytes]
  have first : ∀ faults n, n ≤ t.batmapBytes → ∀ block,
      t.Stores block ({ t with faults }.put batmap.header.batmapOffset n batmap.map) := fun faults n part =>
    stores_map laid has fun p low high => .inl ⟨offset ▸ low, by omega⟩
  unfold MapBounds.vhdWriteBatmap
  rw [wp_bind, wp_get, if_neg (by simp [inside]), memory]
  unfold vhdWriteBatmap writeBatmapSectors
  simp only [wp_bind, wp_pure, wp_attempt, wp_get]
  rw [if_neg (by simp [has]), if_neg (by rw [size]; exact Nat.not_lt.mpr room)]
  simp only [wp_bind]
  apply wp_vhdWrite
  · intro faults _
    have stores := first faults _ (Nat.le_refl _)
    have same : ({ t with faults }.put batmap.header.batmapOffset t.batmapBytes batmap.map).batmap = some batmap :=
      memory
    generalize { t with faults }.put batmap.header.batmapOffset t.batmapBytes batmap.map = u at stores same ⊢
    have looks := Context.looks_of_has has
    have place : u.batmapHeaderOffset = t.batmapHeaderOffset := by rw [(stores 0).edit.fields]; rfl
    have header := (stores 0).edit.batmapHeader looks
    have laid' : u.toContext.Laid := (stores t.maxBatSize).edit.laid laid fun allocated =>
      absurd (((stores 0).allocated_iff laid).mp allocated).1 (Nat.lt_irrefl _)
    have cookie : u.batmapHeader.cookie = true := by
      rw [header]
      exact (congrArg BatmapHeader.cookie mapped.header).symm.trans mapped.cookie
    have sealed : ∀ checksum, { batmap.header with checksum } = { u.batmapHeader with checksum } := by
      intro checksum
      rw [mapped.header, header]
    have second : ∀ checksum faults n, n ≤ 512 → ∀ block, u.Stores block
        ({ u with faults }.put t.batmapHeaderOffset n { batmap.header with checksum }.bytes) := by
      intro checksum faults n part
      rw [← place]
      apply stores_map laid' (((stores 0).edit.hasBatmap laid).trans has)
      intro p low high
      refine .inr ⟨⟨low, by omega⟩, ?_⟩
      by_cases kept : p - u.batmapHeaderOffset < 29 ∧ ¬ (24 ≤ p - u.batmapHeaderOffset ∧ p - u.batmapHeaderOffset < 28)
      · left
        have bytes := header_bytes cookie checksum kept.1 kept.2
        rw [Nat.add_sub_cancel' low] at bytes
        rw [sealed]
        exact bytes
      · right
        omega
    apply wp_vhdWrite
    · exact fun faults _ => ⟨same, fun block => (stores block).trans (second _ _ _ (Nat.le_refl _) block) laid⟩
    · exact fun faults _ n part _ => ⟨same, fun block => (stores block).trans (second _ _ _ part block) laid⟩
  · exact fun faults _ n part _ => ⟨memory, first faults n part⟩

theorem content_stored {nr o : Nat} (stores : t.Stores block u) (laid : t.toContext.Laid)
    (allocated : t.allocated block) (data : ∀ nr < t.spb, ∀ o < 512,
      u.file.byte ((t.entry block + t.bmSecs + nr) * 512 + o) = t.file.byte ((t.entry block + t.bmSecs + nr) * 512 + o))
    (small : o < 512) (here : nr / t.spb = block) :
    u.content nr o = if nr * 512 < t.currSize ∧ u.marks (t.entry block) (nr % t.spb) = true
      then some (t.file.byte ((t.entry block + t.bmSecs + nr % t.spb) * 512 + o)) else none := by
  have spb : u.spb = t.spb := by rw [stores.fields]; rfl
  have bm : u.bmSecs = t.bmSecs := by rw [stores.fields]; rfl
  have size : u.currSize = t.currSize := by rw [stores.fields]
  have type : u.typeDynamic = t.typeDynamic := by rw [stores.fields]; rfl
  have allocated' : u.allocated (nr / u.spb) := by
    rw [spb, here]
    exact (stores.allocated_iff laid).mpr allocated
  rw [Vhd.content_own (type.trans laid.dynamic) allocated', spb, here, bm, size, stores.entry laid allocated.1,
    data _ (Nat.mod_lt nr (Vhd.spb_pos laid.blockSize)) o small]

/-- A bitmap from which the bits of the child's are gone is put in place, as a whole or in part. -/
theorem cut_put {cmap : Nat → UInt8} {dirty : Bool} (loaded : Loaded t) (allocated : t.allocated block)
    (part : n ≤ t.bmSecs * 512) (spb : child.spb = t.spb)
    (own : ∀ nr, nr / child.spb = block → nr * 512 < child.currSize →
      (Moves child nr ↔ vhdBitmapTest child cmap (nr % child.spb) = true))
    (same : u = { t with faults }.put (t.entry block * 512) n
      (clearMarks child t.toVhd cmap (fun i => t.file.byte (t.entry block * 512 + i)) dirty child.spb).2) :
    Loaded u ∧ Trimmed child t u ∧ (n = t.bmSecs * 512 → ∀ nr o, o < 512 → Moves child nr → nr / child.spb = block →
      u.content nr o = none) := by
  have laid := loaded.laid
  have fits := Vhd.spb_le laid.blockSize
  have stores : t.Stores block u := by
    rw [same]
    exact Handle.stores_extent laid allocated (Nat.le_refl _) (by omega)
  have marks : ∀ i < t.spb, (i / 8 < n → u.marks (t.entry block) i =
      (t.marks (t.entry block) i && !vhdBitmapTest child cmap i)) ∧
      (¬ i / 8 < n → u.marks (t.entry block) i = t.marks (t.entry block) i) := by
    intro i small
    refine ⟨fun inside => ?_, fun outside => ?_⟩
    · rw [same, put_marks inside, clearMarks_test, spb, decide_eq_true small, Bool.true_and]
      rfl
    · rw [same]
      exact Vhd.marks_congr rfl (File.put_outside laid.past (by omega))
  have content : ∀ nr o, o < 512 → nr / t.spb = block → _ := fun nr o small here =>
    content_stored stores laid allocated (fun nr _ o _ => by
      rw [same]
      exact File.put_outside laid.past (by omega)) small here
  refine ⟨loaded.stores stores (fun _ => allocated.1) fun batmap memory => ⟨batmap.map, by rw [same]; exact memory⟩,
    fun nr o small inDisk => ?_, fun whole nr o small moves here => ?_⟩
  · by_cases here : nr / t.spb = block
    · have inside := Nat.mod_lt nr (Vhd.spb_pos laid.blockSize)
      obtain ⟨written, left⟩ := marks (nr % t.spb) inside
      rw [content nr o small here]
      have before := @Vhd.content_own t.toVhd nr o laid.dynamic (here ▸ allocated)
      rw [here] at before
      by_cases reached : nr % t.spb / 8 < n
      · cases bit : vhdBitmapTest child cmap (nr % t.spb) with
        | true =>
            refine .inr ⟨(own nr (spb ▸ here) inDisk).mpr (spb ▸ bit), if_neg fun marked => ?_⟩
            rw [written reached, bit] at marked
            simp at marked
        | false =>
            left
            rw [before, written reached, bit, Bool.not_false, Bool.and_true]
      · exact .inl (by rw [before, left reached])
    · exact .inl (stores.edit.content_other laid here small)
  · have bit := (own nr here moves.1.1).mp moves
    rw [spb] at here bit
    have inside := Nat.mod_lt nr (Vhd.spb_pos laid.blockSize)
    rw [content nr o small here, if_neg]
    rintro ⟨-, marked⟩
    rw [(marks _ inside).1 (by omega), bit] at marked
    simp at marked

theorem Loaded.clear (loaded : Loaded t) (entry : block < t.batEntries) (allocated : t.allocated block)
    (has : t.hasBatmap = true) (mapped : Mapped t batmap) : ∃ full, batmap.test block = .ok full ∧ (full = true →
      MapBounds.Batmap.clear batmap block = .ok { batmap with map := MapBounds.clearBit batmap.map block }) := by
  unfold Batmap.test MapBounds.Batmap.clear
  by_cases outside : batmap.header.batmapSize * 2 ^ 12 % 2 ^ 32 ≤ block
  · exact ⟨false, if_pos outside, fun full => by cases full⟩
  · have size : batmap.header.batmapSize = t.batmapHeader.batmapSize := by rw [mapped.header]
    have covers := loaded.covers block entry allocated has (size ▸ Nat.not_le.mp outside)
    rw [if_neg outside, if_neg outside, if_neg (by rw [mapped.mapBytes]; omega),
      if_neg (by rw [mapped.mapBytes]; omega)]
    exact ⟨_, rfl, fun _ => rfl⟩

theorem wp_clearFull (loaded : Loaded t) (entry : block < t.batEntries) (allocated : t.allocated block) :
    wp (clearFull block)
      (fun _ u => t.SameFields u ∧ Loaded u ∧ ∀ nr o, o < 512 → u.content nr o = t.content nr o)
      (fun _ _ => False) t := by
  unfold clearFull batmapTest
  simp only [wp_bind, wp_get, wp_ite, wp_pure, wp_when]
  refine ⟨fun _ => ⟨fun full => (by cases full), fun _ => ⟨rfl, loaded, fun _ _ _ => trivial⟩⟩, fun has => ?_⟩
  have has : t.hasBatmap = true := by simpa using has
  obtain ⟨batmap, memory, mapped⟩ := loaded.map has
  obtain ⟨full, test, clear⟩ := loaded.clear entry allocated has mapped
  rw [memory]
  dsimp only
  rw [test, wp_lift_ok]
  refine ⟨fun set => ?_, fun _ => ⟨rfl, loaded, fun _ _ _ => rfl⟩⟩
  unfold MapBounds.changeMap
  rw [wp_bind, wp_get, memory]
  dsimp only
  rw [wp_when, wp_bind, clear set, wp_lift_ok, wp_modify]
  refine ⟨fun _ => ?_, fun none => absurd has none⟩
  obtain ⟨v, same⟩ : ∃ v, v = { t with batmap := some { batmap with map := MapBounds.clearBit batmap.map block } } :=
    ⟨_, rfl⟩
  have change : t.Stores block v := by
    rw [same]
    exact ⟨rfl, .refl loaded.laid, fun _ _ => rfl⟩
  have memory' : v.batmap = some { batmap with map := MapBounds.clearBit batmap.map block } := by rw [same]
  have context : v.toContext = t.toContext := by rw [same]
  have allocated' : v.allocated block := context ▸ allocated
  have loaded' := loaded.stores change (fun _ => allocated.1) fun other before => by
    cases memory.symm.trans before
    exact ⟨_, memory'⟩
  rw [← same]
  refine (wp_writeMap loaded' (context ▸ has) memory').imp ?_
  rintro _ u ⟨memory'', stores⟩
  refine ⟨?_, loaded'.stores (stores block) (fun _ => allocated'.1) fun other before => ⟨other.map, ?_⟩,
    fun nr o small => ?_⟩
  · unfold Handle.SameFields
    rw [(stores block).fields, same]
  · rw [memory'', ← memory', before]
  · rw [(stores (nr / v.spb + 1)).edit.content_other loaded'.laid (Nat.ne_of_lt (Nat.lt_succ_self _)) small, context]

theorem wp_clearBitmap {cmap : Nat → UInt8} {dirty : Bool} (cut : Cut child block s t)
    (own : ∀ nr, nr / child.spb = block → nr * 512 < child.currSize →
      (Moves child nr ↔ vhdBitmapTest child cmap (nr % child.spb) = true)) :
    wp (vhdUtilCoalesceClearBitmap child cmap dirty block) (fun _ u => Cut child (block + 1) s u)
      (fun _ u => Trimmed child s u) t := by
  have loaded := cut.loaded
  have laid := loaded.laid
  unfold vhdUtilCoalesceClearBitmap
  simp only [wp_bind, wp_get, wp_ite, wp_fail]
  refine ⟨fun _ => cut.trimmed, fun same => ?_⟩
  have spb : child.spb = t.spb := not_not.mp same
  rw [wp_loadedBat loaded.table]
  refine ⟨fun skip => ?_, fun present => ?_⟩
  · refine cut.stay fun nr o small moves here entry => ?_
    have unused : t.entry block = ddBlkUnused := by
      rw [← table_entry entry]
      exact skip.resolve_left (Nat.not_le.mpr entry)
    unfold Vhd.content
    rw [if_neg]
    intro held
    have used := (held.2 laid.dynamic).1.2
    rw [← spb, here] at used
    exact used unused
  obtain ⟨entry, used⟩ := not_or.mp present
  have entry : block < t.batEntries := Nat.not_le.mp entry
  have place : t.toVhd.table.bat block = t.entry block := table_entry entry
  have allocated : t.allocated block := ⟨entry.trans_le laid.covers, place ▸ used⟩
  rw [vhdReadBitmap_eq laid.dynamic entry allocated.2]
  refine wp_lift (File.read_defined _ _ _) (fun amap action => ?_) fun _ _ => cut.trimmed
  rw [File.read_eq action, wp_when, wp_bind]
  refine ⟨fun _ => ?_, fun clean => ?_⟩
  · unfold vhdWriteBitmap
    simp only [wp_bind, wp_get]
    rw [if_neg (by simp [laid.dynamic])]
    simp only [wp_bind]
    rw [wp_loadedBat loaded.table, if_neg (show ¬ t.toVhd.table.entries ≤ block from Nat.not_le.mpr entry), if_neg used,
      place]
    apply wp_vhdWrite
    · intro faults _
      obtain ⟨u, same⟩ : ∃ u, u = { t with faults }.put (t.entry block * 512) (t.bmSecs * 512) (clearMarks child t.toVhd
          cmap (fun i => t.file.byte (t.entry block * 512 + i)) dirty child.spb).2 := ⟨_, rfl⟩
      obtain ⟨loaded', trimmed, gone⟩ := cut_put loaded allocated (Nat.le_refl _) spb own same
      have fields : t.SameFields u := by rw [same]; rfl
      rw [← same]
      have entry' : block < u.batEntries := by rw [fields]; exact entry
      have stores : t.Stores block u := by
        have fits := Vhd.spb_le laid.blockSize
        rw [same]
        exact Handle.stores_extent laid allocated (Nat.le_refl _) (by omega)
      refine (wp_clearFull loaded' entry' ((stores.allocated_iff laid).mpr allocated)).mono ?_ fun _ _ => False.elim
      rintro _ v ⟨fields', loaded'', same'⟩
      refine cut.next (fields.trans fields') loaded'' (trimmed.trans (.of_same same')) fun nr o small moves here _ => ?_
      rw [same' nr o small]
      exact gone rfl nr o small moves here
    · intro faults _ n part _
      exact cut.trimmed.trans (cut_put loaded allocated part spb own rfl).2.1
  · -- none of the bits of the child's is set in the map
    have same := clearMarks_clean (Bool.not_eq_true _ ▸ clean)
    refine cut.stay fun nr o small moves here _ => ?_
    have bit := (own nr here moves.1.1).mp moves
    have inside := Nat.mod_lt nr (Vhd.spb_pos laid.blockSize)
    have test := @clearMarks_test child t.toVhd cmap (fun i => t.file.byte (t.entry block * 512 + i)) dirty child.spb
      (nr % child.spb)
    rw [same, bit, spb, decide_eq_true inside, Bool.and_self, Bool.not_true, Bool.and_false] at test
    rw [spb] at here
    rw [Vhd.content_own laid.dynamic (here ▸ allocated), here, if_neg]
    rintro ⟨-, marked⟩
    have clear : t.marks (t.entry block) (nr % t.spb) = false := test
    rw [clear] at marked
    cases marked

end Cut

section Blocks
variable {child : Vhd} {starts nows : List Handle} {block left : Nat} {dirty : Nat → Nat → Bool}

theorem wp_clearBitmaps (valid : child.Valid) (dynamic : child.typeDynamic = true) (loaded : block < child.batEntries)
    (all : List.Forall₂ (Cut child block) starts nows) :
    wp (vhdUtilCoalesceClearBitmaps child child.table dirty block)
      (fun _ nows => List.Forall₂ (Cut child (block + 1)) starts nows)
      (fun _ nows => List.Forall₂ (Trimmed child) starts nows) nows := by
  have entry : child.table.bat block = child.entry block := table_entry loaded
  have marks : ∀ nr, nr / child.spb = block → nr * 512 < child.currSize →
      (Moves child nr ↔ child.allocated block ∧ child.marks (child.entry block) (nr % child.spb) = true) := by
    intro nr here inDisk
    unfold Moves Vhd.holds
    rw [here]
    exact ⟨fun moves => moves.1.2 dynamic, fun held => ⟨⟨inDisk, fun _ => held⟩, loaded⟩⟩
  unfold vhdUtilCoalesceClearBitmaps
  rw [wp_ite, entry]
  refine ⟨fun unused => ?_, fun used => ?_⟩
  · -- a block without an entry has no sector to move
    refine all.imp fun s t cut => cut.stay fun nr o small moves here _ => ?_
    exact absurd unused ((marks nr here moves.1.1).mp moves).1.2
  · have allocated : child.allocated block := ⟨loaded.trans_le valid.covers, used⟩
    rw [wp_bind, vhdReadBitmap_ok valid dynamic loaded allocated, wp_lift_ok]
    refine wp_each (fun i s t cut => wp_clearBitmap cut fun nr here inDisk => ?_) (fun _ _ cut => cut.trimmed)
      (fun _ _ cut => cut.trimmed) all
    exact (marks nr here inDisk).trans (and_iff_right allocated)

theorem wp_clearBlocks (valid : child.Valid) (dynamic : child.typeDynamic = true)
    (count : block + left = child.batEntries) (all : List.Forall₂ (Cut child block) starts nows) :
    wp (clearBlocks child child.table dirty left block)
      (fun _ nows => List.Forall₂ (Cut child child.batEntries) starts nows)
      (fun _ nows => List.Forall₂ (Trimmed child) starts nows) nows := by
  induction left generalizing block nows with
  | zero =>
      rw [Nat.add_zero] at count
      rw [count] at all
      exact all
  | succ left ih =>
      unfold clearBlocks
      rw [wp_bind]
      refine (wp_clearBitmaps valid dynamic (by omega) all).imp fun _ nows all' => ?_
      exact ih (by omega) all'

end Blocks

section Chain
variable {σ : Type} {parent : Parent σ} {child : Context} {good : σ → Prop} {fails : Prop} {s t : Tower σ}
  {vhds : List Vhd} {below : Below} {sec secs : Nat}

theorem stack_valid (valid : below.Valid .diff) (vhds' : ∀ vhd ∈ vhds, vhd.type = .diff ∧ vhd.Valid) :
    (stack vhds below).Valid .diff := by
  induction vhds with
  | nil => exact valid
  | cons vhd vhds ih =>
      obtain ⟨type, own⟩ := vhds' vhd List.mem_cons_self
      have under := ih fun other member => vhds' other (List.mem_cons_of_mem _ member)
      exact ⟨rfl, Below.under_valid _ (Vhd.dynamic_of_diff type) own (type ▸ under)⟩

theorem stack_tables (tables : ∀ chain, below = .layer chain → InTables sec secs chain)
    (slots : ∀ vhd ∈ vhds, Slots vhd sec secs) :
    ∀ chain, stack vhds below = .layer chain → InTables sec secs chain := by
  induction vhds with
  | nil => exact tables
  | cons vhd vhds ih =>
      have own := slots vhd List.mem_cons_self
      have under := ih fun other member => slots other (List.mem_cons_of_mem _ member)
      rintro _ ⟨⟩
      cases rest : stack vhds below with
      | nothing => exact fun _ => own
      | raw file => exact own
      | layer chain => exact ⟨own, under chain rest⟩

theorem Parent.Works.between (works : parent.Works child.toVhd good fails) (flat : parent.above = [])
    (type : child.type = .diff) (own : child.toVhd.Valid) (images : ∀ vhd ∈ vhds, vhd.type = .diff ∧ vhd.Valid)
    (slots : ∀ vhd ∈ vhds, ∀ block < child.batEntries, child.allocated block →
      Slots vhd (block * child.spb) child.spb) :
    Parent.Works { parent with above := vhds } child.toVhd good True := by
  have flat' : ∀ b, parent.beneath b = parent.below b := by
    intro b
    unfold Parent.beneath
    rw [flat]
    rfl
  constructor
  · intro b ok
    have valid := works.valid b ok
    rw [flat' b] at valid
    have under : (parent.below b).Valid .diff := by
      cases below : parent.below b with
      | nothing =>
          rw [below] at valid
          exact absurd type valid.1
      | raw file => rfl
      | layer chain =>
          rw [below] at valid
          exact ⟨rfl, valid.2.2⟩
    exact Below.under_valid _ (Vhd.dynamic_of_diff type) own (type.symm ▸ stack_valid under images)
  · intro b block ok loaded allocated
    refine stack_tables (fun chain same => ?_) fun vhd member => slots vhd member block loaded allocated
    exact works.tables b block ok loaded allocated chain ((flat' b).trans same)
  · exact fun _ _ _ _ _ sure => absurd trivial sure
  · intro b sec secs buf ok some moves
    exact (works.write b sec secs buf ok some moves).mono (fun _ _ done => done) fun _ _ left => ⟨trivial, left.2⟩

theorem findSome_trimmed {starts nows : List Handle} {nr o : Nat} (all : List.Forall₂ (Trimmed child.toVhd) starts nows)
    (small : o < 512) (inDisk : nr * 512 < child.currSize) (stays : ¬ Moves child.toVhd nr) :
    (nows.map fun image => image.toVhd).findSome? (fun vhd => vhd.content nr o) =
      (starts.map fun image => image.toVhd).findSome? fun vhd => vhd.content nr o := by
  induction all with
  | nil => rfl
  | cons here _ ih =>
      rw [List.map_cons, List.map_cons, List.findSome?_cons, List.findSome?_cons, ih,
        (here nr o small inDisk).resolve_right fun lost => stays lost.1]

theorem Cut.absent {s t : Handle} {nr o bound : Nat} (cut : Cut child.toVhd bound s t) (small : o < 512)
    (moves : Moves child.toVhd nr) (early : nr / child.spb < bound)
    (inTable : s.holds nr → nr / child.spb < s.batEntries) : t.content nr o = none := by
  by_cases held : s.holds nr
  · exact cut.gone nr o small moves early (inTable held)
  · rcases cut.trimmed nr o small moves.1.1 with same | lost
    · rw [same]
      exact if_neg held
    · exact lost.2

theorem findSome_absent {starts nows : List Handle} {nr o bound : Nat}
    (all : List.Forall₂ (Cut child.toVhd bound) starts nows) (small : o < 512) (moves : Moves child.toVhd nr)
    (early : nr / child.spb < bound) (inTables : ∀ image ∈ starts, image.holds nr → nr / child.spb < image.batEntries) :
    (nows.map fun image => image.toVhd).findSome? (fun vhd => vhd.content nr o) = none := by
  induction all with
  | nil => rfl
  | cons here _ ih =>
      rw [List.map_cons, List.findSome?_cons, here.absent small moves early (inTables _ List.mem_cons_self),
        ih fun image member => inTables image (List.mem_cons_of_mem _ member)]

theorem Tower.spared_of (images : List.Forall₂ (Trimmed child.toVhd) s.images t.images)
    (kept : Kept parent child.toVhd s.base t.base) : s.Spared parent child t := by
  intro nr o small inDisk
  unfold Tower.shows Tower.beneath
  rw [Below.under_byte, Below.under_byte, stack_byte, stack_byte]
  cases content : child.content nr o with
  | some value => rfl
  | none =>
      rw [findSome_trimmed images small inDisk (not_moves content), kept nr o small (not_moves content)]

theorem Tower.coalesced_of (images : List.Forall₂ (Cut child.toVhd child.batEntries) s.images t.images)
    (progress : Progress parent child.toVhd good s.base (fun nr => nr / child.spb < child.batEntries) t.base) :
    s.Coalesced parent child t := by
  have trimmed := images.imp fun _ _ cut => cut.trimmed
  refine ⟨Tower.spared_of trimmed progress.kept, fun nr o small inDisk loaded => ?_⟩
  unfold Tower.shows Tower.beneath
  rw [Below.under_byte, stack_byte, stack_byte]
  by_cases held : child.holds nr
  · obtain ⟨early, others⟩ := loaded held
    rw [findSome_absent images small ⟨held, early⟩ early others, progress.moved nr o small ⟨held, early⟩ early]
    rfl
  · have content : child.content nr o = none := if_neg held
    rw [content, findSome_trimmed trimmed small inDisk fun moves => held moves.1,
      progress.kept nr o small fun moves => held moves.1]
    rfl

end Chain

section Ancestor
variable {σ : Type} {parent : Parent σ} {child : Context} {good : σ → Prop} {fails : Prop} {s : Tower σ}
  {load : Action σ Unit} {image : Handle} {dirty : Nat → Nat → Bool}

structure Opened (child : Context) (image t : Handle) : Prop where
  cut : Cut child.toVhd 0 image t
  type : t.type = .diff
  valid : t.toVhd.Valid
  slots : ∀ block < child.batEntries, child.allocated block → Slots t.toVhd (block * child.spb) child.spb

theorem wp_loadBetween (between : Between child.toVhd image) :
    wp (loadBetween child.toVhd) (fun _ t => Opened child image t) (fun _ t => Trimmed child.toVhd image t) image := by
  have same : ∀ {t}, image.Loads t → Trimmed child.toVhd image t := fun loads =>
    .of_same fun _ _ _ => by rw [loads.context]
  unfold loadBetween
  rw [wp_bind]
  refine (wp_loadTables between.sound.toSoundDisk).mono ?_ fun _ _ => same
  rintro _ t ⟨loads, ready⟩
  simp only [wp_bind, wp_get, wp_ite, wp_fail, wp_pure]
  refine ⟨fun _ => same loads, fun diff => ⟨fun _ => same loads, fun _ => ?_⟩⟩
  have sound := loads.sound between.sound
  have table := ready.table
  rw [sound.table] at table
  have footer := between.footer
  have covers := between.covers
  have slots := between.slots
  rw [← loads.context] at footer covers slots
  refine ⟨⟨?_, ⟨sound.laid, table, fun has => ?_, covers⟩, same loads, fun _ _ _ _ none => ?_⟩, not_not.mp diff,
    sound.laid.vhd footer, slots⟩
  · unfold Handle.SameFields
    rw [loads.fields]
  · obtain ⟨batmap, memory⟩ := Option.isSome_iff_exists.mp (ready.map has)
    have from' := sound.memory batmap memory
    exact ⟨batmap, memory, from'.header, from'.cookie, from'.mapBytes⟩
  · exact absurd none (Nat.not_lt_zero _)

/-- After an error anywhere the child still shows what it did. -/
theorem wp_coalesceAncestor (works : parent.Works child.toVhd good fails) (flat : parent.above = []) (tidy : Tidy child)
    (loads : wp load (fun _ b => good b ∧ Kept parent child.toVhd s.base b)
      (fun _ b => Kept parent child.toVhd s.base b) s.base)
    (between : ∀ image ∈ s.images, Between child.toVhd image) :
    wp (vhdUtilCoalesceAncestor parent load child dirty) (fun _ t => s.Coalesced parent child t)
      (fun _ t => s.Spared parent child t) s := by
  have own := tidy.laid.vhd tidy.footer
  have same : ∀ image, Trimmed child.toVhd image image := fun _ => .of_same fun _ _ _ => rfl
  have alike : List.Forall₂ (Trimmed child.toVhd) s.images s.images := List.forall₂_same.mpr fun image _ => same image
  have unkept : Kept parent child.toVhd s.base s.base := fun _ _ _ _ => rfl
  unfold vhdUtilCoalesceAncestor vhdUtilCoalesceLoadChain
  rw [vhdReadBat_table own tidy.laid.dynamic]
  simp only [wp_bind, wp_lift_ok, wp_ite, wp_fail, wp_onImages, wp_onBase, wp_get]
  refine wp_lift (loadBatmap_cases tidy.laid).1 (fun _ _ => ⟨fun diff => absurd tidy.type diff, fun _ => ?_⟩)
    fun _ _ => Tower.spared_of alike unkept
  have start : List.Forall₂ (fun image t => t = image ∧ Between child.toVhd image) s.images s.images :=
    List.forall₂_same.mpr fun image member => ⟨rfl, between image member⟩
  have step : ∀ (_ : Nat) image t, t = image ∧ Between child.toVhd image → wp (loadBetween child.toVhd)
      (fun _ t => Opened child image t) (fun _ t => Trimmed child.toVhd image t) t := by
    rintro _ _ image ⟨rfl, between⟩
    exact wp_loadBetween between
  refine (wp_each step (fun _ _ opened => opened.cut.trimmed) (fun image t here => here.1.symm ▸ same image)
    start).mono ?_ fun _ l left => Tower.spared_of left unkept
  intro _ l opened
  have trimmed := opened.imp fun _ _ opened => opened.cut.trimmed
  refine loads.mono ?_ fun _ b kept => Tower.spared_of trimmed kept
  rintro _ b ⟨ok, kept⟩
  have members : ∀ vhd ∈ l.map fun image => image.toVhd, (vhd.type = .diff ∧ vhd.Valid) ∧
      ∀ block < child.batEntries, child.allocated block → Slots vhd (block * child.spb) child.spb := by
    intro vhd member
    obtain ⟨t, inside, rfl⟩ := List.mem_map.mp member
    obtain ⟨i, rfl⟩ := List.get_of_mem inside
    have opened := opened.get (opened.length_eq.symm ▸ i.isLt) i.isLt
    exact ⟨⟨opened.type, opened.valid⟩, opened.slots⟩
  have works' := works.between flat tidy.type own (fun vhd member => (members vhd member).1)
    fun vhd member => (members vhd member).2
  refine (wp_coalesceOnto works' tidy (fun sure => absurd trivial sure) ok).mono ?_ fun _ b' left =>
    Tower.spared_of trimmed fun nr o small stays => (left.2 nr o small stays).trans (kept nr o small stays)
  intro _ b' progress
  have onto : Progress parent child.toVhd good s.base (fun nr => nr / child.spb < child.batEntries) b' :=
    ⟨progress.good, fun nr o small stays => (progress.kept nr o small stays).trans (kept nr o small stays),
      progress.moved⟩
  refine (wp_clearBlocks own tidy.laid.dynamic (Nat.zero_add _) (opened.imp fun _ _ opened => opened.cut)).mono ?_
    fun _ l left => Tower.spared_of left onto.kept
  exact fun _ l cuts => Tower.coalesced_of cuts onto

theorem coalesce_ancestor_image {grand : Below} {s : Tower Handle} {blocks : List Nat} {bound : Nat} (tidy : Tidy child)
    (valid : s.base.Valid) (parents : grand.Valid s.base.type) (positive : 0 < s.base.spb)
    (allows : s.base.typeDynamic = true → s.base.Allows blocks bound)
    (covers : ∀ nr, Moves child.toVhd nr → nr / s.base.spb ∈ blocks)
    (tables : ∀ block < child.batEntries, child.allocated block →
      InTables (block * child.spb) child.spb (grand.under s.base.toVhd))
    (between : ∀ image ∈ s.images, Between child.toVhd image) :
    wp (vhdUtilCoalesceAncestor (imageParent grand) loadTables child dirty)
      (fun _ t => s.Coalesced (imageParent grand) child t) (fun _ t => s.Spared (imageParent grand) child t) s := by
  have same : ∀ b : Handle, b.toContext = s.base.toContext → Kept (imageParent grand) child.toVhd s.base b := by
    intro b context nr o _ _
    change ((grand.under b.toVhd).byte nr o) = (grand.under s.base.toVhd).byte nr o
    rw [context]
  refine wp_coalesceAncestor (@imageParent_works _ _ _ _ bound tidy positive parents covers tables) rfl tidy ?_ between
  by_cases dynamic : s.base.typeDynamic = true
  · have sound := valid.sound dynamic
    refine (wp_loadTables sound.toSoundDisk).mono (fun _ b loaded => ?_) fun _ b loads => same b loads.context
    have loads := loaded.1
    have context := loads.context
    have kept := loads.keeps sound.toSoundDisk (allows dynamic).room
    refine ⟨⟨⟨fun _ => loads.sound sound, ?_, ?_⟩, kept.fields, fun _ => kept.allows (allows dynamic) fun _ => ?_,
      fun sure => loads.clear sure.clear⟩, same b context⟩
    · rw [context]
      exact valid.footer
    · rw [context]
      exact valid.fixed
    · rw [context]
  · -- `vhd_get_bat` refuses a fixed image
    have fixed : s.base.typeDynamic = false := Bool.eq_false_iff.mpr dynamic
    have unmapped : s.base.hasBatmap = false := hasBatmap_unlooked (by simp [Context.looksForBatmap, fixed])
    unfold loadTables vhdGetBat
    simp only [wp_bind, wp_get, wp_ite, wp_pure, wp_when, vhdReadBat_fixed fixed, wp_lift_error]
    refine ⟨fun _ => ⟨fun has => absurd (unmapped.symm.trans has) (by decide), fun _ => ?_⟩, fun _ => same _ rfl⟩
    exact ⟨⟨valid, rfl, allows, fun sure => sure.clear⟩, same _ rfl⟩

theorem coalesce_ancestor_raw {s : Tower RawFile} (tidy : Tidy child)
    (between : ∀ image ∈ s.images, Between child.toVhd image) :
    wp (vhdUtilCoalesceAncestor rawParent (pure ()) child dirty) (fun _ t => s.Coalesced rawParent child t)
      (fun _ t => s.Spared rawParent child t) s := by
  refine wp_coalesceAncestor (@rawParent_works _ s.base tidy) rfl tidy ?_ between
  rw [wp_pure]
  exact ⟨⟨rfl, Nat.le_refl _, RawSure.faults⟩, fun _ _ _ _ => rfl⟩

theorem halfBetween : ∃ image, image = halfOpen .diff (2 * 2 ^ 21) ∧ Between halfChild.toVhd image := by
  obtain ⟨image, same⟩ : ∃ image, image = halfOpen .diff (2 * 2 ^ 21) := ⟨_, rfl⟩
  have valid : image.Valid := same ▸ halfOpen_valid (by decide) (by decide)
  refine ⟨image, same, valid.sound (same ▸ rfl), valid.footer (same ▸ rfl), fun _ _ _ has => ?_,
    fun block loaded _ => ?_⟩
  · rw [same, hasBatmap_unlooked halfOpen_blind] at has
    cases has
  · have entries : image.batEntries = halfChild.batEntries := same ▸ rfl
    have spb : image.spb = halfChild.spb := same ▸ rfl
    rw [← entries] at loaded
    exact spb ▸ block_slots loaded

theorem coalesce_ancestor_half : ∃ s : Tower Handle, s.images = [halfOpen .diff (2 * 2 ^ 21)] ∧
    wp (vhdUtilCoalesceAncestor (imageParent .nothing) loadTables halfChild fun _ _ => true)
      (fun _ t => s.Coalesced (imageParent .nothing) halfChild t)
      (fun _ t => s.Spared (imageParent .nothing) halfChild t) s := by
  obtain ⟨base, half⟩ := halfParent
  obtain ⟨image, same, between⟩ := halfBetween
  refine ⟨⟨base, [image]⟩, by rw [same], coalesce_ancestor_image halfChild_tidy half.valid half.parents
    (half.spb ▸ by decide) (fun _ => half.allows) half.covers half.tables fun other member => ?_⟩
  rw [List.mem_singleton.mp member]
  exact between

theorem coalesce_ancestor_file : ∃ s : Tower RawFile, s.images = [halfOpen .diff (2 * 2 ^ 21)] ∧
    wp (vhdUtilCoalesceAncestor rawParent (pure ()) halfChild fun _ _ => true)
      (fun _ t => s.Coalesced rawParent halfChild t) (fun _ t => s.Spared rawParent halfChild t) s := by
  obtain ⟨image, same, between⟩ := halfBetween
  refine ⟨⟨⟨⟨2 * 2 ^ 21, fun _ => 0⟩, false, []⟩, [image]⟩, by rw [same],
    coalesce_ancestor_raw halfChild_tidy fun other member => ?_⟩
  rw [List.mem_singleton.mp member]
  exact between

end Ancestor

end Blktap.Libvhd.Coalesce
