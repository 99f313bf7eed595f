import Mathlib.Data.Fintype.Defs
import Mathlib.Data.List.FinRange
import Blktap.BlockVhd.Rules
import Blktap.Lib.Run

/-!
# The ages of cached bitmaps

A touch gives a bitmap the next sequence number, and the bitmap to evict is looked for by these numbers. At the limit
all numbers are halved. `Book` keeps the times of the touches beside the numbers, so that both can be compared.
-/

namespace Blktap.BlockVhd.Lru
open Lib Libvhd

def Cached (s : VhdState) (i : BitmapIndex) : Prop := ∃ slot, s.bitmap slot = some i

instance (s : VhdState) (i : BitmapIndex) : Decidable (Cached s i) :=
  inferInstanceAs (Decidable (∃ _, _))

def seqno (s : VhdState) (i : BitmapIndex) : Nat := (s.bitmapList i).seqno

def Evictable (s : VhdState) (i : BitmapIndex) : Prop := Cached s i ∧ (s.bitmapList i).locked = false

structure Book where
  driver : VhdState
  clock : Nat
  touched : BitmapIndex → Nat

def Book.touch (b : Book) (i : BitmapIndex) (s : VhdState) : Book :=
  ⟨s, b.clock + 1, Function.update b.touched i (b.clock + 1)⟩

inductive Event
  | touch (i : BitmapIndex)
  | alloc (blk : Nat)
  | install (i : BitmapIndex)
  | free (i : BitmapIndex)
  | lock (i : BitmapIndex)
  | unlock (i : BitmapIndex)

def after {α : Type} (m : Driver α) (s : VhdState) : Option VhdState :=
  match m s with
  | .ok (_, t) => some t
  | .error _ => none

def step (b : Book) : Event → Option Book
  | .touch i => if Cached b.driver i then (after (touchBitmap i) b.driver).map (b.touch i) else none
  | .alloc blk => (after (allocVhdBitmap blk) b.driver).map fun s => { b with driver := s }
  | .install i =>
      if Cached b.driver i ∨ i ∈ b.driver.bitmapFree then none
      else (after (installBitmap i) b.driver).map (b.touch i)
  | .free i => (after (freeVhdBitmap i) b.driver).map fun s => { b with driver := s }
  | .lock i => (after (lockBitmap i) b.driver).map fun s => { b with driver := s }
  | .unlock i => (after (unlockBitmap i) b.driver).map fun s => { b with driver := s }

def rescale (s : VhdState) : VhdState := (List.finRange vhdCacheSize).foldl halveSeqno { s with bmLru := 0 }

def Book.EvictsOldest (b : Book) : Prop :=
  match b.driver.lruSlot.1 with
  | some (_, i) => Evictable b.driver i ∧ ∀ j, Evictable b.driver j → b.touched i ≤ b.touched j
  | none => ∀ j, ¬ Evictable b.driver j

def Book.RescaleKeeps (b : Book) : Prop :=
  b.driver.bmLru = 0xffffffff → ∀ i j, Cached b.driver i → Cached b.driver j →
    (seqno (rescale b.driver) i < seqno (rescale b.driver) j ↔ b.touched i < b.touched j)

def Book.Right (b : Book) : Event → Prop
  | .alloc _ => b.driver.bitmapFree = [] → b.EvictsOldest
  | .touch _ => b.RescaleKeeps
  | .install _ => b.RescaleKeeps
  | .free _ => True
  | .lock _ => True
  | .unlock _ => True

def LeavesNewest (s : VhdState) : Prop :=
  (∃ i, Evictable s i ∧ seqno s i < s.bmLru) ∨ ∀ i, ¬ Evictable s i

def NoNeighbours (s : VhdState) : Prop :=
  s.bmLru = 0xffffffff → ∀ i j, Cached s i → Cached s j → i ≠ j → seqno s i / 2 ≠ seqno s j / 2

def Fits (s : VhdState) : Event → Prop
  | .alloc _ => s.bitmapFree = [] → LeavesNewest s
  | .touch _ => NoNeighbours s
  | .install _ => NoNeighbours s
  | .free _ => True
  | .lock _ => True
  | .unlock _ => True

structure Ordered (b : Book) : Prop where
  slots : ∀ slot slot' i, b.driver.bitmap slot = some i → b.driver.bitmap slot' = some i → slot = slot'
  free : ∀ i ∈ b.driver.bitmapFree, ¬ Cached b.driver i
  order : ∀ i j, Cached b.driver i → Cached b.driver j →
    (seqno b.driver i < seqno b.driver j ↔ b.touched i < b.touched j)
  below : ∀ i, Cached b.driver i → seqno b.driver i ≤ b.driver.bmLru
  limit : b.driver.bmLru ≤ 0xffffffff
  past : ∀ i, Cached b.driver i → b.touched i ≤ b.clock
  apart : ∀ i j, Cached b.driver i → Cached b.driver j → b.touched i = b.touched j → i = j

section Search
variable {s : VhdState} {b : Book}

structure Found (s : VhdState) (slots : List BitmapIndex) (found : Option (BitmapIndex × BitmapIndex) × Nat) :
    Prop where
  least : ∀ slot ∈ slots, ∀ j, s.bitmap slot = some j → (s.bitmapList j).locked = false → found.2 ≤ seqno s j ∨
    s.bmLru ≤ seqno s j
  none : found.1 = none → found.2 = s.bmLru
  some : ∀ slot i, found.1 = some (slot, i) → s.bitmap slot = some i ∧ (s.bitmapList i).locked = false ∧
    seqno s i = found.2 ∧ found.2 < s.bmLru

def lruTurn (s : VhdState) (found : Option (BitmapIndex × BitmapIndex) × Nat) (slot : BitmapIndex) :
    Option (BitmapIndex × BitmapIndex) × Nat :=
  (s.bitmap slot).elim found fun i =>
    if (s.bitmapList i).seqno < found.2 ∧ (s.bitmapList i).locked = false then
      (some (slot, i), (s.bitmapList i).seqno)
    else found

theorem lruSlot_turns (s : VhdState) :
    s.lruSlot = (List.finRange vhdCacheSize).foldl (lruTurn s) (none, s.bmLru) := by
  unfold VhdState.lruSlot lruTurn
  congr
  funext found slot
  cases s.bitmap slot <;> rfl

theorem lruSlot_found (s : VhdState) : Found s (List.finRange vhdCacheSize) s.lruSlot := by
  have main : ∀ slots seen found, Found s seen found →
      Found s (seen ++ slots) (slots.foldl (lruTurn s) found) := by
    intro slots
    induction slots with
    | nil => exact fun seen found holds => (List.append_nil seen).symm ▸ holds
    | cons slot slots ih =>
        intro seen found holds
        rw [List.foldl_cons, ← List.singleton_append, ← List.append_assoc]
        apply ih
        unfold lruTurn
        cases here : s.bitmap slot with
        | none =>
            refine ⟨fun slot' member j at' => ?_, holds.none, holds.some⟩
            rcases List.mem_append.mp member with before | same
            · exact holds.least slot' before j at'
            · rw [List.mem_singleton.mp same, here] at at'
              cases at'
        | some i =>
            dsimp only [Option.elim]
            split
            case isTrue better =>
              have small : seqno s i < s.bmLru := by
                rcases result : found.1 with _ | ⟨slot', k⟩
                · exact holds.none result ▸ better.1
                · exact better.1.trans (holds.some slot' k result).2.2.2
              refine ⟨fun slot' member j at' unlocked => ?_, fun none => ?_, fun slot' k same => ?_⟩
              · rcases List.mem_append.mp member with before | same
                · exact (holds.least slot' before j at' unlocked).imp_left better.1.le.trans
                · rw [List.mem_singleton.mp same, here] at at'
                  cases at'
                  exact .inl (Nat.le_refl _)
              · cases none
              · cases same
                exact ⟨here, better.2, rfl, small⟩
            case isFalse worse =>
              refine ⟨fun slot' member j at' unlocked => ?_, holds.none, holds.some⟩
              rcases List.mem_append.mp member with before | same
              · exact holds.least slot' before j at' unlocked
              · rw [List.mem_singleton.mp same, here] at at'
                cases at'
                exact .inl (Nat.not_lt.mp fun less => worse ⟨less, unlocked⟩)
  rw [lruSlot_turns]
  exact main _ [] _ ⟨fun _ member => (List.not_mem_nil member).elim, fun _ => rfl, fun _ _ none => by cases none⟩

theorem lruSlot_slot {slot i : BitmapIndex} (found : s.lruSlot.1 = some (slot, i)) : s.bitmap slot = some i :=
  ((lruSlot_found s).some slot i found).1

theorem evictsOldest_iff (ordered : Ordered b) : b.EvictsOldest ↔ LeavesNewest b.driver := by
  have found := lruSlot_found b.driver
  have least : ∀ j, Evictable b.driver j →
      b.driver.lruSlot.2 ≤ seqno b.driver j ∨ b.driver.bmLru ≤ seqno b.driver j := by
    rintro j ⟨⟨slot, at'⟩, unlocked⟩
    exact found.least slot (List.mem_finRange slot) j at' unlocked
  unfold Book.EvictsOldest LeavesNewest
  rcases result : b.driver.lruSlot.1 with _ | ⟨slot, i⟩
  · have newest := found.none result
    refine ⟨.inr, fun leaves j evictable => ?_⟩
    rcases leaves with ⟨i, evictable, older⟩ | none
    · have := least i evictable
      omega
    · exact none j evictable
  · obtain ⟨here, unlocked, number, older⟩ := found.some slot i result
    have evictable : Evictable b.driver i := ⟨⟨slot, here⟩, unlocked⟩
    refine iff_of_true ⟨evictable, fun j other => ?_⟩ (.inl ⟨i, evictable, number ▸ older⟩)
    have order := ordered.order j i other.1 evictable.1
    have := least j other
    omega

end Search

section Rescale
variable {s : VhdState} {b : Book} {i j : BitmapIndex}

theorem halveSeqno_none {slot : BitmapIndex} (empty : s.bitmap slot = none) : halveSeqno s slot = s := by
  unfold halveSeqno
  rw [empty]

theorem halveSeqno_some {slot : BitmapIndex} (here : s.bitmap slot = some i) : halveSeqno s slot =
    { s.setBitmap i (fun bm => { bm with seqno := bm.seqno / 2 }) with bmLru := max s.bmLru (seqno s i / 2) } := by
  unfold halveSeqno
  rw [here]
  dsimp only
  rw [bitmapList_setBitmap, if_pos rfl]
  rfl

structure Halved (s : VhdState) (slots : List BitmapIndex) (t : VhdState) : Prop where
  bitmap : t.bitmap = s.bitmap
  free : t.bitmapFree = s.bitmapFree
  locked : ∀ i, (t.bitmapList i).locked = (s.bitmapList i).locked
  half : ∀ slot ∈ slots, ∀ i, s.bitmap slot = some i → seqno t i = seqno s i / 2
  other : ∀ i, (∀ slot ∈ slots, s.bitmap slot ≠ some i) → seqno t i = seqno s i
  reach : s.bmLru ≤ t.bmLru ∧ ∀ slot ∈ slots, ∀ i, s.bitmap slot = some i → seqno s i / 2 ≤ t.bmLru
  most : ∀ most, s.bmLru ≤ most → (∀ slot ∈ slots, ∀ i, s.bitmap slot = some i → seqno s i / 2 ≤ most) →
    t.bmLru ≤ most

theorem halved_fold (slots : List BitmapIndex) (nodup : slots.Nodup) (s : VhdState)
    (inj : ∀ slot slot' i, s.bitmap slot = some i → s.bitmap slot' = some i → slot = slot') :
    Halved s slots (slots.foldl halveSeqno s) := by
  induction slots generalizing s with
  | nil =>
      exact ⟨rfl, rfl, fun _ => rfl, fun _ member => (List.not_mem_nil member).elim, fun _ _ => rfl,
        ⟨Nat.le_refl _, fun _ member => (List.not_mem_nil member).elim⟩, fun _ start _ => start⟩
  | cons slot slots ih =>
      obtain ⟨absent, nodup⟩ := List.nodup_cons.mp nodup
      rw [List.foldl_cons]
      cases here : s.bitmap slot with
      | none =>
          rw [halveSeqno_none here]
          obtain ⟨bitmap, free, locked, half, other, reach, most⟩ := ih nodup s inj
          refine ⟨bitmap, free, locked, fun slot' member i at' => ?_, fun i none => ?_,
            ⟨reach.1, fun slot' member i at' => ?_⟩,
            fun bound start all => most bound start fun slot' member => all slot' (List.mem_cons_of_mem slot member)⟩
          · rcases List.mem_cons.mp member with rfl | member
            · cases here.symm.trans at'
            · exact half slot' member i at'
          · exact other i fun slot' member => none slot' (List.mem_cons_of_mem slot member)
          · rcases List.mem_cons.mp member with rfl | member
            · cases here.symm.trans at'
            · exact reach.2 slot' member i at'
      | some i =>
          rw [halveSeqno_some here]
          generalize made : ({ s.setBitmap i (fun bm => { bm with seqno := bm.seqno / 2 }) with
            bmLru := max s.bmLru (seqno s i / 2) } : VhdState) = u
          have list : ∀ j, u.bitmapList j =
              if j = i then { s.bitmapList i with seqno := (s.bitmapList i).seqno / 2 } else s.bitmapList j := by
            intro j
            rw [← made]
            exact bitmapList_setBitmap s i j fun bm => { bm with seqno := bm.seqno / 2 }
          have number : ∀ j, seqno u j = if j = i then seqno s i / 2 else seqno s j := by
            intro j
            unfold seqno
            rw [list]
            split <;> rfl
          have same : u.bitmap = s.bitmap := by rw [← made]; rfl
          have newest : u.bmLru = max s.bmLru (seqno s i / 2) := by rw [← made]
          obtain ⟨bitmap, free, locked, half, other, reach, most⟩ := ih nodup u (same ▸ inj)
          rw [same] at bitmap half other reach
          refine ⟨bitmap, free.trans (by rw [← made]; rfl), fun j => ?_, fun slot' member j at' => ?_, fun j none => ?_,
            ⟨?_, fun slot' member j at' => ?_⟩, fun bound start all => ?_⟩
          · rw [locked, list]
            split
            · rename_i same
              rw [same]
            · rfl
          · rcases List.mem_cons.mp member with rfl | member
            · cases here.symm.trans at'
              rw [other i fun slot' member at' => absent (inj _ _ _ here at' ▸ member), number, if_pos rfl]
            · rw [half slot' member j at', number, if_neg]
              rintro rfl
              exact absent (inj _ _ _ here at' ▸ member)
          · rw [other j fun slot' member => none slot' (List.mem_cons_of_mem slot member), number, if_neg]
            rintro rfl
            exact none slot List.mem_cons_self here
          · omega
          · rcases List.mem_cons.mp member with rfl | member
            · cases here.symm.trans at'
              omega
            · have := reach.2 slot' member j at'
              rw [number, if_neg] at this
              · exact this
              · rintro rfl
                exact absent (inj _ _ _ here at' ▸ member)
          · refine most bound ?_ fun slot' member j at' => ?_
            · rw [newest]
              exact Nat.max_le.mpr ⟨start, all slot List.mem_cons_self i here⟩
            · rw [same] at at'
              have small := all slot' (List.mem_cons_of_mem slot member) j at'
              have first := all slot List.mem_cons_self i here
              rw [number]
              split <;> omega

theorem Ordered.rescaled (ordered : Ordered b) : Halved { b.driver with bmLru := 0 } (List.finRange vhdCacheSize)
    (rescale b.driver) :=
  halved_fold _ (List.nodup_finRange _) _ ordered.slots

theorem Ordered.rescaled_seqno (ordered : Ordered b) (cached : Cached b.driver i) :
    seqno (rescale b.driver) i = seqno b.driver i / 2 := by
  obtain ⟨slot, here⟩ := cached
  exact ordered.rescaled.half slot (List.mem_finRange slot) i here

theorem rescaleKeeps_iff (ordered : Ordered b) : b.RescaleKeeps ↔ NoNeighbours b.driver := by
  unfold Book.RescaleKeeps NoNeighbours
  refine forall_congr' fun limit => ⟨fun keeps i j first second apart same => ?_, fun none i j first second => ?_⟩
  · have less := keeps i j first second
    have more := keeps j i second first
    rw [ordered.rescaled_seqno first, ordered.rescaled_seqno second] at less more
    have different : b.touched i ≠ b.touched j := fun equal => apart (ordered.apart i j first second equal)
    omega
  · rw [ordered.rescaled_seqno first, ordered.rescaled_seqno second, ← ordered.order i j first second]
    by_cases equal : i = j
    · subst equal
      exact iff_of_false (Nat.lt_irrefl _) (Nat.lt_irrefl _)
    · have := none i j first second equal
      omega

end Rescale

section Touch
variable {b : Book} {s t : VhdState} {i : BitmapIndex}

def numbered (s : VhdState) : VhdState := if s.bmLru = 0xffffffff then rescale s else s

def stamped (s : VhdState) (i : BitmapIndex) : VhdState :=
  ({ numbered s with bmLru := (numbered s).bmLru + 1 } : VhdState).setBitmap i fun bm =>
    { bm with seqno := (numbered s).bmLru + 1 }

theorem touchBitmap_eq (s : VhdState) (i : BitmapIndex) : touchBitmap i s = .ok ((), stamped s i) := by
  unfold touchBitmap bitmapLruSeqno stamped numbered rescale
  by_cases limit : s.bmLru = 0xffffffff
  · rw [if_pos limit]
    change (if s.bmLru = 0xffffffff then _ else _ : Driver Nat) s >>= _ = _
    rw [if_pos limit]
    rfl
  · rw [if_neg limit]
    change (if s.bmLru = 0xffffffff then _ else _ : Driver Nat) s >>= _ = _
    rw [if_neg limit]
    rfl

structure Counts (b : Book) (t : VhdState) : Prop where
  bitmap : t.bitmap = b.driver.bitmap
  free : t.bitmapFree = b.driver.bitmapFree
  order : ∀ i j, Cached b.driver i → Cached b.driver j → (seqno t i < seqno t j ↔ b.touched i < b.touched j)
  below : ∀ i, Cached b.driver i → seqno t i ≤ t.bmLru
  room : t.bmLru < 0xffffffff

theorem Ordered.numbered (ordered : Ordered b) (none : NoNeighbours b.driver) : Counts b (numbered b.driver) := by
  unfold Lru.numbered
  split
  case isTrue limit =>
    have halved := ordered.rescaled
    refine ⟨halved.bitmap, halved.free, (rescaleKeeps_iff ordered).mpr none limit, fun i cached => ?_, ?_⟩
    · rw [ordered.rescaled_seqno cached]
      obtain ⟨slot, here⟩ := cached
      exact halved.reach.2 slot (List.mem_finRange slot) i here
    · refine Nat.lt_of_le_of_lt (halved.most 0x7fffffff (Nat.zero_le _) fun slot _ i here => ?_) (by decide)
      have := ordered.below i ⟨slot, here⟩
      have := ordered.limit
      change seqno b.driver i / 2 ≤ _
      omega
  case isFalse below =>
    exact ⟨rfl, rfl, ordered.order, ordered.below, lt_of_le_of_ne ordered.limit below⟩

theorem seqno_stamped (j : BitmapIndex) :
    seqno (stamped s i) j = if j = i then (numbered s).bmLru + 1 else seqno (numbered s) j := by
  unfold stamped seqno
  rw [bitmapList_setBitmap]
  split <;> rfl

theorem Ordered.stamp (ordered : Ordered b) (none : NoNeighbours b.driver) {bitmap : BitmapIndex → Option BitmapIndex}
    (slots : ∀ slot slot' i, bitmap slot = some i → bitmap slot' = some i → slot = slot')
    (more : ∀ j slot, bitmap slot = some j → j = i ∨ Cached b.driver j)
    (free : i ∉ b.driver.bitmapFree) : Ordered (b.touch i { stamped b.driver i with bitmap }) := by
  have counts := ordered.numbered none
  have other : ∀ j, Cached { stamped b.driver i with bitmap } j → j ≠ i → Cached b.driver j := fun j cached apart =>
    cached.elim fun slot here => (more j slot here).resolve_left apart
  have number : ∀ j, seqno { stamped b.driver i with bitmap } j =
      if j = i then (Lru.numbered b.driver).bmLru + 1 else seqno (Lru.numbered b.driver) j := seqno_stamped
  have time : ∀ j, (b.touch i { stamped b.driver i with bitmap }).touched j =
      if j = i then b.clock + 1 else b.touched j := fun j => Function.update_apply ..
  have newest : ∀ j, Cached { stamped b.driver i with bitmap } j → j ≠ i →
      seqno (Lru.numbered b.driver) j < (Lru.numbered b.driver).bmLru + 1 ∧ b.touched j < b.clock + 1 :=
    fun j cached apart => ⟨Nat.lt_succ_of_le (counts.below j (other j cached apart)),
      Nat.lt_succ_of_le (ordered.past j (other j cached apart))⟩
  refine ⟨slots, fun j member cached => ?_, fun j k first second => ?_, fun j cached => ?_, counts.room,
    fun j cached => ?_, fun j k first second same => ?_⟩
  · have member : j ∈ b.driver.bitmapFree := counts.free ▸ member
    by_cases same : j = i
    · exact free (same ▸ member)
    · exact ordered.free j member (other j cached same)
  · change seqno { stamped b.driver i with bitmap } j < seqno { stamped b.driver i with bitmap } k ↔ _
    rw [number, number, time, time]
    by_cases one : j = i
    · by_cases two : k = i
      · rw [if_pos one, if_pos two, if_pos one, if_pos two]
        exact iff_of_false (Nat.lt_irrefl _) (Nat.lt_irrefl _)
      · rw [if_pos one, if_neg two, if_pos one, if_neg two]
        exact iff_of_false (newest k second two).1.not_gt (newest k second two).2.not_gt
    · by_cases two : k = i
      · rw [if_neg one, if_pos two, if_neg one, if_pos two]
        exact iff_of_true (newest j first one).1 (newest j first one).2
      · rw [if_neg one, if_neg two, if_neg one, if_neg two]
        exact counts.order j k (other j first one) (other k second two)
  · change seqno { stamped b.driver i with bitmap } j ≤ (Lru.numbered b.driver).bmLru + 1
    rw [number]
    split
    · exact Nat.le_refl _
    · exact (newest j cached ‹_›).1.le
  · rw [time]
    split
    · exact Nat.le_refl _
    · exact (newest j cached ‹_›).2.le
  · rw [time, time] at same
    by_cases one : j = i
    · by_cases two : k = i
      · exact one.trans two.symm
      · rw [if_pos one, if_neg two] at same
        exact absurd same (newest k second two).2.ne'
    · by_cases two : k = i
      · rw [if_neg one, if_pos two] at same
        exact absurd same (newest j first one).2.ne
      · rw [if_neg one, if_neg two] at same
        exact ordered.apart j k (other j first one) (other k second two) same

end Touch

section Steps
variable {b c : Book} {s t : VhdState} {i : BitmapIndex}

theorem Ordered.less (ordered : Ordered b) (slots : ∀ slot i, t.bitmap slot = some i → b.driver.bitmap slot = some i)
    (free : ∀ i ∈ t.bitmapFree, ¬ Cached t i) (numbers : ∀ i, Cached t i → seqno t i = seqno b.driver i)
    (newest : t.bmLru = b.driver.bmLru) : Ordered { b with driver := t } := by
  have cached : ∀ i, Cached t i → Cached b.driver i := fun i => Exists.imp fun slot => slots slot i
  refine ⟨fun slot slot' i first second => ordered.slots slot slot' i (slots slot i first) (slots slot' i second), free,
    fun i j first second => ?_, fun i member => ?_, newest ▸ ordered.limit,
    fun i member => ordered.past i (cached i member),
    fun i j first second => ordered.apart i j (cached i first) (cached j second)⟩
  · change seqno t i < seqno t j ↔ _
    rw [numbers i first, numbers j second]
    exact ordered.order i j (cached i first) (cached j second)
  · change seqno t i ≤ t.bmLru
    rw [numbers i member, newest]
    exact ordered.below i (cached i member)

theorem Ordered.touch (ordered : Ordered b) (none : NoNeighbours b.driver) (cached : Cached b.driver i) :
    Ordered (b.touch i (stamped b.driver i)) := by
  have same := (ordered.numbered none).bitmap
  refine @Ordered.stamp b i ordered none (stamped b.driver i).bitmap ?_ ?_ fun member => ordered.free i member cached
  · exact (same : (stamped b.driver i).bitmap = _) ▸ ordered.slots
  · intro j slot here
    exact .inr ⟨slot, (same : (stamped b.driver i).bitmap = _) ▸ here⟩

theorem wp_touchBitmap {post : Unit → VhdState → Prop} {stop : Fault → Prop} :
    Program.wp (touchBitmap i) post stop s ↔ post () (stamped s i) := by
  unfold Program.wp
  rw [touchBitmap_eq]

theorem after_wp {α : Type} {m : Driver α} {P : VhdState → Prop} (run : Program.wp m (fun _ => P) (fun _ => True) s)
    (action : after m s = some t) : P t := by
  unfold after at action
  unfold Program.wp at run
  rcases result : m s with _ | ⟨a, u⟩ <;> rw [result] at action run <;> cases action
  exact run

theorem Ordered.install (ordered : Ordered b) (none : NoNeighbours b.driver)
    (absent : ¬ (Cached b.driver i ∨ i ∈ b.driver.bitmapFree)) (action : after (installBitmap i) b.driver = some t) :
    Ordered (b.touch i t) := by
  have same : (stamped b.driver i).bitmap = b.driver.bitmap := (ordered.numbered none).bitmap
  refine @after_wp b.driver t Unit (installBitmap i) (fun t => Ordered (b.touch i t)) ?_ action
  unfold installBitmap
  rw [Program.wp_bind, Program.wp_get]
  cases (List.finRange vhdCacheSize).find? fun slot => (b.driver.bitmap slot).isNone with
  | none => trivial
  | some slot =>
      dsimp only
      rw [Program.wp_bind, wp_touchBitmap, Program.wp_modify, same]
      refine ordered.stamp none (fun slot₁ slot₂ j first second => ?_) (fun j slot' here => ?_) fun member =>
        absent (.inr member)
      · by_cases one : slot₁ = slot
        · by_cases two : slot₂ = slot
          · exact one.trans two.symm
          · rw [one, Function.update_self] at first
            cases first
            rw [Function.update_of_ne two] at second
            exact absurd (.inl ⟨slot₂, second⟩) absent
        · rw [Function.update_of_ne one] at first
          by_cases two : slot₂ = slot
          · rw [two, Function.update_self] at second
            cases second
            exact absurd (.inl ⟨slot₁, first⟩) absent
          · rw [Function.update_of_ne two] at second
            exact ordered.slots slot₁ slot₂ j first second
      · by_cases one : slot' = slot
        · rw [one, Function.update_self] at here
          exact .inl (Option.some.inj here).symm
        · rw [Function.update_of_ne one] at here
          exact .inr ⟨slot', here⟩

theorem Ordered.emptied (ordered : Ordered b) {slot : BitmapIndex} (here : b.driver.bitmap slot = some i)
    {bitmap : BitmapIndex → Option BitmapIndex} (empty : bitmap = Function.update b.driver.bitmap slot none) :
    (∀ slot' j, bitmap slot' = some j → b.driver.bitmap slot' = some j) ∧ ∀ slot', bitmap slot' ≠ some i := by
  subst empty
  refine ⟨fun slot' j there => ?_, fun slot' there => ?_⟩
  · by_cases same : slot' = slot
    · rw [same, Function.update_self] at there
      cases there
    · rwa [Function.update_of_ne same] at there
  · by_cases same : slot' = slot
    · rw [same, Function.update_self] at there
      cases there
    · rw [Function.update_of_ne same] at there
      exact same (ordered.slots slot' slot i there here)

theorem seqno_setBitmap (s : VhdState) (f : VhdBitmap → VhdBitmap) (j : BitmapIndex)
    (same : j = i → (f (s.bitmapList i)).seqno = (s.bitmapList i).seqno) : seqno (s.setBitmap i f) j = seqno s j := by
  unfold seqno
  rw [bitmapList_setBitmap]
  split
  · rename_i here
    rw [same here, here]
  · rfl

theorem Ordered.release (ordered : Ordered b) (action : after (freeVhdBitmap i) b.driver = some t) :
    Ordered { b with driver := t } := by
  refine @after_wp b.driver t Unit (freeVhdBitmap i) (fun t => Ordered { b with driver := t }) ?_ action
  unfold freeVhdBitmap
  rw [Program.wp_bind, Program.wp_get, Program.wp_bind, wp_assert]
  refine ⟨fun _ => ?_, fun _ => trivial⟩
  rw [Program.wp_bind, wp_assert]
  refine ⟨fun _ => ?_, fun _ => trivial⟩
  cases found : (List.finRange vhdCacheSize).find? fun slot => b.driver.bitmap slot = some i with
  | none => trivial
  | some slot =>
      dsimp only
      rw [Program.wp_ite]
      refine ⟨fun _ => trivial, fun _ => ?_⟩
      rw [Program.wp_set]
      have here : b.driver.bitmap slot = some i := of_decide_eq_true (List.find?_some found :)
      obtain ⟨less, gone⟩ := ordered.emptied here rfl
      refine ordered.less less (fun j member cached => ?_) (fun _ _ => rfl) rfl
      obtain ⟨slot', there⟩ := cached
      rcases List.mem_cons.mp member with rfl | member
      · exact gone slot' there
      · exact ordered.free j member ⟨slot', less slot' j there⟩

theorem Ordered.refill (ordered : Ordered b) (absent : ¬ Cached b.driver i) (f : VhdBitmap → VhdBitmap) :
    Ordered { b with driver := b.driver.setBitmap i f } :=
  ordered.less (fun _ _ same => same) ordered.free
    (fun j cached => seqno_setBitmap b.driver f j fun same => absurd (same ▸ cached) absent) rfl

theorem Ordered.alloc {blk : Nat} (ordered : Ordered b) (action : after (allocVhdBitmap blk) b.driver = some t) :
    Ordered { b with driver := t } := by
  refine @after_wp b.driver t _ (allocVhdBitmap blk) (fun t => Ordered { b with driver := t }) ?_ action
  have fill : ∀ (u : VhdState) (k : BitmapIndex), Ordered { b with driver := u } → ¬ Cached u k →
      Ordered { b with driver := u.setBitmap k fun _ => { blk } } := fun u k ordered absent =>
    @Ordered.refill { b with driver := u } k ordered absent fun _ => { blk }
  unfold allocVhdBitmap takeBitmap
  rw [Program.wp_bind, Program.wp_bind, Program.wp_get]
  cases unused : b.driver.bitmapFree with
  | cons k rest =>
      dsimp only
      rw [Program.wp_bind, Program.wp_set, Program.wp_pure]
      dsimp only
      rw [Program.wp_bind, Program.wp_modify, Program.wp_pure]
      have kept : Ordered { b with driver := { b.driver with bitmapFree := rest } } :=
        ordered.less (fun _ _ same => same)
          (fun j member => ordered.free j (unused ▸ List.mem_cons_of_mem k member)) (fun _ _ => rfl) rfl
      exact fill _ k kept (ordered.free k (unused ▸ List.mem_cons_self))
  | nil =>
      dsimp only
      unfold removeLruBitmap
      rw [Program.wp_bind, Program.wp_get]
      rcases found : b.driver.lruSlot.1 with _ | ⟨slot, k⟩
      · exact ordered
      · dsimp only
        rw [Program.wp_bind, Program.wp_set, Program.wp_bind, wp_assert]
        refine ⟨fun _ => ?_, fun _ => trivial⟩
        rw [Program.wp_pure]
        dsimp only
        rw [Program.wp_bind, Program.wp_modify, Program.wp_pure]
        obtain ⟨less, gone⟩ := ordered.emptied (lruSlot_slot found) rfl
        have kept : Ordered
            { b with driver := { b.driver with bitmap := Function.update b.driver.bitmap slot none } } :=
          ordered.less less (fun j member => absurd (unused ▸ member) (List.not_mem_nil)) (fun _ _ => rfl) rfl
        exact fill _ k kept fun cached => cached.elim gone

theorem step_ordered {e : Event} (ordered : Ordered b) (fits : Fits b.driver e) (action : step b e = some c) :
    Ordered c := by
  cases e with
  | touch i =>
      change (if _ then _ else none) = some c at action
      split at action
      case isTrue cached =>
        obtain ⟨t, touched, rfl⟩ := Option.map_eq_some_iff.mp action
        unfold after at touched
        rw [touchBitmap_eq] at touched
        cases touched
        exact ordered.touch fits cached
      case isFalse => cases action
  | alloc blk =>
      obtain ⟨t, taken, rfl⟩ := Option.map_eq_some_iff.mp action
      exact ordered.alloc taken
  | install i =>
      change (if _ then none else _) = some c at action
      split at action
      case isTrue => cases action
      case isFalse absent =>
        obtain ⟨t, installed, rfl⟩ := Option.map_eq_some_iff.mp action
        exact ordered.install fits absent installed
  | free i =>
      obtain ⟨t, freed, rfl⟩ := Option.map_eq_some_iff.mp action
      exact ordered.release freed
  | lock i =>
      cases action
      exact ordered.less (fun _ _ same => same) ordered.free (fun j _ => seqno_setBitmap b.driver _ j fun _ => rfl) rfl
  | unlock i =>
      cases action
      exact ordered.less (fun _ _ same => same) ordered.free (fun j _ => seqno_setBitmap b.driver _ j fun _ => rfl) rfl

end Steps

section Runs

def Fresh (s : VhdState) : Prop := (∀ slot, s.bitmap slot = none) ∧ s.bmLru = 0

def Book.start (s : VhdState) : Book := ⟨s, 0, fun _ => 0⟩

theorem Fresh.ordered {s : VhdState} (fresh : Fresh s) : Ordered (.start s) := by
  have none : ∀ i, ¬ Cached s i := fun i cached => cached.elim fun slot here => by
    rw [fresh.1 slot] at here
    cases here
  refine ⟨fun slot slot' i first _ => absurd ⟨slot, first⟩ (none i), fun i _ => none i,
    fun i _ first _ => absurd first (none i), fun i first => absurd first (none i), ?_,
    fun i first => absurd first (none i), fun i _ first _ => absurd first (none i)⟩
  change s.bmLru ≤ _
  rw [fresh.2]
  exact Nat.zero_le _

/-- In every state of a run whose steps fit, the next one evicts the bitmap touched longest ago and keeps the order of
the ages exactly when it fits too. -/
theorem lru_right {s : VhdState} (fresh : Fresh s) {b : Book}
    (run : Run step (fun b e => Fits b.driver e) (.start s) b) (e : Event) : b.Right e ↔ Fits b.driver e := by
  have ordered : Ordered b :=
    run.invariant (fun _ _ _ ordered fits action => step_ordered ordered fits action) fresh.ordered
  cases e with
  | touch i => exact rescaleKeeps_iff ordered
  | install i => exact rescaleKeeps_iff ordered
  | alloc blk => exact imp_congr_right fun _ => evictsOldest_iff ordered
  | free i => exact Iff.rfl
  | lock i => exact Iff.rfl
  | unlock i => exact Iff.rfl

def emptyCache : VhdState where
  vhd := ⟨⟨0, fun _ => 0⟩, .dynamic, 0, 0, 0, 0, false⟩
  prealloc := false
  spp := 8
  spb := 4096

def firstBitmap : BitmapIndex := ⟨0, by decide⟩

def oneBitmap : VhdState :=
  { stamped emptyCache firstBitmap with bitmap := Function.update emptyCache.bitmap firstBitmap (some firstBitmap) }

theorem oneBitmap_step : step (.start emptyCache) (.install firstBitmap) =
    some ((Book.start emptyCache).touch firstBitmap oneBitmap) := rfl

theorem oneBitmap_fits : Fits emptyCache (.install firstBitmap) := fun limit => absurd limit (by decide)

theorem oneBitmap_right : ((Book.start emptyCache).touch firstBitmap oneBitmap).Right (.touch firstBitmap) ↔
    Fits oneBitmap (.touch firstBitmap) :=
  lru_right ⟨fun _ => rfl, rfl⟩ (.single oneBitmap_fits oneBitmap_step) (.touch firstBitmap)

theorem newest_kept : ∃ b, Run step (fun _ _ => True) (.start emptyCache) b ∧ ¬ b.Right (.alloc 1) := by
  have start : Ordered (.start emptyCache) := Fresh.ordered ⟨fun _ => rfl, rfl⟩
  have ordered := step_ordered start oneBitmap_fits oneBitmap_step
  refine ⟨_, .single trivial oneBitmap_step, fun right => ?_⟩
  have cached : ∀ i, Cached oneBitmap i → i = firstBitmap := by
    rintro i ⟨slot, here⟩
    change Function.update emptyCache.bitmap firstBitmap (some firstBitmap) slot = some i at here
    rw [Function.update_apply] at here
    split at here <;> cases here
    rfl
  rcases (evictsOldest_iff ordered).mp (right rfl) with ⟨i, evictable, older⟩ | none
  · cases cached i evictable.1
    exact absurd older (by decide)
  · exact none firstBitmap ⟨⟨firstBitmap, rfl⟩, rfl⟩

end Runs

end Blktap.BlockVhd.Lru
