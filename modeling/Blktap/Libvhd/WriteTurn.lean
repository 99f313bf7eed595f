import Blktap.Libvhd.Allocate

/-! # A turn of the write loop -/

namespace Blktap.Libvhd
open Lib Action

theorem testBit_shifted {k j : Nat} (low : k < 8) (low' : j < 8) :
    ((0x80 : UInt8) >>> UInt8.ofNat k).toNat.testBit (7 - j) = decide (k = j) := by
  have each : ∀ k < 8, ∀ j < 8,
      ((0x80 : UInt8) >>> UInt8.ofNat k).toNat.testBit (7 - j) = decide (k = j) := by decide
  exact each k low j low'

theorem testBit_shifted_old {k j : Nat} (low : k < 8) (low' : j < 8) :
    ((1 : UInt8) <<< UInt8.ofNat k).toNat.testBit j = decide (k = j) := by
  have each : ∀ k < 8, ∀ j < 8,
      ((1 : UInt8) <<< UInt8.ofNat k).toNat.testBit j = decide (k = j) := by decide
  exact each k low j low'

theorem testBit_setBit (addr : Nat → UInt8) (n m : Nat) :
    testBit (setBit addr n) m = (testBit addr m || decide (n = m)) := by
  unfold testBit setBit
  by_cases byte : m / 8 = n / 8
  · rw [byte, Function.update_self, UInt8.toNat_or, Nat.testBit_or,
      testBit_shifted (Nat.mod_lt _ (by omega)) (Nat.mod_lt _ (by omega))]
    congr 1
    exact decide_eq_decide.mpr (by omega)
  · rw [Function.update_of_ne byte, decide_eq_false (by omega), Bool.or_false]

theorem oldTestBit_setBit (addr : Nat → UInt8) (n m : Nat) :
    oldTestBit (oldSetBit addr n) m = (oldTestBit addr m || decide (n = m)) := by
  unfold oldTestBit oldSetBit
  by_cases byte : m / 8 = n / 8
  · rw [byte, Function.update_self, UInt8.toNat_or, Nat.testBit_or,
      testBit_shifted_old (Nat.mod_lt _ (by omega)) (Nat.mod_lt _ (by omega))]
    congr 1
    exact decide_eq_decide.mpr (by omega)
  · rw [Function.update_of_ne byte, decide_eq_false (by omega), Bool.or_false]

theorem vhdBitmapTest_set (vhd : Vhd) (map : Nat → UInt8) (n m : Nat) :
    vhdBitmapTest vhd (vhdBitmapSet vhd map n) m = (vhdBitmapTest vhd map m || decide (n = m)) := by
  unfold vhdBitmapTest vhdBitmapSet
  split
  · exact oldTestBit_setBit map n m
  · exact testBit_setBit map n m

theorem vhdBitmapTest_sets (vhd : Vhd) (sec cnt : Nat) (map : Nat → UInt8) (m : Nat) :
    vhdBitmapTest vhd (vhdBitmapSets vhd sec cnt map) m =
      (vhdBitmapTest vhd map m || decide (sec ≤ m ∧ m < sec + cnt)) := by
  unfold vhdBitmapSets
  induction cnt with
  | zero => simp [show ¬ (sec ≤ m ∧ m < sec) by omega]
  | succ cnt ih =>
      rw [List.range_succ, List.foldl_append, List.foldl_cons, List.foldl_nil, vhdBitmapTest_set, ih,
        Bool.or_assoc]
      congr 1
      rw [← Bool.decide_or]
      exact decide_eq_decide.mpr (by omega)

structure Handle.Stores (block : Nat) (s t : Handle) : Prop where
  fields : t = { s with file := t.file, batmap := t.batmap, faults := t.faults }
  edit : s.toContext.Edit block t.toContext
  table : ∀ p, s.inTableArea p → t.file.byte p = s.file.byte p

section Stores
variable {s t u : Handle} {block : Nat}

theorem Handle.Stores.writes (stores : s.Stores block t) : s.Writes block t := by
  refine ⟨?_, stores.edit⟩
  rw [stores.fields]

theorem Handle.Stores.trans (first : s.Stores block t) (second : t.Stores block u)
    (laid : s.toContext.Laid) : s.Stores block u := by
  refine ⟨?_, first.edit.trans second.edit laid, fun p inside => ?_⟩
  · rw [second.fields, first.fields]
  · rw [second.table p (by rw [first.fields]; exact inside), first.table p inside]

theorem Handle.Stores.entry (stores : s.Stores block t) (laid : s.toContext.Laid) {other : Nat}
    (bound : other < s.maxBatSize) : t.entry other = s.entry other := by
  apply Vhd.entry_congr
  · rw [stores.fields]
  · intro i small
    exact stores.table _ (laid.inTable bound (Nat.le_add_right _ i) (by omega))

theorem Handle.Stores.allocated_iff (stores : s.Stores block t) (laid : s.toContext.Laid)
    {other : Nat} : t.allocated other ↔ s.allocated other := by
  have max : t.maxBatSize = s.maxBatSize := by rw [stores.fields]
  unfold Vhd.allocated
  rw [max]
  refine and_congr_right fun bound => ?_
  rw [stores.entry laid bound]

theorem Handle.Stores.sameTable (stores : s.Stores block t) (laid : s.toContext.Laid) :
    t.toVhd.table = s.toVhd.table := by
  have fits := laid.loaded_le
  apply Vhd.table_congr
  · rw [stores.fields]
  · exact fun k small => stores.table _ ⟨Nat.le_add_right _ _, by omega⟩

theorem Handle.Stores.inUse (stores : s.Stores block t) (laid : s.toContext.Laid) :
    t.tableInUse = s.tableInUse := by
  have bat : t.bat = s.bat := by rw [stores.fields]
  unfold Handle.tableInUse
  rw [bat, stores.sameTable laid]

theorem Handle.Stores.ready (stores : s.Stores block t) (laid : s.toContext.Laid)
    (ready : s.Ready) (map : s.batmap.isSome = true → t.batmap.isSome = true) : t.Ready := by
  refine ⟨?_, fun has => map (ready.map ?_)⟩
  · rw [stores.inUse laid, ← ready.table, stores.fields]
  · rwa [stores.edit.hasBatmap laid] at has

theorem Handle.Stores.dataEnd (stores : s.Stores block t) (laid : s.toContext.Laid) :
    t.dataEnd = s.dataEnd := by
  have ends : ∀ headers bat, t.endOfExtents headers bat = s.endOfExtents headers bat := by
    intro headers bat
    rw [stores.fields]
    rfl
  unfold Handle.dataEnd
  rw [stores.inUse laid, ends, stores.edit.headers laid]

theorem Handle.Stores.room (stores : s.Stores block t) (laid : s.toContext.Laid) (room : s.Room) :
    t.Room := by
  have last := stores.dataEnd laid
  have bm : t.bmSecs = s.bmSecs := by rw [stores.fields]; rfl
  have spb : t.spb = s.spb := by rw [stores.fields]; rfl
  constructor
  · intro other allocated
    have before := (stores.allocated_iff laid).mp allocated
    rw [stores.entry laid before.1, bm, spb, last]
    exact room.extents other before
  · intro looks
    rw [last]
    rw [stores.fields] at looks ⊢
    exact room.marker looks

theorem Handle.Stores.own (stores : s.Stores block t) (laid : s.toContext.Laid)
    (bound : block < s.maxBatSize) : t.allocated block → ∀ p, t.inExtent block p →
      ¬ s.inMetadata p ∧ ∀ other, other ≠ block → s.allocated other → ¬ s.inExtent other p :=
  laid.own (by rw [stores.fields]) (stores.entry laid bound)

theorem Handle.Stores.sound (stores : s.Stores block t) (sound : s.Sound) (disk : t.SoundDisk) :
    t.Sound := by
  refine ⟨disk, ?_⟩
  rw [stores.inUse sound.laid, sound.table, stores.sameTable sound.laid]

end Stores

section Extent
variable {s t : Handle} {block off size : Nat} {data : Nat → UInt8}

theorem Handle.stores_extent (laid : s.toContext.Laid) (allocated : s.allocated block)
    (low : s.entry block * 512 ≤ off)
    (high : off + size ≤ (s.entry block + s.bmSecs + s.spb) * 512)
    {faults : List (Option Fault)} : s.Stores block ({ s with faults }.put off size data) := by
  have inside : ∀ p, off ≤ p → p < off + size → s.inExtent block p :=
    fun p first last => ⟨by omega, by omega⟩
  refine ⟨rfl, laid.edit fun p first last => .inr ?_, fun p table => ?_⟩
  · have apart := laid.extent block allocated p (inside p first last)
    refine ⟨fun table => absurd (.inr (.inl table)) apart, fun other different allocated' => ?_,
      fun looks header => ?_⟩
    · exact laid.disjoint block other allocated allocated' (Ne.symm different) p
        (inside p first last)
    · exact apart (.inr (.inr (.inl ⟨looks, header.1, by omega⟩)))
  · apply Context.put_kept laid
    intro first last
    exact absurd (.inr (.inl table)) (laid.extent block allocated p (inside p first last))

theorem Handle.extent_map (laid : s.toContext.Laid) (allocated : s.allocated block)
    (low : s.entry block * 512 ≤ off)
    (high : off + size ≤ (s.entry block + s.bmSecs + s.spb) * 512)
    {faults : List (Option Fault)} (has : s.hasBatmap = true) {p : Nat} (inside : s.inBatmap p) :
    ({ s with faults }.put off size data).file.byte p = s.file.byte p := by
  apply Context.put_kept laid
  intro first last
  exact absurd (.inr (.inr (.inr ⟨has, inside⟩)))
    (laid.extent block allocated p ⟨by omega, by omega⟩)

end Extent

def Vhd.inTurn (vhd : Vhd) (block sec cnt sector : Nat) : Prop :=
  sector / vhd.spb = block ∧ sec ≤ sector % vhd.spb ∧ sector % vhd.spb < sec + cnt

def Vhd.Carries (vhd : Vhd) (block sec cnt : Nat) (buf : Nat → UInt8) : Prop :=
  ∀ nr o, sec ≤ nr → nr < sec + cnt → o < 512 →
    vhd.file.byte ((vhd.entry block + vhd.bmSecs + nr) * 512 + o) = buf ((nr - sec) * 512 + o)

def Vhd.Spares (vhd vhd' : Vhd) (written : Nat → Prop) : Prop :=
  ∀ sector o, ¬ written sector → o < 512 → vhd'.content sector o = vhd.content sector o

section Data
variable {s t u : Handle} {block sec cnt : Nat} {buf : Nat → UInt8}

theorem Vhd.content_own {vhd : Vhd} {sector o : Nat} (dynamic : vhd.typeDynamic = true)
    (allocated : vhd.allocated (sector / vhd.spb)) : vhd.content sector o =
      if sector * 512 < vhd.currSize ∧
        vhd.marks (vhd.entry (sector / vhd.spb)) (sector % vhd.spb) = true
      then some (vhd.file.byte
        ((vhd.entry (sector / vhd.spb) + vhd.bmSecs + sector % vhd.spb) * 512 + o))
      else none := by
  simp [Vhd.content, Vhd.holds, Vhd.position, dynamic, allocated]

theorem Handle.Stores.spares (stores : s.Stores block t) (sound : s.SoundDisk)
    (allocated : s.allocated block) {written : Nat → Prop}
    (marks : ∀ nr < s.spb, ¬ written (block * s.spb + nr) →
      t.marks (s.entry block) nr = s.marks (s.entry block) nr)
    (data : ∀ nr < s.spb, ¬ written (block * s.spb + nr) → ∀ o < 512,
      t.file.byte ((s.entry block + s.bmSecs + nr) * 512 + o) =
        s.file.byte ((s.entry block + s.bmSecs + nr) * 512 + o)) :
    s.toVhd.Spares t.toVhd written := by
  intro sector o apart small
  have spb : t.spb = s.spb := by rw [stores.fields]; rfl
  have bm : t.bmSecs = s.bmSecs := by rw [stores.fields]; rfl
  have size : t.currSize = s.currSize := by rw [stores.fields]
  have type : t.typeDynamic = s.typeDynamic := by rw [stores.fields]; rfl
  have dynamic := sound.laid.dynamic
  by_cases here : sector / s.spb = block
  · subst here
    have inside := Nat.mod_lt sector (Vhd.spb_pos sound.laid.blockSize)
    have place : sector / s.spb * s.spb + sector % s.spb = sector := Nat.div_add_mod' _ _
    have apart' : ¬ written (sector / s.spb * s.spb + sector % s.spb) := by rwa [place]
    have allocated' : t.allocated (sector / t.spb) := by
      rw [spb]
      exact (stores.allocated_iff sound.laid).mpr allocated
    rw [Vhd.content_own (type.trans dynamic) allocated', Vhd.content_own dynamic allocated, spb, bm,
      size, stores.entry sound.laid allocated.1, marks _ inside apart', data _ inside apart' o small]
  · exact stores.edit.content_other sound.laid here small

theorem Vhd.inTurn_at {vhd : Vhd} (positive : 0 < vhd.spb) {nr : Nat} (small : nr < vhd.spb) :
    vhd.inTurn block sec cnt (block * vhd.spb + nr) ↔ sec ≤ nr ∧ nr < sec + cnt := by
  unfold Vhd.inTurn
  rw [Nat.mul_comm, Nat.mul_add_div positive, Nat.mul_add_mod, Nat.div_eq_of_lt small,
    Nat.mod_eq_of_lt small]
  simp

theorem wp_writeSectors (sound : s.Sound) (allocated : s.allocated block)
    (inside : sec + cnt ≤ s.spb) :
    wp (vhdWrite ((s.entry block + s.bmSecs + sec) * 512) (cnt * 512) buf)
      (fun _ t => s.Stores block t ∧ t.Sound ∧ t.batmap = s.batmap ∧
        t.Carries block sec cnt buf ∧ s.toVhd.Spares t.toVhd (s.inTurn block sec cnt))
      (fun _ t => s.Stores block t ∧ t.SoundDisk ∧
        s.toVhd.Spares t.toVhd (s.inTurn block sec cnt)) s := by
  have positive := Vhd.spb_pos sound.laid.blockSize
  have fitsBitmap := Vhd.spb_le sound.laid.blockSize
  have each : ∀ faults n, n ≤ cnt * 512 →
      s.Stores block ({ s with faults }.put ((s.entry block + s.bmSecs + sec) * 512) n buf) ∧
      ({ s with faults }.put ((s.entry block + s.bmSecs + sec) * 512) n buf).SoundDisk ∧
      s.toVhd.Spares ({ s with faults }.put ((s.entry block + s.bmSecs + sec) * 512) n buf).toVhd
        (s.inTurn block sec cnt) := by
    intro faults n part
    have stores : s.Stores block
        ({ s with faults }.put ((s.entry block + s.bmSecs + sec) * 512) n buf) :=
      Handle.stores_extent sound.laid allocated (by omega) (by omega)
    have outside : ∀ p, ¬ ((s.entry block + s.bmSecs + sec) * 512 ≤ p ∧
        p < (s.entry block + s.bmSecs + sec) * 512 + n) →
        ({ s with faults }.put ((s.entry block + s.bmSecs + sec) * 512) n buf).file.byte p =
          s.file.byte p := fun p apart => File.put_outside sound.laid.past apart
    have marks : ∀ nr < s.spb,
        ({ s with faults }.put ((s.entry block + s.bmSecs + sec) * 512) n buf).marks
          (s.entry block) nr = s.marks (s.entry block) nr := by
      intro nr small
      apply Vhd.marks_congr
      · rfl
      · exact outside _ (by omega)
    refine ⟨stores, ?_, ?_⟩
    · apply sound.toSoundDisk.writes stores.writes (stores.own sound.laid allocated.1)
      · rintro ⟨_, full⟩
        refine ⟨(stores.allocated_iff sound.laid).mpr allocated, fun nr small => ?_⟩
        rw [stores.entry sound.laid allocated.1, marks nr small]
        exact full nr small
      · exact fun has p map => Handle.extent_map sound.laid allocated (by omega) (by omega) has map
      · rfl
    · apply stores.spares sound.toSoundDisk allocated
      · exact fun nr small _ => marks nr small
      · intro nr small apart o bound
        rw [Vhd.inTurn_at positive small] at apart
        exact outside _ (by omega)
  apply wp_vhdWrite
  · intro faults _
    obtain ⟨stores, disk, spares⟩ := each faults _ (Nat.le_refl _)
    refine ⟨stores, stores.sound sound disk, rfl, fun nr o low high small => ?_, spares⟩
    rw [stores.entry sound.laid allocated.1]
    refine (File.put_inside ?_ ?_).trans ?_
    · change (s.entry block + s.bmSecs + sec) * 512 ≤ (s.entry block + s.bmSecs + nr) * 512 + o
      omega
    · change (s.entry block + s.bmSecs + nr) * 512 + o < _
      omega
    · congr 1
      change (s.entry block + s.bmSecs + nr) * 512 + o - _ = _
      omega
  · exact fun faults code n part _ => each faults n part

def Context.Covers (ctx : Context) (block : Nat) : Prop :=
  ctx.hasBatmap = true → block < ctx.batmapHeader.batmapSize * 2 ^ 12 % 2 ^ 32 →
    block / 8 < ctx.batmapBytes ∧ block < 2 ^ 31

theorem Context.Covers.edit {ctx ctx' : Context} {other : Nat} (covers : ctx.Covers other)
    (edit : ctx.Edit block ctx') (laid : ctx.Laid) : ctx'.Covers other := by
  intro has inside
  rw [edit.hasBatmap laid] at has
  rw [edit.batmapHeader (Context.looks_of_has has)] at inside
  have bytes : ctx'.batmapBytes = ctx.batmapBytes := by rw [edit.fields]; rfl
  rw [bytes]
  exact covers has inside

theorem wp_batmapTest (sound : s.SoundDisk) (covers : s.Covers block) :
    wp (batmapTest block) (fun full t => t = s ∧ (full = true → s.full block))
      (fun _ _ => False) s := by
  unfold batmapTest
  simp only [wp_bind, wp_get, wp_ite, wp_pure]
  refine ⟨fun _ => by simp, fun _ => ?_⟩
  cases loaded : s.batmap with
  | none => simp
  | some batmap =>
      have ready := sound.memory batmap loaded
      unfold Batmap.test
      dsimp only
      by_cases inside : batmap.header.batmapSize * 2 ^ 12 % 2 ^ 32 ≤ block
      · rw [if_pos inside, wp_lift_ok]
        exact ⟨rfl, fun h => absurd h (by decide)⟩
      · have bound := covers ready.has (by rw [ready.header] at inside; exact Nat.not_le.mp inside)
        rw [if_neg inside, if_neg (by rw [ready.mapBytes]; omega)]
        exact ⟨rfl, ready.sound block bound.1⟩

structure Handle.Turn (block : Nat) (written : Nat → Prop) (s t : Handle) : Prop where
  writes : s.Writes block t
  disk : t.SoundDisk
  room : t.Room
  last : t.dataEnd ≤ if s.allocated block then s.dataEnd else s.nextEnd s.dataEnd
  spares : s.toVhd.Spares t.toVhd written

theorem Handle.Turn.stores {written : Nat → Prop} (turn : s.Turn block written t)
    (stores : t.Stores block u) (disk : u.SoundDisk) (spares : t.toVhd.Spares u.toVhd written)
    (laid : s.toContext.Laid) : s.Turn block written u := by
  refine ⟨turn.writes.trans stores.writes laid, disk, stores.room turn.disk.laid turn.room, ?_, ?_⟩
  · rw [stores.dataEnd turn.disk.laid]
    exact turn.last
  · intro sector o apart small
    rw [spares sector o apart small, turn.spares sector o apart small]

theorem Handle.Allocates.turn (allocates : s.Allocates block t) (sound : s.SoundDisk)
    (unused : ¬ s.allocated block) (written : Nat → Prop) : s.Turn block written t := by
  refine ⟨allocates.writes, allocates.disk, allocates.room, ?_, ?_⟩
  · rw [if_neg unused]
    exact allocates.last
  · exact fun sector o _ small => allocates.content sound unused small

theorem Handle.Turn.refl {written : Nat → Prop} (sound : s.SoundDisk) (room : s.Room)
    (allocated : s.allocated block) : s.Turn block written s := by
  refine ⟨⟨rfl, .refl sound.laid⟩, sound, room, ?_, fun _ _ _ _ => rfl⟩
  rw [if_pos allocated]

theorem wp_allocated (sound : s.Sound) (room : s.Room) (loaded : block < s.batEntries)
    (fits : ¬ s.allocated block → s.freeEntry < ddBlkUnused) (written : Nat → Prop)
    (ready : s.Ready) :
    wp (when (s.tableInUse.bat block = ddBlkUnused) (allocateBlock block))
      (fun _ t => s.Turn block written t ∧ t.Sound ∧ t.allocated block ∧ t.Ready)
      (fun _ t => s.Turn block written t) s := by
  have free := sound.laid.allocated_iff loaded
  rw [sound.table]
  simp only [wp_when]
  refine ⟨fun unused => ?_, fun used => ?_⟩
  · have unused : ¬ s.allocated block := fun allocated => free.mp allocated unused
    apply (wp_allocateBlock sound room loaded unused (fits unused)).mono
    · rintro _ t ⟨allocates, rest⟩
      exact ⟨allocates.turn sound.toSoundDisk unused written, rest⟩
    · exact fun _ t allocates => allocates.turn sound.toSoundDisk unused written
  · exact ⟨.refl sound.toSoundDisk room (free.mpr used), sound, free.mpr used, ready⟩

def Vhd.Unmarked (vhd : Vhd) (block : Nat) : Option (Nat → UInt8) → Prop
  | none => vhd.full block
  | some map => ∀ i, map i = vhd.file.byte (vhd.entry block * 512 + i)

theorem wp_writeData (sound : s.Sound) (room : s.Room) (loaded : block < s.batEntries)
    (inside : sec + cnt ≤ s.spb) (fits : ¬ s.allocated block → s.freeEntry < ddBlkUnused)
    (covers : s.Covers block) (ready : s.Ready) :
    wp (writeData block sec cnt buf)
      (fun map t => s.Turn block (s.inTurn block sec cnt) t ∧ t.Sound ∧ t.allocated block ∧
        t.Ready ∧ t.Carries block sec cnt buf ∧ t.Unmarked block map)
      (fun _ t => s.Turn block (s.inTurn block sec cnt) t) s := by
  have len : s.batEntries ≤ s.tableInUse.len := by
    rw [sound.table]
    exact table_len
  unfold writeData
  simp only [wp_bind, wp_get, wp_ite]
  rw [wp_loadedBat ready.table]
  refine ⟨fun short => absurd (len.trans short) (Nat.not_le.mpr loaded), fun _ => ?_⟩
  apply (wp_allocated sound room loaded fits (s.inTurn block sec cnt) ready).mono
  · rintro _ t ⟨turn, sound', allocated, ready'⟩
    have spb : t.spb = s.spb := by rw [turn.writes.fields]; rfl
    have entries : t.batEntries = s.batEntries := by rw [turn.writes.fields]; rfl
    have turnSectors : t.inTurn block sec cnt = s.inTurn block sec cnt := by
      unfold Vhd.inTurn
      rw [spb]
    have entry : t.tableInUse.bat block = t.entry block := by
      rw [sound'.table, table_entry (entries ▸ loaded)]
    rw [wp_loadedBat ready'.table, entry]
    apply (wp_writeSectors sound' allocated (spb ▸ inside)).mono
    · rintro _ u ⟨stores, soundData, batmap, carries, spares⟩
      have turn' := turn.stores stores soundData.toSoundDisk (turnSectors ▸ spares) sound.laid
      have allocated' := (stores.allocated_iff sound'.laid).mpr allocated
      have readyData := stores.ready sound'.laid ready' (by rw [batmap]; exact id)
      apply (wp_batmapTest soundData.toSoundDisk (covers.edit turn'.writes.edit sound.laid)).mono
      · rintro full u ⟨rfl, fullOf⟩
        refine ⟨fun full => ⟨turn', soundData, allocated', readyData, carries, fullOf full⟩,
          fun _ => ?_⟩
        unfold vhdReadBitmap
        have entryData : t.tableInUse.bat block = u.entry block := by
          rw [entry, stores.entry sound'.laid allocated.1]
        have entriesData : t.tableInUse.entries = s.batEntries := by
          rw [sound'.table]
          exact entries
        rw [if_neg (by simp [soundData.laid.dynamic]), entriesData,
          if_neg (Nat.not_le.mpr loaded), entryData, if_neg allocated'.2]
        apply wp_lift (File.read_defined _ _ _)
        · intro map action
          refine ⟨turn', soundData, allocated', readyData, carries, fun i => ?_⟩
          rw [File.read_eq action]
        · exact fun _ _ => turn'
      · exact fun _ _ h => h.elim
    · rintro _ u ⟨stores, disk, spares⟩
      exact turn.stores stores disk (turnSectors ▸ spares) sound.laid
  · exact fun _ t turn => turn

end Data

end Blktap.Libvhd
