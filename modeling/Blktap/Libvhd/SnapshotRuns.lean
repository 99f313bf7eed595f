import Blktap.Libvhd.CreateRuns
import Blktap.Libvhd.SnapshotReads

/-!
# Which snapshots show their parent
-/

namespace Blktap.Libvhd
open Lib Action

structure Snapped (t : Handle) (parent : Backing) (bytes mbytes : UInt64) : Prop where
  root : ∃ texts stamp origin, t.Made texts ∧ t.Rooted stamp origin ∧
    ((∀ i < 16, origin.uuid i = 0) ↔ parent.isRaw = true)
  size : t.currSize =
    if bytes ≠ 0 ∧ (mbytes ≠ 0 ∨ roundUp bytes.toNat ≠ 0) then roundUp bytes.toNat else parent.size
  large : bytes = 0 ∨ mbytes = 0 → parent.size ≤ t.currSize
  covered : t.currSize ≤ t.maxBatSize * 2 ^ 21

section Create
variable {dest : Destination} {bytes mbytes : UInt64} {parent : Backing} {raw : Bool} {t : Handle}

theorem roundUp_zero : roundUp 0 = 0 := rfl

theorem found_ok {found : Parent} {image : UInt64 × (Nat → UInt8)} (declared : raw = true → parent.isRaw = true)
    (taken : parent.found = .ok found)
    (opened : (if raw then .ok (found.fileSize, fun _ => 0) else found.image) = .ok image)
    (real : image.1.toNat < 2 ^ 63) :
    image.1.toNat = parent.size ∧ ((∀ i < 16, image.2 i = 0) ↔ parent.isRaw = true) := by
  unfold Backing.found at taken
  obtain ⟨time, -, taken⟩ := Outcome.bind_eq_ok.mp taken
  cases taken
  cases raw with
  | true =>
      have isRaw := declared rfl
      cases parent with
      | base image' other => cases isRaw
      | differ image' diff parent => cases isRaw
      | raw stored =>
          cases opened
          refine ⟨?_, fun _ => rfl, fun _ _ _ => rfl⟩
          rcases stored.sized with size | failed
          · exact size
          · have real : stored.fileSize.toNat < 2 ^ 63 := real
            omega
  | false =>
      have known : ∀ stored : StoredVhd,
          (UInt64.ofNat stored.vhd.currSize).toNat = stored.vhd.currSize ∧
            ((∀ i < 16, stored.uuid i = 0) ↔ False) := by
        intro stored
        refine ⟨?_, fun null => ?_, False.elim⟩
        · rw [UInt64.toNat_ofNat']
          exact Nat.mod_eq_of_lt stored.fits
        · obtain ⟨i, small, set⟩ := stored.generated
          exact set (null i small)
      cases parent with
      | raw stored => cases opened
      | base stored other =>
          cases opened
          exact ⟨(known stored).1, (known stored).2.trans (by simp [Backing.isRaw])⟩
      | differ stored diff parent =>
          cases opened
          exact ⟨(known stored).1, (known stored).2.trans (by simp [Backing.isRaw])⟩

theorem vhdSnapshot_snapped (declared : raw = true → parent.isRaw = true)
    (created : vhdSnapshot dest bytes parent mbytes raw = .ok t) : Snapped t parent bytes mbytes := by
  obtain ⟨type, made, u, known, contents, ends⟩ := vhdCreate_ok created
  obtain ⟨r, r_eq⟩ : ∃ r, r = snapshotRequest dest bytes parent mbytes raw := ⟨_, rfl⟩
  rw [← r_eq] at known contents ends
  have diff : type = .diff := by
    rw [r_eq] at known
    exact (Option.some.inj known).symm
  subst diff
  obtain ⟨h, v, texts, faults, assembly⟩ := create_assembly known (by decide) contents ends
  obtain ⟨found, image, taken, opened, psize, uuid, headed, noLess⟩ :=
    vhdInitializeHeader_parent (initialized_type r.size) assembly.initialized
  have madeSize : r.madeSize = if r.size = 0 then image.1.toNat else r.size :=
    (congrArg (fun h : Handle => h.currSize) assembly.header).symm.trans
      (congrArg (fun h : Handle => h.currSize) headed)
  rw [← madeSize] at noLess
  have blocks : h.maxBatSize = blocksUp r.madeSize % 2 ^ 32 := by
    rw [assembly.header]
    rfl
  have entries : t.maxBatSize = h.maxBatSize := by
    rw [assembly.last]
    rfl
  have small := assembly.made.small
  have covers := assembly.covers
  have bound := r.madeSize_lt
  -- no block number is cut off, so that the table is one for all of the disk
  have whole : r.madeSize ≤ t.maxBatSize * 2 ^ 21 := by
    rw [entries, blocks] at small ⊢
    rw [blocks] at covers
    unfold blocksUp vhdBlockShift at covers small ⊢
    omega
  obtain ⟨size, null⟩ := found_ok declared (by rw [← taken, r_eq]; rfl)
    (by rw [← opened, r_eq]; rfl) (by omega)
  rw [size] at madeSize noLess
  have rounded : r.size = roundUp (if mbytes ≠ 0 then mbytes.toNat else bytes.toNat) := by
    rw [r_eq]
    rfl
  have end_eq : t.currSize =
      if mbytes = 0 then r.madeSize else if bytes ≠ 0 then roundUp bytes.toNat else parent.size := by
    have current : t.currSize = r.endSize image.1.toNat r.madeSize := by
      rw [← psize, assembly.psize, assembly.last]
      rfl
    rw [current, size, r_eq]
    rfl
  have fits := assembly.made.covers
  refine ⟨⟨texts, dest.stamp, made.2, assembly.made, assembly.rooted, by rw [uuid]; exact null⟩,
    ?_, ?_, ?_⟩
  · rw [end_eq]
    by_cases plain : mbytes = 0
    · rw [if_neg (not_not.mpr plain)] at rounded
      rw [if_pos plain, madeSize, rounded]
      by_cases none_ : roundUp bytes.toNat = 0
      · simp [none_, plain]
      · have asked : bytes ≠ 0 := by
          rintro rfl
          exact none_ roundUp_zero
        simp [none_, asked]
    · simp [plain]
  · intro plain
    rw [end_eq]
    split
    · exact noLess
    · rename_i given
      rw [if_neg (not_not.mpr (plain.resolve_right given))]
  · rw [end_eq] at fits ⊢
    split at fits
    · rw [if_pos ‹_›]
      exact whole
    · rename_i given
      rw [if_neg given]
      split at fits
      · rw [if_pos ‹_›]
        unfold roundUp vhdBlockShift at fits ⊢
        omega
      · rw [if_neg ‹_›]
        omega

end Create

structure Chain.Shows (chain : Chain) (parent : Backing) : Prop where
  large : parent.size ≤ chain.top.currSize
  covered : chain.top.currSize ≤ chain.top.maxBatSize * 2 ^ 21
  same : ∀ sector buf, (sector + 1) * 512 ≤ parent.size → parent.read sector = .ok buf →
    ∃ shown, vhdIoRead chain sector 1 = .ok shown ∧ ∀ o < 512, shown o = buf o

def Backing.Reads (backing : Backing) (sector : Nat) : Prop :=
  (sector + 1) * 512 ≤ backing.size ∧ (backing.read sector).isOk = true

def slotInside (size sector : Nat) : Prop :=
  size / 2 ^ 21 = 0 ∨ ¬ 128 ∣ size / 2 ^ 21 ∨ sector / 4096 < size / 2 ^ 21

structure Backing.Suits (parent : Backing) (bytes mbytes : UInt64) : Prop where
  size : bytes ≠ 0 → mbytes ≠ 0 → parent.size ≤ roundUp bytes.toNat
  slots : roundUp bytes.toNat = 0 → ∀ sector, parent.Reads sector → slotInside parent.size sector
  dynamic : parent.isFixed = true → ∀ sector, ¬ parent.Reads sector

section Shows
variable {t : Handle} {parent backing target : Backing} {bytes mbytes : UInt64} {sector : Nat}
  {buf : Nat → UInt8}

theorem header_uuid {ctx : Context} {origin : ParentStamp} {header : Nat → UInt8}
    (same : ∀ p < 1024, header p = sealHeader (headerOut ctx origin) p) {i : Nat} (small : i < 16) :
    header (40 + i) = origin.uuid i := by
  have found := record_place
    [(8, fun p => headerCookie.getD p 0), double (2 ^ 64 - 1), double ctx.tableOffset,
      word 0x00010000, word ctx.maxBatSize, word ctx.blockSize, word 0] 16 origin.uuid
    [word origin.time, word 0, (512, fun p => origin.name.getD p 0),
      (192, fun p => locatorOut (ctx.loc.getD (p / 24) .unused) (p % 24))] small
  rw [same _ (by omega), ← found]
  exact if_neg (by omega)

theorem Snapped.linked (snapped : Snapped t parent bytes mbytes) :
    parent.linked t.file = .ok (parent.under t.toVhd) := by
  obtain ⟨texts, stamp, origin, made, rooted, null⟩ := snapped.root
  obtain ⟨header, read, same⟩ := rooted.readHeader
  have raw : vhdParentRaw header = true ↔ parent.isRaw = true := by
    unfold vhdParentRaw
    rw [← null, List.all_eq_true]
    constructor
    · intro all i small
      rw [← header_uuid same small]
      simpa using all i (List.mem_range.mpr small)
    · intro all i member
      have small := List.mem_range.mp member
      simpa [header_uuid same small] using all i small
  unfold Backing.linked
  rw [rooted.opens made, Outcome.ok_bind, made.dataOffset, read, Outcome.ok_bind]
  cases parent with
  | raw stored =>
      rw [if_pos (raw.mpr rfl)]
      rfl
  | base image other =>
      rw [if_neg (fun isRaw => Bool.false_ne_true (raw.mp isRaw))]
      rfl
  | differ image diff parent =>
      rw [if_neg (fun isRaw => Bool.false_ne_true (raw.mp isRaw))]
      rfl

theorem Snapped.read (snapped : Snapped t parent bytes mbytes)
    (inside : (sector + 1) * 512 ≤ t.currSize) :
    (slotInside t.currSize sector → vhdIoRead (parent.under t.toVhd) sector 1 =
      parent.rest sector .fresh >>= fun dest => .ok dest.buf) ∧
    (¬ slotInside t.currSize sector → vhdIoRead (parent.under t.toVhd) sector 1 = .undefined) := by
  obtain ⟨texts, stamp, origin, made, rooted, null⟩ := snapped.root
  obtain ⟨bat, read, entries, len, unused⟩ := rooted.readBat made
  have covered := snapped.covered
  have small := made.small
  have spb : t.spb = 4096 := by
    unfold Vhd.spb
    rw [made.blockSize]
    rfl
  have slot : t.slot sector = sector / 4096 := by
    unfold Vhd.slot
    rw [spb]
    omega
  have words : bat.len = secsRoundUpNoZero (t.currSize / 2 ^ 21 * 4) * 128 := by
    rw [len]
    unfold vhdBytesPadded
    omega
  have room : slotInside t.currSize sector ↔ t.slot sector < bat.len := by
    rw [slot, words]
    unfold slotInside secsRoundUpNoZero secsRoundUp
    split <;> omega
  rw [room, vhdIoRead_one (by rw [under_top]; exact inside) (by rw [under_top]; exact made.dynamic),
    under_top, read, Outcome.ok_bind, under_read]
  unfold readLayer
  rw [read, Outcome.ok_bind]
  refine ⟨fun low => ?_, fun high => ?_⟩
  · rw [readLink_unused (by rw [spb]; decide) low (unused _ (by omega) low), Outcome.ok_bind, done_one,
      if_neg (show ¬ Dest.fresh.map 0 = true from Bool.false_ne_true)]
  · rw [readLink_outside (Nat.le_of_not_lt high)]
    rfl

theorem Snapped.shown (snapped : Snapped t parent bytes mbytes)
    (inside : (sector + 1) * 512 ≤ t.currSize) (slot : slotInside t.currSize sector)
    (reads : ∃ r, parent.rest sector .fresh = .ok r ∧ ∀ o < 512, r.buf o = buf o) :
    ∃ shown, vhdIoRead (parent.under t.toVhd) sector 1 = .ok shown ∧ ∀ o < 512, shown o = buf o := by
  obtain ⟨r, rest, same⟩ := reads
  refine ⟨r.buf, ?_, same⟩
  rw [(snapped.read inside).1 slot, rest]
  rfl

theorem roundUp_slot {size : Nat} (positive : roundUp size ≠ 0)
    (inside : (sector + 1) * 512 ≤ roundUp size) : slotInside (roundUp size) sector := by
  refine .inr (.inr ?_)
  unfold roundUp vhdBlockShift at *
  omega

theorem Snapped.shows_iff (snapped : Snapped t parent bytes mbytes) :
    (∃ chain, parent.linked t.file = .ok chain ∧ chain.Shows parent) ↔ parent.Suits bytes mbytes := by
  have size := snapped.size
  have linked := snapped.linked
  constructor
  · rintro ⟨chain, same, shows⟩
    rw [linked] at same
    cases same
    have large := shows.large
    rw [under_top] at large
    refine ⟨fun asked given => ?_, fun none_ sector reads => ?_, fun fixed sector reads => ?_⟩
    · rwa [size, if_pos ⟨asked, .inl given⟩] at large
    · by_contra outside
      obtain ⟨inside, ok⟩ := reads
      obtain ⟨buf, read⟩ := Outcome.isOk_iff.mp ok
      have current : t.currSize = parent.size := by
        by_cases both : bytes ≠ 0 ∧ (mbytes ≠ 0 ∨ roundUp bytes.toNat ≠ 0)
        · rw [if_pos both, none_] at size
          omega
        · rwa [if_neg both] at size
      obtain ⟨shown, failed, -⟩ := shows.same sector buf inside read
      rw [(snapped.read (current ▸ inside)).2 (current ▸ outside)] at failed
      cases failed
    · obtain ⟨inside, ok⟩ := reads
      obtain ⟨buf, read⟩ := Outcome.isOk_iff.mp ok
      obtain ⟨shown, failed, -⟩ := shows.same sector buf inside read
      by_cases slot : slotInside t.currSize sector
      · rw [(snapped.read (inside.trans large)).1 slot, Backing.rest_fixed fixed] at failed
        cases failed
      · rw [(snapped.read (inside.trans large)).2 slot] at failed
        cases failed
  · intro suits
    have large : parent.size ≤ t.currSize := by
      by_cases plain : bytes = 0 ∨ mbytes = 0
      · exact snapped.large plain
      · rw [not_or] at plain
        rw [size, if_pos ⟨plain.1, .inl plain.2⟩]
        exact suits.size plain.1 plain.2
    refine ⟨_, linked, by rw [under_top]; exact large, by rw [under_top]; exact snapped.covered, ?_⟩
    intro sector buf inside read
    have reads : parent.Reads sector := ⟨inside, Outcome.isOk_iff.mpr ⟨buf, read⟩⟩
    have dynamic : parent.isFixed = false := by
      by_contra fixed
      exact suits.dynamic (by simpa using fixed) sector reads
    have slot : slotInside t.currSize sector := by
      by_cases none_ : roundUp bytes.toNat = 0
      · by_cases both : bytes ≠ 0 ∧ (mbytes ≠ 0 ∨ roundUp bytes.toNat ≠ 0)
        · rw [if_pos both, none_] at size
          omega
        · rw [size, if_neg both]
          exact suits.slots none_ sector reads
      · have asked : bytes ≠ 0 := by
          rintro rfl
          exact none_ roundUp_zero
        rw [if_pos ⟨asked, .inr none_⟩] at size
        rw [size]
        exact roundUp_slot none_ (by omega)
    exact snapped.shown (inside.trans large) slot (Backing.rest_of_read dynamic read)

theorem Snapped.shows_passed (found : vhdUtilFindSnapshotTarget parent = .ok target)
    (empty : parent.EmptyLeaf) (fits : parent.size < 2 ^ 64)
    (snapped : Snapped t target (UInt64.ofNat parent.size) mbytes) :
    ∃ chain, target.linked t.file = .ok chain ∧ chain.Shows parent := by
  have asked : (UInt64.ofNat parent.size).toNat = parent.size := by
    rw [UInt64.toNat_ofNat']
    exact Nat.mod_eq_of_lt fits
  have size := snapped.size
  rw [asked] at size
  obtain ⟨-, image, diff, below, parent_eq, few, -⟩ := (find_cases found).resolve_left fun other => other.1 empty
  have size_eq : parent.size = image.vhd.currSize := by
    rw [parent_eq]
    rfl
  have dynamic : parent.isFixed = false := by
    rw [parent_eq]
    rfl
  have rounded : parent.size ≤ roundUp parent.size := by
    unfold Vhd.batEntries at few
    rw [size_eq] at fits ⊢
    unfold roundUp blocksUp vhdBlockShift at *
    omega
  have current : 0 < parent.size → t.currSize = roundUp parent.size := by
    intro positive
    rw [if_pos] at size
    · exact size
    · refine ⟨fun zero => ?_, .inr (by omega)⟩
      rw [zero] at asked
      rw [← asked] at positive
      cases positive
  refine ⟨_, snapped.linked, ?_, by rw [under_top]; exact snapped.covered, ?_⟩
  · rw [under_top]
    by_cases positive : 0 < parent.size
    · rw [current positive]
      exact rounded
    · omega
  · intro sector buf inside read
    have current := current (by omega)
    obtain ⟨r, rest, same⟩ := Backing.rest_of_read dynamic read
    have slot : slotInside t.currSize sector := by
      rw [current]
      exact roundUp_slot (by omega) (inside.trans rounded)
    exact snapped.shown (by omega) slot ⟨r, find_rest found rfl rest, same⟩

end Shows

section Calls
variable {dest : Destination} {options : SnapshotOptions} {given : List SnapshotOption}
  {supplied : Supplied} {target : Backing} {size : UInt64} {raw : Bool} {t : Handle} {call : SnapshotCall}

theorem snapshotTarget_cases (found : snapshotTarget options supplied.backing = .ok (target, size, raw)) :
    (raw = true → target.isRaw = true) ∧
      (target = supplied.backing.seen options.raw ∧ size = 0 ∧
          ¬ (options.raw = false ∧ options.emptyCheck = true ∧ supplied.backing.EmptyLeaf) ∨
        options.raw = false ∧ options.emptyCheck = true ∧ supplied.backing.EmptyLeaf ∧
          vhdUtilFindSnapshotTarget supplied.backing = .ok target ∧
          size = UInt64.ofNat supplied.backing.size ∧ supplied.backing.size < 2 ^ 64) := by
  unfold snapshotTarget at found
  by_cases direct : (options.raw || !options.emptyCheck) = true
  · rw [if_pos direct] at found
    cases found
    refine ⟨fun isRaw => ?_, .inl ⟨rfl, rfl, fun ⟨plain, check, _⟩ => ?_⟩⟩
    · unfold Backing.seen
      rw [if_pos isRaw]
      rfl
    · rw [plain, check] at direct
      cases direct
  · rw [if_neg direct] at found
    obtain ⟨plain, check⟩ : options.raw = false ∧ options.emptyCheck = true := by
      simpa using direct
    obtain ⟨backing, search, found⟩ := Outcome.bind_eq_ok.mp found
    have seen : supplied.backing.seen options.raw = supplied.backing := by
      unfold Backing.seen
      rw [plain, if_neg Bool.false_ne_true]
    rcases find_cases search with ⟨other, rfl⟩ | ⟨empty, image, diff, below, same, -, deeper⟩
    · rw [if_neg (not_not.mpr rfl)] at found
      cases found
      exact ⟨id, .inl ⟨seen.symm, rfl, fun leaf => other leaf.2.2⟩⟩
    · -- no other file of the chain has the path of the first one
      have moved : supplied.backing.stored.path ≠ backing.stored.path := by
        intro path
        have distinct := supplied.distinct
        rw [same] at distinct path
        exact (List.nodup_cons.mp distinct).1 (path ▸ deeper)
      rw [if_pos moved, same] at found
      cases found
      refine ⟨id, .inr ⟨plain, check, empty, search, ?_, ?_⟩⟩
      · rw [same]
        rfl
      · rw [same]
        exact image.fits

theorem vhdUtilSnapshot_ok (ran : vhdUtilSnapshot dest given supplied.backing = .ok (target, t)) :
    ∃ size raw, snapshotTarget (snapshotOptions given) supplied.backing = .ok (target, size, raw) ∧
      vhdSnapshot dest size target ((snapshotOptions given).msize <<< 20) raw = .ok t := by
  unfold vhdUtilSnapshot at ran
  obtain ⟨⟨backing, size, raw⟩, found, ran⟩ := Outcome.bind_eq_ok.mp ran
  obtain ⟨_, -, ran⟩ := Outcome.bind_eq_ok.mp ran
  obtain ⟨made, created, ran⟩ := Outcome.bind_eq_ok.mp ran
  cases ran
  exact ⟨size, raw, found, created⟩

def SnapshotCall.Suits (supplied : Supplied) : SnapshotCall → Prop
  | .library bytes mbytes raw => (supplied.backing.seen raw).Suits bytes mbytes
  | .command given =>
      ((snapshotOptions given).raw = false ∧ (snapshotOptions given).emptyCheck = true ∧
          supplied.backing.EmptyLeaf) ∨
        (supplied.backing.seen (snapshotOptions given).raw).Suits 0 0

theorem suits_zero {parent : Backing} (mbytes : UInt64) : parent.Suits 0 mbytes ↔ parent.Suits 0 0 :=
  ⟨fun suits => ⟨fun asked => absurd rfl asked, suits.slots, suits.dynamic⟩,
    fun suits => ⟨fun asked => absurd rfl asked, suits.slots, suits.dynamic⟩⟩

/-- A snapshot that was made shows the parent that was named under exactly this condition. -/
theorem snapshot_shows_iff (ran : call.run dest supplied = .ok (target, t)) :
    (∃ chain, target.linked t.file = .ok chain ∧ chain.Shows (supplied.backing.seen call.raw)) ↔
      call.Suits supplied := by
  cases call with
  | library bytes mbytes raw =>
      obtain ⟨made, created, ran⟩ := Outcome.bind_eq_ok.mp ran
      cases ran
      have declared : raw = true → (supplied.backing.seen raw).isRaw = true := by
        rintro rfl
        rfl
      exact (vhdSnapshot_snapped declared created).shows_iff
  | command given =>
      obtain ⟨size, raw, found, created⟩ := vhdUtilSnapshot_ok ran
      obtain ⟨declared, cases_⟩ := snapshotTarget_cases found
      have snapped := vhdSnapshot_snapped declared created
      rcases cases_ with ⟨rfl, rfl, other⟩ | ⟨plain, check, empty, search, rfl, fits⟩
      · refine snapped.shows_iff.trans ((suits_zero _).trans ?_)
        exact (or_iff_right other).symm
      · have seen : supplied.backing.seen (snapshotOptions given).raw = supplied.backing := by
          unfold Backing.seen
          rw [plain, if_neg Bool.false_ne_true]
        have shows := snapped.shows_passed search empty fits
        change (∃ chain : Chain, _ ∧ chain.Shows (supplied.backing.seen (snapshotOptions given).raw)) ↔ _
        rw [seen]
        exact iff_of_true shows (.inl ⟨plain, check, empty⟩)

end Calls

theorem stored_size {size : Nat} (small : size < 2 ^ 64) : (UInt64.ofNat size).toNat = size := by
  rw [UInt64.toNat_ofNat']
  exact Nat.mod_eq_of_lt small

def rawZeros (size : Nat) (small : size < 2 ^ 64) : Supplied where
  backing := .raw
    { path := [0x2f, 0x64, 0x2f, 0x70]
      stat := .ok 0
      relative := .ok [0x2e, 0x2f, 0x70]
      file := { size, byte := fun _ => 0 }
      fileSize := UInt64.ofNat size
      sized := .inl (stored_size small) }
  distinct := List.nodup_singleton _

def fourMebibytes : Supplied := rawZeros 0x400000 (by decide)
def tenMebibytes : Supplied := rawZeros 0xa00000 (by decide)

def newSnapshot : Destination where
  nameLength := 10
  target := newFile
  stamp := someStamp

theorem snapshot_shows_raw :
    ∃ target t, (SnapshotCall.library 0 0 true).run newSnapshot fourMebibytes = .ok (target, t) ∧
      ∃ chain, target.linked t.file = .ok chain ∧ chain.Shows (fourMebibytes.backing.seen true) := by
  obtain ⟨⟨target, t⟩, ran⟩ := Outcome.isOk_iff.mp (by decide +kernel :
    ((SnapshotCall.library 0 0 true).run newSnapshot fourMebibytes).isOk = true)
  refine ⟨target, t, ran, (snapshot_shows_iff ran).mpr ⟨fun asked => absurd rfl asked, ?_, ?_⟩⟩
  · intro _ sector _
    exact .inr (.inl (by decide))
  · intro fixed
    cases fixed

theorem snapshot_smaller :
    ∃ target t, (SnapshotCall.library 0x200000 0x1400000 true).run newSnapshot tenMebibytes =
        .ok (target, t) ∧
      ¬ ∃ chain, target.linked t.file = .ok chain ∧
        chain.Shows (tenMebibytes.backing.seen true) := by
  obtain ⟨t, created⟩ := Outcome.isOk_iff.mp (by decide +kernel :
    (vhdSnapshot newSnapshot 0x200000 (tenMebibytes.backing.seen true) 0x1400000 true).isOk = true)
  refine ⟨_, t, Outcome.bind_eq_ok.mpr ⟨t, created, rfl⟩, fun shows => ?_⟩
  have suits := (vhdSnapshot_snapped (fun _ => rfl) created).shows_iff.mp shows
  exact absurd (suits.size (by decide) (by decide)) (by decide)

end Blktap.Libvhd
