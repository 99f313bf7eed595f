import Blktap.Libvhd.Check
import Blktap.Libvhd.Resize
import Blktap.Libvhd.WriteWorks

/-!
# Killing the data of an image (`vhd-util-modify.c`)

`vhd-util modify -z` clears the block table and then the map of full blocks, and puts the footer of a regular file
behind the metadata. Nothing undoes a step when a later one fails.
-/

namespace Blktap.Libvhd
open Lib Action

def Bat.erased (bat : Bat) : Bat :=
  { bat with bat := fun i => if i < bat.entries then ddBlkUnused else bat.bat i }

def Batmap.cleared (batmap : Batmap) (bytes : Nat) : Batmap :=
  { batmap with map := fun i => if i < bytes then 0 else batmap.map i }

def Chain.beneath : Chain → Nat → Nat → UInt8
  | .base _, _, _ => 0
  | .differRaw _ raw, sector, o => raw.rawByte sector o
  | .differ _ parent, sector, o => parent.byte sector o

def Context.withFile (ctx : Context) (file : File) : Context := { ctx with file }

namespace Modify

/-- An `int` with these bits as a number of 64 bits -/
def fromInt (n : Nat) : Nat := if n % 2 ^ 32 < 2 ^ 31 then n % 2 ^ 32 else 2 ^ 64 - 2 ^ 32 + n % 2 ^ 32

def mapBytes (vhd : Vhd) : Nat :=
  fromInt (secsRoundUpNoZero (fromInt (vhd.currSize / 512 / vhd.spb / 8)) * 512)

/-- `vhd_util_zero_bat` from `map_bytes` on. An image without a map has none in memory. -/
def clearBatmap : Action Handle Unit := do
  let s ← get
  if s.spb = 0 then undefined
  else
    match s.batmap with
    | none => undefined
    | some batmap =>
        if batmap.mapBytes < mapBytes s.toVhd then undefined
        else do
          modify fun s => { s with batmap := some (batmap.cleared (mapBytes s.toVhd)) }
          vhdWriteBatmap (batmap.cleared (mapBytes s.toVhd))

def vhdUtilZeroBat : Action Handle Unit := do
  vhdGetBat
  let s ← get
  when (s.hasBatmap = true) do
    let _ ← vhdGetBatmap
    pure ()
  modify fun s => { s with bat := s.bat.map Bat.erased }
  vhdWriteBat
  clearBatmap

def vhdUtilModify : Action Handle Unit := do
  let s ← get
  if !s.typeDynamic then fail (-enosys)
  else do
    vhdUtilZeroBat
    let s ← get
    when (s.isBlock = false) vhdWriteFooter

def openImage (file : File) (isBlock : Bool) (faults : List (Option Fault)) : Outcome Handle := do
  let ctx ← vhdOpen file
  let footer ← readFooter file
  .ok { ctx with
    isBlock, sparse := false, spp := 1, spp_pos := Nat.one_pos, footer, bat := none, batmap := none, faults }

section Purpose

def inHeader (ctx : Context) (p : Nat) : Prop :=
  (ctx.dataOffset ≤ p ∧ p < ctx.dataOffset + 1024) ∨
    ∃ loc ∈ ctx.loc, loc.code ≠ 0 ∧ loc.dataOffset ≤ p ∧ p < loc.dataOffset + loc.size

/-- A dynamic or differencing image in order, with both footers -/
structure Intact (ctx : Context) : Prop where
  opens : vhdOpen ctx.file = .ok ctx
  last : validFooter ctx.file.last = true
  copy : validFooter ctx.file.byte = true
  laid : ctx.Laid
  map : ctx.hasBatmap = true → ctx.MapReadable
  whole : 512 ∣ ctx.file.size
  bounds : 512 ∣ ctx.headers
  room : ctx.headers + 512 ≤ ctx.file.size
  apart : ∀ p, inHeader ctx p → ¬ ctx.inMetadata p
  blocks : ∀ block, ctx.allocated block → ∀ p, ctx.inExtent block p → ¬ inHeader ctx p
  extents : ∀ block, ctx.allocated block → (ctx.entry block + ctx.bmSecs + ctx.spb) * 512 + 512 ≤ ctx.file.size
  full : ∀ nr, Check.FullBit ctx nr → ctx.allocated nr

variable (s : Handle)

def reopened (t : Handle) : Context := s.toContext.withFile t.file

structure Reopens (t : Handle) : Prop where
  intact : Intact (reopened s t)
  names : ∀ p, inHeader s.toContext p → t.file.byte p = s.file.byte p

structure Emptied (t : Handle) : Prop extends Reopens s t where
  blocks : ∀ block, ¬ (reopened s t).allocated block
  full : ∀ nr, ¬ Check.FullBit (reopened s t) nr
  reads : ∀ chain : Chain, chain.top = (reopened s t).toVhd → ∀ sector o, chain.byte sector o = chain.beneath sector o
  footer : s.isBlock = false → t.file.size = (reopened s t).headers + 512

structure Spared (t : Handle) : Prop extends Reopens s t where
  blocks : ∀ block, (reopened s t).allocated block →
    (reopened s t).entry block = s.entry block ∧ ∀ p, s.inExtent block p → t.file.byte p = s.file.byte p

def fault (n : Nat) : Option Fault := (s.faults.drop n).head?.join

def Failed (t : Handle) : Prop := ∃ n < s.faults.length - t.faults.length, fault s n ≠ none

def Right : Prop := wp vhdUtilModify (fun _ t => ¬ Failed s t ∧ Emptied s t) (fun _ t => Spared s t) s

end Purpose

section Condition
variable (s : Handle)

def MapWorks : Prop := fault s 1 = none ∧ fault s 2 = none

def clearedBytes : Nat :=
  match fault s 1 with
  | some fault => min (mapBytes s.toVhd) (fault.secs * 512)
  | none => mapBytes s.toVhd

def mapLeft (cleared i : Nat) : UInt8 := if i < cleared then 0 else s.file.byte (s.batmapHeader.batmapOffset + i)

def Summed : Prop := fault s 1 = none ∧ ∀ fault', fault s 2 = some fault' → 0 < fault'.secs

def footerFault (i : Nat) : Option Fault := fault s ((if fault s 1 = none then 3 else 2) + i)

def Leftover (block : Nat) : Prop := s.allocated block ∧ s.batEntries ≤ block

def SectorFree : Prop :=
  ∀ block, Leftover s block → ∀ o < 512, s.inExtent block (s.headers + o) →
    s.file.byte (s.headers + o) = sealFooter s.footer o

def FootersFail : Prop := s.isBlock = false ∧ ∃ i < 3, footerFault s i ≠ none

def FootersSpare : Prop :=
  match footerFault s 0, footerFault s 1 with
  | some fault, _ => fault.secs = 0 ∨ SectorFree s
  | none, some _ => SectorFree s
  | none, none => ∀ block, Leftover s block → (s.entry block + s.bmSecs + s.spb) * 512 ≤ s.headers

/-- When the table is cleared, what is left of the map of full blocks is right. -/
structure Spares : Prop where
  map : s.hasBatmap = true
  fits : mapBytes s.toVhd ≤ s.batmapBytes
  sum : Summed s ∨
    s.checksumBatmap s.batmapHeader.batmapVersion (mapLeft s (clearedBytes s)) = s.batmapHeader.checksum
  bits : ∀ nr, Check.FullBit s.toContext nr → nr / 8 < clearedBytes s ∨ s.batEntries ≤ nr
  fails : FootersFail s → FootersSpare s
  works : ¬ FootersFail s → MapWorks s ∧ ∀ block, ¬ Leftover s block

def Condition : Prop :=
  match fault s 0 with
  | some fault => ∀ nr, Check.FullBit s.toContext nr → nr < s.batEntries → fault.secs * 128 ≤ nr
  | none => Spares s

end Condition

end Modify

section Headers
variable {ctx : Context} {loc : Locator}

theorem locator_le {list : List Locator} (member : loc ∈ list) (used : loc.code ≠ 0) (eom : Nat) :
    loc.dataOffset + loc.size ≤
      list.foldl (fun eom loc => if loc.code = 0 then eom else max eom (loc.dataOffset + loc.size)) eom := by
  induction list generalizing eom with
  | nil => cases member
  | cons first rest ih =>
      rw [List.foldl_cons]
      rcases List.mem_cons.mp member with rfl | later
      · refine Nat.le_trans ?_ (foldl_max_ge _ (fun loc : Locator => loc.code = 0) _ _)
        rw [if_neg used]
        exact Nat.le_max_right _ _
      · exact ih later _

theorem Context.header_le_headers : ctx.dataOffset + 1024 ≤ ctx.headers := by
  unfold Context.headers Context.headersEnd
  refine Nat.le_trans ?_ (foldl_max_ge _ (fun loc : Locator => loc.code = 0) _ _)
  split <;> omega

theorem Context.inHeader_lt {p : Nat} (inside : Modify.inHeader ctx p) : p < ctx.headers := by
  rcases inside with header | ⟨loc, member, used, _, high⟩
  · exact header.2.trans_le ctx.header_le_headers
  · exact high.trans_le (locator_le member used _)

theorem Context.entry_withFile (ctx : Context) (file : File) {file' : File} {i : Nat}
    (same : ∀ j < 4, file'.byte (ctx.tableOffset + 4 * i + j) = file.byte (ctx.tableOffset + 4 * i + j)) :
    (ctx.withFile file').entry i = (ctx.withFile file).entry i := be32_congr same

end Headers

def BatmapHeader.withSum (header : BatmapHeader) (checksum : Nat) : BatmapHeader := { header with checksum }

theorem File.put_nothing {file : File} (past : ∀ p, file.size ≤ p → file.byte p = 0) (off : Nat) (data : Nat → UInt8) :
    file.put off 0 data = file := by
  have byte : (file.put off 0 data).byte = file.byte := by
    funext p
    exact File.put_outside past (by omega)
  have size : (file.put off 0 data).size = file.size := by
    unfold File.put
    rfl
  calc file.put off 0 data = ⟨(file.put off 0 data).size, (file.put off 0 data).byte⟩ := rfl
    _ = file := by rw [size, byte]

section Opens
variable {file file' : File} {ctx : Context} {footer footer' header header' : Nat → UInt8}

theorem readFooter_valid (last : validFooter file.last = true) (large : 512 ≤ file.size) :
    readFooter file = .ok file.last := by
  have read : file.read (file.size - 512) 512 = .ok file.last := File.read_ok (by omega)
  unfold readFooter File.footerAt
  rw [if_neg (Nat.not_lt.mpr large), read, Outcome.ok_bind, last]
  rfl

theorem vhdOpen_parts (opens : vhdOpen file = .ok ctx) (dynamic : ctx.typeDynamic = true) :
    ∃ footer header, readFooter file = .ok footer ∧ cookieIn footer ≠ poisonCookie ∧
      readHeaderAt file ctx.dataOffset = .ok header ∧ ctx = contextIn file footer header := by
  unfold vhdOpen at opens
  obtain ⟨footer, read, opens⟩ := Outcome.bind_eq_ok.mp opens
  dsimp only at opens
  split at opens
  · cases opens
  rename_i cookie
  split at opens
  · rename_i fixed
    cases opens
    simp [dynamic] at fixed
  · obtain ⟨header, found, opens⟩ := Outcome.bind_eq_ok.mp opens
    cases opens
    exact ⟨footer, header, read, cookie, found, rfl⟩

theorem contextIn_congr (same : ∀ o < 512, ¬ (64 ≤ o ∧ o < 68) → footer' o = footer o)
    (headers : ∀ p < 1024, header' p = header p) :
    contextIn file' footer' header' = (contextIn file footer header).withFile file' := by
  have word : ∀ off, off + 4 ≤ 64 → be32 footer' off = be32 footer off := fun off small =>
    be32_congr fun i bound => same _ (by omega) (by omega)
  have double : ∀ off, off + 8 ≤ 64 → be64 footer' off = be64 footer off := fun off small =>
    be64_congr fun i bound => same _ (by omega) (by omega)
  have word' : ∀ off, off + 4 ≤ 1024 → be32 header' off = be32 header off := fun off small =>
    be32_congr fun i bound => headers _ (by omega)
  have double' : ∀ off, off + 8 ≤ 1024 → be64 header' off = be64 header off := fun off small =>
    be64_congr fun i bound => headers _ (by omega)
  have app : (List.range 3).map (fun i => footer' (28 + i)) = (List.range 3).map fun i => footer (28 + i) := by
    apply List.map_congr_left
    intro i member
    have := List.mem_range.mp member
    exact same _ (by omega) (by omega)
  have loc : (List.range 8).map (locatorIn header') = (List.range 8).map (locatorIn header) := by
    apply List.map_congr_left
    intro i member
    have := List.mem_range.mp member
    unfold locatorIn
    rw [word' _ (by omega), word' _ (by omega), word' _ (by omega), double' _ (by omega)]
  unfold Context.withFile
  apply Context.ext
  all_goals simp only [contextIn, word 60 (by decide), word 32 (by decide), double 48 (by decide),
    double 16 (by decide), double' 16 (by decide), word' 28 (by decide), word' 32 (by decide), app, loc]

theorem contextIn_type : (contextIn file footer header).type = (diskType? (be32 footer 60)).getD .fixed := rfl

theorem contextIn_dataOffset : (contextIn file footer header).dataOffset = be64 footer 16 := rfl

theorem vhdOpen_kept (opens : vhdOpen file = .ok ctx) (dynamic : ctx.typeDynamic = true)
    (read : readFooter file = .ok footer) (read' : readFooter file' = .ok footer')
    (same : ∀ o < 512, ¬ (64 ≤ o ∧ o < 68) → footer' o = footer o)
    (headers : ∀ p, ctx.dataOffset ≤ p → p < ctx.dataOffset + 1024 → file'.byte p = file.byte p)
    (inside : ctx.dataOffset + 1024 ≤ file'.size) : vhdOpen file' = .ok (ctx.withFile file') := by
  obtain ⟨_, header, read₀, cookie, found, context⟩ := vhdOpen_parts opens dynamic
  rw [read] at read₀
  cases read₀
  unfold readHeaderAt at found
  obtain ⟨bytes, readHeader, found⟩ := Outcome.bind_eq_ok.mp found
  split at found
  · rename_i valid
    cases found
    have header' : ∀ p < 1024, file'.byte (ctx.dataOffset + p) = header p := by
      intro p small
      rw [headers _ (Nat.le_add_right _ _) (by omega), File.read_eq readHeader]
    have moved := @contextIn_congr file file' footer footer' header _ same header'
    rw [← context] at moved
    have type := congrArg (fun ctx => ctx.type) moved
    have place := congrArg (fun ctx => ctx.dataOffset) moved
    dsimp only [Context.withFile] at type place
    rw [contextIn_type] at type
    rw [contextIn_dataOffset] at place
    have cookie' : cookieIn footer' = cookieIn footer := by
      unfold cookieIn
      apply List.map_congr_left
      intro i member
      have := List.mem_range.mp member
      exact same i (by omega) (by omega)
    have kind : (contextIn file' footer' fun _ => 0).typeDynamic = true := by
      unfold Vhd.typeDynamic
      rw [contextIn_type, type]
      exact dynamic
    have found : readHeaderAt file' ctx.dataOffset = .ok fun p => file'.byte (ctx.dataOffset + p) := by
      unfold readHeaderAt
      rw [File.read_ok inside, Outcome.ok_bind]
      exact if_pos ((validHeader_congr header').trans valid)
    unfold vhdOpen
    rw [read', Outcome.ok_bind]
    dsimp only
    rw [cookie', if_neg cookie, if_neg (by rw [kind]; decide), contextIn_dataOffset, place, found,
      Outcome.ok_bind, moved]
  · cases found

end Opens

namespace Modify

structure Stage (s : Handle) (erased cleared sum : Nat) (file : File) : Prop where
  past : ∀ p, file.size ≤ p → file.byte p = 0
  whole : 512 ∣ file.size
  room : s.headers + 512 ≤ file.size
  last : validFooter file.last = true ∧ ∀ o < 512, ¬ (64 ≤ o ∧ o < 68) → file.last o = s.footer o
  copy : validFooter file.byte = true
  names : ∀ p, inHeader s.toContext p → file.byte p = s.file.byte p
  entry : ∀ i < s.maxBatSize, (s.toContext.withFile file).entry i = if i < erased then ddBlkUnused else s.entry i
  header : s.looksForBatmap = true →
    (s.toContext.withFile file).batmapHeader = s.batmapHeader.withSum sum
  map : s.hasBatmap = true → ∀ i < s.batmapHeader.batmapSize * 512,
    file.byte (s.batmapHeader.batmapOffset + i) = mapLeft s cleared i

structure Fresh (s : Handle) : Prop where
  intact : Intact s.toContext
  bat : s.bat = none
  batmap : s.batmap = none
  footer : s.footer = s.file.last

section Stage
variable {s : Handle} {erased cleared sum : Nat} {file : File}

theorem Stage.marker (stage : Stage s erased cleared sum file) (laid : s.toContext.Laid) :
    s.batmapHeaderOffset + 512 ≤ file.size := by
  have table := Context.table_le_headers laid.tableBytes
  have room := stage.room
  omega

theorem Stage.hasBatmap (stage : Stage s erased cleared sum file) (laid : s.toContext.Laid) :
    (s.toContext.withFile file).hasBatmap = s.hasBatmap := by
  cases looks : s.looksForBatmap with
  | false => rw [hasBatmap_unlooked looks, @hasBatmap_unlooked (s.toContext.withFile file) looks]
  | true =>
      rw [hasBatmap_looked looks (laid.marker looks),
        @hasBatmap_looked (s.toContext.withFile file) looks (stage.marker laid), stage.header looks]
      rfl

theorem Stage.headers (stage : Stage s erased cleared sum file) (laid : s.toContext.Laid) :
    (s.toContext.withFile file).headers = s.headers := by
  unfold Context.headers
  rw [stage.hasBatmap laid]
  cases has : s.hasBatmap with
  | false => rfl
  | true => rw [if_pos rfl, if_pos rfl, stage.header (Context.looks_of_has has)]; rfl

theorem Stage.allocated_iff (stage : Stage s erased cleared sum file) {block : Nat} :
    (s.toContext.withFile file).allocated block ↔ s.allocated block ∧ erased ≤ block := by
  constructor
  · rintro ⟨bound, used⟩
    have bound : block < s.maxBatSize := bound
    rw [stage.entry block bound] at used
    by_cases gone : block < erased
    · rw [if_pos gone] at used
      exact absurd rfl used
    · rw [if_neg gone] at used
      exact ⟨⟨bound, used⟩, Nat.le_of_not_lt gone⟩
  · rintro ⟨⟨bound, used⟩, kept⟩
    refine ⟨bound, ?_⟩
    rw [stage.entry block bound, if_neg (Nat.not_lt.mpr kept)]
    exact used

theorem Stage.entry_kept (stage : Stage s erased cleared sum file) {block : Nat}
    (allocated : (s.toContext.withFile file).allocated block) :
    (s.toContext.withFile file).entry block = s.entry block := by
  rw [stage.entry block allocated.1, if_neg (Nat.not_lt.mpr (stage.allocated_iff.mp allocated).2)]

theorem Stage.inMetadata_iff (stage : Stage s erased cleared sum file) (laid : s.toContext.Laid) {p : Nat} :
    (s.toContext.withFile file).inMetadata p ↔ s.inMetadata p := by
  unfold Context.inMetadata
  rw [stage.hasBatmap laid]
  refine or_congr_right (or_congr_right (or_congr_right (and_congr_right fun has => ?_)))
  unfold Context.inBatmap
  rw [stage.header (Context.looks_of_has has)]
  rfl

theorem Stage.laid (stage : Stage s erased cleared sum file) (laid : s.toContext.Laid) :
    (s.toContext.withFile file).Laid := by
  have extents : ∀ block p, (s.toContext.withFile file).allocated block →
      ((s.toContext.withFile file).inExtent block p ↔ s.inExtent block p) := by
    intro block p allocated
    unfold Vhd.inExtent
    rw [stage.entry_kept allocated]
    rfl
  constructor
  · exact laid.dynamic
  · exact laid.blockSize
  · exact laid.tableBytes
  · exact laid.batSize
  · exact laid.covers
  · exact laid.aligned
  · exact laid.front
  · exact stage.past
  · exact (Nat.le_add_right _ 512).trans (stage.marker laid)
  · exact fun _ => stage.marker laid
  · intro block allocated p inside
    rw [stage.inMetadata_iff laid]
    exact laid.extent block (stage.allocated_iff.mp allocated).1 p ((extents block p allocated).mp inside)
  · intro block block' allocated allocated' different p inside
    rw [extents block' p allocated']
    exact laid.disjoint block block' (stage.allocated_iff.mp allocated).1 (stage.allocated_iff.mp allocated').1
      different p ((extents block p allocated).mp inside)
  · intro has
    rw [stage.hasBatmap laid] at has
    unfold Context.inBatmap
    rw [stage.header (Context.looks_of_has has)]
    exact laid.map has

end Stage

section Intact
variable {s : Handle} {erased cleared sum : Nat} {file : File}

theorem Fresh.reads (fresh : Fresh s) : readFooter s.file = .ok s.file.last :=
  readFooter_valid fresh.intact.last ((Nat.le_add_left _ _).trans fresh.intact.room)

theorem Fresh.cookie (fresh : Fresh s) : cookieIn s.footer = footerCookie := by
  have valid := fresh.intact.last
  unfold validFooter at valid
  rw [Bool.and_eq_true, Bool.or_eq_true, beq_iff_eq, beq_iff_eq] at valid
  obtain ⟨footer, _, read, cookie, _⟩ := vhdOpen_parts fresh.intact.opens fresh.intact.laid.dynamic
  rw [fresh.reads] at read
  cases read
  rw [fresh.footer]
  exact valid.1.resolve_right cookie

theorem Stage.opens (stage : Stage s erased cleared sum file) (fresh : Fresh s) :
    vhdOpen file = .ok (s.toContext.withFile file) := by
  have room := stage.room
  have before := s.toContext.header_le_headers
  have read := readFooter_valid stage.last.1 (by omega)
  refine vhdOpen_kept fresh.intact.opens fresh.intact.laid.dynamic fresh.reads read ?_ ?_ (by omega)
  · intro o small apart
    rw [stage.last.2 o small apart, fresh.footer]
  · exact fun p low high => stage.names p (.inl ⟨low, high⟩)

theorem fullBit_iff (laid : s.toContext.Laid) (nr : Nat) : Check.FullBit s.toContext nr ↔
    s.hasBatmap = true ∧ nr < s.batmapHeader.batmapSize * 2 ^ 12 ∧
      testBit (fun p => s.file.byte (s.batmapHeader.batmapOffset + p)) nr = true := by
  unfold Check.FullBit
  refine and_congr_right fun has => ?_
  rw [vhdReadBatmapHeader_ok (laid.marker (Context.looks_of_has has))]
  constructor
  · rintro ⟨header, same, small, bit⟩
    cases same
    exact ⟨small, bit⟩
  · rintro ⟨small, bit⟩
    exact ⟨_, rfl, small, bit⟩

theorem Stage.fullBit_iff (stage : Stage s erased cleared sum file) (laid : s.toContext.Laid) (nr : Nat) :
    Check.FullBit (s.toContext.withFile file) nr ↔ Check.FullBit s.toContext nr ∧ cleared ≤ nr / 8 := by
  rw [Modify.fullBit_iff laid]
  unfold Check.FullBit
  rw [stage.hasBatmap laid, and_assoc]
  refine and_congr_right fun has => ?_
  have looks := Context.looks_of_has has
  rw [@vhdReadBatmapHeader_ok (s.toContext.withFile file) (stage.marker laid), stage.header looks]
  have bit : nr < s.batmapHeader.batmapSize * 2 ^ 12 →
      (testBit (fun p => file.byte (s.batmapHeader.batmapOffset + p)) nr = true ↔
        testBit (fun p => s.file.byte (s.batmapHeader.batmapOffset + p)) nr = true ∧ cleared ≤ nr / 8) := by
    intro small
    unfold testBit
    dsimp only
    rw [stage.map has _ (by omega)]
    unfold mapLeft
    by_cases gone : nr / 8 < cleared
    · rw [if_pos gone]
      simp [gone]
    · rw [if_neg gone]
      simp [Nat.le_of_not_lt gone]
  constructor
  · rintro ⟨header, same, small, set⟩
    cases same
    exact ⟨⟨small, ((bit small).mp set).1⟩, ((bit small).mp set).2⟩
  · rintro ⟨⟨small, set⟩, kept⟩
    exact ⟨_, rfl, small, (bit small).mpr ⟨set, kept⟩⟩

def sumLeft (s : Handle) (cleared : Nat) : Nat :=
  s.checksumBatmap s.batmapHeader.batmapVersion (mapLeft s cleared)

theorem Stage.readable_iff (stage : Stage s erased cleared sum file) (fresh : Fresh s) (has : s.hasBatmap = true) :
    (s.toContext.withFile file).MapReadable ↔ sumLeft s cleared = sum := by
  have laid := fresh.intact.laid
  have readable := fresh.intact.map has
  have header := stage.header (Context.looks_of_has has)
  have ends := Context.batmap_le_headers has
  have room := stage.room
  have size := readable.size
  have sums : (s.toContext.withFile file).checksumBatmap (s.toContext.withFile file).batmapHeader.batmapVersion
      (fun i => file.byte ((s.toContext.withFile file).batmapHeader.batmapOffset + i)) = sumLeft s cleared := by
    rw [header]
    exact @checksum_congr s.toVhd _ _ _ fun i small => stage.map has i (by omega)
  constructor
  · intro readable'
    have sum' := readable'.sum
    rw [header] at sum'
    rw [← sums, header]
    exact sum'
  · intro same
    refine ⟨stage.marker laid, ?_, ?_, ?_, ?_⟩
    · rw [header]
      exact readable.valid
    · rw [header]
      exact size
    · rw [header]
      change s.batmapHeader.batmapOffset + s.batmapBytes ≤ file.size
      omega
    · refine sums.trans (same.trans ?_)
      rw [header]
      rfl

theorem Stage.intact_iff (stage : Stage s erased cleared sum file) (fresh : Fresh s) :
    Intact (s.toContext.withFile file) ↔ (s.hasBatmap = true → sumLeft s cleared = sum) ∧
      (∀ nr, Check.FullBit s.toContext nr → nr / 8 < cleared ∨ erased ≤ nr) ∧
      ∀ block, s.allocated block → erased ≤ block →
        (s.entry block + s.bmSecs + s.spb) * 512 + 512 ≤ file.size := by
  have laid := fresh.intact.laid
  constructor
  · intro intact
    refine ⟨fun has => ?_, fun nr set => ?_, fun block allocated kept => ?_⟩
    · exact (stage.readable_iff fresh has).mp (intact.map ((stage.hasBatmap laid).trans has))
    · rcases Nat.lt_or_ge (nr / 8) cleared with gone | kept
      · exact .inl gone
      · exact .inr (stage.allocated_iff.mp (intact.full nr ((stage.fullBit_iff laid nr).mpr ⟨set, kept⟩))).2
    · have allocated' := stage.allocated_iff.mpr ⟨allocated, kept⟩
      have fits := intact.extents block allocated'
      rw [stage.entry_kept allocated'] at fits
      exact fits
  · rintro ⟨sums, bits, extents⟩
    refine ⟨stage.opens fresh, stage.last.1, stage.copy, stage.laid laid, fun has => ?_, stage.whole, ?_, ?_,
      fun p inside => ?_, fun block allocated p inside => ?_, fun block allocated => ?_, fun nr set => ?_⟩
    · rw [stage.hasBatmap laid] at has
      exact (stage.readable_iff fresh has).mpr (sums has)
    · rw [stage.headers laid]
      exact fresh.intact.bounds
    · rw [stage.headers laid]
      exact stage.room
    · rw [stage.inMetadata_iff laid]
      exact fresh.intact.apart p inside
    · have before := stage.allocated_iff.mp allocated
      unfold Vhd.inExtent at inside
      rw [stage.entry_kept allocated] at inside
      exact fresh.intact.blocks block before.1 p inside
    · have before := stage.allocated_iff.mp allocated
      rw [stage.entry_kept allocated]
      exact extents block before.1 before.2
    · obtain ⟨set', kept⟩ := (stage.fullBit_iff laid nr).mp set
      exact stage.allocated_iff.mpr ⟨fresh.intact.full nr set', (bits nr set').resolve_left (by omega)⟩

end Intact

section Writes
variable {s : Handle} {erased cleared sum : Nat} {file : File}

structure Middle (s : Handle) (erased cleared sum : Nat) (file : File) : Prop
    extends Stage s erased cleared sum file where
  size : file.size = s.file.size
  outside : ∀ p, ¬ s.inMetadata p → file.byte p = s.file.byte p
  front : ∀ p < 512, file.byte p = s.file.byte p

theorem Fresh.headers_behind (fresh : Fresh s) : s.batmapHeaderOffset ≤ s.headers :=
  Context.table_le_headers fresh.intact.laid.tableBytes

theorem Fresh.headers_large (_ : Fresh s) : 1024 ≤ s.headers :=
  (Nat.le_add_left ..).trans s.toContext.header_le_headers

theorem Fresh.inMetadata_lt (fresh : Fresh s) {p : Nat} (inside : s.inMetadata p) (has : s.hasBatmap = true) :
    p < s.headers := by
  have ends := Context.batmap_le_headers has
  have large := fresh.headers_large
  rcases inside with front | table | ⟨_, header⟩ | ⟨_, map⟩
  · omega
  · exact table.2.trans_le fresh.headers_behind
  · exact header.2.trans_le ends.1
  · exact map.2.trans_le ends.2

theorem Fresh.middle (fresh : Fresh s) (past : ∀ p, file.size ≤ p → file.byte p = 0) (size : file.size = s.file.size)
    (behind : ∀ p, s.headers ≤ p → file.byte p = s.file.byte p)
    (outside : ∀ p, ¬ s.inMetadata p → file.byte p = s.file.byte p)
    (front : ∀ p < 512, file.byte p = s.file.byte p)
    (entry : ∀ i < s.maxBatSize, (s.toContext.withFile file).entry i = if i < erased then ddBlkUnused else s.entry i)
    (header : s.looksForBatmap = true →
      (s.toContext.withFile file).batmapHeader = s.batmapHeader.withSum sum)
    (map : s.hasBatmap = true → ∀ i < s.batmapHeader.batmapSize * 512,
      file.byte (s.batmapHeader.batmapOffset + i) = mapLeft s cleared i) : Middle s erased cleared sum file := by
  have room := fresh.intact.room
  have last : ∀ o < 512, file.last o = s.file.last o := by
    intro o small
    unfold File.last
    rw [size]
    exact behind _ (by omega)
  refine ⟨⟨past, ?_, ?_, ⟨?_, fun o small _ => ?_⟩, ?_, fun p inside => ?_, entry, header, map⟩, size, outside, front⟩
  · rw [size]
    exact fresh.intact.whole
  · rw [size]
    exact room
  · rw [validFooter_congr last]
    exact fresh.intact.last
  · rw [last o small, fresh.footer]
  · rw [validFooter_congr front]
    exact fresh.intact.copy
  · exact outside p (fresh.intact.apart p inside)

theorem File.put_size_within {off n : Nat} {data : Nat → UInt8} (inside : off + n ≤ file.size) :
    (file.put off n data).size = file.size := by
  unfold File.put
  dsimp only
  split
  · rfl
  · exact Nat.max_eq_left inside

theorem erased_bytes {vhd : Vhd} {k : Nat} (inside : k < vhdBytesPadded (vhd.batEntries * 4)) :
    vhd.table.erased.bytes k =
      if k / 4 < vhd.batEntries then beByte 4 ddBlkUnused (k % 4) else vhd.file.byte (vhd.tableOffset + k) := by
  unfold Bat.bytes Bat.erased
  change (if k / 4 < vhd.batEntries then _ else _) = _
  by_cases loaded : k / 4 < vhd.batEntries
  · rw [if_pos loaded, if_pos loaded]
    dsimp only
    rw [if_pos (show k / 4 < vhd.table.entries from loaded)]
  · rw [if_neg loaded, if_neg loaded]
    have word : vhd.table.bat (k / 4) = le32 (fun i => vhd.file.byte (vhd.tableOffset + i)) (4 * (k / 4)) := by
      unfold vhdBytesPadded at inside
      unfold Vhd.table vhdBytesPadded
      dsimp only
      rw [if_neg loaded, if_pos (by omega)]
    dsimp only
    rw [if_neg (show ¬ k / 4 < vhd.table.entries from loaded), word, leByte_le32 _ _ (by omega)]
    congr 2
    omega

theorem Fresh.table (fresh : Fresh s) {n : Nat} (part : n ≤ vhdBytesPadded (s.batEntries * 4)) (words : 4 ∣ n) :
    Middle s (min s.batEntries (n / 4)) 0 s.batmapHeader.checksum
      (s.file.put s.tableOffset n s.toVhd.table.erased.bytes) := by
  have laid := fresh.intact.laid
  have room := fresh.intact.room
  have behind := fresh.headers_behind
  have loaded := laid.loaded_le
  have start := laid.front
  have header : s.tableOffset + vhdBytesPadded (s.maxBatSize * 4) = s.batmapHeaderOffset := rfl
  have same : ∀ p, ¬ s.inTableArea p →
      (s.file.put s.tableOffset n s.toVhd.table.erased.bytes).byte p = s.file.byte p :=
    fun p apart => File.put_outside laid.past fun inside => apart ⟨inside.1, by omega⟩
  apply fresh.middle (File.put_past laid.past) (File.put_size_within (by omega))
  · exact fun p late => same p fun inside => by have := inside.2; omega
  · exact fun p apart => same p fun inside => apart (.inr (.inl inside))
  · exact fun p small => same p fun inside => by have := inside.1; omega
  · intro i bound
    split
    · rename_i gone
      apply be32_beByte (by decide)
      intro j small
      change (s.file.put _ _ _).byte (s.tableOffset + 4 * i + j) = _
      refine (File.put_inside (by omega) (by omega)).trans ?_
      rw [show s.tableOffset + 4 * i + j - s.tableOffset = 4 * i + j by omega, erased_bytes (by omega),
        if_pos (by omega)]
      congr 1
      omega
    · rename_i kept
      refine s.toContext.entry_withFile s.file fun j small => ?_
      by_cases inside : 4 * i + j < n
      · refine (File.put_inside (by omega) (by omega)).trans ?_
        rw [show s.tableOffset + 4 * i + j - s.tableOffset = 4 * i + j by omega, erased_bytes (by omega),
          if_neg (by omega), Nat.add_assoc]
      · exact File.put_outside laid.past (by omega)
  · intro looks
    unfold Context.batmapHeader
    apply batmapHeaderIn_congr
    intro i small
    exact same (s.batmapHeaderOffset + i) fun inside => by have := inside.2; omega
  · intro has i small
    have inMap : s.inBatmap (s.batmapHeader.batmapOffset + i) := ⟨Nat.le_add_right _ _, by omega⟩
    exact same _ ((laid.map has).2.2 _ inMap).2.1

theorem Middle.put (middle : Middle s erased cleared sum file) (fresh : Fresh s) (has : s.hasBatmap = true)
    {off n cleared' sum' : Nat} {data : Nat → UInt8}
    (inside : ∀ p, off ≤ p → p < off + n → s.inBatmap p ∨ s.inBatmapHeader p)
    (header : (s.toContext.withFile (file.put off n data)).batmapHeader = s.batmapHeader.withSum sum')
    (map : ∀ i < s.batmapHeader.batmapSize * 512,
      (file.put off n data).byte (s.batmapHeader.batmapOffset + i) = mapLeft s cleared' i) :
    Middle s erased cleared' sum' (file.put off n data) := by
  have laid := fresh.intact.laid
  have room := fresh.intact.room
  have member : ∀ p, off ≤ p → p < off + n → 512 ≤ p ∧ ¬ s.inTableArea p ∧ s.inMetadata p := by
    intro p low high
    rcases inside p low high with inMap | inHeader
    · have apart := (laid.map has).2.2 p inMap
      exact ⟨apart.1, apart.2.1, .inr (.inr (.inr ⟨has, inMap⟩))⟩
    · have front := laid.front
      have start : s.tableOffset + vhdBytesPadded (s.maxBatSize * 4) ≤ p := inHeader.1
      refine ⟨by omega, fun table => ?_, .inr (.inr (.inl ⟨Context.looks_of_has has, inHeader⟩))⟩
      have := table.2
      omega
  have same : ∀ p, (off ≤ p → p < off + n → False) → (file.put off n data).byte p = file.byte p :=
    fun p apart => File.put_outside middle.past fun here => apart here.1 here.2
  have size : (file.put off n data).size = file.size := by
    rcases Nat.eq_zero_or_pos n with rfl | positive
    · unfold File.put
      rfl
    · have last := fresh.inMetadata_lt (member (off + n - 1) (by omega) (by omega)).2.2 has
      have room' := middle.room
      exact File.put_size_within (by omega)
  apply fresh.middle (File.put_past middle.past) (size.trans middle.size)
  · intro p late
    have apart : ¬ s.inMetadata p := fun inside => by have := fresh.inMetadata_lt inside has; omega
    rw [same p fun low high => apart (member p low high).2.2]
    exact middle.outside p apart
  · intro p apart
    rw [same p fun low high => apart (member p low high).2.2]
    exact middle.outside p apart
  · intro p small
    rw [same p fun low high => by have := (member p low high).1; omega]
    exact middle.front p small
  · intro i bound
    rw [← middle.entry i bound]
    refine s.toContext.entry_withFile file fun j small => ?_
    exact same _ fun low high => (member _ low high).2.1 (laid.inTable bound (by omega) (by omega))
  · exact fun _ => header
  · exact fun _ => map

theorem Middle.put_map (middle : Middle s erased 0 sum file) (fresh : Fresh s) (has : s.hasBatmap = true) {m n : Nat}
    (part : n ≤ s.batmapBytes) :
    Middle s erased (min m n) sum (file.put s.batmapHeader.batmapOffset n (mapLeft s m)) := by
  have laid := fresh.intact.laid
  have size := (laid.map has).2.1
  have inMap : ∀ p, s.batmapHeader.batmapOffset ≤ p → p < s.batmapHeader.batmapOffset + n → s.inBatmap p :=
    fun p low high => ⟨low, by omega⟩
  apply middle.put fresh has fun p low high => .inl (inMap p low high)
  · rw [← middle.header (Context.looks_of_has has)]
    apply batmapHeaderIn_congr
    intro i small
    apply File.put_outside middle.past
    rintro ⟨low, high⟩
    exact ((laid.map has).2.2 _ (inMap _ low high)).2.2 ⟨Nat.le_add_right _ _, Nat.add_lt_add_left (by omega) _⟩
  · intro i small
    by_cases inside : i < n
    · refine (File.put_inside (Nat.le_add_right _ _) (by omega)).trans ?_
      rw [Nat.add_sub_cancel_left]
      unfold mapLeft
      by_cases gone : i < m
      · rw [if_pos gone, if_pos (by omega)]
      · rw [if_neg gone, if_neg (by omega)]
    · refine (File.put_outside middle.past (by omega)).trans ((middle.map has i small).trans ?_)
      unfold mapLeft
      rw [if_neg (by omega), if_neg (by omega)]

theorem Middle.put_head (middle : Middle s erased cleared sum file) (fresh : Fresh s) (has : s.hasBatmap = true)
    {sum' : Nat} (small : sum' < 2 ^ 32) :
    Middle s erased cleared sum'
      (file.put s.batmapHeaderOffset 512 (s.batmapHeader.withSum sum').bytes) := by
  have laid := fresh.intact.laid
  have valid := (fresh.intact.map has).valid
  apply middle.put fresh has fun p low high => .inr ⟨low, high⟩
  · apply batmapHeaderIn_bytes
    · unfold BatmapHeader.valid at valid
      exact (Bool.and_eq_true _ _ ▸ valid).1
    · have high := be32_lt (fun i => s.file.byte (s.batmapHeaderOffset + i)) 8
      have low := be32_lt (fun i => s.file.byte (s.batmapHeaderOffset + i)) 12
      unfold BatmapHeader.withSum Context.batmapHeader batmapHeaderIn
      dsimp only
      omega
    · exact be32_lt _ _
    · exact be32_lt _ _
    · exact small
    · intro i bound
      refine (File.put_inside (Nat.le_add_right _ _) (Nat.add_lt_add_left (by omega) _)).trans ?_
      rw [Nat.add_sub_cancel_left]
  · intro i bound
    rw [← middle.map has i bound]
    apply File.put_outside middle.past
    have inMap : s.inBatmap (s.batmapHeader.batmapOffset + i) := ⟨Nat.le_add_right _ _, Nat.add_lt_add_left bound _⟩
    exact ((laid.map has).2.2 _ inMap).2.2

end Writes

section Footers
variable {s : Handle} {erased cleared sum : Nat} {file file' : File}

theorem Fresh.seal_valid (fresh : Fresh s) : validFooter (sealFooter s.footer) = true :=
  sealFooter_valid (.inl fresh.cookie)

theorem Stage.footers (stage : Stage s erased cleared sum file) (fresh : Fresh s) (has : s.hasBatmap = true)
    (past : ∀ p, file'.size ≤ p → file'.byte p = 0) (whole : 512 ∣ file'.size) (room : s.headers + 512 ≤ file'.size)
    (last : (∀ o < 512, file'.last o = file.last o) ∨ ∀ o < 512, file'.last o = sealFooter s.footer o)
    (copy : (∀ p < 512, file'.byte p = file.byte p) ∨ ∀ p < 512, file'.byte p = sealFooter s.footer p)
    (between : ∀ p, 512 ≤ p → p < s.headers → file'.byte p = file.byte p) : Stage s erased cleared sum file' := by
  have laid := fresh.intact.laid
  have front := laid.front
  have behind := fresh.headers_behind
  have ends := Context.batmap_le_headers has
  have start : s.tableOffset + vhdBytesPadded (s.maxBatSize * 4) = s.batmapHeaderOffset := rfl
  refine ⟨past, whole, room, ?_, ?_, fun p inside => ?_, fun i bound => ?_, fun looks => ?_, fun has i small => ?_⟩
  · rcases last with same | sealed
    · rw [validFooter_congr same]
      exact ⟨stage.last.1, fun o small apart => (same o small).trans (stage.last.2 o small apart)⟩
    · rw [validFooter_congr sealed]
      exact ⟨fresh.seal_valid, fun o small apart => (sealed o small).trans (if_neg apart)⟩
  · rcases copy with same | sealed
    · rw [validFooter_congr same]
      exact stage.copy
    · rw [validFooter_congr sealed]
      exact fresh.seal_valid
  · rw [between p (Nat.le_of_not_lt fun early => fresh.intact.apart p inside (.inl early)) (Context.inHeader_lt inside)]
    exact stage.names p inside
  · rw [← stage.entry i bound]
    refine s.toContext.entry_withFile file fun j small => ?_
    have inTable := laid.inTable bound (Nat.le_add_right (s.tableOffset + 4 * i) j) (by omega)
    exact between _ (inTable.1.trans' front) (by have := inTable.2; omega)
  · rw [← stage.header looks]
    apply batmapHeaderIn_congr
    intro i small
    exact between (s.batmapHeaderOffset + i) (by omega) (by omega)
  · rw [← stage.map has i small]
    have inMap : s.inBatmap (s.batmapHeader.batmapOffset + i) := ⟨Nat.le_add_right _ _, Nat.add_lt_add_left small _⟩
    exact between _ ((laid.map has).2.2 _ inMap).1 (by omega)

theorem Stage.put_footer (stage : Stage s erased cleared sum file) (fresh : Fresh s) (has : s.hasBatmap = true) :
    Stage s erased cleared sum (file.put s.headers 512 (sealFooter s.footer)) := by
  have room := stage.room
  have large := fresh.headers_large
  have size : (file.put s.headers 512 (sealFooter s.footer)).size = file.size := File.put_size_within room
  apply stage.footers fresh has (File.put_past stage.past)
  · rw [size]
    exact stage.whole
  · rw [size]
    exact room
  · obtain ⟨k, whole⟩ := stage.whole
    obtain ⟨j, bounds⟩ := fresh.intact.bounds
    have bounds : s.headers = 512 * j := bounds
    unfold File.last
    rw [size]
    rcases Nat.lt_or_ge (s.headers + 512) file.size with inside | atEnd
    · left
      intro o small
      exact File.put_outside stage.past (by omega)
    · right
      intro o small
      refine (File.put_inside (by omega) (by omega)).trans ?_
      congr 1
      omega
  · exact .inl fun p small => File.put_outside stage.past (by omega)
  · exact fun p _ before => File.put_outside stage.past (by omega)

theorem Stage.truncate (stage : Stage s erased cleared sum file) (fresh : Fresh s) (has : s.hasBatmap = true)
    (footer : ∀ o < 512, file.byte (s.headers + o) = sealFooter s.footer o) :
    Stage s erased cleared sum (file.truncate (s.headers + 512)) := by
  have large := fresh.headers_large
  apply stage.footers fresh has (File.truncate_past _ _)
  · exact Nat.dvd_add fresh.intact.bounds (Nat.dvd_refl _)
  · exact Nat.le_refl _
  · right
    intro o small
    unfold File.last
    change (file.truncate (s.headers + 512)).byte (s.headers + 512 - 512 + o) = _
    rw [Nat.add_sub_cancel, File.truncate_byte stage.past (by omega)]
    exact footer o small
  · exact .inl fun p small => File.truncate_byte stage.past (by omega)
  · exact fun p _ before => File.truncate_byte stage.past (by omega)

theorem Stage.put_copy (stage : Stage s erased cleared sum file) (fresh : Fresh s) (has : s.hasBatmap = true) :
    Stage s erased cleared sum (file.put 0 512 (sealFooter s.footer)) := by
  have room := stage.room
  have large := fresh.headers_large
  have size : (file.put 0 512 (sealFooter s.footer)).size = file.size := File.put_size_within (by omega)
  apply stage.footers fresh has (File.put_past stage.past)
  · rw [size]
    exact stage.whole
  · rw [size]
    exact room
  · left
    intro o small
    unfold File.last
    rw [size]
    exact File.put_outside stage.past (by omega)
  · exact .inr fun p small => File.put_inside (Nat.zero_le _) (by omega)
  · exact fun p after _ => File.put_outside stage.past (by omega)

end Footers

end Modify

end Blktap.Libvhd
