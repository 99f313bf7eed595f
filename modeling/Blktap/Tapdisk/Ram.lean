import Blktap.Lib.Formatted
import Blktap.Lib.Run
import Blktap.Tapdisk.Bounds
import Mathlib.Logic.Function.Basic

/-!
# RAM disks (`block-ram.c`)

The first open of a process reads its file into memory. The memory, its size and the number of connections are global:
every further open gets what is there. `Disks` keeps the images beside them, and what each file's image should hold.
-/

namespace Blktap.Tapdisk.Ram
open Lib Bounds

def maxRamdiskSize : UInt64 := 1024000

def defaultSectorSize : Nat := 512

def enomem : Int := 12

structure Info where
  size : UInt64
  sectorSize : Nat
  info : Nat
  deriving DecidableEq

structure Block where
  size : Nat
  bytes : Nat → UInt8

structure Globals where
  img : Option Block
  disksectorSize : Nat
  disksize : UInt64
  diskinfo : Nat
  connections : Int

inductive Kind
  | regular (bytes : UInt64)
  | device (size : Option UInt64) (sectorSize : Option Nat)

/-- What an open meets: the error numbers of the two `open` calls, the file, the memory as it is allocated, the `errno`
where there is none, and for each `read` how many bytes it gives. -/
structure Attempt (φ : Type) where
  file : φ
  direct : Option Int
  plain : Option Int
  kind : Option Kind
  memory : Option (Nat → UInt8)
  errno : Int
  reads : Nat → Nat
  content : Nat → UInt8

variable {φ : Type}

def Attempt.refused (att : Attempt φ) : Option Int := if att.direct = some Bounds.einval then att.plain else att.direct

def filled (size : UInt64) (sectorSize : Nat) : Info :=
  if size = 0 then ⟨maxRamdiskSize, defaultSectorSize, 0⟩ else ⟨size, sectorSize, 0⟩

def getImageInfo (kind : Option Kind) (before : Info) : Info × Bool :=
  match kind with
  | none => (before, false)
  | some (.device none _) => ({ before with size := 0 }, false)
  | some (.device (some size) sectorSize) => (filled size (sectorSize.getD defaultSectorSize), true)
  | some (.regular bytes) => (filled (bytes >>> 9) defaultSectorSize, true)

def readSectors (att : Attempt φ) (sectorSize : Nat) : Nat → Nat → Nat → Block → Option (Nat × Block)
  | 0, _, count, block => some (count, block)
  | n + 1, i, count, block =>
      if block.size < count + att.reads i then none
      else
        let next := { block with bytes := store block.bytes count (load att.content count (att.reads i)) }
        if att.reads i = sectorSize then readSectors att sectorSize n (i + 1) (count + att.reads i) next
        else some (count, next)

def tdramOpen (g : Globals) (before : Info) (att : Attempt φ) : Option (Globals × Info × Int) :=
  let g := { g with connections := g.connections + 1 }
  if 1 < g.connections then some (g, ⟨g.disksize, g.disksectorSize, g.diskinfo⟩, 0)
  else
    match att.refused with
    | some errno => some (g, before, -errno)
    | none =>
        let (info, found) := getImageInfo att.kind before
        let g := if found then
            { g with disksectorSize := info.sectorSize, disksize := info.size, diskinfo := info.info }
          else g
        if maxRamdiskSize < info.size then some (g, info, -enomem)
        else
          match att.memory with
          | none => some (g, info, -att.errno)
          | some memory =>
              let total := info.size.toNat * 512
              (readSectors att info.sectorSize info.size.toNat 0 0 ⟨total, memory⟩).map fun (count, block) =>
                ({ g with img := some block }, info, if count ≠ total then -1 else 0)

def tdramClose (g : Globals) : Globals := { g with connections := g.connections - 1 }

def range (info : Info) (treq : Bounds.Treq) : Nat × Int :=
  (treq.sec * info.sectorSize % 2 ^ 64, int (treq.secs * info.sectorSize))

def within (img : Option Block) (r : Nat × Int) : Option Block :=
  img.filter fun block => 0 ≤ r.2 ∧ r.1 + r.2.toNat ≤ block.size

def tdramQueueRead (g : Globals) (info : Info) (treq : Bounds.Treq) : Option (List UInt8) :=
  (within g.img (range info treq)).map fun block => load block.bytes (range info treq).1 (range info treq).2.toNat

def tdramQueueWrite (g : Globals) (info : Info) (treq : Bounds.Treq) (buf : Nat → UInt8) : Option Globals :=
  (within g.img (range info treq)).map fun block =>
    { g with img := some { block with
      bytes := store block.bytes (range info treq).1 (load buf 0 (range info treq).2.toNat) } }

structure Disk (φ : Type) where
  file : φ
  rdonly : Bool
  info : Info

def Disk.image (disk : Disk φ) : Bounds.Image := ⟨disk.rdonly, disk.info.size.toNat, none, UInt64.toNat_lt _, nofun⟩

structure Disks (φ : Type) where
  globals : Globals
  images : List (Disk φ)
  last : φ → Nat → UInt8

inductive Event (φ : Type)
  | open (att : Attempt φ) (rdonly : Bool) (before : Info)
  | close (k : Nat)
  | request (k : Nat) (treq : Bounds.Treq) (buf : Nat → UInt8)

section Step
variable [DecidableEq φ]

def initialised (s : Disks φ) (att : Attempt φ) : φ → Nat → UInt8 :=
  if ∃ disk ∈ s.images, disk.file = att.file then s.last else Function.update s.last att.file att.content

def sectors (treq : Bounds.Treq) : Nat × Nat := (treq.sec * 512, treq.secs.toNat * 512)

def written (s : Disks φ) (file : φ) (treq : Bounds.Treq) (buf : Nat → UInt8) : φ → Nat → UInt8 :=
  Function.update s.last file (store (s.last file) (sectors treq).1 (load buf 0 (sectors treq).2))

def step (s : Disks φ) : Event φ → Option (Disks φ)
  | .open att rdonly before =>
      (tdramOpen s.globals before att).map fun (g, info, ret) =>
        if ret = 0 then ⟨g, s.images ++ [⟨att.file, rdonly, info⟩], initialised s att⟩ else { s with globals := g }
  | .close k =>
      some <|
        if k < s.images.length then { s with globals := tdramClose s.globals, images := s.images.eraseIdx k } else s
  | .request k treq buf =>
      match s.images[k]? with
      | none => some s
      | some disk =>
          if checkTdRequest disk.image treq ≠ 0 then some s
          else if treq.op = TD_OP_WRITE then
            (tdramQueueWrite s.globals disk.info treq buf).map fun g =>
              { s with globals := g, last := written s disk.file treq buf }
          else (tdramQueueRead s.globals disk.info treq).map fun _ => s

end Step

def first (contents : φ → Nat → UInt8) : Disks φ := ⟨⟨none, 0, 0, 0, 0⟩, [], contents⟩

def Backed (s : Disks φ) (disk : Disk φ) : Prop :=
  ∃ block, s.globals.img = some block ∧ disk.info.size.toNat * disk.info.sectorSize ≤ block.size ∧
    ∀ i < disk.info.size.toNat * disk.info.sectorSize, block.bytes i = s.last disk.file i

structure Sound (s : Disks φ) : Prop where
  backed : ∀ disk ∈ s.images, Backed s disk
  apart : ∀ disk ∈ s.images, ∀ disk' ∈ s.images, disk.file = disk'.file
  fresh : s.images = [] → s.globals.connections = 0

def Right [DecidableEq φ] (s : Disks φ) (e : Event φ) : Prop :=
  ∃ t, step s e = some t ∧ Sound t ∧
    match e with
    | .open .. => t.images = s.images → t = s
    | .close _ => True
    | .request k treq _ => ∀ disk ∈ s.images[k]?, checkTdRequest disk.image treq = 0 → treq.op = TD_OP_READ →
        tdramQueueRead s.globals disk.info treq =
          some (load (s.last disk.file) (sectors treq).1 (sectors treq).2)

structure Attempt.Works (att : Attempt φ) (before : Info) : Prop where
  opened : att.refused = none
  found : (getImageInfo att.kind before).2 = true
  small : (getImageInfo att.kind before).1.size ≤ maxRamdiskSize
  sectorSize : (getImageInfo att.kind before).1.sectorSize = defaultSectorSize
  memory : att.memory.isSome
  whole : ∀ i < (getImageInfo att.kind before).1.size.toNat, att.reads i = defaultSectorSize

def Fits (s : Disks φ) : Event φ → Prop
  | .open att _ before => if s.images = [] then att.Works before else ∀ disk ∈ s.images, disk.file = att.file
  | .close _ => True
  | .request _ treq _ => treq.Meets

section Open
variable {att : Attempt φ} {before : Info} {g : Globals}

theorem readSectors_whole (n i : Nat) (block : Block) (whole : ∀ j, j < i + n → att.reads j = 512)
    (room : (i + n) * 512 ≤ block.size) (front : ∀ k < i * 512, block.bytes k = att.content k) :
    ∃ bytes, readSectors att 512 n i (i * 512) block = some ((i + n) * 512, { block with bytes }) ∧
      ∀ k < (i + n) * 512, bytes k = att.content k := by
  induction n generalizing i block with
  | zero => exact ⟨block.bytes, rfl, front⟩
  | succ n ih =>
      have got := whole i (by omega)
      have place : i * 512 + 512 = (i + 1) * 512 := (Nat.succ_mul i 512).symm
      have rest : i + 1 + n = i + (n + 1) := Nat.add_right_comm i 1 n
      obtain ⟨bytes, run, stands⟩ := ih (i + 1)
        { block with bytes := store block.bytes (i * 512) (load att.content (i * 512) 512) }
        (fun j small => whole j (rest ▸ small)) (rest ▸ room) fun k small => by
          dsimp only
          rw [← place] at small
          by_cases before : k < i * 512
          · rw [store_before before, front k before]
          · obtain ⟨k, rfl⟩ := Nat.le.dest (Nat.le_of_not_lt before)
            rw [store_inside (Nat.lt_of_lt_of_eq (Nat.lt_of_add_lt_add_left small) load_length.symm)]
            simp [load]
      rw [rest] at run stands
      refine ⟨bytes, ?_, stands⟩
      have fits : ¬block.size < i * 512 + 512 := by
        rw [place]
        exact Nat.not_lt.mpr ((Nat.mul_le_mul_right 512 (by omega)).trans room)
      rw [readSectors, got, if_neg fits, if_pos rfl, place, ← run]

theorem tdramOpen_first (works : att.Works before) (none : g.connections = 0) :
    ∃ block info, tdramOpen g before att =
        some (⟨some block, info.sectorSize, info.size, info.info, 1⟩, info, 0) ∧
      info.sectorSize = 512 ∧ info.size ≤ maxRamdiskSize ∧ block.size = info.size.toNat * 512 ∧
      ∀ i < block.size, block.bytes i = att.content i := by
  obtain ⟨opened, found, small, sectorSize, memory, whole⟩ := works
  obtain ⟨memory, allocated⟩ := Option.isSome_iff_exists.mp memory
  rcases described : getImageInfo att.kind before with ⟨info, flag⟩
  rw [described] at found small sectorSize whole
  obtain ⟨bytes, run, stands⟩ := readSectors_whole info.size.toNat 0 ⟨info.size.toNat * 512, memory⟩
    (fun j inside => whole j (by dsimp only; omega)) (by dsimp only; omega) (fun k inside => by omega)
  rw [Nat.zero_add] at run stands
  refine ⟨⟨info.size.toNat * 512, bytes⟩, info, ?_, sectorSize, small, rfl, stands⟩
  dsimp only at found sectorSize
  have start : readSectors att info.sectorSize info.size.toNat 0 0 ⟨info.size.toNat * 512, memory⟩ =
      some (info.size.toNat * 512, ⟨info.size.toNat * 512, bytes⟩) := by
    rw [sectorSize]
    exact run
  unfold tdramOpen
  rw [none, if_neg (show ¬(1 : Int) < 0 + 1 by decide), opened, described, found]
  dsimp only
  rw [if_neg (by simpa using small), allocated]
  dsimp only
  rw [start]
  simp

theorem tdramOpen_more (more : 0 < g.connections) : tdramOpen g before att =
    some ({ g with connections := g.connections + 1 }, ⟨g.disksize, g.disksectorSize, g.diskinfo⟩, 0) := by
  unfold tdramOpen
  exact if_pos (by dsimp only; omega)

end Open

structure Memory (s : Disks φ) : Prop where
  sectorSize : s.globals.disksectorSize = 512
  small : s.globals.disksize ≤ maxRamdiskSize
  block : ∃ block, s.globals.img = some block ∧ block.size = s.globals.disksize.toNat * 512 ∧
    ∀ disk ∈ s.images, ∀ i < block.size, block.bytes i = s.last disk.file i

structure Kept (s : Disks φ) : Prop where
  count : s.globals.connections = s.images.length
  info : ∀ disk ∈ s.images, disk.info = ⟨s.globals.disksize, s.globals.disksectorSize, s.globals.diskinfo⟩
  apart : ∀ disk ∈ s.images, ∀ disk' ∈ s.images, disk.file = disk'.file
  memory : s.images ≠ [] → Memory s

theorem Kept.sound {s : Disks φ} (kept : Kept s) : Sound s := by
  refine ⟨fun disk member => ?_, kept.apart, fun empty => ?_⟩
  · obtain ⟨sectorSize, small, block, img, size, holds⟩ := kept.memory (List.ne_nil_of_mem member)
    have info := kept.info disk member
    have bytes : disk.info.size.toNat * disk.info.sectorSize = block.size := by
      rw [info, size]
      dsimp only
      rw [sectorSize]
    exact ⟨block, img, bytes.le, fun i inside => holds disk member i (bytes ▸ inside)⟩
  · rw [kept.count, empty]
    rfl

section Kept
variable [DecidableEq φ] {s : Disks φ} {disk : Disk φ}

theorem Kept.close (kept : Kept s) (k : Nat) : ∃ t, step s (.close k) = some t ∧ Kept t := by
  refine ⟨_, rfl, ?_⟩
  split
  case isTrue inside =>
    have less : ∀ disk ∈ s.images.eraseIdx k, disk ∈ s.images := fun _ member => List.mem_of_mem_eraseIdx member
    refine ⟨?_, fun disk member => kept.info disk (less disk member),
      fun disk member disk' member' => kept.apart disk (less disk member) disk' (less disk' member'), fun some => ?_⟩
    · have count := kept.count
      dsimp only [tdramClose]
      rw [count, List.length_eraseIdx, if_pos inside]
      omega
    · obtain ⟨disk, member⟩ := List.exists_mem_of_ne_nil _ some
      obtain ⟨sectorSize, small, block, img, size, holds⟩ := kept.memory (List.ne_nil_of_mem (less disk member))
      exact ⟨sectorSize, small, block, img, size, fun disk member => holds disk (less disk member)⟩
  case isFalse => exact kept

theorem Kept.open (kept : Kept s) {att : Attempt φ} {rdonly : Bool} {before : Info}
    (fits : Fits s (.open att rdonly before)) :
    ∃ t, step s (.open att rdonly before) = some t ∧ Kept t ∧ t.images ≠ s.images := by
  change if s.images = [] then att.Works before else ∀ disk ∈ s.images, disk.file = att.file at fits
  split at fits
  case isTrue empty =>
    obtain ⟨block, info, run, sectorSize, small, size, holds⟩ :=
      tdramOpen_first fits (kept.count.trans (by rw [empty]; rfl))
    refine ⟨⟨⟨some block, info.sectorSize, info.size, info.info, 1⟩, [⟨att.file, rdonly, info⟩], initialised s att⟩,
      ?_, ⟨rfl, ?_, ?_, fun _ => ⟨sectorSize, small, block, rfl, size, ?_⟩⟩, ?_⟩
    · simp [step, run, empty]
    · simp
    · simp
    · intro disk member i inside
      have content : initialised s att att.file = att.content := by
        rw [initialised, if_neg (by simp [empty]), Function.update_self]
      rw [List.mem_singleton.mp member]
      exact (holds i inside).trans (congrFun content i).symm
    · simp [empty]
  case isFalse some =>
    obtain ⟨other, opened⟩ := List.exists_mem_of_ne_nil _ some
    obtain ⟨sectorSize, small, block, img, size, holds⟩ := kept.memory some
    have more : 0 < s.globals.connections := by
      have count := kept.count
      have pos := List.length_pos_of_mem opened
      omega
    have same : initialised s att = s.last := if_pos ⟨other, opened, fits other opened⟩
    let shared : Info := ⟨s.globals.disksize, s.globals.disksectorSize, s.globals.diskinfo⟩
    have all : ∀ disk ∈ s.images ++ [⟨att.file, rdonly, shared⟩], disk.file = att.file := by
      intro disk member
      rcases List.mem_append.mp member with old | new
      · exact fits disk old
      · rw [List.mem_singleton.mp new]
    refine ⟨⟨{ s.globals with connections := s.globals.connections + 1 }, s.images ++ [⟨att.file, rdonly, shared⟩],
      initialised s att⟩, ?_, ⟨?_, ?_, ?_, fun _ => ⟨sectorSize, small, block, img, size, ?_⟩⟩, ?_⟩
    · simp only [step, tdramOpen_more more, Option.map_some, if_true]
      rfl
    · simp [kept.count]
    · intro disk member
      rcases List.mem_append.mp member with old | new
      · exact kept.info disk old
      · rw [List.mem_singleton.mp new]
    · exact fun disk member disk' member' => (all disk member).trans (all disk' member').symm
    · intro disk member i inside
      have file := (all disk member).trans (fits other opened).symm
      change _ = initialised s att disk.file i
      rw [same, file]
      exact holds other opened i inside
    · simp

omit [DecidableEq φ] in
theorem Kept.range {treq : Bounds.Treq} (kept : Kept s) (member : disk ∈ s.images) (fits : treq.Meets)
    (admitted : checkTdRequest disk.image treq = 0) :
    range disk.info treq = ((sectors treq).1, ((sectors treq).2 : Int)) ∧
      (sectors treq).1 + (sectors treq).2 ≤ s.globals.disksize.toNat * 512 := by
  have info := kept.info disk member
  obtain ⟨sectorSize, small, -⟩ := kept.memory (List.ne_nil_of_mem member)
  have below := (checkTdRequest_inside_iff treq).mpr fits disk.image admitted
  obtain ⟨-, positive, -⟩ := checkTdRequest_accepts.mp admitted
  have size : disk.image.size = s.globals.disksize.toNat := congrArg (UInt64.toNat ∘ Info.size) info
  have most : s.globals.disksize.toNat ≤ 1024000 := small
  have bytes : disk.info.sectorSize = 512 := (congrArg Info.sectorSize info).trans sectorSize
  obtain ⟨secs, same⟩ := Int.eq_ofNat_of_zero_le positive.le
  rw [size, same] at below
  unfold Ram.range sectors
  rw [bytes, same]
  have place : treq.sec * 512 % 2 ^ 64 = treq.sec * 512 := Nat.mod_eq_of_lt (by omega)
  have length : int ((secs : Int) * (512 : Nat)) = ((secs * 512 : Nat) : Int) := by
    rw [← Int.natCast_mul, int, Int.bmod_def]
    omega
  rw [place, length, Int.toNat_natCast]
  exact ⟨rfl, by omega⟩

theorem within_eq {block : Block} {place length : Nat} (inside : place + length ≤ block.size) :
    within (some block) (place, (length : Int)) = some block := by
  simp [within, inside]

theorem Kept.request {treq : Bounds.Treq} (kept : Kept s) (k : Nat) (buf : Nat → UInt8) (fits : treq.Meets) :
    ∃ t, step s (.request k treq buf) = some t ∧ Kept t ∧
      ∀ disk ∈ s.images[k]?, checkTdRequest disk.image treq = 0 → treq.op = TD_OP_READ →
        tdramQueueRead s.globals disk.info treq =
          some (load (s.last disk.file) (sectors treq).1 (sectors treq).2) := by
  cases here : s.images[k]? with
  | none =>
      refine ⟨s, ?_, kept, nofun⟩
      simp only [step, here]
  | some disk =>
      have member := List.mem_of_getElem? here
      by_cases admitted : checkTdRequest disk.image treq = 0
      swap
      · refine ⟨s, ?_, kept, ?_⟩
        · simp only [step, here, if_pos admitted]
        · rintro other ⟨⟩ admitted'
          exact absurd admitted' admitted
      obtain ⟨range, inside⟩ := kept.range member fits admitted
      obtain ⟨sectorSize, small, block, img, size, holds⟩ := kept.memory (List.ne_nil_of_mem member)
      rw [← size] at inside
      have found : within s.globals.img (Ram.range disk.info treq) = some block := by
        rw [range, img, within_eq inside]
      have given : tdramQueueRead s.globals disk.info treq =
          some (load (s.last disk.file) (sectors treq).1 (sectors treq).2) := by
        have same : load block.bytes (sectors treq).1 (sectors treq).2 =
            load (s.last disk.file) (sectors treq).1 (sectors treq).2 :=
          load_congr fun i _ below => holds disk member i (by omega)
        rw [tdramQueueRead, found, Option.map_some, range, Int.toNat_natCast, same]
      by_cases write : treq.op = TD_OP_WRITE
      · let next : Block := ⟨block.size, store block.bytes (sectors treq).1 (load buf 0 (sectors treq).2)⟩
        have stored : tdramQueueWrite s.globals disk.info treq buf = some { s.globals with img := some next } := by
          rw [tdramQueueWrite, found, Option.map_some, range, Int.toNat_natCast]
        refine ⟨⟨{ s.globals with img := some next }, s.images, written s disk.file treq buf⟩, ?_,
          ⟨kept.count, kept.info, kept.apart, fun _ => ⟨sectorSize, small, next, rfl, size, ?_⟩⟩, ?_⟩
        · simp only [step, here, admitted, write, stored, Option.map_some, ne_eq, not_true_eq_false, if_false, if_true]
        · intro other member' i below
          rw [kept.apart other member' disk member]
          change store block.bytes _ _ i = written s disk.file treq buf disk.file i
          rw [written, Function.update_self]
          unfold store
          rw [holds disk member i below]
        · rintro _ ⟨⟩ _ read
          rw [write] at read
          exact absurd read (by decide)
      · refine ⟨s, ?_, kept, ?_⟩
        · simp only [step, here, admitted, write, given, Option.map_some, ne_eq, not_true_eq_false, if_false]
        · rintro _ ⟨⟩ _ _
          exact given

omit [DecidableEq φ] in
theorem kept_first (contents : φ → Nat → UInt8) : Kept (first contents) :=
  ⟨rfl, nofun, nofun, fun some => absurd rfl some⟩

theorem step_kept {e : Event φ} (kept : Kept s) (fits : Fits s e) : Right s e ∧ ∀ t, step s e = some t → Kept t := by
  have unique : ∀ {t t'}, step s e = some t → step s e = some t' → t' = t := fun one two =>
    Option.some.inj (two.symm.trans one)
  cases e with
  | «open» att rdonly before =>
      obtain ⟨t, run, keeps, more⟩ := kept.open fits
      exact ⟨⟨t, run, keeps.sound, fun same => absurd same more⟩, fun t' run' => unique run run' ▸ keeps⟩
  | close k =>
      obtain ⟨t, run, keeps⟩ := kept.close k
      exact ⟨⟨t, run, keeps.sound, trivial⟩, fun t' run' => unique run run' ▸ keeps⟩
  | request k treq buf =>
      obtain ⟨t, run, keeps, gives⟩ := kept.request k buf fits
      exact ⟨⟨t, run, keeps.sound, gives⟩, fun t' run' => unique run run' ▸ keeps⟩

end Kept

/-- **RAM disks.** In every run in which first opens work, later ones are of the file that is open, and no request
wraps, the images are sound, and what happens next is right if it meets these conditions too. -/
theorem disks_right [DecidableEq φ] {contents : φ → Nat → UInt8} {s : Disks φ}
    (run : Run step Fits (first contents) s) : Sound s ∧ ∀ e, Fits s e → Right s e := by
  have kept : Kept s := run.invariant (fun _ _ t kept fits action => (step_kept kept fits).2 t action)
    (kept_first contents)
  exact ⟨kept.sound, fun e fits => (step_kept kept fits).1⟩

def oneSector : Attempt Unit where
  file := ()
  direct := none
  plain := none
  kind := some (.regular 512)
  memory := some fun _ => 0
  errno := 0
  reads := fun _ => 512
  content := fun _ => 7

theorem oneSector_works : oneSector.Works ⟨0, 0, 0⟩ :=
  ⟨rfl, rfl, by decide, rfl, rfl, fun _ _ => rfl⟩

def firstSector : Bounds.Treq := ⟨TD_OP_READ, 0, 1, by decide, by decide, by decide⟩

theorem oneSector_right : ∃ s : Disks Unit, s.images ≠ [] ∧ Sound s ∧ Right s (.request 0 firstSector fun _ => 0) := by
  have fits : Fits (first fun _ _ => 0) (.open oneSector false ⟨0, 0, 0⟩) := oneSector_works
  obtain ⟨t, run, -, more⟩ := (kept_first fun _ _ => 0).open fits
  obtain ⟨sound, right⟩ := disks_right (Run.single fits run)
  exact ⟨t, more, sound, right _ (Or.inr (Or.inr (by decide)))⟩

def missing : Attempt Unit := { oneSector with direct := some 2 }

theorem missing_counts : ¬∀ s : Disks Unit, Run step (fun _ _ => True) (first fun _ _ => 0) s →
    Sound s ∧ ∀ e, Right s e := by
  intro all
  obtain ⟨t, run, sound, -⟩ := (all _ (.refl _)).2 (.open missing false ⟨0, 0, 0⟩)
  cases run
  exact absurd (sound.fresh rfl) (by decide)

end Blktap.Tapdisk.Ram
