import Mathlib.Data.List.GetD
import Blktap.Lib.Packed
import Blktap.Lib.Run
import Blktap.Libvhd.Keeps
import Blktap.Libvhdindex.FileTable

/-! # Additions to the table of files -/

namespace Blktap.Libvhdindex
open Lib Libvhd

def tableOffset : Nat := 512

structure ShowsRef (paths : Paths) (table : File) (off : Nat) (ref : Ref) : Prop where
  inFile : off + tableEntrySize ≤ table.size
  fileId : (fileEntryIn fun p => table.byte (off + p)).fileId = ref.fileId
  valid : vhdiPathValidate (fileEntryIn fun p => table.byte (off + p)) = .ok ()
  path : paths.vhdiPathExpand (fileEntryIn fun p => table.byte (off + p)).path = .ok ref.path

def tableEnd (files : Nat) : Nat := tableOffset + tableEntrySize * files

structure Holds (paths : Paths) (table : File) (refs : List Ref) : Prop where
  inFile : tableHeaderSize ≤ table.size
  cookie : (List.range 8).map table.byte = tableCookie
  files : be32 table.byte 8 = refs.length
  offset : be64 table.byte 16 = tableOffset
  entries : Packed (ShowsRef paths) (fun _ => tableEntrySize) table tableOffset refs (tableEnd refs.length)
  unique : (refs.map Ref.fileId).Nodup

def inTable (files p : Nat) : Prop := p < tableHeaderSize ∨ (tableOffset ≤ p ∧ p < tableEnd files)

def Add.Kept (add : Add) (paths : Paths) (table : File) (refs : List Ref) : Prop :=
  match add.vhdiFileTableAdd paths table with
  | (.ok fid, table') => ∃ path, paths.realpath add.file = .ok path ∧ path ∉ refs.map Ref.path ∧
      Holds paths table' (refs ++ [⟨fid, path⟩])
  | (.error _, table') => Holds paths table' refs ∧ table.Keeps (inTable refs.length) table'
  | (.undefined, _) => False

def nextFid (refs : List Ref) : Nat := (refs.foldl (fun most ref => max most ref.fileId) 0 + 1) % 2 ^ 32

/-- The structure for the table is clean or is filled, and the entry that is written leads back to the file and is the
only one with its number. -/
structure Add.Harmless (add : Add) (paths : Paths) (table : File) (refs : List Ref) : Prop where
  loads : add.clean = true ∨ vhdMaxNameLen - 1 ≤ add.file.chars.length ∨ add.fails .openTable ≠ none ∨
    (add.fails .readHeader = none ∧ refs ≠ [])
  fid : add.entryStop = none → add.headerStop = none → nextFid refs ∉ refs.map Ref.fileId
  path : add.entryStop = none → add.headerStop = none → ∀ path relative bytes, paths.realpath add.file = .ok path →
    paths.vhdiCopyPathTo add.file = .ok (relative, bytes) →
      bytes < vhdMaxNameLen - 1 ∧ paths.vhdiPathExpand relative = .ok path
  header : add.entryStop = none → ∀ stop, add.headerStop = some stop →
    ∀ p < min (tableHeaderSize - 1) stop.bytes, countOne table.byte p = table.byte p

section Entries
variable {bytes bytes' : Nat → UInt8} {entry : FileEntry}

theorem nameIn_chars {name : Name} {size : Nat} (room : name.chars.length < size)
    (same : ∀ p < size, bytes p = name.chars.getD p 0) : nameIn bytes size = name := by
  have split : (List.range size).map bytes = name.chars ++ List.replicate (size - name.chars.length) 0 := by
    apply List.ext_getElem
    · simp only [List.length_map, List.length_range, List.length_append, List.length_replicate]
      omega
    · intro i first second
      rw [List.length_map, List.length_range] at first
      rw [List.getElem_map, List.getElem_range, same i first]
      by_cases inside : i < name.chars.length
      · rw [List.getElem_append_left inside, List.getD_eq_getElem _ _ inside]
      · rw [List.getElem_append_right (by omega), List.getElem_replicate, List.getD_eq_default _ _ (by omega)]
  have nonzero : ∀ c ∈ name.chars, (c != 0) = true := by
    intro c member
    rw [bne_iff_ne]
    exact fun zero => name.no_nul (zero ▸ member)
  have stops : (List.replicate (size - name.chars.length) (0 : UInt8)).takeWhile (· != 0) = [] := by
    cases size - name.chars.length <;> rfl
  obtain ⟨chars, no_nul⟩ := name
  unfold nameIn
  congr 1
  rw [split, List.takeWhile_append_of_pos nonzero, stops, List.append_nil]

theorem be16_beByte {value off : Nat} (bound : value < 2 ^ 16)
    (same : ∀ i < 2, bytes (off + i) = beByte 2 value i) : be16 bytes off = value := by
  have first := same 0 (by omega)
  have second := same 1 (by omega)
  unfold beByte at first second
  rw [Nat.add_zero] at first
  unfold be16
  rw [first, second]
  simp only [UInt8.toNat_ofNat', Nat.reduceMul, Nat.reduceSub, Nat.reducePow]
  omega

theorem fileEntryIn_out (path : entry.path.chars.length < vhdMaxNameLen) (size : entry.bytes < 2 ^ 16)
    (fileId : entry.fileId < 2 ^ 32) (same : ∀ p < tableEntrySize, bytes p = fileEntryOut entry p) :
    (fileEntryIn bytes).path = entry.path ∧ (fileEntryIn bytes).bytes = entry.bytes ∧
      (fileEntryIn bytes).fileId = entry.fileId := by
  unfold tableEntrySize at same
  refine ⟨nameIn_chars path fun p small => ?_, be16_beByte size fun i small => ?_, ?_⟩
  · rw [same p (lt_trans small (by decide))]
    exact if_pos small
  · rw [same _ (by omega)]
    exact record_place [(vhdMaxNameLen, fun p => entry.path.chars.getD p 0)] 2 (beByte 2 entry.bytes) _ small
  · exact be32_record [(vhdMaxNameLen, fun p => entry.path.chars.getD p 0), (2, beByte 2 entry.bytes),
      (2, fun _ => 0)] _ fileId fun i small => same (1028 + i) (by omega)

theorem fileEntryIn_congr (same : ∀ p < tableEntrySize, bytes p = bytes' p) :
    fileEntryIn bytes = fileEntryIn bytes' := by
  unfold tableEntrySize at same
  have path : (List.range vhdMaxNameLen).map bytes = (List.range vhdMaxNameLen).map bytes' :=
    List.map_congr_left fun p member => same p (lt_trans (List.mem_range.mp member) (by decide))
  have fileId : be32 bytes 1028 = be32 bytes' 1028 := be32_congr fun i small => same (1028 + i) (by omega)
  have timestamp : be32 bytes 1048 = be32 bytes' 1048 := be32_congr fun i small => same (1048 + i) (by omega)
  have uuid : ((List.range 16).map fun i => bytes (1032 + i)) = (List.range 16).map fun i => bytes' (1032 + i) :=
    List.map_congr_left fun i member => same (1032 + i) (by have := List.mem_range.mp member; omega)
  unfold fileEntryIn nameIn be16
  simp only [path, fileId, timestamp, uuid, same 1024 (by decide), same (1024 + 1) (by decide)]

end Entries

section Tables
variable {paths : Paths} {table table' : File} {refs : List Ref} {ref : Ref} {off stop : Nat} {add : Add}

theorem ShowsRef.frame (shows : ShowsRef paths table off ref)
    (keeps : table.Keeps (fun p => off ≤ p ∧ p < off + tableEntrySize) table') : ShowsRef paths table' off ref := by
  have positive : 0 < tableEntrySize := by decide
  have same : (fileEntryIn fun p => table'.byte (off + p)) = fileEntryIn fun p => table.byte (off + p) :=
    fileEntryIn_congr fun p small => (keeps (off + p) ⟨by omega, by omega⟩).2
  have last := (keeps (off + tableEntrySize - 1) ⟨by omega, by omega⟩).1
  obtain ⟨_, fileId, valid, path⟩ := shows
  rw [← same] at fileId valid path
  exact ⟨by omega, fileId, valid, path⟩

theorem tableEnd_succ (files : Nat) : tableEnd (files + 1) = tableEnd files + tableEntrySize := by
  unfold tableEnd
  rw [Nat.mul_succ, Nat.add_assoc]

theorem Packed.inFile (packed : Packed (ShowsRef paths) (fun _ => tableEntrySize) table off refs stop)
    (some : refs ≠ []) : stop ≤ table.size := by
  induction refs generalizing off with
  | nil => exact absurd rfl some
  | cons ref rest ih =>
      cases rest with
      | nil =>
          rw [← packed.2]
          exact packed.1.inFile
      | cons next rest => exact ih packed.2 (List.cons_ne_nil _ _)

theorem Holds.inside (holds : Holds paths table refs) : ∀ p, inTable refs.length p → p < table.size := by
  rintro p (header | ⟨first, last⟩)
  · exact lt_of_lt_of_le header holds.inFile
  · have some : refs ≠ [] := by
      rintro rfl
      exact absurd last (Nat.not_lt.mpr first)
    exact lt_of_lt_of_le last (Packed.inFile holds.entries some)

theorem Holds.keep (holds : Holds paths table refs) (keeps : table.Keeps (inTable refs.length) table') :
    Holds paths table' refs := by
  have header : ∀ p < tableHeaderSize, table'.byte p = table.byte p := fun p small => (keeps p (.inl small)).2
  unfold tableHeaderSize at header
  refine ⟨(keeps (tableHeaderSize - 1) (.inl (by decide))).1, ?_, ?_, ?_, ?_, holds.unique⟩
  · rw [← holds.cookie]
    exact List.map_congr_left fun p member => header p (by have := List.mem_range.mp member; omega)
  · rw [← holds.files]
    exact be32_congr fun i small => header (8 + i) (by omega)
  · rw [← holds.offset]
    exact be64_congr fun i small => header (16 + i) (by omega)
  · refine holds.entries.frame fun at' ref first last shows => shows.frame (keeps.mono fun p inside => .inr ?_)
    exact ⟨by omega, by omega⟩

theorem entriesIn_succ (bytes : Nat → UInt8) (files : Nat) : entriesIn bytes (files + 1) =
    fileEntryIn bytes :: entriesIn (fun p => bytes (tableEntrySize + p)) files := by
  have first : (fun p => bytes (0 * tableEntrySize + p)) = bytes := funext fun p => by rw [Nat.zero_mul, Nat.zero_add]
  have rest : ∀ i, (fun p => bytes ((i + 1) * tableEntrySize + p)) =
      fun p => bytes (tableEntrySize + (i * tableEntrySize + p)) := fun i => funext fun p => by
    rw [Nat.succ_mul, Nat.add_comm (i * tableEntrySize), Nat.add_assoc]
  unfold entriesIn
  rw [List.range_succ_eq_map, List.map_cons, List.map_map, first]
  refine congrArg _ (List.map_congr_left fun i _ => ?_)
  exact congrArg fileEntryIn (rest i)

theorem both_ok {α β : Type} {x : Except Int α} {f : α → Except Int β} {b : β} (returns : (x >>= f) = .ok b) :
    ∃ a, x = .ok a ∧ f a = .ok b := by
  cases x with
  | error code => cases returns
  | ok a => exact ⟨a, rfl, returns⟩

theorem loadEntry_eq {entry : FileEntry} {ref' : Ref} (fileId : entry.fileId = ref.fileId)
    (path : paths.vhdiPathExpand entry.path = .ok ref.path) (loaded : add.loadEntry paths entry = .ok ref') :
    ref' = ref := by
  unfold Add.loadEntry at loaded
  obtain ⟨_, _, loaded⟩ := both_ok loaded
  obtain ⟨path', expands, loaded⟩ := both_ok loaded
  obtain ⟨_, _, loaded⟩ := both_ok loaded
  cases path.symm.trans expands
  cases loaded
  rw [fileId]

theorem loadEntries (packed : Packed (ShowsRef paths) (fun _ => tableEntrySize) table off refs stop)
    {files : List Ref}
    (loaded : (entriesIn (fun p => table.byte (off + p)) refs.length).mapM (add.loadEntry paths) = .ok files) :
    files = refs := by
  induction refs generalizing off files with
  | nil =>
      cases loaded
      rfl
  | cons ref rest ih =>
      obtain ⟨shows, packed⟩ := packed
      have shift : (fun p => table.byte (off + (tableEntrySize + p))) =
          fun p => table.byte (off + tableEntrySize + p) := funext fun p => by rw [Nat.add_assoc]
      rw [List.length_cons, entriesIn_succ, List.mapM_cons, shift] at loaded
      obtain ⟨ref', first, loaded⟩ := both_ok loaded
      obtain ⟨files', others, loaded⟩ := both_ok loaded
      cases loaded
      rw [loadEntry_eq shows.fileId shows.path first, ih packed others]

theorem result_cases {α : Type} (x : Except Int α) :
    (∃ a, x = .ok a ∧ result x = .ok a) ∨ ∃ code, result x = .error code := by
  cases x with
  | ok a => exact .inl ⟨a, rfl, rfl⟩
  | error code => exact .inr ⟨code, rfl⟩

theorem loadHeader_cases (holds : Holds paths table refs) (add : Add) (call : Call) :
    (add.fails call = none ∧ add.loadHeader call table = .ok table.byte) ∨
      ∃ code, add.fails call = some code ∧ add.loadHeader call table = .error code := by
  unfold Add.loadHeader
  cases fails : add.fails call with
  | some code => exact .inr ⟨code, rfl, rfl⟩
  | none =>
      have reads : table.read 0 tableHeaderSize = .ok fun i => table.byte (0 + i) :=
        if_pos (.inr (by rw [Nat.zero_add]; exact holds.inFile))
      simp only [Nat.zero_add] at reads
      refine .inl ⟨rfl, ?_⟩
      dsimp only
      rw [reads, Outcome.ok_bind]
      exact if_pos holds.cookie

theorem load_cases (holds : Holds paths table refs)
    (loads : add.clean = true ∨ add.fails .openTable ≠ none ∨ (add.fails .readHeader = none ∧ refs ≠ [])) :
    (add.vhdiFileTableLoad paths table = .ok refs ∧ refs.length * tableEntrySize ≤ maxTransfer) ∨
      ∃ code, add.vhdiFileTableLoad paths table = .error code := by
  unfold Add.vhdiFileTableLoad
  cases opens : add.fails .openTable with
  | some code => exact .inr ⟨code, rfl⟩
  | none =>
      have loads : add.clean = true ∨ (add.fails .readHeader = none ∧ refs ≠ []) := by
        rcases loads with clean | stuck | some
        · exact .inl clean
        · exact absurd opens stuck
        · exact .inr some
      rcases loadHeader_cases holds add .readHeader with ⟨reads, header⟩ | ⟨code, stuck, header⟩
      · rw [header]
        dsimp only
        rw [holds.files, holds.offset]
        by_cases none : refs.length = 0
        · have clean : add.clean = true := by
            rcases loads with clean | ⟨_, some⟩
            · exact clean
            · exact absurd (List.length_eq_zero_iff.mp none) some
          rw [if_pos none, if_pos clean, none, List.length_eq_zero_iff.mp none]
          exact .inl ⟨rfl, Nat.zero_le _⟩
        rw [if_neg none]
        cases memory : add.fails .memory with
        | some code => exact .inr ⟨code, rfl⟩
        | none =>
            dsimp only
            rw [if_neg (by unfold seekSpurious tableOffset; omega)]
            cases entries : add.fails .readEntries with
            | some code => exact .inr ⟨code, rfl⟩
            | none =>
                dsimp only
                by_cases large : maxTransfer < refs.length * tableEntrySize
                · rw [if_pos large]
                  exact .inr ⟨_, rfl⟩
                · have inFile := Packed.inFile holds.entries fun nil => none (List.length_eq_zero_iff.mpr nil)
                  have reads : table.read tableOffset (refs.length * tableEntrySize) =
                      .ok fun i => table.byte (tableOffset + i) :=
                    if_pos (.inr (by rw [Nat.mul_comm]; exact inFile))
                  rw [if_neg large, reads, Outcome.ok_bind]
                  rcases result_cases ((entriesIn (fun i => table.byte (tableOffset + i)) refs.length).mapM
                    (add.loadEntry paths)) with ⟨files, loaded, returns⟩ | ⟨code, fails⟩
                  · rw [loadEntries holds.entries loaded] at returns
                    exact .inl ⟨returns, Nat.not_lt.mp large⟩
                  · exact .inr ⟨code, fails⟩
      · have clean : add.clean = true := by
          rcases loads with clean | ⟨reads, _⟩
          · exact clean
          · rw [reads] at stuck
            cases stuck
        rw [header]
        dsimp only
        rw [if_pos clean]
        exact .inr ⟨code, rfl⟩

theorem nextFid_cases (holds : Holds paths table refs)
    (loads : add.clean = true ∨ add.fails .openTable ≠ none ∨ (add.fails .readHeader = none ∧ refs ≠ [])) :
    (∃ path, paths.realpath add.file = .ok path ∧ path ∉ refs.map Ref.path ∧
      refs.length * tableEntrySize ≤ maxTransfer ∧ add.vhdiFileTableNextFid paths table = .ok (nextFid refs)) ∨
      ∃ code, add.vhdiFileTableNextFid paths table = .error code := by
  unfold Add.vhdiFileTableNextFid
  rcases load_cases holds loads with ⟨loaded, small⟩ | ⟨code, fails⟩
  · rw [loaded, Outcome.ok_bind]
    rcases result_cases (paths.realpath add.file) with ⟨path, real, returns⟩ | ⟨code, fails⟩
    · rw [returns, Outcome.ok_bind]
      by_cases there : (refs.any (·.path == path)) = true
      · rw [if_pos there]
        exact .inr ⟨_, rfl⟩
      · rw [if_neg there]
        refine .inl ⟨path, real, fun member => there ?_, small, rfl⟩
        obtain ⟨ref, listed, same⟩ := List.mem_map.mp member
        exact List.any_eq_true.mpr ⟨ref, listed, beq_iff_eq.mpr same⟩
    · rw [fails]
      exact .inr ⟨code, rfl⟩
  · rw [fails]
    exact .inr ⟨code, rfl⟩

theorem countOne_fields {bytes header : Nat → UInt8} (same : ∀ p < tableHeaderSize, bytes p = countOne header p) :
    (List.range 8).map bytes = (List.range 8).map header ∧
      be32 bytes 8 = (be32 header 8 + 1) % 2 ^ 32 ∧ be64 bytes 16 = be64 header 16 := by
  unfold tableHeaderSize at same
  refine ⟨?_, ?_, ?_⟩
  · refine List.map_congr_left fun p member => ?_
    have small := List.mem_range.mp member
    rw [same p (by omega)]
    exact if_neg (by omega)
  · refine be32_beByte (Nat.mod_lt _ (by decide)) fun i small => ?_
    rw [same (8 + i) (by omega)]
    unfold countOne
    rw [if_pos (by omega), Nat.add_sub_cancel_left]
  · refine be64_congr fun i small => ?_
    rw [same (16 + i) (by omega)]
    exact if_neg (by omega)

theorem showsRef_written {entry : FileEntry} {path : Name} (inFile : off + tableEntrySize ≤ table.size)
    (same : ∀ p < tableEntrySize, table.byte (off + p) = fileEntryOut entry p)
    (length : entry.bytes = entry.path.chars.length + 1) (small : entry.bytes < vhdMaxNameLen - 1)
    (fileId : entry.fileId < 2 ^ 32) (expands : paths.vhdiPathExpand entry.path = .ok path) :
    ShowsRef paths table off ⟨entry.fileId, path⟩ := by
  unfold vhdMaxNameLen at small
  have fields := fileEntryIn_out (by unfold vhdMaxNameLen; omega) (by omega) fileId same
  refine ⟨inFile, fields.2.2, ?_, ?_⟩
  · unfold vhdiPathValidate
    rw [fields.1, fields.2.1, if_neg (by unfold vhdMaxNameLen; omega), if_pos (by omega)]
  · rw [fields.1]
    exact expands

theorem holds_added {entry : FileEntry} {path : Name} (holds : Holds paths table refs)
    (room : refs.length + 1 < 2 ^ 32) (length : entry.bytes = entry.path.chars.length + 1)
    (small : entry.bytes < vhdMaxNameLen - 1) (expands : paths.vhdiPathExpand entry.path = .ok path)
    (fileId : entry.fileId < 2 ^ 32) (fresh : entry.fileId ∉ refs.map Ref.fileId) :
    Holds paths ((table.put (tableEnd refs.length) tableEntrySize (fileEntryOut entry)).put 0 tableHeaderSize
      (countOne table.byte)) (refs ++ [⟨entry.fileId, path⟩]) := by
  have sizes : tableHeaderSize = 24 ∧ tableOffset = 512 ∧ tableEntrySize = 1052 := ⟨rfl, rfl, rfl⟩
  have start : tableOffset ≤ tableEnd refs.length := Nat.le_add_right _ _
  have reach : tableEnd refs.length + tableEntrySize ≤
      (table.put (tableEnd refs.length) tableEntrySize (fileEntryOut entry)).size := File.put_reach (by decide)
  have larger := File.le_put_size (table.put (tableEnd refs.length) tableEntrySize (fileEntryOut entry)) 0
    tableHeaderSize (countOne table.byte)
  have header : ∀ p < tableHeaderSize, ((table.put (tableEnd refs.length) tableEntrySize (fileEntryOut entry)).put 0
      tableHeaderSize (countOne table.byte)).byte p = countOne table.byte p :=
    fun p inside => if_pos ⟨Nat.zero_le _, by omega⟩
  have fields := countOne_fields header
  have behind : ∀ p, tableOffset ≤ p → p < tableEnd refs.length → p < table.size := fun p first last =>
    holds.inside p (.inr ⟨first, last⟩)
  have entries : table.Keeps (fun p => tableOffset ≤ p ∧ p < tableEnd refs.length)
      ((table.put (tableEnd refs.length) tableEntrySize (fileEntryOut entry)).put 0 tableHeaderSize
        (countOne table.byte)) := by
    have first : table.Keeps (fun p => tableOffset ≤ p ∧ p < tableEnd refs.length)
        (table.put (tableEnd refs.length) tableEntrySize (fileEntryOut entry)) :=
      File.keeps_put (fun p inside => behind p inside.1 inside.2) fun p inside => .inl inside.2
    exact first.trans (File.keeps_put (fun p inside => (first p inside).1) fun p inside => .inr (by omega))
  have last : (table.put (tableEnd refs.length) tableEntrySize (fileEntryOut entry)).Keeps
      (fun p => tableEnd refs.length ≤ p ∧ p < tableEnd refs.length + tableEntrySize)
      ((table.put (tableEnd refs.length) tableEntrySize (fileEntryOut entry)).put 0 tableHeaderSize
        (countOne table.byte)) :=
    File.keeps_put (fun p inside => by omega) fun p inside => .inr (by omega)
  refine ⟨by omega, fields.1.trans holds.cookie, ?_, fields.2.2.trans holds.offset, ?_, ?_⟩
  · rw [fields.2.1, holds.files, Nat.mod_eq_of_lt room, List.length_append]
    rfl
  · rw [List.length_append, List.length_singleton, tableEnd_succ]
    have kept := holds.entries.frame fun at' ref first last shows =>
      ShowsRef.frame shows (entries.mono fun p inside => ⟨by omega, by omega⟩)
    refine kept.snoc (showsRef_written (by omega) (fun p inside => ?_) length small fileId expands)
    rw [(last _ ⟨by omega, by omega⟩).2, File.put_inside (by omega) (by omega), Nat.add_sub_cancel_left]
  · rw [List.map_append, List.nodup_append]
    refine ⟨holds.unique, List.nodup_singleton _, ?_⟩
    rintro a member b single rfl
    rw [List.map_singleton, List.mem_singleton] at single
    rw [single] at member
    exact fresh member

end Tables

section Additions
variable {paths : Paths} {table : File} {refs : List Ref} {add : Add} {fid : Nat}

theorem entry_ok {entry : FileEntry} (made : add.entry paths fid = .ok entry) :
    entry.fileId = fid ∧ paths.vhdiCopyPathTo add.file = .ok (entry.path, entry.bytes) := by
  unfold Add.entry at made
  obtain ⟨⟨uuid, timestamp⟩, _, made⟩ := both_ok made
  obtain ⟨⟨path, bytes⟩, copied, made⟩ := both_ok made
  cases made
  exact ⟨rfl, copied⟩

theorem copied_bytes {file relative : Name} {bytes : Nat} (copied : paths.vhdiCopyPathTo file = .ok (relative, bytes)) :
    bytes = relative.chars.length + 1 := by
  unfold Paths.vhdiCopyPathTo at copied
  obtain ⟨path, _, copied⟩ := both_ok copied
  obtain ⟨found, _, copied⟩ := both_ok copied
  split at copied
  · cases copied
  · cases copied
    rfl

theorem keeps_entry (holds : Holds paths table refs) (size : Nat) (bytes : Nat → UInt8) :
    table.Keeps (inTable refs.length) (table.put (tableEnd refs.length) size bytes) := by
  refine File.keeps_put holds.inside fun p member => .inl ?_
  rcases member with header | entry
  · exact lt_of_lt_of_le header (le_trans (by decide) (Nat.le_add_right tableOffset _))
  · exact entry.2

theorem keeps_cut {file : File} (holds : Holds paths file refs) :
    file.Keeps (inTable refs.length) (file.truncate (tableEnd refs.length)) := by
  intro p member
  have inside := holds.inside p member
  have before : p < tableEnd refs.length := by
    rcases member with header | entry
    · exact lt_of_lt_of_le header (le_trans (by decide) (Nat.le_add_right tableOffset _))
    · exact entry.2
  exact ⟨before, if_pos ⟨before, inside⟩⟩

theorem keeps_torn {file : File} {size : Nat} (inside : ∀ p, inTable refs.length p → p < file.size)
    {bytes : Nat → UInt8} (same : ∀ p < size, bytes p = file.byte p) :
    file.Keeps (inTable refs.length) (file.put 0 size bytes) := by
  intro p member
  have within := inside p member
  refine ⟨lt_of_lt_of_le within (File.le_put_size ..), ?_⟩
  by_cases torn : p < size
  · rw [File.put_inside (Nat.zero_le _) (by omega)]
    exact same p torn
  · unfold File.put
    dsimp only
    rw [if_neg (by omega), if_pos within]

theorem extend_cases (holds : Holds paths table refs) (harmless : add.Harmless paths table refs) {path : Name}
    (real : paths.realpath add.file = .ok path) (small : refs.length * tableEntrySize ≤ maxTransfer) :
    (∃ table', add.extend paths (nextFid refs) (tableEnd refs.length) table.byte table = (.ok (nextFid refs), table') ∧
      Holds paths table' (refs ++ [⟨nextFid refs, path⟩])) ∨
    ∃ code table', add.extend paths (nextFid refs) (tableEnd refs.length) table.byte table = (.error code, table') ∧
      table.Keeps (inTable refs.length) table' := by
  unfold Add.extend
  cases made : add.entry paths (nextFid refs) with
  | error code => exact .inr ⟨code, table, rfl, .refl holds.inside⟩
  | ok entry =>
      obtain ⟨fileId, copied⟩ := entry_ok made
      unfold result
      dsimp only
      rw [Action.lift_ok_bind]
      cases entryStop : add.entryStop with
      | some stop => exact .inr ⟨stop.code, _, Action.bind_error rfl, keeps_entry holds _ _⟩
      | none =>
          have wrote : tableWrite none (tableEnd refs.length) tableEntrySize (fileEntryOut entry) table =
              (.ok (), table.put (tableEnd refs.length) tableEntrySize (fileEntryOut entry)) := rfl
          have keeps := keeps_entry holds tableEntrySize (fileEntryOut entry)
          rw [Action.ok_bind wrote]
          cases headerStop : add.headerStop with
          | some stop =>
              refine .inr ⟨stop.code, _, Action.bind_error rfl, keeps.trans (keeps_torn (fun p member =>
                (keeps p member).1) fun p torn => ?_)⟩
              have header : p < tableHeaderSize := lt_of_lt_of_le (lt_min_iff.mp torn).1 (Nat.sub_le _ _)
              rw [(keeps p (.inl header)).2]
              exact harmless.header entryStop stop headerStop p torn
          | none =>
              obtain ⟨short, expands⟩ := harmless.path entryStop headerStop _ _ _ real copied
              have fresh := harmless.fid entryStop headerStop
              rw [← fileId] at fresh ⊢
              have room : refs.length + 1 < 2 ^ 32 := by
                unfold tableEntrySize maxTransfer at small
                omega
              have bound : entry.fileId < 2 ^ 32 := by
                rw [fileId]
                exact Nat.mod_lt _ (by decide)
              exact .inl ⟨_, rfl, holds_added holds room (copied_bytes copied) short expands bound fresh⟩

theorem seek_sound (files : Nat) : ¬ seekSpurious (tableEnd files) := by
  unfold seekSpurious tableEnd tableOffset tableEntrySize
  omega

theorem entriesEnd_eq (holds : Holds paths table refs) : entriesEnd table.byte = tableEnd refs.length := by
  have room := be32_lt table.byte 8
  unfold entriesEnd
  rw [holds.offset, ← holds.files]
  refine Nat.mod_eq_of_lt ?_
  unfold tableOffset tableEntrySize
  omega

theorem addAppend_cases (holds : Holds paths table refs) (harmless : add.Harmless paths table refs) {path : Name}
    (real : paths.realpath add.file = .ok path) (small : refs.length * tableEntrySize ≤ maxTransfer) :
    (∃ table', add.append paths (nextFid refs) table = (.ok (nextFid refs), table') ∧
      Holds paths table' (refs ++ [⟨nextFid refs, path⟩])) ∨
    ∃ code table', add.append paths (nextFid refs) table = (.error code, table') ∧
      table.Keeps (inTable refs.length) table' := by
  unfold Add.append
  rw [Action.get_bind]
  rcases loadHeader_cases holds add .readAgain with ⟨_, header⟩ | ⟨code, _, header⟩
  case inr =>
    rw [header]
    exact .inr ⟨code, table, Action.lift_error_bind code _, .refl holds.inside⟩
  have sound := seek_sound refs.length
  rw [header, Action.lift_ok_bind, entriesEnd_eq holds, if_neg fun spurious => sound spurious.1, if_neg sound]
  rcases extend_cases holds harmless real small with ⟨table', writes, added⟩ | ⟨code, table', fails, keeps⟩
  · rw [Action.ok_bind (Action.attempt_ok writes)]
    exact .inl ⟨table', rfl, added⟩
  · rw [Action.ok_bind (Action.attempt_error fails)]
    dsimp only
    by_cases cut : tableEnd refs.length ≠ 0 ∧ add.truncates = true
    · rw [if_pos cut]
      exact .inr ⟨code, _, rfl, keeps.trans (keeps_cut (holds.keep keeps))⟩
    · rw [if_neg cut]
      exact .inr ⟨code, table', rfl, keeps⟩

theorem add_kept (holds : Holds paths table refs) (harmless : add.Harmless paths table refs) :
    add.Kept paths table refs := by
  have unchanged : Holds paths table refs ∧ table.Keeps (inTable refs.length) table :=
    ⟨holds, .refl holds.inside⟩
  unfold Add.Kept Add.vhdiFileTableAdd
  by_cases long : vhdMaxNameLen - 1 ≤ add.file.chars.length
  · rw [if_pos long]
    exact unchanged
  have loads : add.clean = true ∨ add.fails .openTable ≠ none ∨ (add.fails .readHeader = none ∧ refs ≠ []) := by
    rcases harmless.loads with clean | tooLong | rest
    · exact .inl clean
    · exact absurd tooLong long
    · exact .inr rest
  rw [if_neg long, Action.get_bind]
  rcases nextFid_cases holds loads with ⟨path, real, fresh, small, found⟩ | ⟨code, fails⟩
  case inr =>
    rw [fails, Action.lift_error_bind]
    exact unchanged
  rw [found, Action.lift_ok_bind]
  cases opens : add.fails .openAgain with
  | some code => exact unchanged
  | none =>
      dsimp only
      rcases addAppend_cases holds harmless real small with ⟨table', adds, added⟩ | ⟨code, table', fails, keeps⟩
      · rw [adds]
        exact ⟨path, real, fresh, added⟩
      · rw [fails]
        exact ⟨holds.keep keeps, keeps⟩

end Additions

def stepAdd (paths : Paths) (s : File × List Ref) (add : Add) : Option (File × List Ref) :=
  match add.vhdiFileTableAdd paths s.1, paths.realpath add.file with
  | (.ok fid, table), .ok path => some (table, s.2 ++ [⟨fid, path⟩])
  | (.ok _, _), .error _ => none
  | (.error _, table), _ => some (table, s.2)
  | (.undefined, _), _ => none

theorem stepAdd_holds {paths : Paths} {s t : File × List Ref} {add : Add} (holds : Holds paths s.1 s.2)
    (harmless : add.Harmless paths s.1 s.2) (action : stepAdd paths s add = some t) : Holds paths t.1 t.2 := by
  have kept := add_kept holds harmless
  unfold Add.Kept at kept
  unfold stepAdd at action
  generalize add.vhdiFileTableAdd paths s.1 = added at kept action
  rcases added with ⟨fid | code | _, table⟩
  · obtain ⟨path, real, _, added⟩ := kept
    rw [real] at action
    cases action
    exact added
  · cases action
    exact kept.1
  · exact kept.elim

/-- In runs whose additions are harmless, the table on disk has the files that were added, each with its number, and
they are what is loaded of it. -/
theorem file_table_holds {paths : Paths} {s t : File × List Ref} (start : Holds paths s.1 s.2)
    (run : Run (stepAdd paths) (fun s add => add.Harmless paths s.1 s.2) s t) :
    Holds paths t.1 t.2 ∧
      (∀ (add : Add) files, add.clean = true → add.vhdiFileTableLoad paths t.1 = .ok files → files = t.2) ∧
      ∀ add : Add, add.Harmless paths t.1 t.2 → add.Kept paths t.1 t.2 := by
  have holds := run.invariant (I := fun s => Holds paths s.1 s.2)
    (fun _ _ _ holds harmless action => stepAdd_holds holds harmless action) start
  refine ⟨holds, fun add files clean loaded => ?_, fun add harmless => add_kept holds harmless⟩
  rcases load_cases holds (.inl clean) with ⟨same, _⟩ | ⟨code, fails⟩
  · rw [same] at loaded
    cases loaded
    rfl
  · rw [fails] at loaded
    cases loaded

section Samples

def sampleFile : Name := ⟨[0x2f, 0x61], by decide⟩
def sampleRelative : Name := ⟨[0x2e, 0x2f, 0x61], by decide⟩

def samplePaths : Paths where
  realpath name :=
    if name = sampleFile ∨ name.chars = [0x2f, 0x2f, 0x2e, 0x2f, 0x61] then .ok sampleFile else .error (-2)
  relativePathTo path := if path = sampleFile then .ok sampleRelative else .error (-2)
  dirname := ⟨[0x2f], by decide⟩

def emptyTable : File := ⟨24, fun p => (tableCookie ++ [0, 0, 0, 0, 0, 0, 0, 0, 0, 0, 0, 0, 0, 0, 2]).getD p 0⟩

def sampleAdd (clean : Bool) : Add where
  file := sampleFile
  clean := clean
  fails _ := none
  validVhd _ _ := .ok ()
  found := .ok ([], 0)
  errno := 0
  entryStop := none
  headerStop := none
  truncates := true

theorem emptyTable_holds : Holds samplePaths emptyTable [] where
  inFile := by decide
  cookie := by decide
  files := by decide
  offset := by decide
  entries := rfl
  unique := List.nodup_nil

theorem sampleAdd_harmless : (sampleAdd true).Harmless samplePaths emptyTable [] where
  loads := .inl rfl
  fid _ _ := List.not_mem_nil
  path _ _ path relative bytes real copied := by
    cases real
    cases copied
    exact ⟨by decide, rfl⟩
  header _ _ none := by cases none

theorem sampleAdd_step : stepAdd samplePaths (emptyTable, []) (sampleAdd true) =
    some (((sampleAdd true).vhdiFileTableAdd samplePaths emptyTable).2, [⟨1, sampleFile⟩]) := rfl

theorem firstFile_added :
    Holds samplePaths ((sampleAdd true).vhdiFileTableAdd samplePaths emptyTable).2 [⟨1, sampleFile⟩] :=
  (file_table_holds emptyTable_holds (.single sampleAdd_harmless sampleAdd_step)).1

theorem firstFile_undefined : Holds samplePaths emptyTable [] ∧
    ((sampleAdd false).vhdiFileTableAdd samplePaths emptyTable).1 = .undefined ∧
    ¬ (sampleAdd false).Kept samplePaths emptyTable [] :=
  ⟨emptyTable_holds, rfl, id⟩

end Samples

end Blktap.Libvhdindex
