import Mathlib.Data.List.TakeWhile
import Blktap.Libvhdindex.Blocks

/-!
# The table of files of an index (`libvhd-index.c`)
-/

namespace Blktap.Libvhdindex
open Lib Libvhd

def eexist : Int := 17
def enametoolong : Int := 36

def vhdMaxNameLen : Nat := 1024

structure Name where
  chars : List UInt8
  no_nul : 0 ∉ chars
  deriving DecidableEq

def Name.join (dir name : Name) : Name where
  chars := dir.chars ++ 0x2f :: name.chars
  no_nul := by
    have first := dir.no_nul
    have second := name.no_nul
    simp only [List.mem_append, List.mem_cons, not_or]
    exact ⟨first, by decide, second⟩

def tableHeaderSize : Nat := 24
def tableEntrySize : Nat := 1052

def tableCookie : List UInt8 := [0x76, 0x68, 0x64, 0x69, 0x66, 0x69, 0x6c, 0x65]

structure FileEntry where
  path : Name
  bytes : Nat
  fileId : Nat
  uuid : List UInt8
  timestamp : Nat

def be16 (byte : Nat → UInt8) (off : Nat) : Nat := (byte off).toNat * 2 ^ 8 + (byte (off + 1)).toNat

def fileEntryOut (entry : FileEntry) : Nat → UInt8 :=
  record [(vhdMaxNameLen, fun p => entry.path.chars.getD p 0), (2, beByte 2 entry.bytes), (2, fun _ => 0),
    word entry.fileId, (16, fun p => entry.uuid.getD p 0), word entry.timestamp]

def nameIn (bytes : Nat → UInt8) (size : Nat) : Name where
  chars := ((List.range size).map bytes).takeWhile (· != 0)
  no_nul := fun member => absurd (List.mem_takeWhile_imp member) (by decide)

def fileEntryIn (bytes : Nat → UInt8) : FileEntry where
  path := nameIn bytes vhdMaxNameLen
  bytes := be16 bytes 1024
  fileId := be32 bytes 1028
  uuid := (List.range 16).map fun i => bytes (1032 + i)
  timestamp := be32 bytes 1048

def vhdiPathValidate (entry : FileEntry) : Except Int Unit :=
  if vhdMaxNameLen - 1 ≤ entry.bytes then .error (-enametoolong)
  else if entry.path.chars.length < entry.bytes then .ok ()
  else .error (-einval)

structure Paths where
  realpath : Name → Except Int Name
  relativePathTo : Name → Except Int Name
  dirname : Name

def result {α : Type} : Except Int α → Outcome α
  | .ok value => .ok value
  | .error code => .error code

def Paths.vhdiPathExpand (paths : Paths) (name : Name) : Except Int Name := do
  let path ← paths.realpath (paths.dirname.join name)
  if vhdMaxNameLen - 1 ≤ path.chars.length then .error (-enametoolong) else .ok path

def Paths.vhdiCopyPathTo (paths : Paths) (file : Name) : Except Int (Name × Nat) := do
  let path ← paths.realpath file
  let relative ← paths.relativePathTo path
  if vhdMaxNameLen - 1 ≤ relative.chars.length then .error (-enametoolong)
  else .ok (relative, relative.chars.length + 1)

structure Ref where
  fileId : Nat
  path : Name

inductive Call
  | openTable
  | readHeader
  | memory
  | readEntries
  | openAgain
  | readAgain
  deriving DecidableEq

/-- A file that is added, and what the system does in the call. The structure that the table is loaded into is not
initialised; `clean` says that it happens to be zero. -/
structure Add where
  file : Name
  clean : Bool
  fails : Call → Option Int
  validVhd : FileEntry → Name → Except Int Unit
  found : Except Int (List UInt8 × Nat)
  errno : Int
  entryStop : Option Stop
  headerStop : Option Stop
  truncates : Bool

def Add.loadHeader (add : Add) (call : Call) (table : File) : Outcome (Nat → UInt8) :=
  match add.fails call with
  | some code => .error code
  | none => do
      let header ← table.read 0 tableHeaderSize
      if (List.range 8).map header = tableCookie then .ok header else .error (-einval)

def seekSpurious (off : Nat) : Prop := off % 2 ^ 32 = 2 ^ 32 - 1

instance (off : Nat) : Decidable (seekSpurious off) := inferInstanceAs (Decidable (_ = _))

def Add.loadEntry (add : Add) (paths : Paths) (entry : FileEntry) : Except Int Ref := do
  vhdiPathValidate entry
  let path ← paths.vhdiPathExpand entry.path
  add.validVhd entry path
  .ok ⟨entry.fileId, path⟩

def entriesIn (table : Nat → UInt8) (files : Nat) : List FileEntry :=
  (List.range files).map fun i => fileEntryIn fun p => table (i * tableEntrySize + p)

/-- `vhdi_file_table_load`, into a structure that is not initialised: without files it stays so, and after an
error it is freed. -/
def Add.vhdiFileTableLoad (add : Add) (paths : Paths) (table : File) : Outcome (List Ref) :=
  match add.fails .openTable with
  | some code => .error code
  | none =>
      match add.loadHeader .readHeader table with
      | .error code => if add.clean then .error code else .undefined
      | .undefined => .undefined
      | .ok header =>
          let files := be32 header 8
          if files = 0 then if add.clean then .ok [] else .undefined
          else
            match add.fails .memory with
            | some code => .error code
            | none =>
                let off := be64 header 16
                let size := files * tableEntrySize
                if seekSpurious off then if add.errno = 0 then .undefined else .error (-add.errno)
                else
                  match add.fails .readEntries with
                  | some code => .error code
                  | none =>
                      if maxTransfer < size then .error (-eio)
                      else do
                        let entries ← table.read off size
                        result ((entriesIn entries files).mapM (add.loadEntry paths))

def Add.vhdiFileTableNextFid (add : Add) (paths : Paths) (table : File) : Outcome Nat := do
  let files ← add.vhdiFileTableLoad paths table
  let path ← result (paths.realpath add.file)
  if files.any (·.path == path) then .error (-eexist)
  else .ok ((files.foldl (fun most ref => max most ref.fileId) 0 + 1) % 2 ^ 32)

def Add.entry (add : Add) (paths : Paths) (fid : Nat) : Except Int FileEntry := do
  let (uuid, timestamp) ← add.found
  let (path, bytes) ← paths.vhdiCopyPathTo add.file
  .ok { path, bytes, fileId := fid, uuid, timestamp }

def tableWrite (stop : Option Stop) (off size : Nat) (bytes : Nat → UInt8) : Action File Unit := fun table =>
  match stop with
  | some stop => (.error stop.code, table.put off (min (size - 1) stop.bytes) bytes)
  | none => (.ok (), table.put off size bytes)

def countOne (header : Nat → UInt8) (p : Nat) : UInt8 :=
  if 8 ≤ p ∧ p < 12 then beByte 4 ((be32 header 8 + 1) % 2 ^ 32) (p - 8) else header p

def Add.extend (add : Add) (paths : Paths) (fid off : Nat) (header : Nat → UInt8) : Action File Nat := do
  let entry ← Action.lift (result (add.entry paths fid))
  tableWrite add.entryStop off tableEntrySize (fileEntryOut entry)
  tableWrite add.headerStop 0 tableHeaderSize (countOne header)
  pure fid

def entriesEnd (header : Nat → UInt8) : Nat := (be64 header 16 + tableEntrySize * be32 header 8) % 2 ^ 64

def Add.append (add : Add) (paths : Paths) (fid : Nat) : Action File Nat := do
  let table ← Action.get
  let header ← Action.lift (add.loadHeader .readAgain table)
  if seekSpurious (entriesEnd header) ∧ add.errno = 0 then pure 0
  else
    match ← Action.attempt
      (if seekSpurious (entriesEnd header) then Action.fail (-add.errno)
      else add.extend paths fid (entriesEnd header) header) with
    | .ok fid => pure fid
    | .error code => do
        if entriesEnd header ≠ 0 ∧ add.truncates then
          Action.modify fun table => table.truncate (entriesEnd header)
        Action.fail code

def Add.vhdiFileTableAdd (add : Add) (paths : Paths) : Action File Nat := do
  if vhdMaxNameLen - 1 ≤ add.file.chars.length then Action.fail (-enametoolong)
  else do
    let table ← Action.get
    let fid ← Action.lift (add.vhdiFileTableNextFid paths table)
    match add.fails .openAgain with
    | some code => Action.fail code
    | none => add.append paths fid

end Blktap.Libvhdindex
