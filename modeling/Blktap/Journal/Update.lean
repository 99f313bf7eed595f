import Blktap.Lib.Record
import Blktap.Libvhd.Device

/-!
# The undo log of an image (`libvhd-journal.c`)

A journal is a header and the entries behind it; an entry has a head of 32 bytes and its data. The header is
kept in memory too. `vhd_journal_update` writes an entry behind the last one, and the header after it.
-/

namespace Blktap.Journal
open Lib Libvhd

def headerSize : Nat := 512
def entrySize : Nat := 32

def typeData : Nat := 8

def headerCookie : List UInt8 := [0x76, 0x6a, 0x6f, 0x75, 0x72, 0x6e, 0x61, 0x6c]

def entryCookie : Nat := 0xaaaa12344321aaaa

structure Group where
  entries : UInt32
  offset : UInt64

structure Header where
  uuid : Nat → UInt8
  vhdFooterOffset : UInt64
  data : Group
  metadata : Group
  eof : UInt64

def Header.group (header : Header) (isData : Bool) : Group := if isData then header.data else header.metadata

def Header.setGroup (header : Header) (isData : Bool) (group : Group) (eof : UInt64) : Header :=
  if isData then { header with data := group, eof } else { header with metadata := group, eof }

/-- `vhd_journal_header_out`, which leaves `journal_eof` in the order of the host. -/
def headerOut (header : Header) : Nat → UInt8 :=
  record [(8, fun p => headerCookie.getD p 0), (16, header.uuid),
    double header.vhdFooterOffset.toNat, word header.data.entries.toNat, word header.metadata.entries.toNat,
    double header.data.offset.toNat, double header.metadata.offset.toNat, (8, leByte header.eof.toNat)]

structure Entry where
  type : Nat
  size : Nat
  offset : Nat
  checksum : Nat
  pad : Nat

def entryBytes (entry : Entry) : Nat → UInt8 :=
  record [(8, leByte entryCookie), (4, leByte entry.type), (4, leByte entry.size), (8, leByte entry.offset),
    (4, leByte entry.checksum), word entry.pad]

def entryOut (entry : Entry) : Nat → UInt8 :=
  record [double entryCookie, word entry.type, word entry.size, double entry.offset, word entry.checksum,
    word entry.pad]

def sumBytes (size : Nat) (byte : Nat → UInt8) : Nat := ((List.range size).map fun i => (byte i).toNat).sum

def checksumEntry (entry : Entry) (size : Nat) (buf : Nat → UInt8) : Nat :=
  2 ^ 32 - 1 - (sumBytes entrySize (entryBytes { entry with checksum := 0 }) + sumBytes size buf) % 2 ^ 32

def entryIn (bytes : Nat → UInt8) : Nat × Entry :=
  (be64 bytes 0,
    { type := be32 bytes 8, size := be32 bytes 12, offset := be64 bytes 16, checksum := be32 bytes 24
      pad := be32 bytes 28 })

def validEntry (cookie : Nat) (entry : Entry) : Bool :=
  entry.size != 0 && entry.size % 512 == 0 && cookie == entryCookie

def readEntry (file : File) (off : Nat) : Outcome Entry := do
  let bytes ← file.read off entrySize
  let (cookie, entry) := entryIn bytes
  if validEntry cookie entry then .ok entry else .error (-einval)

def readData (file : File) (off : Nat) : Outcome (Entry × (Nat → UInt8)) := do
  let entry ← readEntry file off
  let buf ← file.read (off + entrySize) entry.size
  if checksumEntry entry entry.size buf = entry.checksum then .ok (entry, buf) else .error (-einval)

structure VhdJournal where
  header : Header
  isBlock : Bool
  file : File

inductive Call
  | seek
  | entry
  | data
  | seekEof
  | seekHeader
  | header
  | truncate
  deriving DecidableEq

structure Stop where
  code : Int
  bytes : Nat

structure Update where
  offset : UInt64
  size : UInt64
  type : UInt32
  buf : Nat → UInt8
  pad : UInt32
  stops : Call → Option Stop

namespace Update
variable (u : Update)

def vhdJournalSeek (call : Call) (off : UInt64) : Action VhdJournal Unit :=
  match u.stops call with
  | some stop => Action.fail stop.code
  | none => if 2 ^ 63 ≤ off.toNat then Action.fail (-einval) else pure ()

def vhdJournalWrite (call : Call) (off size : Nat) (bytes : Nat → UInt8) : Action VhdJournal Unit := fun j =>
  match u.stops call with
  | some stop => (.error stop.code, { j with file := j.file.put off (min (size - 1) stop.bytes) bytes })
  | none => (.ok (), { j with file := j.file.put off size bytes })

def vhdJournalTruncate (length : UInt64) : Action VhdJournal Unit := fun j =>
  match u.stops .truncate with
  | some stop => (.error stop.code, j)
  | none => (.ok (), { j with file := j.file.truncate length.toNat })

def bare : Entry :=
  { type := u.type.toNat, size := u.size.toNat % 2 ^ 32, offset := u.offset.toNat, checksum := 0
    pad := u.pad.toNat }

def entry : Entry := { u.bare with checksum := checksumEntry u.bare u.size.toNat u.buf }

def length : UInt64 := u.size + 32

def vhdJournalWriteHeader : Action VhdJournal Unit := do
  let j ← Action.get
  u.vhdJournalSeek .seekEof j.header.eof
  if j.header.eof < j.header.data.offset ∨ j.header.eof < j.header.metadata.offset then Action.fail (-einval)
  else do
    u.vhdJournalSeek .seekHeader 0
    u.vhdJournalWrite .header 0 headerSize (headerOut j.header)

def vhdJournalWriteEntry (off : Nat) : Action VhdJournal Unit :=
  if !validEntry entryCookie u.entry then Action.fail (-einval)
  else u.vhdJournalWrite .entry off entrySize (entryOut u.entry)

def isData : Bool := u.type.toNat == typeData

def added (header : Header) : Header :=
  let group := header.group u.isData
  header.setGroup u.isData
    { entries := group.entries + 1, offset := if group.entries = 0 then header.eof else group.offset }
    (header.eof + u.length)

def removed (offBak : UInt64) (header : Header) : Header :=
  let group := header.group u.isData
  header.setGroup u.isData
    { entries := group.entries - 1, offset := if group.entries - 1 = 0 then offBak else group.offset }
    (header.eof - u.length)

def log : Action VhdJournal Unit := do
  let j ← Action.get
  let eof := j.header.eof.toNat
  u.vhdJournalWriteEntry eof
  u.vhdJournalWrite .data (eof + entrySize) u.size.toNat u.buf
  let offBak := (j.header.group u.isData).offset
  Action.modify fun j => { j with header := u.added j.header }
  match ← Action.attempt u.vhdJournalWriteHeader with
  | .ok () => pure ()
  | .error code => do
      Action.modify fun j => { j with header := u.removed offBak j.header }
      Action.fail code

def vhdJournalUpdate : Action VhdJournal Unit := do
  if 2 ^ 31 ≤ u.size.toNat then Action.undefined
  else do
    let j ← Action.get
    u.vhdJournalSeek .seek j.header.eof
    match ← Action.attempt u.log with
    | .ok () => pure ()
    | .error code => do
        let j ← Action.get
        if !j.isBlock then do
          let _ ← Action.attempt (u.vhdJournalTruncate j.header.eof)
          Action.fail code
        else Action.fail code

end Update

end Blktap.Journal
