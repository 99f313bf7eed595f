import Blktap.Journal.Update
import Blktap.Lib.Packed
import Blktap.Lib.Run
import Blktap.Libvhd.Keeps

/-! # Header and log of a journal agree -/

namespace Blktap.Journal
open Lib Libvhd

structure Logged where
  entry : Entry
  buf : Nat → UInt8

def Logged.length (e : Logged) : Nat := entrySize + e.entry.size

def Logged.isData (e : Logged) : Bool := e.entry.type == typeData

def Shows (file : File) (off : Nat) (e : Logged) : Prop :=
  ∃ buf, readData file off = .ok (e.entry, buf) ∧ ∀ i < e.entry.size, buf i = e.buf i

structure Group.Counts (group : Group) (isData : Bool) (log : List Logged) : Prop where
  entries : group.entries.toNat = log.countP (·.isData == isData)
  first : ∀ off, firstAt Logged.length (·.isData == isData) headerSize log = some off → group.offset.toNat = off

structure Agrees (j : VhdJournal) (log : List Logged) : Prop where
  disk : ∀ p < headerSize, j.file.byte p = headerOut j.header p
  packed : Packed Shows Logged.length j.file headerSize log j.header.eof.toNat
  inFile : j.header.eof.toNat ≤ j.file.size
  counts : ∀ isData, (j.header.group isData).Counts isData log

def Update.logged (u : Update) : Logged := ⟨u.entry, u.buf⟩

def Update.Kept (u : Update) (j : VhdJournal) (log : List Logged) : Prop :=
  match u.vhdJournalUpdate j with
  | (.ok (), t) => Agrees t (log ++ [u.logged])
  | (.error _, t) => t.header = j.header ∧ Agrees t log
  | (.undefined, _) => False

structure Update.Writes (u : Update) (j : VhdJournal) : Prop where
  seek : u.stops .seek = none ∧ j.header.eof.toNat < 2 ^ 63
  valid : validEntry entryCookie u.entry = true
  entry : u.stops .entry = none
  data : u.stops .data = none

structure Update.Ready (u : Update) (header : Header) : Prop where
  seekEof : u.stops .seekEof = none ∧ header.eof.toNat < 2 ^ 63
  inside : ¬ (header.eof < header.data.offset ∨ header.eof < header.metadata.offset)
  seekHeader : u.stops .seekHeader = none

def Update.Harmless (u : Update) (j : VhdJournal) : Prop :=
  u.size.toNat < 2 ^ 31 ∧ (u.Writes j → u.Ready (u.added j.header) →
    match u.stops .header with
    | none => (j.header.group u.isData).entries.toNat + 1 < 2 ^ 32
    | some stop => ∀ p < min (headerSize - 1) stop.bytes,
        headerOut (u.added j.header) p = headerOut j.header p)

section Readers
variable {file file' : File} {off stop : Nat} {e : Logged}

theorem read_ok {size : Nat} {bytes : Nat → UInt8} (positive : 0 < size) :
    file.read off size = .ok bytes ↔ off + size ≤ file.size ∧ bytes = fun i => file.byte (off + i) := by
  unfold File.read
  split
  · rename_i inside
    rw [Outcome.ok.injEq]
    exact ⟨fun same => ⟨by omega, same.symm⟩, fun same => same.2.symm⟩
  · rename_i outside
    refine iff_of_false ?_ fun same => outside (.inr same.1)
    split <;> nofun

theorem sumBytes_congr {size : Nat} {bytes bytes' : Nat → UInt8} (same : ∀ i < size, bytes i = bytes' i) :
    sumBytes size bytes = sumBytes size bytes' := by
  unfold sumBytes
  congr 1
  apply List.map_congr_left
  intro i member
  rw [same i (List.mem_range.mp member)]

theorem validEntry_cookie {cookie : Nat} {entry : Entry} (valid : validEntry cookie entry = true) :
    cookie = entryCookie ∧ 0 < entry.size := by
  unfold validEntry at valid
  simp only [Bool.and_eq_true, bne_iff_ne, beq_iff_eq] at valid
  exact ⟨valid.2, Nat.pos_of_ne_zero valid.1.1⟩

theorem readEntry_ok {entry : Entry} : readEntry file off = .ok entry ↔
    off + entrySize ≤ file.size ∧ entryIn (fun i => file.byte (off + i)) = (entryCookie, entry) ∧
      validEntry entryCookie entry = true := by
  unfold readEntry
  rw [Outcome.bind_eq_ok]
  constructor
  · rintro ⟨bytes, reads, valid⟩
    obtain ⟨inside, rfl⟩ := (read_ok (by decide)).mp reads
    dsimp only at valid
    split at valid
    · rename_i passes
      have cookie := (validEntry_cookie passes).1
      rw [cookie] at passes
      cases valid
      exact ⟨inside, Prod.ext cookie rfl, passes⟩
    · cases valid
  · rintro ⟨inside, fields, valid⟩
    refine ⟨_, (read_ok (by decide)).mpr ⟨inside, rfl⟩, ?_⟩
    rw [fields]
    exact if_pos valid

theorem shows_iff : Shows file off e ↔
    off + e.length ≤ file.size ∧ entryIn (fun i => file.byte (off + i)) = (entryCookie, e.entry) ∧
      validEntry entryCookie e.entry = true ∧ checksumEntry e.entry e.entry.size e.buf = e.entry.checksum ∧
      ∀ i < e.entry.size, file.byte (off + entrySize + i) = e.buf i := by
  have sums : ∀ buf : Nat → UInt8, (∀ i < e.entry.size, buf i = e.buf i) →
      checksumEntry e.entry e.entry.size buf = checksumEntry e.entry e.entry.size e.buf := by
    intro buf same
    unfold checksumEntry
    rw [sumBytes_congr same]
  unfold Shows readData Logged.length
  constructor
  · rintro ⟨buf, reads, same⟩
    obtain ⟨entry, head, reads⟩ := Outcome.bind_eq_ok.mp reads
    obtain ⟨bytes, data, reads⟩ := Outcome.bind_eq_ok.mp reads
    split at reads
    · rename_i sum
      cases reads
      obtain ⟨inside, fields, valid⟩ := readEntry_ok.mp head
      obtain ⟨within, rfl⟩ := (read_ok (validEntry_cookie valid).2).mp data
      exact ⟨by omega, fields, valid, (sums _ same) ▸ sum, same⟩
    · cases reads
  · rintro ⟨within, fields, valid, sum, same⟩
    refine ⟨fun i => file.byte (off + entrySize + i), ?_, same⟩
    rw [readEntry_ok.mpr ⟨by omega, fields, valid⟩, Outcome.ok_bind,
      (read_ok (validEntry_cookie valid).2).mpr ⟨by omega, rfl⟩, Outcome.ok_bind]
    exact if_pos ((sums _ same).trans sum)

theorem entryIn_congr {bytes bytes' : Nat → UInt8} (same : ∀ i < entrySize, bytes i = bytes' i) :
    entryIn bytes = entryIn bytes' := by
  unfold entrySize at same
  have cookie : be64 bytes 0 = be64 bytes' 0 := be64_congr fun i small => same (0 + i) (by omega)
  have type : be32 bytes 8 = be32 bytes' 8 := be32_congr fun i small => same (8 + i) (by omega)
  have size : be32 bytes 12 = be32 bytes' 12 := be32_congr fun i small => same (12 + i) (by omega)
  have offset : be64 bytes 16 = be64 bytes' 16 := be64_congr fun i small => same (16 + i) (by omega)
  have checksum : be32 bytes 24 = be32 bytes' 24 := be32_congr fun i small => same (24 + i) (by omega)
  have pad : be32 bytes 28 = be32 bytes' 28 := be32_congr fun i small => same (28 + i) (by omega)
  unfold entryIn
  rw [cookie, type, size, offset, checksum, pad]

theorem length_pos (e : Logged) : 0 < e.length := Nat.lt_of_lt_of_le (by decide : 0 < 32) (Nat.le_add_right _ _)

theorem Shows.frame (shows : Shows file off e) (keeps : file.Keeps (fun p => off ≤ p ∧ p < off + e.length) file') :
    Shows file' off e := by
  rw [shows_iff] at shows ⊢
  obtain ⟨within, fields, valid, sum, same⟩ := shows
  have positive := length_pos e
  have last := (keeps (off + e.length - 1) (by omega)).1
  refine ⟨by omega, ?_, valid, sum, fun i inside => ?_⟩
  · rw [← fields]
    refine entryIn_congr fun i inside => (keeps _ ⟨by omega, ?_⟩).2
    unfold Logged.length
    omega
  · rw [(keeps _ ⟨by omega, by unfold Logged.length; omega⟩).2]
    exact same i inside

theorem entryIn_entryOut {entry : Entry} {bytes : Nat → UInt8}
    (same : ∀ i < entrySize, bytes i = entryOut entry i) (type : entry.type < 2 ^ 32) (size : entry.size < 2 ^ 32)
    (offset : entry.offset < 2 ^ 64) (checksum : entry.checksum < 2 ^ 32) (pad : entry.pad < 2 ^ 32) :
    entryIn bytes = (entryCookie, entry) := by
  unfold entrySize at same
  have cookieIn : be64 bytes 0 = entryCookie :=
    be64_record [] _ (by decide) fun i small => same (0 + i) (by omega)
  have typeIn : be32 bytes 8 = entry.type :=
    be32_record [double entryCookie] _ type fun i small => same (8 + i) (by omega)
  have sizeIn : be32 bytes 12 = entry.size :=
    be32_record [double entryCookie, word entry.type] _ size fun i small => same (12 + i) (by omega)
  have offsetIn : be64 bytes 16 = entry.offset :=
    be64_record [double entryCookie, word entry.type, word entry.size] _ offset fun i small =>
      same (16 + i) (by omega)
  have checksumIn : be32 bytes 24 = entry.checksum :=
    be32_record [double entryCookie, word entry.type, word entry.size, double entry.offset] _ checksum
      fun i small => same (24 + i) (by omega)
  have padIn : be32 bytes 28 = entry.pad :=
    be32_record [double entryCookie, word entry.type, word entry.size, double entry.offset, word entry.checksum] _
      pad fun i small => same (28 + i) (by omega)
  unfold entryIn
  rw [cookieIn, typeIn, sizeIn, offsetIn, checksumIn, padIn]

theorem checksum_lt (entry : Entry) (size : Nat) (buf : Nat → UInt8) : checksumEntry entry size buf < 2 ^ 32 := by
  unfold checksumEntry
  omega

theorem shows_written {u : Update} (small : u.size.toNat < 2 ^ 31) (valid : validEntry entryCookie u.entry = true)
    (inside : off + entrySize + u.size.toNat ≤ file.size)
    (head : ∀ i < entrySize, file.byte (off + i) = entryOut u.entry i)
    (data : ∀ i < u.size.toNat, file.byte (off + entrySize + i) = u.buf i) : Shows file off u.logged := by
  have size : u.logged.entry.size = u.size.toNat := Nat.mod_eq_of_lt (by omega)
  rw [shows_iff]
  refine ⟨?_, ?_, valid, ?_, fun i within => data i (by omega)⟩
  · unfold Logged.length
    omega
  · exact entryIn_entryOut head u.type.toNat_lt (Nat.mod_lt _ (by decide)) u.offset.toNat_lt (checksum_lt _ _ _)
      u.pad.toNat_lt
  · rw [size]
    rfl

end Readers

section Steps
variable {u : Update} {j : VhdJournal} {call : Call} {off : Nat} {seekTo : UInt64}

theorem seek_works (free : u.stops call = none ∧ seekTo.toNat < 2 ^ 63) :
    u.vhdJournalSeek call seekTo j = (.ok (), j) := by
  unfold Update.vhdJournalSeek
  rw [free.1]
  dsimp only
  rw [if_neg (by omega)]
  rfl

theorem seek_fails (stuck : ¬ (u.stops call = none ∧ seekTo.toNat < 2 ^ 63)) :
    ∃ code, u.vhdJournalSeek call seekTo j = (.error code, j) := by
  unfold Update.vhdJournalSeek
  cases free : u.stops call with
  | some stop => exact ⟨_, rfl⟩
  | none =>
      dsimp only
      rw [if_pos (Nat.not_lt.mp fun small => stuck ⟨free, small⟩)]
      exact ⟨_, rfl⟩

section Write
variable {size : Nat} {bytes : Nat → UInt8}

theorem write_works (free : u.stops call = none) :
    u.vhdJournalWrite call off size bytes j = (.ok (), { j with file := j.file.put off size bytes }) := by
  unfold Update.vhdJournalWrite
  rw [free]

theorem write_fails {stop : Stop} (stuck : u.stops call = some stop) :
    u.vhdJournalWrite call off size bytes j =
      (.error stop.code, { j with file := j.file.put off (min (size - 1) stop.bytes) bytes }) := by
  unfold Update.vhdJournalWrite
  rw [stuck]

end Write

theorem writeHeader_ready (ready : u.Ready j.header) : u.vhdJournalWriteHeader j =
    u.vhdJournalWrite .header 0 headerSize (headerOut j.header) j := by
  unfold Update.vhdJournalWriteHeader
  rw [Action.get_bind, Action.ok_bind (seek_works ready.seekEof), if_neg ready.inside,
    Action.ok_bind (seek_works ⟨ready.seekHeader, by decide⟩)]

theorem writeHeader_unready (unready : ¬ u.Ready j.header) :
    ∃ code, u.vhdJournalWriteHeader j = (.error code, j) := by
  unfold Update.vhdJournalWriteHeader
  rw [Action.get_bind]
  by_cases seekEof : u.stops .seekEof = none ∧ j.header.eof.toNat < 2 ^ 63
  case neg =>
    obtain ⟨code, fails⟩ := seek_fails (j := j) seekEof
    exact ⟨code, Action.bind_error fails⟩
  rw [Action.ok_bind (seek_works seekEof)]
  by_cases inside : j.header.eof < j.header.data.offset ∨ j.header.eof < j.header.metadata.offset
  · rw [if_pos inside]
    exact ⟨_, rfl⟩
  rw [if_neg inside]
  have seekHeader : ¬ (u.stops .seekHeader = none ∧ (0 : UInt64).toNat < 2 ^ 63) := fun free =>
    unready ⟨seekEof, inside, free.1⟩
  obtain ⟨code, fails⟩ := seek_fails (j := j) seekHeader
  exact ⟨code, Action.bind_error fails⟩

def Update.wrote (u : Update) (j : VhdJournal) : File :=
  (j.file.put j.header.eof.toNat entrySize (entryOut u.entry)).put (j.header.eof.toNat + entrySize) u.size.toNat
    u.buf

theorem wrote_keeps (inFile : j.header.eof.toNat ≤ j.file.size) :
    j.file.Keeps (· < j.header.eof.toNat) (u.wrote j) := by
  have first : j.file.Keeps (· < j.header.eof.toNat)
      (j.file.put j.header.eof.toNat entrySize (entryOut u.entry)) :=
    File.keeps_put (fun p before => lt_of_lt_of_le before inFile) fun p before => .inl before
  exact first.trans (File.keeps_put (fun p before => (first p before).1) fun p before => .inl (by omega))

theorem log_cut (inFile : j.header.eof.toNat ≤ j.file.size)
    (cut : ¬ (validEntry entryCookie u.entry = true ∧ u.stops .entry = none ∧ u.stops .data = none)) :
    ∃ code file, u.log j = (.error code, { j with file }) ∧ j.file.Keeps (· < j.header.eof.toNat) file := by
  have kept : ∀ size bytes, j.file.Keeps (· < j.header.eof.toNat) (j.file.put j.header.eof.toNat size bytes) :=
    fun size bytes => File.keeps_put (fun p before => lt_of_lt_of_le before inFile) fun p before => .inl before
  unfold Update.log
  rw [Action.get_bind]
  unfold Update.vhdJournalWriteEntry
  cases valid : validEntry entryCookie u.entry with
  | false => exact ⟨_, j.file, rfl, File.Keeps.refl fun p before => lt_of_lt_of_le before inFile⟩
  | true =>
      dsimp only
      rw [Bool.not_true, if_neg nofun]
      cases entry : u.stops .entry with
      | some stop => exact ⟨_, _, Action.bind_error (write_fails entry), kept _ _⟩
      | none =>
          rw [Action.ok_bind (write_works entry)]
          cases data : u.stops .data with
          | some stop =>
              refine ⟨_, _, Action.bind_error (write_fails data), (kept entrySize (entryOut u.entry)).trans ?_⟩
              exact File.keeps_put (fun p before => (kept entrySize _ p before).1) fun p before => .inl (by omega)
          | none => exact absurd ⟨valid, entry, data⟩ cut

theorem log_whole (valid : validEntry entryCookie u.entry = true) (entry : u.stops .entry = none)
    (data : u.stops .data = none) :
    u.log j =
      match u.vhdJournalWriteHeader { j with header := u.added j.header, file := u.wrote j } with
      | (.ok (), t) => (.ok (), t)
      | (.error code, t) =>
          (.error code, { t with header := u.removed (j.header.group u.isData).offset t.header })
      | (.undefined, t) => (.undefined, t) := by
  unfold Update.log
  rw [Action.get_bind]
  unfold Update.vhdJournalWriteEntry
  dsimp only
  rw [valid, Bool.not_true, if_neg nofun, Action.ok_bind (write_works entry), Action.ok_bind (write_works data),
    Action.modify_bind]
  rcases result : u.vhdJournalWriteHeader { j with header := u.added j.header, file := u.wrote j } with
    ⟨_ | code | _, t⟩
  · exact (Action.ok_bind (Action.attempt_ok result)).trans rfl
  · exact (Action.ok_bind (Action.attempt_error result)).trans rfl
  · exact Action.bind_undefined (Action.attempt_undefined result)

theorem removed_added (u : Update) (header : Header) :
    u.removed (header.group u.isData).offset (u.added header) = header := by
  have counted : ∀ group : Group,
      ({ entries := group.entries + 1 - 1, offset := if group.entries + 1 - 1 = 0 then group.offset else
          if group.entries = 0 then header.eof else group.offset } : Group) = group := by
    intro group
    rw [UInt32.add_sub_cancel]
    split <;> rfl
  have eof := UInt64.add_sub_cancel (a := header.eof) (b := u.length)
  unfold Update.removed Update.added
  cases u.isData with
  | true =>
      have group := counted header.data
      simp only [Header.group, Header.setGroup, if_true, eof]
      rw [group]
  | false =>
      have group := counted header.metadata
      simp only [Header.group, Header.setGroup, Bool.false_eq_true, if_false, eof]
      rw [group]

section Update
variable {log : List Logged} {t : VhdJournal} {code : Int}

theorem update_overflow (large : 2 ^ 31 ≤ u.size.toNat) : u.vhdJournalUpdate j = (.undefined, j) := by
  unfold Update.vhdJournalUpdate
  rw [if_pos large]
  rfl

theorem update_seek (small : u.size.toNat < 2 ^ 31) (stuck : ¬ (u.stops .seek = none ∧ j.header.eof.toNat < 2 ^ 63)) :
    ∃ code, u.vhdJournalUpdate j = (.error code, j) := by
  obtain ⟨code, fails⟩ := seek_fails (j := j) stuck
  unfold Update.vhdJournalUpdate
  rw [if_neg (by omega), Action.get_bind]
  exact ⟨code, Action.bind_error fails⟩

theorem update_ok (small : u.size.toNat < 2 ^ 31) (seek : u.stops .seek = none ∧ j.header.eof.toNat < 2 ^ 63)
    (logged : u.log j = (.ok (), t)) : u.vhdJournalUpdate j = (.ok (), t) := by
  unfold Update.vhdJournalUpdate
  rw [if_neg (by omega), Action.get_bind, Action.ok_bind (seek_works seek),
    Action.ok_bind (Action.attempt_ok logged)]
  rfl

theorem truncate_cases (length : UInt64) : ∃ result file,
    Action.attempt (u.vhdJournalTruncate length) t = (.ok result, { t with file }) ∧
      (file = t.file ∨ file = t.file.truncate length.toNat) := by
  cases cut : u.stops .truncate with
  | some stop =>
      have fails : u.vhdJournalTruncate length t = (.error stop.code, t) := by
        unfold Update.vhdJournalTruncate
        rw [cut]
      exact ⟨_, t.file, Action.attempt_error fails, .inl rfl⟩
  | none =>
      have works : u.vhdJournalTruncate length t = (.ok (), { t with file := t.file.truncate length.toNat }) := by
        unfold Update.vhdJournalTruncate
        rw [cut]
      exact ⟨_, _, Action.attempt_ok works, .inr rfl⟩

theorem update_error (small : u.size.toNat < 2 ^ 31) (seek : u.stops .seek = none ∧ j.header.eof.toNat < 2 ^ 63)
    (failed : u.log j = (.error code, t)) :
    ∃ file, u.vhdJournalUpdate j = (.error code, { t with file }) ∧
      (file = t.file ∨ file = t.file.truncate t.header.eof.toNat) := by
  unfold Update.vhdJournalUpdate
  rw [if_neg (by omega), Action.get_bind, Action.ok_bind (seek_works seek),
    Action.ok_bind (Action.attempt_error failed)]
  dsimp only
  rw [Action.get_bind]
  by_cases regular : (!t.isBlock) = true
  · obtain ⟨result, file, truncated, cut⟩ := truncate_cases (u := u) (t := t) t.header.eof
    rw [if_pos regular, Action.ok_bind truncated]
    exact ⟨file, rfl, cut⟩
  · rw [if_neg regular]
    exact ⟨t.file, rfl, .inl rfl⟩

theorem Agrees.front (agrees : Agrees j log) : headerSize ≤ j.header.eof.toNat := by
  have last := agrees.packed.stop_eq
  omega

theorem Agrees.keep (agrees : Agrees j log) (keeps : j.file.Keeps (· < j.header.eof.toNat) t.file)
    (header : t.header = j.header) : Agrees t log := by
  have front := agrees.front
  unfold headerSize at front
  refine ⟨fun p before => ?_, ?_, ?_, by rw [header]; exact agrees.counts⟩
  · unfold headerSize at before
    rw [header, (keeps p (by omega)).2]
    exact agrees.disk p before
  · rw [header]
    exact agrees.packed.frame fun off e _ before shows =>
      shows.frame (keeps.mono fun p inside => by omega)
  · have last := (keeps (j.header.eof.toNat - 1) (by omega)).1
    rw [header]
    omega

theorem kept_error (agrees : Agrees j log) (small : u.size.toNat < 2 ^ 31)
    (seek : u.stops .seek = none ∧ j.header.eof.toNat < 2 ^ 63) (failed : u.log j = (.error code, t))
    (header : t.header = j.header) (keeps : j.file.Keeps (· < j.header.eof.toNat) t.file) : u.Kept j log := by
  obtain ⟨file, result, cut⟩ := update_error small seek failed
  unfold Update.Kept
  rw [result]
  refine ⟨header, agrees.keep ?_ header⟩
  have inFile : j.header.eof.toNat ≤ t.file.size := by
    have front := agrees.front
    unfold headerSize at front
    have last := (keeps (j.header.eof.toNat - 1) (by omega)).1
    omega
  rcases cut with rfl | rfl
  · exact keeps
  · rw [header]
    exact keeps.trans (File.keeps_truncate inFile)

def Update.torn (u : Update) (j : VhdJournal) (stop : Stop) : File :=
  (u.wrote j).put 0 (min (headerSize - 1) stop.bytes) (headerOut (u.added j.header))

theorem log_torn {stop : Stop} (writes : u.Writes j) (ready : u.Ready (u.added j.header))
    (stuck : u.stops .header = some stop) :
    u.log j = (.error stop.code, { j with file := u.torn j stop }) := by
  have result := (writeHeader_ready (j := { j with header := u.added j.header, file := u.wrote j }) ready).trans
    (write_fails stuck)
  rw [log_whole writes.valid writes.entry writes.data, result]
  dsimp only
  rw [removed_added]
  rfl

theorem log_unready (writes : u.Writes j) (unready : ¬ u.Ready (u.added j.header)) :
    ∃ code, u.log j = (.error code, { j with file := u.wrote j }) := by
  obtain ⟨code, result⟩ :=
    writeHeader_unready (j := { j with header := u.added j.header, file := u.wrote j }) unready
  refine ⟨code, ?_⟩
  rw [log_whole writes.valid writes.entry writes.data, result]
  dsimp only
  rw [removed_added]

theorem log_done (writes : u.Writes j) (ready : u.Ready (u.added j.header)) (free : u.stops .header = none) :
    u.log j = (.ok (), { j with
      header := u.added j.header, file := (u.wrote j).put 0 headerSize (headerOut (u.added j.header)) }) := by
  have result := (writeHeader_ready (j := { j with header := u.added j.header, file := u.wrote j }) ready).trans
    (write_works free)
  rw [log_whole writes.valid writes.entry writes.data, result]

theorem torn_keeps {stop : Stop} (agrees : Agrees j log)
    (same : ∀ p < min (headerSize - 1) stop.bytes, headerOut (u.added j.header) p = headerOut j.header p) :
    j.file.Keeps (· < j.header.eof.toNat) (u.torn j stop) := by
  have front := agrees.front
  intro p before
  have kept := wrote_keeps (u := u) agrees.inFile p before
  refine ⟨lt_of_lt_of_le kept.1 (File.le_put_size ..), ?_⟩
  unfold Update.torn
  by_cases inside : p < min (headerSize - 1) stop.bytes
  · rw [File.put_inside (Nat.zero_le p) (by omega), Nat.sub_zero, same p inside]
    exact (agrees.disk p (by omega)).symm
  · have apart : (u.wrote j).Keeps (· = p) (u.torn j stop) :=
      File.keeps_put (fun _ same => same ▸ kept.1) fun _ same => .inr (by omega)
    rw [← kept.2]
    exact (apart p rfl).2

theorem not_kept_torn {stop : Stop} (agrees : Agrees j log) (small : u.size.toNat < 2 ^ 31) (writes : u.Writes j)
    (ready : u.Ready (u.added j.header)) (stuck : u.stops .header = some stop) {p : Nat}
    (inside : p < min (headerSize - 1) stop.bytes)
    (differs : headerOut (u.added j.header) p ≠ headerOut j.header p) : ¬ u.Kept j log := by
  obtain ⟨file, result, cut⟩ := update_error small writes.seek (log_torn writes ready stuck)
  intro kept
  unfold Update.Kept at kept
  rw [result] at kept
  have disk := kept.2.disk p (by omega)
  have front := agrees.front
  have written : file.byte p = headerOut (u.added j.header) p := by
    have torn : (u.torn j stop).byte p = headerOut (u.added j.header) p :=
      File.put_inside (Nat.zero_le p) (by omega)
    rcases cut with rfl | rfl
    · exact torn
    · have within := (wrote_keeps (u := u) agrees.inFile p (by omega)).1
      refine Eq.trans (if_pos ⟨by dsimp only; omega, ?_⟩) torn
      exact lt_of_lt_of_le within (File.le_put_size ..)
  exact differs (written.symm.trans disk)

theorem added_eof (u : Update) (header : Header) : (u.added header).eof = header.eof + u.length := by
  unfold Update.added Header.setGroup
  dsimp only
  split <;> rfl

theorem added_group (u : Update) (header : Header) : (u.added header).group u.isData =
    { entries := (header.group u.isData).entries + 1
      offset := if (header.group u.isData).entries = 0 then header.eof else (header.group u.isData).offset } := by
  unfold Update.added Header.setGroup Header.group
  cases u.isData <;> rfl

theorem added_other {isData : Bool} (other : isData ≠ u.isData) (header : Header) :
    (u.added header).group isData = header.group isData := by
  unfold Update.added Header.setGroup Header.group
  cases kind : u.isData <;> cases isData <;> simp_all

theorem logged_length (small : u.size.toNat < 2 ^ 31) : u.logged.length = 32 + u.size.toNat := by
  unfold Logged.length entrySize
  rw [show u.logged.entry.size = u.size.toNat from Nat.mod_eq_of_lt (by omega)]

theorem added_end (small : u.size.toNat < 2 ^ 31) (inside : j.header.eof.toNat < 2 ^ 63) :
    (u.added j.header).eof.toNat = j.header.eof.toNat + u.logged.length := by
  have length : u.length.toNat = u.size.toNat + 32 := by
    unfold Update.length
    rw [UInt64.toNat_add]
    exact Nat.mod_eq_of_lt (by change u.size.toNat + 32 < 2 ^ 64; omega)
  rw [added_eof, logged_length small, UInt64.toNat_add, length, Nat.mod_eq_of_lt (by omega)]
  omega

theorem added_counts (agrees : Agrees j log)
    (space : (j.header.group u.isData).entries.toNat + 1 < 2 ^ 32) (isData : Bool) :
    ((u.added j.header).group isData).Counts isData (log ++ [u.logged]) := by
  have counts := agrees.counts isData
  have kindOf : u.logged.isData = u.isData := rfl
  by_cases same : isData = u.isData
  · subst same
    rw [added_group]
    constructor
    · rw [List.countP_append, List.countP_singleton, kindOf, ← counts.entries, UInt32.toNat_add]
      simp only [beq_self_eq_true, if_true]
      exact Nat.mod_eq_of_lt space
    · intro off first
      rw [firstAt_snoc, kindOf, beq_self_eq_true, if_pos rfl, ← agrees.packed.stop_eq] at first
      dsimp only
      rcases found : firstAt Logged.length (·.isData == u.isData) headerSize log with _ | at_
      · rw [found] at first
        have none : (j.header.group u.isData).entries = 0 := by
          apply UInt32.toNat_inj.mp
          rw [counts.entries, (firstAt_none ..).mp found]
          rfl
        rw [if_pos none]
        exact Option.some.inj first
      · rw [found] at first
        have some : (j.header.group u.isData).entries ≠ 0 := by
          intro none
          have empty := counts.entries
          rw [none] at empty
          rw [(firstAt_none ..).mpr empty.symm] at found
          cases found
        rw [if_neg some]
        exact counts.first off (found.trans first)
  · have apart : (u.isData == isData) = false := by
      rw [beq_eq_false_iff_ne]
      exact fun equal => same equal.symm
    rw [added_other same]
    constructor
    · rw [List.countP_append, List.countP_singleton, kindOf, apart, ← counts.entries]
      simp
    · intro off first
      rw [firstAt_snoc, kindOf, apart] at first
      apply counts.first off
      rcases found : firstAt Logged.length (·.isData == isData) headerSize log with _ | at_
      · rw [found] at first
        cases first
      · rw [found] at first
        exact first

theorem size_pos (small : u.size.toNat < 2 ^ 31) (valid : validEntry entryCookie u.entry = true) :
    0 < u.size.toNat := by
  have positive := (validEntry_cookie valid).2
  rwa [show u.entry.size = u.size.toNat from Nat.mod_eq_of_lt (by omega)] at positive

theorem wrote_size (positive : 0 < u.size.toNat) :
    j.header.eof.toNat + entrySize + u.size.toNat ≤ (u.wrote j).size := File.put_reach positive

theorem wrote_head {i : Nat} (inside : i < entrySize) :
    (u.wrote j).byte (j.header.eof.toNat + i) = entryOut u.entry i := by
  have first : (j.file.put j.header.eof.toNat entrySize (entryOut u.entry)).byte (j.header.eof.toNat + i) =
      entryOut u.entry i :=
    (File.put_inside (by omega) (by omega)).trans (by rw [Nat.add_sub_cancel_left])
  have reach : j.header.eof.toNat + entrySize ≤
      (j.file.put j.header.eof.toNat entrySize (entryOut u.entry)).size := File.put_reach (by decide)
  have kept : (j.file.put j.header.eof.toNat entrySize (entryOut u.entry)).Keeps (· < j.header.eof.toNat + entrySize)
      (u.wrote j) := File.keeps_put (fun p before => by omega) fun p before => .inl before
  exact (kept _ (by omega)).2.trans first

theorem wrote_data {i : Nat} (inside : i < u.size.toNat) :
    (u.wrote j).byte (j.header.eof.toNat + entrySize + i) = u.buf i :=
  (File.put_inside (by omega) (by omega)).trans (by rw [Nat.add_sub_cancel_left])

theorem agrees_done (agrees : Agrees j log) (small : u.size.toNat < 2 ^ 31) (writes : u.Writes j)
    (space : (j.header.group u.isData).entries.toNat + 1 < 2 ^ 32) :
    Agrees { j with
      header := u.added j.header, file := (u.wrote j).put 0 headerSize (headerOut (u.added j.header)) }
      (log ++ [u.logged]) := by
  have front := agrees.front
  have positive := size_pos small writes.valid
  have reach := wrote_size (j := j) positive
  have stop := added_end small writes.seek.2
  have behind : (u.wrote j).Keeps (fun p => headerSize ≤ p ∧ p < j.header.eof.toNat + entrySize + u.size.toNat)
      ((u.wrote j).put 0 headerSize (headerOut (u.added j.header))) :=
    File.keeps_put (fun p inside => by omega) fun p inside => .inr (by omega)
  have before : j.file.Keeps (fun p => headerSize ≤ p ∧ p < j.header.eof.toNat)
      ((u.wrote j).put 0 headerSize (headerOut (u.added j.header))) :=
    ((wrote_keeps agrees.inFile).mono fun p inside => inside.2).trans (behind.mono fun p inside => by omega)
  refine ⟨fun p inside => ?_, ?_, ?_, added_counts agrees space⟩
  · exact (File.put_inside (Nat.zero_le p) (by omega)).trans (by rw [Nat.sub_zero])
  · dsimp only
    rw [stop]
    refine (agrees.packed.frame fun off e first last shows => shows.frame (before.mono fun p inside => ?_)).snoc ?_
    · omega
    · refine shows_written small writes.valid ?_ (fun i inside => ?_) fun i inside => ?_
      · exact le_trans reach (File.le_put_size ..)
      · rw [(behind _ (by omega)).2]
        exact wrote_head inside
      · rw [(behind _ (by omega)).2]
        exact wrote_data inside
  · dsimp only
    rw [stop, logged_length small]
    refine le_trans ?_ (File.le_put_size ..)
    unfold entrySize at reach
    omega

theorem kept_iff (agrees : Agrees j log) : u.Kept j log ↔ u.Harmless j := by
  by_cases small : u.size.toNat < 2 ^ 31
  case neg =>
    refine iff_of_false ?_ fun harmless => small harmless.1
    unfold Update.Kept
    rw [update_overflow (by omega)]
    exact id
  by_cases seek : u.stops .seek = none ∧ j.header.eof.toNat < 2 ^ 63
  case neg =>
    obtain ⟨code, result⟩ := update_seek small seek
    refine iff_of_true ?_ ⟨small, fun writes => absurd writes.seek seek⟩
    unfold Update.Kept
    rw [result]
    exact ⟨rfl, agrees⟩
  by_cases whole : validEntry entryCookie u.entry = true ∧ u.stops .entry = none ∧ u.stops .data = none
  case neg =>
    obtain ⟨code, file, failed, keeps⟩ := log_cut agrees.inFile whole
    refine iff_of_true (kept_error agrees small seek failed rfl keeps) ⟨small, fun writes => ?_⟩
    exact absurd ⟨writes.valid, writes.entry, writes.data⟩ whole
  have writes : u.Writes j := ⟨seek, whole.1, whole.2.1, whole.2.2⟩
  by_cases ready : u.Ready (u.added j.header)
  case neg =>
    obtain ⟨code, failed⟩ := log_unready writes ready
    refine iff_of_true (kept_error agrees small seek failed rfl (wrote_keeps agrees.inFile)) ⟨small, ?_⟩
    exact fun _ ready' => absurd ready' ready
  cases header : u.stops .header with
  | some stop =>
      have harmless : u.Harmless j ↔
          ∀ p < min (headerSize - 1) stop.bytes, headerOut (u.added j.header) p = headerOut j.header p := by
        unfold Update.Harmless
        rw [header]
        exact ⟨fun all => all.2 writes ready, fun same => ⟨small, fun _ _ => same⟩⟩
      rw [harmless]
      constructor
      · intro kept p inside
        by_contra differs
        exact not_kept_torn agrees small writes ready header inside differs kept
      · exact fun same => kept_error agrees small seek (log_torn writes ready header) rfl (torn_keeps agrees same)
  | none =>
      have harmless : u.Harmless j ↔ (j.header.group u.isData).entries.toNat + 1 < 2 ^ 32 := by
        unfold Update.Harmless
        rw [header]
        exact ⟨fun all => all.2 writes ready, fun space => ⟨small, fun _ _ => space⟩⟩
      rw [harmless]
      unfold Update.Kept
      rw [update_ok small seek (log_done writes ready header)]
      refine ⟨fun agrees' => ?_, agrees_done agrees small writes⟩
      by_contra full
      have counts := (agrees'.counts u.isData).entries
      have before := (agrees.counts u.isData).entries
      rw [added_group, List.countP_append, ← before, List.countP_singleton, UInt32.toNat_add] at counts
      have bound := (j.header.group u.isData).entries.toNat_lt
      simp only [show u.logged.isData = u.isData from rfl, beq_self_eq_true, if_true, UInt32.toNat_one] at counts
      omega

end Update

end Steps

def stepUpdate (s : VhdJournal × List Logged) (u : Update) : Option (VhdJournal × List Logged) :=
  match u.vhdJournalUpdate s.1 with
  | (.ok (), t) => some (t, s.2 ++ [u.logged])
  | (.error _, t) => some (t, s.2)
  | (.undefined, _) => none

/-- While the updates are harmless, the headers in memory and on disk agree with the log; and the next one
keeps it so exactly when it is harmless too. -/
theorem journal_agrees {s t : VhdJournal × List Logged} (start : Agrees s.1 s.2)
    (run : Run stepUpdate (fun s u => u.Harmless s.1) s t) :
    Agrees t.1 t.2 ∧ ∀ u : Update, u.Kept t.1 t.2 ↔ u.Harmless t.1 := by
  have agrees : Agrees t.1 t.2 := by
    refine run.invariant (I := fun s => Agrees s.1 s.2) (fun s u t agrees harmless action => ?_) start
    have kept := (kept_iff agrees).mpr harmless
    unfold Update.Kept at kept
    unfold stepUpdate at action
    rcases result : u.vhdJournalUpdate s.1 with ⟨_ | code | _, t'⟩
    all_goals
      rw [result] at action kept
      cases action
    · exact kept
    · exact kept.2
  exact ⟨agrees, fun u => kept_iff agrees⟩

def fresh : VhdJournal :=
  let header : Header :=
    { uuid := fun _ => 0, vhdFooterOffset := 0, data := ⟨0, 0⟩, metadata := ⟨0, 0⟩, eof := 512 }
  { header, isBlock := false, file := ⟨512, headerOut header⟩ }

theorem fresh_agrees : Agrees fresh [] where
  disk := fun _ _ => rfl
  packed := rfl
  inFile := Nat.le_refl _
  counts := by
    intro isData
    cases isData <;> exact ⟨rfl, nofun⟩

def tornUpdate : Update where
  offset := 0
  size := 512
  type := 8
  buf := fun _ => 0
  pad := 0
  stops := fun call => if call = .header then some ⟨-5, 40⟩ else none

theorem tornUpdate_not_kept : ¬ tornUpdate.Kept fresh [] := by
  rw [kept_iff fresh_agrees]
  intro harmless
  have writes : tornUpdate.Writes fresh := ⟨⟨rfl, by decide⟩, rfl, rfl, rfl⟩
  have ready : tornUpdate.Ready (tornUpdate.added fresh.header) := ⟨⟨rfl, by decide⟩, by decide, rfl⟩
  have same := harmless.2 writes ready 35 (by decide)
  exact absurd same (by decide)

def firstUpdate : Update := { tornUpdate with stops := fun _ => none }

def oneEntry : VhdJournal :=
  { fresh with
    header := firstUpdate.added fresh.header
    file := (firstUpdate.wrote fresh).put 0 headerSize (headerOut (firstUpdate.added fresh.header)) }

theorem oneEntry_agrees : Agrees oneEntry [firstUpdate.logged] ∧
    ∀ u : Update, u.Kept oneEntry [firstUpdate.logged] ↔ u.Harmless oneEntry := by
  have writes : firstUpdate.Writes fresh := ⟨⟨rfl, by decide⟩, rfl, rfl, rfl⟩
  have ready : firstUpdate.Ready (firstUpdate.added fresh.header) := ⟨⟨rfl, by decide⟩, by decide, rfl⟩
  have space : (fresh.header.group firstUpdate.isData).entries.toNat + 1 < 2 ^ 32 := by decide
  have result : firstUpdate.vhdJournalUpdate fresh = (.ok (), oneEntry) :=
    update_ok (by decide) writes.seek (log_done writes ready rfl)
  have action : stepUpdate (fresh, []) firstUpdate = some (oneEntry, [firstUpdate.logged]) := by
    unfold stepUpdate
    rw [result]
    rfl
  exact journal_agrees fresh_agrees (.single ⟨by decide, fun _ _ => space⟩ action)

end Blktap.Journal
