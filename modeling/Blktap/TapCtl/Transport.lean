import Blktap.Lib.Loop
import Blktap.Lib.Outcome
import Blktap.Tapdisk.OutputRuns

/-!
# Messages on a socket (`tap-ctl-ipc.c`, `tap-ctl-stats.c`)
-/

namespace Blktap.TapCtl
open Lib Tapdisk

def eio : Int := 5

inductive Reply
  | moves (most : Nat)
  /-- Nothing is moved. -/
  | closed
  | failed
  /-- `select` fails or the time is over. -/
  | unready

def moving (most : Nat → Nat) (call : Nat) : Reply := .moves (most call)

section Reading

structure Reading where
  call : Nat
  buf : List UInt8
  incoming : List UInt8

def readEnd (size : Nat) (s : Reading) : Int × Reading := (if s.buf.length ≠ size then -eio else 0, s)

def readTurn (replies : Nat → Reply) (size : Nat) (s : Reading) : Reading ⊕ Int × Reading :=
  if s.buf.length < size then
    match replies s.call with
    | .moves most =>
        let ret := min (min most (size - s.buf.length)) s.incoming.length
        if ret = 0 then .inr (readEnd size s)
        else .inl ⟨s.call + 1, s.buf ++ s.incoming.take ret, s.incoming.drop ret⟩
    | _ => .inr (readEnd size s)
  else .inr (readEnd size s)

def tapCtlReadRaw (replies : Nat → Reply) (size fuel : Nat) (incoming : List UInt8) : Option (Int × Reading) :=
  loop (readTurn replies size) fuel ⟨0, [], incoming⟩

end Reading

section Writing

structure Writing where
  call : Nat
  offset : Nat
  sent : List UInt8

def bytesAt (message : List UInt8) (start count : Nat) : Option (List UInt8) :=
  if start + count ≤ message.length then some ((message.drop start).take count) else none

def writeEnd (s : Writing) : Outcome Int × List UInt8 :=
  (.ok (if s.offset ≠ messageSize then -eio else 0), s.sent)

/-- A turn of the loop of `tap_ctl_write_message`. The pointer counts in messages. -/
def writeTurn (replies : Nat → Reply) (message : List UInt8) (s : Writing) : Writing ⊕ Outcome Int × List UInt8 :=
  if s.offset < messageSize then
    match replies s.call with
    | .moves most =>
        match bytesAt message (s.offset * messageSize) (messageSize - s.offset) with
        | none => .inr (.undefined, s.sent)
        | some bytes =>
            let ret := min most (messageSize - s.offset)
            if ret = 0 then .inr (writeEnd s) else .inl ⟨s.call + 1, s.offset + ret, s.sent ++ bytes.take ret⟩
    | _ => .inr (writeEnd s)
  else .inr (writeEnd s)

def tapCtlWriteMessage (replies : Nat → Reply) (message : Message) (fuel : Nat) : Option (Outcome Int × List UInt8) :=
  loop (writeTurn replies (Output.encode message)) fuel ⟨0, 0, []⟩

end Writing

section Copying

structure Copying where
  call : Nat
  len : Nat
  err : Int
  incoming : List UInt8
  stream : List UInt8

/-- A turn of the loop of `tap_ctl_stats_fwrite`. `len` and `in` are unsigned: a failed `read` counts as the largest number
of bytes. `fwrite` of one item returns 1. -/
def statsTurn (replies : Nat → Reply) (errno : Int) (s : Copying) : Copying ⊕ Outcome Int × List UInt8 :=
  if s.len = 0 then .inr (.ok s.err, s.stream)
  else
    match replies s.call with
    | .unready => .inr (.ok (-1), s.stream)
    | .failed => .inr (.undefined, s.stream)
    | .closed => .inr (.ok 0, s.stream)
    | .moves most =>
        let count := min (min most Output.bufsz) s.incoming.length
        if count = 0 then .inr (.ok 0, s.stream)
        else if 1 ≠ count then .inr (.ok (-errno), s.stream ++ s.incoming.take count)
        else .inl ⟨s.call + 1, (s.len + 2 ^ 64 - count) % 2 ^ 64, count, s.incoming.drop count,
          s.stream ++ s.incoming.take count⟩

def infoLength (m : Message) : Nat := m.word 8 + m.word 12 * 2 ^ 32

def tapCtlStatsFwrite (first replies : Nat → Reply) (errno : Int) (fuel : Nat) (incoming : List UInt8) :
    Option (Outcome Int × List UInt8) :=
  match tapCtlReadRaw first messageSize fuel incoming with
  | none => none
  | some (code, s) =>
      if code ≠ 0 then some (.ok code, [])
      else
        let len := infoLength (decode s.buf)
        loop (statsTurn replies errno) fuel ⟨0, len, Int.bmod len (2 ^ 32), s.incoming, []⟩

end Copying

section Reads
variable {most : Nat → Nat} {size : Nat} {incoming : List UInt8} {s t : Reading}

structure Reads (incoming : List UInt8) (size : Nat) (s : Reading) : Prop where
  all : s.buf ++ s.incoming = incoming
  short : s.buf.length ≤ size

theorem Reads.next (reads : Reads incoming size s) (next : readTurn (moving most) size s = .inl t) :
    Reads incoming size t ∧ s.buf.length < t.buf.length := by
  have short := reads.short
  unfold readTurn moving at next
  split at next
  case isFalse => cases next
  dsimp only at next
  split at next
  case isTrue => cases next
  cases next
  refine ⟨⟨?_, ?_⟩, ?_⟩
  · rw [List.append_assoc, List.take_append_drop]
    exact reads.all
  all_goals
    rw [List.length_append, List.length_take]
    omega

theorem Reads.leave {result : Int × Reading} (reads : Reads incoming size s) (enough : size ≤ incoming.length)
    (positive : ∀ k, 0 < most k) (leave : readTurn (moving most) size s = .inr result) :
    result.1 = 0 ∧ result.2.buf = incoming.take size ∧ result.2.incoming = incoming.drop size := by
  have short := reads.short
  have length := congrArg List.length reads.all
  rw [List.length_append] at length
  have full : s.buf.length = size := by
    by_contra missing
    have more := positive s.call
    unfold readTurn moving at leave
    rw [if_pos (Nat.lt_of_le_of_ne short missing)] at leave
    dsimp only at leave
    rw [if_neg (by omega)] at leave
    cases leave
  unfold readTurn at leave
  rw [if_neg (by omega)] at leave
  cases leave
  subst full
  rw [← reads.all]
  exact ⟨if_neg (not_not.mpr rfl), List.take_left.symm, List.drop_left.symm⟩

theorem readRaw_exact (positive : ∀ k, 0 < most k) (enough : size ≤ incoming.length) :
    ∃ fuel s, tapCtlReadRaw (moving most) size fuel incoming = some (0, s) ∧ s.buf = incoming.take size ∧
      s.incoming = incoming.drop size := by
  have start : Reads incoming size ⟨0, [], incoming⟩ := ⟨rfl, Nat.zero_le size⟩
  obtain ⟨fuel, ⟨code, s⟩, result⟩ : Ends (readTurn (moving most) size) ⟨0, [], incoming⟩ :=
    ends_of_measure (I := Reads incoming size) (fun s => size - s.buf.length) (fun s t reads next => by
      obtain ⟨reads', more⟩ := reads.next next
      have short := reads'.short
      exact ⟨reads', by omega⟩) start
  obtain ⟨code', buf, rest⟩ := loop_meets
    (P := fun result : Int × Reading => result.1 = 0 ∧ result.2.buf = incoming.take size ∧
      result.2.incoming = incoming.drop size)
    (fun s t reads next => (Reads.next reads next).1) (fun s b reads leave => Reads.leave reads enough positive leave)
    start result
  cases code'
  exact ⟨fuel, s, result, buf, rest⟩

end Reads

section Writes
variable {most : Nat → Nat} {message : Message}

theorem bytesAt_start {bytes : List UInt8} : bytesAt bytes 0 bytes.length = some bytes := by
  unfold bytesAt
  rw [if_pos (by omega), List.drop_zero, List.take_length]

theorem bytesAt_outside {bytes : List UInt8} {offset : Nat} (length : bytes.length = messageSize) (positive : 0 < offset)
    (short : offset < messageSize) : bytesAt bytes (offset * messageSize) (messageSize - offset) = none := by
  have past : 1 * messageSize ≤ offset * messageSize := Nat.mul_le_mul_right _ positive
  unfold bytesAt
  rw [if_neg (by omega)]

theorem writeMessage_iff (positive : ∀ k, 0 < most k) :
    (∃ fuel, tapCtlWriteMessage (moving most) message fuel = some (.ok 0, Output.encode message)) ↔
      messageSize ≤ most 0 := by
  have length : (Output.encode message).length = messageSize := Output.encode_length
  have size : 0 < messageSize := by decide
  have all : bytesAt (Output.encode message) (0 * messageSize) (messageSize - 0) = some (Output.encode message) := by
    rw [Nat.zero_mul, Nat.sub_zero, ← length]
    exact bytesAt_start
  have first : writeTurn (moving most) (Output.encode message) ⟨0, 0, []⟩ =
      .inl ⟨1, min (most 0) messageSize, (Output.encode message).take (min (most 0) messageSize)⟩ := by
    have some : min (most 0) (messageSize - 0) ≠ 0 := by
      have := positive 0
      omega
    unfold writeTurn moving
    rw [if_pos size]
    dsimp only
    rw [all]
    dsimp only
    rw [if_neg some]
    simp only [Nat.zero_add, Nat.sub_zero, List.nil_append]
  constructor
  · rintro ⟨fuel, result⟩
    by_contra short
    have cut : min (most 0) messageSize = most 0 := by omega
    rw [cut] at first
    have second : writeTurn (moving most) (Output.encode message) ⟨1, most 0, (Output.encode message).take (most 0)⟩ =
        .inr (.undefined, (Output.encode message).take (most 0)) := by
      unfold writeTurn moving
      rw [if_pos (Nat.lt_of_not_le short)]
      dsimp only
      rw [bytesAt_outside length (positive 0) (Nat.lt_of_not_le short)]
    have twice : loop (writeTurn (moving most) (Output.encode message)) 2 ⟨0, 0, []⟩ =
        some (.undefined, (Output.encode message).take (most 0)) :=
      (loop_next first).trans (loop_leave second)
    cases loop_unique twice result
  · intro whole
    rw [Nat.min_eq_right whole] at first
    have sent : (Output.encode message).take messageSize = Output.encode message := by rw [← length, List.take_length]
    refine ⟨2, (loop_next first).trans (loop_leave ?_)⟩
    unfold writeTurn
    rw [if_neg (Nat.lt_irrefl _), sent]
    rfl

end Writes

section Statistics
variable {most : Nat → Nat} {errno : Int} {rest done : List UInt8} {call : Nat} {err : Int}

def LastTakesRest (most : Nat → Nat) (call n : Nat) : Prop :=
  ∃ k, k + 2 ≤ n ∧ (∀ j < k, most (call + j) = 1) ∧ n - k ≤ most (call + k) ∧ n - k ≤ Output.bufsz

theorem lastTakesRest_one {n : Nat} (one : most call = 1) :
    LastTakesRest most call (n + 1) ↔ LastTakesRest most (call + 1) n := by
  constructor
  · rintro ⟨k, more, ones, all, page⟩
    cases k with
    | zero =>
        have first : most (call + 0) = 1 := one
        omega
    | succ k =>
        refine ⟨k, by omega, fun j less => ?_, ?_, by omega⟩
        · rw [Nat.add_assoc, Nat.add_comm 1]
          exact ones (j + 1) (Nat.succ_lt_succ less)
        · rw [Nat.add_assoc, Nat.add_comm 1]
          omega
  · rintro ⟨k, more, ones, all, page⟩
    refine ⟨k + 1, by omega, fun j less => ?_, ?_, by omega⟩
    · cases j with
      | zero => exact one
      | succ j =>
          rw [Nat.add_comm j, ← Nat.add_assoc]
          exact ones j (Nat.lt_of_succ_lt_succ less)
    · rw [Nat.add_comm k, ← Nat.add_assoc]
      omega

theorem lastTakesRest_more {n : Nat} (more : 2 ≤ most call) :
    LastTakesRest most call n ↔ 2 ≤ n ∧ n ≤ most call ∧ n ≤ Output.bufsz := by
  constructor
  · rintro ⟨k, two, ones, all, page⟩
    cases k with
    | zero => exact ⟨two, all, page⟩
    | succ k =>
        have first := ones 0 (Nat.succ_pos k)
        rw [Nat.add_zero] at first
        omega
  · rintro ⟨two, all, page⟩
    exact ⟨0, two, fun j less => absurd less (Nat.not_lt_zero j), all, page⟩

theorem not_lastTakesRest {n : Nat} (few : n < 2) : ¬ LastTakesRest most call n := by
  rintro ⟨k, more, _⟩
  omega

theorem statsTurn_one {b : UInt8} (small : rest.length + 1 < 2 ^ 64)
    (one : min (min (most call) Output.bufsz) (rest.length + 1) = 1) :
    statsTurn (moving most) errno ⟨call, rest.length + 1, err, b :: rest, done⟩ =
      .inl ⟨call + 1, rest.length, 1, rest, done ++ [b]⟩ := by
  have wrap : (rest.length + 1 + 2 ^ 64 - 1) % 2 ^ 64 = rest.length := by omega
  unfold statsTurn moving
  rw [if_neg (Nat.succ_ne_zero _)]
  dsimp only
  rw [List.length_cons, one, if_neg Nat.one_ne_zero, if_neg (not_not.mpr rfl), wrap]
  rfl

theorem statsTurn_many (more : 2 ≤ min (min (most call) Output.bufsz) rest.length) :
    statsTurn (moving most) errno ⟨call, rest.length, err, rest, done⟩ =
      .inr (.ok (-errno), done ++ rest.take (min (min (most call) Output.bufsz) rest.length)) := by
  unfold statsTurn moving
  rw [if_neg (by dsimp only; omega)]
  dsimp only
  rw [if_neg (by omega), if_pos (by omega)]

theorem statsLoop_iff (positive : ∀ k, 0 < most k) (small : rest.length < 2 ^ 64) :
    (∃ fuel, loop (statsTurn (moving most) errno) fuel ⟨call, rest.length, err, rest, done⟩ =
      some (.ok 0, done ++ rest)) ↔
    (rest = [] ∧ err = 0) ∨ (errno = 0 ∧ LastTakesRest most call rest.length) := by
  induction rest generalizing call done err with
  | nil =>
      have leave : statsTurn (moving most) errno ⟨call, 0, err, [], done⟩ = .inr (.ok err, done) := if_pos rfl
      have none : ¬ LastTakesRest most call 0 := not_lastTakesRest (by decide)
      constructor
      · rintro ⟨fuel, result⟩
        cases fuel with
        | zero => cases result
        | succ fuel =>
            rw [List.length_nil, loop_leave leave] at result
            exact .inl ⟨rfl, Outcome.ok.inj (congrArg Prod.fst (Option.some.inj result))⟩
      · rintro (⟨_, rfl⟩ | ⟨_, last⟩)
        · exact ⟨1, by rw [List.length_nil, loop_leave leave, List.append_nil]⟩
        · exact absurd last none
  | cons b rest ih =>
      rw [List.length_cons] at small ⊢
      have some : ¬ (b :: rest = [] ∧ err = 0) := fun both => List.cons_ne_nil _ _ both.1
      rw [or_iff_right some]
      have page : (2 : Nat) ≤ Output.bufsz := by decide
      by_cases one : min (min (most call) Output.bufsz) (rest.length + 1) = 1
      · have next : statsTurn (moving most) errno ⟨call, rest.length + 1, err, b :: rest, done⟩ =
            .inl ⟨call + 1, rest.length, 1, rest, done ++ [b]⟩ := statsTurn_one small one
        have onward : (∃ fuel, loop (statsTurn (moving most) errno) fuel ⟨call, rest.length + 1, err, b :: rest, done⟩ =
            .some (.ok 0, done ++ b :: rest)) ↔ ∃ fuel, loop (statsTurn (moving most) errno) fuel
              ⟨call + 1, rest.length, 1, rest, done ++ [b]⟩ = .some (.ok 0, (done ++ [b]) ++ rest) := by
          rw [List.append_assoc, List.singleton_append]
          constructor
          · rintro ⟨fuel, result⟩
            cases fuel with
            | zero => cases result
            | succ fuel => exact ⟨fuel, (loop_next next).symm.trans result⟩
          · rintro ⟨fuel, result⟩
            exact ⟨fuel + 1, (loop_next next).trans result⟩
        rw [onward, ih (Nat.lt_of_succ_lt small), or_iff_right fun both => absurd both.2 (by decide)]
        refine and_congr_right fun _ => ?_
        by_cases single : most call = 1
        · exact (lastTakesRest_one single).symm
        · have short : rest.length = 0 := by
            have := positive call
            omega
          rw [short]
          exact iff_of_false (not_lastTakesRest (by decide)) (not_lastTakesRest (by decide))
      · have many : 2 ≤ min (min (most call) Output.bufsz) (b :: rest).length := by
          have := positive call
          rw [List.length_cons]
          omega
        have leave : statsTurn (moving most) errno ⟨call, (b :: rest).length, err, b :: rest, done⟩ = _ :=
          statsTurn_many many
        rw [lastTakesRest_more (by omega)]
        constructor
        · rintro ⟨fuel, result⟩
          cases fuel with
          | zero => cases result
          | succ fuel =>
              rw [← List.length_cons (a := b), loop_leave leave] at result
              have both := Option.some.inj result
              have code : -errno = 0 := Outcome.ok.inj (congrArg Prod.fst both)
              have bytes := congrArg List.length (List.append_cancel_left (congrArg Prod.snd both))
              rw [List.length_take, List.length_cons] at bytes
              exact ⟨by omega, by omega, by omega, by omega⟩
        · rintro ⟨zero, two, all, fits⟩
          refine ⟨1, ?_⟩
          rw [← List.length_cons (a := b), loop_leave leave, List.take_of_length_le (by rw [List.length_cons]; omega), zero]
          rfl

theorem le32_lt (byte : Nat → UInt8) (off : Nat) : le32 byte off < 2 ^ 32 := by
  have b0 := (byte off).toNat_lt
  have b1 := (byte (off + 1)).toNat_lt
  have b2 := (byte (off + 2)).toNat_lt
  have b3 := (byte (off + 3)).toNat_lt
  unfold le32
  omega

theorem infoLength_lt (m : Message) : infoLength m < 2 ^ 64 := by
  have low := le32_lt (fun i => m.body.getD i 0) 8
  have high := le32_lt (fun i => m.body.getD i 0) 12
  unfold infoLength Message.word
  omega

theorem statsFwrite_iff {first : Nat → Nat} {answer stats : List UInt8} (positive : ∀ k, 0 < most k)
    (positive' : ∀ k, 0 < first k) (size : answer.length = messageSize)
    (announced : infoLength (decode answer) = stats.length) :
    (∃ fuel, tapCtlStatsFwrite (moving first) (moving most) errno fuel (answer ++ stats) = some (.ok 0, stats)) ↔
      stats = [] ∨ (errno = 0 ∧ LastTakesRest most 0 stats.length) := by
  have enough : messageSize ≤ (answer ++ stats).length := by
    rw [List.length_append]
    omega
  obtain ⟨before, s, read, buf, incoming⟩ := readRaw_exact positive' enough
  rw [← size, List.take_left] at buf
  rw [← size, List.drop_left] at incoming
  have small : stats.length < 2 ^ 64 := announced ▸ infoLength_lt _
  have copied : (∃ fuel, loop (statsTurn (moving most) errno) fuel
      ⟨0, stats.length, Int.bmod stats.length (2 ^ 32), stats, []⟩ = some (.ok 0, [] ++ stats)) ↔ _ :=
    statsLoop_iff positive small
  have zero : (stats = [] ∧ Int.bmod stats.length (2 ^ 32) = 0) ↔ stats = [] :=
    and_iff_left_of_imp fun none => by rw [none]; rfl
  rw [List.nil_append, zero] at copied
  rw [← copied]
  have behind : ∀ fuel, tapCtlReadRaw (moving first) messageSize fuel (answer ++ stats) = some (0, s) →
      tapCtlStatsFwrite (moving first) (moving most) errno fuel (answer ++ stats) =
        loop (statsTurn (moving most) errno) fuel ⟨0, stats.length, Int.bmod stats.length (2 ^ 32), stats, []⟩ := by
    intro fuel result
    unfold tapCtlStatsFwrite
    rw [result]
    dsimp only
    rw [if_neg (not_not.mpr rfl), buf, announced, incoming]
  constructor
  · rintro ⟨fuel, result⟩
    refine ⟨fuel, ?_⟩
    cases reached : tapCtlReadRaw (moving first) messageSize fuel (answer ++ stats) with
    | none =>
        unfold tapCtlStatsFwrite at result
        rw [reached] at result
        cases result
    | some got =>
        cases loop_unique read reached
        rwa [← behind fuel reached]
  · rintro ⟨fuel, result⟩
    refine ⟨before + fuel, ?_⟩
    rw [behind _ (loop_mono read (Nat.le_add_right _ _))]
    exact loop_mono result (Nat.le_add_left _ _)

end Statistics

/-- However the socket splits the transfers, reads are exact, and a message is on the wire exactly when the first
`write` takes it whole. -/
theorem transport_iff {puts gets first copies : Nat → Nat}
    (positive : ∀ k, 0 < puts k ∧ 0 < gets k ∧ 0 < first k ∧ 0 < copies k) :
    (∀ message, (∃ fuel, tapCtlWriteMessage (moving puts) message fuel = some (.ok 0, Output.encode message)) ↔
      messageSize ≤ puts 0) ∧
    (∀ size incoming, size ≤ incoming.length → ∃ fuel s, tapCtlReadRaw (moving gets) size fuel incoming = some (0, s) ∧
      s.buf = incoming.take size ∧ s.incoming = incoming.drop size) ∧
    ∀ errno answer stats, answer.length = messageSize → infoLength (decode answer) = stats.length →
      ((∃ fuel, tapCtlStatsFwrite (moving first) (moving copies) errno fuel (answer ++ stats) = some (.ok 0, stats)) ↔
        stats = [] ∨ (errno = 0 ∧ LastTakesRest copies 0 stats.length)) :=
  ⟨fun _ => writeMessage_iff fun k => (positive k).1, fun _ _ => readRaw_exact fun k => (positive k).2.1,
    fun _ _ _ => statsFwrite_iff (fun k => (positive k).2.2.2) fun k => (positive k).2.2.1⟩

theorem transport_pages :
    (∀ message, (∃ fuel, tapCtlWriteMessage (moving fun _ => 4096) message fuel = some (.ok 0, Output.encode message)) ↔
      messageSize ≤ 4096) ∧
    (∀ size incoming, size ≤ incoming.length → ∃ fuel s,
      tapCtlReadRaw (moving fun _ => 4096) size fuel incoming = some (0, s) ∧
      s.buf = incoming.take size ∧ s.incoming = incoming.drop size) ∧
    ∀ errno answer stats, answer.length = messageSize → infoLength (decode answer) = stats.length →
      ((∃ fuel, tapCtlStatsFwrite (moving fun _ => 4096) (moving fun _ => 4096) errno fuel (answer ++ stats) =
        some (.ok 0, stats)) ↔ stats = [] ∨ (errno = 0 ∧ LastTakesRest (fun _ => 4096) 0 stats.length)) :=
  transport_iff fun _ => by decide

def oneByte : List UInt8 := Output.encode (Output.statsResponse 0 1)

theorem short_wrong :
    (¬ ∃ fuel, tapCtlWriteMessage (moving fun _ => 1) (Output.statsResponse 0 1) fuel =
      some (.ok 0, Output.encode (Output.statsResponse 0 1))) ∧
    ¬ ∃ fuel, tapCtlStatsFwrite (moving fun _ => 4096) (moving fun _ => 4096) 0 fuel (oneByte ++ [0x7b]) =
      some (.ok 0, [0x7b]) := by
  constructor
  · rw [writeMessage_iff fun _ => Nat.one_pos]
    decide
  · have size : oneByte.length = messageSize := Output.encode_length
    have announced : infoLength (decode oneByte) = [(0x7b : UInt8)].length := by decide +kernel
    rw [statsFwrite_iff (fun _ => by decide) (fun _ => by decide) size announced]
    rintro (some | ⟨_, last⟩)
    · cases some
    · exact not_lastTakesRest (by decide) last

end Blktap.TapCtl
