import Blktap.TapCtl.List
import Mathlib.Data.List.GetD
import Mathlib.Data.List.Perm.Basic

/-! # The list of VBDs is an outer join -/

namespace Blktap.TapCtl
open Lib Tapdisk
open Output (Vbd Tap int32 encode listMessages)

section Decoding
variable {incoming rest : List UInt8} {m : Message} {byte : Nat → UInt8} {n : Int}

theorem readMessage_encode (m : Message) (rest : List UInt8) :
    tapCtlReadMessage (encode m ++ rest) = some (decode (encode m), rest) := by
  have length : (encode m).length = messageSize := Output.encode_length
  unfold tapCtlReadMessage
  rw [if_pos (by rw [List.length_append]; omega), ← length, List.take_left, List.drop_left]

theorem readMessage_short (short : incoming.length < messageSize) : tapCtlReadMessage incoming = none :=
  if_neg (Nat.not_le.mpr short)

theorem decode_encode (fits : m.body.length ≤ 528) :
    (decode (encode m)).body = m.body ++ List.replicate (528 - m.body.length) 0 := by
  have header : (Output.le 2 m.type ++ Output.le 2 m.cookie ++ List.replicate 4 0).length = 8 := rfl
  have body : (m.body.take 528 ++ List.replicate (528 - m.body.length) (0 : UInt8)).length = 528 := by
    rw [List.length_append, List.length_take, List.length_replicate]
    omega
  unfold decode encode
  dsimp only
  rw [← header, List.drop_left, List.take_of_length_le (Nat.le_of_eq body), List.take_of_length_le fits]

theorem intAt_int32 (before : List UInt8) {behind : List UInt8} (range : -2 ^ 31 ≤ n ∧ n < 2 ^ 31)
    (body : m.body = before ++ (int32 n ++ behind)) : intAt m before.length = n := by
  have small : (n % 2 ^ 32).toNat < 2 ^ 32 := by omega
  have word : m.word before.length = (n % 2 ^ 32).toNat := by
    refine le32_leByte small fun i less => ?_
    have inside : i < (int32 n).length := less
    rw [body, List.getD_append_right _ _ _ _ (Nat.le_add_right _ _), Nat.add_sub_cancel_left,
      List.getD_append _ _ _ _ inside]
    unfold int32 Output.le
    rw [List.getD_eq_getElem _ _ (by rw [List.length_map, List.length_range]; exact less), List.getElem_map,
      List.getElem_range]
  have modulus : (2 : Int) ^ 32 = (2 ^ 32 : Nat) := rfl
  unfold intAt
  rw [word, Int.toNat_of_nonneg (Int.emod_nonneg _ (by decide)), modulus, Int.emod_bmod]
  exact Int.bmod_eq_of_le (by omega) (by omega)

end Decoding

section Responses
variable {cookie state : Nat} {count minor pid : Int} {path : Text} {name : Option Text} {vbd : Vbd} {strings : Bool}

theorem putName_ended (path : Text) (short : ∀ text ∈ name, text.length < maxPathLength) :
    ∃ more, Output.putName path name = name.getD [] ++ 0 :: more := by
  cases name with
  | none => exact ⟨path.tail, rfl⟩
  | some text =>
      have less : text.length < maxPathLength := short text rfl
      refine ⟨List.replicate (maxPathLength - text.length - 1) 0, ?_⟩
      unfold Output.putName
      dsimp only
      rw [List.take_of_length_le (Nat.le_of_lt less), ← List.replicate_succ, Nat.sub_add_cancel (by omega)]
      rfl

theorem putName_length (length : path.length = maxPathLength) : (Output.putName path name).length = maxPathLength := by
  cases name with
  | none =>
      have some : 0 < maxPathLength := by decide
      unfold Output.putName
      rw [List.length_cons, List.length_tail]
      omega
  | some text =>
      unfold Output.putName
      rw [List.length_append, List.length_take, List.length_replicate]
      omega

theorem response_body (length : path.length = maxPathLength) :
    ∃ zeros, (decode (encode (Output.listResponse cookie count minor state path))).body =
      int32 count ++ (int32 minor ++ (int32 state ++ (path ++ zeros))) := by
  have size : (Output.listResponse cookie count minor state path).body.length = 268 := by
    unfold Output.listResponse
    rw [List.length_append, length]
    rfl
  refine ⟨List.replicate (528 - 268) 0, ?_⟩
  rw [decode_encode (by omega), size]
  unfold Output.listResponse
  simp only [List.append_assoc]

theorem response_count (range : -2 ^ 31 ≤ count ∧ count < 2 ^ 31) (length : path.length = maxPathLength) :
    intAt (decode (encode (Output.listResponse cookie count minor state path))) 0 = count := by
  obtain ⟨zeros, body⟩ := response_body length
  exact intAt_int32 [] range body

theorem parsed_name (part : Int × Option Text × Option Text → Option Text)
    (absent : part (parseParams true []) = none) :
    vbd.name.bind (fun name => part (parseParams true name)) = part (parseParams true (vbd.name.getD [])) := by
  cases vbd.name with
  | none => exact absent.symm
  | some name => rfl

theorem Known.nonzero (known : Known vbd) : ∀ c ∈ vbd.name.getD [], c ≠ 0 := by
  intro c shown zero
  cases some : vbd.name with
  | none =>
      rw [some] at shown
      cases shown
  | some text =>
      rw [some] at shown
      exact (known.name text some).1 (zero ▸ shown)

theorem listPath_ended {m : Message} {before text more : List UInt8} (length : before.length = 12)
    (body : m.body = before ++ (text ++ 0 :: more)) (nonzero : ∀ c ∈ text, c ≠ 0) :
    listPath m = text ∧ m.body.getD 12 0 = (text ++ 0 :: more).getD 0 0 := by
  unfold listPath
  rw [body, ← length]
  constructor
  · rw [List.drop_left, List.takeWhile_append_of_pos fun c shown => decide_eq_true (nonzero c shown),
      List.takeWhile_cons_of_neg (by decide), List.append_nil]
  · rw [List.getD_append_right _ _ _ _ (Nat.le_refl _), Nat.sub_self]

theorem newEntry_response (known : Known vbd) (length : path.length = maxPathLength) :
    newEntry strings pid (decode (encode
      (Output.listResponse cookie count (minorOf vbd) vbd.state (Output.putName path vbd.name)))) =
      if vbd.name.getD [] = [] ∨ (colon ∈ vbd.name.getD [] ∧ strings = true) then some (ofVbd pid vbd) else none := by
  obtain ⟨zeros, body⟩ : ∃ zeros, (decode (encode (Output.listResponse cookie count (minorOf vbd) vbd.state
      (Output.putName path vbd.name)))).body = _ := response_body (putName_length length)
  obtain ⟨more, ended⟩ := putName_ended path fun text shown => (known.name text shown).2
  generalize decode _ = m at body ⊢
  have small := known.state
  have minor : intAt m 4 = minorOf vbd := intAt_int32 (int32 count) known.minor body
  have state : intAt m 8 = vbd.state :=
    intAt_int32 (int32 count ++ int32 (minorOf vbd)) ⟨by omega, by omega⟩
      (body.trans (List.append_assoc _ _ _).symm)
  have behind : m.body = (int32 count ++ int32 (minorOf vbd) ++ int32 vbd.state) ++
      (vbd.name.getD [] ++ 0 :: (more ++ zeros)) := by
    rw [body, ended]
    simp only [List.append_assoc, List.cons_append]
  obtain ⟨string, first⟩ := listPath_ended rfl behind known.nonzero
  have entry : ofVbd pid vbd = ⟨pid, minorOf vbd, vbd.state, (parseParams true (vbd.name.getD [])).2.1,
      (parseParams true (vbd.name.getD [])).2.2⟩ := by
    unfold ofVbd
    rw [parsed_name (fun params => params.2.1) rfl, parsed_name (fun params => params.2.2) rfl]
  unfold newEntry
  rw [minor, state, first, string, entry]
  cases text : vbd.name.getD [] with
  | nil => rfl
  | cons c rest =>
      have shown : (c :: rest ++ 0 :: (more ++ zeros)).getD 0 0 ≠ 0 :=
        known.nonzero c (by rw [text]; exact List.mem_cons_self)
      rw [if_pos shown]
      unfold parseParams
      by_cases typed : colon ∈ c :: rest
      · cases strings with
        | true => simp only [typed, if_true, and_self, or_true]
        | false =>
            simp only [typed, if_true, Bool.false_eq_true, if_false, and_false, List.cons_ne_nil, or_self]
            rfl
      · simp only [typed, if_false, false_and, List.cons_ne_nil, or_self]
        rfl

end Responses

section Turns
variable {memory : Memory} {pid count : Int} {i k cookie state : Nat} {rest tail : List UInt8} {list : List Entry}
  {path : Text} {s t : Listing} {vbd : Vbd} {vbds : List Vbd}

theorem listLoop_next (next : listTurn memory pid s = .inl t) : listLoop memory pid s = listLoop memory pid t := by
  rw [listLoop]
  split
  case h_1 other =>
    rw [next] at other
    cases other
    rfl
  case h_2 other =>
    rw [next] at other
    cases other

theorem listLoop_leave (leave : listTurn memory pid s = .inr list) : listLoop memory pid s = list := by
  rw [listLoop]
  split
  case h_1 other =>
    rw [leave] at other
    cases other
  case h_2 other =>
    rw [leave] at other
    cases other
    rfl

theorem listTurn_read (memory : Memory) (pid : Int) (i : Nat) (list : List Entry) {incoming : List UInt8} {m : Message}
    (read : tapCtlReadMessage incoming = some (m, rest)) (more : intAt m 0 ≠ 0) :
    listTurn memory pid ⟨i, incoming, list⟩ =
      if memory.entry i then
        match newEntry (memory.strings i) pid m with
        | some tl => .inl ⟨i + 1, rest, tl :: list⟩
        | none => .inr []
      else .inr [] := by
  unfold listTurn
  dsimp only
  rw [read]
  exact if_neg more

theorem taken_iff : Taken memory i vbd ↔
    memory.entry i = true ∧ (vbd.name.getD [] = [] ∨ (colon ∈ vbd.name.getD [] ∧ memory.strings i = true)) := by
  unfold Taken
  refine and_congr_right fun _ => ?_
  cases vbd.name with
  | none => exact iff_of_true (fun name shown => nomatch shown) (.inl rfl)
  | some text =>
      constructor
      · intro named
        exact or_iff_not_imp_left.mpr (named text rfl)
      · rintro named _ ⟨⟩
        exact or_iff_not_imp_left.mp named

theorem listResponses_cons : Output.listResponses cookie count state path (vbd :: vbds) =
    Output.listResponse cookie count (minorOf vbd) vbd.state (Output.putName path vbd.name) ::
      Output.listResponses cookie (count - 1) vbd.state (Output.putName path vbd.name) vbds := rfl

theorem listLoop_vbd (known : Known vbd) (range : 0 < count ∧ count < 2 ^ 31) (length : path.length = maxPathLength) :
    (Taken memory i vbd → listLoop memory pid ⟨i, encode (Output.listResponse cookie count (minorOf vbd) vbd.state
      (Output.putName path vbd.name)) ++ rest, list⟩ = listLoop memory pid ⟨i + 1, rest, ofVbd pid vbd :: list⟩) ∧
    (¬ Taken memory i vbd → listLoop memory pid ⟨i, encode (Output.listResponse cookie count (minorOf vbd) vbd.state
      (Output.putName path vbd.name)) ++ rest, list⟩ = []) := by
  have more : intAt (decode (encode (Output.listResponse cookie count (minorOf vbd) vbd.state
      (Output.putName path vbd.name)))) 0 ≠ 0 := by
    rw [response_count ⟨by omega, range.2⟩ (putName_length length)]
    omega
  have turn := listTurn_read memory pid i list (readMessage_encode _ rest) more
  rw [newEntry_response known length] at turn
  rw [taken_iff]
  constructor
  · rintro ⟨entry, named⟩
    rw [if_pos entry, if_pos named] at turn
    exact listLoop_next turn
  · intro missed
    apply listLoop_leave
    by_cases entry : memory.entry i = true
    · rwa [if_pos entry, if_neg fun named => missed ⟨entry, named⟩] at turn
    · rwa [if_neg entry] at turn

theorem listLoop_all (known : ∀ vbd ∈ vbds, Known vbd) (few : vbds.length < 2 ^ 31)
    (length : path.length = maxPathLength) (counted : count = vbds.length)
    (taken : ∀ j vbd, vbds[j]? = some vbd → Taken memory (i + j) vbd) :
    listLoop memory pid ⟨i, (Output.listResponses cookie count state path vbds).flatMap encode ++ rest, list⟩ =
      (vbds.map (ofVbd pid)).reverse ++ list := by
  induction vbds generalizing i count state path list with
  | nil =>
      subst counted
      apply listLoop_leave
      unfold Output.listResponses listTurn
      dsimp only
      rw [List.flatMap_singleton, readMessage_encode]
      dsimp only
      rw [response_count (by decide) (putName_length length)]
      rfl
  | cons vbd vbds ih =>
      rw [List.length_cons] at few counted
      have range : 0 < count ∧ count < 2 ^ 31 := by omega
      have first : Taken memory i vbd := taken 0 vbd rfl
      rw [listResponses_cons, List.flatMap_cons, List.append_assoc,
        (listLoop_vbd (known vbd List.mem_cons_self) range length).1 first,
        ih (fun vbd shown => known vbd (List.mem_cons_of_mem _ shown)) (Nat.lt_of_succ_lt few) (putName_length length)
        (by omega), List.map_cons, List.reverse_cons, List.append_assoc, List.singleton_append]
      intro j vbd shown
      rw [Nat.add_assoc, Nat.add_comm 1]
      exact taken (j + 1) vbd shown

theorem listLoop_missed (known : ∀ vbd ∈ vbds, Known vbd) (few : vbds.length < 2 ^ 31)
    (length : path.length = maxPathLength) (counted : count = vbds.length) {j : Nat} (shown : vbds[j]? = some vbd)
    (missed : ¬ Taken memory (i + j) vbd) :
    listLoop memory pid ⟨i, (Output.listResponses cookie count state path vbds).flatMap encode ++ rest, list⟩ = [] := by
  induction vbds generalizing i j count state path list with
  | nil => cases shown
  | cons first vbds ih =>
      rw [List.length_cons] at few counted
      have range : 0 < count ∧ count < 2 ^ 31 := by omega
      rw [listResponses_cons, List.flatMap_cons, List.append_assoc]
      by_cases taken : Taken memory i first
      · rw [(listLoop_vbd (known first List.mem_cons_self) range length).1 taken]
        cases j with
        | zero =>
            cases shown
            exact absurd taken missed
        | succ j =>
            rw [← Nat.add_assoc, Nat.add_right_comm] at missed
            exact ih (fun vbd shown => known vbd (List.mem_cons_of_mem _ shown)) (Nat.lt_of_succ_lt few)
              (putName_length length) (by omega) shown missed
      · exact (listLoop_vbd (known first List.mem_cons_self) range length).2 taken

theorem listLoop_part (known : ∀ vbd ∈ vbds, Known vbd) (few : vbds.length < 2 ^ 31)
    (length : path.length = maxPathLength) (counted : count = vbds.length) (part : k ≤ vbds.length)
    (stop : ∀ i list, listLoop memory pid ⟨i, tail, list⟩ = []) :
    listLoop memory pid ⟨i, ((Output.listResponses cookie count state path vbds).take k).flatMap encode ++ tail, list⟩ =
      [] := by
  induction k generalizing i vbds count state path list with
  | zero => exact stop i list
  | succ k ih =>
      cases vbds with
      | nil => cases part
      | cons first vbds =>
          rw [List.length_cons] at few counted part
          have range : 0 < count ∧ count < 2 ^ 31 := by omega
          rw [listResponses_cons, List.take_succ_cons, List.flatMap_cons, List.append_assoc]
          by_cases taken : Taken memory i first
          · rw [(listLoop_vbd (known first List.mem_cons_self) range length).1 taken]
            exact ih (fun vbd shown => known vbd (List.mem_cons_of_mem _ shown)) (Nat.lt_of_succ_lt few)
              (putName_length length) (by omega) (Nat.le_of_succ_le_succ part)
          · exact (listLoop_vbd (known first List.mem_cons_self) range length).2 taken

end Turns

section Answers
variable {memory : Memory} {pid : Int} {i : Nat} {tail : List UInt8} {list : List Entry} {d : Daemon}
  {ms : List Message} {refusal : Refusal}

theorem take_messages {n : Nat} (short : n < ms.length * messageSize) :
    ∃ k tail, k < ms.length ∧ tail.length < messageSize ∧
      (ms.flatMap encode).take n = (ms.take k).flatMap encode ++ tail := by
  induction ms generalizing n with
  | nil =>
      rw [List.length_nil, Nat.zero_mul] at short
      cases short
  | cons m ms ih =>
      have size : (encode m).length = messageSize := Output.encode_length
      rw [List.length_cons, Nat.succ_mul] at short
      by_cases first : n < messageSize
      · refine ⟨0, ((m :: ms).flatMap encode).take n, Nat.succ_pos _, ?_, rfl⟩
        rw [List.length_take]
        omega
      · obtain ⟨k, tail, less, part, taken⟩ := ih (n := n - messageSize) (by omega)
        refine ⟨k + 1, tail, Nat.succ_lt_succ less, part, ?_⟩
        rw [List.flatMap_cons, List.take_append, List.take_of_length_le (by omega), size, taken, List.take_succ_cons,
          List.flatMap_cons, List.append_assoc]

theorem listLoop_short (short : tail.length < messageSize) : listLoop memory pid ⟨i, tail, list⟩ = [] := by
  apply listLoop_leave
  unfold listTurn
  dsimp only
  rw [readMessage_short short]

theorem listLoop_error : listLoop memory pid ⟨i, encode (errorResponse refusal), list⟩ = [] := by
  have read : tapCtlReadMessage (encode (errorResponse refusal)) =
      some (decode (encode (errorResponse refusal)), []) := by
    have alone : tapCtlReadMessage (encode (errorResponse refusal) ++ []) = _ := readMessage_encode _ []
    rwa [List.append_nil] at alone
  have count : intAt (decode (encode (errorResponse refusal))) 0 ≠ 0 := by
    cases refusal <;> decide +kernel
  have turn := listTurn_read memory pid i list read count
  by_cases entry : memory.entry i = true
  · rw [if_pos entry] at turn
    cases new : newEntry (memory.strings i) pid (decode (encode (errorResponse refusal))) with
    | some tl =>
        rw [new] at turn
        rw [listLoop_next turn]
        exact listLoop_short (by decide)
    | none =>
        rw [new] at turn
        exact listLoop_leave turn
  · rw [if_neg entry] at turn
    exact listLoop_leave turn

theorem Daemon.size : ((listMessages d.vbds listCookie).flatMap encode).length = (d.vbds.length + 1) * messageSize := by
  rw [List.length_flatMap, List.map_congr_left fun m _ => Output.encode_length, List.map_const', List.sum_replicate_nat,
    Output.listMessages, Output.listResponses_length]

theorem Daemon.whole (answers : d.answers = true) :
    d.connect = 0 ∧ d.write = 0 ∧ ∃ rest, d.stream = (listMessages d.vbds listCookie).flatMap encode ++ rest := by
  unfold Daemon.answers at answers
  rw [Bool.and_eq_true, Bool.and_eq_true] at answers
  obtain ⟨⟨connect, write⟩, ending⟩ := answers
  refine ⟨of_decide_eq_true connect, of_decide_eq_true write, ?_⟩
  unfold Daemon.stream
  cases ends : d.ending with
  | hangsUp bytes =>
      rw [ends] at ending
      have all := of_decide_eq_true ending
      refine ⟨[], ?_⟩
      rw [List.append_nil]
      exact List.take_of_length_le (d.size ▸ all)
  | refuses messages refusal =>
      rw [ends] at ending
      have all := of_decide_eq_true ending
      refine ⟨encode (errorResponse refusal), ?_⟩
      dsimp only
      rw [List.take_of_length_le (by rw [Output.listMessages, Output.listResponses_length]; omega)]

theorem Daemon.broken (connect : d.connect = 0) (write : d.write = 0) (answers : d.answers = false) :
    listLoop memory pid ⟨0, d.stream, []⟩ = [] := by
  have length : (List.replicate maxPathLength (0 : UInt8)).length = maxPathLength := List.length_replicate
  unfold Daemon.answers at answers
  rw [connect, write] at answers
  unfold Daemon.stream
  cases ends : d.ending with
  | hangsUp bytes =>
      rw [ends] at answers
      have part : bytes < (listMessages d.vbds listCookie).length * messageSize := by
        rw [Output.listMessages, Output.listResponses_length]
        exact Nat.lt_of_not_le (of_decide_eq_false answers)
      obtain ⟨k, tail, less, short, taken⟩ := take_messages part
      rw [Output.listMessages, Output.listResponses_length] at less
      dsimp only
      rw [taken]
      exact listLoop_part d.known d.few length rfl (Nat.le_of_lt_succ less) fun _ _ => listLoop_short short
  | refuses messages refusal =>
      rw [ends] at answers
      have part := Nat.le_of_not_lt (of_decide_eq_false answers)
      exact listLoop_part d.known d.few length rfl part fun _ _ => listLoop_error

end Answers

section Found
variable {memory : Nat → Bool} {entry : Int → Option Entry} {i : Nat} {list result : List Entry}
  {numbers : List (Option Int)} {glob : Glob} {getPid : Int → Int} {s : System}

theorem collect_some (collected : collect memory entry i list numbers = some result) :
    result = list ++ (numbers.filterMap id).filterMap entry := by
  induction numbers generalizing i list with
  | nil =>
      cases collected
      exact (List.append_nil _).symm
  | cons number rest ih =>
      unfold collect at collected
      split at collected
      case isFalse => cases collected
      rw [ih collected, List.append_assoc]
      cases number with
      | none => rfl
      | some n =>
          have first : (some n :: rest).filterMap id = n :: rest.filterMap id := rfl
          rw [first, List.filterMap_cons, Option.bind_some]
          cases entry n <;> rfl

theorem find_ok (ok : 0 ≤ (find memory entry glob).1) : find memory entry glob = (0, glob.numbers.filterMap entry) := by
  cases glob with
  | noMatch => rfl
  | failed errno positive =>
      unfold find at ok
      dsimp only at ok
      omega
  | paths numbers =>
      unfold find at ok ⊢
      dsimp only at ok ⊢
      cases collected : collect memory entry 0 [] numbers with
      | some list => rw [collect_some collected]; rfl
      | none =>
          rw [collected] at ok
          exact absurd ok (by decide)

theorem findMinors_ok (ok : 0 ≤ (findMinors memory glob).1) :
    findMinors memory glob = (0, glob.numbers.map ofMinor) := by
  unfold findMinors at ok ⊢
  rw [find_ok ok, List.filterMap_eq_map']

theorem findTapdisks_ok (ok : 0 ≤ (findTapdisks memory getPid glob).1) :
    (findTapdisks memory getPid glob).2 = ((glob.numbers.map getPid).filter fun pid => 0 ≤ pid).map ofPid := by
  unfold findTapdisks at ok ⊢
  dsimp only at ok ⊢
  have found : 0 ≤ (find memory (fun n => if getPid n < 0 then none else some (ofPid (getPid n))) glob).1 := by
    split at ok
    case isTrue => exact ok
    case isFalse zero => omega
  rw [find_ok found]
  dsimp only
  induction glob.numbers with
  | nil => rfl
  | cons n rest ih =>
      rw [List.map_cons, List.filterMap_cons]
      by_cases negative : getPid n < 0
      · rw [if_pos negative, List.filter_cons_of_neg (by rw [decide_eq_true_eq]; omega)]
        exact ih
      · rw [if_neg negative, List.filter_cons_of_pos (by rw [decide_eq_true_eq]; omega), List.map_cons]
        exact congrArg _ ih

theorem lost_undefined (lost : ¬ s.Found) : tapCtlList s = .undefined := by
  unfold tapCtlList
  dsimp only
  by_cases minors : (findMinors s.minorMemory s.minors).1 < 0
  · rw [if_pos minors]
    rfl
  · have tapdisks : (findTapdisks s.socketMemory s.getPid s.sockets).1 < 0 :=
      Int.not_le.mp fun ok => lost ⟨Int.not_lt.mp minors, ok⟩
    rw [if_neg minors, if_pos tapdisks]
    rfl

end Found

section Joined
variable {minors pids : List Int} {v : Entry} {vbds vbds' : Int → List Entry} {s : System} {pid : Int}

def System.listed (s : System) (pid : Int) : List Entry :=
  match listTapdisk (s.memory pid) (s.daemon pid) pid with
  | .ok list => list
  | .error _ => []

theorem dropMinor_filter (set : minors.Nodup) :
    dropMinor (minors.map ofMinor) v = (minors.filter fun minor => minor ≠ v.minor).map ofMinor := by
  have first : minors.eraseP ((fun m : Entry => decide (m.minor = v.minor)) ∘ ofMinor) = minors.erase v.minor :=
    (List.erase_eq_eraseP' v.minor minors).symm
  unfold dropMinor
  rw [List.eraseP_map, first, set.erase_eq_filter]
  refine congrArg _ (List.filter_congr fun minor _ => ?_)
  exact (decide_not).symm

theorem dropMinors_filter (set : minors.Nodup) (list : List Entry) :
    list.foldl dropMinor (minors.map ofMinor) =
      (minors.filter fun minor => minor ∉ list.map Entry.minor).map ofMinor := by
  induction list generalizing minors with
  | nil =>
      have all : minors.filter (fun minor => minor ∉ ([] : List Entry).map Entry.minor) = minors :=
        List.filter_eq_self.mpr fun minor _ => rfl
      rw [all]
      rfl
  | cons v list ih =>
      rw [List.foldl_cons, dropMinor_filter set, ih (set.filter _), List.filter_filter]
      refine congrArg _ (List.filter_congr fun minor _ => ?_)
      rw [List.map_cons, ← Bool.decide_and, decide_eq_decide, List.mem_cons, not_or, and_comm]

theorem joinTapdisk_listed {lists : List Entry × List Entry} : joinTapdisk s lists (ofPid pid) =
    ((s.listed pid).foldl dropMinor lists.1,
      lists.2 ++ if s.listed pid = [] then [ofPid pid] else s.listed pid) := by
  unfold joinTapdisk System.listed
  dsimp only [ofPid]
  cases listTapdisk (s.memory pid) (s.daemon pid) pid with
  | error code => rfl
  | ok list =>
      cases list with
      | nil => rfl
      | cons v list =>
          dsimp only
          rw [if_neg (List.cons_ne_nil v list)]

theorem joinTapdisks_listed {lists : List Entry × List Entry} : (pids.map ofPid).foldl (joinTapdisk s) lists =
    ((pids.flatMap s.listed).foldl dropMinor lists.1,
      lists.2 ++ pids.flatMap fun pid => if s.listed pid = [] then [ofPid pid] else s.listed pid) := by
  induction pids generalizing lists with
  | nil => rw [List.flatMap_nil, List.flatMap_nil, List.append_nil]; rfl
  | cons pid pids ih =>
      rw [List.map_cons, List.foldl_cons, joinTapdisk_listed, ih, List.flatMap_cons, List.flatMap_cons,
        List.foldl_append, List.append_assoc]

theorem found_joined (set : s.minors.numbers.Nodup) (found : s.Found) :
    tapCtlList s = .ok (0, outerJoin s.minors.numbers s.pids s.listed) := by
  have minors := found.1
  rw [findMinors_ok found.1] at minors
  unfold tapCtlList
  dsimp only
  rw [findMinors_ok found.1, if_neg (Int.not_lt.mpr minors), if_neg (Int.not_lt.mpr found.2), findTapdisks_ok found.2]
  dsimp only
  rw [← System.pids, joinTapdisks_listed, dropMinors_filter set, List.nil_append]
  rfl

theorem outerJoin_perm (same : ∀ pid ∈ pids, (vbds pid).Perm (vbds' pid)) :
    (outerJoin minors pids vbds).Perm (outerJoin minors pids vbds') := by
  have all : (pids.flatMap vbds).Perm (pids.flatMap vbds') := List.Perm.flatMap_left pids same
  unfold outerJoin
  refine (List.Perm.flatMap_left pids fun pid shown => ?_).append (.of_eq ?_)
  · by_cases none : vbds pid = []
    · have none' : vbds' pid = [] := (none ▸ (same pid shown).symm).eq_nil
      rw [if_pos none, if_pos none']
    · have some : ¬ vbds' pid = [] := fun none' => none (none' ▸ same pid shown).eq_nil
      rw [if_neg none, if_neg some]
      exact same pid shown
  · refine congrArg _ (List.filter_congr fun minor _ => ?_)
    rw [decide_eq_decide, ((all.map Entry.minor).mem_iff)]

theorem listed_perm (taken : (s.daemon pid).answers = true → ∀ i vbd, (s.daemon pid).vbds[i]? = some vbd →
    Taken (s.memory pid) i vbd) : (s.listed pid).Perm (s.vbds pid) := by
  have length : (List.replicate maxPathLength (0 : UInt8)).length = maxPathLength := List.length_replicate
  unfold System.listed System.vbds listTapdisk
  cases answers : (s.daemon pid).answers with
  | true =>
      obtain ⟨connect, write, rest, stream⟩ := Daemon.whole answers
      rw [if_neg (not_not.mpr connect), if_neg (not_not.mpr write), if_pos rfl, stream]
      dsimp only
      rw [Output.listMessages, listLoop_all (s.daemon pid).known (s.daemon pid).few length rfl fun j vbd shown => by
        rw [Nat.zero_add]
        exact taken answers j vbd shown, List.append_nil]
      exact List.reverse_perm _
  | false =>
      rw [if_neg Bool.false_ne_true]
      split
      case h_1 list listed =>
        split at listed
        case isTrue => cases listed
        case isFalse connect =>
          split at listed
          case isTrue => cases listed
          case isFalse write =>
            cases listed
            rw [Daemon.broken (not_not.mp connect) (not_not.mp write) answers]
      case h_2 => exact .refl _

theorem listed_missed {i : Nat} {vbd : Vbd} (answers : (s.daemon pid).answers = true)
    (shown : (s.daemon pid).vbds[i]? = some vbd) (missed : ¬ Taken (s.memory pid) i vbd) :
    s.listed pid = [] ∧ s.vbds pid ≠ [] := by
  have length : (List.replicate maxPathLength (0 : UInt8)).length = maxPathLength := List.length_replicate
  unfold System.listed System.vbds listTapdisk
  constructor
  · obtain ⟨connect, write, rest, stream⟩ := Daemon.whole answers
    rw [if_neg (not_not.mpr connect), if_neg (not_not.mpr write), stream]
    exact listLoop_missed (s.daemon pid).known (s.daemon pid).few length rfl shown (by rwa [Nat.zero_add])
  · rw [if_pos answers]
    intro none
    rw [List.map_eq_nil_iff.mp none] at shown
    cases shown

theorem ofPid_mem (positive : 0 ≤ pid) (shown : ofPid pid ∈ outerJoin minors pids s.vbds) : s.vbds pid = [] := by
  obtain join | minor := List.mem_append.mp shown
  · obtain ⟨other, _, entry⟩ := List.mem_flatMap.mp join
    split at entry
    case isTrue none =>
      have same : pid = other := congrArg Entry.pid (List.mem_singleton.mp entry)
      rw [same]
      exact none
    case isFalse =>
      unfold System.vbds at entry
      split at entry
      case isFalse => cases entry
      case isTrue =>
        obtain ⟨vbd, _, same⟩ := List.mem_map.mp entry
        have state : (vbd.state : Int) = -1 := congrArg Entry.state same
        omega
  · obtain ⟨n, _, same⟩ := List.mem_map.mp minor
    have pid : -1 = pid := congrArg Entry.pid same
    omega

end Joined

/-- The result is right exactly when the early steps succeed and each VBD of the tapdisks that answer can be listed. -/
theorem tapCtlList_iff {s : System} (set : s.minors.numbers.Nodup) :
    Right s ↔ s.Found ∧ ∀ pid ∈ s.pids, (s.daemon pid).answers = true → ∀ i vbd, (s.daemon pid).vbds[i]? = some vbd →
      Taken (s.memory pid) i vbd := by
  constructor
  · intro right
    have found : s.Found := by
      by_contra lost
      exact right.defined (lost_undefined lost)
    refine ⟨found, fun pid shown answers i vbd vbdShown => ?_⟩
    by_contra missed
    obtain ⟨none, some⟩ := listed_missed answers vbdShown missed
    obtain ⟨list, result, same⟩ := right.joined found
    rw [found_joined set found] at result
    cases result
    have positive : 0 ≤ pid := of_decide_eq_true (List.mem_filter.mp shown).2
    have alone : ofPid pid ∈ outerJoin s.minors.numbers s.pids s.listed := by
      refine List.mem_append_left _ (List.mem_flatMap.mpr ⟨pid, shown, ?_⟩)
      rw [if_pos none]
      exact List.mem_singleton_self _
    exact some (ofPid_mem positive (same.subset alone))
  · rintro ⟨found, taken⟩
    have joined := found_joined set found
    refine ⟨?_, fun _ => ⟨_, joined, outerJoin_perm fun pid shown => listed_perm (taken pid shown)⟩⟩
    rw [joined]
    intro undefined
    cases undefined

def attachedVbd : Vbd := ⟨0, some (ascii "vhd:/a"), 0, ⟨0, 0⟩, [], some ⟨0, ⟨0, 0⟩, ⟨0, 0⟩⟩, 0⟩

theorem attachedVbd_known : Known attachedVbd where
  minor := by decide
  state := by decide
  name := by
    rintro name ⟨⟩
    exact ⟨by decide +kernel, by decide +kernel⟩

def oneTapdisk (sockets : Glob) : System where
  minors := .paths [some 0, some 1]
  sockets := sockets
  minorMemory := fun _ => true
  socketMemory := fun _ => true
  getPid := fun _ => 7
  daemon := fun _ => ⟨0, 0, [attachedVbd], by decide, fun vbd shown => by
    rw [List.mem_singleton.mp shown]
    exact attachedVbd_known, .hangsUp 1072⟩
  memory := fun _ => ⟨fun _ => true, fun _ => true⟩

theorem oneTapdisk_right : Right (oneTapdisk (.paths [some 3])) :=
  (tapCtlList_iff (by decide)).mpr ⟨⟨by decide +kernel, by decide +kernel⟩, fun pid _ _ i vbd shown => by
    have same : vbd = attachedVbd := List.mem_singleton.mp (List.mem_of_getElem? shown)
    subst same
    refine ⟨rfl, ?_⟩
    rintro name ⟨⟩ _
    exact ⟨by decide +kernel, rfl⟩⟩

theorem noMemory_wrong : ¬ Right (oneTapdisk (.failed 12 (by decide))) := fun right => right.defined rfl

end Blktap.TapCtl
