import Blktap.Tapdisk.Output

/-! # The output of a control connection is complete -/

namespace Blktap.Tapdisk.Output
open Lib
open Bind (kleisliRight)

section Items

def pairItem (key : String) (first second : Arg) : Item :=
  .labelled key (.group squareOpen [.value first, .value second] squareClose)

def countItem (key : String) (n : Count) : Item := pairItem key (.u n.fst) (.u n.snd)

def aioItem (pending : Int) : Item :=
  .labelled "reqs" (.group braceOpen [.entry "max" (.u maxAioReqs), .entry "pending" (.d pending)] braceClose)

def valveItems (v : Valve) : List Item :=
  [.entry "bridge" (.d v.brname), .entry "flags" (.x v.flags), .entry "cred" (.d v.cred), .entry "need" (.d v.need),
    .entry "done" (.d v.done), pairItem "stor" (.d v.stored) (.u v.stor), pairItem "forw" (.d v.forwarded) (.u v.forw)]

def statusItem : Driver → Item
  | .aio pending => .labelled "status" (.group braceOpen [aioItem pending] braceClose)
  | .valve v => .labelled "status" (.group braceOpen (valveItems v) braceClose)
  | .plain _ => .missing "status"

def driverItems (driver : Driver) : List Item :=
  [.entry "type" (.d driver.type), .entry "name" (.s driver.name), statusItem driver]

def imageItem (image : Image) : Item :=
  .group braceOpen
    [.entry "name" (.s image.name), countItem "hits" image.hits, countItem "fail" image.fail,
      .labelled "driver" (.group braceOpen (driverItems image.driver) braceClose)] braceClose

def tapItems : Option Tap → List Item
  | none => []
  | some tap => [.labelled "tap" (.group braceOpen
      [.entry "minor" (.d tap.minor), countItem "reqs" tap.reqs, countItem "kicks" tap.kicks] braceClose)]

def vbdItem (vbd : Vbd) : Item :=
  .group braceOpen
    ([.entry "name" (.s vbd.name), countItem "secs" vbd.secs,
      .labelled "images" (.group squareOpen (vbd.images.map imageItem) squareClose)] ++ tapItems vbd.tap ++
      [.entry "FIXME_enospc_redirect_count" (.u vbd.redirects)]) braceClose

def allItem (vbds : List Vbd) : Item := .group squareOpen (vbds.map vbdItem) squareClose

theorem pair_writes (key : String) (first second : Arg) : Writes (pair key first second) [pairItem key first second] :=
  .labelled ((Writes.val first).seq (.val second))

theorem aio_writes (pending : Int) : Writes (aioStats pending) [aioItem pending] :=
  .labelled ((Writes.entry "max" _).seq (.entry "pending" _))

theorem valve_writes (v : Valve) : Writes (valveStats v) (valveItems v) :=
  (Writes.entry "bridge" _).seq <| (Writes.entry "flags" _).seq <| (Writes.entry "cred" _).seq <|
    (Writes.entry "need" _).seq <| (Writes.entry "done" _).seq <| (pair_writes "stor" _ _).seq (pair_writes "forw" _ _)

theorem status_writes (driver : Driver) : Writes (statusStats driver) [statusItem driver] := by
  cases driver with
  | aio pending => exact .labelled (aio_writes pending)
  | valve v => exact .labelled (valve_writes v)
  | plain type => exact .missing "status"

theorem driver_writes (driver : Driver) : Writes (driverStats driver) (driverItems driver) :=
  (Writes.entry "type" _).seq <| (Writes.entry "name" _).seq (status_writes driver)

theorem image_writes (image : Image) : Writes (imageStats image) [imageItem image] :=
  .group <| (Writes.entry "name" _).seq <| (pair_writes "hits" _ _).seq <| (pair_writes "fail" _ _).seq <|
    .labelled (driver_writes image.driver)

theorem tap_writes (tap : Option Tap) : Writes (tapStats tap) (tapItems tap) := by
  cases tap with
  | none => exact .nothing
  | some tap =>
      exact .labelled ((Writes.entry "minor" _).seq <| (pair_writes "reqs" _ _).seq (pair_writes "kicks" _ _))

theorem vbd_writes (vbd : Vbd) : Writes (vbdStats vbd) [vbdItem vbd] := by
  have images : Writes (eachOf imageStats vbd.images) (vbd.images.map imageItem) :=
    .each fun image _ => image_writes image
  exact .group <| (Writes.entry "name" _).seq <| (pair_writes "secs" _ _).seq <| (Writes.labelled images).seq <|
    (tap_writes vbd.tap).seq (.entry "FIXME_enospc_redirect_count" _)

theorem all_writes (vbds : List Vbd) : Writes (allStats vbds) [allItem vbds] :=
  .group (.each fun vbd _ => vbd_writes vbd)

theorem deepest_le {items : List Item} {n : Nat} : deepest items ≤ n ↔ ∀ item ∈ items, item.levels ≤ n := by
  induction items with
  | nil => simp [deepest]
  | cons item items ih =>
      simp only [deepest, List.foldr_cons] at ih ⊢
      rw [Nat.max_le, ih, List.forall_mem_cons]

theorem status_levels (driver : Driver) : (statusItem driver).levels ≤ 2 ↔ driver.isAio = false := by
  cases driver <;> simp [statusItem, aioItem, valveItems, pairItem, Item.labelled, Item.group, Item.entry, Item.value,
    Item.missing, deepest, Driver.isAio]

theorem status_levels_le (driver : Driver) : (statusItem driver).levels ≤ 3 := by
  cases driver <;> simp [statusItem, aioItem, valveItems, pairItem, Item.labelled, Item.group, Item.entry, Item.value,
    Item.missing, deepest]

theorem vbd_levels {vbd : Vbd} {n : Nat} (enough : 1 ≤ n) :
    (vbdItem vbd).levels ≤ n + 4 ↔ ∀ image ∈ vbd.images, (statusItem image.driver).levels ≤ n := by
  have tap : deepest (tapItems vbd.tap) ≤ n + 3 := by
    cases vbd.tap with
    | none => simp [tapItems, deepest]
    | some tap => simp [tapItems, countItem, pairItem, Item.labelled, Item.group, Item.entry, Item.value, deepest]
  have image : ∀ image : Image, (imageItem image).levels ≤ n + 2 ↔ (statusItem image.driver).levels ≤ n := by
    intro image
    simp only [imageItem, driverItems, countItem, pairItem, Item.labelled, Item.group, Item.entry, Item.value, deepest,
      List.foldr_cons, List.foldr_nil]
    omega
  have images : deepest (vbd.images.map imageItem) ≤ n + 2 ↔
      ∀ image ∈ vbd.images, (statusItem image.driver).levels ≤ n := by
    rw [deepest_le, List.forall_mem_map]
    exact forall₂_congr fun i _ => image i
  rw [← images]
  simp only [vbdItem, Item.group, deepest_append, countItem, pairItem, Item.labelled, Item.entry, Item.value]
  simp only [deepest, List.foldr_cons, List.foldr_nil] at tap ⊢
  omega

theorem vbd_levels_le (vbd : Vbd) : (vbdItem vbd).levels ≤ 7 :=
  (vbd_levels (by decide)).mpr fun image _ => status_levels_le image.driver

theorem all_levels (vbds : List Vbd) :
    (allItem vbds).levels ≤ 7 ↔ ∀ vbd ∈ vbds, ∀ image ∈ vbd.images, image.driver.isAio = false := by
  rw [allItem, Item.group, Nat.add_le_add_iff_right (k := 6), deepest_le, List.forall_mem_map]
  refine forall₂_congr fun vbd _ => (vbd_levels (n := 2) (by decide)).trans ?_
  exact forall₂_congr fun image _ => status_levels image.driver

end Items

section Response

def statsItem (vbds : List Vbd) (cookie : Nat) : Option Item :=
  if cookie ≠ allVbds then (getVbd vbds cookie).map vbdItem else some (allItem vbds)

def messages (vbds : List Vbd) : Request → List Message
  | .list cookie => listMessages vbds cookie
  | .stats cookie => [statsResponse cookie (((statsItem vbds cookie).map fun item => item.text.length).getD (word - enodev))]
  | .other response => [response]

def trailer (vbds : List Vbd) : Request → Text
  | .stats cookie => ((statsItem vbds cookie).map Item.text).getD []
  | _ => []

/-- The output of a request is inside of the buffer, it is the whole response, and what is sent is what has been
queued. -/
structure Right (vbds : List Vbd) (request : Request) (mem : Nat → UInt8) (c : Conn) : Prop where
  inside : c.prod ≤ bufsz
  kept : ∀ i, bufsz ≤ i → c.mem i = mem i
  whole : c.queued = (messages vbds request).flatMap encode ++ trailer vbds request
  sent : ∀ sends c', sendEvents c sends = some c' →
    c'.stream <+: c.queued ∧ (c'.closed = true → c'.failed = false → c'.stream = c.queued)

def Fits (vbds : List Vbd) : Request → Prop
  | .list _ => (vbds.length + 1) * messageSize ≤ bufsz
  | .stats cookie => ∃ item, statsItem vbds cookie = some item ∧ messageSize + item.text.length < bufsz ∧
      (cookie = allVbds → ∀ vbd ∈ vbds, ∀ image ∈ vbd.images, image.driver.isAio = false)
  | .other _ => True

end Response

section Writing
variable {c c' c'' : Conn} {bytes bytes' : Text} {m : Message} {ms : List Message} {mem : Nat → UInt8}

@[simp] theorem encode_length : (encode m).length = messageSize := by
  simp [encode, le, messageSize]
  omega

@[simp] theorem listResponses_length {cookie : Nat} {count : Int} {state : Nat} {path : Text} {vbds : List Vbd} :
    (listResponses cookie count state path vbds).length = vbds.length + 1 := by
  induction vbds generalizing count state path with
  | nil => rfl
  | cons vbd vbds ih => simp [listResponses, ih]

structure Added (c c' : Conn) (bytes : Text) : Prop where
  prod : c'.prod = c.prod + bytes.length
  stands : load c'.mem 0 c'.prod = load c.mem 0 c.prod ++ bytes
  behind : ∀ i, c'.prod ≤ i → c'.mem i = c.mem i
  rest : c' = { c with mem := c'.mem, prod := c'.prod }

theorem Added.none : Added c c [] := ⟨rfl, by simp, fun _ _ => rfl, rfl⟩

theorem Added.append (first : Added c c' bytes) (second : Added c' c'' bytes') : Added c c'' (bytes ++ bytes') where
  prod := by rw [second.prod, first.prod, List.length_append, Nat.add_assoc]
  stands := by rw [second.stands, first.stands, List.append_assoc]
  behind i after := by rw [second.behind i after, first.behind i (by have := second.prod; omega)]
  rest := by rw [second.rest, first.rest]

theorem write_added (room : c.prod + bytes.length ≤ bufsz) : Added c (c.write bytes) bytes := by
  have rest : (bufsz + word - c.prod) % word = bufsz - c.prod := by
    simp only [bufsz, word] at room ⊢
    omega
  have all : bytes.take (bufsz - c.prod) = bytes := List.take_of_length_le (by omega)
  simp only [Conn.write, rest, all]
  constructor
  · rfl
  · have old : load (store c.mem c.prod bytes) 0 c.prod = load c.mem 0 c.prod :=
      load_store_before (Nat.le_of_eq (Nat.zero_add c.prod))
    simp only
    rw [load_add, old, Nat.zero_add, load_store]
  · intro i after
    exact store_after after
  · rfl

theorem writes_added (room : c.prod + ms.length * messageSize ≤ bufsz) :
    Added c (ms.foldl Conn.writeMessage c) (ms.flatMap encode) := by
  induction ms generalizing c with
  | nil => exact .none
  | cons m ms ih =>
      rw [List.length_cons, Nat.add_one_mul] at room
      have first : Added c (c.writeMessage m) (encode m) := write_added (by rw [encode_length]; omega)
      have rest := ih (c := c.writeMessage m) (by rw [first.prod, encode_length]; omega)
      rw [List.foldl_cons, List.flatMap_cons]
      exact first.append rest

theorem write_inside (inside : c.prod ≤ bufsz) : (c.write bytes).prod ≤ bufsz := by
  have rest : (bufsz + word - c.prod) % word = bufsz - c.prod := by
    simp only [bufsz, word] at inside ⊢
    omega
  simp only [Conn.write, rest, List.length_take]
  omega

theorem writes_inside (inside : c.prod ≤ bufsz) : (ms.foldl Conn.writeMessage c).prod ≤ bufsz := by
  induction ms generalizing c with
  | nil => exact inside
  | cons m ms ih => exact ih (write_inside inside)

end Writing

section Sending
variable {c c' c'' : Conn} {sends : List (List Sent)} {results : List Sent}

structure Sending (c c' : Conn) : Prop where
  mem : c'.mem = c.mem
  prod : c'.prod = c.prod
  cons : c'.cons ≤ c'.prod
  stream : c'.stream = load c.mem 0 c'.cons
  closed : c'.closed = true → c'.failed = false → c'.cons = c'.prod

theorem Sending.took {n : Nat} (sending : Sending c c') (opened : c'.closed = false) (enough : n ≤ c'.prod - c'.cons) :
    Sending c { c' with cons := c'.cons + n, stream := c'.stream ++ load c'.mem c'.cons n } where
  mem := sending.mem
  prod := sending.prod
  cons := by
    have cons := sending.cons
    simp only
    omega
  stream := by simp only [sending.stream, sending.mem, load_add, Nat.zero_add]
  closed closed := absurd (opened.symm.trans closed) Bool.false_ne_true

theorem Sending.sendEvent (sending : Sending c c') (opened : c'.closed = false) (ran : sendEvent c' results = some c'') :
    Sending c c'' := by
  induction results generalizing c' with
  | nil =>
      rw [Output.sendEvent] at ran
      split at ran
      · next empty =>
          cases ran
          exact ⟨sending.mem, sending.prod, sending.cons, sending.stream, fun _ _ => empty.symm⟩
      · cases ran
  | cons sent rest ih =>
      simp only [Output.sendEvent] at ran
      split at ran
      · cases ran
      · cases sent with
        | took n =>
            simp only at ran
            split at ran
            · next taken =>
                exact ih (sending.took opened taken.2) opened ran
            · cases ran
        | again =>
            simp only at ran
            split at ran
            · cases ran
              exact sending
            · cases ran
        | failed =>
            simp only at ran
            split at ran
            · cases ran
              exact ⟨sending.mem, sending.prod, sending.cons, sending.stream,
                fun _ failed => absurd failed.symm Bool.false_ne_true⟩
            · cases ran

theorem Sending.sendEvents (sending : Sending c c') (ran : sendEvents c' sends = some c'') : Sending c c'' := by
  induction sends generalizing c' with
  | nil =>
      cases ran
      exact sending
  | cons results rest ih =>
      rw [Output.sendEvents] at ran
      split at ran
      · cases ran
      · next opened =>
          obtain ⟨middle, first, later⟩ := Option.bind_eq_some_iff.mp ran
          exact ih (sending.sendEvent (by simpa using opened) first) later

theorem Sending.right (sending : Sending c c') (cons : c.cons = 0) :
    c'.stream <+: c.queued ∧ (c'.closed = true → c'.failed = false → c'.stream = c.queued) := by
  have queued : c.queued = load c.mem 0 c'.cons ++ load c.mem c'.cons (c.prod - c'.cons) := by
    have le := sending.cons
    rw [sending.prod] at le
    have split : c.prod - c.cons = c'.cons + (c.prod - c'.cons) := by omega
    rw [Conn.queued, split, load_add, cons, Nat.zero_add]
  rw [queued, sending.stream]
  refine ⟨List.prefix_append _ _, fun closed failed => ?_⟩
  rw [sending.closed closed failed, sending.prod, Nat.sub_self, load_zero, List.append_nil]

end Sending

section Claim
variable {vbds : List Vbd} {request : Request} {mem : Nat → UInt8} {c c' : Conn} {bytes : Text}

theorem release_sending (cons : c.cons = 0) (stream : c.stream = []) : Sending (release c) (release c) where
  mem := rfl
  prod := rfl
  cons := by simp [release, cons]
  stream := by simp [release, cons, stream]
  closed closed _ := (of_decide_eq_true closed).symm

structure Answered (mem : Nat → UInt8) (c : Conn) (bytes : Text) : Prop where
  prod : c.prod = bytes.length
  stands : load c.mem 0 bytes.length = bytes
  behind : ∀ i, bufsz ≤ i → c.mem i = mem i
  cons : c.cons = 0
  stream : c.stream = []

theorem Added.answered (added : Added (.opened mem) c bytes) (room : bytes.length ≤ bufsz) : Answered mem c bytes := by
  have prod : c.prod = bytes.length := by rw [added.prod]; exact Nat.zero_add _
  constructor
  · exact prod
  · have stands := added.stands
    rw [prod] at stands
    exact stands
  · intro i after
    exact added.behind i (by omega)
  · rw [added.rest]
    rfl
  · rw [added.rest]
    rfl

theorem Answered.right (answered : Answered mem c bytes) (room : bytes.length ≤ bufsz)
    (whole : bytes = (messages vbds request).flatMap encode ++ trailer vbds request) :
    Right vbds request mem (release c) where
  inside := answered.prod ▸ room
  kept := answered.behind
  whole := by
    rw [← whole]
    simpa [Conn.queued, release, answered.cons, answered.prod] using answered.stands
  sent sends c' ran := ((release_sending answered.cons answered.stream).sendEvents ran).right answered.cons

theorem list_right {cookie : Nat} :
    (∃ c, serve vbds (.list cookie) mem = some c ∧ Right vbds (.list cookie) mem c) ↔ Fits vbds (.list cookie) := by
  have length : ((listMessages vbds cookie).flatMap encode).length = (vbds.length + 1) * messageSize := by
    simp [listMessages, List.length_flatMap]
  constructor
  · rintro ⟨c, served, right⟩
    cases served
    have inside : (list vbds cookie (.opened mem)).prod ≤ bufsz := writes_inside (Nat.zero_le _)
    have whole := congrArg List.length right.whole
    simp only [messages, trailer, List.append_nil, length] at whole
    rw [Conn.queued, load_length] at whole
    change (list vbds cookie (.opened mem)).prod - (list vbds cookie (.opened mem)).cons = _ at whole
    rw [Fits, ← whole]
    omega
  · intro fits
    rw [Fits] at fits
    have added : Added (.opened mem) (list vbds cookie (.opened mem)) ((listMessages vbds cookie).flatMap encode) :=
      writes_added (by simpa [Conn.opened, listMessages] using fits)
    exact ⟨_, rfl, (added.answered (length ▸ fits)).right (length ▸ fits) (by simp [messages, trailer])⟩

theorem other_right {response : Message} :
    ∃ c, serve vbds (.other response) mem = some c ∧ Right vbds (.other response) mem c := by
  have small : (encode response).length ≤ bufsz := by
    rw [encode_length]
    decide
  have added : Added (.opened mem) _ (encode response) := write_added ((Nat.zero_add _).trans_le small)
  exact ⟨_, rfl, (added.answered small).right small (by simp [messages, trailer])⟩

theorem stats_writes (vbds : List Vbd) (cookie : Nat) :
    (statsWriter vbds cookie = none ∧ statsItem vbds cookie = none) ∨
      ∃ writer item, statsWriter vbds cookie = some writer ∧ statsItem vbds cookie = some item ∧
        Writes writer [item] ∧ (∃ t, item.text = item.text.dropLast ++ [t] ∧ t ≠ 0) ∧
        (item.levels < statsMaxDepth ↔
          (cookie = allVbds → ∀ vbd ∈ vbds, ∀ image ∈ vbd.images, image.driver.isAio = false)) := by
  have last : ∀ t items t', (Item.group t items t').text = (Item.group t items t').text.dropLast ++ [t'] := by
    intro t items t'
    have text : (Item.group t items t').text = [t, space] ++ listing 0 (items.map Item.text) ++ [space] ++ [t'] := by
      simp [Item.group]
    rw [text, List.dropLast_concat]
  by_cases all : cookie = allVbds
  · refine Or.inr ⟨allStats vbds, allItem vbds, by simp [statsWriter, all], by simp [statsItem, all], all_writes vbds,
      ⟨squareClose, last _ _ _, by decide⟩, ?_⟩
    rw [← all_levels]
    simp [all, statsMaxDepth, Nat.lt_succ_iff]
  · cases found : getVbd vbds cookie with
    | none => exact Or.inl ⟨by simp [statsWriter, all, found], by simp [statsItem, all, found]⟩
    | some vbd =>
        refine Or.inr ⟨vbdStats vbd, vbdItem vbd, by simp [statsWriter, all, found], by simp [statsItem, all, found],
          vbd_writes vbd, ⟨braceClose, last _ _ _, by decide⟩, ?_⟩
        simp [all, statsMaxDepth, Nat.lt_succ_of_le (vbd_levels_le vbd)]

theorem stats_cursor {item : Item} {st : Stats} (wrote : Wrote (.init mem messageSize (bufsz - messageSize)) st [item.text]) :
    (Cursor.mk messageSize (bufsz - messageSize) 0 mem).Printed item.text st.out := by
  simpa [listing, Stats.init] using wrote.printed

theorem statsOut_answered {text : Text} {cookie : Nat} (prod : c.prod = 0) (cons : c.cons = 0) (stream : c.stream = [])
    (stands : load c.mem messageSize text.length = text) (behind : ∀ i, bufsz ≤ i → c.mem i = mem i)
    (room : messageSize + text.length < bufsz) :
    Answered mem (statsOut cookie text.length c) (encode (statsResponse cookie text.length) ++ text) := by
  let message := statsResponse cookie text.length
  have added : Added c (c.writeMessage message) (encode message) :=
    write_added (by rw [prod, encode_length]; omega)
  have length : (encode message ++ text).length = messageSize + text.length := by
    rw [List.length_append, encode_length]
  have produced : (c.writeMessage message).prod = messageSize := by
    rw [added.prod, prod, encode_length, Nat.zero_add]
  have same : ∀ i, messageSize ≤ i → (c.writeMessage message).mem i = c.mem i := fun i after =>
    added.behind i (produced ▸ after)
  constructor
  · rw [length]
    change ((c.writeMessage message).prod + text.length) % word = _
    rw [produced]
    exact Nat.mod_eq_of_lt (by simp only [bufsz, word] at room ⊢; omega)
  · have first := added.stands
    rw [produced, prod, load_zero, List.nil_append] at first
    have second : load (c.writeMessage message).mem messageSize text.length = text :=
      (load_congr fun i after _ => same i after).trans stands
    change load (c.writeMessage message).mem 0 _ = _
    rw [length, load_add, first, Nat.zero_add, second]
  · intro i after
    exact (same i (by omega)).trans (behind i after)
  · change (c.writeMessage message).cons = 0
    rw [added.rest]
    exact cons
  · change (c.writeMessage message).stream = []
    rw [added.rest]
    exact stream

theorem stats_answered (cookie : Nat) {text : Text} {out : Cursor}
    (printed : (Cursor.mk messageSize (bufsz - messageSize) 0 mem).Printed text out)
    (room : messageSize + text.length < bufsz) :
    Answered mem (statsOut cookie out.pos { Conn.opened mem with mem := out.mem })
      (encode (statsResponse cookie text.length) ++ text) := by
  have fits : (Cursor.mk messageSize (bufsz - messageSize) 0 mem).Fits (text.length + 1) := by
    constructor
    · change messageSize + (bufsz - messageSize) ≤ intMax
      decide
    · simp only [bufsz, messageSize] at room ⊢
      omega
  have pos : out.pos = text.length := (printed.pos fits.first).trans (Nat.zero_add _)
  obtain ⟨stands, kept⟩ := printed.fits fits
  rw [pos]
  exact statsOut_answered rfl rfl rfl stands (fun i behind => kept i (Or.inr behind)) room

theorem stats_room {text : Text} {cookie : Nat} {out : Cursor} {t : UInt8} {message : Message}
    (printed : (Cursor.mk messageSize (bufsz - messageSize) 0 mem).Printed text out)
    (last : text = text.dropLast ++ [t]) (visible : t ≠ 0)
    (inside : (statsOut cookie out.pos { Conn.opened mem with mem := out.mem }).prod ≤ bufsz)
    (whole : (statsOut cookie out.pos { Conn.opened mem with mem := out.mem }).queued = encode message ++ text) :
    messageSize + text.length < bufsz := by
  let c : Conn := { Conn.opened mem with mem := out.mem }
  have added : Added c (c.writeMessage (statsResponse cookie out.pos)) (encode (statsResponse cookie out.pos)) := by
    apply write_added
    rw [encode_length]
    change 0 + messageSize ≤ bufsz
    decide
  have produced : (c.writeMessage (statsResponse cookie out.pos)).prod = messageSize := by
    rw [added.prod, encode_length]
    exact Nat.zero_add _
  have cons : (statsOut cookie out.pos c).cons = 0 := by
    change (c.writeMessage (statsResponse cookie out.pos)).cons = 0
    rw [added.rest]
    rfl
  have length : (statsOut cookie out.pos c).prod = messageSize + text.length := by
    have both := congrArg List.length whole
    rw [Conn.queued, load_length, List.length_append, encode_length] at both
    change (statsOut cookie out.pos c).prod - (statsOut cookie out.pos c).cons = _ at both
    rwa [cons] at both
  have bound : messageSize + text.length ≤ bufsz := length ▸ inside
  by_contra full
  have fits : (Cursor.mk messageSize (bufsz - messageSize) 0 mem).Fits text.length := by
    constructor
    · change messageSize + (bufsz - messageSize) ≤ intMax
      decide
    · simp only [bufsz, messageSize] at bound ⊢
      omega
  have exact : 0 + text.length = bufsz - messageSize := by omega
  have nul : out.mem (bufsz - 1) = 0 := printed.full (show 0 < bufsz - messageSize by decide) fits exact
  have lastByte : (statsOut cookie out.pos c).mem (bufsz - 1) = 0 := by
    rw [← nul]
    exact added.behind _ (produced ▸ by decide)
  have queued : (statsOut cookie out.pos c).queued = load (statsOut cookie out.pos c).mem 0 (bufsz - 1) ++ [0] := by
    have split : (statsOut cookie out.pos c).prod - 0 = bufsz - 1 + 1 := by
      rw [length, Nat.sub_zero]
      simp only [bufsz, messageSize] at bound full ⊢
      omega
    rw [Conn.queued, cons, split, load_add, Nat.zero_add]
    simp [load, lastByte]
  rw [last, ← List.append_assoc] at whole
  have ends := (List.append_inj' (queued.symm.trans whole) rfl).2
  exact visible (List.singleton_inj.mp ends).symm

theorem message_prod (mem : Nat → UInt8) (message : Message) :
    ((Conn.opened mem).writeMessage message).prod = messageSize ∧ ((Conn.opened mem).writeMessage message).cons = 0 := by
  have added : Added (.opened mem) ((Conn.opened mem).writeMessage message) (encode message) := by
    apply write_added
    rw [encode_length]
    change 0 + messageSize ≤ bufsz
    decide
  constructor
  · rw [added.prod, encode_length]
    exact Nat.zero_add _
  · rw [added.rest]
    rfl

theorem stats_absent {cookie : Nat} (absent : statsWriter vbds cookie = none) (noItem : statsItem vbds cookie = none) :
    ¬ ∃ c, serve vbds (.stats cookie) mem = some c ∧ Right vbds (.stats cookie) mem c := by
  rintro ⟨c, served, right⟩
  simp only [serve, handle, stats, absent, Option.map_some, Option.some.injEq] at served
  subst served
  obtain ⟨prod, cons⟩ := message_prod mem (statsResponse cookie (word - enodev))
  have whole := congrArg List.length right.whole
  simp only [messages, trailer, noItem, Option.map_none, Option.getD_none, List.append_nil, List.flatMap_singleton,
    encode_length, Conn.queued, load_length] at whole
  simp only [release, statsOut, prod, cons] at whole
  simp only [messageSize, word, enodev] at whole
  omega

theorem stats_right {cookie : Nat} :
    (∃ c, serve vbds (.stats cookie) mem = some c ∧ Right vbds (.stats cookie) mem c) ↔ Fits vbds (.stats cookie) := by
  rcases stats_writes vbds cookie with
    ⟨absent, noItem⟩ | ⟨writer, item, present, hasItem, writes, ⟨t, last, visible⟩, levels⟩
  · have never : ¬ Fits vbds (.stats cookie) := by simp [Fits, noItem]
    exact iff_of_false (stats_absent absent noItem) never
  · have ran := writes (.init mem messageSize (bufsz - messageSize)) (show 0 < statsMaxDepth by decide)
    have served : serve vbds (.stats cookie) mem = (writer (.init mem messageSize (bufsz - messageSize))).map fun st =>
        release (statsOut cookie st.out.pos { Conn.opened mem with mem := st.out.mem }) := by
      simp only [serve, handle, stats, present, Option.map_map]
      rfl
    have response : (messages vbds (.stats cookie)).flatMap encode ++ trailer vbds (.stats cookie) =
        encode (statsResponse cookie item.text.length) ++ item.text := by
      simp [messages, trailer, hasItem]
    have fits : Fits vbds (.stats cookie) ↔
        messageSize + item.text.length < bufsz ∧ item.levels < statsMaxDepth := by
      simp [Fits, hasItem, levels]
    rw [deepest_singleton, show (Stats.init mem messageSize (bufsz - messageSize)).depth = 0 from rfl,
      Nat.zero_add] at ran
    rw [fits]
    constructor
    · rintro ⟨c, done, right⟩
      rw [served] at done
      split at ran
      · next shallow =>
          obtain ⟨st, wrote, written⟩ := ran
          rw [wrote] at done
          cases done
          have whole : (statsOut cookie st.out.pos { Conn.opened mem with mem := st.out.mem }).queued = _ :=
            right.whole.trans response
          exact ⟨stats_room (stats_cursor written) last visible right.inside whole, shallow⟩
      · rw [ran] at done
        cases done
    · rintro ⟨room, shallow⟩
      rw [if_pos shallow] at ran
      obtain ⟨st, wrote, written⟩ := ran
      have answered := stats_answered cookie (stats_cursor written) room
      refine ⟨_, by rw [served, wrote]; rfl, answered.right ?_ response.symm⟩
      rw [List.length_append, encode_length]
      omega

/-- The output of a request stays in its buffer and is complete exactly when the response fits. -/
theorem output_right (vbds : List Vbd) (request : Request) (mem : Nat → UInt8) :
    (∃ c, serve vbds request mem = some c ∧ Right vbds request mem c) ↔ Fits vbds request := by
  cases request with
  | list cookie => exact list_right
  | stats cookie => exact stats_right
  | other response => exact iff_of_true other_right trivial

def attached (n : Nat) : List Vbd :=
  (List.range n).map fun i => ⟨i, none, 0, ⟨0, 0⟩, [], some ⟨i, ⟨0, 0⟩, ⟨0, 0⟩⟩, 0⟩

theorem output_overrun :
    ¬ ∃ c, serve (attached 25) (.stats allVbds) (fun _ => 0) = some c ∧
      Right (attached 25) (.stats allVbds) (fun _ => 0) c := by
  rintro ⟨c, served, right⟩
  have prod : (serve (attached 25) (.stats allVbds) fun _ => 0).map Conn.prod = some 4303 := by decide +kernel
  rw [served] at prod
  have inside := right.inside
  rw [Option.some.inj prod] at inside
  exact absurd inside (by decide)

end Claim
end Blktap.Tapdisk.Output
