import Mathlib.Data.List.TakeWhile
import Blktap.Lib.Run
import Blktap.Tapdisk.Syslog

/-! # Messages are sent in order -/

namespace Blktap.Tapdisk.Syslog
open Lib

def string (packet : List UInt8) : List UInt8 := packet.takeWhile (· ≠ 0)

def flat (queue : List (List UInt8)) : List UInt8 := queue.flatMap (· ++ [0])

namespace Log

def contents (s : Log) : List UInt8 := (List.range s.used).map fun i => s.ring (slot word s.ringsz (s.cons + i))

/-- What the socket has taken and then what is in the ring comes in the order in which it was formatted; the other
strings are counted as dropped or failed. -/
def Right (s : Log) : Prop :=
  ∃ queue, s.contents = flat queue ∧ (s.accepted.map string ++ queue).Sublist s.formatted ∧
    (∀ packet ∈ s.accepted, packet = string packet ∨ packet = string packet ++ [0]) ∧
    s.formatted.length % word = (s.accepted.length + queue.length + s.fails + s.drops) % word ∧
    (s.cons ≠ s.prod → s.masked = false)

def Meets (s : Log) : Event → Prop
  | .log m results =>
      (s.cons = s.prod ∧ ∀ sent ∈ attempts results, sent.1 ≠ .again) ∨
        Unbroken word s.ringsz s.cons (s.used + (m.line.length + 1))
  | .writable warning _ => s.oom = 0 ∨ Unbroken word s.ringsz s.cons (s.used + (warning.line.length + 1))

instance (s : Log) : (e : Event) → Decidable (s.Meets e)
  | .log _ results => inferInstanceAs (Decidable
      ((s.cons = s.prod ∧ ∀ sent ∈ attempts results, sent.1 ≠ .again) ∨ Unbroken _ _ _ _))
  | .writable _ _ => inferInstanceAs (Decidable (s.oom = 0 ∨ Unbroken _ _ _ _))

structure Good (s : Log) (queue inHand : List (List UInt8)) : Prop where
  strings : ∀ line ∈ queue ++ inHand, 0 ∉ line ∧ line.length < packetMax
  holds : Holds word s.ringsz s.ring s.cons (flat queue)
  prod : s.prod = (s.cons + (flat queue).length) % word
  cons : s.cons < word
  fits : (flat queue).length ≤ s.ringsz
  size : s.ringsz < word
  order : (s.accepted.map string ++ (queue ++ inHand)).Sublist s.formatted
  whole : ∀ packet ∈ s.accepted, packet = string packet ∨ packet = string packet ++ [0]
  total : s.formatted.length % word =
    (s.accepted.length + (queue.length + inHand.length) + s.fails + s.drops) % word
  unmasked : queue ≠ [] → s.masked = false

end Log

variable {s t : Log} {queue : List (List UInt8)} {line : List UInt8} {m : Message}

@[simp] theorem flat_nil : flat [] = [] := rfl

@[simp] theorem flat_cons : flat (line :: queue) = line ++ 0 :: flat queue := by simp [flat]

@[simp] theorem flat_snoc : flat (queue ++ [line]) = flat queue ++ (line ++ [0]) := by simp [flat]

theorem string_line (noNul : 0 ∉ line) : string line = line := by
  apply List.takeWhile_eq_self_iff.mpr
  intro c member
  simp only [ne_eq, decide_eq_true_eq]
  rintro rfl
  exact noNul member

theorem string_nul (noNul : 0 ∉ line) : string (line ++ [0]) = line := by
  have whole := string_line noNul
  unfold string at whole ⊢
  rw [List.takeWhile_append, whole]
  simp

namespace Message

theorem line_noNul (m : Message) : 0 ∉ m.line := fun member => m.noNul (List.mem_of_mem_take member)

theorem line_short (m : Message) : m.line.length < packetMax := by
  simp only [line, List.length_take, packetMax]
  omega

theorem packet_cases (m : Message) : m.packet = m.line ∨ m.packet = m.line ++ [0] := by
  by_cases short : m.text.length < packetMax
  · left
    have whole : m.line = m.text := List.take_of_length_le (by omega)
    simp only [packet, len, whole, Nat.min_eq_left short.le, List.take_left]
  · right
    apply List.take_of_length_le
    simp only [len, line, List.length_append, List.length_take, List.length_singleton, packetMax] at short ⊢
    omega

theorem string_packet (m : Message) : string m.packet = m.line := by
  rcases m.packet_cases with whole | cut
  · rw [whole, string_line m.line_noNul]
  · rw [cut, string_nul m.line_noNul]

theorem packet_whole (m : Message) : m.packet = string m.packet ∨ m.packet = string m.packet ++ [0] := by
  rw [m.string_packet]
  exact m.packet_cases

theorem packet_short (m : Message) : m.packet.length ≤ packetMax := by
  have short := m.line_short
  rcases m.packet_cases with whole | cut
  · rw [whole]
    exact short.le
  · rw [cut, List.length_append, List.length_singleton]
    exact short

end Message

namespace Log

theorem Good.used {inHand : List (List UInt8)} (good : s.Good queue inHand) : s.used = (flat queue).length := by
  have prod := good.prod
  have cons := good.cons
  have fits := good.fits
  have size := good.size
  simp only [Log.used, word] at *
  omega

theorem Good.empty_iff {inHand : List (List UInt8)} (good : s.Good queue inHand) : s.cons = s.prod ↔ queue = [] := by
  have prod := good.prod
  have cons := good.cons
  have fits := good.fits
  have size := good.size
  constructor
  · intro same
    cases queue with
    | nil => rfl
    | cons line queue =>
        simp only [flat_cons, List.length_append, List.length_cons, word] at *
        omega
  · rintro rfl
    simp only [flat_nil, List.length_nil, word] at *
    omega

theorem Good.right (good : s.Good queue []) : s.Right := by
  refine ⟨queue, ?_, by simpa using good.order, good.whole, by simpa using good.total, fun different => ?_⟩
  · apply List.ext_getElem?
    intro i
    unfold contents
    rw [good.used]
    by_cases small : i < (flat queue).length
    · rw [good.holds i small]
      simp [small]
    · rw [List.getElem?_eq_none (by simpa using small), List.getElem?_eq_none (by omega)]
  · exact good.unmasked fun empty => different (good.empty_iff.mpr empty)

theorem Good.format (good : s.Good queue []) (m : Message) (count bytes : Nat) :
    Good { s with count, bytes, formatted := s.formatted ++ [m.line] } queue [m.line] where
  strings line member := by
    rcases List.mem_append.mp member with old | new
    · exact good.strings line (List.mem_append_left _ old)
    · rw [List.mem_singleton.mp new]
      exact ⟨m.line_noNul, m.line_short⟩
  holds := good.holds
  prod := good.prod
  cons := good.cons
  fits := good.fits
  size := good.size
  order := by
    have order := good.order
    rw [List.append_nil] at order
    rw [← List.append_assoc]
    exact order.append (.refl _)
  whole := good.whole
  total := by
    have total := good.total
    simp only [List.length_append, List.length_singleton, List.length_nil, word] at total ⊢
    omega
  unmasked := good.unmasked

theorem Good.drop (good : s.Good queue [line]) : s.drop.Good queue [] where
  strings other member := good.strings other (List.mem_append_left _ (by simpa using member))
  holds := good.holds
  prod := good.prod
  cons := good.cons
  fits := good.fits
  size := good.size
  order := by
    have order := good.order
    rw [← List.append_assoc] at order
    rw [List.append_nil]
    exact (List.sublist_append_left _ _).trans order
  whole := good.whole
  total := by
    have total := good.total
    simp only [Log.drop, List.length_singleton, List.length_nil, word] at total ⊢
    omega
  unmasked := good.unmasked

theorem Good.fail (good : s.Good queue [line]) : s.fail.Good queue [] := by
  have dropped := good.drop
  refine ⟨dropped.strings, good.holds, good.prod, good.cons, good.fits, good.size, dropped.order, good.whole, ?_,
    good.unmasked⟩
  have total := good.total
  simp only [Log.fail, List.length_singleton, List.length_nil, word] at total ⊢
  omega

theorem Good.accept (good : s.Good [] [m.line]) : (s.accept m.packet).Good [] [] where
  strings _ member := (List.not_mem_nil member).elim
  holds := good.holds
  prod := good.prod
  cons := good.cons
  fits := good.fits
  size := good.size
  order := by simpa [Log.accept, m.string_packet] using good.order
  whole packet member := by
    rcases List.mem_append.mp member with old | new
    · exact good.whole packet old
    · rw [List.mem_singleton.mp new]
      exact m.packet_whole
  total := by
    have total := good.total
    simp only [Log.accept, List.length_append, List.length_singleton, List.length_nil, word] at total ⊢
    omega
  unmasked := good.unmasked

theorem Good.stats {inHand : List (List UInt8)} (good : s.Good queue inHand) (xmits oom : Nat) :
    Good { s with xmits, oom } queue inHand :=
  ⟨good.strings, good.holds, good.prod, good.cons, good.fits, good.size, good.order, good.whole, good.total,
    good.unmasked⟩

theorem Good.unmask {inHand : List (List UInt8)} (good : s.Good queue inHand) :
    Good { s with masked := false } queue inHand :=
  ⟨good.strings, good.holds, good.prod, good.cons, good.fits, good.size, good.order, good.whole, good.total,
    fun _ => rfl⟩

theorem Good.ringWriteStr (good : s.Good queue [m.line]) (open' : s.masked = false)
    (unbroken : Unbroken word s.ringsz s.cons (s.used + (m.line.length + 1)))
    (action : s.ringWriteStr m.packet = some t) : t.Good (queue ++ [m.line]) [] := by
  have used := good.used
  have fits := good.fits
  have size := good.size
  have free : s.ringFree = s.ringsz - (flat queue).length := by
    simp only [ringFree, used, word] at size ⊢
    omega
  have bytes : m.packet.takeWhile (· ≠ 0) = m.line := m.string_packet
  simp only [Log.ringWriteStr, List.take_of_length_le m.packet_short, bytes, free] at action
  split at action
  · cases action
  next room =>
  cases action
  have longer : m.line.length ≤ m.packet.length := by
    rcases m.packet_cases with whole | cut
    · rw [whole]
    · rw [cut, List.length_append]
      omega
  have enough : (flat queue).length + (m.line ++ [0]).length ≤ s.ringsz := by
    rw [List.length_append, List.length_singleton]
    omega
  rw [used] at unbroken
  have held : Holds word s.ringsz (put word s.ringsz s.ring (s.cons + (flat queue).length) (m.line ++ [0])) s.cons
      (flat queue ++ (m.line ++ [0])) :=
    good.holds.put unbroken (by simp) (by simpa using enough)
  refine ⟨by simpa using good.strings, ?_, ?_, good.cons, ?_, size, by simpa using good.order, good.whole, ?_,
    fun _ => open'⟩
  · rw [flat_snoc]
    dsimp only
    rw [good.prod, put_mod]
    exact held
  · have prod := good.prod
    simp only [flat_snoc, List.length_append, List.length_singleton, word] at prod ⊢
    omega
  · rw [flat_snoc, List.length_append]
    exact enough
  · have total := good.total
    simp only [List.length_append, List.length_singleton, List.length_nil, word] at total ⊢
    omega

theorem Good.busy (good : s.Good queue [m.line]) (open' : s.masked = false)
    (unbroken : Unbroken word s.ringsz s.cons (s.used + (m.line.length + 1))) :
    ∃ queue', (s.busy m).2.Good queue' [] := by
  simp only [Log.busy]
  split
  · exact ⟨queue, good.drop⟩
  · split
    next t written => exact ⟨queue ++ [m.line], good.ringWriteStr open' unbroken written⟩
    · exact ⟨queue, good.drop⟩

theorem Good.vsyslog (good : s.Good queue []) {results rest : List Send} {ok : Bool}
    (meets : s.Meets (.log m results)) (action : s.vsyslog m results = some (ok, t, rest)) :
    ∃ queue', t.Good queue' [] := by
  have formatted := good.format m ((s.count + 1) % word) ((s.bytes + m.len) % word)
  simp only [Log.vsyslog] at action
  split at action
  next different =>
    have other : queue ≠ [] := fun empty => different (good.empty_iff.mpr empty)
    have unbroken := meets.resolve_left fun direct => different direct.1
    simp only [Option.some.injEq, Prod.mk.injEq] at action
    rw [← action.2.1]
    exact formatted.busy (good.unmasked other) unbroken
  next same =>
    have empty : queue = [] := good.empty_iff.mp (by simpa using same)
    subst empty
    obtain ⟨⟨direct, xmits, left⟩, tried, action⟩ := Option.map_eq_some_iff.mp action
    have sent := formatted.stats ((s.xmits + xmits) % word) s.oom
    cases direct with
    | sent =>
        cases action
        exact ⟨[], sent.accept⟩
    | failed =>
        cases action
        exact ⟨[], sent.fail⟩
    | again =>
        have unbroken := meets.resolve_left fun direct => direct.2 _ tried rfl
        simp only [Prod.mk.injEq] at action
        rw [← action.2.1]
        exact sent.unmask.busy rfl unbroken

theorem readBytes_line {rest : List UInt8} {size cons n : Nat} (noNul : 0 ∉ line) (short : line.length < size)
    (holds : Holds word s.ringsz s.ring cons (line ++ 0 :: rest)) (prod : s.prod = (cons + n) % word)
    (small : cons < word) (more : line.length < n) (fits : n < word) : s.readBytes size cons = line ++ [0] := by
  induction line generalizing size cons n with
  | nil =>
      obtain ⟨size, rfl⟩ := Nat.exists_eq_add_of_lt short
      have different : cons ≠ s.prod := by
        simp only [List.length_nil, word] at *
        omega
      have first : s.ring (slot word s.ringsz cons) = 0 := Holds.head holds
      simp [readBytes, different, first]
  | cons c line ih =>
      obtain ⟨size, rfl⟩ := Nat.exists_eq_add_of_lt short
      have different : cons ≠ s.prod := by
        simp only [List.length_cons, word] at *
        omega
      have first : s.ring (slot word s.ringsz cons) = c := Holds.head holds
      obtain ⟨other, noNul⟩ : 0 ≠ c ∧ 0 ∉ line := by simpa [not_or] using noNul
      have later : s.prod = ((cons + 1) % word + (n - 1)) % word := by
        simp only [List.length_cons, word] at *
        omega
      simp only [List.length_cons] at more
      have next : s.readBytes (line.length + 1 + size) ((cons + 1) % word) = line ++ [0] :=
        ih noNul (by omega) (holds_mod.mpr holds.tail) later (Nat.mod_lt _ (by decide)) (by omega) (by omega)
      simp [readBytes, different, first, other.symm, next]

theorem Good.ringReadPkt (good : s.Good (line :: queue) []) : s.ringReadPkt = some line := by
  obtain ⟨noNul, short⟩ := good.strings line (by simp)
  have holds := good.holds
  have fits := good.fits
  have size := good.size
  have prod := good.prod
  rw [flat_cons] at holds
  simp only [flat_cons, List.length_append, List.length_cons] at prod fits
  have bytes : s.readBytes packetMax s.cons = line ++ [0] :=
    readBytes_line noNul short holds prod good.cons (by omega) (by omega)
  unfold Log.ringReadPkt
  rw [bytes]
  cases line with
  | nil => rfl
  | cons c cs =>
      have cut : (c :: cs ++ [0]).dropLast = c :: cs := List.dropLast_concat
      exact congrArg some cut

theorem Good.ringReadPkt_nil (good : s.Good [] []) : s.ringReadPkt = none := by
  have same := good.empty_iff.mpr rfl
  simp [Log.ringReadPkt, readBytes, same, packetMax]

theorem Good.advance (good : s.Good (line :: queue) []) (accepted : List (List UInt8)) (xmits fails : Nat)
    (order : (accepted.map string ++ queue).Sublist s.formatted)
    (whole : ∀ packet ∈ accepted, packet = string packet ∨ packet = string packet ++ [0])
    (total : (accepted.length + fails) % word = (s.accepted.length + s.fails + 1) % word) :
    Good { s with cons := (s.cons + line.length + 1) % word, accepted, xmits, fails } queue [] where
  strings other member := good.strings other (by simpa using .inr (by simpa using member))
  holds := by
    have holds := good.holds
    rw [flat_cons] at holds
    have rest := holds.append.tail
    exact holds_mod.mpr rest
  prod := by
    have prod := good.prod
    simp only [flat_cons, List.length_append, List.length_cons, word] at prod ⊢
    omega
  cons := Nat.mod_lt _ (by decide)
  fits := by
    have fits := good.fits
    simp only [flat_cons, List.length_append, List.length_cons] at fits
    dsimp only
    omega
  size := good.size
  order := by simpa using order
  whole := whole
  total := by
    have before := good.total
    simp only [List.length_cons, List.length_nil, word] at before total ⊢
    omega
  unmasked _ := good.unmasked (by simp)

theorem Good.unbroken_advance (good : s.Good (line :: queue) []) (next : t.Good queue [])
    (cons : t.cons = (s.cons + line.length + 1) % word) (ringsz : t.ringsz = s.ringsz) {n : Nat}
    (unbroken : Unbroken word s.ringsz s.cons (s.used + (n + 1))) :
    Unbroken word t.ringsz t.cons (t.used + (n + 1)) := by
  rw [ringsz]
  rcases unbroken with divides | below
  · exact .inl divides
  · right
    rw [good.used, flat_cons, List.length_append, List.length_cons] at below
    rw [next.used, cons]
    simp only [word] at below ⊢
    omega

theorem Good.dispatch {results rest : List Send} (good : s.Good queue []) (action : s.dispatch results = some (t, rest)) :
    ∃ queue', t.Good queue' [] ∧ t.oom = s.oom ∧ t.ringsz = s.ringsz ∧
      ∀ n, Unbroken word s.ringsz s.cons (s.used + (n + 1)) → Unbroken word t.ringsz t.cons (t.used + (n + 1)) := by
  induction results generalizing s queue with
  | nil =>
      cases queue with
      | nil =>
          simp only [Log.dispatch, good.ringReadPkt_nil] at action
          cases action
          exact ⟨[], good, rfl, rfl, fun _ => id⟩
      | cons line queue =>
          simp only [Log.dispatch, good.ringReadPkt] at action
          cases action
  | cons result results ih =>
      cases queue with
      | nil =>
          simp only [Log.dispatch, good.ringReadPkt_nil] at action
          cases action
          exact ⟨[], good, rfl, rfl, fun _ => id⟩
      | cons line queue =>
          simp only [Log.dispatch, good.ringReadPkt] at action
          have order := good.order
          rw [List.append_nil] at order
          have skipped : (s.accepted.map string ++ queue).Sublist s.formatted :=
            (List.Sublist.append_left (List.sublist_cons_self line queue) _).trans order
          have noNul := (good.strings line (by simp)).1
          cases result with
          | again =>
              cases action
              exact ⟨line :: queue, good.stats _ _, rfl, rfl, fun _ => id⟩
          | accepted =>
              have next := good.advance (s.accepted ++ [line]) ((s.xmits + 1) % word) s.fails
                (by simpa [string_line noNul] using order)
                (by simpa [or_imp, forall_and, string_line noNul] using good.whole)
                (by rw [List.length_append, List.length_singleton, Nat.add_right_comm])
              obtain ⟨queue', sound, oom, ringsz, later⟩ := ih next action
              exact ⟨queue', sound, oom, ringsz, fun n unbroken =>
                later n (good.unbroken_advance next rfl rfl unbroken)⟩
          | error =>
              have next := good.advance s.accepted ((s.xmits + 1) % word) ((s.fails + 1) % word) skipped good.whole
                (by rw [Nat.add_mod_mod, Nat.add_assoc])
              obtain ⟨queue', sound, oom, ringsz, later⟩ := ih next action
              exact ⟨queue', sound, oom, ringsz, fun n unbroken =>
                later n (good.unbroken_advance next rfl rfl unbroken)⟩
          | notConnected connect =>
              have next := good.advance s.accepted ((s.xmits + 1) % word) ((s.fails + 1) % word) skipped good.whole
                (by rw [Nat.add_mod_mod, Nat.add_assoc])
              obtain ⟨queue', sound, oom, ringsz, later⟩ := ih next action
              exact ⟨queue', sound, oom, ringsz, fun n unbroken =>
                later n (good.unbroken_advance next rfl rfl unbroken)⟩

theorem Good.ringWarning (good : s.Good queue []) {warning : Message} {results rest : List Send}
    (unbroken : Unbroken word s.ringsz s.cons (s.used + (warning.line.length + 1)))
    (action : s.ringWarning warning results = some (t, rest)) : ∃ queue', t.Good queue' [] := by
  obtain ⟨⟨ok, u, left⟩, logged, equal⟩ := Option.map_eq_some_iff.mp action
  obtain ⟨queue', sound⟩ := (good.stats s.xmits 0).vsyslog (.inr unbroken) logged
  simp only [Prod.mk.injEq] at equal
  obtain ⟨rfl, -⟩ := equal
  cases ok
  · exact ⟨queue', sound.stats u.xmits s.oom⟩
  · exact ⟨queue', sound⟩

theorem Good.mask (good : s.Good queue []) :
    Good (if s.cons = s.prod then { s with masked := true } else s) queue [] := by
  split
  next same =>
    have empty := good.empty_iff.mp same
    exact ⟨good.strings, good.holds, good.prod, good.cons, good.fits, good.size, good.order, good.whole, good.total,
      fun some => (some empty).elim⟩
  · exact good

theorem Good.step {e : Event} (good : s.Good queue []) (meets : s.Meets e) (action : s.step e = some t) :
    ∃ queue', t.Good queue' [] := by
  cases e with
  | log m results =>
      obtain ⟨⟨ok, u, rest⟩, logged, ended⟩ := Option.bind_eq_some_iff.mp action
      obtain ⟨queue', sound⟩ := good.vsyslog meets logged
      dsimp only at ended
      split at ended
      · cases ended
        exact ⟨queue', sound⟩
      · cases ended
  | writable warning results =>
      simp only [Log.step] at action
      split at action
      · cases action
      obtain ⟨⟨u, rest⟩, handled, ended⟩ := Option.bind_eq_some_iff.mp action
      obtain ⟨⟨v, left⟩, sent, handled⟩ := Option.bind_eq_some_iff.mp handled
      obtain ⟨⟨w, last⟩, warned, masks⟩ := Option.map_eq_some_iff.mp handled
      obtain ⟨queue', sound, oom, -, later⟩ := good.dispatch sent
      have after : ∃ queue', w.Good queue' [] := by
        split at warned
        · cases warned
          exact ⟨queue', sound⟩
        next many =>
          have unbroken := meets.resolve_left fun none => many (oom.trans none)
          exact sound.ringWarning (later _ unbroken) warned
      obtain ⟨queue', sound⟩ := after
      simp only [Prod.mk.injEq] at masks
      obtain ⟨rfl, -⟩ := masks
      dsimp only at ended
      split at ended
      · cases ended
        exact ⟨queue', sound.mask⟩
      · cases ended

theorem good_init (bufsz : Nat) : Good (init bufsz) [] [] where
  strings _ member := (List.not_mem_nil member).elim
  holds := .nil
  prod := rfl
  cons := show 0 < word by decide
  fits := Nat.zero_le _
  size := Nat.mod_lt _ (by decide)
  order := .slnil
  whole _ member := (List.not_mem_nil member).elim
  total := rfl
  unmasked some := (some rfl).elim

/-- In every run in which the condition holds, the ring is a queue that loses nothing. -/
theorem ring_right (bufsz : Nat) (run : Run step Meets (init bufsz) s) : s.Right := by
  obtain ⟨queue, good⟩ := run.invariant (I := fun s => ∃ queue, Good s queue [])
    (fun _ _ _ ⟨_, good⟩ meets action => good.step meets action) ⟨[], good_init bufsz⟩
  exact good.right

def letter (c : UInt8) (n : Nat) (other : 0 ≠ c) : Message :=
  ⟨List.replicate n c, fun member => other (List.eq_of_mem_replicate member)⟩

theorem letter_line {c : UInt8} {n : Nat} (other : 0 ≠ c) (short : n < packetMax) :
    (letter c n other).line = List.replicate n c := by
  have least : min (packetMax - 1) n = n := Nat.min_eq_right (Nat.le_sub_one_of_lt short)
  rw [Message.line, letter, List.take_replicate, least]

theorem letter_packet {c : UInt8} {n : Nat} (other : 0 ≠ c) (short : n < packetMax) :
    (letter c n other).packet = List.replicate n c := by
  have len : (letter c n other).len = (List.replicate n c).length := by
    simp only [Message.len, letter, List.length_replicate, Nat.min_eq_left short.le]
  rw [Message.packet, letter_line other short, len, List.take_left]

theorem ring_right_two : ∃ s : Log, s.accepted = [[97], [98]] ∧ s.Right := by
  obtain ⟨s, action, accepted⟩ := Option.map_eq_some_iff.mp (by decide +kernel :
    (runEvents (guarded step Meets) (init 8192)
      [.log (letter 97 1 (by decide)) [.again], .log (letter 98 1 (by decide)) [],
        .writable (letter 99 1 (by decide)) [.accepted, .accepted]]).map (fun s : Log => s.accepted) =
      some [[97], [98]])
  exact ⟨s, accepted, ring_right 8192 (trace_of_guarded _ action).run⟩

theorem Good.queued (good : s.Good [] []) (oom : s.oom = 0) (room : m.packet.length + 1 ≤ s.ringsz)
    (unbroken : Unbroken word s.ringsz s.cons (m.line.length + 1)) :
    ∃ t, s.step (.log m [.again]) = some t ∧ t.Good [m.line] [] ∧ t.cons = s.cons ∧ t.oom = 0 ∧
      t.ringsz = s.ringsz ∧ t.masked = false ∧ t.formatted = s.formatted ++ [m.line] := by
  have used : s.used = 0 := by rw [good.used, flat_nil, List.length_nil]
  have size := good.size
  let u : Log := { s with
    count := (s.count + 1) % word
    bytes := (s.bytes + m.len) % word
    formatted := s.formatted ++ [m.line]
    xmits := (s.xmits + 1) % word
    masked := false }
  have formatted : u.Good [] [m.line] := ((good.format m ((s.count + 1) % word) ((s.bytes + m.len) % word)).stats
    ((s.xmits + 1) % word) s.oom).unmask
  have usedU : u.used = 0 := used
  have free : u.ringFree = s.ringsz := by
    have size : u.ringsz < word := size
    have same : s.ringsz = u.ringsz := rfl
    rw [same, ringFree, usedU, Nat.sub_zero, Nat.add_mod_right, Nat.mod_eq_of_lt size]
  cases written : u.ringWriteStr m.packet with
  | none =>
      simp only [Log.ringWriteStr, List.take_of_length_le m.packet_short, free] at written
      rw [if_neg (by omega)] at written
      cases written
  | some t =>
      have sound := formatted.ringWriteStr rfl (by rw [usedU, Nat.zero_add]; exact unbroken) written
      have same : s.cons = s.prod := good.empty_iff.mpr rfl
      have fields : t = { u with ring := t.ring, prod := t.prod } := by
        simp only [Log.ringWriteStr] at written
        split at written
        · cases written
        · cases written
          rfl
      refine ⟨t, ?_, sound, by rw [fields], by rw [fields]; exact oom, by rw [fields], by rw [fields], by rw [fields]⟩
      have busy : u.busy m = (true, t) := by
        have free : ¬ u.oom ≠ 0 := not_not.mpr oom
        simp only [Log.busy, if_neg free, written]
      simp only [Log.step, Log.vsyslog]
      rw [if_neg (not_not.mpr same)]
      change (some ((u.busy m).1, (u.busy m).2, [])).bind _ = _
      rw [busy]
      rfl

theorem Good.sent (good : s.Good [line] []) (oom : s.oom = 0) (masked : s.masked = false) :
    ∃ t, s.step (.writable m [.accepted]) = some t ∧ t.Good [] [] ∧ t.cons = (s.cons + line.length + 1) % word ∧
      t.oom = 0 ∧ t.ringsz = s.ringsz ∧ t.formatted = s.formatted := by
  have order := good.order
  rw [List.append_nil] at order
  have noNul := (good.strings line (by simp)).1
  have next := good.advance (s.accepted ++ [line]) ((s.xmits + 1) % word) s.fails
    (by simpa [string_line noNul] using order)
    (by simpa [or_imp, forall_and, string_line noNul] using good.whole)
    (by rw [List.length_append, List.length_singleton, Nat.add_right_comm])
  have empty := next.empty_iff.mpr rfl
  have none := next.ringReadPkt_nil
  have dispatched : s.dispatch [.accepted] = some ({ s with
      cons := (s.cons + line.length + 1) % word
      accepted := s.accepted ++ [line]
      xmits := (s.xmits + 1) % word }, []) := by
    simp only [Log.dispatch, good.ringReadPkt, Log.transmit, Log.accept, none]
  refine ⟨_, ?_, next.mask, ?_⟩
  · simp [Log.step, masked, sockEvent, dispatched, oom]
  · rw [if_pos empty]
    exact ⟨rfl, oom, rfl, rfl⟩

def longest : Message := letter 97 1023 (by decide)

theorem longest_short : 1023 < packetMax := by decide

theorem counters_reached (n : Nat) (small : n * 1024 < word) :
    ∃ s, Run step (fun _ _ => True) (init 8192) s ∧ s.Good [] [] ∧ s.cons = n * 1024 ∧ s.oom = 0 ∧
      s.ringsz = 7168 ∧ ∀ line ∈ s.formatted, line = longest.line := by
  induction n with
  | zero => exact ⟨init 8192, .refl _, good_init 8192, rfl, rfl, rfl, nofun⟩
  | succ n ih =>
      obtain ⟨s, run, good, cons, oom, ringsz, lines⟩ :=
        ih (Nat.lt_of_le_of_lt (Nat.mul_le_mul_right 1024 n.le_succ) small)
      have length : longest.line.length = 1023 :=
        (congrArg List.length (letter_line _ longest_short)).trans List.length_replicate
      have room : longest.packet.length + 1 ≤ s.ringsz := by
        have length : longest.packet.length = 1023 :=
          (congrArg List.length (letter_packet _ longest_short)).trans List.length_replicate
        omega
      have unbroken : Unbroken word s.ringsz s.cons (longest.line.length + 1) := by
        right
        omega
      obtain ⟨t, logged, full, consT, oomT, ringszT, masked, linesT⟩ := good.queued oom room unbroken
      obtain ⟨u, sent, empty, consU, oomU, ringszU, linesU⟩ := full.sent (m := longest) oomT masked
      refine ⟨u, (run.snoc trivial logged).snoc trivial sent, empty, ?_, oomU, by rw [ringszU, ringszT, ringsz], ?_⟩
      · rw [consU, consT, cons, length, Nat.mod_eq_of_lt (by omega)]
        omega
      · rw [linesU, linesT]
        intro line member
        rcases List.mem_append.mp member with old | new
        · exact lines line old
        · exact List.mem_singleton.mp new

def short : Message := letter 98 1 (by decide)

theorem longest_line : longest.line = List.replicate 1023 97 := letter_line _ longest_short

theorem short_line : short.line = [98] := letter_line _ (by decide)

theorem flat_mixed {queue : List (List UInt8)} (lines : ∀ line ∈ queue, line = longest.line ∨ line = short.line)
    (first : (flat queue)[0]? = some 98) (second : (flat queue)[2]? = some 97) : (flat queue)[1023]? ≠ some 0 := by
  have inside : ∀ i < 1023, i < (List.replicate 1023 (97 : UInt8)).length := by
    intro i small
    rwa [List.length_replicate]
  cases queue with
  | nil => cases first
  | cons line queue =>
      rcases lines line (by simp) with rfl | rfl
      · rw [flat_cons, longest_line, List.getElem?_append_left (inside 0 (by decide)), List.getElem?_replicate] at first
        cases first
      · rw [flat_cons, short_line] at second ⊢
        cases queue with
        | nil => cases second
        | cons line queue =>
            rcases lines line (by simp) with rfl | rfl
            · rw [flat_cons, longest_line]
              have behind : ∀ (bytes : List UInt8) (i : Nat), ([98] ++ 0 :: bytes)[i + 2]? = bytes[i]? := fun _ _ => rfl
              rw [behind _ 1021, List.getElem?_append_left (inside 1021 (by decide)), List.getElem?_replicate]
              decide
            · rw [flat_cons, short_line] at second
              cases second

theorem ring_overwritten : ∃ s, Run step (fun _ _ => True) (init 8192) s ∧ ¬ s.Right := by
  obtain ⟨s, run, good, cons, oom, ringsz, lines⟩ := counters_reached (2 ^ 54 - 1) (by decide)
  have cons : s.cons = 2 ^ 64 - 1024 := cons
  have length : longest.line.length = 1023 := by rw [longest_line]; exact List.length_replicate
  have room : longest.packet.length + 1 ≤ s.ringsz := by
    have length : longest.packet.length = 1023 :=
      (congrArg List.length (letter_packet _ longest_short)).trans List.length_replicate
    omega
  have unbroken : Unbroken word s.ringsz s.cons (longest.line.length + 1) := by
    right
    rw [cons, length]
    decide
  obtain ⟨t, logged, full, consT, oomT, ringszT, masked, linesT⟩ := good.queued oom room unbroken
  have bytes : (flat [longest.line]).length = 1024 := by simp [length]
  have prod : t.prod = 0 := by
    rw [full.prod, bytes, consT, cons]
    rfl
  have free : t.ringFree = 6144 := by
    rw [ringFree, full.used, bytes, ringszT, ringsz]
    rfl
  let u : Log := { t with
    count := (t.count + 1) % word
    bytes := (t.bytes + short.len) % word
    formatted := t.formatted ++ [short.line]
    ring := put word t.ringsz t.ring t.prod [98, 0]
    prod := (t.prod + 2) % word }
  have packet : short.packet = [98] := letter_packet _ (by decide)
  have cons' : u.cons = 2 ^ 64 - 1024 := consT.trans cons
  have action : t.step (.log short []) = some u := by
    have busy : t.cons ≠ t.prod := by
      rw [consT, cons, prod]
      decide
    simp only [Log.step, Log.vsyslog]
    rw [if_pos busy]
    have room : ¬ t.ringFree < [(98 : UInt8)].length + 1 := by
      rw [free]
      decide
    let v : Log := { t with
      count := (t.count + 1) % word
      bytes := (t.bytes + short.len) % word
      formatted := t.formatted ++ [short.line] }
    have written : v.ringWriteStr [98] = some u := if_neg room
    have queued : v.busy short = (true, u) := by
      have quiet : ¬ v.oom ≠ 0 := not_not.mpr oomT
      simp only [Log.busy, if_neg quiet, packet, written]
    change (some ((v.busy short).1, (v.busy short).2, [])).bind _ = _
    rw [queued]
    rfl
  refine ⟨u, ((run.snoc trivial logged).snoc trivial action), fun right => ?_⟩
  obtain ⟨queue, contents, order, -⟩ := right
  have place : ∀ i < 1024, slot word 7168 (2 ^ 64 - 1024 + i) = i := by
    intro i small
    simp only [slot, word]
    omega
  have used : u.used = 1026 := by
    have prod' : u.prod = 2 := by
      change (t.prod + 2) % word = 2
      rw [prod]
      rfl
    rw [Log.used, prod', cons']
    rfl
  have shown : ∀ i < 1024, u.contents[i]? = some (u.ring i) := by
    intro i small
    have ringsz' : u.ringsz = 7168 := ringszT.trans ringsz
    have inside : i < 1026 := by omega
    unfold Log.contents
    rw [used, ringsz', cons', List.getElem?_map, List.getElem?_range inside]
    exact congrArg (fun place => some (u.ring place)) (place i small)
  have old : ∀ i < 1024, (flat [longest.line])[i]? = some (t.ring i) := by
    intro i small
    rw [full.holds i (by rw [bytes]; exact small), ringszT, ringsz, consT, cons, place i small]
  have written : u.ring = Function.update (Function.update t.ring 0 98) 1 0 := by
    change put word t.ringsz t.ring t.prod [98, 0] = _
    rw [ringszT, ringsz, prod]
    rfl
  have cells : t.ring 2 = 97 ∧ t.ring 1023 = 0 := by
    have inside : 2 < (List.replicate 1023 (97 : UInt8)).length := by
      rw [List.length_replicate]
      decide
    have line := old 2 (by decide)
    have last := old 1023 (by decide)
    rw [flat_cons, flat_nil, longest_line] at line last
    rw [List.getElem?_append_left inside, List.getElem?_replicate] at line
    rw [List.getElem?_append_right (by rw [List.length_replicate]), List.length_replicate] at last
    exact ⟨(Option.some.inj line).symm, (Option.some.inj last).symm⟩
  have strings : ∀ line ∈ queue, line = longest.line ∨ line = short.line := by
    intro line member
    have formatted : line ∈ t.formatted ++ [short.line] := order.subset (List.mem_append_right _ member)
    rw [linesT] at formatted
    rcases List.mem_append.mp formatted with old | new
    · rcases List.mem_append.mp old with older | old
      · exact .inl (lines line older)
      · exact .inl (List.mem_singleton.mp old)
    · exact .inr (List.mem_singleton.mp new)
  rw [contents, written] at shown
  have first := shown 0 (by decide)
  have second := shown 2 (by decide)
  have third := shown 1023 (by decide)
  simp only [Function.update_self, Function.update_of_ne (show (0 : Nat) ≠ 1 by decide)] at first
  simp only [Function.update_of_ne (show (2 : Nat) ≠ 1 by decide), Function.update_of_ne (show (2 : Nat) ≠ 0 by decide),
    cells.1] at second
  simp only [Function.update_of_ne (show (1023 : Nat) ≠ 1 by decide),
    Function.update_of_ne (show (1023 : Nat) ≠ 0 by decide), cells.2] at third
  exact flat_mixed strings first second third

end Log
end Blktap.Tapdisk.Syslog
