import Blktap.Tapdisk.ControlRuns

/-! # Which connection a handler answers -/

namespace Blktap.Tapdisk
open Lib

namespace Control
variable {s t : Control} {k : Nat}

def exclusive (frames : List Frame) : List Frame := frames.filter (·.info.excl)

structure Orderly (s : Control) : Prop where
  perm : s.table.Perm (List.range ctlMaxConnections)
  connected : ∀ i < ctlMaxConnections, i < s.nConn ↔ (s.conns (s.table.getD i 0)).connected
  answers : ∀ w ∈ s.writes, ∀ c, w.2 = some c → w.1 = some c
  clean : s.stale = false
  alone : (exclusive s.frames).length ≤ 1

/-- A connection is accepted with a usable descriptor and an event for its output, in a slot that has never been
opened. -/
def OpensFresh (s : Control) : CtlStep → Prop
  | .accept fd outOk _ => fd = -1 ∨ ctlMaxConnections ≤ s.nConn ∨
      1 ≤ fd ∧ outOk ∧ (s.conns s.nextSlot).fd = 0
  | _ => True

instance (s : Control) (e : CtlStep) : Decidable (OpensFresh s e) :=
  match e with
  | .accept fd outOk _ => inferInstanceAs (Decidable (fd = -1 ∨ ctlMaxConnections ≤ s.nConn ∨
      1 ≤ fd ∧ outOk ∧ (s.conns s.nextSlot).fd = 0))
  | .request .. | .send .. | .resume .. => .isTrue trivial

structure Slots (s : Control) : Prop where
  active : ∀ k ∈ s.table.take s.nConn, s.owner k ≠ none
  usable : ∀ k, s.owner k ≠ none → 1 ≤ (s.conns k).fd
  shut : ∀ k, s.owner k = none → (s.conns k).fd ≤ 0
  fresh : ∀ k, (s.conns k).fd = 0 → (s.conns k).leftover = false

def Holds (s : Control) (f : Frame) : Prop :=
  (s.conns f.slot).fd ≠ 0 ∧ (s.owner f.slot = none ∨ s.owner f.slot = f.requester)

structure Tidy (s : Control) : Prop where
  slots : Slots s
  frames : ∀ f ∈ s.frames, Holds s f
  count : (exclusive s.frames).length = if s.busy then 1 else 0
  answers : ∀ w ∈ s.writes, ∀ c, w.2 = some c → w.1 = some c
  clean : s.stale = false

theorem Slots.opened (slots : Slots s) (taken : s.owner k ≠ none) : (s.conns k).fd ≠ 0 := by
  have usable := slots.usable k taken
  omega

theorem Slots.place (slots : Slots s) (change : Local s t k) (place : Place s t k) (opened : (s.conns k).fd ≠ 0) :
    Slots t := by
  have fd : (t.conns k).fd ≠ 0 := by
    rcases place with ⟨-, -, fd, -⟩ | ⟨-, fd, -⟩
    · rwa [fd]
    · simp [fd]
  constructor
  · intro j member
    rcases place with ⟨table, nConn, -, owner⟩ | ⟨-, -, active⟩
    · rw [table, nConn] at member
      have before := slots.active j member
      by_cases same : j = k
      · rwa [same, owner, ← same]
      · rwa [(change.conns j same).2]
    · obtain ⟨before, other⟩ := active j member
      rw [(change.conns j other).2]
      exact slots.active j before
  · intro j taken
    by_cases same : j = k
    · rcases place with ⟨-, -, fd, owner⟩ | ⟨owner, -, -⟩
      · rw [same] at taken ⊢
        rw [fd]
        exact slots.usable k (owner ▸ taken)
      · exact absurd owner (same ▸ taken)
    · rw [(change.conns j same).1]
      exact slots.usable j ((change.conns j same).2 ▸ taken)
  · intro j free
    by_cases same : j = k
    · rcases place with ⟨-, -, fd, owner⟩ | ⟨-, fd, -⟩
      · rw [same] at free ⊢
        rw [fd]
        exact slots.shut k (owner ▸ free)
      · rw [same, fd]
        decide
    · rw [(change.conns j same).1]
      exact slots.shut j ((change.conns j same).2 ▸ free)
  · intro j zero
    by_cases same : j = k
    · exact absurd (same ▸ zero) fd
    · rw [(change.conns j same).1] at zero ⊢
      exact slots.fresh j zero

theorem Holds.place {f : Frame} (holds : Holds s f) (change : Local s t k) (place : Place s t k) : Holds t f := by
  by_cases same : f.slot = k
  · obtain ⟨opened, owner⟩ := holds
    unfold Holds
    rw [same] at opened owner ⊢
    rcases place with ⟨-, -, fd, kept⟩ | ⟨gone, fd, -⟩
    · rw [fd, kept]
      exact ⟨opened, owner⟩
    · exact ⟨by simp [fd], .inl gone⟩
  · unfold Holds
    rw [(change.conns _ same).1, (change.conns _ same).2]
    exact holds

theorem Tidy.place (tidy : Tidy s) (change : Local s t k) (place : Place s t k) (opened : (s.conns k).fd ≠ 0)
    (frames : t.frames = s.frames) (busy : t.busy = s.busy) (stale : t.stale = s.stale)
    (writes : ∀ w ∈ t.writes, w ∈ s.writes ∨ w = (s.owner k, s.owner k)) : Tidy t := by
  refine ⟨tidy.slots.place change place opened, ?_, ?_, ?_, stale.trans tidy.clean⟩
  · rw [frames]
    exact fun f member => (tidy.frames f member).place change place
  · rw [frames, busy]
    exact tidy.count
  · intro w member c some
    rcases writes w member with old | rfl
    · exact tidy.answers w old c some
    · exact some

theorem Tidy.like (tidy : Tidy s) (conns : t.conns = s.conns) (owner : t.owner = s.owner)
    (table : t.table = s.table) (nConn : t.nConn = s.nConn) (frames : t.frames = s.frames) (busy : t.busy = s.busy)
    (writes : t.writes = s.writes) (stale : t.stale = s.stale) : Tidy t := by
  obtain ⟨⟨active, usable, shut, fresh⟩, holds, count, answers, clean⟩ := tidy
  refine ⟨⟨?_, ?_, ?_, ?_⟩, ?_, ?_, ?_, ?_⟩
  · rwa [table, nConn, owner]
  · rwa [owner, conns]
  · rwa [owner, conns]
  · rwa [conns]
  · unfold Holds
    rw [frames, conns, owner]
    exact holds
  · rwa [frames, busy]
  · rwa [writes]
  · rwa [stale]

theorem Tidy.refuse {sent : Nat} (tidy : Tidy s) (whole : Whole s) (alive : s.fault = none)
    (taken : s.owner k ≠ none) : Tidy (s.refuse k sent) := by
  by_cases unset : (s.conns k).info = none
  · rw [refuse_unset unset]
    exact tidy.like rfl rfl rfl rfl rfl rfl rfl rfl
  · have refused := refused sent whole.1 alive unset
    obtain ⟨frames, busy, stale, -⟩ := refused.same
    exact tidy.place refused.change refused.place (tidy.slots.opened taken) frames busy stale refused.writes

theorem local_entered {f : Frame} {type : Nat} : Local s (s.entered f type) f.slot :=
  ⟨fun _ other => ⟨updateConn_of_ne other, rfl⟩, fun e member => ⟨e, member, rfl, rfl, rfl, fun _ => rfl⟩⟩

theorem place_entered {f : Frame} {type : Nat} : Place s (s.entered f type) f.slot := by
  refine .inl ⟨rfl, rfl, ?_, rfl⟩
  change (Function.update s.conns f.slot _ f.slot).fd = _
  rw [Function.update_self]

theorem Tidy.entered {f : Frame} {type : Nat} (tidy : Tidy s) (taken : s.owner f.slot ≠ none)
    (own : f.requester = s.owner f.slot) (free : ¬ (f.info.excl && s.busy)) : Tidy (s.entered f type) := by
  have opened := tidy.slots.opened taken
  refine ⟨tidy.slots.place local_entered place_entered opened, ?_, ?_, tidy.answers, tidy.clean⟩
  · intro g member
    rcases List.mem_cons.mp member with rfl | old
    · exact Holds.place (s := s) ⟨opened, .inr own.symm⟩ local_entered place_entered
    · exact (tidy.frames g old).place local_entered place_entered
  · have count := tidy.count
    change (exclusive (f :: s.frames)).length = if s.busy || f.info.excl then 1 else 0
    unfold exclusive at count ⊢
    cases excl : f.info.excl with
    | true =>
        have idle : s.busy = false := by simpa [excl] using free
        simp [excl, count, idle]
    | false => simp [excl, count]

theorem Tidy.finish {f : Frame} {rest : List Frame} {answer : CtlAnswer} (tidy : Tidy s) (whole : Whole s)
    (alive : s.fault = none) (frames : s.frames = f :: rest) : Tidy (s.finish f rest answer) := by
  have member : f ∈ s.frames := frames ▸ List.mem_cons_self
  have inside : ∀ g ∈ rest, g ∈ s.frames := fun g inside => frames ▸ List.mem_cons_of_mem _ inside
  have finished := finished answer whole.1 alive (whole.1.frames f member) inside
  obtain ⟨opened, owner⟩ := tidy.frames f member
  refine ⟨tidy.slots.place finished.change finished.place opened, ?_, ?_, ?_, finished.flags.1.trans tidy.clean⟩
  · rw [finished.frames]
    exact fun g member => (tidy.frames g (inside g member)).place finished.change finished.place
  · have count := tidy.count
    rw [finished.frames, finished.busy]
    rw [frames] at count
    unfold exclusive at count ⊢
    cases excl : f.info.excl with
    | true =>
        cases busy : s.busy with
        | true => simpa [excl, busy] using count
        | false => simp [excl, busy] at count
    | false => simpa [excl] using count
  · intro w member c some
    rcases finished.writes w member with old | rfl
    · exact tidy.answers w old c some
    · rcases owner with none | own
      · cases none.symm.trans some
      · exact own.symm.trans some

theorem Tidy.dispatch {info : ControlInfo} {m : Message} {answer : CtlAnswer} (tidy : Tidy s) (whole : Whole s)
    (alive : s.fault = none) (taken : s.owner k ≠ none) (free : ¬ (info.excl && s.busy)) :
    Tidy (s.dispatch k info m answer) := by
  have running : Tidy (s.entered ⟨k, s.owner k, info, false⟩ m.type) := tidy.entered taken rfl free
  unfold Control.dispatch
  simp only
  split
  · exact running.like rfl rfl rfl rfl rfl rfl rfl rfl
  · split
    · exact running
    · exact running.finish (whole.entered taken) alive rfl

theorem Tidy.handleRequest {input : List UInt8} {answer : CtlAnswer} {sent : Nat} (tidy : Tidy s) (whole : Whole s)
    (alive : s.fault = none) (taken : s.owner k ≠ none) : Tidy (s.handleRequest k input answer sent) := by
  unfold Control.handleRequest
  split
  · obtain ⟨closed, -, -⟩ := acts_closeConnection sent whole.1 (.inr taken)
    have keeps := closed.keeps
    have shut : Tidy (s.closeConnection k sent) :=
      tidy.place closed.change closed.place (tidy.slots.opened taken) keeps.frames keeps.busy keeps.stale
        fun w member => .inl (keeps.writes ▸ member)
    exact shut.like rfl rfl rfl rfl rfl rfl rfl rfl
  · simp only
    split
    · exact tidy.refuse whole alive taken
    · split
      · exact tidy.refuse whole alive taken
      · split
        · exact tidy.refuse whole alive taken
        · split
          · exact tidy.like rfl rfl rfl rfl rfl rfl rfl rfl
          · split
            · exact tidy.refuse whole alive taken
            · split
              · exact tidy.refuse whole alive taken
              · exact tidy.dispatch whole alive taken ‹_›

theorem openIn_slot (s : Control) (k j : Nat) (inOk : Bool) :
    ((s.openIn k inOk).conns j).fd = (s.conns j).fd ∧ ((s.openIn k inOk).conns j).leftover = (s.conns j).leftover := by
  obtain ⟨⟨id, conns⟩, -⟩ := openIn_fields s k inOk
  rw [conns]
  by_cases same : j = k
  · rw [same, Function.update_self]
    exact ⟨rfl, rfl⟩
  · rw [Function.update_of_ne same]
    exact ⟨rfl, rfl⟩

theorem openIn_rest (s : Control) (k : Nat) (inOk : Bool) :
    (s.openIn k inOk).owner = s.owner ∧ (s.openIn k inOk).table = s.table ∧ (s.openIn k inOk).nConn = s.nConn ∧
      (s.openIn k inOk).frames = s.frames ∧ (s.openIn k inOk).busy = s.busy ∧ (s.openIn k inOk).writes = s.writes ∧
      (s.openIn k inOk).stale = s.stale := by
  unfold openIn
  split <;> exact ⟨rfl, rfl, rfl, rfl, rfl, rfl, rfl⟩

theorem Tidy.opens {fd : Int} (tidy : Tidy s) (opened : Opened s t s.nextSlot fd) (base : Base s)
    (room : s.nConn < ctlMaxConnections) (usable : 1 ≤ fd) (unused : (s.conns s.nextSlot).fd = 0) : Tidy t := by
  obtain ⟨-, -, front⟩ := base.nextSlot_free room
  obtain ⟨table, nConn, -⟩ := opened.table
  obtain ⟨frames, busy, -, writes, -⟩ := opened.frames
  have conn : ∀ j, t.conns j = if j = s.nextSlot then
      { s.conns s.nextSlot with outEvent := s.uuid, fd, prod := 0, cons := 0 } else s.conns j := by
    intro j
    rw [opened.conns]
    exact Function.update_apply ..
  have owner : ∀ j, t.owner j = if j = s.nextSlot then some s.made else s.owner j := by
    intro j
    rw [opened.owner]
    exact Function.update_apply ..
  refine ⟨⟨?_, ?_, ?_, ?_⟩, ?_, ?_, ?_, ?_⟩
  · intro j member
    rw [owner]
    split
    · simp
    · rename_i other
      rw [table, nConn, List.take_add_one, List.mem_append] at member
      refine tidy.slots.active j (member.resolve_right fun last => other ?_)
      unfold nextSlot
      rw [List.getD_eq_getElem?_getD]
      rw [Option.mem_toList] at last
      simp [Option.mem_def.mp last]
  · intro j taken
    rw [owner] at taken
    rw [conn]
    split
    · exact usable
    · rename_i other
      rw [if_neg other] at taken
      exact tidy.slots.usable j taken
  · intro j free
    rw [owner] at free
    split at free
    · cases free
    · rename_i other
      rw [conn, if_neg other]
      exact tidy.slots.shut j free
  · intro j zero
    rw [conn] at zero ⊢
    split at zero
    · dsimp only at zero
      omega
    · rename_i other
      rw [if_neg other]
      exact tidy.slots.fresh j zero
  · intro f member
    rw [frames] at member
    have holds := tidy.frames f member
    have other : f.slot ≠ s.nextSlot := fun same => holds.1 (same ▸ unused)
    unfold Holds
    rw [conn, owner, if_neg other, if_neg other]
    exact holds
  · rw [frames, busy]
    exact tidy.count
  · rw [writes]
    exact tidy.answers
  · rw [opened.stale, tidy.clean, tidy.slots.fresh _ unused]
    rfl

theorem Tidy.accept {fd : Int} {outOk inOk : Bool} (tidy : Tidy s) (base : Base s)
    (meets : OpensFresh s (.accept fd outOk inOk)) : Tidy (s.accept fd outOk inOk) := by
  unfold Control.accept
  split
  · exact tidy
  · rename_i opened
    split
    · exact tidy
    · rename_i room
      obtain ⟨usable, out, unused⟩ := (meets.resolve_left opened).resolve_left room
      subst out
      change Tidy ((s.connOpen s.nextSlot fd).openIn s.nextSlot inOk)
      have first := tidy.opens (opened_connOpen fd base) base (not_le.mp room) usable unused
      obtain ⟨owner, table, nConn, frames, busy, writes, stale⟩ := openIn_rest (s.connOpen s.nextSlot fd) s.nextSlot inOk
      have slot := fun j => openIn_slot (s.connOpen s.nextSlot fd) s.nextSlot j inOk
      obtain ⟨⟨active, usable, shut, fresh⟩, holds, count, answers, clean⟩ := first
      refine ⟨⟨?_, fun j => ?_, fun j => ?_, fun j => ?_⟩, fun f => ?_, ?_, ?_, stale.trans clean⟩
      · rwa [table, nConn, owner]
      · rw [owner, (slot j).1]
        exact usable j
      · rw [owner, (slot j).1]
        exact shut j
      · rw [(slot j).1, (slot j).2]
        exact fresh j
      · unfold Holds
        rw [frames, (slot f.slot).1, owner]
        exact holds f
      · rwa [frames, busy]
      · rwa [writes]

theorem Tidy.step {e : CtlStep} (tidy : Tidy s) (whole : Whole s) (meets : OpensFresh s e) (action : step s e = some t) :
    Tidy t := by
  have alive := step_alive action
  unfold Control.step at action
  split at action
  · cases action
  · cases e with
    | accept fd outOk inOk =>
        simp only at action
        split at action
        · cases action
        · cases Option.some.inj action
          exact tidy.accept whole.1 meets
    | request id input answer sent =>
        obtain ⟨e, found, rfl⟩ := Option.map_eq_some_iff.mp action
        obtain ⟨member, callback, -⟩ := dispatchable_eq found
        exact tidy.handleRequest whole alive (whole.1.request e member callback).1
    | send id sent ending timeout =>
        obtain ⟨e, found, rest⟩ := Option.bind_eq_some_iff.mp action
        obtain ⟨member, callback, unmasked⟩ := dispatchable_eq found
        simp only at rest
        split at rest
        · cases Option.some.inj rest
          have sent := sent_sendEvent sent ending timeout whole member callback unmasked
          have keeps := sent.keeps
          exact tidy.place sent.change sent.place (tidy.slots.opened (whole.1.send e member callback).1) keeps.frames
            keeps.busy keeps.stale fun w member => .inl (keeps.writes ▸ member)
        · cases rest
    | resume r answer =>
        obtain ⟨f, rest, frames, result⟩ := resume_cases action
        rcases result with rfl | rfl | rfl
        · exact tidy
        · exact tidy.finish whole alive frames
        · have holds := tidy.frames
          have count := tidy.count
          rw [frames] at holds count
          obtain ⟨active, usable, shut, fresh⟩ := tidy.slots
          refine ⟨⟨active, usable, shut, fresh⟩, ?_, ?_, tidy.answers, tidy.clean⟩
          · intro g member
            rcases List.mem_cons.mp member with rfl | old
            · exact holds f List.mem_cons_self
            · exact holds g (List.mem_cons_of_mem _ old)
          · refine Eq.trans ?_ count
            unfold exclusive
            simp only [List.filter_cons]
            split <;> simp

theorem tidy_init : Tidy init :=
  ⟨⟨fun _ member => (nomatch member), fun _ taken => absurd rfl taken, fun _ _ => le_rfl, fun _ _ => rfl⟩,
    fun _ member => (nomatch member), rfl, fun _ member => (nomatch member), rfl⟩

theorem Tidy.orderly (tidy : Tidy s) (base : Base s) : s.Orderly := by
  refine ⟨base.perm, fun i inside => ?_, tidy.answers, tidy.clean, ?_⟩
  · have bound : i < s.table.length := base.length_eq ▸ inside
    have entry : s.table.getD i 0 = s.table[i] := List.getD_eq_getElem _ _ bound
    rw [entry]
    constructor
    · intro active
      have member : s.table[i] ∈ s.table.take s.nConn := List.mem_take_iff_getElem.mpr
        ⟨i, by rw [lt_min_iff]; exact ⟨active, bound⟩, rfl⟩
      exact decide_eq_true (tidy.slots.usable _ (tidy.slots.active _ member))
    · intro connected
      have usable : 1 ≤ (s.conns s.table[i]).fd := of_decide_eq_true connected
      have taken : s.owner s.table[i] ≠ none := by
        intro free
        have shut := tidy.slots.shut _ free
        omega
      obtain ⟨j, before, same⟩ := List.mem_take_iff_getElem.mp (base.active taken)
      have index := (base.nodup.getElem_inj_iff).mp same
      have active := (lt_min_iff.mp before).1
      omega
  · rw [tidy.count]
    split <;> simp

/-- As long as no slot is opened for a second time, every handler answers the connection that it works for. -/
theorem control_orderly (run : Run step OpensFresh init s) : s.Orderly := by
  have good : Whole s ∧ Tidy s := run.invariant (I := fun s => Whole s ∧ Tidy s)
    (fun _ _ _ good meets action => ⟨good.1.step action, good.2.step good.1 meets action⟩) ⟨whole_init, tidy_init⟩
  exact good.2.orderly good.1.1

def waitsAnswer : CtlAnswer := ⟨.unnamed, true, 0, 0⟩

theorem control_orderly_two : ∃ s : Control, s.writes = [(some 0, some 0), (some 1, some 1)] ∧ s.Orderly := by
  obtain ⟨s, action, shape⟩ := Option.map_eq_some_iff.mp
    (by decide +kernel : (runEvents (guarded step OpensFresh) init
      [.accept 5 true true, .request 3 (plainMessage 9) waitsAnswer 0, .accept 6 true true,
        .request 5 (plainMessage 3) waitsAnswer 0, .resume .finish waitsAnswer]).map (·.writes) =
      some [(some 0, some 0), (some 1, some 1)])
  exact ⟨s, shape, control_orderly (trace_of_guarded _ action).run⟩

theorem control_answers_other : ∃ s : Control, Run step (fun _ _ => True) init s ∧
    s.writes.head? = some (some 0, some 1) ∧ ¬ s.Orderly := by
  obtain ⟨s, action, shape⟩ := Option.map_eq_some_iff.mp
    (by decide +kernel : (runEvents step init
      [.accept 5 true true, .request 3 (plainMessage 9) waitsAnswer 0, .request 3 (plainMessage 9) waitsAnswer 536,
        .accept 6 true true, .resume .finish waitsAnswer]).map (·.writes.head?) = some (some (some 0, some 1)))
  refine ⟨s, run_of_runEvents _ (fun _ _ => trivial) action, shape, fun orderly => ?_⟩
  have requester := orderly.answers _ (List.mem_of_mem_head? shape) 1 rfl
  cases requester

end Control
end Blktap.Tapdisk
