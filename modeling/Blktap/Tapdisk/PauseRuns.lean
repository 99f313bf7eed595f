import Blktap.Tapdisk.PausePath

/-! # A pause keeps what it has to keep -/

namespace Blktap.Tapdisk.Pause
open Lib Vbd

section Property

structure Frozen (s : Vbd) (snap : Snapshot) : Prop where
  pending : s.queue .pending = []
  issues : s.issues.length = snap.issues
  held : ∀ id ∈ snap.held, s.freed = false ∧ (id ∈ s.queue .new ∨ id ∈ s.queue .failed)

structure Resumption.Right (r : Resumption) : Prop where
  flags : r.opened = r.before ||| strict
  issued : ∀ id ∈ r.held, id ∈ r.issued

structure Right (s : Vbd) : Prop where
  noted : s.paused = s.snap.isSome
  frozen : ∀ snap, s.snap = some snap → Frozen s snap
  resumed : ∀ r ∈ s.resumes, r.Right

def retained (s : Vbd) : List Nat := s.queue .new ++ s.queue .failed

def Opens (s : Vbd) (name : Option (List UInt8)) (flags : Nat) (a : Attempt) : Prop :=
  (name ≠ none ∨ s.name ≠ none) ∧ (name ≠ none → a.strdup = 0) ∧ a.chain.isOk ∧ flagTest flags openSecondary = false

/-- The conditions of a pause: no shutdown is requested, no kept request times out or is killed, and the resume succeeds
at once or has no flags to lose. -/
def Meets (s : Vbd) : Event → Prop
  | .check _ now => (s.pauseRequested → s.shutdownRequested = false) ∧ (s.paused → (s.dead ∨ s.shutdownRequested → retained s = []) ∧
      ∀ id ∈ s.queue .failed, ¬ timedOut (s.vreq id) now)
  | .resume name attempts _ _ => s.paused →
      ((∃ a ∈ attempts.head?, Opens s name (s.flags ||| strict) a) ∨ s.flags ||| strict = strict) ∧
        ((∃ a ∈ attempts, Opens s name (s.flags ||| strict) a) → retained s = [])
  | .openImage .. => s.paused → s.name ≠ none
  | .closeImage _ => s.paused → s.tap = false → retained s = []
  | .close => s.paused → retained s = []
  | _ => True

instance (s : Vbd) (name : Option (List UInt8)) (flags : Nat) (a : Attempt) : Decidable (Opens s name flags a) :=
  inferInstanceAs (Decidable (_ ∧ _))

instance (s : Vbd) (e : Event) : Decidable (Meets s e) :=
  match e with
  | .check _ now => inferInstanceAs (Decidable ((_ → _) ∧ (_ → (_ ∨ _ → _) ∧ ∀ id ∈ s.queue .failed, _)))
  | .resume name attempts _ _ => inferInstanceAs (Decidable (_ →
      ((∃ a ∈ attempts.head?, Opens s name (s.flags ||| strict) a) ∨ _) ∧
        ((∃ a ∈ attempts, Opens s name (s.flags ||| strict) a) → _)))
  | .openImage .. => inferInstanceAs (Decidable (_ → _ ≠ _))
  | .closeImage _ => inferInstanceAs (Decidable (_ → _ → _))
  | .close => inferInstanceAs (Decidable (_ → _))
  | .request .. | .recheck .. | .answer .. | .forward .. | .kick | .pause | .kill => .isTrue trivial

structure Good (s : Vbd) : Prop where
  sane : Sane s
  right : Right s
  quiet : s.paused = true → s.quiesced = true ∧ s.images = []
  flags : ∀ snap, s.snap = some snap → s.flags ||| strict = snap.flags ||| strict

structure Unpaused (s : Vbd) : Prop where
  sane : Sane s
  paused : s.paused = false
  snap : s.snap = none
  resumes : s.resumes = []

end Property

section Steps
variable {s t : Vbd} {now : Int} {io : Nat → Io}

theorem Good.paused_iff (good : Good s) : s.paused = true ↔ ∃ snap, s.snap = some snap := by
  rw [good.right.noted, Option.isSome_iff_exists]

theorem good_of_running (sane : Sane s) (paused : s.paused = false) (snap : s.snap = none)
    (resumed : ∀ r ∈ s.resumes, r.Right) : Good s where
  sane := sane
  right := by
    refine ⟨by rw [paused, snap]; rfl, fun snapshot taken => ?_, resumed⟩
    cases snap.symm.trans taken
  quiet active := absurd (paused.symm.trans active) Bool.false_ne_true
  flags _ taken := by cases snap.symm.trans taken

theorem Good.running (good : Good s) (paused : s.paused = false) : s.snap = none := by
  have noted := good.right.noted
  rw [paused] at noted
  exact Option.not_isSome_iff_eq_none.mp (by simp [← noted])

theorem Good.frame (good : Good s) (paused : s.paused = false) (done : Sane t ∧ Frame s t) : Good t := by
  obtain ⟨sane, frame⟩ := done
  refine good_of_running sane (frame.paused.trans paused) (frame.snap.trans (good.running paused)) ?_
  rw [frame.resumes]
  exact good.right.resumed

theorem Good.freed_held (good : Good s) {snap : Snapshot} (taken : s.snap = some snap) (freed : s.freed = true) :
    snap.held = [] := by
  apply List.eq_nil_iff_forall_not_mem.mpr
  intro id member
  exact absurd (((good.right.frozen snap taken).held id member).1.symm.trans freed) Bool.false_ne_true

theorem Good.like (good : Good s) (sane : Sane t) (paused : t.paused = s.paused) (snap : t.snap = s.snap)
    (resumes : t.resumes = s.resumes) (quiesced : s.quiesced = true → t.quiesced = true)
    (images : s.images = [] → t.images = []) (flags : t.flags = s.flags) (issues : t.issues = s.issues)
    (new : t.queue .new = s.queue .new) (failed : t.queue .failed = s.queue .failed)
    (pending : t.queue .pending = s.queue .pending)
    (freed : ∀ snap, s.snap = some snap → t.freed = true → snap.held = []) : Good t where
  sane := sane
  right := by
    refine ⟨by rw [paused, snap, good.right.noted], fun snapshot taken => ?_, by rw [resumes]; exact good.right.resumed⟩
    rw [snap] at taken
    have frozen := good.right.frozen snapshot taken
    refine ⟨by rw [pending, frozen.pending], by rw [issues, frozen.issues], fun id member => ?_⟩
    rw [new, failed]
    refine ⟨Bool.eq_false_iff.mpr fun gone => ?_, (frozen.held id member).2⟩
    rw [freed snapshot taken gone] at member
    cases member
  quiet active := by
    obtain ⟨quiet, closed⟩ := good.quiet (paused ▸ active)
    exact ⟨quiesced quiet, images closed⟩
  flags snapshot taken := by
    rw [flags]
    exact good.flags snapshot (snap ▸ taken)

theorem Sane.like (sane : Sane s) (vreq : t.vreq = s.vreq) (flights : t.flights = s.flights)
    (queue : t.queue = s.queue) : Sane t := fun id =>
  (sane id).like (by rw [vreq]) (congrFun flights id) queue

theorem Good.quiesceQueue (good : Good s) : Good s.quiesceQueue.2 := by
  unfold Vbd.quiesceQueue
  split
  · exact good.like (good.sane.like rfl rfl rfl) rfl rfl rfl id id rfl rfl rfl rfl rfl
      fun _ => good.freed_held
  · exact good.like (good.sane.like rfl rfl rfl) rfl rfl rfl (fun _ => rfl) id rfl rfl rfl rfl rfl
      fun _ => good.freed_held

theorem Good.pause (good : Good s) (alive : s.freed = false) : Good s.pause := by
  unfold Vbd.pause Vbd.quiesceQueue
  by_cases pending : s.queue .pending = []
  · simp only [pending, ne_eq, not_true_eq_false, if_false, if_true]
    refine ⟨good.sane.like rfl rfl rfl, ⟨?_, ?_, good.right.resumed⟩, fun _ => ⟨rfl, rfl⟩, ?_⟩
    · simp [takeSnap]
    · intro snap taken
      simp only [takeSnap, closeVdi] at taken
      cases before : s.snap with
      | none =>
          rw [before] at taken
          cases taken
          exact ⟨pending, rfl, fun id member => ⟨alive, List.mem_append.mp member⟩⟩
      | some old =>
          rw [before] at taken
          cases taken
          have frozen := good.right.frozen _ before
          exact ⟨frozen.pending, frozen.issues, frozen.held⟩
    · intro snap taken
      simp only [takeSnap, closeVdi] at taken
      cases before : s.snap with
      | none =>
          rw [before] at taken
          cases taken
          rfl
      | some old =>
          rw [before] at taken
          cases taken
          exact good.flags _ before
  · simp only [pending, ne_eq, not_false_eq_true, if_true, Bool.false_eq_true, if_false]
    exact good.like (good.sane.like rfl rfl rfl) rfl rfl rfl id id rfl rfl rfl rfl rfl
      fun _ => good.freed_held

theorem Good.held_nil (good : Good s) {snap : Snapshot} (taken : s.snap = some snap) (none : retained s = []) :
    snap.held = [] := by
  apply List.eq_nil_iff_forall_not_mem.mpr
  intro id member
  have here : id ∈ retained s := List.mem_append.mpr ((good.right.frozen snap taken).held id member).2
  rw [none] at here
  cases here

theorem Good.close (good : Good s) (empty : s.paused = true → retained s = []) : Good s.close := by
  unfold Vbd.close
  split
  · exact good.like (good.sane.like rfl rfl rfl) rfl rfl rfl id id rfl rfl rfl rfl rfl fun _ => good.freed_held
  · refine good.like (good.sane.like rfl rfl rfl) rfl rfl rfl id (fun _ => rfl) rfl rfl rfl rfl rfl fun snap taken _ => ?_
    exact good.held_nil taken (empty (good.paused_iff.mpr ⟨snap, taken⟩))

theorem quiesce_fields (s : Vbd) :
    s.quiesceQueue.2.paused = s.paused ∧ s.quiesceQueue.2.freed = s.freed ∧
      s.quiesceQueue.2.pauseRequested = s.pauseRequested ∧
      s.quiesceQueue.2.shutdownRequested = s.shutdownRequested ∧ s.quiesceQueue.2.queue = s.queue := by
  unfold Vbd.quiesceQueue
  split <;> exact ⟨rfl, rfl, rfl, rfl, rfl⟩

theorem pause_fields (s : Vbd) :
    s.pause.shutdownRequested = s.shutdownRequested ∧ s.pause.queue = s.queue := by
  unfold Vbd.pause Vbd.quiesceQueue
  by_cases pending : s.queue .pending = [] <;> simp [pending, takeSnap, closeVdi]

theorem Good.checkRequested (good : Good s) (alive : s.freed = false)
    (apart : s.pauseRequested = true → s.shutdownRequested = false)
    (empty : s.paused = true → s.shutdownRequested = true → retained s = []) : Good s.checkRequested := by
  have quiet : ∀ q, q = (if s.quiesceRequested then s.quiesceQueue.2 else s) → Good q ∧ q.paused = s.paused ∧
      q.freed = s.freed ∧ q.pauseRequested = s.pauseRequested ∧ q.shutdownRequested = s.shutdownRequested ∧
      q.queue = s.queue := by
    rintro q rfl
    split
    · exact ⟨good.quiesceQueue, quiesce_fields s⟩
    · exact ⟨good, rfl, rfl, rfl, rfl, rfl⟩
  unfold Vbd.checkRequested
  obtain ⟨calm, paused, freed, asked, ended, queue⟩ := quiet _ rfl
  generalize (if s.quiesceRequested then s.quiesceQueue.2 else s) = q at calm paused freed asked ended queue ⊢
  simp only
  by_cases pausing : q.pauseRequested = true
  · rw [if_pos pausing]
    have going : q.pause.shutdownRequested = false := by
      rw [(pause_fields q).1, ended]
      exact apart (asked ▸ pausing)
    rw [if_neg (by simp [going])]
    exact calm.pause (freed.trans alive)
  · rw [if_neg pausing]
    split
    · next ending =>
        apply calm.close
        intro active
        have none := empty (paused ▸ active) (ended ▸ ending)
        unfold retained at none ⊢
        rwa [queue]
    · exact calm

theorem Good.checkState_running (good : Good s) (alive : s.freed = false) (paused : s.paused = false)
    (apart : s.pauseRequested = true → s.shutdownRequested = false) (ran : s.checkState io now = some t) : Good t := by
  obtain ⟨m, queue, rfl⟩ := Option.map_eq_some_iff.mp ran
  have done := good.sane.checkQueueState queue
  have frame := done.2
  apply (good.frame paused done).checkRequested
  · rw [frame.freed, alive]
  · rw [frame.requested.1, frame.requested.2]
    exact apart
  · intro active
    rw [frame.paused, paused] at active
    cases active

theorem Good.checkQueueState_paused (good : Good s) (active : s.paused = true) (dead : s.dead = true → retained s = [])
    (young : ∀ id ∈ s.queue .failed, ¬ timedOut (s.vreq id) now) (ran : s.checkQueueState io now = some t) : t = s := by
  obtain ⟨m, expired, rest⟩ := Option.bind_eq_some_iff.mp ran
  have same : m = s := by
    have keep : ∀ l : List Nat, (∀ id ∈ l, ¬ timedOut (s.vreq id) now) →
        l.foldlM (fun s id => if timedOut (s.vreq id) now then s.completeVbdRequest id now else some s) s = some s := by
      intro l
      induction l with
      | nil => exact fun _ => rfl
      | cons id l ih =>
          intro all
          rw [List.foldlM_cons, if_neg (all id List.mem_cons_self)]
          exact ih fun j member => all j (List.mem_cons_of_mem id member)
    exact Option.some.inj (expired.symm.trans (keep _ young))
  subst same
  split at rest
  · next waiting =>
      unfold Vbd.issueRequests at rest
      split at rest
      · next killed =>
          have none := dead killed
          rw [retained, List.append_eq_nil_iff] at none
          exact absurd waiting (by simp [none.1, none.2])
      · rw [if_pos (.inl (good.quiet active).1)] at rest
        exact (Option.some.inj rest).symm
  · exact (Option.some.inj rest).symm

section Opening
variable {name : Option (List UInt8)} {flags : Nat} {a : Attempt} {err : Int}

theorem addImages_nil {images : Except Int (List Image)} (ran : addImages flags a [] = some images) : images = .ok [] := by
  unfold addImages at ran
  by_cases dirty : flagTest flags logDirty = true
  · simp [dirty, addDirtyLog] at ran
  · by_cases cache : flagTest flags addCache = true <;> by_cases local' : flagTest flags localCache = true <;>
      · simp [dirty, cache, local', addBlockCache, addLocalCache, bind, Except.bind, pure, Except.pure] at ran
        exact ran.symm

theorem openValidated_nil {r : Except Int Vbd} (empty : s.images = []) (ran : s.openValidated a = some r) :
    r = if flagTest s.flags openSecondary then .error (-einval) else .ok s := by
  simp only [openValidated, empty, validateChain, addSecondary, Option.map_some, Option.some.injEq] at ran
  rw [← ran]
  simp

theorem openVdi_cases (empty : s.images = []) (ran : s.openVdi name flags a = some (err, t)) :
    (err = 0 ∧ Opens s name flags a ∧ t = { s with name := name.or s.name, images := [], closed := false, flags }) ∨
      (err ≠ 0 ∧ ¬ Opens s name flags a ∧ ∃ closed, t = { s with images := [], closed, flags := 0 }) := by
  unfold openVdi at ran
  rw [if_neg (by simp [empty])] at ran
  split at ran
  · next unnamed =>
      cases ran
      exact .inr ⟨by decide, fun opens => by simpa [unnamed] using opens.1, s.closed, rfl⟩
  · next named =>
      split at ran
      · next failed =>
          cases ran
          exact .inr ⟨failed.2, fun opens => failed.2 (opens.2.1 failed.1), s.closed, rfl⟩
      · next copied =>
          have first : name ≠ none ∨ s.name ≠ none := by
            by_contra neither
            exact named (by simpa [not_or] using neither)
          have second : name ≠ none → a.strdup = 0 := fun given => by
            by_contra failed
            exact copied ⟨given, failed⟩
          simp only at ran
          cases chain : a.chain with
          | error e =>
              rw [chain] at ran
              cases ran
              refine .inr ⟨fun zero => a.chain_error (by rw [chain, zero]), fun opens => ?_, s.closed, rfl⟩
              have ok := opens.2.2.1
              rw [chain] at ok
              cases ok
          | ok opened =>
              rw [chain] at ran
              obtain ⟨images, added, rest⟩ := Option.bind_eq_some_iff.mp ran
              change addImages flags a [] = some images at added
              rw [addImages_nil added] at rest
              obtain ⟨r, validated, result⟩ := Option.map_eq_some_iff.mp rest
              rw [openValidated_nil rfl validated] at result
              by_cases leafless : flagTest flags openSecondary = true
              · rw [if_pos leafless] at result
                cases result
                refine .inr ⟨by decide, fun opens => ?_, false, rfl⟩
                exact Bool.false_ne_true (opens.2.2.2.symm.trans leafless)
              · rw [if_neg leafless] at result
                cases result
                exact .inl ⟨rfl, ⟨first, second, by rw [chain]; rfl, Bool.eq_false_iff.mpr leafless⟩, rfl⟩

theorem openVdi_frame (ran : s.openVdi name flags a = some (err, t)) :
    t.vreq = s.vreq ∧ t.flights = s.flights ∧ t.queue = s.queue ∧ t.paused = s.paused ∧ t.snap = s.snap ∧
      t.resumes = s.resumes := by
  by_cases empty : s.images = []
  · rcases openVdi_cases empty ran with ⟨-, -, rfl⟩ | ⟨-, -, closed, rfl⟩ <;> exact ⟨rfl, rfl, rfl, rfl, rfl, rfl⟩
  · rw [openVdi, if_pos empty] at ran
    cases ran
    exact ⟨rfl, rfl, rfl, rfl, rfl, rfl⟩

theorem reopen_cases {n : Nat} {attempts : List Attempt} (empty : s.images = [])
    (fits : (∃ a ∈ attempts.head?, Opens s name (s.flags ||| strict) a) ∨ s.flags ||| strict = strict)
    (ran : reopen name n s attempts = some (err, t)) :
    ∃ name' closed flags', t = { s with name := name', images := [], closed, flags := flags' } ∧
      flags' ||| strict = s.flags ||| strict ∧
      (err = 0 → flags' = s.flags ||| strict ∧ ∃ a ∈ attempts, Opens s name (s.flags ||| strict) a) := by
  induction n generalizing s attempts with
  | zero => simp [reopen] at ran
  | succ n ih =>
      cases attempts with
      | nil => simp [reopen] at ran
      | cons a rest =>
          obtain ⟨⟨err', m⟩, first, later⟩ := Option.bind_eq_some_iff.mp ran
          rcases openVdi_cases empty first with ⟨zero, opens, rfl⟩ | ⟨failed, closed, state⟩
          · simp only [zero, true_or, if_true] at later
            cases later
            refine ⟨_, _, _, rfl, ?_, fun _ => ⟨rfl, a, List.mem_cons_self, opens⟩⟩
            rw [Nat.lor_assoc, Nat.or_self]
          · obtain ⟨shut, rfl⟩ := state
            have plain : s.flags ||| strict = strict := by
              apply fits.resolve_left
              rintro ⟨b, head, opens⟩
              cases head
              exact closed opens
            simp only [failed, false_or] at later
            split at later
            · cases later
              refine ⟨_, _, _, rfl, plain.symm, fun zero => absurd zero failed⟩
            · have next := ih rfl (.inr (Nat.zero_or _)) later
              simp only [Nat.zero_or] at next
              obtain ⟨name', closed', flags', rfl, same, success⟩ := next
              refine ⟨name', closed', flags', rfl, same.trans plain.symm, fun zero => ?_⟩
              obtain ⟨flags, b, member, opens⟩ := success zero
              refine ⟨flags.trans plain.symm, b, List.mem_cons_of_mem a member, ?_⟩
              rw [plain]
              exact opens

theorem Good.resume {attempts : List Attempt} (good : Good s) (alive : s.freed = false)
    (fits : s.paused = true →
      ((∃ a ∈ attempts.head?, Opens s name (s.flags ||| strict) a) ∨ s.flags ||| strict = strict) ∧
        ((∃ a ∈ attempts, Opens s name (s.flags ||| strict) a) → retained s = []))
    (ran : s.resume name attempts io now = some t) : Good t := by
  unfold Vbd.resume at ran
  by_cases paused : s.paused = true
  · rw [if_neg (by simp [paused])] at ran
    obtain ⟨⟨err, m⟩, opened, rest⟩ := Option.bind_eq_some_iff.mp ran
    obtain ⟨first, empty⟩ := fits paused
    obtain ⟨quiesced, images⟩ := good.quiet paused
    obtain ⟨name', closed, flags, rfl, same, success⟩ := reopen_cases images first opened
    simp only at rest
    obtain ⟨snap, taken⟩ := good.paused_iff.mp paused
    have frozen := good.right.frozen snap taken
    split at rest
    · cases rest
      refine ⟨good.sane.like rfl rfl rfl, ⟨good.right.noted, fun snap taken => ?_, good.right.resumed⟩,
        fun _ => ⟨quiesced, rfl⟩, fun snap taken => same.trans (good.flags snap taken)⟩
      have frozen := good.right.frozen snap taken
      exact ⟨frozen.pending, frozen.issues, frozen.held⟩
    · next opens =>
        obtain ⟨u, checked, rfl⟩ := Option.map_eq_some_iff.mp rest
        obtain ⟨kept, b, member, succeeded⟩ := success (not_not.mp opens)
        have none := good.held_nil taken (empty ⟨b, member, succeeded⟩)
        have running : Good u := by
          refine Good.checkState_running (good_of_running (good.sane.like ?_ ?_ ?_) ?_ ?_ ?_) ?_ ?_ ?_ checked
          · rfl
          · rfl
          · rfl
          · rfl
          · rfl
          · exact good.right.resumed
          · exact alive
          · rfl
          · intro asked
            cases asked
        simp only [noteResume, taken]
        refine ⟨running.sane.like rfl rfl rfl, ⟨running.right.noted, fun later taken => ?_, fun r member => ?_⟩,
          running.quiet, running.flags⟩
        · have frozen := running.right.frozen later taken
          exact ⟨frozen.pending, frozen.issues, frozen.held⟩
        · rcases List.mem_append.mp member with old | last
          · exact running.right.resumed r old
          · rw [List.mem_singleton.mp last]
            refine ⟨kept.trans (good.flags snap taken), fun id held => ?_⟩
            rw [none] at held
            cases held
  · rw [if_pos paused] at ran
    cases ran
    exact good

end Opening

theorem Good.openImage {path : List UInt8} {flags : Nat} {a : Attempt} (good : Good s)
    (named : s.paused = true → s.name ≠ none) (ran : s.openImage path flags a = some t) : Good t := by
  unfold Vbd.openImage at ran
  split at ran
  · cases ran
    exact good
  · next unnamed =>
      have running : s.paused = false := Bool.eq_false_iff.mpr fun paused => unnamed (named paused)
      obtain ⟨⟨err, m⟩, opened, rfl⟩ := Option.map_eq_some_iff.mp ran
      obtain ⟨vreq, flights, queue, paused, snap, resumes⟩ := openVdi_frame opened
      have quiet : Good m := by
        refine good_of_running (good.sane.like vreq flights queue) (paused.trans running)
          (snap.trans (good.running running)) ?_
        rw [resumes]
        exact good.right.resumed
      have closed : Good { m.closeVdi with name := none } := by
        refine good_of_running (quiet.sane.like rfl rfl rfl) (paused.trans running) (snap.trans (good.running running)) ?_
        exact quiet.right.resumed
      simp only
      split
      · exact quiet
      · split
        · exact closed
        · exact quiet

theorem Good.request {id : Nat} {write : Bool} {iov : List Nat} (good : Good s)
    (alive : s.freed = false) (alone : s.holder id = none) : Good
      { (s.setVreq id { s.vreq id with write, iov, ts := now }).setQueue .new (s.queue .new ++ [id]) with
        snap := s.snap.map fun snap => { snap with held := snap.held ++ [id] } } := by
  have absent : ∀ q, id ∉ s.queue q := by
    intro q
    have all := List.find?_eq_none.mp alone
    cases q <;> simpa using all _ (by simp)
  have empty : s.flights id = [] := by
    by_contra busy
    exact absent .pending ((good.sane id).pending (.inl busy))
  refine ⟨fun j => ?_, ⟨by simp [good.right.noted, Vbd.setQueue, Vbd.setVreq], fun snap taken => ?_, good.right.resumed⟩,
    good.quiet, fun snap taken => ?_⟩
  · have tracks := good.sane j
    by_cases same : j = id
    · subst same
      refine ⟨?_, tracks.positive, fun waits => absurd waits (by simp [Vbd.setQueue, Vbd.setVreq, empty]), ?_⟩
      · simpa [Vbd.setQueue, Vbd.setVreq] using tracks.sum
      · simp [total, Vbd.setQueue, Vbd.setVreq, List.count_append, List.count_eq_zero_of_not_mem (absent _)]
    · refine ⟨?_, tracks.positive, ?_, ?_⟩
      · simpa [Vbd.setQueue, Vbd.setVreq, same] using tracks.sum
      · simpa [Vbd.setQueue, Vbd.setVreq] using tracks.pending
      · have once := tracks.once
        simpa [total, Vbd.setQueue, Vbd.setVreq, List.count_append, List.count_singleton, Ne.symm same] using once
  · obtain ⟨old, before, rfl⟩ := Option.map_eq_some_iff.mp taken
    have frozen := good.right.frozen old before
    refine ⟨by simpa [Vbd.setQueue, Vbd.setVreq] using frozen.pending, frozen.issues, fun j member => ⟨alive, ?_⟩⟩
    rcases List.mem_append.mp member with held | arrived
    · rcases (frozen.held j held).2 with new | failed
      · exact .inl (by simpa [Vbd.setQueue] using .inl new)
      · exact .inr (by simpa [Vbd.setQueue, Vbd.setVreq] using failed)
    · rw [List.mem_singleton.mp arrived]
      exact .inl (by simp [Vbd.setQueue])
  · obtain ⟨old, before, rfl⟩ := Option.map_eq_some_iff.mp taken
    exact good.flags old before

theorem Good.closeImage {err : Int} (good : Good s) (empty : s.paused = true → s.tap = false → retained s = [])
    (ran : s.closeImage err = some t) : Good t := by
  unfold Vbd.closeImage at ran
  split at ran
  · cases ran
  · split at ran
    · cases ran
      exact good
    · cases ran
      refine good.like (good.sane.like rfl rfl rfl) rfl rfl rfl id (fun _ => rfl) rfl rfl rfl rfl rfl ?_
      intro snap taken freed
      exact good.held_nil taken (empty (good.paused_iff.mpr ⟨snap, taken⟩) (by simpa using freed))

theorem Good.running_of_flight {id secs : Nat} (good : Good s) (member : secs ∈ s.flights id) : s.paused = false := by
  apply Bool.eq_false_iff.mpr
  intro paused
  obtain ⟨snap, taken⟩ := good.paused_iff.mp paused
  have pending := (good.sane id).pending (.inl (List.ne_nil_of_mem member))
  rw [(good.right.frozen snap taken).pending] at pending
  cases pending

theorem Sane.kick (sane : Sane s) : Sane (s.setQueue .completed []) := fun id =>
  have tracks := sane id
  ⟨tracks.sum, tracks.positive, tracks.pending, by
    have once := tracks.once
    simp only [total, Vbd.setQueue, Function.update] at once ⊢
    simp
    omega⟩

theorem Good.step {e : Event} (good : Good s) (meets : Meets s e) (action : step s e = some t) : Good t := by
  unfold Pause.step at action
  split at action
  · cases action
  · next living =>
      have alive : s.freed = false := Bool.eq_false_iff.mpr living
      cases e with
      | request id write iov now =>
          simp only at action
          split at action
          · cases action
          · next alone =>
              cases action
              exact good.request alive (by simpa using alone)
      | check io now =>
          simp only at action
          by_cases paused : s.paused = true
          · obtain ⟨empty, young⟩ := meets.2 paused
            obtain ⟨m, queue, rfl⟩ := Option.map_eq_some_iff.mp action
            rw [good.checkQueueState_paused paused (fun dead => empty (.inl dead)) young queue]
            exact good.checkRequested alive meets.1 fun _ ending => empty (.inr ending)
          · exact good.checkState_running alive (Bool.eq_false_iff.mpr paused) meets.1 action
      | recheck io now =>
          simp only at action
          by_cases paused : s.paused = true
          · rw [Vbd.recheckState, if_pos (.inr (.inl (good.quiet paused).1))] at action
            cases action
            exact good
          · exact good.frame (Bool.eq_false_iff.mpr paused) (good.sane.recheckState action)
      | answer id secs parts now =>
          simp only at action
          split at action
          · next given =>
              obtain ⟨done, frame⟩ := Working.land (r := 0)
                (by rw [given.2.1.1]; exact good.sane.take given.1) given.2.1.2 action
              exact good.frame (good.running_of_flight given.1)
                ⟨done.sane, frame.paused, frame.snap, frame.resumes, frame.freed, frame.requested⟩
          · cases action
      | forward id secs parts now =>
          simp only at action
          split at action
          · next given =>
              have working := good.sane.take given.1
              have running := good.running_of_flight given.1
              split at action
              · obtain ⟨done, frame⟩ := working.reissue given.2.1 action
                exact good.frame running ⟨done, frame.paused, frame.snap, frame.resumes, frame.freed, frame.requested⟩
              · obtain ⟨done, frame⟩ := working.completeTreq action
                exact good.frame running
                  ⟨done.sane, frame.paused, frame.snap, frame.resumes, frame.freed, frame.requested⟩
          · cases action
      | kick =>
          cases action
          exact good.like good.sane.kick rfl rfl rfl id id rfl rfl rfl rfl rfl fun _ => good.freed_held
      | pause =>
          cases action
          exact good.pause alive
      | resume name attempts io now => exact good.resume alive meets action
      | openImage path flags a => exact good.openImage meets action
      | closeImage err => exact good.closeImage meets action
      | kill =>
          cases action
          have quiet := good.quiesceQueue
          exact quiet.like (quiet.sane.like rfl rfl rfl) rfl rfl rfl id id rfl rfl rfl rfl rfl fun _ => quiet.freed_held
      | close =>
          cases action
          exact good.close meets

end Steps

section Runs

theorem create_unpaused {vreq : Nat → Vreq} {tap : Bool} (idle : ∀ id, (vreq id).secsPending = 0) :
    Unpaused (create vreq tap) where
  sane id := ⟨idle id, fun _ member => (List.not_mem_nil member).elim, by simp [create], by simp [total, create]⟩
  paused := rfl
  snap := rfl
  resumes := rfl

/-- In a run that meets the conditions a paused VBD is frozen, and a resume brings everything back. -/
theorem pause_right {s t : Vbd} (start : Unpaused s) (run : Run step Meets s t) : Right t := by
  have first : Good s := by
    refine good_of_running start.sane start.paused start.snap ?_
    rw [start.resumes]
    exact fun r member => (List.not_mem_nil member).elim
  exact (run.invariant (I := Good) (fun _ _ _ good meets action => good.step meets action) first).right

def fresh (_ : Nat) : Vreq := ⟨none, false, [], 0, 0, 0, 0, 0⟩

def succeeds : Attempt := ⟨0, .ok [⟨1, 0⟩], nofun, .error (-5), .error (-5), .error (-5), 0, .error (-5)⟩
def fails : Attempt := ⟨0, .error (-5), by decide, .error (-5), .error (-5), .error (-5), 0, .error (-5)⟩

def noIo (_ : Nat) : Io := ⟨0, []⟩

def path : List UInt8 := [118, 104, 100, 58, 97]

theorem pause_right_again : ∃ t, Run step Meets (create fresh true) t ∧ Right t ∧ t.resumes.length = 1 ∧
    t.queue .new = [0] := by
  have action : (runEvents (guarded step Meets) (create fresh true)
      [.pause, .resume (some path) [succeeds] noIo 0, .pause, .request 0 true [8] 0,
        .resume none (List.replicate eioRetries fails) noIo 0]).map
        (fun t => (t.resumes.length, t.queue .new)) = some (1, [0]) := by decide +kernel
  obtain ⟨t, ran, seen⟩ := Option.map_eq_some_iff.mp action
  have run := (trace_of_guarded _ ran).run
  exact ⟨t, run, pause_right (create_unpaused fun _ => rfl) run, congrArg Prod.fst seen, congrArg Prod.snd seen⟩

theorem pause_flags_lost : ∃ t, Run step (fun _ _ => True) (create fresh true) t ∧ ¬ Right t := by
  have action : (runEvents step (create fresh true)
      [.openImage path rdonly succeeds, .pause, .resume (some path) [fails, succeeds] noIo 0]).map
        (fun t => t.resumes.map fun r => (r.before, r.opened)) = some [(rdonly, strict)] := by decide +kernel
  obtain ⟨t, ran, seen⟩ := Option.map_eq_some_iff.mp action
  refine ⟨t, run_of_runEvents _ (fun _ _ => trivial) ran, fun right => ?_⟩
  obtain ⟨r, member, same⟩ := List.mem_map.mp (seen ▸ List.mem_singleton_self (rdonly, strict))
  have flags := (right.resumed r member).flags
  obtain ⟨before, opened⟩ := Prod.mk.inj same
  rw [before, opened] at flags
  exact absurd flags (by decide)

end Runs
end Blktap.Tapdisk.Pause
