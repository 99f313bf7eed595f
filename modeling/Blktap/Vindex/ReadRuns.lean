import Blktap.Vindex.PoolRuns

/-! # What a read through a VHD index gets -/

namespace Blktap.Vindex
open Lib

def Index.names (x : Index) (sec : Nat) : Option Entry :=
  if x.bat (sec / x.spb) = ddBlkUnused then none
  else some (x.entry (sec / x.spb) (sec % x.spb)) |>.filter (·.used)

def Treq.covers (token k : Nat) (t : Treq) : Bool := t.token = token ∧ t.buf ≤ k ∧ k < t.buf + t.secs

namespace Driver
variable (s : Driver)

def dealt : List Treq :=
  s.told.map (·.1) ++ s.forwarded ++ s.waiting.map (·.treq) ++ s.flights.map (·.treq)

def pieces : List Treq := s.dealt ++ s.call.toList

def outstanding : List Treq := s.waiting.map (·.treq) ++ s.flights.map (·.treq) ++ s.call.toList

end Driver

/-- Each sector of a read is in one piece, which has the data that the index names, and the driver lives as long as a
piece is outstanding. -/
structure Right (x : Index) (s : Driver) : Prop where
  once : ∀ r ∈ s.issued, ∀ k < r.secs, s.pieces.countP (Treq.covers r.token k) = 1
  placed : ∀ t ∈ s.pieces, ∃ r ∈ s.issued, t.token = r.token ∧ t.sec = r.sec + t.buf ∧ t.buf + t.secs ≤ r.secs
  parents : ∀ t ∈ s.forwarded, ∀ i < t.secs, x.names (t.sec + i) = none
  files : ∀ t fid off, (t, .data fid off) ∈ s.told → ∀ i < t.secs, x.names (t.sec + i) = some ⟨fid, off + i⟩
  alive : s.fault = none ∨ s.outstanding = []

def Contiguous (x : Index) (sec n : Nat) : Prop :=
  ∀ e ∈ x.mapped sec, ∀ i < n, x.mapped (sec + i) = some ⟨e.fileId, e.offset + i⟩

instance (x : Index) (sec n : Nat) : Decidable (Contiguous x sec n) :=
  inferInstanceAs (Decidable (∀ e ∈ x.mapped sec, ∀ i < n, _))

def PieceMeets (x : Index) (s : Driver) (t : Treq) : Prop :=
  (∀ n ∈ readCacheSpan x s t true, Contiguous x t.sec n) ∧
    (readCache x s t.sec = .cacheMiss → s.free ≠ [] ∨ s.allocateBlock.isNone)

instance (x : Index) (s : Driver) (t : Treq) : Decidable (PieceMeets x s t) :=
  inferInstanceAs (Decidable ((∀ n ∈ readCacheSpan x s t true, Contiguous x t.sec n) ∧ (_ → _)))

def ReadMeets (x : Index) (s : Driver) : Step → Prop
  | .read sec secs => sec + secs ≤ x.vhdBlocks * x.spb
  | .turn opens => Meets x s (.turn opens) ∧ ∀ t ∈ s.call, t.secs ≠ 0 → PieceMeets x s t
  | .metaDone i ok => Meets x s (.metaDone i ok)
  | .dataDone _ _ => s.waiting.length + s.flights.length = 1

instance (x : Index) (s : Driver) (e : Step) : Decidable (ReadMeets x s e) :=
  match e with
  | .read sec secs => inferInstanceAs (Decidable (sec + secs ≤ x.vhdBlocks * x.spb))
  | .turn opens => inferInstanceAs (Decidable (Meets x s (.turn opens) ∧ ∀ t ∈ s.call, t.secs ≠ 0 → PieceMeets x s t))
  | .metaDone i ok => inferInstanceAs (Decidable (Meets x s (.metaDone i ok)))
  | .dataDone _ _ => inferInstanceAs (Decidable (_ = 1))

structure Shown (x : Index) (s : Driver) : Prop where
  once : ∀ r ∈ s.issued, ∀ k < r.secs, s.pieces.countP (Treq.covers r.token k) = 1
  placed : ∀ t ∈ s.pieces, ∃ r ∈ s.issued, t.token = r.token ∧ t.sec = r.sec + t.buf ∧ t.buf + t.secs ≤ r.secs
  inside : ∀ r ∈ s.issued, r.sec + r.secs ≤ x.vhdBlocks * x.spb
  tokens : ∀ r ∈ s.issued, r.token < s.issued.length
  parents : ∀ t ∈ s.forwarded, ∀ i < t.secs, x.mapped (t.sec + i) = none
  files : ∀ t fid off, (t, .data fid off) ∈ s.told → ∀ i < t.secs, x.mapped (t.sec + i) = some ⟨fid, off + i⟩
  flights : ∀ f ∈ s.flights, ∀ i < f.treq.secs, x.mapped (f.treq.sec + i) = some ⟨f.fid, f.off + i⟩

section Cover
variable {t : Treq} {token k n : Nat} {before after rest : List Treq}

theorem covers_empty (empty : t.secs = 0) : t.covers token k = false := by
  apply decide_eq_false
  omega

theorem countP_cut (bound : n ≤ t.secs) :
    (t.take n :: t.advance n :: rest).countP (Treq.covers token k) = (t :: rest).countP (Treq.covers token k) := by
  simp only [List.countP_cons, Treq.covers, Treq.take, Treq.advance, decide_eq_true_eq]
  split_ifs <;> omega

inductive Cut (before after : List Treq) : Prop
  | same : before.Perm after → Cut before after
  | split (t : Treq) (n : Nat) (rest : List Treq) : n ≤ t.secs → before.Perm (t :: rest) →
      after.Perm (t.take n :: t.advance n :: rest) → Cut before after
  | drop (t : Treq) : t.secs = 0 → before.Perm (t :: after) → Cut before after

theorem Cut.count (cut : Cut before after) (token k : Nat) :
    after.countP (Treq.covers token k) = before.countP (Treq.covers token k) := by
  cases cut with
  | same perm => exact (perm.countP_eq _).symm
  | split t n rest bound perm perm' => rw [perm.countP_eq, perm'.countP_eq, countP_cut bound]
  | drop t empty perm =>
      rw [perm.countP_eq, List.countP_cons_of_neg]
      rw [covers_empty empty]
      exact Bool.false_ne_true

theorem Cut.placed {issued : List Treq} (cut : Cut before after)
    (placed : ∀ t ∈ before, ∃ r ∈ issued, t.token = r.token ∧ t.sec = r.sec + t.buf ∧ t.buf + t.secs ≤ r.secs) :
    ∀ t ∈ after, ∃ r ∈ issued, t.token = r.token ∧ t.sec = r.sec + t.buf ∧ t.buf + t.secs ≤ r.secs := by
  intro p member
  cases cut with
  | same perm => exact placed p (perm.mem_iff.mpr member)
  | split t n rest bound perm perm' =>
      obtain ⟨r, issued, token, sec, room⟩ := placed t (perm.mem_iff.mpr List.mem_cons_self)
      rcases List.mem_cons.mp (perm'.mem_iff.mp member) with rfl | member
      · exact ⟨r, issued, token, sec, Nat.le_trans (Nat.add_le_add_left bound _) room⟩
      · rcases List.mem_cons.mp member with rfl | old
        · refine ⟨r, issued, token, ?_, ?_⟩
          · simp only [Treq.advance]
            omega
          · simp only [Treq.advance]
            omega
        · exact placed p (perm.mem_iff.mpr (List.mem_cons_of_mem _ old))
  | drop t empty perm => exact placed p (perm.mem_iff.mpr (List.mem_cons_of_mem _ member))

end Cover

section Steps
variable {x : Index} {s s' : Driver} {t : Treq} {b i n : Nat} {rest : List Nat}

theorem pieces_call (call : s.call = some t) : s.pieces.Perm (t :: s.dealt) := by
  simp only [Driver.pieces, call, Option.toList_some]
  exact List.perm_append_singleton t s.dealt

theorem pieces_idle (idle : s.call = none) : s.pieces = s.dealt := by
  simp only [Driver.pieces, idle, Option.toList_none, List.append_nil]

theorem dealt_forward (s : Driver) (t : Treq) : (s.forward t).dealt.Perm (t :: s.dealt) :=
  (List.perm_middle.append_right _).append_right _

theorem dealt_launch (s : Driver) (rest : List Nat) (fds : Nat → FileRef) (f : Flight) :
    (s.launch rest fds f).dealt.Perm (f.treq :: s.dealt) := List.perm_middle

theorem dealt_wait (s : Driver) (req : Nat) (rest : List Nat) (t : Treq) (small : b < vhdIndexCacheSize) :
    (s.wait b req rest t).dealt.Perm (t :: s.dealt) := by
  have waiting := (wait_waiting s req rest t small).map Waiting.treq
  refine List.Perm.trans ?_ (List.perm_middle.append_right _)
  exact (waiting.append_left _).append_right _

theorem cut_setCall (call : s.call = some t) (bound : n ≤ t.secs) (dealt : s'.dealt.Perm (t.take n :: s.dealt)) :
    Cut s.pieces (s'.setCall (t.advance n)).pieces := by
  refine .split t n s.dealt bound (pieces_call call) ?_
  refine (pieces_call (s := s'.setCall (t.advance n)) rfl).trans ?_
  exact (dealt.cons _).trans (.swap ..)

theorem Turned.cut (good : Good x s) (call : s.call = some t) (more : t.secs ≠ 0) (turned : Turned x s t s')
    (room : readCache x s t.sec = .cacheMiss → s.free ≠ [] ∨ s.allocateBlock.isNone) :
    Cut s.pieces s'.pieces := by
  cases turned with
  | fails err =>
      refine .same ((pieces_call call).trans ?_)
      rw [pieces_idle (s := s.failRead t err) rfl]
      exact .rfl
  | forwards n bound => exact cut_setCall call bound (dealt_forward s _)
  | reads n req file rest fds entry bound => exact cut_setCall call bound (dealt_launch s rest fds _)
  | waits req b rest free found =>
      exact cut_setCall call (inBlock_le x t) (dealt_wait s req rest _ ((getBlock_some found).1.small good))
  | fetches s' req b rest free missed fetched =>
      apply cut_setCall call (inBlock_le x t)
      have same : s'.dealt = s.dealt := by
        simp only [Driver.dealt, fetched.waiting good (good.idle call more missed)]
        rw [fetched.rest]
      rw [← same]
      exact dealt_wait s' req rest _ fetched.small
  | loses s' b full allocated miss =>
      rcases room miss with free | none
      · exact absurd full free
      · rw [Option.isNone_iff_eq_none.mp none] at allocated
        cases allocated

theorem Shown.cut (shown : Shown x s) (issued : s'.issued = s.issued) (cut : Cut s.pieces s'.pieces)
    (parents : ∀ t ∈ s'.forwarded, ∀ i < t.secs, x.mapped (t.sec + i) = none)
    (files : ∀ t fid off, (t, .data fid off) ∈ s'.told → ∀ i < t.secs, x.mapped (t.sec + i) = some ⟨fid, off + i⟩)
    (flights : ∀ f ∈ s'.flights, ∀ i < f.treq.secs, x.mapped (f.treq.sec + i) = some ⟨f.fid, f.off + i⟩) :
    Shown x s' where
  once := by
    intro r member k inside
    rw [cut.count]
    exact shown.once r (issued ▸ member) k inside
  placed := by
    rw [issued]
    exact cut.placed shown.placed
  inside := issued ▸ shown.inside
  tokens := issued ▸ shown.tokens
  parents := parents
  files := files
  flights := flights

theorem Shown.touchBlock (shown : Shown x s) (b : Nat) : Shown x (s.touchBlock b) :=
  ⟨shown.once, shown.placed, shown.inside, shown.tokens, shown.parents, shown.files, shown.flights⟩

theorem Shown.touchRead (shown : Shown x s) (sec : Nat) : Shown x (touchRead x s sec) := by
  rcases touchRead_cases x s sec with same | ⟨b, touched⟩
  · rw [same]
    exact shown
  · rw [touched]
    exact shown.touchBlock b

theorem Shown.turned (shown : Shown x s) (turned : Turned x s t s') (cut : Cut s.pieces s'.pieces)
    (contiguous : ∀ n ∈ readCacheSpan x s t true, Contiguous x t.sec n) : Shown x s' := by
  cases turned with
  | fails err =>
      apply shown.cut (by rfl) cut shown.parents _ shown.flights
      intro p fid off member
      rcases List.mem_cons.mp member with new | old
      · cases new
      · exact shown.files p fid off old
  | forwards n _ unused =>
      apply shown.cut (by rfl) cut _ shown.files shown.flights
      intro p member
      rcases List.mem_cons.mp member with rfl | old
      · exact unused
      · exact shown.parents p old
  | reads n req file rest fds entry _ span mapped =>
      apply shown.cut (by rfl) cut shown.parents shown.files
      intro f member
      rcases List.mem_cons.mp member with rfl | old
      · exact contiguous n span entry mapped
      · exact shown.flights f old
  | waits => exact shown.cut (by rfl) cut shown.parents shown.files shown.flights
  | fetches s' req b rest _ _ fetched =>
      have forwarded : s'.forwarded = s.forwarded := by rw [fetched.rest]
      have told : s'.told = s.told := by rw [fetched.rest]
      have flights : s'.flights = s.flights := by rw [fetched.rest]
      refine shown.cut ?_ cut (forwarded ▸ shown.parents) (told ▸ shown.files) (flights ▸ shown.flights)
      exact (by rw [fetched.rest] : s'.issued = s.issued)
  | loses s' b _ _ _ _ fetched =>
      have forwarded : s'.forwarded = s.forwarded := by rw [fetched.rest]
      have told : s'.told = s.told := by rw [fetched.rest]
      have flights : s'.flights = s.flights := by rw [fetched.rest]
      refine shown.cut ?_ cut (forwarded ▸ shown.parents) (told ▸ shown.files) (flights ▸ shown.flights)
      exact (by rw [fetched.rest] : s'.issued = s.issued)

theorem touchRead_miss (miss : readCache x s t.sec = .cacheMiss) : touchRead x s t.sec = s := by
  have shows := readCache_shows x s t.sec
  rw [miss] at shows
  simp only [touchRead, show s.getBlock (x.blkOf t.sec) = none from shows, ite_self]

theorem PieceMeets.touched (meets : PieceMeets x s t) : PieceMeets x (touchRead x s t.sec) t := by
  constructor
  · rw [touchRead_same (readCacheSpan x · t true) (fun _ => rfl) x t.sec]
    exact meets.1
  · intro miss
    have before := (touchRead_same (readCache x · t.sec) (fun _ => rfl) x t.sec).symm.trans miss
    rw [touchRead_miss before]
    exact meets.2 before

theorem Shown.turnReplay (shown : Shown x s) (good : Good x s) (idle : s.call = none) (replaying : s.replaying = some b) :
    Shown x (turnReplay s b) := by
  obtain ⟨cached, _, _⟩ := good.tables.replay b replaying
  simp only [Vindex.turnReplay]
  cases queue : (s.blocks b).queue with
  | nil => exact ⟨shown.once, shown.placed, shown.inside, shown.tokens, shown.parents, shown.files, shown.flights⟩
  | cons w rest =>
      have waiting := (pop_waiting (Driver.Cached.small good cached) queue).map Waiting.treq
      refine shown.cut (by rfl) (.same ?_) shown.parents shown.files shown.flights
      rw [pieces_idle idle]
      refine List.Perm.trans ?_ (List.perm_append_singleton w.treq _).symm
      refine List.Perm.trans ?_ (List.perm_middle.append_right _)
      exact (waiting.append_left _).append_right _

theorem Shown.turn (shown : Shown x s) (good : Good x s) {opens : Bool} (meets : ReadMeets x s (.turn opens))
    (action : turn x s opens = some s') : Shown x s' := by
  cases call : s.call with
  | some t =>
      simp only [Vindex.turn, call] at action
      cases action
      split
      · next empty =>
          refine shown.cut (by rfl) (.drop t empty ?_) shown.parents shown.files shown.flights
          rw [pieces_idle (s := { s with call := none }) rfl]
          exact pieces_call call
      · next more =>
          have called := (touchRead_same Driver.call (fun _ => rfl) x t.sec).trans call
          have condition := (meets.2 t call more).touched
          have turned := turnRead_turned good call more (meets.1 t call more)
          have cut := turned.cut (good.touchRead t.sec) called more condition.2
          exact (shown.touchRead t.sec).turned turned cut condition.1
  | none =>
      cases replaying : s.replaying with
      | none =>
          simp only [Vindex.turn, call, replaying] at action
          cases action
      | some b =>
          simp only [Vindex.turn, call, replaying] at action
          cases action
          exact shown.turnReplay good call replaying

theorem Shown.settle {m : MetaRead} {rest : List MetaRead} {table : Nat → Entry} {valid : Bool}
    {replaying : Option Nat} (shown : Shown x s) : Shown x (s.settle m rest table valid replaying) := by
  refine shown.cut (by rfl) (.same ?_) shown.parents shown.files shown.flights
  have dealt : (s.settle m rest table valid replaying).dealt = s.dealt := by
    simp only [Driver.dealt, settle_waiting]
    rfl
  rw [Driver.pieces, Driver.pieces, dealt]
  exact .rfl

theorem Shown.queueRead (shown : Shown x s) (idle : s.call = none) {sec secs : Nat}
    (inside : sec + secs ≤ x.vhdBlocks * x.spb) : Shown x (queueRead s sec secs) := by
  have perm : (Vindex.queueRead s sec secs).pieces.Perm (⟨s.issued.length, sec, secs, 0⟩ :: s.pieces) := by
    rw [pieces_idle idle]
    exact pieces_call rfl
  constructor
  case once =>
    intro r member k within
    rw [perm.countP_eq, List.countP_cons]
    rcases List.mem_cons.mp member with rfl | old
    · -- no piece of an earlier read has this token
      have none : s.pieces.countP (Treq.covers s.issued.length k) = 0 := by
        refine List.countP_eq_zero.mpr fun t member covers => ?_
        obtain ⟨r, earlier, token, _⟩ := shown.placed t member
        have same : t.token = s.issued.length := (of_decide_eq_true covers).1
        exact Nat.ne_of_lt (shown.tokens r earlier) (token.symm.trans same)
      simp only [none, Treq.covers, Nat.zero_le, Nat.zero_add, true_and, decide_eq_true_eq]
      exact if_pos within
    · rw [shown.once r old k within, if_neg]
      intro covers
      exact Nat.ne_of_gt (shown.tokens r old) (of_decide_eq_true covers).1
  case placed =>
    intro t member
    rcases List.mem_cons.mp (perm.mem_iff.mp member) with rfl | old
    · exact ⟨_, List.mem_cons_self, rfl, rfl, Nat.le_of_eq (Nat.zero_add _)⟩
    · obtain ⟨r, earlier, place⟩ := shown.placed t old
      exact ⟨r, List.mem_cons_of_mem _ earlier, place⟩
  case inside =>
    intro r member
    rcases List.mem_cons.mp member with rfl | old
    · exact inside
    · exact shown.inside r old
  case tokens =>
    intro r member
    rcases List.mem_cons.mp member with rfl | old
    · exact Nat.lt_succ_self _
    · exact Nat.lt_succ_of_lt (shown.tokens r old)
  case parents => exact shown.parents
  case files => exact shown.files
  case flights => exact shown.flights

theorem Index.mapped_names (x : Index) {sec : Nat} (inside : sec < x.vhdBlocks * x.spb) : x.mapped sec = x.names sec := by
  have small : sec / x.spb < 2 ^ 32 :=
    Nat.lt_trans (Nat.div_lt_of_lt_mul (Nat.mul_comm _ _ ▸ inside)) x.vhdBlocks_lt
  simp only [Index.mapped, Index.names, Index.blkOf, Nat.mod_eq_of_lt small]

theorem Shown.named (shown : Shown x s) {p : Treq} (member : p ∈ s.pieces) (before : i < p.secs) :
    x.mapped (p.sec + i) = x.names (p.sec + i) := by
  obtain ⟨r, issued, _, place, room⟩ := shown.placed p member
  have inside := shown.inside r issued
  apply x.mapped_names
  omega

theorem Shown.right (shown : Shown x s) (alive : s.fault = none ∨ s.outstanding = []) : Right x s where
  once := shown.once
  placed := shown.placed
  alive := alive
  parents := by
    intro t member i before
    have dealt : t ∈ s.pieces := by simp [Driver.pieces, Driver.dealt, member]
    rw [← shown.named dealt before]
    exact shown.parents t member i before
  files := by
    intro t fid off member i before
    have told : t ∈ s.told.map (·.1) := List.mem_map.mpr ⟨_, member, rfl⟩
    have dealt : t ∈ s.pieces := by simp only [Driver.pieces, Driver.dealt, List.mem_append, told, true_or]
    rw [← shown.named dealt before]
    exact shown.files t fid off member i before

theorem Shown.dataDone (shown : Shown x s) (idle : s.call = none) {err : Int}
    (last : s.waiting.length + s.flights.length = 1) (action : completeDataRead s i err = some s') : Right x s' := by
  obtain ⟨f, found, rfl⟩ := Option.map_eq_some_iff.mp action
  obtain ⟨inside, this⟩ := List.getElem?_eq_some_iff.mp found
  have one : s.flights.length = 1 := by omega
  have waiting : s.waiting = [] := List.length_eq_zero_iff.mp (by omega)
  obtain ⟨g, flights⟩ := List.length_eq_one_iff.mp one
  have first : i = 0 := by omega
  subst first
  have same : g = f := by simpa [flights] using found
  subst same
  have left : s.flights.eraseIdx 0 = [] := by rw [flights]; rfl
  have member : g ∈ s.flights := by rw [flights]; exact List.mem_cons_self
  dsimp only
  refine Shown.right (shown.cut (by rfl) (.same ?_) shown.parents ?_ ?_) (.inr ?_)
  · have perm : (g.treq :: (s.told.map (·.1) ++ s.forwarded ++ s.waiting.map (·.treq) ++
        (s.flights.eraseIdx 0).map (·.treq))).Perm s.dealt := by
      rw [left, Driver.dealt, flights]
      exact List.perm_middle.symm
    rw [pieces_idle idle]
    refine perm.symm.trans ?_
    simp only [Driver.pieces, Driver.dealt, Driver.fail, Driver.complete, idle, Option.toList_none, List.append_nil]
    exact .rfl
  · intro t fid off told
    rcases List.mem_cons.mp told with new | old
    · obtain ⟨rfl, answer⟩ := Prod.mk.inj new
      split at answer
      · cases answer
        exact shown.flights g member
      · cases answer
    · exact shown.files t fid off old
  · intro f stays
    rw [show s.flights.eraseIdx 0 = [] from left] at stays
    cases stays
  · have none : (s.waiting).map Waiting.treq = [] := by rw [waiting]; rfl
    have fewer : (s.flights.eraseIdx 0).map Flight.treq = [] := by rw [left]; rfl
    change s.waiting.map Waiting.treq ++ (s.flights.eraseIdx 0).map Flight.treq ++ s.call.toList = []
    rw [none, fewer, idle]
    rfl

theorem Shown.step {e : Step} (shown : Shown x s) (good : Good x s) (meets : ReadMeets x s e)
    (action : step x s e = some s') : Good x s' ∧ Shown x s' ∨ s'.fault ≠ none ∧ Right x s' := by
  have alive : s.fault.isSome = false := by
    rw [good.alive]
    rfl
  cases e with
  | turn opens =>
      left
      refine ⟨good.step meets.1 action, ?_⟩
      simp only [Vindex.step, alive, Bool.false_eq_true, if_false] at action
      exact shown.turn good meets action
  | read sec secs =>
      left
      refine ⟨good.step (e := .read sec secs) trivial action, ?_⟩
      simp only [Vindex.step, alive, Bool.false_eq_true, if_false] at action
      split at action
      · next idle =>
          cases action
          exact shown.queueRead idle.1 meets
      · cases action
  | metaDone i ok =>
      left
      refine ⟨good.step (e := .metaDone i ok) meets action, ?_⟩
      simp only [Vindex.step, alive, Bool.false_eq_true, if_false] at action
      split at action
      · next idle =>
          obtain ⟨m, rest, perm, rfl | ⟨empty, rfl⟩⟩ := completeMetaRead_cases good idle.2 meets action
          · exact shown.settle
          · exact shown.settle
      · cases action
  | dataDone i err =>
      right
      simp only [Vindex.step, alive, Bool.false_eq_true, if_false] at action
      split at action
      · next idle =>
          refine ⟨?_, shown.dataDone idle.1 meets action⟩
          obtain ⟨f, _, rfl⟩ := Option.map_eq_some_iff.mp action
          exact Option.some_ne_none _
      · cases action

theorem Shown.init (x : Index) : Shown x init where
  once := nofun
  placed := by
    have empty : Vindex.init.waiting = [] := queued_nil fun _ _ => rfl
    have none : Vindex.init.pieces = [] := by
      rw [pieces_idle rfl, Driver.dealt, empty]
      rfl
    rw [none]
    exact nofun
  inside := nofun
  tokens := nofun
  parents := nofun
  files := nofun
  flights := nofun

/-- In every run in which the condition holds, reads get the data that the index names. -/
theorem reads_right (x : Index) {s : Driver} (run : Run (step x) (ReadMeets x) init s) : Right x s := by
  have held : Good x s ∧ Shown x s ∨ s.fault ≠ none ∧ Right x s := by
    apply run.invariant (I := fun s => Good x s ∧ Shown x s ∨ s.fault ≠ none ∧ Right x s) _
      (.inl ⟨Good.init x, Shown.init x⟩)
    rintro s e s' (⟨good, shown⟩ | ⟨fault, _⟩) meets action
    · exact shown.step good meets action
    · -- nothing happens once the driver has failed
      simp only [Vindex.step, Option.isSome_iff_ne_none.mpr fault, if_true] at action
      cases action
  rcases held with ⟨good, shown⟩ | ⟨_, right⟩
  · exact shown.right (.inl good.alive)
  · exact right

theorem reads_right_data : ∃ s : Driver, s.told = [(⟨0, 0, 4, 0⟩, .data 1 0)] ∧ Right oneFile s := by
  obtain ⟨s, action, told⟩ := Option.map_eq_some_iff.mp (by decide +kernel :
    (runEvents (guarded (step oneFile) (ReadMeets oneFile)) init [.read 0 4, .turn true, .turn true, .metaDone 0 true,
      .turn true, .turn true, .turn true, .turn true, .dataDone 0 0]).map (fun s : Driver => s.told) =
        some [(⟨0, 0, 4, 0⟩, .data 1 0)])
  exact ⟨s, told, reads_right oneFile (trace_of_guarded _ action).run⟩

def twoFiles : Index where
  spb := 2
  spb_pos := by decide
  vhdBlocks := 1
  vhdBlocks_lt := Nat.one_lt_two_pow' 31
  bat := fun _ => 0
  entry := fun _ i => ⟨i + 1, 0⟩

theorem reads_other_file : ∃ s, Run (step twoFiles) (fun _ _ => True) init s ∧ ¬ Right twoFiles s := by
  obtain ⟨s, action, told⟩ := Option.map_eq_some_iff.mp (by decide +kernel :
    (runEvents (step twoFiles) init [.read 0 2, .turn true, .turn true, .metaDone 0 true, .turn true, .turn true,
      .turn true, .turn true, .dataDone 0 0]).map (fun s : Driver => s.told) = some [(⟨0, 0, 2, 0⟩, .data 1 0)])
  refine ⟨s, run_of_runEvents _ (fun _ _ => trivial) action, fun right => ?_⟩
  have second := right.files ⟨0, 0, 2, 0⟩ 1 0 (by rw [told]; exact List.mem_cons_self) 1 (by decide)
  revert second
  decide

end Steps
end Blktap.Vindex
