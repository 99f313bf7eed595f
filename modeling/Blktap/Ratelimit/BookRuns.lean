import Blktap.Lib.Run
import Blktap.Ratelimit.Book
import Mathlib.Algebra.Order.BigOperators.Group.List
import Mathlib.Data.Fintype.Card
import Mathlib.Data.List.Perm.Basic

/-! # Runs of a valve -/

namespace Blktap.Ratelimit
open Lib

namespace Book
variable {s t u : Book} {l f : List Slot} {req : Slot} {secs left n : Nat} {error : Int} {sent reached : Bool}
  {pieces : List Piece} {passes : List (List Piece)}

structure Kept (s : Book) (l f : List Slot) : Prop where
  stor : s.queues.Fifo .stor l
  forw : s.queues.Chain (.first .forw) f (s.queues.last .forw)
  slots : (l ++ f ++ s.free).Perm (List.finRange maxRequests)
  numbers : ((l ++ f).map s.token).Perm (List.range s.count)
  waits : ∀ req ∈ l, s.stories (s.token req) = .fresh ∧ (s.reqv req).secs = (s.reqv req).treq ∧ 0 < (s.reqv req).treq
  flies : ∀ req ∈ f, (s.stories (s.token req)).forwards = 1 ∧ (s.stories (s.token req)).completions = []
  flights : ∀ w ∈ s.flights, w.req ∈ f ∧ (s.reqv w.req).secs = w.secs
  single : (s.flights.map (·.req)).Nodup
  asked : ∀ req ∈ l, s.sock ≠ none ∧ s.asked req = s.sock
  ended : s.killed = true → s.sock = none
  retrying : s.retry = true → s.sock = none ∧ s.killed = false
  unseen : ∀ n, s.count ≤ n → s.stories n = .fresh

structure Served (s t : Book) (req : Slot) (left : Nat) : Prop where
  conn : t.killed = s.killed ∧ t.sock = s.sock ∧ t.count = s.count ∧ t.retry = s.retry
  lists : t.queues = s.queues ∧ t.free = s.free ∧ t.flights = s.flights
  names : t.token = s.token ∧ t.asked = s.asked
  reqv : t.reqv = Function.update s.reqv req ⟨(s.reqv req).treq, left⟩
  stories : ∃ failed, t.stories =
    Function.update s.stories (s.token req) { s.stories (s.token req) with failed }

theorem Served.refl (size : (s.reqv req).secs = left) : Served s s req left := by
  refine ⟨⟨rfl, rfl, rfl, rfl⟩, ⟨rfl, rfl, rfl⟩, ⟨rfl, rfl⟩, ?_, (s.stories (s.token req)).failed, ?_⟩
  · rw [← size]
    exact (Function.update_eq_self req s.reqv).symm
  · exact (Function.update_eq_self (s.token req) s.stories).symm

theorem Served.trans (first : Served s t req n) (second : Served t u req left) : Served s u req left := by
  obtain ⟨killed, sock, count, retry⟩ := first.conn
  obtain ⟨killed', sock', count', retry'⟩ := second.conn
  obtain ⟨queues, free, flights⟩ := first.lists
  obtain ⟨queues', free', flights'⟩ := second.lists
  obtain ⟨token, asked⟩ := first.names
  obtain ⟨token', asked'⟩ := second.names
  obtain ⟨failed, stories⟩ := first.stories
  obtain ⟨failed', stories'⟩ := second.stories
  refine ⟨⟨killed'.trans killed, sock'.trans sock, count'.trans count, retry'.trans retry⟩,
    ⟨queues'.trans queues, free'.trans free, flights'.trans flights⟩, ⟨token'.trans token, asked'.trans asked⟩, ?_,
    failed', ?_⟩
  · rw [second.reqv, first.reqv, Function.update_self, Function.update_idem]
  · rw [stories', token, stories, Function.update_self, Function.update_idem]

theorem served_completeTreq (part : secs < (s.reqv req).secs) (action : s.completeTreq req secs error = some t) :
    Served s t req ((s.reqv req).secs - secs) := by
  unfold completeTreq at action
  rw [if_neg (by omega)] at action
  simp only at action
  rw [if_neg (by omega)] at action
  cases Option.some.inj action
  exact ⟨⟨rfl, rfl, rfl, rfl⟩, ⟨rfl, rfl, rfl⟩, ⟨rfl, rfl⟩, rfl, _, rfl⟩

theorem served_completePieces (size : (s.reqv req).secs = left) (less : (pieces.map (·.1)).sum < left)
    (action : completePieces req left pieces s = some (t, n)) : Served s t req n ∧ 0 < n := by
  induction pieces generalizing s left with
  | nil =>
      cases Option.some.inj action
      exact ⟨.refl size, by simpa using less⟩
  | cons piece pieces ih =>
      obtain ⟨secs, error⟩ := piece
      simp only [List.map_cons, List.sum_cons] at less
      unfold completePieces at action
      split at action
      · obtain ⟨mid, first, rest⟩ := Option.bind_eq_some_iff.mp action
        have served := served_completeTreq (by omega) first
        rw [size] at served
        have size' : (mid.reqv req).secs = left - secs := by rw [served.reqv, Function.update_self]
        obtain ⟨others, positive⟩ := ih size' (by omega) rest
        exact ⟨served.trans others, positive⟩
      · cases action

theorem Kept.nodup (kept : Kept s l f) : (l ++ f ++ s.free).Nodup := kept.slots.nodup_iff.mpr (List.nodup_finRange _)

theorem Kept.apart (kept : Kept s l f) : ∀ req ∈ l, req ∉ f := by
  have front := (List.nodup_append.mp kept.nodup).1
  intro req inside member
  exact (List.nodup_append.mp front).2.2 req inside req member rfl

theorem Kept.token_ne (kept : Kept s l f) {i j : Slot} (first : i ∈ l ++ f) (second : j ∈ l ++ f) (other : i ≠ j) :
    s.token i ≠ s.token j := by
  have nodup : ((l ++ f).map s.token).Nodup := kept.numbers.nodup_iff.mpr List.nodup_range
  exact fun same => other (List.inj_on_of_nodup_map nodup first second same)

theorem Kept.length_le (kept : Kept s l f) : l.length ≤ maxRequests ∧ f.length ≤ maxRequests := by
  have size := kept.slots.length_eq
  simp only [List.length_append, List.length_finRange] at size
  omega

theorem Kept.walk (kept : Kept s l f) : s.walk .stor = some l ∧ s.walk .forw = some f :=
  ⟨kept.stor.walk kept.length_le.1, kept.forw.walk kept.length_le.2⟩

theorem Kept.right (kept : Kept s l f) : s.Right := by
  refine ⟨l, f, kept.walk.1, kept.walk.2, kept.slots, fun n seen => ?_, kept.asked⟩
  have member : n ∈ (l ++ f).map s.token := kept.numbers.mem_iff.mpr (List.mem_range.mpr seen)
  obtain ⟨req, inside, number⟩ := List.mem_map.mp member
  rcases List.mem_append.mp inside with stored | forwarded
  · exact .waits req stored number (number ▸ (kept.waits req stored).1)
  · obtain ⟨forwards, completions⟩ := kept.flies req forwarded
    exact .flies req forwarded number (number ▸ forwards) (number ▸ completions)

theorem Kept.like (kept : Kept s l f) (queues : t.queues = s.queues) (free : t.free = s.free)
    (reqv : t.reqv = s.reqv) (flights : t.flights = s.flights) (token : t.token = s.token) (asked : t.asked = s.asked)
    (sock : t.sock = s.sock) (killed : t.killed = s.killed) (retry : t.retry = s.retry) (count : t.count = s.count)
    (stories : t.stories = s.stories) : Kept t l f := by
  constructor
  · rw [queues]
    exact kept.stor
  · rw [queues]
    exact kept.forw
  · rw [free]
    exact kept.slots
  · rw [token, count]
    exact kept.numbers
  · rw [stories, token, reqv]
    exact kept.waits
  · rw [stories, token]
    exact kept.flies
  · rw [flights, reqv]
    exact kept.flights
  · rw [flights]
    exact kept.single
  · rw [sock, asked]
    exact kept.asked
  · rw [killed, sock]
    exact kept.ended
  · rw [retry, sock, killed]
    exact kept.retrying
  · rw [count, stories]
    exact kept.unseen

theorem Kept.turn (kept : Kept s (req :: l) f) (less : (pieces.map (·.1)).sum < (s.reqv req).treq)
    (action : (s.forward req pieces).bind (·.moveHead req) = some t) :
    Kept t l (req :: f) ∧ ∀ other ∈ l, t.reqv other = s.reqv other := by
  obtain ⟨mid, forwarded, moved⟩ := Option.bind_eq_some_iff.mp action
  obtain ⟨⟨after, left⟩, pieced, rfl⟩ := Option.map_eq_some_iff.mp forwarded
  obtain ⟨fresh, size, -⟩ := kept.waits req List.mem_cons_self
  obtain ⟨served, positive⟩ := served_completePieces (s := s.tell req fun w => { w with forwards := w.forwards + 1 })
    size less pieced
  simp only [if_neg (Nat.ne_of_gt positive)] at moved
  obtain ⟨killed, sock, count, retry⟩ := served.conn
  obtain ⟨queues, free, flights⟩ := served.lists
  obtain ⟨token, asked⟩ := served.names
  obtain ⟨failed, stories⟩ := served.stories
  obtain ⟨lists, removed, queue, others, next⟩ := kept.stor.remove
  obtain ⟨first, last⟩ := others .forw (by decide)
  have nodup := kept.nodup
  have fresh_l : req ∉ l := (List.nodup_cons.mp kept.stor.nodup).1
  have fresh_f : req ∉ f := kept.apart req List.mem_cons_self
  have removed' : after.queues.remove .stor req = some lists := by
    rw [queues]
    exact removed
  unfold moveHead at moved
  simp only [removed', Option.map_some, Option.some.injEq] at moved
  subst moved
  have forw' : lists.Chain (.first .forw) f (lists.last .forw) := by
    rw [last]
    exact kept.forw.congr first fun i _ => congrFun next i
  have other_reqv : ∀ i, i ≠ req → after.reqv i = s.reqv i := by
    intro i other
    rw [served.reqv]
    exact Function.update_of_ne other _ _
  have own_reqv : after.reqv req = ⟨(s.reqv req).treq, left⟩ := by
    rw [served.reqv]
    exact Function.update_self ..
  have token' : after.token = s.token := token
  have own_story : after.stories (s.token req) = ⟨1, failed, []⟩ := by
    have told : (s.tell req fun w => { w with forwards := w.forwards + 1 }).stories (s.token req) = ⟨1, false, []⟩ := by
      change Function.update s.stories (s.token req) _ (s.token req) = _
      rw [Function.update_self, fresh]
      rfl
    have own := congrFun stories (s.token req)
    refine (own.trans (Function.update_self ..)).trans ?_
    exact congrArg (fun w : Story => { w with failed }) told
  have other_story : ∀ n, n ≠ s.token req → after.stories n = s.stories n := by
    intro n other
    rw [stories]
    change Function.update _ (s.token req) _ n = _
    rw [Function.update_of_ne other]
    exact Function.update_of_ne other _ _
  have numbers : ∀ i ∈ l ++ f, s.token i ≠ s.token req := by
    intro i member
    refine kept.token_ne (List.mem_cons_of_mem _ member) List.mem_cons_self fun same => ?_
    rcases List.mem_append.mp member with stored | forwarded
    · exact fresh_l (same ▸ stored)
    · exact fresh_f (same ▸ forwarded)
  refine ⟨⟨?_, forw'.insertHead fresh_f, ?_, ?_, ?_, ?_, ?_, ?_, ?_, ?_, ?_, ?_⟩, ?_⟩
  · refine queue.insertHead (by decide) fresh_l fun g head front => ?_
    have member : g ∈ f := by
      have front : s.queues.first .forw = f.head? := kept.forw.read
      rw [first, front] at head
      exact List.mem_of_mem_head? head
    exact kept.apart g (List.mem_cons_of_mem _ (List.mem_of_mem_head? front)) member
  · change (l ++ req :: f ++ after.free).Perm _
    rw [free]
    exact (List.Perm.append_right _ List.perm_middle).trans kept.slots
  · change ((l ++ req :: f).map after.token).Perm (List.range after.count)
    rw [token', count]
    exact (List.perm_middle.map _).trans kept.numbers
  · intro i member
    change after.stories (after.token i) = _ ∧ (after.reqv i).secs = (after.reqv i).treq ∧ 0 < (after.reqv i).treq
    have other : i ≠ req := fun same => fresh_l (same ▸ member)
    rw [token', other_story _ (numbers i (List.mem_append_left _ member)), other_reqv i other]
    exact kept.waits i (List.mem_cons_of_mem _ member)
  · intro i member
    change (after.stories (after.token i)).forwards = 1 ∧ (after.stories (after.token i)).completions = []
    rw [token']
    rcases List.mem_cons.mp member with rfl | old
    · rw [own_story]
      exact ⟨rfl, rfl⟩
    · rw [other_story _ (numbers i (List.mem_append_right _ old))]
      exact kept.flies i old
  · intro w member
    change w.req ∈ req :: f ∧ (after.reqv w.req).secs = w.secs
    rcases List.mem_cons.mp member with rfl | old
    · rw [own_reqv]
      exact ⟨List.mem_cons_self, rfl⟩
    · obtain ⟨inside, size⟩ := kept.flights w (flights ▸ old)
      rw [other_reqv _ fun same => fresh_f (same ▸ inside)]
      exact ⟨List.mem_cons_of_mem _ inside, size⟩
  · change (req :: after.flights.map (·.req)).Nodup
    refine List.nodup_cons.mpr ⟨fun member => ?_, ?_⟩
    · obtain ⟨w, old, same⟩ := List.mem_map.mp member
      exact fresh_f (same ▸ (kept.flights w (flights ▸ old)).1)
    · rw [flights]
      exact kept.single
  · intro i member
    change after.sock ≠ none ∧ after.asked i = after.sock
    rw [sock, asked]
    exact kept.asked i (List.mem_cons_of_mem _ member)
  · change after.killed = true → after.sock = none
    rw [killed, sock]
    exact kept.ended
  · change after.retry = true → after.sock = none ∧ after.killed = false
    rw [retry, sock, killed]
    exact kept.retrying
  · intro n late
    change after.count ≤ n at late
    change after.stories n = _
    rw [count] at late
    have seen : s.token req < s.count := by
      refine List.mem_range.mp (kept.numbers.mem_iff.mp (List.mem_map_of_mem ?_))
      exact List.mem_cons_self
    have late' : s.count ≤ n := late
    rw [other_story n (by omega)]
    exact kept.unseen n late'
  · exact fun i member => other_reqv i fun same => fresh_l (same ▸ member)

theorem Kept.expendRequest (kept : Kept s l f) (action : s.expendRequest secs = some t) : Kept t l f ∧ t.reqv = s.reqv ∧
    t.queues = s.queues := by
  unfold Book.expendRequest at action
  split at action
  · cases Option.some.inj action
    exact ⟨kept, rfl, rfl⟩
  · split at action
    · cases Option.some.inj action
      exact ⟨kept, rfl, rfl⟩
    · split at action
      · cases action
      · cases Option.some.inj action
        exact ⟨kept.like rfl rfl rfl rfl rfl rfl rfl rfl rfl rfl rfl, rfl, rfl⟩

theorem Kept.forwardStored (bound : Nat) (kept : Kept s l f)
    (leaves : ∀ p ∈ l.zip passes, (p.2.map (·.1)).sum < (s.reqv p.1).treq)
    (action : forwardStored bound l.head? passes s = some t) : ∃ l' f', Kept t l' f' := by
  induction l generalizing s f passes bound with
  | nil =>
      rw [List.head?_nil, Book.forwardStored] at action
      cases Option.some.inj action
      exact ⟨[], f, kept⟩
  | cons req l ih =>
      cases bound with
      | zero => cases action
      | succ bound =>
          simp only [List.head?_cons, Book.forwardStored] at action
          cases expended : s.expendRequest (s.reqv req).treq with
          | none =>
              simp only [expended] at action
              cases Option.some.inj action
              exact ⟨req :: l, f, kept⟩
          | some spent =>
              simp only [expended] at action
              obtain ⟨paid, reqv, queues⟩ := kept.expendRequest expended
              obtain ⟨mid, turn, rest⟩ := Option.bind_eq_some_iff.mp action
              have less : ((passes.headD []).map (·.1)).sum < (spent.reqv req).treq := by
                rw [reqv]
                cases passes with
                | nil => exact (kept.waits req List.mem_cons_self).2.2
                | cons pass passes => exact leaves (req, pass) (by simp)
              obtain ⟨moved, same⟩ := paid.turn less turn
              rw [kept.stor.next] at rest
              refine ih bound moved (fun p member => ?_) rest
              have inside : p ∈ (req :: l).zip passes := by
                cases passes with
                | nil => simp at member
                | cons pass passes =>
                    rw [List.zip_cons_cons]
                    exact List.mem_cons_of_mem _ member
              rw [same _ (List.of_mem_zip member).1, reqv]
              exact leaves p inside

theorem Kept.forwardStoredRequests (kept : Kept s l f)
    (leaves : ∀ p ∈ l.zip passes, (p.2.map (·.1)).sum < (s.reqv p.1).treq)
    (action : s.forwardStoredRequests passes = some t) : ∃ l' f', Kept t l' f' := by
  unfold Book.forwardStoredRequests at action
  rw [kept.stor.first] at action
  exact kept.forwardStored _ leaves action

theorem Kept.leaves (kept : Kept s l f) (leaves : s.Leaves passes) :
    ∀ p ∈ l.zip passes, (p.2.map (·.1)).sum < (s.reqv p.1).treq := by
  unfold Leaves at leaves
  rw [kept.walk.1] at leaves
  exact leaves

theorem Kept.empty (kept : Kept s l f) (empty : s.Empty) : l = [] := by
  unfold Empty at empty
  rw [kept.stor.first] at empty
  exact List.head?_eq_none_iff.mp empty

theorem Kept.connClose (kept : Kept s [] f) (action : s.connClose = some t) : t = { s with sock := none } := by
  unfold Book.connClose at action
  rw [kept.walk.1] at action
  exact (Option.some.inj action).symm

theorem Kept.closed (kept : Kept s [] f) (quiet : s.retry = false) : Kept { s with sock := none } [] f := by
  refine ⟨kept.stor, kept.forw, kept.slots, kept.numbers, kept.waits, kept.flies, kept.flights, kept.single, ?_,
    fun _ => rfl, fun retry => ?_, kept.unseen⟩
  · exact fun _ member => (nomatch member)
  · cases quiet.symm.trans retry

theorem Kept.connOpen (kept : Kept s [] f) (closed : s.sock = none) (alive : s.killed = false) :
    Kept (s.connOpen reached) [] f := by
  unfold Book.connOpen
  split
  · refine ⟨kept.stor, kept.forw, kept.slots, kept.numbers, kept.waits, kept.flies, kept.flights, kept.single, ?_,
      fun killed => ?_, fun retry => (nomatch retry), kept.unseen⟩
    · exact fun _ member => (nomatch member)
    · cases alive.symm.trans killed
  · refine ⟨kept.stor, kept.forw, kept.slots, kept.numbers, kept.waits, kept.flies, kept.flights, kept.single, ?_,
      fun _ => closed, fun _ => ⟨closed, alive⟩, kept.unseen⟩
    exact fun _ member => (nomatch member)

theorem Kept.live (kept : Kept s l f) (live : s.sock ≠ none) : s.killed = false ∧ s.retry = false := by
  constructor
  · by_contra killed
    exact live (kept.ended (Bool.eq_true_of_not_eq_false killed))
  · by_contra retry
    exact live (kept.retrying (Bool.eq_true_of_not_eq_false retry)).1

theorem Kept.connReset (kept : Kept s [] f) (live : s.sock ≠ none) (action : s.connReset reached = some t) :
    Kept t [] f := by
  obtain ⟨killed, retry⟩ := kept.live live
  obtain ⟨closed, close, rfl⟩ := Option.map_eq_some_iff.mp action
  cases kept.connClose close
  exact (kept.closed retry).connOpen rfl killed

theorem Kept.connReceive {buf : List Nat} (kept : Kept s l f) (live : s.sock ≠ none)
    (empty : buf.any (tdRlbRequestMax ≤ ·) ∨ s.need < buf.sum → l = [])
    (action : s.connReceive buf reached = some t) : Kept t l f ∧ t.reqv = s.reqv := by
  unfold Book.connReceive at action
  split at action
  · rename_i large
    obtain rfl := empty (.inl large)
    obtain ⟨-, retry⟩ := kept.live live
    have kept' : Kept { s with killed := true, sock := none } [] f := by
      refine ⟨kept.stor, kept.forw, kept.slots, kept.numbers, kept.waits, kept.flies, kept.flights, kept.single, ?_,
        fun _ => rfl, fun again => ?_, kept.unseen⟩
      · exact fun _ member => (nomatch member)
      · cases retry.symm.trans again
    have walk : ({ s with killed := true } : Book).walk .stor = some [] := kept.walk.1
    unfold Book.kill Book.connClose at action
    rw [walk] at action
    cases Option.some.inj action
    exact ⟨kept', rfl⟩
  · split at action
    · rename_i more
      obtain rfl := empty (.inr more)
      refine ⟨kept.connReset live action, ?_⟩
      obtain ⟨closed, close, rfl⟩ := Option.map_eq_some_iff.mp action
      cases kept.connClose close
      unfold Book.connOpen
      split <;> rfl
    · cases Option.some.inj action
      exact ⟨kept.like rfl rfl rfl rfl rfl rfl rfl rfl rfl rfl rfl, rfl⟩

theorem Kept.connRequest {size : Nat} (kept : Kept s l f) (live : s.sock ≠ none) (empty : ¬ sent → l = [])
    (action : s.connRequest size sent reached = some t) : Kept t l f := by
  have asked : Kept { s with need := unsigned (s.need + size), done := 0 } l f :=
    kept.like rfl rfl rfl rfl rfl rfl rfl rfl rfl rfl rfl
  unfold Book.connRequest at action
  simp only at action
  split at action
  · cases Option.some.inj action
    exact asked
  · rename_i lost
    obtain rfl := empty lost
    exact asked.connReset live action

theorem expendRequest_none (action : s.expendRequest secs = none) : s.sock ≠ none ∧ 0 < secs := by
  unfold Book.expendRequest at action
  split at action
  · cases action
  · split at action
    · cases action
    · rename_i live
      split at action
      · rename_i short
        refine ⟨live, Nat.pos_of_ne_zero fun zero => ?_⟩
        rw [zero] at short
        cases short
      · cases action

def stored (s : Book) (req : Slot) (free : List Slot) (secs : Nat) : Book :=
  { s with free, need := unsigned (s.need + treqSize secs), done := 0 }.insertStored req secs s.sock

theorem Kept.stored {free : List Slot} (kept : Kept s l f) (slot : s.free = req :: free) (live : s.sock ≠ none)
    (positive : 0 < secs) : Kept (s.stored req free secs) (l ++ [req]) f := by
  have nodup := kept.nodup
  rw [slot] at nodup
  have fresh : req ∉ l ++ f := fun member => (List.nodup_append.mp nodup).2.2 req member req List.mem_cons_self rfl
  have fresh_l : req ∉ l := fun member => fresh (List.mem_append_left _ member)
  have fresh_f : req ∉ f := fun member => fresh (List.mem_append_right _ member)
  have apart : ∀ i ∈ f, i ∉ l := fun i forwarded waits => kept.apart i waits forwarded
  have token_own : (s.stored req free secs).token req = s.count := Function.update_self ..
  have token : ∀ i, i ≠ req → (s.stored req free secs).token i = s.token i := fun i other => Function.update_of_ne other _ _
  have reqv : ∀ i, i ≠ req → (s.stored req free secs).reqv i = s.reqv i := fun i other => Function.update_of_ne other _ _
  have token_l : l.map (s.stored req free secs).token = l.map s.token :=
    List.map_congr_left fun i member => token i fun same => fresh_l (same ▸ member)
  have token_f : f.map (s.stored req free secs).token = f.map s.token :=
    List.map_congr_left fun i member => token i fun same => fresh_f (same ▸ member)
  refine ⟨kept.stor.insertTail fresh_l, ?_, ?_, ?_, ?_, ?_, ?_, kept.single, ?_, kept.ended, kept.retrying, ?_⟩
  · have last : (s.stored req free secs).queues.last .forw = s.queues.last .forw :=
      TailQueues.insertTail_last.trans (if_neg (by decide))
    rw [last]
    exact kept.forw.insertTail_other kept.stor (by decide) fresh_f apart
  · have slots := kept.slots
    rw [slot] at slots
    refine List.Perm.trans ?_ slots
    change (l ++ [req] ++ f ++ free).Perm (l ++ f ++ req :: free)
    rw [List.append_assoc, List.append_assoc, List.append_assoc]
    refine List.Perm.append_left l ?_
    exact (List.perm_middle.symm : (req :: (f ++ free)).Perm (f ++ req :: free))
  · change ((l ++ [req] ++ f).map (s.stored req free secs).token).Perm (List.range (s.count + 1))
    rw [List.range_succ, List.map_append, List.map_append, token_l, token_f, List.map_singleton, token_own]
    have numbers := kept.numbers
    rw [List.map_append] at numbers
    refine List.Perm.trans ?_ (numbers.append_right [s.count])
    rw [List.append_assoc, List.append_assoc]
    exact List.Perm.append_left _ List.perm_append_comm
  · intro i member
    rcases List.mem_append.mp member with old | new
    · have other : i ≠ req := fun same => fresh_l (same ▸ old)
      rw [token i other, reqv i other]
      exact kept.waits i old
    · rw [List.mem_singleton.mp new, token_own]
      have own : (s.stored req free secs).reqv req = ⟨secs, secs⟩ := Function.update_self ..
      rw [own]
      exact ⟨kept.unseen s.count le_rfl, rfl, positive⟩
  · intro i member
    rw [token i fun same => fresh_f (same ▸ member)]
    exact kept.flies i member
  · intro w member
    obtain ⟨inside, size⟩ := kept.flights w member
    rw [reqv w.req fun same => fresh_f (same ▸ inside)]
    exact ⟨inside, size⟩
  · intro i member
    change s.sock ≠ none ∧ Function.update s.asked req s.sock i = s.sock
    rcases List.mem_append.mp member with old | new
    · have other : i ≠ req := fun same => fresh_l (same ▸ old)
      rw [Function.update_of_ne other]
      exact kept.asked i old
    · rw [List.mem_singleton.mp new, Function.update_self]
      exact ⟨live, rfl⟩
  · intro n late
    exact kept.unseen n (Nat.le_of_succ_le late)

theorem Kept.queueWrite (kept : Kept s l f) (meets : s.Meets (.queueWrite secs sent reached))
    (action : s.queueWrite secs sent reached = some t) : ∃ l', Kept t l' f := by
  unfold Book.queueWrite at action
  cases expended : s.expendRequest secs with
  | some spent =>
      rw [expended] at action
      cases Option.some.inj action
      exact ⟨l, (kept.expendRequest expended).1⟩
  | none =>
      rw [expended] at action
      obtain ⟨live, positive⟩ := expendRequest_none expended
      unfold Book.storeRequest at action
      cases slot : s.free with
      | nil =>
          simp only [slot] at action
          cases Option.some.inj action
          exact ⟨l, kept⟩
      | cons req free =>
          obtain rfl : sent = true := meets (by rw [expended]; rfl) (by simp [slot])
          simp only [slot] at action
          cases Option.some.inj action
          exact ⟨l ++ [req], kept.stored slot live positive⟩

theorem Kept.completeBelow {i : Nat} (kept : Kept s l f) (meets : s.Meets (.complete i secs error))
    (action : s.completeBelow i secs error = some t) : Kept t l f := by
  obtain ⟨w, here, piece⟩ := Option.bind_eq_some_iff.mp action
  have part : secs ≠ w.secs := meets w here
  split at piece
  · rename_i bound
    simp only at piece
    obtain ⟨before, after, whole, index⟩ : ∃ before after, s.flights = before ++ w :: after ∧ before.length = i := by
      obtain ⟨inside, same⟩ := List.getElem?_eq_some_iff.mp here
      refine ⟨s.flights.take i, s.flights.drop (i + 1), ?_, ?_⟩
      · rw [← same, List.getElem_cons_drop, List.take_append_drop]
      · rw [List.length_take]
        omega
    have flights : s.flights.set i { w with secs := w.secs - secs } = before ++ { w with secs := w.secs - secs } :: after := by
      rw [whole, ← index, List.set_append_right _ _ le_rfl, Nat.sub_self, List.set_cons_zero]
    rw [flights] at piece
    have member : w ∈ s.flights := by
      rw [whole]
      simp
    obtain ⟨inside, size⟩ := kept.flights w member
    have served := served_completeTreq (s := { s with flights := before ++ { w with secs := w.secs - secs } :: after })
      (by change secs < (s.reqv w.req).secs; omega) piece
    change Served _ t w.req ((s.reqv w.req).secs - secs) at served
    rw [size] at served
    obtain ⟨killed, sock, count, retry⟩ := served.conn
    obtain ⟨queues, free, flights'⟩ := served.lists
    obtain ⟨token, asked⟩ := served.names
    obtain ⟨failed, stories⟩ := served.stories
    have token' : t.token = s.token := token
    have single := kept.single
    rw [whole, List.map_append, List.map_cons] at single
    have away : w.req ∉ before.map (·.req) ++ after.map (·.req) :=
      (List.nodup_cons.mp (List.nodup_middle.mp single)).1
    have reqv : ∀ j, j ≠ w.req → t.reqv j = s.reqv j := by
      intro j other
      rw [served.reqv]
      exact Function.update_of_ne other _ _
    have story : ∀ n, n ≠ s.token w.req → t.stories n = s.stories n := by
      intro n other
      rw [stories]
      exact Function.update_of_ne other _ _
    have own_story : t.stories (s.token w.req) = { s.stories (s.token w.req) with failed } := by
      rw [stories]
      exact Function.update_self ..
    refine ⟨queues ▸ kept.stor, queues ▸ kept.forw, free ▸ kept.slots, ?_, ?_, ?_, ?_, ?_, ?_, ?_, ?_, ?_⟩
    · rw [token', count]
      exact kept.numbers
    · intro j waits
      have other : j ≠ w.req := fun same => kept.apart j waits (same ▸ inside)
      rw [token', story _ (kept.token_ne (List.mem_append_left _ waits) (List.mem_append_right _ inside) other),
        reqv j other]
      exact kept.waits j waits
    · intro j forwarded
      rw [token']
      by_cases same : j = w.req
      · rw [same, own_story]
        exact kept.flies w.req inside
      · rw [story _ (kept.token_ne (List.mem_append_right _ forwarded) (List.mem_append_right _ inside) same)]
        exact kept.flies j forwarded
    · intro v flying
      rw [flights'] at flying
      rcases List.mem_append.mp flying with old | rest
      · have other : v.req ≠ w.req := fun same => away (same ▸ List.mem_append_left _ (List.mem_map_of_mem old))
        rw [reqv _ other]
        exact kept.flights v (whole ▸ List.mem_append_left _ old)
      · rcases List.mem_cons.mp rest with rfl | old
        · have own : t.reqv w.req = ⟨(s.reqv w.req).treq, w.secs - secs⟩ := by
            rw [served.reqv]
            exact Function.update_self ..
          exact ⟨inside, congrArg ValveRequest.secs own⟩
        · have other : v.req ≠ w.req := fun same => away (same ▸ List.mem_append_right _ (List.mem_map_of_mem old))
          rw [reqv _ other]
          exact kept.flights v (whole ▸ List.mem_append_right _ (List.mem_cons_of_mem _ old))
    · rw [flights', List.map_append, List.map_cons]
      exact single
    · rw [sock, asked]
      exact kept.asked
    · rw [killed, sock]
      exact kept.ended
    · rw [retry, sock, killed]
      exact kept.retrying
    · intro n late
      rw [count] at late
      have seen : s.token w.req < s.count := by
        refine List.mem_range.mp (kept.numbers.mem_iff.mp (List.mem_map_of_mem ?_))
        exact List.mem_append_right _ inside
      have late' : s.count ≤ n := late
      rw [story n (by omega)]
      exact kept.unseen n late'
  · cases piece

theorem Kept.step {e : BookEvent} (kept : Kept s l f) (meets : s.Meets e) (action : step s e = some t) :
    ∃ l' f', Kept t l' f' := by
  cases e with
  | queueWrite secs sent reached =>
      obtain ⟨l', kept'⟩ := kept.queueWrite meets action
      exact ⟨l', f, kept'⟩
  | sock buf reached passes =>
      simp only [Book.step, sockEvent] at action
      split at action
      · cases action
      · rename_i usable
        obtain ⟨mid, received, rest⟩ := Option.bind_eq_some_iff.mp action
        have leaves := kept.leaves meets.2
        obtain ⟨kept', reqv⟩ := kept.connReceive (not_or.mp usable).1 (fun lost => kept.empty (meets.1 lost)) received
        rw [← reqv] at leaves
        exact kept'.forwardStoredRequests leaves rest
  | sockLost reached passes =>
      simp only [Book.step, Book.sockLost] at action
      split at action
      · cases action
      · rename_i live
        obtain ⟨mid, reset, rest⟩ := Option.bind_eq_some_iff.mp action
        obtain rfl := kept.empty meets
        exact (kept.connReset live reset).forwardStoredRequests (fun p member => by simp at member) rest
  | sched sent reached =>
      simp only [Book.step, schedEvent] at action
      split at action
      · cases action
      · rename_i live
        split at action
        · rename_i due
          exact ⟨l, f, kept.connRequest live (fun lost => kept.empty (meets due lost)) action⟩
        · cases Option.some.inj action
          exact ⟨l, f, kept⟩
  | retry reached =>
      simp only [Book.step, retryTimeout] at action
      split at action
      · rename_i again
        cases Option.some.inj action
        obtain ⟨closed, alive⟩ := kept.retrying again
        cases l with
        | nil => exact ⟨[], f, kept.connOpen closed alive⟩
        | cons req l => exact absurd closed (kept.asked req List.mem_cons_self).1
      · cases action
  | complete i secs error => exact ⟨l, f, kept.completeBelow meets action⟩

theorem kept_opened (reached : Bool) : Kept (opened reached) [] [] := by
  have start : Kept init [] [] := by
    refine ⟨TailQueues.fifo_init, ⟨rfl, rfl⟩, List.Perm.refl _, List.Perm.refl _, ?_, ?_, ?_, List.nodup_nil, ?_,
      fun _ => rfl, fun _ => ⟨rfl, rfl⟩, fun _ _ => rfl⟩
    all_goals exact fun _ member => (nomatch member)
  exact start.connOpen rfl rfl

/-- As long as no stored write is completed, and the connection is closed only while nothing is stored, the books
of the valve are right. -/
theorem valve_booked (run : Run step Meets (opened reached) s) : s.Right := by
  have kept : ∃ l f, Kept s l f := run.invariant (I := fun s => ∃ l f, Kept s l f)
    (fun _ _ _ ⟨_, _, kept⟩ meets action => kept.step meets action) ⟨[], [], kept_opened reached⟩
  obtain ⟨l, f, kept⟩ := kept
  exact kept.right

def firstSlot : Slot := ⟨0, by decide⟩

theorem valve_booked_part : ∃ s : Book, s.walk .forw = some [firstSlot] ∧ s.Right := by
  obtain ⟨s, action, shape⟩ := Option.map_eq_some_iff.mp
    (by decide +kernel : (runEvents (guarded step Meets) (opened true)
      [.queueWrite 8 true true, .sock [4096] true [[(3, 0)]], .complete 0 2 (-5)]).map (·.walk .forw) =
      some (some [firstSlot]))
  exact ⟨s, shape, valve_booked (trace_of_guarded _ action).run⟩

theorem valve_books_broken : ∃ s : Book, Run step (fun _ _ => True) (opened true) s ∧
    s.stories 0 = ⟨1, true, [0]⟩ ∧ ¬ s.Right := by
  obtain ⟨s, action, shape⟩ := Option.map_eq_some_iff.mp
    (by decide +kernel : (runEvents step (opened true)
      [.queueWrite 8 true true, .sock [4096] true [], .complete 0 4 (-5), .complete 0 4 0]).map
        (fun s : Book => (s.stories 0, s.walk .forw, s.free.length)) = some (⟨1, true, [0]⟩, some [firstSlot], 32))
  obtain ⟨story, rest⟩ := Prod.mk.inj shape
  obtain ⟨walk, size⟩ := Prod.mk.inj rest
  refine ⟨s, run_of_runEvents _ (fun _ _ => trivial) action, story, fun right => ?_⟩
  obtain ⟨stor, forw, -, forwarded, slots, -⟩ := right
  cases walk.symm.trans forwarded
  have length := slots.length_eq
  simp only [List.length_append, List.length_finRange, List.length_singleton, size] at length
  have bound : maxRequests = 32 := rfl
  omega

end Book
end Blktap.Ratelimit
