import Blktap.Ratelimit.Rated
import Mathlib.Algebra.Order.BigOperators.Group.List
import Mathlib.Algebra.Order.Ring.Nat
import Mathlib.Data.Fintype.Card

/-! # Runs of the credit protocol -/

namespace Blktap.Ratelimit
open Lib

def Forwarded.rest (w : Forwarded) (secs : Nat) : List Forwarded :=
  if secs = w.secs then [] else [{ w with secs := w.secs - secs }]

namespace State
variable {s t : State} {l : List Slot} {req : Slot} {k secs bound : Nat} {sent reached : Bool}

def used (s : State) : List Slot := s.below.filterMap (·.req)

def heldBytes (s : State) : Nat := (s.below.map fun w => if w.req ≠ none then bytes w.secs else 0).sum

structure Lined (s : State) (l : List Slot) : Prop where
  alive : s.killed = false
  queue : s.queues.Fifo .stor l
  second : ∀ req ∈ s.queues.first .forw, l[1]? ≠ some req
  sizes : ∀ req ∈ l, bytes (s.reqv req).treq ≤ tdRlbRequestMax

structure Account (c : Connection) (cred need done stored flying held : Nat) : Prop where
  covers : cred + need = stored
  asked : need = (c.up.map (·.need)).sum + c.need + c.down.sum
  balance : c.gntd = c.down.sum + cred + (flying + done) + (c.up.map (·.done)).sum
  room : done + stored + held ≤ maxRequests * tdRlbRequestMax

structure Tidy (c : Connection) : Prop where
  covered : (c.up.map (·.done)).sum ≤ c.gntd
  small : ∀ grant ∈ c.down, grant < tdRlbRequestMax
  backlog : c.stage = .backlog → c.need = 0 ∧ c.gntd = 0

structure Base (s : State) (l : List Slot) : Prop extends s.Lined l where
  kept : s.refused = false
  slots : (l ++ s.used ++ s.free).Nodup
  whole : ∀ req ∈ l, (s.reqv req).secs = (s.reqv req).treq
  holds : ∀ w ∈ s.below, ∀ req ∈ w.req, (s.reqv req).secs = w.secs ∧ bytes w.secs ≤ tdRlbRequestMax
  plain : ∀ w ∈ s.below, w.req = none → w.paid = none ∨ w.secs = 0
  past : ∀ w ∈ s.below, ∀ k ∈ w.paid, k < s.made
  ended : s.sock = none → l = []
  began : ∀ k ∈ s.sock, k < s.made
  retrying : s.retry = true → s.sock = none
  links : ∀ k, Tidy (s.links k)
  fresh : ∀ k, s.made ≤ k → s.links k = .fresh

structure Good (s : State) (l : List Slot) : Prop extends s.Base l where
  live : ∀ k ∈ s.sock, Account (s.links k) s.cred s.need s.done (s.storedBytes l) (s.flying k) s.heldBytes

theorem treqSize_eq (small : bytes secs ≤ tdRlbRequestMax) : treqSize secs = bytes secs := by
  have shift : secs <<< 9 = bytes secs := Nat.shiftLeft_eq secs 9
  rw [treqSize, shift]
  exact Nat.mod_eq_of_lt (lt_of_le_of_lt small (by decide))

theorem unsigned_eq {n : Nat} (small : n ≤ maxRequests * tdRlbRequestMax) : unsigned n = n :=
  Nat.mod_eq_of_lt (lt_of_le_of_lt small (by decide))

theorem Lined.length_le (lined : s.Lined l) : l.length ≤ maxRequests :=
  le_of_le_of_eq lined.queue.nodup.length_le_card (Fintype.card_fin _)

theorem Lined.stored (lined : s.Lined l) : s.stored = some l := lined.queue.walk lined.length_le

theorem Lined.expendRequest (lined : s.Lined l) (secs : Nat) (live : k ∈ s.sock) : s.expendRequest secs =
    if s.cred < treqSize secs then none else some { s with cred := s.cred - treqSize secs } := by
  have socket : s.sock ≠ none := fun absent => nomatch absent.symm.trans live
  rw [State.expendRequest, lined.alive, if_neg Bool.false_ne_true, if_neg socket]

def turned (s : State) (req : Slot) (queues : TailQueues ValveQueue Slot) : State :=
  { s with
    cred := s.cred - treqSize (s.reqv req).treq
    below := ⟨(s.reqv req).treq, some req, s.sock⟩ :: s.below
    queues }

theorem Lined.turn (lined : s.Lined (req :: l)) (bound : Nat) (live : k ∈ s.sock)
    (enough : treqSize (s.reqv req).treq ≤ s.cred) : ∃ queues, (s.turned req queues).Lined l ∧
      forwardStored (bound + 1) (some req) s = forwardStored bound l.head? (s.turned req queues) := by
  have apart := List.nodup_cons.mp lined.queue.nodup
  obtain ⟨queues, removed, queue, others, -⟩ := lined.queue.remove
  have first := (others .forw (by decide)).1
  refine ⟨queues.insertHead .forw req, ⟨lined.alive, ?_, ?_, ?_⟩, ?_⟩
  · refine queue.insertHead (by decide) apart.1 fun forwarded head => ?_
    have second := lined.second forwarded (first ▸ head)
    rwa [List.getElem?_cons_succ, ← List.head?_eq_getElem?] at second
  · intro forwarded head second
    cases TailQueues.first_insertHead.symm.trans head
    exact apart.1 (List.mem_of_getElem? second)
  · exact fun req member => lined.sizes req (List.mem_cons_of_mem _ member)
  · have spent := lined.expendRequest (s.reqv req).treq live
    rw [if_neg (Nat.not_lt.mpr enough)] at spent
    have payer : s.payer = s.sock := by rw [State.payer, lined.alive, if_neg Bool.false_ne_true]
    simp only [forwardStored, spent, State.forward, removed, Option.bind_some, lined.queue.next, payer]
    rfl

theorem forwardStored_keeps {P : State → List Slot → Prop} (bound : Nat)
    (lined : ∀ s l, P s l → s.Lined l ∧ ∃ k, k ∈ s.sock)
    (turn : ∀ s req l queues, P s (req :: l) → treqSize (s.reqv req).treq ≤ s.cred →
      (s.turned req queues).Lined l → P (s.turned req queues) l)
    (init : P s l) (enough : l.length ≤ bound) : ∃ t rest, forwardStored bound l.head? s = some t ∧ P t rest ∧
      ∀ req ∈ rest.head?, t.cred < treqSize (t.reqv req).treq := by
  induction l generalizing s bound with
  | nil =>
      refine ⟨s, [], ?_, init, fun req absent => nomatch absent⟩
      cases bound <;> rfl
  | cons req l ih =>
      obtain ⟨line, k, live⟩ := lined s _ init
      cases bound with
      | zero => cases enough
      | succ bound =>
          by_cases short : s.cred < treqSize (s.reqv req).treq
          · refine ⟨s, req :: l, ?_, init, fun other head => ?_⟩
            · have spent := line.expendRequest (s.reqv req).treq live
              rw [if_pos short] at spent
              simp only [List.head?_cons, forwardStored, spent]
            · exact Option.some.inj head ▸ short
          · obtain ⟨queues, next, same⟩ := line.turn bound live (Nat.not_lt.mp short)
            have kept := turn s req l queues init (Nat.not_lt.mp short) next
            obtain ⟨t, rest, run, final⟩ := ih bound kept (Nat.le_of_succ_le_succ enough)
            exact ⟨t, rest, same.trans run, final⟩

theorem Good.turn {queues : TailQueues ValveQueue Slot} (good : s.Good (req :: l)) (live : k ∈ s.sock)
    (enough : treqSize (s.reqv req).treq ≤ s.cred) (lined : (s.turned req queues).Lined l) :
    (s.turned req queues).Good l := by
  have size := treqSize_eq (good.sizes req List.mem_cons_self)
  obtain ⟨account, need, balance, room⟩ := good.live k live
  have stored : s.storedBytes (req :: l) = bytes (s.reqv req).treq + s.storedBytes l := rfl
  have flying : (s.turned req queues).flying k = bytes (s.reqv req).treq + s.flying k :=
    congrArg (· + s.flying k) (if_pos live)
  have held : (s.turned req queues).heldBytes = bytes (s.reqv req).treq + s.heldBytes := rfl
  refine ⟨⟨lined, good.kept, ?_, ?_, ?_, ?_, ?_, ?_, good.began, good.retrying, good.links, good.fresh⟩, ?_⟩
  · have used : (s.turned req queues).used = req :: s.used := rfl
    rw [used]
    refine (List.Perm.append_right _ ?_).nodup_iff.mp good.slots
    exact List.perm_middle.symm
  · exact fun other member => good.whole other (List.mem_cons_of_mem _ member)
  · intro w member other taken
    rcases List.mem_cons.mp member with rfl | member
    · cases taken
      exact ⟨good.whole req List.mem_cons_self, good.sizes req List.mem_cons_self⟩
    · exact good.holds w member other taken
  · intro w member none
    rcases List.mem_cons.mp member with rfl | member
    · cases none
    · exact good.plain w member none
  · intro w member j paid
    rcases List.mem_cons.mp member with rfl | member
    · exact good.began j paid
    · exact good.past w member j paid
  · intro absent
    cases absent.symm.trans live
  · intro j member
    cases Option.mem_unique live member
    change Account (s.links k) (s.cred - treqSize (s.reqv req).treq) s.need s.done (s.storedBytes l)
      ((s.turned req queues).flying k) (s.turned req queues).heldBytes
    exact ⟨by omega, need, by omega, by omega⟩

theorem Good.forwardStoredRequests (good : s.Good l) :
    ∃ t rest, s.forwardStoredRequests = some t ∧ t.Good rest := by
  rw [State.forwardStoredRequests, good.queue.first]
  cases socket : s.sock with
  | none =>
      rw [good.ended socket]
      refine ⟨s, l, ?_, good⟩
      cases s.cred + maxRequests <;> rfl
  | some k =>
      obtain ⟨t, rest, run, ⟨final, -⟩, -⟩ := forwardStored_keeps (s.cred + maxRequests)
        (P := fun s l => s.Good l ∧ ∃ k, k ∈ s.sock) (fun s l init => ⟨init.1.toLined, init.2⟩)
        (fun s req l queues init enough lined => by
          obtain ⟨good, k, live⟩ := init
          exact ⟨good.turn live enough lined, k, live⟩)
        ⟨good, k, socket⟩ (le_trans good.length_le (Nat.le_add_left _ _))
      exact ⟨t, rest, run, final⟩

theorem Lined.released (lined : s.Lined l) (live : k ∈ s.sock) (account : s.cred + s.need = s.storedBytes l)
    (small : s.storedBytes l ≤ maxRequests * tdRlbRequestMax) :
    ∃ t, (s.granted s.need).forwardStoredRequests = some t ∧ t.stored = some [] := by
  have cred : (s.granted s.need).cred = s.storedBytes l := by
    rw [← account] at small ⊢
    exact unsigned_eq small
  have start : (s.granted s.need).Lined l := ⟨lined.alive, lined.queue, lined.second, lined.sizes⟩
  have first : (s.granted s.need).queues.first .stor = l.head? := lined.queue.first
  obtain ⟨t, rest, run, ⟨final, credit, -⟩, short⟩ :=
    forwardStored_keeps ((s.granted s.need).cred + maxRequests)
      (P := fun s l => s.Lined l ∧ s.storedBytes l ≤ s.cred ∧ ∃ k, k ∈ s.sock)
      (fun s l init => ⟨init.1, init.2.2⟩)
      (fun s req l queues init enough lined => by
        obtain ⟨line, credit, socket⟩ := init
        refine ⟨lined, ?_, socket⟩
        have size := treqSize_eq (line.sizes req List.mem_cons_self)
        have stored : s.storedBytes (req :: l) = bytes (s.reqv req).treq + s.storedBytes l := rfl
        change s.storedBytes l ≤ s.cred - treqSize (s.reqv req).treq
        omega)
      ⟨start, cred.ge, k, live⟩ (le_trans start.length_le (Nat.le_add_left _ _))
  refine ⟨t, by rw [State.forwardStoredRequests, first, run], ?_⟩
  cases rest with
  | nil => exact final.stored
  | cons req rest =>
      have size := treqSize_eq (final.sizes req List.mem_cons_self)
      have stored : t.storedBytes (req :: rest) = bytes (t.reqv req).treq + t.storedBytes rest := rfl
      have less := short req rfl
      omega

theorem Good.sound (good : s.Good l) : s.Sound where
  kept := good.kept
  balance k live _ := (good.live k live).balance
  covered open' := ⟨l, good.stored, by
    obtain ⟨k, live⟩ := Option.ne_none_iff_exists'.mp open'
    exact (good.live k live).covers.ge⟩
  released open' := by
    obtain ⟨k, live⟩ := Option.ne_none_iff_exists'.mp open'
    have room := (good.live k live).room
    exact good.toLined.released live (good.live k live).covers (by omega)

theorem Base.link (base : s.Base l) {f : Connection → Connection} (made : k < s.made) (tidy : Tidy (f (s.links k))) :
    (s.updateLink k f).Base l := by
  refine ⟨⟨base.alive, base.queue, base.second, base.sizes⟩, base.kept, base.slots, base.whole, base.holds,
    base.plain, base.past, base.ended, base.began, base.retrying, fun j => ?_, fun j late => ?_⟩
  · by_cases here : j = k
    · have same : (s.updateLink k f).links j = f (s.links k) := here ▸ Function.update_self ..
      rw [same]
      exact tidy
    · have other : (s.updateLink k f).links j = s.links j := Function.update_of_ne here _ _
      rw [other]
      exact base.links j
  · have here : j ≠ k := Nat.ne_of_gt (lt_of_lt_of_le made late)
    exact (Function.update_of_ne here (f (s.links k)) s.links).trans (base.fresh j late)

theorem Good.link (good : s.Good l) {f : Connection → Connection} (made : k < s.made)
    (tidy : Tidy (f (s.links k)))
    (need : ((f (s.links k)).up.map (·.need)).sum + (f (s.links k)).need + (f (s.links k)).down.sum =
      ((s.links k).up.map (·.need)).sum + (s.links k).need + (s.links k).down.sum)
    (balance : (f (s.links k)).gntd + ((s.links k).down.sum + ((s.links k).up.map (·.done)).sum) =
      (s.links k).gntd + ((f (s.links k)).down.sum + ((f (s.links k)).up.map (·.done)).sum)) :
    (s.updateLink k f).Good l := by
  refine ⟨good.toBase.link made tidy, fun j live => ?_⟩
  change Account ((s.updateLink k f).links j) s.cred s.need s.done (s.storedBytes l) (s.flying j) s.heldBytes
  by_cases here : j = k
  · subst here
    have same : (s.updateLink j f).links j = f (s.links j) := Function.update_self ..
    obtain ⟨account, needs, balanced, room⟩ := good.live j live
    rw [same]
    exact ⟨account, needs.trans need.symm, by omega, room⟩
  · have other : (s.updateLink k f).links j = s.links j := Function.update_of_ne here _ _
    rw [other]
    exact good.live j live

theorem Good.made_of_stage (good : s.Good l) (stage : (s.links k).stage ≠ .backlog) : k < s.made := by
  by_contra late
  exact stage (good.fresh k (Nat.not_lt.mp late) ▸ rfl)

theorem Good.rlbAcceptConn (good : s.Good l) (action : s.rlbAcceptConn k = some t) : t.Good l := by
  unfold State.rlbAcceptConn at action
  split at action
  · rename_i waits
    cases action
    obtain ⟨need, gntd⟩ := (good.links k).backlog waits.2
    refine good.link waits.1 ⟨?_, (good.links k).small, fun absent => nomatch absent⟩ ?_ ?_
    · exact gntd ▸ (good.links k).covered
    · simp only [need]
    · simp only [gntd]
  · cases action

theorem foldlM_receiveReq (buf : List ValveReq) (c : Connection)
    (need : c.need + (buf.map (·.need)).sum ≤ tdRlbRequestMax) (done : (buf.map (·.done)).sum ≤ c.gntd) :
    buf.foldlM Connection.receiveReq c =
      some { c with need := c.need + (buf.map (·.need)).sum, gntd := c.gntd - (buf.map (·.done)).sum } := by
  induction buf generalizing c with
  | nil => rfl
  | cons req buf ih =>
      simp only [List.map_cons, List.sum_cons] at need done
      have first : c.receiveReq req = some { c with need := c.need + req.need, gntd := c.gntd - req.done } := by
        rw [Connection.receiveReq, if_neg (by omega), if_neg (by omega), if_neg (by omega)]
      simp only [List.foldlM_cons, first, Option.bind_eq_bind, Option.bind_some]
      rw [ih _ (by simp only; omega) (by simp only; omega)]
      simp only [List.map_cons, List.sum_cons, Nat.add_assoc, Nat.sub_sub]

theorem sum_take_add_drop {α : Type} (n : Nat) (buf : List α) (f : α → Nat) :
    ((buf.take n).map f).sum + ((buf.drop n).map f).sum = (buf.map f).sum := by
  rw [← List.sum_append, ← List.map_append, List.take_append_drop]

theorem Good.rlbConnReceive {n : Nat} (good : s.Good l) (meets : s.Meets (.receive k n))
    (action : s.rlbConnReceive k n = some t) : t.Good l := by
  unfold State.rlbConnReceive at action
  split at action
  · rename_i ready
    have done := sum_take_add_drop n (s.links k).up (·.done)
    have need := sum_take_add_drop n (s.links k).up (·.need)
    have covered := (good.links k).covered
    have taken := foldlM_receiveReq ((s.links k).up.take n) { s.links k with up := (s.links k).up.drop n } meets
      (by simp only; omega)
    simp only [Connection.receive, taken, Option.map_some] at action
    cases action
    have made := good.made_of_stage (k := k) (by simp [ready.1])
    refine good.link (f := fun _ => _) made ⟨?_, (good.links k).small, ?_⟩ ?_ ?_
    · simp only
      omega
    · intro backlog
      exact absurd (ready.1.symm.trans backlog) (by decide)
    · simp only
      omega
    · simp only
      omega
  · cases action

theorem Good.rlbConnClose (good : s.Good l) (stage : (s.links k).stage ≠ .backlog) (waiting : (s.links k).waiting) :
    (s.rlbConnClose k).Good l := by
  rw [State.rlbConnClose, if_pos waiting]
  exact good.link (good.made_of_stage stage)
    ⟨(good.links k).covered, (good.links k).small, fun absent => nomatch absent⟩ rfl rfl

theorem Good.rlbConnLost (good : s.Good l) (meets : s.Meets (.lost k)) (action : s.rlbConnLost k = some t) :
    t.Good l := by
  unfold State.rlbConnLost at action
  split at action
  · rename_i left
    cases action
    exact good.rlbConnClose (by simp [left.1]) meets
  · cases action

theorem Good.rlbConnRespond {need : Nat} (good : s.Good l) (waits : s.Waits k) (owed : need ≤ (s.links k).need)
    (small : need < tdRlbRequestMax) : (s.rlbConnRespond k need sent).Good l := by
  have stage : (s.links k).stage ≠ .backlog := by simp [waits.1]
  unfold State.rlbConnRespond
  split
  · refine good.link (good.made_of_stage stage) ⟨?_, ?_, ?_⟩ ?_ ?_
    · exact le_trans (good.links k).covered (Nat.le_add_right _ _)
    · intro grant member
      rcases List.mem_append.mp member with old | new
      · exact (good.links k).small grant old
      · exact List.mem_singleton.mp new ▸ small
    · exact fun backlog => absurd backlog stage
    · simp only [Connection.respond, List.sum_append, List.sum_singleton]
      omega
    · simp only [Connection.respond, List.sum_append, List.sum_singleton]
      omega
  · exact good.rlbConnClose stage waits.2

theorem Good.dispatchLow {cred : Nat} (good : s.Good l) (meets : s.Meets (.dispatchLow k cred sent))
    (action : s.dispatchLow k cred sent = some t) : t.Good l := by
  unfold State.dispatchLow at action
  split at action
  · rename_i ready
    cases action
    exact good.rlbConnRespond ready.1 (min_le_right _ _) meets
  · cases action

theorem Good.dispatchToken (good : s.Good l) (meets : s.Meets (.dispatchToken k sent))
    (action : s.dispatchToken k sent = some t) : t.Good l := by
  unfold State.dispatchToken at action
  split at action
  · rename_i ready
    cases action
    exact good.rlbConnRespond ready le_rfl meets
  · cases action

theorem Base.storedBytes_le (base : s.Base l) : s.storedBytes l ≤ l.length * tdRlbRequestMax := by
  have bound := List.sum_le_card_nsmul (l.map fun req => bytes (s.reqv req).treq) tdRlbRequestMax fun size member => by
    obtain ⟨req, stored, rfl⟩ := List.mem_map.mp member
    exact base.sizes req stored
  simpa [State.storedBytes] using bound

theorem heldBytes_le (below : List Forwarded) (small : ∀ w ∈ below, w.req ≠ none → bytes w.secs ≤ tdRlbRequestMax) :
    (below.map fun w => if w.req ≠ none then bytes w.secs else 0).sum ≤
      (below.filterMap (·.req)).length * tdRlbRequestMax := by
  induction below with
  | nil => rfl
  | cons w below ih =>
      have rest := ih fun v member => small v (List.mem_cons_of_mem _ member)
      have first := small w List.mem_cons_self
      cases held : w.req with
      | none => simpa [held] using rest
      | some req =>
          have size := first (by simp [held])
          simp only [List.map_cons, List.sum_cons, held, List.filterMap_cons, List.length_cons, Nat.succ_mul]
          rw [if_pos (by simp)]
          omega

theorem Base.room (base : s.Base l) : s.storedBytes l + s.heldBytes ≤ maxRequests * tdRlbRequestMax := by
  have stored := base.storedBytes_le
  have held : s.heldBytes ≤ s.used.length * tdRlbRequestMax := heldBytes_le s.below fun w member taken => by
    obtain ⟨req, same⟩ := Option.ne_none_iff_exists'.mp taken
    exact (base.holds w member req same).2
  have nodup := (List.nodup_append.mp base.slots).1
  have slots : (l ++ s.used).length ≤ maxRequests := le_of_le_of_eq nodup.length_le_card (Fintype.card_fin _)
  rw [List.length_append] at slots
  calc s.storedBytes l + s.heldBytes ≤ (l.length + s.used.length) * tdRlbRequestMax := by
        rw [Nat.add_mul]
        exact Nat.add_le_add stored held
    _ ≤ maxRequests * tdRlbRequestMax := Nat.mul_le_mul_right _ slots

theorem Lined.eq_nil (lined : s.Lined l) (empty : s.queues.first .stor = none) : l = [] := by
  rw [lined.queue.first] at empty
  exact List.head?_eq_none_iff.mp empty

theorem Base.sockClose (base : s.Base []) : s.sockClose.Base [] ∧ s.sockClose.sock = none := by
  unfold State.sockClose
  split
  · exact ⟨base, ‹_›⟩
  · rename_i k live
    have tidy := base.links k
    have left := base.link (f := fun c => { c with closed := true }) (base.began k live)
      ⟨tidy.covered, tidy.small, tidy.backlog⟩
    exact ⟨⟨⟨left.alive, left.queue, left.second, left.sizes⟩, left.kept, left.slots, left.whole, left.holds,
      left.plain, left.past, fun _ => rfl, fun _ absent => (nomatch absent), fun _ => rfl, left.links, left.fresh⟩, rfl⟩

theorem Base.connOpen (base : s.Base []) (ended : s.sock = none) : (s.connOpen reached).Good [] := by
  unfold State.connOpen
  split
  · refine ⟨⟨⟨base.alive, base.queue, base.second, base.sizes⟩, base.kept, base.slots, base.whole, base.holds,
      base.plain, ?_, fun absent => (nomatch absent), ?_, fun absent => (nomatch absent), fun j => ?_, fun j late => ?_⟩, fun k live => ?_⟩
    · exact fun w member k paid => Nat.lt_succ_of_lt (base.past w member k paid)
    · rintro k live
      cases live
      exact Nat.lt_succ_self _
    · by_cases here : j = s.made
      · have same : Function.update s.links s.made Connection.fresh j = .fresh := here ▸ Function.update_self ..
        change Tidy (Function.update s.links s.made Connection.fresh j)
        rw [same]
        exact ⟨le_rfl, fun grant absent => (nomatch absent), fun _ => ⟨rfl, rfl⟩⟩
      · have other : Function.update s.links s.made Connection.fresh j = s.links j := Function.update_of_ne here _ _
        change Tidy (Function.update s.links s.made Connection.fresh j)
        rw [other]
        exact base.links j
    · have here : j ≠ s.made := Nat.ne_of_gt late
      exact (Function.update_of_ne here Connection.fresh s.links).trans (base.fresh j (Nat.le_of_succ_le late))
    · cases live
      have same : Function.update s.links s.made Connection.fresh s.made = .fresh := Function.update_self ..
      have flying : s.flying s.made = 0 := by
        apply List.sum_eq_zero
        intro size member
        obtain ⟨w, below, rfl⟩ := List.mem_map.mp member
        exact if_neg fun paid => lt_irrefl _ (base.past w below s.made paid)
      have room := base.room
      change Account (Function.update s.links s.made Connection.fresh s.made) 0 0 0 (s.storedBytes [])
        (s.flying s.made) s.heldBytes
      rw [same, flying]
      exact ⟨rfl, rfl, rfl, by omega⟩
  · refine ⟨⟨⟨base.alive, base.queue, base.second, base.sizes⟩, base.kept, base.slots, base.whole, base.holds,
      base.plain, base.past, base.ended, base.began, fun _ => ended, base.links, base.fresh⟩, fun k live => ?_⟩
    cases ended.symm.trans live

theorem Base.connReset (base : s.Base []) (reached : Bool) : ∃ t, s.connReset reached = some t ∧ t.Good [] := by
  obtain ⟨left, ended⟩ := base.sockClose (s := s)
  have closed : s.connClose = some s.sockClose := by
    rw [State.connClose, left.stored]
    rfl
  exact ⟨_, congrArg (Option.map _) closed, left.connOpen ended⟩

theorem Good.connReceive {n : Nat} (good : s.Good l) (reached : Bool) (live : k ∈ s.sock) (ready : n ≤ (s.links k).down.length) :
    ∃ t, s.connReceive k ((s.links k).down.take n) reached = some t ∧ t.Good l := by
  obtain ⟨covers, asked, balance, room⟩ := good.live k live
  have small : ((s.links k).down.take n).any (tdRlbRequestMax ≤ ·) = false := by
    rw [List.any_eq_false]
    intro grant member large
    have less := (good.links k).small grant (List.mem_of_mem_take member)
    exact absurd (of_decide_eq_true large) (Nat.not_le.mpr less)
  have taken := List.sum_take_add_sum_drop (s.links k).down n
  have owed : ¬ s.need < ((s.links k).down.take n).sum := by omega
  have length : ((s.links k).down.take n).length = n := List.length_take_of_le ready
  refine ⟨(s.updateLink k fun c => { c with down := c.down.drop n }).granted ((s.links k).down.take n).sum, ?_, ?_⟩
  · simp only [State.connReceive, small, if_neg owed, length]
    rfl
  · have base := good.toBase.link (f := fun c => { c with down := c.down.drop n }) (good.began k live)
      ⟨(good.links k).covered, fun grant member => (good.links k).small grant (List.mem_of_mem_drop member),
        (good.links k).backlog⟩
    refine ⟨⟨⟨base.alive, base.queue, base.second, base.sizes⟩, base.kept, base.slots, base.whole, base.holds,
      base.plain, base.past, base.ended, base.began, base.retrying, base.links, base.fresh⟩, fun j member => ?_⟩
    cases Option.mem_unique live member
    change Account ((s.updateLink k fun c => { c with down := c.down.drop n }).links k)
      (unsigned (s.cred + ((s.links k).down.take n).sum)) (s.need - ((s.links k).down.take n).sum) s.done
      (s.storedBytes l) (s.flying k) s.heldBytes
    have same : (s.updateLink k fun c => { c with down := c.down.drop n }).links k =
        { s.links k with down := (s.links k).down.drop n } := Function.update_self ..
    rw [same, unsigned_eq (by omega)]
    exact ⟨by omega, by simp only; omega, by simp only; omega, room⟩

theorem Good.sockEvent {n : Nat} (good : s.Good l) (action : s.sockEvent n reached = some t) :
    ∃ rest, t.Good rest := by
  obtain ⟨k, live, action⟩ := Option.bind_eq_some_iff.mp action
  split at action
  · rename_i ready
    obtain ⟨mid, received, next⟩ := good.connReceive reached live ready.2.2
    rw [received] at action
    obtain ⟨final, rest, forwarded, kept⟩ := next.forwardStoredRequests
    cases forwarded.symm.trans action
    exact ⟨rest, kept⟩
  · cases action

theorem Good.sockLost (good : s.Good l) (meets : s.Meets (.sockLost reached))
    (action : s.sockLost reached = some t) : ∃ rest, t.Good rest := by
  cases good.eq_nil meets
  unfold State.sockLost at action
  split at action
  · cases action
  · obtain ⟨mid, reset, next⟩ := good.connReset reached
    rw [reset] at action
    obtain ⟨final, rest, forwarded, kept⟩ := next.forwardStoredRequests
    cases forwarded.symm.trans action
    exact ⟨rest, kept⟩

theorem Good.report (good : s.Good l) (live : k ∈ s.sock) :
    ({ s with need := unsigned (s.need + 0), done := 0 }.updateLink k fun c =>
      { c with up := c.up ++ [ValveReq.mk 0 s.done] }).Good l := by
  obtain ⟨covers, asked, balance, room⟩ := good.live k live
  have base := good.toBase.link (f := fun c => { c with up := c.up ++ [ValveReq.mk 0 s.done] }) (good.began k live)
    ⟨by simp only [List.map_append, List.sum_append, List.map_cons, List.map_nil, List.sum_singleton]; omega,
      (good.links k).small, (good.links k).backlog⟩
  refine ⟨⟨⟨base.alive, base.queue, base.second, base.sizes⟩, base.kept, base.slots, base.whole, base.holds,
    base.plain, base.past, base.ended, base.began, base.retrying, base.links, base.fresh⟩, fun j member => ?_⟩
  cases Option.mem_unique live member
  change Account ((s.updateLink k fun c => { c with up := c.up ++ [ValveReq.mk 0 s.done] }).links k) s.cred
    (unsigned (s.need + 0)) 0 (s.storedBytes l) (s.flying k) s.heldBytes
  have same : (s.updateLink k fun c => { c with up := c.up ++ [ValveReq.mk 0 s.done] }).links k =
      { s.links k with up := (s.links k).up ++ [ValveReq.mk 0 s.done] } := Function.update_self ..
  rw [same, unsigned_eq (by omega)]
  refine ⟨covers, ?_, ?_, by omega⟩
  · simp only [List.map_append, List.sum_append, List.map_cons, List.map_nil, List.sum_singleton]
    omega
  · simp only [List.map_append, List.sum_append, List.map_cons, List.map_nil, List.sum_singleton]
    omega

theorem Good.schedEvent (good : s.Good l) (meets : s.Meets (.sched sent reached))
    (action : s.schedEvent sent reached = some t) : ∃ rest, t.Good rest := by
  obtain ⟨k, live, action⟩ := Option.bind_eq_some_iff.mp action
  split at action
  · unfold State.connRequest at action
    split at action
    · cases action
      exact ⟨l, good.report live⟩
    · rename_i pending failed
      have empty := (meets pending).resolve_left fun sends => failed ⟨sends.1, sends.2 k live⟩
      cases good.eq_nil empty
      have base : State.Base { s with need := unsigned (s.need + 0), done := 0 } [] :=
        ⟨⟨good.alive, good.queue, good.second, good.sizes⟩, good.kept, good.slots, good.whole, good.holds, good.plain,
          good.past, good.ended, good.began, good.retrying, good.links, good.fresh⟩
      obtain ⟨final, reset, kept⟩ := base.connReset reached
      cases reset.symm.trans action
      exact ⟨[], kept⟩
  · cases action
    exact ⟨l, good⟩

theorem Good.retryTimeout (good : s.Good l) (action : s.retryTimeout reached = some t) : t.Good [] := by
  unfold State.retryTimeout at action
  split at action
  · rename_i retry
    cases action
    have ended := good.retrying retry
    cases good.ended ended
    exact good.connOpen ended
  · cases action

theorem split_of_getElem? {α : Type} {below : List α} {i : Nat} {w : α} (here : below[i]? = some w) :
    ∃ a b, below = a ++ w :: b ∧ below.eraseIdx i = a ++ b ∧ ∀ v, below.set i v = a ++ v :: b := by
  induction below generalizing i with
  | nil => cases here
  | cons v below ih =>
      cases i with
      | zero =>
          cases here
          exact ⟨[], below, rfl, rfl, fun _ => rfl⟩
      | succ i =>
          obtain ⟨a, b, whole, erased, changed⟩ := ih here
          exact ⟨v :: a, b, congrArg _ whole, congrArg _ erased, fun u => congrArg _ (changed u)⟩

theorem sum_rest (w : Forwarded) (part : secs ≤ w.secs) (a b : List Forwarded) (counts : Forwarded → Prop)
    [DecidablePred counts] (same : ∀ n, counts { w with secs := n } ↔ counts w) :
    ((a ++ w.rest secs ++ b).map fun v => if counts v then bytes v.secs else 0).sum +
      (if counts w then bytes secs else 0) =
    ((a ++ w :: b).map fun v => if counts v then bytes v.secs else 0).sum := by
  have left : ((w.rest secs).map fun v => if counts v then bytes v.secs else 0).sum +
      (if counts w then bytes secs else 0) = if counts w then bytes w.secs else 0 := by
    unfold Forwarded.rest
    split
    · simp [*]
    · by_cases counted : counts w
      · simp only [List.map_cons, List.map_nil, List.sum_singleton, same, if_pos counted, bytes]
        omega
      · simp [same, counted]
  simp only [List.map_append, List.sum_append, List.map_cons, List.sum_cons]
  omega

theorem mem_rest {w v : Forwarded} (member : v ∈ w.rest secs) : v = { w with secs := w.secs - secs } := by
  unfold Forwarded.rest at member
  split at member
  · cases member
  · exact List.mem_singleton.mp member

theorem Good.completePlain {w : Forwarded} {a b : List Forwarded} (good : s.Good l) (whole : s.below = a ++ w :: b)
    (plain : w.req = none) (part : 0 < secs ∧ secs ≤ w.secs) :
    State.Good { s with below := a ++ w.rest secs ++ b } l := by
  have member : w ∈ s.below := whole ▸ List.mem_append_right a List.mem_cons_self
  have paid : w.paid = none := (good.plain w member plain).resolve_right (by omega)
  have old : ∀ v ∈ a ++ w.rest secs ++ b, v ∈ s.below ∨ v.req = none ∧ v.paid = none := by
    intro v found
    rw [whole]
    rcases List.mem_append.mp found with found | found
    · rcases List.mem_append.mp found with found | found
      · exact .inl (List.mem_append_left _ found)
      · exact .inr (mem_rest found ▸ ⟨plain, paid⟩)
    · exact .inl (List.mem_append_right _ (List.mem_cons_of_mem _ found))
  have used : (a ++ w.rest secs ++ b).filterMap (·.req) = s.used := by
    have none : (w.rest secs).filterMap (·.req) = [] := by
      apply List.filterMap_eq_nil_iff.mpr
      exact fun v found => mem_rest found ▸ plain
    simp only [State.used, whole, List.filterMap_append, List.filterMap_cons, plain, none, List.append_nil]
  have held := sum_rest w part.2 a b (fun v => v.req ≠ none) (fun _ => Iff.rfl)
  have flying := fun k => sum_rest w part.2 a b (fun v => v.paid = some k) (fun _ => Iff.rfl)
  simp only [plain, paid, ne_eq, not_true, reduceCtorEq, if_false, Nat.add_zero, ← whole] at held flying
  refine ⟨⟨⟨good.alive, good.queue, good.second, good.sizes⟩, good.kept, ?_, good.whole, ?_, ?_, ?_, good.ended,
    good.began, good.retrying, good.links, good.fresh⟩, fun k live => ?_⟩
  · change (l ++ (a ++ w.rest secs ++ b).filterMap (·.req) ++ s.free).Nodup
    exact used ▸ good.slots
  · intro v found req taken
    rcases old v found with found | ⟨absent, -⟩
    · exact good.holds v found req taken
    · cases absent.symm.trans taken
  · intro v found free
    exact (old v found).elim (fun found => good.plain v found free) fun absent => .inl absent.2
  · intro v found k paid
    rcases old v found with found | ⟨-, absent⟩
    · exact good.past v found k paid
    · cases absent.symm.trans paid
  · change Account (s.links k) s.cred s.need s.done (s.storedBytes l)
      ((a ++ w.rest secs ++ b).map fun v => if v.paid = some k then bytes v.secs else 0).sum
      ((a ++ w.rest secs ++ b).map fun v => if v.req ≠ none then bytes v.secs else 0).sum
    rw [flying k]
    have same := good.live k live
    rwa [State.heldBytes, ← held] at same

def completed (s : State) (req : Slot) (secs : Nat) (below : List Forwarded) (free : List Slot) : State :=
  { s with
    below
    reqv := Function.update s.reqv req { s.reqv req with secs := (s.reqv req).secs - secs }
    done := unsigned (s.done + treqSize secs)
    free }

theorem Good.completed {w : Forwarded} {a b : List Forwarded} (good : s.Good l) (free : List Slot)
    (whole : s.below = a ++ w :: b) (taken : w.req = some req) (part : 0 < secs ∧ secs ≤ w.secs)
    (paid : ∀ k ∈ s.sock, w.paid = some k)
    (slots : (l ++ (a ++ w.rest secs ++ b).filterMap (·.req) ++ free).Nodup) :
    (s.completed req secs (a ++ w.rest secs ++ b) free).Good l := by
  have member : w ∈ s.below := whole ▸ List.mem_append_right a List.mem_cons_self
  obtain ⟨secsEq, size⟩ := good.holds w member req taken
  have before : (l ++ (a.filterMap (·.req) ++ req :: b.filterMap (·.req)) ++ s.free).Nodup := by
    have nodup := good.slots
    simpa only [State.used, whole, List.filterMap_append, List.filterMap_cons, taken] using nodup
  have alone := List.nodup_append.mp (List.nodup_append.mp before).1
  have others : ∀ v ∈ a ++ b, ∀ other ∈ v.req, other ≠ req := by
    rintro v found other held rfl
    have apart := (List.nodup_middle.mp alone.2.1)
    have back : other ∈ a.filterMap (·.req) ++ b.filterMap (·.req) := by
      rw [← List.filterMap_append]
      exact List.mem_filterMap.mpr ⟨v, found, held⟩
    exact (List.nodup_cons.mp apart).1 back
  have stored : ∀ other ∈ l, other ≠ req := fun other found =>
    alone.2.2 other found req (List.mem_append_right _ List.mem_cons_self)
  have treq : ∀ other, ((s.completed req secs (a ++ w.rest secs ++ b) free).reqv other).treq = (s.reqv other).treq := by
    intro other
    by_cases here : other = req
    · have same : (s.completed req secs (a ++ w.rest secs ++ b) free).reqv req =
          { s.reqv req with secs := (s.reqv req).secs - secs } := Function.update_self ..
      rw [here, same]
    · exact congrArg ValveRequest.treq (Function.update_of_ne here _ _)
  have old : ∀ v ∈ a ++ w.rest secs ++ b, v ∈ a ++ b ∧ v ∈ s.below ∨ v = { w with secs := w.secs - secs } := by
    intro v found
    rw [whole]
    rcases List.mem_append.mp found with found | found
    · rcases List.mem_append.mp found with found | found
      · exact .inl ⟨List.mem_append_left _ found, List.mem_append_left _ found⟩
      · exact .inr (mem_rest found)
    · exact .inl ⟨List.mem_append_right _ found, List.mem_append_right _ (List.mem_cons_of_mem _ found)⟩
  refine ⟨⟨⟨good.alive, good.queue, good.second, fun other found => ?_⟩, good.kept, slots, ?_, ?_, ?_, ?_, good.ended,
    good.began, good.retrying, good.links, good.fresh⟩, fun k live => ?_⟩
  · rw [treq]
    exact good.sizes other found
  · intro other found
    have same : (s.completed req secs (a ++ w.rest secs ++ b) free).reqv other = s.reqv other :=
      Function.update_of_ne (stored other found) _ _
    rw [same]
    exact good.whole other found
  · intro v found other held
    rcases old v found with ⟨apart, found⟩ | rfl
    · have same : (s.completed req secs (a ++ w.rest secs ++ b) free).reqv other = s.reqv other :=
        Function.update_of_ne (others v apart other held) _ _
      rw [same]
      exact good.holds v found other held
    · cases Option.mem_unique taken held
      have same : (s.completed req secs (a ++ w.rest secs ++ b) free).reqv req =
          { s.reqv req with secs := (s.reqv req).secs - secs } := Function.update_self ..
      rw [same]
      exact ⟨congrArg (· - secs) secsEq, le_trans (Nat.mul_le_mul_right _ (Nat.sub_le _ _)) size⟩
  · intro v found none
    rcases old v found with ⟨-, found⟩ | rfl
    · exact good.plain v found none
    · cases taken.symm.trans none
  · intro v found k spent
    rcases old v found with ⟨-, found⟩ | rfl
    · exact good.past v found k spent
    · exact good.past w member k spent
  · obtain ⟨covers, asked, balance, room⟩ := good.live k live
    have held := sum_rest w part.2 a b (fun v => v.req ≠ none) (fun _ => Iff.rfl)
    have flying := sum_rest w part.2 a b (fun v => v.paid = some k) (fun _ => Iff.rfl)
    rw [← whole, if_pos (by simp [taken])] at held
    rw [← whole, if_pos (paid k live)] at flying
    have bound : bytes secs ≤ bytes w.secs := Nat.mul_le_mul_right _ part.2
    have storedEq : (s.completed req secs (a ++ w.rest secs ++ b) free).storedBytes l = s.storedBytes l := by
      simp only [State.storedBytes, treq]
    change Account (s.links k) s.cred s.need (unsigned (s.done + treqSize secs)) _
      ((a ++ w.rest secs ++ b).map fun v => if v.paid = some k then bytes v.secs else 0).sum
      ((a ++ w.rest secs ++ b).map fun v => if v.req ≠ none then bytes v.secs else 0).sum
    change _ = s.heldBytes at held
    change _ = s.flying k at flying
    rw [storedEq, treqSize_eq (le_trans bound size), unsigned_eq (by omega)]
    exact ⟨covers, asked, by omega, by omega⟩

theorem Good.completeBelow {i : Nat} (good : s.Good l) (meets : s.Meets (.complete i secs))
    (action : s.completeBelow i secs = some t) : t.Good l := by
  obtain ⟨w, here, action⟩ := Option.bind_eq_some_iff.mp action
  split at action
  · rename_i part
    obtain ⟨a, b, whole, erased, changed⟩ := split_of_getElem? here
    have left : (if secs = w.secs then s.below.eraseIdx i else s.below.set i { w with secs := w.secs - secs }) =
        a ++ w.rest secs ++ b := by
      unfold Forwarded.rest
      split
      · rw [erased, List.append_nil]
      · rw [changed, List.append_assoc]
        rfl
    simp only [left] at action
    cases taken : w.req with
    | none =>
        rw [taken] at action
        cases action
        exact good.completePlain whole taken part
    | some req =>
        have member : w ∈ s.below := whole ▸ List.mem_append_right a List.mem_cons_self
        obtain ⟨same, -⟩ := good.holds w member req taken
        have slots := good.slots
        simp only [State.used, whole, List.filterMap_append, List.filterMap_cons, taken] at slots
        have paid : ∀ k ∈ s.sock, w.paid = some k := meets w here (by simp [taken])
        simp only [taken, State.completeTreq, same, if_neg (Nat.not_lt.mpr part.2)] at action
        split at action
        · rename_i done
          have all : secs = w.secs := by omega
          unfold State.freeRequest at action
          split at action
          · cases action
          · cases action
            have next := good.completed (req :: s.free) whole taken part paid (by
              rw [Forwarded.rest, if_pos all, List.append_nil, List.filterMap_append]
              refine (List.Perm.nodup_iff ?_).mp slots
              simp only [List.append_assoc, List.cons_append]
              exact (List.perm_middle.symm.append_left _).append_left _)
            rw [State.completed, same] at next
            exact next
        · rename_i more
          cases action
          have next := good.completed s.free whole taken part paid (by
            rw [Forwarded.rest, if_neg (by omega)]
            simpa only [List.filterMap_append, List.filterMap_cons, taken, List.append_assoc, List.filterMap_nil,
              List.cons_append, List.nil_append] using slots)
          rw [State.completed, same] at next
          exact next
  · cases action

theorem Good.forwardPlain {paid : Option Nat} (good : s.Good l) (free : paid = none ∨ secs = 0)
    (began : ∀ k ∈ paid, k < s.made) : (s.forward secs none paid).Good l := by
  refine ⟨⟨⟨good.alive, good.queue, good.second, good.sizes⟩, good.kept, good.slots, good.whole, ?_, ?_, ?_, good.ended,
    good.began, good.retrying, good.links, good.fresh⟩, fun k live => ?_⟩
  · intro w member req taken
    rcases List.mem_cons.mp member with rfl | member
    · cases taken
    · exact good.holds w member req taken
  · intro w member none
    rcases List.mem_cons.mp member with rfl | member
    · exact free
    · exact good.plain w member none
  · intro w member k spent
    rcases List.mem_cons.mp member with rfl | member
    · exact began k spent
    · exact good.past w member k spent
  · have held : (s.forward secs none paid).heldBytes = s.heldBytes := Nat.zero_add _
    have flying : (s.forward secs none paid).flying k = s.flying k := by
      have cost : (if paid = some k then bytes secs else 0) = 0 := by
        rcases free with rfl | rfl
        · rfl
        · simp [bytes]
      have sum : (s.forward secs none paid).flying k = (if paid = some k then bytes secs else 0) + s.flying k := rfl
      rw [sum, cost, Nat.zero_add]
    have same := good.live k live
    rwa [← held, ← flying] at same

def stores (s : State) (k : Nat) (req : Slot) (free : List Slot) (secs : Nat) : State :=
  ({ s with free, need := unsigned (s.need + treqSize secs), done := 0 }.updateLink k fun c =>
    { c with up := c.up ++ [ValveReq.mk (treqSize secs) s.done] }).insertStored req secs

theorem Good.stores {free : List Slot} (good : s.Good l) (live : k ∈ s.sock) (slot : s.free = req :: free)
    (small : bytes secs ≤ tdRlbRequestMax)
    (apart : s.queues.first .forw = some req → ∀ first ∈ s.queues.first .stor, s.queues.next first ≠ none) :
    (s.stores k req free secs).Good (l ++ [req]) := by
  have slots := good.slots
  rw [slot] at slots
  have moved : (l ++ [req] ++ s.used ++ free).Nodup := by
    refine (List.Perm.nodup_iff ?_).mp slots
    simp only [List.append_assoc, List.cons_append, List.nil_append]
    exact List.perm_middle.append_left _
  have taken : req ∉ l ∧ req ∉ s.used := by
    have alone := (List.nodup_append.mp slots).2.2
    exact ⟨fun member => alone req (List.mem_append_left _ member) req List.mem_cons_self rfl,
      fun member => alone req (List.mem_append_right _ member) req List.mem_cons_self rfl⟩
  have reqv : ∀ other, other ≠ req → (s.stores k req free secs).reqv other = s.reqv other :=
    fun other away => Function.update_of_ne away _ _
  have own : (s.stores k req free secs).reqv req = ⟨secs, secs⟩ := Function.update_self ..
  have others : ∀ other ∈ l, other ≠ req := fun other member same => taken.1 (same ▸ member)
  obtain ⟨covers, asked, balance, room⟩ := good.live k live
  have tidy : Tidy { s.links k with up := (s.links k).up ++ [ValveReq.mk (treqSize secs) s.done] } := by
    refine ⟨?_, (good.links k).small, (good.links k).backlog⟩
    simp only [List.map_append, List.sum_append, List.map_cons, List.map_nil, List.sum_singleton]
    omega
  have base := good.toBase.link (f := fun c => { c with up := c.up ++ [ValveReq.mk (treqSize secs) s.done] })
    (good.began k live) tidy
  have next : (s.stores k req free secs).Base (l ++ [req]) := by
    refine ⟨⟨good.alive, good.queue.insertTail taken.1, ?_, ?_⟩, good.kept, moved, ?_, ?_, good.plain, good.past, ?_,
      good.began, good.retrying, base.links, base.fresh⟩
    · intro forwarded head second
      have first : s.queues.first .forw = some forwarded := (good.queue.first_insertTail (by decide)).symm.trans head
      match l, good, second with
      | [], _, second => cases second
      | [only], good, second =>
          cases second
          exact apart first only good.queue.first good.queue.next
      | one :: two :: l, good, second => exact good.second forwarded first second
    · intro other member
      rcases List.mem_append.mp member with member | new
      · exact reqv other (others other member) ▸ good.sizes other member
      · rw [List.mem_singleton.mp new, own]
        exact small
    · intro other member
      rcases List.mem_append.mp member with member | new
      · exact reqv other (others other member) ▸ good.whole other member
      · rw [List.mem_singleton.mp new, own]
    · intro w member other held
      have away : other ≠ req := fun same => taken.2 (same ▸ List.mem_filterMap.mpr ⟨w, member, held⟩)
      rw [reqv other away]
      exact good.holds w member other held
    · intro absent
      cases absent.symm.trans live
  refine ⟨next, fun j member => ?_⟩
  cases Option.mem_unique live member
  have stored : (s.stores k req free secs).storedBytes (l ++ [req]) = s.storedBytes l + bytes secs := by
    have old : (l.map fun other => bytes ((s.stores k req free secs).reqv other).treq) =
        l.map fun other => bytes (s.reqv other).treq :=
      List.map_congr_left fun other member => by rw [reqv other (others other member)]
    simp only [State.storedBytes, List.map_append, List.sum_append, old, List.map_cons, List.map_nil,
      List.sum_singleton, own]
  have full := next.room
  have same : (s.stores k req free secs).links k =
      { s.links k with up := (s.links k).up ++ [ValveReq.mk (treqSize secs) s.done] } := Function.update_self ..
  have size := treqSize_eq small
  change Account ((s.stores k req free secs).links k) s.cred (unsigned (s.need + treqSize secs)) 0
    ((s.stores k req free secs).storedBytes (l ++ [req])) (s.flying k) s.heldBytes
  change _ + s.heldBytes ≤ _ at full
  rw [stored] at full ⊢
  rw [same, size, unsigned_eq (by omega)]
  refine ⟨by omega, ?_, ?_, by omega⟩
  · simp only [List.map_append, List.sum_append, List.map_cons, List.map_nil, List.sum_singleton]
    omega
  · simp only [List.map_append, List.sum_append, List.map_cons, List.map_nil, List.sum_singleton]
    omega

theorem Good.queueWrite (good : s.Good l) (meets : s.Meets (.queueWrite secs sent reached))
    (action : s.queueWrite secs sent reached = some t) : ∃ rest, t.Good rest := by
  unfold State.queueWrite at action
  cases socket : s.sock with
  | none =>
      have spent : s.expendRequest secs = some s := by
        rw [State.expendRequest, good.alive, if_neg Bool.false_ne_true, if_pos socket]
      have payer : s.payer = none := by rw [State.payer, good.alive, if_neg Bool.false_ne_true, socket]
      simp only [spent, payer] at action
      cases action
      exact ⟨l, good.forwardPlain (.inl rfl) fun k absent => nomatch absent⟩
  | some k =>
      have live : k ∈ s.sock := socket
      have spent := good.expendRequest secs live
      rcases Nat.eq_zero_or_pos secs with rfl | sectors
      · have payer : s.payer = some k := by rw [State.payer, good.alive, if_neg Bool.false_ne_true, socket]
        have nothing : treqSize 0 = 0 := rfl
        rw [nothing, if_neg (Nat.not_lt_zero _)] at spent
        simp only [spent, payer] at action
        cases action
        exact ⟨l, good.forwardPlain (.inr rfl) fun j same => good.began j (socket.trans same)⟩
      · obtain ⟨short, storable⟩ := meets (by simp [socket]) sectors
        rw [if_pos short] at spent
        rw [spent, socket] at action
        change s.storeRequest k secs sent reached = some t at action
        unfold State.storeRequest at action
        cases slot : s.free with
        | nil =>
            rw [slot] at action
            cases action
            exact ⟨l, good⟩
        | cons req free =>
            obtain ⟨small, sends, apart⟩ := storable (by simp [slot])
            rw [slot] at action
            simp only [State.connRequest, if_pos (And.intro sends.1 (sends.2 k live))] at action
            cases action
            exact ⟨l ++ [req], good.stores live slot small fun head => apart (head.trans (slot ▸ rfl))⟩

theorem Good.step {event : Event} (good : s.Good l) (meets : s.Meets event) (action : step s event = some t) :
    ∃ rest, t.Good rest := by
  cases event with
  | queueWrite secs sent reached => exact good.queueWrite meets action
  | queueRead secs =>
      cases action
      exact ⟨l, good.forwardPlain (.inl rfl) fun k absent => nomatch absent⟩
  | sock n reached => exact good.sockEvent action
  | sockLost reached => exact good.sockLost meets action
  | sched sent reached => exact good.schedEvent meets action
  | retry reached => exact ⟨[], good.retryTimeout action⟩
  | complete i secs => exact ⟨l, good.completeBelow meets action⟩
  | accept k => exact ⟨l, good.rlbAcceptConn action⟩
  | receive k n => exact ⟨l, good.rlbConnReceive meets action⟩
  | lost k => exact ⟨l, good.rlbConnLost meets action⟩
  | dispatchLow k cred sent => exact ⟨l, good.dispatchLow meets action⟩
  | dispatchToken k sent => exact ⟨l, good.dispatchToken meets action⟩

theorem base_init : init.Base [] where
  alive := rfl
  queue := TailQueues.fifo_init
  second := fun _ absent => nomatch absent
  sizes := fun _ absent => nomatch absent
  kept := rfl
  slots := List.nodup_finRange _
  whole := fun _ absent => nomatch absent
  holds := fun _ absent => nomatch absent
  plain := fun _ absent => nomatch absent
  past := fun _ absent => nomatch absent
  ended := fun _ => rfl
  began := fun _ absent => nomatch absent
  retrying := fun _ => rfl
  links := fun _ => ⟨le_rfl, fun _ absent => (nomatch absent), fun _ => ⟨rfl, rfl⟩⟩
  fresh := fun _ _ => rfl

theorem good_opened : (opened reached).Good [] := base_init.connOpen rfl

/-- Whatever the order of the events, the protocol works in every state that is reached by steps that meet the
condition. -/
theorem credit_sound (run : Run step Meets (opened reached) s) : s.Sound := by
  obtain ⟨l, good⟩ := run.invariant (I := fun s => ∃ l, s.Good l)
    (fun _ _ _ ⟨_, good⟩ meets action => good.step meets action) ⟨[], good_opened⟩
  exact good.sound

theorem sound_credit : ∃ s, s.Sound ∧ Run step Meets (opened true) s ∧
    s.sock = some 1 ∧ s.stored.map (·.map (·.val)) = some [1] := by
  obtain ⟨s, action, result⟩ := Option.map_eq_some_iff.mp (by decide +kernel :
    (runEvents (guarded step Meets) (opened true)
      [.accept 0, .queueWrite 8 true true, .queueRead 3, .receive 0 1, .dispatchLow 0 2048 true, .sock 1 true,
        .dispatchToken 0 true, .sock 1 true, .complete 0 5, .complete 0 3, .queueWrite 9 true true, .receive 0 1,
        .dispatchToken 0 true, .sock 1 true, .sockLost false, .retry true, .accept 1, .queueWrite 4 true true]).map
      (fun s => (s.sock, s.stored.map (·.map (·.val)))) = some (some 1, some [1]))
  have run := (trace_of_guarded _ action).run
  exact ⟨s, credit_sound run, run, congrArg Prod.fst result, congrArg Prod.snd result⟩

theorem reaches {α : Type} {v : α} (events : List Event) (f : State → α)
    (ends : (runEvents step (opened true) events).map f = some v) :
    ∃ s, Run step (fun _ _ => True) (opened true) s ∧ f s = v := by
  obtain ⟨s, action, result⟩ := Option.map_eq_some_iff.mp ends
  exact ⟨s, run_of_runEvents events (fun _ _ => trivial) action, result⟩

/-- The protocol fails in four ways. -/
theorem credit_broken :
    (∃ s, Run step (fun _ _ => True) (opened true) s ∧ s.sock = some 0 ∧
      s.stored.map s.storedBytes = some 4096 ∧ s.cred + s.need = 2048 ∧ ¬ s.Sound) ∧
    (∃ s, Run step (fun _ _ => True) (opened true) s ∧ s.killed = true ∧ ¬ s.Sound) ∧
    (∃ s, Run step (fun _ _ => True) (opened true) s ∧ s.sock = some 0 ∧ s.below.map (·.secs) = [10, 9] ∧
      s.stored.map s.storedBytes = some 9728 ∧ s.cred + s.need = 0 ∧ ¬ s.Sound) ∧
    ∃ s, Run step (fun _ _ => True) (opened true) s ∧ s.killed = false ∧ ¬ s.Sound ∧ s.refused = true := by
  have uncovered : ∀ (s : State) (k total credit : Nat), s.sock = some k → s.stored.map s.storedBytes = some total →
      s.cred + s.need = credit → credit < total → ¬ s.Sound := by
    intro s k total credit live stored short less sound
    obtain ⟨l, same, covers⟩ := sound.covered (by simp [live])
    rw [same] at stored
    have size : s.storedBytes l = total := Option.some.inj stored
    omega
  refine ⟨?_, ?_, ?_, ?_⟩
  · obtain ⟨s, run, result⟩ := reaches
      [.accept 0, .queueWrite 8 true true, .receive 0 1, .dispatchLow 0 2048 true, .sock 1 true,
        .queueWrite 4 true true]
      (fun s => (s.sock, s.stored.map s.storedBytes, s.cred + s.need)) (v := (some 0, some 4096, 2048))
      (by decide +kernel)
    simp only [Prod.mk.injEq] at result
    obtain ⟨live, stored, short⟩ := result
    exact ⟨s, run, live, stored, short, uncovered s 0 _ _ live stored short (by decide)⟩
  · obtain ⟨s, run, result⟩ := reaches
      [.accept 0, .queueWrite 16384 true true, .receive 0 1, .dispatchToken 0 true, .sock 1 true]
      (fun s => (s.killed, s.refused)) (v := (true, true)) (by decide +kernel)
    simp only [Prod.mk.injEq] at result
    exact ⟨s, run, result.1, fun sound => absurd (result.2.symm.trans sound.kept) (by decide)⟩
  · obtain ⟨s, run, result⟩ := reaches
      [.accept 0, .queueWrite 8 true true, .receive 0 1, .dispatchToken 0 true, .sock 1 true, .queueWrite 9 true true,
        .complete 0 8, .queueWrite 10 true true, .receive 0 2, .dispatchToken 0 true, .sock 1 true]
      (fun s => (s.sock, s.below.map (·.secs), s.stored.map s.storedBytes, s.cred + s.need))
      (v := (some 0, [10, 9], some 9728, 0)) (by decide +kernel)
    simp only [Prod.mk.injEq] at result
    obtain ⟨live, below, stored, short⟩ := result
    exact ⟨s, run, live, below, stored, short, uncovered s 0 _ _ live stored short (by decide)⟩
  · obtain ⟨s, run, result⟩ := reaches
      [.accept 0, .queueWrite 8 true true, .receive 0 1, .dispatchToken 0 true, .sock 1 true, .sockLost true,
        .accept 1, .complete 0 8, .sched true true, .receive 1 1]
      (fun s => (s.killed, s.refused)) (v := (false, true)) (by decide +kernel)
    simp only [Prod.mk.injEq] at result
    exact ⟨s, run, result.1, fun sound => absurd (result.2.symm.trans sound.kept) (by decide), result.2⟩

end State
end Blktap.Ratelimit
