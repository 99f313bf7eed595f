import Blktap.Ratelimit.Table

/-! # What the connection table comes to -/

namespace Blktap.Ratelimit
open Lib

structure RlbConn.Fine (c : RlbConn) (queued : Prop) : Prop where
  flag : queued ↔ c.waiting
  need : c.waiting ↔ 0 < c.need
  bounded : c.need ≤ tdRlbRequestMax
  socket : 0 ≤ c.sock ∧ c.sock < fdSetsize

namespace Bridge
variable {s t : Bridge} {opened wait o₁ o₂ w₁ w₂ l : List Nat} {k j : Nat} {c : RlbConn}

structure Good (s : Bridge) (opened wait : List Nat) : Prop where
  opens : s.opened.Linked () opened
  waits : s.wait.Linked () wait
  slots : (s.free ++ opened).Perm (List.range rlbConnMax)
  sub : ∀ k ∈ wait, k ∈ opened
  conns : ∀ k ∈ opened, (s.connv k).Fine (k ∈ wait)
  consistent : s.misused = false ∧ s.crashed = false

theorem Good.length_le (good : Good s opened wait) : opened.length ≤ rlbConnMax := by
  have count := good.slots.length_eq
  rw [List.length_append, List.length_range] at count
  omega

theorem Good.wait_length_le (good : Good s opened wait) : wait.length ≤ rlbConnMax :=
  (List.subperm_of_subset good.waits.nodup good.sub).length_le.trans good.length_le

theorem Good.openList (good : Good s opened wait) : s.openList = opened := by
  unfold Bridge.openList
  rw [good.opens.walk good.length_le]
  rfl

theorem Good.sound (good : Good s opened wait) : s.Sound := by
  refine ⟨⟨opened, good.opens.walk good.length_le, good.slots⟩, ⟨wait, good.waits.walk good.wait_length_le,
    good.waits.nodup, ?_, ?_⟩, ?_, good.consistent⟩
  all_goals rw [good.openList]
  · exact good.sub
  · exact fun k member => ⟨(good.conns k member).flag, (good.conns k member).need⟩
  · exact fun k member => (good.conns k member).bounded

theorem updateConn_self (s : Bridge) (k : Nat) : s.updateConn k (s.connv k) = s := by
  unfold updateConn
  rw [Function.update_eq_self]

theorem updateConn_of_ne (other : j ≠ k) : (s.updateConn k c).connv j = s.connv j :=
  Function.update_of_ne other _ _

theorem updateConn_same : (s.updateConn k c).connv k = c := Function.update_self ..

theorem andThen_eq (alive : s.crashed = false) (f : Bridge → Bridge) : s.andThen f = f s := by
  unfold andThen
  rw [if_neg (by simp [alive])]

theorem takeWait_eq (waits : s.wait.Linked () (w₁ ++ k :: w₂)) (short : (w₁ ++ k :: w₂).length ≤ rlbConnMax)
    (clear : s.misused = false) :
    ∃ queue, s.takeWait k = s.setWait queue ∧ queue.Linked () (w₁ ++ w₂) := by
  obtain ⟨queue, removed, linked⟩ := waits.remove
  refine ⟨queue, ?_, linked⟩
  unfold takeWait
  simp [removed, waits.holds short, clear, setWait]

theorem takeOpen_eq (opens : s.opened.Linked () (o₁ ++ k :: o₂)) (short : (o₁ ++ k :: o₂).length ≤ rlbConnMax)
    (clear : s.misused = false) :
    ∃ queue, s.takeOpen k = s.setOpened queue ∧ queue.Linked () (o₁ ++ o₂) := by
  obtain ⟨queue, removed, linked⟩ := opens.remove
  refine ⟨queue, ?_, linked⟩
  unfold takeOpen
  simp [removed, opens.holds short, clear, setOpened]

theorem closeSock_eq : ∃ d, (s.updateConn k c).closeSock k = s.updateConn k d := by
  unfold closeSock
  split
  · exact ⟨c, rfl⟩
  · refine ⟨{ (s.updateConn k c).connv k with sock := -1 }, ?_⟩
    unfold updateConn
    rw [Function.update_idem]

theorem Good.close (good : Good s (o₁ ++ k :: o₂) (w₁ ++ k :: w₂)) :
    Good ((s.updateConn k c).connClose k) (o₁ ++ o₂) (w₁ ++ w₂) ∧
      ∀ j, j ≠ k → ((s.updateConn k c).connClose k).connv j = s.connv j := by
  obtain ⟨d, closed⟩ := closeSock_eq (s := s) (k := k) (c := c)
  obtain ⟨waits, wait_eq, waits'⟩ := takeWait_eq (s := s.updateConn k d) good.waits good.wait_length_le
    good.consistent.1
  obtain ⟨opens, open_eq, opens'⟩ := takeOpen_eq (s := (s.updateConn k d).setWait waits) good.opens
    good.length_le good.consistent.1
  have count := good.slots.length_eq
  rw [List.length_append, List.length_range] at count
  have room : ¬ rlbConnMax ≤ s.free.length := by simp only [List.length_append, List.length_cons] at count; omega
  have alive : ((s.updateConn k d).setWait waits).crashed = false := good.consistent.2
  have alive' : (((s.updateConn k d).setWait waits).setOpened opens).crashed = false := good.consistent.2
  have result : (s.updateConn k c).connClose k =
      { ((s.updateConn k d).setWait waits).setOpened opens with free := k :: s.free } := by
    unfold connClose
    rw [closed, wait_eq, andThen_eq alive, open_eq, andThen_eq alive']
    exact if_neg room
  have conn : ∀ j, j ≠ k → ((s.updateConn k c).connClose k).connv j = s.connv j := by
    intro j other
    rw [result]
    exact updateConn_of_ne other
  have fresh : k ∉ o₁ ++ o₂ := by
    have nodup := good.opens.nodup
    rw [List.nodup_middle, List.nodup_cons] at nodup
    exact nodup.1
  have fresh_wait : k ∉ w₁ ++ w₂ := by
    have nodup := good.waits.nodup
    rw [List.nodup_middle, List.nodup_cons] at nodup
    exact nodup.1
  refine ⟨⟨result ▸ opens', result ▸ waits', ?_, ?_, ?_, result ▸ good.consistent⟩, conn⟩
  · have moved : (k :: s.free ++ (o₁ ++ o₂)).Perm (s.free ++ (o₁ ++ k :: o₂)) := by
      rw [← List.append_assoc, ← List.append_assoc]
      exact List.perm_middle.symm
    rw [result]
    exact moved.trans good.slots
  · intro j waiting
    have other : j ≠ k := fun same => fresh_wait (same ▸ waiting)
    have before := good.sub j (by simp only [List.mem_append, List.mem_cons] at waiting ⊢; tauto)
    simp only [List.mem_append, List.mem_cons] at before ⊢
    tauto
  · intro j inside
    have other : j ≠ k := fun same => fresh (same ▸ inside)
    have before : j ∈ o₁ ++ k :: o₂ := by
      simp only [List.mem_append, List.mem_cons] at inside ⊢
      tauto
    have queued : j ∈ w₁ ++ w₂ ↔ j ∈ w₁ ++ k :: w₂ := by
      simp only [List.mem_append, List.mem_cons]
      tauto
    rw [conn j other, queued]
    exact good.conns j before

theorem Good.update (good : Good s opened wait) (fine : c.Fine (k ∈ wait)) : Good (s.updateConn k c) opened wait := by
  refine ⟨good.opens, good.waits, good.slots, good.sub, fun j inside => ?_, good.consistent⟩
  by_cases same : j = k
  · subst same
    rw [updateConn_same]
    exact fine
  · rw [updateConn_of_ne same]
    exact good.conns j inside

theorem receiveReqs_ok {d : RlbConn} {reqs : List ValveReq} (small : c.need ≤ tdRlbRequestMax)
    (read : c.receiveReqs reqs = (d, true)) : c.need ≤ d.need ∧ d.need ≤ tdRlbRequestMax ∧ d.sock = c.sock ∧
      d.waiting = c.waiting := by
  induction reqs generalizing c with
  | nil =>
      cases read
      exact ⟨le_rfl, small, rfl, rfl⟩
  | cons req reqs ih =>
      unfold RlbConn.receiveReqs at read
      split at read
      · rename_i mid first
        have size : tdRlbRequestMax < 2 ^ 32 := by decide
        unfold RlbConn.receiveReq at first
        split at first
        · cases first
        · split at first
          · cases first
          · obtain ⟨rfl, bounded⟩ := Prod.mk.inj first
            rename_i ask _
            have fits : (c.need + req.need) % 2 ^ 64 = c.need + req.need := Nat.mod_eq_of_lt (by omega)
            obtain ⟨more, rest⟩ := ih (of_decide_eq_true bounded) read
            refine ⟨?_, rest⟩
            dsimp only at more
            omega
      · cases read

theorem received_conn {d : RlbConn} (other : j ≠ k) : (s.received k d).connv j = s.connv j := by
  unfold received
  split <;> exact updateConn_of_ne other

theorem Good.join (good : Good s opened wait) (member : k ∈ opened) (apart : k ∉ wait) (fine : c.Fine True) :
    Good ((s.updateConn k c).setWait (s.wait.insertTail () k)) opened (wait ++ [k]) := by
  refine ⟨good.opens, good.waits.insertTail apart, good.slots, ?_, fun j inside => ?_, good.consistent⟩
  · intro j waiting
    rcases List.mem_append.mp waiting with old | new
    · exact good.sub j old
    · rwa [List.mem_singleton.mp new]
  · change ((s.updateConn k c).connv j).Fine _
    by_cases same : j = k
    · subst same
      rw [updateConn_same]
      simpa using fine
    · rw [updateConn_of_ne same]
      simpa [same] using good.conns j inside

theorem Good.received {d : RlbConn} {reqs : List ValveReq} (good : Good s opened wait) (member : k ∈ opened)
    (read : (s.connv k).receiveReqs reqs = (d, true)) : ∃ wait', Good (s.received k d) opened wait' := by
  have before := good.conns k member
  obtain ⟨more, small, sock, flag⟩ := receiveReqs_ok before.bounded read
  unfold Bridge.received
  split
  · rename_i joins
    have apart : k ∉ wait := by
      rw [before.flag, ← flag, joins.2]
      exact Bool.false_ne_true
    have fine : ({ d with waiting := true } : RlbConn).Fine True :=
      ⟨by simp, by simpa using Nat.pos_of_ne_zero joins.1, small, sock ▸ before.socket⟩
    exact ⟨wait ++ [k], good.join member apart fine⟩
  · rename_i stays
    refine ⟨wait, good.update ⟨flag ▸ before.flag, ?_, small, sock ▸ before.socket⟩⟩
    constructor
    · intro waiting
      have needs := before.need.mp (flag ▸ waiting)
      omega
    · intro needs
      by_contra idle
      exact stays ⟨Nat.ne_of_gt needs, by simpa using idle⟩

theorem Good.receive {recv : Recv} (good : Good s (o₁ ++ k :: o₂) wait)
    (ends : (s.connv k).Ends recv → (s.connv k).waiting) :
    (∃ o wait', Good (s.connReceive k recv) (o ++ o₂) wait') ∧
      ∀ j, j ≠ k → (s.connReceive k recv).connv j = s.connv j := by
  have member : k ∈ o₁ ++ k :: o₂ := by simp
  have closes : (s.connv k).Ends recv → ∀ c, (∃ o wait', Good ((s.updateConn k c).connClose k) (o ++ o₂) wait') ∧
      ∀ j, j ≠ k → ((s.updateConn k c).connClose k).connv j = s.connv j := by
    intro ended c
    obtain ⟨w₁, w₂, rfl⟩ := List.append_of_mem ((good.conns k member).flag.mpr (ends ended))
    obtain ⟨closed, others⟩ := good.close (c := c)
    exact ⟨⟨o₁, w₁ ++ w₂, closed⟩, others⟩
  have closes_same : (s.connv k).Ends recv → (∃ o wait', Good (s.connClose k) (o ++ o₂) wait') ∧
      ∀ j, j ≠ k → (s.connClose k).connv j = s.connv j := by
    intro ended
    have closed := closes ended (s.connv k)
    rwa [updateConn_self] at closed
  cases recv with
  | error errno => exact closes_same trivial
  | bytes bytes =>
      simp only [connReceive]
      split
      · exact closes_same (.inl ‹_›)
      · split
        · exact closes_same (.inr (.inl ‹_›))
        · split
          · rename_i d read
            obtain ⟨wait', received⟩ := good.received member read
            refine ⟨⟨o₁ ++ [k], wait', ?_⟩, fun j other => received_conn other⟩
            rw [List.append_assoc]
            exact received
          · rename_i d read
            exact closes (.inr (.inr (by rw [read]))) d

theorem Good.receiveLoop (input : Nat → Option Recv) (extra : Nat) {bound : Nat} (good : Good s (o₁ ++ l) wait)
    (enough : l.length ≤ bound)
    (ends : ∀ k ∈ l, ∀ recv ∈ input k, (s.connv k).Ends recv → (s.connv k).waiting) :
    ∃ t opened wait', receiveLoop input bound l.head? ((l.filter fun k => (input k).isSome).length + extra) s =
      (t, extra) ∧ Good t opened wait' := by
  induction l generalizing s o₁ wait bound with
  | nil =>
      refine ⟨s, o₁ ++ [], wait, ?_, good⟩
      cases bound <;> simp [Bridge.receiveLoop]
  | cons k l ih =>
      obtain ⟨bound, rfl⟩ : ∃ b, bound = b + 1 := ⟨bound - 1, by simp only [List.length_cons] at enough; omega⟩
      have short : l.length ≤ bound := by simpa using enough
      have apart := (List.nodup_cons.mp (List.nodup_append.mp good.opens.nodup).2.1).1
      have others : ∀ j ∈ l, j ≠ k := fun j member same => apart (same ▸ member)
      have next : s.opened.next k = l.head? := good.opens.next
      cases ready : input k with
      | none =>
          have passed : Good s ((o₁ ++ [k]) ++ l) wait := by simpa using good
          have rest := ih passed short
            fun j member => ends j (List.mem_cons_of_mem _ member)
          simpa [Bridge.receiveLoop, ready, next] using rest
      | some recv =>
          obtain ⟨⟨o, wait', read⟩, same⟩ := good.receive (ends k List.mem_cons_self recv ready)
          have rest := ih read short (by
            intro j member
            rw [same j (others j member)]
            exact ends j (List.mem_cons_of_mem _ member))
          simp only [List.head?_cons, Bridge.receiveLoop, ready, next, List.filter_cons_of_pos, Option.isSome_some,
            List.length_cons, read.consistent.2, Bool.false_eq_true, or_false]
          split
          · rename_i last
            have none_left : (l.filter fun k => (input k).isSome).length = 0 ∧ extra = 0 := by omega
            refine ⟨s.connReceive k recv, o ++ l, wait', ?_, read⟩
            rw [none_left.1, none_left.2]
          · rw [show (l.filter fun k => (input k).isSome).length + 1 + extra - 1 =
              (l.filter fun k => (input k).isSome).length + extra by omega]
            exact rest

theorem Good.respond {need : Nat} (sent : Bool) (good : Good s opened (w₁ ++ k :: w₂))
    (covered : need ≤ (s.connv k).need) : ∃ opened' w, Good (s.connRespond k need sent) opened' (w ++ w₂) := by
  have queued : k ∈ w₁ ++ k :: w₂ := by simp
  have member := good.sub k queued
  have fine := good.conns k member
  have waiting := fine.flag.mp queued
  unfold connRespond
  simp only
  rw [if_neg (Nat.not_lt.mpr covered)]
  split
  · split
    · rename_i satisfied
      obtain ⟨queue, taken, linked⟩ := takeWait_eq (s := s.updateConn k ((s.connv k).granted need)) good.waits
        good.wait_length_le good.consistent.1
      have alive : ((s.updateConn k ((s.connv k).granted need)).setWait queue).crashed = false := good.consistent.2
      rw [taken, andThen_eq alive]
      have fresh : k ∉ w₁ ++ w₂ := by
        have nodup := good.waits.nodup
        rw [List.nodup_middle, List.nodup_cons] at nodup
        exact nodup.1
      refine ⟨opened, w₁, good.opens, linked, good.slots, ?_, ?_, good.consistent⟩
      · intro j waits
        exact good.sub j (by simp only [List.mem_append, List.mem_cons] at waits ⊢; tauto)
      · intro j inside
        by_cases same : j = k
        · subst same
          rw [updateConn_same]
          exact ⟨by simpa using fresh, by simp [satisfied], by simp [satisfied], fine.socket⟩
        · rw [updateConn_of_ne same]
          have before := good.conns j inside
          have same_queue : j ∈ w₁ ++ w₂ ↔ j ∈ w₁ ++ k :: w₂ := by simp [same]
          rw [same_queue]
          change ((s.updateConn k _).connv j).Fine _
          rw [updateConn_of_ne same]
          exact before
    · rename_i hungry
      refine ⟨opened, w₁ ++ [k], ?_⟩
      rw [List.append_assoc]
      refine good.update ⟨fine.flag, ?_, ?_, fine.socket⟩
      · exact iff_of_true waiting (Nat.pos_of_ne_zero hungry)
      · exact (Nat.sub_le _ _).trans fine.bounded
  · obtain ⟨o₁, o₂, rfl⟩ := List.append_of_mem member
    have closed := (good.close (c := s.connv k)).1
    rw [updateConn_self] at closed
    exact ⟨o₁ ++ o₂, w₁, closed⟩

theorem Good.passLoop {pass : Pass} {bound : Nat} {cred : Int} (good : Good s opened (w₁ ++ l))
    (enough : l.length ≤ bound) : ∃ opened' wait', Good (passLoop pass bound l.head? cred s) opened' wait' := by
  induction l generalizing s opened w₁ bound cred with
  | nil =>
      refine ⟨opened, w₁ ++ [], ?_⟩
      cases bound <;> exact good
  | cons k l ih =>
      obtain ⟨bound, rfl⟩ : ∃ b, bound = b + 1 := ⟨bound - 1, by simp only [List.length_cons] at enough; omega⟩
      simp only [List.head?_cons, Bridge.passLoop]
      split
      · exact ⟨opened, _, good⟩
      · have covered : ({ pass with cred } : Pass).amount (s.connv k).need ≤ (s.connv k).need := by
          unfold Pass.amount
          split
          · exact le_rfl
          · exact min_le_right _ _
        have next : s.wait.next k = l.head? := good.waits.next
        obtain ⟨opened', w, responded⟩ := good.respond (pass.sent k) covered
        rw [andThen_eq responded.consistent.2, next]
        exact ih responded (by simpa using enough)

theorem Good.dispatch (good : Good s opened wait) (pass : Pass) :
    ∃ opened' wait', Good (s.dispatch pass) opened' wait' := by
  unfold Bridge.dispatch
  rw [good.waits.first]
  have whole : Good s opened ([] ++ wait) := good
  exact whole.passLoop good.wait_length_le

theorem Good.dispatchAll (good : Good s opened wait) (passes : List Pass) :
    ∃ opened' wait', Good (s.dispatchAll passes) opened' wait' := by
  unfold Bridge.dispatchAll
  induction passes generalizing s opened wait with
  | nil => exact ⟨opened, wait, good⟩
  | cons pass passes ih =>
      obtain ⟨opened', wait', done⟩ := good.dispatch pass
      rw [List.foldl_cons, andThen_eq good.consistent.2]
      exact ih done

theorem Good.accept {sock : Int} (good : Good s opened wait) (fits : 0 ≤ sock ∧ sock < fdSetsize) :
    ∃ opened', Good (s.acceptConn sock) opened' wait := by
  unfold acceptConn
  split
  · exact ⟨opened, good⟩
  · split
    · exact ⟨opened, good⟩
    · rename_i k free free_eq
      have slots := good.slots
      rw [free_eq] at slots
      have nodup := slots.nodup_iff.mpr List.nodup_range
      have fresh : k ∉ opened := by
        rw [List.cons_append, List.nodup_cons] at nodup
        exact fun member => nodup.1 (List.mem_append_right _ member)
      have apart : k ∉ wait := fun member => fresh (good.sub k member)
      refine ⟨opened ++ [k], (good.opens.wipe fresh).insertTail fresh, good.waits.wipe apart, ?_, ?_, ?_,
        good.consistent⟩
      · refine List.Perm.trans ?_ slots
        rw [← List.append_assoc]
        exact List.perm_append_singleton k _
      · exact fun j waits => List.mem_append_left _ (good.sub j waits)
      · intro j inside
        change ((s.updateConn k _).connv j).Fine _
        by_cases same : j = k
        · subst same
          rw [updateConn_same]
          exact ⟨by simpa using apart, by simp, Nat.zero_le _, fits⟩
        · rw [updateConn_of_ne same]
          exact good.conns j (by simpa [same] using inside)

theorem Good.acceptReady {e : Iterate} (good : Good s opened wait)
    (fits : ∀ sock ∈ e.accepted, 0 ≤ sock ∧ sock < fdSetsize) :
    ∃ opened', Good (s.acceptReady e (e.stdin.toNat + e.accepted.isSome.toNat)) opened' wait := by
  unfold Bridge.acceptReady
  cases accepted : e.accepted with
  | none =>
      refine ⟨opened, ?_⟩
      cases e.stdin <;> simpa using good
  | some sock =>
      obtain ⟨opened', done⟩ := good.accept (fits sock accepted)
      refine ⟨opened', ?_⟩
      cases e.stdin <;> simpa using done

theorem Good.iterate {e : Iterate} (good : Good s opened wait) (meets : s.Meets (.iterate e))
    (action : s.iterate e = some t) : ∃ opened' wait', Good t opened' wait' := by
  obtain ⟨ends, fits⟩ := meets
  rw [good.openList] at ends
  unfold Bridge.iterate at action
  have inside : ¬ s.openList.any fun k => (s.connv k).sock < 0 ∨ fdSetsize ≤ (s.connv k).sock := by
    rw [good.openList]
    simp only [List.any_eq_true, decide_eq_true_eq, not_exists, not_and, not_or, not_lt, not_le]
    exact fun k member => (good.conns k member).socket
  rw [if_neg inside] at action
  split at action
  · split at action
    · cases action
    · cases Option.some.inj action
      exact good.dispatchAll e.passes
  · have whole : Good s ([] ++ opened) wait := good
    obtain ⟨read, opened', wait', loop, good'⟩ := whole.receiveLoop e.input (e.stdin.toNat + e.accepted.isSome.toNat)
      good.length_le ends
    have ready : s.ready e = (opened.filter fun k => (e.input k).isSome).length +
        (e.stdin.toNat + e.accepted.isSome.toNat) := by
      unfold Bridge.ready
      rw [good.openList, Nat.add_assoc]
    rw [good.opens.first, ready, loop] at action
    obtain ⟨opened'', wait'', done⟩ := good'.dispatchAll e.passes
    cases Option.some.inj action
    rw [andThen_eq good'.consistent.2, andThen_eq done.consistent.2]
    obtain ⟨last, accepted⟩ := done.acceptReady fits
    exact ⟨last, wait'', accepted⟩

theorem Good.closeLoop {bound : Nat} (good : Good s l wait) (enough : l.length ≤ bound)
    (waiting : ∀ k ∈ l, (s.connv k).waiting) : ∃ opened' wait', Good (closeLoop bound l.head? s) opened' wait' := by
  induction l generalizing s wait bound with
  | nil =>
      refine ⟨[], wait, ?_⟩
      cases bound <;> exact good
  | cons k l ih =>
      obtain ⟨bound, rfl⟩ : ∃ b, bound = b + 1 := ⟨bound - 1, by simp only [List.length_cons] at enough; omega⟩
      have apart := (List.nodup_cons.mp good.opens.nodup).1
      have linked : s.opened.Linked () ([] ++ k :: l) := good.opens
      have next : s.opened.next k = l.head? := linked.next
      obtain ⟨w₁, w₂, rfl⟩ := List.append_of_mem
        ((good.conns k List.mem_cons_self).flag.mpr (waiting k List.mem_cons_self))
      have whole : Good s ([] ++ k :: l) (w₁ ++ k :: w₂) := good
      obtain ⟨closed, others⟩ := whole.close (c := s.connv k)
      rw [updateConn_self] at closed others
      simp only [List.head?_cons, Bridge.closeLoop]
      rw [andThen_eq closed.consistent.2, next]
      refine ih closed (by simpa using enough) fun j member => ?_
      rw [others j fun same => apart (same ▸ member)]
      exact waiting j (List.mem_cons_of_mem _ member)

theorem Good.shutdown (good : Good s opened wait) (meets : s.Meets .shutdown) :
    ∃ opened' wait', Good s.shutdown opened' wait' := by
  have waiting : ∀ k ∈ s.openList, (s.connv k).waiting := meets
  rw [good.openList] at waiting
  obtain ⟨opened', wait', done⟩ := good.closeLoop good.length_le waiting
  rw [← good.opens.first] at done
  exact ⟨opened', wait', done.opens, done.waits, done.slots, done.sub, done.conns, done.consistent⟩

theorem Good.step {event : BridgeEvent} (good : Good s opened wait) (meets : s.Meets event)
    (action : bridgeStep s event = some t) : ∃ opened' wait', Good t opened' wait' := by
  unfold bridgeStep at action
  split at action
  · cases action
  · cases event with
    | iterate e => exact good.iterate meets action
    | shutdown =>
        cases Option.some.inj action
        exact good.shutdown meets

theorem good_init : Good init [] [] := by
  unfold init
  refine ⟨TailQueues.linked_init, TailQueues.linked_init, ?_, fun _ member => member,
    fun _ member => (nomatch member), rfl, rfl⟩
  simp only [List.append_nil, List.Perm.refl]

/-- As long as the daemon closes only connections that wait, and `accept` gives it usable descriptors, the table
of connections is right. -/
theorem table_sound (run : Run bridgeStep Meets init s) : s.Sound := by
  have good : ∃ opened wait, Good s opened wait :=
    run.invariant (I := fun s => ∃ opened wait, Good s opened wait)
      (fun _ _ _ ⟨_, _, good⟩ meets action => good.step meets action) ⟨[], [], good_init⟩
  obtain ⟨opened, wait, good⟩ := good
  exact good.sound

def readOne (k : Nat) (l : List UInt8) (passes : List Pass) : BridgeEvent :=
  .iterate ⟨fun i => if i = k then some (.bytes l) else none, false, none, passes⟩

def acceptOne (sock : Int) : BridgeEvent := .iterate ⟨fun _ => none, false, some sock, []⟩

def askBytes : List UInt8 := [0, 1, 0, 0, 0, 0, 0, 0, 0, 0, 0, 0, 0, 0, 0, 0]

theorem table_sound_hangup : ∃ s : Bridge, (s.openList = [0] ∧ s.free.head? = some 1) ∧ s.Sound := by
  obtain ⟨s, action, shape⟩ := Option.map_eq_some_iff.mp
    (by decide +kernel : (runEvents (guarded bridgeStep Meets) init
      [acceptOne 4, acceptOne 5, readOne 0 askBytes [⟨true, 0, fun _ => true⟩], readOne 1 askBytes [],
        readOne 1 [] []]).map (fun s : Bridge => (s.openList, s.free.head?)) = some ([0], some 1))
  obtain ⟨opened, free⟩ := Prod.mk.inj shape
  exact ⟨s, ⟨opened, free⟩, table_sound (trace_of_guarded _ action).run⟩

theorem table_hangup_idle : ∃ s : Bridge, Run bridgeStep (fun _ _ => True) init s ∧ ¬ s.Sound := by
  obtain ⟨s, action, crashed⟩ := Option.map_eq_some_iff.mp
    (by decide +kernel : (runEvents bridgeStep init [acceptOne 4, readOne 0 [] []]).map (·.crashed) = some true)
  refine ⟨s, run_of_runEvents _ (fun _ _ => trivial) action, fun sound => ?_⟩
  rw [sound.consistent.2] at crashed
  cases crashed

end Bridge
end Blktap.Ratelimit
