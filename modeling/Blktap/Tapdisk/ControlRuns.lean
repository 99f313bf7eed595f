import Blktap.Lib.Run
import Blktap.Tapdisk.Control
import Mathlib.Algebra.Order.Ring.Int
import Mathlib.Data.List.Basic
import Mathlib.Data.List.GetD
import Mathlib.Data.List.Nodup
import Mathlib.Data.List.Perm.Basic

/-! # What becomes of control messages -/

namespace Blktap.Tapdisk
open Lib

section Bubble
variable {table pre post rest : List Nat} {k : Nat}

theorem bubble_eq (pre rest : List Nat) (last : Nat) (fresh : k ∉ post) :
    bubble (pre ++ k :: post ++ rest) (pre ++ k :: post).length last k = some (pre ++ post ++ last :: rest) := by
  induction post using List.reverseRecOn generalizing last rest with
  | nil =>
      have size : (pre ++ [k]).length = pre.length + 1 := by simp
      rw [size, bubble]
      simp
  | append_singleton post x ih =>
      have apart : k ∉ post ∧ x ≠ k := by simpa [eq_comm] using fresh
      have size : (pre ++ k :: (post ++ [x])).length = (pre ++ k :: post).length + 1 := by simp; omega
      have shape : pre ++ k :: (post ++ [x]) ++ rest = (pre ++ k :: post) ++ x :: rest := by simp
      have found : ((pre ++ k :: post) ++ x :: rest).getD (pre ++ k :: post).length 0 = x := by simp
      have stored : ((pre ++ k :: post) ++ x :: rest).set (pre ++ k :: post).length last =
          (pre ++ k :: post) ++ last :: rest := by
        rw [List.set_append_right _ _ le_rfl, Nat.sub_self, List.set_cons_zero]
      rw [size, shape, bubble]
      simp only [found, stored, if_neg apart.2]
      rw [ih (last :: rest) x apart.1]
      simp

theorem bubble_some {n : Nat} (nodup : table.Nodup) (active : k ∈ table.take n) (short : n ≤ table.length) :
    ∃ pre post rest, table = pre ++ k :: post ++ rest ∧ table.take n = pre ++ k :: post ∧
      bubble table n k k = some (pre ++ post ++ k :: rest) ∧ (pre ++ post).length = n - 1 ∧ 0 < n := by
  obtain ⟨pre, post, front⟩ := List.append_of_mem active
  have whole : table = pre ++ k :: post ++ table.drop n := by rw [← front, List.take_append_drop]
  have size : (pre ++ k :: post).length = n := by rw [← front, List.length_take, min_eq_left short]
  have fresh : k ∉ post := by
    rw [whole, List.append_assoc, List.cons_append] at nodup
    have tail := (List.nodup_append.mp nodup).2.1
    exact fun member => (List.nodup_cons.mp tail).1 (List.mem_append_left _ member)
  have moved := bubble_eq pre (table.drop n) k fresh
  rw [← whole, size] at moved
  refine ⟨pre, post, table.drop n, whole, front, moved, ?_, ?_⟩
  · simp only [List.length_append, List.length_cons] at size ⊢
    omega
  · simp only [List.length_append, List.length_cons] at size
    omega

end Bubble

namespace Control
variable {s t u : Control} {k j : Nat}

structure Base (s : Control) : Prop where
  perm : s.table.Perm (List.range ctlMaxConnections)
  nConn : s.nConn ≤ ctlMaxConnections
  free : ∀ k ∈ s.table.drop s.nConn, s.owner k = none
  owned : ∀ k, s.owner k ≠ none → k ∈ s.table ∧ 0 ≤ (s.conns k).fd ∧ 0 ≤ (s.conns k).outEvent
  unowned : ∀ k, s.owner k = none → (s.conns k).outEvent < 0 ∧ (0 ≤ (s.conns k).fd → (s.conns k).info = none)
  ids : ∀ e ∈ s.events, 0 < e.id ∧ e.id < s.uuid
  bound : ∀ k, (s.conns k).outEvent < s.uuid
  target : ∀ e ∈ s.events, ∀ k, (s.conns k).outEvent = e.id → e.slot = k
  send : ∀ e ∈ s.events, e.callback = .send → s.owner e.slot ≠ none ∧ (s.conns e.slot).outEvent = e.id
  request : ∀ e ∈ s.events, e.callback = .request → s.owner e.slot ≠ none ∧ (s.conns e.slot).inEvent = e.id
  frames : ∀ f ∈ s.frames, (s.conns f.slot).info ≠ none
  positive : 0 < s.uuid

def Calm (s : Control) (k : Nat) : Prop :=
  ∀ e ∈ s.events, e.callback = .request → e.slot = k →
    (s.conns k).prod = 0 ∧ (s.conns k).cons = 0 ∧ ∀ e' ∈ s.events, e'.callback = .send → e'.slot = k → e'.masked

def NoRequest (s : Control) (k : Nat) : Prop := ∀ e ∈ s.events, e.callback = .request → e.slot ≠ k

structure Local (s t : Control) (k : Nat) : Prop where
  conns : ∀ j, j ≠ k → t.conns j = s.conns j ∧ t.owner j = s.owner j
  events : ∀ e ∈ t.events, ∃ e' ∈ s.events, e'.id = e.id ∧ e'.slot = e.slot ∧ e'.callback = e.callback ∧
    (e.slot ≠ k → e' = e)

theorem Local.rfl : Local s s k := ⟨fun _ _ => ⟨.refl _, .refl _⟩, fun e member => ⟨e, member, .refl _, .refl _, .refl _,
  fun _ => .refl _⟩⟩

theorem Local.trans (first : Local s t k) (second : Local t u k) : Local s u k := by
  constructor
  · intro j other
    obtain ⟨conn, owner⟩ := second.conns j other
    obtain ⟨conn', owner'⟩ := first.conns j other
    exact ⟨conn.trans conn', owner.trans owner'⟩
  · intro e member
    obtain ⟨mid, inside, id, slot, callback, same⟩ := second.events e member
    obtain ⟨old, inside', id', slot', callback', same'⟩ := first.events mid inside
    refine ⟨old, inside', id'.trans id, slot'.trans slot, callback'.trans callback, fun other => ?_⟩
    rw [same' (slot ▸ other), same other]

theorem Local.calm (change : Local s t k) (other : j ≠ k) (calm : Calm s j) : Calm t j := by
  intro e member callback slot
  obtain ⟨old, inside, -, -, -, same⟩ := change.events e member
  obtain rfl := same (slot ▸ other)
  rw [(change.conns j other).1]
  obtain ⟨prod, cons, masked⟩ := calm old inside callback slot
  refine ⟨prod, cons, fun e' member' callback' slot' => ?_⟩
  obtain ⟨old', inside', -, -, -, same'⟩ := change.events e' member'
  obtain rfl := same' (slot' ▸ other)
  exact masked old' inside' callback' slot'

theorem Local.noRequest (change : Local s t k) (none : NoRequest s j) : NoRequest t j := by
  intro e member callback
  obtain ⟨old, inside, -, slot, kind, -⟩ := change.events e member
  exact slot ▸ none old inside (kind.trans callback)

theorem NoRequest.calm (none : NoRequest s k) : Calm s k :=
  fun e member callback slot => absurd slot (none e member callback)

theorem updateConn_same {c : CtlConn} : (s.updateConn k c).conns k = c := Function.update_self ..

theorem updateConn_of_ne {c : CtlConn} (other : j ≠ k) : (s.updateConn k c).conns j = s.conns j :=
  Function.update_of_ne other _ _

theorem local_updateConn {c : CtlConn} : Local s (s.updateConn k c) k :=
  ⟨fun _ other => ⟨updateConn_of_ne other, rfl⟩, fun e member => ⟨e, member, rfl, rfl, rfl, fun _ => rfl⟩⟩

theorem local_unregister {id : Int} : Local s (s.unregister id) k :=
  ⟨fun _ _ => ⟨rfl, rfl⟩, fun e member => ⟨e, (List.mem_filter.mp member).1, rfl, rfl, rfl, fun _ => rfl⟩⟩

theorem Base.conn {c : CtlConn} (base : Base s) (fd : c.fd = (s.conns k).fd) (outEvent : c.outEvent = (s.conns k).outEvent)
    (inEvent : c.inEvent = (s.conns k).inEvent)
    (info : c.info = (s.conns k).info ∨ c.info ≠ none ∧ s.owner k ≠ none) : Base (s.updateConn k c) := by
  have fields : ∀ j, ((s.updateConn k c).conns j).fd = (s.conns j).fd ∧
      ((s.updateConn k c).conns j).outEvent = (s.conns j).outEvent ∧
      ((s.updateConn k c).conns j).inEvent = (s.conns j).inEvent := by
    intro j
    by_cases same : j = k
    · subst same
      rw [updateConn_same]
      exact ⟨fd, outEvent, inEvent⟩
    · rw [updateConn_of_ne same]
      exact ⟨rfl, rfl, rfl⟩
  refine ⟨base.perm, base.nConn, base.free, ?_, ?_, base.ids, ?_, ?_, ?_, ?_, ?_, base.positive⟩
  · intro j owner
    rw [(fields j).1, (fields j).2.1]
    exact base.owned j owner
  · intro j owner
    rw [(fields j).1, (fields j).2.1]
    obtain ⟨out, unset⟩ := base.unowned j owner
    refine ⟨out, fun opened => ?_⟩
    by_cases same : j = k
    · subst same
      rw [updateConn_same]
      rcases info with same | ⟨-, taken⟩
      · exact same.trans (unset opened)
      · exact absurd owner taken
    · rw [updateConn_of_ne same]
      exact unset opened
  · intro j
    rw [(fields j).2.1]
    exact base.bound j
  · intro e member j
    rw [(fields j).2.1]
    exact base.target e member j
  · intro e member callback
    rw [(fields e.slot).2.1]
    exact base.send e member callback
  · intro e member callback
    rw [(fields e.slot).2.2]
    exact base.request e member callback
  · intro f member
    by_cases same : f.slot = k
    · rw [same, updateConn_same]
      have before := base.frames f member
      rw [same] at before
      rcases info with same | ⟨some, -⟩
      · exact same ▸ before
      · exact some
    · rw [updateConn_of_ne same]
      exact base.frames f member

theorem Base.unregister {id : Int} (base : Base s) : Base (s.unregister id) := by
  have old : ∀ e ∈ (s.unregister id).events, e ∈ s.events := fun e member => (List.mem_filter.mp member).1
  exact ⟨base.perm, base.nConn, base.free, base.owned, base.unowned, fun e member => base.ids e (old e member),
    base.bound, fun e member => base.target e (old e member), fun e member => base.send e (old e member),
    fun e member => base.request e (old e member), base.frames, base.positive⟩

theorem mem_mask {id : Int} {masked : Bool} {e : CtlEvent} (member : e ∈ (s.mask id masked).events) :
    ∃ e' ∈ s.events, e'.id = e.id ∧ e'.slot = e.slot ∧ e'.callback = e.callback ∧ ((e'.id : Int) ≠ id → e' = e) := by
  obtain ⟨e', inside, same⟩ := List.mem_map.mp member
  refine ⟨e', inside, ?_⟩
  split at same
  · rename_i found
    subst same
    exact ⟨rfl, rfl, rfl, fun other => absurd found other⟩
  · subst same
    exact ⟨rfl, rfl, rfl, fun _ => rfl⟩

theorem Base.mask {id : Int} {masked : Bool} (base : Base s) : Base (s.mask id masked) := by
  refine ⟨base.perm, base.nConn, base.free, base.owned, base.unowned, ?_, base.bound, ?_, ?_, ?_, base.frames,
    base.positive⟩
  · intro e member
    obtain ⟨old, inside, id_eq, -, -, -⟩ := mem_mask member
    exact id_eq ▸ base.ids old inside
  · intro e member j out
    obtain ⟨old, inside, id_eq, slot, -, -⟩ := mem_mask member
    exact slot ▸ base.target old inside j (id_eq ▸ out)
  · intro e member callback
    obtain ⟨old, inside, id_eq, slot, kind, -⟩ := mem_mask member
    rw [← slot, ← id_eq]
    exact base.send old inside (kind.trans callback)
  · intro e member callback
    obtain ⟨old, inside, id_eq, slot, kind, -⟩ := mem_mask member
    rw [← slot, ← id_eq]
    exact base.request old inside (kind.trans callback)

theorem Base.local_mask (base : Base s) (masked : Bool) : Local s (s.mask (s.conns k).outEvent masked) k := by
  refine ⟨fun _ _ => ⟨rfl, rfl⟩, fun e member => ?_⟩
  obtain ⟨old, inside, id_eq, slot, kind, same⟩ := mem_mask member
  refine ⟨old, inside, id_eq, slot, kind, fun other => same fun found => other ?_⟩
  rw [← slot]
  exact base.target old inside k found.symm

structure Keeps (s t : Control) : Prop where
  frames : t.frames = s.frames
  busy : t.busy = s.busy
  stale : t.stale = s.stale
  writes : t.writes = s.writes
  verdicts : t.verdicts = s.verdicts
  fault : t.fault = s.fault
  made : t.made = s.made

theorem Keeps.rfl : Keeps s s := ⟨.refl _, .refl _, .refl _, .refl _, .refl _, .refl _, .refl _⟩

theorem Keeps.trans (first : Keeps s t) (second : Keeps t u) : Keeps s u :=
  ⟨second.frames.trans first.frames, second.busy.trans first.busy, second.stale.trans first.stale,
    second.writes.trans first.writes, second.verdicts.trans first.verdicts, second.fault.trans first.fault,
    second.made.trans first.made⟩

theorem Base.nodup (base : Base s) : s.table.Nodup := base.perm.nodup_iff.mpr List.nodup_range

theorem Base.length_eq (base : Base s) : s.table.length = ctlMaxConnections := by
  rw [base.perm.length_eq, List.length_range]

theorem Base.active (base : Base s) (taken : s.owner k ≠ none) : k ∈ s.table.take s.nConn := by
  have member := (base.owned k taken).1
  rw [← List.take_append_drop s.nConn s.table] at member
  rcases List.mem_append.mp member with front | back
  · exact front
  · exact absurd (base.free k back) taken

structure Freed (s t : Control) (k : Nat) : Prop where
  conn : t.conns = Function.update s.conns k { s.conns k with outEvent := -1, fd := -1 }
  owner : t.owner = Function.update s.owner k none
  events : t.events = s.events.filter fun e => (e.id : Int) ≠ (s.conns k).outEvent
  table : ∃ pre post rest, s.table = pre ++ k :: post ++ rest ∧ s.table.take s.nConn = pre ++ k :: post ∧
    t.table = pre ++ post ++ k :: rest ∧ t.nConn = (pre ++ post).length ∧ 0 < s.nConn
  uuid : t.uuid = s.uuid
  keeps : Keeps s t

theorem connClose_owned (base : Base s) (taken : s.owner k ≠ none) : Freed s (s.connClose k) k := by
  obtain ⟨-, fd, out⟩ := base.owned k taken
  obtain ⟨pre, post, rest, whole, front, moved, size, some_active⟩ := bubble_some base.nodup (base.active taken)
    (base.length_eq ▸ base.nConn)
  have dropped : s.dropOut k =
      (s.unregister (s.conns k).outEvent).updateConn k { s.conns k with outEvent := -1 } := if_pos out
  have open_fd : 0 ≤ ((s.dropOut k).conns k).fd := by
    rw [dropped, updateConn_same]
    exact fd
  have freed : s.connClose k = { (s.dropOut k).closeFd k with
      table := pre ++ post ++ k :: rest, nConn := s.nConn - 1 } := by
    unfold connClose
    simp only [if_pos open_fd]
    have found : bubble ((s.dropOut k).closeFd k).table ((s.dropOut k).closeFd k).nConn k k =
        some (pre ++ post ++ k :: rest) := by
      rw [dropped]
      exact moved
    unfold connFree
    rw [found, dropped]
    rfl
  rw [freed, dropped]
  refine ⟨?_, rfl, rfl, ⟨pre, post, rest, whole, front, rfl, size.symm, some_active⟩, rfl, ⟨rfl, rfl, rfl, rfl, rfl,
    rfl, rfl⟩⟩
  unfold closeFd
  rw [updateConn_same]
  exact Function.update_idem ..

theorem connClose_unowned (base : Base s) (free : s.owner k = none) (shut : (s.conns k).fd < 0) : s.connClose k = s := by
  have dropped : s.dropOut k = s := if_neg (by have out := (base.unowned k free).1; omega)
  unfold connClose
  simp only [dropped]
  exact if_neg (by omega)

theorem Freed.local (freed : Freed s t k) : Local s t k := by
  constructor
  · intro j other
    rw [freed.conn, freed.owner]
    exact ⟨Function.update_of_ne other _ _, Function.update_of_ne other _ _⟩
  · intro e member
    rw [freed.events] at member
    exact ⟨e, (List.mem_filter.mp member).1, rfl, rfl, rfl, fun _ => rfl⟩

theorem Freed.base (freed : Freed s t k) (base : Base s) (quiet : NoRequest s k) : Base t := by
  obtain ⟨pre, post, rest, whole, front, table, size, some_active⟩ := freed.table
  have length_take : (pre ++ k :: post).length = s.nConn := by
    rw [← front, List.length_take, min_eq_left (base.length_eq ▸ base.nConn)]
  have rest_eq : s.table.drop s.nConn = rest := by
    rw [whole, ← length_take]
    exact List.drop_left
  have conn : ∀ j, j ≠ k → t.conns j = s.conns j := fun j other => (freed.local.conns j other).1
  have owner : ∀ j, j ≠ k → t.owner j = s.owner j := fun j other => (freed.local.conns j other).2
  have own_conn : t.conns k = { s.conns k with outEvent := -1, fd := -1 } := by rw [freed.conn, Function.update_self]
  have own_owner : t.owner k = none := by rw [freed.owner, Function.update_self]
  have old : ∀ e ∈ t.events, e ∈ s.events ∧ e.slot ≠ k := by
    intro e member
    rw [freed.events] at member
    obtain ⟨inside, other⟩ := List.mem_filter.mp member
    refine ⟨inside, fun same => ?_⟩
    cases callback : e.callback with
    | request => exact quiet e inside callback same
    | send =>
        have out := (base.send e inside callback).2
        rw [same] at out
        simp [out] at other
  refine ⟨?_, ?_, ?_, ?_, ?_, ?_, ?_, ?_, ?_, ?_, ?_, freed.uuid ▸ base.positive⟩
  · rw [table]
    refine List.Perm.trans ?_ base.perm
    rw [whole, List.append_assoc, List.append_assoc]
    refine List.Perm.append_left pre ?_
    exact List.perm_middle
  · rw [size]
    have bound := base.nConn
    simp only [List.length_append, List.length_cons] at length_take ⊢
    omega
  · intro j member
    rw [table, size, List.drop_left] at member
    rcases List.mem_cons.mp member with rfl | inside
    · exact own_owner
    · by_cases same : j = k
      · exact same ▸ own_owner
      · rw [owner j same]
        exact base.free j (rest_eq ▸ inside)
  · intro j taken
    have other : j ≠ k := fun same => taken (same ▸ own_owner)
    rw [owner j other] at taken
    rw [conn j other, table]
    obtain ⟨member, rest⟩ := base.owned j taken
    refine ⟨?_, rest⟩
    rw [whole] at member
    simp only [List.mem_append, List.mem_cons] at member ⊢
    tauto
  · intro j free
    by_cases same : j = k
    · rw [same, own_conn]
      exact ⟨neg_one_lt_zero, fun opened => absurd opened (not_le.mpr neg_one_lt_zero)⟩
    · rw [conn j same]
      exact base.unowned j (owner j same ▸ free)
  · intro e member
    rw [freed.uuid]
    exact base.ids e (old e member).1
  · intro j
    rw [freed.uuid]
    by_cases same : j = k
    · rw [same, own_conn]
      have bound := base.bound k
      dsimp only
      omega
    · rw [conn j same]
      exact base.bound j
  · intro e member j out
    by_cases same : j = k
    · rw [same, own_conn] at out
      dsimp only at out
      omega
    · rw [conn j same] at out
      exact base.target e (old e member).1 j out
  · intro e member callback
    obtain ⟨inside, other⟩ := old e member
    rw [conn _ other, owner _ other]
    exact base.send e inside callback
  · intro e member callback
    obtain ⟨inside, other⟩ := old e member
    rw [conn _ other, owner _ other]
    exact base.request e inside callback
  · intro f member
    rw [freed.keeps.frames] at member
    have before := base.frames f member
    by_cases same : f.slot = k
    · rw [same] at before ⊢
      rwa [own_conn]
    · rwa [conn _ same]

def Place (s t : Control) (k : Nat) : Prop :=
  (t.table = s.table ∧ t.nConn = s.nConn ∧ (t.conns k).fd = (s.conns k).fd ∧ t.owner k = s.owner k) ∨
  (t.owner k = none ∧ (t.conns k).fd = -1 ∧ ∀ j ∈ t.table.take t.nConn, j ∈ s.table.take s.nConn ∧ j ≠ k)

theorem Place.trans (first : Place s t k) (second : Place t u k) : Place s u k := by
  rcases second with ⟨table, nConn, fd, owner⟩ | ⟨owner, fd, active⟩
  · rcases first with ⟨table', nConn', fd', owner'⟩ | ⟨owner', fd', active'⟩
    · exact .inl ⟨table.trans table', nConn.trans nConn', fd.trans fd', owner.trans owner'⟩
    · exact .inr ⟨owner.trans owner', fd.trans fd', by rw [table, nConn]; exact active'⟩
  · refine .inr ⟨owner, fd, fun j member => ?_⟩
    obtain ⟨before, other⟩ := active j member
    rcases first with ⟨table', nConn', -⟩ | ⟨-, -, active'⟩
    · exact ⟨by rw [table', nConn'] at before; exact before, other⟩
    · exact active' j before

structure Acts (s t : Control) (k : Nat) : Prop where
  base : Base t
  change : Local s t k
  keeps : Keeps s t
  place : Place s t k
  info : (t.conns k).info = (s.conns k).info

theorem Acts.trans (first : Acts s t k) (second : Acts t u k) : Acts s u k :=
  ⟨second.base, first.change.trans second.change, first.keeps.trans second.keeps, first.place.trans second.place,
    second.info.trans first.info⟩

theorem Acts.rfl (base : Base s) : Acts s s k :=
  ⟨base, .rfl, .rfl, .inl ⟨.refl _, .refl _, .refl _, .refl _⟩, .refl _⟩

theorem Base.taken (base : Base s) (used : (s.conns k).info ≠ none ∨ s.owner k ≠ none) :
    0 ≤ (s.conns k).fd → s.owner k ≠ none := by
  intro opened free
  rcases used with set | taken
  · exact set ((base.unowned k free).2 opened)
  · exact taken free

theorem acts_updateConn {c : CtlConn} (base : Base s) (fd : c.fd = (s.conns k).fd)
    (outEvent : c.outEvent = (s.conns k).outEvent) (inEvent : c.inEvent = (s.conns k).inEvent)
    (info : c.info = (s.conns k).info) : Acts s (s.updateConn k c) k := by
  refine ⟨base.conn fd outEvent inEvent (.inl info), local_updateConn, ⟨rfl, rfl, rfl, rfl, rfl, rfl, rfl⟩,
    .inl ⟨rfl, rfl, ?_, rfl⟩, ?_⟩
  · rw [updateConn_same, fd]
  · rw [updateConn_same, info]

theorem acts_connClose (base : Base s) (quiet : NoRequest s k) (taken : 0 ≤ (s.conns k).fd → s.owner k ≠ none) :
    Acts s (s.connClose k) k ∧ ((s.connClose k).conns k).fd < 0 := by
  by_cases free : s.owner k = none
  · have shut : (s.conns k).fd < 0 := by
      by_contra opened
      exact taken (not_lt.mp opened) free
    rw [connClose_unowned base free shut]
    exact ⟨.rfl base, shut⟩
  · have freed := connClose_owned base free
    have own : (s.connClose k).conns k = { s.conns k with outEvent := -1, fd := -1 } := by
      rw [freed.conn, Function.update_self]
    obtain ⟨pre, post, rest, whole, front, table, size, -⟩ := freed.table
    have gone : Place s (s.connClose k) k := by
      refine .inr ⟨by rw [freed.owner, Function.update_self], by rw [own], fun j member => ?_⟩
      rw [table, size, List.take_left] at member
      have nodup := base.nodup
      rw [whole] at nodup
      have fresh := (List.nodup_middle.mp (List.nodup_append.mp nodup).1)
      refine ⟨?_, fun same => (List.nodup_cons.mp fresh).1 (same ▸ member)⟩
      rw [front]
      simp only [List.mem_append, List.mem_cons] at member ⊢
      tauto
    exact ⟨⟨freed.base base quiet, freed.local, freed.keeps, gone, by rw [own]⟩, by rw [own]; exact neg_one_lt_zero⟩

theorem Base.setIn (base : Base s) (quiet : NoRequest s k) (id : Int) :
    Base (s.updateConn k { s.conns k with inEvent := id }) := by
  have fields : ∀ j, (s.updateConn k { s.conns k with inEvent := id }).conns j =
      if j = k then { s.conns k with inEvent := id } else s.conns j := fun j => Function.update_apply ..
  refine ⟨base.perm, base.nConn, base.free, ?_, ?_, base.ids, ?_, ?_, ?_, ?_, ?_, base.positive⟩
  · intro j taken
    have owned := base.owned j taken
    rw [fields]
    split
    · rename_i same
      exact same ▸ owned
    · exact owned
  · intro j free
    have unowned := base.unowned j free
    rw [fields]
    split
    · rename_i same
      exact same ▸ unowned
    · exact unowned
  · intro j
    have bound := base.bound j
    rw [fields]
    split
    · rename_i same
      exact same ▸ bound
    · exact bound
  · intro e member j out
    refine base.target e member j ?_
    rw [fields] at out
    split at out
    · rename_i same
      exact same ▸ out
    · exact out
  · intro e member callback
    have send := base.send e member callback
    rw [fields]
    split
    · rename_i same
      exact same ▸ send
    · exact send
  · intro e member callback
    rw [fields, if_neg (quiet e member callback)]
    exact base.request e member callback
  · intro f member
    have set := base.frames f member
    rw [fields]
    split
    · rename_i same
      exact same ▸ set
    · exact set

theorem acts_dropIn (base : Base s) : Acts s (s.dropIn k) k ∧ NoRequest (s.dropIn k) k := by
  unfold dropIn
  split
  · have quiet : NoRequest (s.unregister (s.conns k).inEvent) k := by
      intro e member callback same
      obtain ⟨inside, other⟩ := List.mem_filter.mp member
      have own := (base.request e inside callback).2
      rw [same] at own
      simp [own] at other
    refine ⟨⟨base.unregister.setIn quiet (-1), local_unregister.trans local_updateConn, ⟨rfl, rfl, rfl, rfl, rfl, rfl, rfl⟩,
      .inl ⟨rfl, rfl, ?_, rfl⟩, ?_⟩, quiet⟩
    · rw [updateConn_same]
    · rw [updateConn_same]
  · rename_i zero
    refine ⟨.rfl base, fun e member callback same => ?_⟩
    have own := (base.request e member callback).2
    have positive := (base.ids e member).1
    rw [same] at own
    omega

theorem acts_releaseConnection (base : Base s) (used : (s.conns k).info ≠ none ∨ s.owner k ≠ none) :
    Acts s (s.releaseConnection k) k ∧ NoRequest (s.releaseConnection k) k := by
  obtain ⟨dropped, quiet⟩ := acts_dropIn (k := k) base
  have done := acts_updateConn (c := { (s.dropIn k).conns k with done := true }) dropped.base rfl rfl rfl rfl
  have quiet' : NoRequest ((s.dropIn k).updateConn k { (s.dropIn k).conns k with done := true }) k :=
    done.change.noRequest quiet
  unfold releaseConnection connRelease
  simp only
  split
  · have owner : ((s.dropIn k).updateConn k { (s.dropIn k).conns k with done := true }).owner k = s.owner k := by
      unfold dropIn
      split <;> rfl
    have used' := used
    rw [← dropped.info, ← done.info, ← owner] at used'
    obtain ⟨closed, -⟩ := acts_connClose done.base quiet' (done.base.taken used')
    exact ⟨dropped.trans (done.trans closed), closed.change.noRequest quiet'⟩
  · exact ⟨dropped.trans done, quiet'⟩

theorem Acts.used (acts : Acts s t k) (used : (s.conns k).info ≠ none ∨ s.owner k ≠ none)
    (opened : 0 ≤ (t.conns k).fd) : t.owner k ≠ none := by
  rcases acts.place with ⟨-, -, -, owner⟩ | ⟨-, shut, -⟩
  · refine acts.base.taken ?_ opened
    rw [acts.info, owner]
    exact used
  · omega

theorem acts_closeConnection (sent : Nat) (base : Base s) (used : (s.conns k).info ≠ none ∨ s.owner k ≠ none) :
    Acts s (s.closeConnection k sent) k ∧ NoRequest (s.closeConnection k sent) k ∧
      ((s.closeConnection k sent).conns k).fd < 0 := by
  obtain ⟨released, quiet⟩ := acts_releaseConnection base used
  obtain ⟨pushed, push, push_eq⟩ : ∃ t, Acts (s.releaseConnection k) t k ∧
      t = if ((s.releaseConnection k).conns k).connected then (s.releaseConnection k).sendBuf k sent
        else s.releaseConnection k := by
    refine ⟨_, ?_, rfl⟩
    split
    · exact acts_updateConn released.base rfl rfl rfl rfl
    · exact .rfl released.base
  have quiet' := push.change.noRequest quiet
  have whole := released.trans push
  obtain ⟨closed, shut⟩ := acts_connClose whole.base quiet' (whole.used used)
  have result : s.closeConnection k sent = pushed.connClose k := by rw [push_eq]; rfl
  rw [result]
  exact ⟨whole.trans closed, closed.change.noRequest quiet', shut⟩

theorem Base.like (base : Base s) (table : t.table = s.table) (nConn : t.nConn = s.nConn) (conns : t.conns = s.conns)
    (owner : t.owner = s.owner) (events : t.events = s.events) (uuid : t.uuid = s.uuid)
    (frames : ∀ f ∈ t.frames, f ∈ s.frames) : Base t := by
  constructor
  · rw [table]
    exact base.perm
  · rw [nConn]
    exact base.nConn
  · rw [table, nConn, owner]
    exact base.free
  · rw [table, conns, owner]
    exact base.owned
  · rw [conns, owner]
    exact base.unowned
  · rw [events, uuid]
    exact base.ids
  · rw [conns, uuid]
    exact base.bound
  · rw [events, conns]
    exact base.target
  · rw [events, conns, owner]
    exact base.send
  · rw [events, conns, owner]
    exact base.request
  · rw [conns]
    exact fun f member => base.frames f (frames f member)
  · rw [uuid]
    exact base.positive

theorem Calm.like (calm : Calm s k) (conns : t.conns = s.conns) (events : t.events = s.events) : Calm t k := by
  unfold Calm
  rw [conns, events]
  exact calm

structure Wrote (s t : Control) (k : Nat) (requester : Option Nat) : Prop where
  base : Base t
  change : Local s t k
  table : t.table = s.table ∧ t.nConn = s.nConn
  slot : (t.conns k).fd = (s.conns k).fd ∧ t.owner k = s.owner k ∧ (t.conns k).info = (s.conns k).info
  frames : t.frames = s.frames
  flags : t.busy = s.busy ∧ t.stale = s.stale ∧ t.fault = s.fault ∧ t.verdicts = s.verdicts
  writes : ∀ w ∈ t.writes, w ∈ s.writes ∨ w = (requester, s.owner k)

theorem Wrote.rfl {requester : Option Nat} (base : Base s) : Wrote s s k requester :=
  ⟨base, .rfl, ⟨.refl _, .refl _⟩, ⟨.refl _, .refl _, .refl _⟩, .refl _, ⟨.refl _, .refl _, .refl _, .refl _⟩,
    fun _ member => .inl member⟩

theorem Wrote.trans {requester : Option Nat} (first : Wrote s t k requester) (second : Wrote t u k requester) :
    Wrote s u k requester := by
  obtain ⟨fd, owner, info⟩ := first.slot
  obtain ⟨fd', owner', info'⟩ := second.slot
  obtain ⟨busy, stale, fault, verdicts⟩ := first.flags
  obtain ⟨busy', stale', fault', verdicts'⟩ := second.flags
  refine ⟨second.base, first.change.trans second.change, ⟨second.table.1.trans first.table.1,
    second.table.2.trans first.table.2⟩, ⟨fd'.trans fd, owner'.trans owner, info'.trans info⟩,
    second.frames.trans first.frames, ⟨busy'.trans busy, stale'.trans stale, fault'.trans fault,
    verdicts'.trans verdicts⟩, fun w member => ?_⟩
  rcases second.writes w member with old | new
  · exact first.writes w old
  · exact .inr (owner ▸ new)

theorem wrote_connWrite {requester : Option Nat} {size : Int} (base : Base s) :
    Wrote s (s.connWrite k requester size) k requester := by
  have noted_base : Base { s with writes := (requester, s.owner k) :: s.writes } :=
    base.like rfl rfl rfl rfl rfl rfl fun _ member => member
  have logged : ∀ w ∈ (requester, s.owner k) :: s.writes, w ∈ s.writes ∨ w = (requester, s.owner k) :=
    fun w member => (List.mem_cons.mp member).symm
  unfold connWrite
  simp only
  split
  · exact ⟨noted_base, ⟨fun _ _ => ⟨rfl, rfl⟩, fun e member => ⟨e, member, rfl, rfl, rfl, fun _ => rfl⟩⟩, ⟨rfl, rfl⟩,
      ⟨rfl, rfl, rfl⟩, rfl, ⟨rfl, rfl, rfl, rfl⟩, logged⟩
  · obtain ⟨c, c_eq⟩ : ∃ c : CtlConn, c = { s.conns k with prod := (s.conns k).prod + min (room (s.conns k)) size } :=
      ⟨_, rfl⟩
    rw [← c_eq]
    have out : c.outEvent = (s.conns k).outEvent := by rw [c_eq]
    have stored : Base ({ s with writes := (requester, s.owner k) :: s.writes }.updateConn k c) :=
      noted_base.conn (by rw [c_eq]) out (by rw [c_eq]) (.inl (by rw [c_eq]))
    have own : ({ s with writes := (requester, s.owner k) :: s.writes }.updateConn k c).conns k = c := updateConn_same
    have masked := stored.local_mask (k := k) false
    rw [own, out] at masked
    refine ⟨stored.mask, ?_, ⟨rfl, rfl⟩, ⟨?_, rfl, ?_⟩, rfl, ⟨rfl, rfl, rfl, rfl⟩, logged⟩
    · have kept : Local s ({ s with writes := (requester, s.owner k) :: s.writes }.updateConn k c) k :=
        ⟨fun j other => ⟨Function.update_of_ne other _ _, rfl⟩, fun e member => ⟨e, member, rfl, rfl, rfl, fun _ => rfl⟩⟩
      exact kept.trans masked
    · exact (congrArg CtlConn.fd own).trans (by rw [c_eq])
    · exact (congrArg CtlConn.info own).trans (by rw [c_eq])

theorem wrote_writeMessages (requester : Option Nat) (base : Base s) (set : (s.conns k).info ≠ none) (n : Nat) :
    Wrote s (s.writeMessages k requester n) k requester := by
  induction n generalizing s with
  | zero => exact .rfl base
  | succ n ih =>
      have first : Wrote s (s.writeMessage k requester) k requester := by
        unfold writeMessage
        split
        · exact wrote_connWrite base
        · exact absurd ‹_› set
      exact first.trans (ih first.base (first.slot.2.2 ▸ set))

theorem wrote_respond {f : Frame} (answer : CtlAnswer) (base : Base s) (set : (s.conns f.slot).info ≠ none) :
    Wrote s (s.respond f answer) f.slot f.requester := by
  have written := wrote_writeMessages f.requester base set (responses f.info answer)
  unfold respond skipStats
  split
  · refine written.trans ⟨written.base.conn rfl rfl rfl (.inl rfl), local_updateConn, ⟨rfl, rfl⟩, ⟨?_, rfl, ?_⟩, rfl,
      ⟨rfl, rfl, rfl, rfl⟩, fun _ member => .inl member⟩
    · rw [updateConn_same]
    · rw [updateConn_same]
  · exact written

structure Finished (s t : Control) (f : Frame) (rest : List Frame) : Prop where
  base : Base t
  change : Local s t f.slot
  quiet : NoRequest t f.slot
  place : Place s t f.slot
  frames : t.frames = rest
  busy : t.busy = (s.busy && !f.info.excl)
  flags : t.stale = s.stale ∧ t.fault = s.fault ∧ t.verdicts = s.verdicts
  writes : ∀ w ∈ t.writes, w ∈ s.writes ∨ w = (f.requester, s.owner f.slot)
  info : (t.conns f.slot).info = (s.conns f.slot).info

theorem finished {f : Frame} {rest : List Frame} (answer : CtlAnswer) (base : Base s) (alive : s.fault = none)
    (set : (s.conns f.slot).info ≠ none) (inside : ∀ g ∈ rest, g ∈ s.frames) :
    Finished s (s.finish f rest answer) f rest := by
  have written := wrote_respond answer base set
  have fault : (s.respond f answer).fault.isSome = false := by
    rw [written.flags.2.2.1, alive]
    rfl
  have result : s.finish f rest answer =
      { ((s.respond f answer).handled f).releaseConnection f.slot with frames := rest } := by
    unfold finish
    simp only [fault]
    rfl
  have idle : Base ((s.respond f answer).updateConn f.slot { (s.respond f answer).conns f.slot with busy := false }) :=
    written.base.conn rfl rfl rfl (.inl rfl)
  have handled : Base ((s.respond f answer).handled f) := idle.like rfl rfl rfl rfl rfl rfl fun _ member => member
  have own : ((s.respond f answer).handled f).conns f.slot =
      { (s.respond f answer).conns f.slot with busy := false } := updateConn_same
  have set' : (((s.respond f answer).handled f).conns f.slot).info ≠ none := by
    rw [own]
    exact written.slot.2.2 ▸ set
  obtain ⟨released, quiet⟩ := acts_releaseConnection handled (.inl set')
  rw [result]
  refine ⟨?_, ?_, quiet, ?_, rfl, ?_, ?_, ?_, ?_⟩
  · refine released.base.like rfl rfl rfl rfl rfl rfl fun g member => ?_
    rw [released.keeps.frames]
    exact written.frames ▸ inside g member
  · refine written.change.trans (Local.trans ⟨fun j other => ⟨updateConn_of_ne other, rfl⟩, fun e member =>
      ⟨e, member, rfl, rfl, rfl, fun _ => rfl⟩⟩ ⟨released.change.conns, released.change.events⟩)
  · have idle_place : Place s ((s.respond f answer).handled f) f.slot := by
      refine .inl ⟨written.table.1, written.table.2, ?_, written.slot.2.1⟩
      rw [own]
      exact written.slot.1
    exact idle_place.trans released.place
  · refine released.keeps.busy.trans ?_
    rw [← written.flags.1]
    rfl
  · obtain ⟨-, stale, fault, verdicts⟩ := written.flags
    exact ⟨released.keeps.stale.trans stale, released.keeps.fault.trans fault, released.keeps.verdicts.trans verdicts⟩
  · intro w member
    refine written.writes w ?_
    rw [← show ((s.respond f answer).handled f).writes = (s.respond f answer).writes from rfl, ← released.keeps.writes]
    exact member
  · refine released.info.trans ?_
    rw [own]
    exact written.slot.2.2

def nextSlot (s : Control) : Nat := s.table.getD s.nConn 0

theorem Base.nextSlot_free (base : Base s) (room : s.nConn < ctlMaxConnections) :
    s.nextSlot ∈ s.table.drop s.nConn ∧ s.owner s.nextSlot = none ∧ s.table.drop s.nConn =
      s.nextSlot :: s.table.drop (s.nConn + 1) := by
  have inside : s.nConn < s.table.length := base.length_eq ▸ room
  have front : s.table.drop s.nConn = s.nextSlot :: s.table.drop (s.nConn + 1) := by
    rw [List.drop_eq_getElem_cons inside]
    unfold nextSlot
    rw [List.getD_eq_getElem _ _ inside]
  have member : s.nextSlot ∈ s.table.drop s.nConn := by rw [front]; exact List.mem_cons_self
  exact ⟨member, base.free _ member, front⟩

theorem Base.no_events (base : Base s) (free : s.owner k = none) : ∀ e ∈ s.events, e.slot ≠ k := by
  intro e member same
  cases callback : e.callback with
  | request => exact (base.request e member callback).1 (same ▸ free)
  | send => exact (base.send e member callback).1 (same ▸ free)

theorem base_connLeak (base : Base s) (room : s.nConn < ctlMaxConnections) : Base (s.connLeak s.nextSlot) := by
  obtain ⟨-, free, front⟩ := base.nextSlot_free room
  have none_there := base.no_events free
  have fields : ∀ j, (s.connLeak s.nextSlot).conns j =
      if j = s.nextSlot then { s.conns s.nextSlot with outEvent := -enomem } else s.conns j :=
    fun j => Function.update_apply ..
  constructor
  · exact base.perm
  · exact room
  · exact fun k member => base.free k (by rw [front]; exact List.mem_cons_of_mem _ member)
  · intro j taken
    have other : j ≠ s.nextSlot := fun same => taken (same ▸ free)
    rw [fields, if_neg other]
    exact base.owned j taken
  · intro j unowned
    have before := base.unowned j unowned
    rw [fields]
    split
    · rename_i same
      subst same
      exact ⟨by change -enomem < 0; decide, before.2⟩
    · exact before
  · exact base.ids
  · intro j
    rw [fields]
    split
    · change -enomem < _
      have size : (0 : Int) < enomem := by decide
      change -enomem < (s.uuid : Int)
      omega
    · exact base.bound j
  · intro e member j out
    have positive := (base.ids e member).1
    rw [fields] at out
    split at out
    · have size : (0 : Int) < enomem := by decide
      dsimp only at out
      omega
    · exact base.target e member j out
  · intro e member callback
    rw [fields, if_neg (none_there e member)]
    exact base.send e member callback
  · intro e member callback
    rw [fields, if_neg (none_there e member)]
    exact base.request e member callback
  · intro f member
    have before := base.frames f member
    rw [fields]
    split
    · rename_i same
      exact same ▸ before
    · exact before
  · exact base.positive

structure Opened (s t : Control) (k : Nat) (fd : Int) : Prop where
  conns : t.conns = Function.update s.conns k { s.conns k with outEvent := s.uuid, fd, prod := 0, cons := 0 }
  owner : t.owner = Function.update s.owner k (some s.made)
  events : t.events = s.events ++ [⟨s.uuid, .send, k, true⟩]
  table : t.table = s.table ∧ t.nConn = s.nConn + 1 ∧ t.uuid = s.uuid + 1
  frames : t.frames = s.frames ∧ t.busy = s.busy ∧ t.fault = s.fault ∧ t.writes = s.writes ∧ t.verdicts = s.verdicts
  stale : t.stale = (s.stale || (s.conns k).leftover)

theorem opened_connOpen (fd : Int) (base : Base s) : Opened s (s.connOpen k fd) k fd := by
  refine ⟨rfl, rfl, ?_, ⟨rfl, rfl, rfl⟩, ⟨rfl, rfl, rfl, rfl, rfl⟩, rfl⟩
  change List.map _ (s.events ++ [⟨s.uuid, .send, k, false⟩]) = _
  rw [List.map_append]
  congr 1
  · refine (List.map_congr_left fun e member => if_neg ?_).trans (List.map_id _)
    have below := (base.ids e member).2
    omega
  · simp

theorem Opened.base {fd : Int} (opened : Opened s t s.nextSlot fd) (base : Base s) (room : s.nConn < ctlMaxConnections)
    (usable : 0 ≤ fd) : Base t := by
  obtain ⟨inside, free, front⟩ := base.nextSlot_free room
  have none_there := base.no_events free
  obtain ⟨table, nConn, uuid⟩ := opened.table
  have conn : ∀ j, t.conns j = if j = s.nextSlot then
      { s.conns s.nextSlot with outEvent := s.uuid, fd, prod := 0, cons := 0 } else s.conns j := by
    intro j
    rw [opened.conns]
    exact Function.update_apply ..
  have owner : ∀ j, t.owner j = if j = s.nextSlot then some s.made else s.owner j := by
    intro j
    rw [opened.owner]
    exact Function.update_apply ..
  have nodup := base.nodup.sublist (List.drop_sublist s.nConn s.table)
  rw [front] at nodup
  constructor
  · rw [table]
    exact base.perm
  · rw [nConn]
    exact room
  · intro k member
    rw [table, nConn] at member
    have other : k ≠ s.nextSlot := fun same => (List.nodup_cons.mp nodup).1 (same ▸ member)
    rw [owner, if_neg other]
    exact base.free k (by rw [front]; exact List.mem_cons_of_mem _ member)
  · intro j taken
    rw [owner] at taken
    rw [conn, table]
    split
    · rename_i same
      subst same
      exact ⟨List.mem_of_mem_drop inside, usable, Int.natCast_nonneg _⟩
    · rename_i other
      rw [if_neg other] at taken
      exact base.owned j taken
  · intro j unowned
    rw [owner] at unowned
    rw [conn]
    split
    · rename_i same
      rw [if_pos same] at unowned
      cases unowned
    · rename_i other
      rw [if_neg other] at unowned
      exact base.unowned j unowned
  · intro e member
    rw [opened.events] at member
    rw [uuid]
    rcases List.mem_append.mp member with old | new
    · have before := base.ids e old
      omega
    · rw [List.mem_singleton.mp new]
      exact ⟨base.positive, Nat.lt_succ_self _⟩
  · intro j
    rw [conn, uuid]
    split
    · simp
    · have before := base.bound j
      omega
  · intro e member j out
    rw [opened.events] at member
    rw [conn] at out
    rcases List.mem_append.mp member with old | new
    · have before := base.ids e old
      split at out
      · dsimp only at out
        omega
      · exact base.target e old j out
    · rw [List.mem_singleton.mp new] at out ⊢
      split at out
      · exact (‹j = s.nextSlot›).symm
      · have before := base.bound j
        dsimp only at out
        omega
  · intro e member callback
    rw [opened.events] at member
    rw [owner, conn]
    rcases List.mem_append.mp member with old | new
    · rw [if_neg (none_there e old), if_neg (none_there e old)]
      exact base.send e old callback
    · rw [List.mem_singleton.mp new, if_pos rfl, if_pos rfl]
      exact ⟨by simp, rfl⟩
  · intro e member callback
    rw [opened.events] at member
    rw [owner, conn]
    rcases List.mem_append.mp member with old | new
    · rw [if_neg (none_there e old), if_neg (none_there e old)]
      exact base.request e old callback
    · rw [List.mem_singleton.mp new] at callback
      cases callback
  · intro f member
    rw [opened.frames.1] at member
    have before := base.frames f member
    rw [conn]
    split
    · rename_i same
      exact same ▸ before
    · exact before
  · rw [uuid]
    exact Nat.succ_pos _

theorem Base.register_request (base : Base s) (taken : s.owner k ≠ none) (own : (s.conns k).inEvent = s.uuid) :
    Base (s.register .request k) := by
  refine ⟨base.perm, base.nConn, base.free, base.owned, base.unowned, ?_, ?_, ?_, ?_, ?_, base.frames,
    Nat.succ_pos _⟩
  · intro e member
    change 0 < e.id ∧ e.id < s.uuid + 1
    rcases List.mem_append.mp member with old | new
    · have before := base.ids e old
      omega
    · rw [List.mem_singleton.mp new]
      exact ⟨base.positive, Nat.lt_succ_self _⟩
  · intro j
    have before := base.bound j
    change (s.conns j).outEvent < ((s.uuid + 1 : Nat) : Int)
    omega
  · intro e member j out
    rcases List.mem_append.mp member with old | new
    · exact base.target e old j out
    · have before := base.bound j
      rw [List.mem_singleton.mp new] at out
      exact absurd out (Int.ne_of_lt before)
  · intro e member callback
    rcases List.mem_append.mp member with old | new
    · exact base.send e old callback
    · rw [List.mem_singleton.mp new] at callback
      cases callback
  · intro e member callback
    rcases List.mem_append.mp member with old | new
    · exact base.request e old callback
    · rw [List.mem_singleton.mp new]
      exact ⟨taken, own⟩

theorem base_openIn {inOk : Bool} (base : Base s) (taken : s.owner k ≠ none) (quiet : NoRequest s k) :
    Base (s.openIn k inOk) := by
  unfold openIn
  split
  · have set := base.setIn quiet s.uuid
    exact set.register_request taken (by rw [updateConn_same]; rfl)
  · exact base.setIn quiet _

theorem openIn_fields (s : Control) (k : Nat) (inOk : Bool) :
    (∃ id, (s.openIn k inOk).conns = Function.update s.conns k { s.conns k with inEvent := id }) ∧
      (∃ added, (s.openIn k inOk).events = s.events ++ added ∧ ∀ e ∈ added, e.callback = .request ∧ e.slot = k) := by
  unfold openIn
  split
  · exact ⟨⟨s.uuid, rfl⟩, [⟨s.uuid, .request, k, false⟩], rfl, by simp⟩
  · exact ⟨⟨-enomem, rfl⟩, [], (List.append_nil _).symm, by simp⟩

def Whole (s : Control) : Prop := Base s ∧ ∀ k, Calm s k

theorem Whole.local (whole : Whole s) (base : Base t) (change : Local s t k) (calm : Calm t k) : Whole t := by
  refine ⟨base, fun j => ?_⟩
  by_cases same : j = k
  · exact same ▸ calm
  · exact change.calm same (whole.2 j)

theorem Whole.accept {fd : Int} {outOk inOk : Bool} (whole : Whole s) (result : -1 ≤ fd) :
    Whole (s.accept fd outOk inOk) := by
  obtain ⟨base, calm⟩ := whole
  unfold Control.accept
  split
  · exact ⟨base, calm⟩
  · split
    · exact ⟨base, calm⟩
    · rename_i usable room
      have room := not_le.mp room
      have usable : 0 ≤ fd := by omega
      obtain ⟨-, free, -⟩ := base.nextSlot_free room
      have none_there := base.no_events free
      change Whole (if outOk then (s.connOpen s.nextSlot fd).openIn s.nextSlot inOk else s.connLeak s.nextSlot)
      split
      · have opened := opened_connOpen (k := s.nextSlot) fd base
        have base' := opened.base base room usable
        have taken : (s.connOpen s.nextSlot fd).owner s.nextSlot ≠ none := by
          rw [opened.owner, Function.update_self]
          simp
        have quiet : NoRequest (s.connOpen s.nextSlot fd) s.nextSlot := by
          intro e member callback
          rw [opened.events] at member
          rcases List.mem_append.mp member with old | new
          · exact none_there e old
          · rw [List.mem_singleton.mp new] at callback
            cases callback
        obtain ⟨⟨id, conns⟩, added, events, own⟩ := openIn_fields (s.connOpen s.nextSlot fd) s.nextSlot inOk
        rw [opened.events] at events
        have sends : ∀ e ∈ ((s.connOpen s.nextSlot fd).openIn s.nextSlot inOk).events, e.callback = .send →
            e ∈ s.events ∨ e.masked := by
          intro e member callback
          rw [events, List.append_assoc] at member
          rcases List.mem_append.mp member with old | new
          · exact .inl old
          · rcases List.mem_cons.mp new with rfl | new
            · exact .inr rfl
            · cases callback.symm.trans (own e new).1
        have requests : ∀ e ∈ ((s.connOpen s.nextSlot fd).openIn s.nextSlot inOk).events,
            e ∈ s.events ∨ e.slot = s.nextSlot := by
          intro e member
          rw [events, List.append_assoc] at member
          rcases List.mem_append.mp member with old | new
          · exact .inl old
          · rcases List.mem_cons.mp new with rfl | new
            · exact .inr rfl
            · exact .inr (own e new).2
        have conn : ∀ j, (((s.connOpen s.nextSlot fd).openIn s.nextSlot inOk).conns j).prod =
            (if j = s.nextSlot then 0 else (s.conns j).prod) ∧
            (((s.connOpen s.nextSlot fd).openIn s.nextSlot inOk).conns j).cons =
            (if j = s.nextSlot then 0 else (s.conns j).cons) := by
          intro j
          rw [conns, opened.conns]
          by_cases same : j = s.nextSlot
          · simp [same]
          · simp [same]
        refine ⟨base_openIn base' taken quiet, fun j e member callback slot => ?_⟩
        obtain ⟨prod, cons⟩ := conn j
        rw [prod, cons]
        by_cases same : j = s.nextSlot
        · refine ⟨if_pos same, if_pos same, fun e' member' callback' slot' => ?_⟩
          rcases sends e' member' callback' with old | masked
          · exact absurd (slot'.trans same) (none_there e' old)
          · exact masked
        · rcases requests e member with old | own
          · obtain ⟨prod, cons, masked⟩ := calm j e old callback slot
            refine ⟨(if_neg same).trans prod, (if_neg same).trans cons, fun e' member' callback' slot' => ?_⟩
            rcases sends e' member' callback' with old' | masked'
            · exact masked e' old' callback' slot'
            · exact masked'
          · exact absurd (slot ▸ own) same
      · refine ⟨base_connLeak base room, fun j e member callback slot => ?_⟩
        have other : j ≠ s.nextSlot := fun same => none_there e member (slot.trans same)
        obtain ⟨prod, cons, masked⟩ := calm j e member callback slot
        have conn : (s.connLeak s.nextSlot).conns j = s.conns j := Function.update_of_ne other _ _
        rw [conn]
        exact ⟨prod, cons, masked⟩

theorem connWrite_prod {requester : Option Nat} (empty : (s.conns k).prod = 0) :
    ((s.connWrite k requester messageSize).conns k).prod = messageSize := by
  have size : min (room (s.conns k)) messageSize = messageSize := by
    unfold room
    rw [empty]
    decide
  unfold connWrite
  simp only [size]
  rw [if_neg (by decide)]
  change (Function.update s.conns k { s.conns k with prod := (s.conns k).prod + messageSize } k).prod = _
  rw [Function.update_self, empty]
  exact Int.zero_add _

structure Refused (s t : Control) (k : Nat) : Prop where
  base : Base t
  change : Local s t k
  quiet : NoRequest t k
  place : Place s t k
  same : t.frames = s.frames ∧ t.busy = s.busy ∧ t.stale = s.stale ∧ t.fault = s.fault
  writes : ∀ w ∈ t.writes, w ∈ s.writes ∨ w = (s.owner k, s.owner k)
  verdicts : ∃ count, t.verdicts = .answered count true :: s.verdicts ∧
    ((s.conns k).prod = 0 → count = messageSize)

theorem refused (sent : Nat) (base : Base s) (alive : s.fault = none) (set : (s.conns k).info ≠ none) :
    Refused s (s.refuse k sent) k := by
  have write_eq : s.writeMessage k (s.owner k) = s.connWrite k (s.owner k) messageSize := by
    unfold writeMessage
    split
    · rfl
    · exact absurd ‹_› set
  have wrote : Wrote s (s.connWrite k (s.owner k) messageSize) k (s.owner k) := wrote_connWrite base
  have fault : (s.connWrite k (s.owner k) messageSize).fault.isSome = false := by
    rw [wrote.flags.2.2.1, alive]
    rfl
  have set' : ((s.connWrite k (s.owner k) messageSize).conns k).info ≠ none := wrote.slot.2.2 ▸ set
  obtain ⟨closed, quiet, shut⟩ := acts_closeConnection sent wrote.base (.inl set')
  have result : s.refuse k sent = { (s.connWrite k (s.owner k) messageSize).closeConnection k sent with
      verdicts := .answered (((s.connWrite k (s.owner k) messageSize).conns k).prod - (s.conns k).prod) true ::
        s.verdicts } := by
    unfold refuse
    simp only [write_eq, fault, shut]
    rfl
  obtain ⟨fd, owner, -⟩ := wrote.slot
  obtain ⟨busy, stale, fault', -⟩ := wrote.flags
  have moved : Place s ((s.connWrite k (s.owner k) messageSize).closeConnection k sent) k :=
    Place.trans (.inl ⟨wrote.table.1, wrote.table.2, fd, owner⟩) closed.place
  rw [result]
  refine ⟨closed.base.like rfl rfl rfl rfl rfl rfl fun _ member => member, wrote.change.trans
    ⟨closed.change.conns, closed.change.events⟩, quiet, moved, ⟨closed.keeps.frames.trans wrote.frames,
    closed.keeps.busy.trans busy, closed.keeps.stale.trans stale, closed.keeps.fault.trans fault'⟩, ?_, _, rfl, ?_⟩
  · intro w member
    refine wrote.writes w ?_
    rw [← closed.keeps.writes]
    exact member
  · intro empty
    rw [connWrite_prod empty, empty, Int.sub_zero]

theorem refuse_unset {sent : Nat} (unset : (s.conns k).info = none) : s.refuse k sent = s.fail .info := by
  have write_eq : s.writeMessage k (s.owner k) = s.fail .info := by
    unfold writeMessage
    rw [unset]
  unfold refuse
  simp only [write_eq]
  rfl

theorem Whole.like (whole : Whole s) (table : t.table = s.table) (nConn : t.nConn = s.nConn) (conns : t.conns = s.conns)
    (owner : t.owner = s.owner) (events : t.events = s.events) (uuid : t.uuid = s.uuid)
    (frames : ∀ f ∈ t.frames, f ∈ s.frames) : Whole t :=
  ⟨whole.1.like table nConn conns owner events uuid frames, fun k => (whole.2 k).like conns events⟩

theorem Whole.refuse {sent : Nat} (whole : Whole s) (alive : s.fault = none) : Whole (s.refuse k sent) := by
  by_cases unset : (s.conns k).info = none
  · rw [refuse_unset unset]
    exact whole.like rfl rfl rfl rfl rfl rfl fun _ member => member
  · have refused := refused sent whole.1 alive unset
    exact whole.local refused.base refused.change refused.quiet.calm

theorem Whole.entered {f : Frame} {type : Nat} (whole : Whole s) (taken : s.owner f.slot ≠ none) :
    Whole (s.entered f type) := by
  obtain ⟨base, calm⟩ := whole
  have base' : Base (s.updateConn f.slot { s.conns f.slot with busy := true, info := some f.info }) :=
    base.conn rfl rfl rfl (.inr ⟨by simp, taken⟩)
  have frames : ∀ g ∈ f :: s.frames,
      ((s.updateConn f.slot { s.conns f.slot with busy := true, info := some f.info }).conns g.slot).info ≠ none := by
    intro g member
    rcases List.mem_cons.mp member with rfl | old
    · rw [updateConn_same]
      simp
    · exact base'.frames g old
  refine ⟨⟨base'.perm, base'.nConn, base'.free, base'.owned, base'.unowned, base'.ids, base'.bound, base'.target,
    base'.send, base'.request, frames, base'.positive⟩, fun j e member callback slot => ?_⟩
  obtain ⟨prod, cons, masked⟩ := calm j e member callback slot
  refine ⟨?_, ?_, masked⟩
  · refine Eq.trans ?_ prod
    change (Function.update s.conns f.slot _ j).prod = _
    by_cases same : j = f.slot
    · rw [same, Function.update_self]
    · rw [Function.update_of_ne same]
  · refine Eq.trans ?_ cons
    change (Function.update s.conns f.slot _ j).cons = _
    by_cases same : j = f.slot
    · rw [same, Function.update_self]
    · rw [Function.update_of_ne same]

theorem Whole.finish {f : Frame} {rest : List Frame} {answer : CtlAnswer} (whole : Whole s) (alive : s.fault = none)
    (set : (s.conns f.slot).info ≠ none) (inside : ∀ g ∈ rest, g ∈ s.frames) : Whole (s.finish f rest answer) := by
  have finished := finished answer whole.1 alive set inside
  exact whole.local finished.base finished.change finished.quiet.calm

theorem entered_info (s : Control) (f : Frame) (type : Nat) : ((s.entered f type).conns f.slot).info = some f.info := by
  change (Function.update s.conns f.slot _ f.slot).info = _
  rw [Function.update_self]

theorem Whole.dispatch {info : ControlInfo} {m : Message} {answer : CtlAnswer} (whole : Whole s)
    (alive : s.fault = none) (taken : s.owner k ≠ none) : Whole (s.dispatch k info m answer) := by
  have running : Whole (s.entered ⟨k, s.owner k, info, false⟩ m.type) := whole.entered taken
  unfold Control.dispatch
  simp only
  split
  · exact running.like rfl rfl rfl rfl rfl rfl fun _ member => member
  · split
    · exact running
    · refine running.finish alive ?_ fun g member => List.mem_cons_of_mem _ member
      rw [entered_info]
      simp

theorem Whole.handleRequest {input : List UInt8} {answer : CtlAnswer} {sent : Nat} (whole : Whole s)
    (alive : s.fault = none) (taken : s.owner k ≠ none) : Whole (s.handleRequest k input answer sent) := by
  unfold Control.handleRequest
  split
  · obtain ⟨closed, quiet, -⟩ := acts_closeConnection sent whole.1 (.inr taken)
    have whole' : Whole (s.closeConnection k sent) := whole.local closed.base closed.change quiet.calm
    exact whole'.like rfl rfl rfl rfl rfl rfl fun _ member => member
  · simp only
    split
    · exact whole.refuse alive
    · split
      · exact whole.refuse alive
      · split
        · exact whole.refuse alive
        · split
          · exact whole.like rfl rfl rfl rfl rfl rfl fun _ member => member
          · split
            · exact whole.refuse alive
            · split
              · exact whole.refuse alive
              · exact whole.dispatch alive taken

structure Sent (s t : Control) (k : Nat) : Prop where
  base : Base t
  change : Local s t k
  quiet : NoRequest t k
  keeps : Keeps s t
  place : Place s t k

theorem sent_sendEvent {e : CtlEvent} (n : Nat) (ending : SendEnd) (timeout : Bool) (whole : Whole s)
    (member : e ∈ s.events) (callback : e.callback = .send) (unmasked : e.masked = false) :
    Sent s (s.sendEvent e.slot n ending timeout) e.slot := by
  obtain ⟨base, calm⟩ := whole
  have quiet : NoRequest s e.slot := by
    intro e' member' callback' same
    have masked := (calm e.slot e' member' callback' same).2.2 e member callback rfl
    rw [unmasked] at masked
    cases masked
  obtain ⟨taken, out⟩ := base.send e member callback
  have pushed : Acts s (s.sendBuf e.slot n) e.slot := acts_updateConn base rfl rfl rfl rfl
  have quiet' := pushed.change.noRequest quiet
  have closed := (acts_connClose pushed.base quiet' (pushed.used (.inr taken))).1
  have shut : Sent s ((s.sendBuf e.slot n).connClose e.slot) e.slot :=
    ⟨closed.base, pushed.change.trans closed.change, closed.change.noRequest quiet', pushed.keeps.trans closed.keeps,
      pushed.place.trans closed.place⟩
  cases ending with
  | again => exact ⟨pushed.base, pushed.change, quiet', pushed.keeps, pushed.place⟩
  | failed => exact shut
  | drained =>
      simp only [sendEvent]
      split
      · exact shut
      · have own : ((s.sendBuf e.slot n).conns e.slot).outEvent = (s.conns e.slot).outEvent := by
          unfold sendBuf
          rw [updateConn_same]
        have masked := pushed.base.local_mask (k := e.slot) true
        rw [own] at masked
        refine ⟨pushed.base.mask, pushed.change.trans masked, masked.noRequest quiet', pushed.keeps.trans
          ⟨rfl, rfl, rfl, rfl, rfl, rfl, rfl⟩, pushed.place.trans (.inl ⟨rfl, rfl, rfl, rfl⟩)⟩

theorem dispatchable_eq {id : Nat} {callback : CtlCallback} {e : CtlEvent}
    (found : s.dispatchable id callback = some e) : e ∈ s.events ∧ e.callback = callback ∧ e.masked = false := by
  have meets := List.find?_some found
  simp only [decide_eq_true_eq] at meets
  exact ⟨List.mem_of_find?_eq_some found, meets.2⟩

theorem step_alive {e : CtlStep} (action : step s e = some t) : s.fault = none := by
  unfold step at action
  split at action
  · cases action
  · rename_i running
    simpa using running

theorem resume_cases {r : Resume} {answer : CtlAnswer} (action : s.resume r answer = some t) :
    ∃ f rest, s.frames = f :: rest ∧ (t = s ∨ t = s.finish f rest answer ∨
      t = { s with frames := { f with draining := true } :: rest }) := by
  simp only [Control.resume] at action
  split at action
  · cases action
  · rename_i f rest frames
    refine ⟨f, rest, frames, ?_⟩
    split at action
    · exact .inr (.inl (Option.some.inj action).symm)
    · cases r with
      | again => exact .inl (Option.some.inj action).symm
      | finish => exact .inr (.inl (Option.some.inj action).symm)
      | drain =>
          simp only at action
          split at action
          · exact .inr (.inr (Option.some.inj action).symm)
          · cases action

theorem Whole.step {e : CtlStep} (whole : Whole s) (action : step s e = some t) : Whole t := by
  have alive := step_alive action
  unfold Control.step at action
  split at action
  · cases action
  · cases e with
    | accept fd outOk inOk =>
        simp only at action
        split at action
        · cases action
        · rename_i usable
          cases Option.some.inj action
          exact whole.accept (not_lt.mp (not_or.mp usable).2)
    | request id input answer sent =>
        obtain ⟨e, found, rfl⟩ := Option.map_eq_some_iff.mp action
        obtain ⟨member, callback, -⟩ := dispatchable_eq found
        exact whole.handleRequest alive (whole.1.request e member callback).1
    | send id sent ending timeout =>
        obtain ⟨e, found, rest⟩ := Option.bind_eq_some_iff.mp action
        obtain ⟨member, callback, unmasked⟩ := dispatchable_eq found
        simp only at rest
        split at rest
        · cases Option.some.inj rest
          have sent := sent_sendEvent sent ending timeout whole member callback unmasked
          exact whole.local sent.base sent.change sent.quiet.calm
        · cases rest
    | resume r answer =>
        obtain ⟨f, rest, frames, result⟩ := resume_cases action
        have member : f ∈ s.frames := frames ▸ List.mem_cons_self
        have inside : ∀ g ∈ rest, g ∈ s.frames := fun g inside => frames ▸ List.mem_cons_of_mem _ inside
        have set := whole.1.frames f member
        rcases result with rfl | rfl | rfl
        · exact whole
        · exact whole.finish alive set inside
        · refine ⟨⟨whole.1.perm, whole.1.nConn, whole.1.free, whole.1.owned, whole.1.unowned, whole.1.ids,
            whole.1.bound, whole.1.target, whole.1.send, whole.1.request, ?_, whole.1.positive⟩, whole.2⟩
          intro g inside'
          rcases List.mem_cons.mp inside' with rfl | old
          · exact set
          · exact whole.1.frames g (inside g old)

theorem whole_init : Whole init := by
  have slots : (List.range ctlMaxConnections).Perm (List.range ctlMaxConnections) := .rfl
  refine ⟨⟨slots, Nat.zero_le _, fun _ _ => rfl, fun _ taken => absurd rfl taken, fun _ _ => ⟨neg_one_lt_zero, fun _ => rfl⟩,
    fun _ member => (nomatch member), fun _ => ?_, fun _ member => (nomatch member), fun _ member => (nomatch member),
    fun _ member => (nomatch member), fun _ member => (nomatch member), by decide⟩, fun _ _ member => (nomatch member)⟩
  change (-1 : Int) < ((2 : Nat) : Int)
  decide

def plainMessage (type : UInt8) : List UInt8 := type :: List.replicate 535 0

end Control
end Blktap.Tapdisk
