import Blktap.Tapdisk.TqueueRuns
import Mathlib.Data.List.Chain
import Mathlib.Data.List.Nodup

/-! # The links of the queue -/

namespace Blktap.Tapdisk.Tqueue
variable {next : Nat → Option Nat} {l : List Nat} {p : Nat} {v : Option Nat}

def Chained (next : Nat → Option Nat) (l : List Nat) : Prop := l.IsChain fun a b => next a = some b

theorem Chained.congr {next' : Nat → Option Nat} (chained : Chained next l) (same : ∀ a ∈ l, next' a = next a) :
    Chained next' l := by
  apply List.IsChain.imp_of_mem_imp ?_ chained
  intro a b first _ link
  rw [same a first, link]

theorem Chained.away (chained : Chained next l) (away : p ∉ l) : Chained (Function.update next p v) l := by
  apply chained.congr
  intro a member
  refine Function.update_of_ne ?_ _ _
  rintro rfl
  exact away member

theorem Chained.append {last t : Nat} (chained : Chained next l) (nodup : l.Nodup) (end' : l.getLast? = some last) :
    Chained (Function.update next last (some t)) (l ++ [t]) := by
  obtain ⟨front, rfl⟩ := List.getLast?_eq_some_iff.mp end'
  rw [List.nodup_append] at nodup
  obtain ⟨-, -, apart⟩ := nodup
  have parts := List.isChain_append.mp chained
  apply List.isChain_append.mpr
  refine ⟨List.isChain_append.mpr ⟨?_, List.isChain_singleton _, ?_⟩, List.isChain_singleton _, ?_⟩
  · exact Chained.away parts.1 fun member => apart last member last (List.mem_singleton_self _) rfl
  · intro a before b here
    have away : a ≠ last := apart a (List.mem_of_mem_getLast? before) last (List.mem_singleton_self _)
    rw [Function.update_of_ne away]
    exact parts.2.2 a before b here
  · intro a before b here
    simp only [List.getLast?_append, List.getLast?_singleton, Option.some_or, Option.mem_def,
      Option.some.injEq] at before
    simp only [List.head?_cons, Option.mem_def, Option.some.injEq] at here
    rw [← before, ← here, Function.update_self]

namespace Queue
variable {q : Queue} {deferred : List Nat}

structure Links (q : Queue) (deferred : List Nat) : Prop where
  queued : Chained q.next q.queued
  chained : Chained q.next deferred
  ends : q.deferred = deferred.head?.bind fun head => deferred.getLast?.map fun tail => (head, tail)
  last : ∀ tail ∈ deferred.getLast?, q.next tail = none
  nodup : (deferred ++ q.queued).Nodup

theorem Links.deferred_none (links : q.Links deferred) : q.deferred = none ↔ deferred = [] := by
  rw [links.ends]
  cases deferred with
  | nil => simp
  | cons head rest => simp [List.getLast?_cons]

theorem Links.deferred_some {head tail : Nat} (links : q.Links deferred) (here : q.deferred = some (head, tail)) :
    deferred.head? = some head ∧ deferred.getLast? = some tail := by
  rw [links.ends] at here
  obtain ⟨_, first, rest⟩ := Option.bind_eq_some_iff.mp here
  obtain ⟨_, last, same⟩ := Option.map_eq_some_iff.mp rest
  cases same
  exact ⟨first, last⟩

structure Relinks (q after : Queue) (deferred deferred' : List Nat) (new : List Nat) : Prop where
  links : after.Links deferred'
  perm : (deferred' ++ after.queued).Perm (new ++ (deferred ++ q.queued))
  inFlight : after.inFlight = q.inFlight
  others : ∀ t, t ∉ deferred ++ q.queued → t ∉ new → after.next t = q.next t

theorem queueTiocb_links {t : Nat} (links : q.Links deferred) (fresh : t ∉ deferred ++ q.queued) :
    Relinks q (q.queueTiocb t) deferred deferred [t] := by
  rw [List.mem_append, not_or] at fresh
  have nodup := List.nodup_append.mp links.nodup
  have apart : ∀ last ∈ q.queued, last ∉ deferred := fun last member inside => nodup.2.2 last inside last member rfl
  have perm : (deferred ++ (q.queued ++ [t])).Perm ([t] ++ (deferred ++ q.queued)) := by
    rw [← List.append_assoc]
    exact List.perm_append_comm
  have all : (deferred ++ (q.queued ++ [t])).Nodup :=
    perm.nodup_iff.mpr (List.nodup_cons.mpr ⟨by simp [fresh], links.nodup⟩)
  cases end' : q.queued.getLast? with
  | none =>
      have empty : q.queued = [] := List.getLast?_eq_none_iff.mp end'
      have same : (q.queueTiocb t).next = q.next := by
        simp only [queueTiocb, end']
      refine ⟨⟨?_, ?_, links.ends, ?_, all⟩, perm, rfl, fun _ _ _ => by rw [same]⟩
      · simp only [queueTiocb, empty, List.nil_append]
        exact List.isChain_singleton _
      · rw [same]
        exact links.chained
      · rw [same]
        exact links.last
  | some last =>
      have member : last ∈ q.queued := List.mem_of_mem_getLast? end'
      have same : (q.queueTiocb t).next = Function.update q.next last (some t) := by
        simp only [queueTiocb, end']
      refine ⟨⟨?_, ?_, links.ends, ?_, all⟩, perm, rfl, ?_⟩
      · rw [same]
        exact links.queued.append nodup.2.1 end'
      · rw [same]
        exact links.chained.away (apart last member)
      · intro tail inside
        rw [same, Function.update_of_ne]
        · exact links.last tail inside
        · rintro rfl
          exact apart tail member (List.mem_of_mem_getLast? inside)
      · intro other outside _
        rw [same, Function.update_of_ne]
        rintro rfl
        exact outside (List.mem_append_right _ member)

theorem deferTiocb_links {t : Nat} (links : q.Links deferred) (fresh : t ∉ deferred ++ q.queued)
    (unlinked : q.next t = none) : Relinks q (q.deferTiocb t) deferred (deferred ++ [t]) [t] := by
  have parts := fresh
  rw [List.mem_append, not_or] at parts
  have nodup := List.nodup_append.mp links.nodup
  have perm : ((deferred ++ [t]) ++ q.queued).Perm ([t] ++ (deferred ++ q.queued)) :=
    (List.perm_append_comm.append_right _).trans (by rw [List.append_assoc])
  have all : ((deferred ++ [t]) ++ q.queued).Nodup :=
    perm.nodup_iff.mpr (List.nodup_cons.mpr ⟨fresh, links.nodup⟩)
  unfold deferTiocb
  cases here : q.deferred with
  | none =>
      obtain rfl : deferred = [] := links.deferred_none.mp here
      refine ⟨⟨links.queued, List.isChain_singleton _, rfl, ?_, all⟩, perm, rfl, fun _ _ _ => rfl⟩
      intro tail inside
      obtain rfl : t = tail := by simpa using inside
      exact unlinked
  | some list =>
      obtain ⟨head, tail⟩ := list
      obtain ⟨first, last⟩ := links.deferred_some here
      have member : tail ∈ deferred := List.mem_of_mem_getLast? last
      refine ⟨⟨links.queued.away ?_, links.chained.append nodup.1 last, ?_, ?_, all⟩, perm, rfl, ?_⟩
      · exact fun inside => nodup.2.2 tail member tail inside rfl
      · simp [List.head?_append, first]
      · intro end' inside
        obtain rfl : t = end' := by simpa using inside
        refine (Function.update_of_ne ?_ _ _).trans unlinked
        rintro rfl
        exact parts.1 member
      · intro other outside _
        refine Function.update_of_ne ?_ _ _
        rintro rfl
        exact outside (List.mem_append_left _ member)

theorem tapdiskQueueTiocb_links {t : Nat} (links : q.Links deferred) (fresh : t ∉ deferred ++ q.queued) :
    ∃ deferred', Relinks q (q.tapdiskQueueTiocb t) deferred deferred' [t] := by
  let prepared : Queue := { q with next := Function.update q.next t none }
  have parts := fresh
  rw [List.mem_append, not_or] at parts
  have before : prepared.Links deferred := by
    refine ⟨links.queued.away parts.2, links.chained.away parts.1, links.ends, ?_, links.nodup⟩
    intro tail inside
    refine (Function.update_of_ne ?_ _ _).trans (links.last tail inside)
    rintro rfl
    exact parts.1 (List.mem_of_mem_getLast? inside)
  have kept : ∀ other, other ∉ [t] → prepared.next other = q.next other := by
    intro other away
    exact Function.update_of_ne (List.ne_of_not_mem_cons away) _ _
  have relinks : ∀ {after : Queue} {deferred' : List Nat}, Relinks prepared after deferred deferred' [t] →
      Relinks q after deferred deferred' [t] := by
    rintro after deferred' ⟨links, perm, inFlight, others⟩
    exact ⟨links, perm, inFlight, fun other outside away => (others other outside away).trans (kept other away)⟩
  by_cases room : (!prepared.full) = true
  · have same : q.tapdiskQueueTiocb t = prepared.queueTiocb t := if_pos room
    exact ⟨_, same ▸ relinks (queueTiocb_links before fresh)⟩
  · have same : q.tapdiskQueueTiocb t = prepared.deferTiocb t := if_neg room
    exact ⟨_, same ▸ relinks (deferTiocb_links before fresh (Function.update_self ..))⟩

theorem queueDeferredTiocb_links (links : q.Links deferred) :
    ∃ deferred', Relinks q q.queueDeferredTiocb deferred deferred' [] := by
  cases deferred with
  | nil =>
      have none' := links.deferred_none.mpr rfl
      have same : q.queueDeferredTiocb = q := by
        simp only [queueDeferredTiocb, none']
      rw [same]
      exact ⟨[], links, List.Perm.refl _, rfl, fun _ _ _ => rfl⟩
  | cons head rest =>
      obtain ⟨tail, last⟩ : ∃ tail, (head :: rest).getLast? = some tail := ⟨_, List.getLast?_cons⟩
      have here : q.deferred = some (head, tail) := by
        rw [links.ends, last]
        rfl
      have nodup := links.nodup
      rw [List.cons_append, List.nodup_cons] at nodup
      let popped : Queue := { q with deferred := (q.next head).map fun head => (head, tail) }
      have before : popped.Links rest := by
        refine ⟨links.queued, links.chained.tail, ?_, ?_, nodup.2⟩
        · cases rest with
          | nil =>
              obtain rfl : head = tail := by simpa using last
              simp only [popped, links.last head rfl]
              rfl
          | cons second rest =>
              have link : q.next head = some second := links.chained.rel
              have last' : (second :: rest).getLast? = some tail := by
                rw [← last, List.getLast?_cons_cons]
              simp only [popped, link, last']
              rfl
        · intro tail' inside
          apply links.last
          cases rest with
          | nil => cases inside
          | cons second rest => rwa [List.getLast?_cons_cons]
      obtain ⟨after, perm, inFlight, others⟩ := queueTiocb_links (q := popped) before nodup.1
      have same : q.queueDeferredTiocb =
          { popped.queueTiocb head with tiocbsDeferred := (popped.queueTiocb head).tiocbsDeferred - 1 } := by
        simp only [queueDeferredTiocb, here]
        rfl
      rw [same]
      refine ⟨rest, ⟨after.queued, after.chained, after.ends, after.last, after.nodup⟩, perm, inFlight, ?_⟩
      intro other outside _
      rw [List.cons_append, List.mem_cons, not_or] at outside
      exact others other outside.2 (by simpa using outside.1)

theorem Relinks.trans {q' q'' : Queue} {deferred' deferred'' : List Nat} (first : Relinks q q' deferred deferred' [])
    (second : Relinks q' q'' deferred' deferred'' []) : Relinks q q'' deferred deferred'' [] where
  links := second.links
  perm := second.perm.trans first.perm
  inFlight := second.inFlight.trans first.inFlight
  others t outside away := by
    rw [second.others t (fun inside => outside (first.perm.mem_iff.mp inside)) away, first.others t outside away]

theorem queueDeferredTiocbs_links (places : Nat) (links : q.Links deferred) :
    ∃ deferred', Relinks q (q.queueDeferredTiocbs places) deferred deferred' [] := by
  induction places generalizing q deferred with
  | zero => exact ⟨deferred, links, List.Perm.refl _, rfl, fun _ _ _ => rfl⟩
  | succ places ih =>
      unfold queueDeferredTiocbs
      split
      · obtain ⟨deferred', one⟩ := queueDeferredTiocb_links links
        obtain ⟨deferred'', rest⟩ := ih one.links
        exact ⟨deferred'', one.trans rest⟩
      · exact ⟨deferred, links, List.Perm.refl _, rfl, fun _ _ _ => rfl⟩

end Queue
end Blktap.Tapdisk.Tqueue
