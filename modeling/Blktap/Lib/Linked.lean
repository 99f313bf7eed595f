import Blktap.Lib.TailQueue

/-!
# Tail queues that are lists in both directions

`Linked` is for a user who takes entries off anywhere in a queue, where the links back count as much as the
links forward. Every operation says what it does to the list of the queue.
-/

namespace Blktap.Lib
universe u v

namespace TailQueues
variable {κ : Type u} {ι : Type v} [DecidableEq κ] [DecidableEq ι] {t t' : TailQueues κ ι} {q q' : κ} {e : ι}
  {l l₁ l₂ : List ι} {source stop mid : QueueLink κ ι}

def Segment (t : TailQueues κ ι) (source : QueueLink κ ι) : List ι → QueueLink κ ι → Prop
  | [], stop => source = stop
  | e :: l, stop => t.read source = some e ∧ t.prev e = some source ∧ t.Segment (.next e) l stop

structure Linked (t : TailQueues κ ι) (q : κ) (l : List ι) : Prop where
  segment : t.Segment (.first q) l (t.last q)
  ends : t.read (t.last q) = none
  nodup : l.Nodup

def holds (t : TailQueues κ ι) (bound : Nat) (q : κ) (e : ι) : Bool :=
  match t.walk bound (t.first q) with
  | some l => decide (e ∈ l)
  | none => false

def wipe (t : TailQueues κ ι) (e : ι) : TailQueues κ ι :=
  { t with next := Function.update t.next e none, prev := Function.update t.prev e none }

omit [DecidableEq κ] [DecidableEq ι] in
theorem segment_append : t.Segment source (l₁ ++ l₂) stop ↔ ∃ mid, t.Segment source l₁ mid ∧ t.Segment mid l₂ stop := by
  induction l₁ generalizing source with
  | nil => exact ⟨fun rest => ⟨source, rfl, rest⟩, fun ⟨_, same, rest⟩ => same ▸ rest⟩
  | cons e l₁ ih =>
      constructor
      · rintro ⟨first, back, rest⟩
        obtain ⟨mid, before, after⟩ := ih.mp rest
        exact ⟨mid, ⟨first, back, before⟩, after⟩
      · rintro ⟨mid, ⟨first, back, before⟩, after⟩
        exact ⟨first, back, ih.mpr ⟨mid, before, after⟩⟩

omit [DecidableEq κ] [DecidableEq ι] in
theorem Segment.stop_eq (segment : t.Segment source l stop) :
    stop = source ∧ l = [] ∨ ∃ e ∈ l, stop = .next e := by
  induction l generalizing source with
  | nil => exact .inl ⟨segment.symm, rfl⟩
  | cons e l ih =>
      rcases ih segment.2.2 with ⟨same, -⟩ | ⟨f, member, same⟩
      · exact .inr ⟨e, List.mem_cons_self, same⟩
      · exact .inr ⟨f, List.mem_cons_of_mem _ member, same⟩

omit [DecidableEq κ] [DecidableEq ι] in
theorem Segment.congr (segment : t.Segment source l stop) (nodup : l.Nodup) (start : ∀ e ∈ l, source ≠ .next e)
    (reads : ∀ a, a ≠ stop → (a = source ∨ ∃ e ∈ l, a = .next e) → t'.read a = t.read a)
    (prevs : ∀ e ∈ l, t'.prev e = t.prev e) : t'.Segment source l stop := by
  induction l generalizing source with
  | nil => exact segment
  | cons e l ih =>
      obtain ⟨first, back, rest⟩ := segment
      obtain ⟨fresh, apart⟩ := List.nodup_cons.mp nodup
      refine ⟨?_, (prevs e List.mem_cons_self).trans back, ih rest apart ?_ ?_ ?_⟩
      · rw [reads source _ (.inl rfl), first]
        rintro rfl
        rcases rest.stop_eq with ⟨same, -⟩ | ⟨f, member, same⟩
        · exact start e List.mem_cons_self same
        · exact start f (List.mem_cons_of_mem _ member) same
      · rintro f member same
        cases same
        exact fresh member
      · rintro a away (rfl | ⟨f, member, rfl⟩)
        · exact reads _ away (.inr ⟨e, List.mem_cons_self, rfl⟩)
        · exact reads _ away (.inr ⟨f, List.mem_cons_of_mem _ member, rfl⟩)
      · exact fun f member => prevs f (List.mem_cons_of_mem _ member)

omit [DecidableEq κ] [DecidableEq ι] in
theorem Segment.chain (segment : t.Segment source l stop) (ends : t.read stop = none) : t.Chain source l stop := by
  induction l generalizing source with
  | nil => exact ⟨(congrArg t.read segment).trans ends, segment⟩
  | cons e l ih => exact ⟨segment.1, ih segment.2.2⟩

omit [DecidableEq κ] [DecidableEq ι] in
theorem Linked.chain (queue : t.Linked q l) : t.Chain (.first q) l (t.last q) := queue.segment.chain queue.ends

omit [DecidableEq κ] [DecidableEq ι] in
theorem Linked.walk (queue : t.Linked q l) {bound : Nat} (enough : l.length ≤ bound) :
    t.walk bound (t.first q) = some l := queue.chain.walk enough

omit [DecidableEq κ] [DecidableEq ι] in
theorem Linked.first (queue : t.Linked q l) : t.first q = l.head? := queue.chain.read

omit [DecidableEq κ] in
theorem Linked.holds (queue : t.Linked q l) {bound : Nat} (enough : l.length ≤ bound) :
    t.holds bound q e = decide (e ∈ l) := by
  unfold TailQueues.holds
  rw [queue.walk enough]

omit [DecidableEq κ] [DecidableEq ι] in
theorem Linked.next (queue : t.Linked q (l₁ ++ e :: l₂)) : t.next e = l₂.head? := by
  obtain ⟨mid, -, rest⟩ := segment_append.mp queue.segment
  exact (rest.2.2.chain queue.ends).read

omit [DecidableEq κ] [DecidableEq ι] in
theorem linked_init : (init : TailQueues κ ι).Linked q [] := ⟨rfl, rfl, List.nodup_nil⟩

omit [DecidableEq κ] [DecidableEq ι] in
theorem Linked.last_eq (queue : t.Linked q l) : t.last q = .first q ∧ l = [] ∨ ∃ e ∈ l, t.last q = .next e :=
  queue.segment.stop_eq

omit [DecidableEq κ] in
theorem Linked.wipe (queue : t.Linked q l) (fresh : e ∉ l) : (t.wipe e).Linked q l := by
  have next : ∀ f ∈ l, (t.wipe e).next f = t.next f := by
    intro f member
    exact Function.update_of_ne (fun (same : f = e) => fresh (same ▸ member)) _ _
  have reads : ∀ a, (a = .first q ∨ ∃ f ∈ l, a = .next f) → (t.wipe e).read a = t.read a := by
    rintro a (rfl | ⟨f, member, rfl⟩)
    · rfl
    · exact next f member
  refine ⟨queue.segment.congr queue.nodup (by simp) (fun a _ place => reads a place) ?_, ?_, queue.nodup⟩
  · intro f member
    exact Function.update_of_ne (fun (same : f = e) => fresh (same ▸ member)) _ _
  · refine (reads _ ?_).trans queue.ends
    rcases queue.last_eq with ⟨same, -⟩ | ⟨f, member, same⟩
    · exact .inl same
    · exact .inr ⟨f, member, same⟩

theorem Linked.insertTail (queue : t.Linked q l) (fresh : e ∉ l) : (t.insertTail q e).Linked q (l ++ [e]) := by
  have last : (t.insertTail q e).last q = .next e := Function.update_self ..
  have away : t.last q ≠ .next e := by
    rcases queue.last_eq with ⟨same, -⟩ | ⟨f, member, same⟩
    · rw [same]
      simp
    · rw [same]
      rintro same
      cases same
      exact fresh member
  refine ⟨?_, ?_, ?_⟩
  · rw [last]
    refine segment_append.mpr ⟨t.last q, queue.segment.congr queue.nodup (by simp) ?_ ?_, ?_, ?_, rfl⟩
    · rintro a other (rfl | ⟨f, member, rfl⟩)
      · rw [read_insertTail, if_neg other, if_neg (by simp)]
      · rw [read_insertTail, if_neg other, if_neg]
        rintro same
        cases same
        exact fresh member
    · intro f member
      rw [insertTail_prev, if_neg]
      exact fun same => fresh (same ▸ member)
    · rw [read_insertTail, if_pos rfl]
    · rw [insertTail_prev, if_pos rfl]
  · rw [last, read_insertTail, if_neg away.symm, if_pos rfl]
  · apply List.nodup_append.mpr
    refine ⟨queue.nodup, List.nodup_singleton e, fun f member g single same => fresh ?_⟩
    rwa [← List.mem_singleton.mp single, ← same]

theorem remove_eq {before : QueueLink κ ι} (back : t.prev e = some before) : ∃ t', t.remove q e = some t' ∧
    (∀ a, t'.read a = if a = before then t.next e else t.read a) ∧
    (∀ f, t'.prev f = if t.next e = some f then some before else t.prev f) ∧
    (∀ p, t'.last p = if p = q ∧ t.next e = none then before else t.last p) := by
  refine ⟨_, congrArg _ back, ?_, ?_, ?_⟩
  · intro a
    rw [read_store]
    cases t.next e <;> rfl
  · intro f
    rw [store_prev]
    cases follows : t.next e with
    | none => simp
    | some g => simp [Function.update_apply, eq_comm]
  · intro p
    cases follows : t.next e with
    | none => cases before <;> simp [store, Function.update_apply]
    | some g => cases before <;> simp [store]

theorem Linked.remove (queue : t.Linked q (l₁ ++ e :: l₂)) :
    ∃ t', t.remove q e = some t' ∧ t'.Linked q (l₁ ++ l₂) := by
  have follows := queue.next
  obtain ⟨mid, front, first, back, rest⟩ := segment_append.mp queue.segment
  obtain ⟨nodup₁, nodup₂, apart⟩ := List.nodup_append.mp queue.nodup
  obtain ⟨fresh, nodup₂⟩ := List.nodup_cons.mp nodup₂
  obtain ⟨t', removed, read, prev, last⟩ := remove_eq (q := q) back
  have mid_eq := front.stop_eq
  have away : ∀ f ∈ e :: l₂, mid ≠ .next f := by
    intro f member same
    rcases mid_eq with ⟨start, -⟩ | ⟨g, before, start⟩
    · rw [same] at start
      cases start
    · rw [same] at start
      cases start
      exact apart f before f member rfl
  refine ⟨t', removed, ?_, ?_, ?_⟩
  · refine segment_append.mpr ⟨mid, front.congr nodup₁ (by simp) ?_ ?_, ?_⟩
    · intro a other _
      rw [read, if_neg other]
    · intro f member
      rw [prev, if_neg]
      rw [follows]
      exact fun head => apart f member f (List.mem_cons_of_mem _ (List.mem_of_mem_head? head)) rfl
    · cases l₂ with
      | nil =>
          rw [last, if_pos ⟨rfl, follows⟩]
          rfl
      | cons f l₂ =>
          obtain ⟨-, rest⟩ := rest.2
          obtain ⟨fresh', nodup₂⟩ := List.nodup_cons.mp nodup₂
          rw [last, if_neg (by simp [follows])]
          refine ⟨?_, ?_, rest.congr nodup₂ ?_ ?_ ?_⟩
          · rw [read, if_pos rfl, follows]
            rfl
          · rw [prev, if_pos (by simpa using follows)]
          · rintro g member same
            cases same
            exact fresh' member
          · rintro a - (rfl | ⟨g, member, rfl⟩)
            · rw [read, if_neg (away f (by simp)).symm]
            · rw [read, if_neg (away g (by simp [member])).symm]
          · intro g member
            rw [prev, if_neg]
            rw [follows]
            rintro same
            cases same
            exact fresh' member
  · cases l₂ with
    | nil =>
        rw [last, if_pos ⟨rfl, follows⟩, read, if_pos rfl, follows]
        rfl
    | cons f l₂ =>
        rw [last, if_neg (by simp [follows]), read, if_neg, queue.ends]
        obtain ⟨-, rest⟩ := rest.2
        rcases rest.stop_eq with ⟨same, -⟩ | ⟨g, member, same⟩
        · rw [same]
          exact (away f (by simp)).symm
        · rw [same]
          exact (away g (by simp [member])).symm
  · apply List.nodup_append.mpr
    exact ⟨nodup₁, nodup₂, fun f before g after => apart f before g (List.mem_cons_of_mem _ after)⟩

end TailQueues
end Blktap.Lib
