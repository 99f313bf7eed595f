import Mathlib.Logic.Function.Basic
import Mathlib.Data.List.Nodup

/-!
# Tail queues (`sys/queue.h`)

The entries of tail queues carry the links themselves, so one entry is on one queue at a time, and nothing in an entry
says which. Every operation does the same assignments as its macro, also on an entry that is not where the macro
expects it.
-/

namespace Blktap.Lib
universe u v

inductive QueueLink (κ : Type u) (ι : Type v)
  | first (q : κ)
  | next (i : ι)
  deriving DecidableEq

/-- The heads of the queues `κ` and the fields of the entries `ι`. `prev` is null in an entry that has never
been queued. -/
structure TailQueues (κ : Type u) (ι : Type v) where
  first : κ → Option ι
  last : κ → QueueLink κ ι
  next : ι → Option ι
  prev : ι → Option (QueueLink κ ι)

namespace TailQueues
variable {κ : Type u} {ι : Type v} [DecidableEq κ] [DecidableEq ι] {t t' : TailQueues κ ι} {q q' : κ} {e n : ι}
  {l m : List ι} {source last : QueueLink κ ι}

/-- `TAILQ_INIT`, with entries that are all zero -/
def init : TailQueues κ ι := ⟨fun _ => none, .first, fun _ => none, fun _ => none⟩

def read (t : TailQueues κ ι) : QueueLink κ ι → Option ι
  | .first q => t.first q
  | .next i => t.next i

def store (t : TailQueues κ ι) (a : QueueLink κ ι) (e : Option ι) : TailQueues κ ι :=
  match a with
  | .first q => { t with first := Function.update t.first q e }
  | .next i => { t with next := Function.update t.next i e }

def insertTail (t : TailQueues κ ι) (q : κ) (e : ι) : TailQueues κ ι :=
  let fresh := { t with next := Function.update t.next e none, prev := Function.update t.prev e (some (t.last q)) }
  let linked := fresh.store (t.last q) (some e)
  { linked with last := Function.update linked.last q (.next e) }

def insertHead (t : TailQueues κ ι) (q : κ) (e : ι) : TailQueues κ ι :=
  let fresh := { t with next := Function.update t.next e (t.first q) }
  let linked := match t.first q with
    | some f => { fresh with prev := Function.update fresh.prev f (some (.next e)) }
    | none => { fresh with last := Function.update fresh.last q (.next e) }
  { linked with
    first := Function.update linked.first q (some e)
    prev := Function.update linked.prev e (some (.first q)) }

/-- `TAILQ_REMOVE`, which writes through a null pointer when the entry has never been queued. -/
def remove (t : TailQueues κ ι) (q : κ) (e : ι) : Option (TailQueues κ ι) :=
  (t.prev e).map fun before =>
    let linked := match t.next e with
      | some f => { t with prev := Function.update t.prev f (some before) }
      | none => { t with last := Function.update t.last q before }
    linked.store before (t.next e)

/-- What `TAILQ_FOREACH` visits from an entry on, when it visits no more than `bound` entries. -/
def walk (t : TailQueues κ ι) : Nat → Option ι → Option (List ι)
  | _, none => some []
  | 0, some _ => none
  | bound + 1, some e => (t.walk bound (t.next e)).map (e :: ·)

def Chain (t : TailQueues κ ι) (source : QueueLink κ ι) : List ι → QueueLink κ ι → Prop
  | [], last => t.read source = none ∧ source = last
  | e :: l, last => t.read source = some e ∧ t.Chain (.next e) l last

structure Fifo (t : TailQueues κ ι) (q : κ) (l : List ι) : Prop where
  chain : t.Chain (.first q) l (t.last q)
  back : ∀ e, l.head? = some e → t.prev e = some (.first q)
  nodup : l.Nodup

omit [DecidableEq κ] [DecidableEq ι] in
theorem Chain.congr (chain : t.Chain source l last) (start : t'.read source = t.read source)
    (next : ∀ e ∈ l, t'.next e = t.next e) : t'.Chain source l last := by
  induction l generalizing source with
  | nil => exact ⟨start.trans chain.1, chain.2⟩
  | cons e l ih =>
      obtain ⟨first, rest⟩ := chain
      refine ⟨start.trans first, ih rest (next e List.mem_cons_self) ?_⟩
      exact fun f member => next f (List.mem_cons_of_mem _ member)

omit [DecidableEq κ] [DecidableEq ι] in
theorem Chain.read_last (chain : t.Chain source l last) : t.read last = none := by
  induction l generalizing source with
  | nil => exact chain.2 ▸ chain.1
  | cons e l ih => exact ih chain.2

omit [DecidableEq κ] [DecidableEq ι] in
theorem Chain.last_eq (chain : t.Chain source l last) : last = source ∨ ∃ e ∈ l, last = .next e := by
  induction l generalizing source with
  | nil => exact .inl chain.2.symm
  | cons e l ih =>
      rcases ih chain.2 with same | ⟨f, member, same⟩
      · exact .inr ⟨e, List.mem_cons_self, same⟩
      · exact .inr ⟨f, List.mem_cons_of_mem _ member, same⟩

omit [DecidableEq κ] [DecidableEq ι] in
theorem Chain.walk (chain : t.Chain source l last) {bound : Nat} (enough : l.length ≤ bound) :
    t.walk bound (t.read source) = some l := by
  induction l generalizing source bound with
  | nil =>
      rw [chain.1]
      cases bound <;> rfl
  | cons e l ih =>
      obtain ⟨first, rest⟩ := chain
      cases bound with
      | zero => cases enough
      | succ bound =>
          have tail := ih rest (Nat.le_of_succ_le_succ enough)
          rw [first]
          exact congrArg (Option.map (e :: ·)) tail

omit [DecidableEq κ] [DecidableEq ι] in
theorem Chain.read (chain : t.Chain source l last) : t.read source = l.head? := by
  cases l with
  | nil => exact chain.1
  | cons e l => exact chain.1

omit [DecidableEq κ] [DecidableEq ι] in
theorem Fifo.walk (queue : t.Fifo q l) {bound : Nat} (enough : l.length ≤ bound) :
    t.walk bound (t.first q) = some l := queue.chain.walk enough

omit [DecidableEq κ] [DecidableEq ι] in
theorem Fifo.first (queue : t.Fifo q l) : t.first q = l.head? := queue.chain.read

omit [DecidableEq κ] [DecidableEq ι] in
theorem Fifo.next (queue : t.Fifo q (e :: l)) : t.next e = l.head? := queue.chain.2.read

omit [DecidableEq κ] [DecidableEq ι] in
theorem fifo_init : (init : TailQueues κ ι).Fifo q [] := ⟨⟨rfl, rfl⟩, fun _ empty => (nomatch empty), List.nodup_nil⟩

theorem read_store (a b : QueueLink κ ι) (v : Option ι) :
    (t.store a v).read b = if b = a then v else t.read b := by
  cases a <;> cases b <;> simp [store, TailQueues.read, Function.update_apply]

theorem store_prev (a : QueueLink κ ι) (v : Option ι) : (t.store a v).prev = t.prev := by cases a <;> rfl

theorem read_insertTail (a : QueueLink κ ι) : (t.insertTail q e).read a =
    if a = t.last q then some e else if a = .next e then none else t.read a := by
  have same : (t.insertTail q e).read a =
      (({ t with next := Function.update t.next e none,
                 prev := Function.update t.prev e (some (t.last q)) } : TailQueues κ ι).store
        (t.last q) (some e)).read a := by cases a <;> rfl
  rw [same, read_store]
  cases a <;> simp [TailQueues.read, Function.update_apply]

theorem insertTail_prev (i : ι) :
    (t.insertTail q e).prev i = if i = e then some (t.last q) else t.prev i := by
  have same : (t.insertTail q e).prev i = Function.update t.prev e (some (t.last q)) i :=
    congrFun (store_prev _ _) i
  rw [same, Function.update_apply]

theorem insertTail_last : (t.insertTail q e).last q' = if q' = q then .next e else t.last q' := by
  have same : (t.insertTail q e).last q' = Function.update t.last q (.next e) q' := by
    cases last : t.last q <;> simp [TailQueues.insertTail, last, store]
  rw [same, Function.update_apply]

theorem Fifo.first_insertTail (queue : t.Fifo q l) (other : q' ≠ q) : (t.insertTail q e).first q' = t.first q' := by
  have away : QueueLink.first q' ≠ t.last q := by
    rcases queue.chain.last_eq with same | ⟨f, -, same⟩ <;> simp [same, other]
  have read := read_insertTail (t := t) (q := q) (e := e) (.first q')
  rw [if_neg away, if_neg (by simp)] at read
  exact read

theorem Chain.insertTail (chain : t.Chain source l (t.last q)) (fresh : e ∉ l) (apart : source ≠ .next e) :
    (t.insertTail q e).Chain source (l ++ [e]) (.next e) := by
  have ending := chain.read_last
  induction l generalizing source with
  | nil =>
      obtain ⟨-, rfl⟩ := chain
      refine ⟨?_, ?_, rfl⟩
      · rw [read_insertTail, if_pos rfl]
      · rw [read_insertTail, if_neg apart.symm, if_pos rfl]
  | cons f l ih =>
      obtain ⟨first, rest⟩ := chain
      have other : f ≠ e := fun same => fresh (same ▸ List.mem_cons_self)
      have inner : source ≠ t.last q := by
        rintro rfl
        rw [first] at ending
        cases ending
      refine ⟨?_, ih rest (fun member => fresh (List.mem_cons_of_mem _ member)) (by simpa using other)⟩
      rw [read_insertTail, if_neg inner, if_neg apart, first]

theorem Fifo.insertTail (queue : t.Fifo q l) (fresh : e ∉ l) : (t.insertTail q e).Fifo q (l ++ [e]) := by
  have last : (t.insertTail q e).last q = .next e := Function.update_self ..
  refine ⟨?_, ?_, ?_⟩
  · rw [last]
    exact queue.chain.insertTail fresh (by simp)
  · intro f head
    rw [insertTail_prev]
    cases l with
    | nil =>
        rw [if_pos (Option.some.inj head).symm, ← queue.chain.2]
    | cons g l =>
        have other : f ≠ e := fun same => fresh (by simp_all)
        rw [if_neg other]
        exact queue.back f head
  · apply List.nodup_append.mpr
    refine ⟨queue.nodup, List.nodup_singleton e, fun f member g single same => fresh ?_⟩
    rwa [← List.mem_singleton.mp single, ← same]

theorem Fifo.remove (queue : t.Fifo q (e :: l)) : ∃ t', t.remove q e = some t' ∧ t'.Fifo q l ∧
    (∀ q', q' ≠ q → t'.first q' = t.first q' ∧ t'.last q' = t.last q') ∧ t'.next = t.next := by
  obtain ⟨⟨first, rest⟩, back, nodup⟩ := queue
  have apart := (List.nodup_cons.mp nodup).2
  have own := back e rfl
  cases l with
  | nil =>
      have ending : t.next e = none := rest.1
      refine ⟨_, congrArg _ own, ⟨?_, fun _ empty => (nomatch empty), apart⟩, ?_⟩
      · simp only [ending]
        exact ⟨Function.update_self .., (Function.update_self q (QueueLink.first q) t.last).symm⟩
      · simp only [ending]
        exact ⟨fun q' other => ⟨Function.update_of_ne other _ _, Function.update_of_ne other _ _⟩, rfl⟩
  | cons n l =>
      have follows : t.next e = some n := rest.1
      refine ⟨_, congrArg _ own, ⟨?_, ?_, apart⟩, ?_⟩
      · simp only [follows]
        exact ⟨Function.update_self .., rest.2.congr rfl fun _ _ => rfl⟩
      · intro f head
        simp only [follows]
        rw [← Option.some.inj head]
        exact Function.update_self ..
      · simp only [follows]
        exact ⟨fun q' other => ⟨Function.update_of_ne other _ _, rfl⟩, rfl⟩

theorem Fifo.insertHead (queue : t.Fifo q l) (other : q ≠ q') (fresh : e ∉ l)
    (clear : ∀ f, t.first q' = some f → l.head? ≠ some f) : (t.insertHead q' e).Fifo q l := by
  have first : (t.insertHead q' e).first q = t.first q := by
    cases head : t.first q' <;> simp [TailQueues.insertHead, head, Function.update_of_ne other]
  have last : (t.insertHead q' e).last q = t.last q := by
    cases head : t.first q' <;> simp [TailQueues.insertHead, head, Function.update_of_ne other]
  refine ⟨last ▸ queue.chain.congr first (fun f member => ?_), fun f front => ?_, queue.nodup⟩
  · have apart : f ≠ e := fun same => fresh (same ▸ member)
    cases head : t.first q' <;> simp [TailQueues.insertHead, head, Function.update_of_ne apart]
  · rw [← queue.back f front]
    have apart : f ≠ e := fun same => fresh (same ▸ List.mem_of_mem_head? front)
    cases head : t.first q' with
    | none => simp [TailQueues.insertHead, head, Function.update_of_ne apart]
    | some g =>
        have away : f ≠ g := fun same => clear g head (same ▸ front)
        simp [TailQueues.insertHead, head, Function.update_of_ne apart, Function.update_of_ne away]

theorem first_insertHead : (t.insertHead q e).first q = some e := by
  cases head : t.first q <;> simp [insertHead, head]

theorem Chain.insertTail_other (chain : t.Chain (.first q') l last) (queue : t.Fifo q m) (other : q' ≠ q) (fresh : e ∉ l)
    (apart : ∀ f ∈ l, f ∉ m) : (t.insertTail q e).Chain (.first q') l last := by
  refine chain.congr ?_ fun f member => ?_
  · exact queue.first_insertTail other
  · have away : QueueLink.next f ≠ t.last q := by
      rcases queue.chain.last_eq with same | ⟨g, inside, same⟩
      · simp [same]
      · rw [same]
        exact fun equal => apart f member (QueueLink.next.inj equal ▸ inside)
    have read := read_insertTail (t := t) (q := q) (e := e) (.next f)
    have new : (QueueLink.next f : QueueLink κ ι) ≠ .next e := by
      intro equal
      cases equal
      exact fresh member
    rw [if_neg away, if_neg new] at read
    exact read

theorem Chain.insertHead (chain : t.Chain (.first q) l (t.last q)) (fresh : e ∉ l) :
    (t.insertHead q e).Chain (.first q) (e :: l) ((t.insertHead q e).last q) := by
  have rest : ∀ f ∈ l, (t.insertHead q e).next f = t.next f := by
    intro f member
    have apart : f ≠ e := fun same => fresh (same ▸ member)
    cases head : t.first q <;> simp [TailQueues.insertHead, head, Function.update_of_ne apart]
  have own : (t.insertHead q e).next e = t.first q := by
    cases head : t.first q <;> simp [TailQueues.insertHead, head]
  refine ⟨first_insertHead, ?_⟩
  cases l with
  | nil =>
      obtain ⟨empty, -⟩ := chain
      have head : t.first q = none := empty
      refine ⟨own.trans head, ?_⟩
      simp [TailQueues.insertHead, head]
  | cons f l =>
      obtain ⟨first, tail⟩ := chain
      have head : t.first q = some f := first
      have last : (t.insertHead q e).last q = t.last q := by simp [TailQueues.insertHead, head]
      rw [last]
      exact ⟨own.trans head, tail.congr (rest f List.mem_cons_self) fun g member => rest g (List.mem_cons_of_mem _ member)⟩

end TailQueues
end Blktap.Lib
