import Blktap.Tapdisk.IoOptimize
import Mathlib.Data.List.Nodup
import Mathlib.Data.List.Perm.Subperm

/-!
# Groups of merged operations
-/

namespace Blktap.Tapdisk.Optimize

inductive Group
  | single (io : Nat)
  | chain (io op : Nat) (rest : List (Nat × Nat))

namespace Group

def head : Group → Nat
  | single io => io
  | chain io _ _ => io

def members : Group → List (Nat × Nat)
  | single _ => []
  | chain io op rest => (io, op) :: rest

def iocbs : Group → List Nat
  | single io => [io]
  | chain io op rest => ((io, op) :: rest).map Prod.fst

def ops (g : Group) : List Nat := g.members.map Prod.snd

@[simp] theorem head_single (io : Nat) : (single io).head = io := rfl

@[simp] theorem head_chain (io op : Nat) (rest : List (Nat × Nat)) : (chain io op rest).head = io := rfl

end Group

variable {prepared : Nat → Iocb} {s s' : State} {io op : Nat}

structure Saved (prepared : Nat → Iocb) (s : State) (io op : Nat) : Prop where
  buf : (s.opios op).buf = (prepared io).buf
  nbytes : (s.opios op).nbytes = (prepared io).nbytes
  data : (s.opios op).data = (prepared io).data
  iocb : (s.opios op).iocb = some io
  fildes : (s.iocbs io).fildes = (prepared io).fildes
  opcode : (s.iocbs io).opcode = (prepared io).opcode
  offset : (s.iocbs io).offset = (prepared io).offset

def Listed (prepared : Nat → Iocb) (s : State) : List (Nat × Nat) → Option Nat → Prop
  | [], start => start = none
  | (io, op) :: rest, start => start = some op ∧ Saved prepared s io op ∧ Listed prepared s rest (s.opios op).next

structure Covers (prepared : Nat → Iocb) (s : State) (g : Group) : Prop where
  bytes : (s.iocbs g.head).bytes = g.iocbs.flatMap fun io => (prepared io).bytes
  inside : (s.iocbs g.head).buf.toNat + (s.iocbs g.head).nbytes.toNat < 2 ^ 63

def Holds (prepared : Nat → Iocb) (s : State) : Group → Prop
  | .single io => s.iocbs io = prepared io
  | .chain io op rest =>
      Listed prepared s ((io, op) :: rest) (some op) ∧ (s.iocbs io).data = .opio op ∧
        (s.opios op).listTail = some (((io, op) :: rest).getLast (List.cons_ne_nil _ _)).2

structure Represents (num : Nat) (prepared : Nat → Iocb) (s : State) (groups : List Group) : Prop where
  holds : ∀ g ∈ groups, Holds prepared s g
  covers : ∀ g ∈ groups, Covers prepared s g
  nodup : (groups.flatMap Group.iocbs).Nodup
  valid : ∀ io ∈ groups.flatMap Group.iocbs, (prepared io).Valid
  others : ∀ io, io ∉ groups.flatMap Group.iocbs → s.iocbs io = prepared io
  size : s.numOpios = num
  pool : (groups.flatMap Group.ops ++ s.free).Perm (List.range num)
  zero : ∀ op, op ∉ groups.flatMap Group.ops → s.opios op = {}

variable {num : Nat} {g g' : Group} {groups others : List Group} {members rest : List (Nat × Nat)} {start : Option Nat}

theorem Represents.perm (before : Represents num prepared s groups) (same : groups.Perm others) :
    Represents num prepared s others := by
  have iocbs := same.flatMap_right Group.iocbs
  have ops := same.flatMap_right Group.ops
  apply Represents.mk
  · exact fun g member => before.holds g (same.mem_iff.2 member)
  · exact fun g member => before.covers g (same.mem_iff.2 member)
  · exact iocbs.nodup_iff.1 before.nodup
  · exact fun io member => before.valid io (iocbs.mem_iff.2 member)
  · exact fun io outside => before.others io (fun member => outside (iocbs.mem_iff.1 member))
  · exact before.size
  · exact (ops.symm.append_right _).trans before.pool
  · exact fun op outside => before.zero op (fun member => outside (ops.mem_iff.1 member))

theorem Saved.congr (saved : Saved prepared s io op) (iocb : s'.iocbs io = s.iocbs io) (opio : s'.opios op = s.opios op) :
    Saved prepared s' io op := by
  constructor
  · rw [opio, saved.buf]
  · rw [opio, saved.nbytes]
  · rw [opio, saved.data]
  · rw [opio, saved.iocb]
  · rw [iocb, saved.fildes]
  · rw [iocb, saved.opcode]
  · rw [iocb, saved.offset]

theorem Listed.congr {prepared' : Nat → Iocb} (listed : Listed prepared s members start)
    (saved : ∀ p ∈ members, Saved prepared s p.1 p.2 → Saved prepared' s' p.1 p.2)
    (next : ∀ p ∈ members, (s'.opios p.2).next = (s.opios p.2).next) : Listed prepared' s' members start := by
  induction members generalizing start with
  | nil => exact listed
  | cons p rest ih =>
      obtain ⟨first, here, behind⟩ := listed
      refine ⟨first, saved p List.mem_cons_self here, ?_⟩
      rw [next p List.mem_cons_self]
      exact ih behind (fun p member => saved p (List.mem_cons_of_mem _ member))
        (fun p member => next p (List.mem_cons_of_mem _ member))

theorem head_mem (g : Group) : g.head ∈ g.iocbs := by
  cases g <;> simp [Group.head, Group.iocbs]

theorem Holds.congr (holds : Holds prepared s g) (iocbs : ∀ io ∈ g.iocbs, s'.iocbs io = s.iocbs io)
    (opios : ∀ op ∈ g.ops, s'.opios op = s.opios op) : Holds prepared s' g := by
  cases g with
  | single io => exact (iocbs io (by simp [Group.iocbs])).trans holds
  | chain io op rest =>
      obtain ⟨listed, data, tail⟩ := holds
      have here : op ∈ Group.ops (.chain io op rest) := by simp [Group.ops, Group.members]
      refine ⟨listed.congr ?_ ?_, ?_, ?_⟩
      · intro p member saved
        exact saved.congr (iocbs p.1 (List.mem_map_of_mem member)) (opios p.2 (List.mem_map_of_mem member))
      · intro p member
        rw [opios p.2 (List.mem_map_of_mem member)]
      · rw [iocbs io (by simp [Group.iocbs]), data]
      · rw [opios op here, tail]

theorem Covers.congr (covers : Covers prepared s g) (same : s'.iocbs g.head = s.iocbs g.head) :
    Covers prepared s' g := by
  constructor
  · rw [same, covers.bytes]
  · rw [same]
    exact covers.inside

theorem bytes_append {l r : Iocb} (opcode : l.opcode = r.opcode) (contiguous : State.contiguousIocbs l r = true)
    (fits : l.nbytes.toNat + r.nbytes.toNat < 2 ^ 64) :
    Iocb.bytes { l with nbytes := l.nbytes + r.nbytes } = l.bytes ++ r.bytes := by
  simp only [State.contiguousIocbs, Bool.and_eq_true, beq_iff_eq] at contiguous
  obtain ⟨⟨fildes, offset⟩, buf⟩ := contiguous
  have sum : (l.nbytes + r.nbytes).toNat = l.nbytes.toNat + r.nbytes.toNat := by
    rw [BitVec.toNat_add, Nat.mod_eq_of_lt fits]
  have place : BitVec.ofNat 64 l.nbytes.toNat = l.nbytes := by simp
  simp only [Iocb.bytes, sum, List.range_add, List.map_append, List.map_map]
  congr 1
  apply List.map_congr_left
  intro i _
  simp only [Function.comp_apply, BitVec.ofNat_add, place, fildes, opcode, ← offset, ← buf, BitVec.add_assoc]

theorem inside_append {l r : Iocb} (contiguous : State.contiguousIocbs l r = true)
    (left : l.buf.toNat + l.nbytes.toNat < 2 ^ 63) (right : r.buf.toNat + r.nbytes.toNat < 2 ^ 63) :
    l.buf.toNat + (l.nbytes.toNat + r.nbytes.toNat) < 2 ^ 63 := by
  simp only [State.contiguousIocbs, Bool.and_eq_true, beq_iff_eq] at contiguous
  have buf := congrArg BitVec.toNat contiguous.2
  rw [BitVec.toNat_add, Nat.mod_eq_of_lt (by omega)] at buf
  omega

variable {old new : List Group}

theorem Represents.replace (old new : List Group) (before : Represents num prepared s (old ++ others))
    (sublist : (new.flatMap Group.iocbs).Sublist (old.flatMap Group.iocbs))
    (pool : (new.flatMap Group.ops ++ s'.free).Perm (old.flatMap Group.ops ++ s.free))
    (size : s'.numOpios = s.numOpios)
    (iocbs : ∀ io, io ∉ old.flatMap Group.iocbs → s'.iocbs io = s.iocbs io)
    (restored : ∀ io ∈ old.flatMap Group.iocbs, io ∉ new.flatMap Group.iocbs → s'.iocbs io = prepared io)
    (opios : ∀ op, op ∉ old.flatMap Group.ops → op ∉ new.flatMap Group.ops → s'.opios op = s.opios op)
    (zero : ∀ op ∈ old.flatMap Group.ops, op ∉ new.flatMap Group.ops → s'.opios op = {})
    (holds : ∀ g ∈ new, Holds prepared s' g) (covers : ∀ g ∈ new, Covers prepared s' g) :
    Represents num prepared s' (new ++ others) := by
  have all := before.pool
  have nodup := before.nodup
  have used := all.nodup_iff.2 List.nodup_range
  simp only [List.flatMap_append] at all nodup used
  have moved : (new.flatMap Group.ops ++ others.flatMap Group.ops ++ s'.free).Perm
      (old.flatMap Group.ops ++ others.flatMap Group.ops ++ s.free) := by
    have left := (@List.perm_append_comm _ (new.flatMap Group.ops)
      (others.flatMap Group.ops)).append_right s'.free
    have right := (@List.perm_append_comm _ (others.flatMap Group.ops)
      (old.flatMap Group.ops)).append_right s.free
    simp only [List.append_assoc] at left right ⊢
    exact (left.trans (pool.append_left _)).trans right
  have apart : ∀ g ∈ others, (∀ io ∈ g.iocbs, io ∉ old.flatMap Group.iocbs) ∧
      ∀ op ∈ g.ops, op ∉ old.flatMap Group.ops ∧ op ∉ new.flatMap Group.ops := by
    intro g member
    constructor
    · intro io inside both
      exact (List.nodup_append'.1 nodup).2.2 both (List.mem_flatMap.2 ⟨g, member, inside⟩)
    · intro op inside
      have listed : op ∈ others.flatMap Group.ops := List.mem_flatMap.2 ⟨g, member, inside⟩
      have used' := moved.nodup_iff.2 used
      rw [List.append_assoc, List.nodup_append'] at used used'
      exact ⟨fun both => used.2.2 both (List.mem_append_left _ listed),
        fun both => used'.2.2 both (List.mem_append_left _ listed)⟩
  apply Represents.mk
  · intro g member
    cases List.mem_append.1 member with
    | inl member => exact holds g member
    | inr member =>
        apply (before.holds g (List.mem_append_right _ member)).congr
        · exact fun io inside => iocbs io ((apart g member).1 io inside)
        · exact fun op inside => opios op ((apart g member).2 op inside).1 ((apart g member).2 op inside).2
  · intro g member
    cases List.mem_append.1 member with
    | inl member => exact covers g member
    | inr member =>
        apply (before.covers g (List.mem_append_right _ member)).congr
        exact iocbs _ ((apart g member).1 _ (head_mem g))
  · rw [List.flatMap_append]
    exact nodup.sublist (sublist.append_right _)
  · intro io member
    apply before.valid io
    rw [List.flatMap_append] at member ⊢
    exact (sublist.append_right _).subset member
  · intro io outside
    rw [List.flatMap_append, List.mem_append, not_or] at outside
    by_cases left : io ∈ old.flatMap Group.iocbs
    · exact restored io left outside.1
    · rw [iocbs io left]
      apply before.others
      rw [List.flatMap_append, List.mem_append, not_or]
      exact ⟨left, outside.2⟩
  · rw [size, before.size]
  · rw [List.flatMap_append]
    exact moved.trans all
  · intro op outside
    rw [List.flatMap_append, List.mem_append, not_or] at outside
    by_cases left : op ∈ old.flatMap Group.ops
    · exact zero op left outside.1
    · rw [opios op left outside.1]
      apply before.zero
      rw [List.flatMap_append, List.mem_append, not_or]
      exact ⟨left, outside.2⟩

theorem opioIocbInit_spec {free : List Nat} (before : Represents num prepared s (.single io :: others))
    (some_free : s.free = op :: free) :
    ∃ s', s.opioIocbInit io = some (s', op) ∧ Represents num prepared s' (.chain io op [] :: others) ∧
      s'.iocbs = Function.update s.iocbs io { s.iocbs io with data := .opio op } := by
  have here : s.iocbs io = prepared io := before.holds _ List.mem_cons_self
  have fresh : s.opios op = {} := by
    apply before.zero
    intro used
    have all := before.pool.nodup_iff.2 List.nodup_range
    rw [List.nodup_append'] at all
    exact all.2.2 used (by simp [some_free])
  unfold State.opioIocbInit
  rw [some_free]
  refine ⟨_, rfl, ?_, rfl⟩
  apply Represents.replace [.single io] [.chain io op []] before
  · simp [Group.iocbs]
  · simp [Group.ops, Group.members, State.setOpio, State.setIocb, some_free]
  · rfl
  · intro other outside
    have away : other ≠ io := by simpa [Group.iocbs] using outside
    simp [State.setIocb, State.setOpio, away]
  · intro other inside outside
    exact absurd inside (by simpa [Group.iocbs] using outside)
  · intro other _ outside
    have away : other ≠ op := by simpa [Group.ops, Group.members] using outside
    simp [State.setIocb, State.setOpio, away]
  · intro other inside
    simp [Group.ops, Group.members] at inside
  · intro g member
    rw [List.mem_singleton.1 member]
    refine ⟨⟨rfl, ?_, ?_⟩, ?_, ?_⟩
    · constructor <;> simp [State.setIocb, State.setOpio, here]
    · simp [State.setIocb, State.setOpio, fresh, Listed]
    · simp [State.setIocb]
    · simp [State.setIocb, State.setOpio]
  · intro g member
    have covers := before.covers _ List.mem_cons_self
    rw [List.mem_singleton.1 member]
    have bytes := covers.bytes
    have inside := covers.inside
    simp only [Group.head, Group.iocbs] at bytes inside
    constructor
    · simpa [Group.head, Group.iocbs, State.setIocb, State.setOpio, Iocb.bytes] using bytes
    · simpa [Group.head, State.setIocb, State.setOpio] using inside

theorem opioGet_spec (before : Represents num prepared s (g :: others)) :
    s.opioGet g.head = none ∨ ∃ s' op rest, s.opioGet g.head = some (s', op) ∧
      Represents num prepared s' (.chain g.head op rest :: others) ∧ ((g.head, op) :: rest).map Prod.fst = g.iocbs ∧
      (∀ io, io ≠ g.head → s'.iocbs io = s.iocbs io) ∧ ∃ data, s'.iocbs g.head = { s.iocbs g.head with data := data } := by
  cases g with
  | chain io op rest =>
      have data : (s.iocbs io).data = .opio op := (before.holds _ List.mem_cons_self).2.1
      right
      refine ⟨s, op, rest, ?_, before, rfl, fun _ _ => rfl, (s.iocbs io).data, rfl⟩
      simp [State.opioGet, Group.head, data]
  | single io =>
      have here : s.iocbs io = prepared io := before.holds _ List.mem_cons_self
      obtain ⟨-, pointer, data⟩ := before.valid io (by simp [Group.iocbs])
      rw [← here] at data
      have get : s.opioGet io = s.opioIocbInit io := by
        unfold State.opioGet
        rw [data]
      cases free : s.free with
      | nil =>
          left
          rw [Group.head, get]
          simp [State.opioIocbInit, free]
      | cons op rest =>
          right
          obtain ⟨s', init, after, iocbs⟩ := opioIocbInit_spec before free
          refine ⟨s', op, [], get.trans init, after, rfl, ?_, .opio op, ?_⟩
          · intro other away
            rw [iocbs]
            exact Function.update_of_ne away _ _
          · rw [iocbs, Group.head, Function.update_self]

theorem link_eq (io : Nat) {head ophead opio last : Nat} (tail : (s.opios ophead).listTail = some last)
    (away : ophead ≠ opio) :
    ∃ s', s.link head io ophead opio = some s' ∧ s'.free = s.free ∧ s'.numOpios = s.numOpios ∧
      s'.iocbs = Function.update s.iocbs head
        { s.iocbs head with nbytes := (s.iocbs head).nbytes + (s.iocbs io).nbytes } ∧
      ∀ op, s'.opios op = { s.opios op with
        head := if op = opio then some ophead else (s.opios op).head
        next := if op = last then some opio else (s.opios op).next
        listTail := if op = ophead then some opio else (s.opios op).listTail } := by
  unfold State.link
  simp only [State.setOpio, State.setIocb, Function.update_of_ne away, tail, Option.map_some]
  refine ⟨_, rfl, rfl, rfl, rfl, fun op => ?_⟩
  simp only [Function.update_apply]
  split_ifs <;> simp_all

theorem Listed.append {p : Nat × Nat} {last : Nat} (listed : Listed prepared s (p :: members) start)
    (here : last = ((p :: members).getLast (List.cons_ne_nil _ _)).2) (nodup : ((p :: members).map Prod.snd).Nodup)
    (saved : ∀ q ∈ p :: members, Saved prepared s q.1 q.2 → Saved prepared s' q.1 q.2)
    (next : ∀ q ∈ p :: members, q.2 ≠ last → (s'.opios q.2).next = (s.opios q.2).next)
    (behind : Listed prepared s' rest (s'.opios last).next) : Listed prepared s' (p :: members ++ rest) start := by
  induction members generalizing p start with
  | nil =>
      obtain ⟨first, now, -⟩ := listed
      rw [List.getLast_singleton] at here
      exact ⟨first, saved p List.mem_cons_self now, here ▸ behind⟩
  | cons q members ih =>
      obtain ⟨first, now, after⟩ := listed
      rw [List.getLast_cons (List.cons_ne_nil _ _)] at here
      obtain ⟨fresh, nodup⟩ := List.nodup_cons.1 nodup
      have away : p.2 ≠ last := by
        rintro same
        apply fresh
        rw [same, here]
        exact List.mem_map_of_mem (List.getLast_mem _)
      refine ⟨first, saved p List.mem_cons_self now, ?_⟩
      rw [next p List.mem_cons_self away]
      exact ih after here nodup (fun q member => saved q (List.mem_cons_of_mem _ member))
        (fun q member => next q (List.mem_cons_of_mem _ member))

theorem link_spec {head ophead opio : Nat}
    (before : Represents num prepared s (.chain head ophead rest :: .chain io opio [] :: others))
    (opcode : (s.iocbs head).opcode = (s.iocbs io).opcode)
    (contiguous : State.contiguousIocbs (s.iocbs head) (s.iocbs io) = true) :
    ∃ s', s.link head io ophead opio = some s' ∧
      Represents num prepared s' (.chain head ophead (rest ++ [(io, opio)]) :: others) := by
  obtain ⟨listed, data, tail⟩ := before.holds _ List.mem_cons_self
  obtain ⟨⟨-, saved, ends⟩, -, -⟩ := before.holds (.chain io opio []) (by simp)
  have front := before.covers (.chain head ophead rest) List.mem_cons_self
  have back := before.covers (.chain io opio []) (by simp)
  have ops := before.pool.nodup_iff.2 List.nodup_range
  have ios := before.nodup
  rw [List.flatMap_cons, List.flatMap_cons, List.append_assoc, List.nodup_append'] at ops
  rw [List.flatMap_cons, List.flatMap_cons, List.nodup_append'] at ios
  have apart : ∀ p ∈ (head, ophead) :: rest, p.2 ≠ opio := by
    rintro p member rfl
    exact ops.2.2 (List.mem_map_of_mem member) (by simp [Group.ops, Group.members])
  have io_apart : ∀ p ∈ (head, ophead) :: rest, p.1 ≠ io := by
    rintro p member rfl
    exact ios.2.2 (List.mem_map_of_mem member) (by simp [Group.iocbs])
  have away := apart _ List.mem_cons_self
  have last_away := apart _ (List.getLast_mem (List.cons_ne_nil (head, ophead) rest))
  obtain ⟨s', linked, free, size, iocbs, opios⟩ := link_eq io tail away
  refine ⟨s', linked, ?_⟩
  have keeps : ∀ q : Nat × Nat, Saved prepared s q.1 q.2 → Saved prepared s' q.1 q.2 := by
    intro q saved
    have same : (s'.iocbs q.1).fildes = (s.iocbs q.1).fildes ∧ (s'.iocbs q.1).opcode = (s.iocbs q.1).opcode ∧
        (s'.iocbs q.1).offset = (s.iocbs q.1).offset := by
      rw [iocbs]
      by_cases here : q.1 = head <;> simp [here]
    constructor
    · rw [opios, saved.buf]
    · rw [opios, saved.nbytes]
    · rw [opios, saved.data]
    · rw [opios, saved.iocb]
    · rw [same.1, saved.fildes]
    · rw [same.2.1, saved.opcode]
    · rw [same.2.2, saved.offset]
  apply Represents.replace [.chain head ophead rest, .chain io opio []]
    [.chain head ophead (rest ++ [(io, opio)])] before
  · simp [Group.iocbs]
  · simp [Group.ops, Group.members, free]
  · exact size
  · intro other outside
    have other_away : other ≠ head := by
      rintro rfl
      simp [Group.iocbs] at outside
    rw [iocbs]
    exact Function.update_of_ne other_away _ _
  · intro other inside outside
    exact absurd inside (by simpa [Group.iocbs] using outside)
  · intro op outside _
    simp only [List.flatMap_cons, List.mem_append, Group.ops, Group.members, not_or] at outside
    have not_opio : op ≠ opio := by
      rintro rfl
      simp at outside
    have not_head : op ≠ ophead := by
      rintro rfl
      simp at outside
    have not_last : op ≠ (((head, ophead) :: rest).getLast (List.cons_ne_nil _ _)).2 := by
      rintro rfl
      exact outside.1 (List.mem_map_of_mem (List.getLast_mem _))
    rw [opios, if_neg not_opio, if_neg not_head, if_neg not_last]
  · intro op inside outside
    exact absurd inside (by simpa [Group.ops, Group.members] using outside)
  · intro g member
    rw [List.mem_singleton.1 member]
    refine ⟨?_, ?_, ?_⟩
    · apply listed.append rfl ops.1 (fun q _ => keeps q)
      · intro q _ inner
        rw [opios, if_neg inner]
      · rw [opios, if_pos rfl]
        refine ⟨rfl, keeps (io, opio) saved, ?_⟩
        rw [opios, if_neg last_away.symm]
        exact ends
    · rw [iocbs]
      simp [data]
    · rw [opios, if_pos rfl]
      simp
  · intro g member
    rw [List.mem_singleton.1 member]
    have whole := inside_append contiguous front.inside back.inside
    have bytes := bytes_append opcode contiguous (by omega)
    constructor
    · simp only [Group.head, iocbs, Function.update_self]
      rw [bytes]
      have first := front.bytes
      have second := back.bytes
      simp only [Group.head, Group.iocbs] at first second ⊢
      rw [first, second]
      simp
    · simp only [Group.head, iocbs, Function.update_self]
      rw [BitVec.toNat_add, Nat.mod_eq_of_lt (by omega)]
      exact whole

theorem merge_spec (before : Represents num prepared s (g :: .single io :: others)) :
    ∃ s' err, s.merge g.head io = some (s', err) ∧
      (err = 0 ∧ (∃ g', g'.head = g.head ∧ g'.iocbs = g.iocbs ++ [io] ∧ Represents num prepared s' (g' :: others)) ∨
        err ≠ 0 ∧ ∃ g', g'.head = g.head ∧ g'.iocbs = g.iocbs ∧
          Represents num prepared s' (g' :: .single io :: others)) := by
  unfold State.merge
  split
  · exact ⟨s, -einval, rfl, .inr ⟨by decide, g, rfl, rfl, before⟩⟩
  next opcode =>
  split
  · exact ⟨s, -einval, rfl, .inr ⟨by decide, g, rfl, rfl, before⟩⟩
  next contiguous =>
  rw [Bool.not_eq_true', Bool.not_eq_false] at contiguous
  rw [ne_eq, not_not] at opcode
  have away : io ≠ g.head := by
    have nodup := before.nodup
    rw [List.flatMap_cons, List.nodup_append'] at nodup
    rintro rfl
    exact nodup.2.2 (head_mem g) (by simp [Group.iocbs])
  unfold State.mergeTail
  obtain none_left | ⟨s₁, ophead, rest, get, middle, iocbs, kept, data, same⟩ := opioGet_spec before
  · rw [none_left]
    exact ⟨s, -enomem, rfl, .inr ⟨by decide, g, rfl, rfl, before⟩⟩
  rw [get]
  have swapped := middle.perm (List.Perm.swap _ _ _)
  obtain none_left | ⟨s₂, opio, more, get', after, alone, kept', data', same'⟩ := opioGet_spec swapped
  · simp only [Group.head_single] at none_left
    simp only [none_left]
    exact ⟨s₁, -enomem, rfl, .inr ⟨by decide, .chain g.head ophead rest, rfl, iocbs, middle⟩⟩
  simp only [Group.head_single] at get' same' kept' after
  simp only [get']
  obtain rfl : more = [] := by simpa [Group.iocbs] using alone
  have head_same : s₂.iocbs g.head = { s.iocbs g.head with data := data } := by
    rw [kept' _ (Ne.symm away), same]
  have io_same : s₂.iocbs io = { s.iocbs io with data := data' } := by
    rw [same', kept io away]
  obtain ⟨s₃, linked, last⟩ := link_spec (after.perm (List.Perm.swap _ _ _)) (by rw [head_same, io_same, opcode])
    (by rw [head_same, io_same]; exact contiguous)
  rw [linked]
  refine ⟨s₃, 0, rfl, .inl ⟨rfl, .chain g.head ophead (rest ++ [(io, opio)]), rfl, ?_, last⟩⟩
  rw [← iocbs]
  simp [Group.iocbs]

theorem mergeLoop_spec {ios : List Nat} (before : Represents num prepared s (g :: ios.map .single ++ others)) :
    ∃ s' queue new, s.mergeLoop g.head ios = some (s', queue) ∧ Represents num prepared s' (new ++ others) ∧
      new.map Group.head = queue ∧ new.flatMap Group.iocbs = g.iocbs ++ ios := by
  induction ios generalizing s g others with
  | nil => exact ⟨s, [g.head], [g], rfl, before, rfl, by simp⟩
  | cons io rest ih =>
      obtain ⟨s', err, merged, ⟨rfl, g', head, iocbs, after⟩ | ⟨failed, g', head, iocbs, after⟩⟩ := merge_spec before
      · obtain ⟨s'', queue, new, loop, represents, heads, all⟩ := ih after
        refine ⟨s'', queue, new, ?_, represents, heads, ?_⟩
        · rw [← head]
          simp [State.mergeLoop, head ▸ merged, loop]
        · rw [all, iocbs]
          simp
      · have moved : Represents num prepared s' (.single io :: rest.map .single ++ (g' :: others)) := by
          apply after.perm
          exact (@List.perm_middle _ _ (Group.single io :: rest.map Group.single) _).symm
        obtain ⟨s'', queue, new, loop, represents, heads, all⟩ := ih moved
        refine ⟨s'', g.head :: queue, g' :: new, ?_, ?_, ?_, ?_⟩
        · simp only [Group.head_single] at loop
          simp [State.mergeLoop, merged, failed, loop]
        · exact represents.perm List.perm_middle
        · rw [List.map_cons, heads, head]
        · rw [List.flatMap_cons, all, iocbs]
          simp [Group.iocbs]

theorem restoreIocb_spec (saved : Saved prepared s io op) :
    (s.restoreIocb op io).iocbs = Function.update s.iocbs io (prepared io) := by
  simp only [State.restoreIocb, State.setIocb]
  rw [saved.data, saved.buf, saved.nbytes, saved.fildes, saved.opcode, saved.offset]

theorem walk_spec {β : Type} (report : Nat → BitVec 64 → β) {bound : Nat} (listed : Listed prepared s members start)
    (ios : (members.map Prod.fst).Nodup) (ops : (members.map Prod.snd).Nodup) (enough : members.length ≤ bound) :
    ∃ s', State.walk report bound s start = some (s', members.map fun p => report p.1 (prepared p.1).nbytes) ∧
      s'.numOpios = s.numOpios ∧ s'.free = (members.map Prod.snd).reverse ++ s.free ∧
      (∀ io, s'.iocbs io = if io ∈ members.map Prod.fst then prepared io else s.iocbs io) ∧
      ∀ op, s'.opios op = if op ∈ members.map Prod.snd then {} else s.opios op := by
  induction members generalizing s start bound with
  | nil =>
      obtain rfl : start = none := listed
      refine ⟨s, ?_, rfl, rfl, by simp, by simp⟩
      cases bound <;> rfl
  | cons p rest ih =>
      obtain ⟨io, op⟩ := p
      obtain ⟨rfl, saved, behind⟩ := listed
      rw [List.map_cons, List.nodup_cons] at ios ops
      obtain ⟨bound, rfl⟩ := Nat.exists_eq_add_of_lt (Nat.lt_of_lt_of_le (Nat.succ_pos _) enough)
      rw [Nat.zero_add] at enough ⊢
      have iocbs : ((s.restoreIocb op io).freeOpio op).iocbs = Function.update s.iocbs io (prepared io) :=
        restoreIocb_spec saved
      have opios : ((s.restoreIocb op io).freeOpio op).opios = Function.update s.opios op {} := rfl
      have ios_apart : ∀ q ∈ rest, q.1 ≠ io := by
        rintro q member rfl
        exact ios.1 (List.mem_map.2 ⟨q, member, rfl⟩)
      have ops_apart : ∀ q ∈ rest, q.2 ≠ op := by
        rintro q member rfl
        exact ops.1 (List.mem_map.2 ⟨q, member, rfl⟩)
      have next : Listed prepared ((s.restoreIocb op io).freeOpio op) rest (s.opios op).next := by
        apply behind.congr
        · intro q member kept
          apply kept.congr
          · rw [iocbs, Function.update_of_ne]
            exact ios_apart q member
          · rw [opios, Function.update_of_ne]
            exact ops_apart q member
        · intro q member
          rw [opios, Function.update_of_ne]
          exact ops_apart q member
      obtain ⟨s', walked, size, free, ios_after, ops_after⟩ := ih next ios.2 ops.2 (Nat.le_of_succ_le_succ enough)
      refine ⟨s', ?_, size, ?_, ?_, ?_⟩
      · simp only [State.walk, saved.iocb, Option.bind_some, walked, Option.map_some, saved.nbytes, List.map_cons]
      · rw [free]
        simp [State.freeOpio, State.restoreIocb, State.setIocb]
      · intro other
        rw [ios_after, iocbs]
        by_cases here : other = io
        · simp [here]
        · have same : other ∈ ((io, op) :: rest).map Prod.fst ↔ other ∈ rest.map Prod.fst := by simp [here]
          rw [Function.update_of_ne here]
          exact (if_congr same rfl rfl).symm
      · intro other
        rw [ops_after, opios]
        by_cases here : other = op
        · simp [here]
        · have same : other ∈ ((io, op) :: rest).map Prod.snd ↔ other ∈ rest.map Prod.snd := by simp [here]
          rw [Function.update_of_ne here]
          exact (if_congr same rfl rfl).symm

theorem release_spec {β : Type} (report : Nat → BitVec 64 → β)
    (before : Represents num prepared s (.chain io op rest :: others)) :
    ∃ s', State.walk report s.numOpios s (some op) =
        some (s', ((io, op) :: rest).map fun p => report p.1 (prepared p.1).nbytes) ∧
      Represents num prepared s' others := by
  obtain ⟨listed, -, -⟩ := before.holds _ List.mem_cons_self
  have ios := before.nodup
  have ops := before.pool.nodup_iff.2 List.nodup_range
  have count := before.pool.length_eq
  rw [List.flatMap_cons, List.nodup_append'] at ios
  rw [List.flatMap_cons, List.append_assoc, List.nodup_append'] at ops
  rw [List.flatMap_cons, List.append_assoc, List.length_append, List.length_range] at count
  have enough : ((io, op) :: rest).length ≤ s.numOpios := by
    rw [before.size]
    simp only [Group.ops, Group.members, List.length_map] at count
    omega
  obtain ⟨s', walked, size, free, ios_after, ops_after⟩ := walk_spec report listed ios.1 ops.1 enough
  refine ⟨s', walked, ?_⟩
  apply Represents.replace [.chain io op rest] [] before
  · simp
  · rw [free]
    simp only [List.flatMap_nil, List.nil_append, List.flatMap_cons, List.append_nil]
    exact (List.reverse_perm _).append_right _
  · exact size
  · intro other outside
    rw [ios_after, if_neg]
    simpa [Group.iocbs] using outside
  · intro other inside _
    rw [ios_after, if_pos]
    simpa [Group.iocbs] using inside
  · intro other outside _
    rw [ops_after, if_neg]
    simpa [Group.ops, Group.members] using outside
  · intro other inside _
    rw [ops_after, if_pos]
    simpa [Group.ops, Group.members] using inside
  · simp
  · simp

theorem single_spec (before : Represents num prepared s (.single io :: others)) :
    (∃ pointer, (s.iocbs io).data = .user pointer) ∧ Represents num prepared s others := by
  have here : s.iocbs io = prepared io := before.holds _ List.mem_cons_self
  apply And.intro
  · rw [here]
    exact (before.valid io (by simp [Group.iocbs])).2
  · apply Represents.replace [.single io] [] before
    · simp
    · simp [Group.ops, Group.members]
    · rfl
    · exact fun _ _ => rfl
    · intro other inside _
      obtain rfl : other = io := by simpa [Group.iocbs] using inside
      exact here
    · exact fun _ _ _ => rfl
    · simp [Group.ops, Group.members]
    · simp
    · simp

theorem ioExpandIocbs_spec {back : List Group} (before : Represents num prepared s (back ++ others)) :
    ∃ s', s.ioExpandIocbs (back.map Group.head) = some (s', back.flatMap Group.iocbs) ∧
      Represents num prepared s' others := by
  induction back generalizing s with
  | nil => exact ⟨s, rfl, before⟩
  | cons g rest ih =>
      cases g with
      | single io =>
          obtain ⟨⟨pointer, data⟩, after⟩ := single_spec before
          obtain ⟨s', expanded, left⟩ := ih after
          refine ⟨s', ?_, left⟩
          simp [State.ioExpandIocbs, data, expanded, Group.iocbs]
      | chain io op members =>
          have data : (s.iocbs io).data = .opio op := (before.holds _ List.mem_cons_self).2.1
          obtain ⟨s₁, walked, after⟩ := release_spec (fun io _ => io) before
          obtain ⟨s', expanded, left⟩ := ih after
          refine ⟨s', ?_, left⟩
          simp [State.ioExpandIocbs, data, State.expandIocb, walked, expanded, Group.iocbs]

theorem eventError_range (s : State) (event : Event) :
    s.eventError event = 0 ∧ event.res = (s.iocbs event.obj).nbytes ∨
    (-2 ^ 31 ≤ s.eventError event ∧ s.eventError event < 0) ∧ event.res ≠ (s.iocbs event.obj).nbytes := by
  unfold State.eventError
  split
  · next whole => exact .inl ⟨rfl, whole⟩
  next part =>
  right
  split
  · next failed => exact ⟨⟨BitVec.le_toInt _, failed⟩, part⟩
  · exact ⟨by decide, part⟩

theorem code_large {code : Int} (low : -2 ^ 31 ≤ code) (negative : code < 0) :
    2 ^ 63 ≤ (BitVec.ofInt 64 code).toNat := by
  rw [BitVec.toNat_ofInt]
  omega

theorem code_ne {code : Int} (nbytes : BitVec 64) (low : -2 ^ 31 ≤ code) (negative : code < 0)
    (small : nbytes.toNat < 2 ^ 63) : BitVec.ofInt 64 code ≠ nbytes := by
  rintro rfl
  have large := code_large low negative
  omega

def Answers (prepared : Nat → Iocb) (event : Event) (part : List Event) : Prop :=
  ∀ r ∈ part, r.res = (prepared r.obj).nbytes ↔
    event.res.toNat = (part.flatMap fun r => (prepared r.obj).bytes).length

def Bounded (prepared : Nat → Iocb) (event : Event) (part : List Event) : Prop :=
  event.res.toNat ≤ (part.flatMap fun r => (prepared r.obj).bytes).length ∨ 2 ^ 63 ≤ event.res.toNat →
    ∀ r ∈ part, r.res.toNat ≤ (prepared r.obj).nbytes.toNat ∨ 2 ^ 63 ≤ r.res.toNat

theorem Iocb.bytes_length (iocb : Iocb) : iocb.bytes.length = iocb.nbytes.toNat := by
  simp [Iocb.bytes]

theorem expandEvent_spec {event : Event} (before : Represents num prepared s (.chain io op rest :: others))
    (obj : event.obj = io) :
    ∃ s' part, s.expandEvent event op = some (s', part) ∧ Represents num prepared s' others ∧
      part.map Event.obj = Group.iocbs (.chain io op rest) ∧ Answers prepared event part ∧
      Bounded prepared event part := by
  have covers := (before.covers _ List.mem_cons_self).bytes
  have total := congrArg List.length covers
  rw [Group.head_chain, Iocb.bytes_length] at total
  obtain ⟨s', walked, after⟩ := release_spec (fun io nbytes => Event.mk io
    (if s.eventError event ≠ 0 then BitVec.ofInt 64 (s.eventError event) else nbytes)) before
  refine ⟨s', _, walked, after, ?_, ?_, ?_⟩
  · simp [Group.iocbs]
  · intro r member
    have same : ∀ members : List (Nat × Nat), ((members.map fun p => Event.mk p.1
        (if s.eventError event ≠ 0 then BitVec.ofInt 64 (s.eventError event) else (prepared p.1).nbytes)).flatMap
          fun r => (prepared r.obj).bytes) = (members.map Prod.fst).flatMap fun io => (prepared io).bytes := by
      intro members
      simp [List.flatMap_map]
    rw [same, show ((io, op) :: rest).map Prod.fst = Group.iocbs (.chain io op rest) from rfl, ← total,
      BitVec.toNat_inj]
    obtain ⟨p, inside, rfl⟩ := List.mem_map.1 member
    have small := (before.valid p.1 (List.mem_flatMap.2 ⟨_, List.mem_cons_self, List.mem_map_of_mem inside⟩)).1
    obtain ⟨none_failed, whole⟩ | ⟨⟨low, negative⟩, part⟩ := eventError_range s event
    · simp [none_failed, whole, obj]
    · have failed : s.eventError event ≠ 0 := by omega
      have wrong := code_ne (prepared p.1).nbytes low negative (by omega)
      rw [obj] at part
      simp [failed, wrong, part]
  · intro _ r member
    obtain ⟨p, -, rfl⟩ := List.mem_map.1 member
    obtain ⟨none_failed, -⟩ | ⟨⟨low, negative⟩, -⟩ := eventError_range s event
    · simp [none_failed]
    · have failed : s.eventError event ≠ 0 := by omega
      simp only [failed, ne_eq, not_false_eq_true, if_true]
      exact .inr (code_large low negative)

theorem ioSplit_spec {done : List Group} {events : List Event} (before : Represents num prepared s (done ++ others))
    (objs : events.map Event.obj = done.map Group.head) :
    ∃ s' parts, s.ioSplit events = some (s', parts.flatten) ∧ Represents num prepared s' others ∧
      parts.map (fun part => part.map Event.obj) = done.map Group.iocbs ∧
      List.Forall₂ (Answers prepared) events parts ∧ List.Forall₂ (Bounded prepared) events parts := by
  induction done generalizing s events with
  | nil =>
      obtain rfl : events = [] := by simpa using objs
      exact ⟨s, [], rfl, before, rfl, .nil, .nil⟩
  | cons g rest ih =>
      cases events with
      | nil => simp at objs
      | cons event events =>
          rw [List.map_cons, List.map_cons, List.cons.injEq] at objs
          obtain ⟨obj, objs⟩ := objs
          cases g with
          | single io =>
              obtain ⟨⟨pointer, data⟩, after⟩ := single_spec before
              obtain ⟨s', parts, split, left, names, answers, bounded⟩ := ih after objs
              rw [Group.head_single] at obj
              refine ⟨s', [event] :: parts, ?_, left, ?_, .cons ?_ answers, .cons ?_ bounded⟩
              · simp [State.ioSplit, obj, data, split]
              · simp [names, obj, Group.iocbs]
              · intro r member
                obtain rfl := List.mem_singleton.1 member
                simp [Iocb.bytes_length, ← BitVec.toNat_inj]
              · intro answer r member
                obtain rfl := List.mem_singleton.1 member
                simpa [Iocb.bytes_length] using answer
          | chain io op members =>
              have data : (s.iocbs io).data = .opio op := (before.holds _ List.mem_cons_self).2.1
              rw [Group.head_chain] at obj
              obtain ⟨s₁, part, expanded, after, reported, answered, bound⟩ := expandEvent_spec before obj
              obtain ⟨s', parts, split, left, names, answers, bounded⟩ := ih after objs
              refine ⟨s', part :: parts, ?_, left, ?_, .cons answered answers, .cons bound bounded⟩
              · simp [State.ioSplit, obj, data, expanded, split]
              · simp [names, reported]

end Blktap.Tapdisk.Optimize
