import Blktap.Tapdisk.Scheduler
import Mathlib.Data.List.Nodup

/-! # Runs of the scheduler -/

namespace Blktap.Tapdisk.Sched

section Check
variable {e e' : Event} {es pre post : List Event} {sets ready : FdSets} {d : Dir} {n now : Int}

def Event.hear (e : Event) (sets : FdSets) : Event :=
  (takeFd .except (takeFd .write (takeFd .read (e, sets, (sets.card : Int))))).1

def heard : List Event → FdSets → List Event
  | [], _ => []
  | e :: es, sets => if e.dead then e :: heard es sets else e.hear sets :: heard es (sets \ e.watches)

def left (es : List Event) (sets : FdSets) : FdSets :=
  es.foldl (fun sets e => if e.dead then sets else sets \ e.watches) sets

theorem mem_watches {x : Dir × Int} : x ∈ e.watches ↔ e.mode.has x.1 = true ∧ x.2 = e.fd := by
  obtain ⟨d, fd⟩ := x
  unfold Event.watches
  simp only [Finset.mem_image, Finset.mem_filter, Prod.mk.injEq]
  constructor
  · rintro ⟨d', ⟨-, has⟩, rfl, rfl⟩
    exact ⟨has, rfl⟩
  · rintro ⟨has, rfl⟩
    refine ⟨d, ⟨?_, has⟩, rfl, rfl⟩
    cases d <;> decide

theorem takeFd_card (d : Dir) (r : Event × FdSets × Int) :
    (takeFd d r).2.2 - (takeFd d r).2.1.card = r.2.2 - r.2.1.card := by
  obtain ⟨e, sets, n⟩ := r
  unfold takeFd
  dsimp only
  split
  · next taken =>
      have card := Finset.card_erase_add_one taken.2
      simp only
      omega
  · rfl

theorem takeFd_same (d : Dir) (r : Event × FdSets × Int) :
    (takeFd d r).1.mode = r.1.mode ∧ (takeFd d r).1.fd = r.1.fd ∧
      ∀ x, x ∈ (takeFd d r).2.1 ↔ x ∈ r.2.1 ∧ ¬ (x = (d, r.1.fd) ∧ r.1.mode.has d = true) := by
  obtain ⟨e, sets, n⟩ := r
  unfold takeFd
  dsimp only
  split
  · next taken =>
      refine ⟨rfl, rfl, fun x => ?_⟩
      simp [taken.1, and_comm]
  · next kept =>
      refine ⟨rfl, rfl, fun x => ?_⟩
      simp only [iff_self_and]
      rintro member ⟨rfl, has⟩
      exact kept ⟨has, member⟩

theorem takeFds (e : Event) (sets : FdSets) :
    takeFd .except (takeFd .write (takeFd .read (e, sets, (sets.card : Int)))) =
      (e.hear sets, sets \ e.watches, ((sets \ e.watches).card : Int)) := by
  have read := takeFd_same .read (e, sets, (sets.card : Int))
  have write := takeFd_same .write (takeFd .read (e, sets, (sets.card : Int)))
  have except := takeFd_same .except (takeFd .write (takeFd .read (e, sets, (sets.card : Int))))
  have kept : (takeFd .except (takeFd .write (takeFd .read (e, sets, (sets.card : Int))))).2.1 = sets \ e.watches := by
    ext ⟨d, fd⟩
    rw [except.2.2, write.2.2, read.2.2, write.1, write.2.1, read.1, read.2.1, Finset.mem_sdiff, mem_watches]
    cases d <;> simp [Prod.ext_iff, and_comm]
  have count := (takeFd_card .except (takeFd .write (takeFd .read (e, sets, (sets.card : Int))))).trans
    ((takeFd_card .write _).trans (takeFd_card .read _))
  rw [kept] at count
  refine Prod.ext rfl (Prod.ext kept ?_)
  simp only at count ⊢
  omega

theorem mem_left {x : Dir × Int} : x ∈ left es sets ↔ x ∈ sets ∧ ∀ e ∈ es, e.dead = false → x ∉ e.watches := by
  unfold left
  induction es generalizing sets with
  | nil => simp
  | cons e es ih =>
      rw [List.foldl_cons, ih]
      cases dead : e.dead <;> simp [dead, and_assoc]

theorem hear_empty : e.hear ∅ = e := by
  simp [Event.hear, takeFd]

theorem heard_empty : heard es ∅ = es := by
  induction es with
  | nil => rfl
  | cons e es ih => simp [heard, hear_empty, ih]

theorem left_empty : left es ∅ = ∅ := by
  ext x
  simp [mem_left]

theorem checkFdEvents_eq : checkFdEvents es sets sets.card = (heard es sets, ((left es sets).card : Int)) := by
  induction es generalizing sets with
  | nil => rfl
  | cons e es ih =>
      unfold checkFdEvents
      by_cases zero : (sets.card : Int) = 0
      · have empty : sets = ∅ := Finset.card_eq_zero.mp (by exact_mod_cast zero)
        subst empty
        rw [if_pos zero, heard_empty, left_empty]
      · rw [if_neg zero]
        cases dead : e.dead with
        | true => simp [heard, left, dead, ih]
        | false =>
            simp only [Bool.false_eq_true, if_false, takeFds, ih, heard, left, dead, List.foldl_cons]

def Event.ring (e : Event) (now : Int) : Event :=
  if e.dead || e.pending.any || !e.mode.timeout || now < e.deadline then e else e.raise .timer

theorem checkTimeouts_eq : checkTimeouts now es =
    if es.any (fun e => e.pending.any && e.masked) then none else some (es.map (·.ring now)) := by
  induction es with
  | nil => rfl
  | cons e es ih =>
      unfold checkTimeouts
      rw [ih, List.any_cons]
      cases clash : e.pending.any && e.masked with
      | true => simp
      | false =>
          simp only [Bool.false_eq_true, if_false, Bool.false_or]
          cases es.any (fun e => e.pending.any && e.masked) <;> rfl

theorem checkEvents_eq : checkEvents es ready now =
    if (heard es ready).any (fun e => e.pending.any && e.masked) then none
    else if left es ready = ∅ then some ((heard es ready).map (·.ring now)) else none := by
  have checked : (if ready.card = 0 then (es, 0) else checkFdEvents es ready ready.card) =
      (heard es ready, ((left es ready).card : Int)) := by
    by_cases zero : ready.card = 0
    · have empty : ready = ∅ := Finset.card_eq_zero.mp zero
      rw [if_pos zero, empty, heard_empty, left_empty]
      rfl
    · rw [if_neg zero, checkFdEvents_eq]
  unfold checkEvents
  rw [checked]
  dsimp only
  rw [checkTimeouts_eq]
  split
  · rfl
  · simp only [Option.bind_some, Int.natCast_eq_zero, Finset.card_eq_zero]

def Event.Like (e e' : Event) : Prop :=
  e'.id = e.id ∧ e'.dead = e.dead ∧ e'.masked = e.masked ∧ e'.mode = e.mode ∧ e'.fd = e.fd ∧ e'.deadline = e.deadline

def Event.Counted (e : Event) : Prop := e.found = e.called + e.skipped + e.pending.any.toNat

theorem Event.Like.refl (e : Event) : e.Like e := ⟨rfl, rfl, rfl, rfl, rfl, rfl⟩

theorem Event.Like.trans {e'' : Event} (first : e.Like e') (second : e'.Like e'') : e.Like e'' := by
  unfold Event.Like at *
  simp only [second, first, and_self]

theorem raise_like (pending : Poll) : e.Like (e.raise pending) := ⟨rfl, rfl, rfl, rfl, rfl, rfl⟩

theorem raise_counted {pending : Poll} (counted : e.Counted) (any : pending.any = true) : (e.raise pending).Counted := by
  unfold Event.Counted Event.raise at *
  dsimp only
  rw [any, counted]
  cases e.pending.any <;> simp

theorem add_any {p : Poll} : (p.add d).any = true := by
  cases d <;> simp [Poll.add, Poll.any]

theorem takeFd_like (d : Dir) (r : Event × FdSets × Int) : r.1.Like (takeFd d r).1 := by
  unfold takeFd
  dsimp only
  split
  · exact raise_like _
  · exact .refl _

theorem takeFd_counted {r : Event × FdSets × Int} (counted : r.1.Counted) : (takeFd d r).1.Counted := by
  unfold takeFd
  dsimp only
  split
  · exact raise_counted counted add_any
  · exact counted

theorem hear_like : e.Like (e.hear sets) :=
  (takeFd_like .read _).trans ((takeFd_like .write _).trans (takeFd_like .except _))

theorem hear_counted (counted : e.Counted) : (e.hear sets).Counted :=
  takeFd_counted (takeFd_counted (takeFd_counted counted))

theorem ring_like : e.Like (e.ring now) := by
  unfold Event.ring
  split
  · exact .refl _
  · exact raise_like _

theorem ring_counted (counted : e.Counted) : (e.ring now).Counted := by
  unfold Event.ring
  split
  · exact counted
  · exact raise_counted counted rfl

theorem takeFd_pending {r : Event × FdSets × Int} (d' : Dir) :
    (takeFd d r).1.pending.has d' =
      (r.1.pending.has d' || (decide (d' = d) && r.1.mode.has d && decide ((d, r.1.fd) ∈ r.2.1))) := by
  obtain ⟨e, sets, n⟩ := r
  unfold takeFd
  dsimp only
  split
  · next taken =>
      rw [decide_eq_true taken.2, taken.1]
      cases d <;> cases d' <;> simp [Event.raise, Poll.add, Poll.has]
  · next kept =>
      have none : (e.mode.has d && decide ((d, e.fd) ∈ sets)) = false := by
        simpa using kept
      simp [Bool.and_assoc, none]

theorem hear_pending : (e.hear sets).pending.has d =
    (e.pending.has d || (e.mode.has d && decide ((d, e.fd) ∈ sets))) := by
  have read := takeFd_same .read (e, sets, (sets.card : Int))
  have write := takeFd_same .write (takeFd .read (e, sets, (sets.card : Int)))
  unfold Event.hear
  rw [takeFd_pending, takeFd_pending, takeFd_pending]
  cases d <;> simp [read, write]

theorem takeFd_timeout {r : Event × FdSets × Int} : (takeFd d r).1.pending.timeout = r.1.pending.timeout := by
  unfold takeFd
  dsimp only
  split
  · cases d <;> rfl
  · rfl

theorem hear_timeout : (e.hear sets).pending.timeout = e.pending.timeout :=
  takeFd_timeout.trans (takeFd_timeout.trans takeFd_timeout)

theorem any_iff {p : Poll} : p.any = true ↔ (∃ d, p.has d = true) ∨ p.timeout = true := by
  unfold Poll.any
  simp only [Bool.or_eq_true]
  constructor
  · rintro (((read | write) | except) | timeout)
    · exact .inl ⟨.read, read⟩
    · exact .inl ⟨.write, write⟩
    · exact .inl ⟨.except, except⟩
    · exact .inr timeout
  · rintro (⟨d, has⟩ | timeout)
    · cases d <;> simp_all [Poll.has]
    · exact .inr timeout

theorem has_of_quiet {p : Poll} (quiet : p.any = false) (d : Dir) : p.has d = false := by
  cases has : p.has d with
  | false => rfl
  | true =>
      rw [any_iff.mpr (.inl ⟨d, has⟩)] at quiet
      cases quiet

theorem timeout_of_quiet {p : Poll} (quiet : p.any = false) : p.timeout = false := by
  unfold Poll.any at quiet
  simp only [Bool.or_eq_false_iff] at quiet
  exact quiet.2

theorem heard_getElem? (i : Nat) :
    (heard es sets)[i]? = es[i]?.map fun e => if e.dead then e else e.hear (left (es.take i) sets) := by
  induction es generalizing sets i with
  | nil => simp [heard]
  | cons e es ih =>
      unfold heard
      cases dead : e.dead with
      | true =>
          cases i with
          | zero => simp [dead]
          | succ i => simp [ih, left, dead]
      | false =>
          cases i with
          | zero => simp [dead, left]
          | succ i => simp [ih, left, dead]

theorem mem_preparedSets {x : Dir × Int} :
    x ∈ preparedSets es ↔ ∃ e ∈ es, e.masked = false ∧ e.dead = false ∧ x ∈ e.watches := by
  have general : ∀ sets : FdSets, x ∈ es.foldl (fun sets e => if e.masked || e.dead then sets else sets ∪ e.watches) sets ↔
      x ∈ sets ∨ ∃ e ∈ es, e.masked = false ∧ e.dead = false ∧ x ∈ e.watches := by
    induction es with
    | nil => simp
    | cons e es ih =>
        intro sets
        rw [List.foldl_cons, ih]
        cases masked : e.masked <;> cases dead : e.dead <;> simp [masked, dead, or_assoc]
  unfold preparedSets
  rw [general]
  simp

theorem left_prepared (asked : ready ⊆ preparedSets es) : left es ready = ∅ := by
  apply Finset.eq_empty_of_forall_notMem
  intro x there
  obtain ⟨member, taken⟩ := mem_left.mp there
  obtain ⟨e, inside, -, live, watched⟩ := mem_preparedSets.mp (asked member)
  exact taken e inside live watched

def Alone (events : List Event) (ready : FdSets) : Prop :=
  ∀ (i : Nat) (e : Event), events[i]? = some e → e.dead = false → ∀ d, e.mode.has d = true → (d, e.fd) ∈ ready →
    (e.masked = true ↔
      ∃ j < i, ∃ e' : Event, events[j]? = some e' ∧ e'.dead = false ∧ e'.mode.has d = true ∧ e'.fd = e.fd)

theorem mem_left_take {i : Nat} {fd : Int} : (d, fd) ∈ left (es.take i) sets ↔ (d, fd) ∈ sets ∧
    ¬ ∃ j < i, ∃ e' : Event, es[j]? = some e' ∧ e'.dead = false ∧ e'.mode.has d = true ∧ e'.fd = fd := by
  rw [mem_left]
  apply and_congr_right
  intro _
  constructor
  · rintro none ⟨j, before, e', place, live, has, rfl⟩
    apply none e' _ live (mem_watches.mpr ⟨has, rfl⟩)
    apply List.mem_iff_getElem?.mpr
    exact ⟨j, by rw [List.getElem?_take, if_pos before, place]⟩
  · intro none e' member live watched
    obtain ⟨j, place⟩ := List.mem_iff_getElem?.mp member
    rw [List.getElem?_take] at place
    split at place
    · next before => exact none ⟨j, before, e', place, live, (mem_watches.mp watched).1, (mem_watches.mp watched).2.symm⟩
    · cases place

def Clear (es : List Event) : Prop := ∀ e ∈ es, e.dead = false → e.pending.any = false

def Clashes (e : Event) : Prop := e.pending.any = true ∧ e.masked = true

theorem hear_any (clear : e.pending.any = false) :
    (e.hear sets).pending.any = true ↔ ∃ d, e.mode.has d = true ∧ (d, e.fd) ∈ sets := by
  rw [any_iff, hear_timeout, timeout_of_quiet clear]
  simp only [hear_pending, has_of_quiet clear, Bool.false_or, Bool.and_eq_true, decide_eq_true_eq,
    Bool.false_eq_true, or_false]

theorem heard_spec (clear : Clear es) {i : Nat} (place : es[i]? = some e) (found : (heard es ready)[i]? = some e') :
    e.Like e' ∧ (e.dead = true → e' = e) ∧ (e.dead = false →
      ∀ d, e'.pending.has d = true ↔ e.mode.has d = true ∧ (d, e.fd) ∈ left (es.take i) ready) := by
  rw [heard_getElem?, place, Option.map_some, Option.some.injEq] at found
  subst found
  cases dead : e.dead with
  | true => exact ⟨.refl _, fun _ => rfl, fun live => by cases live⟩
  | false =>
      simp only [Bool.false_eq_true, if_false]
      refine ⟨hear_like, by simp, fun _ d => ?_⟩
      have quiet := clear e (List.mem_iff_getElem?.mpr ⟨i, place⟩) dead
      simp [hear_pending, has_of_quiet quiet d]

theorem ring_has : (e.ring now).pending.has d = e.pending.has d := by
  unfold Event.ring
  split
  · rfl
  · next rung =>
      have quiet : e.pending.any = false := by
        simp only [Bool.or_eq_true, not_or, Bool.not_eq_true] at rung
        exact rung.1.1.2
      rw [has_of_quiet quiet d]
      cases d <;> rfl

theorem ring_told {h : Event} (like : e.Like h) : State.told ready now e (h.ring now) = true ↔
    (e.dead = false → e.masked = false → ∀ d, e.mode.has d = true → (d, e.fd) ∈ ready → h.pending.has d = true) := by
  obtain ⟨-, dead, -, mode, -, deadline⟩ := like
  have timed : (!e.mode.timeout || decide (now < e.deadline) || (h.ring now).pending.any || e.dead) = true := by
    unfold Event.ring
    rw [dead, mode, deadline]
    split
    · next kept =>
        simp only [Bool.or_eq_true] at kept ⊢
        tauto
    · simp [Event.raise, Poll.timer, Poll.any]
  unfold State.told
  cases live : e.dead with
  | true => simp
  | false =>
      rw [live, Bool.or_false] at timed
      cases e.masked with
      | true => simp
      | false =>
          simp only [Bool.false_or, timed, Bool.and_true, List.all_eq_true, ring_has, Bool.or_eq_true,
            Bool.not_eq_true', decide_eq_true_eq, true_imp_iff]
          constructor
          · intro all d has there
            rcases all d (by cases d <;> simp) with (hasnt | away) | told
            · rw [has] at hasnt
              cases hasnt
            · exact absurd there away
            · exact told
          · intro all d _
            by_cases has : e.mode.has d = true
            · by_cases there : (d, e.fd) ∈ ready
              · exact .inr (all d has there)
              · exact .inl (.inr there)
            · exact .inl (.inl (by simpa using has))

theorem all_zip {f : Event × Event → Bool} {es' : List Event} :
    (es.zip es').all f = true ↔
      ∀ (i : Nat) (e e' : Event), es[i]? = some e → es'[i]? = some e' → f (e, e') = true := by
  rw [List.all_eq_true]
  constructor
  · intro all i e e' place place'
    exact all (e, e') (List.mem_iff_getElem?.mpr ⟨i, List.getElem?_zip_eq_some.mpr ⟨place, place'⟩⟩)
  · rintro all ⟨e, e'⟩ member
    obtain ⟨i, both⟩ := List.mem_iff_getElem?.mp member
    obtain ⟨place, place'⟩ := List.getElem?_zip_eq_some.mp both
    exact all i e e' place place'

def Hears (es : List Event) (ready : FdSets) (i : Nat) (e : Event) (d : Dir) : Prop :=
  e.mode.has d = true ∧ (d, e.fd) ∈ left (es.take i) ready

theorem clashes_iff (clear : Clear es) : (heard es ready).any (fun e => e.pending.any && e.masked) = false ↔
    (∀ e ∈ es, e.dead = true → ¬ Clashes e) ∧
      ∀ (i : Nat) (e : Event), es[i]? = some e → e.dead = false → ∀ d, Hears es ready i e d → e.masked = false := by
  rw [Bool.eq_false_iff, ne_eq, List.any_eq_true, not_exists]
  simp only [not_and, Bool.and_eq_true]
  constructor
  · intro none
    constructor
    · intro e member dead clash
      obtain ⟨i, place⟩ := List.mem_iff_getElem?.mp member
      have found : (heard es ready)[i]? = some e := by
        rw [heard_getElem?, place, Option.map_some, if_pos dead]
      exact none e (List.mem_iff_getElem?.mpr ⟨i, found⟩) clash.1 clash.2
    · intro i e place live d hears
      cases masked : e.masked with
      | false => rfl
      | true =>
          have found : (heard es ready)[i]? = some (e.hear (left (es.take i) ready)) := by
            rw [heard_getElem?, place, Option.map_some, if_neg (by simp [live])]
          have like := (heard_spec clear place found).1
          have told := ((heard_spec clear place found).2.2 live d).mpr hears
          exact absurd (like.2.2.1.trans masked)
            (none _ (List.mem_iff_getElem?.mpr ⟨i, found⟩) (any_iff.mpr (.inl ⟨d, told⟩)))
  · rintro ⟨deads, lives⟩ e' member any masked
    obtain ⟨i, found⟩ := List.mem_iff_getElem?.mp member
    have shown := found
    rw [heard_getElem?] at shown
    obtain ⟨e, place, same⟩ := Option.map_eq_some_iff.mp shown
    obtain ⟨like, gone, spec⟩ := heard_spec clear place found
    have inside := List.mem_iff_getElem?.mpr ⟨i, place⟩
    cases dead : e.dead with
    | true =>
        rw [gone dead] at any masked
        exact deads e inside dead ⟨any, masked⟩
    | false =>
        rw [dead, if_neg (by decide)] at same
        rw [← same, hear_any (clear e inside dead)] at any
        obtain ⟨d, hears⟩ := any
        have quiet := lives i e place dead d hears
        rw [like.2.2.1, quiet] at masked
        cases masked

theorem checkEvents_iff (clear : Clear es) (asked : ready ⊆ preparedSets es) :
    (∃ es', checkEvents es ready now = some es' ∧
      (es.zip es').all (fun (e, e') => State.told ready now e e') = true) ↔
    Alone es ready ∧ ∀ e ∈ es, e.dead = true → ¬ Clashes e := by
  have told : (es.zip ((heard es ready).map (·.ring now))).all (fun (e, e') => State.told ready now e e') = true ↔
      ∀ (i : Nat) (e : Event), es[i]? = some e → e.dead = false → e.masked = false →
        ∀ d, e.mode.has d = true → (d, e.fd) ∈ ready → (d, e.fd) ∈ left (es.take i) ready := by
    rw [all_zip]
    constructor
    · intro all i e place live masked d has there
      have found : (heard es ready)[i]? = some (e.hear (left (es.take i) ready)) := by
        rw [heard_getElem?, place, Option.map_some, if_neg (by simp [live])]
      obtain ⟨like, -, spec⟩ := heard_spec clear place found
      have one := all i e _ place (by rw [List.getElem?_map, found, Option.map_some])
      exact ((spec live d).mp ((ring_told like).mp one live masked d has there)).2
    · intro all i e e' place place'
      rw [List.getElem?_map] at place'
      obtain ⟨h, found, rfl⟩ := Option.map_eq_some_iff.mp place'
      obtain ⟨like, -, spec⟩ := heard_spec clear place found
      apply (ring_told like).mpr
      intro live masked d has there
      exact (spec live d).mpr ⟨has, all i e place live masked d has there⟩
  rw [checkEvents_eq, left_prepared asked]
  cases clash : (heard es ready).any (fun e => e.pending.any && e.masked) with
  | true =>
      simp only [if_true, reduceCtorEq, false_and, exists_false, false_iff, not_and]
      intro alone none
      have quiet : (heard es ready).any (fun e => e.pending.any && e.masked) = false := by
        refine (clashes_iff clear).mpr ⟨none, fun i e place live d hears => ?_⟩
        obtain ⟨there, first⟩ := mem_left_take.mp hears.2
        have masked := (alone i e place live d hears.1 there).not.mpr first
        simpa using masked
      rw [clash] at quiet
      cases quiet
  | false =>
      obtain ⟨deads, lives⟩ := (clashes_iff clear).mp clash
      simp only [Bool.false_eq_true, if_false, if_true, Option.some.injEq, exists_eq_left', told]
      constructor
      · intro all
        refine ⟨fun i e place live d has there => ?_, deads⟩
        constructor
        · intro masked
          by_contra first
          have := lives i e place live d ⟨has, mem_left_take.mpr ⟨there, first⟩⟩
          rw [masked] at this
          cases this
        · intro earlier
          cases masked : e.masked with
          | true => rfl
          | false =>
              have still := all i e place live masked d has there
              exact absurd earlier (mem_left_take.mp still).2
      · rintro ⟨alone, -⟩ i e place live masked d has there
        refine mem_left_take.mpr ⟨there, fun earlier => ?_⟩
        have := (alone i e place live d has there).mpr earlier
        rw [masked] at this
        cases this

theorem checkEvents_some {es' : List Event} (checked : checkEvents es ready now = some es') :
    es' = (heard es ready).map (·.ring now) := by
  rw [checkEvents_eq] at checked
  split at checked
  · cases checked
  · split at checked
    · exact (Option.some.inj checked).symm
    · cases checked

theorem heard_ids : (heard es sets).map (·.id) = es.map (·.id) := by
  induction es generalizing sets with
  | nil => rfl
  | cons e es ih =>
      unfold heard
      split
      · rw [List.map_cons, List.map_cons, ih]
      · rw [List.map_cons, List.map_cons, ih, hear_like.1]

theorem checkEvents_ids {es' : List Event} (checked : checkEvents es ready now = some es') :
    es'.map (·.id) = es.map (·.id) := by
  rw [checkEvents_some checked, List.map_map]
  refine (List.map_congr_left fun e _ => ?_).trans heard_ids
  exact ring_like.1

theorem checkEvents_like {es' : List Event} (checked : checkEvents es ready now = some es') (member : e' ∈ es') :
    ∃ e ∈ es, e.Like e' ∧ (e.Counted → e'.Counted) := by
  rw [checkEvents_some checked] at member
  obtain ⟨h, inside, rfl⟩ := List.mem_map.mp member
  obtain ⟨i, found⟩ := List.mem_iff_getElem?.mp inside
  rw [heard_getElem?] at found
  obtain ⟨e, place, rfl⟩ := Option.map_eq_some_iff.mp found
  refine ⟨e, List.mem_iff_getElem?.mpr ⟨i, place⟩, ?_, fun counted => ?_⟩
  · split
    · exact ring_like
    · exact hear_like.trans ring_like
  · split
    · exact ring_counted counted
    · exact ring_counted (hear_counted counted)

end Check

namespace State
variable {s t : State} {f : Frame} {rest : List Frame} {e e' : Event} {now : Int}

def passed (s : State) : Nat :=
  match s.frames with
  | [] => s.events.length
  | f :: _ => if f.phase = .selecting then s.events.length else if f.calling then f.next + 1 else f.next

structure Tidy (s : State) : Prop where
  depth : s.depth = s.frames.length
  waits : ∀ f ∈ s.frames.tail, f.calling = true
  idle : ∀ f ∈ s.frames, f.phase = .selecting → f.calling = false
  clear : ∀ (i : Nat) (e : Event), s.events[i]? = some e → i < s.passed → e.dead = false → e.pending.any = false
  counted : ∀ e ∈ s.events, e.Counted
  ids : (s.events.map (·.id)).Nodup
  revoked : ∀ e ∈ s.events, s.revoked e.id = true → e.dead = true
  hidden : ∀ e ∈ s.events, s.hidden e.id = true → e.masked = true

structure Sound (s : State) : Prop where
  noBug : s.bug = false
  quiet : s.stray = false
  told : s.missed = false
  kept : s.loose = false
  once : ∀ e ∈ s.events, e.found = e.called + e.skipped + e.pending.any.toNat
  served : ∀ f ∈ s.frames.head?, f.phase ≠ .selecting → f.calling = false → s.events.length ≤ f.next →
    ∀ e ∈ s.events, e.dead = false → e.pending.any = false

/-- The id that is given out is not in use, and `select` reports no descriptor on which live events would be missed or a
masked one found. -/
def Fine (s : State) : Step → Prop
  | .register .. => ∀ e ∈ s.events, e.id ≠ s.uuid
  | .select (some ready) _ _ => Alone s.events ready ∧ ∀ e ∈ s.events, e.dead = true → ¬ Clashes e
  | _ => True

inductive Reached (allowed : State → Step → Prop) : State → Prop
  | start : Reached allowed .initial
  | step {s t : State} (step : Step) : Reached allowed s → allowed s step → s.perform step = some t → Reached allowed t

theorem Tidy.clear_all (tidy : Tidy s) (all : s.events.length ≤ s.passed) : Clear s.events := by
  intro e member live
  obtain ⟨i, place⟩ := List.mem_iff_getElem?.mp member
  have bound := (List.getElem?_eq_some_iff.mp place).1
  exact tidy.clear i e place (by omega) live

theorem clear_of_all (clear : Clear s.events) (i : Nat) (e : Event) (place : s.events[i]? = some e) (live : e.dead = false) :
    e.pending.any = false :=
  clear e (List.mem_iff_getElem?.mpr ⟨i, place⟩) live

theorem changeFirst_eq {id : Nat} {change : Event → Event} {es : List Event} (ids : (es.map (·.id)).Nodup) :
    changeFirst id change es = es.map fun e => if e.id = id then change e else e := by
  induction es with
  | nil => rfl
  | cons e es ih =>
      obtain ⟨fresh, ids⟩ := List.nodup_cons.mp ids
      unfold changeFirst
      by_cases here : e.id = id
      · have others : es.map (fun e => if e.id = id then change e else e) = es := by
          apply (List.map_congr_left fun e' member => ?_).trans (List.map_id es)
          apply if_neg
          intro same
          exact fresh (List.mem_map.mpr ⟨e', member, same.trans here.symm⟩)
        rw [if_pos here, List.map_cons, if_pos here, others]
      · rw [if_neg here, List.map_cons, if_neg here, ih ids]

theorem Tidy.register (tidy : Tidy s) {mode : Poll} {fd timeout : Int} {cb mem : Bool}
    (fresh : ∀ e ∈ s.events, e.id ≠ s.uuid) : Tidy (s.registerEvent mode fd timeout now cb mem).2 := by
  unfold registerEvent
  split
  · exact tidy
  · split
    · exact tidy
    · split
      · exact tidy
      · refine ⟨tidy.depth, tidy.waits, tidy.idle, ?_, ?_, ?_, ?_, ?_⟩
        · intro i e place small live
          dsimp only at place
          rw [List.getElem?_append] at place
          split at place
          · next old =>
              refine tidy.clear i e place ?_ live
              unfold passed at small ⊢
              cases frames : s.frames with
              | nil => exact old
              | cons f rest =>
                  rw [frames] at small
                  dsimp only at small ⊢
                  split
                  · exact old
                  · rwa [if_neg ‹_›] at small
          · cases List.mem_singleton.mp (List.mem_of_getElem? place)
            rfl
        · intro e member
          cases List.mem_append.mp member with
          | inl old => exact tidy.counted e old
          | inr new =>
              cases List.mem_singleton.mp new
              rfl
        · rw [List.map_append]
          refine List.nodup_append.mpr ⟨tidy.ids, by simp, ?_⟩
          intro id old id' new same
          obtain ⟨e, member, rfl⟩ := List.mem_map.mp old
          simp only [List.map_cons, List.map_nil, List.mem_singleton] at new
          exact fresh e member (same.trans new)
        · intro e member gone
          cases List.mem_append.mp member with
          | inl old =>
              dsimp only at gone
              rw [Function.update_of_ne (fresh e old)] at gone
              exact tidy.revoked e old gone
          | inr new =>
              cases List.mem_singleton.mp new
              simp at gone
        · intro e member gone
          cases List.mem_append.mp member with
          | inl old =>
              dsimp only at gone
              rw [Function.update_of_ne (fresh e old)] at gone
              exact tidy.hidden e old gone
          | inr new =>
              cases List.mem_singleton.mp new
              simp at gone

theorem Tidy.map (tidy : Tidy s) {g : Event → Event} {revoked hidden : Nat → Bool} (id : ∀ e, (g e).id = e.id)
    (pending : ∀ e, (g e).pending = e.pending) (live : ∀ e, (g e).dead = false → e.dead = false)
    (counted : ∀ e, e.Counted → (g e).Counted) (gone : ∀ e ∈ s.events, revoked e.id = true → (g e).dead = true)
    (masked : ∀ e ∈ s.events, hidden e.id = true → (g e).masked = true) :
    Tidy { s with events := s.events.map g, revoked, hidden } := by
  refine ⟨tidy.depth, tidy.waits, tidy.idle, ?_, ?_, ?_, ?_, ?_⟩
  · intro i e place small alive
    dsimp only at place
    rw [List.getElem?_map] at place
    obtain ⟨old, before, rfl⟩ := Option.map_eq_some_iff.mp place
    rw [pending]
    refine tidy.clear i old before ?_ (live old alive)
    unfold passed at small ⊢
    simpa only [List.length_map] using small
  · intro e member
    obtain ⟨old, before, rfl⟩ := List.mem_map.mp member
    exact counted old (tidy.counted old before)
  · rw [List.map_map]
    have same : (fun e => e.id) ∘ g = fun e : Event => e.id := funext id
    rw [same]
    exact tidy.ids
  · intro e member revoked
    obtain ⟨old, before, rfl⟩ := List.mem_map.mp member
    rw [id] at revoked
    exact gone old before revoked
  · intro e member hidden
    obtain ⟨old, before, rfl⟩ := List.mem_map.mp member
    rw [id] at hidden
    exact masked old before hidden

theorem Tidy.unregister (tidy : Tidy s) (id : Nat) : Tidy (s.unregisterEvent id) := by
  unfold unregisterEvent
  split
  · exact tidy
  · rw [changeFirst_eq tidy.ids]
    apply tidy.map
    · intro e
      split <;> rfl
    · intro e
      split <;> rfl
    · intro e live
      split at live
      · cases live
      · exact live
    · intro e counted
      split <;> exact counted
    · intro e member revoked
      split
      · rfl
      · next other =>
          rw [Function.update_of_ne other] at revoked
          exact tidy.revoked e member revoked
    · intro e member hidden
      split <;> exact tidy.hidden e member hidden

theorem Tidy.mask (tidy : Tidy s) (id : Nat) (masked : Bool) : Tidy (s.maskEvent id masked) := by
  unfold maskEvent
  split
  · exact tidy
  · rw [changeFirst_eq tidy.ids]
    apply tidy.map
    · intro e
      split <;> rfl
    · intro e
      split <;> rfl
    · intro e live
      split at live <;> exact live
    · intro e counted
      split <;> exact counted
    · intro e member revoked
      split <;> exact tidy.revoked e member revoked
    · intro e member hidden
      split
      · next here =>
          rw [here, Function.update_self] at hidden
          exact hidden
      · next other =>
          rw [Function.update_of_ne other] at hidden
          exact tidy.hidden e member hidden

theorem Tidy.leave (tidy : Tidy s) (frames : s.frames = f :: rest) (clear : Clear s.events) : Tidy (s.leave rest) := by
  have waits := tidy.waits
  rw [frames] at waits
  have depth := tidy.depth
  rw [frames] at depth
  refine ⟨?_, ?_, ?_, ?_, tidy.counted, tidy.ids, tidy.revoked, tidy.hidden⟩
  · change s.depth - 1 = rest.length
    rw [depth]
    rfl
  · exact fun g member => waits g (List.mem_of_mem_tail member)
  · intro g member
    exact tidy.idle g (frames ▸ List.mem_cons_of_mem _ member)
  · exact fun i e place _ live => clear_of_all clear i e place live

theorem Tidy.enter (tidy : Tidy s) (runs : s.clientRuns = true) : Tidy s.enter := by
  refine ⟨?_, ?_, ?_, ?_, tidy.counted, tidy.ids, tidy.revoked, tidy.hidden⟩
  · exact congrArg (· + 1) tidy.depth
  · intro g member
    change g ∈ s.frames at member
    unfold clientRuns at runs
    have waits := tidy.waits
    cases frames : s.frames with
    | nil => simp [frames] at member
    | cons f rest =>
        rw [frames] at member waits runs
        cases List.mem_cons.mp member with
        | inl top =>
            rw [top]
            simpa using runs
        | inr below => exact waits g below
  · intro g member phase
    cases List.mem_cons.mp member with
    | inl top =>
        rw [top]
    | inr below => exact tidy.idle g below phase
  · intro i e place small live
    change i < passed s.enter at small
    have depth := tidy.depth
    by_cases inner : 1 < s.depth + 1
    · unfold passed State.enter at small
      simp [inner] at small
    · have outer : s.frames = [] := List.length_eq_zero_iff.mp (by omega)
      refine tidy.clear_all ?_ e (List.mem_iff_getElem?.mpr ⟨i, place⟩) live
      unfold passed
      rw [outer]

theorem Tidy.finish (tidy : Tidy s) (frames : s.frames = f :: rest) (calling : f.calling = true) :
    Tidy (s.finish f rest) := by
  have waits := tidy.waits
  rw [frames] at waits
  have depth := tidy.depth
  rw [frames] at depth
  have busy : f.phase ≠ .selecting := by
    intro phase
    have := tidy.idle f (frames ▸ List.mem_cons_self) phase
    rw [calling] at this
    cases this
  refine ⟨depth, waits, ?_, ?_, tidy.counted, tidy.ids, tidy.revoked, tidy.hidden⟩
  · intro g member phase
    cases List.mem_cons.mp member with
    | inl top => rw [top]
    | inr below => exact tidy.idle g (frames ▸ List.mem_cons_of_mem _ below) phase
  · intro i e place small live
    refine tidy.clear i e place ?_ live
    unfold passed State.finish at *
    rw [frames]
    dsimp only at small ⊢
    rw [if_neg busy] at small ⊢
    simpa [calling] using small

theorem Tidy.selecting_clear (tidy : Tidy s) (frames : s.frames = f :: rest) (phase : f.phase = .selecting) :
    Clear s.events := by
  apply tidy.clear_all
  unfold passed
  rw [frames]
  simp [phase]

theorem Tidy.checked (tidy : Tidy s) (frames : s.frames = f :: rest) {ready : FdSets} {events : List Event}
    {timeout maxTimeout : Int} {missed : Bool} (checked : checkEvents s.events ready now = some events) :
    Tidy { s with
      events, timeout, maxTimeout, missed
      frames := { phase := .after, next := 0, ran := 0, calling := false } :: rest } := by
  have waits := tidy.waits
  rw [frames] at waits
  have depth := tidy.depth
  rw [frames] at depth
  refine ⟨depth, waits, ?_, ?_, ?_, ?_, ?_, ?_⟩
  · intro g member phase
    cases List.mem_cons.mp member with
    | inl top => rw [top]
    | inr below => exact tidy.idle g (frames ▸ List.mem_cons_of_mem _ below) phase
  · intro i e place small live
    simp [passed] at small
  · intro e' member
    obtain ⟨e, before, -, counted⟩ := checkEvents_like checked member
    exact counted (tidy.counted e before)
  · exact (checkEvents_ids checked) ▸ tidy.ids
  · intro e' member revoked
    obtain ⟨e, before, like, -⟩ := checkEvents_like checked member
    dsimp only at revoked
    rw [like.1] at revoked
    exact like.2.1.trans (tidy.revoked e before revoked)
  · intro e' member hidden
    obtain ⟨e, before, like, -⟩ := checkEvents_like checked member
    dsimp only at hidden
    rw [like.1] at hidden
    exact like.2.2.1.trans (tidy.hidden e before hidden)

theorem Tidy.select (tidy : Tidy s) (frames : s.frames = f :: rest) (phase : f.phase = .selecting)
    {ready : Option FdSets} {start : Int} (works : (s.select rest ready start now).bug = false) :
    Tidy (s.select rest ready start now) := by
  have clear := tidy.selecting_clear frames phase
  unfold State.select at works ⊢
  cases ready with
  | none =>
      have timed : Tidy { s with timeout := min (preparedTimeout s.events start) s.maxTimeout } :=
        ⟨tidy.depth, tidy.waits, tidy.idle, tidy.clear, tidy.counted, tidy.ids, tidy.revoked, tidy.hidden⟩
      exact timed.leave frames clear
  | some ready =>
      dsimp only at works ⊢
      cases checked : checkEvents s.events ready now with
      | none => simp [checked] at works
      | some events => exact tidy.checked frames checked

theorem Tidy.ended_clear (tidy : Tidy s) (frames : s.frames = f :: rest) (still : f.calling = false)
    (ended : s.events.length ≤ f.next) : Clear s.events := by
  apply tidy.clear_all
  unfold passed
  rw [frames]
  dsimp only
  split
  · exact Nat.le_refl _
  · rwa [if_neg (by simp [still])]

theorem Tidy.gc (tidy : Tidy s) (clear : Clear s.events) : Tidy (s.gcEvents rest) ∧ Clear (s.gcEvents rest).events := by
  have kept : ∀ e ∈ (s.gcEvents rest).events, e ∈ s.events := fun e member => List.mem_of_mem_filter member
  have still : Clear (s.gcEvents rest).events := fun e member => clear e (kept e member)
  refine ⟨⟨tidy.depth, tidy.waits, tidy.idle, ?_, ?_, ?_, ?_, ?_⟩, still⟩
  · exact fun i e place _ live => clear_of_all still i e place live
  · exact fun e member => tidy.counted e (kept e member)
  · exact tidy.ids.sublist (List.filter_sublist.map _)
  · exact fun e member => tidy.revoked e (kept e member)
  · exact fun e member => tidy.hidden e (kept e member)

theorem Tidy.endLoop (tidy : Tidy s) (frames : s.frames = f :: rest) (still : f.calling = false)
    (ended : s.events.length ≤ f.next) : Tidy (s.endLoop f rest) := by
  have clear := tidy.ended_clear frames still ended
  unfold State.endLoop
  cases f.phase with
  | selecting => exact tidy
  | before =>
      dsimp only
      split
      · exact tidy.leave frames clear
      · have waits := tidy.waits
        rw [frames] at waits
        have depth := tidy.depth
        rw [frames] at depth
        refine ⟨depth, waits, ?_, ?_, tidy.counted, tidy.ids, tidy.revoked, tidy.hidden⟩
        · intro g member phase
          cases List.mem_cons.mp member with
          | inl top => rw [top]
          | inr below => exact tidy.idle g (frames ▸ List.mem_cons_of_mem _ below) phase
        · exact fun i e place _ live => clear_of_all clear i e place live
  | after =>
      dsimp only
      split
      · obtain ⟨swept, clear⟩ : Tidy (s.gcEvents rest) ∧ Clear (s.gcEvents rest).events := tidy.gc clear
        exact swept.leave frames clear
      · exact tidy.leave frames clear

theorem Tidy.took (tidy : Tidy s) (frames : s.frames = f :: rest) (busy : f.phase ≠ .selecting)
    (still : f.calling = false) (place : s.events[f.next]? = some e) {g : Frame} {stray : Bool}
    (phase : g.phase = f.phase) (next : (if g.calling then g.next + 1 else g.next) = f.next + 1)
    (like : e'.id = e.id ∧ e'.dead = e.dead ∧ e'.masked = e.masked) (quiet : e'.pending.any = false)
    (counted : e.Counted → e'.Counted) :
    Tidy { s with events := s.events.set f.next e', frames := g :: rest, stray } := by
  have waits := tidy.waits
  rw [frames] at waits
  have depth := tidy.depth
  rw [frames] at depth
  have inside := List.mem_iff_getElem?.mpr ⟨_, place⟩
  have old : ∀ x ∈ s.events.set f.next e', x = e' ∨ x ∈ s.events := fun x member => (List.mem_or_eq_of_mem_set member).symm
  refine ⟨depth, waits, ?_, ?_, ?_, ?_, ?_, ?_⟩
  · intro h member selecting
    cases List.mem_cons.mp member with
    | inl top =>
        rw [top, phase] at selecting
        exact absurd selecting busy
    | inr below => exact tidy.idle h (frames ▸ List.mem_cons_of_mem _ below) selecting
  · intro i x there small live
    have before : i < f.next + 1 := by
      unfold passed at small
      dsimp only at small
      rw [phase, if_neg busy, next] at small
      exact small
    dsimp only at there
    by_cases here : i = f.next
    · subst here
      rw [List.getElem?_set_self (List.getElem?_eq_some_iff.mp place).1] at there
      cases there
      exact quiet
    · rw [List.getElem?_set_ne (Ne.symm here)] at there
      refine tidy.clear i x there ?_ live
      unfold passed
      rw [frames]
      dsimp only
      rw [if_neg busy, if_neg (by simp [still])]
      omega
  · intro x member
    cases old x member with
    | inl new => exact new ▸ counted (tidy.counted e inside)
    | inr kept => exact tidy.counted x kept
  · have same : (s.events.set f.next e').map (·.id) = s.events.map (·.id) := by
      rw [List.map_set, like.1]
      apply List.ext_getElem?
      intro i
      by_cases here : i = f.next
      · subst here
        rw [List.getElem?_set_self (by simpa using (List.getElem?_eq_some_iff.mp place).1), List.getElem?_map, place]
        rfl
      · rw [List.getElem?_set_ne (Ne.symm here)]
    dsimp only
    rw [same]
    exact tidy.ids
  · intro x member revoked
    cases old x member with
    | inl new =>
        rw [new, like.1] at revoked
        rw [new, like.2.1]
        exact tidy.revoked e inside revoked
    | inr kept => exact tidy.revoked x kept revoked
  · intro x member hidden
    cases old x member with
    | inl new =>
        rw [new, like.1] at hidden
        rw [new, like.2.2]
        exact tidy.hidden e inside hidden
    | inr kept => exact tidy.hidden x kept hidden

theorem Tidy.turn (tidy : Tidy s) (frames : s.frames = f :: rest) (busy : f.phase ≠ .selecting)
    (still : f.calling = false) : Tidy (s.turn f rest now) := by
  unfold State.turn
  cases place : s.events[f.next]? with
  | none => exact tidy.endLoop frames still (List.getElem?_eq_none_iff.mp place)
  | some e =>
      dsimp only
      split
      · next passed =>
          have waits := tidy.waits
          rw [frames] at waits
          have depth := tidy.depth
          rw [frames] at depth
          refine ⟨depth, waits, ?_, ?_, tidy.counted, tidy.ids, tidy.revoked, tidy.hidden⟩
          · intro g member phase
            cases List.mem_cons.mp member with
            | inl top =>
                rw [top] at phase
                exact absurd phase busy
            | inr below => exact tidy.idle g (frames ▸ List.mem_cons_of_mem _ below) phase
          · intro i x there small live
            dsimp only at there
            have before : i < f.next + 1 := by
              unfold State.passed at small
              dsimp only at small
              rwa [if_neg busy, if_neg (by simp [still])] at small
            by_cases here : i = f.next
            · rw [here, place, Option.some.injEq] at there
              rw [← there] at live ⊢
              simpa [live] using passed
            · refine tidy.clear i x there ?_ live
              unfold State.passed
              rw [frames]
              dsimp only
              rw [if_neg busy, if_neg (by simp [still])]
              omega
      · next due =>
          have any : e.pending.any = true := by
            simp only [Bool.or_eq_true, Bool.not_eq_true', not_or, Bool.not_eq_false] at due
            exact due.2
          split
          · refine tidy.took frames busy still place rfl ?_ ⟨rfl, rfl, rfl⟩ rfl fun counted => ?_
            · simp [still]
            · unfold Event.Counted at *
              rw [any] at counted
              exact counted
          · refine tidy.took frames busy still place rfl ?_ ⟨rfl, rfl, rfl⟩ rfl fun counted => ?_
            · rfl
            · unfold Event.Counted at *
              rw [any] at counted
              dsimp only
              rw [counted]
              simp only [Bool.toNat_true, Poll.any, Poll.none, Bool.or_self, Bool.toNat_false]
              omega

structure Unhurt (s : State) : Prop where
  noBug : s.bug = false
  quiet : s.stray = false
  told : s.missed = false
  kept : s.loose = false

theorem Unhurt.like (unhurt : Unhurt s) (bug : t.bug = s.bug) (stray : t.stray = s.stray) (missed : t.missed = s.missed)
    (loose : t.loose = s.loose) : Unhurt t :=
  ⟨bug.trans unhurt.noBug, stray.trans unhurt.quiet, missed.trans unhurt.told, loose.trans unhurt.kept⟩

theorem Unhurt.register (unhurt : Unhurt s) {mode : Poll} {fd timeout : Int} {cb mem : Bool} :
    Unhurt (s.registerEvent mode fd timeout now cb mem).2 := by
  unfold registerEvent
  split
  · exact unhurt
  · split
    · exact unhurt
    · split
      · exact unhurt
      · exact unhurt.like rfl rfl rfl rfl

theorem Unhurt.endLoop (unhurt : Unhurt s) (tidy : Tidy s) (frames : s.frames = f :: rest) : Unhurt (s.endLoop f rest) := by
  unfold State.endLoop
  cases f.phase with
  | selecting => exact unhurt
  | before =>
      dsimp only
      split
      · exact unhurt.like rfl rfl rfl rfl
      · exact unhurt.like rfl rfl rfl rfl
  | after =>
      dsimp only
      split
      · next outer =>
          have depth := tidy.depth
          rw [frames, outer, List.length_cons] at depth
          have alone : rest = [] := List.length_eq_zero_iff.mp (by omega)
          refine unhurt.like rfl rfl rfl ?_
          simp [State.leave, State.gcEvents, alone]
      · exact unhurt.like rfl rfl rfl rfl

theorem Unhurt.turn (unhurt : Unhurt s) (tidy : Tidy s) (frames : s.frames = f :: rest) : Unhurt (s.turn f rest now) := by
  unfold State.turn
  cases place : s.events[f.next]? with
  | none => exact unhurt.endLoop tidy frames
  | some e =>
      dsimp only
      split
      · exact unhurt.like rfl rfl rfl rfl
      · next due =>
          split
          · exact unhurt.like rfl rfl rfl rfl
          · next open_ =>
              have inside := List.mem_iff_getElem?.mpr ⟨_, place⟩
              have live : e.dead = false := by
                simp only [Bool.or_eq_true, not_or, Bool.not_eq_true] at due
                exact due.1
              have known : s.revoked e.id = false := by
                cases revoked : s.revoked e.id with
                | false => rfl
                | true => rw [tidy.revoked e inside revoked] at live; cases live
              have seen : s.hidden e.id = false := by
                cases hidden : s.hidden e.id with
                | false => rfl
                | true => exact absurd (tidy.hidden e inside hidden) open_
              refine unhurt.like rfl ?_ rfl rfl
              simp [known, seen]

theorem select_iff (tidy : Tidy s) (unhurt : Unhurt s) (frames : s.frames = f :: rest) (phase : f.phase = .selecting)
    {ready : Option FdSets} {start : Int} (asked : ready.all (fun ready => decide (ready ⊆ preparedSets s.events)) = true) :
    Fine s (.select ready start now) ↔ Unhurt (s.select rest ready start now) := by
  unfold State.select
  cases ready with
  | none => exact iff_of_true trivial (unhurt.like rfl rfl rfl rfl)
  | some ready =>
      have asked : ready ⊆ preparedSets s.events := by simpa using asked
      have clear := tidy.selecting_clear frames phase
      change (Alone s.events ready ∧ ∀ e ∈ s.events, e.dead = true → ¬ Clashes e) ↔ _
      rw [← @checkEvents_iff s.events ready now clear asked]
      cases checked : checkEvents s.events ready now with
      | none =>
          simp only [checked]
          exact iff_of_false (by simp) fun after => by cases after.noBug
      | some events =>
          simp only [checked, Option.some.injEq, exists_eq_left']
          constructor
          · intro all
            exact ⟨unhurt.noBug, unhurt.quiet, by simp [unhurt.told, all], unhurt.kept⟩
          · intro after
            have told := after.told
            simpa [unhurt.told] using told

theorem Tidy.perform {step : Step} (tidy : Tidy s) (unhurt : Unhurt s) (fine : Fine s step)
    (acted : s.perform step = some t) : Tidy t ∧ Unhurt t := by
  unfold State.perform at acted
  rw [if_neg (by simp [unhurt.noBug])] at acted
  cases step with
  | register mode fd timeout now cb mem =>
      dsimp only at acted
      split at acted
      · cases acted
        exact ⟨tidy.register fine, unhurt.register⟩
      · cases acted
  | unregister id =>
      dsimp only at acted
      split at acted
      · cases acted
        refine ⟨tidy.unregister id, ?_⟩
        unfold unregisterEvent
        split
        · exact unhurt
        · exact unhurt.like rfl rfl rfl rfl
      · cases acted
  | mask id masked =>
      dsimp only at acted
      split at acted
      · cases acted
        refine ⟨tidy.mask id masked, ?_⟩
        unfold maskEvent
        split
        · exact unhurt
        · exact unhurt.like rfl rfl rfl rfl
      · cases acted
  | maxTimeout timeout =>
      dsimp only at acted
      split at acted
      · cases acted
        unfold setMaxTimeout
        split
        · exact ⟨⟨tidy.depth, tidy.waits, tidy.idle, tidy.clear, tidy.counted, tidy.ids, tidy.revoked, tidy.hidden⟩,
            unhurt.like rfl rfl rfl rfl⟩
        · exact ⟨tidy, unhurt⟩
      · cases acted
  | wait =>
      dsimp only at acted
      split at acted
      · next runs =>
          cases acted
          exact ⟨tidy.enter runs, unhurt.like rfl rfl rfl rfl⟩
      · cases acted
  | select ready start now =>
      dsimp only at acted
      split at acted
      · cases acted
      · next f rest frames =>
          split at acted
          · next possible =>
              cases acted
              have after := (select_iff tidy unhurt frames possible.1 possible.2).mp fine
              exact ⟨tidy.select frames possible.1 after.noBug, after⟩
          · cases acted
  | turn now =>
      dsimp only at acted
      split at acted
      · cases acted
      · next f rest frames =>
          split at acted
          · next possible =>
              cases acted
              exact ⟨tidy.turn frames possible.1 (by simpa using possible.2), unhurt.turn tidy frames⟩
          · cases acted
  | finish =>
      dsimp only at acted
      split at acted
      · cases acted
      · next f rest frames =>
          split at acted
          · next calling =>
              cases acted
              exact ⟨tidy.finish frames calling, unhurt.like rfl rfl rfl rfl⟩
          · cases acted

theorem initial_tidy : Tidy .initial where
  depth := rfl
  waits := by simp [initial]
  idle := by simp [initial]
  clear := by simp [initial]
  counted := by simp [initial]
  ids := List.nodup_nil
  revoked := by simp [initial]
  hidden := by simp [initial]

theorem Reached.tidy (reached : Reached Fine s) : Tidy s ∧ Unhurt s := by
  induction reached with
  | start => exact ⟨initial_tidy, rfl, rfl, rfl, rfl⟩
  | step _ _ fine acted ih => exact ih.1.perform ih.2 fine acted

theorem Tidy.sound (tidy : Tidy s) (unhurt : Unhurt s) : Sound s := by
  refine ⟨unhurt.noBug, unhurt.quiet, unhurt.told, unhurt.kept, tidy.counted, ?_⟩
  intro f top busy still ended
  cases frames : s.frames with
  | nil => simp [frames] at top
  | cons g rest =>
      rw [frames, List.head?_cons, Option.mem_some_iff] at top
      subst top
      exact tidy.ended_clear frames still ended

def run (s : State) : List Step → Option State
  | [] => some s
  | step :: steps => (s.perform step).bind (run · steps)

theorem Reached.run {allowed : State → Step → Prop} (every : ∀ s step, allowed s step) {steps : List Step}
    (reached : Reached allowed s) (ran : s.run steps = some t) : Reached allowed t := by
  induction steps generalizing s with
  | nil =>
      cases ran
      exact reached
  | cons step steps ih =>
      obtain ⟨u, acted, ran⟩ := Option.bind_eq_some_iff.mp ran
      exact ih (reached.step step (every s step) acted) ran

def readable : Poll := ⟨true, false, false, false⟩

end State

end Blktap.Tapdisk.Sched
