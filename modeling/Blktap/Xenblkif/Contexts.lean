import Mathlib.Data.List.Nodup
import Blktap.Lib.Action
import Blktap.Lib.Loop
import Blktap.Lib.Run

/-!
# Contexts of block interfaces (`tapdisk-xenblkif.c`)
-/

namespace Blktap.Xenblkif.Contexts
open Lib

def einval : Int := 22

def defaultPool : String := "td-xenio-default"

abbrev BlkifKey := Nat × Int

structure Context where
  address : Nat
  pool : String
  blkifs : List BlkifKey
  deriving DecidableEq

structure State where
  ctxs : List Context
  next : Nat
  deriving DecidableEq

def State.init : State := ⟨[], 0⟩

inductive Opening
  | memory
  | fails (err : {err : Int // err < 0})
  | works

def tapdiskXenioCtxClose (address : Nat) : Action State Unit :=
  Action.modify fun s => { s with ctxs := s.ctxs.eraseP fun ctx => ctx.address = address }

def tapdiskXenioCtxOpen (pool : Option String) (opening : Opening) : Action State Unit :=
  if pool = some "" then Action.fail (-einval)
  else
    match opening with
    | .memory => Action.undefined
    | .fails err => do
        let s ← Action.get
        Action.modify fun s => ⟨⟨s.next, defaultPool, []⟩ :: s.ctxs, s.next + 1⟩
        tapdiskXenioCtxClose s.next
        Action.fail err
    | .works => Action.modify fun s => ⟨⟨s.next, defaultPool, []⟩ :: s.ctxs, s.next + 1⟩

def ctxMatch (pool : Option String) (ctx : Context) : Bool :=
  match pool with
  | none => ctx.pool = defaultPool
  | some pool => ctx.pool = pool

def getTurn (pool : Option String) (openings : Nat → Opening) (s : State × Nat) :
    State × Nat ⊕ Outcome Context × State :=
  match s.1.ctxs.find? (ctxMatch pool) with
  | some ctx => .inr (.ok ctx, s.1)
  | none =>
      match tapdiskXenioCtxOpen pool (openings s.2) s.1 with
      | (.ok (), t) => .inl (t, s.2 + 1)
      | (.error err, t) => .inr (.error err, t)
      | (.undefined, t) => .inr (.undefined, t)

def tapdiskXenioCtxGet (pool : Option String) (openings : Nat → Opening) (turns : Nat) (s : State) :
    Option (Outcome Context × State) :=
  loop (getTurn pool openings) turns (s, 0)

def tapdiskXenioCtxPut (address : Nat) : Action State Unit := do
  let s ← Action.get
  match s.ctxs.find? fun ctx => ctx.address = address with
  | some ctx => Action.when (ctx.blkifs = []) (tapdiskXenioCtxClose address)
  | none => Action.undefined

def tapdiskXenblkifFind (s : State) (key : BlkifKey) : Option Context :=
  s.ctxs.find? fun ctx => key ∈ ctx.blkifs

def State.setBlkifs (s : State) (address : Nat) (change : List BlkifKey → List BlkifKey) : State :=
  { s with ctxs := s.ctxs.map fun ctx =>
      if ctx.address = address then { ctx with blkifs := change ctx.blkifs } else ctx }

def tapdiskXenblkifDestroy (address : Nat) (key : BlkifKey) : Action State Unit := do
  Action.modify fun s => s.setBlkifs address (List.erase · key)
  tapdiskXenioCtxPut address

/-- `tapdisk_xenblkif_connect`, where `tapdisk_xenio_ctx_get` returns: `memory` is what is there for the interface, and
`rest` what the calls after it come to. -/
def tapdiskXenblkifConnect (key : BlkifKey) (pool : Option String) (openings : Nat → Opening) (turns : Nat)
    (memory rest : Bool) (s : State) : Option State :=
  if (tapdiskXenblkifFind s key).isSome ∨ memory = false then some s
  else
    match tapdiskXenioCtxGet pool openings turns s with
    | some (.ok ctx, t) =>
        let attached := t.setBlkifs ctx.address (· ++ [key])
        if rest then some attached else some (tapdiskXenblkifDestroy ctx.address key attached).2
    | some (.error _, t) => some t
    | some (.undefined, _) => none
    | none => none

def tapdiskXenblkifDisconnect (key : BlkifKey) (idle : Bool) (s : State) : State :=
  match tapdiskXenblkifFind s key with
  | some ctx => if idle then (tapdiskXenblkifDestroy ctx.address key s).2 else s
  | none => s

inductive Event
  | get (pool : Option String) (openings : Nat → Opening) (turns : Nat)
  | put (address : Nat)
  | connect (key : BlkifKey) (pool : Option String) (openings : Nat → Opening) (turns : Nat) (memory rest : Bool)
  | disconnect (key : BlkifKey) (idle : Bool)

def settled : Outcome Unit × State → Option State
  | (.undefined, _) => none
  | (_, t) => some t

def step (s : State) : Event → Option State
  | .get pool openings turns => (tapdiskXenioCtxGet pool openings turns s).map Prod.snd
  | .put address => settled (tapdiskXenioCtxPut address s)
  | .connect key pool openings turns memory rest => tapdiskXenblkifConnect key pool openings turns memory rest s
  | .disconnect key idle => some (tapdiskXenblkifDisconnect key idle s)

def wanted (pool : Option String) : String := pool.getD defaultPool

def State.OnePerPool (s : State) : Prop := (s.ctxs.map Context.pool).Nodup

/-- The call returns with a context of the pool that is on the list, or with an error because none could be opened. -/
def Right (pool : Option String) (openings : Nat → Opening) (s : State) : Prop :=
  ∃ result t turns, tapdiskXenioCtxGet pool openings turns s = some (result, t) ∧ (s.OnePerPool → t.OnePerPool) ∧
    match result with
    | .ok ctx => ctx ∈ t.ctxs ∧ ctx.pool = wanted pool
    | .error _ => (∀ ctx ∈ s.ctxs, ctx.pool ≠ wanted pool) ∧ (pool = some "" ∨ ∃ err, openings 0 = .fails err)
    | .undefined => False

def Served (pool : Option String) (openings : Nat → Opening) (s : State) : Prop :=
  (∃ ctx ∈ s.ctxs, ctx.pool = wanted pool) ∨ pool = some "" ∨
    match openings 0 with
    | .memory => False
    | .fails _ => True
    | .works => wanted pool = defaultPool

def Event.Served (s : State) : Event → Prop
  | .get pool openings _ => Contexts.Served pool openings s
  | .connect _ pool openings _ _ _ => Contexts.Served pool openings s
  | .put _ => True
  | .disconnect _ _ => True

section Get
variable {pool : Option String} {openings : Nat → Opening} {s t : State} {ctx : Context} {result : Outcome Context}
  {turns n : Nat}

theorem ctxMatch_iff : ctxMatch pool ctx = true ↔ ctx.pool = wanted pool := by
  cases pool <;> exact decide_eq_true_iff

theorem find_none : s.ctxs.find? (ctxMatch pool) = none ↔ ∀ ctx ∈ s.ctxs, ctx.pool ≠ wanted pool := by
  rw [List.find?_eq_none]
  exact forall₂_congr fun ctx _ => not_congr ctxMatch_iff

theorem getTurn_found (found : s.ctxs.find? (ctxMatch pool) = some ctx) :
    getTurn pool openings (s, n) = .inr (.ok ctx, s) := by
  unfold getTurn
  rw [found]

theorem getTurn_empty (absent : s.ctxs.find? (ctxMatch (some "")) = none) :
    getTurn (some "") openings (s, n) = .inr (.error (-einval), s) := by
  unfold getTurn
  rw [absent]
  rfl

theorem open_named (named : pool ≠ some "") (opening : Opening) : tapdiskXenioCtxOpen pool opening s =
    match opening with
    | .memory => (.undefined, s)
    | .fails err => (.error err, { s with next := s.next + 1 })
    | .works => (.ok (), ⟨⟨s.next, defaultPool, []⟩ :: s.ctxs, s.next + 1⟩) := by
  unfold tapdiskXenioCtxOpen
  rw [if_neg named]
  cases opening with
  | memory => rfl
  | works => rfl
  | fails err =>
      change (Outcome.error err.val, State.mk (List.eraseP _ (⟨s.next, defaultPool, []⟩ :: s.ctxs)) _) = _
      rw [List.eraseP_cons_of_pos (by simp)]

theorem getTurn_memory (absent : s.ctxs.find? (ctxMatch pool) = none) (named : pool ≠ some "")
    (opening : openings n = .memory) : getTurn pool openings (s, n) = .inr (.undefined, s) := by
  unfold getTurn
  rw [absent]
  dsimp only
  rw [opening, open_named named]

theorem getTurn_fails (absent : s.ctxs.find? (ctxMatch pool) = none) (named : pool ≠ some "")
    {err : {err : Int // err < 0}} (opening : openings n = .fails err) :
    getTurn pool openings (s, n) = .inr (.error err, { s with next := s.next + 1 }) := by
  unfold getTurn
  rw [absent]
  dsimp only
  rw [opening, open_named named]

theorem getTurn_works (absent : s.ctxs.find? (ctxMatch pool) = none) (named : pool ≠ some "")
    (opening : openings n = .works) :
    getTurn pool openings (s, n) = .inl (⟨⟨s.next, defaultPool, []⟩ :: s.ctxs, s.next + 1⟩, n + 1) := by
  unfold getTurn
  rw [absent]
  dsimp only
  rw [opening, open_named named]

theorem get_served (served : Served pool openings s) : ∃ result t,
    (∀ turns, 2 ≤ turns → tapdiskXenioCtxGet pool openings turns s = some (result, t)) ∧
      (t.ctxs = s.ctxs ∨
        (∀ ctx ∈ s.ctxs, ctx.pool ≠ defaultPool) ∧ ∃ ctx, ctx.pool = defaultPool ∧ t.ctxs = ctx :: s.ctxs) ∧
      match result with
      | .ok ctx => ctx ∈ t.ctxs ∧ ctx.pool = wanted pool
      | .error _ => (∀ ctx ∈ s.ctxs, ctx.pool ≠ wanted pool) ∧ (pool = some "" ∨ ∃ err, openings 0 = .fails err)
      | .undefined => False := by
  cases found : s.ctxs.find? (ctxMatch pool) with
  | some ctx =>
      refine ⟨.ok ctx, s, fun turns enough => ?_, .inl rfl, List.mem_of_find?_eq_some found, ?_⟩
      · exact loop_mono (loop_leave (getTurn_found found)) (Nat.le_of_succ_le enough)
      · exact ctxMatch_iff.mp (List.find?_some found)
  | none =>
      have absent := find_none.mp found
      by_cases named : pool = some ""
      · subst named
        refine ⟨.error (-einval), s, fun turns enough => ?_, .inl rfl, absent, .inl rfl⟩
        exact loop_mono (loop_leave (getTurn_empty found)) (Nat.le_of_succ_le enough)
      rcases served with ⟨ctx, member, same⟩ | empty | opening
      · exact absurd same (absent ctx member)
      · exact absurd empty named
      cases kind : openings 0 with
      | memory =>
          rw [kind] at opening
          exact opening.elim
      | fails err =>
          refine ⟨.error err, { s with next := s.next + 1 }, fun turns enough => ?_, .inl rfl, absent, .inr ⟨err, rfl⟩⟩
          exact loop_mono (loop_leave (getTurn_fails found named kind)) (Nat.le_of_succ_le enough)
      | works =>
          rw [kind] at opening
          have same : wanted pool = defaultPool := opening
          let made : Context := ⟨s.next, defaultPool, []⟩
          have first : (made :: s.ctxs).find? (ctxMatch pool) = some made :=
            List.find?_cons_of_pos (ctxMatch_iff.mpr same.symm)
          refine ⟨.ok made, ⟨made :: s.ctxs, s.next + 1⟩, fun turns enough => ?_, .inr ⟨same ▸ absent, made, rfl, rfl⟩,
            List.mem_cons_self, same.symm⟩
          refine loop_mono ?_ enough
          exact (loop_next (getTurn_works found named kind)).trans
            (loop_leave (@getTurn_found pool openings ⟨made :: s.ctxs, s.next + 1⟩ made 1 first))

theorem get_unmatched (named : wanted pool ≠ defaultPool) (absent : ∀ ctx ∈ s.ctxs, ctx.pool ≠ wanted pool)
    (returns : loop (getTurn pool openings) turns (s, n) = some (result, t)) (ctx : Context) : result ≠ .ok ctx := by
  have keep : ∀ u v : State × Nat, (∀ ctx ∈ u.1.ctxs, ctx.pool ≠ wanted pool) → getTurn pool openings u = .inl v →
      ∀ ctx ∈ v.1.ctxs, ctx.pool ≠ wanted pool := by
    intro u v none turn
    have nonempty : pool ≠ some "" := by
      rintro rfl
      cases (getTurn_empty (find_none.mpr none)).symm.trans turn
    cases kind : openings u.2 with
    | memory => cases (getTurn_memory (find_none.mpr none) nonempty kind).symm.trans turn
    | fails err => cases (getTurn_fails (find_none.mpr none) nonempty kind).symm.trans turn
    | works =>
        cases (getTurn_works (find_none.mpr none) nonempty kind).symm.trans turn
        exact List.forall_mem_cons.mpr ⟨fun same => named same.symm, none⟩
  have leave : ∀ (u : State × Nat) (b : Outcome Context × State), (∀ ctx ∈ u.1.ctxs, ctx.pool ≠ wanted pool) →
      getTurn pool openings u = .inr b → b.1 ≠ .ok ctx := by
    intro u b none turn
    unfold getTurn at turn
    rw [find_none.mpr none] at turn
    dsimp only at turn
    rcases opened : tapdiskXenioCtxOpen pool (openings u.2) u.1 with ⟨_ | _ | _, v⟩ <;> rw [opened] at turn <;>
      cases turn <;> simp
  exact @loop_meets _ _ (getTurn pool openings) (s, n) (result, t) turns
    (fun u => ∀ ctx ∈ u.1.ctxs, ctx.pool ≠ wanted pool) (fun b => b.1 ≠ .ok ctx) keep leave absent returns

theorem right_iff : Right pool openings s ↔ Served pool openings s := by
  constructor
  · rintro ⟨result, t, turns, returns, _, right⟩
    by_contra unserved
    unfold Served at unserved
    push Not at unserved
    obtain ⟨absent, named, opening⟩ := unserved
    have found := find_none.mpr absent
    cases kind : openings 0 with
    | fails err =>
        rw [kind] at opening
        exact opening trivial
    | memory =>
        have undefined : tapdiskXenioCtxGet pool openings 1 s = some (.undefined, s) :=
          loop_leave (getTurn_memory found named kind)
        cases loop_unique returns undefined
        exact right
    | works =>
        rw [kind] at opening
        cases result with
        | ok ctx => exact get_unmatched opening absent returns ctx rfl
        | undefined => exact right
        | error err =>
            rcases right.2 with empty | ⟨err, fails⟩
            · exact named empty
            · cases kind.symm.trans fails
  · intro served
    obtain ⟨result, t, returns, list, right⟩ := get_served served
    refine ⟨result, t, 2, returns 2 (Nat.le_refl 2), fun one => ?_, right⟩
    unfold State.OnePerPool
    rcases list with same | ⟨absent, ctx, pool, added⟩
    · rwa [same]
    · rw [added, List.map_cons, List.nodup_cons, pool]
      exact ⟨fun member => (List.mem_map.mp member).elim fun other found => absent other found.1 found.2, one⟩

end Get

section Runs
variable {s t : State} {e : Event} {address : Nat} {key : BlkifKey}

theorem setBlkifs_one (one : s.OnePerPool) (change : List BlkifKey → List BlkifKey) :
    (s.setBlkifs address change).OnePerPool := by
  have same : (s.setBlkifs address change).ctxs.map Context.pool = s.ctxs.map Context.pool := by
    unfold State.setBlkifs
    rw [List.map_map]
    refine List.map_congr_left fun ctx _ => ?_
    rw [Function.comp_apply]
    split <;> rfl
  unfold State.OnePerPool
  rwa [same]

theorem put_one (one : s.OnePerPool) (address : Nat) : (tapdiskXenioCtxPut address s).2.OnePerPool := by
  unfold tapdiskXenioCtxPut
  rw [Action.get_bind]
  cases s.ctxs.find? fun ctx => ctx.address = address with
  | none => exact one
  | some ctx =>
      by_cases unused : ctx.blkifs = []
      · dsimp only
        rw [Action.when, if_pos unused]
        exact one.sublist (List.eraseP_sublist.map Context.pool)
      · dsimp only
        rw [Action.when, if_neg unused]
        exact one

theorem destroy_one (one : s.OnePerPool) (address : Nat) (key : BlkifKey) :
    (tapdiskXenblkifDestroy address key s).2.OnePerPool :=
  put_one (setBlkifs_one one _) address

theorem get_one {pool : Option String} {openings : Nat → Opening} {turns : Nat} {result : Outcome Context}
    (served : Served pool openings s) (one : s.OnePerPool)
    (returns : tapdiskXenioCtxGet pool openings turns s = some (result, t)) : t.OnePerPool := by
  obtain ⟨_, _, _, returns', kept, _⟩ := right_iff.mpr served
  cases loop_unique returns returns'
  exact kept one

theorem settled_eq {result : Outcome Unit × State} (defined : settled result = some t) : result.2 = t := by
  rcases result with ⟨_ | _ | _, u⟩
  · exact Option.some.inj defined
  · exact Option.some.inj defined
  · cases defined

theorem step_one (one : s.OnePerPool) (served : e.Served s) (action : step s e = some t) : t.OnePerPool := by
  cases e with
  | get pool openings turns =>
      obtain ⟨⟨result, u⟩, returns, rfl⟩ := Option.map_eq_some_iff.mp action
      exact get_one served one returns
  | put address =>
      exact settled_eq action ▸ put_one one address
  | connect key pool openings turns memory rest =>
      change tapdiskXenblkifConnect key pool openings turns memory rest s = some t at action
      unfold tapdiskXenblkifConnect at action
      split at action
      · cases action
        exact one
      rcases returns : tapdiskXenioCtxGet pool openings turns s with _ | ⟨ctx | _ | _, u⟩ <;> rw [returns] at action
      · cases action
      · have one' := @setBlkifs_one u ctx.address (get_one served one returns) (· ++ [key])
        dsimp only at action
        split at action <;> cases action
        · exact one'
        · exact destroy_one one' _ _
      · cases action
        exact get_one served one returns
      · cases action
  | disconnect key idle =>
      cases action
      unfold tapdiskXenblkifDisconnect
      split
      · split
        · exact destroy_one one _ _
        · exact one
      · exact one

/-- A call ends with a context of its pool exactly when it is served, and while all calls are, there is one context for
each pool at most. -/
theorem contexts_right (pool : Option String) (openings : Nat → Opening) (s : State) :
    (Right pool openings s ↔ Served pool openings s) ∧
      (Run step (fun s e => e.Served s) .init s → s.OnePerPool) :=
  ⟨right_iff, fun run =>
    run.invariant (fun _ _ _ one served action => step_one one served action) List.nodup_nil⟩

theorem contexts_right_default :
    Right none (fun _ => .works) .init ∧ State.OnePerPool ⟨[⟨0, defaultPool, [(1, 51712)]⟩], 1⟩ := by
  have served : Served none (fun _ => .works) .init := .inr (.inr rfl)
  refine ⟨(contexts_right none (fun _ => .works) .init).1.mpr served, (contexts_right none (fun _ => .works) _).2 ?_⟩
  exact Run.single (e := .connect (1, 51712) none (fun _ => .works) 2 true true) served rfl

theorem named_endless :
    ¬ ∃ result turns, tapdiskXenioCtxGet (some "guest") (fun _ => .works) turns .init = some result := by
  rintro ⟨result, turns, returns⟩
  have keep : ∀ u : State × Nat, (∀ ctx ∈ u.1.ctxs, ctx.pool = defaultPool) →
      ∃ v, getTurn (some "guest") (fun _ => .works) u = .inl v ∧ ∀ ctx ∈ v.1.ctxs, ctx.pool = defaultPool := by
    intro u all
    have absent : ∀ ctx ∈ u.1.ctxs, ctx.pool ≠ wanted (some "guest") := fun ctx member same =>
      absurd ((all ctx member).symm.trans same) (by decide)
    exact ⟨_, getTurn_works (find_none.mpr absent) (by decide) rfl, List.forall_mem_cons.mpr ⟨rfl, all⟩⟩
  exact not_ends keep (s := (State.init, 0)) (fun _ => nofun) ⟨turns, result, returns⟩

end Runs

end Blktap.Xenblkif.Contexts
