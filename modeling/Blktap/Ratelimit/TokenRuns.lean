import Blktap.Ratelimit.Token
import Mathlib.Tactic.Ring

/-! # What a token bucket comes to -/

namespace Blktap.Ratelimit
open Lib

section Refill
variable {token token' : Token} {elapsed : Int}

theorem room_le_max {rate : Int} (room : Int) (positive : 0 < rate) :
    room * 1000000 ≤ (room * 1000000 + (rate - 1)) / rate * rate := by
  have enough := Int.lt_ediv_add_one_mul_self (room * 1000000 + (rate - 1)) positive
  rw [Int.add_mul, Int.one_mul] at enough
  omega

theorem max_mul_le {room rate : Int} (positive : 0 < rate) :
    (room * 1000000 + (rate - 1)) / rate * rate ≤ room * 1000000 + (rate - 1) :=
  Int.ediv_mul_le _ (Int.ne_of_gt positive)

theorem min_usec {room rate : Int} (positive : 0 < rate) :
    min (min elapsed ((room * 1000000 + (rate - 1)) / rate) * rate / 1000000) room =
      min (elapsed * rate / 1000000) room := by
  have enough := room_le_max room positive
  generalize (room * 1000000 + (rate - 1)) / rate = longest at enough ⊢
  rcases le_total elapsed longest with short | long
  · rw [min_eq_left short]
  · have more : longest * rate ≤ elapsed * rate := Int.mul_le_mul_of_nonneg_right long positive.le
    rw [min_eq_right long, min_eq_right (by omega), min_eq_right (by omega)]

def Token.regained (token : Token) (elapsed : Int) : Token :=
  { token with cred := token.cred + min (elapsed * token.rate / 1000000) (token.cap - token.cred) }

def Token.Fits (token : Token) : Prop := (token.cap - token.cred) * 1000000 + (token.rate - 1) < 2 ^ 63

theorem regained_eq (positive : 0 < token.rate) (capped : token.cred ≤ token.cap) (later : 0 ≤ elapsed) :
    min (token.cred + (min elapsed (((token.cap - token.cred) * 1000000 + (token.rate - 1)).tdiv token.rate) *
      token.rate).tdiv 1000000) token.cap = (token.regained elapsed).cred := by
  have room : 0 ≤ (token.cap - token.cred) * 1000000 + (token.rate - 1) := by omega
  have longest : 0 ≤ ((token.cap - token.cred) * 1000000 + (token.rate - 1)) / token.rate :=
    Int.ediv_nonneg room positive.le
  have worth : 0 ≤ min elapsed (((token.cap - token.cred) * 1000000 + (token.rate - 1)) / token.rate) * token.rate :=
    Int.mul_nonneg (le_min later longest) positive.le
  rw [Int.tdiv_eq_ediv_of_nonneg room, Int.tdiv_eq_ediv_of_nonneg worth]
  unfold Token.regained
  rw [← min_usec positive, ← min_add_add_left]
  congr 1
  omega

theorem refill_eq (elapsed : Int) (positive : 0 < token.rate) (capped : token.cred ≤ token.cap) (low : -2 ^ 60 ≤ token.cred)
    (high : token.cap ≤ 2 ^ 60) (fits : token.Fits) (later : 0 ≤ elapsed) (short : elapsed < 2 ^ 63) :
    token.refill elapsed = some (token.regained elapsed) := by
  unfold Token.Fits at fits
  have room : 0 ≤ (token.cap - token.cred) * 1000000 + (token.rate - 1) := by omega
  have longest : 0 ≤ ((token.cap - token.cred) * 1000000 + (token.rate - 1)).tdiv token.rate :=
    Int.tdiv_nonneg room positive.le
  have most : ((token.cap - token.cred) * 1000000 + (token.rate - 1)).tdiv token.rate * token.rate ≤
      (token.cap - token.cred) * 1000000 + (token.rate - 1) := by
    rw [Int.tdiv_eq_ediv_of_nonneg room]
    exact max_mul_le positive
  have value := regained_eq positive capped later
  unfold Token.refill
  rw [int64_some (by omega) (by omega)]
  simp only [Option.bind_eq_bind, Option.bind_some]
  rw [int64_some (by omega) (by omega)]
  simp only [Option.bind_some]
  rw [int64_some (by omega) (by omega)]
  simp only [Option.bind_some]
  rw [int64_some (by omega) short]
  simp only [Option.bind_some]
  generalize ((token.cap - token.cred) * 1000000 + (token.rate - 1)).tdiv token.rate = maxUsec at *
  have low_worth : 0 ≤ min elapsed maxUsec * token.rate := Int.mul_nonneg (le_min later longest) positive.le
  have high_worth : min elapsed maxUsec * token.rate ≤ maxUsec * token.rate :=
    Int.mul_le_mul_of_nonneg_right (min_le_right _ _) positive.le
  rw [int64_some (by omega) (by omega)]
  simp only [Option.bind_some]
  have low_gain := Int.tdiv_nonneg low_worth (by decide : (0 : Int) ≤ 1000000)
  have high_gain : (min elapsed maxUsec * token.rate).tdiv 1000000 ≤ token.cap - token.cred + 2 ^ 60 := by
    rw [Int.tdiv_eq_ediv_of_nonneg low_worth]
    omega
  rw [int64_some (by omega) (by omega)]
  simp only [Option.bind_some, Option.pure_def, value]
  rfl

theorem refill_some (positive : 0 < token.rate) (capped : token.cred ≤ token.cap) (later : 0 ≤ elapsed)
    (filled : token.refill elapsed = some token') : token.Fits ∧ token' = token.regained elapsed := by
  unfold Token.refill at filled
  simp only [Option.bind_eq_bind, Option.bind_eq_some_iff, int64_eq] at filled
  obtain ⟨room, ⟨-, rfl⟩, scaled, ⟨-, rfl⟩, rounded, ⟨inside, rfl⟩, usec, ⟨-, rfl⟩, worth, ⟨-, rfl⟩, cred,
    ⟨-, rfl⟩, result⟩ := filled
  refine ⟨inside.2, ?_⟩
  have value := regained_eq positive capped later
  rw [← Option.some.inj result, value]
  rfl

theorem setTimeo_some (positive : 0 < token.rate) (low : -2 ^ 40 ≤ token.cred) (debt : token.cred < 0) :
    ∃ us, token.setTimeo = some us := by
  have bound := Int.natAbs_tdiv_le_natAbs (-token.cred * 1000000) token.rate
  unfold Token.setTimeo
  rw [int64_some (by omega) (by omega)]
  simp only [Option.bind_eq_bind, Option.bind_some]
  rw [int64_some (by omega) (by omega)]
  simp only [Option.bind_some]
  exact ⟨_, int64_some (by omega) (by omega)⟩

end Refill

namespace Bucket
variable {sent : Nat → Bool} {i : Nat} {wait : List Nat} {s : Bucket}

structure Dispatched (s t : Bucket) : Prop where
  cap : t.token.cap = s.token.cap
  rate : t.token.rate = s.token.rate
  now : t.now = s.now
  due : t.due = s.due
  gained : t.gained = s.gained
  overflow : t.overflow = s.overflow
  spends : t.token.cred ≤ s.token.cred
  grants : (t.granted : Int) + t.token.cred ≤ s.granted + s.token.cred
  low : -tdRlbRequestMax ≤ s.token.cred → -tdRlbRequestMax ≤ t.token.cred
  waits : t.wait ≠ [] → t.token.cred < 0
  small : ∀ need ∈ t.wait, need ≤ tdRlbRequestMax

theorem granted_grant (s : Bucket) (need : Nat) (sent : Bool) : (s.grant need sent).granted ≤ s.granted + need := by
  cases sent
  · exact Nat.le_add_right _ _
  · exact le_rfl

theorem dispatched (small : ∀ need ∈ wait, need ≤ tdRlbRequestMax) : s.Dispatched (s.dispatch sent i wait) := by
  induction wait generalizing i s with
  | nil => exact ⟨rfl, rfl, rfl, rfl, rfl, rfl, le_rfl, le_rfl, id, fun waits => absurd rfl waits, small⟩
  | cons need wait ih =>
      unfold dispatch
      split
      · rename_i debt
        exact ⟨rfl, rfl, rfl, rfl, rfl, rfl, le_rfl, le_rfl, id, fun _ => debt, small⟩
      · rename_i credit
        obtain ⟨first, rest⟩ := List.forall_mem_cons.mp small
        have next := ih (i := i + 1) (s := s.grant need (sent i)) rest
        have spent : (s.grant need (sent i)).token.cred = s.token.cred - need := rfl
        refine ⟨next.cap, next.rate, next.now, next.due, next.gained, next.overflow, ?_, ?_, fun _ => ?_, next.waits,
          next.small⟩
        · have spends := next.spends
          omega
        · have grants := next.grants
          have granted := s.granted_grant need (sent i)
          omega
        · apply next.low
          omega

end Bucket

section Turns
variable {token : Token} {s t : Bucket} {e : Turn} {wait wait' : List Nat} {now : Nat}

theorem change_small {c : Change} (small : ∀ need ∈ wait, need ≤ tdRlbRequestMax)
    (changed : change wait c = some wait') : ∀ need ∈ wait', need ≤ tdRlbRequestMax := by
  cases c with
  | join need =>
      simp only [change, Option.ite_none_right_eq_some, Option.some.injEq] at changed
      obtain ⟨⟨-, bound, -⟩, rfl⟩ := changed
      intro other member
      rcases List.mem_append.mp member with old | new
      · exact small other old
      · rwa [List.mem_singleton.mp new]
  | more i need =>
      simp only [change, Option.bind_eq_some_iff, Option.ite_none_right_eq_some, Option.some.injEq] at changed
      obtain ⟨old, -, bound, rfl⟩ := changed
      intro other member
      rcases List.mem_or_eq_of_mem_set member with old | rfl
      · exact small other old
      · exact bound
  | leave i =>
      simp only [change, Option.ite_none_right_eq_some, Option.some.injEq] at changed
      obtain ⟨-, rfl⟩ := changed
      exact fun other member => small other (List.mem_of_mem_eraseIdx member)

theorem changes_small {changes : List Change} (small : ∀ need ∈ wait, need ≤ tdRlbRequestMax)
    (changed : changes.foldlM change wait = some wait') : ∀ need ∈ wait', need ≤ tdRlbRequestMax := by
  induction changes generalizing wait with
  | nil =>
      cases Option.some.inj changed
      exact small
  | cons c changes ih =>
      rw [List.foldlM_cons] at changed
      obtain ⟨mid, first, rest⟩ := Option.bind_eq_some_iff.mp changed
      exact ih (change_small small first) rest

structure Kept (token : Token) (s : Bucket) : Prop where
  cap : s.token.cap = token.cap
  rate : s.token.rate = token.rate
  low : -tdRlbRequestMax ≤ s.token.cred
  capped : s.token.cred ≤ token.cap
  small : ∀ need ∈ s.wait, need ≤ tdRlbRequestMax
  waits : s.wait ≠ [] → s.token.cred < 0

theorem turn_cases (positive : 0 < token.rate) (kept : Kept token s) (action : turn s e = some t) :
    s.now ≤ e.now ∧ e.now - s.now < 2 ^ 63 ∧ s.overflow = false ∧
    ((t = { s with overflow := true } ∧
        ∀ us token', s.timer = some us → s.token.refill (e.now - s.now) ≠ some token') ∨
      s.token.Fits ∧ (s.refilled e.now (s.token.regained (e.now - s.now))).Dispatched t) := by
  unfold turn at action
  split at action
  · rename_i guard
    obtain ⟨wait, changed, rfl⟩ := Option.map_eq_some_iff.mp action
    refine ⟨guard.1, guard.2.1, guard.2.2, ?_⟩
    split
    · rename_i token' _ filled
      rw [← kept.rate] at positive
      obtain ⟨fits, rfl⟩ := refill_some positive (kept.cap ▸ kept.capped) (by omega) filled
      exact .inr ⟨fits, Bucket.dispatched (changes_small kept.small changed)⟩
    · rename_i undefined
      exact .inl ⟨rfl, fun us token' timer filled => undefined us token' timer filled⟩
  · cases action

theorem regained_bounds (elapsed : Int) (positive : 0 < token.rate) (capped : token.cred ≤ token.cap)
    (later : 0 ≤ elapsed) : token.cred ≤ (token.regained elapsed).cred ∧
      (token.regained elapsed).cred ≤ token.cap := by
  have gain : 0 ≤ elapsed * token.rate := Int.mul_nonneg later positive.le
  unfold Token.regained
  dsimp only
  omega

theorem kept_start (room : 0 ≤ token.cap) (full : token.cred = token.cap) : Kept token (.start token now) := by
  refine ⟨rfl, rfl, ?_, full.le, fun _ member => (nomatch member), fun waits => absurd rfl waits⟩
  rw [Bucket.start, full]
  omega

theorem Kept.dispatched (positive : 0 < token.rate) (kept : Kept token s) (later : s.now ≤ e.now)
    (action : (s.refilled e.now (s.token.regained (e.now - s.now))).Dispatched t) : Kept token t := by
  have token_eq : (s.refilled e.now (s.token.regained (e.now - s.now))).token =
      s.token.regained (e.now - s.now) := by
    unfold Bucket.refilled
    split <;> rfl
  have bounds := regained_bounds (e.now - s.now) (kept.rate ▸ positive) (kept.cap ▸ kept.capped)
    (by omega)
  have low := kept.low
  rw [kept.cap] at bounds
  rw [← token_eq] at bounds
  refine ⟨?_, ?_, action.low (low.trans bounds.1), action.spends.trans bounds.2, action.small, action.waits⟩
  · rw [action.cap, token_eq]
    exact kept.cap
  · rw [action.rate, token_eq]
    exact kept.rate

theorem Kept.turn (positive : 0 < token.rate) (kept : Kept token s) (action : turn s e = some t) :
    Kept token t := by
  obtain ⟨later, -, -, ⟨rfl, -⟩ | ⟨-, dispatched⟩⟩ := turn_cases positive kept action
  · exact ⟨kept.cap, kept.rate, kept.low, kept.capped, kept.small, kept.waits⟩
  · exact kept.dispatched positive later dispatched

theorem Kept.run {ok : Bucket → Turn → Prop} (positive : 0 < token.rate) (run : Run Ratelimit.turn ok s t)
    (kept : Kept token s) : Kept token t :=
  run.invariant (fun _ _ _ kept _ action => kept.turn positive action) kept

theorem turn_fits (positive : 0 < token.rate) (fits : (token.cap + tdRlbRequestMax) * 1000000 + (token.rate - 1) < 2 ^ 63)
    (kept : Kept token s) (action : turn s e = some t) :
    s.now ≤ e.now ∧ (s.refilled e.now (s.token.regained (e.now - s.now))).Dispatched t := by
  obtain ⟨later, short, -, ⟨-, undefined⟩ | ⟨-, dispatched⟩⟩ := turn_cases positive kept action
  · have low := kept.low
    have capped := kept.capped
    have size : tdRlbRequestMax = 2 ^ 23 := by decide
    have positive_s : 0 < s.token.rate := kept.rate ▸ positive
    have filled := refill_eq (e.now - s.now) positive_s
      (kept.cap ▸ kept.capped) (by omega) (by rw [kept.cap]; omega)
      (by unfold Token.Fits; rw [kept.cap, kept.rate]; omega) (by omega) (by omega)
    have timer : ∃ us, s.timer = some us := by
      unfold Bucket.timer
      split
      · exact ⟨0, rfl⟩
      · rename_i waits
        exact setTimeo_some (kept.rate ▸ positive) (by omega) (kept.waits waits)
    obtain ⟨us, timer⟩ := timer
    exact absurd filled (undefined us _ timer)
  · exact ⟨later, dispatched⟩

end Turns

section Exact
variable {token : Token} {s t u : Bucket} {e : Turn} {now start length : Nat}

theorem run_fits {ok : Bucket → Turn → Prop} (positive : 0 < token.rate)
    (fits : (token.cap + tdRlbRequestMax) * 1000000 + (token.rate - 1) < 2 ^ 63) (kept : Kept token s)
    (run : Run turn ok s t) (clear : s.overflow = false) : t.overflow = false := by
  have both : Kept token t ∧ t.overflow = false := by
    refine run.invariant (I := fun s => Kept token s ∧ s.overflow = false) ?_ ⟨kept, clear⟩
    intro s e t ⟨kept, clear⟩ _ action
    refine ⟨kept.turn positive action, ?_⟩
    obtain ⟨-, dispatched⟩ := turn_fits positive fits kept action
    rw [dispatched.overflow, ← clear]
    unfold Bucket.refilled
    split <;> rfl
  exact both.2

def Spent (token : Token) (s : Bucket) (start length : Nat) (t : Bucket) : Prop :=
  t = s ∨ start ≤ t.now ∧ t.now ≤ start + length ∧
    ((t.granted : Int) - s.granted + t.token.cred) * 1000000 ≤
      token.cap * 1000000 + token.rate * ((t.now : Int) - start)

theorem regained_le (elapsed : Int) (positive : 0 < token.rate) :
    (token.regained elapsed).cred * 1000000 ≤ token.cred * 1000000 + token.rate * elapsed := by
  rw [Int.mul_comm token.rate]
  unfold Token.regained
  dsimp only
  omega

theorem Spent.turn (positive : 0 < token.rate)
    (fits : (token.cap + tdRlbRequestMax) * 1000000 + (token.rate - 1) < 2 ^ 63) (kept : Kept token u)
    (spent : Spent token s start length u) (inside : within start length u e) (action : turn u e = some t) :
    Spent token s start length t := by
  obtain ⟨later, dispatched⟩ := turn_fits positive fits kept action
  obtain ⟨token_eq, granted_eq, now_eq⟩ : (u.refilled e.now (u.token.regained (e.now - u.now))).token =
      u.token.regained (e.now - u.now) ∧
      (u.refilled e.now (u.token.regained (e.now - u.now))).granted = u.granted ∧
      (u.refilled e.now (u.token.regained (e.now - u.now))).now = e.now := by
    unfold Bucket.refilled
    split <;> exact ⟨rfl, rfl, rfl⟩
  have grants := dispatched.grants
  have now := dispatched.now
  rw [token_eq, granted_eq] at grants
  rw [now_eq] at now
  have bounds := regained_bounds (e.now - u.now) (kept.rate ▸ positive) (kept.cap ▸ kept.capped) (by omega)
  rw [kept.cap] at bounds
  refine .inr ⟨now ▸ inside.1, now ▸ inside.2, ?_⟩
  rw [now]
  rcases spent with rfl | ⟨begun, -, spent⟩
  · have time : 0 ≤ token.rate * ((e.now : Int) - start) := by
      apply Int.mul_nonneg positive.le
      have begun := inside.1
      omega
    omega
  · have positive_u : 0 < u.token.rate := kept.rate ▸ positive
    have gain := regained_le (e.now - u.now) positive_u
    have time : token.rate * ((e.now : Int) - start) =
        token.rate * ((e.now : Int) - u.now) + token.rate * ((u.now : Int) - start) := by ring
    rw [kept.rate] at gain
    omega

theorem limited_of_fits (positive : 0 < token.rate) (room : 0 ≤ token.cap)
    (fits : (token.cap + tdRlbRequestMax) * 1000000 + (token.rate - 1) < 2 ^ 63) (kept : Kept token s)
    (run : Run turn (within start length) s t) :
    ((t.granted : Int) - s.granted) * 1000000 ≤ (token.cap + tdRlbRequestMax) * 1000000 + token.rate * length := by
  have both : Kept token t ∧ Spent token s start length t := by
    refine run.invariant (I := fun t => Kept token t ∧ Spent token s start length t) ?_ ⟨kept, .inl rfl⟩
    intro u e t ⟨kept, spent⟩ inside action
    exact ⟨kept.turn positive action, spent.turn positive fits kept inside action⟩
  obtain ⟨kept, rfl | ⟨begun, ended, spent⟩⟩ := both
  · have time : 0 ≤ token.rate * (length : Int) := Int.mul_nonneg positive.le (by omega)
    omega
  · have low := kept.low
    have time : token.rate * ((t.now : Int) - start) ≤ token.rate * length :=
      Int.mul_le_mul_of_nonneg_left (by omega) positive.le
    omega

theorem worth_exact (elapsed : Int) (positive : 0 < token.rate)
    (exact : 1000000 ∣ token.rate ∨ (token.cap + tdRlbRequestMax) * 1000000 ≤ token.rate) {cred : Int}
    (low : -tdRlbRequestMax ≤ cred) (capped : cred ≤ token.cap) (later : 0 ≤ elapsed) :
    min (elapsed * token.rate) ((token.cap - cred) * 1000000) =
      min (elapsed * token.rate / 1000000) (token.cap - cred) * 1000000 := by
  rcases exact with ⟨unit, rate_eq⟩ | fast
  · obtain ⟨bytes, worth⟩ : ∃ bytes, elapsed * token.rate = 1000000 * bytes := by
      exact ⟨elapsed * unit, by rw [rate_eq]; ring⟩
    omega
  · rcases Int.lt_or_eq_of_le later with some_time | rfl
    · have worth : 1 * token.rate ≤ elapsed * token.rate := Int.mul_le_mul_of_nonneg_right some_time positive.le
      omega
    · omega

theorem lossless_of_exact (positive : 0 < token.rate) (exact : token.Exact) (kept : Kept token s)
    (run : Run turn always s t) (init : s.due = s.gained * 1000000) : t.due = t.gained * 1000000 := by
  have both : Kept token t ∧ t.due = t.gained * 1000000 := by
    refine run.invariant (I := fun s => Kept token s ∧ s.due = s.gained * 1000000) ?_ ⟨kept, init⟩
    intro s e t ⟨kept, lossless⟩ _ action
    refine ⟨kept.turn positive action, ?_⟩
    obtain ⟨later, dispatched⟩ := turn_fits positive exact.1 kept action
    have worth := worth_exact (e.now - s.now) positive exact.2 kept.low kept.capped (by omega)
    rw [dispatched.due, dispatched.gained]
    unfold Bucket.refilled
    split
    · exact lossless
    · unfold Bucket.worth Token.regained
      rw [kept.cap, kept.rate] at *
      dsimp only
      omega
  exact both.2

theorem sound_of_exact (positive : 0 < token.rate) (room : 0 ≤ token.cap) (full : token.cred = token.cap)
    (exact : token.Exact) : token.Sound := by
  constructor
  · intro now s run
    exact run_fits positive exact.1 (kept_start room full) run rfl
  · intro now s run
    exact (Kept.run positive run (kept_start room full)).capped
  · intro now s t start length reach run
    exact limited_of_fits positive room exact.1 (Kept.run positive reach (kept_start room full)) run
  · refine ⟨0, fun now s t reach run => ?_⟩
    have kept := Kept.run positive reach (kept_start room full)
    have before := lossless_of_exact positive exact (kept_start room full) reach rfl
    have after := lossless_of_exact positive exact kept run before
    rw [before, after, abs_nonpos_iff]
    ring

end Exact

section Loss
variable {token : Token} {s t : Bucket} {e : Turn} {wait : List Nat}

def Clear (s : Bucket) : Prop := ∀ t, Run turn always s t → t.overflow = false

theorem Clear.next (clear : Clear s) (run : Run turn always s t) : Clear t :=
  fun u rest => clear u (run.trans rest)

theorem turn_next (positive : 0 < token.rate) (kept : Kept token s) (clear : Clear s) (later : s.now ≤ e.now)
    (short : e.now - s.now < 2 ^ 63) (changed : e.changes.foldlM change s.wait = some wait) :
    s.token.Fits ∧
      turn s e = some ((s.refilled e.now (s.token.regained (e.now - s.now))).dispatch e.sent 0 wait) := by
  have ready : s.now ≤ e.now ∧ e.now - s.now < 2 ^ 63 ∧ s.overflow = false := ⟨later, short, clear s (.refl s)⟩
  unfold turn
  rw [if_pos ready, changed, Option.map_some]
  split
  · rename_i token' _ filled
    rw [← kept.rate] at positive
    obtain ⟨fits, rfl⟩ := refill_some positive (kept.cap ▸ kept.capped) (by omega) filled
    exact ⟨fits, rfl⟩
  · rename_i undefined
    have action : turn s e = some { s with overflow := true } := by
      unfold turn
      rw [if_pos ready, changed, Option.map_some]
      split
      · rename_i timer filled
        exact absurd filled (undefined _ _ timer)
      · rfl
    have inRange := clear _ (.single trivial action)
    cases inRange

def loss (s : Bucket) : Int := s.due - s.gained * 1000000

structure Low (s : Bucket) : Prop where
  cred : s.token.cred = -tdRlbRequestMax
  wait : s.wait = [1]

theorem regained_now (capped : token.cred ≤ token.cap) : token.regained 0 = token := by
  unfold Token.regained
  have nothing : min (0 * token.rate / 1000000) (token.cap - token.cred) = 0 := by omega
  rw [nothing, Int.add_zero]

theorem turn_idle (positive : 0 < token.rate) (kept : Kept token s) (clear : Clear s) (idle : s.wait = [])
    {changes : List Change} (changed : changes.foldlM change [] = some wait) :
    turn s ⟨s.now, changes, fun _ => true⟩ = some (s.dispatch (fun _ => true) 0 wait) := by
  have next := turn_next (e := ⟨s.now, changes, fun _ => true⟩) positive kept clear le_rfl (by simp)
    (idle ▸ changed)
  rw [next.2]
  simp only [Int.sub_self, regained_now (kept.cap ▸ kept.capped)]
  unfold Bucket.refilled
  rw [if_pos idle]

theorem drain (positive : 0 < token.rate) {c : Nat} (kept : Kept token s) (clear : Clear s) (idle : s.wait = [])
    (cred : s.token.cred = c) : ∃ t, Run turn always s t ∧ Low t ∧ loss t = loss s := by
  induction c generalizing s with
  | zero =>
      have joined : [Change.join tdRlbRequestMax, .join 1].foldlM change [] = some [tdRlbRequestMax, 1] := rfl
      have action := turn_idle positive kept clear idle joined
      have credit : ¬ s.token.cred < 0 := by omega
      have debt : (s.grant tdRlbRequestMax true).token.cred = -tdRlbRequestMax := by
        change s.token.cred - tdRlbRequestMax = _
        omega
      have low : (s.grant tdRlbRequestMax true).token.cred < 0 := by rw [debt]; decide
      rw [Bucket.dispatch, if_neg credit, Bucket.dispatch, if_pos low] at action
      exact ⟨_, .single trivial action, ⟨debt, rfl⟩, rfl⟩
  | succ c ih =>
      have joined : [Change.join 1].foldlM change [] = some [1] := rfl
      have action := turn_idle positive kept clear idle joined
      have credit : ¬ s.token.cred < 0 := by omega
      rw [Bucket.dispatch, if_neg credit, Bucket.dispatch] at action
      have first : Run turn always s _ := .single trivial action
      have rest_cred : (s.grant 1 true).token.cred = c := by
        change s.token.cred - (1 : Nat) = _
        omega
      obtain ⟨t, rest, low, same⟩ := ih (kept.turn positive action) (clear.next first) rfl rest_cred
      exact ⟨t, first.trans rest, low, same⟩

theorem long_wait (positive : 0 < token.rate) (kept : Kept token s) (clear : Clear s)
    (fits : (token.cap + tdRlbRequestMax) * 1000000 + (token.rate - 1) < 2 ^ 63) (room : 0 ≤ token.cap) :
    ∃ now t, turn s ⟨now, [], fun _ => true⟩ = some t ∧
      t = (s.refilled now { s.token with cred := token.cap }).dispatch (fun _ => true) 0 s.wait := by
  obtain ⟨k, k_eq⟩ : ∃ k : Nat, (k : Int) = (token.cap + tdRlbRequestMax) * 1000000 :=
    ⟨_, Int.toNat_of_nonneg (by omega)⟩
  have low := kept.low
  have worth : (k : Int) * 1 ≤ k * token.rate := Int.mul_le_mul_of_nonneg_left positive (by omega)
  have next := turn_next (e := ⟨s.now + k, [], fun _ => true⟩) positive kept clear (by simp) (by dsimp only; omega) rfl
  have full : s.token.regained ((s.now + k : Nat) - s.now) = { s.token with cred := token.cap } := by
    have elapsed : ((s.now + k : Nat) : Int) - s.now = k := by omega
    rw [elapsed]
    unfold Token.regained
    have cap := kept.cap
    rw [min_eq_right (by rw [kept.rate, cap]; omega)]
    congr 1
    omega
  dsimp only at next
  rw [full] at next
  exact ⟨_, _, next.2, rfl⟩

theorem loss_dispatch (action : s.Dispatched t) : loss t = loss s := by
  unfold loss
  rw [action.due, action.gained]

theorem loss_refilled {now : Nat} {token' : Token} (worth : (token'.cred - s.token.cred) * 1000000 ≤
    Bucket.worth s.token (now - s.now)) : loss s ≤ loss (s.refilled now token') := by
  unfold Bucket.refilled loss
  split
  · exact le_rfl
  · dsimp only
    omega

theorem refilled_token {now : Nat} {token' : Token} : (s.refilled now token').token = token' := by
  unfold Bucket.refilled
  split <;> rfl

theorem dispatch_full (room : 0 ≤ s.token.cred) (short : wait = [] ∨ wait = [1]) :
    (s.dispatch (fun _ => true) 0 wait).wait = [] := by
  rcases short with rfl | rfl
  · rfl
  · rw [Bucket.dispatch, if_neg (by omega)]
    rfl

theorem refill_idle (positive : 0 < token.rate) (kept : Kept token s) (clear : Clear s)
    (fits : (token.cap + tdRlbRequestMax) * 1000000 + (token.rate - 1) < 2 ^ 63) (room : 0 ≤ token.cap)
    (short : s.wait = [] ∨ s.wait = [1]) :
    ∃ t, Run turn always s t ∧ t.wait = [] ∧ t.token.cred = token.cap ∧ loss s ≤ loss t := by
  obtain ⟨first, mid, action, mid_eq⟩ := long_wait positive kept clear fits room
  have idle : mid.wait = [] := by
    rw [mid_eq]
    apply dispatch_full _ short
    rw [refilled_token]
    exact room
  have run : Run turn always s mid := .single trivial action
  obtain ⟨second, t, action', t_eq⟩ := long_wait positive (kept.turn positive action) (clear.next run) fits room
  rw [idle, Bucket.dispatch] at t_eq
  unfold Bucket.refilled at t_eq
  rw [if_pos idle] at t_eq
  refine ⟨t, run.trans (.single trivial action'), by rw [t_eq], by rw [t_eq], ?_⟩
  have same : loss t = loss mid := by rw [t_eq]; rfl
  rw [same]
  obtain ⟨later, -, _, ⟨rfl, -⟩ | ⟨-, dispatched⟩⟩ := turn_cases positive kept action
  · exact le_rfl
  · rw [loss_dispatch dispatched]
    apply loss_refilled
    unfold Bucket.worth Token.regained
    dsimp only at later ⊢
    omega

theorem lossy_cycle (positive : 0 < token.rate) (kept : Kept token s) (clear : Clear s)
    (fits : (token.cap + tdRlbRequestMax) * 1000000 + (token.rate - 1) < 2 ^ 63) (room : 0 ≤ token.cap)
    (odd : ¬ 1000000 ∣ token.rate) (slow : token.rate < (token.cap + tdRlbRequestMax) * 1000000) (low : Low s) :
    ∃ t, Run turn always s t ∧ Low t ∧ loss s + 1 ≤ loss t := by
  have next := turn_next (e := ⟨s.now + 1, [], fun _ => true⟩) positive kept clear (by simp) (by simp) rfl
  obtain ⟨t, t_eq⟩ : ∃ t, t = (s.refilled (s.now + 1) (s.token.regained ((s.now + 1 : Nat) - s.now))).dispatch
    (fun _ => true) 0 s.wait := ⟨_, rfl⟩
  have action : turn s ⟨s.now + 1, [], fun _ => true⟩ = some t := t_eq ▸ next.2
  have first : Run turn always s t := .single trivial action
  have short : t.wait = [] ∨ t.wait = [1] := by
    rw [t_eq, low.wait, Bucket.dispatch]
    split
    · exact .inr rfl
    · exact .inl rfl
  have lost : loss s + 1 ≤ loss t := by
    have dispatched := turn_cases positive kept action
    obtain ⟨-, -, -, ⟨overflow, -⟩ | ⟨-, dispatched⟩⟩ := dispatched
    · have inRange := clear t first
      rw [overflow] at inRange
      cases inRange
    · rw [loss_dispatch dispatched]
      have waits : s.wait ≠ [] := by simp [low.wait]
      have elapsed : ((s.now + 1 : Nat) : Int) - s.now = 1 := by omega
      unfold Bucket.refilled loss Bucket.worth Token.regained
      rw [if_neg waits]
      dsimp only
      rw [elapsed, kept.cap, kept.rate, low.cred]
      omega
  obtain ⟨u, second, idle, cred, kept_loss⟩ := refill_idle positive (kept.turn positive action) (clear.next first)
    fits room short
  obtain ⟨c, cap_eq⟩ := Int.eq_ofNat_of_zero_le room
  have clear_u := (clear.next first).next second
  obtain ⟨w, third, low_w, same⟩ := drain positive (Kept.run positive second (kept.turn positive action)) clear_u idle
    (cred.trans cap_eq)
  exact ⟨w, (first.trans second).trans third, low_w, by omega⟩

theorem lossy_run (positive : 0 < token.rate) (kept : Kept token s) (clear : Clear s)
    (fits : (token.cap + tdRlbRequestMax) * 1000000 + (token.rate - 1) < 2 ^ 63) (room : 0 ≤ token.cap)
    (odd : ¬ 1000000 ∣ token.rate) (slow : token.rate < (token.cap + tdRlbRequestMax) * 1000000) (low : Low s)
    (n : Nat) : ∃ t, Run turn always s t ∧ Low t ∧ loss s + n ≤ loss t := by
  induction n with
  | zero => exact ⟨s, .refl s, low, by simp⟩
  | succ n ih =>
      obtain ⟨t, run, low_t, lost⟩ := ih
      obtain ⟨u, more, low_u, again⟩ := lossy_cycle positive (Kept.run positive run kept) (clear.next run) fits room odd
        slow low_t
      exact ⟨u, run.trans more, low_u, by push_cast; omega⟩

theorem exact_of_sound (positive : 0 < token.rate) (room : 0 ≤ token.cap) (full : token.cred = token.cap)
    (sound : token.Sound) : token.Exact := by
  have kept : Kept token (.start token 0) := kept_start room full
  have clear : Clear (.start token 0) := sound.inRange 0
  obtain ⟨c, cap_eq⟩ := Int.eq_ofNat_of_zero_le room
  obtain ⟨s, run, low, same⟩ := drain positive kept clear rfl (full.trans cap_eq)
  have kept_s := Kept.run positive run kept
  have fits : (token.cap + tdRlbRequestMax) * 1000000 + (token.rate - 1) < 2 ^ 63 := by
    have next := turn_next (e := ⟨s.now, [], fun _ => true⟩) positive kept_s (clear.next run) le_rfl (by simp) rfl
    have fits := next.1
    unfold Token.Fits at fits
    rwa [low.cred, kept_s.cap, kept_s.rate, Int.sub_neg] at fits
  refine ⟨fits, ?_⟩
  by_contra inexact
  obtain ⟨odd, slow⟩ := not_or.mp inexact
  obtain ⟨bound, lossless⟩ := sound.lossless
  obtain ⟨t, rest, -, lost⟩ := lossy_run positive kept_s (clear.next run) fits room odd (not_le.mp slow) low
    (bound.toNat + 1)
  have most := lossless 0 _ t (.refl _) (run.trans rest)
  have start_loss : loss (.start token 0) = 0 := rfl
  unfold loss at *
  have above := le_abs_self (t.due - (Bucket.start token 0).due - (t.gained - (Bucket.start token 0).gained) * 1000000)
  push_cast at lost
  omega

end Loss

section Options

theorem tokenOption_bounds {token token' : Token} {option : TokenOption} (first : 0 ≤ token.rate ∧ 0 ≤ token.cap)
    (taken : tokenOption token option = .ok token') : 0 ≤ token'.rate ∧ 0 ≤ token'.cap := by
  cases option with
  | rate arg =>
      simp only [tokenOption] at taken
      split at taken
      · cases taken
      · cases taken
        exact ⟨not_lt.mp ‹_›, first.2⟩
  | cap arg =>
      simp only [tokenOption] at taken
      split at taken
      · cases taken
      · cases taken
        exact ⟨first.1, not_lt.mp ‹_›⟩
  | unknown => cases taken

theorem tokenOptions_bounds {token token' : Token} {options : List TokenOption}
    (first : 0 ≤ token.rate ∧ 0 ≤ token.cap) (taken : options.foldlM tokenOption token = .ok token') :
    0 ≤ token'.rate ∧ 0 ≤ token'.cap := by
  induction options generalizing token with
  | nil =>
      cases taken
      exact first
  | cons option options ih =>
      rw [List.foldlM_cons] at taken
      obtain ⟨mid, start, rest⟩ := Outcome.bind_eq_ok.mp taken
      exact ih (tokenOption_bounds first start) rest

theorem tokenCreate_ok {options : List TokenOption} {token : Token} (created : tokenCreate options = .ok token) :
    0 < token.rate ∧ 0 ≤ token.cap ∧ token.cred = token.cap := by
  obtain ⟨parsed, taken, checked⟩ := Outcome.bind_eq_ok.mp created
  have bounds := tokenOptions_bounds ⟨le_rfl, le_rfl⟩ taken
  split at checked
  · cases checked
  · rename_i some_rate
    cases checked
    exact ⟨lt_of_le_of_ne bounds.1 (Ne.symm some_rate), bounds.2, rfl⟩

end Options

/-- A token bucket keeps its promises exactly for the rates that are a whole number of bytes for each
microsecond, or that fill the bucket in one, as long as the products of a refill fit. -/
theorem token_sound_iff {options : List TokenOption} {token : Token} (created : tokenCreate options = .ok token) :
    token.Sound ↔ token.Exact := by
  obtain ⟨positive, room, full⟩ := tokenCreate_ok created
  exact ⟨exact_of_sound positive room full, sound_of_exact positive room full⟩

theorem token_sound_megabytes : (⟨8000000, 8000000, 2000000⟩ : Token).Sound := by
  have created : tokenCreate [.rate ['2', 'M'], .cap ['8', 'M']] = .ok ⟨8000000, 8000000, 2000000⟩ := by
    decide +kernel
  exact (token_sound_iff created).mpr ⟨by decide, .inl (by decide)⟩

theorem token_unsound_kilobyte :
    ∃ token, tokenCreate [.rate ['1', 'K'], .cap ['0']] = .ok token ∧ ¬ token.Sound := by
  refine ⟨⟨0, 0, 1000⟩, by decide +kernel, fun sound => ?_⟩
  have exact := exact_of_sound (by decide) (by decide) rfl sound
  revert exact
  unfold Token.Exact
  decide

end Blktap.Ratelimit
