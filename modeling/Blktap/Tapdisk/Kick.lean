import Mathlib.Data.List.Perm.Basic

/-!
# Answers to completed requests (`tapdisk-vbd.c`)

`tapdisk_vbd_kick` calls the callbacks of the requests that are completed. It takes the first one and then, in one
pass over the list, all others with the same token; a callback is told whether it is the last one of its token.
-/

namespace Blktap.Tapdisk.Kick
variable {κ : Type} [DecidableEq κ]

structure Vreq (κ : Type) where
  id : Nat
  token : κ
  error : Int
  deriving DecidableEq

structure Call (κ : Type) where
  vreq : Vreq κ
  error : Int
  token : κ
  final : Bool
  deriving DecidableEq

structure Vbd (κ : Type) where
  completed : List (Vreq κ)
  calls : List (Call κ)
  kicked : Nat
  returned : Nat

def Vreq.cb (vreq : Vreq κ) (final : Bool) : Call κ := ⟨vreq, vreq.error, vreq.token, final⟩

def Vbd.cb (vbd : Vbd κ) (vreq : Vreq κ) (final : Bool) : Vbd κ :=
  { vbd with calls := vbd.calls ++ [vreq.cb final], returned := vbd.returned + 1 }

def pass (vbd : Vbd κ) (prev : Vreq κ) : List (Vreq κ) → Vbd κ × Vreq κ × List (Vreq κ)
  | [] => (vbd, prev, [])
  | vreq :: list =>
      if vreq.token = prev.token then pass (vbd.cb prev false) vreq list
      else
        match pass vbd prev list with
        | (vbd, last, left) => (vbd, last, vreq :: left)

theorem pass_left (vbd : Vbd κ) (prev : Vreq κ) (list : List (Vreq κ)) :
    (pass vbd prev list).2.2 = list.filter fun vreq => vreq.token ≠ prev.token := by
  induction list generalizing vbd prev with
  | nil => rfl
  | cons vreq list ih =>
      by_cases same : vreq.token = prev.token
      · simp [pass, same, ih]
      · simp [pass, same, ih]

def loop (vbd : Vbd κ) : List (Vreq κ) → Vbd κ
  | [] => { vbd with completed := [] }
  | prev :: list =>
      match _passed : pass vbd prev list with
      | (after, last, left) => loop (after.cb last true) left
  termination_by list => list.length
  decreasing_by
    have same : _ = left := (pass_left vbd prev list).symm.trans (congrArg (·.2.2) _passed)
    rw [← same]
    exact Nat.lt_succ_of_le (List.length_filter_le _ _)

def kick (vbd : Vbd κ) : Vbd κ := loop { vbd with kicked := vbd.kicked + 1 } vbd.completed

def round : List (Vreq κ) → List (Call κ)
  | [] => []
  | [last] => [last.cb true]
  | prev :: vreq :: list => prev.cb false :: round (vreq :: list)

/-- Each request is answered once; the answers with one token come in the order of the list, and only the last one of
them says that it is the last. -/
structure Answers (completed : List (Vreq κ)) (calls : List (Call κ)) : Prop where
  once : (calls.map Call.vreq).Perm completed
  own : ∀ call ∈ calls, call.error = call.vreq.error ∧ call.token = call.vreq.token
  order : ∀ token, (calls.filter (·.token = token)).map Call.vreq = completed.filter (·.token = token)
  final : ∀ vreq ∈ completed, ∃ before last, calls.filter (·.token = vreq.token) = before ++ [last] ∧ last.final ∧
    ∀ call ∈ before, call.final = false

section Rounds
omit [DecidableEq κ]
variable {prev : Vreq κ} {list : List (Vreq κ)} {call : Call κ}

theorem round_vreq (list : List (Vreq κ)) : (round list).map Call.vreq = list := by
  induction list with
  | nil => rfl
  | cons prev list ih =>
      cases list with
      | nil => rfl
      | cons vreq list => exact congrArg (prev :: ·) ih

theorem mem_round (member : call ∈ round list) : ∃ vreq ∈ list, ∃ final, call = vreq.cb final := by
  induction list with
  | nil => cases member
  | cons prev list ih =>
      cases list with
      | nil => exact ⟨prev, List.mem_cons_self, true, List.mem_singleton.mp member⟩
      | cons vreq list =>
          rcases List.mem_cons.mp member with here | later
          · exact ⟨prev, List.mem_cons_self, false, here⟩
          · obtain ⟨other, inside, final, same⟩ := ih later
            exact ⟨other, List.mem_cons_of_mem _ inside, final, same⟩

theorem round_final (prev : Vreq κ) (list : List (Vreq κ)) : ∃ before last, round (prev :: list) = before ++ [last] ∧
    last.final ∧ ∀ call ∈ before, call.final = false := by
  induction list generalizing prev with
  | nil => exact ⟨[], prev.cb true, rfl, rfl, nofun⟩
  | cons vreq list ih =>
      obtain ⟨before, last, same, final, others⟩ := ih vreq
      refine ⟨prev.cb false :: before, last, congrArg (prev.cb false :: ·) same, final, ?_⟩
      intro call member
      rcases List.mem_cons.mp member with rfl | later
      · rfl
      · exact others call later

end Rounds

variable {vbd : Vbd κ} {prev : Vreq κ} {list completed : List (Vreq κ)} {calls : List (Call κ)} {token : κ}

theorem filter_own (own : ∀ call ∈ calls, call.error = call.vreq.error ∧ call.token = call.vreq.token) (token : κ) :
    (calls.filter (·.token = token)).map Call.vreq = (calls.map Call.vreq).filter (·.token = token) := by
  rw [List.filter_map]
  congr 1
  apply List.filter_congr
  intro call member
  simp only [Function.comp_apply, (own call member).2]

theorem round_filter (same : ∀ vreq ∈ list, vreq.token = token) : (round list).filter (·.token = token) = round list := by
  apply List.filter_eq_self.mpr
  intro call member
  obtain ⟨vreq, inside, final, rfl⟩ := mem_round member
  exact decide_eq_true (same vreq inside)

theorem round_filter_other (other : ∀ vreq ∈ list, vreq.token ≠ token) : (round list).filter (·.token = token) = [] := by
  apply List.filter_eq_nil_iff.mpr
  intro call member
  obtain ⟨vreq, inside, final, rfl⟩ := mem_round member
  exact fun same => other vreq inside (of_decide_eq_true same)

theorem pass_calls (vbd : Vbd κ) (prev : Vreq κ) (list : List (Vreq κ)) :
    ((pass vbd prev list).1.cb (pass vbd prev list).2.1 true).calls =
      vbd.calls ++ round (prev :: list.filter fun vreq => vreq.token = prev.token) := by
  induction list generalizing vbd prev with
  | nil => rfl
  | cons vreq list ih =>
      by_cases same : vreq.token = prev.token
      · have step : pass vbd prev (vreq :: list) = pass (vbd.cb prev false) vreq list := by simp [pass, same]
        rw [step, ih (vbd.cb prev false) vreq]
        simp [Vbd.cb, round, same]
      · simp [pass, same, ih]

theorem pass_returned (vbd : Vbd κ) (prev : Vreq κ) (list : List (Vreq κ)) :
    (pass vbd prev list).1.returned = vbd.returned + (list.filter fun vreq => vreq.token = prev.token).length := by
  induction list generalizing vbd prev with
  | nil => rfl
  | cons vreq list ih =>
      by_cases same : vreq.token = prev.token
      · simp [pass, same, ih, Vbd.cb]
        omega
      · simp [pass, same, ih]

theorem Answers.cons (prev : Vreq κ) (list : List (Vreq κ))
    (answers : Answers (list.filter fun vreq => vreq.token ≠ prev.token) calls) :
    Answers (prev :: list) (round (prev :: list.filter fun vreq => vreq.token = prev.token) ++ calls) := by
  have first : ∀ vreq ∈ prev :: list.filter (fun vreq => vreq.token = prev.token), vreq.token = prev.token := by
    intro vreq member
    rcases List.mem_cons.mp member with rfl | later
    · rfl
    · exact of_decide_eq_true (List.mem_filter.mp later).2
  have own : ∀ call ∈ round (prev :: list.filter fun vreq => vreq.token = prev.token) ++ calls,
      call.error = call.vreq.error ∧ call.token = call.vreq.token := by
    intro call member
    rcases List.mem_append.mp member with here | later
    · obtain ⟨vreq, _, final, rfl⟩ := mem_round here
      exact ⟨rfl, rfl⟩
    · exact answers.own call later
  have mapped : (round (prev :: list.filter fun vreq => vreq.token = prev.token) ++ calls).map Call.vreq =
      prev :: list.filter (fun vreq => vreq.token = prev.token) ++ calls.map Call.vreq := by
    rw [List.map_append, round_vreq]
  constructor
  case own => exact own
  case once =>
    rw [mapped]
    refine List.Perm.cons prev ?_
    have parts := List.filter_append_perm (fun vreq : Vreq κ => decide (vreq.token = prev.token)) list
    simp only [← decide_not] at parts
    exact (answers.once.append_left _).trans parts
  case order =>
    intro token
    rw [filter_own own, mapped, List.filter_append, ← filter_own answers.own, answers.order, List.filter_filter]
    by_cases same : token = prev.token
    · subst same
      simp
    · have later : (list.filter fun vreq => vreq.token = prev.token).filter (·.token = token) = [] := by
        apply List.filter_eq_nil_iff.mpr
        intro vreq member there
        exact same ((of_decide_eq_true there).symm.trans (of_decide_eq_true (List.mem_filter.mp member).2))
      have apart : ∀ vreq ∈ list, (decide (vreq.token = token) && decide (vreq.token ≠ prev.token)) =
          decide (vreq.token = token) := by
        intro vreq _
        by_cases here : vreq.token = token
        · simp [here, same]
        · simp [here]
      rw [List.filter_cons, List.filter_cons, later, List.filter_congr apart]
      simp [Ne.symm same]
  case final =>
    intro vreq member
    rw [List.filter_append]
    by_cases same : vreq.token = prev.token
    · have none : calls.filter (·.token = prev.token) = [] := by
        have order := answers.order prev.token
        rw [List.filter_filter] at order
        simpa using order
      rw [same, none, List.append_nil, round_filter first]
      exact round_final prev _
    · have later : vreq ∈ list.filter fun vreq => vreq.token ≠ prev.token := by
        have inside := (List.mem_cons.mp member).resolve_left fun here => same (here ▸ rfl)
        exact List.mem_filter.mpr ⟨inside, decide_eq_true same⟩
      rw [round_filter_other fun other there here => same (here.symm.trans (first other there)), List.nil_append]
      exact answers.final vreq later

theorem pass_kept (vbd : Vbd κ) (prev : Vreq κ) (list : List (Vreq κ)) :
    (pass vbd prev list).1.kicked = vbd.kicked := by
  induction list generalizing vbd prev with
  | nil => rfl
  | cons vreq list ih =>
      by_cases same : vreq.token = prev.token
      · simp [pass, same, ih, Vbd.cb]
      · simp [pass, same, ih]

theorem loop_answers (vbd : Vbd κ) (list : List (Vreq κ)) : (loop vbd list).completed = [] ∧
    (loop vbd list).returned = vbd.returned + list.length ∧ (loop vbd list).kicked = vbd.kicked ∧
      ∃ calls, (loop vbd list).calls = vbd.calls ++ calls ∧ Answers list calls := by
  fun_induction loop vbd list with
  | case1 vbd => exact ⟨rfl, rfl, rfl, [], (List.append_nil _).symm, ⟨.nil, nofun, fun _ => rfl, nofun⟩⟩
  | case2 vbd prev list after last left passed ih =>
      obtain ⟨empty, returned, kicked, calls, made, answers⟩ := ih
      have rest : list.filter (fun vreq => vreq.token ≠ prev.token) = left :=
        (pass_left vbd prev list).symm.trans (congrArg (·.2.2) passed)
      have first := pass_calls vbd prev list
      have count := pass_returned vbd prev list
      have kept := pass_kept vbd prev list
      rw [passed] at first count kept
      refine ⟨empty, ?_, kicked.trans kept, _, ?_, Answers.cons prev list (rest ▸ answers)⟩
      · have parts : list.length = (list.filter fun vreq => decide (vreq.token = prev.token)).length + left.length := by
          rw [← rest]
          simpa using List.length_eq_length_filter_add (l := list) fun vreq => decide (vreq.token = prev.token)
        rw [returned, List.length_cons, parts]
        change after.returned + 1 + _ = _
        rw [count]
        omega
      · rw [made, first, List.append_assoc]

/-- For every list of completed requests, the kick answers each of them once and leaves none. -/
theorem kick_answers (vbd : Vbd κ) : (kick vbd).completed = [] ∧
    (kick vbd).returned = vbd.returned + vbd.completed.length ∧ (kick vbd).kicked = vbd.kicked + 1 ∧
      ∃ calls, (kick vbd).calls = vbd.calls ++ calls ∧ Answers vbd.completed calls :=
  loop_answers { vbd with kicked := vbd.kicked + 1 } vbd.completed

end Blktap.Tapdisk.Kick
