import Blktap.Tapdisk.Sharing
import Mathlib.Data.List.Perm.Basic

/-! # Drivers over runs -/

namespace Blktap.Tapdisk.Sharing
open Lib
variable {ν : Type} [DecidableEq ν]

structure Sound (s : State ν) : Prop where
  counted : ∀ d < s.next, (s.drivers d).refcnt = s.images.countP (·.driver = d)
  opened : ∀ d < s.next, (s.drivers d).opened = true ↔ 0 < (s.drivers d).refcnt
  once : ∀ d < s.next, (s.drivers d).closes = if (s.drivers d).refcnt = 0 then 1 else 0
  live : ∀ image ∈ s.images, image.driver < s.next ∧ (s.drivers image.driver).freed = false

section Conditions
variable (s : State ν)

def Spec.opens (spec : Spec ν) : Bool := spec.imageOk && ((getSharedImage s spec).isSome || spec.driverOk && spec.openOk)

def Spec.harmless (spec : Spec ν) : Bool :=
  !spec.imageOk || (getSharedImage s spec).isSome || !spec.driverOk || spec.openOk

def harmless : List (Spec ν) → Bool
  | [] => true
  | spec :: specs => spec.harmless s && (!spec.opens s || harmless specs)

def Chain.specs (chain : Chain ν) : List (Spec ν) :=
  match chain.device with
  | some device => [chain.leaf, device]
  | none => chain.leaf :: chain.parents

def XChain.harmless (chain : XChain ν) : Bool :=
  match chain.lines with
  | [] => true
  | none :: _ => true
  | some spec :: lines =>
      if spec.opens s then
        lines.all (fun line => line.any fun spec => spec.opens s) && chain.parents.all (fun spec => spec.opens s) &&
          chain.ends
      else spec.harmless s

def Meets (s : State ν) : Event ν → Prop
  | .openImage spec => spec.harmless s
  | .openChain _ chain => harmless s chain.specs
  | .openXChain _ chain => chain.harmless s
  | _ => True

instance (s : State ν) (e : Event ν) : Decidable (Meets s e) :=
  match e with
  | .vbd => inferInstanceAs (Decidable True)
  | .openImage spec => inferInstanceAs (Decidable (spec.harmless s = true))
  | .closeImage _ => inferInstanceAs (Decidable True)
  | .openChain _ chain => inferInstanceAs (Decidable (harmless s chain.specs = true))
  | .openXChain _ chain => inferInstanceAs (Decidable (chain.harmless s = true))
  | .closeChain _ => inferInstanceAs (Decidable True)

end Conditions

structure Right (driver : Driver) (n : Nat) : Prop where
  counted : driver.refcnt = n
  opened : driver.opened = true ↔ 0 < n
  once : driver.closes = if n = 0 then 1 else 0
  live : driver.freed = true → n = 0

structure Good (drivers : Nat → Driver) (next : Nat) (images : List (Image ν)) : Prop where
  right : ∀ d < next, Right (drivers d) (images.countP (·.driver = d))
  known : ∀ image ∈ images, image.driver < next

section Drivers
omit [DecidableEq ν]
variable {drivers : Nat → Driver} {next d n : Nat} {images images' : List (Image ν)} {image : Image ν} {driver : Driver}
  {s : State ν}

theorem Good.perm (good : Good drivers next images) (perm : images.Perm images') : Good drivers next images' where
  right := by
    intro d small
    rw [← perm.countP_eq]
    exact good.right d small
  known := fun image member => good.known image (perm.mem_iff.mpr member)

theorem Good.change (good : Good drivers next images) (right : Right driver (images'.countP (·.driver = d)))
    (others : ∀ e, e ≠ d → images'.countP (·.driver = e) = images.countP (·.driver = e))
    (known : ∀ image ∈ images', image.driver < next) : Good (Function.update drivers d driver) next images' where
  known := known
  right := by
    intro e small
    by_cases here : e = d
    · rw [here, Function.update_self]
      exact right
    · rw [Function.update_of_ne here, others e here]
      exact good.right e small

theorem countP_cons_driver (image : Image ν) (images : List (Image ν)) :
    (image :: images).countP (·.driver = image.driver) = images.countP (·.driver = image.driver) + 1 := by simp

theorem countP_cons_other (images : List (Image ν)) (other : d ≠ image.driver) :
    (image :: images).countP (·.driver = d) = images.countP (·.driver = d) := by simp [other.symm]

def Driver.closed (driver : Driver) : Driver :=
  let refcnt := driver.refcnt - 1
  let after : Driver :=
    if refcnt = 0 ∧ driver.opened then { driver with refcnt, opened := false, closes := driver.closes + 1 }
    else { driver with refcnt }
  if refcnt ≠ 0 then after else { after with freed := true }

theorem imageClose_eq (s : State ν) (image : Image ν) : imageClose s image =
    { s with drivers := Function.update s.drivers image.driver (s.drivers image.driver).closed } := by
  simp only [imageClose, tdClose, Driver.closed]
  split <;> simp only [driverFree, State.setDriver, Function.update_self] <;> split <;> simp

theorem Right.closed (right : Right driver (n + 1)) : Right driver.closed n := by
  have counted := right.counted
  have opened := right.opened.mpr n.succ_pos
  have once := right.once
  have live : driver.freed = false := by
    cases freed : driver.freed with
    | false => rfl
    | true => exact absurd (right.live freed) n.succ_ne_zero
  cases n with
  | zero =>
      have last : driver.refcnt - 1 = 0 := by omega
      constructor <;> simp_all [Driver.closed]
  | succ n =>
      have more : driver.refcnt - 1 ≠ 0 := by omega
      constructor <;> simp_all [Driver.closed]

theorem Good.imageClose (good : Good s.drivers s.next (image :: images)) :
    Good (imageClose s image).drivers (imageClose s image).next images := by
  rw [imageClose_eq]
  apply good.change
  · have right := good.right image.driver (good.known image List.mem_cons_self)
    rw [countP_cons_driver] at right
    exact right.closed
  · exact fun e other => (countP_cons_other images other).symm
  · exact fun other member => good.known other (List.mem_cons_of_mem _ member)

theorem Good.closeChain {list : List (Image ν)} (good : Good s.drivers s.next (list ++ images)) :
    Good (closeChain s list).drivers (closeChain s list).next images := by
  induction list generalizing s with
  | nil => exact good
  | cons image list ih =>
      simp only [Sharing.closeChain, List.foldl_cons]
      exact ih good.imageClose

theorem Good.get (good : Good s.drivers s.next images) {shared : Image ν} (member : shared ∈ images) (type : Nat)
    (name : ν) : Good (get s shared.driver).drivers s.next (⟨type, name, shared.driver⟩ :: images) := by
  have used : 0 < images.countP (·.driver = shared.driver) :=
    List.countP_pos_iff.mpr ⟨shared, member, decide_eq_true rfl⟩
  have right := good.right shared.driver (good.known shared member)
  apply good.change
  · rw [countP_cons_driver (⟨type, name, shared.driver⟩ : Image ν)]
    constructor
    · simp [right.counted]
    · simp [right.opened.mpr used]
    · simp [right.once, Nat.ne_of_gt used]
    · exact fun freed => absurd (right.live freed) (Nat.ne_of_gt used)
  · exact fun e other => countP_cons_other images other
  · intro image inside
    rcases List.mem_cons.mp inside with rfl | old
    · exact good.known shared member
    · exact good.known image old

theorem Good.tdOpen (good : Good s.drivers s.next images) (type : Nat) (name : ν) :
    Good (tdOpen (allocate s) s.next).drivers (s.next + 1) (⟨type, name, s.next⟩ :: images) := by
  have fresh : images.countP (·.driver = s.next) = 0 := by
    refine List.countP_eq_zero.mpr fun image member same => ?_
    exact Nat.ne_of_lt (good.known image member) (of_decide_eq_true same)
  have drivers : (Sharing.tdOpen (allocate s) s.next).drivers = Function.update s.drivers s.next ⟨1, true, 0, false⟩ := by
    simp [Sharing.tdOpen, allocate, State.setDriver]
  rw [drivers]
  constructor
  · intro d small
    by_cases here : d = s.next
    · subst here
      rw [Function.update_self, countP_cons_driver (⟨type, name, s.next⟩ : Image ν), fresh]
      exact ⟨rfl, by simp, rfl, nofun⟩
    · rw [Function.update_of_ne here, countP_cons_other images here]
      exact good.right d (Nat.lt_of_le_of_ne (Nat.le_of_lt_succ small) here)
  · intro image member
    rcases List.mem_cons.mp member with rfl | old
    · exact Nat.lt_succ_self _
    · exact Nat.lt_succ_of_lt (good.known image old)

end Drivers

section Operations
variable {s s' t : State ν} {spec : Spec ν} {specs : List (Spec ν)} {head : List (Image ν)}

structure SameLists (s t : State ν) : Prop where
  vbds : t.vbds = s.vbds
  chains : t.chains = s.chains
  others : t.others = s.others

omit [DecidableEq ν] in
theorem SameLists.images (same : SameLists s t) : t.images = s.images := by
  simp only [State.images, same.vbds, same.chains, same.others]

theorem SameLists.opens (same : SameLists s t) (spec : Spec ν) : spec.opens t = spec.opens s := by
  simp only [Spec.opens, getSharedImage, same.vbds, same.chains]

theorem SameLists.harmless (same : SameLists s t) (spec : Spec ν) : spec.harmless t = spec.harmless s := by
  simp only [Spec.harmless, getSharedImage, same.vbds, same.chains]

theorem SameLists.harmlessAll (same : SameLists s t) (specs : List (Spec ν)) :
    Sharing.harmless t specs = Sharing.harmless s specs := by
  induction specs with
  | nil => rfl
  | cons spec specs ih => simp only [Sharing.harmless, same.opens, same.harmless, ih]

theorem imageOpen_cases (good : Good s.drivers s.next (head ++ s.images)) (harmless : spec.harmless s) :
    spec.opens s = false ∧ imageOpen s spec = (s, none) ∨
      spec.opens s ∧ ∃ t image, imageOpen s spec = (t, some image) ∧ SameLists s t ∧
        Good t.drivers t.next ((head ++ [image]) ++ t.images) := by
  have behind {t : State ν} {image : Image ν} (same : SameLists s t)
      (after : Good t.drivers t.next (image :: (head ++ s.images))) :
      Good t.drivers t.next ((head ++ [image]) ++ t.images) := by
    rw [same.images, List.append_assoc]
    exact after.perm List.perm_middle.symm
  simp only [Spec.opens, Spec.harmless, imageOpen] at harmless ⊢
  cases imageOk : spec.imageOk with
  | false => exact .inl ⟨rfl, rfl⟩
  | true =>
      cases found : getSharedImage s spec with
      | some shared =>
          have member : shared ∈ head ++ s.images := by
            simp only [getSharedImage] at found
            split at found
            · exact List.mem_append_right _ (List.mem_append_left _ (List.mem_of_find?_eq_some found))
            · cases found
          exact .inr ⟨rfl, _, _, rfl, ⟨rfl, rfl, rfl⟩, behind ⟨rfl, rfl, rfl⟩ (good.get member spec.type spec.name)⟩
      | none =>
          cases driverOk : spec.driverOk with
          | false => exact .inl ⟨rfl, rfl⟩
          | true =>
              have openOk : spec.openOk = true := by simpa [imageOk, found, driverOk] using harmless
              simp only [openOk]
              exact .inr ⟨rfl, _, _, rfl, ⟨rfl, rfl, rfl⟩,
                behind ⟨rfl, rfl, rfl⟩ (good.tdOpen spec.type spec.name)⟩

omit [DecidableEq ν] in
theorem SameLists.trans {w : State ν} (first : SameLists s t) (second : SameLists t w) : SameLists s w :=
  ⟨second.vbds.trans first.vbds, second.chains.trans first.chains, second.others.trans first.others⟩

theorem SameLists.all (same : SameLists s t) (specs : List (Spec ν)) :
    (specs.all fun spec => spec.opens t) = specs.all fun spec => spec.opens s := by
  simp only [same.opens]

theorem openParents_good (good : Good s.drivers s.next (head ++ s.images)) (safe : harmless s specs) (ends : Bool) :
    ∃ t list done, openParents s head ends specs = (t, list, done) ∧ SameLists s t ∧
      Good t.drivers t.next (list ++ t.images) ∧ ((specs.all fun spec => spec.opens s) → done = ends) := by
  induction specs generalizing s head with
  | nil => exact ⟨s, head, ends, rfl, ⟨rfl, rfl, rfl⟩, good, fun _ => rfl⟩
  | cons spec specs ih =>
      obtain ⟨first, rest⟩ := Bool.and_eq_true_iff.mp safe
      rcases imageOpen_cases good first with ⟨closed, failed⟩ | ⟨opens, t, image, opened, same, after⟩
      · refine ⟨s, head, false, by simp only [openParents, failed], ⟨rfl, rfl, rfl⟩, good, fun all => ?_⟩
        simp [closed] at all
      · rw [opens, Bool.not_true, Bool.false_or, ← same.harmlessAll] at rest
        obtain ⟨t', list, done, parents, same', good', full⟩ := ih after rest
        refine ⟨t', list, done, by simp only [openParents, opened, parents], same.trans same', good', fun all => ?_⟩
        rw [List.all_cons, opens, Bool.true_and] at all
        exact full (by rw [same.all]; exact all)

theorem harmless_of_opens (opens : spec.opens s) : spec.harmless s := by
  simp only [Spec.opens, Spec.harmless] at opens ⊢
  grind

theorem harmless_of_all (all : specs.all fun spec => spec.opens s) : harmless s specs := by
  induction specs with
  | nil => rfl
  | cons spec specs ih =>
      obtain ⟨first, rest⟩ := Bool.and_eq_true_iff.mp all
      simp only [harmless, harmless_of_opens first, ih rest, Bool.true_and, Bool.or_true]

theorem openLines_good {lines : List (Option (Spec ν))} (good : Good s.drivers s.next (head ++ s.images))
    (all : lines.all fun line => line.any fun spec => spec.opens s) (filled : head ≠ [] ∨ lines ≠ []) :
    ∃ t list, openLines s head lines = (t, list, true) ∧ SameLists s t ∧
      Good t.drivers t.next (list ++ t.images) := by
  induction lines generalizing s head with
  | nil =>
      have more := filled.resolve_right fun other => other rfl
      refine ⟨s, head, ?_, ⟨rfl, rfl, rfl⟩, good⟩
      simp [openLines, more]
  | cons line lines ih =>
      obtain ⟨first, rest⟩ := Bool.and_eq_true_iff.mp all
      cases line with
      | none => cases first
      | some spec =>
          have opens : spec.opens s = true := first
          rcases imageOpen_cases good (harmless_of_opens opens) with ⟨closed, _⟩ | ⟨_, t, image, opened, same, after⟩
          · rw [opens] at closed
            cases closed
          · obtain ⟨t', list, read, same', good'⟩ := ih after (by simpa only [same.opens] using rest) (.inl (by simp))
            exact ⟨t', list, by simp only [openLines, opened, read], same.trans same', good'⟩

omit [DecidableEq ν] in
theorem concat_images {v : Nat} (small : v < s.vbds) (head : List (Image ν)) :
    (concat s v head).images.Perm (head ++ s.images) := by
  have others : ∀ i, i ≠ v → Function.update s.chains v [] i = s.chains i := fun i other =>
    Function.update_of_ne other _ _
  obtain ⟨rest, before, after⟩ := queued_perm small others
  rw [Function.update_self, List.nil_append] at after
  refine (after.append_right _).trans ?_
  have parts : (head ++ s.images).Perm (head ++ ((s.chains v ++ rest) ++ s.others)) :=
    (before.append_right s.others).append_left head
  refine List.Perm.trans ?_ parts.symm
  calc rest ++ (head ++ s.chains v ++ s.others)
      _ = rest ++ (head ++ s.chains v) ++ s.others := by simp
      _ |>.Perm (head ++ s.chains v ++ rest ++ s.others) := List.perm_append_comm.append_right s.others
      _ = head ++ ((s.chains v ++ rest) ++ s.others) := by simp

omit [DecidableEq ν] in
theorem Good.concat {v : Nat} (good : Good s.drivers s.next (head ++ s.images)) (small : v < s.vbds) :
    Good (concat s v head).drivers (concat s v head).next (concat s v head).images :=
  good.perm (concat_images small head).symm

omit [DecidableEq ν] in
theorem closeChain_lists (s : State ν) (list : List (Image ν)) : SameLists s (closeChain s list) := by
  induction list generalizing s with
  | nil => exact ⟨rfl, rfl, rfl⟩
  | cons image list ih =>
      have first : SameLists s (imageClose s image) := by
        rw [imageClose_eq]
        exact ⟨rfl, rfl, rfl⟩
      exact first.trans (ih _)

omit [DecidableEq ν] in
theorem Good.unwind (good : Good s.drivers s.next (head ++ s.images)) :
    Good (Sharing.closeChain s head).drivers (Sharing.closeChain s head).next (Sharing.closeChain s head).images := by
  rw [(closeChain_lists s head).images]
  exact good.closeChain

theorem Good.openChain {v : Nat} {chain : Chain ν} (good : Good s.drivers s.next s.images) (small : v < s.vbds)
    (meets : harmless s chain.specs) :
    Good (openChain s v chain).drivers (openChain s v chain).next (openChain s v chain).images := by
  have leaf : chain.leaf.harmless s := by
    simp only [Chain.specs] at meets
    split at meets
    · exact (Bool.and_eq_true_iff.mp meets).1
    · exact (Bool.and_eq_true_iff.mp meets).1
  have fresh : Good s.drivers s.next ([] ++ s.images) := good
  rcases imageOpen_cases fresh leaf with ⟨_, failed⟩ | ⟨opens, t, image, opened, same, after⟩
  · simp only [Sharing.openChain, failed]
    exact good
  · have small : v < t.vbds := same.vbds ▸ small
    cases device : chain.device with
    | some spec =>
        have safe : spec.harmless s := by
          simp only [Chain.specs, device, harmless, opens, Bool.not_true, Bool.false_or, Bool.and_eq_true] at meets
          exact meets.2.1
        rw [← same.harmless] at safe
        rcases imageOpen_cases after safe with ⟨_, failed⟩ | ⟨_, t', parent, opened', same', after'⟩
        · simp only [Sharing.openChain, opened, device, failed]
          exact after.unwind
        · simp only [Sharing.openChain, opened, device, opened']
          exact after'.concat (same'.vbds ▸ small)
    | none =>
        have safe : harmless t chain.parents := by
          simp only [Chain.specs, device, harmless, opens, Bool.not_true, Bool.false_or, Bool.and_eq_true] at meets
          rw [same.harmlessAll]
          exact meets.2
        obtain ⟨t', list, done, parents, same', after', _⟩ := openParents_good after safe chain.ends
        have parents : openParents t [image] chain.ends chain.parents = (t', list, done) := parents
        cases done with
        | true =>
            simp only [Sharing.openChain, opened, device, parents]
            exact after'.concat (same'.vbds ▸ small)
        | false =>
            simp only [Sharing.openChain, opened, device, parents]
            exact after'.unwind

theorem Good.openXChain {v : Nat} {chain : XChain ν} (good : Good s.drivers s.next s.images) (small : v < s.vbds)
    (meets : chain.harmless s) :
    Good (openXChain s v chain).drivers (openXChain s v chain).next (openXChain s v chain).images := by
  cases lines : chain.lines with
  | nil =>
      simp only [Sharing.openXChain, lines, openLines]
      exact good
  | cons line rest =>
      cases line with
      | none =>
          simp only [Sharing.openXChain, lines, openLines]
          exact good
      | some spec =>
          simp only [XChain.harmless, lines] at meets
          split at meets
          · next opens =>
              simp only [Bool.and_eq_true] at meets
              obtain ⟨⟨all, parents⟩, ends⟩ := meets
              have every : ((some spec :: rest).all fun line => line.any fun spec => spec.opens s) := by
                rw [List.all_cons, all, Bool.and_true]
                exact opens
              have fresh : Good s.drivers s.next ([] ++ s.images) := good
              obtain ⟨t, list, read, same, after⟩ := openLines_good fresh every (.inr (List.cons_ne_nil _ _))
              obtain ⟨t', list', done, opened, same', after', full⟩ :=
                openParents_good after (harmless_of_all (by rw [same.all]; exact parents)) chain.ends
              have done := (full (by rw [same.all]; exact parents)).trans ends
              simp only [Sharing.openXChain, lines, read, opened, done]
              exact after'.concat (same'.vbds ▸ same.vbds ▸ small)
          · next closed =>
              have fresh : Good s.drivers s.next ([] ++ s.images) := good
              rcases imageOpen_cases fresh meets with ⟨_, failed⟩ | ⟨opens, _⟩
              · simp only [Sharing.openXChain, lines, openLines, failed]
                exact good
              · exact absurd opens closed

theorem Good.step {e : Event ν} (good : Good s.drivers s.next s.images) (meets : Meets s e)
    (action : step s e = some t) : Good t.drivers t.next t.images := by
  cases e with
  | vbd =>
      cases action
      have same : queued (Function.update s.chains s.vbds []) (s.vbds + 1) = queued s.chains s.vbds := by
        simp only [queued, List.range_succ, List.flatMap_append, List.flatMap_singleton, Function.update_self,
          List.append_nil]
        apply List.flatMap_congr
        intro v member
        exact Function.update_of_ne (Nat.ne_of_lt (List.mem_range.mp member)) _ _
      change Good s.drivers s.next (queued (Function.update s.chains s.vbds []) (s.vbds + 1) ++ s.others)
      rw [same]
      exact good
  | openImage spec =>
      have fresh : Good s.drivers s.next ([] ++ s.images) := good
      rcases imageOpen_cases fresh meets with ⟨_, failed⟩ | ⟨_, t', image, opened, same, after⟩
      · simp only [Sharing.step, failed] at action
        cases action
        exact good
      · simp only [Sharing.step, opened] at action
        cases action
        have perm : (image :: (queued t'.chains t'.vbds ++ t'.others)).Perm
            (queued t'.chains t'.vbds ++ image :: t'.others) := List.perm_middle.symm
        exact after.perm perm
  | closeImage i =>
      obtain ⟨image, found, action⟩ := Option.map_eq_some_iff.mp action
      subst action
      obtain ⟨inside, here⟩ := List.getElem?_eq_some_iff.mp found
      have perm : s.others.Perm (image :: s.others.eraseIdx i) := by
        have removed := (List.getElem_cons_eraseIdx_perm inside).symm
        rwa [here] at removed
      have before : Good s.drivers s.next
          (image :: ({ s with others := s.others.eraseIdx i } : State ν).images) :=
        good.perm ((perm.append_left _).trans List.perm_middle)
      have after := Good.imageClose (s := { s with others := s.others.eraseIdx i }) before
      have images : (Sharing.imageClose { s with others := s.others.eraseIdx i } image).images =
          ({ s with others := s.others.eraseIdx i } : State ν).images :=
        (closeChain_lists { s with others := s.others.eraseIdx i } [image]).images
      rw [images]
      exact after
  | openChain v chain =>
      simp only [Sharing.step] at action
      split at action
      · cases action
        exact good.openChain ‹_› meets
      · cases action
  | openXChain v chain =>
      simp only [Sharing.step] at action
      split at action
      · cases action
        exact good.openXChain ‹_› meets
      · cases action
  | closeChain v =>
      simp only [Sharing.step] at action
      split at action
      · next small =>
          cases action
          have others : ∀ i, i ≠ v → Function.update s.chains v [] i = s.chains i := fun i other =>
            Function.update_of_ne other _ _
          obtain ⟨rest, before, after⟩ := queued_perm small others
          rw [Function.update_self, List.nil_append] at after
          apply Good.unwind (s := { s with chains := Function.update s.chains v [] })
          apply good.perm
          refine (before.append_right s.others).trans ?_
          rw [List.append_assoc]
          exact (after.symm.append_right s.others).append_left _
      · cases action

end Operations

section Runs
variable {s : State ν}

omit [DecidableEq ν] in
theorem Good.sound (good : Good s.drivers s.next s.images) : Sound s where
  counted := fun d small => (good.right d small).counted
  opened := by
    intro d small
    have right := good.right d small
    rw [right.opened, right.counted]
    exact Int.natCast_pos.symm
  once := by
    intro d small
    have right := good.right d small
    rw [right.once, right.counted]
    simp only [Int.natCast_eq_zero]
  live := by
    intro image member
    have small := good.known image member
    refine ⟨small, ?_⟩
    by_contra freed
    have none := (good.right image.driver small).live (by simpa using freed)
    exact List.countP_eq_zero.mp none image member (decide_eq_true rfl)

end Runs

def plain : Spec Nat := ⟨0, 0, false, true, true, true⟩

end Blktap.Tapdisk.Sharing
