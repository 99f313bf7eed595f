import Blktap.Lvm.LvmUtil
import Mathlib.Data.List.Forall2
import Mathlib.Data.List.Perm.Basic

/-!
# What `vgs` and `lvs` list
-/

namespace Blktap.Lvm
open Lib Scanf

structure Segment where
  start : Nat
  size : Nat
  devices : Text

structure Volume where
  name : Text
  size : Nat
  type : Text
  firstSize : Nat
  firstDevices : Text
  others : List Segment

structure Group where
  name : Text
  extentSize : Nat
  pvs : List Pv
  volumes : List Volume

def Volume.first (v : Volume) : Segment := ⟨0, v.firstSize, v.firstDevices⟩

def Volume.segments (v : Volume) : List Segment := v.first :: v.others

def column (t : Text) : List Text := if t = [] then [] else [t]

def Volume.columns (v : Volume) (s : Segment) : List Text :=
  [v.name, decimal v.size, v.type, decimal v.segments.length, decimal s.start, decimal s.size] ++ column s.devices

def Group.columns (g : Group) (pv : Pv) : List Text :=
  [g.name, decimal g.extentSize, decimal g.volumes.length, decimal g.pvs.length, pv.name, decimal pv.start]

def Group.segments (g : Group) : List (Volume × Segment) := g.volumes.flatMap fun v => v.segments.map (v, ·)

def isLinear (v : Volume) : Prop := v.type = "linear".toList

instance (v : Volume) : Decidable (isLinear v) := inferInstanceAs (Decidable (_ = _))

structure OnPv (g : Group) (devices : Text) (pv : Pv) (extent : Nat) : Prop where
  listed : pv ∈ g.pvs
  shown : ∃ more, devices = pv.name ++ '(' :: (decimal extent ++ ')' :: more)
  small : extent < 2 ^ 64
  place : extent * g.extentSize + pv.start < 2 ^ 64

structure IsName (name : Text) : Prop where
  word : IsWord name
  short : name.length + 1 < maxNameSize

structure Segment.Fine (s : Segment) : Prop where
  start : s.start < 2 ^ 64
  size : s.size < 2 ^ 64
  devices : s.devices = [] ∨ IsWord s.devices

structure Volume.Fine (v : Volume) : Prop where
  name : IsName v.name
  size : v.size < 2 ^ 64
  type : IsWord v.type
  short : v.type.length ≤ 31
  count : v.segments.length < 2 ^ 32
  segment : ∀ s ∈ v.segments, s.Fine
  other : ∀ s ∈ v.others, s.start ≠ 0

/-- A volume group whose numbers and names have the size of their fields -/
structure Group.Fine (g : Group) : Prop where
  name : IsName g.name
  extentSize : g.extentSize < 2 ^ 64
  some : g.pvs ≠ []
  pvCount : g.pvs.length < 2 ^ 31
  pv : ∀ pv ∈ g.pvs, IsName pv.name ∧ pv.start < 2 ^ 64 - 1
  apart : (g.pvs.map Pv.name).Nodup
  count : g.volumes.length < 2 ^ 31
  volume : ∀ v ∈ g.volumes, v.Fine
  linear : ∀ v ∈ g.volumes, isLinear v → ∃ pv extent, OnPv g v.firstDevices pv extent

structure Listing (g : Group) where
  pvs : List Pv
  pvLines : List Text
  segments : List (Volume × Segment)
  lines : List Text
  pvsPerm : pvs.Perm g.pvs
  pvsShown : List.Forall₂ (fun pv l => Renders (g.columns pv) l) pvs pvLines
  perm : segments.Perm g.segments
  shown : List.Forall₂ (fun s l => Renders (s.1.columns s.2) l) segments lines

namespace Listing
variable {g : Group} (l : Listing g)

def vgs : Text := asText l.pvLines

def lvs : Text := asText l.lines

def Short : Prop := ∀ line ∈ l.pvLines ++ l.lines, line.length ≤ 1023

end Listing

structure Shown (g : Group) (v : Volume) (lv : Lv) : Prop where
  name : lv.name = v.name
  size : lv.size = v.size
  segments : lv.segments = v.segments.length
  type : lv.firstSegment.type = if isLinear v then .linear else .unknown
  peSize : lv.firstSegment.peSize = v.firstSize
  place : isLinear v → ∀ pv extent, OnPv g v.firstDevices pv extent →
    lv.firstSegment.device = pv.name ∧ lv.firstSegment.peStart = extent * g.extentSize + pv.start

structure Scanned (g : Group) (vg : Vg) : Prop where
  name : vg.name = g.name
  extentSize : vg.extentSize = g.extentSize
  pvs : ∃ pvs, vg.pvs = some pvs ∧ vg.pvCnt = pvs.length ∧ pvs.Perm g.pvs
  lvs : ∃ lvs order, vg.lvs = some lvs ∧ vg.lvCnt = lvs.length ∧ order.Perm g.volumes ∧
    List.Forall₂ (Shown g) order lvs

structure Placed (g : Group) : Prop where
  pv : ∀ pv ∈ g.pvs, ∀ c ∈ pv.name, c ≠ ',' ∧ c ≠ '(' ∧ c ≠ ')'
  first : ∀ v ∈ g.volumes, ∃ pv extent, OnPv g v.firstDevices pv extent
  other : ∀ v ∈ g.volumes, ∀ s ∈ v.others, s.devices ≠ []

section Rows
variable {g : Group} {v : Volume} {s : Segment} {pv : Pv} {l : Text}

theorem scanVgs_columns (fine : g.Fine) (member : pv ∈ g.pvs) (shown : Renders (g.columns pv) l) :
    scanVgs l = some ⟨g.name, g.extentSize, g.volumes.length, g.pvs.length, pv.name, pv.start⟩ := by
  obtain ⟨name, start⟩ := fine.pv pv member
  have groupShort := fine.name.short
  have short := name.short
  unfold maxNameSize at groupShort short
  obtain ⟨l₁, one, shown⟩ := @word_renders _ _ _ 255 shown (by omega)
  obtain ⟨l₂, two, shown⟩ := unsigned_renders shown fine.extentSize
  obtain ⟨l₃, three, shown⟩ := signed32_renders shown fine.count
  obtain ⟨l₄, four, shown⟩ := signed32_renders shown fine.pvCount
  obtain ⟨l₅, five, shown⟩ := @word_renders _ _ _ 255 shown (by omega)
  obtain ⟨l₆, six, -⟩ := unsigned_renders shown (by omega)
  simp only [scanVgs, one, two, three, four, five, six, Option.bind_eq_bind, Option.bind_some]

theorem scanLvsRow_columns (fine : v.Fine) (member : s ∈ v.segments) (full : s.devices ≠ [])
    (shown : Renders (v.columns s) l) (short : l.length ≤ 1023) :
    scanLvsRow l = some ⟨v.name, v.size, v.type, v.segments.length, s.start, s.size, s.devices⟩ := by
  have segment := fine.segment s member
  have nameShort := fine.name.short
  unfold maxNameSize at nameShort
  rw [Volume.columns, column, if_neg full] at shown
  obtain ⟨l₁, one, shown₁⟩ := @word_renders _ _ _ 255 shown (by omega)
  obtain ⟨l₂, two, shown₂⟩ := unsigned_renders shown₁ fine.size
  obtain ⟨l₃, three, shown₃⟩ := @word_renders _ _ _ 31 shown₂ fine.short
  obtain ⟨l₄, four, shown₄⟩ := unsigned32_renders shown₃ fine.count
  obtain ⟨l₅, five, shown₅⟩ := unsigned_renders shown₄ segment.start
  obtain ⟨l₆, six, shown₆⟩ := unsigned_renders shown₅ segment.size
  have room : s.devices.length ≤ 1023 := (column_length shown (List.mem_append_right _ List.mem_cons_self)).trans short
  obtain ⟨l₇, seven, -⟩ := @word_renders _ _ _ 1023 shown₆ room
  simp only [scanLvsRow, one, two, three, four, five, six, seven, Option.bind_eq_bind, Option.bind_some]

end Rows

theorem exists_of_forall₂ {α β : Type} {R : α → β → Prop} {xs : List α} {ys : List β} (all : List.Forall₂ R xs ys)
    {y : β} (member : y ∈ ys) : ∃ x ∈ xs, R x y := by
  induction all with
  | nil => cases member
  | cons first _ ih =>
      rcases List.mem_cons.mp member with rfl | behind
      · exact ⟨_, List.mem_cons_self, first⟩
      · obtain ⟨x, inside, related⟩ := ih behind
        exact ⟨x, List.mem_cons_of_mem _ inside, related⟩

section Open
variable {g : Group} {pvs : List Pv} {ls : List Text}

def entries (pvs : List Pv) (n : Nat) : List Pv := pvs ++ List.replicate n ⟨[], 0⟩

theorem placePv_entries {name : Text} (start : Nat) {n : Nat} (short : name.length + 1 < maxNameSize)
    (named : ∀ pv ∈ pvs, pv.name ≠ []) (fresh : ∀ pv ∈ pvs, pv.name ≠ name) :
    placePv name start (pvs.length + (n + 1)) (entries pvs (n + 1)) = .ok (entries (pvs ++ [⟨name, start⟩]) n) := by
  induction pvs with
  | nil =>
      have copied : copyName name = .ok name := if_neg (by omega)
      simp only [entries, List.length_nil, Nat.zero_add, List.nil_append, List.replicate_succ, placePv, if_true, copied,
        Outcome.ok_bind, List.cons_append]
  | cons pv pvs ih =>
      have rest := ih (fun pv member => named pv (List.mem_cons_of_mem _ member))
        (fun pv member => fresh pv (List.mem_cons_of_mem _ member))
      have length : (pv :: pvs).length + (n + 1) = (pvs.length + (n + 1)) + 1 := by
        rw [List.length_cons]
        omega
      rw [length]
      change placePv name start _ (pv :: entries pvs (n + 1)) = _
      rw [placePv, if_neg (named pv List.mem_cons_self), if_neg (fresh pv List.mem_cons_self), rest]
      rfl

def afterPvs (g : Group) : List Pv → Option (VgsRow × List Pv)
  | [] => none
  | pv :: pvs =>
      let last := (pv :: pvs).getLast (List.cons_ne_nil _ _)
      some (⟨g.name, g.extentSize, g.volumes.length, g.pvs.length, last.name, last.start⟩,
        entries (pv :: pvs) (g.pvs.length - (pvs.length + 1)))

theorem afterPvs_append (done : List Pv) (pv : Pv) : afterPvs g (done ++ [pv]) =
    some (⟨g.name, g.extentSize, g.volumes.length, g.pvs.length, pv.name, pv.start⟩,
      entries (done ++ [pv]) (g.pvs.length - (done.length + 1))) := by
  cases done with
  | nil => rfl
  | cons first done => simp [afterPvs]

theorem afterPvs_all (full : pvs ≠ []) (length : pvs.length = g.pvs.length) : ∃ name start, afterPvs g pvs =
    some (⟨g.name, g.extentSize, g.volumes.length, g.pvs.length, name, start⟩, pvs) := by
  cases pvs with
  | nil => exact absurd rfl full
  | cons pv pvs =>
      have none : g.pvs.length - (pvs.length + 1) = 0 := by
        rw [List.length_cons] at length
        omega
      have all : entries (pv :: pvs) 0 = pv :: pvs := by simp [entries]
      refine ⟨((pv :: pvs).getLast full).name, ((pv :: pvs).getLast full).start, ?_⟩
      rw [afterPvs, none, all]

theorem parsePv_after (fine : g.Fine) (done : List Pv) {pv : Pv} {rest : List Pv}
    (perm : (done ++ pv :: rest).Perm g.pvs) :
    parsePv ((afterPvs g done).map Prod.snd) ⟨g.name, g.extentSize, g.volumes.length, g.pvs.length, pv.name, pv.start⟩ =
      .ok (entries (done ++ [pv]) (g.pvs.length - (done.length + 1))) := by
  have member : ∀ other ∈ done ++ pv :: rest, other ∈ g.pvs := fun _ => perm.mem_iff.mp
  have here := fine.pv pv (member pv (List.mem_append_right _ List.mem_cons_self))
  have apart : ((done ++ pv :: rest).map Pv.name).Nodup := (perm.map Pv.name).nodup_iff.mpr fine.apart
  have named : ∀ pv ∈ done, pv.name ≠ [] := fun pv inside =>
    (fine.pv pv (member pv (List.mem_append_left _ inside))).1.word.some
  have fresh : ∀ other ∈ done, other.name ≠ pv.name := fun other inside same => by
    rw [List.map_append, List.map_cons] at apart
    exact (List.nodup_append.mp apart).2.2 _ (List.mem_map_of_mem inside) _ List.mem_cons_self same
  have length := perm.length_eq
  rw [List.length_append, List.length_cons] at length
  obtain ⟨n, whole⟩ : ∃ n, g.pvs.length = done.length + (n + 1) := ⟨rest.length, by omega⟩
  have left : g.pvs.length - (done.length + 1) = n := by omega
  have placed := placePv_entries pv.start (n := n) here.1.short named fresh
  rw [← whole] at placed
  cases done with
  | nil =>
      have start : List.replicate (g.pvs.length : Int).toNat (⟨[], 0⟩ : Pv) = entries [] (n + 1) := by
        rw [Int.toNat_natCast, whole, List.length_nil, Nat.zero_add]
        rfl
      simp only [afterPvs, Option.map_none, parsePv]
      rw [if_neg (by omega), if_neg (by omega), start, Int.toNat_natCast, placed, left]
  | cons first done =>
      have room : g.pvs.length - (done.length + 1) = n + 1 := by
        rw [List.length_cons] at whole
        omega
      simp only [afterPvs, Option.map_some, parsePv]
      rw [if_neg (by omega), Int.toNat_natCast, room, placed, left]

theorem openLoop_listed (fine : g.Fine) (done : List Pv) (perm : (done ++ pvs).Perm g.pvs)
    (shown : List.Forall₂ (fun pv l => Renders (g.columns pv) l) pvs ls) :
    openLoop g.name (ls.map fun l => ⟨l, true⟩) (afterPvs g done) = .ok (afterPvs g (done ++ pvs)) := by
  induction shown generalizing done with
  | nil =>
      rw [List.append_nil]
      rfl
  | @cons pv l pvs ls first _ ih =>
      have member : pv ∈ g.pvs := perm.mem_iff.mp (List.mem_append_right _ List.mem_cons_self)
      have next := ih (done ++ [pv]) (by rwa [List.append_assoc])
      rw [List.map_cons, openLoop, scanVgs_columns fine member first]
      dsimp only
      rw [if_neg (not_not.mpr rfl), parsePv_after fine done perm, Outcome.ok_bind, if_pos rfl, ← afterPvs_append, next,
        List.append_assoc]
      rfl

theorem checkPvs_named {n : Nat} (named : ∀ pv ∈ pvs, pv.name ≠ []) (length : pvs.length = n) :
    checkPvs n pvs = .ok () := by
  induction pvs generalizing n with
  | nil =>
      subst length
      rfl
  | cons pv pvs ih =>
      subst length
      rw [List.length_cons, checkPvs, if_neg (named pv List.mem_cons_self)]
      exact ih (fun pv member => named pv (List.mem_cons_of_mem _ member)) rfl

theorem openVg_listed (fine : g.Fine) (l : Listing g) (short : l.Short) : openVg g.name l.vgs =
    .ok ⟨g.name, g.extentSize, g.pvs.length, some l.pvs, g.volumes.length, some []⟩ := by
  have isLine : ∀ line ∈ l.pvLines, IsLine 1023 line := by
    intro line member
    obtain ⟨pv, -, shown⟩ := exists_of_forall₂ l.pvsShown member
    exact shown.isLine (List.cons_ne_nil _ _) (short line (List.mem_append_left _ member))
  have run := openLoop_listed fine [] l.pvsPerm l.pvsShown
  have length := l.pvsPerm.length_eq
  have named : ∀ pv ∈ l.pvs, pv.name ≠ [] := fun pv member =>
    (fine.pv pv (l.pvsPerm.mem_iff.mp member)).1.word.some
  unfold openVg Listing.vgs readLines
  rw [lines_asText isLine]
  change openLoop g.name _ (afterPvs g []) >>= _ = _
  have full : l.pvs ≠ [] := fun empty => fine.some (List.length_eq_zero_iff.mp (by rw [← length, empty]; rfl))
  obtain ⟨name, start, after⟩ := afterPvs_all full length
  rw [run, Outcome.ok_bind, List.nil_append, after]
  dsimp only
  rw [Int.toNat_natCast, checkPvs_named named length, Outcome.ok_bind, if_neg (by omega)]

end Open

section Scan
variable {g : Group} {vg : Vg} {v : Volume} {pv : Pv} {extent : Nat} {devices : Text} {ls : List Text}

structure Holds (g : Group) (vg : Vg) : Prop where
  extentSize : vg.extentSize = g.extentSize
  pvs : ∃ pvs, vg.pvs = some pvs ∧ vg.pvCnt = pvs.length ∧ pvs.Perm g.pvs
  lvCnt : vg.lvCnt = g.volumes.length

theorem find_pv (fine : g.Fine) (member : pv ∈ g.pvs) {pvs : List Pv} (perm : pvs.Perm g.pvs) :
    pvs.find? (·.name = pv.name) = some pv := by
  have apart : (pvs.map Pv.name).Nodup := (perm.map Pv.name).nodup_iff.mpr fine.apart
  have here : pv ∈ pvs := perm.mem_iff.mpr member
  clear perm
  induction pvs with
  | nil => cases here
  | cons other pvs ih =>
      rw [List.map_cons, List.nodup_cons] at apart
      by_cases same : other.name = pv.name
      · rcases List.mem_cons.mp here with rfl | behind
        · exact List.find?_cons_of_pos (decide_eq_true same)
        · exact absurd (List.mem_map_of_mem behind) (same ▸ apart.1)
      · rw [List.find?_cons_of_neg (by simpa using same)]
        refine ih apart.2 ((List.mem_cons.mp here).resolve_left fun first => same ?_)
        rw [first]

theorem blanked_plain {t : Text} (plain : ∀ c ∈ t, c ≠ ',' ∧ c ≠ '(' ∧ c ≠ ')') : blanked t = t := by
  refine (List.map_congr_left fun c member => ?_).trans (List.map_id t)
  have other := plain c member
  exact if_neg fun same => by
    rcases same with comma | opened | closed
    · exact other.1 comma
    · exact other.2.1 opened
    · exact other.2.2 closed

theorem blanked_decimal (n : Nat) : blanked (decimal n) = decimal n := by
  refine blanked_plain fun c member => ?_
  have digit := @decimal_digits n c member
  refine ⟨?_, ?_, ?_⟩
  all_goals
    rintro rfl
    exact absurd digit (by decide)

theorem parseLvDevices_onPv (fine : g.Fine) (placed : Placed g) (holds : Holds g vg) (onPv : OnPv g devices pv extent) :
    parseLvDevices vg devices = .ok (pv.name, extent * g.extentSize + pv.start) := by
  obtain ⟨listed, ⟨more, rfl⟩, small, place⟩ := onPv
  obtain ⟨isName, start⟩ := fine.pv pv listed
  obtain ⟨pvs, array, count, perm⟩ := holds.pvs
  have short := isName.short
  unfold maxNameSize at short
  have text : blanked (pv.name ++ '(' :: (decimal extent ++ ')' :: more)) =
      [] ++ (pv.name ++ ([' '] ++ (decimal extent ++ ' ' :: blanked more))) := by
    simp only [blanked, List.map_append, List.map_cons]
    change blanked pv.name ++ ' ' :: (blanked (decimal extent) ++ ' ' :: blanked more) = _
    rw [blanked_plain (placed.pv pv listed), blanked_decimal]
    rfl
  have first : word 255 (blanked (pv.name ++ '(' :: (decimal extent ++ ')' :: more))) =
      some (pv.name, [' '] ++ (decimal extent ++ ' ' :: blanked more)) := by
    rw [text]
    exact word_eq nofun isName.word (by omega) (fun c here => (Option.some.inj here).symm)
  have second : unsigned ([' '] ++ (decimal extent ++ ' ' :: blanked more)) = some (extent, ' ' :: blanked more) :=
    unsigned_eq (fun c member => List.mem_singleton.mp member) (fun c here => (Option.some.inj here).symm) small
  have found : ((pvs.take vg.pvCnt.toNat).find? (·.name = pv.name)) = some pv := by
    rw [count, Int.toNat_natCast, List.take_length]
    exact find_pv fine listed perm
  have value : (extent * vg.extentSize + pv.start) % 2 ^ 64 = extent * g.extentSize + pv.start := by
    rw [holds.extentSize]
    exact Nat.mod_eq_of_lt place
  unfold parseLvDevices
  rw [first, Option.bind_some]
  dsimp only
  rw [second, Option.map_some]
  dsimp only
  rw [array, Option.getD_some, found, Option.map_some, Option.getD_some, if_neg (by omega), value]

def firsts (rows : List (Volume × Segment)) : List Volume := (rows.filter (·.2.start = 0)).map Prod.fst

structure IsRow (g : Group) (row : Volume × Segment) : Prop where
  volume : row.1 ∈ g.volumes
  segment : row.2 ∈ row.1.segments

theorem isRow_of_mem {row : Volume × Segment} (member : row ∈ g.segments) : IsRow g row := by
  obtain ⟨v, volume, inside⟩ := List.mem_flatMap.mp member
  obtain ⟨s, segment, rfl⟩ := List.mem_map.mp inside
  exact ⟨volume, segment⟩

theorem firsts_segments (fine : g.Fine) : firsts g.segments = g.volumes := by
  have each : ∀ volumes : List Volume, (∀ v ∈ volumes, v.Fine) →
      firsts (volumes.flatMap fun v => v.segments.map (v, ·)) = volumes := by
    intro volumes fine
    induction volumes with
    | nil => rfl
    | cons v volumes ih =>
        have rest := ih fun v member => fine v (List.mem_cons_of_mem _ member)
        have others : (v.others.map (v, ·)).filter (·.2.start = 0) = [] := by
          rw [List.filter_eq_nil_iff]
          intro row member
          obtain ⟨s, inside, rfl⟩ := List.mem_map.mp member
          simpa using (fine v List.mem_cons_self).other s inside
        have mine : firsts (v.segments.map (v, ·)) = [v] := by
          unfold firsts Volume.segments
          rw [List.map_cons, List.filter_cons_of_pos (by simp [Volume.first]), others]
          rfl
        rw [List.flatMap_cons, firsts, List.filter_append, List.map_append]
        change firsts _ ++ firsts _ = _
        rw [mine, rest]
        rfl
  exact each g.volumes fine.volume

theorem scanLoop_listed (fine : g.Fine) (placed : Placed g) (holds : Holds g vg) (rows : List (Volume × Segment))
    (lvs : List Lv) (isRow : ∀ row ∈ rows, IsRow g row)
    (shown : List.Forall₂ (fun s l => Renders (s.1.columns s.2) l) rows ls) (short : ∀ l ∈ ls, l.length ≤ 1023)
    (count : lvs.length + (firsts rows).length = g.volumes.length) :
    ∃ list, scanLoop vg (ls.map fun l => ⟨l, true⟩) lvs = .ok (lvs ++ list) ∧
      List.Forall₂ (Shown g) (firsts rows) list := by
  induction shown generalizing lvs with
  | nil => exact ⟨[], by rw [List.append_nil]; rfl, .nil⟩
  | @cons row l rows ls first rest ih =>
      obtain ⟨v, s⟩ := row
      obtain ⟨volume, segment⟩ := isRow (v, s) List.mem_cons_self
      have behind : ∀ row ∈ rows, IsRow g row := fun row member => isRow row (List.mem_cons_of_mem _ member)
      have shorts : ∀ l ∈ ls, l.length ≤ 1023 := fun l member => short l (List.mem_cons_of_mem _ member)
      rw [List.map_cons, scanLoop]
      by_cases done : vg.lvCnt ≤ lvs.length
      · rw [if_pos done]
        have none : firsts ((v, s) :: rows) = [] := by
          rw [holds.lvCnt] at done
          exact List.length_eq_zero_iff.mp (by omega)
        exact ⟨[], by rw [List.append_nil], by rw [none]; exact .nil⟩
      rw [if_neg done]
      have fineV := fine.volume v volume
      by_cases zero : s.start = 0
      · -- only the first segment begins at 0
        have isFirst : s = v.first := by
          rcases List.mem_cons.mp segment with same | other
          · exact same
          · exact absurd zero (fineV.other s other)
        obtain ⟨pv, extent, onPv⟩ := placed.first v volume
        have devices : s.devices ≠ [] := by
          obtain ⟨more, shown⟩ := onPv.shown
          rw [isFirst, Volume.first, shown]
          exact List.append_ne_nil_of_right_ne_nil _ (List.cons_ne_nil _ _)
        have names : firsts ((v, s) :: rows) = v :: firsts rows := by
          simp [firsts, zero]
        have copied : copyName v.name = .ok v.name := by
          have := fineV.name.short
          exact if_neg (by omega)
        let lv : Lv := ⟨v.name, v.size, v.segments.length,
          segType v.type, pv.name, extent * g.extentSize + pv.start, v.firstSize⟩
        obtain ⟨list, run, all⟩ := ih (lvs ++ [lv]) behind shorts (by
          rw [names, List.length_cons] at count
          rw [List.length_append, List.length_singleton]
          omega)
        refine ⟨lv :: list, ?_, ?_⟩
        · have row := scanLvsRow_columns fineV segment devices first (short l List.mem_cons_self)
          rw [row]
          dsimp only
          rw [if_neg (not_not.mpr zero), isFirst]
          dsimp only [Volume.first]
          rw [parseLvDevices_onPv fine placed holds onPv, Outcome.ok_bind]
          dsimp only
          rw [copied, Outcome.ok_bind, if_pos rfl, run, List.append_assoc]
          rfl
        · rw [names]
          refine .cons ⟨rfl, rfl, rfl, rfl, rfl, fun _ pv' extent' onPv' => ?_⟩ all
          have one := parseLvDevices_onPv fine placed holds onPv
          have two := parseLvDevices_onPv fine placed holds onPv'
          rw [one] at two
          exact ⟨congrArg Prod.fst (Outcome.ok.inj two), congrArg Prod.snd (Outcome.ok.inj two)⟩
      · have other : s ∈ v.others := by
          rcases List.mem_cons.mp segment with same | other
          · exact absurd (congrArg Segment.start same) zero
          · exact other
        have names : firsts ((v, s) :: rows) = firsts rows := by
          simp [firsts, zero]
        rw [names] at count ⊢
        obtain ⟨list, run, all⟩ := ih lvs behind shorts count
        refine ⟨list, ?_, all⟩
        rw [scanLvsRow_columns fineV segment (placed.other v volume s other) first (short l List.mem_cons_self)]
        dsimp only
        rw [if_pos zero, if_pos rfl, run]

theorem lvmScanVg_listed (fine : g.Fine) (placed : Placed g) (l : Listing g) (short : l.Short) :
    ∃ vg, lvmScanVg g.name l.vgs l.lvs = some (vg, 0) ∧ Scanned g vg := by
  have opened : lvmOpenVg g.name l.vgs =
      some (⟨g.name, g.extentSize, g.pvs.length, some l.pvs, g.volumes.length, some []⟩, 0) := by
    rw [lvmOpenVg, openVg_listed fine l short]
  have length := l.pvsPerm.length_eq
  have holds : Holds g ⟨g.name, g.extentSize, g.pvs.length, some l.pvs, g.volumes.length, some []⟩ :=
    ⟨rfl, ⟨l.pvs, rfl, by rw [length], l.pvsPerm⟩, rfl⟩
  have isRow : ∀ row ∈ l.segments, IsRow g row := fun row member => isRow_of_mem (l.perm.mem_iff.mp member)
  have shorts : ∀ line ∈ l.lines, line.length ≤ 1023 := fun line member => short line (List.mem_append_right _ member)
  have isLine : ∀ line ∈ l.lines, IsLine 1023 line := by
    intro line member
    obtain ⟨row, -, shown⟩ := exists_of_forall₂ l.shown member
    exact shown.isLine (List.append_ne_nil_of_left_ne_nil (List.cons_ne_nil _ _) _) (shorts line member)
  have order : (firsts l.segments).Perm g.volumes := by
    rw [← firsts_segments fine]
    exact (l.perm.filter _).map _
  obtain ⟨list, run, all⟩ := scanLoop_listed fine placed holds l.segments [] isRow l.shown shorts (by
    rw [order.length_eq]
    exact Nat.zero_add _)
  refine ⟨⟨g.name, g.extentSize, g.pvs.length, some l.pvs, list.length, some list⟩, ?_, rfl, rfl,
    ⟨l.pvs, rfl, by rw [length], l.pvsPerm⟩, list, firsts l.segments, rfl, rfl, order, all⟩
  unfold lvmScanVg Listing.lvs readLines
  rw [opened]
  dsimp only
  rw [if_neg (not_not.mpr rfl), lines_asText isLine, run]
  rfl

end Scan

end Blktap.Lvm
