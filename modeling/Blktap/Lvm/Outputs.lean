import Blktap.Lvm.Listing

/-! # Any output -/

namespace Blktap.Lvm
open Lib Scanf

def Agree (vgs : Text) : Prop :=
  ∃ n : Int, ∀ line ∈ readLines vgs, ∀ row ∈ scanVgs line.text, row.pvs = n

def pvsOf (rows : List VgsRow) : List Pv := rows.map fun row => ⟨row.pvname, row.pvStart⟩

structure Kept (vg : Vg) (pvs : List Pv) (row : LvsRow) (lv : Lv) : Prop where
  name : lv.name = row.name
  size : lv.size = row.size
  segments : lv.segments = row.segs
  type : lv.firstSegment.type = segType row.type
  device : ∃ pv ∈ pvs, lv.firstSegment.device = pv.name ∧
    ∃ extent, lv.firstSegment.peStart = (extent * vg.extentSize + pv.start) % 2 ^ 64

structure VgsAccepted (vgname : Text) (ls : List Line) (rows : List VgsRow) : Prop where
  columns : ls.map (scanVgs ·.text) = rows.map some
  name : ∀ row ∈ rows, row.name = vgname ∧ row.pvs = rows.length
  apart : (rows.map VgsRow.pvname).Nodup

structure LvsAccepted (vg : Vg) (pvs : List Pv) (count : Int) (ls : List Line) (lvs : List Lv) : Prop where
  read : ∃ (read rest : List Line) (rows : List LvsRow), ls = read ++ rest ∧
    read.map (scanLvsRow ·.text) = rows.map some ∧ (∀ line ∈ read, line.ended = true) ∧
    List.Forall₂ (Kept vg pvs) (rows.filter (·.segStart = 0)) lvs ∧ (rest = [] ∨ count ≤ lvs.length)

def Accepted (vgname vgs lvs : Text) (vg : Vg) : Prop :=
  ∃ (rows : List VgsRow) (list : List Lv) (last : VgsRow), VgsAccepted vgname (readLines vgs) rows ∧ last ∈ rows ∧
    vg.name = vgname ∧ vg.extentSize = last.size ∧ vg.pvs = some (pvsOf rows) ∧ vg.pvCnt = rows.length ∧
    vg.lvs = some list ∧ vg.lvCnt = list.length ∧ LvsAccepted vg (pvsOf rows) last.lvs (readLines lvs) list

def Fails {α : Type} (x : Outcome α) : Prop := ∃ code, x = .error code ∧ code < 0

theorem Fails.bind {α β : Type} {x : Outcome α} (f : α → Outcome β) (fails : Fails x) : Fails (x >>= f) := by
  obtain ⟨code, rfl, negative⟩ := fails
  exact ⟨code, rfl, negative⟩

theorem fails_einval {α : Type} : Fails (.error (-einval) : Outcome α) := ⟨_, rfl, by decide⟩

section Vgs
variable {vgname name : Text} {pvs : List Pv} {start m : Nat} {n : Int} {ls : List Line}

theorem set_some {p : Char → Bool} {width : Nat} {t w rest : Text} (run : Scanf.set p width t = some (w, rest)) :
    w ≠ [] := by
  unfold Scanf.set at run
  dsimp only at run
  split at run
  · cases run
  · rename_i full
    cases run
    exact full

theorem scanVgs_named {line : Text} {row : VgsRow} (run : scanVgs line = some row) : row.pvname ≠ [] := by
  simp only [scanVgs, Option.bind_eq_bind, Option.bind_eq_some_iff] at run
  obtain ⟨_, _, _, _, _, _, _, _, ⟨w, rest⟩, word, _, _, same⟩ := run
  cases same
  exact set_some word

theorem placePv_cases (named : ∀ pv ∈ pvs, pv.name ≠ []) :
    placePv name start (pvs.length + m) (entries pvs m) = .ok (entries (pvs ++ [⟨name, start⟩]) (m - 1)) ∧ 0 < m ∧
        (∀ pv ∈ pvs, pv.name ≠ name) ∨
      Fails (placePv name start (pvs.length + m) (entries pvs m)) := by
  induction pvs with
  | nil =>
      cases m with
      | zero => exact Or.inr ⟨_, rfl, by decide⟩
      | succ m =>
          by_cases long : maxNameSize - 1 ≤ name.length
          · have copied : copyName name = .error (-enametoolong) := if_pos long
            refine Or.inr ⟨-enametoolong, ?_, by decide⟩
            simp only [entries, List.length_nil, Nat.zero_add, List.nil_append, List.replicate_succ, placePv, if_true,
              copied, Outcome.error_bind]
          · refine Or.inl ⟨?_, Nat.succ_pos m, List.forall_mem_nil _⟩
            have placed := @placePv_entries [] name start m (by unfold maxNameSize at long ⊢; omega)
              (List.forall_mem_nil _) (List.forall_mem_nil _)
            exact placed
  | cons pv pvs ih =>
      have rest := ih fun pv member => named pv (List.mem_cons_of_mem _ member)
      have length : (pv :: pvs).length + m = (pvs.length + m) + 1 := by
        rw [List.length_cons]
        omega
      rw [length]
      change (placePv name start (pvs.length + m + 1) (pv :: entries pvs m) = .ok (pv :: entries (pvs ++ _) _) ∧ _) ∨
        Fails (placePv name start (pvs.length + m + 1) (pv :: entries pvs m))
      rw [placePv, if_neg (named pv List.mem_cons_self)]
      by_cases same : pv.name = name
      · exact Or.inr ⟨-eexist, if_pos same, by decide⟩
      rw [if_neg same]
      rcases rest with ⟨placed, room, fresh⟩ | fails
      · refine Or.inl ⟨by rw [placed]; rfl, room, fun other member => ?_⟩
        rcases List.mem_cons.mp member with rfl | behind
        · exact same
        · exact fresh other behind
      · exact Or.inr (fails.bind _)

def afterRows (n : Int) (rows : List VgsRow) : Option (VgsRow × List Pv) :=
  rows.getLast?.map fun row => (row, entries (pvsOf rows) (n.toNat - rows.length))

structure RowsOk (vgname : Text) (n : Int) (rows : List VgsRow) : Prop where
  name : ∀ row ∈ rows, row.name = vgname ∧ row.pvs = n ∧ row.pvname ≠ []
  apart : (rows.map VgsRow.pvname).Nodup
  count : (rows.length : Int) ≤ max n 0

theorem RowsOk.named {rows : List VgsRow} (ok : RowsOk vgname n rows) : ∀ pv ∈ pvsOf rows, pv.name ≠ [] := by
  intro pv member
  obtain ⟨row, inside, rfl⟩ := List.mem_map.mp member
  exact (ok.name row inside).2.2

theorem pvsOf_append (rows : List VgsRow) (row : VgsRow) :
    pvsOf (rows ++ [row]) = pvsOf rows ++ [⟨row.pvname, row.pvStart⟩] := List.map_append

theorem parsePv_eq {rows : List VgsRow} {row : VgsRow} (positive : 0 < n) (same : row.pvs = n) :
    parsePv ((afterRows n rows).map Prod.snd) row =
      placePv row.pvname row.pvStart n.toNat (entries (pvsOf rows) (n.toNat - rows.length)) := by
  cases last : rows.getLast? with
  | none =>
      rw [List.getLast?_eq_none_iff.mp last]
      change parsePv none row = _
      rw [parsePv, same, if_neg (by omega), if_neg (by omega)]
      rfl
  | some other =>
      simp only [afterRows, last, Option.map_some, parsePv]
      rw [same, if_neg (by omega)]

theorem parsePv_cases {rows : List VgsRow} {row : VgsRow} (ok : RowsOk vgname n rows) (name : row.name = vgname)
    (same : row.pvs = n) (named : row.pvname ≠ []) :
    parsePv ((afterRows n rows).map Prod.snd) row =
          .ok (entries (pvsOf (rows ++ [row])) (n.toNat - (rows.length + 1))) ∧ RowsOk vgname n (rows ++ [row]) ∨
      Fails (parsePv ((afterRows n rows).map Prod.snd) row) := by
  have count := ok.count
  by_cases positive : 0 < n
  swap
  · have empty : rows = [] := List.length_eq_zero_iff.mp (by omega)
    refine Or.inr ?_
    rw [empty]
    change Fails (parsePv none row)
    rw [parsePv, same]
    by_cases negative : n < 0
    · exact ⟨-enomem, if_pos negative, by decide⟩
    · rw [if_neg negative, if_pos (by omega)]
      exact ⟨-enoent, rfl, by decide⟩
  rw [parsePv_eq positive same]
  obtain ⟨m, whole⟩ := Nat.le.dest (show rows.length ≤ n.toNat by omega)
  have left : n.toNat - rows.length = m := by omega
  have length : (pvsOf rows).length = rows.length := List.length_map _
  have cases' := @placePv_cases row.pvname (pvsOf rows) row.pvStart m ok.named
  rw [length, whole] at cases'
  rw [left]
  rcases cases' with ⟨placed, room, fresh⟩ | fails
  · refine Or.inl ⟨?_, ?_, ?_, ?_⟩
    · rw [placed, pvsOf_append, show n.toNat - (rows.length + 1) = m - 1 by omega]
    · intro other member
      rcases List.mem_append.mp member with old | new
      · exact ok.name other old
      · rw [List.mem_singleton.mp new]
        exact ⟨name, same, named⟩
    · rw [List.map_append, List.nodup_append]
      refine ⟨ok.apart, List.nodup_cons.mpr ⟨List.not_mem_nil, List.nodup_nil⟩, fun first old second new equal => ?_⟩
      obtain ⟨other, inside, rfl⟩ := List.mem_map.mp old
      rw [List.map_singleton, List.mem_singleton] at new
      exact fresh ⟨other.pvname, other.pvStart⟩ (List.mem_map_of_mem inside) (equal.trans new)
    · rw [List.length_append, List.length_singleton]
      omega
  · exact Or.inr fails

def Ends : List Line → Prop
  | [] => True
  | line :: rest => (line.ended = false → rest = []) ∧ Ends rest

theorem ends_linesFrom (width fuel : Nat) (t : Text) : Ends (linesFrom width fuel t) := by
  induction fuel generalizing t with
  | zero => trivial
  | succ fuel ih =>
      unfold linesFrom
      split
      · trivial
      · split
        · exact ⟨fun _ => rfl, trivial⟩
        · exact ⟨nofun, ih _⟩

theorem openLoop_cases (ends : Ends ls) (same : ∀ line ∈ ls, ∀ row ∈ scanVgs line.text, row.pvs = n)
    (done : List VgsRow) (ok : RowsOk vgname n done) :
    (∃ rows, openLoop vgname ls (afterRows n done) = .ok (afterRows n (done ++ rows)) ∧
        ls.map (scanVgs ·.text) = rows.map some ∧ RowsOk vgname n (done ++ rows)) ∨
      Fails (openLoop vgname ls (afterRows n done)) := by
  induction ls generalizing done with
  | nil => exact Or.inl ⟨[], by rw [List.append_nil]; rfl, rfl, by rwa [List.append_nil]⟩
  | cons line ls ih =>
      rw [openLoop]
      cases columns : scanVgs line.text with
      | none => exact Or.inr fails_einval
      | some row =>
          dsimp only
          by_cases name : row.name = vgname
          swap
          · rw [if_pos name]
            exact Or.inr fails_einval
          rw [if_neg (not_not.mpr name)]
          have count := same line List.mem_cons_self row columns
          rcases parsePv_cases ok name count (scanVgs_named columns) with ⟨placed, next⟩ | fails
          swap
          · exact Or.inr (fails.bind _)
          have after : some (row, entries (pvsOf (done ++ [row])) (n.toNat - (done.length + 1))) =
              afterRows n (done ++ [row]) := by
            rw [afterRows, List.getLast?_concat, Option.map_some, List.length_append, List.length_singleton]
          rw [placed, Outcome.ok_bind, after]
          rcases ih ends.2 (fun line member => same line (List.mem_cons_of_mem _ member)) _ next with
            ⟨rows, run, all, good⟩ | fails
          · refine Or.inl ⟨row :: rows, ?_, by rw [List.map_cons, List.map_cons, columns, all], by
              rwa [List.append_cons]⟩
            cases ended : line.ended with
            | true =>
                rw [if_pos rfl, run, ← List.append_cons]
            | false =>
                have last := ends.1 ended
                subst last
                cases rows with
                | nil => rfl
                | cons => cases all
          · cases ended : line.ended with
            | true => exact Or.inr fails
            | false =>
                have last := ends.1 ended
                subst last
                obtain ⟨code, run, -⟩ := fails
                cases run

theorem checkPvs_cases {done : List Pv} (named : ∀ pv ∈ done, pv.name ≠ []) (m : Nat) :
    checkPvs (done.length + m) (entries done m) = .ok () ∧ m = 0 ∨
      Fails (checkPvs (done.length + m) (entries done m)) := by
  induction done with
  | nil =>
      cases m with
      | zero => exact Or.inl ⟨rfl, rfl⟩
      | succ m =>
          rw [List.length_nil, Nat.zero_add]
          exact Or.inr fails_einval
  | cons pv done ih =>
      have length : (pv :: done).length + m = (done.length + m) + 1 := by
        rw [List.length_cons]
        omega
      rw [length]
      change (checkPvs (done.length + m + 1) (pv :: entries done m) = _ ∧ _) ∨
        Fails (checkPvs (done.length + m + 1) (pv :: entries done m))
      rw [checkPvs, if_neg (named pv List.mem_cons_self)]
      exact ih fun pv member => named pv (List.mem_cons_of_mem _ member)

theorem openVg_cases {vgs : Text} (full : vgname ≠ []) (agree : Agree vgs) :
    (∃ (rows : List VgsRow) (last : VgsRow), VgsAccepted vgname (readLines vgs) rows ∧ last ∈ rows ∧
        openVg vgname vgs = .ok ⟨vgname, last.size, rows.length, some (pvsOf rows), last.lvs, some []⟩) ∨
      Fails (openVg vgname vgs) := by
  obtain ⟨n, same⟩ := agree
  have start : RowsOk vgname n [] := ⟨nofun, List.nodup_nil, Int.le_max_right n 0⟩
  unfold openVg
  rcases openLoop_cases (ends_linesFrom _ _ _) same [] start with ⟨rows, run, columns, ok⟩ | fails
  swap
  · exact Or.inr (fails.bind _)
  rw [List.nil_append] at run ok
  change openLoop vgname (readLines vgs) none = _ at run
  rw [run, Outcome.ok_bind]
  cases ending : rows.getLast? with
  | none =>
      simp only [afterRows, ending, Option.map_none]
      rw [if_pos full]
      exact Or.inr fails_einval
  | some last =>
      have member : last ∈ rows := List.mem_of_getLast? ending
      obtain ⟨name, count, -⟩ := ok.name last member
      have pos := List.length_pos_of_mem member
      have most := ok.count
      obtain ⟨m, whole⟩ := Nat.le.dest (show rows.length ≤ n.toNat by omega)
      have length : (pvsOf rows).length = rows.length := List.length_map _
      have checked := checkPvs_cases ok.named m
      rw [length, whole] at checked
      simp only [afterRows, ending, Option.map_some]
      rw [count, show n.toNat - rows.length = m by omega]
      rcases checked with ⟨checked, rfl⟩ | fails
      swap
      · exact Or.inr (fails.bind _)
      rw [checked, Outcome.ok_bind]
      by_cases negative : last.lvs < 0
      · rw [if_pos negative]
        exact Or.inr ⟨-enomem, rfl, by decide⟩
      · rw [if_neg negative]
        have exact' : n = rows.length := by omega
        refine Or.inl ⟨rows, last, ⟨columns, fun row inside => ?_, ok.apart⟩, member, ?_⟩
        · obtain ⟨name, count, -⟩ := ok.name row inside
          exact ⟨name, count.trans exact'⟩
        · rw [name, exact', entries, List.replicate_zero, List.append_nil]

end Vgs

section Lvs
variable {vg : Vg} {pvs : List Pv} {devices : Text} {lvs : List Lv} {ls : List Line} {row : LvsRow}

theorem parseLvDevices_cases (array : vg.pvs = some pvs) :
    (∃ pv ∈ pvs, ∃ extent, parseLvDevices vg devices =
        .ok (pv.name, (extent * vg.extentSize + pv.start) % 2 ^ 64)) ∨ Fails (parseLvDevices vg devices) := by
  unfold parseLvDevices
  split
  · exact Or.inr fails_einval
  · rename_i device extent _
    rw [array, Option.getD_some]
    dsimp only
    cases found : (pvs.take vg.pvCnt.toNat).find? (·.name = device) with
    | none => exact Or.inr fails_einval
    | some pv =>
        rw [Option.map_some, Option.getD_some]
        split
        · exact Or.inr fails_einval
        · have name : pv.name = device := of_decide_eq_true (List.find?_some found :)
          rw [← name]
          exact Or.inl ⟨pv, List.mem_of_mem_take (List.mem_of_find?_eq_some found), extent, rfl⟩

theorem copyName_cases (name : Text) : copyName name = .ok name ∨ Fails (copyName name) := by
  unfold copyName
  split
  · exact Or.inr ⟨-enametoolong, rfl, by decide⟩
  · exact Or.inl rfl

theorem scanLoop_cases (array : vg.pvs = some pvs) (ls : List Line) (lvs : List Lv) :
    (∃ (read rest : List Line) (rows : List LvsRow) (list : List Lv), scanLoop vg ls lvs = .ok (lvs ++ list) ∧
        ls = read ++ rest ∧ read.map (scanLvsRow ·.text) = rows.map some ∧ (∀ line ∈ read, line.ended = true) ∧
        List.Forall₂ (Kept vg pvs) (rows.filter (·.segStart = 0)) list ∧
        (rest = [] ∨ vg.lvCnt ≤ ((lvs ++ list).length : Nat))) ∨
      Fails (scanLoop vg ls lvs) := by
  induction ls generalizing lvs with
  | nil => exact Or.inl ⟨[], [], [], [], by rw [List.append_nil]; rfl, rfl, rfl, nofun, .nil, Or.inl rfl⟩
  | cons line ls ih =>
      rw [scanLoop]
      by_cases done : vg.lvCnt ≤ lvs.length
      · rw [if_pos done]
        exact Or.inl ⟨[], line :: ls, [], [], by rw [List.append_nil], rfl, rfl, nofun, .nil,
          Or.inr (by rwa [List.append_nil])⟩
      rw [if_neg done]
      cases columns : scanLvsRow line.text with
      | none => exact Or.inr fails_einval
      | some row =>
          dsimp only
          by_cases ended : line.ended = true
          swap
          · -- without a newline behind the line nothing but an error is left
            refine Or.inr ?_
            rw [if_neg ended]
            split
            · exact fails_einval
            · rcases @parseLvDevices_cases vg pvs row.devices array with ⟨pv, _, extent, parsed⟩ | fails
              · rw [parsed, Outcome.ok_bind]
                rcases copyName_cases row.name with copied | fails
                · rw [copied]
                  exact fails_einval
                · exact fails.bind _
              · exact fails.bind _
          by_cases first : row.segStart = 0
          · rw [if_neg (not_not.mpr first)]
            rcases @parseLvDevices_cases vg pvs row.devices array with ⟨pv, inside, extent, parsed⟩ | fails
            swap
            · exact Or.inr (fails.bind _)
            rw [parsed, Outcome.ok_bind]
            dsimp only
            rcases copyName_cases row.name with copied | fails
            swap
            · exact Or.inr (fails.bind _)
            rw [copied, Outcome.ok_bind, if_pos ended]
            rcases ih (lvs ++ [⟨row.name, row.size, row.segs,
              ⟨segType row.type, pv.name, (extent * vg.extentSize + pv.start) % 2 ^ 64, row.peSize⟩⟩]) with
              ⟨read, rest, rows, list, run, whole, all, ends, kept, stop⟩ | fails
            swap
            · exact Or.inr fails
            refine Or.inl ⟨line :: read, rest, row :: rows, _ :: list, by rw [run, List.append_assoc]; rfl,
              by rw [whole]; rfl, by rw [List.map_cons, List.map_cons, columns, all], ?_, ?_, ?_⟩
            · intro other member
              rcases List.mem_cons.mp member with rfl | behind
              · exact ended
              · exact ends other behind
            · rw [List.filter_cons_of_pos (by simpa using first)]
              exact .cons ⟨rfl, rfl, rfl, rfl, pv, inside, rfl, extent, rfl⟩ kept
            · rwa [List.append_assoc] at stop
          · rw [if_pos first, if_pos ended]
            rcases ih lvs with ⟨read, rest, rows, list, run, whole, all, ends, kept, stop⟩ | fails
            swap
            · exact Or.inr fails
            refine Or.inl ⟨line :: read, rest, row :: rows, list, run, by rw [whole]; rfl,
              by rw [List.map_cons, List.map_cons, columns, all], ?_, ?_, stop⟩
            · intro other member
              rcases List.mem_cons.mp member with rfl | behind
              · exact ended
              · exact ends other behind
            · rwa [List.filter_cons_of_neg (by simpa using first)]

end Lvs

theorem lvmScanVg_cases {vgname vgs : Text} (lvs : Text) (full : vgname ≠ []) (agree : Agree vgs) :
    ∃ vg err, lvmScanVg vgname vgs lvs = some (vg, err) ∧
      (err = 0 ∧ Accepted vgname vgs lvs vg ∨ err < 0 ∧ vg = .zero) := by
  unfold lvmScanVg lvmOpenVg
  rcases openVg_cases full agree with ⟨rows, last, accepted, member, opened⟩ | ⟨code, opened, negative⟩
  swap
  · rw [opened]
    dsimp only
    rw [if_pos (Int.ne_of_lt negative)]
    exact ⟨_, _, rfl, Or.inr ⟨negative, rfl⟩⟩
  rw [opened]
  dsimp only
  rw [if_neg (not_not.mpr rfl)]
  let vg : Vg := ⟨vgname, last.size, rows.length, some (pvsOf rows), last.lvs, some []⟩
  have array : vg.pvs = some (pvsOf rows) := rfl
  rcases scanLoop_cases array (readLines lvs) [] with
    ⟨read, rest, lvsRows, list, run, whole, all, ends, kept, stop⟩ | ⟨code, run, negative⟩
  · refine ⟨_, _, by rw [run], Or.inl ⟨rfl, rows, list, last, accepted, member, rfl, rfl, rfl, rfl, rfl, rfl, ?_⟩⟩
    refine ⟨read, rest, lvsRows, whole, all, ends, ?_, stop⟩
    exact kept.imp fun row lv same => ⟨same.name, same.size, same.segments, same.type, same.device⟩
  · exact ⟨_, _, by rw [run], Or.inr ⟨negative, rfl⟩⟩

/-- **LVM scan.** A volume group whose segments are placed is scanned from every listing of it that fits in the line
buffer, and other outputs are rejected unless what was read of them is well formed. -/
theorem lvm_scan :
    (∀ g : Group, g.Fine → Placed g → ∀ l : Listing g, l.Short →
      ∃ vg, lvmScanVg g.name l.vgs l.lvs = some (vg, 0) ∧ Scanned g vg) ∧
    ∀ vgname vgs lvs : Text, vgname ≠ [] → Agree vgs → ∃ vg err, lvmScanVg vgname vgs lvs = some (vg, err) ∧
      (err = 0 ∧ Accepted vgname vgs lvs vg ∨ err < 0 ∧ vg = .zero) :=
  ⟨fun _ fine placed l short => lvmScanVg_listed fine placed l short,
    fun _ _ lvs full agree => lvmScanVg_cases lvs full agree⟩

section Plain
variable {g : Group}

theorem Group.Fine.columns (fine : g.Fine) {pv : Pv} (member : pv ∈ g.pvs) : ∀ w ∈ g.columns pv, IsWord w := by
  intro w inside
  simp only [Group.columns, List.mem_cons, List.not_mem_nil, or_false] at inside
  rcases inside with rfl | rfl | rfl | rfl | rfl | rfl
  · exact fine.name.word
  · exact decimal_isWord _
  · exact decimal_isWord _
  · exact decimal_isWord _
  · exact (fine.pv pv member).1.word
  · exact decimal_isWord _

theorem Volume.Fine.columns {v : Volume} (fine : v.Fine) {s : Segment} (member : s ∈ v.segments) :
    ∀ w ∈ v.columns s, IsWord w := by
  intro w inside
  simp only [Volume.columns, List.mem_append, List.mem_cons, List.not_mem_nil, or_false] at inside
  rcases inside with (rfl | rfl | rfl | rfl | rfl | rfl) | devices
  · exact fine.name.word
  · exact decimal_isWord _
  · exact fine.type
  · exact decimal_isWord _
  · exact decimal_isWord _
  · exact decimal_isWord _
  · unfold column at devices
    split at devices
    · cases devices
    · rw [List.mem_singleton.mp devices]
      exact ((fine.segment s member).devices).resolve_left ‹_›

def Listing.plain (fine : g.Fine) : Listing g where
  pvs := g.pvs
  pvLines := g.pvs.map fun pv => spaced (g.columns pv)
  segments := g.segments
  lines := g.segments.map fun s => spaced (s.1.columns s.2)
  pvsPerm := .refl _
  pvsShown := List.forall₂_map_right_iff.mpr
    (List.forall₂_same.mpr fun _ member => renders_spaced (fine.columns member))
  perm := .refl _
  shown := List.forall₂_map_right_iff.mpr (List.forall₂_same.mpr fun _ member =>
    renders_spaced ((fine.volume _ (isRow_of_mem member).volume).columns (isRow_of_mem member).segment))

end Plain

def single : Group where
  name := "v".toList
  extentSize := 4
  pvs := [⟨"/d".toList, 1⟩]
  volumes := [⟨"a".toList, 8, "linear".toList, 2, "/d(3)".toList, []⟩]

theorem single_onPv : OnPv single "/d(3)".toList ⟨"/d".toList, 1⟩ 3 :=
  ⟨List.mem_singleton_self _, ⟨[], by decide⟩, by decide, by decide⟩

theorem single_fine : single.Fine where
  name := ⟨.of_all (by decide) (by decide) (by decide), by decide⟩
  extentSize := by decide
  some := List.cons_ne_nil _ _
  pvCount := by decide
  pv := by
    intro pv member
    rw [List.mem_singleton.mp member]
    exact ⟨⟨.of_all (by decide) (by decide) (by decide), by decide⟩, by decide⟩
  apart := by decide
  count := by decide
  volume := by
    intro v member
    rw [List.mem_singleton.mp member]
    refine ⟨⟨.of_all (by decide) (by decide) (by decide), by decide⟩, by decide,
      .of_all (by decide) (by decide) (by decide), by decide, by decide, fun s inside => ?_, nofun⟩
    rw [List.mem_singleton.mp inside]
    exact ⟨by decide, by decide, Or.inr (.of_all (by decide) (by decide) (by decide))⟩
  linear := by
    intro v member _
    rw [List.mem_singleton.mp member]
    exact ⟨_, _, single_onPv⟩

theorem single_placed : Placed single where
  pv := by
    intro pv member c inside
    rw [List.mem_singleton.mp member] at inside
    have all : ("/d".toList.all fun c => decide (c ≠ ',' ∧ c ≠ '(' ∧ c ≠ ')')) = true := by decide
    exact of_decide_eq_true (List.all_eq_true.mp all c inside)
  first := by
    intro v member
    rw [List.mem_singleton.mp member]
    exact ⟨_, _, single_onPv⟩
  other := by
    intro v member
    rw [List.mem_singleton.mp member]
    nofun

theorem single_short : (Listing.plain single_fine).Short := by
  unfold Listing.Short
  decide

theorem lvm_scan_single :
    (∃ vg, lvmScanVg single.name (Listing.plain single_fine).vgs (Listing.plain single_fine).lvs = some (vg, 0) ∧
      Scanned single vg) ∧
    ∃ vg err, lvmScanVg single.name [] [] = some (vg, err) ∧
      (err = 0 ∧ Accepted single.name [] [] vg ∨ err < 0 ∧ vg = .zero) :=
  ⟨lvm_scan.1 single single_fine single_placed _ single_short,
    lvm_scan.2 single.name [] [] (by decide) ⟨0, nofun⟩⟩

theorem listed_lines {g : Group} (l : Listing g) : l.lvs.count newline = g.segments.length := by
  have plain : ∀ line ∈ l.lines, ∀ c ∈ line, c ≠ newline := by
    intro line member c inside
    obtain ⟨row, -, shown⟩ := exists_of_forall₂ l.shown member
    exact (shown.plain c inside).1
  rw [Listing.lvs, count_asText plain, ← l.shown.length_eq, l.perm.length_eq]

def countsTwo : Text := " v 4 2 1 /d 1\n".toList

def listsOne : Text := " a 8 linear 1 0 2 /d(3)\n".toList

theorem listed_volumes {g : Group} (fine : g.Fine) (l : Listing g) (vgs : l.vgs = countsTwo) (lvs : l.lvs = listsOne) :
    openVg g.name l.vgs = .ok ⟨g.name, g.extentSize, g.pvs.length, some l.pvs, g.volumes.length, some []⟩ := by
  refine openVg_listed fine l fun line member => ?_
  rcases List.mem_append.mp member with first | second
  · refine (length_le_of_mem first).trans ?_
    change l.vgs.length ≤ 1023
    rw [vgs]
    decide
  · refine (length_le_of_mem second).trans ?_
    change l.lvs.length ≤ 1023
    rw [lvs]
    decide

theorem lists_too_few : ¬∀ vgname vgs lvs : Text,
    (∀ g : Group, g.Fine → ∀ l : Listing g, g.name = vgname → l.vgs = vgs → l.lvs = lvs →
      ∃ vg, lvmScanVg vgname vgs lvs = some (vg, 0) ∧ Scanned g vg) ∧
    ((¬∃ g : Group, g.Fine ∧ ∃ l : Listing g, g.name = vgname ∧ l.vgs = vgs ∧ l.lvs = lvs) →
      ∃ err, err < 0 ∧ lvmScanVg vgname vgs lvs = some (.zero, err)) := by
  intro all
  have none : ¬∃ g : Group, g.Fine ∧ ∃ l : Listing g, g.name = "v".toList ∧ l.vgs = countsTwo ∧ l.lvs = listsOne := by
    rintro ⟨g, fine, l, name, vgs, lvs⟩
    have one := listed_lines l
    have two := listed_volumes fine l vgs lvs
    rw [vgs, name] at two
    rw [lvs] at one
    have counted : (g.volumes.length : Int) = 2 := by
      have opened : ∃ vg, openVg "v".toList countsTwo = .ok vg ∧ vg.lvCnt = 2 :=
        ⟨⟨"v".toList, 4, 1, some [⟨"/d".toList, 1⟩], 2, some []⟩, by decide +kernel, rfl⟩
      obtain ⟨vg, opened, counted⟩ := opened
      rw [opened] at two
      rw [Outcome.ok.inj two] at counted
      exact counted
    have single : listsOne.count newline = 1 := by decide
    have most : g.volumes.length ≤ g.segments.length := by
      conv_lhs => rw [← firsts_segments fine]
      unfold firsts
      rw [List.length_map]
      exact List.length_filter_le _ _
    omega
  obtain ⟨err, negative, run⟩ := (all "v".toList countsTwo listsOne).2 none
  have works : ∃ vg, lvmScanVg "v".toList countsTwo listsOne = some (vg, 0) := ⟨_, rfl⟩
  obtain ⟨vg, works⟩ := works
  rw [works] at run
  cases run
  exact absurd negative (by decide)

end Blktap.Lvm
