import Blktap.Libvhd.Check
import Blktap.Libvhd.Translate

/-! # What the check of an image tells -/

namespace Blktap.Libvhd.Check
open Lib

section Tests
variable {tests : List (Bool × String)} {buf : Nat → UInt8} {size : Nat}

theorem complaint_none : complaint tests = none ↔ ∀ test ∈ tests, test.1 = false := by
  unfold complaint
  rw [Option.map_eq_none_iff, List.find?_eq_none]
  exact forall_congr' fun test => imp_congr_right fun _ => by rw [Bool.not_eq_true]

theorem zeros_iff (passed : vhdUtilCheckZeros buf size = 0) (some : 0 < size) :
    (∀ p < size, buf p = 0) ↔ buf 0 = 0 := by
  refine ⟨fun all => all 0 some, fun first => ?_⟩
  unfold vhdUtilCheckZeros at passed
  cases found : (List.range size).find? fun i => buf i ≠ 0 with
  | none =>
      intro p inside
      have zero := List.find?_eq_none.mp found p (List.mem_range.mpr inside)
      exact not_not.mp fun other => zero (decide_eq_true other)
  | some k =>
      rw [found] at passed
      have other := List.find?_some found
      rw [Option.getD_some] at passed
      subst passed
      exact absurd first (of_decide_eq_true other)

theorem zeros_pos {p : Nat} (inside : p < size) (first : buf 0 = 0) (other : buf p ≠ 0) :
    vhdUtilCheckZeros buf size ≠ 0 :=
  fun passed => other ((zeros_iff passed (Nat.zero_lt_of_lt inside)).mpr first p inside)

theorem forM_ok {α : Type} {l : List α} {f : α → Outcome Unit} : l.forM f = .ok () ↔ ∀ a ∈ l, f a = .ok () := by
  induction l with
  | nil => exact iff_of_true rfl fun a member => nomatch member
  | cons a l ih =>
      have first : (a :: l).forM f = (f a >>= fun _ => l.forM f) := rfl
      rw [first, Outcome.bind_eq_ok, List.forall_mem_cons, ← ih]
      exact ⟨fun ⟨_, first, rest⟩ => ⟨first, rest⟩, fun ⟨first, rest⟩ => ⟨(), first, rest⟩⟩

end Tests

section Footers
variable {opts : Options} {now : Nat} {file : File} {footer : Nat → UInt8} {found : (Nat → UInt8) × Bool}

theorem validateFooter_reserved (valid : validateFooter opts now footer = none) :
    vhdUtilCheckZeros (fun i => footer (86 + i)) 426 = 0 := by
  have last := complaint_none.mp valid _ (List.mem_of_getElem? (i := 12) rfl)
  exact not_not.mp (of_decide_eq_false last)

theorem validateFooter_type (valid : validateFooter opts now footer = none) :
    be32 footer 60 = 2 ∨ be32 footer 60 = 3 ∨ be32 footer 60 = 4 := by
  have type := of_decide_eq_false (complaint_none.mp valid _ (List.mem_of_getElem? (i := 9) rfl))
  omega

theorem sameFooter_iff {first second : Nat → UInt8} : sameFooter first second = true ↔ ∀ p < 512, first p = second p := by
  unfold sameFooter
  rw [List.all_eq_true]
  exact forall_congr' fun p => imp_congr List.mem_range beq_iff_eq

theorem checkBackup_ok (strict : opts.ignoreFooter = false) {missing : Bool}
    (ok : checkBackup opts now file missing = .ok found) :
    found = (primaryFooter file, missing) ∧ ∀ p, 86 ≤ p → p < 512 → file.byte p = primaryFooter file p := by
  unfold checkBackup at ok
  split at ok
  case isTrue => cases ok
  split at ok
  case isTrue => cases ok
  split at ok
  case isTrue same =>
    cases ok
    exact ⟨rfl, fun p _ inside => (sameFooter_iff.mp same p inside).symm⟩
  rw [if_neg (by rw [strict]; exact Bool.false_ne_true)] at ok
  split at ok
  case isFalse => cases ok
  case isTrue hidden =>
    cases ok
    refine ⟨rfl, fun p behind inside => ?_⟩
    have same := sameFooter_iff.mp (Bool.and_eq_true_iff.mp hidden).2 p inside
    rw [same, Function.update_of_ne (by omega)]

theorem checkFooter_ok (strict : opts.ignoreFooter = false) (ok : checkFooter opts now file = .ok found) :
    validateFooter opts now (primaryFooter file) = none ∧
      ((be32 (primaryFooter file) 60 = 2 ∧ found = (fun _ => 0, false)) ∨
        (be32 (primaryFooter file) 60 ≠ 2 ∧ found = (primaryFooter file, false) ∧
          ∀ p, 86 ≤ p → p < 512 → file.byte p = primaryFooter file p)) := by
  unfold checkFooter at ok
  split at ok
  case isTrue => cases ok
  split at ok
  case isTrue =>
    rw [if_neg (by rw [strict]; exact Bool.false_ne_true)] at ok
    cases ok
  case isFalse valid =>
    refine ⟨Option.not_isSome_iff_eq_none.mp valid, ?_⟩
    split at ok
    case isTrue fixed =>
      cases ok
      exact .inl ⟨fixed, rfl⟩
    case isFalse other => exact .inr ⟨other, checkBackup_ok strict ok⟩

theorem footer_reserved (valid : validateFooter opts now footer = none) :
    (∀ p, 86 ≤ p → p < 512 → footer p = 0) ↔ footer 86 = 0 := by
  have zeros := zeros_iff (validateFooter_reserved valid) (by decide)
  refine ⟨fun all => all 86 (Nat.le_refl _) (by decide), fun first p behind inside => ?_⟩
  have zero := zeros.mpr first (p - 86) (by omega)
  rwa [Nat.add_sub_cancel' behind] at zero

end Footers

section Header
variable {file : File} {footer header : Nat → UInt8} {size : Nat}

theorem validateHeader_reserved (valid : validateHeader size header = none) :
    be32 header 60 = 0 ∧ vhdUtilCheckZeros (fun i => header (768 + i)) 256 = 0 := by
  have tests := complaint_none.mp valid
  have first := of_decide_eq_false (tests _ (List.mem_of_getElem? (i := 6) rfl))
  have second := of_decide_eq_false (tests _ (List.mem_of_getElem? (i := 7) rfl))
  exact ⟨not_not.mp first, not_not.mp second⟩

theorem be32_zero {off p : Nat} (zero : be32 header off = 0) (behind : off ≤ p) (inside : p < off + 4) : header p = 0 := by
  have bytes := beByte_be32 header off (i := p - off) (by omega)
  rw [zero, Nat.add_sub_cancel' behind] at bytes
  rw [← bytes]
  unfold beByte
  rw [Nat.zero_div]
  rfl

theorem header_reserved (ok : checkHeader file footer = .ok ()) :
    (∀ p, 60 ≤ p → p < 64 → headerAt file footer p = 0) ∧
      ((∀ p, 768 ≤ p → p < 1024 → headerAt file footer p = 0) ↔ headerAt file footer 768 = 0) := by
  unfold checkHeader at ok
  split at ok
  case isTrue => cases ok
  split at ok
  case isTrue => cases ok
  case isFalse valid =>
    obtain ⟨first, second⟩ := validateHeader_reserved (Option.not_isSome_iff_eq_none.mp valid)
    have zeros := zeros_iff second (by decide)
    refine ⟨fun p behind inside => be32_zero first behind inside, fun all => all 768 (Nat.le_refl _) (by decide),
      fun zero p behind inside => ?_⟩
    have byte := zeros.mpr zero (p - 768) (by omega)
    rwa [Nat.add_sub_cancel' behind] at byte

end Header

section Blocks
variable {opts : Options} {missing : Bool} {ctx : Context} {bat : Bat} {eof i j : Nat} {eoh : Int} {file : File}
  {opened : Context × (Nat → UInt8)}

structure Small (ctx : Context) : Prop where
  entries : ctx.maxBatSize < 2 ^ 32
  bytes : ctx.blockSize < 2 ^ 32

theorem contextIn_small (file : File) (footer header : Nat → UInt8) : Small (contextIn file footer header) where
  entries := be32_lt header 28
  bytes := be32_lt header 32

theorem vhdOpenAny_small (ok : vhdOpenAny file = .ok opened) : opened.1.file = file ∧ Small opened.1 := by
  unfold vhdOpenAny at ok
  obtain ⟨footer, _, ok⟩ := Outcome.bind_eq_ok.mp ok
  dsimp only at ok
  split at ok
  case isTrue =>
    cases ok
    exact ⟨rfl, contextIn_small _ _ _⟩
  case isFalse =>
    obtain ⟨header, _, ok⟩ := Outcome.bind_eq_ok.mp ok
    cases ok
    exact ⟨rfl, contextIn_small _ _ _⟩

theorem entry_lt : ctx.entry i < 2 ^ 32 := be32_lt _ _

theorem Small.block (small : Small ctx) : blockSize ctx < 2 ^ 32 := by
  have size := small.bytes
  unfold blockSize Vhd.spb Vhd.bmSecs secsRoundUpNoZero secsRoundUp Vhd.spb
  split <;> omega

theorem vhdReadBat_ok {vhd : Vhd} (read : vhdReadBat vhd = .ok bat) :
    vhd.typeDynamic = true ∧ bat = vhd.table := by
  unfold vhdReadBat at read
  split at read
  case isTrue => cases read
  case isFalse dynamic =>
    split at read
    case isTrue => cases read
    obtain ⟨buf, got, same⟩ := Outcome.bind_eq_ok.mp read
    cases same
    cases File.read_eq got
    refine ⟨?_, rfl⟩
    rwa [Bool.not_eq_true, Bool.not_eq_false'] at dynamic

structure Passed (opts : Options) (missing : Bool) (ctx : Context) (eof : Nat) (eoh : Int) : Prop where
  dynamic : ctx.typeDynamic = true
  rounded : roundedSize ctx.file.size = .ok eof
  headers : endOfHeaders ctx = .ok eoh
  visited : visited ctx ≤ ctx.maxBatSize
  block : ∀ i < Check.visited ctx, checkBlock opts missing ctx ctx.table ((eof - 512) / 512) (eoh / 512) i = .ok ()

theorem checkBat_ok (ok : checkBat opts missing ctx = .ok ()) : ∃ eof eoh, Passed opts missing ctx eof eoh := by
  unfold checkBat at ok
  obtain ⟨eof, rounded, ok⟩ := Outcome.bind_eq_ok.mp ok
  obtain ⟨bat, read, ok⟩ := Outcome.bind_eq_ok.mp ok
  obtain ⟨eoh, headers, ok⟩ := Outcome.bind_eq_ok.mp ok
  obtain ⟨dynamic, table⟩ := vhdReadBat_ok read
  subst table
  split at ok
  case isTrue => cases ok
  case isFalse fits =>
    obtain ⟨_, blocks, _⟩ := Outcome.bind_eq_ok.mp ok
    exact ⟨eof, eoh, dynamic, rounded, headers, Nat.le_of_not_lt fits,
      fun i inside => forM_ok.mp blocks i (List.mem_range.mpr inside)⟩

theorem Passed.entry (passed : Passed opts missing ctx eof eoh) (small : Small ctx) (inside : i < Check.visited ctx) :
    ctx.table.bat i = ctx.entry i := by
  have all : ctx.batEntries = Check.visited ctx := Nat.mod_eq_of_lt (Nat.lt_of_le_of_lt passed.visited small.entries)
  exact table_entry (all ▸ inside)

structure PassedBlock (opts : Options) (ctx : Context) (eof : Nat) (eoh : Int) (i : Nat) : Prop where
  start : eoh / 512 ≤ ctx.entry i
  stop : (ctx.entry i + blockSize ctx) % 2 ^ 32 ≤ (eof - 512) / 512
  pair : ∀ j < Check.visited ctx, checkPair ctx ctx.table i j = .ok ()
  bitmap : opts.checkData = true → checkBitmap opts ctx ctx.table i = .ok ()

theorem Passed.allocated (passed : Passed opts false ctx eof eoh) (small : Small ctx) (inside : i < Check.visited ctx)
    (allocated : ctx.allocated i) : PassedBlock opts ctx eof eoh i := by
  have entry := passed.entry small inside
  have ok := passed.block i inside
  unfold checkBlock at ok
  dsimp only at ok
  rw [entry, if_neg allocated.2] at ok
  split at ok
  case isTrue => cases ok
  case isFalse start =>
    split at ok
    case isTrue => cases ok
    case isFalse stop =>
      obtain ⟨_, pairs, bitmap⟩ := Outcome.bind_eq_ok.mp ok
      refine ⟨Int.not_lt.mp start, Nat.le_of_not_lt fun less => stop ⟨less, fun missing => absurd missing.1 (by decide)⟩,
        fun j bound => forM_ok.mp pairs j (List.mem_range.mpr bound), fun check => ?_⟩
      rwa [if_pos (by rw [check]; rfl)] at bitmap

end Blocks

section Metadata
variable {ctx : Context} {eoh : Int} {batmap : Batmap}

theorem vhdReadBatmap_ok (read : vhdReadBatmap ctx = .ok batmap) :
    vhdReadBatmapHeader ctx.toVhd = .ok batmap.header ∧
      batmap.map = fun p => ctx.file.byte (batmap.header.batmapOffset + p) := by
  unfold vhdReadBatmap at read
  split at read
  case isTrue => cases read
  obtain ⟨header, got, read⟩ := Outcome.bind_eq_ok.mp read
  split at read
  case isTrue => cases read
  split at read
  case isTrue => cases read
  obtain ⟨map, loaded, read⟩ := Outcome.bind_eq_ok.mp read
  split at read
  case isTrue => cases read
  cases read
  exact ⟨got, File.read_eq loaded⟩

theorem off64_eq {n : Nat} (small : n < 2 ^ 63) : off64 n = n := by
  have modulus : ((2 ^ 64 : Nat) : Int) = 2 ^ 64 := rfl
  unfold off64
  exact Int.bmod_eq_of_le (by omega) (by omega)

theorem le_locators (l : List Locator) (eom : Nat) :
    eom ≤ l.foldl (fun eom loc => if loc.code = 0 then eom else max eom (loc.dataOffset + loc.size)) eom := by
  induction l generalizing eom with
  | nil => exact Nat.le_refl eom
  | cons loc l ih =>
      rw [List.foldl_cons]
      refine Nat.le_trans ?_ (ih _)
      split
      · exact Nat.le_refl eom
      · exact Nat.le_max_left _ _

theorem locators_eq (l : List Locator) {eom : Nat}
    (small : l.foldl (fun eom loc => if loc.code = 0 then eom else max eom (loc.dataOffset + loc.size)) eom < 2 ^ 63) :
    l.foldl (fun eom loc => if loc.code = 0 then eom else max eom (off64 (loc.dataOffset + loc.size))) (eom : Int) =
      (l.foldl (fun eom loc => if loc.code = 0 then eom else max eom (loc.dataOffset + loc.size)) eom : Nat) := by
  induction l generalizing eom with
  | nil => rfl
  | cons loc l ih =>
      rw [List.foldl_cons] at small ⊢
      rw [List.foldl_cons, ← ih small]
      congr 1
      by_cases unused : loc.code = 0
      · rw [if_pos unused, if_pos unused]
      · rw [if_neg unused] at small ⊢
        have first := Nat.le_trans (Nat.le_max_right eom (loc.dataOffset + loc.size)) (le_locators l _)
        rw [if_neg unused, off64_eq (Nat.lt_of_le_of_lt first small)]
        omega

theorem endOfHeaders_eq (ok : endOfHeaders ctx = .ok eoh) (dynamic : ctx.typeDynamic = true)
    (small : metadataEnd ctx < 2 ^ 63) (table : vhdBytesPadded (ctx.maxBatSize * 4) < 2 ^ 32) :
    eoh = metadataEnd ctx := by
  have tables : tablesEnd ctx < 2 ^ 63 := Nat.lt_of_le_of_lt (le_locators ctx.loc _) small
  have first : max (ctx.dataOffset + 1024) (ctx.tableOffset + vhdBytesPadded (ctx.maxBatSize * 4)) ≤ tablesEnd ctx :=
    Nat.le_max_left _ _
  have header := Nat.lt_of_le_of_lt (Nat.le_trans (Nat.le_max_left _ _) first) tables
  have entries := Nat.lt_of_le_of_lt (Nat.le_trans (Nat.le_max_right _ _) first) tables
  unfold endOfHeaders at ok
  rw [if_neg (by rw [dynamic]; exact Bool.false_ne_true), Nat.mod_eq_of_lt table, off64_eq header, off64_eq entries] at ok
  obtain ⟨eom, maps, ok⟩ := Outcome.bind_eq_ok.mp ok
  have all : eom = tablesEnd ctx := by
    unfold tablesEnd at tables ⊢
    unfold endOfMap at maps
    split at maps
    case isTrue mapped =>
      obtain ⟨batmap, read, maps⟩ := Outcome.bind_eq_ok.mp maps
      have got := (vhdReadBatmap_ok read).1
      rw [if_pos mapped, got] at tables ⊢
      dsimp only at tables ⊢
      have second := Nat.lt_of_le_of_lt (Nat.le_max_right _ _) tables
      have third := Nat.lt_of_le_of_lt (Nat.le_max_left _ _) second
      have fourth := Nat.lt_of_le_of_lt (Nat.le_max_right _ _) second
      rw [off64_eq third, off64_eq fourth] at maps
      rw [← Outcome.ok.inj maps]
      omega
    case isFalse unmapped =>
      rw [if_neg unmapped]
      dsimp only
      rw [← Outcome.ok.inj maps]
      omega
  rw [← Outcome.ok.inj ok, all]
  exact locators_eq ctx.loc small

end Metadata

section Visited
variable {opts : Options} {ctx : Context} {eof i j nr : Nat} {eoh : Int}

theorem visited_start (passed : Passed opts false ctx eof eoh) (block : PassedBlock opts ctx eof eoh i)
    (small : metadataEnd ctx < 2 ^ 63) (table : vhdBytesPadded (ctx.maxBatSize * 4) < 2 ^ 32)
    (apart : ctx.entry i ≠ metadataEnd ctx / 512) : metadataEnd ctx ≤ ctx.entry i * 512 := by
  have start := block.start
  rw [endOfHeaders_eq passed.headers passed.dynamic small table] at start
  omega

theorem visited_stop (passed : Passed opts false ctx eof eoh) (block : PassedBlock opts ctx eof eoh i)
    (low : ctx.entry i + blockSize ctx < 2 ^ 32) :
    (ctx.entry i + blockSize ctx) * 512 ≤ footerStart ctx.file := by
  have stop := block.stop
  rw [Nat.mod_eq_of_lt low] at stop
  have rounded := passed.rounded
  unfold roundedSize at rounded
  unfold footerStart footerSize
  split at rounded
  case isTrue whole =>
    cases rounded
    rw [if_pos whole]
    omega
  case isFalse part =>
    split at rounded
    case isFalse => cases rounded
    case isTrue short =>
      cases rounded
      rw [if_neg part]
      omega

theorem checkPair_ok (ok : checkPair ctx ctx.table i j = .ok ()) (other : i ≠ j)
    (first : ctx.table.bat i = ctx.entry i) (second : ctx.table.bat j = ctx.entry j) (used : ctx.entry j ≠ ddBlkUnused) :
    ¬ (ctx.entry i = ctx.entry j ∨
      (ctx.entry j < ctx.entry i ∧ ctx.entry i < (ctx.entry j + blockSize ctx) % 2 ^ 32) ∨
      (ctx.entry j < (ctx.entry i + blockSize ctx) % 2 ^ 32 ∧
        (ctx.entry i + blockSize ctx) % 2 ^ 32 < (ctx.entry j + blockSize ctx) % 2 ^ 32)) := by
  intro clash
  unfold checkPair at ok
  dsimp only at ok
  rw [first, second, if_neg fun same => same.elim other used, if_pos clash] at ok
  cases ok

theorem visited_apart (passed : Passed opts false ctx eof eoh) (small : Small ctx) (inside : i < visited ctx)
    (inside' : j < visited ctx) (allocated : ctx.allocated i) (allocated' : ctx.allocated j) (other : i ≠ j)
    (low : ¬ (2 ^ 32 ≤ ctx.entry i + blockSize ctx ∧ 2 ^ 32 ≤ ctx.entry j + blockSize ctx)) :
    Apart ctx (ctx.entry i) (ctx.entry j) := by
  have first := passed.entry small inside
  have second := passed.entry small inside'
  have there := checkPair_ok ((passed.allocated small inside allocated).pair j inside') other first second allocated'.2
  have back := checkPair_ok ((passed.allocated small inside' allocated').pair i inside) other.symm second first allocated.2
  have size := small.block
  have bound : ctx.entry i < 2 ^ 32 := entry_lt
  have bound' : ctx.entry j < 2 ^ 32 := entry_lt
  unfold Apart
  omega

theorem visited_full (passed : Passed opts false ctx eof eoh) (small : Small ctx)
    (ok : ctx.hasBatmap = true → checkBatmap ctx = .ok ()) (full : FullBit ctx nr) (inside : nr < visited ctx) :
    ctx.allocated nr := by
  obtain ⟨mapped, header, got, _, set⟩ := full
  have ok := ok mapped
  unfold checkBatmap at ok
  obtain ⟨bat, read, ok⟩ := Outcome.bind_eq_ok.mp ok
  obtain ⟨batmap, loaded, ok⟩ := Outcome.bind_eq_ok.mp ok
  obtain ⟨same, map⟩ := vhdReadBatmap_ok loaded
  cases got.symm.trans same
  rw [(vhdReadBat_ok read).2] at ok
  split at ok
  case isTrue => cases ok
  case isFalse valid =>
    have fits := of_decide_eq_false (complaint_none.mp (Option.not_isSome_iff_eq_none.mp valid) _
      (List.mem_of_getElem? (i := 4) rfl))
    have known := forM_ok.mp ok nr (List.mem_range.mpr inside)
    have entries := passed.visited
    unfold checkFull Batmap.test at known
    rw [if_neg (by omega)] at known
    split at known
    case isTrue => cases known
    case isFalse =>
      rw [map, set, Outcome.ok_bind, passed.entry small inside] at known
      refine ⟨Nat.lt_of_lt_of_le inside entries, fun unused => ?_⟩
      rw [if_pos ⟨rfl, unused⟩] at known
      cases known

theorem vhdReadBitmap_eq {vhd : Vhd} {bat : Bat} {block : Nat} {bitmap : Nat → UInt8}
    (read : vhdReadBitmap vhd bat block = .ok bitmap) : bitmap = fun p => vhd.file.byte (bat.bat block * 512 + p) := by
  unfold vhdReadBitmap at read
  split at read
  case isTrue => cases read
  split at read
  case isTrue => cases read
  split at read
  case isTrue => cases read
  exact File.read_eq read

theorem dataByte_eq {entry s b : Nat} : dataByte ctx entry s b = (entry + ctx.bmSecs) * 512 + (s * 512 + b) := by
  unfold dataByte
  rw [Nat.add_mul, Nat.add_assoc]

theorem visited_data (passed : Passed opts false ctx eof eoh) (small : Small ctx) (inside : i < visited ctx)
    (allocated : ctx.allocated i) (check : opts.checkData = true) {s b : Nat} (sector : s < ctx.spb) (byte : b < 512)
    (clear : ctx.file.byte (dataByte ctx (ctx.entry i) s 0) ≠ 0 → ctx.marks (ctx.entry i) s = true)
    (stored : dataByte ctx (ctx.entry i) s b < ctx.file.size - 512)
    (other : ctx.file.byte (dataByte ctx (ctx.entry i) s b) ≠ 0) : ctx.marks (ctx.entry i) s = true := by
  have entry := passed.entry small inside
  have ok := (passed.allocated small inside allocated).bitmap check
  unfold checkBitmap at ok
  obtain ⟨bitmap, read, ok⟩ := Outcome.bind_eq_ok.mp ok
  rw [if_pos check] at ok
  obtain ⟨data, loaded, ok⟩ := Outcome.bind_eq_ok.mp ok
  split at ok
  case isTrue => cases ok
  case isFalse fine =>
    rw [List.any_eq_true, not_exists] at fine
    have tested := not_and.mp (fine s) (List.mem_range.mpr sector)
    have marks : vhdBitmapTest ctx.toVhd bitmap s = ctx.marks (ctx.entry i) s := by
      rw [vhdReadBitmap_eq read, entry]
      rfl
    have bytes : ∀ p ≤ b, data (s * 512 + p) = ctx.file.byte (dataByte ctx (ctx.entry i) s p) := by
      intro p below
      have within : s * 512 + p < ctx.spb * 512 := by omega
      have front : dataByte ctx (ctx.entry i) s p < ctx.file.size - 512 :=
        Nat.lt_of_le_of_lt (Nat.add_le_add_left below _) stored
      rw [dataByte_eq] at front ⊢
      rw [vhdReadBlock_byte loaded within, entry, if_pos front]
    by_contra unmarked
    have first : ctx.file.byte (dataByte ctx (ctx.entry i) s 0) = 0 := not_not.mp fun first => unmarked (clear first)
    have zero : (fun p => data (s * 512 + p)) 0 = 0 := (bytes 0 (Nat.zero_le b)).trans first
    have some : (fun p => data (s * 512 + p)) b ≠ 0 := fun none => other ((bytes b (Nat.le_refl b)).symm.trans none)
    unfold dataWhereClear at tested
    rw [Bool.and_eq_true, marks, Bool.not_eq_true', decide_eq_true_eq] at tested
    exact tested ⟨zeros_pos byte zero some, Bool.eq_false_iff.mpr unmarked⟩

end Visited

section Accepted
variable {opts : Options} {env : Surroundings} {file : File} {ctx : Context} {eof : Nat} {eoh : Int}
  {opened : Context × (Nat → UInt8)}

theorem soundDisk_iff (at_ : ctx.file = file) (passed : Passed opts false ctx eof eoh) (small : Small ctx)
    (map : ctx.hasBatmap = true → checkBatmap ctx = .ok ()) (header : checkHeader file (primaryFooter file) = .ok ())
    (backup : ∀ p, 86 ≤ p → p < 512 → file.byte p = 0) :
    SoundDisk opts.checkData file ctx ↔ RestDisk opts.checkData file ctx := by
  obtain ⟨first, second⟩ := header_reserved header
  constructor
  · intro sound
    exact ⟨second.mp sound.second, fun i allocated _ => sound.start i allocated, fun i allocated _ => sound.stop i allocated,
      fun i j allocated allocated' other _ => sound.apart i j allocated allocated' other, fun nr full _ => sound.full nr full,
      fun check i s b allocated sector byte _ => sound.data check i s b allocated sector byte⟩
  · intro rest
    refine ⟨backup, first, second.mpr rest.second, fun i allocated => ?_, fun i allocated => ?_,
      fun i j allocated allocated' other => ?_, fun nr full => ?_, fun check i s b allocated sector byte other => ?_⟩
    · by_cases kind : visited ctx ≤ i ∨ 2 ^ 32 ≤ vhdBytesPadded (ctx.maxBatSize * 4) ∨ 2 ^ 63 ≤ metadataEnd ctx ∨
          ctx.entry i = metadataEnd ctx / 512
      · exact rest.start i allocated kind
      · simp only [not_or, Nat.not_le] at kind
        obtain ⟨inside, table, front, apart⟩ := kind
        exact visited_start passed (passed.allocated small inside allocated) front table apart
    · by_cases kind : visited ctx ≤ i ∨ 2 ^ 32 ≤ ctx.entry i + blockSize ctx
      · exact rest.stop i allocated kind
      · simp only [not_or, Nat.not_le] at kind
        rw [← at_]
        exact visited_stop passed (passed.allocated small kind.1 allocated) kind.2
    · by_cases kind : visited ctx ≤ i ∨ visited ctx ≤ j ∨
          (2 ^ 32 ≤ ctx.entry i + blockSize ctx ∧ 2 ^ 32 ≤ ctx.entry j + blockSize ctx)
      · exact rest.apart i j allocated allocated' other kind
      · rw [not_or, not_or, Nat.not_le, Nat.not_le] at kind
        exact visited_apart passed small kind.1 kind.2.1 allocated allocated' other kind.2.2
    · by_cases inside : nr < visited ctx
      · exact visited_full passed small map full inside
      · exact rest.full nr full (Nat.le_of_not_lt inside)
    · by_cases kind : visited ctx ≤ i ∨ b = 0 ∨ file.size - 512 ≤ dataByte ctx (ctx.entry i) s b
      · exact rest.data check i s b allocated sector byte kind other
      · rw [not_or, not_or, Nat.not_le, Nat.not_le] at kind
        have clear := rest.data check i s 0 allocated sector (by decide) (.inr (.inl rfl))
        subst at_
        exact visited_data passed small kind.1 allocated check sector byte clear kind.2.2 other

theorem vhdUtilCheckVhd_ok (strict : opts.ignoreFooter = false) (ok : vhdUtilCheckVhd opts env file = .ok ()) :
    validateFooter opts env.now (primaryFooter file) = none ∧
      (be32 (primaryFooter file) 60 ≠ 2 →
        (∀ p, 86 ≤ p → p < 512 → file.byte p = primaryFooter file p) ∧ checkHeader file (primaryFooter file) = .ok () ∧
          ∃ opened, vhdOpenAny file = .ok opened ∧ checkBat opts false opened.1 = .ok () ∧
            (opened.1.hasBatmap = true → checkBatmap opened.1 = .ok ())) := by
  unfold vhdUtilCheckVhd at ok
  obtain ⟨found, footer, ok⟩ := Outcome.bind_eq_ok.mp ok
  obtain ⟨valid, fixed | ⟨other, rfl, backup⟩⟩ := checkFooter_ok strict footer
  · exact ⟨valid, fun other => absurd fixed.1 other⟩
  · refine ⟨valid, fun _ => ⟨backup, ?_⟩⟩
    have type := validateFooter_type valid
    rw [if_neg fun neither => (type.resolve_left other).elim neither.1 neither.2] at ok
    obtain ⟨_, header, ok⟩ := Outcome.bind_eq_ok.mp ok
    obtain ⟨opened, open_, ok⟩ := Outcome.bind_eq_ok.mp ok
    obtain ⟨_, _, ok⟩ := Outcome.bind_eq_ok.mp ok
    obtain ⟨_, blocks, ok⟩ := Outcome.bind_eq_ok.mp ok
    obtain ⟨_, map, _⟩ := Outcome.bind_eq_ok.mp ok
    refine ⟨header, opened, open_, blocks, fun mapped => ?_⟩
    rwa [checkMap, if_pos mapped] at map

end Accepted

/-- A file that the check accepts is in order exactly when what the check passes over is. -/
theorem vhdUtilCheck_iff {opts : Options} {env : Surroundings} {file : File} (strict : opts.ignoreFooter = false)
    (accepted : vhdUtilCheck opts env file = .ok ()) : Sound opts.checkData file ↔ Rest opts.checkData file := by
  unfold vhdUtilCheck at accepted
  obtain ⟨_, accepted, _⟩ := Outcome.bind_eq_ok.mp accepted
  obtain ⟨valid, disk⟩ := vhdUtilCheckVhd_ok strict accepted
  have reserved := footer_reserved valid
  have each : primaryFooter file 86 = 0 → be32 (primaryFooter file) 60 ≠ 2 → ∀ opened, vhdOpenAny file = .ok opened →
      (SoundDisk opts.checkData file opened.1 ↔ RestDisk opts.checkData file opened.1) := by
    intro first other opened open_
    obtain ⟨backup, header, opened', open', blocks, map⟩ := disk other
    cases open_.symm.trans open'
    obtain ⟨eof, eoh, passed⟩ := checkBat_ok blocks
    obtain ⟨at_, small⟩ := vhdOpenAny_small open_
    refine soundDisk_iff at_ passed small map header fun p behind inside => ?_
    rw [backup p behind inside]
    exact reserved.mpr first p behind inside
  constructor
  · intro sound
    have first := reserved.mp sound.footer
    exact ⟨first, fun other opened open_ => (each first other opened open_).mp (sound.disk other opened open_)⟩
  · intro rest
    exact ⟨reserved.mpr rest.footer,
      fun other opened open_ => (each rest.footer other opened open_).mpr (rest.disk other opened open_)⟩

def fixedFooter (reserved : UInt8) : Nat → UInt8 :=
  sealFooter (Function.update
    (record [(8, fun p => footerCookie.getD p 0), word 2, word 0x00010000, double (2 ^ 64 - 1), word 0, word 0, word 0,
      word 0, double 512, double 512, word 0, word 2]) 86 reserved)

def fixedFile (reserved : UInt8) : File where
  size := 1024
  byte := fun p => if p < 512 then 0 else fixedFooter reserved (p - 512)

def plain : Options := ⟨false, false, false, false, false⟩

def alone : Surroundings := ⟨0, .ok (), fun _ => .ok (), .ok ()⟩

theorem fixedFile_iff : Sound false (fixedFile 0) ↔ Rest false (fixedFile 0) := by
  have accepted : vhdUtilCheck plain alone (fixedFile 0) = .ok () := by decide +kernel
  exact vhdUtilCheck_iff rfl accepted

theorem fixedFile_accepted : vhdUtilCheck plain alone (fixedFile 1) = .ok () ∧ ¬ Sound false (fixedFile 1) := by
  refine ⟨by decide +kernel, fun sound => ?_⟩
  have zero := sound.footer 86 (Nat.le_refl _) (by decide)
  revert zero
  decide +kernel

end Blktap.Libvhd.Check
