import Blktap.Libvhd.Answers

/-!
# When byte reads show the virtual disk, and agree with sector reads
-/

namespace Blktap.Libvhd
open Lib

def ByteRange.whole (range : ByteRange) : Prop :=
  512 ∣ range.off ∧ 512 ∣ range.size ∧ range.size / 512 < 2 ^ 32

/-- For every byte of the range the read has what the virtual disk shows, whatever the buffer held before. -/
def ShowsBytes (chain : Chain) (range : ByteRange) : Prop :=
  ∀ buf, ∀ p < range.size, ∃ bytes, vhdIoReadBytes chain range buf = .ok bytes ∧
    bytes p = chain.byte ((range.off + p) / 512) ((range.off + p) % 512) ∧
    (range.whole → ∃ sectors,
      vhdIoRead chain (range.off / 512) (range.size / 512) = .ok sectors ∧ sectors p = bytes p)

def Chain.unfound (chain : Chain) (range : ByteRange) (nr : Nat) : Prop :=
  ¬ chain.finds (range.off / 512 + nr)

structure Chain.DynamicBytesOk (chain : Chain) (range : ByteRange) : Prop where
  map : range.mapFits = true
  fine : chain.BytesFine range fun _ => True
  order : ∀ nr < range.count, chain.unfound range nr → range.firstSec < range.lastSec
  clears : range.ClearFits (chain.unfound range)
  spilled : ∀ p < range.size, range.spills (chain.unfound range) p →
    ¬ chain.shows ((range.off + p) / 512) ((range.off + p) % 512)
  answers : ∀ p < range.size, ¬ range.spills (chain.unfound range) p →
    chain.answers ((range.off + p) / 512) ((range.off + p) % 512)
  sectors : range.whole → chain.SectorReadOk (range.off / 512) (range.size / 512)

def Chain.ByteReadOk (chain : Chain) (range : ByteRange) : Prop :=
  0 < range.size → chain.top.typeDynamic = true → chain.DynamicBytesOk range

section Run
variable {range : ByteRange} {chain : Chain}

theorem asks_of_fine {missing : Nat → Prop} {nr : Nat} (fine : chain.BytesFine range missing)
    (below : nr < range.count) (lost : missing nr) : chain.asks (range.off / 512 + nr) := by
  induction chain generalizing missing with
  | base vhd => exact fine.1
  | differRaw vhd raw => trivial
  | differ vhd parent ih =>
      by_cases found : vhd.finds (range.off / 512 + nr)
      · exact .inl found
      · refine .inr ?_
        rcases fine.2 with ⟨_, complete⟩ | rest
        · exact absurd ⟨lost, found⟩ (complete nr below)
        · exact ih rest ⟨lost, found⟩

theorem Chain.SameLayout.bytesFine_iff {chain' : Chain} (same : chain.SameLayout chain')
    (valid : chain.Valid) {missing : Nat → Prop} :
    chain'.BytesFine range missing ↔ chain.BytesFine range missing := by
  have layer : ∀ {vhd vhd' : Vhd}, vhd.SameLayout vhd' → vhd.Valid →
      (vhd'.bytesFine range 0 ↔ vhd.bytesFine range 0) ∧
        ∀ missing, vhd'.leaves range missing = vhd.leaves range missing := by
    intro vhd vhd' same valid
    constructor
    · simp only [Vhd.bytesFine, same.readable_iff valid]
    · intro missing
      funext nr
      simp only [Vhd.leaves, same.finds_iff valid]
  induction same generalizing missing with
  | @base vhd vhd' same =>
      have type : vhd'.typeDynamic = vhd.typeDynamic := by rw [same.fields]; rfl
      unfold Chain.BytesFine
      rw [type]
      exact and_congr_right fun dynamic => (layer same (valid.base_valid dynamic)).1
  | differRaw same _ =>
      unfold Chain.BytesFine
      rw [(layer same valid.2).1, (layer same valid.2).2]
  | @differ vhd _ _ _ same _ ih =>
      have below := @ih valid.2.2 (vhd.leaves range missing)
      unfold Chain.BytesFine
      rw [(layer same valid.2.1).1, (layer same valid.2.1).2]
      exact and_congr_right fun _ => or_congr_right below

theorem shows_of_raw {place : Nat} (covers : chain.rawCovers place) :
    chain.shows (place / 512) (place % 512) := by
  induction chain with
  | base vhd => exact covers.elim
  | differRaw vhd raw =>
      refine .inr ?_
      rw [Nat.div_add_mod']
      exact covers
  | differ vhd parent ih => exact .inr (ih covers)

theorem marked_none (buf : Nat → UInt8) : Marked range (fun _ => True) ⟨fun _ => false, buf⟩ :=
  fun _ => by simp

structure Ran (range : ByteRange) (chain : Chain) (buf bytes : Nat → UInt8) : Prop where
  clears : range.firstSec < range.lastSec → range.ClearFits (chain.unfound range)
  zero : range.firstSec < range.lastSec → ∀ p < range.size,
    range.spills (chain.unfound range) p → bytes p = 0
  found : range.firstSec < range.lastSec → ∀ p < range.size,
    ¬ range.spills (chain.unfound range) p → bytes p = chain.found range.off p
  wrapped : range.lastSec ≤ range.firstSec → ∀ p < range.size,
    (chain.unfound range (range.nr p) → bytes p = buf p) ∧
      (¬ chain.unfound range (range.nr p) → bytes p = chain.found range.off p)

def runBytes (range : ByteRange) (chain : Chain) (buf : Nat → UInt8) : Outcome (Nat → UInt8) :=
  dynamicReadBytes range chain ⟨fun _ => false, buf⟩ >>= clearMissing range

theorem unfound_of_filled {dest after : Dest} {value : Nat → UInt8}
    (none : ∀ nr, dest.map nr = false)
    (filled : Filled range.nr (fun nr => nr < range.count ∧ chain.finds (range.off / 512 + nr))
      value dest after) {nr : Nat} (below : nr < range.count) :
    after.map nr = false ↔ chain.unfound range nr := by
  rw [← Bool.not_eq_true, filled.map, none]
  simp [below, Chain.unfound]

theorem found_unfound {p : Nat} (inside : p < range.size)
    (unfound : chain.unfound range (range.nr p)) : chain.found range.off p = 0 := by
  unfold Chain.unfound at unfound
  rw [← ByteRange.sector_nr inside] at unfound
  exact gives_unfound unfound

theorem runBytes_ran {buf bytes : Nat → UInt8} (valid : chain.Valid) (positive : 0 < range.size)
    (small : range.count < 2 ^ 31 + 1) (fine : chain.BytesFine range fun _ => True)
    (action : runBytes range chain buf = .ok bytes) : Ran range chain buf bytes := by
  obtain ⟨mid, run, clear⟩ := Outcome.bind_eq_ok.mp action
  obtain ⟨same, run', filled⟩ := dynamicReadBytes_spec valid positive small (marked_none buf) fine
  rw [run] at run'
  cases run'
  have lost : ∀ {nr}, nr < range.count → (mid.map nr = false ↔ chain.unfound range nr) :=
    fun below => unfound_of_filled (fun _ => rfl) filled below
  have first := lost (ByteRange.count_pos positive)
  have spills : ∀ p, range.spills (fun nr => mid.map nr = false) p ↔
      range.spills (chain.unfound range) p := fun p => by simp only [ByteRange.spills, first]
  have kept : ∀ p < range.size,
      (chain.unfound range (range.nr p) → mid.buf p = buf p) ∧
      (¬ chain.unfound range (range.nr p) → mid.buf p = chain.found range.off p) := by
    intro p inside
    have below := ByteRange.nr_lt inside
    exact ⟨fun unfound => filled.old p (.inr fun taken => unfound taken.2),
      fun found => filled.new p rfl ⟨below, not_not.mp found⟩⟩
  constructor
  · intro order nr below unfound
    exact (ByteRange.clearMissing_ok positive small order clear).1 nr below ((lost below).mpr unfound)
  · intro order p inside spilled
    exact (ByteRange.clearMissing_ok positive small order clear).2.1 p inside
      (.inr ((spills p).mpr spilled))
  · intro order p inside unspilled
    obtain ⟨_, zero, rest⟩ := ByteRange.clearMissing_ok positive small order clear
    by_cases unfound : chain.unfound range (range.nr p)
    · rw [zero p inside (.inl ((lost (ByteRange.nr_lt inside)).mpr unfound)),
        found_unfound inside unfound]
    · rw [rest p inside, (kept p inside).2 unfound]
      rintro (missing | spilled)
      · exact unfound ((lost (ByteRange.nr_lt inside)).mp missing)
      · exact unspilled ((spills p).mp spilled)
  · intro wrapped p inside
    rw [ByteRange.clearMissing_wrapped wrapped] at clear
    cases clear
    exact kept p inside

theorem runBytes_isOk (valid : chain.Valid) (positive : 0 < range.size)
    (small : range.count < 2 ^ 31 + 1) (fine : chain.BytesFine range fun _ => True)
    (clears : range.ClearFits (chain.unfound range)) (buf : Nat → UInt8) :
    ∃ bytes, runBytes range chain buf = .ok bytes := by
  obtain ⟨mid, run, filled⟩ := dynamicReadBytes_spec valid positive small (marked_none buf) fine
  unfold runBytes
  rw [run, Outcome.ok_bind]
  rcases Nat.lt_or_ge range.firstSec range.lastSec with order | wrapped
  · refine ByteRange.clearMissing_isOk positive small order fun nr below missing => ?_
    exact clears nr below ((unfound_of_filled (fun _ => rfl) filled below).mp missing)
  · exact ⟨_, ByteRange.clearMissing_wrapped wrapped mid⟩

theorem vhdIoReadBytes_dynamic (valid : chain.Valid) (dynamic : chain.top.typeDynamic = true)
    (inside : range.off + range.size ≤ chain.top.currSize) (buf : Nat → UInt8) :
    vhdIoReadBytes chain range buf =
      if range.mapFits = true then runBytes range chain buf else .undefined := by
  have table := vhdReadBat_table (valid.top dynamic) dynamic
  unfold vhdIoReadBytes
  dsimp only
  rw [if_neg (Nat.not_lt.mpr inside), if_neg (by simp [dynamic]), table, Outcome.ok_bind]
  cases range.mapFits <;> rfl

def RunShows (range : ByteRange) (chain : Chain) : Prop :=
  ∀ chain', chain.SameLayout chain' → ∀ buf, ∃ bytes, runBytes range chain' buf = .ok bytes ∧
    ∀ p < range.size, bytes p = chain'.byte ((range.off + p) / 512) ((range.off + p) % 512)

theorem first_byte {nr : Nat} (positive : 0 < range.size) (below : nr < range.count) :
    ∃ p < range.size, range.nr p = nr ∧
      range.off + p = if nr = 0 then range.off else (range.off / 512 + nr) * 512 := by
  unfold ByteRange.count at below
  by_cases first : nr = 0
  · refine ⟨0, positive, ?_, by rw [if_pos first]; rfl⟩
    rw [ByteRange.nr, if_pos positive]
    omega
  · refine ⟨(range.off / 512 + nr) * 512 - range.off, ?_, ?_, ?_⟩
    · omega
    · rw [ByteRange.nr, if_pos (by omega)]
      omega
    · rw [if_neg first]
      omega

theorem order_of_shows (valid : chain.Valid) (shows : RunShows range chain)
    (keeps : ∀ bytes, runBytes range (chain.constant 0) (fun _ => 1) = .ok bytes →
      range.lastSec ≤ range.firstSec → ∃ p < range.size, bytes p = 1) :
    range.firstSec < range.lastSec := by
  by_contra wrapped
  obtain ⟨bytes, action, shown⟩ := shows _ (chain.constant_layout 0) fun _ => 1
  obtain ⟨p, inside, one⟩ := keeps bytes action (Nat.not_lt.mp wrapped)
  rw [shown p inside, constant_zero valid (Nat.mod_lt _ (by omega))] at one
  exact UInt8.zero_ne_one one

theorem fine_of_shows (valid : chain.Valid) (positive : 0 < range.size)
    (small : range.count < 2 ^ 31 + 1) (shows : RunShows range chain) :
    chain.BytesFine range fun _ => True := by
  by_contra bad
  -- the raw parent is reached, and what it has does not stay in the buffer
  have reached : ∀ value buf bytes, runBytes range (chain.constant value) buf = .ok bytes →
      ∃ nr < range.count, ∃ mid, mid.map nr = false ∧ clearMissing range mid = .ok bytes ∧
        (range.lastSec ≤ range.firstSec → ∀ p, range.nr p = nr → mid.buf p = buf p) ∧
        (range.firstSec < range.lastSec →
          (chain.constant value).rawCovers (range.coff (range.firstSec + nr))) := by
    intro value buf bytes action
    have same := chain.constant_layout value
    obtain ⟨mid, run, clear⟩ := Outcome.bind_eq_ok.mp action
    obtain ⟨nr, below, _, _, lost, kept, covers⟩ := dynamicReadBytes_raw (same.valid valid) positive
      small (marked_none buf) run fun fine => bad ((same.bytesFine_iff valid).mp fine)
    exact ⟨nr, below, mid, lost, clear, kept, covers⟩
  have order : range.firstSec < range.lastSec := by
    refine order_of_shows valid shows fun bytes action wrapped => ?_
    obtain ⟨nr, below, mid, _, clear, kept, _⟩ := reached _ _ _ action
    obtain ⟨p, inside, here, _⟩ := first_byte positive below
    rw [ByteRange.clearMissing_wrapped wrapped] at clear
    cases clear
    exact ⟨p, inside, kept wrapped p here⟩
  have same := chain.constant_layout 1
  obtain ⟨bytes, action, shown⟩ := shows _ same fun _ => 0
  obtain ⟨nr, below, mid, lost, clear, _, covers⟩ := reached _ _ _ action
  obtain ⟨p, inside, here, place⟩ := first_byte positive below
  obtain ⟨fits, zero, _⟩ := ByteRange.clearMissing_ok positive small order clear
  have at' : range.coff (range.firstSec + nr) = range.off + p := by
    rw [place]
    unfold ByteRange.coff
    rcases fits nr below lost with ⟨first, _⟩ | ⟨later, whole⟩
    · rw [if_pos (by omega), if_pos first]
    · rw [if_neg (by omega), if_neg (by omega), whole]
  have seen := (same.shows_iff valid).mp (shows_of_raw (covers order))
  rw [at'] at seen
  have one := shown p inside
  rw [constant_shown valid 1 (Nat.mod_lt _ (by omega)) seen,
    zero p inside (.inl (here.symm ▸ lost))] at one
  exact UInt8.zero_ne_one one

theorem Chain.SameLayout.unfound_iff {chain' : Chain} (same : chain.SameLayout chain')
    (valid : chain.Valid) (fine : chain.BytesFine range fun _ => True) {nr : Nat}
    (below : nr < range.count) : chain'.unfound range nr ↔ chain.unfound range nr :=
  not_congr (same.finds_iff valid (asks_of_fine fine below trivial))

theorem Chain.SameLayout.spills_iff {chain' : Chain} (same : chain.SameLayout chain')
    (valid : chain.Valid) (fine : chain.BytesFine range fun _ => True) {p : Nat}
    (inside : p < range.size) :
    range.spills (chain'.unfound range) p ↔ range.spills (chain.unfound range) p := by
  unfold ByteRange.spills
  rw [same.unfound_iff valid fine (ByteRange.count_pos (by omega))]

theorem runShows_iff (valid : chain.Valid) (positive : 0 < range.size)
    (small : range.count < 2 ^ 31 + 1) :
    RunShows range chain ↔ chain.BytesFine range (fun _ => True) ∧
      (∀ nr < range.count, chain.unfound range nr → range.firstSec < range.lastSec) ∧
      range.ClearFits (chain.unfound range) ∧
      (∀ p < range.size, range.spills (chain.unfound range) p →
        ¬ chain.shows ((range.off + p) / 512) ((range.off + p) % 512)) ∧
      ∀ p < range.size, ¬ range.spills (chain.unfound range) p →
        chain.answers ((range.off + p) / 512) ((range.off + p) % 512) := by
  have offset : ∀ p, (range.off + p) % 512 < 512 := fun p => Nat.mod_lt _ (by omega)
  constructor
  · intro shows
    have fine := fine_of_shows valid positive small shows
    have ran : ∀ {chain' buf bytes}, chain.SameLayout chain' →
        runBytes range chain' buf = .ok bytes → Ran range chain' buf bytes :=
      fun same action => runBytes_ran (same.valid valid) positive small
        ((same.bytesFine_iff valid).mpr fine) action
    have order : ∀ nr < range.count, chain.unfound range nr → range.firstSec < range.lastSec := by
      intro nr below unfound
      refine order_of_shows valid shows fun bytes action wrapped => ?_
      obtain ⟨p, inside, here, _⟩ := first_byte positive below
      have same := chain.constant_layout 0
      refine ⟨p, inside, ((ran same action).wrapped wrapped p inside).1 ?_⟩
      rw [here]
      exact (same.unfound_iff valid fine below).mpr unfound
    have spillOrder : ∀ {p}, range.spills (chain.unfound range) p →
        range.firstSec < range.lastSec :=
      fun spilled => order 0 (ByteRange.count_pos positive) spilled.1
    refine ⟨fine, order, fun nr below unfound => ?_, fun p inside spilled => ?_,
      fun p inside unspilled => ?_⟩
    · obtain ⟨bytes, action, _⟩ := shows chain (.refl chain) fun _ => 0
      exact (ran (.refl chain) action).clears (order nr below unfound) nr below unfound
    · refine (unshown_iff valid (offset p)).mp fun chain' same => ?_
      obtain ⟨bytes, action, shown⟩ := shows chain' same fun _ => 0
      rw [← shown p inside]
      exact (ran same action).zero (spillOrder spilled) p inside
        ((same.spills_iff valid fine inside).mpr spilled)
    · have asks := asks_of_fine fine (ByteRange.nr_lt inside) trivial
      rw [← ByteRange.sector_nr inside] at asks
      refine (answers_iff valid asks (offset p)).mp fun chain' same => ?_
      obtain ⟨bytes, action, shown⟩ := shows chain' same fun _ => 0
      rw [← shown p inside]
      rcases Nat.lt_or_ge range.firstSec range.lastSec with inOrder | wrapped
      · exact ((ran same action).found inOrder p inside fun spilled =>
          unspilled ((same.spills_iff valid fine inside).mp spilled)).symm
      · refine (((ran same action).wrapped wrapped p inside).2 fun unfound => ?_).symm
        have unfound := (same.unfound_iff valid fine (ByteRange.nr_lt inside)).mp unfound
        exact absurd (order _ (ByteRange.nr_lt inside) unfound) (Nat.not_lt.mpr wrapped)
  · rintro ⟨fine, order, clears, spilled, answers⟩ chain' same buf
    have fine' := (same.bytesFine_iff valid).mpr fine
    have clears' : range.ClearFits (chain'.unfound range) := fun nr below unfound =>
      clears nr below ((same.unfound_iff valid fine below).mp unfound)
    obtain ⟨bytes, action⟩ := runBytes_isOk (same.valid valid) positive small fine' clears' buf
    refine ⟨bytes, action, fun p inside => ?_⟩
    have ran := runBytes_ran (same.valid valid) positive small fine' action
    have spills := same.spills_iff valid fine inside
    by_cases spill : range.spills (chain.unfound range) p
    · rw [ran.zero (order 0 (ByteRange.count_pos positive) spill.1) p inside (spills.mpr spill)]
      exact ((unshown_iff valid (offset p)).mpr (spilled p inside spill) chain' same).symm
    · have asks := asks_of_fine fine (ByteRange.nr_lt inside) trivial
      rw [← ByteRange.sector_nr inside] at asks
      rw [← (answers_iff valid asks (offset p)).mpr (answers p inside spill) chain' same]
      rcases Nat.lt_or_ge range.firstSec range.lastSec with inOrder | wrapped
      · exact ran.found inOrder p inside fun h => spill (spills.mp h)
      · refine (ran.wrapped wrapped p inside).2 fun unfound => ?_
        have unfound := (same.unfound_iff valid fine (ByteRange.nr_lt inside)).mp unfound
        exact absurd (order _ (ByteRange.nr_lt inside) unfound) (Nat.not_lt.mpr wrapped)

theorem showsSectors_iff (whole : range.whole) :
    ShowsSectors chain (range.off / 512) (range.size / 512) ↔
      ∃ sectors, vhdIoRead chain (range.off / 512) (range.size / 512) = .ok sectors ∧
        ∀ p < range.size, sectors p =
          chain.byte ((range.off + p) / 512) ((range.off + p) % 512) := by
  obtain ⟨⟨first, start⟩, ⟨secs, size⟩, _⟩ := whole
  refine exists_congr fun sectors => and_congr_right fun _ => ?_
  rw [start, size, Nat.mul_div_cancel_left _ (by omega : 0 < 512),
    Nat.mul_div_cancel_left _ (by omega : 0 < 512)]
  constructor
  · intro shown p inside
    have byte := shown (p / 512) (by omega) (p % 512) (by omega)
    rw [Nat.div_add_mod'] at byte
    rw [byte, show (512 * first + p) / 512 = first + p / 512 by omega,
      show (512 * first + p) % 512 = p % 512 by omega]
  · intro shown nr below o small
    have byte := shown (nr * 512 + o) (by omega)
    rw [byte, show (512 * first + (nr * 512 + o)) / 512 = first + nr by omega,
      show (512 * first + (nr * 512 + o)) % 512 = o by omega]

theorem showsBytes_dynamic (valid : chain.Valid) (positive : 0 < range.size)
    (inside : range.off + range.size ≤ chain.top.currSize)
    (dynamic : chain.top.typeDynamic = true) :
    (∀ chain', chain.SameLayout chain' → ShowsBytes chain' range) ↔
      range.mapFits = true ∧ RunShows range chain ∧ (range.whole →
        ∀ chain', chain.SameLayout chain' →
          ShowsSectors chain' (range.off / 512) (range.size / 512)) := by
  have reads : ∀ chain', chain.SameLayout chain' → ∀ buf, vhdIoReadBytes chain' range buf =
      if range.mapFits = true then runBytes range chain' buf else .undefined := by
    intro chain' same buf
    have type : chain'.top.typeDynamic = true := by rw [same.top.fields]; exact dynamic
    have size : chain'.top.currSize = chain.top.currSize := by rw [same.top.fields]
    exact vhdIoReadBytes_dynamic (same.valid valid) type (size ▸ inside) buf
  constructor
  · intro shows
    have fits : range.mapFits = true := by
      obtain ⟨bytes, action, _⟩ := shows chain (.refl chain) (fun _ => 0) 0 positive
      by_contra small
      rw [reads chain (.refl chain), if_neg small] at action
      cases action
    refine ⟨fits, fun chain' same buf => ?_, fun whole chain' same => ?_⟩
    · obtain ⟨bytes, action, _⟩ := shows chain' same buf 0 positive
      rw [reads chain' same, if_pos fits] at action
      refine ⟨bytes, action, fun p inside => ?_⟩
      obtain ⟨bytes', action', shown, _⟩ := shows chain' same buf p inside
      rw [reads chain' same, if_pos fits, action] at action'
      cases action'
      exact shown
    · obtain ⟨_, _, _, sectors⟩ := shows chain' same (fun _ => 0) 0 positive
      obtain ⟨sectors, action, _⟩ := sectors whole
      refine (showsSectors_iff whole).mpr ⟨sectors, action, fun p inside => ?_⟩
      obtain ⟨bytes, _, shown, equal⟩ := shows chain' same (fun _ => 0) p inside
      obtain ⟨sectors', action', equal⟩ := equal whole
      rw [action] at action'
      cases action'
      rw [equal, shown]
  · rintro ⟨fits, shows, sectors⟩ chain' same buf p inside
    obtain ⟨bytes, action, shown⟩ := shows chain' same buf
    refine ⟨bytes, by rw [reads chain' same, if_pos fits, action], shown p inside, fun whole => ?_⟩
    obtain ⟨sectors, action, equal⟩ := (showsSectors_iff whole).mp (sectors whole chain' same)
    exact ⟨sectors, action, by rw [equal p inside, shown p inside]⟩

end Run

theorem ByteRange.whole.inside {range : ByteRange} {size : Nat} (whole : range.whole)
    (inside : range.off + range.size ≤ size) :
    (range.off / 512 + range.size / 512) * 512 ≤ size := by
  obtain ⟨start, size, _⟩ := whole
  rw [Nat.add_mul, Nat.div_mul_cancel start, Nat.div_mul_cancel size]
  exact inside

theorem showsBytes_fixed {chain : Chain} {range : ByteRange} (valid : chain.Valid)
    (inside : range.off + range.size ≤ chain.top.currSize)
    (fixed : ¬ chain.top.typeDynamic = true) : ShowsBytes chain range := by
  obtain ⟨vhd, rfl, validFixed⟩ := Chain.fixed_base valid fixed
  intro buf p below
  have room : range.off + range.size ≤ vhd.file.size :=
    inside.trans (Nat.le_of_add_right_le validFixed.2)
  have action : vhdIoReadBytes (.base vhd) range buf =
      .ok fun i => vhd.file.byte (range.off + i) := by
    unfold vhdIoReadBytes
    dsimp only
    rw [if_neg (show ¬ (Chain.base vhd).top.currSize < _ from Nat.not_lt.mpr inside),
      if_pos (show (!(Chain.base vhd).top.typeDynamic) = true by simpa [Chain.top] using fixed)]
    exact File.read_ok room
  have held : vhd.holds ((range.off + p) / 512) := by
    refine ⟨?_, fun h => absurd h fixed⟩
    have : range.off + range.size ≤ vhd.currSize := inside
    omega
  have shown : vhd.file.byte (range.off + p) =
      (Chain.base vhd).byte ((range.off + p) / 512) ((range.off + p) % 512) := by
    rw [Chain.byte, if_pos held, Vhd.position, if_neg (show ¬ vhd.typeDynamic = true from fixed),
      Nat.div_add_mod']
  refine ⟨_, action, shown, fun whole => ?_⟩
  have sectors := vhdIoRead_fixed validFixed fixed (whole.inside inside)
  obtain ⟨sectors, action, equal⟩ := (showsSectors_iff whole).mp sectors
  exact ⟨sectors, action, by rw [equal p below, shown]⟩

/-- A byte read inside the disk has for each byte what the virtual disk shows, and on whole sectors
what a sector read has, whatever the disk contains, exactly when the chain is `ByteReadOk` there. -/
theorem vhdIoReadBytes_shows_iff {chain : Chain} {range : ByteRange} (valid : chain.Valid)
    (inside : range.off + range.size ≤ chain.top.currSize) :
    (∀ chain', chain.SameLayout chain' → ShowsBytes chain' range) ↔ chain.ByteReadOk range := by
  by_cases positive : 0 < range.size
  · by_cases dynamic : chain.top.typeDynamic = true
    · have sectors : ∀ whole : range.whole, (∀ chain', chain.SameLayout chain' →
          ShowsSectors chain' (range.off / 512) (range.size / 512)) ↔
            chain.SectorReadOk (range.off / 512) (range.size / 512) :=
        fun whole => sectorReads_dynamic valid (whole.inside inside) dynamic
      rw [showsBytes_dynamic valid positive inside dynamic]
      constructor
      · rintro ⟨fits, shows, whole⟩ _ _
        obtain ⟨fine, order, clears, spilled, answers⟩ :=
          (runShows_iff valid positive (ByteRange.mapFits_small fits)).mp shows
        exact ⟨fits, fine, order, clears, spilled, answers, fun h => (sectors h).mp (whole h)⟩
      · intro ok
        obtain ⟨fits, fine, order, clears, spilled, answers, whole⟩ := ok positive dynamic
        exact ⟨fits, (runShows_iff valid positive (ByteRange.mapFits_small fits)).mpr
          ⟨fine, order, clears, spilled, answers⟩, fun h => (sectors h).mpr (whole h)⟩
    · refine ⟨fun _ _ h => absurd h dynamic, fun _ chain' same => ?_⟩
      have type : ¬ chain'.top.typeDynamic = true := by rw [same.top.fields]; exact dynamic
      have size : chain'.top.currSize = chain.top.currSize := by rw [same.top.fields]
      exact showsBytes_fixed (same.valid valid) (size ▸ inside) type
  · exact ⟨fun _ h => absurd h positive, fun _ _ _ _ p below => by omega⟩

theorem vhdIoReadBytes_shows_halfImage :
    (∀ chain', (Chain.base halfImage).SameLayout chain' →
      ShowsBytes chain' ⟨2 ^ 21 + 100, 4000⟩) ↔
      (Chain.base halfImage).ByteReadOk ⟨2 ^ 21 + 100, 4000⟩ :=
  vhdIoReadBytes_shows_iff halfImage_valid (by decide)

theorem vhdIoReadBytes_clears_data :
    ∃ (chain : Chain) (range : ByteRange), chain.Valid ∧
      range.off + range.size ≤ chain.top.currSize ∧ chain.byte 4096 0 = 1 ∧
      ¬ ShowsBytes chain range := by
  have stored : (Chain.base halfImage).byte 4096 0 = 1 := by decide +kernel
  refine ⟨.base halfImage, ⟨2 ^ 21 - 1, 512⟩, halfImage_valid, by decide, stored, fun shows => ?_⟩
  obtain ⟨bytes, action, shown, _⟩ := shows (fun _ => 0) 1 (by decide)
  have cleared : (vhdIoReadBytes (.base halfImage) ⟨2 ^ 21 - 1, 512⟩ fun _ => 0).meets
      (fun bytes => bytes 1 = 0) = true := by decide +kernel
  rw [action] at cleared
  have zero : bytes 1 = 0 := of_decide_eq_true cleared
  have place : (2 ^ 21 - 1 + 1) / 512 = 4096 ∧ (2 ^ 21 - 1 + 1) % 512 = 0 := by decide
  rw [place.1, place.2, stored] at shown
  exact UInt8.zero_ne_one (zero.symm.trans shown)

end Blktap.Libvhd
