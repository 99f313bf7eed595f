import Mathlib.Data.List.Perm.Basic
import Blktap.Tapdisk.Forward

/-! # What a forwarded request comes to -/

namespace Blktap.Tapdisk

def sectorsAt (sec buf secs : Nat) : List (Nat × Nat) :=
  (List.range secs).map fun i => (sec + i, buf + i)

def Treq.sectors (treq : Treq) : List (Nat × Nat) := sectorsAt treq.sec treq.buf treq.secs

def Done.sectors {α : Type} (done : Done α) : List (Nat × Nat) := sectorsAt done.sec done.buf done.secs

/-- A range of 64-bit sector numbers, of as many as an `int` counts. -/
def Treq.Fits (treq : Treq) : Prop := treq.sec + treq.secs ≤ 2 ^ 64 ∧ treq.secs < 2 ^ 31

def forwardedParts (op : Op) : Nat → Nat → List Part → List Treq
  | _, _, [] => []
  | sec, buf, part :: parts =>
      (match part.answer with
        | .forward true => [{ op, sec, secs := part.secs, buf }]
        | _ => []) ++
      forwardedParts op (sec + part.secs) (buf + part.secs) parts

def ForwardsInside {α : Type} : List (Image α) → Treq → Prop
  | [], _ => True
  | image :: below, treq => image.check treq = 0 →
      ∀ part ∈ forwardedParts treq.op treq.sec treq.buf (image.split treq),
        (∃ parent, below.head? = some parent ∧ (part.sec + part.secs) % 2 ^ 64 ≤ parent.size) ∧
        ForwardsInside below part

section Sectors
variable {α : Type} {zero : α} {image : Image α} {images below : List (Image α)} {treq : Treq}
  {op : Op} {sec buf a b : Nat} {parts : List Part}

theorem sectorsAt_add : sectorsAt sec buf (a + b) = sectorsAt sec buf a ++ sectorsAt (sec + a) (buf + a) b := by
  unfold sectorsAt
  rw [List.range_add, List.map_append, List.map_map]
  congr 1
  apply List.map_congr_left
  intro i _
  simp only [Function.comp_apply, Nat.add_assoc]

theorem mem_sectorsAt {x : Nat × Nat} (member : x ∈ sectorsAt sec buf a) : sec ≤ x.1 ∧ x.1 < sec + a := by
  unfold sectorsAt at member
  simp only [List.mem_map, List.mem_range] at member
  obtain ⟨i, small, rfl⟩ := member
  exact ⟨Nat.le_add_right _ _, Nat.add_lt_add_left small _⟩

def Covers (dones : List (Done α)) (sectors : List (Nat × Nat)) : Prop :=
  (dones.flatMap Done.sectors).Perm sectors

theorem covers_single (res : Int) (data : Option (Nat → α)) : Covers [treq.done res data] treq.sectors := by
  unfold Covers
  rw [List.flatMap_singleton]
  exact .refl _

theorem Covers.append {first second : List (Done α)} {sectors sectors' : List (Nat × Nat)}
    (left : Covers first sectors) (right : Covers second sectors') :
    Covers (first ++ second) (sectors ++ sectors') := by
  unfold Covers at *
  rw [List.flatMap_append]
  exact left.append right

theorem answer_covers {forward : Bool → Treq → List (Done α)}
    (each : ∀ ready treq, Covers (forward ready treq) treq.sectors) :
    Covers (image.answer zero forward op sec buf parts)
      (sectorsAt sec buf (parts.map Part.secs).sum) := by
  induction parts generalizing sec buf with
  | nil => exact .refl _
  | cons part parts ih =>
      rw [List.map_cons, List.sum_cons, sectorsAt_add]
      unfold Image.answer
      refine Covers.append ?_ ih
      cases part.answer with
      | serve => exact covers_single _ _
      | fail code => exact covers_single _ _
      | forward ready => exact each ready _

theorem reissue_covers {parent : Option (Image α)} {queue : Treq → List (Done α)}
    (each : parent.isSome = true → ∀ treq, Covers (queue treq) treq.sectors) (treq : Treq) :
    Covers (reissue zero parent queue treq) treq.sectors := by
  unfold reissue
  cases parent with
  | none => exact covers_single _ _
  | some parent =>
      have each := each rfl
      dsimp only
      split
      · rename_i beyond
        have most := Nat.mod_le (treq.sec + treq.secs) (2 ^ 64)
        split
        · rename_i before
          have part : parent.size - treq.sec + (treq.secs - (parent.size - treq.sec)) = treq.secs := by omega
          rw [if_neg (by omega)]
          have whole : treq.sectors = sectorsAt treq.sec treq.buf (parent.size - treq.sec) ++
              (treq.skip (parent.size - treq.sec)).sectors := by
            unfold Treq.sectors
            rw [← part, sectorsAt_add]
            rfl
          rw [whole]
          have inside := each { treq with secs := parent.size - treq.sec }
          have zeros := @covers_single α (treq.skip (parent.size - treq.sec)) 0
            (some fun _ => zero)
          exact (zeros.append inside).trans List.perm_append_comm
        · exact covers_single _ _
      · exact each treq

theorem queueRequest_covers (some : images ≠ []) (treq : Treq) :
    Covers (queueRequest zero images treq) treq.sectors := by
  induction images generalizing treq with
  | nil => exact absurd rfl some
  | cons image below ih =>
      unfold queueRequest
      split
      · exact covers_single _ _
      · have whole : treq.sectors = sectorsAt treq.sec treq.buf ((image.split treq).map Part.secs).sum := by
          rw [image.covers]
          rfl
        rw [whole]
        apply answer_covers
        intro ready part
        unfold forward
        split
        · apply reissue_covers
          intro parent
          apply ih
          rintro rfl
          cases parent
        · exact covers_single _ _

end Sectors

theorem forwardedParts_op {op : Op} {sec buf : Nat} {parts : List Part} {treq : Treq}
    (member : treq ∈ forwardedParts op sec buf parts) : treq.op = op := by
  induction parts generalizing sec buf with
  | nil => cases member
  | cons part parts ih =>
      unfold forwardedParts at member
      rcases List.mem_append.mp member with here | later
      · split at here
        · rw [List.mem_singleton.mp here]
        · cases here
      · exact ih later

section Reads
variable {α : Type} {zero : α} {image : Image α} {images below : List (Image α)} {treq : Treq}
  {op : Op} {sec buf : Nat} {parts : List Part} {done : Done α}

def Done.Shows (done : Done α) (shown : Nat → α) : Prop :=
  done.res = 0 → ∃ data, done.data = some data ∧ ∀ i < done.secs, data i = shown (done.sec + i)

theorem chainData_cons (x : Nat) : chainData zero (image :: below) x =
    if image.size ≤ x then zero else (image.content x).getD (chainData zero below x) := rfl

theorem chainData_beyond {x : Nat} (beyond : 2 ^ 55 ≤ x) : chainData zero images x = zero := by
  cases images with
  | nil => rfl
  | cons image below => exact if_pos (Nat.le_trans (Nat.le_of_lt image.size_lt) beyond)

theorem Covers.inside {dones : List (Done α)} (covers : Covers dones treq.sectors) (member : done ∈ dones)
    {i : Nat} (small : i < done.secs) : treq.sec ≤ done.sec + i ∧ done.sec + i < treq.sec + treq.secs := by
  have place : (done.sec + i, done.buf + i) ∈ done.sectors :=
    List.mem_map.mpr ⟨i, List.mem_range.mpr small, rfl⟩
  exact mem_sectorsAt (covers.mem_iff.mp (List.mem_flatMap.mpr ⟨done, member, place⟩))

theorem Treq.zeros_shows {shown : Nat → α} (nothing : ∀ x, treq.sec ≤ x → shown x = zero) :
    (treq.zeros zero).Shows shown :=
  fun _ => ⟨_, rfl, fun i _ => (nothing _ (Nat.le_add_right _ i)).symm⟩

theorem reissue_shows {queue : Treq → List (Done α)} (fits : treq.Fits) (read : treq.op = .read)
    (each : ∀ treq : Treq, treq.Fits → treq.op = .read → ∀ done ∈ queue treq,
      done.Shows (chainData zero below)) (member : done ∈ reissue zero below.head? queue treq) :
    done.Shows (chainData zero below) := by
  unfold reissue at member
  cases below with
  | nil =>
      rw [List.mem_singleton.mp member]
      exact Treq.zeros_shows fun _ _ => rfl
  | cons parent rest =>
      dsimp only [List.head?_cons] at member
      by_cases beyond : parent.size < (treq.sec + treq.secs) % 2 ^ 64
      · rw [if_pos beyond] at member
        by_cases before : treq.sec < parent.size
        · rw [if_pos before, if_neg (by omega)] at member
          rcases List.mem_cons.mp member with first | inside
          · rw [first]
            apply Treq.zeros_shows
            intro x behind
            exact if_pos (Nat.le_trans (by omega) (show treq.sec + (parent.size - treq.sec) ≤ x from behind))
          · have most := Nat.mod_le (treq.sec + treq.secs) (2 ^ 64)
            obtain ⟨range, few⟩ := fits
            have part : ({ treq with secs := parent.size - treq.sec } : Treq).Fits :=
              ⟨by dsimp only; omega, by dsimp only; omega⟩
            exact each _ part read done inside
        · rw [if_neg before, if_pos rfl] at member
          rw [List.mem_singleton.mp member]
          apply Treq.zeros_shows
          intro x behind
          exact if_pos (Nat.le_trans (Nat.not_lt.mp before) (show treq.sec ≤ x from behind))
      · rw [if_neg beyond] at member
        exact each treq fits read done member

theorem answer_shows {queue : Bool → Treq → List (Done α)}
    (honest : Honest image.size image.content .read sec parts)
    (fits : sec + (parts.map Part.secs).sum ≤ 2 ^ 64 ∧ (parts.map Part.secs).sum < 2 ^ 31)
    (reach : sec + (parts.map Part.secs).sum ≤ image.size ∨ 2 ^ 55 ≤ sec)
    (covers : ∀ ready treq, Covers (queue ready treq) treq.sectors)
    (each : ∀ ready treq, treq.Fits → treq.op = .read → ∀ done ∈ queue ready treq,
      done.Shows (chainData zero below))
    (member : done ∈ image.answer zero queue .read sec buf parts) :
    done.Shows (chainData zero (image :: below)) := by
  induction parts generalizing sec buf with
  | nil => cases member
  | cons part parts ih =>
      obtain ⟨own, rest⟩ := honest
      rw [List.map_cons, List.sum_cons] at fits reach
      unfold Image.answer at member
      rcases List.mem_append.mp member with here | later
      · cases kind : part.answer with
        | serve =>
            rw [kind] at here own
            rw [List.mem_singleton.mp here]
            refine fun _ => ⟨_, rfl, fun i small => ?_⟩
            have inside := own (sec + i) (Nat.le_add_right _ _) (Nat.add_lt_add_left small _)
            obtain ⟨value, held⟩ := Option.ne_none_iff_exists'.mp (inside.2 rfl)
            rw [chainData_cons]
            change (image.content (sec + i)).getD zero =
              if image.size ≤ sec + i then zero else (image.content (sec + i)).getD _
            rw [if_neg (Nat.not_le.mpr inside.1), held]
            rfl
        | fail code =>
            rw [kind] at here own
            rw [List.mem_singleton.mp here]
            exact fun works => absurd works own
        | forward ready =>
            rw [kind] at here own
            dsimp only at here own
            intro works
            obtain ⟨data, found, shows⟩ := each ready _ ⟨by dsimp only; omega, by dsimp only; omega⟩ rfl done here works
            refine ⟨data, found, fun i small => ?_⟩
            obtain ⟨low, high⟩ := (covers ready _).inside here small
            dsimp only at low high
            have absent := own rfl (done.sec + i) low high
            rw [shows i small, chainData_cons, absent]
            split
            · rename_i behind
              exact chainData_beyond (by omega)
            · rfl
      · exact ih rest (by omega) (by omega) later

theorem queueRequest_shows (fits : treq.Fits) (read : treq.op = .read)
    (member : done ∈ queueRequest zero images treq) : done.Shows (chainData zero images) := by
  induction images generalizing treq done with
  | nil => cases member
  | cons image below ih =>
      unfold queueRequest at member
      split at member
      · rename_i refused
        rw [List.mem_singleton.mp member]
        exact fun works => absurd works refused
      · rename_i passes
        have honest := image.honest treq
        rw [read] at honest member
        have sum := image.covers treq
        have reach : treq.sec + treq.secs ≤ image.size ∨ 2 ^ 55 ≤ treq.sec := by
          unfold Image.check at passes
          obtain ⟨range, few⟩ := fits
          split_ifs at passes with _ short
          · exact absurd passes (by decide)
          · exact absurd passes (by decide)
          · by_cases wraps : treq.sec + treq.secs < 2 ^ 64
            · rw [Nat.mod_eq_of_lt wraps] at short
              omega
            · omega
        refine answer_shows honest (sum ▸ fits) (sum ▸ reach) (fun ready part => ?_)
          (fun ready part fits read done member => ?_) member
        · unfold forward
          split
          · apply reissue_covers
            intro parent
            apply queueRequest_covers
            rintro rfl
            cases parent
          · exact covers_single _ _
        · unfold forward at member
          split at member
          · exact reissue_shows fits read (fun _ fits read _ member => ih fits read member) member
          · rw [List.mem_singleton.mp member]
            exact nofun

end Reads

section Writes
variable {α : Type} {zero : α} {image : Image α} {images below : List (Image α)} {treq : Treq}
  {sec buf : Nat} {parts : List Part} {done : Done α}

def Untouched (dones : List (Done α)) : Prop := ∀ done ∈ dones, done.data = none

theorem untouched_append {first second : List (Done α)} :
    Untouched (first ++ second) ↔ Untouched first ∧ Untouched second :=
  List.forall_mem_append

theorem untouched_single (res : Int) : Untouched [treq.done (α := α) res none] :=
  List.forall_mem_singleton.mpr rfl

theorem reissue_untouched {queue : Treq → List (Done α)} :
    Untouched (reissue zero below.head? queue treq) ↔
      (∃ parent, below.head? = some parent ∧ (treq.sec + treq.secs) % 2 ^ 64 ≤ parent.size) ∧
        Untouched (queue treq) := by
  have zeros : ∀ (treq : Treq) (rest : List (Done α)), ¬ Untouched (treq.zeros zero :: rest) := by
    intro treq rest untouched
    cases untouched _ (List.mem_cons_self ..)
  unfold reissue
  cases below with
  | nil =>
      refine ⟨fun untouched => absurd untouched (zeros _ _), ?_⟩
      rintro ⟨⟨_, none, _⟩, _⟩
      cases none
  | cons parent rest =>
      dsimp only [List.head?_cons]
      split
      · rename_i beyond
        refine ⟨fun untouched => absurd untouched (zeros _ _), ?_⟩
        rintro ⟨⟨_, found, fits⟩, _⟩
        cases found
        exact absurd beyond (Nat.not_lt.mpr fits)
      · rename_i fits
        exact ⟨fun untouched => ⟨⟨parent, rfl, Nat.not_lt.mp fits⟩, untouched⟩, fun inside => inside.2⟩

theorem answer_untouched {queue : Treq → List (Done α)} :
    Untouched (image.answer zero (fun ready => forward zero ready below.head? queue) .write sec buf parts) ↔
      ∀ part ∈ forwardedParts .write sec buf parts,
        (∃ parent, below.head? = some parent ∧ (part.sec + part.secs) % 2 ^ 64 ≤ parent.size) ∧
          Untouched (queue part) := by
  induction parts generalizing sec buf with
  | nil => exact ⟨fun _ _ member => absurd member List.not_mem_nil, fun _ _ member => absurd member List.not_mem_nil⟩
  | cons part parts ih =>
      unfold Image.answer forwardedParts
      rw [untouched_append, ih, List.forall_mem_append]
      apply and_congr_left
      intro _
      cases part.answer with
      | serve => simp [Untouched, Image.served, Treq.done]
      | fail code => simp [Untouched, Treq.done]
      | forward ready =>
          cases ready with
          | true =>
              rw [List.forall_mem_singleton]
              exact reissue_untouched
          | false => simp [Untouched, forward, Treq.done]

theorem queueRequest_untouched (write : treq.op = .write) :
    Untouched (queueRequest zero images treq) ↔ ForwardsInside images treq := by
  induction images generalizing treq with
  | nil => exact ⟨fun _ => trivial, fun _ _ member => absurd member List.not_mem_nil⟩
  | cons image below ih =>
      unfold queueRequest ForwardsInside
      split
      · rename_i refused
        exact ⟨fun _ passes => absurd passes refused, fun _ => untouched_single _⟩
      · rename_i passes
        rw [not_not] at passes
        rw [write, answer_untouched]
        have ops : ∀ part ∈ forwardedParts .write treq.sec treq.buf (image.split treq), part.op = .write :=
          fun part member => forwardedParts_op member
        constructor
        · intro inside _ part member
          exact (inside part member).imp_right (ih (ops part member)).mp
        · intro inside part member
          exact (inside passes part member).imp_right (ih (ops part member)).mpr

def Done.Within (images : List (Image α)) (done : Done α) : Prop :=
  done.res = 0 → done.data = none → ∃ image ∈ images, done.sec + done.secs ≤ image.size

theorem reissue_within {queue : Treq → List (Done α)} (write : treq.op = .write)
    (each : ∀ treq : Treq, treq.op = .write → ∀ done ∈ queue treq, done.Within below)
    (member : done ∈ reissue zero below.head? queue treq) : done.Within below := by
  have zeros : ∀ treq : Treq, (treq.zeros zero).Within below := fun _ _ unfilled => by cases unfilled
  unfold reissue at member
  cases below with
  | nil =>
      rw [List.mem_singleton.mp member]
      exact zeros treq
  | cons parent rest =>
      dsimp only [List.head?_cons] at member
      by_cases beyond : parent.size < (treq.sec + treq.secs) % 2 ^ 64
      · rw [if_pos beyond] at member
        by_cases before : treq.sec < parent.size
        · rw [if_pos before, if_neg (by omega)] at member
          rcases List.mem_cons.mp member with first | inside
          · rw [first]
            exact zeros _
          · exact each { treq with secs := parent.size - treq.sec } write done inside
        · rw [if_neg before, if_pos rfl] at member
          rw [List.mem_singleton.mp member]
          exact zeros _
      · rw [if_neg beyond] at member
        exact each treq write done member

theorem queueRequest_within (write : treq.op = .write) (member : done ∈ queueRequest zero images treq) :
    done.Within images := by
  induction images generalizing treq done with
  | nil => cases member
  | cons image below ih =>
      unfold queueRequest at member
      split at member
      · rename_i refused
        rw [List.mem_singleton.mp member]
        exact fun works => absurd works refused
      · have honest := image.honest treq
        have positive := image.positive treq
        rw [write] at honest member
        revert member honest positive
        generalize image.split treq = parts
        generalize treq.sec = sec
        generalize treq.buf = buf
        intro member honest positive
        induction parts generalizing sec buf with
        | nil => cases member
        | cons part parts more =>
            obtain ⟨own, rest⟩ := honest
            have some := positive part (List.mem_cons_self ..)
            unfold Image.answer at member
            rcases List.mem_append.mp member with here | later
            · cases kind : part.answer with
              | serve =>
                  rw [kind] at here own
                  rw [List.mem_singleton.mp here]
                  refine fun _ _ => ⟨image, List.mem_cons_self .., ?_⟩
                  have last := (own (sec + part.secs - 1) (by omega) (by omega)).1
                  change sec + part.secs ≤ image.size
                  omega
              | fail code =>
                  rw [kind] at here own
                  rw [List.mem_singleton.mp here]
                  exact fun works => absurd works own
              | forward ready =>
                  rw [kind] at here
                  dsimp only at here
                  unfold forward at here
                  split at here
                  · intro works unfilled
                    obtain ⟨lower, member, fits⟩ := reissue_within rfl
                      (fun _ write _ member => ih write member) here works unfilled
                    exact ⟨lower, List.mem_cons_of_mem _ member, fits⟩
                  · rw [List.mem_singleton.mp here]
                    exact nofun
            · exact more _ _ later rest fun part member => positive part (List.mem_cons_of_mem _ member)

end Writes

section Right
variable {α : Type} {zero : α} {images : List (Image α)} {treq : Treq}

/-- Every sector is answered once, a read with what the chain shows, a write by an image that has its sectors. -/
structure Right (zero : α) (images : List (Image α)) (treq : Treq) : Prop where
  once : Covers (queueRequest zero images treq) treq.sectors
  read : treq.op = .read → ∀ done ∈ queueRequest zero images treq, done.Shows (chainData zero images)
  write : treq.op = .write → ∀ done ∈ queueRequest zero images treq, done.data = none ∧
    (done.res = 0 → ∃ image ∈ images, done.sec + done.secs ≤ image.size)

/-- All reads are answered right, and a write exactly when whatever is forwarded of it fits in the image
below. -/
theorem queueRequest_right_iff (chain : images ≠ []) (fits : treq.Fits) :
    Right zero images treq ↔ (treq.op = .write → ForwardsInside images treq) := by
  constructor
  · intro right write
    exact (queueRequest_untouched write).mp fun done member => (right.write write done member).1
  · intro inside
    refine ⟨queueRequest_covers chain treq, fun read done member => queueRequest_shows fits read member,
      fun write done member => ?_⟩
    have unfilled := (queueRequest_untouched write).mpr (inside write) done member
    exact ⟨unfilled, fun works => queueRequest_within write member works unfilled⟩

end Right

def filterImage : Image Nat where
  size := 16
  rdonly := false
  content := fun _ => none
  split := fun treq => if treq.secs = 0 then [] else [⟨treq.secs, .forward true⟩]
  size_lt := by decide
  inside := fun _ _ => rfl
  covers := by
    intro treq
    split
    · rename_i none
      simp [none]
    · simp
  positive := by
    intro treq part member
    split at member
    · cases member
    · rw [List.mem_singleton.mp member]
      exact Nat.pos_of_ne_zero ‹_›
  honest := by
    intro treq
    split
    · trivial
    · exact ⟨fun _ _ _ _ => rfl, trivial⟩

def smallImage : Image Nat where
  size := 8
  rdonly := false
  content := fun x => if x < 8 then some 7 else none
  split := fun treq =>
    if treq.secs = 0 then []
    else if treq.sec + treq.secs ≤ 8 then [⟨treq.secs, .serve⟩] else [⟨treq.secs, .fail (-einval)⟩]
  size_lt := by decide
  inside := fun x beyond => if_neg (Nat.not_lt.mpr beyond)
  covers := by
    intro treq
    split_ifs with none
    · simp [none]
    · simp
    · simp
  positive := by
    intro treq part member
    split_ifs at member
    · cases member
    · rw [List.mem_singleton.mp member]
      exact Nat.pos_of_ne_zero ‹_›
    · rw [List.mem_singleton.mp member]
      exact Nat.pos_of_ne_zero ‹_›
  honest := by
    intro treq
    split_ifs with _ fits
    · trivial
    · refine ⟨fun x _ high => ⟨Nat.lt_of_lt_of_le high fits, fun _ => ?_⟩, trivial⟩
      have small : x < 8 := Nat.lt_of_lt_of_le high fits
      simp [small]
    · exact ⟨(by decide : -einval ≠ 0), trivial⟩

theorem queueRequest_right_smallImage :
    Right 0 [filterImage, smallImage] ⟨.read, 6, 4, 0⟩ ↔
      (Op.read = .write → ForwardsInside [filterImage, smallImage] ⟨.read, 6, 4, 0⟩) :=
  queueRequest_right_iff (by simp) ⟨by decide, by decide⟩

theorem queueRequest_clears_write :
    ∃ done ∈ queueRequest 0 [filterImage, smallImage] ⟨.write, 8, 1, 0⟩,
      done.res = 0 ∧ ∃ data, done.data = some data ∧ data 0 = 0 :=
  ⟨_, List.mem_singleton.mpr rfl, rfl, _, rfl, rfl⟩

end Blktap.Tapdisk
