import Blktap.Lib.Record
import Mathlib.Algebra.BigOperators.Group.List.Basic
import Mathlib.Algebra.Ring.Nat
import Mathlib.Data.List.Perm.Basic

/-! # Swapping the byte order of fields in place -/

namespace Blktap.Lib
variable {α : Type} {field other : Nat × Nat} {fields : List (Nat × Nat)} {bytes : Nat → α} {p n off : Nat}

def Within (field : Nat × Nat) (p : Nat) : Prop := field.1 ≤ p ∧ p < field.1 + field.2

instance : Decidable (Within field p) := inferInstanceAs (Decidable (_ ∧ _))

def mirror (field : Nat × Nat) (p : Nat) : Nat :=
  if Within field p then 2 * field.1 + field.2 - 1 - p else p

def swap (field : Nat × Nat) (bytes : Nat → α) (p : Nat) : α := bytes (mirror field p)

def swapAll (fields : List (Nat × Nat)) (bytes : Nat → α) : Nat → α :=
  fields.foldl (fun bytes field => swap field bytes) bytes

def swapped (fields : List (Nat × Nat)) (p : Nat) : Nat :=
  match fields with
  | [] => p
  | field :: fields => mirror field (swapped fields p)

def FieldsApart (field other : Nat × Nat) : Prop :=
  field.1 + field.2 ≤ other.1 ∨ other.1 + other.2 ≤ field.1

instance : DecidableRel FieldsApart := fun _ _ => inferInstanceAs (Decidable (_ ∨ _))

theorem mirror_within : Within field (mirror field p) ↔ Within field p := by
  unfold mirror
  split
  · next inside =>
      simp only [inside, iff_true]
      unfold Within at *
      omega
  · rfl

theorem mirror_mirror : mirror field (mirror field p) = p := by
  by_cases inside : Within field p
  · have there := mirror_within.mpr inside
    rw [mirror, if_pos there, mirror, if_pos inside]
    unfold Within at inside
    omega
  · have there := mirror_within.not.mpr inside
    rw [mirror, if_neg there, mirror, if_neg inside]

theorem mirror_outside (outside : ¬ Within field p) : mirror field p = p := if_neg outside

theorem within_mirror (apart : FieldsApart field other) :
    Within other (mirror field p) ↔ Within other p := by
  by_cases inside : Within field p
  · have there := mirror_within.mpr inside
    unfold FieldsApart at apart
    unfold Within at *
    omega
  · rw [mirror_outside inside]

theorem mirror_lt (below : field.1 + field.2 ≤ n) : mirror field p < n ↔ p < n := by
  by_cases inside : Within field p
  · have there := mirror_within.mpr inside
    unfold Within at *
    omega
  · rw [mirror_outside inside]

theorem swapAll_eq : swapAll fields bytes p = bytes (swapped fields p) := by
  unfold swapAll
  induction fields generalizing bytes with
  | nil => rfl
  | cons field fields ih =>
      rw [List.foldl_cons, ih]
      rfl

theorem swapped_outside (outside : ∀ field ∈ fields, ¬ Within field p) : swapped fields p = p := by
  induction fields with
  | nil => rfl
  | cons field fields ih =>
      rw [swapped, ih fun other member => outside other (List.mem_cons_of_mem _ member)]
      exact mirror_outside (outside field List.mem_cons_self)

theorem swapped_within (apart : fields.Pairwise FieldsApart) (member : field ∈ fields)
    (inside : Within field p) : swapped fields p = mirror field p := by
  induction fields with
  | nil => simp at member
  | cons first fields ih =>
      obtain ⟨front, rest⟩ := List.pairwise_cons.mp apart
      rw [swapped]
      cases List.mem_cons.mp member with
      | inl here =>
          subst here
          congr 1
          apply swapped_outside
          intro other later there
          have := front other later
          unfold FieldsApart at this
          unfold Within at *
          omega
      | inr later =>
          rw [ih rest later]
          apply mirror_outside
          intro there
          have both := (within_mirror (Or.symm (front field later))).mp there
          have := front field later
          unfold FieldsApart at this
          unfold Within at *
          omega

theorem swapped_swapped (apart : fields.Pairwise FieldsApart) : swapped fields (swapped fields p) = p := by
  by_cases inside : ∃ field ∈ fields, Within field p
  · obtain ⟨field, member, inside⟩ := inside
    rw [swapped_within apart member inside, swapped_within apart member (mirror_within.mpr inside)]
    exact mirror_mirror
  · have outside : ∀ field ∈ fields, ¬ Within field p := fun field member there => inside ⟨field, member, there⟩
    rw [swapped_outside outside, swapped_outside outside]

theorem swapAll_swapAll (apart : fields.Pairwise FieldsApart) : swapAll fields (swapAll fields bytes) = bytes := by
  funext p
  rw [swapAll_eq, swapAll_eq, swapped_swapped apart]

theorem swapAll_outside (outside : ∀ field ∈ fields, ¬ Within field p) : swapAll fields bytes p = bytes p := by
  rw [swapAll_eq, swapped_outside outside]

theorem swapAll_update {value : α} (apart : fields.Pairwise FieldsApart)
    (outside : ∀ field ∈ fields, ¬ Within field p) :
    swapAll fields (Function.update bytes p value) = Function.update (swapAll fields bytes) p value := by
  have fixed := swapped_outside outside
  funext q
  rw [swapAll_eq]
  by_cases here : q = p
  · rw [here, fixed, Function.update_self, Function.update_self]
  · have there : swapped fields q ≠ p := by
      intro same
      apply here
      rw [← @swapped_swapped fields q apart, same, fixed]
    rw [Function.update_of_ne there, Function.update_of_ne here, swapAll_eq]

theorem swapped_lt (below : ∀ field ∈ fields, field.1 + field.2 ≤ n) : swapped fields p < n ↔ p < n := by
  induction fields with
  | nil => rfl
  | cons field fields ih =>
      rw [swapped, mirror_lt (below field List.mem_cons_self)]
      exact ih fun other member => below other (List.mem_cons_of_mem _ member)

theorem swapped_perm (apart : fields.Pairwise FieldsApart) (below : ∀ field ∈ fields, field.1 + field.2 ≤ n) :
    ((List.range n).map (swapped fields)).Perm (List.range n) := by
  have back : Function.LeftInverse (swapped fields) (swapped fields) := fun _ => swapped_swapped apart
  apply (List.perm_ext_iff_of_nodup (List.nodup_range.map back.injective) List.nodup_range).mpr
  intro q
  simp only [List.mem_map, List.mem_range]
  constructor
  · rintro ⟨p, small, rfl⟩
    exact (swapped_lt below).mpr small
  · intro small
    exact ⟨swapped fields q, (swapped_lt below).mpr small, swapped_swapped apart⟩

theorem sum_swapped (apart : fields.Pairwise FieldsApart) (below : ∀ field ∈ fields, field.1 + field.2 ≤ n)
    (term : Nat → Nat) :
    ((List.range n).map fun p => term (swapped fields p)).sum = ((List.range n).map term).sum := by
  have terms : ((List.range n).map fun p => term (swapped fields p)) =
      ((List.range n).map (swapped fields)).map term := by
    rw [List.map_map]
    rfl
  rw [terms]
  exact ((swapped_perm apart below).map term).sum_eq

theorem swapAll_within (apart : fields.Pairwise FieldsApart) (member : (off, n) ∈ fields) {i : Nat} (small : i < n) :
    swapAll fields bytes (off + i) = bytes (off + (n - 1 - i)) := by
  have inside : Within (off, n) (off + i) := by
    unfold Within
    omega
  rw [swapAll_eq, swapped_within apart member inside, mirror, if_pos inside]
  congr 1
  simp only
  omega

def le64 (byte : Nat → UInt8) (off : Nat) : Nat := le32 byte off + le32 byte (off + 4) * 2 ^ 32

section Numbers
variable {bytes : Nat → UInt8}

theorem le32_swapAll (apart : fields.Pairwise FieldsApart) (member : (off, 4) ∈ fields) :
    le32 (swapAll fields bytes) off = be32 bytes off := by
  have first := @swapAll_within _ _ bytes _ _ apart member 0 (by decide)
  have second := @swapAll_within _ _ bytes _ _ apart member 1 (by decide)
  have third := @swapAll_within _ _ bytes _ _ apart member 2 (by decide)
  have fourth := @swapAll_within _ _ bytes _ _ apart member 3 (by decide)
  simp only [Nat.add_zero, Nat.reduceSub] at first second third fourth
  unfold le32 be32
  rw [first, second, third, fourth]
  omega

theorem le64_swapAll (apart : fields.Pairwise FieldsApart) (member : (off, 8) ∈ fields) :
    le64 (swapAll fields bytes) off = be64 bytes off := by
  have byte : ∀ i < 8, swapAll fields bytes (off + i) = bytes (off + (7 - i)) := fun i small =>
    swapAll_within apart member small
  have low : le32 (swapAll fields bytes) off = be32 bytes (off + 4) := by
    have first := byte 0 (by decide)
    have second := byte 1 (by decide)
    have third := byte 2 (by decide)
    have fourth := byte 3 (by decide)
    simp only [Nat.add_zero, Nat.reduceSub] at first second third fourth
    unfold le32 be32
    rw [first, second, third, fourth]
    simp only [Nat.add_assoc, Nat.reduceAdd]
    omega
  have high : le32 (swapAll fields bytes) (off + 4) = be32 bytes off := by
    have first := byte 4 (by decide)
    have second := byte 5 (by decide)
    have third := byte 6 (by decide)
    have fourth := byte 7 (by decide)
    simp only [Nat.add_zero, Nat.reduceSub] at first second third fourth
    unfold le32 be32
    simp only [Nat.add_assoc, Nat.reduceAdd]
    rw [first, second, third, fourth]
    omega
  unfold le64 be64
  rw [low, high, Nat.add_comm]

def setLe32 (off value : Nat) (bytes : Nat → UInt8) (p : Nat) : UInt8 :=
  if Within (off, 4) p then leByte value (p - off) else bytes p

theorem setLe32_outside {value : Nat} (outside : ¬ Within (off, 4) p) : setLe32 off value bytes p = bytes p :=
  if_neg outside

theorem le32_setLe32 {value : Nat} (bound : value < 2 ^ 32) : le32 (setLe32 off value bytes) off = value := by
  have byte : ∀ i < 4, setLe32 off value bytes (off + i) = leByte value i := by
    intro i small
    have inside : Within (off, 4) (off + i) := by
      unfold Within
      omega
    rw [setLe32, if_pos inside, Nat.add_sub_cancel_left]
  have first := byte 0 (by decide)
  have second := byte 1 (by decide)
  have third := byte 2 (by decide)
  have fourth := byte 3 (by decide)
  simp only [Nat.add_zero] at first
  unfold le32
  rw [first, second, third, fourth]
  unfold leByte
  simp only [UInt8.toNat_ofNat', Nat.reduceMul, Nat.reducePow]
  omega

/-- The ones' complement of the sum of `size` bytes, with the word at `sum` taken as zero -/
def onesSum (size sum : Nat) (bytes : Nat → UInt8) : Nat :=
  2 ^ 32 - 1 -
    ((List.range size).map fun i => if sum ≤ i ∧ i < sum + 4 then 0 else (bytes i).toNat).sum % 2 ^ 32

variable {bytes' : Nat → UInt8} {size sum : Nat}

theorem onesSum_lt : onesSum size sum bytes < 2 ^ 32 := by
  unfold onesSum
  omega

theorem onesSum_congr (same : ∀ p < size, ¬ Within (sum, 4) p → bytes' p = bytes p) :
    onesSum size sum bytes' = onesSum size sum bytes := by
  unfold onesSum
  congr 3
  apply List.map_congr_left
  intro i member
  split
  · rfl
  · rw [same i (List.mem_range.mp member) ‹_›]

theorem onesSum_swapAll (apart : fields.Pairwise FieldsApart) (below : ∀ field ∈ fields, field.1 + field.2 ≤ size)
    (member : (sum, 4) ∈ fields) : onesSum size sum (swapAll fields bytes) = onesSum size sum bytes := by
  have keeps : ∀ p, Within (sum, 4) (swapped fields p) ↔ Within (sum, 4) p := by
    intro p
    by_cases inside : Within (sum, 4) p
    · rw [swapped_within apart member inside]
      exact mirror_within
    · refine iff_of_false (fun there => inside ?_) inside
      have back := mirror_within.mpr there
      rw [← swapped_within apart member there, swapped_swapped apart] at back
      exact back
  have terms : ((List.range size).map fun i =>
      if sum ≤ i ∧ i < sum + 4 then 0 else (swapAll fields bytes i).toNat) =
      (List.range size).map fun i =>
        if sum ≤ swapped fields i ∧ swapped fields i < sum + 4 then 0 else (bytes (swapped fields i)).toNat := by
    apply List.map_congr_left
    intro i _
    rw [swapAll_eq]
    exact if_congr (keeps i).symm rfl rfl
  have unseen := sum_swapped apart below fun q => if sum ≤ q ∧ q < sum + 4 then 0 else (bytes q).toNat
  unfold onesSum
  rw [terms, unseen]

theorem sum_map_update (term : Nat → Nat) (value : Nat) (small : p < size) :
    ((List.range size).map (Function.update term p value)).sum + term p =
      ((List.range size).map term).sum + value := by
  induction size with
  | zero => simp at small
  | succ size ih =>
      rw [List.range_succ, List.map_append, List.map_append, List.sum_append, List.sum_append]
      simp only [List.map_cons, List.map_nil, List.sum_cons, List.sum_nil, Nat.add_zero]
      by_cases last : p = size
      · subst last
        have front : (List.range p).map (Function.update term p value) = (List.range p).map term := by
          apply List.map_congr_left
          intro i member
          exact Function.update_of_ne (Nat.ne_of_lt (List.mem_range.mp member)) ..
        rw [front, Function.update_self]
        omega
      · rw [Function.update_of_ne (Ne.symm last)]
        have := ih (by omega)
        omega

theorem onesSum_update_ne {value : UInt8} (small : p < size) (outside : ¬ Within (sum, 4) p)
    (other : value ≠ bytes p) : onesSum size sum (Function.update bytes p value) ≠ onesSum size sum bytes := by
  have terms : (fun i => if sum ≤ i ∧ i < sum + 4 then 0 else (Function.update bytes p value i).toNat) =
      Function.update (fun i => if sum ≤ i ∧ i < sum + 4 then 0 else (bytes i).toNat) p value.toNat := by
    funext i
    by_cases here : i = p
    · subst here
      rw [Function.update_self, Function.update_self]
      exact if_neg outside
    · rw [Function.update_of_ne here, Function.update_of_ne here]
  have change := sum_map_update (fun i => if sum ≤ i ∧ i < sum + 4 then 0 else (bytes i).toNat) value.toNat small
  have old : (if sum ≤ p ∧ p < sum + 4 then 0 else (bytes p).toNat) = (bytes p).toNat := if_neg outside
  have differ : value.toNat ≠ (bytes p).toNat := fun same => other (UInt8.toNat_inj.mp same)
  have := value.toNat_lt
  have := (bytes p).toNat_lt
  unfold onesSum
  rw [terms]
  rw [old] at change
  omega

theorem onesSum_changed {value : UInt8} (right : onesSum size sum bytes = be32 bytes sum) (small : p < size)
    (other : value ≠ bytes p) :
    onesSum size sum (Function.update bytes p value) ≠ be32 (Function.update bytes p value) sum := by
  by_cases inside : Within (sum, 4) p
  · have same : onesSum size sum (Function.update bytes p value) = onesSum size sum bytes := by
      apply onesSum_congr
      intro q _ outside
      refine Function.update_of_ne (fun here => outside ?_) ..
      rw [here]
      exact inside
    rw [same, right]
    intro equal
    unfold Within at inside
    have stored := beByte_be32 bytes sum (show p - sum < 4 by omega)
    rw [equal, beByte_be32 _ _ (by omega), Nat.add_sub_cancel' inside.1, Function.update_self] at stored
    exact other stored
  · have stored : be32 (Function.update bytes p value) sum = be32 bytes sum := by
      apply be32_congr
      intro i bound
      apply Function.update_of_ne
      unfold Within at inside
      omega
    rw [stored, ← right]
    exact onesSum_update_ne small inside other

end Numbers

end Blktap.Lib
