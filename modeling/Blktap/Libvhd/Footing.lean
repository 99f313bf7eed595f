import Blktap.Libvhd.Write

/-!
# Where the footer is looked for (`vhd_read_footer`)

The footer is the last sector of the file. When that sector is none, a footer of 511 bytes is looked
for at the end, and then the copy at the front of the file.
-/

namespace Blktap.Libvhd
open Lib

def validFooter (footer : Nat → UInt8) : Bool :=
  (cookieIn footer == footerCookie || cookieIn footer == poisonCookie) &&
    (checksumFooter footer == be32 footer 64 ||
      footer 85 != 0 && (List.range 3).map (fun i => footer (28 + i)) == [0x74, 0x61, 0x70] &&
        (be32 footer 32 == 1 || be32 footer 32 == 0x00010001) &&
        checksumFooter (Function.update footer 85 0) == be32 footer 64)

def File.footerAt (file : File) (off : Nat) : Outcome (Nat → UInt8) := do
  let footer ← file.read off 512
  if validFooter footer then .ok footer else .error (-einval)

def File.last (file : File) (o : Nat) : UInt8 := file.byte (file.size - 512 + o)

def shortFooter (last : Nat → UInt8) (o : Nat) : UInt8 := if o < 511 then last (o + 1) else 0

def readFooter (file : File) : Outcome (Nat → UInt8) :=
  match if file.size < 512 then .error (-einval) else file.footerAt (file.size - 512) with
  | .error code =>
      if code ≠ -einval then .error code
      else if 512 ≤ file.size ∧ validFooter (shortFooter file.last) then .ok (shortFooter file.last)
      else file.footerAt 0
  | found => found

def Misleads (own last : Nat → UInt8) : Prop :=
  (validFooter last = true ∧ ¬ ∀ o < 512, last o = own o) ∨
    (validFooter last = false ∧ validFooter (shortFooter last) = true)

instance (own last : Nat → UInt8) : Decidable (Misleads own last) :=
  inferInstanceAs (Decidable (_ ∧ _ ∨ _ ∧ _))

section Valid
variable {footer footer' own last last' : Nat → UInt8}

theorem cookieIn_congr (same : ∀ o < 512, footer' o = footer o) : cookieIn footer' = cookieIn footer := by
  unfold cookieIn
  apply List.map_congr_left
  intro i member
  exact same i ((List.mem_range.mp member).trans (by decide))

theorem checksumFooter_congr (same : ∀ o < 512, ¬ (64 ≤ o ∧ o < 68) → footer' o = footer o) :
    checksumFooter footer' = checksumFooter footer := by
  have terms : (List.range 512).map (fun i => if 64 ≤ i ∧ i < 68 then 0 else (footer' i).toNat) =
      (List.range 512).map fun i => if 64 ≤ i ∧ i < 68 then 0 else (footer i).toNat := by
    apply List.map_congr_left
    intro i member
    split
    · rfl
    · rw [same i (List.mem_range.mp member) ‹_›]
  unfold checksumFooter
  rw [terms]

theorem validFooter_congr (same : ∀ o < 512, footer' o = footer o) :
    validFooter footer' = validFooter footer := by
  have word : ∀ off, off + 4 ≤ 512 → be32 footer' off = be32 footer off := fun off small =>
    be32_congr fun i bound => same _ (by omega)
  have shown : checksumFooter (Function.update footer' 85 0) =
      checksumFooter (Function.update footer 85 0) := by
    apply checksumFooter_congr
    intro o small _
    by_cases here : o = 85
    · rw [here, Function.update_self, Function.update_self]
    · rw [Function.update_of_ne here, Function.update_of_ne here, same o small]
  have app : (List.range 3).map (fun i => footer' (28 + i)) =
      (List.range 3).map fun i => footer (28 + i) := by
    apply List.map_congr_left
    intro i member
    have := List.mem_range.mp member
    exact same _ (by omega)
  unfold validFooter
  rw [cookieIn_congr same, checksumFooter_congr fun o small _ => same o small,
    word 64 (by decide), word 32 (by decide), same 85 (by decide), shown, app]

theorem Misleads.congr (misleads : Misleads own last) (same : ∀ o < 512, last' o = last o) :
    Misleads own last' := by
  have short : ∀ o < 512, shortFooter last' o = shortFooter last o := by
    intro o small
    unfold shortFooter
    split
    · exact same _ (by omega)
    · rfl
  unfold Misleads at *
  rw [validFooter_congr same, validFooter_congr short]
  refine misleads.imp (And.imp_right fun other own => other fun o small => ?_) id
  rw [← same o small, own o small]

theorem not_misleads_zero (zero : ∀ o < 512, last o = 0) : ¬ Misleads own last := by
  have short : ∀ o < 512, shortFooter last o = 0 := by
    intro o small
    unfold shortFooter
    split
    · exact zero _ (by omega)
    · rfl
  have invalid : validFooter (fun _ => 0) = false := by decide +kernel
  unfold Misleads
  rw [@validFooter_congr (fun _ => 0) last zero, @validFooter_congr (fun _ => 0) _ short,
    invalid]
  simp

theorem sealFooter_valid
    (cookie : cookieIn footer = footerCookie ∨ cookieIn footer = poisonCookie) :
    validFooter (sealFooter footer) = true := by
  have same : cookieIn (sealFooter footer) = cookieIn footer := by
    unfold cookieIn
    apply List.map_congr_left
    intro i member
    have := List.mem_range.mp member
    exact if_neg (by omega)
  have sum : checksumFooter (sealFooter footer) = checksumFooter footer :=
    checksumFooter_congr fun o _ apart => if_neg apart
  have stored : be32 (sealFooter footer) 64 = checksumFooter footer := by
    have small : checksumFooter footer < 2 ^ 32 :=
      Nat.lt_of_le_of_lt (Nat.sub_le _ _) (by decide)
    apply be32_beByte small
    intro i bound
    unfold sealFooter
    rw [if_pos (by omega), Nat.add_sub_cancel_left]
  unfold validFooter
  rw [same, sum, stored]
  simpa using cookie

theorem not_misleads_own (valid : validFooter own = true) (same : ∀ o < 512, last o = own o) :
    ¬ Misleads own last := by
  unfold Misleads
  rw [validFooter_congr same, valid]
  simpa using same

end Valid

section File
variable {file : File} {own data : Nat → UInt8} {off n : Nat}

theorem readFooter_own (valid : validFooter own = true) (size : 512 ≤ file.size)
    (copy : ∀ o < 512, file.byte o = own o) (last : ¬ Misleads own file.last) :
    ∃ footer, readFooter file = .ok footer ∧ ∀ o < 512, footer o = own o := by
  have front : file.footerAt 0 = .ok fun o => file.byte (0 + o) := by
    unfold File.footerAt
    rw [File.read_ok (by omega), Outcome.ok_bind, @validFooter_congr own _ ?_, valid, if_pos rfl]
    intro o small
    rw [Nat.zero_add, copy o small]
  have read : file.read (file.size - 512) 512 = .ok file.last := File.read_ok (by omega)
  unfold readFooter
  rw [if_neg (Nat.not_lt.mpr size)]
  unfold File.footerAt
  rw [read, Outcome.ok_bind]
  unfold Misleads at last
  rw [not_or, not_and_or, not_and_or, not_not, Bool.not_eq_true, Bool.not_eq_true] at last
  cases found : validFooter file.last with
  | true =>
      refine ⟨file.last, rfl, ?_⟩
      exact last.1.resolve_left (by simp [found])
  | false =>
      have short := last.2.resolve_left (by simp [found])
      refine ⟨fun o => file.byte (0 + o), ?_, fun o small => ?_⟩
      · rw [← front, short]
        simp [File.footerAt]
      · dsimp only
        rw [Nat.zero_add, copy o small]

theorem File.put_last (whole : 512 ∣ file.size) (positive : 512 ≤ file.size) (aligned : 512 ∣ off)
    (sectors : 512 ∣ n) : 512 ∣ (file.put off n data).size ∧
      ((∀ o < 512, (file.put off n data).last o = file.last o) ∨
        ∃ k, (k + 1) * 512 ≤ n ∧ file.size ≤ off + (k + 1) * 512 ∧
          ∀ o < 512, (file.put off n data).last o = data (k * 512 + o)) := by
  obtain ⟨a, rfl⟩ := aligned
  obtain ⟨b, rfl⟩ := sectors
  obtain ⟨c, size⟩ := whole
  rcases Nat.eq_zero_or_pos b with rfl | some
  · refine ⟨⟨c, by simpa [File.put] using size⟩, .inl fun o small => ?_⟩
    unfold File.last File.put
    simp only [Nat.mul_zero, if_true]
    rw [if_neg (by omega), if_pos (by omega)]
  · have grown : (file.put (512 * a) (512 * b) data).size = 512 * max c (a + b) := by
      unfold File.put
      dsimp only
      rw [if_neg (by omega), size, ← Nat.mul_add, Nat.mul_max_mul_left]
    refine ⟨⟨_, grown⟩, ?_⟩
    rcases Nat.lt_or_ge (a + b) c with inside | behind
    · left
      intro o small
      unfold File.last
      rw [grown, Nat.max_eq_left inside.le, ← size]
      unfold File.put
      dsimp only
      rw [if_neg (by omega), if_pos (by omega)]
    · right
      refine ⟨b - 1, by omega, by omega, fun o small => ?_⟩
      unfold File.last
      rw [grown, Nat.max_eq_right behind]
      unfold File.put
      dsimp only
      rw [if_pos (by omega)]
      congr 1
      omega

def File.Blanks (file file' : File) : Prop :=
  512 ∣ file.size → 512 ∣ file'.size ∧
    ((∀ o < 512, file'.last o = file.last o) ∨ ∀ o < 512, file'.last o = 0)

theorem File.Blanks.refl (file : File) : file.Blanks file :=
  fun whole => ⟨whole, .inl fun _ _ => rfl⟩

theorem File.Blanks.trans {file' file'' : File} (first : file.Blanks file')
    (second : file'.Blanks file'') : file.Blanks file'' := by
  intro whole
  obtain ⟨whole', last⟩ := first whole
  obtain ⟨whole'', last'⟩ := second whole'
  refine ⟨whole'', ?_⟩
  rcases last' with same | zero
  · rcases last with before | zero
    · exact .inl fun o small => (same o small).trans (before o small)
    · exact .inr fun o small => (same o small).trans (zero o small)
  · exact .inr zero

theorem sectors_part {size : Nat} (whole : 512 ∣ file.size) (aligned : 512 ∣ off)
    (sectors : 512 ∣ size) (part : n = size ∨ 512 ∣ n ∨ off + n = file.size) : 512 ∣ n := by
  rcases part with rfl | part | part
  · exact sectors
  · exact part
  · exact (Nat.dvd_add_right aligned).mp (part ▸ whole)

theorem File.blanks_zero (positive : 512 ≤ file.size) (aligned : 512 ∣ off)
    (sectors : 512 ∣ file.size → 512 ∣ n) : file.Blanks (file.put off n fun _ => 0) := by
  intro whole
  obtain ⟨whole', last⟩ := @File.put_last _ (fun _ => 0) _ _ whole positive aligned (sectors whole)
  refine ⟨whole', last.imp id ?_⟩
  rintro ⟨_, _, _, zero⟩
  exact zero

theorem File.put_below (before : off + n + 512 ≤ file.size) :
    (file.put off n data).size = file.size ∧
      ∀ o < 512, (file.put off n data).last o = file.last o := by
  have size : (file.put off n data).size = file.size := by
    unfold File.put
    dsimp only
    split
    · rfl
    · exact Nat.max_eq_left (by omega)
  refine ⟨size, fun o small => ?_⟩
  unfold File.last
  rw [size]
  unfold File.put
  dsimp only
  rw [if_neg (by omega), if_pos (by omega)]

theorem File.blanks_below (before : off + n + 512 ≤ file.size) :
    file.Blanks (file.put off n data) := by
  obtain ⟨size, last⟩ := File.put_below before
  exact fun whole => ⟨size ▸ whole, .inl last⟩

end File

end Blktap.Libvhd
