import Blktap.Lib.Swap
import Blktap.Libvhd.Created

/-!
# Footer and header between memory and disk (`libvhd.c`)
-/

namespace Blktap.Libvhd.Codec
open Lib

structure Kind where
  size : Nat
  sum : Nat
  numbers : List (Nat × Nat)
  front : (Nat → UInt8) → Bool
  excused : (Nat → UInt8) → Bool
  apart : numbers.Pairwise FieldsApart
  below : ∀ field ∈ numbers, field.1 + field.2 ≤ size
  summed : (sum, 4) ∈ numbers
  positive : 0 < size
  front_congr : ∀ bytes bytes' : Nat → UInt8,
    (∀ p < size, ¬ Within (sum, 4) p → bytes' p = bytes p) → front bytes' = front bytes

namespace Kind
variable (kind : Kind)

def validate (bytes : Nat → UInt8) : Bool :=
  if !kind.front bytes then false
  else if onesSum kind.size kind.sum bytes ≠ le32 bytes kind.sum then kind.excused bytes
  else true

def sealed (bytes : Nat → UInt8) : Nat → UInt8 := setLe32 kind.sum (onesSum kind.size kind.sum bytes) bytes

def writeAt (bytes : Nat → UInt8) (off : Nat) : Action Handle Unit :=
  if !kind.validate (kind.sealed bytes) then Action.fail (-einval)
  else vhdWrite off kind.size (swapAll kind.numbers (kind.sealed bytes))

def readAt (off : Nat) : Action Handle (Nat → UInt8) := do
  let s ← Action.get
  let buf ← Action.lift (s.file.read off kind.size)
  if !kind.validate (swapAll kind.numbers buf) then Action.fail (-einval)
  else pure (swapAll kind.numbers buf)

end Kind

section Footer
variable {footer footer' : Nat → UInt8}

def footerNumbers : List (Nat × Nat) :=
  [(8, 4), (12, 4), (16, 8), (24, 4), (32, 4), (36, 4), (40, 8), (48, 8), (56, 4), (60, 4), (64, 4)]

def knownCookie (footer : Nat → UInt8) : Bool :=
  cookieIn footer == footerCookie || cookieIn footer == poisonCookie

def hiddenEarly (footer : Nat → UInt8) : Bool :=
  footer 85 != 0 && (List.range 3).map (fun i => footer (28 + i)) == [0x74, 0x61, 0x70] &&
    (le32 footer 32 == 1 || le32 footer 32 == 0x00010001) &&
    onesSum 512 64 (Function.update footer 85 0) == le32 footer 64

theorem footerNumbers_apart : footerNumbers.Pairwise FieldsApart := by decide

theorem footerNumbers_below : ∀ field ∈ footerNumbers, field.1 + field.2 ≤ 512 := by decide

theorem footerNumbers_sum : (64, 4) ∈ footerNumbers := by decide

theorem knownCookie_congr (footer footer' : Nat → UInt8)
    (same : ∀ p < 512, ¬ Within (64, 4) p → footer' p = footer p) : knownCookie footer' = knownCookie footer := by
  have cookie : cookieIn footer' = cookieIn footer := by
    unfold cookieIn
    apply List.map_congr_left
    intro i member
    have small := List.mem_range.mp member
    apply same i (by omega)
    unfold Within
    omega
  unfold knownCookie
  rw [cookie]

def footerKind : Kind where
  size := 512
  sum := 64
  numbers := footerNumbers
  front := knownCookie
  excused := hiddenEarly
  apart := footerNumbers_apart
  below := footerNumbers_below
  summed := footerNumbers_sum
  positive := Nat.succ_pos 511
  front_congr := knownCookie_congr

def vhdFooterIn (footer : Nat → UInt8) : Nat → UInt8 := swapAll footerNumbers footer

def vhdFooterOut (footer : Nat → UInt8) : Nat → UInt8 := swapAll footerNumbers footer

def vhdValidateFooter (footer : Nat → UInt8) : Bool := footerKind.validate footer

def vhdWriteFooterAt (footer : Nat → UInt8) (off : Nat) : Action Handle Unit := footerKind.writeAt footer off

def vhdReadFooterAt (off : Nat) : Action Handle (Nat → UInt8) := footerKind.readAt off

end Footer

section Header
variable {header header' : Nat → UInt8}

def locatorNumbers (i : Nat) : List (Nat × Nat) :=
  [(576 + 24 * i, 4), (576 + 24 * i + 4, 4), (576 + 24 * i + 8, 4), (576 + 24 * i + 16, 8)]

def headerNumbers : List (Nat × Nat) :=
  [(8, 8), (16, 8), (24, 4), (28, 4), (32, 4), (36, 4), (56, 4)] ++ (List.range 8).flatMap locatorNumbers

def regular (header : Nat → UInt8) : Bool :=
  cookieIn header == headerCookie && le32 header 24 == 0x00010000 && le64 header 8 == 2 ^ 64 - 1 &&
    (List.range 8).all fun i => validPlatformCode (le32 header (576 + 24 * i))

theorem headerNumbers_apart : headerNumbers.Pairwise FieldsApart := by decide

theorem headerNumbers_below : ∀ field ∈ headerNumbers, field.1 + field.2 ≤ 1024 := by decide

theorem headerNumbers_sum : (36, 4) ∈ headerNumbers := by decide

theorem regular_congr (header header' : Nat → UInt8)
    (same : ∀ p < 1024, ¬ Within (36, 4) p → header' p = header p) : regular header' = regular header := by
  have word : ∀ off, off + 4 ≤ 1024 → off + 4 ≤ 36 ∨ 40 ≤ off → le32 header' off = le32 header off := by
    intro off small apart
    apply le32_congr
    intro i bound
    apply same _ (by omega)
    unfold Within
    omega
  have cookie : cookieIn header' = cookieIn header := by
    unfold cookieIn
    apply List.map_congr_left
    intro i member
    have small := List.mem_range.mp member
    apply same i (by omega)
    unfold Within
    omega
  have codes : (List.range 8).all (fun i => validPlatformCode (le32 header' (576 + 24 * i))) =
      (List.range 8).all fun i => validPlatformCode (le32 header (576 + 24 * i)) := by
    rw [Bool.eq_iff_iff, List.all_eq_true, List.all_eq_true]
    apply forall₂_congr
    intro i member
    have small := List.mem_range.mp member
    rw [word _ (by omega) (.inr (by omega))]
  unfold regular le64
  rw [cookie, codes, word 24 (by decide) (by decide), word 8 (by decide) (by decide),
    word (8 + 4) (by decide) (by decide)]

def headerKind : Kind where
  size := 1024
  sum := 36
  numbers := headerNumbers
  front := regular
  excused := fun _ => false
  apart := headerNumbers_apart
  below := headerNumbers_below
  summed := headerNumbers_sum
  positive := Nat.succ_pos 1023
  front_congr := regular_congr

def vhdHeaderIn (header : Nat → UInt8) : Nat → UInt8 := swapAll headerNumbers header

def vhdHeaderOut (header : Nat → UInt8) : Nat → UInt8 := swapAll headerNumbers header

def vhdValidateHeader (header : Nat → UInt8) : Bool := headerKind.validate header

def vhdWriteHeaderAt (header : Nat → UInt8) (off : Nat) : Action Handle Unit := do
  let s ← Action.get
  if !s.typeDynamic then Action.fail (-einval) else headerKind.writeAt header off

def vhdReadHeaderAt (off : Nat) : Action Handle (Nat → UInt8) := do
  let s ← Action.get
  if !s.typeDynamic then Action.fail (-einval) else headerKind.readAt off

end Header

section Disk
variable {footer header : Nat → UInt8}

theorem cookieIn_swapAll {fields : List (Nat × Nat)} {bytes : Nat → UInt8}
    (outside : ∀ p < 8, ∀ field ∈ fields, ¬ Within field p) : cookieIn (swapAll fields bytes) = cookieIn bytes := by
  unfold cookieIn
  apply List.map_congr_left
  intro p member
  exact swapAll_outside (outside p (List.mem_range.mp member))

theorem validFooter_eq (footer : Nat → UInt8) : validFooter footer = vhdValidateFooter (vhdFooterIn footer) := by
  have cookie : cookieIn (vhdFooterIn footer) = cookieIn footer := cookieIn_swapAll (by decide)
  have word : ∀ off, (off, 4) ∈ footerNumbers → le32 (vhdFooterIn footer) off = be32 footer off :=
    fun off member => le32_swapAll footerNumbers_apart member
  have sum : ∀ bytes, onesSum 512 64 (vhdFooterIn bytes) = checksumFooter bytes := fun bytes =>
    onesSum_swapAll footerNumbers_apart footerNumbers_below footerNumbers_sum
  have app : (List.range 3).map (fun i => vhdFooterIn footer (28 + i)) =
      (List.range 3).map fun i => footer (28 + i) := by
    apply List.map_congr_left
    intro i member
    have outside : ∀ i < 3, ∀ field ∈ footerNumbers, ¬ Within field (28 + i) := by decide
    exact swapAll_outside (outside i (List.mem_range.mp member))
  have hidden : vhdFooterIn footer 85 = footer 85 := swapAll_outside (by decide)
  have shown : Function.update (vhdFooterIn footer) 85 0 = vhdFooterIn (Function.update footer 85 0) :=
    (swapAll_update footerNumbers_apart (by decide)).symm
  have early : hiddenEarly (vhdFooterIn footer) = (footer 85 != 0 &&
      (List.range 3).map (fun i => footer (28 + i)) == [0x74, 0x61, 0x70] &&
      (be32 footer 32 == 1 || be32 footer 32 == 0x00010001) &&
        checksumFooter (Function.update footer 85 0) == be32 footer 64) := by
    unfold hiddenEarly
    rw [hidden, app, shown, sum, word 32 (by decide), word 64 (by decide)]
  unfold validFooter
  rw [← early, ← cookie, ← word 64 (by decide), ← sum]
  change (knownCookie (vhdFooterIn footer) && _) = footerKind.validate (vhdFooterIn footer)
  unfold Kind.validate
  change _ = if !knownCookie (vhdFooterIn footer) then false
    else if onesSum 512 64 (vhdFooterIn footer) ≠ le32 (vhdFooterIn footer) 64 then hiddenEarly (vhdFooterIn footer)
    else true
  cases knownCookie (vhdFooterIn footer) with
  | false => rfl
  | true =>
      by_cases right : onesSum 512 64 (vhdFooterIn footer) = le32 (vhdFooterIn footer) 64
      · simp [right]
      · simp [right]

theorem validHeader_eq (header : Nat → UInt8) : validHeader header = vhdValidateHeader (vhdHeaderIn header) := by
  have cookie : cookieIn (vhdHeaderIn header) = cookieIn header := cookieIn_swapAll (by decide)
  have word : ∀ off, (off, 4) ∈ headerNumbers → le32 (vhdHeaderIn header) off = be32 header off :=
    fun off member => le32_swapAll headerNumbers_apart member
  have double : le64 (vhdHeaderIn header) 8 = be64 header 8 := le64_swapAll headerNumbers_apart (by decide)
  have sum : onesSum 1024 36 (vhdHeaderIn header) = checksumHeader header :=
    onesSum_swapAll headerNumbers_apart headerNumbers_below headerNumbers_sum
  have codes : (List.range 8).all (fun i => validPlatformCode (le32 (vhdHeaderIn header) (576 + 24 * i))) =
      (List.range 8).all fun i => validPlatformCode (be32 header (576 + 24 * i)) := by
    have listed : ∀ i < 8, (576 + 24 * i, 4) ∈ headerNumbers := by decide
    rw [Bool.eq_iff_iff, List.all_eq_true, List.all_eq_true]
    apply forall₂_congr
    intro i member
    rw [word _ (listed i (List.mem_range.mp member))]
  have front : regular (vhdHeaderIn header) = (cookieIn header == headerCookie && be32 header 24 == 0x00010000 &&
      be64 header 8 == 2 ^ 64 - 1 && (List.range 8).all fun i => validPlatformCode (be32 header (576 + 24 * i))) := by
    unfold regular
    rw [cookie, double, codes, word 24 (by decide)]
  unfold validHeader
  rw [← front, ← word 36 (by decide), ← sum]
  change _ = if !regular (vhdHeaderIn header) then false
    else if onesSum 1024 36 (vhdHeaderIn header) ≠ le32 (vhdHeaderIn header) 36 then false
    else true
  cases regular (vhdHeaderIn header) with
  | false => rfl
  | true =>
      by_cases right : onesSum 1024 36 (vhdHeaderIn header) = le32 (vhdHeaderIn header) 36
      · simp [right]
      · simp [right]

end Disk

def flip (s : Handle) (p : Nat) (value : UInt8) : Handle :=
  { s with oldBitmap_eq := s.bitmap_eq, file := { size := s.file.size, byte := Function.update s.file.byte p value } }

def image (s : Handle) (off : Nat) (i : Nat) : UInt8 := s.file.byte (off + i)

theorem image_flip (s : Handle) (off p : Nat) (value : UInt8) :
    image (flip s (off + p) value) off = Function.update (image s off) p value := by
  funext i
  change Function.update s.file.byte (off + p) value (off + i) = Function.update (image s off) p value i
  by_cases here : i = p
  · rw [here, Function.update_self, Function.update_self]
  · rw [Function.update_of_ne here, Function.update_of_ne (by omega), image]

theorem vhdWrite_image {s s' : Handle} {off size : Nat} {data : Nat → UInt8} (positive : 0 < size)
    (wrote : vhdWrite off size data s = (.ok (), s')) :
    off + size ≤ s'.file.size ∧ ∀ i < size, image s' off i = data i := by
  obtain ⟨rfl, -⟩ := vhdWrite_ok positive wrote
  refine ⟨File.put_reach positive, fun i small => ?_⟩
  change (if off ≤ off + i ∧ off + i < off + size then data (off + i - off) else _) = _
  rw [if_pos (by omega), Nat.add_sub_cancel_left]

def Kind.Keeps (kind : Kind) (read : Action Handle (Nat → UInt8)) (bytes : Nat → UInt8) (off : Nat) (s : Handle) :
    Prop :=
  (∃ back, read s = (.ok back, s) ∧ kind.validate back = true ∧
    onesSum kind.size kind.sum back = le32 back kind.sum ∧
      ∀ p < kind.size, ¬ Within (kind.sum, 4) p → back p = bytes p) ∧
    ∀ p < kind.size, ∀ value ≠ image s off p,
      let back := swapAll kind.numbers (image (flip s (off + p) value) off)
      onesSum kind.size kind.sum back ≠ le32 back kind.sum ∧
        read (flip s (off + p) value) =
          (if kind.front back && kind.excused back then .ok back else .error (-einval), flip s (off + p) value)

namespace Kind
variable {kind : Kind} {bytes : Nat → UInt8} {s s' : Handle} {off : Nat}

theorem sum_below : kind.sum + 4 ≤ kind.size := kind.below _ kind.summed

theorem validate_sealed : kind.validate (kind.sealed bytes) = kind.front bytes := by
  have outside : ∀ p < kind.size, ¬ Within (kind.sum, 4) p → kind.sealed bytes p = bytes p :=
    fun _ _ outside => setLe32_outside outside
  have right : onesSum kind.size kind.sum (kind.sealed bytes) = le32 (kind.sealed bytes) kind.sum := by
    rw [onesSum_congr outside]
    exact (le32_setLe32 onesSum_lt).symm
  unfold validate
  rw [kind.front_congr bytes _ outside]
  simp [right]

theorem writeAt_eq : kind.writeAt bytes off s =
    if kind.front bytes then vhdWrite off kind.size (swapAll kind.numbers (kind.sealed bytes)) s
    else (.error (-einval), s) := by
  unfold writeAt
  rw [validate_sealed]
  cases kind.front bytes <;> rfl

theorem readAt_eq (fits : off + kind.size ≤ s.file.size) : kind.readAt off s =
    if kind.validate (swapAll kind.numbers (image s off)) then (.ok (swapAll kind.numbers (image s off)), s)
    else (.error (-einval), s) := by
  have read : s.file.read off kind.size = .ok (image s off) := File.read_ok fits
  unfold readAt
  simp only [bind, Action.get, Action.lift, read]
  cases kind.validate (swapAll kind.numbers (image s off)) <;> rfl

theorem swapAll_image (same : ∀ i < kind.size, image s off i = swapAll kind.numbers (kind.sealed bytes) i) :
    ∀ p < kind.size, swapAll kind.numbers (image s off) p = kind.sealed bytes p := by
  intro p small
  rw [swapAll_eq, same _ ((swapped_lt kind.below).mpr small), swapAll_eq, swapped_swapped kind.apart]

theorem right_of_same {back : Nat → UInt8} (same : ∀ p < kind.size, back p = kind.sealed bytes p) :
    onesSum kind.size kind.sum back = le32 back kind.sum := by
  have below := kind.sum_below
  have stored : le32 back kind.sum = le32 (kind.sealed bytes) kind.sum :=
    le32_congr fun i small => same _ (by omega)
  have summed : onesSum kind.size kind.sum back = onesSum kind.size kind.sum bytes := by
    apply onesSum_congr
    intro p small outside
    rw [same p small]
    exact setLe32_outside outside
  rw [stored, summed]
  exact (le32_setLe32 onesSum_lt).symm

theorem front_of_written (wrote : kind.writeAt bytes off s = (.ok (), s')) : kind.front bytes = true := by
  rw [writeAt_eq] at wrote
  cases front : kind.front bytes with
  | true => rfl
  | false =>
      rw [front] at wrote
      cases wrote

theorem keeps_written (wrote : kind.writeAt bytes off s = (.ok (), s')) :
    kind.Keeps (kind.readAt off) bytes off s' := by
  have front := front_of_written wrote
  rw [writeAt_eq, if_pos front] at wrote
  obtain ⟨fits, same⟩ := vhdWrite_image kind.positive wrote
  have found := swapAll_image same
  have right := right_of_same found
  have kept : ∀ p < kind.size, ¬ Within (kind.sum, 4) p → swapAll kind.numbers (image s' off) p = bytes p := by
    intro p small outside
    rw [found p small]
    exact setLe32_outside outside
  constructor
  · have valid : kind.validate (swapAll kind.numbers (image s' off)) = true := by
      unfold validate
      rw [kind.front_congr bytes _ kept]
      simp [front, right]
    refine ⟨_, ?_, valid, right, kept⟩
    rw [readAt_eq fits, if_pos valid]
  · intro p small value other back
    rw [onesSum_swapAll kind.apart kind.below kind.summed, le32_swapAll kind.apart kind.summed] at right
    have wrong : onesSum kind.size kind.sum back ≠ le32 back kind.sum := by
      rw [onesSum_swapAll kind.apart kind.below kind.summed, le32_swapAll kind.apart kind.summed, image_flip]
      exact onesSum_changed right small other
    have verdict : kind.validate back = (kind.front back && kind.excused back) := by
      unfold validate
      cases kind.front back <;> simp [wrong]
    have read := readAt_eq (s := flip s' (off + p) value) fits
    rw [verdict] at read
    refine ⟨wrong, ?_⟩
    rw [read]
    cases kind.front back && kind.excused back <;> rfl

theorem Keeps.passes {read : Action Handle (Nat → UInt8)} {p : Nat} {value : UInt8}
    (keeps : kind.Keeps read bytes off s) (small : p < kind.size) (other : value ≠ image s off p)
    (excused : (kind.front (swapAll kind.numbers (image (flip s (off + p) value) off)) &&
      kind.excused (swapAll kind.numbers (image (flip s (off + p) value) off))) = true) (code : Int) :
    (read (flip s (off + p) value)).1 ≠ .error code := by
  rw [(keeps.2 p small value other).2, if_pos excused]
  simp

end Kind

section Written
variable {record : Nat → UInt8} {off : Nat} {s s' : Handle}

theorem vhdWriteHeaderAt_eq : vhdWriteHeaderAt record off s =
    if s.typeDynamic then headerKind.writeAt record off s else (.error (-einval), s) := by
  change (if !s.typeDynamic then Action.fail (-einval) else headerKind.writeAt record off) s = _
  cases s.typeDynamic <;> rfl

theorem vhdReadHeaderAt_eq (dynamic : s.typeDynamic = true) : vhdReadHeaderAt off s = headerKind.readAt off s := by
  change (if !s.typeDynamic then Action.fail (-einval) else headerKind.readAt off) s = _
  rw [dynamic]
  rfl

theorem typeDynamic_written (wrote : headerKind.writeAt record off s = (.ok (), s')) :
    s'.typeDynamic = s.typeDynamic := by
  have front := Kind.front_of_written wrote
  rw [Kind.writeAt_eq, if_pos front] at wrote
  obtain ⟨rfl, -⟩ := vhdWrite_ok headerKind.positive wrote
  rfl

theorem header_keeps (wrote : vhdWriteHeaderAt record off s = (.ok (), s')) :
    headerKind.Keeps (vhdReadHeaderAt off) record off s' := by
  rw [vhdWriteHeaderAt_eq] at wrote
  cases dynamic : s.typeDynamic with
  | false =>
      rw [dynamic] at wrote
      cases wrote
  | true =>
      rw [if_pos dynamic] at wrote
      have still : s'.typeDynamic = true := (typeDynamic_written wrote).trans dynamic
      obtain ⟨⟨back, read, rest⟩, flips⟩ := Kind.keeps_written wrote
      refine ⟨⟨back, (vhdReadHeaderAt_eq still).trans read, rest⟩, fun p small value other => ?_⟩
      obtain ⟨wrong, refused⟩ := flips p small value other
      exact ⟨wrong, (vhdReadHeaderAt_eq (s := flip s' (off + p) value) still).trans refused⟩

end Written

/-- What the writes take is read as it was in memory, and a changed byte is always seen in the sum. Of the
changed records only a footer that an early td-util would have left so is read. -/
theorem codec_keeps (record : Nat → UInt8) (off : Nat) (s : Handle) :
    (vhdWriteFooterAt record off s =
        (if knownCookie record then vhdWrite off 512 (vhdFooterOut (footerKind.sealed record)) s
          else (.error (-einval), s)) ∧
      ∀ s', vhdWriteFooterAt record off s = (.ok (), s') →
        footerKind.Keeps (vhdReadFooterAt off) record off s') ∧
    (vhdWriteHeaderAt record off s =
        (if s.typeDynamic && regular record then vhdWrite off 1024 (vhdHeaderOut (headerKind.sealed record)) s
          else (.error (-einval), s)) ∧
      ∀ s', vhdWriteHeaderAt record off s = (.ok (), s') →
        headerKind.Keeps (vhdReadHeaderAt off) record off s') := by
  refine ⟨⟨?_, fun s' wrote => Kind.keeps_written wrote⟩, ?_, fun s' wrote => header_keeps wrote⟩
  · exact Kind.writeAt_eq
  · rw [vhdWriteHeaderAt_eq, Kind.writeAt_eq]
    change (if _ then (if regular record then _ else _) else _) = _
    cases s.typeDynamic <;> cases regular record <;> rfl

def hiddenFooter (p : Nat) : UInt8 :=
  if p < 8 then footerCookie.getD p 0
  else if p < 28 then 0
  else if p < 32 then crtrApp.getD (p - 28) 0
  else if p = 32 then 1
  else if p = 85 then 1
  else 0

def blank : Handle := vhdInitializeFooter ⟨false, .empty, []⟩ .dynamic 0

def hiddenWritten : Handle := blank.wrote 0 512 (vhdFooterOut (footerKind.sealed hiddenFooter))

theorem hiddenFooter_written : vhdWriteFooterAt hiddenFooter 0 blank = (.ok (), hiddenWritten) := by
  have known : knownCookie hiddenFooter = true := by decide
  refine Kind.writeAt_eq.trans ?_
  exact if_pos known

theorem hiddenFooter_passes :
    (¬ ∀ (record : Nat → UInt8) (off : Nat) (s s' : Handle), vhdWriteFooterAt record off s = (.ok (), s') →
        ∀ p < 512, p ≠ 85 → ∀ value ≠ image s' off p,
          vhdReadFooterAt off (flip s' (off + p) value) = (.error (-einval), flip s' (off + p) value)) ∧
      ¬ ∀ (record : Nat → UInt8) (off : Nat) (s : Handle), vhdWriteFooterAt record off s ≠ (.error (-einval), s) := by
  constructor
  · intro refused
    have zero : 1 ≠ image hiddenWritten 0 511 := by decide +kernel
    have passes : (knownCookie (vhdFooterIn (image (flip hiddenWritten (0 + 511) 1) 0)) &&
        hiddenEarly (vhdFooterIn (image (flip hiddenWritten (0 + 511) 1) 0))) = true := by decide +kernel
    have stops := refused hiddenFooter 0 blank _ hiddenFooter_written 511 (by decide) (by decide) 1 zero
    exact (Kind.keeps_written hiddenFooter_written).passes (by decide) zero passes _ (congrArg Prod.fst stops)
  · intro taken
    apply taken (fun _ => 0) 0 blank
    have unknown : ¬ knownCookie (fun _ => 0) = true := by decide
    exact Kind.writeAt_eq.trans (if_neg unknown)

end Blktap.Libvhd.Codec
