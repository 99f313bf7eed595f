import Blktap.Lib.Bytes
import Mathlib.Tactic.Cases

/-!
# Records of fields in network order
-/

namespace Blktap.Lib

abbrev Field := Nat × (Nat → UInt8)

def record : List Field → Nat → UInt8
  | [], _ => 0
  | (size, byte) :: fields, p => if p < size then byte p else record fields (p - size)

def word (value : Nat) : Field := (4, beByte 4 value)

def double (value : Nat) : Field := (8, beByte 8 value)

def be64 (byte : Nat → UInt8) (off : Nat) : Nat := be32 byte off * 2 ^ 32 + be32 byte (off + 4)

variable {byte byte' : Nat → UInt8} {off off' value i : Nat}

theorem be64_congr (same : ∀ i < 8, byte (off + i) = byte' (off' + i)) :
    be64 byte off = be64 byte' off' := by
  have high : be32 byte off = be32 byte' off' := be32_congr fun i small => same i (by omega)
  have low : be32 byte (off + 4) = be32 byte' (off' + 4) := by
    apply be32_congr
    intro i small
    simpa only [Nat.add_assoc] using same (4 + i) (by omega)
  unfold be64
  rw [high, low]

theorem be64_beByte (bound : value < 2 ^ 64) (same : ∀ i < 8, byte (off + i) = beByte 8 value i) :
    be64 byte off = value := by
  have split : value = value / 2 ^ 32 * 2 ^ 32 + value % 2 ^ 32 := by omega
  have parts : ∀ i < 8, byte (off + i) =
      if i < 4 then beByte 4 (value / 2 ^ 32) i else beByte 4 (value % 2 ^ 32) (i - 4) := by
    intro i small
    rw [same i small, ← beByte_two _ _ (Nat.mod_lt _ (by decide)) small, ← split]
  have high : be32 byte off = value / 2 ^ 32 := by
    apply be32_beByte (by omega)
    intro i small
    rw [parts i (by omega), if_pos small]
  have low : be32 byte (off + 4) = value % 2 ^ 32 := by
    apply be32_beByte (Nat.mod_lt _ (by decide))
    intro i small
    rw [Nat.add_assoc, parts (4 + i) (by omega), if_neg (by omega), Nat.add_sub_cancel_left]
  unfold be64
  rw [high, low]
  exact split.symm

def place (fields : List Field) : Nat := (fields.map Prod.fst).sum

theorem record_place (before : List Field) (size : Nat) (byte : Nat → UInt8) (behind : List Field)
    (small : i < size) : record (before ++ (size, byte) :: behind) (place before + i) = byte i := by
  induction before with
  | nil => simp [record, place, small]
  | cons field before ih =>
      obtain ⟨length, first⟩ := field
      have past : ¬ place ((length, first) :: before) + i < length := by
        simp only [place, List.map_cons, List.sum_cons]
        omega
      have rest : place ((length, first) :: before) + i - length = place before + i := by
        simp only [place, List.map_cons, List.sum_cons]
        omega
      rw [List.cons_append, record, if_neg past, rest]
      exact ih

theorem be32_record (before behind : List Field) (bound : value < 2 ^ 32)
    (same : ∀ i < 4, byte (off + i) = record (before ++ word value :: behind) (place before + i)) :
    be32 byte off = value := by
  apply be32_beByte bound
  intro i small
  rw [same i small]
  exact record_place before 4 _ behind small

theorem be64_record (before behind : List Field) (bound : value < 2 ^ 64)
    (same : ∀ i < 8, byte (off + i) = record (before ++ double value :: behind) (place before + i)) :
    be64 byte off = value := by
  apply be64_beByte bound
  intro i small
  rw [same i small]
  exact record_place before 8 _ behind small

end Blktap.Lib
