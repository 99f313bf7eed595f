import Mathlib.Algebra.Order.BigOperators.Group.List
import Mathlib.Algebra.Order.Ring.Nat
import Mathlib.Data.Int.Basic

/-!
# Bounds of requests (`tapdisk-image.c`)

A request is checked against the size of its image before anything is issued. Sectors and sizes are numbers of 64
bits and the length of a request is an `int`, which C adds as it adds numbers of 32 and of 64 bits.
-/

namespace Blktap.Tapdisk.Bounds

def TD_OP_READ : Int := 0
def TD_OP_WRITE : Int := 1

def eperm : Int := 1
def einval : Int := 22
def enodev : Int := 19
def eopnotsupp : Int := 95

structure Image where
  rdonly : Bool
  size : Nat
  driver : Option Nat
  size_lt : size < 2 ^ 64
  driver_lt : ∀ size ∈ driver, size < 2 ^ 64

structure Treq where
  op : Int
  sec : Nat
  secs : Int
  sec_lt : sec < 2 ^ 64
  secs_lt : secs < 2 ^ 31
  secs_le : -2 ^ 31 ≤ secs

/-- `td_vbd_request_t`: the sectors of its segments are `unsigned int`, and `iovcnt` is an `int`. -/
structure Vreq where
  op : Int
  sec : Nat
  iov : List Nat
  iovcnt : Int
  sec_lt : sec < 2 ^ 64
  iov_lt : ∀ secs ∈ iov, secs < 2 ^ 32
  iovcnt_lt : iovcnt < 2 ^ 31
  iovcnt_eq : 0 ≤ iovcnt → iov.length = iovcnt

def int (x : Int) : Int := Int.bmod x (2 ^ 32)

def endOf (sec : Nat) (secs : Int) : Int := (sec + secs) % 2 ^ 64

def checkTdRequest (image : Image) (treq : Treq) : Int :=
  if treq.op ≠ TD_OP_READ ∧ treq.op ≠ TD_OP_WRITE then -einval
  else if treq.op = TD_OP_WRITE ∧ image.rdonly then -eperm
  else if treq.secs ≤ 0 ∨ endOf treq.sec treq.secs > image.size then -einval
  else 0

def sumSecs (iov : List Nat) : Int := iov.foldl (fun (secs : Int) (n : Nat) => int (secs + n)) 0

def checkRequest (image : Image) (vreq : Vreq) : Int :=
  match image.driver with
  | none => -enodev
  | some size =>
      if vreq.iovcnt < 0 then -einval
      else
        let secs := sumSecs vreq.iov
        if vreq.op = TD_OP_WRITE then
          if image.rdonly then -eperm else if endOf vreq.sec secs > size then -einval else 0
        else if vreq.op = TD_OP_READ then
          if endOf vreq.sec secs > size then -einval else 0
        else -eopnotsupp

def Vreq.Meets (vreq : Vreq) : Prop :=
  vreq.iovcnt < 0 ∨ vreq.op ≠ TD_OP_WRITE ∧ vreq.op ≠ TD_OP_READ ∨
    vreq.iov.sum < 2 ^ 31 ∧ vreq.sec + vreq.iov.sum < 2 ^ 64 ∨
      2 ^ 31 ≤ vreq.iov.sum % 2 ^ 32 ∧ vreq.sec + vreq.iov.sum % 2 ^ 32 < 2 ^ 32

def Treq.Meets (treq : Treq) : Prop :=
  treq.op ≠ TD_OP_READ ∧ treq.op ≠ TD_OP_WRITE ∨ treq.secs ≤ 0 ∨ treq.sec + treq.secs < 2 ^ 64

theorem sumSecs_eq (iov : List Nat) : sumSecs iov = int iov.sum := by
  have folded (start : Int) : iov.foldl (fun (secs : Int) (n : Nat) => int (secs + n)) (int start) = int (start + iov.sum) := by
    induction iov generalizing start with
    | nil => simp
    | cons n iov ih =>
        rw [List.foldl_cons, int, int, Int.bmod_add_bmod, ← int, ih, List.sum_cons]
        congr 1
        push_cast
        omega
  simpa [sumSecs, int] using folded 0

theorem sum_lt (vreq : Vreq) (counted : 0 ≤ vreq.iovcnt) : vreq.iov.sum < 2 ^ 63 := by
  have each : ∀ secs ∈ vreq.iov, secs ≤ 2 ^ 32 - 1 := fun secs member => Nat.le_pred_of_lt (vreq.iov_lt secs member)
  have sum := List.sum_le_card_nsmul vreq.iov _ each
  have count := vreq.iovcnt_eq counted
  have small := vreq.iovcnt_lt
  rw [Nat.nsmul_eq_mul] at sum
  have length : vreq.iov.length < 2 ^ 31 := by omega
  calc vreq.iov.sum ≤ vreq.iov.length * (2 ^ 32 - 1) := sum
    _ ≤ 2 ^ 31 * (2 ^ 32 - 1) := Nat.mul_le_mul_right _ length.le
    _ < 2 ^ 63 := by decide

theorem endOf_ge {sec total : Nat} (short : total < 2 ^ 63) (small : sec < 2 ^ 64) :
    (sec + total : Int) ≤ endOf sec (int total) ↔ total < 2 ^ 31 ∧ sec + total < 2 ^ 64 ∨
      2 ^ 31 ≤ total % 2 ^ 32 ∧ sec + total % 2 ^ 32 < 2 ^ 32 := by
  simp only [endOf, int, Int.bmod_def]
  split
  · omega
  · omega

def accepts (op : Int) (rdonly : Bool) : Prop := op = TD_OP_WRITE ∧ rdonly = false ∨ op = TD_OP_READ

theorem checkRequest_accepts {image : Image} {vreq : Vreq} :
    checkRequest image vreq = 0 ↔ ∃ size ∈ image.driver, 0 ≤ vreq.iovcnt ∧ accepts vreq.op image.rdonly ∧
      endOf vreq.sec (int vreq.iov.sum) ≤ size := by
  rw [← sumSecs_eq]
  cases driver : image.driver with
  | none => simp [checkRequest, driver, enodev]
  | some size =>
      simp only [checkRequest, driver, Option.mem_some_iff, exists_eq_left', accepts]
      split_ifs <;> simp_all [einval, eperm, eopnotsupp, TD_OP_READ, TD_OP_WRITE]

theorem checkTdRequest_accepts {image : Image} {treq : Treq} :
    checkTdRequest image treq = 0 ↔ accepts treq.op image.rdonly ∧ 0 < treq.secs ∧
      endOf treq.sec treq.secs ≤ image.size := by
  simp only [checkTdRequest, accepts]
  by_cases read : treq.op = TD_OP_READ
  · split_ifs <;> simp_all [einval, TD_OP_READ, TD_OP_WRITE] <;> omega
  · by_cases write : treq.op = TD_OP_WRITE
    · split_ifs <;> simp_all [einval, eperm, TD_OP_READ, TD_OP_WRITE] <;> omega
    · simp [read, write, einval]

theorem checkRequest_inside_iff (vreq : Vreq) : (∀ image : Image, checkRequest image vreq = 0 →
    ∀ size ∈ image.driver, vreq.sec + vreq.iov.sum ≤ size) ↔ vreq.Meets := by
  constructor
  · intro inside
    by_contra fails
    simp only [Vreq.Meets, not_or, not_lt] at fails
    obtain ⟨counted, op, wraps⟩ := fails
    -- an image that ends where the request seems to end
    have range := Int.emod_nonneg (vreq.sec + int vreq.iov.sum) (show (2 ^ 64 : Int) ≠ 0 by decide)
    have below := Int.emod_lt_of_pos (vreq.sec + int vreq.iov.sum) (show (0 : Int) < 2 ^ 64 by decide)
    obtain ⟨size, same⟩ := Int.eq_ofNat_of_zero_le range
    have small : size < 2 ^ 64 := by omega
    let image : Image := ⟨false, size, some size, small, fun n same => Option.some.inj same ▸ small⟩
    have accepted : checkRequest image vreq = 0 := by
      refine checkRequest_accepts.mpr ⟨size, rfl, counted, ?_, Int.le_of_eq same⟩
      by_cases write : vreq.op = TD_OP_WRITE
      · exact .inl ⟨write, rfl⟩
      · exact .inr (not_not.mp fun read => op ⟨write, read⟩)
    have bound := inside image accepted size rfl
    have right := (endOf_ge (sum_lt vreq counted) vreq.sec_lt).mp (by rw [endOf, same]; omega)
    exact absurd right (not_or.mpr wraps)
  · intro meets image accepted size driver
    obtain ⟨size', driver', counted, op, below⟩ := checkRequest_accepts.mp accepted
    cases Option.some.inj (driver.symm.trans driver')
    rcases meets with negative | other | exact
    · omega
    · rcases op with ⟨write, _⟩ | read
      · exact absurd write other.1
      · exact absurd read other.2
    · have right := (endOf_ge (sum_lt vreq counted) vreq.sec_lt).mpr exact
      omega

theorem checkTdRequest_inside_iff (treq : Treq) : (∀ image : Image, checkTdRequest image treq = 0 →
    (treq.sec + treq.secs : Int) ≤ image.size) ↔ treq.Meets := by
  have sec := treq.sec_lt
  have secs := treq.secs_lt
  constructor
  · intro inside
    by_contra fails
    simp only [Treq.Meets, not_or, not_le, not_lt] at fails
    obtain ⟨op, positive, wraps⟩ := fails
    have seems : endOf treq.sec treq.secs = treq.sec + treq.secs - 2 ^ 64 := by
      simp only [endOf]
      omega
    obtain ⟨size, same⟩ := Int.eq_ofNat_of_zero_le (show 0 ≤ endOf treq.sec treq.secs by omega)
    have small : size < 2 ^ 64 := by omega
    let image : Image := ⟨false, size, none, small, by simp⟩
    have accepted : checkTdRequest image treq = 0 := by
      refine checkTdRequest_accepts.mpr ⟨?_, positive, Int.le_of_eq same⟩
      by_cases read : treq.op = TD_OP_READ
      · exact .inr read
      · exact .inl ⟨not_not.mp fun write => op ⟨read, write⟩, rfl⟩
    have bound : (treq.sec + treq.secs : Int) ≤ size := inside image accepted
    omega
  · intro meets image accepted
    obtain ⟨op, positive, below⟩ := checkTdRequest_accepts.mp accepted
    rcases meets with other | empty | fits
    · rcases op with ⟨write, _⟩ | read
      · exact absurd write other.2
      · exact absurd read other.1
    · omega
    · simp only [endOf] at below
      omega

/-- For every image, a request that is accepted is inside of it, if and only if its end is computed right. -/
theorem check_inside_iff (vreq : Vreq) (treq : Treq) :
    ((∀ image : Image, checkRequest image vreq = 0 → ∀ size ∈ image.driver, vreq.sec + vreq.iov.sum ≤ size) ↔
      vreq.Meets) ∧
    ((∀ image : Image, checkTdRequest image treq = 0 → (treq.sec + treq.secs : Int) ≤ image.size) ↔ treq.Meets) :=
  ⟨checkRequest_inside_iff vreq, checkTdRequest_inside_iff treq⟩

theorem check_wraps : ∃ (image : Image) (vreq : Vreq) (size : Nat), checkRequest image vreq = 0 ∧
    image.driver = some size ∧ size < vreq.sec + vreq.iov.sum :=
  ⟨⟨false, 8, some 8, by decide, by simp⟩, ⟨TD_OP_READ, 2 ^ 64 - 8, [8], 1, by decide, by simp, by decide, by simp⟩, 8,
    by decide, rfl, by decide⟩

end Blktap.Tapdisk.Bounds
