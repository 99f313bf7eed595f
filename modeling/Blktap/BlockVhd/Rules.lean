import Mathlib.Logic.Function.Basic
import Blktap.BlockVhd.Open

/-!
# Rules for the driver's primitives
-/

namespace Blktap.BlockVhd
open Lib Libvhd Program

section Access
variable (s : VhdState) (i j : BitmapIndex) (ref other : RequestRef) (f : VhdBitmap → VhdBitmap)
  (g : VhdRequest → VhdRequest) (k : VhdTransaction → VhdTransaction)

theorem bitmapList_setBitmap :
    (s.setBitmap i f).bitmapList j = if j = i then f (s.bitmapList i) else s.bitmapList j :=
  Function.update_apply ..

theorem request_setBitmap :
    (s.setBitmap i f).request ref =
      if ref = .bitmap i then (f (s.bitmapList i)).req else s.request ref := by
  cases ref with
  | bitmap j =>
      simp only [VhdState.request, bitmapList_setBitmap, RequestRef.bitmap.injEq]
      split <;> rfl
  | data j => rfl
  | bat => rfl
  | zero => rfl

theorem request_setRequest :
    (s.setRequest ref g).request other =
      if other = ref then g (s.request ref) else s.request other := by
  cases ref with
  | data i =>
      cases other with
      | data j =>
          simp only [VhdState.setRequest, VhdState.request, Function.update_apply,
            RequestRef.data.injEq]
      | bitmap j => rfl
      | bat => rfl
      | zero => rfl
  | bitmap i =>
      simp only [VhdState.setRequest, request_setBitmap]
      rfl
  | bat => cases other <;> rfl
  | zero => cases other <;> rfl

@[simp] theorem request_setRequest_self :
    (s.setRequest ref g).request ref = g (s.request ref) := by
  rw [request_setRequest, if_pos rfl]

theorem blk_setRequest : ((s.setRequest ref g).bitmapList i).blk = (s.bitmapList i).blk := by
  cases ref with
  | bitmap j =>
      simp only [VhdState.setRequest, bitmapList_setBitmap]
      split
      next same => rw [same]
      next => rfl
  | data j => rfl
  | bat => rfl
  | zero => rfl

variable {s} in
theorem request_congr {t : VhdState} (list : t.bitmapList = s.bitmapList)
    (pool : t.vreqList = s.vreqList) (req : t.bat.req = s.bat.req)
    (zero : t.bat.zeroReq = s.bat.zeroReq) : t.request ref = s.request ref := by
  cases ref <;> simp only [VhdState.request, list, pool, req, zero]

end Access

section Wp
variable {s : VhdState} {stop : Fault → Prop}

@[simp] theorem wp_assert {post : PUnit → VhdState → Prop} (c : Bool) :
    wp (assert c) post stop s ↔ (c = true → post ⟨⟩ s) ∧ (c = false → stop .assertion) := by
  cases c <;> simp [assert]

@[simp] theorem wp_batEntry {post : Nat → VhdState → Prop} (index : Nat) :
    wp (batEntry index) post stop s ↔
      (index < s.bat.bat.entries → post (s.bat.bat.bat index) s) ∧
        (¬ index < s.bat.bat.entries → stop (.slot index)) := by
  simp [batEntry]

@[simp] theorem wp_quotient {post : Nat → VhdState → Prop} (sector : Nat) :
    wp (quotient sector) post stop s ↔
      (s.spb = 0 → stop .division) ∧ (¬ s.spb = 0 → post (sector / s.spb) s) := by
  simp [quotient]

@[simp] theorem wp_blockOf {post : Nat → VhdState → Prop} (sector : Nat) :
    wp (blockOf sector) post stop s ↔
      (s.spb = 0 → stop .division) ∧ (¬ s.spb = 0 → post (sector / s.spb % 2 ^ 32) s) := by
  simp [blockOf]

@[simp] theorem wp_remainder {post : Nat → VhdState → Prop} (sector : Nat) :
    wp (remainder sector) post stop s ↔
      (s.spb = 0 → stop .division) ∧ (¬ s.spb = 0 → post (sector % s.spb) s) := by
  simp [remainder]

@[simp] theorem wp_toBlockEnd {post : Nat → VhdState → Prop} (treq : TdRequest) :
    wp (toBlockEnd treq) post stop s ↔
      (s.spb = 0 → stop .division) ∧
        (¬ s.spb = 0 → post (min treq.secs (s.spb - treq.sec % s.spb)) s) := by
  simp [toBlockEnd]

theorem wp_testBatmap {post : Bool → VhdState → Prop} (blk : Nat) (memory : stop .memory)
    (each : ∀ full, post full s) : wp (testBatmap blk) post stop s := by
  unfold testBatmap
  simp only [wp_bind, wp_get]
  split
  · exact each _
  · split
    · exact each _
    · exact memory

end Wp

end Blktap.BlockVhd
