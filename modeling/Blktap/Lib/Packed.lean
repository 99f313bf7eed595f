import Mathlib.Algebra.BigOperators.Group.List.Basic
import Mathlib.Algebra.Ring.Nat
import Mathlib.Tactic.Cases

/-!
# Entries that lie one behind the other

`shows image off e` says that entry `e` is at `off` of an image; it takes `len e` bytes there.
-/

namespace Blktap.Lib
variable {σ ε : Type} (shows : σ → Nat → ε → Prop) (len : ε → Nat)

/-- The entries of a list lie from `off` on, and the last one ends at `stop`. -/
def Packed (image : σ) : Nat → List ε → Nat → Prop
  | off, [], stop => off = stop
  | off, e :: rest, stop => shows image off e ∧ Packed image (off + len e) rest stop

def firstAt (kind : ε → Bool) : Nat → List ε → Option Nat
  | _, [] => none
  | off, e :: rest => if kind e then some off else firstAt kind (off + len e) rest

variable {shows len} {image image' : σ} {off stop : Nat} {log rest : List ε} {e : ε} {kind : ε → Bool}

theorem Packed.stop_eq (packed : Packed shows len image off log stop) : stop = off + (log.map len).sum := by
  induction log generalizing off with
  | nil => exact Eq.symm packed
  | cons e rest ih =>
      rw [ih packed.2, List.map_cons, List.sum_cons]
      omega

theorem Packed.snoc (packed : Packed shows len image off log stop) (next : shows image stop e) :
    Packed shows len image off (log ++ [e]) (stop + len e) := by
  induction log generalizing off with
  | nil =>
      cases packed
      exact ⟨next, rfl⟩
  | cons first rest ih => exact ⟨packed.1, ih packed.2⟩

theorem Packed.frame (packed : Packed shows len image off log stop)
    (keeps : ∀ at' e, off ≤ at' → at' + len e ≤ stop → shows image at' e → shows image' at' e) :
    Packed shows len image' off log stop := by
  induction log generalizing off with
  | nil => exact packed
  | cons e rest ih =>
      have last := packed.2.stop_eq
      refine ⟨keeps off e (Nat.le_refl off) (by omega) packed.1, ih packed.2 fun at' e' behind => ?_⟩
      exact keeps at' e' (by omega)

theorem firstAt_snoc (kind : ε → Bool) (off : Nat) (log : List ε) (e : ε) :
    firstAt len kind off (log ++ [e]) =
      (firstAt len kind off log).orElse fun _ =>
        if kind e then some (off + (log.map len).sum) else none := by
  induction log generalizing off with
  | nil => rfl
  | cons first rest ih =>
      rw [List.cons_append, firstAt, firstAt]
      by_cases found : kind first = true
      · rw [if_pos found, if_pos found]
        rfl
      · rw [if_neg found, if_neg found, ih, List.map_cons, List.sum_cons, Nat.add_assoc]

theorem firstAt_none (kind : ε → Bool) (off : Nat) (log : List ε) :
    firstAt len kind off log = none ↔ log.countP kind = 0 := by
  induction log generalizing off with
  | nil => exact iff_of_true rfl rfl
  | cons e rest ih =>
      rw [firstAt, List.countP_cons]
      by_cases found : kind e = true
      · rw [if_pos found, if_pos found]
        exact iff_of_false nofun (by omega)
      · rw [if_neg found, if_neg found]
        exact ih _

end Blktap.Lib
