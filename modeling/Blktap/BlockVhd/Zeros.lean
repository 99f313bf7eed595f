import Blktap.Lib.Run
import Blktap.Libvhd.Image
import Mathlib.Logic.Function.Basic

/-!
# The buffer of zeros (`block-vhd.c`)
-/

namespace Blktap.BlockVhd.Zeros
open Lib Libvhd

def vhdBlockSize : Nat := 2 ^ vhdBlockShift

structure Image where
  prealloc : Bool
  spb : Nat
  bmSecs : Nat

structure Mapping where
  master : Nat
  size : Nat
  id : Nat
  prealloc : Bool

structure ZeroWrite where
  image : Nat
  bytes : Nat
  mapping : Nat

/-- The process: `images` are the open ones, by the address of their state. `fault` is a failed `ASSERT`. -/
structure Process where
  zeros : Option Mapping
  mappings : Nat
  images : Nat → Option Image
  writes : List ZeroWrite
  fault : Bool

inductive Opening
  | unable
  | fails
  | done (image : Image)

variable (page : Nat)

def zsize (prealloc : Bool) : Nat := 2 * page + if prealloc then vhdBlockSize else 0

/-- `vhd_initialize` of an image; `none` is a failed `mmap`. -/
def vhdInitialize (s : Process) (a : Nat) (prealloc mmap : Bool) : Option Process :=
  match s.zeros with
  | some _ => some s
  | none =>
      if mmap then
        some { s with zeros := some ⟨a, zsize page prealloc, s.mappings, prealloc⟩, mappings := s.mappings + 1 }
      else none

def vhdFree (s : Process) (a : Nat) : Process :=
  match s.zeros with
  | some zeros => if zeros.master = a then { s with zeros := none } else s
  | none => s

def vhdOpen (s : Process) (a : Nat) (prealloc mmap : Bool) (opening : Opening) : Process :=
  match vhdInitialize page s a prealloc mmap with
  | none => s
  | some t =>
      match opening with
      | .unable => t
      | .fails => vhdFree t a
      | .done image => { t with images := Function.update t.images a (some { image with prealloc }) }

def vhdClose (s : Process) (a : Nat) : Process :=
  vhdFree { s with images := Function.update s.images a none } a

def gap (image : Image) (nextDb : Nat) : Nat :=
  let spp := page / 512
  if (nextDb + image.bmSecs) % spp = 0 then 0 else spp - (nextDb + image.bmSecs) % spp

def zeroBytes (image : Image) (nextDb : Nat) : Nat :=
  ((if image.prealloc then image.spb else 0) + image.bmSecs + gap page image nextDb) * 512

def allocate (s : Process) (a nextDb : Nat) : Option Process :=
  (s.images a).map fun image =>
    let bytes := zeroBytes page image nextDb
    match s.zeros with
    | none => { s with fault := true }
    | some zeros =>
        if zeros.size < bytes then { s with fault := true }
        else if image.prealloc then s
        else { s with writes := ⟨a, bytes, zeros.id⟩ :: s.writes }

inductive Event
  | opened (a : Nat) (prealloc mmap : Bool) (opening : Opening)
  | closed (a : Nat)
  | allocated (a nextDb : Nat)
  | written (i : Nat)

def step (s : Process) : Event → Option Process
  | .opened a prealloc mmap opening =>
      if s.fault ∨ (s.images a).isSome then none else some (vhdOpen page s a prealloc mmap opening)
  | .closed a => if s.fault ∨ (s.images a).isNone then none else some (vhdClose s a)
  | .allocated a nextDb => if s.fault then none else allocate page s a nextDb
  | .written i => if s.fault ∨ s.writes.length ≤ i then none else some { s with writes := s.writes.eraseIdx i }

def init : Process := ⟨none, 0, fun _ => none, [], false⟩

structure Sound (s : Process) : Prop where
  found : s.fault = false
  kept : ∀ w ∈ s.writes, ∃ zeros, s.zeros = some zeros ∧ zeros.id = w.mapping ∧ w.bytes ≤ zeros.size

/-- A block is allocated while the buffer is mapped and large enough for it, and the image that has mapped it goes when
no write is on its way. -/
def Meets (s : Process) : Event → Prop
  | .opened a _ _ .fails => (∃ zeros ∈ s.zeros, zeros.master = a) → s.writes = []
  | .opened _ _ _ _ => True
  | .closed a => (∃ zeros ∈ s.zeros, zeros.master = a) → s.writes = []
  | .allocated a nextDb =>
      ∀ image ∈ s.images a, ∃ zeros ∈ s.zeros, zeroBytes page image nextDb ≤ zsize page zeros.prealloc
  | .written _ => True

instance (s : Process) (e : Event) : Decidable (Meets page s e) :=
  match e with
  | .opened a _ _ .fails => inferInstanceAs (Decidable ((∃ zeros ∈ s.zeros, zeros.master = a) → s.writes = []))
  | .opened _ _ _ .unable => inferInstanceAs (Decidable True)
  | .opened _ _ _ (.done _) => inferInstanceAs (Decidable True)
  | .closed a => inferInstanceAs (Decidable ((∃ zeros ∈ s.zeros, zeros.master = a) → s.writes = []))
  | .allocated a nextDb => inferInstanceAs (Decidable
      (∀ image ∈ s.images a, ∃ zeros ∈ s.zeros, zeroBytes page image nextDb ≤ zsize page zeros.prealloc))
  | .written _ => inferInstanceAs (Decidable True)

structure Good (s : Process) : Prop where
  sound : Sound s
  size : ∀ zeros ∈ s.zeros, zeros.size = zsize page zeros.prealloc

variable {page : Nat} {s t : Process} {a : Nat}

theorem Good.vhdInitialize (good : Good page s) {prealloc mmap : Bool}
    (mapped : vhdInitialize page s a prealloc mmap = some t) :
    Good page t ∧ t.writes = s.writes ∧ t.images = s.images ∧ (t.zeros = s.zeros ∨ s.writes = []) := by
  cases zeros : s.zeros with
  | some m =>
      simp only [Zeros.vhdInitialize, zeros] at mapped
      cases mapped
      exact ⟨good, rfl, rfl, .inl zeros⟩
  | none =>
      -- without a buffer no write is on its way
      have empty : s.writes = [] := by
        apply List.eq_nil_iff_forall_not_mem.mpr
        intro w member
        obtain ⟨m, same, _⟩ := good.sound.kept w member
        rw [zeros] at same
        cases same
      simp only [Zeros.vhdInitialize, zeros] at mapped
      split at mapped
      · cases mapped
        refine ⟨⟨⟨good.sound.found, ?_⟩, ?_⟩, rfl, rfl, .inr empty⟩
        · intro w member
          rw [empty] at member
          cases member
        · intro m same
          cases same
          rfl
      · cases mapped

theorem Good.vhdFree (good : Good page s) (quiet : (∃ zeros ∈ s.zeros, zeros.master = a) → s.writes = []) :
    Good page (vhdFree s a) := by
  simp only [Zeros.vhdFree]
  cases zeros : s.zeros with
  | none => exact good
  | some m =>
      dsimp only
      split
      · next master =>
          refine ⟨⟨good.sound.found, ?_⟩, nofun⟩
          intro w member
          have member : w ∈ s.writes := member
          rw [quiet ⟨m, zeros, master⟩] at member
          cases member
      · exact good

theorem Good.images (good : Good page s) (images : Nat → Option Image) : Good page { s with images } :=
  ⟨⟨good.sound.found, good.sound.kept⟩, good.size⟩

theorem Good.vhdOpen (good : Good page s) {prealloc mmap : Bool} {opening : Opening}
    (meets : Meets page s (.opened a prealloc mmap opening)) : Good page (vhdOpen page s a prealloc mmap opening) := by
  simp only [Zeros.vhdOpen]
  cases mapped : Zeros.vhdInitialize page s a prealloc mmap with
  | none => exact good
  | some t =>
      obtain ⟨opened, writes, images, zeros⟩ := good.vhdInitialize mapped
      cases opening with
      | unable => exact opened
      | done image => exact opened.images _
      | fails =>
          apply opened.vhdFree
          intro master
          rw [writes]
          rcases zeros with same | empty
          · rw [same] at master
            exact meets master
          · exact empty

theorem Good.allocate (good : Good page s) {nextDb : Nat} (meets : Meets page s (.allocated a nextDb))
    (action : allocate page s a nextDb = some t) : Good page t := by
  obtain ⟨image, here, action⟩ := Option.map_eq_some_iff.mp action
  obtain ⟨m, zeros, fits⟩ := meets image here
  have size := good.size m zeros
  have zeros : s.zeros = some m := zeros
  simp only [zeros, size, Nat.not_lt.mpr fits, if_false] at action
  split at action
  · cases action
    exact good
  · cases action
    refine ⟨⟨good.sound.found, fun w member => ?_⟩, zeros ▸ good.size⟩
    rcases List.mem_cons.mp member with rfl | old
    · exact ⟨m, rfl, rfl, size ▸ fits⟩
    · exact zeros ▸ good.sound.kept w old

theorem Good.step {e : Event} (good : Good page s) (meets : Meets page s e) (action : step page s e = some t) :
    Good page t := by
  cases e with
  | opened a prealloc mmap opening =>
      simp only [Zeros.step] at action
      split at action
      · cases action
      · cases action
        exact good.vhdOpen meets
  | closed a =>
      simp only [Zeros.step] at action
      split at action
      · cases action
      · cases action
        exact (good.images _).vhdFree meets
  | allocated a nextDb =>
      simp only [Zeros.step] at action
      split at action
      · cases action
      · exact good.allocate meets action
  | written i =>
      simp only [Zeros.step] at action
      split at action
      · cases action
      · cases action
        exact ⟨⟨good.sound.found, fun w member => good.sound.kept w (List.mem_of_mem_eraseIdx member)⟩, good.size⟩

def image (prealloc : Bool) : Image := ⟨prealloc, 4096, 1⟩

end Blktap.BlockVhd.Zeros
