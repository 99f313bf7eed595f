import Blktap.Lib.Queues
import Blktap.Lib.Run
import Mathlib.Logic.Function.Basic

/-!
# Images and their drivers (`tapdisk-interface.c`, `tapdisk-image.c`)
-/

namespace Blktap.Tapdisk.Sharing
open Lib
variable {ν : Type} [DecidableEq ν]

structure Driver where
  refcnt : Int
  opened : Bool
  closes : Nat
  freed : Bool
  deriving DecidableEq

structure Image (ν : Type) where
  type : Nat
  name : ν
  driver : Nat

structure Spec (ν : Type) where
  type : Nat
  name : ν
  shareable : Bool
  imageOk : Bool
  driverOk : Bool
  openOk : Bool

/-- The VBDs `0` to `vbds - 1` with their lists of images, and the images that are open but in no list of a VBD -/
structure State (ν : Type) where
  drivers : Nat → Driver
  next : Nat
  vbds : Nat
  chains : Nat → List (Image ν)
  others : List (Image ν)

namespace State
variable (s : State ν)

def images : List (Image ν) := queued s.chains s.vbds ++ s.others

def setDriver (d : Nat) (driver : Driver) : State ν := { s with drivers := Function.update s.drivers d driver }

end State

variable (s : State ν)

def getSharedImage (spec : Spec ν) : Option (Image ν) :=
  if spec.shareable then
    (queued s.chains s.vbds).find? fun image => image.type = spec.type ∧ image.name = spec.name
  else none

def get (d : Nat) : State ν := s.setDriver d { s.drivers d with refcnt := (s.drivers d).refcnt + 1 }

def allocate : State ν := { s.setDriver s.next ⟨0, false, 0, false⟩ with next := s.next + 1 }

def tdOpen (d : Nat) : State ν :=
  s.setDriver d { s.drivers d with opened := true, refcnt := (s.drivers d).refcnt + 1 }

def tdClose (d : Nat) : State ν :=
  let refcnt := (s.drivers d).refcnt - 1
  if refcnt = 0 ∧ (s.drivers d).opened then
    s.setDriver d { s.drivers d with refcnt, opened := false, closes := (s.drivers d).closes + 1 }
  else s.setDriver d { s.drivers d with refcnt }

def driverFree (d : Nat) : State ν :=
  if (s.drivers d).refcnt ≠ 0 then s else s.setDriver d { s.drivers d with freed := true }

def imageClose (image : Image ν) : State ν := driverFree (tdClose s image.driver) image.driver

def imageOpen (spec : Spec ν) : State ν × Option (Image ν) :=
  if !spec.imageOk then (s, none)
  else
    match getSharedImage s spec with
    | some shared => (get s shared.driver, some ⟨spec.type, spec.name, shared.driver⟩)
    | none =>
        if !spec.driverOk then (s, none)
        else if spec.openOk then (tdOpen (allocate s) s.next, some ⟨spec.type, spec.name, s.next⟩)
        else
          -- `goto fail` closes the image that has not been opened
          (imageClose (allocate s) ⟨spec.type, spec.name, s.next⟩, none)

def closeChain (list : List (Image ν)) : State ν := list.foldl imageClose s

def freeImages (list : List (Image ν)) : State ν := list.foldl (fun s image => driverFree s image.driver) s

def openParents (s : State ν) (head : List (Image ν)) (ends : Bool) : List (Spec ν) → State ν × List (Image ν) × Bool
  | [] => (s, head, ends)
  | parent :: parents =>
      match imageOpen s parent with
      | (s, none) => (s, head, false)
      | (s, some image) => openParents s (head ++ [image]) ends parents

structure Chain (ν : Type) where
  leaf : Spec ν
  device : Option (Spec ν)
  parents : List (Spec ν)
  ends : Bool

/-- `TAILQ_CONCAT(&head, _head, entry)` moves the entries of the second list, that of the VBD, behind those of the
first one, which is local. -/
def concat (s : State ν) (v : Nat) (head : List (Image ν)) : State ν :=
  { s with chains := Function.update s.chains v [], others := head ++ s.chains v ++ s.others }

def openChain (v : Nat) (chain : Chain ν) : State ν :=
  match imageOpen s chain.leaf with
  | (s, none) => s
  | (s, some leaf) =>
      match chain.device with
      | some device =>
          match imageOpen s device with
          | (s, none) => closeChain s [leaf]
          | (s, some parent) => concat s v [leaf, parent]
      | none =>
          match openParents s [leaf] chain.ends chain.parents with
          | (s, head, true) => concat s v head
          | (s, head, false) => closeChain s head

/-- The loop over the lines of a file in `tapdisk_image_open_x_chain`; `none` is a line that is no image. -/
def openLines (s : State ν) (head : List (Image ν)) : List (Option (Spec ν)) → State ν × List (Image ν) × Bool
  | [] => (s, head, !head.isEmpty)
  | none :: _ => (s, head, false)
  | some spec :: lines =>
      match imageOpen s spec with
      | (s, none) => (s, head, false)
      | (s, some image) => openLines s (head ++ [image]) lines

structure XChain (ν : Type) where
  lines : List (Option (Spec ν))
  parents : List (Spec ν)
  ends : Bool

def openXChain (v : Nat) (chain : XChain ν) : State ν :=
  match openLines s [] chain.lines with
  | (s, head, false) => freeImages s head
  | (s, head, true) =>
      match openParents s head chain.ends chain.parents with
      | (s, head, true) => concat s v head
      | (s, head, false) => freeImages s head

inductive Event (ν : Type)
  | vbd
  | openImage (spec : Spec ν)
  | closeImage (i : Nat)
  | openChain (v : Nat) (chain : Chain ν)
  | openXChain (v : Nat) (chain : XChain ν)
  | closeChain (v : Nat)

def step (s : State ν) : Event ν → Option (State ν)
  | .vbd => some { s with vbds := s.vbds + 1, chains := Function.update s.chains s.vbds [] }
  | .openImage spec =>
      match imageOpen s spec with
      | (s, none) => some s
      | (s, some image) => some { s with others := image :: s.others }
  | .closeImage i => s.others[i]?.map fun image => imageClose { s with others := s.others.eraseIdx i } image
  | .openChain v chain => if v < s.vbds then some (openChain s v chain) else none
  | .openXChain v chain => if v < s.vbds then some (openXChain s v chain) else none
  | .closeChain v =>
      if v < s.vbds then some (closeChain { s with chains := Function.update s.chains v [] } (s.chains v)) else none

def init : State ν := ⟨fun _ => ⟨0, false, 0, false⟩, 0, 0, fun _ => [], []⟩

end Blktap.Tapdisk.Sharing
