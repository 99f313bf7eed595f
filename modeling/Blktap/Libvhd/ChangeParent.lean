import Blktap.Libvhd.LocatorRead

/-!
# Giving a child another parent (`vhd_change_parent`)
-/

namespace Blktap.Libvhd
open Lib Action

/-- A call of `vhd_change_parent`. The path to the parent has up to `MAX_NAME_LEN` characters for going up, and as many
down. -/
structure Change where
  found : Outcome Parent
  raw : Bool
  header : Nat → UInt8
  short : ∀ parent name, found = .ok parent → parent.relative = .ok name →
    name.length < 2 * RelativePath.maxNameLen
  defined : ∀ parent, found = .ok parent → parent.relative ≠ .undefined

def parentName (path : List UInt8) : List UInt8 :=
  (((basename path).takeWhile (· < 128)).take 256).flatMap fun c => [0, c]

def Change.stamp (c : Change) : Outcome ParentStamp := do
  let parent ← c.found
  let uuid ← if c.raw then .ok fun _ => 0 else do
    let image ← parent.image
    .ok image.2
  .ok { uuid, time := parent.time, name := parentName parent.path }

def knownCode (code : Nat) : Bool := code == macxCode || code == w2kuCode || code == w2ruCode

def Change.headerOut (c : Change) (stamp : ParentStamp) (loc : List Locator) (p : Nat) : UInt8 :=
  if 40 ≤ p ∧ p < 56 then stamp.uuid (p - 40)
  else if 56 ≤ p ∧ p < 60 then beByte 4 stamp.time (p - 56)
  else if 64 ≤ p ∧ p < 576 then stamp.name.getD (p - 64) 0
  else if (576 ≤ p ∧ p < 768) ∧ knownCode (locatorIn c.header ((p - 576) / 24)).code = true then
    locatorOut (loc.getD ((p - 576) / 24) .unused) ((p - 576) % 24)
  else c.header p

def vhdWriteHeader (header : Nat → UInt8) : Action Handle Unit := do
  let s ← get
  if !s.typeDynamic then fail (-einval)
  else if !validHeader (sealHeader header) then fail (-einval)
  else vhdWrite s.dataOffset 1024 (sealHeader header)

end Blktap.Libvhd
