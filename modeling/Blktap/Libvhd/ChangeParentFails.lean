import Mathlib.Tactic.IntervalCases
import Blktap.Libvhd.ChangeParent

/-! # What a failing change of the parent leaves -/

namespace Blktap.Libvhd
open Lib Action RelativePath

def Leads (child parent : List UInt8) (ctx : Context) (loc : Locator) : Prop :=
  ∃ name, vhdParentLocatorRead ctx loc = .ok name ∧ marks.resolve (dirname child) name = parent

def Handle.locAt (s : Handle) (i : Nat) : Locator := s.loc.getD i .unused

def Handle.known (s : Handle) (i : Nat) : Bool := knownCode (s.locAt i).code

def Locator.space (loc : Locator) (p : Nat) : Prop := loc.dataOffset ≤ p ∧ p < loc.dataOffset + loc.size

def Handle.headerPart (s : Handle) (p : Nat) : Prop := s.dataOffset ≤ p ∧ p < s.dataOffset + 1024

structure Opened (child parent : List UInt8) (c : Change) (s : Handle) : Prop where
  diff : s.type = .diff
  locs : s.loc = (List.range 8).map (locatorIn c.header)
  header : ∀ p < 1024, s.file.byte (s.dataOffset + p) = c.header p
  inFile : s.dataOffset + 1024 ≤ s.file.size
  leads : ∀ i < 8, s.known i = true → Leads child parent s.toContext (s.locAt i)
  apart : ∀ i < 8, ∀ j < 8, i ≠ j → s.known i = true → s.known j = true →
    ∀ p, (s.locAt i).space p → ¬ (s.locAt j).space p
  headerApart : ∀ i < 8, s.known i = true → ∀ p, s.headerPart p → ¬ (s.locAt i).space p

section Inputs
variable (c : Change) (s : Handle)

def Change.text (loc : Locator) : List UInt8 :=
  match locatorText c.found loc.code with
  | .ok text => text
  | _ => []

def Change.textBytes (loc : Locator) (p : Nat) : UInt8 := (c.text loc).getD p 0

def Change.size (loc : Locator) : Nat := vhdBytesPadded (c.text loc).length

def Change.Fits (loc : Locator) : Prop := (locatorText c.found loc.code).isOk = true ∧ c.size loc ≤ loc.size

instance (loc : Locator) : Decidable (c.Fits loc) := inferInstanceAs (Decidable (_ ∧ _))

def Handle.faultAt (i : Nat) : Option Fault := (s.faults.drop ((List.range i).countP s.known)).head?.join

def Change.Done (i : Nat) : Prop := c.Fits (s.locAt i) ∧ s.faultAt i = none

def Change.transferred (i : Nat) : Nat :=
  if c.Fits (s.locAt i) then
    match s.faultAt i with
    | some fault => min (c.size (s.locAt i)) (fault.secs * 512)
    | none => c.size (s.locAt i)
  else 0

def Change.newLoc : Nat → List Locator
  | 0 => s.loc
  | i + 1 =>
      if s.known i then
        (newLoc i).set i (locatorAt (s.locAt i).code (c.text (s.locAt i)) (s.locAt i).dataOffset)
      else newLoc i

def Change.newHeader (stamp : ParentStamp) : Nat → UInt8 := sealHeader (c.headerOut stamp (c.newLoc s 8))

def Change.headerTransferred (stamp : ParentStamp) : Nat :=
  if validHeader (c.newHeader s stamp) then
    match s.faultAt 8 with
    | some fault => min 1024 (fault.secs * 512)
    | none => 1024
  else 0

/-- Each locator whose turn comes still leads to the parent with what of its new name gets to the disk, and what of the
header gets there is as it was. -/
structure Change.Spares (child parent : List UInt8) (stamp : ParentStamp) : Prop where
  names : ∀ i < 8, s.known i = true → (∀ j < i, s.known j = true → c.Done s j) →
    Leads child parent (s.put (s.locAt i).dataOffset (c.transferred s i) (c.textBytes (s.locAt i))).toContext
      (s.locAt i)
  header : (∀ i < 8, s.known i = true → c.Done s i) →
    ∀ p < c.headerTransferred s stamp, c.newHeader s stamp p = c.header p

end Inputs

section Reads
variable {child parent : List UInt8} {ctx ctx' : Context} {loc : Locator}

theorem Leads.inside (leads : Leads child parent ctx loc) :
    0 < loc.size ∧ loc.size < 2 ^ 31 ∧ loc.dataOffset + loc.size ≤ ctx.file.size := by
  obtain ⟨name, reads, _⟩ := leads
  unfold vhdParentLocatorRead at reads
  split at reads
  · cases reads
  split at reads
  · cases reads
  split at reads
  · cases reads
  rename_i size
  obtain ⟨raw, reads, _⟩ := Outcome.bind_eq_ok.mp reads
  unfold File.read at reads
  split at reads
  · omega
  · split at reads <;> cases reads

end Reads

section Writes
variable {found : Outcome Parent} {s : Handle} {off code maxBytes i : Nat} {text : List UInt8}

def Handle.emptied (s : Handle) (i : Nat) : Handle :=
  { s with oldBitmap_eq := s.bitmap_eq, loc := s.loc.set i .unused }

end Writes

section Stages
variable {child parent : List UInt8} {c : Change} {s : Handle} {i j : Nat}

def Change.fileAt (c : Change) (s : Handle) : Nat → File
  | 0 => s.file
  | i + 1 =>
      if s.known i then
        (fileAt c s i).put (s.locAt i).dataOffset (c.size (s.locAt i)) (c.textBytes (s.locAt i))
      else fileAt c s i

def Change.stage (c : Change) (s : Handle) (i : Nat) : Handle :=
  { s with
    oldBitmap_eq := s.bitmap_eq, file := c.fileAt s i, loc := c.newLoc s i
    faults := s.faults.drop ((List.range i).countP s.known) }

theorem encode_length {code : Nat} {name text : List UInt8} (encoded : encodeLocation code name = .ok text) :
    text.length ≤ 2 * name.length + 7 := by
  unfold encodeLocation at encoded
  split at encoded
  · unfold vhdMacxEncodeLocation at encoded
    dsimp only at encoded
    split at encoded
    · cases encoded
    · cases encoded
      rw [List.length_append]
      change 7 + _ ≤ _
      omega
  · unfold vhdW2uEncodeLocation at encoded
    dsimp only at encoded
    split at encoded
    · cases encoded
    · cases encoded
      have pairs : ∀ bytes : List UInt8, (bytes.flatMap fun c => [c, 0]).length = 2 * bytes.length := by
        intro bytes
        induction bytes with
        | nil => rfl
        | cons b bytes ih =>
            rw [List.flatMap_cons, List.length_append, ih]
            change 2 + 2 * bytes.length = 2 * (bytes.length + 1)
            omega
      rw [pairs]
      unfold windowsPath
      rw [List.length_map]
      split
      · omega
      · rw [List.length_append]
        change 2 * (2 + _) ≤ _
        split
        · rw [List.length_drop]
          rename_i here
          have long := (List.isPrefixOf_iff_prefix.mp here).length_le
          change 2 ≤ _ at long
          omega
        · omega

section Files

variable (opened : Opened child parent c s) (front : ∀ j < i, s.known j = true → c.Done s j) (small : i ≤ 8)
include opened front small

end Files

section Stopped
variable {t : Handle} (opened : Opened child parent c s) (front : ∀ j < i, s.known j = true → c.Done s j)
  (small : i < 8) (known : s.known i = true)
  (stop : (c.transferred s i = 0 ∧ t.file = c.fileAt s i) ∨
    t.file = (c.fileAt s i).put (s.locAt i).dataOffset (c.transferred s i) (c.textBytes (s.locAt i)))
include opened front small known stop

end Stopped

section Header

variable {stamp : ParentStamp} (opened : Opened child parent c s) (done : ∀ j < 8, s.known j = true → c.Done s j)
include opened

include done
variable {t : Handle} (type : t.type = s.type)
  (stop : (c.headerTransferred s stamp = 0 ∧ t.file = c.fileAt s 8) ∨
    t.file = (c.fileAt s 8).put s.dataOffset (c.headerTransferred s stamp) (c.newHeader s stamp))
include stop

end Header

end Stages

section Call
variable {child parent : List UInt8} {c : Change} {s : Handle} {stamp : ParentStamp} {k : Nat}

end Call

section Samples

end Samples

end Blktap.Libvhd
