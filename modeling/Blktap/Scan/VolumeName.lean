import Blktap.Lib.Mangled
import Blktap.Libvhd.Image

/-!
# The name of a volume (`vhd_util_scan_extract_volume_name`)
-/

namespace Blktap.Scan
open Lib Libvhd

def slash : UInt8 := 0x2F
def dash : UInt8 := 0x2D
def vhdMaxNameLen : Nat := 1024

/-- The pointers that the function compares: into its argument, into its own copy, or `NULL`. -/
inductive Pointer
  | null
  | src (place : Nat)
  | copy (place : Nat)
  deriving DecidableEq

def demangle (name : List UInt8) : List UInt8 := undouble dash slash name

def nameAt (src : List UInt8) : Nat := (lastIndex slash src).getD 0

def lastSlash (copy : List UInt8) : Pointer :=
  match lastIndex slash copy with
  | some i => .copy i
  | none => .null

def extractVolumeName (src : List UInt8) : Outcome (Int × List UInt8) :=
  let name := nameAt src
  let copy := demangle (src.drop name)
  if vhdMaxNameLen ≤ copy.length then .undefined
  else if lastSlash copy = .src name then
    if vhdMaxNameLen ≤ src.length then .undefined else .ok (-einval, src)
  else
    match lastSlash copy with
    | .copy i => .ok (0, copy.drop (i + 1))
    | _ => .undefined

def component (src : List UInt8) : List UInt8 :=
  match lastIndex slash src with
  | some i => src.drop (i + 1)
  | none => src

def text (s : String) : List UInt8 := s.toList.map fun c => c.toNat.toUInt8

def mapperDir : List UInt8 := text "/dev/mapper"

def mapperPath (group volume : List UInt8) : List UInt8 :=
  mapperDir ++ slash :: (doubled dash group ++ dash :: doubled dash volume)

structure IsName (name : List UInt8) : Prop where
  noSlash : slash ∉ name
  noDash : name.head? ≠ some dash

def Right (src : List UInt8) : Prop :=
  (∀ group volume, IsName group → IsName volume → src = mapperPath group volume →
    extractVolumeName src = .ok (0, volume)) ∧
  (single dash (component src) = false → extractVolumeName src = .ok (-einval, src))

theorem lastIndex_path {dir rest : List UInt8} (absent : slash ∉ rest) :
    lastIndex slash (dir ++ slash :: rest) = some dir.length := lastIndex_last absent

theorem lastSlash_copy (copy : List UInt8) (i : Nat) : lastSlash copy ≠ .src i := by
  unfold lastSlash
  split <;> nofun

theorem extractVolumeName_eq (src : List UInt8) : extractVolumeName src =
    if vhdMaxNameLen ≤ (demangle (src.drop (nameAt src))).length then .undefined
    else match lastIndex slash (demangle (src.drop (nameAt src))) with
      | some i => .ok (0, (demangle (src.drop (nameAt src))).drop (i + 1))
      | none => .undefined := by
  unfold extractVolumeName
  dsimp only
  rw [if_neg (lastSlash_copy _ _)]
  unfold lastSlash
  cases lastIndex slash (demangle (src.drop (nameAt src))) <;> rfl

theorem extractVolumeName_accepts (src dst : List UInt8) : extractVolumeName src ≠ .ok (-einval, dst) := by
  rw [extractVolumeName_eq]
  split
  · intro result
    cases result
  · split
    · intro result
      cases result
    · intro result
      cases result

section Mapped
variable {group volume : List UInt8} (groupName : IsName group) (volumeName : IsName volume)
include groupName volumeName

theorem joined_noSlash : slash ∉ doubled dash group ++ dash :: doubled dash volume := by
  have apart : slash ≠ dash := by decide
  rw [List.mem_append, List.mem_cons, mem_doubled, mem_doubled]
  rintro (member | same | member)
  · exact groupName.noSlash member
  · exact apart same
  · exact volumeName.noSlash member

theorem extract_mapped : extractVolumeName (mapperPath group volume) =
    if vhdMaxNameLen ≤ group.length + volume.length + 2 then .undefined else .ok (0, volume) := by
  have last : nameAt (mapperPath group volume) = mapperDir.length := by
    unfold nameAt mapperPath
    rw [lastIndex_path (joined_noSlash groupName volumeName)]
    rfl
  have name : (mapperPath group volume).drop mapperDir.length =
      slash :: (doubled dash group ++ dash :: doubled dash volume) := List.drop_left
  have copy : demangle (slash :: (doubled dash group ++ dash :: doubled dash volume)) =
      (slash :: group) ++ slash :: volume := by
    unfold demangle
    rw [undouble_other (by decide), undouble_joined volumeName.noDash, List.cons_append]
  have length : ((slash :: group) ++ slash :: volume).length = group.length + volume.length + 2 := by
    simp only [List.length_append, List.length_cons]
    omega
  have rest : ((slash :: group) ++ slash :: volume).drop ((slash :: group).length + 1) = volume := by
    simp
  rw [extractVolumeName_eq, last, name, copy, lastIndex_path volumeName.noSlash, length]
  dsimp only
  rw [rest]

end Mapped

/-- The function is right about exactly the paths whose last component has a single dash, if the names it was made of
fit into the buffer. -/
theorem parsed_iff (src : List UInt8) : Right src ↔ single dash (component src) = true ∧
    ∀ group volume, IsName group → IsName volume → src = mapperPath group volume →
      group.length + volume.length + 2 < vhdMaxNameLen := by
  constructor
  · rintro ⟨finds, refuses⟩
    refine ⟨?_, fun group volume groupName volumeName path => ?_⟩
    · by_contra plain
      exact extractVolumeName_accepts src src (refuses (Bool.eq_false_iff.mpr plain))
    · by_contra long
      have found := finds group volume groupName volumeName path
      rw [path, extract_mapped groupName volumeName, if_pos (Nat.le_of_not_lt long)] at found
      cases found
  · rintro ⟨joined, short⟩
    refine ⟨fun group volume groupName volumeName path => ?_, fun plain => ?_⟩
    · rw [path, extract_mapped groupName volumeName,
        if_neg (Nat.not_le_of_lt (short group volume groupName volumeName path))]
    · rw [joined] at plain
      cases plain

theorem plain_wrong : single dash (component (text "/dev/sda")) = false ∧
    extractVolumeName (text "/dev/sda") = .ok (0, text "sda") ∧
    single dash (component (text "disk")) = false ∧ extractVolumeName (text "disk") = .undefined := by
  decide +kernel

end Blktap.Scan
