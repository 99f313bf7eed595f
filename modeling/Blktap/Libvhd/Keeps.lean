import Blktap.Libvhd.Laid

/-!
# Parts of a file that writes leave alone
-/

namespace Blktap.Libvhd
variable {part part' : Nat → Prop} {file file' file'' : File} {off size stop : Nat} {bytes : Nat → UInt8}

def File.Keeps (part : Nat → Prop) (file file' : File) : Prop :=
  ∀ p, part p → p < file'.size ∧ file'.byte p = file.byte p

theorem File.Keeps.refl (inside : ∀ p, part p → p < file.size) : file.Keeps part file :=
  fun p member => ⟨inside p member, rfl⟩

theorem File.Keeps.trans (first : file.Keeps part file') (second : file'.Keeps part file'') :
    file.Keeps part file'' :=
  fun p member => ⟨(second p member).1, (second p member).2.trans (first p member).2⟩

theorem File.Keeps.mono (keeps : file.Keeps part file') (smaller : ∀ p, part' p → part p) : file.Keeps part' file' :=
  fun p member => keeps p (smaller p member)

theorem File.Keeps.symm (keeps : file.Keeps part file') (inside : ∀ p, part p → p < file.size) :
    file'.Keeps part file :=
  fun p member => ⟨inside p member, (keeps p member).2.symm⟩

theorem File.le_put_size (file : File) (off size : Nat) (bytes : Nat → UInt8) :
    file.size ≤ (file.put off size bytes).size := by
  unfold File.put
  dsimp only
  split
  · exact le_rfl
  · exact le_max_left ..

theorem File.keeps_put (inside : ∀ p, part p → p < file.size)
    (apart : ∀ p, part p → p < off ∨ off + size ≤ p) : file.Keeps part (file.put off size bytes) := by
  intro p member
  have within := inside p member
  have outside := apart p member
  refine ⟨lt_of_lt_of_le within (File.le_put_size ..), ?_⟩
  unfold File.put
  dsimp only
  rw [if_neg (by omega), if_pos within]

theorem File.Keeps.put (keeps : file.Keeps part file') (apart : ∀ p, part p → p < off ∨ off + size ≤ p) :
    file.Keeps part (file'.put off size bytes) :=
  keeps.trans (File.keeps_put (fun p member => (keeps p member).1) apart)

theorem File.keeps_truncate (inside : stop ≤ file.size) : file.Keeps (· < stop) (file.truncate stop) := by
  intro p before
  refine ⟨before, ?_⟩
  unfold File.truncate
  exact if_pos ⟨before, lt_of_lt_of_le before inside⟩

end Blktap.Libvhd
