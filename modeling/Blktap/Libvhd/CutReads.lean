import Blktap.Libvhd.WriteRuns

/-! # Sector reads of a file that ends early -/

namespace Blktap.Libvhd
open Lib

structure Vhd.Reaches (vhd : Vhd) (first secs : Nat) : Prop where
  bitmap : ∀ sector, first ≤ sector → sector < first + secs → vhd.slot sector < vhd.batEntries →
    vhd.lookup sector ≠ ddBlkUnused → (vhd.lookup sector + vhd.bmSecs) * 512 + 512 ≤ vhd.file.size
  data : ∀ sector, first ≤ sector → sector < first + secs → vhd.finds sector →
    vhd.source sector + 1024 ≤ vhd.file.size

section Reaches
variable {vhd : Vhd} {sector secs size : Nat}

theorem Vhd.Reaches.later (reaches : vhd.Reaches sector secs) {cnt : Nat} (part : cnt ≤ secs) :
    vhd.Reaches (sector + cnt) (secs - cnt) :=
  ⟨fun other low high => reaches.bitmap other (by omega) (by omega),
    fun other low high => reaches.data other (by omega) (by omega)⟩

end Reaches

end Blktap.Libvhd
