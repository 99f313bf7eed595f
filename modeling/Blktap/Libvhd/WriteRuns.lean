import Blktap.Lib.Run
import Blktap.Libvhd.ReadChain
import Blktap.Libvhd.WriteImage

/-! # Sector writes over whole runs -/

namespace Blktap.Libvhd
open Lib Action

inductive Below
  | nothing
  | raw (file : File)
  | layer (parent : Chain)

def Below.under : Below → Vhd → Chain
  | nothing, vhd => .base vhd
  | raw file, vhd => .differRaw vhd file
  | layer parent, vhd => .differ vhd parent

def Below.byte : Below → Nat → Nat → UInt8
  | nothing, _, _ => 0
  | raw file, sector, o => file.rawByte sector o
  | layer parent, sector, o => parent.byte sector o

def Below.Valid (type : DiskType) : Below → Prop
  | nothing => type ≠ .diff
  | raw _ => type = .diff
  | layer parent => type = .diff ∧ parent.Valid

section Below
variable {below : Below} {s : Handle}

theorem Below.under_byte (below : Below) (vhd : Vhd) (sector o : Nat) :
    (below.under vhd).byte sector o = (vhd.content sector o).getD (below.byte sector o) := by
  cases below <;> unfold Below.under Chain.byte Vhd.content Below.byte <;> split <;> rfl

@[simp] theorem Below.under_top (below : Below) (vhd : Vhd) : (below.under vhd).top = vhd := by
  cases below <;> rfl

theorem Context.Laid.vhd {ctx : Context} (laid : ctx.Laid)
    (footer : ∀ block, ctx.allocated block →
      (ctx.entry block + ctx.bmSecs + ctx.spb) * 512 + 512 ≤ ctx.file.size) : ctx.toVhd.Valid := by
  have spb : ctx.blockSize = ctx.spb * 512 := (Vhd.spb_mul laid.blockSize).symm
  constructor
  · exact laid.blockSize
  · exact laid.batSize
  · exact laid.covers
  · exact (Nat.add_le_add_left laid.loaded_le _).trans laid.table
  · intro block allocated
    refine Nat.le_trans ?_ (Nat.le_of_add_right_le (footer block allocated))
    change _ + ctx.bmSecs * 512 ≤ _
    rw [← Nat.add_mul]
    exact Nat.mul_le_mul_right 512 (Nat.le_add_right _ _)
  · intro block allocated
    rw [spb, ← Nat.add_mul]
    exact footer block allocated
  · intro p inside
    unfold Vhd.inData at inside
    rw [if_pos laid.dynamic] at inside
    obtain ⟨block, allocated, low, high⟩ := inside
    have extent : ctx.inExtent block p :=
      ⟨(Nat.mul_le_mul_right 512 (Nat.le_add_right _ _)).trans low, high⟩
    refine ⟨fun table => laid.extent block allocated p extent (.inr (.inl ⟨table.1, ?_⟩)), ?_⟩
    · rcases table.2 with entries | loaded
      · have room := padded_le (ctx.maxBatSize * 4) (by have := laid.batSize; omega)
        omega
      · exact Nat.lt_of_lt_of_le loaded (Nat.add_le_add_left laid.loaded_le _)
    · rintro ⟨other, allocated', low', high'⟩
      by_cases same : block = other
      · subst same
        exact absurd high' (Nat.not_lt.mpr low)
      · refine laid.disjoint block other allocated allocated' same p extent ⟨low', ?_⟩
        exact Nat.lt_of_lt_of_le high' (Nat.mul_le_mul_right 512 (Nat.le_add_right _ _))

theorem Handle.Valid.vhd (valid : s.Valid) (dynamic : s.typeDynamic = true) : s.toVhd.Valid :=
  (valid.sound dynamic).laid.vhd (valid.footer dynamic)

theorem Below.under_valid (below : Below) {vhd : Vhd} (dynamic : vhd.typeDynamic = true)
    (valid : vhd.Valid) (parents : below.Valid vhd.type) : (below.under vhd).Valid := by
  cases below with
  | nothing =>
      refine ⟨parents, fun _ => valid, fun fixed => ?_⟩
      simp [Vhd.typeDynamic, fixed] at dynamic
  | raw file => exact ⟨parents, valid⟩
  | layer parent => exact ⟨parents.1, valid, parents.2⟩

theorem Below.valid_under (valid : s.Valid) (parents : below.Valid s.type) :
    (below.under s.toVhd).Valid := by
  cases below with
  | nothing =>
      refine ⟨parents, fun type => valid.vhd ?_, fun type => valid.fixed ?_⟩
      · simp [Vhd.typeDynamic, type]
      · simp [Vhd.typeDynamic, type]
  | raw file => exact ⟨parents, valid.vhd (Vhd.dynamic_of_diff parents)⟩
  | layer parent => exact ⟨parents.1, valid.vhd (Vhd.dynamic_of_diff parents.1), parents.2⟩

end Below

theorem shows_of_readOk {chain : Chain} {sec secs : Nat} (valid : chain.Valid)
    (inside : (sec + secs) * 512 ≤ chain.top.currSize) (ok : chain.SectorReadOk sec secs) :
    ShowsSectors chain sec secs := by
  by_cases dynamic : chain.top.typeDynamic = true
  · exact (sectorReads_dynamic valid inside dynamic).mpr ok chain (.refl chain)
  · exact sectorReads_fixed valid inside dynamic (.refl chain)

structure Session where
  handle : Handle
  shown : Nat → Nat → UInt8

structure SectorWrite where
  sec : Nat
  secs : Nat
  buf : Nat → UInt8

def SectorWrite.update (write : SectorWrite) (shown : Nat → Nat → UInt8) (sector o : Nat) : UInt8 :=
  if write.sec ≤ sector ∧ sector < write.sec + write.secs then
    write.buf ((sector - write.sec) * 512 + o)
  else shown sector o

def Session.write (session : Session) (write : SectorWrite) : Option Session :=
  match vhdIoWrite write.sec write.secs write.buf session.handle with
  | (.ok _, handle) => some { handle, shown := write.update session.shown }
  | _ => none

def Session.WriteOk (session : Session) (write : SectorWrite) : Prop :=
  session.handle.WriteOk write.sec write.secs

structure Session.Good (below : Below) (session : Session) : Prop where
  valid : session.handle.Valid
  parents : below.Valid session.handle.type
  shows : ∀ sector o, o < 512 →
    (below.under session.handle.toVhd).byte sector o = session.shown sector o

section Runs
variable {below : Below} {s t : Session} {w : SectorWrite}

theorem Session.Good.write (good : s.Good below) (ok : s.WriteOk w)
    (action : s.write w = some t) : t.Good below := by
  unfold Session.write at action
  split at action
  · rename_i handle run
    obtain ⟨valid, fields, wrote⟩ := (wp_vhdIoWrite good.valid ok).ok run
    cases action
    refine ⟨valid, ?_, fun sector o small => ?_⟩
    · dsimp only
      rw [fields]
      exact good.parents
    · have before := good.shows sector o small
      rw [Below.under_byte] at before ⊢
      dsimp only
      rw [wrote sector o small]
      unfold SectorWrite.update
      split
      · rfl
      · exact before
  · cases action

/-- In a run of successful writes that all meet the condition, every state reached shows the writes so
far, its maps of full blocks hold only full blocks, and its extents are disjoint and in front of the
footer. -/
theorem vhdIoWrite_runs (valid : s.handle.Valid) (parents : below.Valid s.handle.type)
    (shows : ∀ sector o, o < 512 →
      (below.under s.handle.toVhd).byte sector o = s.shown sector o)
    (run : Run Session.write Session.WriteOk s t) :
    (∀ sec secs, (sec + secs) * 512 ≤ t.handle.currSize →
      (below.under t.handle.toVhd).SectorReadOk sec secs →
      ∃ buf, vhdIoRead (below.under t.handle.toVhd) sec secs = .ok buf ∧
        ∀ nr < secs, ∀ o < 512, buf (nr * 512 + o) = t.shown (sec + nr) o) ∧
    (t.handle.typeDynamic = true →
      t.handle.tableInUse = t.handle.toVhd.table ∧
      t.handle.SoundBatmap ∧
      (∀ batmap, t.handle.batmap = some batmap → t.handle.SoundMap batmap.map) ∧
      ∀ block, t.handle.allocated block →
        (t.handle.entry block + t.handle.bmSecs + t.handle.spb) * 512 + 512 ≤ t.handle.file.size ∧
        ∀ other, t.handle.allocated other → block ≠ other →
          ∀ p, t.handle.inExtent block p → ¬ t.handle.inExtent other p) := by
  have good : t.Good below :=
    run.invariant (I := Session.Good below) (fun _ _ _ good ok action => good.write ok action)
      ⟨valid, parents, shows⟩
  refine ⟨fun sec secs inside ok => ?_, fun dynamic => ?_⟩
  · have chain := Below.valid_under good.valid good.parents
    obtain ⟨buf, action, read⟩ := shows_of_readOk chain
      (by rw [Below.under_top]; exact inside) ok
    refine ⟨buf, action, fun nr small o inSector => ?_⟩
    rw [read nr small o inSector, good.shows _ o inSector]
  · have sound := good.valid.sound dynamic
    exact ⟨sound.table, sound.disk, fun batmap loaded => (sound.memory batmap loaded).sound,
      fun block allocated => ⟨good.valid.footer dynamic block allocated, fun other allocated' apart =>
        sound.laid.disjoint block other allocated allocated' apart⟩⟩

end Runs

def halfOpen (type : DiskType) (currSize : Nat) : Handle where
  file := { size := 4102 * 512, byte := fun p => if p < 4102 * 512 then halfImage.file.byte p else 0 }
  type := type
  currSize := currSize
  tableOffset := 1536
  maxBatSize := 2
  blockSize := 2 ^ 21
  oldBitmap := false
  tapdisk := false
  crtrVer := 0
  dataOffset := 512
  loc := []
  oldBitmap_eq := rfl
  isBlock := false
  sparse := true
  spp := 8
  spp_pos := by decide
  footer := fun p => footerCookie.getD p 0
  bat := none
  batmap := none
  faults := []

section HalfOpen
variable {type : DiskType} {currSize block : Nat}

theorem halfOpen_allocated (allocated : (halfOpen type currSize).allocated block) :
    block = 1 ∧ (halfOpen type currSize).entry block = 4 := by
  obtain ⟨bound, used⟩ := allocated
  have cases : block = 0 ∨ block = 1 := by
    have : block < 2 := bound
    omega
  have same : ∀ block, (halfOpen type currSize).entry block = (halfOpen .dynamic 0).entry block := fun _ => rfl
  rw [same] at used ⊢
  rcases cases with rfl | rfl
  · exact absurd (by decide +kernel : (halfOpen .dynamic 0).entry 0 = ddBlkUnused) used
  · exact ⟨rfl, by decide +kernel⟩

theorem halfOpen_blind : (halfOpen type currSize).looksForBatmap = false :=
  Bool.and_false _ ▸ rfl

theorem halfOpen_valid (moving : type ≠ .fixed) (covers : currSize / 2 ^ vhdBlockShift ≤ 2) :
    (halfOpen type currSize).Valid := by
  have dynamic : (halfOpen type currSize).typeDynamic = true := bne_iff_ne.mpr moving
  have unlooked : ¬ (halfOpen type currSize).looksForBatmap = true := by
    rw [halfOpen_blind]
    simp
  have unmapped : ¬ (halfOpen type currSize).hasBatmap = true := by
    rw [hasBatmap_unlooked halfOpen_blind]
    simp
  have bm : (halfOpen type currSize).bmSecs = 1 := (by decide +kernel : (halfOpen .dynamic 0).bmSecs = 1)
  have spb : (halfOpen type currSize).spb = 4096 := (by decide +kernel : (halfOpen .dynamic 0).spb = 4096)
  have size : (halfOpen type currSize).file.size = 4102 * 512 := rfl
  have table : (halfOpen type currSize).tableOffset = 1536 := rfl
  have padded : vhdBytesPadded ((halfOpen type currSize).maxBatSize * 4) = 512 :=
    (by decide +kernel : vhdBytesPadded ((halfOpen .dynamic 0).maxBatSize * 4) = 512)
  have extent : ∀ {block p}, (halfOpen type currSize).allocated block →
      (halfOpen type currSize).inExtent block p → 2048 ≤ p := by
    intro block p allocated inside
    have low := inside.1
    rw [(halfOpen_allocated allocated).2] at low
    exact low
  have laid : (halfOpen type currSize).Laid := by
    constructor
    · exact dynamic
    · exact ⟨21, by decide, by decide, rfl⟩
    · rw [padded]
      decide
    · exact (by decide : 2 < 2 ^ 32)
    · exact (Nat.mod_le _ _).trans covers
    · exact ⟨3, rfl⟩
    · exact (by decide : 512 ≤ 1536)
    · intro p beyond
      exact if_neg (Nat.not_lt.mpr beyond)
    · change 1536 + _ ≤ _
      rw [padded, size]
      decide
    · exact fun looks => absurd looks unlooked
    · intro block allocated p inside
      have low := extent allocated inside
      rintro (copy | ⟨_, high⟩ | ⟨looks, _⟩ | ⟨has, _⟩)
      · omega
      · rw [padded, table] at high
        omega
      · exact unlooked looks
      · exact unmapped has
    · intro block block' allocated allocated' apart
      exact absurd ((halfOpen_allocated allocated).1.trans (halfOpen_allocated allocated').1.symm)
        apart
    · exact fun has => absurd has unmapped
  refine ⟨fun _ => ⟨⟨laid, fun has => absurd has unmapped, fun _ loaded => by cases loaded⟩, rfl⟩, ?_,
    fun fixed => by rw [dynamic] at fixed; cases fixed⟩
  intro _ block allocated
  rw [(halfOpen_allocated allocated).2, bm, spb, size]

theorem halfOpen_ok {sec secs : Nat}
    (blocks : (halfOpen .dynamic (2 * 2 ^ 21)).blocksOf sec secs = [0])
    (ends : (halfOpen .dynamic (2 * 2 ^ 21)).lastAfter sec secs < ddBlkUnused) :
    (halfOpen .dynamic (2 * 2 ^ 21)).DynamicOk sec secs := by
  constructor
  · refine ⟨fun block allocated => ?_, fun looks => by cases looks⟩
    rw [(halfOpen_allocated allocated).2]
    decide +kernel
  · rw [blocks]
    decide +kernel
  · exact fun _ _ has => by cases has
  · exact fun _ _ _ => Nat.lt_of_lt_of_le ends (by decide +kernel)
  · intro isBlock
    cases isBlock

end HalfOpen

theorem vhdIoWrite_runs_halfOpen :
    ∃ t : Session,
      Session.write ⟨halfOpen .dynamic (2 * 2 ^ 21),
        (Below.nothing.under (halfOpen .dynamic (2 * 2 ^ 21)).toVhd).byte⟩ ⟨0, 1, fun _ => 7⟩ = some t ∧
      t.handle.allocated 0 ∧ t.handle.allocated 1 ∧
      t.handle.tableInUse = t.handle.toVhd.table ∧
      ∀ p, t.handle.inExtent 0 p → ¬ t.handle.inExtent 1 p := by
  have ok : (halfOpen .dynamic (2 * 2 ^ 21)).WriteOk 0 1 := fun _ =>
    halfOpen_ok (by decide +kernel) (by decide +kernel)
  have works : (vhdIoWrite 0 1 (fun _ => 7) (halfOpen .dynamic (2 * 2 ^ 21))).1 = .ok () := by
    decide +kernel
  have new : (vhdIoWrite 0 1 (fun _ => 7) (halfOpen .dynamic (2 * 2 ^ 21))).2.allocated 0 ∧
      (vhdIoWrite 0 1 (fun _ => 7) (halfOpen .dynamic (2 * 2 ^ 21))).2.allocated 1 := by
    decide +kernel
  have dynamic : (vhdIoWrite 0 1 (fun _ => 7) (halfOpen .dynamic (2 * 2 ^ 21))).2.typeDynamic = true := by
    decide +kernel
  rcases action : vhdIoWrite 0 1 (fun _ => 7) (halfOpen .dynamic (2 * 2 ^ 21)) with ⟨result, t⟩
  rw [action] at works new dynamic
  dsimp only at works new dynamic
  subst works
  have step : Session.write ⟨halfOpen .dynamic (2 * 2 ^ 21),
      (Below.nothing.under (halfOpen .dynamic (2 * 2 ^ 21)).toVhd).byte⟩ ⟨0, 1, fun _ => 7⟩ =
      some ⟨t, SectorWrite.update ⟨0, 1, fun _ => 7⟩
        (Below.nothing.under (halfOpen .dynamic (2 * 2 ^ 21)).toVhd).byte⟩ := by
    unfold Session.write
    dsimp only
    rw [action]
  refine ⟨_, step, new.1, new.2, ?_⟩
  have valid : (halfOpen .dynamic (2 * 2 ^ 21)).Valid := halfOpen_valid (by decide) (by decide)
  have ok' : Session.WriteOk ⟨halfOpen .dynamic (2 * 2 ^ 21),
      (Below.nothing.under (halfOpen .dynamic (2 * 2 ^ 21)).toVhd).byte⟩ ⟨0, 1, fun _ => 7⟩ := ok
  have single : Run Session.write Session.WriteOk _ _ := .single ok' step
  have parents : Below.nothing.Valid (halfOpen .dynamic (2 * 2 ^ 21)).type := fun type => by cases type
  have run := vhdIoWrite_runs valid parents (fun _ _ _ => rfl) single
  obtain ⟨table, _, _, extents⟩ := run.2 dynamic
  exact ⟨table, (extents 0 new.1).2 1 new.2 (by decide)⟩

theorem vhdIoWrite_overlaps :
    ∃ (s t : Handle), s.Valid ∧ vhdIoWrite 0 1 (fun _ => 7) s = (.ok (), t) ∧
      (Below.nothing.under s.toVhd).byte 4096 0 = 1 ∧
      (Below.nothing.under t.toVhd).byte 4096 0 = 0 ∧
      t.allocated 0 ∧ t.allocated 1 ∧ t.inExtent 0 (7 * 512) ∧ t.inExtent 1 (7 * 512) := by
  refine ⟨halfOpen .dynamic (2 ^ 21 + 512), _, halfOpen_valid (by decide) (by decide),
    Prod.ext (by decide +kernel : (vhdIoWrite 0 1 (fun _ => 7) (halfOpen .dynamic (2 ^ 21 + 512))).1 = .ok ())
      rfl, ?_⟩
  unfold Vhd.inExtent
  decide +kernel

end Blktap.Libvhd
