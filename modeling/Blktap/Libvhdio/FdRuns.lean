import Blktap.Lib.Holders
import Blktap.Lib.Run
import Blktap.Libvhdio.FdMap

/-! # When the descriptor map is right -/

namespace Blktap.Libvhdio
open Lib

def Vhdio.live (lib : Vhdio) (ctx : Nat) : Option Nat :=
  if lib.users ctx = 0 then none else some (lib.obj ctx)

structure Vhdio.Sound (lib : Vhdio) (held : Option Nat) : Prop where
  users : ∀ ctx, lib.users ctx = holders lib.map lib.mapSize ctx
  inside : ∀ fd ctx, lib.map fd = some ctx → fd < lib.mapSize ∧ ctx < lib.contexts
  frees : ∀ ctx, lib.frees ctx = if ctx < lib.contexts ∧ lib.users ctx = 0 then 1 else 0
  refcnt : ∀ ino, lib.refcnt ino = holders lib.live lib.contexts ino + one held ino
  images : ∀ ino, lib.opens ino = lib.closes ino + if lib.refcnt ino = 0 then 0 else 1

structure Process.Sound (p : Process) : Prop where
  users : ∀ ctx, p.lib.users ctx = holders p.lib.map p.lib.mapSize ctx
  maps : ∀ fd, p.lib.map fd = (p.files fd).bind File.ctx?
  kept : ∀ fd ctx, p.files fd = some (.vhd ctx) →
    p.lib.frees ctx = 0 ∧ p.lib.opens (p.lib.obj ctx) = p.lib.closes (p.lib.obj ctx) + 1
  freed : ∀ ctx < p.lib.contexts, (∀ fd, p.files fd ≠ some (.vhd ctx)) → p.lib.frees ctx = 1
  closed : ∀ ino, (∀ fd ctx, p.files fd = some (.vhd ctx) → p.lib.obj ctx ≠ ino) →
    p.lib.opens ino = p.lib.closes ino

def Opening.Fits (o : Opening) (lib : Vhdio) : Prop :=
  ∀ lib' ino, o.calloc = true → ioVhdOpen o lib = (lib', .ok ino) → o.badFlags = false →
    ∀ fd, o.devNull = some fd → fd < lib.mapSize

def Vhdio.DupOk (lib : Vhdio) (old : Nat) (result : Option Nat) : Prop :=
  old < lib.mapSize ∧ ∀ new, result = some new →
    lib.map new = none ∧ (lib.map old ≠ none → new < lib.mapSize)

def CallOk (p : Process) : Call → Prop
  | .open o => o.Fits p.lib
  | .dup old result => p.lib.DupOk old result
  | .dup2 old new works => p.lib.DupOk old (if works then some new else none)
  | .dup3 old new works => p.lib.DupOk old (if works then some new else none)
  | .close _ => True

section Library
variable {lib lib' : Vhdio} {held : Option Nat} {o : Opening} {ino fd ctx : Nat}

theorem Vhdio.Sound.live_iff (sound : lib.Sound held) :
    0 < holders lib.live lib.contexts ino ↔ ∃ fd ctx, lib.map fd = some ctx ∧ lib.obj ctx = ino := by
  rw [holders_pos]
  constructor
  · rintro ⟨ctx, _, live⟩
    unfold Vhdio.live at live
    split at live
    · cases live
    · rename_i used
      rw [sound.users, ← ne_eq, ← Nat.pos_iff_ne_zero, holders_pos] at used
      obtain ⟨fd, _, mapped⟩ := used
      exact ⟨fd, ctx, mapped, Option.some.inj live⟩
  · rintro ⟨fd, ctx, mapped, rfl⟩
    obtain ⟨small, allocated⟩ := sound.inside fd ctx mapped
    have used : 0 < lib.users ctx := by
      rw [sound.users, holders_pos]
      exact ⟨fd, small, mapped⟩
    exact ⟨ctx, allocated, if_neg (Nat.ne_of_gt used)⟩

structure Vhdio.SameMap (lib lib' : Vhdio) : Prop where
  same : lib' = { lib with
    refcnt := lib'.refcnt, rdonly := lib'.rdonly, opens := lib'.opens, closes := lib'.closes }

theorem Vhdio.SameMap.sound (same : lib.SameMap lib') (sound : lib.Sound none)
    (refcnt : ∀ other, lib'.refcnt other = lib.refcnt other + one held other)
    (images : ∀ other, lib'.opens other = lib'.closes other + if lib'.refcnt other = 0 then 0 else 1) :
    lib'.Sound held := by
  have live : lib'.live = lib.live := by rw [same.same]; rfl
  have contexts : lib'.contexts = lib.contexts := by rw [same.same]
  refine ⟨?_, ?_, ?_, fun other => ?_, images⟩
  · rw [same.same]
    exact sound.users
  · rw [same.same]
    exact sound.inside
  · rw [same.same]
    exact sound.frees
  · rw [refcnt, live, contexts, sound.refcnt]
    rfl

theorem Vhdio.SameMap.refl (lib : Vhdio) : lib.SameMap lib := ⟨rfl⟩

theorem Vhdio.SameMap.trans {lib'' : Vhdio} (first : lib.SameMap lib') (second : lib'.SameMap lib'') :
    lib.SameMap lib'' := by
  refine ⟨second.same.trans ?_⟩
  rw [first.same]

theorem update_one (f : Nat → Nat) (other : Nat) :
    Function.update f ino (f ino + 1) other = f other + one (some ino) other := by
  by_cases same : other = ino
  · rw [same, Function.update_self, one_self]
  · rw [Function.update_of_ne same, one_other (Ne.symm same), Nat.add_zero]

theorem getVhd_sound (sound : lib.Sound none) (action : getVhd o lib = (lib', .ok ino)) :
    lib.SameMap lib' ∧ lib'.Sound (some ino) := by
  unfold getVhd at action
  split at action
  · cases action
  · rename_i found _
    split at action
    · rename_i absent
      have none := sound.images found
      rw [if_pos absent, Nat.add_zero] at none
      unfold openVhd at action
      split_ifs at action <;> cases action
      refine ⟨⟨rfl⟩, @Vhdio.SameMap.sound _ _ (some ino) ⟨rfl⟩ sound (fun other => ?_) fun other => ?_⟩
      · rw [← update_one, absent]
      · by_cases same : other = ino
        · simp [same, none]
        · simpa [Function.update_of_ne same] using sound.images other
    · rename_i present
      have open' := sound.images found
      rw [if_neg present] at open'
      split_ifs at action <;> cases action
      refine ⟨⟨rfl⟩, @Vhdio.SameMap.sound _ _ (some ino) ⟨rfl⟩ sound (fun other => ?_) fun other => ?_⟩
      · exact update_one _ other
      · by_cases same : other = ino
        · simp [same, open']
        · simpa [Function.update_of_ne same] using sound.images other

theorem getVhd_fails {code : Nat} (action : getVhd o lib = (lib', .error code)) : lib' = lib := by
  unfold getVhd at action
  split at action
  · exact (Prod.mk.inj action).1.symm
  · split at action
    · unfold openVhd at action
      split_ifs at action <;> first | exact (Prod.mk.inj action).1.symm | cases action
    · split_ifs at action
      · exact (Prod.mk.inj action).1.symm
      · cases action

theorem putVhd_sound (sound : lib.Sound (some ino)) :
    lib.SameMap (putVhd ino lib) ∧ (putVhd ino lib).Sound none := by
  have count := sound.refcnt ino
  rw [one_self] at count
  have present := sound.images ino
  rw [if_neg (by omega)] at present
  refine ⟨⟨rfl⟩, sound.users, sound.inside, sound.frees, fun other => ?_, fun other => ?_⟩
  · change Function.update lib.refcnt ino (lib.refcnt ino - 1) other = _
    by_cases same : other = ino
    · rw [same, Function.update_self, count]
      rfl
    · rw [Function.update_of_ne same, sound.refcnt, one_other (Ne.symm same)]
      rfl
  · by_cases same : other = ino
    · by_cases last : lib.refcnt ino - 1 = 0 <;> simp [putVhd, same, last, present]
    · have kept := sound.images other
      by_cases last : lib.refcnt ino - 1 = 0 <;> simpa [putVhd, Function.update_of_ne same, last] using kept

theorem ioVhdOpen_sound (sound : lib.Sound none) {result : Except Nat Nat}
    (action : ioVhdOpen o lib = (lib', result)) :
    lib.SameMap lib' ∧ lib'.Sound result.toOption := by
  unfold ioVhdOpen at action
  split at action
  · cases action
    exact ⟨.refl _, sound⟩
  split at action
  · cases action
    exact ⟨.refl _, sound⟩
  · rcases got : getVhd o lib with ⟨lib'', code | ino⟩ <;> rw [got] at action <;> dsimp only at action
    · cases action
      rw [getVhd_fails got]
      exact ⟨.refl _, sound⟩
    · obtain ⟨same, sound'⟩ := getVhd_sound sound got
      split_ifs at action <;> cases action
      · obtain ⟨same', given⟩ := putVhd_sound sound'
        exact ⟨same.trans same', given⟩
      · exact ⟨same, sound'⟩

theorem holders_map (free : lib.map fd = none) (inside : fd < lib.mapSize) (other : Nat) :
    holders (Function.update lib.map fd (some ctx)) lib.mapSize other =
      holders lib.map lib.mapSize other + one (some ctx) other := by
  have count := holders_update lib.map (some ctx) other inside
  rwa [free, one_none, Nat.add_zero] at count

theorem mapped_inside (sound : lib.Sound held) {new old : Nat} {contexts : Nat}
    (grows : lib.contexts ≤ contexts) (inside : fd < lib.mapSize) (allocated : ctx < contexts)
    (mapped : Function.update lib.map fd (some ctx) old = some new) :
    old < lib.mapSize ∧ new < contexts := by
  by_cases same : old = fd
  · subst same
    rw [Function.update_self] at mapped
    cases mapped
    exact ⟨inside, allocated⟩
  · rw [Function.update_of_ne same] at mapped
    exact (sound.inside old new mapped).imp_right fun small => small.trans_le grows

theorem create_sound (sound : lib.Sound (some ino)) (free : lib.map fd = none) (inside : fd < lib.mapSize) :
    ((lib.create ino).mapped fd lib.contexts).Sound none := by
  have users : ∀ other, ((lib.create ino).mapped fd lib.contexts).users other =
      lib.users other + one (some lib.contexts) other := update_one lib.users
  have older : ∀ ctx < lib.contexts, lib.live ctx = ((lib.create ino).mapped fd lib.contexts).live ctx := by
    intro ctx small
    have obj : ((lib.create ino).mapped fd lib.contexts).obj ctx = lib.obj ctx :=
      Function.update_of_ne (Nat.ne_of_lt small) _ _
    unfold Vhdio.live
    rw [users, one_other (Nat.ne_of_gt small), obj]
    rfl
  have newest : ((lib.create ino).mapped fd lib.contexts).live lib.contexts = some ino := by
    have obj : ((lib.create ino).mapped fd lib.contexts).obj lib.contexts = ino :=
      Function.update_self ..
    unfold Vhdio.live
    rw [users, one_self, obj]
    rfl
  refine ⟨fun other => ?_, fun old new => ?_, fun other => ?_, fun other => ?_, sound.images⟩
  · rw [users, sound.users]
    exact (holders_map free inside other).symm
  · exact mapped_inside sound (Nat.le_succ _) inside (Nat.lt_succ_self _)
  · refine (sound.frees other).trans ?_
    rw [users]
    change _ = if other < lib.contexts + 1 ∧ _ then _ else _
    by_cases new : other = lib.contexts
    · simp [new]
    · rw [one_other (Ne.symm new)]
      congr 1
      simp only [Nat.add_zero, eq_iff_iff, and_congr_left_iff]
      omega
  · change lib.refcnt other = holders _ (lib.contexts + 1) other
    rw [holders_succ, newest, sound.refcnt, holders_congr older]

theorem mapped_sound (sound : lib.Sound none) {old : Nat} (source : lib.map old = some ctx)
    (free : lib.map fd = none) (inside : fd < lib.mapSize) : (lib.mapped fd ctx).Sound none := by
  obtain ⟨small, allocated⟩ := sound.inside old ctx source
  have users : ∀ other, (lib.mapped fd ctx).users other = lib.users other + one (some ctx) other :=
    update_one lib.users
  have used : lib.users ctx ≠ 0 := by
    rw [sound.users, ← Nat.pos_iff_ne_zero, holders_pos]
    exact ⟨old, small, source⟩
  have unused_iff : ∀ other, (lib.mapped fd ctx).users other = 0 ↔ lib.users other = 0 := by
    intro other
    rw [users]
    by_cases same : ctx = other
    · subst same
      simp [used]
    · simp [one_other same]
  have live : (lib.mapped fd ctx).live = lib.live := by
    funext other
    unfold Vhdio.live
    simp only [unused_iff]
    rfl
  refine ⟨fun other => ?_, fun old new => ?_, fun other => ?_, fun other => ?_, sound.images⟩
  · rw [users, sound.users]
    exact (holders_map free inside other).symm
  · exact mapped_inside sound (Nat.le_refl _) inside allocated
  · simp only [unused_iff]
    exact sound.frees other
  · rw [live]
    exact sound.refcnt other

theorem holders_clear (sound : lib.Sound held) (mapped : lib.map fd = some ctx) (other : Nat) :
    (lib.unmapped fd ctx).users other = holders (lib.unmapped fd ctx).map lib.mapSize other := by
  have count := holders_update lib.map none other (sound.inside fd ctx mapped).1
  rw [mapped, one_none, ← sound.users] at count
  change Function.update lib.users ctx (lib.users ctx - 1) other = holders (Function.update _ _ _) _ _
  by_cases same : other = ctx
  · subst same
    rw [one_self] at count
    rw [Function.update_self]
    omega
  · rw [one_other (Ne.symm same)] at count
    rw [Function.update_of_ne same]
    exact count.symm

theorem cleared_inside (sound : lib.Sound held) {old new : Nat}
    (mapped : Function.update lib.map fd none old = some new) :
    old < lib.mapSize ∧ new < lib.contexts := by
  by_cases same : old = fd
  · rw [same, Function.update_self] at mapped
    cases mapped
  · rw [Function.update_of_ne same] at mapped
    exact sound.inside old new mapped

theorem free_sound (sound : lib.Sound none) (mapped : lib.map fd = some ctx)
    (last : (lib.unmapped fd ctx).users ctx = 0) :
    ((lib.unmapped fd ctx).free ctx).Sound (some (lib.obj ctx)) := by
  obtain ⟨small, allocated⟩ := sound.inside fd ctx mapped
  have used : lib.users ctx ≠ 0 := by
    rw [sound.users, ← Nat.pos_iff_ne_zero, holders_pos]
    exact ⟨fd, small, mapped⟩
  have before : lib.live ctx = some (lib.obj ctx) := if_neg used
  have others : ∀ other, other ≠ ctx → (lib.unmapped fd ctx).users other = lib.users other :=
    fun other apart => Function.update_of_ne apart _ _
  have live : ((lib.unmapped fd ctx).free ctx).live = Function.update lib.live ctx none := by
    funext other
    by_cases same : other = ctx
    · rw [same, Function.update_self]
      exact if_pos last
    · rw [Function.update_of_ne same]
      unfold Vhdio.live
      rw [show ((lib.unmapped fd ctx).free ctx).users other = _ from others other same]
      rfl
  refine ⟨holders_clear sound mapped, fun old new => cleared_inside sound, fun other => ?_,
    fun other => ?_, sound.images⟩
  · have freed := sound.frees other
    change Function.update lib.frees ctx (lib.frees ctx + 1) other =
      if other < lib.contexts ∧ (lib.unmapped fd ctx).users other = 0 then 1 else 0
    by_cases same : other = ctx
    · subst same
      rw [Function.update_self, freed, last]
      simp [allocated, used]
    · rw [Function.update_of_ne same, others other same]
      exact freed
  · have count := holders_update lib.live none other allocated
    rw [before, one_none, Nat.add_zero] at count
    rw [live]
    exact (sound.refcnt other).trans count.symm

theorem unmapped_sound (sound : lib.Sound none) (mapped : lib.map fd = some ctx)
    (more : (lib.unmapped fd ctx).users ctx ≠ 0) : (lib.unmapped fd ctx).Sound none := by
  have unused_iff : ∀ other, (lib.unmapped fd ctx).users other = 0 ↔ lib.users other = 0 := by
    intro other
    by_cases same : other = ctx
    · subst same
      refine ⟨fun none => absurd none more, fun none => ?_⟩
      change Function.update lib.users other (lib.users other - 1) other = 0
      rw [Function.update_self, none]
    · exact Eq.congr_left (Function.update_of_ne same _ _)
  have live : (lib.unmapped fd ctx).live = lib.live := by
    funext other
    unfold Vhdio.live
    simp only [unused_iff]
    rfl
  refine ⟨holders_clear sound mapped, fun old new => cleared_inside sound, fun other => ?_,
    fun other => ?_, sound.images⟩
  · simp only [unused_iff]
    exact sound.frees other
  · rw [live]
    exact sound.refcnt other

theorem mapClear_sound (sound : lib.Sound none) :
    (mapClear fd lib).Sound none ∧ (mapClear fd lib).map = Function.update lib.map fd none := by
  have nothing : lib.map fd = none → lib.map = Function.update lib.map fd none := fun free => by
    rw [← free, Function.update_eq_self]
  unfold mapClear
  by_cases outside : lib.mapSize ≤ fd
  · rw [if_pos outside]
    refine ⟨sound, nothing ?_⟩
    by_contra mapped
    obtain ⟨ctx, mapped⟩ := Option.ne_none_iff_exists'.mp mapped
    exact absurd (sound.inside fd ctx mapped).1 (Nat.not_lt.mpr outside)
  · rw [if_neg outside]
    cases mapped : lib.map fd with
    | none => exact ⟨sound, nothing mapped⟩
    | some ctx =>
        dsimp only
        by_cases last : (lib.unmapped fd ctx).users ctx = 0
        · rw [if_pos last]
          exact ⟨(putVhd_sound (free_sound sound mapped last)).2, rfl⟩
        · rw [if_neg last]
          exact ⟨unmapped_sound sound mapped last, rfl⟩

end Library

section Calls
variable {p q : Process} {lib : Vhdio} {old fd : Nat} {result : Option Nat} {o : Opening}

structure Process.Good (p : Process) : Prop where
  lib : p.lib.Sound none
  maps : ∀ fd, p.lib.map fd = (p.files fd).bind File.ctx?

theorem Process.Good.sound (good : p.Good) : p.Sound := by
  have mapped : ∀ {fd ctx}, p.files fd = some (.vhd ctx) → p.lib.map fd = some ctx := by
    intro fd ctx file
    rw [good.maps, file]
    rfl
  have unmapped : ∀ {fd ctx}, p.lib.map fd = some ctx → p.files fd = some (.vhd ctx) := by
    intro fd ctx mapped
    rw [good.maps] at mapped
    obtain ⟨file, found, same⟩ := Option.bind_eq_some_iff.mp mapped
    cases file with
    | other => cases same
    | vhd ctx' => exact found.trans (congrArg (some ∘ File.vhd) (Option.some.inj same))
  refine ⟨good.lib.users, good.maps, fun fd ctx file => ⟨?_, ?_⟩, fun ctx allocated absent => ?_,
    fun ino absent => ?_⟩
  · have used : p.lib.users ctx ≠ 0 := by
      rw [good.lib.users, ← Nat.pos_iff_ne_zero, holders_pos]
      exact ⟨fd, (good.lib.inside fd ctx (mapped file)).1, mapped file⟩
    rw [good.lib.frees, if_neg fun unused => used unused.2]
  · have present := good.lib.live_iff.mpr ⟨fd, ctx, mapped file, rfl⟩
    rw [good.lib.images, good.lib.refcnt]
    simp [Nat.ne_of_gt present]
  · have unused : p.lib.users ctx = 0 := by
      rw [good.lib.users, holders_zero]
      exact fun fd _ found => absent fd (unmapped found)
    rw [good.lib.frees, if_pos ⟨allocated, unused⟩]
  · have none : ¬ 0 < holders p.lib.live p.lib.contexts ino := fun present =>
      have ⟨fd, ctx, found, same⟩ := good.lib.live_iff.mp present
      absent fd ctx (unmapped found) same
    rw [good.lib.images, good.lib.refcnt]
    simp [Nat.eq_zero_of_not_pos none]

theorem maps_update {map : Nat → Option Nat} {files : Nat → Option File}
    (maps : ∀ fd, map fd = (files fd).bind File.ctx?) (file : Option File) (other : Nat) :
    Function.update map fd (file.bind File.ctx?) other =
      (Function.update files fd file other).bind File.ctx? := by
  by_cases same : other = fd
  · rw [same, Function.update_self, Function.update_self]
  · rw [Function.update_of_ne same, Function.update_of_ne same, maps]

theorem step_open : p.step (.open o) =
    (ioOpen o p.lib).map fun (lib, opened) => .opened lib p.files opened := rfl

theorem Process.Good.open (good : p.Good) (possible : p.Possible (.open o)) (ok : o.Fits p.lib) :
    ∃ q, p.step (.open o) = some q ∧ q.Good := by
  have free : ∀ fd, p.files fd = none → p.lib.map fd = none := fun fd none => by
    rw [good.maps, none]
    rfl
  -- the descriptors of a call that makes no context
  have plain : ∀ lib' opened, p.lib.SameMap lib' → lib'.Sound none → opened = .failed ∨ opened = .ofStd o.std →
      (Process.opened lib' p.files opened).Good := by
    intro lib' opened same sound opened'
    have map : lib'.map = p.lib.map := by rw [same.same]
    have kept : (Process.opened lib' p.files .failed).Good := ⟨sound, fun fd => by
      rw [show (Process.opened lib' p.files .failed).lib.map fd = p.lib.map fd from congrFun map fd]
      exact good.maps fd⟩
    rcases opened' with rfl | rfl
    · exact kept
    · cases std : o.std with
      | none => exact kept
      | some fd =>
          refine ⟨sound, fun other => ?_⟩
          change lib'.map other = _
          have update := @maps_update fd _ _ good.maps (some .other) other
          rw [show (some File.other).bind File.ctx? = p.lib.map fd from (free fd (possible.2 fd std)).symm,
            Function.update_eq_self] at update
          rw [map]
          exact update
  rw [step_open]
  unfold ioOpen
  split
  · exact ⟨_, rfl, plain _ _ (.refl _) good.lib (.inl rfl)⟩
  rename_i calloc
  rcases opens : ioVhdOpen o p.lib with ⟨lib', code | ino⟩ <;> dsimp only
  · obtain ⟨same, sound⟩ := ioVhdOpen_sound good.lib opens
    split
    · exact ⟨_, rfl, plain _ _ same sound (.inr rfl)⟩
    · exact ⟨_, rfl, plain _ _ same sound (.inl rfl)⟩
  · obtain ⟨same, sound⟩ := ioVhdOpen_sound good.lib opens
    obtain ⟨given, sound'⟩ := putVhd_sound sound
    split
    · exact ⟨_, rfl, plain _ _ (same.trans given) sound' (.inl rfl)⟩
    rename_i flags
    cases devNull : o.devNull with
    | none => exact ⟨_, rfl, plain _ _ (same.trans given) sound' (.inl rfl)⟩
    | some fd =>
        have map : lib'.map = p.lib.map := by rw [same.same]
        have size : lib'.mapSize = p.lib.mapSize := by rw [same.same]
        have inside : fd < lib'.mapSize := size ▸
          ok lib' ino (by simpa using calloc) opens (by simpa using flags) fd devNull
        have free' : lib'.map fd = none := map ▸ free fd (possible.1 fd devNull)
        have set : mapSet fd lib'.contexts (lib'.create ino) =
            some ((lib'.create ino).mapped fd lib'.contexts) := if_neg (Nat.not_le.mpr inside)
        dsimp only
        rw [set]
        refine ⟨_, rfl, create_sound sound free' inside, fun other => ?_⟩
        change Function.update lib'.map fd (some lib'.contexts) other = _
        rw [map]
        exact maps_update good.maps (some (.vhd lib'.contexts)) other

theorem dup_good (good : p.Good) (ok : p.lib.DupOk old result) :
    ∃ lib, dupWrapper old result p.lib = some lib ∧
      Process.Good { lib, files := dupFiles p.files old result } := by
  obtain ⟨inside, free⟩ := ok
  unfold dupWrapper
  rw [if_neg (Nat.not_le.mpr inside)]
  cases result with
  | none => exact ⟨_, rfl, good⟩
  | some new =>
      obtain ⟨free, fits⟩ := free new rfl
      cases source : p.lib.map old with
      | none =>
          refine ⟨_, rfl, good.lib, fun other => ?_⟩
          have update := @maps_update new _ _ good.maps (p.files old) other
          rw [← good.maps, source, ← free, Function.update_eq_self] at update
          exact update
      | some ctx =>
          have room := fits (by simp [source])
          refine ⟨_, if_neg (Nat.not_le.mpr room), mapped_sound good.lib source free room, fun other => ?_⟩
          have update := @maps_update new _ _ good.maps (p.files old) other
          rw [← good.maps, source] at update
          exact update

theorem Process.Good.close (good : p.Good) : ∃ q, p.step (.close fd) = some q ∧ q.Good := by
  obtain ⟨sound, map⟩ := @mapClear_sound _ fd good.lib
  refine ⟨_, rfl, sound, fun other => ?_⟩
  change (mapClear fd p.lib).map other = _
  rw [map]
  exact maps_update good.maps none other

def Process.Admits (p : Process) (call : Call) : Prop := p.Possible call ∧ CallOk p call

theorem step_good {call : Call} (good : p.Good) (admits : p.Admits call) :
    ∃ q, p.step call = some q ∧ q.Good := by
  obtain ⟨possible, ok⟩ := admits
  cases call with
  | «open» o => exact good.open possible ok
  | dup old result =>
      obtain ⟨lib, action, good'⟩ := dup_good good ok
      exact ⟨_, congrArg (Option.map _) action, good'⟩
  | dup2 old new works =>
      obtain ⟨lib, action, good'⟩ := dup_good good ok
      exact ⟨_, congrArg (Option.map _) action, good'⟩
  | dup3 old new works =>
      obtain ⟨lib, action, good'⟩ := dup_good good ok
      exact ⟨_, congrArg (Option.map _) action, good'⟩
  | close fd => exact good.close

structure Process.Initial (p : Process) : Prop where
  files : ∀ fd, p.files fd ≠ none → p.files fd = some .other
  map : p.lib.map = fun _ => none
  users : p.lib.users = fun _ => 0
  refcnt : p.lib.refcnt = fun _ => 0
  contexts : p.lib.contexts = 0
  frees : p.lib.frees = fun _ => 0
  images : p.lib.opens = p.lib.closes

theorem Process.Initial.good (initial : p.Initial) : p.Good := by
  have empty : ∀ (n b : Nat), holders (fun _ => none) n b = 0 :=
    fun _ _ => holders_zero.mpr fun _ _ found => by cases found
  refine ⟨⟨fun ctx => ?_, fun fd ctx mapped => ?_, fun ctx => ?_, fun ino => ?_, fun ino => ?_⟩, fun fd => ?_⟩
  · rw [initial.users, initial.map, empty]
  · rw [initial.map] at mapped
    cases mapped
  · rw [initial.frees, initial.contexts]
    simp
  · rw [initial.refcnt, initial.contexts]
    rfl
  · rw [initial.images, initial.refcnt]
    rfl
  · rw [initial.map]
    cases file : p.files fd with
    | none => rfl
    | some _ =>
        have other := initial.files fd (by simp [file])
        rw [file] at other
        cases other
        rfl

end Calls

end Blktap.Libvhdio
