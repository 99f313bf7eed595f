import Blktap.Libvhd.Created
import Blktap.Libvhd.Keeps
import Blktap.Libvhd.RelativePath

/-!
# Reading the names of the parent back (`vhd_parent_locator_read`)
-/

namespace Blktap.Libvhd
open Lib RelativePath

def cString (bytes : List UInt8) : List UInt8 := bytes.takeWhile (· != 0)

def vhdMacxDecodeLocation (bytes : List UInt8) : Option (List UInt8) :=
  if bytes.any (128 ≤ ·) then none
  else
    let name := cString bytes
    if [0x66, 0x69, 0x6c, 0x65, 0x3a, 0x2f, 0x2f].isPrefixOf name then some (name.drop 7) else none

def ofUtf16le : List UInt8 → Option (List UInt8)
  | [] => some []
  | [_] => none
  | low :: high :: bytes => if high = 0 ∧ low < 128 then (ofUtf16le bytes).map (low :: ·) else none

def vhdW2uDecodeLocation (bytes : List UInt8) : Option (List UInt8) := do
  let chars ← ofUtf16le bytes
  let name := cString (chars.map fun c => if c = 0x5c then 0x2f else c)
  some (if [0x43, 0x3a].isPrefixOf name ∨ [0x63, 0x3a].isPrefixOf name then name.drop 2 else name)

def decodeLocation (code : Nat) (bytes : List UInt8) : Option (List UInt8) :=
  if code = macxCode then vhdMacxDecodeLocation bytes else vhdW2uDecodeLocation bytes

/-- `vhd_parent_locator_read`; the size of the locator is an `int`, and its length is decoded whatever the size is. -/
def vhdParentLocatorRead (ctx : Context) (loc : Locator) : Outcome (List UInt8) :=
  if ctx.type ≠ .diff then .error (-einval)
  else if loc.code ≠ macxCode ∧ loc.code ≠ w2kuCode ∧ loc.code ≠ w2ruCode then .error (-einval)
  else if loc.size = 0 ∨ 2 ^ 31 ≤ loc.size then .error (-einval)
  else do
    let raw ← ctx.file.read loc.dataOffset loc.size
    if loc.size < loc.dataLen then .undefined
    else
      match decodeLocation loc.code ((List.range loc.dataLen).map raw) with
      | none => .error (-einval)
      | some name => .ok name

section Spellings
variable {name text : List UInt8}

theorem cString_eq (nonzero : 0 ∉ name) : cString name = name := by
  have all : ∀ c ∈ name, (c != 0) = true := fun c member => bne_iff_ne.mpr fun zero => nonzero (zero ▸ member)
  have whole : (name ++ []).takeWhile (· != 0) = name ++ [].takeWhile (· != 0) :=
    List.takeWhile_append_of_pos all
  rwa [List.append_nil, List.takeWhile_nil, List.append_nil] at whole

theorem ofUtf16le_wide (ascii : ∀ c ∈ text, c < 128) : ofUtf16le (text.flatMap fun c => [c, 0]) = some text := by
  induction text with
  | nil => rfl
  | cons c cs ih =>
      have rest := ih fun d member => ascii d (List.mem_cons_of_mem _ member)
      change (if (0 : UInt8) = 0 ∧ c < 128 then (ofUtf16le (cs.flatMap fun c => [c, 0])).map (c :: ·) else none) = _
      rw [if_pos ⟨rfl, ascii c List.mem_cons_self⟩, rest]
      rfl

theorem any_large : (text.any (128 ≤ ·)) = false ↔ ∀ c ∈ text, c < 128 := by
  rw [List.any_eq_false]
  exact forall₂_congr fun c _ => by rw [decide_eq_true_eq, UInt8.not_le]

theorem decode_macx (nonzero : 0 ∉ name) (encoded : vhdMacxEncodeLocation name = .ok text) :
    vhdMacxDecodeLocation text = some name := by
  unfold vhdMacxEncodeLocation at encoded
  dsimp only at encoded
  split at encoded
  · cases encoded
  rename_i ascii
  cases encoded
  have whole : cString ([0x66, 0x69, 0x6c, 0x65, 0x3a, 0x2f, 0x2f] ++ name) =
      [0x66, 0x69, 0x6c, 0x65, 0x3a, 0x2f, 0x2f] ++ name := by
    apply cString_eq
    rw [List.mem_append, not_or]
    exact ⟨by decide, nonzero⟩
  unfold vhdMacxDecodeLocation
  rw [if_neg ascii, whole]
  exact if_pos (List.isPrefixOf_iff_prefix.mpr (List.prefix_append _ _))

theorem decode_w2u (nonzero : 0 ∉ name) (plain : 0x5c ∉ name) (relative : name.head? ≠ some 0x2f)
    (encoded : vhdW2uEncodeLocation name = .ok text) :
    vhdW2uDecodeLocation text =
      some ([0x2e, 0x2f] ++ if [0x2e, 0x2f].isPrefixOf name then name.drop 2 else name) := by
  unfold vhdW2uEncodeLocation windowsPath at encoded
  rw [if_neg relative] at encoded
  have kept : ∀ c ∈ (if [0x2e, 0x2f].isPrefixOf name then name.drop 2 else name), c ≠ 0 ∧ c ≠ 0x5c := by
    intro c member
    have member : c ∈ name := by
      split at member
      · exact List.mem_of_mem_drop member
      · exact member
    exact ⟨fun same => nonzero (same ▸ member), fun same => plain (same ▸ member)⟩
  generalize (if [0x2e, 0x2f].isPrefixOf name then name.drop 2 else name) = rest at kept encoded ⊢
  dsimp only at encoded
  split at encoded
  · cases encoded
  rename_i ascii
  cases encoded
  rw [Bool.not_eq_true] at ascii
  have turned : (([0x2e, 0x5c] ++ rest).map fun c => if c = 0x2f then 0x5c else c).map
      (fun c : UInt8 => if c = 0x5c then 0x2f else c) = [0x2e, 0x2f] ++ rest := by
    rw [List.map_map, List.map_append]
    congr 1
    refine (List.map_congr_left fun c member => ?_).trans (List.map_id rest)
    have apart := (kept c member).2
    rw [Function.comp_apply, id]
    by_cases slash : c = 0x2f
    · rw [if_pos slash, if_pos rfl, slash]
    · rw [if_neg slash, if_neg apart]
  have whole : cString ([0x2e, 0x2f] ++ rest) = [0x2e, 0x2f] ++ rest := by
    apply cString_eq
    rw [List.mem_append, not_or]
    exact ⟨by decide, fun member => (kept 0 member).1 rfl⟩
  unfold vhdW2uDecodeLocation
  rw [ofUtf16le_wide (any_large.mp ascii)]
  change some _ = _
  rw [turned, whole, if_neg]
  rintro (drive | drive)
  · cases drive
  · cases drive

theorem decode_resolves {code : Nat} (names : List (List UInt8)) (nonzero : 0 ∉ name) (plain : 0x5c ∉ name)
    (relative : name.head? ≠ some 0x2f) (encoded : encodeLocation code name = .ok text) :
    ∃ path, decodeLocation code text = some path ∧ marks.walk names path = marks.walk names name := by
  unfold encodeLocation at encoded
  unfold decodeLocation
  split at encoded
  · rename_i macx
    rw [if_pos macx]
    exact ⟨name, decode_macx nonzero encoded, rfl⟩
  · rename_i windows
    rw [if_neg windows]
    refine ⟨_, decode_w2u nonzero plain relative encoded, (Marks.walk_here names _).trans ?_⟩
    split
    · rename_i here
      obtain ⟨rest, rfl⟩ := List.isPrefixOf_iff_prefix.mp here
      exact (Marks.walk_here names rest).symm
    · rfl

end Spellings

section Texts
variable {s t : Handle} {texts : List (Nat × List UInt8)} {i off : Nat} {found : Outcome Parent}

theorem locatedAll_type (texts : List (Nat × List UInt8)) (s : Handle) (i off : Nat) :
    (s.locatedAll i off texts).type = s.type := by
  induction texts generalizing s i off with
  | nil => rfl
  | cons entry texts ih =>
      unfold Handle.locatedAll
      rw [ih]
      rfl

theorem locatedAll_keeps {part : Nat → Prop} (inside : ∀ p, part p → p < s.file.size) (before : ∀ p, part p → p < off) :
    s.file.Keeps part (s.locatedAll i off texts).file := by
  induction texts generalizing s i off with
  | nil => exact .refl inside
  | cons entry texts ih =>
      have first : s.file.Keeps part (s.located i entry.1 entry.2 off).file :=
        File.keeps_put inside fun p member => .inl (before p member)
      exact first.trans (ih (fun p member => (first p member).1) fun p member =>
        lt_of_lt_of_le (before p member) (Nat.le_add_right _ _))

theorem locatedAll_loc {j : Nat} (before : j < i) : (s.locatedAll i off texts).loc[j]? = s.loc[j]? := by
  induction texts generalizing s i off with
  | nil => rfl
  | cons entry texts ih =>
      unfold Handle.locatedAll
      rw [ih (Nat.lt_succ_of_lt before)]
      exact List.getElem?_set_ne (Nat.ne_of_gt before)

theorem locatedAll_shows (room : i + texts.length ≤ s.loc.length) {k code : Nat} {text : List UInt8}
    (entry : texts[k]? = some (code, text)) :
    ∃ at', (s.locatedAll i off texts).loc[i + k]? = some (locatorAt code text at') ∧
      at' + vhdBytesPadded text.length ≤ (s.locatedAll i off texts).file.size ∧
      ∀ p < vhdBytesPadded text.length, (s.locatedAll i off texts).file.byte (at' + p) = text.getD p 0 := by
  induction texts generalizing s i off k with
  | nil => cases entry
  | cons first texts ih =>
      rw [List.length_cons] at room
      unfold Handle.locatedAll
      cases k with
      | zero =>
          cases entry
          have positive := vhdBytesPadded_pos text.length
          have reach : off + vhdBytesPadded text.length ≤ (s.located i code text off).file.size :=
            File.put_reach positive
          have kept : (s.located i code text off).file.Keeps
              (fun p => off ≤ p ∧ p < off + vhdBytesPadded text.length)
              ((s.located i code text off).locatedAll (i + 1) (off + vhdBytesPadded text.length) texts).file :=
            locatedAll_keeps (fun p inside => by omega) fun p inside => inside.2
          refine ⟨off, ?_, ?_, fun p inside => ?_⟩
          · rw [Nat.add_zero]
            exact (locatedAll_loc (Nat.lt_succ_self i)).trans (List.getElem?_set_self (by omega))
          · have last := (kept (off + vhdBytesPadded text.length - 1) ⟨by omega, by omega⟩).1
            dsimp only
            omega
          · refine (kept (off + p) ⟨by omega, by omega⟩).2.trans ?_
            have here : off ≤ off + p ∧ off + p < off + vhdBytesPadded text.length := ⟨by omega, by omega⟩
            change (s.file.put off (vhdBytesPadded text.length) fun p => text.getD p 0).byte (off + p) = _
            rw [File.put_inside here.1 here.2, Nat.add_sub_cancel_left]
      | succ k =>
          have room' : i + 1 + texts.length ≤ (s.located i first.1 first.2 off).loc.length := by
            change i + 1 + texts.length ≤ (s.loc.set i _).length
            rw [List.length_set]
            omega
          obtain ⟨at', shows⟩ := ih room' entry
          refine ⟨at', ?_⟩
          rw [show i + (k + 1) = i + 1 + k by omega]
          exact shows

theorem read_locator {ctx : Context} {code off : Nat} {text path : List UInt8} (diff : ctx.type = .diff)
    (placed : Placed found code text) (reach : off + vhdBytesPadded text.length ≤ ctx.file.size)
    (same : ∀ p < vhdBytesPadded text.length, ctx.file.byte (off + p) = text.getD p 0)
    (decoded : decodeLocation code text = some path) :
    vhdParentLocatorRead ctx (locatorAt code text off) = .ok path := by
  have positive := vhdBytesPadded_pos text.length
  have length := placed.length
  have size := placed.size
  have known := placed.known
  have whole := padded_le text.length (by omega)
  have reads : ctx.file.read off (vhdBytesPadded text.length) = .ok fun i => ctx.file.byte (off + i) :=
    if_pos (.inr reach)
  have bytes : (List.range text.length).map (fun i => ctx.file.byte (off + i)) = text := by
    apply List.ext_getElem
    · rw [List.length_map, List.length_range]
    · intro p _ inside
      rw [List.getElem_map, List.getElem_range, same p (by omega), List.getD_eq_getElem _ _ inside]
  unfold vhdParentLocatorRead
  rw [locatorAt_size, if_neg (not_not.mpr diff), if_neg (by simp only [locatorAt]; omega), if_neg (by omega)]
  change (ctx.file.read off (vhdBytesPadded text.length) >>= _) = _
  rw [reads, Outcome.ok_bind, if_neg (by simp only [locatorAt]; omega)]
  simp only [locatorAt]
  rw [bytes, decoded]

end Texts

/-- Every locator that was written is read back as a path that leads from the child to its parent. -/
theorem locators_round_trip {sys : System} {child parent : List UInt8} {found : Parent} {s t : Handle}
    (source : marks.Canonical child) (target : marks.Canonical parent) (nonzero : 0 ∉ parent) (plain : 0x5c ∉ parent)
    (real : sys.realpath child = .ok child) (real' : sys.realpath parent = .ok parent)
    (relative : found.relative = sys.relativePathTo child parent) (locs : s.loc.length = 8)
    (wrote : vhdWriteParentLocators (.ok found) s = (.ok (), t)) :
    ∀ i < 3, ∃ loc name, t.loc[i]? = some loc ∧ locatorCodes[i]? = some loc.code ∧
      vhdParentLocatorRead t.toContext loc = .ok name ∧ marks.resolve (dirname child) name = parent := by
  obtain ⟨names, nodes, rfl⟩ := source
  obtain ⟨others, nodes', rfl⟩ := target
  unfold vhdWriteParentLocators at wrote
  rw [Action.get_bind] at wrote
  split at wrote
  · cases Action.fail_ok.mp wrote
  rename_i diff
  obtain ⟨batmap, loaded⟩ : ∃ batmap, s.batmap = some batmap := by
    cases loaded : s.batmap with
    | none =>
        rw [loaded] at wrote
        cases Action.undefined_ok.mp wrote
    | some batmap => exact ⟨batmap, rfl⟩
  rw [loaded] at wrote
  obtain ⟨texts, codes, placed, rfl, -⟩ := writeLocators_ok (by rw [locs]; decide) wrote
  intro i small
  have length : texts.length = 3 := by
    rw [← List.length_map (f := Prod.fst), codes]
    rfl
  have room : 0 + texts.length ≤ s.loc.length := by
    rw [length, locs]
    decide
  have entry : texts[i]? = some texts[i] := List.getElem?_eq_getElem (by omega)
  generalize texts[i] = placedText at entry
  obtain ⟨code, text⟩ := placedText
  have member := placed _ (List.mem_of_getElem? entry)
  obtain ⟨at', located, reach, same⟩ := locatedAll_shows room entry
  obtain ⟨parent, first, spelled⟩ := Outcome.bind_eq_ok.mp member.encoded
  cases first
  obtain ⟨path, returns, encoded⟩ := Outcome.bind_eq_ok.mp spelled
  rw [relative] at returns
  cases relativePathTo_ok nodes nodes' real real' returns
  have head := across_head names others
  obtain ⟨path, decoded, walked⟩ := decode_resolves names.dropLast
    (fun zero => (across_chars zero).elim nofun fun rest => rest.elim nofun nonzero)
    (fun back => (across_chars back).elim nofun fun rest => rest.elim nofun plain)
    (by rw [head]; nofun) encoded
  rw [Nat.zero_add] at located
  refine ⟨_, path, located, ?_, read_locator ?_ member reach same decoded, ?_⟩
  · rw [← codes, List.getElem?_map, entry]
    rfl
  · exact (locatedAll_type texts s 0 _).trans (not_not.mp diff)
  · have dirs : ∀ name ∈ names.dropLast, marks.IsNode name := fun name member =>
      nodes name (List.mem_of_mem_dropLast member)
    have resolves := across_resolves nodes nodes'
    rw [dirname_text nodes, Marks.resolve_text dirs] at resolves ⊢
    rw [walked, resolves]

section Samples

def sampleBatmap : Batmap := ⟨⟨true, 2048, 1, 0x00010002, 0, 0⟩, 512, fun _ => 0⟩

def sampleChild : Handle :=
  let s := vhdInitializeFooter ⟨false, .empty, []⟩ .diff 0
  { s with oldBitmap_eq := s.bitmap_eq, batmap := some sampleBatmap }

def sampleNames : List UInt8 × List UInt8 := ([0x2f, 0x61, 0x2f, 0x62, 0x2f, 0x63], [0x2f, 0x61, 0x2f, 0x64])

def sampleParent : Parent where
  path := sampleNames.2
  time := 0
  fileSize := 0
  image := .error 0
  relative := plain.relativePathTo sampleNames.1 sampleNames.2

theorem sampleChild_read : ∃ loc name,
    (vhdWriteParentLocators (.ok sampleParent) sampleChild).2.loc[2]? = some loc ∧ locatorCodes[2]? = some loc.code ∧
      vhdParentLocatorRead (vhdWriteParentLocators (.ok sampleParent) sampleChild).2.toContext loc = .ok name ∧
      marks.resolve (dirname sampleNames.1) name = sampleNames.2 :=
  locators_round_trip (canonical_letters [0x61, 0x62, 0x63] rfl) (canonical_letters [0x61, 0x64] rfl)
    (by decide) (by decide) (plain_realpath _) (plain_realpath _) rfl rfl (Action.eq_pair rfl) 2 (by decide)

end Samples

end Blktap.Libvhd
