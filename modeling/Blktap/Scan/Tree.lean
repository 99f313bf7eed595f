import Blktap.Lib.Forest
import Blktap.Lib.Outcome

/-!
# The tree of scanned images (`vhd-util-scan.c`)
-/

namespace Blktap.Scan
open Lib

structure Image where
  name : List UInt8
  parent : Option (List UInt8)
  capacity : Nat
  size : Int
  hidden : UInt8
  marker : UInt8
  error : Int
  message : List UInt8
  deriving DecidableEq

def addImage (images : List Image) (image : Image) : List Image :=
  if images.any fun img => img.name = image.name then images else images ++ [image]

def imageCompare (l r : Image) : Bool := decide (l.name ≤ r.name)

def sorted (scanned : List Image) : List Image := (scanned.foldl addImage []).mergeSort imageCompare

def parentImage (images : List Image) (image : Image) : Option Image :=
  image.parent.bind fun parent => images.find? fun img => img.name = parent

def children (images : List Image) (image : Image) : List Image :=
  images.filter fun img => parentImage images img = some image

structure Printed where
  lines : List (Image × Nat)
  freed : List Image

/-- A loop over images: each that is wanted is printed. There is no result when the fuel of `print` does not last. -/
def sweep (wanted : Printed → Image → Bool) (print : Image → Printed → Option (Outcome Printed)) :
    List Image → Printed → Option (Outcome Printed)
  | [], s => some (.ok s)
  | image :: rest, s =>
      if wanted s image then
        match print image s with
        | some (.ok t) => sweep wanted print rest t
        | other => other
      else sweep wanted print rest s

def printTree (images : List Image) : Nat → Nat → Image → Printed → Option (Outcome Printed)
  | 0, _, _, _ => none
  | fuel + 1, depth, image, s =>
      if image ∈ s.freed then some .undefined
      else
        match sweep (fun _ img => img.hidden = 0) (printTree images fuel (depth + 1)) (children images image)
            { s with lines := s.lines ++ [(image, depth)] } with
        | some (.ok t) =>
            match sweep (fun _ img => img.hidden ≠ 0) (printTree images fuel (depth + 1)) (children images image) t with
            | some (.ok t) => some (.ok { t with freed := image :: t.freed })
            | other => other
        | other => other

def hiddenRoot (images : List Image) (_ : Printed) (image : Image) : Bool :=
  (parentImage images image).isNone && image.hidden ≠ 0

def namedRoot (images : List Image) (s : Printed) (image : Image) : Bool :=
  image ∉ s.freed && (parentImage images image).isNone

def named (s : Printed) (image : Image) : Bool := image ∉ s.freed

def printImages (scanned : List Image) (fuel : Nat) : Option (Outcome Printed) :=
  let images := sorted scanned
  let print := printTree images fuel 0
  match sweep (hiddenRoot images) print images ⟨[], []⟩ with
  | some (.ok s) =>
      match sweep (namedRoot images) print images s with
      | some (.ok s) => sweep named print images s
      | other => other
  | other => other

def kids (images : List Image) (image : Image) : List Image :=
  (children images image).filter (fun img => img.hidden = 0) ++
    (children images image).filter (fun img => img.hidden ≠ 0)

structure Faithful (images : List Image) (lines : List (Image × Nat)) : Prop where
  once : (lines.map Prod.fst).Perm images
  under : ∀ child ∈ images, ∀ parent, parentImage images child = some parent → Under lines parent child

structure Grew (s t : Printed) (lines : List (Image × Nat)) (names : List Image) : Prop where
  lines : t.lines = s.lines ++ lines
  freed : ∀ x, x ∈ t.freed ↔ x ∈ s.freed ∨ x ∈ names

theorem Grew.refl (s : Printed) : Grew s s [] [] where
  lines := (List.append_nil _).symm
  freed x := by simp

theorem Grew.trans {s t u : Printed} {lines lines' : List (Image × Nat)} {names names' : List Image}
    (first : Grew s t lines names) (second : Grew t u lines' names') :
    Grew s u (lines ++ lines') (names ++ names') where
  lines := by rw [second.lines, first.lines, List.append_assoc]
  freed x := by rw [second.freed, first.freed, List.mem_append, or_assoc]

section Sweeps
variable {wanted : Printed → Image → Bool} {print : Image → Printed → Option (Outcome Printed)}
  {lines : Image → List (Image × Nat)} {names : Image → List Image} {items : List Image} {s t : Printed}

def Prints (print : Image → Printed → Option (Outcome Printed)) (lines : Image → List (Image × Nat))
    (names : Image → List Image) (image : Image) : Prop :=
  ∀ s, (∀ x ∈ names image, x ∉ s.freed) →
    ∃ t, print image s = some (.ok t) ∧ Grew s t (lines image) (names image)

theorem sweep_grew (wanted : Printed → Image → Bool) (pick : Image → Bool)
    (prints : ∀ item ∈ items, pick item = true → Prints print lines names item)
    (wants : ∀ item ∈ items, ∀ t : Printed, (∀ x ∈ s.freed, x ∈ t.freed) →
      (pick item = true → item ∉ t.freed) → wanted t item = pick item)
    (own : ∀ item ∈ items, pick item = true → item ∈ names item)
    (fresh : ∀ item ∈ items, pick item = true → ∀ x ∈ names item, x ∉ s.freed)
    (apart : (items.filter pick).Pairwise fun a b => ∀ x ∈ names a, x ∉ names b) :
    ∃ t, sweep wanted print items s = some (.ok t) ∧
      Grew s t ((items.filter pick).flatMap lines) ((items.filter pick).flatMap names) := by
  induction items generalizing s with
  | nil => exact ⟨s, rfl, .refl s⟩
  | cons item rest ih =>
      have here : item ∈ item :: rest := List.mem_cons_self
      have later : ∀ {other}, other ∈ rest → other ∈ item :: rest := List.mem_cons_of_mem _
      have wants' := wants item here s (fun _ freed => freed) fun picked =>
        fresh item here picked item (own item here picked)
      cases picked : pick item with
      | false =>
          rw [List.filter_cons_of_neg (by simp [picked])] at apart ⊢
          obtain ⟨t, result, grew⟩ := ih (fun other member => prints other (later member))
            (fun other member => wants other (later member)) (fun other member => own other (later member))
            (fun other member => fresh other (later member)) apart
          refine ⟨t, ?_, grew⟩
          rw [sweep, wants', picked]
          exact result
      | true =>
          rw [List.filter_cons_of_pos picked] at apart ⊢
          obtain ⟨others, apart⟩ := List.pairwise_cons.mp apart
          obtain ⟨t, printed, grew⟩ := prints item here picked s (fresh item here picked)
          obtain ⟨u, result, more⟩ := ih (s := t) (fun other member => prints other (later member))
            (fun other member u keeps => wants other (later member) u fun x freed =>
              keeps x ((grew.freed x).mpr (.inl freed)))
            (fun other member => own other (later member))
            (fun other member chosen x shown freed => by
              rcases (grew.freed x).mp freed with before | now
              · exact fresh other (later member) chosen x shown before
              · exact others other (List.mem_filter.mpr ⟨member, chosen⟩) x now shown) apart
          refine ⟨u, ?_, grew.trans more⟩
          rw [sweep, wants', picked]
          simp only [if_true, printed]
          exact result

theorem sweep_ok {I : Printed → Prop} {Q : Image → Prop}
    (printed : ∀ item ∈ items, ∀ s t, I s → print item s = some (.ok t) → I t ∧ Q item)
    (skipped : ∀ item ∈ items, ∀ s, I s → wanted s item = false → Q item)
    (init : I s) (result : sweep wanted print items s = some (.ok t)) : I t ∧ ∀ item ∈ items, Q item := by
  induction items generalizing s with
  | nil =>
      cases result
      exact ⟨init, fun _ member => absurd member List.not_mem_nil⟩
  | cons item rest ih =>
      have printed' := fun other member => printed other (List.mem_cons_of_mem item member)
      have skipped' := fun other member => skipped other (List.mem_cons_of_mem item member)
      rw [sweep] at result
      cases choice : wanted s item with
      | false =>
          rw [choice] at result
          obtain ⟨inv, all⟩ := ih printed' skipped' init result
          exact ⟨inv, List.forall_mem_cons.mpr ⟨skipped item List.mem_cons_self s init choice, all⟩⟩
      | true =>
          rw [choice, if_pos rfl] at result
          split at result
          case h_1 u first =>
            obtain ⟨mid, this⟩ := printed item List.mem_cons_self s u init first
            obtain ⟨inv, all⟩ := ih printed' skipped' mid result
            exact ⟨inv, List.forall_mem_cons.mpr ⟨this, all⟩⟩
          case h_2 fails => exact absurd result (fails t)

end Sweeps

section Trees
variable {images : List Image} {image : Image} {n d : Nat}

theorem mem_children : image ∈ children images parent ↔ image ∈ images ∧ parentImage images image = some parent := by
  rw [children, List.mem_filter, decide_eq_true_iff]

theorem mem_kids : image ∈ kids images parent ↔ image ∈ children images parent := by
  rw [kids, List.mem_append, List.mem_filter, List.mem_filter]
  by_cases shown : image.hidden = 0 <;> simp [shown]

theorem parentImage_inside {parent : Image} (link : parentImage images image = some parent) : parent ∈ images := by
  obtain ⟨_, _, found⟩ := Option.bind_eq_some_iff.mp link
  exact List.mem_of_find?_eq_some found

theorem family (nodup : images.Nodup) : Family (parentImage images) (kids images) images where
  kid a b := mem_kids.trans mem_children
  once a := by
    have once : (children images a).Nodup := nodup.filter _
    refine List.Nodup.append (once.filter _) (once.filter _) fun b shown hidden => ?_
    have first := (List.mem_filter.mp shown).2
    have second := (List.mem_filter.mp hidden).2
    simp at first second
    exact second first
  inside a b := parentImage_inside

variable (nodup : images.Nodup) (acyclic : Acyclic (parentImage images))
include nodup acyclic

theorem printTree_prints (member : image ∈ images)
    (enough : ∀ x ∈ images, above (parentImage images) n x ≠ some image) :
    Prints (printTree images n d) (listing (kids images) n d) (listed (kids images) n) image := by
  have family := family nodup
  induction n generalizing d image with
  | zero => exact absurd rfl (enough image member)
  | succ n ih =>
      intro s fresh
      have own : ∀ kid ∈ children images image, kid ∈ images ∧ parentImage images kid = some image :=
        fun kid => mem_children.mp
      have below : ∀ kid ∈ children images image, ∀ x ∈ images, above (parentImage images) n x ≠ some kid := by
        intro kid child x inside reaches
        apply enough x inside
        rw [above_succ, reaches]
        exact (own kid child).2
      have positive : ∀ kid ∈ children images image, kid ∈ listed (kids images) n kid := by
        intro kid child
        cases n with
        | zero => exact absurd rfl (below kid child kid (own kid child).1)
        | succ n =>
            rw [listed_succ]
            exact List.mem_cons_self
      have names : ∀ x, x ∈ listed (kids images) (n + 1) image ↔
          x = image ∨ ∃ kid ∈ kids images image, x ∈ listed (kids images) n kid := by
        intro x
        rw [listed_succ, List.mem_cons, List.mem_flatMap]
      have unprinted : image ∉ s.freed := fresh image ((names image).mpr (.inl rfl))
      have clean : ∀ kid ∈ children images image, ∀ x ∈ listed (kids images) n kid, x ∉ s.freed :=
        fun kid child x shown => fresh x ((names x).mpr (.inr ⟨kid, mem_kids.mpr child, shown⟩))
      have disjoint : (children images image).Pairwise fun a b =>
          ∀ x ∈ listed (kids images) n a, x ∉ listed (kids images) n b := by
        refine List.Pairwise.imp_of_mem (fun {a b} child child' other x shown => ?_) (nodup.filter _)
        obtain ⟨inside, link⟩ := own a child
        obtain ⟨inside', link'⟩ := own b child'
        exact family.apart acyclic inside inside' (link.trans link'.symm) other shown
      -- the two loops, over the children that are not hidden and over those that are
      obtain ⟨t, first, shown⟩ := sweep_grew (s := { s with lines := s.lines ++ [(image, d)] })
        (fun _ img => img.hidden = 0) (fun img => img.hidden = 0) (fun kid child _ => ih (d := d + 1) (own kid child).1 (below kid child)) (fun _ _ _ _ _ => rfl)
        (fun kid child _ => positive kid child) (fun kid child _ => clean kid child)
        (disjoint.sublist List.filter_sublist)
      have clean' : ∀ kid ∈ children images image, (decide (kid.hidden ≠ 0)) = true →
          ∀ x ∈ listed (kids images) n kid, x ∉ t.freed := by
        intro kid child hidden x member' freed
        rcases (shown.freed x).mp freed with before | now
        · exact clean kid child x member' before
        · obtain ⟨other, chosen, member''⟩ := List.mem_flatMap.mp now
          obtain ⟨child', visible⟩ := List.mem_filter.mp chosen
          have apart : other ≠ kid := by
            rintro rfl
            exact of_decide_eq_true hidden (of_decide_eq_true visible)
          obtain ⟨inside, link⟩ := own kid child
          obtain ⟨inside', link'⟩ := own other child'
          exact family.apart acyclic inside' inside (link'.trans link.symm) apart member'' member'
      obtain ⟨u, second, hidden⟩ := sweep_grew (s := t) (fun _ img => img.hidden ≠ 0) (fun img => img.hidden ≠ 0)
        (fun kid child _ => ih (d := d + 1) (own kid child).1 (below kid child)) (fun _ _ _ _ _ => rfl)
        (fun kid child _ => positive kid child) clean' (disjoint.sublist List.filter_sublist)
      refine ⟨{ u with freed := image :: u.freed }, ?_, ?_, ?_⟩
      · rw [printTree, if_neg unprinted, first]
        dsimp only
        rw [second]
      · simp only [hidden.lines, shown.lines, listing, kids, List.flatMap_append, List.append_assoc,
          List.cons_append, List.nil_append]
      · intro x
        rw [List.mem_cons, hidden.freed, shown.freed, listed_succ, List.mem_cons, kids, List.flatMap_append,
          List.mem_append]
        tauto

end Trees

section Cycles
variable {images : List Image} {image : Image} {n d : Nat} {s t : Printed}

def OffCycle (images : List Image) (image : Image) : Prop :=
  ∀ k, above (parentImage images) (k + 1) image ≠ some image

theorem offCycle_of_children (inside : image ∈ images) (off : ∀ kid ∈ children images image, OffCycle images kid) :
    OffCycle images image := by
  intro k around
  obtain ⟨kid, first, last⟩ := Option.bind_eq_some_iff.mp ((above_succ k image).symm.trans around)
  have member : kid ∈ images := by
    cases k with
    | zero => cases first; exact inside
    | succ k =>
        obtain ⟨_, _, link⟩ := Option.bind_eq_some_iff.mp ((above_succ k image).symm.trans first)
        exact parentImage_inside link
  apply off kid (mem_children.mpr ⟨member, last⟩) k
  rw [above, last]
  exact first

theorem printTree_offCycle (inside : image ∈ images) (freed : ∀ x ∈ s.freed, OffCycle images x)
    (result : printTree images n d image s = some (.ok t)) :
    (∀ x ∈ t.freed, OffCycle images x) ∧ OffCycle images image := by
  induction n generalizing d image s t with
  | zero => cases result
  | succ n ih =>
      rw [printTree] at result
      split at result
      · cases result
      split at result
      case h_2 fails => exact absurd result (fails t)
      rename_i u first
      split at result
      case h_2 fails => exact absurd result (fails t)
      rename_i w second
      cases result
      have before : ∀ x ∈ (⟨s.lines ++ [(image, d)], s.freed⟩ : Printed).freed, OffCycle images x := freed
      have printed : ∀ kid ∈ children images image, ∀ s t : Printed, (∀ x ∈ s.freed, OffCycle images x) →
          printTree images n (d + 1) kid s = some (.ok t) → (∀ x ∈ t.freed, OffCycle images x) ∧ OffCycle images kid :=
        fun kid child s t freed result => ih (mem_children.mp child).1 freed result
      obtain ⟨freed', shown⟩ := sweep_ok (Q := fun kid => kid.hidden = 0 → OffCycle images kid)
        (fun kid child s t freed result => (printed kid child s t freed result).imp_right fun off _ => off)
        (fun kid _ _ _ skipped visible => absurd visible (of_decide_eq_false skipped)) before first
      obtain ⟨freed'', hidden⟩ := sweep_ok (Q := fun kid => kid.hidden ≠ 0 → OffCycle images kid)
        (fun kid child s t freed result => (printed kid child s t freed result).imp_right fun off _ => off)
        (fun kid _ _ _ skipped visible => absurd visible (of_decide_eq_false skipped)) freed' second
      have off : OffCycle images image := offCycle_of_children inside fun kid child =>
        if visible : kid.hidden = 0 then shown kid child visible else hidden kid child visible
      exact ⟨List.forall_mem_cons.mpr ⟨off, freed''⟩, off⟩

end Cycles

section Whole
variable (scanned : List Image)

theorem sorted_nodup : (sorted scanned).Nodup := by
  have names : ∀ images : List Image, images.Pairwise (fun a b => a.name ≠ b.name) →
      (scanned.foldl addImage images).Pairwise (fun a b => a.name ≠ b.name) := by
    induction scanned with
    | nil => exact fun _ apart => apart
    | cons image rest ih =>
        intro images apart
        refine ih _ ?_
        unfold addImage
        split
        case isTrue => exact apart
        case isFalse absent =>
          rw [List.pairwise_append]
          refine ⟨apart, List.pairwise_singleton _ _, fun a member b last => ?_⟩
          rw [List.mem_singleton.mp last]
          intro same
          exact absent (List.any_eq_true.mpr ⟨a, member, decide_eq_true same⟩)
  have distinct := (names [] List.Pairwise.nil).imp fun {a b} other (same : a = b) => other (congrArg Image.name same)
  exact (List.mergeSort_perm _ _).nodup_iff.mpr distinct

theorem acyclic_of_printed {fuel : Nat} {s : Printed} (result : printImages scanned fuel = some (.ok s)) :
    Acyclic (parentImage (sorted scanned)) := by
  have inside : ∀ image ∈ sorted scanned, ∀ s t : Printed, (∀ x ∈ s.freed, OffCycle (sorted scanned) x) →
      printTree (sorted scanned) fuel 0 image s = some (.ok t) →
      (∀ x ∈ t.freed, OffCycle (sorted scanned) x) ∧ OffCycle (sorted scanned) image :=
    fun image member s t freed printed => printTree_offCycle member freed printed
  have kept := fun image member s t freed printed => And.imp_right (fun _ => True.intro) (inside image member s t freed printed)
  unfold printImages at result
  dsimp only at result
  split at result
  case h_2 fails => exact absurd result (fails s)
  rename_i t first
  split at result
  case h_2 fails => exact absurd result (fails s)
  rename_i u second
  have nothing : ∀ x ∈ (⟨[], []⟩ : Printed).freed, OffCycle (sorted scanned) x := fun _ member =>
    absurd member List.not_mem_nil
  obtain ⟨freed, -⟩ := sweep_ok kept (fun _ _ _ _ _ => trivial) nothing first
  obtain ⟨freed', -⟩ := sweep_ok kept (fun _ _ _ _ _ => trivial) freed second
  obtain ⟨-, off⟩ := sweep_ok inside (fun image _ s freed skipped => by
    have gone : image ∈ s.freed := not_not.mp (of_decide_eq_false skipped)
    exact freed image gone) freed' result
  intro image k around
  have member : image ∈ sorted scanned := by
    obtain ⟨_, _, link⟩ := Option.bind_eq_some_iff.mp ((above_succ k image).symm.trans around)
    exact parentImage_inside link
  exact off image member k around

def roots (images : List Image) : List Image :=
  images.filter (fun image => (parentImage images image).isNone && image.hidden ≠ 0) ++
    images.filter (fun image => (parentImage images image).isNone && image.hidden = 0)

theorem mem_roots {images : List Image} {image : Image} :
    image ∈ roots images ↔ image ∈ images ∧ parentImage images image = none := by
  rw [roots, List.mem_append, List.mem_filter, List.mem_filter]
  by_cases shown : image.hidden = 0 <;> simp [shown]

section Forests
variable {images : List Image} (nodup : images.Nodup) (acyclic : Acyclic (parentImage images))
include nodup

theorem roots_nodup : (roots images).Nodup := by
  refine List.Nodup.append (nodup.filter _) (nodup.filter _) fun image hidden shown => ?_
  have first := (List.mem_filter.mp hidden).2
  have second := (List.mem_filter.mp shown).2
  simp at first second
  exact first.2 second.2

theorem listed_self {image : Image} (inside : image ∈ images) : image ∈ listed (kids images) images.length image :=
  ((family nodup).mem_listed inside).mpr ⟨inside, 0, List.length_pos_of_mem inside, rfl⟩

include acyclic

theorem roots_apart {a b x : Image} {n : Nat} (root : a ∈ roots images) (root' : b ∈ roots images) (other : a ≠ b)
    (shown : x ∈ listed (kids images) n a) : x ∉ listed (kids images) n b := by
  obtain ⟨inside, top⟩ := mem_roots.mp root
  obtain ⟨inside', top'⟩ := mem_roots.mp root'
  exact (family nodup).apart acyclic inside inside' (top.trans top'.symm) other shown

theorem below_root {image : Image} (inside : image ∈ images) :
    ∃ root ∈ roots images, image ∈ listed (kids images) images.length root := by
  obtain ⟨k, less, root, member, reaches, top⟩ := (family nodup).ends acyclic inside
  exact ⟨root, mem_roots.mpr ⟨member, top⟩, ((family nodup).mem_listed member).mpr ⟨inside, k, less, reaches⟩⟩

theorem prints_all {image : Image} (inside : image ∈ images) :
    Prints (printTree images images.length 0) (listing (kids images) images.length 0)
      (listed (kids images) images.length) image := by
  refine printTree_prints nodup acyclic inside fun x member reaches => ?_
  obtain ⟨k, less, root, _, found, top⟩ := (family nodup).ends acyclic member
  rw [above_past found top less] at reaches
  cases reaches

theorem forest_faithful :
    Faithful images ((roots images).flatMap (listing (kids images) images.length 0)) := by
  have names : ((roots images).flatMap (listing (kids images) images.length 0)).map Prod.fst =
      (roots images).flatMap (listed (kids images) images.length) := List.map_flatMap
  refine ⟨?_, fun child inside parent link => ?_⟩
  · rw [names]
    refine (List.perm_ext_iff_of_nodup ?_ nodup).mpr fun x => ?_
    · rw [List.nodup_flatMap]
      refine ⟨fun root member => (family nodup).nodup_listed acyclic (mem_roots.mp member).1, ?_⟩
      refine (roots_nodup nodup).imp_of_mem fun {a b} root root' other x shown => ?_
      exact roots_apart nodup acyclic root root' other shown
    · rw [List.mem_flatMap]
      constructor
      · rintro ⟨root, member, shown⟩
        exact (((family nodup).mem_listed (mem_roots.mp member).1).mp shown).1
      · exact below_root nodup acyclic
  · obtain ⟨root, member, shown⟩ := below_root nodup acyclic inside
    have other : child ≠ root := by
      rintro rfl
      rw [(mem_roots.mp member).2] at link
      cases link
    obtain ⟨front, back, split⟩ := List.append_of_mem member
    rw [split, List.flatMap_append, List.flatMap_cons, ← List.append_assoc]
    exact ((family nodup).under_listing link other shown).within

theorem sweeps_print : ∃ s t u,
    sweep (hiddenRoot images) (printTree images images.length 0) images ⟨[], []⟩ = some (.ok s) ∧
    sweep (namedRoot images) (printTree images images.length 0) images s = some (.ok t) ∧
    sweep named (printTree images images.length 0) images t = some (.ok u) ∧
    u.lines = (roots images).flatMap (listing (kids images) images.length 0) := by
  have top : ∀ {image : Image}, image ∈ images → (parentImage images image).isNone = true → image ∈ roots images :=
    fun inside none => mem_roots.mpr ⟨inside, Option.isNone_iff_eq_none.mp none⟩
  have apart : (roots images).Pairwise fun a b =>
      ∀ x ∈ listed (kids images) images.length a, x ∉ listed (kids images) images.length b :=
    (roots_nodup nodup).imp_of_mem fun {a b} root root' other x shown =>
      roots_apart nodup acyclic root root' other shown
  obtain ⟨hiddenApart, shownApart, across⟩ := List.pairwise_append.mp apart
  obtain ⟨s, first, hidden⟩ := sweep_grew (s := ⟨[], []⟩) (hiddenRoot images)
    (fun image => (parentImage images image).isNone && image.hidden ≠ 0)
    (fun image inside _ => prints_all nodup acyclic inside) (fun _ _ _ _ _ => rfl)
    (fun image inside _ => listed_self nodup inside)
    (fun _ _ _ _ _ freed => absurd freed List.not_mem_nil) hiddenApart
  have gone : ∀ x, x ∈ s.freed ↔ ∃ root ∈ images.filter
      (fun image => (parentImage images image).isNone && image.hidden ≠ 0), x ∈ listed (kids images) images.length root := by
    intro x
    rw [hidden.freed, List.mem_flatMap]
    exact or_iff_right List.not_mem_nil
  obtain ⟨t, second, shown⟩ := sweep_grew (s := s) (namedRoot images)
    (fun image => (parentImage images image).isNone && image.hidden = 0)
    (fun image inside _ => prints_all nodup acyclic inside) (fun image inside u keeps open_ => by
      unfold namedRoot
      cases root : (parentImage images image).isNone with
      | false => simp
      | true =>
          by_cases visible : image.hidden = 0
          · simpa [root, visible] using open_
          · have freed := keeps image ((gone image).mpr ⟨image,
              List.mem_filter.mpr ⟨inside, by simp [root, visible]⟩, listed_self nodup inside⟩)
            simp [visible, freed])
    (fun image inside _ => listed_self nodup inside)
    (fun image inside root x below freed => by
      obtain ⟨other, chosen, below'⟩ := (gone x).mp freed
      exact across other chosen image (List.mem_filter.mpr ⟨inside, root⟩) x below' below) shownApart
  have all : ∀ x ∈ images, x ∈ t.freed := by
    intro x inside
    obtain ⟨root, member, below⟩ := below_root nodup acyclic inside
    rw [shown.freed, gone, List.mem_flatMap]
    rcases List.mem_append.mp member with member | member
    · exact .inl ⟨root, member, below⟩
    · exact .inr ⟨root, member, below⟩
  obtain ⟨u, third, nothing⟩ := sweep_grew (s := t) named (fun _ => false)
    (fun image inside _ => prints_all nodup acyclic inside) (fun image inside u keeps _ => by simp [named, keeps image (all image inside)])
    (fun _ _ no => by cases no) (fun _ _ no => by cases no) (by simp)
  refine ⟨s, t, u, first, second, third, ?_⟩
  rw [nothing.lines, shown.lines, hidden.lines, roots, List.flatMap_append]
  simp

end Forests

/-- The images are printed, each once and below its parent, exactly when no image leads back to itself from parent to
parent. -/
theorem printed_iff : (∃ fuel s, printImages scanned fuel = some (.ok s) ∧ Faithful (sorted scanned) s.lines) ↔
    Acyclic (parentImage (sorted scanned)) := by
  constructor
  · rintro ⟨fuel, s, result, _⟩
    exact acyclic_of_printed scanned result
  · intro acyclic
    have nodup := sorted_nodup scanned
    obtain ⟨s, t, u, first, second, third, lines⟩ := sweeps_print nodup acyclic
    refine ⟨(sorted scanned).length, u, ?_, ?_⟩
    · unfold printImages
      dsimp only
      rw [first]
      dsimp only
      rw [second]
      exact third
    · rw [lines]
      exact forest_faithful nodup acyclic

def ownParent : Image where
  name := [0x61]
  parent := some [0x61]
  capacity := 0
  size := 0
  hidden := 0
  marker := 0
  error := 0
  message := []

theorem ownParent_endless : ¬ ∃ fuel s, printImages [ownParent] fuel = some (.ok s) := by
  rintro ⟨fuel, s, result⟩
  exact acyclic_of_printed [ownParent] result ownParent 0 (by decide +kernel)

end Whole

end Blktap.Scan
