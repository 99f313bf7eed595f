import Mathlib.Data.List.Nodup
import Mathlib.Data.Finset.Card
import Mathlib.Order.Interval.Finset.Nat
import Mathlib.Tactic.Cases

/-! # Forests given by the node above each node -/

namespace Blktap.Lib
variable {α : Type} {up : α → Option α} {kids : α → List α} {nodes : List α} {a b x : α} {d n : Nat}

/-- The node `k` steps above. -/
def above (up : α → Option α) : Nat → α → Option α
  | 0, a => some a
  | k + 1, a => (up a).bind (above up k)

def Acyclic (up : α → Option α) : Prop := ∀ a k, above up (k + 1) a ≠ some a

/-- Each node below `a` with its depth, `n` levels down, a node in front of those below it. -/
def listing (kids : α → List α) : Nat → Nat → α → List (α × Nat)
  | 0, _, _ => []
  | n + 1, d, a => (a, d) :: (kids a).flatMap (listing kids n (d + 1))

def listed (kids : α → List α) (n : Nat) (a : α) : List α := (listing kids n 0 a).map Prod.fst

structure Family (up : α → Option α) (kids : α → List α) (nodes : List α) : Prop where
  kid : ∀ a b, b ∈ kids a ↔ b ∈ nodes ∧ up b = some a
  once : ∀ a, (kids a).Nodup
  inside : ∀ a b, up b = some a → a ∈ nodes

theorem above_add (j k : Nat) (a : α) : above up (j + k) a = (above up j a).bind (above up k) := by
  induction j generalizing a with
  | zero => rw [Nat.zero_add]; rfl
  | succ j ih =>
      rw [Nat.add_right_comm]
      cases first : up a with
      | none => simp only [above, first, Option.bind_none]
      | some b => simp only [above, first, Option.bind_some, ih]

theorem above_one (a : α) : above up 1 a = up a := by
  cases first : up a with
  | none => simp only [above, first, Option.bind_none]
  | some b => simp only [above, first, Option.bind_some]

theorem above_succ (k : Nat) (a : α) : above up (k + 1) a = (above up k a).bind up := by
  rw [above_add]
  congr
  funext b
  exact above_one b

theorem Family.above_inside (family : Family up kids nodes) {k : Nat} (reaches : above up k x = some a)
    (inside : x ∈ nodes) : a ∈ nodes := by
  cases k with
  | zero => cases reaches; exact inside
  | succ k =>
      rw [above_succ, Option.bind_eq_some_iff] at reaches
      obtain ⟨b, _, last⟩ := reaches
      exact family.inside a b last

theorem listing_depth (kids : α → List α) (n d : Nat) (a : α) :
    (listing kids n d a).map Prod.fst = listed kids n a := by
  unfold listed
  generalize 0 = e
  induction n generalizing d e a with
  | zero => rfl
  | succ n ih =>
      simp only [listing, List.map_cons, List.map_flatMap]
      congr 1
      apply List.flatMap_congr
      intro b _
      exact ih (d + 1) b (e + 1)

theorem listed_succ (kids : α → List α) (n : Nat) (a : α) :
    listed kids (n + 1) a = a :: (kids a).flatMap (listed kids n) := by
  rw [listed, listing, List.map_cons, List.map_flatMap]
  congr 1
  apply List.flatMap_congr
  intro b _
  exact listing_depth kids n 1 b

theorem Family.mem_listed (family : Family up kids nodes) (inside : a ∈ nodes) :
    x ∈ listed kids n a ↔ x ∈ nodes ∧ ∃ k < n, above up k x = some a := by
  induction n generalizing a with
  | zero => simp [listed, listing]
  | succ n ih =>
      rw [listed_succ, List.mem_cons, List.mem_flatMap]
      constructor
      · rintro (rfl | ⟨b, kid, below⟩)
        · exact ⟨inside, 0, Nat.succ_pos n, rfl⟩
        · obtain ⟨member, link⟩ := (family.kid a b).mp kid
          obtain ⟨shown, k, less, reaches⟩ := (ih member).mp below
          refine ⟨shown, k + 1, Nat.succ_lt_succ less, ?_⟩
          rw [above_succ, reaches]
          exact link
      · rintro ⟨member, k, less, reaches⟩
        cases k with
        | zero => exact .inl (Option.some.inj reaches)
        | succ k =>
            rw [above_succ, Option.bind_eq_some_iff] at reaches
            obtain ⟨b, first, last⟩ := reaches
            have shown := family.above_inside first member
            exact .inr ⟨b, (family.kid a b).mpr ⟨shown, last⟩,
              (ih shown).mpr ⟨member, k, Nat.lt_of_succ_lt_succ less, first⟩⟩

theorem Acyclic.level (acyclic : Acyclic up) {j k : Nat} (link : up a = up b) (first : above up j x = some a)
    (second : above up k x = some b) : j = k := by
  have shorter : ∀ {j m : Nat} {a b : α}, up a = up b → above up j x = some a → above up (j + m + 1) x ≠ some b := by
    intro j m a b link first second
    rw [Nat.add_assoc, above_add, first] at second
    apply acyclic b m
    rw [above, ← link]
    exact second
  rcases Nat.lt_trichotomy j k with less | same | more
  · obtain ⟨m, rfl⟩ := Nat.exists_eq_add_of_lt less
    exact absurd second (shorter link first)
  · exact same
  · obtain ⟨m, rfl⟩ := Nat.exists_eq_add_of_lt more
    exact absurd first (shorter link.symm second)

theorem Family.apart (family : Family up kids nodes) (acyclic : Acyclic up) (member : a ∈ nodes)
    (member' : b ∈ nodes) (link : up a = up b) (other : a ≠ b) (shown : x ∈ listed kids n a) : x ∉ listed kids n b := by
  intro shown'
  obtain ⟨_, j, _, reaches⟩ := (family.mem_listed member).mp shown
  obtain ⟨_, k, _, reaches'⟩ := (family.mem_listed member').mp shown'
  cases acyclic.level link reaches reaches'
  rw [reaches] at reaches'
  exact other (Option.some.inj reaches')

theorem Family.nodup_listed (family : Family up kids nodes) (acyclic : Acyclic up) (inside : a ∈ nodes) :
    (listed kids n a).Nodup := by
  induction n generalizing a with
  | zero => exact List.nodup_nil
  | succ n ih =>
      rw [listed_succ, List.nodup_cons]
      constructor
      · rw [List.mem_flatMap]
        rintro ⟨b, kid, below⟩
        obtain ⟨member, link⟩ := (family.kid a b).mp kid
        obtain ⟨_, k, _, reaches⟩ := (family.mem_listed member).mp below
        apply acyclic a k
        rw [above_succ, reaches]
        exact link
      · rw [List.nodup_flatMap]
        refine ⟨fun b kid => ih ((family.kid a b).mp kid).1, ?_⟩
        refine (family.once a).imp_of_mem fun {b c} kid kid' other x shown => ?_
        obtain ⟨member, link⟩ := (family.kid a b).mp kid
        obtain ⟨member', link'⟩ := (family.kid a c).mp kid'
        exact family.apart acyclic member member' (link.trans link'.symm) other shown

theorem Family.ends (family : Family up kids nodes) (acyclic : Acyclic up) (inside : x ∈ nodes) :
    ∃ k < nodes.length, ∃ root ∈ nodes, above up k x = some root ∧ up root = none := by
  by_contra endless
  have onward : ∀ k ≤ nodes.length, ∃ a ∈ nodes, above up k x = some a := by
    intro k
    induction k with
    | zero => exact fun _ => ⟨x, inside, rfl⟩
    | succ k ih =>
        intro bound
        obtain ⟨a, member, reaches⟩ := ih (Nat.le_of_succ_le bound)
        cases link : up a with
        | none => exact absurd ⟨k, bound, a, member, reaches, link⟩ endless
        | some b =>
            refine ⟨b, family.inside b a link, ?_⟩
            rw [above_succ, reaches]
            exact link
  classical
  have crowded : nodes.toFinset.card < (Finset.range (nodes.length + 1)).card := by
    rw [Finset.card_range]
    exact Nat.lt_succ_of_le (List.toFinset_card_le nodes)
  obtain ⟨j, small, k, small', apart, same⟩ :=
    Finset.exists_ne_map_eq_of_card_lt_of_maps_to (f := fun k => (above up k x).getD x) crowded (by
      intro k member
      obtain ⟨a, shown, reaches⟩ := onward k (Nat.le_of_lt_succ (Finset.mem_range.mp member))
      dsimp only
      rw [reaches]
      exact Finset.mem_coe.mpr (List.mem_toFinset.mpr shown))
  obtain ⟨a, _, reaches⟩ := onward j (Nat.le_of_lt_succ (Finset.mem_range.mp small))
  obtain ⟨b, _, reaches'⟩ := onward k (Nat.le_of_lt_succ (Finset.mem_range.mp small'))
  rw [reaches, reaches'] at same
  cases same
  exact apart (acyclic.level rfl reaches reaches')

theorem above_past {k : Nat} (reaches : above up k x = some a) (root : up a = none) (less : k < n) :
    above up n x = none := by
  obtain ⟨m, rfl⟩ := Nat.exists_eq_add_of_lt less
  rw [Nat.add_assoc, above_add, reaches, Option.bind_some, above, root]
  rfl

/-- `child` stands below `parent`, with nothing between them that is not below `parent` too. -/
def Under (lines : List (α × Nat)) (parent child : α) : Prop :=
  ∃ before inside after d, lines = before ++ (parent, d) :: inside ++ (child, d + 1) :: after ∧
    ∀ line ∈ inside, d < line.2

theorem Under.within {lines front back : List (α × Nat)} {parent child : α} (under : Under lines parent child) :
    Under (front ++ lines ++ back) parent child := by
  obtain ⟨before, inside, after, d, rfl, deeper⟩ := under
  exact ⟨front ++ before, inside, after ++ back, d, by simp, deeper⟩

theorem depth_le_listing (kids : α → List α) (n d : Nat) (a : α) : ∀ line ∈ listing kids n d a, d ≤ line.2 := by
  induction n generalizing d a with
  | zero => exact fun _ member => absurd member List.not_mem_nil
  | succ n ih =>
      intro line member
      rcases List.mem_cons.mp member with rfl | member
      · exact le_rfl
      · obtain ⟨b, _, shown⟩ := List.mem_flatMap.mp member
        exact Nat.le_of_succ_le (ih (d + 1) b line shown)

theorem Family.under_listing (family : Family up kids nodes) {parent child : α}
    (link : up child = some parent) (other : child ≠ a) (shown : child ∈ listed kids n a) :
    Under (listing kids n d a) parent child := by
  induction n generalizing d a with
  | zero => exact absurd shown List.not_mem_nil
  | succ n ih =>
      rw [listed_succ, List.mem_cons, List.mem_flatMap] at shown
      obtain ⟨b, kid, below⟩ := shown.resolve_left other
      obtain ⟨front, back, split⟩ := List.append_of_mem kid
      have parts : listing kids (n + 1) d a = ((a, d) :: front.flatMap (listing kids n (d + 1))) ++
          listing kids n (d + 1) b ++ back.flatMap (listing kids n (d + 1)) := by
        simp [listing, split]
      rw [parts]
      by_cases same : child = b
      · subst same
        have first : parent = a := Option.some.inj (link.symm.trans ((family.kid a child).mp kid).2)
        cases n with
        | zero => exact absurd below List.not_mem_nil
        | succ n =>
            refine ⟨[], front.flatMap (listing kids (n + 1) (d + 1)), (kids child).flatMap (listing kids n (d + 1 + 1)) ++
              back.flatMap (listing kids (n + 1) (d + 1)), d, ?_, ?_⟩
            · rw [first]
              simp [listing]
            · intro line member
              obtain ⟨c, _, deep⟩ := List.mem_flatMap.mp member
              exact depth_le_listing kids (n + 1) (d + 1) c line deep
      · exact (ih same below).within

end Blktap.Lib
