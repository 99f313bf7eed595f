import Blktap.Lib.Paths
import Blktap.Libvhd.Create

/-!
# The path from one file to another (`relative-path.c`)
-/

namespace Blktap.Libvhd
open Lib

namespace RelativePath

def enomem : Int := 12

def maxNameLen : Nat := 1000

def marks : Marks UInt8 := ⟨0x2f, 0x2e, by decide⟩

def delimiter : UInt8 := marks.slash

structure System where
  realpath : List UInt8 → Outcome (List UInt8)
  memory : Bool

def countNodes (path : List UInt8) : Nat := path.count delimiter

def System.nextNode (sys : System) (path : List UInt8) : Outcome (Option (List UInt8 × List UInt8)) :=
  match path.dropWhile (· != delimiter) with
  | [] => .ok none
  | rest => if sys.memory then .ok (some (path.takeWhile (· != delimiter), rest)) else .error (-enomem)

/-- The loop of `count_common_nodes`, in which `fuel` bounds the nodes of the first path. -/
def System.commonNodes (sys : System) : Nat → List UInt8 → List UInt8 → Outcome Nat
  | 0, _, _ => .ok 0
  | fuel + 1, toPath, fromPath => do
      match ← sys.nextNode toPath with
      | none => .ok 0
      | some (toNode, toPath) =>
          match ← sys.nextNode fromPath with
          | none => .ok 0
          | some (fromNode, fromPath) =>
              if toNode.take maxNameLen ≠ fromNode.take maxNameLen then .ok 0
              else do
                let common ← sys.commonNodes fuel toPath.tail fromPath.tail
                .ok (common + 1)

def System.countCommonNodes (sys : System) (toPath fromPath : List UInt8) : Outcome Nat :=
  sys.commonNodes (toPath.length + 1) toPath fromPath

def System.upNodes (sys : System) (count : Nat) : Option (List UInt8) :=
  if count = 0 then if sys.memory then some [marks.dot, delimiter] else none
  else if maxNameLen ≤ 3 * count then none
  else if sys.memory then some (marks.ups count)
  else none

def nodeOffset : List UInt8 → Nat → Option (List UInt8)
  | [], _ => none
  | c :: path, offset =>
      if offset = 0 then none
      else if c = delimiter then if offset = 1 then some path else nodeOffset path (offset - 1)
      else nodeOffset path offset

def System.relativePathTo (sys : System) (fromPath toPath : List UInt8) : Outcome (List UInt8) :=
  if maxNameLen ≤ toPath.length ∨ maxNameLen ≤ fromPath.length then .error (-enametoolong)
  else do
    let toAbsolute ← sys.realpath toPath
    let fromAbsolute ← sys.realpath fromPath
    if maxNameLen ≤ toAbsolute.length ∨ maxNameLen ≤ fromAbsolute.length then .error (-enametoolong)
    else do
      let common ← sys.countCommonNodes toAbsolute.tail fromAbsolute.tail
      match sys.upNodes (countNodes fromAbsolute - common - 1) with
      | none => .error (-enomem)
      | some up =>
          match nodeOffset toAbsolute (common + 1) with
          | none => .error (-einval)
          | some target => if sys.memory then .ok (up ++ target) else .error (-enomem)

end RelativePath

def dirname (path : List UInt8) : List UInt8 :=
  match ((path.reverse.dropWhile (· == 0x2f)).dropWhile (· != 0x2f)).dropWhile (· == 0x2f) with
  | [] => if path.head? = some 0x2f then [0x2f] else [0x2e]
  | dir => dir.reverse

namespace RelativePath

def levelsUp (fromPath toPath : List UInt8) : Nat :=
  let dir := marks.walk [] (dirname fromPath)
  dir.length - Marks.shared dir (marks.walk [] (dirname toPath))

variable {sys : System} {names others : List (List UInt8)} {name path rest : List UInt8}

section Scans

theorem dropWhile_name (noSlash : delimiter ∉ name) (rest : List UInt8) :
    (name ++ rest).dropWhile (· != delimiter) = rest.dropWhile (· != delimiter) :=
  List.dropWhile_append_of_pos fun _ member => bne_iff_ne.mpr fun same => noSlash (same ▸ member)

theorem takeWhile_name (noSlash : delimiter ∉ name) (rest : List UInt8) :
    (name ++ rest).takeWhile (· != delimiter) = name ++ rest.takeWhile (· != delimiter) :=
  List.takeWhile_append_of_pos fun _ member => bne_iff_ne.mpr fun same => noSlash (same ▸ member)

theorem nextNode_last (noSlash : delimiter ∉ name) : sys.nextNode name = .ok none := by
  have none := dropWhile_name noSlash []
  rw [List.append_nil] at none
  unfold System.nextNode
  rw [none]
  rfl

theorem nextNode_some (memory : sys.memory = true) (noSlash : delimiter ∉ name) (rest : List UInt8) :
    sys.nextNode (name ++ delimiter :: rest) = .ok (some (name, delimiter :: rest)) := by
  have slash : (delimiter :: rest).dropWhile (· != delimiter) = delimiter :: rest :=
    List.dropWhile_cons_of_neg (by simp)
  have front : (delimiter :: rest).takeWhile (· != delimiter) = [] := List.takeWhile_cons_of_neg (by simp)
  unfold System.nextNode
  rw [dropWhile_name noSlash, takeWhile_name noSlash, slash, front, List.append_nil]
  exact if_pos memory

theorem tail_text (name : List UInt8) (others : List (List UInt8)) :
    (marks.text (name :: others)).tail = name ++ marks.below others := by
  unfold Marks.text
  rw [if_neg (List.cons_ne_nil _ _), Marks.below_cons]
  rfl

theorem commonNodes_eq (memory : sys.memory = true) {fuel : Nat} (enough : names.length < fuel)
    (nodes : ∀ name ∈ names, marks.IsNode name) (nodes' : ∀ name ∈ others, marks.IsNode name)
    (short : ∀ name ∈ names ++ others, name.length ≤ maxNameLen) :
    sys.commonNodes fuel (marks.text names).tail (marks.text others).tail =
      .ok (Marks.shared names.dropLast others.dropLast) := by
  induction names generalizing fuel others with
  | nil =>
      obtain ⟨fuel, rfl⟩ := Nat.exists_eq_add_of_lt enough
      unfold System.commonNodes
      rw [show (marks.text []).tail = [] from rfl, nextNode_last List.not_mem_nil]
      cases others.dropLast <;> rfl
  | cons a as ih =>
      obtain ⟨fuel, rfl⟩ := Nat.exists_eq_succ_of_ne_zero (Nat.ne_of_gt (Nat.zero_lt_of_lt enough))
      have node := nodes a List.mem_cons_self
      unfold System.commonNodes
      rw [tail_text]
      cases as with
      | nil =>
          rw [show a ++ marks.below [] = a from List.append_nil a, nextNode_last node.noSlash]
          cases others.dropLast <;> rfl
      | cons b bs =>
          rw [Marks.below_cons]
          change (sys.nextNode (a ++ delimiter :: (b ++ marks.below bs)) >>= _) = _
          rw [nextNode_some memory node.noSlash, Outcome.ok_bind]
          dsimp only
          cases others with
          | nil =>
              rw [show (marks.text []).tail = [] from rfl, nextNode_last List.not_mem_nil]
              rfl
          | cons c cs =>
              have node' := nodes' c List.mem_cons_self
              rw [tail_text]
              cases cs with
              | nil =>
                  rw [show c ++ marks.below [] = c from List.append_nil c, nextNode_last node'.noSlash]
                  rfl
              | cons d ds =>
                  have first : a.take maxNameLen = a := List.take_of_length_le (short a (by simp))
                  have second : c.take maxNameLen = c := List.take_of_length_le (short c (by simp))
                  rw [Marks.below_cons]
                  change (sys.nextNode (c ++ delimiter :: (d ++ marks.below ds)) >>= _) = _
                  rw [nextNode_some memory node'.noSlash, Outcome.ok_bind]
                  dsimp only
                  rw [first, second, List.dropLast_cons_cons, List.dropLast_cons_cons, Marks.shared, List.tail_cons,
                    List.tail_cons]
                  by_cases same : a = c
                  · have rest : sys.commonNodes fuel (marks.text (b :: bs)).tail (marks.text (d :: ds)).tail =
                        .ok (Marks.shared (b :: bs).dropLast (d :: ds).dropLast) := ih (by simpa using enough)
                      (fun name member => nodes name (List.mem_cons_of_mem _ member))
                      (fun name member => nodes' name (List.mem_cons_of_mem _ member))
                      (fun name member => short name (by
                        rcases List.mem_append.mp member with left | right
                        · exact List.mem_append_left _ (List.mem_cons_of_mem _ left)
                        · exact List.mem_append_right _ (List.mem_cons_of_mem _ right)))
                    rw [tail_text, tail_text] at rest
                    rw [if_neg (not_not.mpr same), if_pos same, rest]
                    rfl
                  · rw [if_pos same, if_neg same]

theorem nodeOffset_name (noSlash : delimiter ∉ name) (rest : List UInt8) (offset : Nat) :
    nodeOffset (name ++ rest) (offset + 1) = nodeOffset rest (offset + 1) := by
  induction name with
  | nil => rfl
  | cons c name ih =>
      have apart : c ≠ delimiter := fun same => noSlash (same ▸ List.mem_cons_self)
      rw [List.cons_append, nodeOffset, if_neg (Nat.succ_ne_zero _), if_neg apart]
      exact ih fun member => noSlash (List.mem_cons_of_mem _ member)

theorem nodeOffset_below (nodes : ∀ name ∈ names, marks.IsNode name) {n : Nat} (inside : n < names.length) :
    nodeOffset (marks.below names) (n + 1) = some (marks.below (names.drop n)).tail := by
  induction names generalizing n with
  | nil => exact absurd inside (Nat.not_lt_zero n)
  | cons a as ih =>
      have first := nodeOffset_name (nodes a List.mem_cons_self).noSlash (marks.below as)
      cases n with
      | zero =>
          rw [List.drop_zero, Marks.below_cons, nodeOffset, if_neg (Nat.succ_ne_zero 0)]
          exact if_pos rfl
      | succ n =>
          rw [Marks.below_cons, nodeOffset, if_neg (Nat.succ_ne_zero _), if_pos (show marks.slash = delimiter from rfl),
            if_neg (by omega), Nat.add_sub_cancel, first, List.drop_succ_cons]
          exact ih (fun name member => nodes name (List.mem_cons_of_mem _ member)) (Nat.lt_of_succ_lt_succ inside)

theorem nodeOffset_text (nodes : ∀ name ∈ names, marks.IsNode name) {n : Nat} (inside : n ≤ names.dropLast.length) :
    nodeOffset (marks.text names) (n + 1) = some (marks.below (names.drop n)).tail := by
  rw [List.length_dropLast] at inside
  unfold Marks.text
  split
  · rename_i root
    rw [root] at inside ⊢
    cases Nat.le_zero.mp inside
    rfl
  · rename_i some
    have positive := List.length_pos_iff.mpr some
    exact nodeOffset_below nodes (by omega)

theorem count_below (nodes : ∀ name ∈ names, marks.IsNode name) :
    (marks.below names).count delimiter = names.length := by
  induction names with
  | nil => rfl
  | cons a as ih =>
      have none := List.count_eq_zero.mpr (nodes a List.mem_cons_self).noSlash
      rw [Marks.below_cons]
      change (delimiter :: (a ++ marks.below as)).count delimiter = _
      rw [List.count_cons_self, List.count_append, ih fun name member => nodes name (List.mem_cons_of_mem _ member)]
      rw [show a.count delimiter = 0 from none, Nat.zero_add, List.length_cons]

theorem countNodes_text (nodes : ∀ name ∈ names, marks.IsNode name) :
    countNodes (marks.text names) - 1 = names.dropLast.length := by
  unfold countNodes Marks.text
  split
  · rename_i root
    rw [root]
    rfl
  · rw [count_below nodes, List.length_dropLast]

theorem below_snoc (names : List (List UInt8)) (name : List UInt8) :
    marks.below (names ++ [name]) = marks.below names ++ marks.slash :: name := by
  unfold Marks.below
  rw [List.flatMap_append, List.flatMap_singleton]

theorem dropWhile_below (nodes : ∀ name ∈ names, marks.IsNode name) :
    (marks.below names).reverse.dropWhile (· == 0x2f) = (marks.below names).reverse := by
  rcases List.eq_nil_or_concat names with rfl | ⟨front, last, rfl⟩
  · rfl
  · have node := nodes last (by simp)
    obtain ⟨c, cs, reversed⟩ := List.exists_cons_of_ne_nil (List.reverse_eq_nil_iff.not.mpr node.some)
    have apart : (c == 0x2f) = false := by
      rw [beq_eq_false_iff_ne]
      rintro rfl
      exact node.noSlash (List.mem_reverse.mp (reversed ▸ List.mem_cons_self))
    rw [List.concat_eq_append, below_snoc, List.reverse_append, List.reverse_cons, reversed]
    exact List.dropWhile_cons_of_neg (by rw [apart]; nofun)

theorem dirname_text (nodes : ∀ name ∈ names, marks.IsNode name) :
    dirname (marks.text names) = marks.text names.dropLast := by
  rcases List.eq_nil_or_concat names with rfl | ⟨front, last, rfl⟩
  · rfl
  rw [List.concat_eq_append] at nodes ⊢
  have node := nodes last (by simp)
  have others : ∀ name ∈ front, marks.IsNode name := fun name member => nodes name (List.mem_append_left _ member)
  have whole : marks.text (front ++ [last]) = marks.below front ++ marks.slash :: last := by
    unfold Marks.text
    rw [if_neg (by simp), below_snoc]
  have ends := dropWhile_below nodes
  rw [below_snoc] at ends
  have noSlash : delimiter ∉ last.reverse := fun member => node.noSlash (List.mem_reverse.mp member)
  have stripped : ((marks.below front ++ marks.slash :: last).reverse.dropWhile (· != 0x2f)) =
      marks.slash :: (marks.below front).reverse := by
    rw [List.reverse_append, List.reverse_cons, List.append_assoc]
    refine (dropWhile_name noSlash _).trans ?_
    exact List.dropWhile_cons_of_neg (by simp [marks, delimiter])
  unfold dirname
  rw [whole, ends, stripped, List.dropWhile_cons_of_pos (by decide), dropWhile_below others, List.dropLast_concat]
  unfold Marks.text
  by_cases root : front = []
  · rw [root]
    rfl
  · obtain ⟨rest, head⟩ := Marks.below_head (m := marks) root
    rw [if_neg root]
    cases reversed : (marks.below front).reverse with
    | nil =>
        rw [head, List.reverse_eq_nil_iff] at reversed
        cases reversed
    | cons c cs =>
        dsimp only
        rw [← reversed, List.reverse_reverse]

theorem name_le_below (member : name ∈ names) : name.length ≤ (marks.below names).length := by
  induction names with
  | nil => exact absurd member List.not_mem_nil
  | cons a as ih =>
      rw [Marks.below_cons, List.length_cons, List.length_append]
      rcases List.mem_cons.mp member with rfl | rest
      · omega
      · have bound := ih rest
        omega

theorem length_le_below (names : List (List UInt8)) : names.length ≤ (marks.below names).length := by
  induction names with
  | nil => exact le_rfl
  | cons a as ih =>
      rw [Marks.below_cons, List.length_cons, List.length_cons, List.length_append]
      omega

theorem name_le_text (member : name ∈ names) : name.length ≤ (marks.text names).length := by
  unfold Marks.text
  rw [if_neg (List.ne_nil_of_mem member)]
  exact name_le_below member

theorem length_le_tail (nodes : ∀ name ∈ names, marks.IsNode name) :
    names.length ≤ (marks.text names).tail.length := by
  cases names with
  | nil => exact le_rfl
  | cons a as =>
      have bound := length_le_below as
      have positive := List.length_pos_iff.mpr (nodes a List.mem_cons_self).some
      rw [tail_text, List.length_cons, List.length_append]
      omega

end Scans

def upTo (count : Nat) : List UInt8 := if count = 0 then [marks.dot, delimiter] else marks.ups count

theorem upNodes_eq (memory : sys.memory = true) (count : Nat) :
    sys.upNodes count = if 3 * count < maxNameLen then some (upTo count) else none := by
  unfold System.upNodes upTo
  by_cases none : count = 0
  · rw [if_pos none, if_pos memory, if_pos none, none]
    rfl
  · rw [if_neg none, if_neg none]
    by_cases long : maxNameLen ≤ 3 * count
    · rw [if_pos long, if_neg (Nat.not_lt.mpr long)]
    · rw [if_neg long, if_pos memory, if_pos (Nat.not_le.mp long)]

theorem walk_upTo (count : Nat) (names : List (List UInt8)) (rest : List UInt8) :
    marks.walk names (upTo count ++ rest) = marks.walk (names.take (names.length - count)) rest := by
  unfold upTo
  split
  · rename_i none
    rw [none, Nat.sub_zero, List.take_length]
    exact Marks.walk_here names rest
  · exact Marks.walk_ups count names rest

theorem walk_tail (names others : List (List UInt8)) :
    marks.walk names (marks.below others).tail = marks.walk names (marks.below others) := by
  cases others with
  | nil => rfl
  | cons a as =>
      rw [Marks.below_cons, Marks.walk_root]
      rfl

section Paths
variable (nodes : ∀ name ∈ names, marks.IsNode name) (nodes' : ∀ name ∈ others, marks.IsNode name)

def climbs (names others : List (List UInt8)) : Nat :=
  names.dropLast.length - Marks.shared names.dropLast others.dropLast

def across (names others : List (List UInt8)) : List UInt8 :=
  upTo (climbs names others) ++ (marks.below (others.drop (Marks.shared names.dropLast others.dropLast))).tail

include nodes nodes'

theorem levelsUp_text : levelsUp (marks.text names) (marks.text others) = climbs names others := by
  have dir : marks.walk [] (dirname (marks.text names)) = names.dropLast := by
    rw [dirname_text nodes]
    exact Marks.walk_canonical fun name member => nodes name (List.mem_of_mem_dropLast member)
  have dir' : marks.walk [] (dirname (marks.text others)) = others.dropLast := by
    rw [dirname_text nodes']
    exact Marks.walk_canonical fun name member => nodes' name (List.mem_of_mem_dropLast member)
  unfold levelsUp climbs
  rw [dir, dir']

theorem relativePathTo_eq (memory : sys.memory = true) (short : (marks.text names).length < maxNameLen)
    (short' : (marks.text others).length < maxNameLen) (real : sys.realpath (marks.text names) = .ok (marks.text names))
    (real' : sys.realpath (marks.text others) = .ok (marks.text others)) :
    sys.relativePathTo (marks.text names) (marks.text others) =
      if 3 * climbs names others < maxNameLen then .ok (across names others) else .error (-enomem) := by
  have bounds := Marks.shared_le names.dropLast others.dropLast
  have common : sys.countCommonNodes (marks.text others).tail (marks.text names).tail =
      .ok (Marks.shared names.dropLast others.dropLast) := by
    rw [Marks.shared_comm]
    refine commonNodes_eq memory (Nat.lt_succ_of_le (length_le_tail nodes')) nodes' nodes fun name member => ?_
    rcases List.mem_append.mp member with left | right
    · exact le_trans (name_le_text left) short'.le
    · exact le_trans (name_le_text right) short.le
  have climb : countNodes (marks.text names) - Marks.shared names.dropLast others.dropLast - 1 =
      climbs names others := by
    rw [Nat.sub_right_comm, countNodes_text nodes]
    rfl
  have offset := nodeOffset_text nodes' bounds.2
  unfold System.relativePathTo
  rw [if_neg (by omega), real, real', Outcome.ok_bind, Outcome.ok_bind, if_neg (by omega), common, Outcome.ok_bind,
    climb, upNodes_eq memory]
  by_cases low : 3 * climbs names others < maxNameLen
  · rw [if_pos low, if_pos low]
    dsimp only
    rw [offset]
    exact if_pos memory
  · rw [if_neg low, if_neg low]

theorem relativePathTo_ok (real : sys.realpath (marks.text names) = .ok (marks.text names))
    (real' : sys.realpath (marks.text others) = .ok (marks.text others))
    (returns : sys.relativePathTo (marks.text names) (marks.text others) = .ok path) : path = across names others := by
  have short : (marks.text names).length < maxNameLen ∧ (marks.text others).length < maxNameLen := by
    unfold System.relativePathTo at returns
    split at returns
    · cases returns
    · omega
  have memory : sys.memory = true := by
    by_contra none
    unfold System.relativePathTo at returns
    rw [if_neg (by omega), real, real', Outcome.ok_bind, Outcome.ok_bind, if_neg (by omega)] at returns
    obtain ⟨common, _, returns⟩ := Outcome.bind_eq_ok.mp returns
    have stuck : ∀ count, sys.upNodes count = Option.none := by
      intro count
      unfold System.upNodes
      rw [if_neg none, if_neg none, ite_self, ite_self]
    rw [stuck] at returns
    cases returns
  rw [relativePathTo_eq nodes nodes' memory short.1 short.2 real real'] at returns
  split at returns
  · cases returns
    rfl
  · cases returns

theorem across_resolves : marks.resolve (dirname (marks.text names)) (across names others) = marks.text others := by
  have dirs : ∀ name ∈ names.dropLast, marks.IsNode name := fun name member =>
    nodes name (List.mem_of_mem_dropLast member)
  have walked := Marks.walk_across names.dropLast nodes'
  rw [Marks.walk_ups] at walked
  unfold across climbs
  rw [dirname_text nodes, Marks.resolve_text dirs, walk_upTo, walk_tail, walked]

omit nodes nodes' in
theorem upTo_head (count : Nat) : ∃ rest, upTo count = marks.dot :: rest := by
  unfold upTo
  split
  · exact ⟨_, rfl⟩
  · rename_i some
    obtain ⟨count, rfl⟩ := Nat.exists_eq_succ_of_ne_zero some
    exact ⟨_, by rw [Marks.ups, List.replicate_succ]; rfl⟩

omit nodes nodes' in
theorem across_head (names others : List (List UInt8)) : (across names others).head? = some marks.dot := by
  obtain ⟨rest, head⟩ := upTo_head (climbs names others)
  unfold across
  rw [head]
  rfl

omit nodes nodes' in
theorem across_chars {c : UInt8} (member : c ∈ across names others) :
    c = marks.dot ∨ c = delimiter ∨ c ∈ marks.text others := by
  rcases List.mem_append.mp member with up | down
  · have dots : c ∈ [marks.dot, delimiter] ∨ c ∈ [marks.dot, marks.dot, delimiter] := by
      unfold upTo at up
      split at up
      · exact .inl up
      · obtain ⟨piece, listed, inside⟩ := List.mem_flatten.mp up
        rw [List.eq_of_mem_replicate listed] at inside
        exact .inr inside
    simp only [List.mem_cons, List.not_mem_nil, or_false] at dots
    tauto
  · refine .inr (.inr ?_)
    obtain ⟨name, listed, inside⟩ := List.mem_flatMap.mp (List.mem_of_mem_tail down)
    have listed := List.mem_of_mem_drop listed
    unfold Marks.text
    rw [if_neg (List.ne_nil_of_mem listed)]
    exact List.mem_flatMap.mpr ⟨name, listed, inside⟩

end Paths

/-- The path from one file to another leads to it, when going up takes less than `MAX_NAME_LEN` characters; and else
there is none. -/
theorem relativePathTo_resolves {fromPath toPath : List UInt8} (source : marks.Canonical fromPath)
    (target : marks.Canonical toPath) (short : fromPath.length < maxNameLen) (short' : toPath.length < maxNameLen)
    (memory : sys.memory = true) (real : sys.realpath fromPath = .ok fromPath)
    (real' : sys.realpath toPath = .ok toPath) :
    if 3 * levelsUp fromPath toPath < maxNameLen then
      ∃ path, sys.relativePathTo fromPath toPath = .ok path ∧ marks.resolve (dirname fromPath) path = toPath
    else sys.relativePathTo fromPath toPath = .error (-enomem) := by
  obtain ⟨names, nodes, rfl⟩ := source
  obtain ⟨others, nodes', rfl⟩ := target
  rw [levelsUp_text nodes nodes', relativePathTo_eq nodes nodes' memory short short' real real']
  split
  · exact ⟨_, rfl, across_resolves nodes nodes'⟩
  · rfl

def plain : System := ⟨.ok, true⟩

theorem plain_realpath (path : List UInt8) : plain.realpath path = .ok path := rfl

theorem isNode_letter {c : UInt8} (letter : c ≠ 0x2f ∧ c ≠ 0x2e) : marks.IsNode [c] where
  some := List.cons_ne_nil _ _
  noSlash member := letter.1 (List.mem_singleton.mp member).symm
  notHere same := letter.2 (List.singleton_inj.mp same)
  notUp same := by cases same

theorem canonical_letters (letters : List UInt8) (plain : letters.all (fun c => c != 0x2f && c != 0x2e) = true) :
    marks.Canonical (marks.text (letters.map ([·]))) := by
  refine ⟨_, fun name member => ?_, rfl⟩
  obtain ⟨c, listed, rfl⟩ := List.mem_map.mp member
  have letter := List.all_eq_true.mp plain c listed
  rw [Bool.and_eq_true, bne_iff_ne, bne_iff_ne] at letter
  exact isNode_letter letter

theorem sibling_resolves : ∃ path, plain.relativePathTo [0x2f, 0x61, 0x2f, 0x62, 0x2f, 0x63] [0x2f, 0x61, 0x2f, 0x64] =
    .ok path ∧ marks.resolve (dirname [0x2f, 0x61, 0x2f, 0x62, 0x2f, 0x63]) path = [0x2f, 0x61, 0x2f, 0x64] := by
  have resolves := relativePathTo_resolves (canonical_letters [0x61, 0x62, 0x63] rfl)
    (canonical_letters [0x61, 0x64] rfl) (by decide) (by decide) rfl (plain_realpath _)
    (plain_realpath _)
  rwa [if_pos (by decide)] at resolves

def deepNames : List (List UInt8) := List.replicate 334 [0x61] ++ [[0x62]]

theorem deep_fails : marks.Canonical (marks.text deepNames) ∧ marks.Canonical (marks.text [[0x63]]) ∧
    (marks.text deepNames).length < maxNameLen ∧ plain.relativePathTo (marks.text deepNames) (marks.text [[0x63]]) =
      .error (-enomem) := by
  have nodes : ∀ name ∈ deepNames, marks.IsNode name := by
    intro name member
    rcases List.mem_append.mp member with up | last
    · rw [List.eq_of_mem_replicate up]
      exact isNode_letter (by decide)
    · rw [List.mem_singleton.mp last]
      exact isNode_letter (by decide)
  have nodes' : ∀ name ∈ [[(0x63 : UInt8)]], marks.IsNode name := by
    intro name member
    rw [List.mem_singleton.mp member]
    exact isNode_letter (by decide)
  have some : deepNames ≠ [] := List.append_ne_nil_of_right_ne_nil _ (List.cons_ne_nil _ _)
  have short : (marks.text deepNames).length < maxNameLen := by
    unfold Marks.text
    rw [if_neg some]
    unfold deepNames Marks.below
    rw [List.flatMap_append, List.length_append, List.length_flatMap, List.map_replicate, List.sum_replicate]
    decide
  have climb : climbs deepNames [[0x63]] = 334 := by
    unfold climbs deepNames
    rw [List.dropLast_concat, List.length_replicate]
    rfl
  refine ⟨⟨deepNames, nodes, rfl⟩, ⟨_, nodes', rfl⟩, short, ?_⟩
  rw [relativePathTo_eq nodes nodes' rfl short (by decide) rfl rfl, climb]
  rfl

end RelativePath

end Blktap.Libvhd
