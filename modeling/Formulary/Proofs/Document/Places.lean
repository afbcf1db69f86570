/-
# The places of a document

A block of a document is found by its path: a number for each step on the way, to a block
and then in turns to an item of a list and to a block of the item (`spotAt?`). The walk over
a document comes to every such place once (`mem_tour`), in the order of the paths, so that
an item comes before what stands in it, and that before the next item (`sorted_rowTour`).
The lists that it comes to on the way are the lists of the document (`listsOf_rowTour`), and
a block is as deep as lists stand around it (`countP_listPaths`).

Key definitions: `Spot`, `spotAt?`, `rowTour`, `listsOf`, `itemsOf`, `listPaths`, `allPlaces`.
Key theorems: `spotAt?_append`, `list_of_item`, `item_of_list`, `mem_rowTour`,
`sorted_rowTour`, `listsOf_rowTour`, `itemsOf_rowTour`, `mem_nestedItems`, `countP_listPaths`.
-/
import Formulary.Proofs.Document.Lists
import Mathlib.Data.List.Count
import Mathlib.Data.List.Lex

namespace Formulary

/-- What stands at a place: a block, with the number of lists around it, or an item, with the
number of lists around its list and what the list says about itself. -/
inductive Spot
  | block (depth : Nat) (b : Block)
  | item (depth : Nat) (ordered start : Attribute) (children : List Block)
deriving Repr, Inhabited

mutual
/-- What stands at a path from a block. -/
def Block.spotAt? (depth : Nat) (b : Block) : List Nat → Option Spot
  | [] => some (.block depth b)
  | k :: r =>
    match b with
    | .list ordered start cs =>
      match cs[k]? with
      | some (.item bs) => itemSpotAt? depth ordered start bs r
      | _ => none
    | _ => none
/-- What stands at a path from an item. -/
def itemSpotAt? (depth : Nat) (ordered start : Attribute) (bs : List Block) :
    List Nat → Option Spot
  | [] => some (.item depth ordered start bs)
  | i :: r => bs[i]?.bind fun b => b.spotAt? (depth + 1) r
end

/-- What stands at a path from a row of blocks. -/
def spotAt? (depth : Nat) (bs : List Block) : List Nat → Option Spot
  | [] => none
  | i :: r => bs[i]?.bind fun b => b.spotAt? depth r

/-- What stands at a path from what stands at a place. -/
def Spot.spotAt? : Spot → List Nat → Option Spot
  | .block depth b => b.spotAt? depth
  | .item depth ordered start bs => itemSpotAt? depth ordered start bs

mutual
theorem Block.spotAt?_append (depth : Nat) (b : Block) (s : List Nat) : ∀ r : List Nat,
    b.spotAt? depth (r ++ s) = (b.spotAt? depth r).bind (Spot.spotAt? · s)
  | [] => rfl
  | k :: r => by
    cases b with
    | list ordered start cs =>
      rw [List.cons_append, Block.spotAt?, Block.spotAt?]
      cases cs[k]? with
      | none => rfl
      | some c =>
        cases c with
        | item bs => exact itemSpotAt?_append depth ordered start bs s r
        | _ => rfl
    | _ => simp [Block.spotAt?]
theorem itemSpotAt?_append (depth : Nat) (ordered start : Attribute) (bs : List Block)
    (s : List Nat) : ∀ r : List Nat, itemSpotAt? depth ordered start bs (r ++ s) =
      (itemSpotAt? depth ordered start bs r).bind (Spot.spotAt? · s)
  | [] => rfl
  | i :: r => by
    rw [List.cons_append, itemSpotAt?, itemSpotAt?, Option.bind_assoc]
    exact congrArg (Option.bind _) (funext fun b => b.spotAt?_append (depth + 1) s r)
end

/-- A path may be followed in two parts. -/
theorem spotAt?_append (depth : Nat) (bs : List Block) (s : List Nat) {r : List Nat}
    (hr : r ≠ []) : spotAt? depth bs (r ++ s) = (spotAt? depth bs r).bind (Spot.spotAt? · s) := by
  cases r with
  | nil => exact absurd rfl hr
  | cons i r =>
    rw [List.cons_append, spotAt?, spotAt?, Option.bind_assoc]
    exact congrArg (Option.bind _) (funext fun b => b.spotAt?_append depth s r)

/-- The items of a list are found a step behind it. -/
theorem item_of_list {depth d k : Nat} {ordered start : Attribute} {bs cs ds : List Block}
    {path : List Nat} (h : spotAt? depth bs path = some (.block d (.list ordered start cs)))
    (hk : cs[k]? = some (.item ds)) :
    spotAt? depth bs (path ++ [k]) = some (.item d ordered start ds) := by
  have hpath : path ≠ [] := by
    rintro rfl
    exact absurd h (by simp [spotAt?])
  rw [spotAt?_append depth bs [k] hpath, h, Option.bind_some, Spot.spotAt?, Block.spotAt?, hk]
  rfl

/-- The list of an item is found a step before it. -/
theorem list_of_item {depth d : Nat} {ordered start : Attribute} {bs ds : List Block}
    {path : List Nat} (h : spotAt? depth bs path = some (.item d ordered start ds)) :
    ∃ k cs, path = path.dropLast ++ [k] ∧
      spotAt? depth bs path.dropLast = some (.block d (.list ordered start cs)) ∧
      cs[k]? = some (.item ds) := by
  have hblock : ∀ {n : Nat} {b : Option Block},
      (b.bind fun b => some (Spot.block n b)) ≠ some (.item d ordered start ds) := by
    rintro n (_ | b) <;> simp
  rcases List.eq_nil_or_concat' path with rfl | ⟨init, k, rfl⟩
  · exact absurd h (by simp [spotAt?])
  rw [List.dropLast_concat]
  by_cases hinit : init = []
  · subst hinit
    exact absurd h hblock
  rw [spotAt?_append depth bs [k] hinit] at h
  obtain ⟨x, hx, hk⟩ := Option.bind_eq_some_iff.mp h
  cases x with
  | item d' o s es => exact absurd hk hblock
  | block d' b =>
    cases b with
    | list o s cs =>
      rw [Spot.spotAt?, Block.spotAt?] at hk
      split at hk
      · rename_i es hes
        obtain ⟨rfl, rfl, rfl, rfl⟩ := Spot.item.inj (Option.some.inj hk)
        exact ⟨k, cs, rfl, hx, hes⟩
      · exact absurd hk (by simp)
    | _ => exact absurd hk (by simp [Spot.spotAt?, Block.spotAt?])

/-- A block stands in no list, or in an item of a list that is one step less deep. -/
theorem around_of_block {depth : Nat} {bs : List Block} {b : Block} {path : List Nat}
    (h : spotAt? 0 bs path = some (.block depth b)) :
    (depth = 0 ∧ ∃ i, path = [i]) ∨
      ∃ d p k i, depth = d + 1 ∧ path = (p ++ [k]) ++ [i] ∧
        (∃ ordered start cs, spotAt? 0 bs p = some (.block d (.list ordered start cs))) ∧
        ∃ ordered start ds, spotAt? 0 bs (p ++ [k]) = some (.item d ordered start ds) := by
  rcases List.eq_nil_or_concat' path with rfl | ⟨init, i, rfl⟩
  · exact absurd h (by simp [spotAt?])
  by_cases hinit : init = []
  · subst hinit
    obtain ⟨c, -, hc⟩ := Option.bind_eq_some_iff.mp h
    obtain ⟨hdepth, -⟩ := Spot.block.inj (Option.some.inj hc)
    exact .inl ⟨hdepth.symm, i, rfl⟩
  rw [spotAt?_append 0 bs [i] hinit] at h
  obtain ⟨x, hx, hi⟩ := Option.bind_eq_some_iff.mp h
  cases x with
  | item d ordered start ds =>
    obtain ⟨c, -, hc⟩ := Option.bind_eq_some_iff.mp hi
    obtain ⟨hdepth, -⟩ := Spot.block.inj (Option.some.inj hc)
    obtain ⟨k, cs, hpath, hlist, -⟩ := list_of_item hx
    refine .inr ⟨d, init.dropLast, k, i, hdepth.symm, by rw [← hpath], ⟨_, _, _, hlist⟩, ?_⟩
    rw [← hpath]
    exact ⟨_, _, _, hx⟩
  | block d c =>
    cases c with
    | list ordered start cs =>
      rw [Spot.spotAt?, Block.spotAt?] at hi
      split at hi
      · exact absurd hi (by simp [itemSpotAt?])
      · exact absurd hi (by simp)
    | _ => exact absurd hi (by simp [Spot.spotAt?, Block.spotAt?])

/-! ### Walking over a document -/

mutual
/-- The places that the walk over a block at a path comes to. -/
def Block.tour (path : List Nat) (depth : Nat) : Block → List (List Nat × Spot)
  | .list ordered start cs =>
    (path, .block depth (.list ordered start cs)) :: itemTour path depth ordered start 0 cs
  | b => [(path, .block depth b)]
/-- The places in the items of a list, from the `i`-th on. -/
def itemTour (path : List Nat) (depth : Nat) (ordered start : Attribute) (i : Nat) :
    List Block → List (List Nat × Spot)
  | [] => []
  | .item bs :: rest =>
    (path ++ [i], .item depth ordered start bs) :: rowTour (path ++ [i]) (depth + 1) 0 bs ++
      itemTour path depth ordered start (i + 1) rest
  | _ :: rest => itemTour path depth ordered start (i + 1) rest
/-- The places in a row of blocks, from the `i`-th on. -/
def rowTour (path : List Nat) (depth i : Nat) : List Block → List (List Nat × Spot)
  | [] => []
  | b :: bs => b.tour (path ++ [i]) depth ++ rowTour path depth (i + 1) bs
end

section Places

variable {q : List Nat} {x : Spot}

theorem mem_single_tour {path : List Nat} {depth : Nat} {b : Block}
    (hb : ∀ k r, b.spotAt? depth (k :: r) = none) :
    (q, x) ∈ [(path, Spot.block depth b)] ↔ ∃ r, q = path ++ r ∧ b.spotAt? depth r = some x := by
  rw [List.mem_singleton, Prod.mk.injEq]
  constructor
  · rintro ⟨rfl, rfl⟩
    exact ⟨[], (List.append_nil q).symm, rfl⟩
  · rintro ⟨r, rfl, hx⟩
    cases r with
    | nil => exact ⟨List.append_nil path, (Option.some.inj hx).symm⟩
    | cons k r => exact absurd hx (by rw [hb]; simp)

mutual
theorem Block.mem_tour (path : List Nat) (depth : Nat) : ∀ b : Block,
    (q, x) ∈ b.tour path depth ↔ ∃ r, q = path ++ r ∧ b.spotAt? depth r = some x := fun b => by
  cases b with
  | list ordered start cs =>
    rw [Block.tour, List.mem_cons, mem_itemTour path depth ordered start 0 cs, Prod.mk.injEq]
    constructor
    · rintro (⟨rfl, rfl⟩ | ⟨j, r, bs, rfl, hbs, hx⟩)
      · exact ⟨[], (List.append_nil q).symm, rfl⟩
      · exact ⟨j :: r, by rw [Nat.zero_add], by rw [Block.spotAt?, hbs]; exact hx⟩
    · rintro ⟨r, rfl, hx⟩
      cases r with
      | nil => exact .inl ⟨List.append_nil path, (Option.some.inj hx).symm⟩
      | cons j r =>
        rw [Block.spotAt?] at hx
        split at hx
        · rename_i bs hbs
          exact .inr ⟨j, r, bs, by rw [Nat.zero_add], hbs, hx⟩
        · exact absurd hx (by simp)
  | _ => exact mem_single_tour fun k r => rfl
theorem mem_itemTour (path : List Nat) (depth : Nat) (ordered start : Attribute) :
    ∀ (i : Nat) (cs : List Block), (q, x) ∈ itemTour path depth ordered start i cs ↔
      ∃ j r bs, q = path ++ (i + j) :: r ∧ cs[j]? = some (.item bs) ∧
        itemSpotAt? depth ordered start bs r = some x
  | i, [] => by simp [itemTour]
  | i, c :: rest => by
    have hrest := mem_itemTour path depth ordered start (i + 1) rest
    have hlater : ∀ j, i + (j + 1) = i + 1 + j := fun j => by omega
    cases c with
    | item ds =>
      rw [itemTour, List.mem_append, List.mem_cons, mem_rowTour (path ++ [i]) (depth + 1) 0 ds,
        hrest, Prod.mk.injEq]
      constructor
      · rintro ((⟨rfl, rfl⟩ | ⟨j, r, rfl, hx⟩) | ⟨j, r, bs, rfl, hbs, hx⟩)
        · exact ⟨0, [], ds, rfl, rfl, rfl⟩
        · exact ⟨0, j :: r, ds, by simp, rfl, hx⟩
        · exact ⟨j + 1, r, bs, by rw [hlater j], hbs, hx⟩
      · rintro ⟨j, r, bs, rfl, hbs, hx⟩
        cases j with
        | zero =>
          obtain rfl : ds = bs := by simpa using hbs
          cases r with
          | nil => exact .inl (.inl ⟨rfl, (Option.some.inj hx).symm⟩)
          | cons j r => exact .inl (.inr ⟨j, r, by simp, hx⟩)
        | succ j => exact .inr ⟨j, r, bs, by rw [hlater j], hbs, hx⟩
    | _ =>
      rw [itemTour, hrest]
      · constructor
        · rintro ⟨j, r, bs, rfl, hbs, hx⟩
          exact ⟨j + 1, r, bs, by rw [hlater j], hbs, hx⟩
        · rintro ⟨j, r, bs, rfl, hbs, hx⟩
          cases j with
          | zero => exact absurd hbs (by simp)
          | succ j => exact ⟨j, r, bs, by rw [hlater j], hbs, hx⟩
      · simp
theorem mem_rowTour (path : List Nat) (depth : Nat) : ∀ (i : Nat) (bs : List Block),
    (q, x) ∈ rowTour path depth i bs ↔
      ∃ j r, q = path ++ (i + j) :: r ∧ spotAt? depth bs (j :: r) = some x
  | i, [] => by simp [rowTour, spotAt?]
  | i, b :: bs => by
    rw [rowTour, List.mem_append, b.mem_tour (path ++ [i]) depth,
      mem_rowTour path depth (i + 1) bs]
    constructor
    · rintro (⟨r, rfl, hx⟩ | ⟨j, r, rfl, hx⟩)
      · exact ⟨0, r, by simp, hx⟩
      · exact ⟨j + 1, r, by rw [Nat.add_right_comm, Nat.add_assoc], hx⟩
    · rintro ⟨j, r, rfl, hx⟩
      cases j with
      | zero => exact .inl ⟨r, by simp, hx⟩
      | succ j => exact .inr ⟨j, r, by rw [Nat.add_right_comm, Nat.add_assoc], hx⟩
end

/-! ### Their order -/

theorem lt_append_cons (path : List Nat) (i : Nat) (r : List Nat) : path < path ++ i :: r := by
  have h : path ++ [] < path ++ i :: r := List.append_left_lt (List.nil_lt_cons i r)
  rwa [List.append_nil] at h

theorem append_cons_lt {i k : Nat} (hik : i < k) (path r s : List Nat) :
    path ++ i :: r < path ++ k :: s :=
  List.append_left_lt (List.cons_lt_cons_iff.mpr (.inl hik))

theorem Block.path_of_mem_tour {path : List Nat} {depth : Nat} {b : Block} {q : List Nat}
    (h : q ∈ (b.tour path depth).map Prod.fst) : ∃ r, q = path ++ r := by
  obtain ⟨⟨q, x⟩, hx, rfl⟩ := List.mem_map.mp h
  obtain ⟨r, hr, -⟩ := (b.mem_tour path depth).mp hx
  exact ⟨r, hr⟩

theorem path_of_mem_itemTour {path : List Nat} {depth i : Nat} {ordered start : Attribute}
    {cs : List Block} {q : List Nat}
    (h : q ∈ (itemTour path depth ordered start i cs).map Prod.fst) :
    ∃ j r, i ≤ j ∧ q = path ++ j :: r := by
  obtain ⟨⟨q, x⟩, hx, rfl⟩ := List.mem_map.mp h
  obtain ⟨j, r, bs, hr, -⟩ := (mem_itemTour path depth ordered start i cs).mp hx
  exact ⟨i + j, r, Nat.le_add_right i j, hr⟩

theorem path_of_mem_rowTour {path : List Nat} {depth i : Nat} {bs : List Block} {q : List Nat}
    (h : q ∈ (rowTour path depth i bs).map Prod.fst) :
    ∃ j r, i ≤ j ∧ q = path ++ j :: r := by
  obtain ⟨⟨q, x⟩, hx, rfl⟩ := List.mem_map.mp h
  obtain ⟨j, r, hr, -⟩ := (mem_rowTour path depth i bs).mp hx
  exact ⟨i + j, r, Nat.le_add_right i j, hr⟩

mutual
theorem Block.sorted_tour (path : List Nat) (depth : Nat) : ∀ b : Block,
    ((b.tour path depth).map Prod.fst).Pairwise (· < ·) := fun b => by
  cases b with
  | list ordered start cs =>
    rw [Block.tour, List.map_cons, List.pairwise_cons]
    refine ⟨fun q hq => ?_, sorted_itemTour path depth ordered start 0 cs⟩
    obtain ⟨j, r, -, rfl⟩ := path_of_mem_itemTour hq
    exact lt_append_cons path j r
  | _ => exact List.pairwise_singleton _ _
theorem sorted_itemTour (path : List Nat) (depth : Nat) (ordered start : Attribute) :
    ∀ (i : Nat) (cs : List Block),
      ((itemTour path depth ordered start i cs).map Prod.fst).Pairwise (· < ·)
  | i, [] => List.Pairwise.nil
  | i, c :: rest => by
    have hrest := sorted_itemTour path depth ordered start (i + 1) rest
    cases c with
    | item bs =>
      rw [itemTour, List.map_append, List.map_cons, List.pairwise_append, List.pairwise_cons]
      refine ⟨⟨fun q hq => ?_, sorted_rowTour (path ++ [i]) (depth + 1) 0 bs⟩, hrest,
        fun p hp q hq => ?_⟩
      · obtain ⟨j, r, -, rfl⟩ := path_of_mem_rowTour hq
        exact lt_append_cons (path ++ [i]) j r
      · obtain ⟨j, r, hij, rfl⟩ := path_of_mem_itemTour hq
        rcases List.mem_cons.mp hp with rfl | hp
        · exact append_cons_lt hij path [] r
        · obtain ⟨k, s, -, rfl⟩ := path_of_mem_rowTour hp
          rw [List.append_assoc]
          exact append_cons_lt hij path (k :: s) r
    | _ => simpa only [itemTour] using hrest
/-- The walk comes to the places in the order of their paths. -/
theorem sorted_rowTour (path : List Nat) (depth : Nat) : ∀ (i : Nat) (bs : List Block),
    ((rowTour path depth i bs).map Prod.fst).Pairwise (· < ·)
  | i, [] => List.Pairwise.nil
  | i, b :: bs => by
    rw [rowTour, List.map_append, List.pairwise_append]
    refine ⟨b.sorted_tour (path ++ [i]) depth, sorted_rowTour path depth (i + 1) bs,
      fun p hp q hq => ?_⟩
    obtain ⟨r, rfl⟩ := Block.path_of_mem_tour hp
    obtain ⟨j, s, hij, rfl⟩ := path_of_mem_rowTour hq
    rw [List.append_assoc]
    exact append_cons_lt hij path r s
end

/-! ### The lists among them -/

/-- The list that stands at a place. -/
def Spot.list? (path : List Nat) : Spot → Option ListNode
  | .block depth (.list ordered start _) => some ⟨path, depth, ordered.isSet, start⟩
  | _ => none

/-- The lists among places. -/
def listsOf (xs : List (List Nat × Spot)) : List ListNode := xs.filterMap fun x => x.2.list? x.1

theorem Spot.list?_eq_some {path : List Nat} {x : Spot} {l : ListNode}
    (h : x.list? path = some l) : l.path = path ∧
      ∃ ordered cs, x = .block l.depth (.list ordered l.start cs) ∧ l.ordered = ordered.isSet := by
  unfold Spot.list? at h
  split at h
  · rename_i depth ordered start cs
    obtain rfl := Option.some.inj h
    exact ⟨rfl, ordered, cs, rfl, rfl⟩
  · exact absurd h (by simp)

theorem map_path_listsOf (xs : List (List Nat × Spot)) :
    ((listsOf xs).map ListNode.path).Sublist (xs.map Prod.fst) := by
  induction xs with
  | nil => exact .slnil
  | cons x xs ih =>
    rw [listsOf, List.filterMap_cons]
    cases hx : x.2.list? x.1 with
    | none => exact ih.cons _
    | some l =>
      have hpath : x.1 = l.path := (Spot.list?_eq_some hx).1.symm
      rw [List.map_cons, List.map_cons, hpath]
      exact ih.cons_cons l.path

mutual
theorem Block.listsOf_tour (path : List Nat) (depth : Nat) : ∀ b : Block,
    listsOf (b.tour path depth) = b.listNodes path depth := fun b => by
  cases b with
  | list ordered start cs =>
    have hitems := listsOf_itemTour path depth ordered start 0 cs
    rw [Block.tour, Block.listNodes, ← hitems]
    rfl
  | _ => rfl
theorem listsOf_itemTour (path : List Nat) (depth : Nat) (ordered start : Attribute) :
    ∀ (i : Nat) (cs : List Block),
      listsOf (itemTour path depth ordered start i cs) = itemNodes path (depth + 1) i cs
  | i, [] => rfl
  | i, c :: rest => by
    have hrest := listsOf_itemTour path depth ordered start (i + 1) rest
    cases c with
    | item bs =>
      rw [itemTour, itemNodes, ← hrest, ← listsOf_rowTour (path ++ [i]) (depth + 1) 0 bs, listsOf,
        List.filterMap_append]
      rfl
    | _ => simpa only [itemTour, itemNodes] using hrest
/-- The lists among the places of a row of blocks are its lists. -/
theorem listsOf_rowTour (path : List Nat) (depth : Nat) : ∀ (i : Nat) (bs : List Block),
    listsOf (rowTour path depth i bs) = nestedNodes path depth i bs
  | i, [] => rfl
  | i, b :: bs => by
    rw [rowTour, nestedNodes, ← b.listsOf_tour, ← listsOf_rowTour path depth (i + 1) bs]
    exact List.filterMap_append
end

/-! ### The items among them -/

/-- The list of an item that stands at a place. -/
def Spot.itemList? (path : List Nat) : Spot → Option ListNode
  | .item depth ordered start _ => some ⟨path.dropLast, depth, ordered.isSet, start⟩
  | _ => none

/-- For each item among places the list that it belongs to. -/
def itemsOf (xs : List (List Nat × Spot)) : List ListNode :=
  xs.filterMap fun x => x.2.itemList? x.1

mutual
theorem Block.itemsOf_tour (path : List Nat) (depth : Nat) : ∀ b : Block,
    itemsOf (b.tour path depth) = b.listItems path depth := fun b => by
  cases b with
  | list ordered start cs =>
    have hitems := itemsOf_itemTour path depth ordered start 0 cs
    rw [Block.tour, Block.listItems, ← hitems]
    rfl
  | _ => rfl
theorem itemsOf_itemTour (path : List Nat) (depth : Nat) (ordered start : Attribute) :
    ∀ (i : Nat) (cs : List Block), itemsOf (itemTour path depth ordered start i cs) =
      itemItems ⟨path, depth, ordered.isSet, start⟩ i cs
  | i, [] => rfl
  | i, c :: rest => by
    have hrest := itemsOf_itemTour path depth ordered start (i + 1) rest
    cases c with
    | item bs =>
      rw [itemTour, itemItems, ← hrest, ← itemsOf_rowTour (path ++ [i]) (depth + 1) 0 bs, itemsOf,
        List.filterMap_append, List.filterMap_cons, Spot.itemList?, List.dropLast_concat]
      rfl
    | _ => simpa only [itemTour, itemItems] using hrest
/-- The items among the places of a row of blocks are its items. -/
theorem itemsOf_rowTour (path : List Nat) (depth : Nat) : ∀ (i : Nat) (bs : List Block),
    itemsOf (rowTour path depth i bs) = nestedItems path depth i bs
  | i, [] => rfl
  | i, b :: bs => by
    rw [rowTour, nestedItems, ← b.itemsOf_tour, ← itemsOf_rowTour path depth (i + 1) bs]
    exact List.filterMap_append
end

end Places

/-! ### The places of a whole document -/

section Document

variable {bs : List Block}

/-- The walk over a document comes to what stands at each path. -/
theorem mem_tour {path : List Nat} {x : Spot} :
    (path, x) ∈ rowTour [] 0 0 bs ↔ spotAt? 0 bs path = some x := by
  rw [mem_rowTour]
  constructor
  · rintro ⟨j, r, rfl, hx⟩
    rwa [Nat.zero_add]
  · intro h
    cases path with
    | nil => exact absurd h (by simp [spotAt?])
    | cons j r => exact ⟨j, r, by rw [Nat.zero_add]; rfl, h⟩

/-- The lists that have an item are found by their paths. -/
theorem mem_nestedItems {l : ListNode} :
    l ∈ nestedItems [] 0 0 bs ↔ ∃ ordered cs ds,
      spotAt? 0 bs l.path = some (.block l.depth (.list ordered l.start cs)) ∧
        l.ordered = ordered.isSet ∧ .item ds ∈ cs := by
  rw [← itemsOf_rowTour, itemsOf, List.mem_filterMap]
  constructor
  · rintro ⟨⟨path, x⟩, hx, hl⟩
    cases x with
    | block depth b => exact absurd hl (by simp [Spot.itemList?])
    | item depth ordered start ds =>
      obtain rfl := Option.some.inj hl
      obtain ⟨k, cs, -, hlist, hk⟩ := list_of_item (mem_tour.mp hx)
      exact ⟨ordered, cs, ds, hlist, rfl, List.mem_of_getElem? hk⟩
  · rintro ⟨ordered, cs, ds, hlist, hordered, hds⟩
    obtain ⟨k, hk⟩ := List.mem_iff_getElem?.mp hds
    refine ⟨_, mem_tour.mpr (item_of_list hlist hk), ?_⟩
    rw [Spot.itemList?, List.dropLast_concat, ← hordered]

/-- The paths of the lists of a document, in the order in which they open. -/
def listPaths (bs : List Block) : List (List Nat) := (nestedNodes [] 0 0 bs).map ListNode.path

/-- The paths of all places of a document, in order. -/
def allPlaces (bs : List Block) : List (List Nat) := (rowTour [] 0 0 bs).map Prod.fst

theorem mem_allPlaces {path : List Nat} :
    path ∈ allPlaces bs ↔ (spotAt? 0 bs path).isSome := by
  rw [allPlaces, List.mem_map, Option.isSome_iff_exists]
  constructor
  · rintro ⟨⟨path, x⟩, hx, rfl⟩
    exact ⟨x, mem_tour.mp hx⟩
  · rintro ⟨x, hx⟩
    exact ⟨(path, x), mem_tour.mpr hx, rfl⟩

theorem mem_listPaths {path : List Nat} :
    path ∈ listPaths bs ↔
      ∃ depth ordered start cs, spotAt? 0 bs path = some (.block depth (.list ordered start cs)) := by
  rw [listPaths, ← listsOf_rowTour, List.mem_map]
  constructor
  · rintro ⟨l, hl, rfl⟩
    obtain ⟨⟨path, x⟩, hx, hlist⟩ := List.mem_filterMap.mp hl
    obtain ⟨rfl, ordered, cs, rfl, -⟩ := Spot.list?_eq_some hlist
    exact ⟨l.depth, ordered, l.start, cs, mem_tour.mp hx⟩
  · rintro ⟨depth, ordered, start, cs, h⟩
    exact ⟨⟨path, depth, ordered.isSet, start⟩,
      List.mem_filterMap.mpr ⟨_, mem_tour.mpr h, rfl⟩, rfl⟩

theorem sorted_listPaths (bs : List Block) : (listPaths bs).Pairwise (· < ·) := by
  rw [listPaths, ← listsOf_rowTour]
  exact (sorted_rowTour [] 0 0 bs).sublist (map_path_listsOf _)

theorem nodup_listPaths (bs : List Block) : (listPaths bs).Nodup := nodup_nestedNodes [] 0 0 bs

/-- One of the lists on the way to a path counts for itself. -/
theorem countP_of_mem {ls : List (List Nat)} (hls : ls.Nodup) {p : List Nat} (hp : p ∈ ls) :
    ls.countP (fun l => l <+: p) = ls.countP (fun l => l <+: p ∧ l ≠ p) + 1 := by
  have hpos : 0 < ls.countP fun l => l <+: p :=
    List.countP_pos_iff.mpr ⟨p, hp, decide_eq_true (List.prefix_refl p)⟩
  have herase : (ls.erase p).countP (fun l => l <+: p) =
      ls.countP fun l => l <+: p ∧ l ≠ p := by
    rw [hls.erase_eq_filter, List.countP_filter]
    refine List.countP_congr fun l _ => ?_
    simp
  rw [← herase, List.countP_erase, if_pos ⟨hp, by simp⟩]
  omega

/-- A block is as deep as lists stand around it. -/
theorem countP_listPaths {depth : Nat} {b : Block} {path : List Nat}
    (h : spotAt? 0 bs path = some (.block depth b)) :
    (listPaths bs).countP (fun l => l <+: path ∧ l ≠ path) = depth := by
  induction depth generalizing path b with
  | zero =>
    rcases around_of_block h with ⟨-, i, rfl⟩ | ⟨d, p, k, i, hd, -⟩
    · refine List.countP_eq_zero.mpr fun l hl hdec => ?_
      obtain ⟨hbefore, hne⟩ := of_decide_eq_true hdec
      obtain ⟨_, _, _, _, hlist⟩ := mem_listPaths.mp hl
      rw [← List.nil_append [i], List.prefix_concat_iff, List.nil_append] at hbefore
      rcases hbefore with rfl | hnil
      · exact hne rfl
      · rw [List.prefix_nil.mp hnil] at hlist
        exact absurd hlist (by simp [spotAt?])
    · exact absurd hd (by omega)
  | succ depth ih =>
    rcases around_of_block h with ⟨hd, -⟩ | ⟨d, p, k, i, hd, rfl, ⟨o, s, cs, hp⟩, o', s', ds, hpk⟩
    · exact absurd hd (by omega)
    · obtain rfl : depth = d := by omega
      rw [← ih hp, ← countP_of_mem (nodup_listPaths bs) (mem_listPaths.mpr ⟨_, _, _, _, hp⟩)]
      refine List.countP_congr fun l hl => ?_
      obtain ⟨_, _, _, _, hlist⟩ := mem_listPaths.mp hl
      -- neither the block nor the item that it stands in is a list around it
      have hitem : l ≠ p ++ [k] := by
        rintro rfl
        rw [hpk] at hlist
        exact absurd hlist (by simp)
      rw [decide_eq_true_eq, decide_eq_true_eq, List.prefix_concat_iff, List.prefix_concat_iff]
      constructor
      · rintro ⟨rfl | rfl | hl, hne⟩
        · exact absurd rfl hne
        · exact absurd rfl hitem
        · exact hl
      · intro hl
        refine ⟨.inr (.inr hl), ?_⟩
        rintro rfl
        have hlength := hl.length_le
        rw [List.length_append, List.length_append, List.length_singleton] at hlength
        omega

end Document

end Formulary
