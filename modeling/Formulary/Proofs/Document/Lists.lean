/-
# The lists of a document

A list stands at a path: the places of the blocks on the way to it. In the
outline a list goes by a number instead, and this number is the place of the
list among all lists, taken in the order in which they open
(`inStep_entriesFrom`). No two lists have one path, so the number stands for the
list, also where other lists come in between (`list_eq_iff`).

Key definitions: `ListNode`, `nestedNodes`, `nestedItems`, `Marks`, `InStep`.
Key theorems: `nodup_nestedNodes`, `inStep_entriesFrom`, `list_eq_iff`.
-/
import Formulary.Document.Outline
import Mathlib.Data.List.Forall2
import Mathlib.Data.List.Nodup

namespace Formulary

/-! ### Lists and their items -/

/-- A list: the path of places that leads to it, the number of lists around it,
whether it counts, and what it says about its start. -/
structure ListNode where
  path : List Nat
  depth : Nat
  ordered : Bool
  start : Attribute
deriving DecidableEq, Repr, Inhabited

/-- Whether the items of two lists are numbered alike: all bullets are, and the items
of one counted list. -/
def ListNode.sharesNum (l l' : ListNode) : Prop :=
  (l.ordered = false ∧ l'.ordered = false) ∨
    (l.ordered = true ∧ l'.ordered = true ∧ l.path = l'.path)

mutual
/-- The lists that a block at a path opens, itself the first. -/
def Block.listNodes (path : List Nat) (depth : Nat) : Block → List ListNode
  | .list ordered start bs =>
    ⟨path, depth, ordered.isSet, start⟩ :: itemNodes path (depth + 1) 0 bs
  | _ => []
/-- The lists in the items of a list, from the `i`-th on. -/
def itemNodes (path : List Nat) (depth i : Nat) : List Block → List ListNode
  | [] => []
  | .item bs :: rest =>
    nestedNodes (path ++ [i]) depth 0 bs ++ itemNodes path depth (i + 1) rest
  | _ :: rest => itemNodes path depth (i + 1) rest
/-- The lists in a row of blocks, from the `i`-th on. -/
def nestedNodes (path : List Nat) (depth i : Nat) : List Block → List ListNode
  | [] => []
  | b :: bs => b.listNodes (path ++ [i]) depth ++ nestedNodes path depth (i + 1) bs
end

mutual
/-- For each list item in a block, in the order of the items, the list that it
belongs to. -/
def Block.listItems (path : List Nat) (depth : Nat) : Block → List ListNode
  | .list ordered start bs => itemItems ⟨path, depth, ordered.isSet, start⟩ 0 bs
  | _ => []
/-- The items of a list from the `i`-th on, each followed by those in it. -/
def itemItems (l : ListNode) (i : Nat) : List Block → List ListNode
  | [] => []
  | .item bs :: rest =>
    l :: nestedItems (l.path ++ [i]) (l.depth + 1) 0 bs ++ itemItems l (i + 1) rest
  | _ :: rest => itemItems l (i + 1) rest
/-- The items in a row of blocks, from the `i`-th on. -/
def nestedItems (path : List Nat) (depth i : Nat) : List Block → List ListNode
  | [] => []
  | b :: bs => b.listItems (path ++ [i]) depth ++ nestedItems path depth (i + 1) bs
end

/-! ### Paths -/

mutual
theorem Block.path_of_mem_listNodes {path : List Nat} {depth : Nat} {l : ListNode} :
    ∀ {b : Block}, l ∈ b.listNodes path depth → path <+: l.path := fun {b} h => by
  cases b with
  | list ordered start bs =>
    rw [Block.listNodes] at h
    rcases List.mem_cons.mp h with rfl | h
    · exact List.prefix_refl path
    · obtain ⟨k, r, -, hl⟩ := path_of_mem_itemNodes h
      exact ⟨k :: r, hl.symm⟩
  | _ => simp [Block.listNodes] at h
theorem path_of_mem_itemNodes {path : List Nat} {depth : Nat} {l : ListNode} :
    ∀ {i : Nat} {bs : List Block}, l ∈ itemNodes path depth i bs →
      ∃ k r, i ≤ k ∧ l.path = path ++ k :: r
  | i, [], h => by simp [itemNodes] at h
  | i, b :: rest, h => by
    have hrest : l ∈ itemNodes path depth (i + 1) rest →
        ∃ k r, i ≤ k ∧ l.path = path ++ k :: r := by
      intro h
      obtain ⟨k, r, hk, hl⟩ := path_of_mem_itemNodes h
      exact ⟨k, r, by omega, hl⟩
    cases b with
    | item bs =>
      rw [itemNodes] at h
      rcases List.mem_append.mp h with h | h
      · obtain ⟨k, r, -, hl⟩ := path_of_mem_nestedNodes h
        exact ⟨i, k :: r, Nat.le_refl i, by simpa using hl⟩
      · exact hrest h
    | _ => exact hrest (by simpa only [itemNodes] using h)
theorem path_of_mem_nestedNodes {path : List Nat} {depth : Nat} {l : ListNode} :
    ∀ {i : Nat} {bs : List Block}, l ∈ nestedNodes path depth i bs →
      ∃ k r, i ≤ k ∧ l.path = path ++ k :: r
  | i, [], h => by simp [nestedNodes] at h
  | i, b :: bs, h => by
    rw [nestedNodes] at h
    rcases List.mem_append.mp h with h | h
    · obtain ⟨r, hr⟩ := Block.path_of_mem_listNodes h
      exact ⟨i, r, Nat.le_refl i, by simpa using hr.symm⟩
    · obtain ⟨k, r, hk, hl⟩ := path_of_mem_nestedNodes h
      exact ⟨k, r, by omega, hl⟩
end

theorem map_path_disjoint {path : List Nat} {i : Nat} {xs ys : List ListNode}
    (hxs : ∀ l ∈ xs, ∃ r, l.path = path ++ i :: r)
    (hys : ∀ l ∈ ys, ∃ k r, i + 1 ≤ k ∧ l.path = path ++ k :: r) :
    ∀ x ∈ xs.map ListNode.path, ∀ y ∈ ys.map ListNode.path, x ≠ y := by
  intro x hx y hy hxy
  obtain ⟨l, hl, rfl⟩ := List.mem_map.mp hx
  obtain ⟨l', hl', rfl⟩ := List.mem_map.mp hy
  obtain ⟨r, hr⟩ := hxs l hl
  obtain ⟨k, r', hk, hr'⟩ := hys l' hl'
  rw [hr, hr'] at hxy
  have := (List.cons.inj (List.append_cancel_left hxy)).1
  omega

mutual
theorem Block.nodup_listNodes (path : List Nat) (depth : Nat) : ∀ b : Block,
    ((b.listNodes path depth).map ListNode.path).Nodup := fun b => by
  cases b with
  | list ordered start bs =>
    rw [Block.listNodes, List.map_cons]
    refine List.nodup_cons.mpr ⟨fun h => ?_, nodup_itemNodes path (depth + 1) 0 bs⟩
    obtain ⟨l, hl, hpath⟩ := List.mem_map.mp h
    obtain ⟨k, r, -, hr⟩ := path_of_mem_itemNodes hl
    have := congrArg List.length (hpath.symm.trans hr)
    simp at this
  | _ => simp [Block.listNodes]
theorem nodup_itemNodes (path : List Nat) (depth : Nat) : ∀ (i : Nat) (bs : List Block),
    ((itemNodes path depth i bs).map ListNode.path).Nodup
  | i, [] => by simp [itemNodes]
  | i, b :: rest => by
    have hrest := nodup_itemNodes path depth (i + 1) rest
    cases b with
    | item bs =>
      rw [itemNodes, List.map_append]
      refine List.nodup_append.mpr ⟨nodup_nestedNodes (path ++ [i]) depth 0 bs, hrest, ?_⟩
      refine map_path_disjoint (fun l hl => ?_) fun l hl => path_of_mem_itemNodes hl
      obtain ⟨k, r, -, hr⟩ := path_of_mem_nestedNodes hl
      exact ⟨k :: r, by simpa using hr⟩
    | _ => simpa only [itemNodes] using hrest
theorem nodup_nestedNodes (path : List Nat) (depth : Nat) : ∀ (i : Nat) (bs : List Block),
    ((nestedNodes path depth i bs).map ListNode.path).Nodup
  | i, [] => by simp [nestedNodes]
  | i, b :: bs => by
    rw [nestedNodes, List.map_append]
    refine List.nodup_append.mpr
      ⟨b.nodup_listNodes (path ++ [i]) depth, nodup_nestedNodes path depth (i + 1) bs, ?_⟩
    refine map_path_disjoint (fun l hl => ?_) fun l hl => path_of_mem_nestedNodes hl
    obtain ⟨r, hr⟩ := Block.path_of_mem_listNodes hl
    exact ⟨r, by simpa using hr.symm⟩
end

/-! ### Lists by their numbers -/

mutual
theorem Block.length_listNodes (path : List Nat) (depth : Nat) : ∀ b : Block,
    (b.listNodes path depth).length = b.lists := fun b => by
  cases b with
  | list ordered start bs =>
    rw [Block.listNodes, Block.lists, List.length_cons, length_itemNodes, Nat.add_comm]
  | _ => simp [Block.listNodes, Block.lists]
theorem length_itemNodes (path : List Nat) (depth : Nat) : ∀ (i : Nat) (bs : List Block),
    (itemNodes path depth i bs).length = itemLists bs
  | i, [] => by simp [itemNodes, itemLists]
  | i, b :: rest => by
    have hrest := length_itemNodes path depth (i + 1) rest
    cases b with
    | item bs => rw [itemNodes, itemLists, List.length_append, length_nestedNodes, hrest]
    | _ => simpa only [itemNodes, itemLists] using hrest
theorem length_nestedNodes (path : List Nat) (depth : Nat) : ∀ (i : Nat) (bs : List Block),
    (nestedNodes path depth i bs).length = nestedLists bs
  | i, [] => by simp [nestedNodes, nestedLists]
  | i, b :: bs => by
    rw [nestedNodes, nestedLists, List.length_append, b.length_listNodes, length_nestedNodes]
end

/-- The marker of an entry that is a list item. -/
def Entry.marker? : Entry → Option Marker
  | .item m _ => some m
  | _ => none

/-- Whether an entry is a fault. -/
def Entry.isFault : Entry → Bool
  | .fault _ => true
  | _ => false

/-- The markers of the list items among entries. -/
def markers (es : List Entry) : List Marker := es.filterMap Entry.marker?

theorem markers_append (es fs : List Entry) : markers (es ++ fs) = markers es ++ markers fs :=
  List.filterMap_append

theorem markers_item (m : Marker) (ps : List Phrase) (es : List Entry) :
    markers (.item m ps :: es) = m :: markers es := rfl

/-- The marker `m` stands for the list `l`: it says what the list says, and its
number is the place of the list among the `lists`, after the `used` ones. -/
structure Marks (used : Nat) (lists : List ListNode) (m : Marker) (l : ListNode) : Prop where
  ordered : m.ordered = l.ordered
  level : m.level = l.depth
  start : listStart l.start = .ok m.start
  place : ∃ i : Nat, m.list = used + i + 1 ∧ lists[i]? = some l

theorem Marks.append_right {used : Nat} {xs : List ListNode} {m : Marker} {l : ListNode}
    (h : Marks used xs m l) (ys : List ListNode) : Marks used (xs ++ ys) m l := by
  obtain ⟨i, hi, hl⟩ := h.place
  have hlt : i < xs.length := (List.getElem?_eq_some_iff.mp hl).1
  exact ⟨h.ordered, h.level, h.start, i, hi, by rw [List.getElem?_append_left hlt, hl]⟩

theorem Marks.append_left {used : Nat} {ys : List ListNode} {m : Marker} {l : ListNode}
    (xs : List ListNode) (h : Marks (used + xs.length) ys m l) : Marks used (xs ++ ys) m l := by
  obtain ⟨i, hi, hl⟩ := h.place
  refine ⟨h.ordered, h.level, h.start, xs.length + i, by omega, ?_⟩
  rw [List.getElem?_append_right (by omega), Nat.add_sub_cancel_left, hl]

/-- Entries without faults and the lists of their items, in step. -/
def InStep (used : Nat) (lists : List ListNode) (es : List Entry) (ls : List ListNode) : Prop :=
  (∀ e ∈ es, e.isFault = false) → List.Forall₂ (Marks used lists) (markers es) ls

theorem InStep.append {used : Nat} {xs ys : List ListNode} {es fs : List Entry}
    {ls ks : List ListNode} (hes : InStep used xs es ls)
    (hfs : InStep (used + xs.length) ys fs ks) : InStep used (xs ++ ys) (es ++ fs) (ls ++ ks) := by
  intro hfault
  rw [markers_append]
  refine List.rel_append ?_ ?_
  · exact (hes fun e he => hfault e (List.mem_append_left fs he)).imp fun _ _ h => h.append_right ys
  · exact (hfs fun e he => hfault e (List.mem_append_right es he)).imp fun _ _ h => h.append_left xs

mutual
theorem Block.inStep_listEntries (path : List Nat) (depth used : Nat) : ∀ b : Block,
    InStep used (b.listNodes path depth) (b.listEntries depth used) (b.listItems path depth) :=
  fun b hfault => by
  cases b with
  | list ordered start bs =>
    rw [Block.listEntries] at hfault ⊢
    rw [Block.listNodes, Block.listItems]
    cases hstart : listStart start with
    | error e =>
      rw [hstart] at hfault
      exact absurd (hfault _ (List.mem_singleton.mpr rfl)) (by simp [Entry.isFault])
    | ok n =>
      rw [hstart] at hfault
      refine (forall₂_itemEntries (l := ⟨path, depth, ordered.isSet, start⟩) rfl 0 bs hfault).imp ?_
      rintro m k (⟨rfl, rfl⟩ | h)
      · exact ⟨rfl, rfl, hstart, 0, by simp, rfl⟩
      · exact Marks.append_left [_] h
  | _ => simp [Block.listEntries, Block.listItems, markers]
theorem forall₂_itemEntries {marker : Marker} {l : ListNode} (hlevel : marker.level = l.depth)
    {used : Nat} : ∀ (i : Nat) (bs : List Block),
    (∀ e ∈ itemEntries marker used bs, e.isFault = false) →
    List.Forall₂
      (fun m k => (m = marker ∧ k = l) ∨ Marks used (itemNodes l.path (l.depth + 1) i bs) m k)
      (markers (itemEntries marker used bs)) (itemItems l i bs)
  | i, [], _ => by simp [itemEntries, itemItems, markers]
  | i, b :: rest, hfault => by
    cases b with
    | item bs =>
      rw [itemEntries] at hfault ⊢
      rw [itemNodes, itemItems]
      have hdepth : marker.level + 1 = ((l.depth + 1 : Nat) : Int) := by
        rw [hlevel]
        rfl
      rw [hdepth] at hfault ⊢
      have hnested := inStep_nestedEntries (l.path ++ [i]) (l.depth + 1) used 0 bs fun e he =>
        hfault e (List.mem_cons_of_mem _ (List.mem_append_left _ he))
      have hlater := forall₂_itemEntries hlevel (i + 1) rest fun e he =>
        hfault e (List.mem_cons_of_mem _ (List.mem_append_right _ he))
      rw [List.cons_append, List.cons_append, markers_item, markers_append]
      refine List.Forall₂.cons (.inl ⟨rfl, rfl⟩) ?_
      refine List.rel_append (hnested.imp fun _ _ h => .inr (h.append_right _)) ?_
      refine hlater.imp fun m k h => h.imp_right fun h => ?_
      rw [← length_nestedNodes (l.path ++ [i]) (l.depth + 1) 0 bs] at h
      exact Marks.append_left _ h
    | _ =>
      simp only [itemEntries, itemNodes, itemItems] at hfault ⊢
      exact forall₂_itemEntries hlevel (i + 1) rest hfault
theorem inStep_nestedEntries (path : List Nat) (depth used : Nat) : ∀ (i : Nat) (bs : List Block),
    InStep used (nestedNodes path depth i bs) (nestedEntries depth used bs)
      (nestedItems path depth i bs)
  | i, [] => by simp [InStep, nestedEntries, nestedItems, markers]
  | i, b :: bs => by
    have hlater : ∀ used, InStep used (nestedNodes path depth (i + 1) bs)
        (nestedEntries depth used bs) (nestedItems path depth (i + 1) bs) := fun used =>
      inStep_nestedEntries path depth used (i + 1) bs
    have hhead := b.inStep_listEntries (path ++ [i]) depth used
    have hall := hhead.append (hlater _)
    rw [Block.length_listNodes] at hall
    rw [nestedNodes, nestedItems]
    cases b with
    | code raw =>
      intro hfault
      rw [nestedEntries] at hfault ⊢
      exact hlater used fun e he => hfault e (List.mem_cons_of_mem _ he)
    | _ =>
      rw [nestedEntries]
      · exact hall
      · simp
end

/-- The entries of a row of blocks and the lists of their items are in step. -/
theorem inStep_entriesFrom (used : Nat) : ∀ (i : Nat) (bs : List Block),
    InStep used (nestedNodes [] 0 i bs) (entriesFrom used bs) (nestedItems [] 0 i bs)
  | i, [] => by simp [InStep, entriesFrom, nestedItems, markers]
  | i, b :: bs => by
    rw [nestedNodes, nestedItems, entriesFrom]
    have hlater := inStep_entriesFrom (used + b.lists) (i + 1) bs
    rw [← b.length_listNodes ([] ++ [i]) 0] at hlater ⊢
    refine InStep.append ?_ hlater
    have hlist : InStep used (b.listNodes ([] ++ [i]) 0) (b.listEntries 0 used)
        (b.listItems ([] ++ [i]) 0) := b.inStep_listEntries ([] ++ [i]) 0 used
    cases b with
    | heading level p =>
      rw [Block.entries]
      split <;> simp [InStep, markers, Entry.marker?, Entry.isFault, Block.listItems]
    | paragraph p => simp [InStep, Block.entries, Block.listItems, markers, Entry.marker?]
    | rule => simp [InStep, Block.entries, Block.listItems, markers, Entry.marker?]
    | code raw => simp [InStep, Block.entries, Block.listItems, markers, Entry.marker?]
    | _ => simpa only [Block.entries] using hlist

/-- Two markers of a document with one number stand for one list, which has one path. -/
theorem list_eq_iff {used : Nat} {i : Nat} {bs : List Block} {m m' : Marker} {l l' : ListNode}
    (h : Marks used (nestedNodes [] 0 i bs) m l) (h' : Marks used (nestedNodes [] 0 i bs) m' l') :
    (m.list = m'.list ↔ l.path = l'.path) ∧ (m.list = m'.list → m = m') := by
  obtain ⟨j, hj, hl⟩ := h.place
  obtain ⟨k, hk, hl'⟩ := h'.place
  have hpath : ∀ {n : Nat} {l : ListNode}, (nestedNodes [] 0 i bs)[n]? = some l →
      ((nestedNodes [] 0 i bs).map ListNode.path)[n]? = some l.path := fun hn => by
    rw [List.getElem?_map, hn]
    rfl
  refine ⟨⟨fun heq => ?_, fun heq => ?_⟩, fun heq => ?_⟩
  · obtain rfl : j = k := by omega
    rw [Option.some.inj (hl.symm.trans hl')]
  · have hlt : j < ((nestedNodes [] 0 i bs).map ListNode.path).length :=
      (List.getElem?_eq_some_iff.mp (hpath hl)).1
    have hplace : ((nestedNodes [] 0 i bs).map ListNode.path)[j]? =
        ((nestedNodes [] 0 i bs).map ListNode.path)[k]? := by rw [hpath hl, hpath hl', heq]
    have := (List.getElem?_inj hlt (nodup_nestedNodes [] 0 i bs)).mp hplace
    omega
  · obtain rfl : j = k := by omega
    obtain rfl := Option.some.inj (hl.symm.trans hl')
    have hordered := h.ordered.trans h'.ordered.symm
    have hlevel := h.level.trans h'.level.symm
    have hstart := Except.ok.inj (h.start.symm.trans h'.start)
    cases m
    cases m'
    simp only at heq hordered hlevel hstart
    rw [heq, hordered, hlevel, hstart]

end Formulary
