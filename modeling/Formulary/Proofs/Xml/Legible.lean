/-
# Documents that can be written and read again

A tree is legible if each part of it can be written and read back: names have no colons,
values and text hold legal characters, comments and instructions do not hold what would end
them, declarations keep the rules of namespaces, each prefix stands for the namespace of the
name that it is written with, and the limits of the reader are kept. What is read back is
tidy: text that is not empty, with no other text beside it.

Key definitions: `Xml.Node.tidy`, `Xml.Name.standsIn`, `Xml.Tag.IsOrderly`, `Xml.Node.isOrderly`,
`Xml.Node.Legible`, `Xml.Element.IsLegible`.
Key theorems: `Xml.Node.bare_tidy`, `Xml.Node.legible_tidy`, `Xml.Node.ids_tidy`.
-/
import Formulary.Proofs.Text.Search
import Formulary.Proofs.Xml.Bare
import Formulary.Xml.Printer
import Mathlib.Data.List.Nodup

namespace Formulary
namespace Xml

/-! ### Tidy trees -/

/-- Nodes with text in front of them, which joins text that is there. -/
def withText (s : Text) (ns : List Node) : List Node :=
  if s = [] then ns
  else
    match ns with
    | .text t :: ms => .text (s ++ t) :: ms
    | ns => .text s :: ns

/-- Tidy nodes with another node in front. -/
def Node.before (n : Node) (ns : List Node) : List Node :=
  match n with
  | .text s => withText s ns
  | n => n :: ns

mutual
/-- The node with all nodes in it tidy. -/
def Node.tidy : Node → Node
  | .element t ns => .element t (tidyAll ns)
  | n => n
/-- The nodes without empty text, and with text that stands side by side as one. -/
def tidyAll : List Node → List Node
  | [] => []
  | n :: ns => n.tidy.before (tidyAll ns)
end

/-- The element with all nodes in it tidy. -/
def Element.tidy (e : Element) : Element := ⟨e.tag, tidyAll e.children⟩

@[simp] theorem withText_nil (ns : List Node) : withText [] ns = ns := rfl

theorem withText_withText (s t : Text) (ns : List Node) :
    withText s (withText t ns) = withText (s ++ t) ns := by
  unfold withText
  by_cases hs : s = []
  · rw [if_pos hs, hs, List.nil_append]
  · rw [if_neg hs, if_neg (List.append_ne_nil_of_left_ne_nil hs t)]
    by_cases ht : t = []
    · rw [if_pos ht, ht, List.append_nil]
    · rw [if_neg ht]
      cases ns with
      | nil => rfl
      | cons n ns => cases n <;> simp

/-- Text in front of what does not start with text is a node of its own. -/
theorem withText_of_head {s : Text} (hs : s ≠ []) {ns : List Node}
    (hns : ∀ n ∈ ns.head?, n.isText = false) : withText s ns = .text s :: ns := by
  unfold withText
  rw [if_neg hs]
  cases ns with
  | nil => rfl
  | cons n ns =>
    cases n with
    | text t => exact absurd (hns _ rfl) (by simp [Node.isText])
    | _ => rfl

theorem Node.before_of_not_isText {n : Node} (hn : n.isText = false) (ns : List Node) :
    n.before ns = n :: ns := by
  cases n with
  | text s => exact absurd hn (by simp [Node.isText])
  | _ => rfl

@[simp] theorem Node.isText_tidy (n : Node) : n.tidy.isText = n.isText := by
  cases n <;> rfl

theorem Node.tidy_of_leaf {n : Node} (hn : ∀ t ns, n ≠ .element t ns) : n.tidy = n := by
  cases n with
  | element t ns => exact absurd rfl (hn t ns)
  | _ => rfl

theorem bareAll_withText (s : Text) (ns : List Node) :
    bareAll (withText s ns) = withText s (bareAll ns) := by
  unfold withText
  split
  · rfl
  · cases ns with
    | nil => rfl
    | cons n ns => cases n <;> rfl

theorem bareAll_before (n : Node) (ns : List Node) :
    bareAll (n.before ns) = n.bare.before (bareAll ns) := by
  cases n with
  | text s => exact bareAll_withText s ns
  | _ => rfl

theorem bareAll_tidyAll_of_forall {ns : List Node} (h : ∀ n ∈ ns, n.tidy.bare = n.bare.tidy) :
    bareAll (tidyAll ns) = tidyAll (bareAll ns) := by
  induction ns with
  | nil => rfl
  | cons n ns ih =>
    obtain ⟨hn, hns⟩ := List.forall_mem_cons.mp h
    rw [tidyAll, bareAll_before, hn, ih hns, bareAll, tidyAll]

/-- Tidying does not look at names. -/
theorem Node.bare_tidy (n : Node) : n.tidy.bare = n.bare.tidy := by
  induction n using Node.ind with
  | leaf n hn =>
    rw [Node.tidy_of_leaf hn, Node.bare_of_leaf hn, Node.tidy_of_leaf hn]
  | element t ns ih => rw [Node.tidy, Node.bare, Node.bare, Node.tidy, bareAll_tidyAll_of_forall ih]

theorem bareAll_tidyAll (ns : List Node) : bareAll (tidyAll ns) = tidyAll (bareAll ns) :=
  bareAll_tidyAll_of_forall fun n _ => n.bare_tidy

theorem Element.bare_tidy (e : Element) : e.tidy.bare = e.bare.tidy := by
  rw [Element.bare, Element.tidy, bareAll_tidyAll]
  rfl

/-! ### What may be written -/

/-- Whether a pattern that follows a text is found right after it. -/
def standsBefore (pat s : Text) : Bool := Text.cut? pat (s ++ pat) == some (s, [])

/-- Text that may stand in a comment. -/
def isCommentText (s : Text) : Bool :=
  isLegal s && s.all (· != '\r') && standsBefore "--".toList s

/-- Text that may follow the target of an instruction. -/
def isDataText (s : Text) : Bool :=
  isLegal s && s.all (· != '\r') && !s.head?.any isSpace && standsBefore "?>".toList s

/-- The target of an instruction: a name without colons, and not that of the format itself. -/
def isTarget (s : Text) : Bool :=
  isName s && isLegal s && s.all (· != ':') && s.map Char.toLower != "xml".toList

/-- The text without white space at its ends. -/
def trimmed (s : Text) : Text := ((s.dropWhile isSpace).reverse.dropWhile isSpace).reverse

/-- An attribute that breaks no rule, wherever it stands. -/
structure Attr.IsOrderly (a : Attr) : Prop where
  simple : isSimpleName a.name.loc = true
  legal : isLegal a.value = true
  declaresNot : a.name.uri = [] → a.name.loc ≠ "xmlns".toList
  id : a.name.is xmlUri "id" = true → isSimpleName (trimmed a.value) = true

instance (a : Attr) : Decidable a.IsOrderly :=
  decidable_of_iff (isSimpleName a.name.loc = true ∧ isLegal a.value = true ∧
      (a.name.uri = [] → a.name.loc ≠ "xmlns".toList) ∧
      (a.name.is xmlUri "id" = true → isSimpleName (trimmed a.value) = true))
    ⟨fun ⟨h₁, h₂, h₃, h₄⟩ => ⟨h₁, h₂, h₃, h₄⟩, fun ⟨h₁, h₂, h₃, h₄⟩ => ⟨h₁, h₂, h₃, h₄⟩⟩

/-- A tag whose names have no colons, with attributes that are told apart by their names. -/
structure Tag.IsOrderly (t : Tag) : Prop where
  simple : isSimpleName t.name.loc = true
  attrs : ∀ a ∈ t.attrs, a.IsOrderly
  distinct : (t.attrs.map fun a => a.name.bare).Nodup

instance (t : Tag) : Decidable t.IsOrderly :=
  decidable_of_iff (isSimpleName t.name.loc = true ∧ (∀ a ∈ t.attrs, a.IsOrderly) ∧
      (t.attrs.map fun a => a.name.bare).Nodup)
    ⟨fun ⟨h₁, h₂, h₃⟩ => ⟨h₁, h₂, h₃⟩, fun ⟨h₁, h₂, h₃⟩ => ⟨h₁, h₂, h₃⟩⟩

mutual
/-- Whether all in a node breaks no rule, its declarations apart. -/
def Node.isOrderly : Node → Bool
  | .text s => isLegal s
  | .comment s => isCommentText s
  | .instruction target data => isTarget target && data.all isDataText
  | .reference _ => false
  | .element t ns => decide t.IsOrderly && allOrderly ns
/-- Whether all in a list of nodes breaks no rule, their declarations apart. -/
def allOrderly : List Node → Bool
  | [] => true
  | n :: ns => n.isOrderly && allOrderly ns
end

/-- The name that an attribute gives to its element, if it does. -/
def Attr.ids (a : Attr) : List Text := if a.name.is xmlUri "id" then [a.value] else []

/-- The names that the attributes of a tag give to the element. -/
def Tag.ids (t : Tag) : List Text := t.attrs.flatMap Attr.ids

mutual
/-- The names that are given to elements in a node. -/
def Node.ids : Node → List Text
  | .element t ns => t.ids ++ idsAll ns
  | _ => []
/-- The names that are given to elements in a list of nodes. -/
def idsAll : List Node → List Text
  | [] => []
  | n :: ns => n.ids ++ idsAll ns
end

/-! ### Prefixes -/

/-- A declaration that keeps the rules of namespaces. -/
structure Binding.IsOrderly (b : Binding) : Prop where
  simple : b.pre = [] ∨ isSimpleName b.pre = true
  allowed : mayDeclare b.pre b.uri = true
  address : b.uri = [] ∨ Uri.isReference b.uri = true
  legal : isLegal b.uri = true

instance (b : Binding) : Decidable b.IsOrderly :=
  decidable_of_iff ((b.pre = [] ∨ isSimpleName b.pre = true) ∧ mayDeclare b.pre b.uri = true ∧
      (b.uri = [] ∨ Uri.isReference b.uri = true) ∧ isLegal b.uri = true)
    ⟨fun ⟨h₁, h₂, h₃, h₄⟩ => ⟨h₁, h₂, h₃, h₄⟩, fun ⟨h₁, h₂, h₃, h₄⟩ => ⟨h₁, h₂, h₃, h₄⟩⟩

/-- A tag whose declarations keep the rules and are told apart by their prefixes. -/
structure Tag.DeclaresWell (t : Tag) : Prop where
  orderly : ∀ b ∈ t.bindings, b.IsOrderly
  distinct : (t.bindings.map Binding.pre).Nodup

instance (t : Tag) : Decidable t.DeclaresWell :=
  decidable_of_iff ((∀ b ∈ t.bindings, b.IsOrderly) ∧ (t.bindings.map Binding.pre).Nodup)
    ⟨fun ⟨h₁, h₂⟩ => ⟨h₁, h₂⟩, fun ⟨h₁, h₂⟩ => ⟨h₁, h₂⟩⟩

/-- The namespace that a prefix stands for. -/
def Scope.uri? (scope : Scope) (pre : Text) : Option Text := (scope.find? pre).map Binding.uri

/-- Whether a name is found again by its prefix. Without one, an attribute is in no namespace. -/
def Name.standsIn (scope : Scope) (isAttr : Bool) (n : Name) : Bool :=
  if n.pre = [] then if isAttr then n.uri == [] else (scope.uri? []).getD [] == n.uri
  else scope.uri? n.pre == some n.uri

/-- The names that are written in a tag. -/
def Tag.written (t : Tag) : List Text :=
  t.name.print :: (t.bindings.map (fun b => "xmlns:".toList ++ b.pre) ++
    t.attrs.map fun a => a.name.print)

/-- A tag that can be written below the given declarations and read again. -/
structure Tag.Legible (scope : Scope) (t : Tag) : Prop where
  orderly : t.IsOrderly
  declares : t.DeclaresWell
  name : t.name.standsIn (t.bindings ++ scope) false = true
  attrs : ∀ a ∈ t.attrs, a.name.standsIn (t.bindings ++ scope) true = true
  short : ∀ w ∈ t.written, w.length ≤ maxName

instance (scope : Scope) (t : Tag) : Decidable (t.Legible scope) :=
  decidable_of_iff (t.IsOrderly ∧ t.DeclaresWell ∧
      t.name.standsIn (t.bindings ++ scope) false = true ∧
      (∀ a ∈ t.attrs, a.name.standsIn (t.bindings ++ scope) true = true) ∧
      ∀ w ∈ t.written, w.length ≤ maxName)
    ⟨fun ⟨h₁, h₂, h₃, h₄, h₅⟩ => ⟨h₁, h₂, h₃, h₄, h₅⟩,
      fun ⟨h₁, h₂, h₃, h₄, h₅⟩ => ⟨h₁, h₂, h₃, h₄, h₅⟩⟩

mutual
/-- A node that can be written below the given declarations and read again, with room for so
many open elements. -/
def Node.Legible (scope : Scope) (room : Nat) : Node → Prop
  | .element t ns => 0 < room ∧ t.Legible scope ∧ AllLegible (t.bindings ++ scope) (room - 1) ns
  | n => n.isOrderly = true
/-- Nodes that can be written below the given declarations and read again. -/
def AllLegible (scope : Scope) (room : Nat) : List Node → Prop
  | [] => True
  | n :: ns => n.Legible scope room ∧ AllLegible scope room ns
end

mutual
/-- Decides whether a node is legible. -/
def Node.decLegible (scope : Scope) (room : Nat) : (n : Node) → Decidable (n.Legible scope room)
  | .element t ns =>
    have := decAllLegible (t.bindings ++ scope) (room - 1) ns
    inferInstanceAs (Decidable (0 < room ∧ t.Legible scope ∧
      AllLegible (t.bindings ++ scope) (room - 1) ns))
  | .text s => inferInstanceAs (Decidable ((Node.text s).isOrderly = true))
  | .comment s => inferInstanceAs (Decidable ((Node.comment s).isOrderly = true))
  | .instruction target data =>
    inferInstanceAs (Decidable ((Node.instruction target data).isOrderly = true))
  | .reference name => inferInstanceAs (Decidable ((Node.reference name).isOrderly = true))
/-- Decides whether nodes are legible. -/
def decAllLegible (scope : Scope) (room : Nat) :
    (ns : List Node) → Decidable (AllLegible scope room ns)
  | [] => isTrue trivial
  | n :: ns =>
    have := n.decLegible scope room
    have := decAllLegible scope room ns
    inferInstanceAs (Decidable (n.Legible scope room ∧ AllLegible scope room ns))
end

instance (scope : Scope) (room : Nat) (n : Node) : Decidable (n.Legible scope room) :=
  n.decLegible scope room

/-- An element that can be written as a document and read again. -/
structure Element.IsLegible (e : Element) : Prop where
  node : e.node.Legible [] Stack.maxOpen
  ids : e.node.ids.Nodup

/-! ### Tidying keeps what is legible -/

theorem allLegible_iff {scope : Scope} {room : Nat} {ns : List Node} :
    AllLegible scope room ns ↔ ∀ n ∈ ns, n.Legible scope room := by
  induction ns with
  | nil => simp [AllLegible]
  | cons n ns ih => simp [AllLegible, ih]

theorem allLegible_withText {scope : Scope} {room : Nat} {s : Text} {ns : List Node}
    (hs : isLegal s = true) (hns : AllLegible scope room ns) :
    AllLegible scope room (withText s ns) := by
  unfold withText
  split
  · exact hns
  · cases ns with
    | nil => exact ⟨hs, trivial⟩
    | cons n ns =>
      cases n with
      | text t =>
        obtain ⟨ht, hns⟩ := hns
        refine ⟨?_, hns⟩
        show isLegal (s ++ t) = true
        rw [isLegal, List.all_append, Bool.and_eq_true]
        exact ⟨hs, ht⟩
      | _ => exact ⟨hs, hns⟩

theorem allLegible_before {scope : Scope} {room : Nat} {n : Node} {ns : List Node}
    (hn : n.Legible scope room) (hns : AllLegible scope room ns) :
    AllLegible scope room (n.before ns) := by
  cases n with
  | text s => exact allLegible_withText hn hns
  | _ => exact ⟨hn, hns⟩

theorem allLegible_tidyAll_of_forall {scope : Scope} {room : Nat} {ns : List Node}
    (h : ∀ n ∈ ns, n.Legible scope room → n.tidy.Legible scope room)
    (hns : AllLegible scope room ns) : AllLegible scope room (tidyAll ns) := by
  induction ns with
  | nil => trivial
  | cons n ns ih =>
    obtain ⟨hn, hrest⟩ := List.forall_mem_cons.mp h
    exact allLegible_before (hn hns.1) (ih hrest hns.2)

/-- A tidy node is legible if the node is. -/
theorem Node.legible_tidy {n : Node} {scope : Scope} {room : Nat} (h : n.Legible scope room) :
    n.tidy.Legible scope room := by
  induction n using Node.ind generalizing scope room with
  | leaf n hn => rwa [Node.tidy_of_leaf hn]
  | element t ns ih =>
    obtain ⟨hroom, ht, hns⟩ := h
    exact ⟨hroom, ht, allLegible_tidyAll_of_forall (fun n hn => ih n hn) hns⟩

theorem idsAll_withText (s : Text) (ns : List Node) : idsAll (withText s ns) = idsAll ns := by
  unfold withText
  split
  · rfl
  · cases ns with
    | nil => rfl
    | cons n ns => cases n <;> rfl

theorem idsAll_before (n : Node) (ns : List Node) : idsAll (n.before ns) = n.ids ++ idsAll ns := by
  cases n with
  | text s => exact idsAll_withText s ns
  | _ => rfl

theorem idsAll_tidyAll_of_forall {ns : List Node} (h : ∀ n ∈ ns, n.tidy.ids = n.ids) :
    idsAll (tidyAll ns) = idsAll ns := by
  induction ns with
  | nil => rfl
  | cons n ns ih =>
    obtain ⟨hn, hns⟩ := List.forall_mem_cons.mp h
    rw [tidyAll, idsAll_before, hn, ih hns, idsAll]

/-- Tidying loses no names of elements. -/
theorem Node.ids_tidy (n : Node) : n.tidy.ids = n.ids := by
  induction n using Node.ind with
  | leaf n hn => rw [Node.tidy_of_leaf hn]
  | element t ns ih => rw [Node.tidy, Node.ids, Node.ids, idsAll_tidyAll_of_forall ih]

end Xml
end Formulary
