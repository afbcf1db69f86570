/-
# What a document says, apart from its prefixes

Two documents say the same if they differ only in the prefixes of their names and in where
these are declared. Without its declarations, and with each name reduced to its namespace and
its local part, a node is *bare*; nodes that say the same are equal then.

Key definitions: `Xml.Name.bare`, `Xml.Node.bare`, `Xml.Element.bare`.
Key theorems: `Xml.Name.bare_eq_iff`, `Xml.bareAll_eq_map`, `Xml.Node.bare_bare`.
-/
import Formulary.Xml.Tree
import Mathlib.Data.List.Basic

namespace Formulary
namespace Xml

/-! ### Equality of nodes -/

mutual
/-- Decides whether two nodes are equal. -/
def Node.decEq : (n m : Node) → Decidable (n = m)
  | .text s, m => match m with
    | .text t => decidable_of_iff (s = t) ⟨congrArg _, Node.text.inj⟩
    | .comment _ | .instruction _ _ | .reference _ | .element _ _ => isFalse nofun
  | .comment s, m => match m with
    | .comment t => decidable_of_iff (s = t) ⟨congrArg _, Node.comment.inj⟩
    | .text _ | .instruction _ _ | .reference _ | .element _ _ => isFalse nofun
  | .instruction s d, m => match m with
    | .instruction t e =>
      decidable_of_iff (s = t ∧ d = e) ⟨fun h => h.1 ▸ h.2 ▸ rfl, Node.instruction.inj⟩
    | .text _ | .comment _ | .reference _ | .element _ _ => isFalse nofun
  | .reference s, m => match m with
    | .reference t => decidable_of_iff (s = t) ⟨congrArg _, Node.reference.inj⟩
    | .text _ | .comment _ | .instruction _ _ | .element _ _ => isFalse nofun
  | .element t ns, m => match m with
    | .element u ms =>
      have := decEqAll ns ms
      decidable_of_iff (t = u ∧ ns = ms) ⟨fun h => h.1 ▸ h.2 ▸ rfl, Node.element.inj⟩
    | .text _ | .comment _ | .instruction _ _ | .reference _ => isFalse nofun
/-- Decides whether two lists of nodes are equal. -/
def decEqAll : (ns ms : List Node) → Decidable (ns = ms)
  | [], [] => isTrue rfl
  | [], _ :: _ => isFalse nofun
  | _ :: _, [] => isFalse nofun
  | n :: ns, m :: ms =>
    have := Node.decEq n m
    have := decEqAll ns ms
    decidable_of_iff (n = m ∧ ns = ms) ⟨fun h => h.1 ▸ h.2 ▸ rfl, List.cons.inj⟩
end

instance : DecidableEq Node := Node.decEq

deriving instance DecidableEq for Element

/-! ### Names -/

/-- The name without its prefix. -/
def Name.bare (n : Name) : Name := ⟨if n.uri = [] then none else some ⟨0, [], n.uri⟩, n.loc⟩

/-- The attribute with its name bare. -/
def Attr.bare (a : Attr) : Attr := ⟨a.name.bare, a.value⟩

/-- The tag with its names bare and without declarations. -/
def Tag.bare (t : Tag) : Tag := ⟨t.name.bare, [], t.attrs.map Attr.bare⟩

mutual
/-- The node with all names in it bare. -/
def Node.bare : Node → Node
  | .element t ns => .element t.bare (bareAll ns)
  | n => n
/-- The nodes with all names in them bare. -/
def bareAll : List Node → List Node
  | [] => []
  | n :: ns => n.bare :: bareAll ns
end

/-- The element with all names in it bare. -/
def Element.bare (e : Element) : Element := ⟨e.tag.bare, bareAll e.children⟩

@[simp] theorem Name.uri_bare (n : Name) : n.bare.uri = n.uri := by
  obtain ⟨ns, loc⟩ := n
  unfold Name.bare
  split
  · rename_i h
    exact h.symm
  · rfl

@[simp] theorem Name.loc_bare (n : Name) : n.bare.loc = n.loc := rfl

/-- Two names say the same if and only if namespace and local part are the same. -/
theorem Name.bare_eq_iff {n m : Name} : n.bare = m.bare ↔ n.uri = m.uri ∧ n.loc = m.loc := by
  refine ⟨fun h => ⟨?_, by simpa using congrArg Name.loc h⟩, fun ⟨huri, hloc⟩ => ?_⟩
  · rw [← n.uri_bare, h, m.uri_bare]
  · rw [Name.bare, Name.bare, huri, hloc]

@[simp] theorem Name.bare_bare (n : Name) : n.bare.bare = n.bare :=
  Name.bare_eq_iff.mpr ⟨n.uri_bare, rfl⟩

@[simp] theorem Name.is_bare (n : Name) (uri : Text) (loc : String) :
    n.bare.is uri loc = n.is uri loc := by
  rw [Name.is, Name.is, Name.uri_bare, Name.loc_bare]

@[simp] theorem Attr.bare_bare (a : Attr) : a.bare.bare = a.bare := by
  rw [Attr.bare, Attr.bare, Name.bare_bare]

@[simp] theorem Tag.bare_bare (t : Tag) : t.bare.bare = t.bare := by
  simp [Tag.bare, List.map_map, Function.comp_def]

/-! ### Nodes -/

/-- What holds for nodes that are not elements, and for an element if it holds for the nodes in
it, holds for all nodes. -/
@[elab_as_elim]
theorem Node.ind {P : Node → Prop} (leaf : ∀ n, (∀ t ns, n ≠ .element t ns) → P n)
    (element : ∀ t ns, (∀ n ∈ ns, P n) → P (.element t ns)) : ∀ n, P n
  | .element t ns => element t ns fun m _ => Node.ind leaf element m
  | .text _ => leaf _ fun _ _ h => nomatch h
  | .comment _ => leaf _ fun _ _ h => nomatch h
  | .instruction _ _ => leaf _ fun _ _ h => nomatch h
  | .reference _ => leaf _ fun _ _ h => nomatch h

theorem Node.bare_of_leaf {n : Node} (hn : ∀ t ns, n ≠ .element t ns) : n.bare = n := by
  cases n with
  | element t ns => exact absurd rfl (hn t ns)
  | _ => rfl

theorem bareAll_eq_map (ns : List Node) : bareAll ns = ns.map Node.bare := by
  induction ns with
  | nil => rfl
  | cons n ns ih => rw [bareAll, ih, List.map_cons]

@[simp] theorem bareAll_nil : bareAll [] = [] := rfl

@[simp] theorem bareAll_cons (n : Node) (ns : List Node) :
    bareAll (n :: ns) = n.bare :: bareAll ns := rfl

@[simp] theorem bareAll_append (ns ms : List Node) :
    bareAll (ns ++ ms) = bareAll ns ++ bareAll ms := by
  simp only [bareAll_eq_map, List.map_append]

@[simp] theorem Node.bare_bare (n : Node) : n.bare.bare = n.bare := by
  induction n using Node.ind with
  | leaf n hn => rw [Node.bare_of_leaf hn, Node.bare_of_leaf hn]
  | element t ns ih =>
    simp only [Node.bare, Tag.bare_bare, bareAll_eq_map, List.map_map]
    exact congrArg (Node.element t.bare) (List.map_congr_left ih)

@[simp] theorem Node.isText_bare (n : Node) : n.bare.isText = n.isText := by
  cases n <;> rfl

@[simp] theorem Node.isElement_bare (n : Node) (uri : Text) (loc : String) :
    n.bare.isElement uri loc = n.isElement uri loc := by
  cases n with
  | element t ns => exact t.name.is_bare uri loc
  | _ => rfl

@[simp] theorem leadingText_bareAll : ∀ ns : List Node, leadingText (bareAll ns) = leadingText ns
  | [] => rfl
  | .text s :: ns => by simp only [bareAll, Node.bare, leadingText, leadingText_bareAll ns]
  | .element _ _ :: _ => rfl
  | .comment _ :: _ => rfl
  | .instruction _ _ :: _ => rfl
  | .reference _ :: _ => rfl

@[simp] theorem dropLeadingText_bareAll (ns : List Node) :
    dropLeadingText (bareAll ns) = bareAll (dropLeadingText ns) := by
  simp only [dropLeadingText, bareAll_eq_map, List.dropWhile_map, Function.comp_def,
    Node.isText_bare]

@[simp] theorem takeWhile_isText_bareAll (ns : List Node) :
    (bareAll ns).takeWhile Node.isText = bareAll (ns.takeWhile Node.isText) := by
  simp only [bareAll_eq_map, List.takeWhile_map, Function.comp_def, Node.isText_bare]

theorem Element.node_bare (e : Element) : e.bare.node = e.node.bare := rfl

end Xml
end Formulary
