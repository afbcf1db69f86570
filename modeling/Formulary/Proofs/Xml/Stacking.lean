/-
# Tags and declarations of what is read

While a document is read, its tags are those of the open elements and of what is finished. A
step of reading adds the tags that it brings and loses none: text has none, an element that is
opened brings its own, and one that is closed keeps those that it has (`Stack.tags_leave`). The
declarations in scope are those of the open elements, the innermost first.

Key definitions: `Xml.Node.tags`, `Xml.innerScope`, `Xml.Stack.tags`.
Key theorems: `Xml.Stack.tags_change`, `Xml.Stack.tags_addElement`, `Xml.Stack.tags_enter`,
`Xml.Stack.tags_leave`.
-/
import Formulary.Xml.Reader
import Mathlib.Data.List.Basic

namespace Formulary
namespace Xml

/-! ### Tags of nodes -/

mutual
/-- The tags of the elements in a node. -/
def Node.tags : Node → List Tag
  | .element t ns => t :: tagsAll ns
  | _ => []
/-- The tags of the elements in a list of nodes. -/
def tagsAll : List Node → List Tag
  | [] => []
  | n :: ns => n.tags ++ tagsAll ns
end

theorem tagsAll_eq_flatMap (ns : List Node) : tagsAll ns = ns.flatMap Node.tags := by
  induction ns with
  | nil => rfl
  | cons n ns ih => rw [tagsAll, ih, List.flatMap_cons]

theorem tagsAll_append (ns ms : List Node) : tagsAll (ns ++ ms) = tagsAll ns ++ tagsAll ms := by
  simp only [tagsAll_eq_flatMap, List.flatMap_append]

theorem mem_tagsAll {ns : List Node} {t : Tag} : t ∈ tagsAll ns ↔ ∃ n ∈ ns, t ∈ n.tags := by
  rw [tagsAll_eq_flatMap, List.mem_flatMap]

theorem tagsAll_reverse_perm (ns : List Node) : (tagsAll ns.reverse).Perm (tagsAll ns) := by
  rw [tagsAll_eq_flatMap, tagsAll_eq_flatMap]
  exact (List.reverse_perm ns).flatMap_right _

/-! ### Open elements -/

/-- The declarations in scope inside the innermost of these elements. -/
def innerScope : List Frame → Scope
  | f :: _ => f.tag.bindings ++ f.scope
  | [] => []

/-- The tags of what has been finished. -/
def Base.tags : Base → List Tag
  | .document none => []
  | .document (some e) => e.node.tags
  | .entity ns => tagsAll ns

namespace Stack

/-- The tags that have been read. -/
def tags (k : Stack) : List Tag :=
  (k.frames.flatMap fun f => f.tag :: tagsAll f.nodes) ++ k.base.tags

theorem scope_eq (k : Stack) : k.scope = innerScope k.frames := by
  obtain ⟨b, frames⟩ := k
  cases frames <;> rfl

variable {k k' : Stack}

/-- Nodes are changed in the innermost element, or in the text of an entity. -/
theorem change_cases {f : List Node → List Node} (h : k.change f = some k') :
    (∃ b g up, k = ⟨b, g :: up⟩ ∧ k' = ⟨b, { g with nodes := f g.nodes } :: up⟩) ∨
      ∃ ns, k = ⟨.entity ns, []⟩ ∧ k' = ⟨.entity (f ns), []⟩ := by
  obtain ⟨b, frames⟩ := k
  cases frames with
  | cons g up => exact .inl ⟨b, g, up, rfl, (Option.some.inj h).symm⟩
  | nil =>
    cases b with
    | document root => exact absurd h (by simp [Stack.change])
    | entity ns => exact .inr ⟨ns, rfl, (Option.some.inj h).symm⟩

/-- An element that is finished is the root of a document, or a node of what is around it. -/
theorem addElement_cases {e : Element} (h : k.addElement e = some k') :
    (k = ⟨.document none, []⟩ ∧ k' = ⟨.document (some e), []⟩) ∨ k.addNode e.node = some k' := by
  unfold Stack.addElement at h
  split at h
  · rename_i hframes hbase
    obtain ⟨b, frames⟩ := k
    exact .inl ⟨by rw [← hframes, ← hbase], (Option.some.inj h).symm⟩
  · exact .inr h

/-- An element is closed with the nodes that it has. -/
theorem leave_cases {written : Text} (h : k.leave written = some k') :
    ∃ b f up, k = ⟨b, f :: up⟩ ∧
      Stack.addElement ⟨f.tag, f.nodes.reverse⟩ ⟨b, up⟩ = some k' := by
  obtain ⟨b, frames⟩ := k
  cases frames with
  | nil => exact absurd h (by simp [Stack.leave])
  | cons f up =>
    unfold Stack.leave at h
    dsimp only at h
    split at h
    · exact ⟨b, f, up, rfl, h⟩
    · exact absurd h (by simp)

/-- A stretch of text is left out, or added with its lines as they are read. -/
theorem addRaw_cases {d : Definitions} {st : Setting} {raw rest : Text}
    (hd : d.manner = .faithful) (h : k.addRaw d st raw rest = some k') :
    k' = k ∨ k.addText (normalizeLines raw) = some k' := by
  unfold Stack.addRaw at h
  split at h
  · split at h
    · exact .inl (Option.some.inj h).symm
    · exact absurd h (by simp)
  · rw [hd] at h
    exact .inr h
  · exact .inr h

theorem scope_change {f : List Node → List Node} (h : k.change f = some k') :
    k'.scope = k.scope := by
  obtain ⟨b, g, up, rfl, rfl⟩ | ⟨ns, rfl, rfl⟩ := change_cases h <;> rfl

/-! ### Tags of what is read -/

theorem tags_change {f : List Node → List Node} {ts : List Tag}
    (hts : ∀ ns, (tagsAll (f ns)).Perm (ts ++ tagsAll ns)) (h : k.change f = some k') :
    k'.tags.Perm (ts ++ k.tags) := by
  obtain ⟨b, g, up, rfl, rfl⟩ | ⟨ns, rfl, rfl⟩ := change_cases h
  · simp only [tags, List.flatMap_cons, List.cons_append, List.append_assoc]
    refine (((hts g.nodes).append_right _).cons g.tag).trans ?_
    rw [List.append_assoc]
    exact List.perm_middle.symm
  · exact hts ns

theorem tags_addText {s : Text} (h : k.addText s = some k') : k'.tags.Perm k.tags := by
  have hjoin : ∀ ns, (tagsAll (joinText s ns)).Perm ([] ++ tagsAll ns) := fun ns => by
    unfold joinText
    split <;> exact .refl _
  exact tags_change hjoin h

theorem tags_addNode {n : Node} (h : k.addNode n = some k') : k'.tags.Perm (n.tags ++ k.tags) :=
  tags_change (f := fun ns => n :: ns) (fun _ => .refl _) h

theorem tags_addAside {n : Node} (hn : n.tags = []) : (k.addAside n).tags.Perm k.tags := by
  unfold Stack.addAside
  cases h : k.addNode n with
  | none => exact .refl _
  | some k' => simpa [hn] using tags_addNode h

theorem tags_addElement {e : Element} (h : k.addElement e = some k') :
    k'.tags.Perm (e.node.tags ++ k.tags) := by
  obtain ⟨rfl, rfl⟩ | h := addElement_cases h
  · simp [tags, Base.tags]
  · exact tags_addNode h

theorem tags_enter {t : Tag} {written : Text} {closed : Bool}
    (h : k.enter t written closed = some k') : k'.tags.Perm (t :: k.tags) := by
  unfold Stack.enter at h
  split at h
  · exact tags_addElement h
  · obtain rfl := Option.some.inj h
    exact .refl _

theorem tags_leave {written : Text} (h : k.leave written = some k') : k'.tags.Perm k.tags := by
  obtain ⟨b, f, up, rfl, hclosed⟩ := leave_cases h
  refine (tags_addElement hclosed).trans ?_
  simp only [Element.node, Node.tags, tags, List.flatMap_cons, List.cons_append,
    List.append_assoc]
  exact ((tagsAll_reverse_perm f.nodes).append_right _).cons f.tag

theorem tags_addRaw {d : Definitions} {st : Setting} {raw rest : Text}
    (hd : d.manner = .faithful) (h : k.addRaw d st raw rest = some k') : k'.tags.Perm k.tags := by
  obtain rfl | h := addRaw_cases hd h
  · exact .refl _
  · exact tags_addText h

end Stack

end Xml
end Formulary
