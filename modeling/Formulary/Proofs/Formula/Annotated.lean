/-
# What a preview holds

The root of a preview has the tag and the leading text of the formula's root. Below it there is
one `semantics` element with two children: the content of the formula, as one expression, and
the annotation with the source. Moving the content keeps each name in its namespace, whatever
the formula declares.

Key definitions: `MathMl.plainNs`, `MathMl.expression`, `MathMl.annotated`.
Key theorems: `MathMl.bare_annotate`, `MathMl.parse?_annotate`.
-/
import Formulary.Formula.MathMl
import Formulary.Proofs.Xml.Moving
import Formulary.Proofs.Xml.ReadBack

namespace Formulary
namespace MathMl

open Xml (Node Element Binding Register mentionedAll bareAll)

/-! ### The form of a preview -/

/-- The namespace of MathML as bare names hold it. -/
def plainNs : Binding := ⟨0, [], uri⟩

/-- Nodes as one expression: those with a single one that is not text as they are, others as
a row. -/
def expression (content : List Node) : List Node :=
  if content.countP (fun n => !n.isText) = 1 then content
  else [.element (tag plainNs "mrow" []) content]

/-- A bare formula with its source beside it. -/
def annotated (root : Element) (latex : Text) : Element :=
  ⟨root.tag, root.children.takeWhile Node.isText ++
    [.element (tag plainNs "semantics" [])
      (expression (Xml.dropLeadingText root.children) ++ [sourceNode plainNs latex])]⟩

theorem bare_tag {ns : Binding} (hns : ns.uri = uri) (loc : String) {attrs : List Xml.Attr}
    (hattrs : attrs.map Xml.Attr.bare = attrs) :
    (tag ns loc attrs).bare = tag plainNs loc attrs := by
  have hname : (tag ns loc attrs).name.bare = (tag plainNs loc attrs).name := by
    show (tag ns loc attrs).name.bare = (tag plainNs loc attrs).name.bare
    exact Xml.Name.bare_eq_iff.mpr (And.intro hns rfl)
  rw [Xml.Tag.bare, hname]
  show Xml.Tag.mk _ [] (attrs.map Xml.Attr.bare) = _
  rw [hattrs]
  rfl

theorem bare_sourceNode {ns : Binding} (hns : ns.uri = uri) (latex : Text) :
    (sourceNode ns latex).bare = sourceNode plainNs latex := by
  rw [sourceNode, Node.bare, bare_tag hns _ rfl]
  rfl

theorem mentionedAll_subset {ns ms : List Node} (h : ns ⊆ ms) :
    mentionedAll ns ⊆ mentionedAll ms := by
  rw [Xml.mentionedAll_eq_flatMap, Xml.mentionedAll_eq_flatMap]
  exact fun b hb => by
    obtain ⟨n, hn, hb⟩ := List.mem_flatMap.mp hb
    exact List.mem_flatMap.mpr ⟨n, h hn, hb⟩

theorem mentioned_tag (ns : Binding) (loc : String) :
    (tag ns loc []).mentioned = [ns] := rfl

/-- The declaration that the `semantics` element makes for itself. -/
def ownNs (s : Xml.Supply) : Binding := ⟨s.id, Xml.newPrefix 0, uri⟩

/-- The tag of the `semantics` element before it is moved. -/
def ownTag (s : Xml.Supply) : Xml.Tag :=
  { tag (ownNs s) "semantics" [] with bindings := [ownNs s] }

theorem semantics_eq (s : Xml.Supply) (latex : Text) (content : List Node) :
    semantics s latex content =
      (.element (ownTag s) ((oneExpression (ownTag s) (ownNs s) ⟨s.id + 1, 1⟩ content).1 ++
        [sourceNode (ownNs s) latex]),
        (oneExpression (ownTag s) (ownNs s) ⟨s.id + 1, 1⟩ content).2) := rfl

/-- The `semantics` element of a formula before it is moved below the root. -/
def ownSemantics (root : Element) (latex : Text) : Node × Xml.Supply :=
  semantics root.supply latex (Xml.dropLeadingText root.children)

theorem annotate_eq (root : Element) (latex : Text) :
    annotate root latex = ⟨root.tag, root.children.takeWhile Node.isText ++
      [((ownSemantics root latex).1.adapt [root.tag]
        ⟨(ownSemantics root latex).2.id, root.supply.pre⟩).1]⟩ := rfl

/-! ### Moving the content -/

variable {latex : Text} {content : List Node} {bs : List Binding} {s : Xml.Supply}

theorem countP_bareAll (content : List Node) :
    (bareAll content).countP (fun n => !n.isText) = content.countP fun n => !n.isText := by
  rw [Xml.bareAll_eq_map, List.countP_map]
  exact congrArg (List.countP · content) (funext fun n => by simp)

/-- The content becomes one expression with the same names. -/
theorem bare_oneExpression {outer : Xml.Tag} {ns : Binding} (hns : ns.uri = uri)
    (hbs : Register bs s.id) (houter : outer.seen ⊆ bs) (hmem : ns ∈ bs)
    (hcontent : mentionedAll content ⊆ bs) :
    ∃ cs, bs ⊆ cs ∧ Register cs (oneExpression outer ns s content).2.id ∧
      mentionedAll (oneExpression outer ns s content).1 ⊆ cs ∧
      bareAll (oneExpression outer ns s content).1 = expression (bareAll content) := by
  have hseen : [outer].flatMap Xml.Tag.seen ⊆ bs := by simpa using houter
  rw [expression, countP_bareAll]
  unfold oneExpression
  split
  · exact Xml.bare_adaptEach hbs hseen hcontent
  · have hrow : [tag ns "mrow" [], outer].flatMap Xml.Tag.seen ⊆ bs :=
      List.append_subset.mpr ⟨List.cons_subset.mpr ⟨hmem, List.nil_subset _⟩, hseen⟩
    obtain ⟨cs, hcs, hregister, hmentioned, hbare⟩ := Xml.bare_adaptEach hbs hrow hcontent
    refine ⟨cs, hcs, hregister, ?_, ?_⟩
    · rw [mentionedAll, Node.mentioned, mentioned_tag, mentionedAll, List.append_nil]
      exact List.append_subset.mpr
        ⟨List.cons_subset.mpr ⟨hcs hmem, List.nil_subset _⟩, hmentioned⟩
    · rw [bareAll, Node.bare, bare_tag hns _ rfl]
      exact congrArg (fun ns => [Node.element (tag plainNs "mrow" []) ns]) hbare

/-- The content with the source beside it has the same names. -/
theorem bare_semantics (hbs : Register bs s.id) (hcontent : mentionedAll content ⊆ bs) :
    ∃ cs, bs ⊆ cs ∧ Register cs (semantics s latex content).2.id ∧
      (semantics s latex content).1.mentioned ⊆ cs ∧
      (semantics s latex content).1.bare = .element (tag plainNs "semantics" [])
        (expression (bareAll content) ++ [sourceNode plainNs latex]) := by
  have hmem : ownNs s ∈ ownNs s :: bs := List.mem_cons_self
  have ht : (ownTag s).seen ⊆ ownNs s :: bs :=
    List.cons_subset.mpr ⟨hmem, List.cons_subset.mpr ⟨hmem, List.nil_subset _⟩⟩
  obtain ⟨cs, hcs, hregister, hmentioned, hbare⟩ :=
    bare_oneExpression (s := ⟨s.id + 1, 1⟩) rfl (hbs.cons _ uri) ht hmem
      (List.Subset.trans hcontent (List.subset_cons_self (ownNs s) bs))
  rw [semantics_eq]
  refine ⟨cs, List.Subset.trans (List.subset_cons_self (ownNs s) bs) hcs, hregister, ?_, ?_⟩
  · have hsource : mentionedAll [sourceNode (ownNs s) latex] ⊆ cs :=
      List.cons_subset.mpr ⟨hcs hmem, List.nil_subset _⟩
    rw [Node.mentioned, Xml.mentionedAll_append]
    exact List.append_subset.mpr ⟨List.Subset.trans ht hcs,
      List.append_subset.mpr ⟨hmentioned, hsource⟩⟩
  · rw [Node.bare, Xml.bareAll_append, hbare, bareAll, bare_sourceNode rfl]
    rfl

/-- **The formula of a preview is the formula with its source beside it**, prefixes apart. -/
theorem bare_annotate {root : Element} (h : root.IsNumbered) (latex : Text) :
    (annotate root latex).bare = annotated root.bare latex := by
  have hregister := h.register
  obtain ⟨htag, hchildren⟩ := List.append_subset.mp (List.Subset.refl root.node.mentioned)
  have hcontent : mentionedAll (Xml.dropLeadingText root.children) ⊆ root.node.mentioned := by
    exact List.Subset.trans (mentionedAll_subset (List.dropWhile_sublist _).subset) hchildren
  obtain ⟨cs, hcs, hregister', hmentioned, hbare⟩ :=
    @bare_semantics latex _ _ _ hregister hcontent
  have houter : [root.tag].flatMap Xml.Tag.seen ⊆ cs := by
    have hseen := List.Subset.trans (List.append_subset.mp htag).1 hcs
    simpa using hseen
  obtain ⟨-, -, -, -, hmoved⟩ :=
    Xml.bare_adapt (s := ⟨_, root.supply.pre⟩) hregister' houter hmentioned
  rw [annotate_eq, ownSemantics, Element.bare, Xml.bareAll_append, bareAll, hmoved, hbare,
    annotated]
  simp only [Element.bare, Xml.takeWhile_isText_bareAll, Xml.dropLeadingText_bareAll]
  rfl

/-- **The formula of a preview is read back with its source beside it**, if it is legible: text
that stands side by side is then one text. -/
theorem parse?_annotate {root : Element} (h : root.IsNumbered)
    (hlegible : (annotate root latex).IsLegible) :
    ∃ e, Xml.parse? .faithful (annotate root latex).print = some e ∧
      e.bare = (annotated root.bare latex).tidy := by
  obtain ⟨e, he, hbare⟩ := Xml.parse?_print hlegible
  exact ⟨e, he, by rw [hbare, bare_annotate h]⟩

end MathMl

end Formulary
