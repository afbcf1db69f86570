/-
# MathML

The preview of a formula is its MathML with the LaTeX source kept beside it:
the root's content moves into a `semantics` element, followed by an
annotation that holds the source.

Key definitions: `MathMl.sourceNode`, `MathMl.semantics`, `MathMl.annotate`, `MathMl.preview`,
`MathMl.text`, `MathMl.errorDocument`, `errorSpan`.
-/
import Formulary.Latex.PlainText
import Formulary.Html.Escape
import Formulary.Html.Entity
import Formulary.Text.Loose
import Formulary.Xml.Move
import Formulary.Xml.Printer

namespace Formulary

/-- The readable text of a formula, as it is written. -/
def shownLabel (latex : LooseText) : LooseText :=
  (latex.lift latexLabel).lift (Html.escape .named)

namespace MathMl

/-- The namespace of MathML. -/
def uri : Text := "http://www.w3.org/1998/Math/MathML".toList

/-- The tag of a new MathML element, given the declaration it uses. -/
def tag (ns : Xml.Binding) (loc : String) (attrs : List Xml.Attr) : Xml.Tag :=
  ⟨⟨some ns, loc.toList⟩, [], attrs⟩

/-- The annotation that holds LaTeX source, as text even where it is empty. -/
def sourceNode (ns : Xml.Binding) (latex : Text) : Xml.Node :=
  .element (tag ns "annotation"
    [⟨⟨none, "encoding".toList⟩, "application/x-tex".toList⟩]) [.text latex]

/-- The content as one expression below an element: nodes with a single one
that is not text are moved there as they are, others into a row. -/
def oneExpression (outer : Xml.Tag) (ns : Xml.Binding) (s : Xml.Supply)
    (content : List Xml.Node) : List Xml.Node × Xml.Supply :=
  if content.countP (fun n => !n.isText) = 1 then Xml.adaptEach [outer] s content
  else
    let row := tag ns "mrow" []
    let (content, s) := Xml.adaptEach [row, outer] s content
    ([.element row content], s)

/-- The content in a `semantics` element with the source beside it. The
element declares a prefix for itself. -/
def semantics (s : Xml.Supply) (latex : Text) (content : List Xml.Node) :
    Xml.Node × Xml.Supply :=
  let ns : Xml.Binding := ⟨s.id, Xml.newPrefix 0, uri⟩
  let t : Xml.Tag := { tag ns "semantics" [] with bindings := [ns] }
  let (content, s) := oneExpression t ns ⟨s.id + 1, 1⟩ content
  (.element t (content ++ [sourceNode ns latex]), s)

/-- The root with its content moved into a `semantics` element and the source
beside it. Text in front of the content stays where it is. -/
def annotate (root : Xml.Element) (latex : Text) : Xml.Element :=
  let (n, s) := semantics root.supply latex (Xml.dropLeadingText root.children)
  { root with
    children := root.children.takeWhile Xml.Node.isText ++
      [(n.adapt [root.tag] ⟨s.id, root.supply.pre⟩).1] }

/-- The class of a preview. -/
def previewClass (display : Bool) : Text :=
  if display then "math-render math-display".toList else "math-render".toList

/-- The preview of a formula, from its MathML and its source. Both are needed
as bytes, the source after the MathML is read. -/
def preview (mathml latex : LooseText) (display : Bool) : Except Failure Text := do
  let document ← mathml.toText
  match Xml.parse? .faithful document with
  | none => .error .malformedXml
  | some root =>
    let source ← latex.toText
    if Xml.isLegal source then
      .ok ("<span class=\"".toList ++ previewClass display ++ "\">".toList ++
        (annotate root source).print ++ "</span>".toList)
    else .error .illegalText

/-- A text without what looks like tags: an opening bracket, at least one
other character, and the next closing bracket. -/
def dropTags : Text → Text
  | [] => []
  | c :: s =>
    if c = '<' then
      match _ : Text.cut? ['>'] s with
      | some (_ :: _, r) => dropTags r
      | _ => c :: dropTags s
    else c :: dropTags s
termination_by s => s.length
decreasing_by
  · have := Text.length_lt_of_cut? (List.cons_ne_nil _ _) (by assumption)
    simp only [List.length_cons]
    omega
  · simp
  · simp

/-- The text of a formula. Of a document that is not well formed it is what
is left without the tags. -/
def text (mathml : Text) : Except Failure Text :=
  match Xml.parse? .faithful mathml with
  | some root => .ok (Xml.contentAll root.children)
  | none => Html.unescape (dropTags mathml)

/-- The value of the `display` attribute. -/
def displayValue (display : Bool) : Text := if display then "block".toList else "inline".toList

/-- The MathML that stands for a formula that could not be converted. -/
def errorDocument (latex : LooseText) (display : Bool) : LooseText :=
  .ofText ("<math xmlns=\"".toList ++ uri ++ "\" display=\"".toList ++ displayValue display ++
      "\"><merror><mtext>".toList) ++
    shownLabel latex ++ .ofText "</mtext></merror></math>".toList

end MathMl

/-- The preview of a formula that could not be converted: its readable text,
with the reason in the title. -/
def errorSpan (latex why : LooseText) : LooseText :=
  .ofText "<span class=\"math-error\" title=\"".toList ++ why.lift (Html.escape .named) ++
    .ofText "\">".toList ++ shownLabel latex ++ .ofText "</span>".toList

end Formulary
