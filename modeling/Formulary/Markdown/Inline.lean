/-
# Inline Markdown

The nodes of one line of Markdown, as a lexer gives them. Lexers cut text
where they like, so stretches of text are joined before they are read.

Key definitions: `Inline`, `TextView`, `mergeTexts`, `lexOrPlain`.
-/
import Formulary.Failure

namespace Formulary

/-- A node of inline Markdown. -/
inductive Inline
  | text (raw : Text)
  | strong (children : List Inline)
  | emphasis (children : List Inline)
  | code (raw : Text)
  | lineBreak
  | softBreak
  /-- A link or an image: its label if it has no children, and its target. -/
  | link (label url : Text) (children : List Inline)
  /-- Any other node, of which only the children count. -/
  | group (children : List Inline)
deriving Repr, Inhabited

/-- What joining needs to know of a kind of node: which nodes are text, and
how text is made into a node. -/
structure TextView (α : Type) where
  text? : α → Option Text
  ofText : Text → α

/-- The text of an inline node that is text. -/
def Inline.text? : Inline → Option Text
  | .text raw => some raw
  | _ => none

/-- Inline nodes, as nodes to be joined. -/
def Inline.view : TextView Inline := ⟨Inline.text?, Inline.text⟩

/-- The nodes with each stretch of text nodes joined into one. A text node
that stands alone is kept as it is. -/
def mergeTexts {α : Type} (v : TextView α) : List α → List α
  | [] => []
  | x :: xs =>
    match v.text? x, mergeTexts v xs with
    | some s, y :: ys =>
      match v.text? y with
      | some t => v.ofText (s ++ t) :: ys
      | none => x :: y :: ys
    | _, ys => x :: ys

/-- Lexes a text, or takes it as one text node where there is no lexer or the
lexer fails. -/
def lexOrPlain {α : Type} (v : TextView α) (lexer : Option (Text → Except Failure (List α)))
    (s : Text) : List α :=
  match lexer with
  | none => [v.ofText s]
  | some f =>
    match f s with
    | .ok ns => ns
    | .error _ => [v.ofText s]

end Formulary
