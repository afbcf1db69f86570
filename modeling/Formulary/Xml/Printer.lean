/-
# Writing XML

Elements are written with double-quoted attributes, declarations first, and
an element without nodes as a single tag. Names are written with the prefixes
of their declarations.

Key definitions: `Xml.escapeText`, `Xml.escapeValue`, `Xml.Name.print`, `Xml.Tag.print`,
`Xml.Element.print`.
Key theorem: `Xml.parts?_escapeText`.
-/
import Formulary.Xml.Reader

namespace Formulary
namespace Xml

/-- The written form of a character of text. -/
def escapeTextChar (c : Char) : Text :=
  if c = '&' then "&amp;".toList
  else if c = '<' then "&lt;".toList
  else if c = '>' then "&gt;".toList
  else if c = '\r' then "&#13;".toList
  else [c]

/-- The written form of text. -/
def escapeText (s : Text) : Text := s.flatMap escapeTextChar

/-- The written form of a character of an attribute's value. -/
def escapeValueChar (c : Char) : Text :=
  if c = '&' then "&amp;".toList
  else if c = '<' then "&lt;".toList
  else if c = '>' then "&gt;".toList
  else if c = '"' then "&quot;".toList
  else if c = '\t' then "&#9;".toList
  else if c = '\n' then "&#10;".toList
  else if c = '\r' then "&#13;".toList
  else [c]

/-- The written form of an attribute's value. -/
def escapeValue (s : Text) : Text := s.flatMap escapeValueChar

/-- The character of a part that is no reference to an entity. -/
def Part.char? : Part → Option Char
  | .literal c => some c
  | .code c => some c
  | .entity _ => none

theorem parts?_reference {w s : Text} {p : Part} (h : reference? (w ++ s) = some (p, s)) :
    parts? ('&' :: (w ++ s)) = (parts? s).map (p :: ·) := by
  rw [parts?]
  split
  · rename_i q r hr
    rw [h] at hr
    simp only [Option.some.injEq, Prod.mk.injEq] at hr
    rw [hr.1, hr.2]
  · rename_i hr
    rw [h] at hr
    simp at hr

theorem parts?_cons {c : Char} (hc : c ≠ '&') (h : isChar c = true) (s : Text) :
    parts? (c :: s) = (parts? s).map (.literal c :: ·) := by
  rw [parts?]
  · simp [h]
  · exact hc

/-- The part that the written form of a character is. -/
def escapedPart (c : Char) : Part :=
  if c = '&' ∨ c = '<' ∨ c = '>' ∨ c = '\r' then .code c else .literal c

theorem parts?_escapeTextChar {c : Char} (h : isChar c = true) (s : Text) :
    parts? (escapeTextChar c ++ s) = (parts? s).map (escapedPart c :: ·) := by
  have named : ∀ (w : Text) (d : Char), w ≠ [] → (w.all isWordChar) = true →
      isName w = true → predefined? w = some d → w.head? ≠ some '#' →
      reference? ((w ++ [';']) ++ s) = some (.code d, s) := by
    intro w d hne hall hname hpre hhash
    have htake : (w ++ [';'] ++ s).takeWhile isWordChar = w := by
      rw [List.append_assoc, List.takeWhile_append_of_pos (by simpa using hall)]
      simp [show isWordChar ';' = false from by decide]
    have hdrop : (w ++ [';'] ++ s).dropWhile isWordChar = ';' :: s := by
      rw [List.append_assoc, List.dropWhile_append_of_pos (by simpa using hall)]
      simp [show isWordChar ';' = false from by decide]
    have hr : reference? (w ++ [';'] ++ s) = nameReference? (w ++ [';'] ++ s) := by
      obtain ⟨x, v, rfl⟩ := List.exists_cons_of_ne_nil hne
      have hx : x ≠ '#' := by simpa using hhash
      unfold reference?
      split
      · rename_i u hu
        exact absurd (List.cons.inj hu).1 hx
      · rename_i u _ hu
        exact absurd (List.cons.inj hu).1 hx
      · rfl
    rw [hr, nameReference?, htake, hdrop]
    simp [hname, hpre]
  unfold escapeTextChar escapedPart
  split
  · subst c
    exact @parts?_reference ("amp".toList ++ [';']) s _
      (named "amp".toList '&' (by decide) (by decide) (by decide) (by decide) (by decide))
  · split
    · subst c
      exact @parts?_reference ("lt".toList ++ [';']) s _
        (named "lt".toList '<' (by decide) (by decide) (by decide) (by decide) (by decide))
    · split
      · subst c
        exact @parts?_reference ("gt".toList ++ [';']) s _
          (named "gt".toList '>' (by decide) (by decide) (by decide) (by decide) (by decide))
      · split
        · subst c
          refine @parts?_reference "#13;".toList s _ ?_
          exact rfl
        · rename_i hamp hlt hgt hcr
          rw [if_neg (by simp [hamp, hlt, hgt, hcr])]
          exact parts?_cons hamp h s

/-- Text reads back from its written form. -/
theorem parts?_escapeText : ∀ {s : Text}, isLegal s = true →
    parts? (escapeText s) = some (s.map escapedPart)
  | [], _ => by simp [escapeText, parts?]
  | c :: s, h => by
    simp only [isLegal, List.all_cons, Bool.and_eq_true] at h
    have ih := parts?_escapeText (s := s) h.2
    simp only [escapeText, List.flatMap_cons] at ih ⊢
    rw [parts?_escapeTextChar h.1, ih]
    rfl

/-! ### Printing -/

/-- A name with its prefix. -/
def Name.print (n : Name) : Text := if n.pre = [] then n.loc else n.pre ++ ':' :: n.loc

/-- An attribute, with the space in front of it. -/
def printAttr (name value : Text) : Text :=
  ' ' :: name ++ "=\"".toList ++ escapeValue value ++ ['"']

/-- A declaration, with the space in front of it. -/
def Binding.print (b : Binding) : Text :=
  printAttr (if b.pre = [] then "xmlns".toList else "xmlns:".toList ++ b.pre) b.uri

/-- What stands in the start tag, after the opening bracket. -/
def Tag.print (t : Tag) : Text :=
  t.name.print ++ t.bindings.flatMap Binding.print ++
    t.attrs.flatMap fun a => printAttr a.name.print a.value

mutual
/-- The written form of a node. -/
def Node.print : Node → Text
  | .text s => escapeText s
  | .comment s => "<!--".toList ++ s ++ "-->".toList
  | .instruction target none => "<?".toList ++ target ++ "?>".toList
  | .instruction target (some data) => "<?".toList ++ target ++ ' ' :: data ++ "?>".toList
  | .reference name => '&' :: name ++ [';']
  | .element t [] => '<' :: t.print ++ "/>".toList
  | .element t (n :: ns) =>
    '<' :: t.print ++ ['>'] ++ n.print ++ printAll ns ++ "</".toList ++ t.name.print ++ ['>']
/-- The written form of a list of nodes. -/
def printAll : List Node → Text
  | [] => []
  | n :: ns => n.print ++ printAll ns
end

/-- The written form of an element as a document. -/
def Element.print (e : Element) : Text := e.node.print

end Xml
end Formulary
