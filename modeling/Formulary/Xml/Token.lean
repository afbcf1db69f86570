/-
# XML tokens

The markup of a document, piece by piece: stretches of text, references,
tags, comments and instructions. `lex` fails where a piece is not well formed;
whether the pieces fit together is left to the reader. Names and values stay
as they are written.

Key definitions: `Xml.RawAttr`, `Xml.Token`, `Xml.attributes`, `Xml.lex`.
-/
import Formulary.Xml.Reference

namespace Formulary
namespace Xml

/-- An attribute as it is written. -/
structure RawAttr where
  name : Text
  value : Text
deriving DecidableEq, Repr, Inhabited

/-- A piece of a document. -/
inductive Token
  /-- A stretch of text without references, as it is written, and what follows it. -/
  | text (raw rest : Text)
  /-- A character by a reference. -/
  | char (c : Char)
  /-- A reference to an entity. -/
  | reference (name : Text)
  | cdata (s : Text)
  | comment (s : Text)
  | instruction (target : Text) (data : Option Text)
  /-- A start tag; `closed` when it is the end tag as well. -/
  | opening (name : Text) (attrs : List RawAttr) (closed : Bool)
  | closing (name : Text)
deriving DecidableEq, Repr, Inhabited

/-- A quoted text: what stands between the quotation marks, and what follows. -/
def quoted? : Text → Option (Text × Text)
  | '"' :: s => Text.cut? ['"'] s
  | '\'' :: s => Text.cut? ['\''] s
  | _ => none

/-- One attribute, and what follows it. No tag may start in its value. -/
def attribute? (s : Text) : Option (RawAttr × Text) :=
  match (s.dropWhile isWordChar).dropWhile isSpace with
  | '=' :: r => do
    let p ← quoted? (r.dropWhile isSpace)
    guard (isName (s.takeWhile isWordChar) ∧ '<' ∉ p.1)
    pure (⟨s.takeWhile isWordChar, p.1⟩, p.2)
  | _ => none

theorem length_lt_of_quoted? {s a b : Text} (h : quoted? s = some (a, b)) :
    b.length < s.length := by
  unfold quoted? at h
  split at h
  · exact Nat.lt_trans (Text.length_lt_of_cut? (List.cons_ne_nil _ _) h) (by simp)
  · exact Nat.lt_trans (Text.length_lt_of_cut? (List.cons_ne_nil _ _) h) (by simp)
  · simp at h

theorem length_lt_of_attribute? {s r : Text} {a : RawAttr} (h : attribute? s = some (a, r)) :
    r.length < s.length := by
  unfold attribute? at h
  split at h
  · rename_i u hu
    obtain ⟨⟨p, q⟩, hp, h⟩ := Option.bind_eq_some_iff.mp h
    obtain ⟨_, _, h⟩ := Option.bind_eq_some_iff.mp h
    obtain ⟨_, rfl⟩ := Prod.mk.inj (Option.some.inj h)
    have h1 := length_lt_of_quoted? hp
    have h2 := Text.length_dropWhile_le isSpace u
    have h3 := Text.length_dropWhile_le isSpace (s.dropWhile isWordChar)
    have h4 := Text.length_dropWhile_le isWordChar s
    rw [hu, List.length_cons] at h3
    show q.length < s.length
    omega
  · simp at h

/-- The attributes of a start tag, whether the tag is an end tag as well, and
what follows the tag. White space must stand in front of each attribute. -/
def attributes (s : Text) : Option (List RawAttr × Bool × Text) :=
  match s.dropWhile isSpace with
  | '>' :: r => some ([], false, r)
  | '/' :: '>' :: r => some ([], true, r)
  | u =>
    if u.length < s.length then
      match _ : attribute? u with
      | some (a, r) => (attributes r).map fun p => (a :: p.1, p.2)
      | none => none
    else none
termination_by s.length
decreasing_by
  have := length_lt_of_attribute? (by assumption)
  omega

theorem length_lt_of_attributes : ∀ {s r : Text} {as : List RawAttr} {closed : Bool},
    attributes s = some (as, closed, r) → r.length < s.length := by
  intro s
  induction hn : s.length using Nat.strongRecOn generalizing s with
  | _ n ih =>
    intro r as closed h
    subst hn
    have hd := Text.length_dropWhile_le isSpace s
    unfold attributes at h
    split at h
    · rename_i u hu
      simp only [Option.some.injEq, Prod.mk.injEq] at h
      rw [hu, List.length_cons] at hd
      rw [← h.2.2]
      omega
    · rename_i u hu
      simp only [Option.some.injEq, Prod.mk.injEq] at h
      rw [hu, List.length_cons, List.length_cons] at hd
      rw [← h.2.2]
      omega
    · split at h
      · split at h
        · rename_i a u ha
          simp only [Option.map_eq_some_iff, Prod.mk.injEq] at h
          obtain ⟨⟨_, _, _⟩, hp, _, hr⟩ := h
          obtain ⟨_, rfl⟩ := Prod.mk.inj hr
          have h1 := length_lt_of_attribute? ha
          have h2 := ih u.length (by omega) rfl hp
          omega
        · simp at h
      · simp at h

/-- A start tag, after its opening bracket. -/
def openingTag? (s : Text) : Option (Token × Text) := do
  guard (isName (s.takeWhile isWordChar))
  let p ← attributes (s.dropWhile isWordChar)
  pure (.opening (s.takeWhile isWordChar) p.1 p.2.1, p.2.2)

/-- An end tag, after its opening bracket and slash. -/
def closingTag? (s : Text) : Option (Token × Text) :=
  match (s.dropWhile isWordChar).dropWhile isSpace with
  | '>' :: r =>
    if isName (s.takeWhile isWordChar) then some (.closing (s.takeWhile isWordChar), r) else none
  | _ => none

/-- A comment, after its opening: two hyphens in it can only close it. -/
def comment? (s : Text) : Option (Token × Text) :=
  match Text.cut? "--".toList s with
  | some (a, '>' :: r) => if isLegal a then some (.comment (normalizeLines a), r) else none
  | _ => none

/-- A stretch of literal text, after its opening. -/
def cdata? (s : Text) : Option (Token × Text) :=
  match Text.cut? "]]>".toList s with
  | some (a, r) => if isLegal a then some (.cdata (normalizeLines a), r) else none
  | none => none

/-- A processing instruction, given what stands between its brackets. Its
name may not be `xml`, and white space parts the name from the rest. -/
def instructionBody? (s : Text) : Option Token :=
  let target := s.takeWhile isWordChar
  let data := s.dropWhile isWordChar
  if isName target && target.map Char.toLower != "xml".toList && isLegal s then
    if data.isEmpty then some (.instruction target none)
    else if data.head?.any isSpace then
      some (.instruction target (some (normalizeLines (data.dropWhile isSpace))))
    else none
  else none

/-- A processing instruction, after its opening. -/
def instruction? (s : Text) : Option (Token × Text) :=
  match Text.cut? "?>".toList s with
  | some (a, r) => (instructionBody? a).map fun t => (t, r)
  | none => none

theorem length_lt_of_openingTag? {s r : Text} {t : Token} (h : openingTag? s = some (t, r)) :
    r.length < s.length := by
  unfold openingTag? at h
  obtain ⟨_, _, h⟩ := Option.bind_eq_some_iff.mp h
  obtain ⟨p, hp, h⟩ := Option.bind_eq_some_iff.mp h
  obtain ⟨_, rfl⟩ := Prod.mk.inj (Option.some.inj h)
  exact Nat.lt_of_lt_of_le (length_lt_of_attributes hp) (Text.length_dropWhile_le isWordChar s)

theorem length_lt_of_closingTag? {s r : Text} {t : Token} (h : closingTag? s = some (t, r)) :
    r.length < s.length := by
  unfold closingTag? at h
  split at h
  · rename_i u hu
    have h1 := Text.length_dropWhile_le isSpace (s.dropWhile isWordChar)
    have h2 := Text.length_dropWhile_le isWordChar s
    rw [hu, List.length_cons] at h1
    split at h
    · simp only [Option.some.injEq, Prod.mk.injEq] at h
      rw [← h.2]
      omega
    · simp at h
  · simp at h

theorem length_lt_of_comment? {s r : Text} {t : Token} (h : comment? s = some (t, r)) :
    r.length < s.length := by
  unfold comment? at h
  split at h
  · rename_i a u hu
    split at h
    · simp only [Option.some.injEq, Prod.mk.injEq] at h
      have := Text.length_lt_of_cut? (by decide) hu
      rw [List.length_cons] at this
      rw [← h.2]
      omega
    · simp at h
  · simp at h

theorem length_lt_of_cdata? {s r : Text} {t : Token} (h : cdata? s = some (t, r)) :
    r.length < s.length := by
  unfold cdata? at h
  split at h
  · rename_i a u hu
    split at h
    · simp only [Option.some.injEq, Prod.mk.injEq] at h
      rw [← h.2]
      exact Text.length_lt_of_cut? (by decide) hu
    · simp at h
  · simp at h

theorem length_lt_of_instruction? {s r : Text} {t : Token} (h : instruction? s = some (t, r)) :
    r.length < s.length := by
  unfold instruction? at h
  split at h
  · rename_i a u hu
    simp only [Option.map_eq_some_iff, Prod.mk.injEq] at h
    obtain ⟨_, _, _, rfl⟩ := h
    exact Text.length_lt_of_cut? (by decide) hu
  · simp at h

/-- An instruction or a tag, after its opening bracket. -/
def tag? (s : Text) : Option (Token × Text) :=
  match s with
  | '?' :: r => instruction? r
  | '/' :: r => closingTag? r
  | _ => openingTag? s

/-- A piece of markup, after its opening bracket. -/
def markup? (s : Text) : Option (Token × Text) :=
  match Text.after? "!--".toList s with
  | some r => comment? r
  | none =>
    match Text.after? "![CDATA[".toList s with
    | some r => cdata? r
    | none => tag? s

/-- A stretch of text, which may not hold the end of literal text. -/
def textToken? (raw rest : Text) : Option Token :=
  if isLegal raw && !Text.contains "]]>".toList raw then some (.text raw rest) else none

/-- The token of a reference. -/
def Part.token : Part → Token
  | .literal c => .char c
  | .code c => .char c
  | .entity name => .reference name

theorem length_lt_of_tag? {s r : Text} {t : Token} (h : tag? s = some (t, r)) :
    r.length < s.length := by
  unfold tag? at h
  split at h
  · exact Nat.lt_trans (length_lt_of_instruction? h) (by simp)
  · exact Nat.lt_trans (length_lt_of_closingTag? h) (by simp)
  · exact length_lt_of_openingTag? h

theorem length_le_of_after? {pat s r : Text} (h : Text.after? pat s = some r) :
    r.length ≤ s.length := by
  rw [Text.after?_eq_some_iff.mp h, List.length_append]
  omega

theorem length_lt_of_markup? {s r : Text} {t : Token} (h : markup? s = some (t, r)) :
    r.length < s.length := by
  unfold markup? at h
  split at h
  · exact Nat.lt_of_lt_of_le (length_lt_of_comment? h) (length_le_of_after? (by assumption))
  · split at h
    · exact Nat.lt_of_lt_of_le (length_lt_of_cdata? h) (length_le_of_after? (by assumption))
    · exact length_lt_of_tag? h

/-- Characters that no markup starts with. -/
def isTextual (c : Char) : Bool := c != '<' && c != '&'

/-- The pieces of a document, or nothing if one of them is not well formed. -/
def lex : Text → Option (List Token)
  | [] => some []
  | '<' :: s =>
    match _ : markup? s with
    | some (t, r) => (lex r).map (t :: ·)
    | none => none
  | '&' :: s =>
    match _ : reference? s with
    | some (p, r) => (lex r).map (p.token :: ·)
    | none => none
  | c :: s => do
    let t ← textToken? (c :: s.takeWhile isTextual) (s.dropWhile isTextual)
    let ts ← lex (s.dropWhile isTextual)
    pure (t :: ts)
termination_by s => s.length
decreasing_by
  · have := length_lt_of_markup? (by assumption)
    simp only [List.length_cons]
    omega
  · have := length_lt_of_reference? (by assumption)
    simp only [List.length_cons]
    omega
  · have := Text.length_dropWhile_le isTextual s
    simp only [List.length_cons]
    omega

end Xml
end Formulary
