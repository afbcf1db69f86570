/-
# Lexing what is written

Tags are lexed from their written form, and so is text whose special characters
are written as references: its tokens spell the text, and there are none if the
text holds a character that no document may hold.

Key definitions: `Xml.startTag`, `Xml.endTag`, `Xml.Spells`, `Xml.Recovers`, `Xml.LexesEscaped`.
Key theorems: `Xml.lex_tag`, `Xml.lex_startTag`, `Xml.lex_endTag`, `Xml.lex_escape`.
-/
import Formulary.Proofs.Html.Escape
import Formulary.Xml.Token
import Mathlib.Data.List.TakeWhile

namespace Formulary
namespace Xml

theorem lex_markup {s r : Text} {t : Token} (h : markup? s = some (t, r)) :
    lex ('<' :: s) = (lex r).map (t :: ·) := by
  rw [lex]
  split
  · rename_i t' r' h'
    obtain ⟨rfl, rfl⟩ := Prod.mk.inj (Option.some.inj (h.symm.trans h'))
    rfl
  · rename_i h'
    exact absurd (h.symm.trans h') (by simp)

theorem lex_reference {s r : Text} {p : Part} (h : reference? s = some (p, r)) :
    lex ('&' :: s) = (lex r).map (p.token :: ·) := by
  rw [lex]
  split
  · rename_i p' r' h'
    obtain ⟨rfl, rfl⟩ := Prod.mk.inj (Option.some.inj (h.symm.trans h'))
    rfl
  · rename_i h'
    exact absurd (h.symm.trans h') (by simp)

theorem lex_text {c : Char} (hc : isTextual c = true) (s : Text) :
    lex (c :: s) =
      (textToken? (c :: s.takeWhile isTextual) (s.dropWhile isTextual)).bind fun t =>
        (lex (s.dropWhile isTextual)).map (t :: ·) := by
  rw [lex]
  · cases textToken? (c :: s.takeWhile isTextual) (s.dropWhile isTextual) with
    | none => rfl
    | some t =>
      show (lex _).bind _ = _
      cases lex (s.dropWhile isTextual) <;> rfl
  · rintro rfl
    exact absurd hc (by decide)
  · rintro rfl
    exact absurd hc (by decide)

/-! ### Tags -/

/-- The written form of an attribute, with the space in front of it. -/
def RawAttr.print (a : RawAttr) : Text := ' ' :: a.name ++ '=' :: '"' :: a.value ++ ['"']

/-- An attribute that is written so and read back: its value holds neither a quotation mark
nor the start of a tag. -/
def RawAttr.IsPlain (a : RawAttr) : Prop := isName a.name = true ∧ '"' ∉ a.value ∧ '<' ∉ a.value

instance (a : RawAttr) : Decidable a.IsPlain :=
  inferInstanceAs (Decidable (isName a.name = true ∧ '"' ∉ a.value ∧ '<' ∉ a.value))

/-- The written form of a start tag. -/
def startTag (name : Text) (as : List RawAttr) : Text :=
  '<' :: name ++ as.flatMap RawAttr.print ++ ['>']

/-- The written form of an end tag. -/
def endTag (name : Text) : Text := '<' :: '/' :: name ++ ['>']

theorem isWordChar_of_isName {name : Text} (h : isName name = true) :
    ∀ c ∈ name, isWordChar c = true := by
  cases name with
  | nil => exact absurd h (by decide)
  | cons c s =>
    simp only [isName, Bool.and_eq_true, List.all_eq_true] at h
    obtain ⟨⟨hstart, hrest⟩, -⟩ := h
    refine List.forall_mem_cons.mpr ⟨?_, hrest⟩
    simp only [isWordChar, isNameChar, Bool.or_eq_true] at hstart ⊢
    exact hstart.imp_right fun h => .inl (.inl (.inl (.inl (.inl (.inl h)))))

/-- The characters that a written name may start with. -/
def startsName (c : Char) : Bool := c == ':' || isNameStart c

theorem exists_cons_of_isName {name : Text} (h : isName name = true) :
    ∃ c s, name = c :: s ∧ startsName c = true := by
  cases name with
  | nil => exact absurd h (by decide)
  | cons c s =>
    simp only [isName, Bool.and_eq_true] at h
    exact ⟨c, s, rfl, h.1.1⟩

theorem ne_of_startsName {c d : Char} (hc : startsName c = true) (hd : startsName d = false) :
    c ≠ d := by
  rintro rfl
  exact absurd hc (by simp [hd])

theorem isSpace_of_startsName {c : Char} (hc : startsName c = true) : isSpace c = false := by
  have hblank := ne_of_startsName (d := ' ') hc (by decide)
  have htab := ne_of_startsName (d := '\t') hc (by decide)
  have hfeed := ne_of_startsName (d := '\n') hc (by decide)
  have hreturn := ne_of_startsName (d := '\r') hc (by decide)
  simp [isSpace, hblank, htab, hfeed, hreturn]

theorem attribute?_print {a : RawAttr} (h : a.IsPlain) (r : Text) :
    attribute? (a.name ++ '=' :: '"' :: (a.value ++ '"' :: r)) = some (a, r) := by
  obtain ⟨hname, hquote, htag⟩ := h
  have hword := isWordChar_of_isName hname
  have hvalue : quoted? ('"' :: (a.value ++ '"' :: r)) = some (a.value, r) :=
    Text.cut?_char hquote r
  have hequals : ('=' :: '"' :: (a.value ++ '"' :: r)).dropWhile isSpace =
      '=' :: '"' :: (a.value ++ '"' :: r) := rfl
  have hopen : ('"' :: (a.value ++ '"' :: r)).dropWhile isSpace = '"' :: (a.value ++ '"' :: r) :=
    rfl
  rw [attribute?, Text.takeWhile_until hword (by decide), Text.dropWhile_until hword (by decide),
    hequals]
  show (quoted? (('"' :: (a.value ++ '"' :: r)).dropWhile isSpace)).bind _ = _
  rw [hopen, hvalue]
  show (guard (isName a.name = true ∧ '<' ∉ a.value) : Option Unit).bind _ = _
  rw [guard, if_pos ⟨hname, htag⟩]
  rfl

/-- An attribute in front of others is read first. -/
theorem attributes_cons {a : RawAttr} (h : a.IsPlain) (s : Text) :
    attributes (a.print ++ s) = (attributes s).map fun p => (a :: p.1, p.2) := by
  have hread := attribute?_print h s
  obtain ⟨c, w, hname, hc⟩ := exists_cons_of_isName h.1
  have hrest : (a.print ++ s).dropWhile isSpace =
      a.name ++ '=' :: '"' :: (a.value ++ '"' :: s) := by
    have hsplit : a.print ++ s = ' ' :: (a.name ++ '=' :: '"' :: (a.value ++ '"' :: s)) := by
      simp [RawAttr.print]
    rw [hsplit, List.dropWhile_cons_of_pos (by decide), hname, List.cons_append,
      List.dropWhile_cons_of_neg (by simp [isSpace_of_startsName hc])]
  have hshorter :
      (a.name ++ '=' :: '"' :: (a.value ++ '"' :: s)).length < (a.print ++ s).length := by
    simp only [RawAttr.print, List.length_append, List.length_cons]
    omega
  rw [attributes, hrest]
  split
  · rename_i u hu
    rw [hname] at hu
    exact absurd (List.cons.inj hu).1 (ne_of_startsName hc (by decide))
  · rename_i u hu
    rw [hname] at hu
    exact absurd (List.cons.inj hu).1 (ne_of_startsName hc (by decide))
  · rw [if_pos hshorter]
    split
    · rename_i b r hb
      obtain ⟨rfl, rfl⟩ := Prod.mk.inj (Option.some.inj (hread.symm.trans hb))
      rfl
    · rename_i hb
      exact absurd (hread.symm.trans hb) (by simp)

/-- The end of a start tag, which may be the end tag as well. -/
def tagEnd (closed : Bool) : Text := if closed then "/>".toList else ">".toList

/-- The attributes of a start tag are read back. -/
theorem attributes_print {as : List RawAttr} (h : ∀ a ∈ as, a.IsPlain) (closed : Bool) (r : Text) :
    attributes (as.flatMap RawAttr.print ++ (tagEnd closed ++ r)) = some (as, closed, r) := by
  induction as with
  | nil =>
    rw [attributes]
    cases closed <;> rfl
  | cons a as ih =>
    obtain ⟨ha, has⟩ := List.forall_mem_cons.mp h
    rw [List.flatMap_cons, List.append_assoc, attributes_cons ha, ih has]
    rfl

theorem openingTag?_print {name : Text} {as : List RawAttr} (hname : isName name = true)
    (has : ∀ a ∈ as, a.IsPlain) (closed : Bool) (r : Text) :
    openingTag? (name ++ (as.flatMap RawAttr.print ++ (tagEnd closed ++ r))) =
      some (.opening name as closed, r) := by
  have hword := isWordChar_of_isName hname
  -- a name ends at the space in front of the first attribute, or at the end of the tag
  obtain ⟨c, s, hstop, hc⟩ : ∃ c s, as.flatMap RawAttr.print ++ (tagEnd closed ++ r) = c :: s ∧
      isWordChar c = false := by
    cases as with
    | nil =>
      cases closed with
      | false => exact ⟨'>', r, rfl, by decide⟩
      | true => exact ⟨'/', '>' :: r, rfl, by decide⟩
    | cons a as => exact ⟨' ', _, rfl, by decide⟩
  have hattrs := attributes_print has closed r
  rw [hstop] at hattrs ⊢
  rw [openingTag?, Text.takeWhile_until hword hc, Text.dropWhile_until hword hc, hattrs, hname]
  rfl

theorem markup?_of_startsName {c : Char} (hc : startsName c = true) (s : Text) :
    markup? (c :: s) = openingTag? (c :: s) := by
  have hbang := ne_of_startsName (d := '!') hc (by decide)
  have hcomment : Text.after? "!--".toList (c :: s) = none := if_neg hbang.symm
  have hcdata : Text.after? "![CDATA[".toList (c :: s) = none := if_neg hbang.symm
  rw [markup?, hcomment, hcdata]
  show tag? (c :: s) = openingTag? (c :: s)
  unfold tag?
  split
  · rename_i h
    exact absurd (List.cons.inj h).1 (ne_of_startsName hc (by decide))
  · rename_i h
    exact absurd (List.cons.inj h).1 (ne_of_startsName hc (by decide))
  · rfl

/-- A tag is lexed as what it was written for. -/
theorem lex_tag {name : Text} {as : List RawAttr} (hname : isName name = true)
    (has : ∀ a ∈ as, a.IsPlain) (closed : Bool) (r : Text) :
    lex ('<' :: (name ++ (as.flatMap RawAttr.print ++ (tagEnd closed ++ r)))) =
      (lex r).map (.opening name as closed :: ·) := by
  have hopening := openingTag?_print hname has closed r
  obtain ⟨c, w, rfl, hc⟩ := exists_cons_of_isName hname
  refine lex_markup ?_
  rw [List.cons_append, markup?_of_startsName hc]
  exact hopening

/-- A start tag is lexed as what it was written for. -/
theorem lex_startTag {name : Text} {as : List RawAttr} (hname : isName name = true)
    (has : ∀ a ∈ as, a.IsPlain) (r : Text) :
    lex (startTag name as ++ r) = (lex r).map (.opening name as false :: ·) := by
  have hsplit : startTag name as ++ r =
      '<' :: (name ++ (as.flatMap RawAttr.print ++ (tagEnd false ++ r))) := by
    simp [startTag, tagEnd]
  rw [hsplit, lex_tag hname has]

/-- An end tag is lexed as what it was written for. -/
theorem lex_endTag {name : Text} (hname : isName name = true) (r : Text) :
    lex (endTag name ++ r) = (lex r).map (.closing name :: ·) := by
  have hword := isWordChar_of_isName hname
  have hsplit : endTag name ++ r = '<' :: '/' :: (name ++ '>' :: r) := by simp [endTag]
  have hclosing : closingTag? (name ++ '>' :: r) = some (.closing name, r) := by
    rw [closingTag?, Text.takeWhile_until hword (by decide), Text.dropWhile_until hword (by decide),
      hname]
    rfl
  rw [hsplit]
  exact lex_markup hclosing

/-! ### Text -/

/-- The tokens bring the characters of a text and nothing else. -/
inductive Spells : List Token → Text → Prop
  | nil : Spells [] []
  | text {ts : List Token} {s raw : Text} (rest : Text) : raw ≠ [] → '\r' ∉ raw → Spells ts s →
      Spells (.text raw rest :: ts) (raw ++ s)
  | char {ts : List Token} {s : Text} (c : Char) : Spells ts s → Spells (.char c :: ts) (c :: s)

/-- The ways of writing quotation marks that can be read back from element content. -/
def Readable (q : Html.Quotes) : Prop := q = .plain ∨ q = .named

/-- A name with a semicolon is a reference to a predefined character, whatever follows. -/
theorem reference?_predefined {name : Text} {c : Char} (hname : isName name = true)
    (hc : predefined? name = some c) (r : Text) :
    reference? (name ++ ';' :: r) = some (.code c, r) := by
  have hword := isWordChar_of_isName hname
  have hread : nameReference? (name ++ ';' :: r) = some (.code c, r) := by
    rw [nameReference?, Text.takeWhile_until hword (by decide),
      Text.dropWhile_until hword (by decide), hname, hc]
    rfl
  obtain ⟨d, w, rfl, hd⟩ := exists_cons_of_isName hname
  unfold reference?
  split
  · rename_i h
    exact absurd (List.cons.inj h).1 (ne_of_startsName hd (by decide))
  · rename_i h
    exact absurd (List.cons.inj h).1 (ne_of_startsName hd (by decide))
  · exact hread

/-- Whether a character is found again in what is written for it: this is the character itself,
if it has no special meaning in text, or a reference to it. -/
def Recovers (esc : Char → Text) (c : Char) : Prop :=
  (esc c = [c] ∧ isTextual c = true ∧ c ≠ '>' ∧ c ≠ '\r') ∨
    (isChar c = true ∧ ∃ w, esc c = '&' :: w ∧ ∀ r, reference? (w ++ r) = some (.code c, r))

theorem Recovers.of_name {esc : Char → Text} {c : Char} (name : Text)
    (hesc : esc c = '&' :: name ++ [';']) (hname : isName name = true)
    (hc : predefined? name = some c) (hlegal : isChar c = true) : Recovers esc c :=
  .inr ⟨hlegal, name ++ [';'], hesc, fun r => by
    rw [List.append_assoc]
    exact reference?_predefined hname hc r⟩

/-- Characters that escaping for HTML writes are found again, line ends apart. -/
theorem recovers_escapeChar {q : Html.Quotes} (hq : Readable q) {c : Char} (hcr : c ≠ '\r') :
    Recovers (Html.escapeChar q) c := by
  cases h : Html.isEscaped c with
  | false =>
    refine .inl ⟨Html.escapeChar_of_not_isEscaped h q, ?_, ?_, hcr⟩
    · simp only [Html.isEscaped, Bool.or_eq_false_iff, beq_eq_false_iff_ne] at h
      simp [isTextual, h]
    · rintro rfl
      exact absurd h (by decide)
  | true =>
    rcases Html.isEscaped_cases h with rfl | rfl | rfl | rfl | rfl
    · exact .of_name "amp".toList rfl (by decide) (by decide) (by decide)
    · exact .of_name "lt".toList rfl (by decide) (by decide) (by decide)
    · exact .of_name "gt".toList rfl (by decide) (by decide) (by decide)
    · rcases hq with rfl | rfl
      · exact .inl ⟨rfl, by decide, by decide, by decide⟩
      · exact .of_name "quot".toList rfl (by decide) (by decide) (by decide)
    · rcases hq with rfl | rfl
      · exact .inl ⟨rfl, by decide, by decide, by decide⟩
      · refine .inr ⟨by decide, "#x27;".toList, rfl, fun r => ?_⟩
        have hhex : "27".toList.all Html.isHex = true := by decide
        have htake : ("27;".toList ++ r).takeWhile Html.isHex = "27".toList :=
          Text.takeWhile_until (c := ';') (List.all_eq_true.mp hhex) (by decide) r
        have hdrop : ("27;".toList ++ r).dropWhile Html.isHex = ';' :: r :=
          Text.dropWhile_until (c := ';') (List.all_eq_true.mp hhex) (by decide) r
        show codeReference? Html.isHex Html.hexNumber ("27;".toList ++ r) = _
        rw [codeReference?, hdrop, htake]
        rfl

theorem recovers_escape {q : Html.Quotes} (hq : Readable q) {s : Text} (hs : '\r' ∉ s) :
    ∀ c ∈ s, Recovers (Html.escapeChar q) c :=
  fun _ hc => recovers_escapeChar hq fun h => hs (h ▸ hc)

theorem textToken?_of_notMem {u : Text} (hu : '>' ∉ u) (rest : Text) :
    textToken? u rest = if isLegal u then some (.text u rest) else none := by
  have hcontains : Text.contains "]]>".toList u = false := by
    rw [Text.contains, Text.cut?_eq_none_iff.mpr fun h => hu (h.subset (by decide))]
    rfl
  rw [textToken?, hcontains, Bool.not_false, Bool.and_true]

/-- A stretch of text up to markup or a reference is one token. -/
theorem lex_textual {u : Text} (hne : u ≠ []) (hu : ∀ c ∈ u, isTextual c = true ∧ c ≠ '>')
    {x : Char} (hx : isTextual x = false) (s : Text) :
    lex (u ++ x :: s) =
      if isLegal u then (lex (x :: s)).map (.text u (x :: s) :: ·) else none := by
  have hgt : '>' ∉ u := fun h => (hu '>' h).2 rfl
  obtain ⟨c, w, rfl⟩ := List.exists_cons_of_ne_nil hne
  obtain ⟨hc, hw⟩ := List.forall_mem_cons.mp hu
  have htextual : ∀ d ∈ w, isTextual d = true := fun d hd => (hw d hd).1
  rw [List.cons_append, lex_text hc.1, Text.takeWhile_until htextual hx,
    Text.dropWhile_until htextual hx, textToken?_of_notMem hgt]
  split <;> rfl

section Escaped

variable {esc : Char → Text} {s : Text}

/-- Escaped text is followed by a character that is not textual, if markup follows it. -/
theorem escaped_cons_textual (h : ∀ c ∈ s, Recovers esc c) (hs : ∀ c ∈ s.head?, esc c ≠ [c])
    (r : Text) : ∃ x t, s.flatMap esc ++ '<' :: r = x :: t ∧ isTextual x = false := by
  cases s with
  | nil => exact ⟨'<', r, rfl, by decide⟩
  | cons c s =>
    rcases h c List.mem_cons_self with ⟨hesc, -⟩ | ⟨-, w, hw, -⟩
    · exact absurd hesc (hs c rfl)
    · refine ⟨'&', w ++ (s.flatMap esc ++ '<' :: r), ?_, by decide⟩
      rw [List.flatMap_cons, hw]
      simp

theorem isLegal_append (s t : Text) : isLegal (s ++ t) = (isLegal s && isLegal t) :=
  List.all_append

/-- Characters that are written as they are. -/
def isLiteral (esc : Char → Text) (c : Char) : Bool := esc c == [c]

theorem flatMap_of_isLiteral (hs : ∀ c ∈ s, isLiteral esc c = true) : s.flatMap esc = s := by
  induction s with
  | nil => rfl
  | cons c s ih =>
    obtain ⟨hc, hs⟩ := List.forall_mem_cons.mp hs
    have hchar : esc c = [c] := beq_iff_eq.mp hc
    rw [List.flatMap_cons, hchar, ih hs]
    rfl

theorem Recovers.of_isLiteral {c : Char} (h : Recovers esc c) (hc : isLiteral esc c = true) :
    isTextual c = true ∧ c ≠ '>' ∧ c ≠ '\r' := by
  rcases h with ⟨-, h⟩ | ⟨-, w, hw, hread⟩
  · exact h
  · -- nothing would follow the ampersand
    obtain ⟨-, rfl⟩ := List.cons.inj (hw.symm.trans (beq_iff_eq.mp hc))
    exact absurd (show (none : Option (Part × Text)) = _ from hread []) (by simp)

/-- Escaped text in front of markup is lexed as tokens that spell the text, and is not lexed at
all if the text may not stand in a document. -/
def LexesEscaped (esc : Char → Text) (r s : Text) : Prop :=
  ∃ ts, Spells ts s ∧ lex (s.flatMap esc ++ '<' :: r) =
    if isLegal s then (lex ('<' :: r)).map (ts ++ ·) else none

/-- A character that is written as a reference makes a token of its own. -/
theorem LexesEscaped.cons {c : Char} (h : Recovers esc c) (hc : isLiteral esc c = false) {r : Text}
    (hs : LexesEscaped esc r s) : LexesEscaped esc r (c :: s) := by
  rcases h with ⟨h, -⟩ | ⟨hlegal, w, hw, hread⟩
  · rw [isLiteral, h, beq_self_eq_true] at hc
    exact absurd hc (by decide)
  · obtain ⟨ts, hts, hlex⟩ := hs
    have hescape : (c :: s).flatMap esc ++ '<' :: r = '&' :: (w ++ (s.flatMap esc ++ '<' :: r)) := by
      rw [List.flatMap_cons, hw]
      simp
    have hall : isLegal (c :: s) = isLegal s := by
      rw [isLegal, List.all_cons, hlegal, Bool.true_and, ← isLegal]
    refine ⟨.char c :: ts, .char c hts, ?_⟩
    rw [hescape, lex_reference (hread _), hlex, hall]
    split
    · rw [Option.map_map]
      rfl
    · rfl

/-- A stretch of characters that are written as they are makes one token, if it is as long as
it can be. -/
theorem LexesEscaped.append {u v : Text} (hne : u ≠ []) (h : ∀ c ∈ u ++ v, Recovers esc c)
    (hu : ∀ c ∈ u, isLiteral esc c = true) {r : Text}
    (hv : ∀ c ∈ v.head?, isLiteral esc c = false) (hs : LexesEscaped esc r v) :
    LexesEscaped esc r (u ++ v) := by
  obtain ⟨ts, hts, hlex⟩ := hs
  obtain ⟨hrecu, hrecv⟩ := List.forall_mem_append.mp h
  obtain ⟨x, t, hxt, hx⟩ :=
    escaped_cons_textual hrecv (fun c hc => beq_eq_false_iff_ne.mp (hv c hc)) r
  have hplain : ∀ c ∈ u, isTextual c = true ∧ c ≠ '>' ∧ c ≠ '\r' := fun c hc =>
    (hrecu c hc).of_isLiteral (hu c hc)
  have htextual : ∀ c ∈ u, isTextual c = true ∧ c ≠ '>' := fun c hc =>
    ⟨(hplain c hc).1, (hplain c hc).2.1⟩
  have hcr : '\r' ∉ u := fun hc => (hplain _ hc).2.2 rfl
  rw [hxt] at hlex
  refine ⟨.text u (x :: t) :: ts, .text _ hne hcr hts, ?_⟩
  rw [List.flatMap_append, flatMap_of_isLiteral hu, List.append_assoc, hxt,
    lex_textual hne htextual hx, hlex, isLegal_append]
  cases isLegal u <;> cases isLegal v <;> simp [Option.map_map, Function.comp_def]

/-- **Escaped text is lexed as the text it was made from**; it is not lexed at all if this text
may not stand in a document. -/
theorem lex_escape (r : Text) : ∀ {s : Text}, (∀ c ∈ s, Recovers esc c) →
    LexesEscaped esc r s := by
  intro s
  -- by the length, since a stretch of literal characters makes one token
  induction hn : s.length using Nat.strongRecOn generalizing s with
  | _ n ih =>
    intro h
    subst hn
    cases s with
    | nil => exact ⟨[], .nil, by simp [isLegal]⟩
    | cons c s =>
      obtain ⟨hrec, hrest⟩ := List.forall_mem_cons.mp h
      cases hc : isLiteral esc c with
      | false => exact .cons hrec hc (ih s.length (by simp) rfl hrest)
      | true =>
        let u := c :: s.takeWhile (isLiteral esc)
        let v := s.dropWhile (isLiteral esc)
        have hsplit : c :: s = u ++ v := congrArg (c :: ·) List.takeWhile_append_dropWhile.symm
        have hu : ∀ d ∈ u, isLiteral esc d = true :=
          List.forall_mem_cons.mpr ⟨hc, fun d hd => List.mem_takeWhile_imp hd⟩
        have hv : ∀ d ∈ v.head?, isLiteral esc d = false := fun d hd => by
          have hstop := List.head?_dropWhile_not (isLiteral esc) s
          rw [show (s.dropWhile (isLiteral esc)).head? = some d from hd] at hstop
          exact hstop
        have hshorter : v.length < (c :: s).length :=
          Nat.lt_succ_of_le (Text.length_dropWhile_le _ s)
        rw [hsplit] at h ⊢
        exact .append (List.cons_ne_nil _ _) h hu hv
          (ih v.length hshorter rfl fun d hd => h d (List.mem_append_right u hd))

end Escaped

end Xml
end Formulary
