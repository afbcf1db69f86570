/-
# Reading elements one inside the other

A document whose elements stand one inside the other, with escaped text in the
innermost, is read as these elements and the text, provided the start tags can
be read and the text may stand in a document. Otherwise it is not well formed.

Key definitions: `Xml.RawTag`, `Xml.nested`, `Xml.openTags`, `Xml.nest`.
Key theorems: `Xml.lex_nested`, `Xml.readTokens_spells`, `Xml.readTokens_nested`,
`Xml.parse?_nested`.
-/
import Formulary.Proofs.Xml.Lexing
import Formulary.Xml.Reader
import Mathlib.Data.Option.Basic

namespace Formulary
namespace Xml

/-! ### Lexing -/

/-- A start tag as it is written. -/
structure RawTag where
  name : Text
  attrs : List RawAttr
deriving DecidableEq, Repr, Inhabited

/-- A start tag that is read back from its written form. -/
def RawTag.IsPlain (t : RawTag) : Prop := isName t.name = true ∧ ∀ a ∈ t.attrs, a.IsPlain

instance (t : RawTag) : Decidable t.IsPlain :=
  inferInstanceAs (Decidable (isName t.name = true ∧ ∀ a ∈ t.attrs, a.IsPlain))

/-- The written form of elements one inside the other, with a text in the innermost. -/
def nested : List RawTag → Text → Text
  | [], s => s
  | t :: ts, s => startTag t.name t.attrs ++ nested ts s ++ endTag t.name

/-- The tokens of start tags. -/
def openings (raws : List RawTag) : List Token :=
  raws.map fun t => .opening t.name t.attrs false

/-- The tokens of the end tags, of which the innermost comes first. -/
def closings (raws : List RawTag) : List Token := (raws.map fun t => .closing t.name).reverse

theorem lex_element {t : RawTag} (ht : t.IsPlain) {w r : Text} {ts : List Token} {ok : Bool}
    (hw : lex (w ++ (endTag t.name ++ r)) =
      if ok then (lex (endTag t.name ++ r)).map (ts ++ ·) else none) :
    lex (startTag t.name t.attrs ++ w ++ endTag t.name ++ r) =
      if ok then
        (lex r).map ((.opening t.name t.attrs false :: ts ++ [.closing t.name]) ++ ·)
      else none := by
  rw [List.append_assoc, List.append_assoc, lex_startTag ht.1 ht.2, hw]
  cases ok with
  | false => rfl
  | true =>
    simp only [if_true, lex_endTag ht.1, Option.map_map]
    congr 1
    funext us
    simp

/-- Elements one inside the other are lexed as their tags and the text in the innermost. -/
theorem lex_nested {q : Html.Quotes} (hq : Readable q) {s : Text} (hs : '\r' ∉ s)
    {raws : List RawTag} (hraws : ∀ t ∈ raws, t.IsPlain) (r : Text) :
    ∃ ts, Spells ts s ∧ lex (nested raws (Html.escape q s) ++ '<' :: r) =
      if isLegal s then
        (lex ('<' :: r)).map ((openings raws ++ ts ++ closings raws) ++ ·)
      else none := by
  induction raws generalizing r with
  | nil =>
    simpa [nested, openings, closings, LexesEscaped, Html.escape] using
      lex_escape r (recovers_escape hq hs)
  | cons t raws ih =>
    obtain ⟨ht, hraws⟩ := List.forall_mem_cons.mp hraws
    obtain ⟨ts, hts, hlex⟩ := ih hraws ('/' :: t.name ++ '>' :: '<' :: r)
    have hend : '<' :: ('/' :: t.name ++ '>' :: '<' :: r) = endTag t.name ++ '<' :: r := by
      simp [endTag]
    rw [hend] at hlex
    refine ⟨ts, hts, ?_⟩
    rw [nested, lex_element ht hlex]
    simp [openings, closings]

/-! ### Text -/

/-- Nodes that come last first, with more text if there is any. -/
def joined (s : Text) (ns : List Node) : List Node := if s = [] then ns else joinText s ns

/-- The nodes of a text: one, or none if the text is empty. -/
def textNodes (s : Text) : List Node := joined s []

theorem joinText_joinText (s t : Text) (ns : List Node) :
    joinText t (joinText s ns) = joinText (s ++ t) ns := by
  cases ns with
  | nil => rfl
  | cons n ns =>
    cases n with
    | text u => simp [joinText]
    | _ => rfl

theorem joined_append {u : Text} (hu : u ≠ []) (s : Text) (ns : List Node) :
    joined s (joinText u ns) = joined (u ++ s) ns := by
  unfold joined
  rw [if_neg (List.append_ne_nil_of_left_ne_nil hu s), joinText_joinText]
  split
  · rename_i hs
    rw [hs, List.append_nil]
  · rfl

theorem normalizeLines_of_notMem {s : Text} (h : '\r' ∉ s) : normalizeLines s = s := by
  induction s with
  | nil => rfl
  | cons c s ih =>
    have hc : c ≠ '\r' := fun hc => h (hc ▸ List.mem_cons_self)
    rw [normalizeLines, ih fun hs => h (List.mem_cons_of_mem c hs)]
    · rintro t rfl
      exact absurd rfl hc
    · rintro rfl
      exact absurd rfl hc

/-- A step of reading that succeeds hands on what it has read. -/
theorem Reading.bind_eq_some_iff {α β : Type} {x : Reading α} {f : α → Reading β} {b : β}
    {p r : Progress} : (x >>= f) p = some (b, r) ↔
      ∃ a q, x p = some (a, q) ∧ f a q = some (b, r) := by
  show (x p).bind _ = _ ↔ _
  cases x p with
  | none => simp
  | some y => exact ⟨fun h => ⟨y.1, y.2, rfl, h⟩, fun ⟨_, _, hy, h⟩ => by
      obtain rfl := Option.some.inj hy
      exact h⟩

theorem Reading.bind_of_eq_some {α β : Type} {x : Reading α} {f : α → Reading β} {a : α}
    {p q : Progress} (h : x p = some (a, q)) : (x >>= f) p = f a q := by
  show (x p).bind _ = _
  rw [h]
  rfl

section Reading

variable {d : Definitions} {readText : Nat → Text → Text → Reading (List Node)} {st : Setting}

/-- Tokens that spell a text add it to the innermost element. -/
theorem readTokens_spells (hd : d.manner = .faithful) {ts : List Token} {s : Text}
    (hts : Spells ts s) (rest : List Token) (b : Base) (f : Frame) (up : List Frame) :
    readTokens d readText st (ts ++ rest) ⟨b, f :: up⟩ =
      readTokens d readText st rest ⟨b, { f with nodes := joined s f.nodes } :: up⟩ := by
  induction hts generalizing f with
  | nil => rfl
  | @text ts s raw following hne hcr _ ih =>
    have hadd : Stack.addRaw d st raw following ⟨b, f :: up⟩ =
        some ⟨b, { f with nodes := joinText raw f.nodes } :: up⟩ := by
      simp only [Stack.addRaw, hd, normalizeLines_of_notMem hcr]
      rfl
    rw [List.cons_append, readTokens, hadd, ← joined_append hne]
    exact ih { f with nodes := joinText raw f.nodes }
  | @char ts s c _ ih =>
    rw [List.cons_append, readTokens, show c :: s = [c] ++ s from rfl,
      ← joined_append (List.cons_ne_nil c [])]
    exact ih { f with nodes := joinText [c] f.nodes }

/-! ### Elements -/

/-- The tags that start tags stand for, each of which is inside the one before it. -/
def openTags (d : Definitions) (depth : Nat) : Scope → List RawTag → Reading (List Tag)
  | _, [] => pure []
  | scope, t :: ts => do
    let tag ← d.tag (depth - 1) (depth = Definitions.maxDepth) scope t.name t.attrs
    let tags ← openTags d depth (tag.bindings ++ scope) ts
    pure (tag :: tags)

/-- Elements one inside the other, with nodes in the innermost. -/
def nest : List Tag → List Node → List Node
  | [], ns => ns
  | t :: ts, ns => [.element t (nest ts ns)]

theorem reverse_nest_textNodes (tags : List Tag) (s : Text) :
    (nest tags (textNodes s)).reverse = nest tags (textNodes s) := by
  cases tags with
  | nil =>
    rw [nest, textNodes, joined]
    split <;> rfl
  | cons t tags => rfl

theorem openTags_cons_eq_some {depth : Nat} {scope : Scope} {t : RawTag} {raws : List RawTag}
    {p p' : Progress} {tags : List Tag}
    (h : openTags d depth scope (t :: raws) p = some (tags, p')) :
    ∃ tag rest q, tags = tag :: rest ∧
      d.tag (depth - 1) (depth = Definitions.maxDepth) scope t.name t.attrs p = some (tag, q) ∧
      openTags d depth (tag.bindings ++ scope) raws q = some (rest, p') := by
  obtain ⟨tag, q, htag, h⟩ := Reading.bind_eq_some_iff.mp h
  obtain ⟨rest, q', hrest, h⟩ := Reading.bind_eq_some_iff.mp h
  obtain ⟨rfl, rfl⟩ := Prod.mk.inj (Option.some.inj h)
  exact ⟨tag, rest, q, rfl, htag, hrest⟩

/-- A start tag opens an element. -/
theorem readTokens_opening {t : RawTag} {ts : List Token} {k : Stack} {p q : Progress} {tag : Tag}
    (hroom : st.around + k.frames.length < Stack.maxOpen)
    (htag : d.tag (st.depth - 1) (st.depth = Definitions.maxDepth) k.scope t.name t.attrs p =
      some (tag, q)) :
    readTokens d readText st (.opening t.name t.attrs false :: ts) k p =
      readTokens d readText st ts
        ⟨k.base, ⟨tag, t.name, k.scope, k.rule.inner tag, []⟩ :: k.frames⟩ q := by
  have hguard : (guard (st.around + k.frames.length < Stack.maxOpen) : Reading Unit) p =
      some ((), p) := by
    rw [guard, if_pos hroom]
    rfl
  rw [readTokens, Reading.bind_of_eq_some hguard, Reading.bind_of_eq_some htag]
  rfl

/-- An end tag closes the element of its name, which comes to stand in the one around it. -/
theorem readTokens_closing (ts : List Token) (b : Base) (f g : Frame) (up : List Frame) :
    readTokens d readText st (.closing f.written :: ts) ⟨b, f :: g :: up⟩ =
      readTokens d readText st ts
        ⟨b, { g with nodes := .element f.tag f.nodes.reverse :: g.nodes } :: up⟩ := by
  have hleave : Stack.leave f.written ⟨b, f :: g :: up⟩ =
      some ⟨b, { g with nodes := .element f.tag f.nodes.reverse :: g.nodes } :: up⟩ := if_pos rfl
  rw [readTokens, hleave]
  rfl

/-- The last end tag closes the root. -/
theorem readTokens_closing_root (ts : List Token) (f : Frame) :
    readTokens d readText st (.closing f.written :: ts) ⟨.document none, [f]⟩ =
      readTokens d readText st ts ⟨.document (some ⟨f.tag, f.nodes.reverse⟩), []⟩ := by
  have hleave : Stack.leave f.written ⟨.document none, [f]⟩ =
      some ⟨.document (some ⟨f.tag, f.nodes.reverse⟩), []⟩ := if_pos rfl
  rw [readTokens, hleave]
  rfl

/-- **Elements one inside the other are read into the innermost open element.** -/
theorem readTokens_nested (hd : d.manner = .faithful) {ts : List Token} {s : Text}
    (hts : Spells ts s) {raws : List RawTag} {tags : List Tag} {b : Base} {f : Frame}
    {up : List Frame} {p p' : Progress} (hf : f.nodes = [])
    (hroom : st.around + (f :: up).length + raws.length ≤ Stack.maxOpen)
    (htags : openTags d st.depth (f.tag.bindings ++ f.scope) raws p = some (tags, p'))
    (rest : List Token) :
    readTokens d readText st (openings raws ++ ts ++ closings raws ++ rest) ⟨b, f :: up⟩ p =
      readTokens d readText st rest ⟨b, { f with nodes := nest tags (textNodes s) } :: up⟩ p' := by
  induction raws generalizing tags f up p rest with
  | nil =>
    obtain ⟨rfl, rfl⟩ := Prod.mk.inj (Option.some.inj htags)
    simp only [openings, closings, List.map_nil, List.reverse_nil, List.nil_append, List.append_nil]
    rw [readTokens_spells hd hts rest b f up, hf]
    rfl
  | cons t raws ih =>
    obtain ⟨tag, inner, q, rfl, htag, hinner⟩ := openTags_cons_eq_some htags
    simp only [List.length_cons] at hroom
    have hopen : st.around + (f :: up).length < Stack.maxOpen := by
      rw [List.length_cons]
      omega
    have hsplit : openings (t :: raws) ++ ts ++ closings (t :: raws) ++ rest =
        .opening t.name t.attrs false ::
          (openings raws ++ ts ++ closings raws ++ .closing t.name :: rest) := by
      simp [openings, closings]
    let g : Frame := ⟨tag, t.name, f.tag.bindings ++ f.scope, f.rule.inner tag, []⟩
    have hg : st.around + (g :: f :: up).length + raws.length ≤ Stack.maxOpen := by
      simp only [List.length_cons]
      omega
    let closed : Frame := { g with nodes := nest inner (textNodes s) }
    have hclose : readTokens d readText st (.closing t.name :: rest) ⟨b, closed :: f :: up⟩ =
        readTokens d readText st rest
          ⟨b, { f with nodes := nest (tag :: inner) (textNodes s) } :: up⟩ := by
      refine (readTokens_closing rest b closed f up).trans ?_
      rw [hf, reverse_nest_textNodes]
      rfl
    rw [hsplit, readTokens_opening (k := ⟨b, f :: up⟩) hopen htag]
    exact (ih rfl hg hinner (.closing t.name :: rest)).trans (congrFun hclose p')

end Reading

/-! ### Documents -/

/-- Only the character of code zero is encoded with a zero in front. -/
theorem utf8EncodeChar_eq_cons {c : Char} (hc : c ≠ '\x00') :
    ∃ x xs, String.utf8EncodeChar c = x :: xs ∧ x ≠ 0 := by
  have hofNat : ∀ n, 0 < n → n < 256 → UInt8.ofNat n ≠ 0 := fun n hpos hlt h => by
    have hmod : n % 256 = 0 := by simpa using congrArg UInt8.toNat h
    omega
  have hpos : 0 < c.val.toNat := by
    refine Nat.pos_of_ne_zero fun h => hc (Char.ext (UInt32.toNat_inj.mp ?_))
    exact h
  unfold String.utf8EncodeChar
  dsimp only
  split
  · exact ⟨_, [], rfl, hofNat _ hpos (by omega)⟩
  split
  · exact ⟨_, _, rfl, hofNat _ (by omega) (by omega)⟩
  split
  · exact ⟨_, _, rfl, hofNat _ (by omega) (by omega)⟩
  · exact ⟨_, _, rfl, hofNat _ (by omega) (by omega)⟩

/-- A document that starts with a tag is not taken for one in another encoding. -/
theorem wideStart?_of_tag {c : Char} (hc : c ≠ '\x00') (s : Text) :
    wideStart? (Text.utf8 (('<' :: c :: s).take 4)) = none := by
  obtain ⟨x, xs, hx, hne⟩ := utf8EncodeChar_eq_cons hc
  have hsplit : Text.utf8 (('<' :: c :: s).take 4) = 0x3C :: x :: (xs ++ Text.utf8 (s.take 2)) := by
    simp only [List.take_succ_cons, Text.utf8, List.flatMap_cons, hx]
    rfl
  rw [hsplit]
  unfold wideStart?
  split <;> simp_all

/-- Nothing stands in front of the root of a document that starts with its tag. -/
theorem prolog?_of_startsName {c : Char} (hc : startsName c = true) (s : Text) :
    prolog? .faithful ('<' :: c :: s) = some (⟨false, [], none⟩, '<' :: c :: s) := by
  have hbang := ne_of_startsName (d := '!') hc (by decide)
  have hmark := ne_of_startsName (d := '?') hc (by decide)
  have hsniff : sniff? ('<' :: c :: s) = some ('<' :: c :: s, false) := by
    have hwide := wideStart?_of_tag (ne_of_startsName (d := '\x00') hc (by decide)) s
    unfold sniff?
    split
    · rename_i h
      exact absurd (List.cons.inj h).1 (by decide)
    · rw [hwide]
  have hheading : Scan.optionalHeading ('<' :: c :: s) =
      some (⟨none, false⟩, '<' :: c :: s) := by
    have hnone : Text.after? "<?xml".toList ('<' :: c :: s) = none :=
      Text.after?_eq_none_iff.mpr fun h =>
        hmark (List.cons_prefix_cons.mp (List.cons_prefix_cons.mp h).2).1.symm
    unfold Scan.optionalHeading
    simp only [Bind.bind, StateT.bind, Scan.rest, Option.bind_some, hnone]
    rfl
  have hcomment : "<!--".toList.isPrefixOf ('<' :: c :: s) = false := by
    rw [Bool.eq_false_iff]
    intro h
    have hprefix := (List.isPrefixOf_iff_prefix.mp h)
    exact hbang (List.cons_prefix_cons.mp (List.cons_prefix_cons.mp hprefix).2).1.symm
  have hinstruction : "<?".toList.isPrefixOf ('<' :: c :: s) = false := by
    rw [Bool.eq_false_iff]
    intro h
    have hprefix := (List.isPrefixOf_iff_prefix.mp h)
    exact hmark (List.cons_prefix_cons.mp (List.cons_prefix_cons.mp hprefix).2).1.symm
  have hmatter : Scan.untilDone Scan.atMatter Scan.asideToken ('<' :: c :: s) =
      some ([], '<' :: c :: s) := by
    rw [Scan.untilDone, Scan.atMatter, hcomment, hinstruction]
    rfl
  have hdoctype : Scan.accept "<!DOCTYPE" ('<' :: c :: s) = some (false, '<' :: c :: s) := by
    have hnone : Text.after? "<!DOCTYPE".toList ('<' :: c :: s) = none :=
      Text.after?_eq_none_iff.mpr fun h =>
        hbang (List.cons_prefix_cons.mp (List.cons_prefix_cons.mp h).2).1.symm
    unfold Scan.accept
    rw [hnone]
  have hafter : Scan.prologAfter false ('<' :: c :: s) =
      some (⟨false, [], none⟩, '<' :: c :: s) := by
    show (Scan.untilDone Scan.atMatter Scan.asideToken ('<' :: c :: s)).bind _ = _
    rw [hmatter]
    show (Scan.accept "<!DOCTYPE" ('<' :: c :: s)).bind _ = _
    rw [hdoctype]
    rfl
  rw [prolog?]
  simp only [hsniff, hheading, Option.bind_eq_bind, Option.bind_some]
  exact hafter

/-- The tokens of a document of elements one inside the other are read as these elements. -/
theorem readDocument_nested {ts : List Token} {s : Text} (hts : Spells ts s) {t : RawTag}
    {raws : List RawTag} {tag : Tag} {tags : List Tag} {p : Progress}
    (hroom : raws.length < Stack.maxOpen)
    (htags : openTags (.empty .faithful false) Definitions.maxDepth [] (t :: raws) .start =
      some (tag :: tags, p)) (bytes : Nat) :
    readDocument .faithful bytes ⟨false, [], none⟩
        (.opening t.name t.attrs false :: (openings raws ++ ts ++ closings raws) ++
          [.closing t.name]) .start =
      some (⟨tag, nest tags (textNodes s)⟩, p) := by
  obtain ⟨tag, tags, q, heq, htag, hinner⟩ := openTags_cons_eq_some htags
  obtain ⟨rfl, rfl⟩ := List.cons.inj heq
  let d := Definitions.empty .faithful false
  let readText := readEntity d Definitions.maxDepth
  let st : Setting := ⟨bytes, Definitions.maxDepth, 0⟩
  let f : Frame := ⟨tag, t.name, [], SpaceRule.unset.inner tag, []⟩
  let closed : Frame := { f with nodes := nest tags (textNodes s) }
  have hopen : st.around + ([] : List Frame).length < Stack.maxOpen := by
    show 0 < Stack.maxOpen
    decide
  have hroom' : st.around + [f].length + raws.length ≤ Stack.maxOpen := by
    show 0 + 1 + raws.length ≤ Stack.maxOpen
    omega
  have hclose : readTokens d readText st [.closing t.name] ⟨.document none, [closed]⟩ p =
      some (⟨.document (some ⟨tag, nest tags (textNodes s)⟩), []⟩, p) := by
    refine (congrFun (readTokens_closing_root [] closed) p).trans ?_
    rw [reverse_nest_textNodes]
    rfl
  have hread : readTokens d readText st
      (.opening t.name t.attrs false ::
        (openings raws ++ ts ++ closings raws ++ [.closing t.name])) ⟨.document none, []⟩ .start =
      some (⟨.document (some ⟨tag, nest tags (textNodes s)⟩), []⟩, p) := by
    rw [readTokens_opening (k := ⟨.document none, []⟩) hopen htag]
    exact (readTokens_nested rfl hts rfl hroom' hinner [.closing t.name]).trans hclose
  show (readTokens d readText st _ ⟨.document none, []⟩ .start).bind _ = _
  rw [List.cons_append, hread]
  rfl

/-- **A document of elements one inside the other is read**, if it starts with the tag of a
formula and its text may stand in a document. -/
theorem parse?_nested {q : Html.Quotes} (hq : Readable q) {s : Text} (hs : '\r' ∉ s) {t : RawTag}
    {raws : List RawTag} (hraws : ∀ r ∈ t :: raws, r.IsPlain) (hm : t.name.head? = some 'm')
    {tag : Tag} {tags : List Tag} {p : Progress}
    (hroom : raws.length < Stack.maxOpen)
    (htags : openTags (.empty .faithful false) Definitions.maxDepth [] (t :: raws) .start =
      some (tag :: tags, p)) (hp : p.accepts = true) :
    parse? .faithful (nested (t :: raws) (Html.escape q s)) =
      if isLegal s then some ⟨tag, nest tags (textNodes s)⟩ else none := by
  obtain ⟨w, hw⟩ : ∃ w, nested (t :: raws) (Html.escape q s) = '<' :: 'm' :: w := by
    obtain ⟨name, attrs⟩ := t
    obtain ⟨u, rfl⟩ := List.head?_eq_some_iff.mp hm
    exact ⟨_, rfl⟩
  obtain ⟨ht, hinner⟩ := List.forall_mem_cons.mp hraws
  obtain ⟨ts, hts, hlex⟩ := lex_nested hq hs hinner ('/' :: t.name ++ ['>'])
  have hend : '<' :: ('/' :: t.name ++ ['>']) = endTag t.name ++ [] := by simp [endTag]
  rw [hend] at hlex
  have hwhole := lex_element ht hlex
  rw [List.append_nil, ← nested, lex] at hwhole
  have hprolog := prolog?_of_startsName (c := 'm') (by decide) w
  rw [← hw] at hprolog
  rw [parse?, hprolog]
  simp only [Option.bind_eq_bind, Option.bind_some, hwhole]
  cases isLegal s with
  | false => rfl
  | true =>
    have hread := readDocument_nested hts hroom htags
      (Text.byteLength (nested (t :: raws) (Html.escape q s)))
    simp only [if_true, Option.map_some, List.append_nil, Option.bind_some, StateT.run, hread, hp]
    rfl

end Xml
end Formulary
