/-
# Formulas that cannot be converted

Where the converters give up, each form of a formula shows the same readable
text, whatever characters this text holds: markup that shows it can be read back
(`Html.unescape_escape`), and the way from the MathML to the fragment, which
reads the text from one and writes it into the other, loses nothing, also where
the MathML cannot be read as XML (`MathMl.text_errorText`). This way leads over
bytes, so a source with half of a pair has no fragment and no other form.

Key definitions: `MathMl.errorTags`, `MathMl.errorText`, `Omml.textTags`.
Key theorems: `mem_latexLabel`, `MathMl.text_errorText`, `Omml.parse?_plainFragment`,
`convertFormula_failed`.
-/
import Formulary.Formula.Markup
import Formulary.Proofs.Formula.Completion
import Formulary.Proofs.Text.Loose
import Formulary.Proofs.Xml.Nested

namespace Formulary

/-! ### Readable text -/

theorem mem_expandSymbols {s : Text} {c : Char} (h : c ∈ expandSymbols s) :
    c ∈ s ∨ ∃ w, symbol? w = some c := by
  fun_induction expandSymbols s with
  | case1 => exact absurd h List.not_mem_nil
  | case2 s x hx ih =>
    rcases List.mem_cons.mp h with rfl | h
    · exact .inr ⟨_, hx⟩
    · exact (ih h).imp_left fun h =>
        List.mem_cons_of_mem _ ((List.dropWhile_sublist _).subset h)
  | case3 s hx ih =>
    rw [List.cons_append] at h
    rcases List.mem_cons.mp h with rfl | h
    · exact .inl List.mem_cons_self
    · rcases List.mem_append.mp h with h | h
      · exact .inl (List.mem_cons_of_mem _ ((List.takeWhile_sublist _).subset h))
      · exact (ih h).imp_left fun h =>
          List.mem_cons_of_mem _ ((List.dropWhile_sublist _).subset h)
  | case4 c' s hc ih =>
    rcases List.mem_cons.mp h with rfl | h
    · exact .inl List.mem_cons_self
    · exact (ih h).imp_left (List.mem_cons_of_mem _)

theorem mem_of_mem_strip {s : Text} {c : Char} (h : c ∈ Text.strip s) : c ∈ s := by
  have hright := List.mem_reverse.mp h
  have hleft := List.mem_reverse.mp ((List.dropWhile_sublist _).subset hright)
  exact (List.dropWhile_sublist _).subset hleft

/-- The readable text of a formula holds characters of its source and symbols. -/
theorem mem_latexLabel {s : Text} {c : Char} (h : c ∈ latexLabel s) :
    c ∈ s ∨ ∃ w, symbol? w = some c := by
  rw [latexLabel] at h
  split at h
  · exact .inl h
  · exact mem_expandSymbols (List.mem_filter.mp (mem_of_mem_strip h)).1

theorem symbol?_mem {w : Text} {c : Char} (h : symbol? w = some c) : c ∈ symbols.map (·.2) := by
  obtain ⟨p, hp, rfl⟩ := Option.map_eq_some_iff.mp h
  exact List.mem_map_of_mem (List.mem_of_find?_eq_some hp)

theorem return_notMem_latexLabel {s : Text} (h : '\r' ∉ s) : '\r' ∉ latexLabel s := by
  intro hmem
  rcases mem_latexLabel hmem with hmem | ⟨w, hw⟩
  · exact h hmem
  · exact absurd (symbol?_mem hw) (by decide)

/-- A letter, a blank or markup is not the stand-in for halves. -/
theorem count_stand_of_absent {s : Text} {p : Char → Bool} (hs : ∀ c ∈ s, p c = true)
    (hp : p LooseChar.stand = false) : List.count LooseChar.stand s = 0 :=
  List.count_eq_zero.mpr fun h => by simpa [hp] using hs _ h

theorem count_stand_dropWhile {p : Char → Bool} (hp : p LooseChar.stand = false) (s : Text) :
    List.count LooseChar.stand (s.dropWhile p) = List.count LooseChar.stand s := by
  have hfront : List.count LooseChar.stand (s.takeWhile p) = 0 :=
    count_stand_of_absent (fun _ hc => List.mem_takeWhile_imp hc) hp
  conv_rhs => rw [← List.takeWhile_append_dropWhile (p := p) (l := s)]
  rw [List.count_append, hfront, Nat.zero_add]

theorem count_stand_expandSymbols (s : Text) :
    List.count LooseChar.stand (expandSymbols s) = List.count LooseChar.stand s := by
  have halpha : Char.isAlpha LooseChar.stand = false := by decide
  fun_induction expandSymbols s with
  | case1 => rfl
  | case2 s x hx ih =>
    have hne : x ≠ LooseChar.stand := fun h => absurd (h ▸ symbol?_mem hx) (by decide)
    rw [List.count_cons_of_ne hne, List.count_cons_of_ne (by decide), ih,
      count_stand_dropWhile halpha]
  | case3 s hx ih =>
    have hletters : List.count LooseChar.stand (s.takeWhile Char.isAlpha) = 0 :=
      count_stand_of_absent (fun _ hc => List.mem_takeWhile_imp hc) halpha
    rw [List.cons_append, List.count_cons_of_ne (by decide), List.count_cons_of_ne (by decide),
      List.count_append, ih, count_stand_dropWhile halpha, hletters, Nat.zero_add]
  | case4 c s hc ih => rw [List.count_cons, List.count_cons, ih]

theorem count_stand_strip (s : Text) :
    List.count LooseChar.stand (Text.strip s) = List.count LooseChar.stand s := by
  have hblank : Text.isBlank LooseChar.stand = false := by decide
  rw [Text.strip, Text.stripRight, List.count_reverse,
    count_stand_dropWhile hblank, List.count_reverse, Text.stripLeft, count_stand_dropWhile hblank]

/-- The readable text has the halves of its source. -/
theorem count_stand_latexLabel (s : Text) :
    List.count LooseChar.stand (latexLabel s) = List.count LooseChar.stand s := by
  rw [latexLabel]
  split
  · rfl
  · rw [latexText, count_stand_strip, List.count_filter (by decide), count_stand_expandSymbols]

theorem count_stand_escape (s : Text) :
    List.count LooseChar.stand (Html.escape .named s) = List.count LooseChar.stand s := by
  induction s with
  | nil => rfl
  | cons c s ih =>
    have hchar : List.count LooseChar.stand (Html.escapeChar .named c) =
        List.count LooseChar.stand [c] := by
      cases h : Html.isEscaped c with
      | false => rw [Html.escapeChar_of_not_isEscaped h]
      | true => rcases Html.isEscaped_cases h with rfl | rfl | rfl | rfl | rfl <;> decide
    rw [Html.escape, List.flatMap_cons, List.count_append, ← Html.escape, ih, hchar,
      ← List.count_append, List.singleton_append]

theorem shownLabel_ofText (s : Text) :
    shownLabel (.ofText s) = .ofText (Html.escape .named (latexLabel s)) := by
  rw [shownLabel, LooseText.lift_ofText, LooseText.lift_ofText]

theorem hasHalf_shownLabel (s : LooseText) : (shownLabel s).hasHalf = s.hasHalf := by
  rw [shownLabel, LooseText.hasHalf_lift _ count_stand_escape,
    LooseText.hasHalf_lift _ count_stand_latexLabel]

/-! ### Text without tags -/

namespace MathMl

theorem dropTags_cons {c : Char} (h : c ≠ '<') (s : Text) :
    dropTags (c :: s) = c :: dropTags s := by
  rw [dropTags, if_neg h]

theorem dropTags_append {u : Text} (h : '<' ∉ u) (s : Text) :
    dropTags (u ++ s) = u ++ dropTags s := by
  induction u with
  | nil => rfl
  | cons c u ih =>
    have hc : c ≠ '<' := fun hc => h (hc ▸ List.mem_cons_self)
    rw [List.cons_append, dropTags_cons hc, ih fun hu => h (List.mem_cons_of_mem c hu)]
    rfl

/-- A tag is dropped. -/
theorem dropTags_tag {u : Text} (hne : u ≠ []) (h : '>' ∉ u) (s : Text) :
    dropTags ('<' :: (u ++ '>' :: s)) = dropTags s := by
  obtain ⟨c, w, rfl⟩ := List.exists_cons_of_ne_nil hne
  have hcut := Text.cut?_char h s
  rw [dropTags, if_pos rfl]
  split
  · rename_i heq
    rw [hcut] at heq
    obtain ⟨-, rfl⟩ := Prod.mk.inj (Option.some.inj heq)
    rfl
  · rename_i hnot
    exact absurd hcut (hnot c w s)

/-- Of elements one inside the other the text is left. -/
theorem dropTags_nested {raws : List Xml.RawTag}
    (hraws : ∀ t ∈ raws, t.name ≠ [] ∧ '>' ∉ t.name ++ t.attrs.flatMap Xml.RawAttr.print) {s : Text}
    (hs : '<' ∉ s) (r : Text) : dropTags (Xml.nested raws s ++ r) = s ++ dropTags r := by
  induction raws generalizing r with
  | nil => exact dropTags_append hs r
  | cons t raws ih =>
    obtain ⟨⟨hne, ht⟩, hraws⟩ := List.forall_mem_cons.mp hraws
    have hname : '>' ∉ '/' :: t.name := fun h => by
      rcases List.mem_cons.mp h with h | h
      · exact absurd h (by decide)
      · exact ht (List.mem_append_left _ h)
    have hsplit : Xml.nested (t :: raws) s ++ r =
        '<' :: (t.name ++ t.attrs.flatMap Xml.RawAttr.print ++ '>' ::
          (Xml.nested raws s ++ '<' :: ('/' :: t.name ++ '>' :: r))) := by
      simp [Xml.nested, Xml.startTag, Xml.endTag]
    rw [hsplit, dropTags_tag (List.append_ne_nil_of_left_ne_nil hne _) ht, ih hraws,
      dropTags_tag (List.cons_ne_nil _ _) hname]

/-! ### The error document -/

/-- The start tags of the error document. -/
def errorTags (display : Bool) : List Xml.RawTag :=
  [⟨"math".toList, [⟨"xmlns".toList, uri⟩, ⟨"display".toList, displayValue display⟩]⟩,
    ⟨"merror".toList, []⟩, ⟨"mtext".toList, []⟩]

/-- The error document for a source of characters. -/
def errorText (latex : Text) (display : Bool) : Text :=
  Xml.nested (errorTags display) (Html.escape .named (latexLabel latex))

theorem errorText_eq (latex : Text) (display : Bool) :
    errorText latex display = "<math xmlns=\"".toList ++ uri ++ "\" display=\"".toList ++
      displayValue display ++ "\"><merror><mtext>".toList ++
      Html.escape .named (latexLabel latex) ++ "</mtext></merror></math>".toList := by
  have hopen : "<math xmlns=\"".toList ++ uri ++ "\" display=\"".toList ++ displayValue display ++
      "\"><merror><mtext>".toList =
      (errorTags display).flatMap fun t => Xml.startTag t.name t.attrs := by
    cases display <;> rfl
  have hclose : "</mtext></merror></math>".toList = Xml.endTag "mtext".toList ++
      (Xml.endTag "merror".toList ++ Xml.endTag "math".toList) := by rfl
  refine Eq.trans ?_ (List.append_assoc _ _ _).symm
  refine Eq.trans ?_
    (congrArg₂ (· ++ ·) hopen (congrArg (Html.escape .named _ ++ ·) hclose)).symm
  simp only [errorText, errorTags, Xml.nested, List.flatMap_cons, List.flatMap_nil,
    List.append_assoc, List.nil_append]

theorem errorDocument_ofText (latex : Text) (display : Bool) :
    errorDocument (.ofText latex) display = .ofText (errorText latex display) := by
  rw [errorDocument, shownLabel_ofText, ← LooseText.ofText_append, ← LooseText.ofText_append,
    errorText_eq]

theorem hasHalf_errorDocument (latex : LooseText) (display : Bool) :
    (errorDocument latex display).hasHalf = latex.hasHalf := by
  rw [errorDocument, LooseText.hasHalf_append, LooseText.hasHalf_append,
    LooseText.hasHalf_ofText, LooseText.hasHalf_ofText, hasHalf_shownLabel, Bool.false_or,
    Bool.or_false]

/-- The elements of the error document. -/
def errorRoot (display : Bool) : Xml.Tag :=
  ⟨⟨some ⟨1, [], uri⟩, "math".toList⟩, [⟨1, [], uri⟩],
    [⟨⟨none, "display".toList⟩, displayValue display⟩]⟩

theorem openTags_errorTags (display : Bool) :
    Xml.openTags (.empty .faithful false) Xml.Definitions.maxDepth [] (errorTags display) .start =
      some ([errorRoot display, ⟨⟨some ⟨1, [], uri⟩, "merror".toList⟩, [], []⟩,
        ⟨⟨some ⟨1, [], uri⟩, "mtext".toList⟩, [], []⟩], ⟨[], 1, [], [], 0⟩) := by
  cases display <;> decide +kernel

/-- The error document is well formed if and only if its text may stand in a document. -/
theorem parse?_errorText {latex : Text} (hcr : '\r' ∉ latex) (display : Bool) :
    Xml.parse? .faithful (errorText latex display) =
      if Xml.isLegal (latexLabel latex) then
        some ⟨errorRoot display, Xml.nest [⟨⟨some ⟨1, [], uri⟩, "merror".toList⟩, [], []⟩,
          ⟨⟨some ⟨1, [], uri⟩, "mtext".toList⟩, [], []⟩] (Xml.textNodes (latexLabel latex))⟩
      else none := by
  exact Xml.parse?_nested (.inr rfl) (return_notMem_latexLabel hcr)
    (by cases display <;> decide) rfl (by decide) (openTags_errorTags display) (by decide)

theorem contentAll_textNodes (s : Text) : Xml.contentAll (Xml.textNodes s) = s := by
  unfold Xml.textNodes Xml.joined
  split
  · rename_i hs
    rw [hs]
    rfl
  · simp [Xml.joinText, Xml.contentAll, Xml.Node.content]

theorem dropTags_errorText (latex : Text) (display : Bool) :
    dropTags (errorText latex display) = Html.escape .named (latexLabel latex) := by
  have htags : ∀ t ∈ errorTags display,
      t.name ≠ [] ∧ '>' ∉ t.name ++ t.attrs.flatMap Xml.RawAttr.print := by
    cases display <;> decide
  have hdrop := dropTags_nested htags (Html.notMem_escape_named (latexLabel latex)).1 []
  rw [errorText]
  simpa [dropTags] using hdrop

/-- An error document has a text, be it well formed or not. -/
theorem text_errorText_isOk (latex : Text) (display : Bool) :
    ∃ s, text (errorText latex display) = .ok s := by
  unfold text
  split
  · exact ⟨_, rfl⟩
  · exact ⟨_, by rw [dropTags_errorText, Html.unescape_escape]⟩

/-- **The error document says its text**, be it well formed or not. -/
theorem text_errorText {latex : Text} (hcr : '\r' ∉ latex) (display : Bool) :
    text (errorText latex display) = .ok (latexLabel latex) := by
  rw [text, parse?_errorText hcr]
  cases Xml.isLegal (latexLabel latex) with
  | true => simp [Xml.nest, Xml.contentAll, Xml.Node.content, contentAll_textNodes]
  | false =>
    show Html.unescape (dropTags (errorText latex display)) = _
    rw [dropTags_errorText, Html.unescape_escape]

end MathMl

/-! ### The fragment -/

namespace Omml

/-- The start of a fragment up to the closing bracket of its first tag. -/
def textHead : Text := "<m:oMath xmlns:m=\"".toList ++ uri ++ ['"']

/-- The start tags of a fragment that holds one text, once its declarations are complete. -/
def textTags : List Xml.RawTag :=
  [⟨"m:oMath".toList, [⟨"xmlns:m".toList, uri⟩, ⟨"xmlns:w".toList, wordUri⟩]⟩, ⟨"m:r".toList, []⟩,
    ⟨"m:t".toList, []⟩]

theorem plainFragment_eq (s : Text) :
    plainFragment s = textHead ++ '>' :: ("<m:r><m:t>".toList ++
      (Html.escape .plain s ++ "</m:t></m:r></m:oMath>".toList)) := by
  have hopen : "<m:oMath xmlns:m=\"".toList ++ uri ++ "\"><m:r><m:t>".toList =
      textHead ++ '>' :: "<m:r><m:t>".toList := by rfl
  refine (List.append_assoc _ _ _).trans ?_
  rw [hopen, List.append_assoc, List.cons_append]

/-- A text that is no declaration and has no blanks at its ends is completed in its first tag. -/
theorem complete_of_head {head rest : Text} (hm : ∃ w, head = '<' :: 'm' :: w) (hclose : '>' ∉ head)
    (hslash : ownSlash head = []) (hrest : ∃ u, '>' :: rest = u ++ ['>']) :
    complete (head ++ '>' :: rest) = head ++ lacking head ++ '>' :: rest := by
  obtain ⟨w, hw⟩ := hm
  obtain ⟨u, hu⟩ := hrest
  have htrim : (head ++ '>' :: rest).IsTrim := by
    rw [hw, hu]
    refine ⟨fun c hc => ?_, fun c hc => ?_⟩
    · obtain rfl : '<' = c := Option.some.inj hc
      decide
    · rw [← List.append_assoc, List.getLast?_concat] at hc
      obtain rfl : '>' = c := Option.some.inj hc
      decide
  have hdeclaration : ¬ "<?".toList <+: head ++ '>' :: rest := fun h => by
    rw [hw] at h
    exact absurd (List.cons_prefix_cons.mp (List.cons_prefix_cons.mp h).2).1 (by decide)
  have hfront : head = head ++ ownSlash head := by rw [hslash, List.append_nil]
  have hadded := complete_of_first (strip_dropDeclaration htrim hdeclaration) hclose hfront
  rwa [hslash, List.append_nil] at hadded

/-- A fragment that holds one text misses the declaration of Word's own markup. -/
theorem complete_plainFragment (s : Text) :
    complete (plainFragment s) = Xml.nested textTags (Html.escape .plain s) := by
  have hm : ∃ w, textHead = '<' :: 'm' :: w := ⟨_, rfl⟩
  have hrest : ∃ u, '>' :: ("<m:r><m:t>".toList ++ (Html.escape .plain s ++
      "</m:t></m:r></m:oMath>".toList)) = u ++ ['>'] := by
    refine ⟨'>' :: ("<m:r><m:t>".toList ++ (Html.escape .plain s ++
      "</m:t></m:r></m:oMath".toList)), ?_⟩
    simp only [List.cons_append, List.append_assoc]
    rfl
  have hlacking : lacking textHead = declaration "w" wordUri := by decide +kernel
  have hopen : textHead ++ declaration "w" wordUri ++ '>' :: "<m:r><m:t>".toList =
      textTags.flatMap fun t => Xml.startTag t.name t.attrs := by rfl
  have hclose : "</m:t></m:r></m:oMath>".toList = Xml.endTag "m:t".toList ++
      (Xml.endTag "m:r".toList ++ Xml.endTag "m:oMath".toList) := by rfl
  rw [plainFragment_eq, complete_of_head hm (by decide) (by decide +kernel) hrest, hlacking]
  generalize Html.escape .plain s = e
  calc textHead ++ declaration "w" wordUri ++
        '>' :: ("<m:r><m:t>".toList ++ (e ++ "</m:t></m:r></m:oMath>".toList))
      = (textHead ++ declaration "w" wordUri ++ '>' :: "<m:r><m:t>".toList) ++
          (e ++ "</m:t></m:r></m:oMath>".toList) := by
        rw [← List.cons_append, ← List.append_assoc]
    _ = _ := congrArg₂ (· ++ ·) hopen (congrArg (e ++ ·) hclose)
    _ = Xml.nested textTags e := by
        simp only [textTags, Xml.nested, List.flatMap_cons, List.flatMap_nil, List.append_assoc,
          List.nil_append]

/-- The declarations of a completed fragment. -/
def textBindings : List Xml.Binding := [⟨1, ['m'], uri⟩, ⟨2, ['w'], wordUri⟩]

/-- The name of an element of OMML in a completed fragment. -/
def textName (loc : String) : Xml.Name := ⟨some ⟨1, ['m'], uri⟩, loc.toList⟩

theorem openTags_textTags :
    Xml.openTags (.empty .faithful false) Xml.Definitions.maxDepth [] textTags .start =
      some ([⟨textName "oMath", textBindings, []⟩, ⟨textName "r", [], []⟩, ⟨textName "t", [], []⟩],
        ⟨[], 2, [], [], 0⟩) := by
  decide +kernel

/-- A fragment that holds one text can be read if this text may stand in a document. -/
theorem parse?_plainFragment {s : Text} (hcr : '\r' ∉ s) (hlegal : Xml.isLegal s = true) :
    parse? (plainFragment s) =
      some ⟨⟨textName "oMath", textBindings, []⟩,
        Xml.nest [⟨textName "r", [], []⟩, ⟨textName "t", [], []⟩] (Xml.textNodes s)⟩ := by
  rw [parse?, complete_plainFragment]
  refine (Xml.parse?_nested (.inl rfl) hcr (by decide) rfl (by decide) openTags_textTags
    (by decide)).trans ?_
  rw [hlegal]
  rfl

theorem plainNodes_textNodes (s : Text) : plainNodes (Xml.textNodes s) = true := by
  unfold Xml.textNodes Xml.joined
  split <;> rfl

theorem leadingText_textNodes (s : Text) : Xml.leadingText (Xml.textNodes s) = s := by
  unfold Xml.textNodes Xml.joined
  split
  · rename_i hs
    rw [hs]
    rfl
  · simp [Xml.joinText, Xml.leadingText]

theorem nodesText_textNodes (s : Text) : nodesText (Xml.textNodes s) = [] := by
  unfold Xml.textNodes Xml.joined
  split <;> rfl

/-- The readable text of a formula is found in the fragment that holds it. -/
theorem plain_plainFragment {s : Text} (hcr : '\r' ∉ s) (hlegal : Xml.isLegal s = true) :
    isPlain (plainFragment s) = true ∧ text (plainFragment s) = s := by
  have hnames : ∀ loc ∈ ["oMath", "r", "t"], isPlainName (textName loc) = true := by decide
  have ht : (textName "t").is uri "t" = true ∧ (textName "r").is uri "t" = false ∧
      (textName "oMath").is uri "t" = false := by decide
  rw [isPlain, text, parse?_plainFragment hcr hlegal]
  constructor
  · simp only [Xml.Element.node, Xml.nest, plainNode, plainNodes, plainNodes_textNodes,
      hnames "oMath" (by decide), hnames "r" (by decide), hnames "t" (by decide), Bool.and_self]
  · simp only [Xml.Element.node, Xml.nest, nodeText, nodesText, ht, leadingText_textNodes,
      nodesText_textNodes, Bool.false_eq_true, if_false, if_true, List.nil_append, List.append_nil]

end Omml

/-! ### All forms of a formula -/

theorem ommlAnswer_of_blank {fc : FormulaConverters} {mathml : LooseText}
    (h : ∀ a, fc.omml mathml = .ok a → ∀ c ∈ a.mask, Text.isBlank c = true) :
    ommlAnswer fc mathml = [] := by
  unfold ommlAnswer
  split
  · rename_i a ha
    have hleft : Text.stripLeft a.mask = [] := List.dropWhile_eq_nil_iff.mpr (h a ha)
    have hdrop : Omml.dropDeclaration a.mask = a.mask := by
      rw [Omml.dropDeclaration, hleft]
      rfl
    rw [LooseText.lift, hdrop, Text.strip, hleft]
    exact LooseText.putBack_nil a
  · rfl

section Failed

variable {fc : FormulaConverters} {latex why : LooseText} {display : Bool}

theorem startingForms_of_failed (h : fc.mathml latex display = .error why) :
    startingForms fc latex display = (MathMl.errorDocument latex display, errorSpan latex why) := by
  have hfail : tryFormula fc latex display = .error why := by
    rw [tryFormula, h]
    rfl
  rw [startingForms, hfail]

/-- The fragment of an error document. -/
theorem ommlOf_errorDocument
    (h : ∀ a, fc.omml (MathMl.errorDocument latex display) = .ok a →
      ∀ c ∈ a.mask, Text.isBlank c = true) :
    ommlOf fc (MathMl.errorDocument latex display) =
      (MathMl.errorDocument latex display).toText.bind fun document =>
        (MathMl.text document).bind fun text => .ok (.ofText (plainFragment text)) := by
  rw [ommlOf, if_pos (ommlAnswer_of_blank h)]
  rfl

end Failed

/-- **A formula that cannot be converted shows one readable text in all of its forms**, unless
there is half of a pair in it: such a formula has no form at all. The text is that of
`latexLabel`, and it is the same whether the error document can be read as XML or not. -/
theorem convertFormula_failed (fc : FormulaConverters) (latex why : LooseText) (display : Bool)
    (hcr : '\r' ∉ latex.mask) (hmathml : fc.mathml latex display = .error why)
    (homml : ∀ a, fc.omml (MathMl.errorDocument latex display) = .ok a →
      ∀ c ∈ a.mask, Text.isBlank c = true) :
    (latex.hasHalf = true →
      ∃ units place, convertFormula fc latex display = .error (.unpaired units place)) ∧
    ∀ source : Text, latex = .ofText source → ∃ forms title content,
      convertFormula fc latex display = .ok forms ∧
      forms.preview =
        .ofText "<span class=\"math-error\" title=\"".toList ++ title ++ .ofText "\">".toList ++
          .ofText content ++ .ofText "</span>".toList ∧
      ('<' ∉ title.mask ∧ '>' ∉ title.mask ∧ '"' ∉ title.mask) ∧
      ('<' ∉ content ∧ '>' ∉ content) ∧
      (Html.unescape title.mask).map title.putBack = .ok why ∧
      Html.unescape content = .ok (latexLabel source) ∧
      forms.mathml =
        .ofText ("<math xmlns=\"".toList ++ MathMl.uri ++ "\" display=\"".toList ++
          MathMl.displayValue display ++ "\"><merror><mtext>".toList ++ content ++
          "</mtext></merror></math>".toList) ∧
      (Xml.parse? .faithful forms.mathml.mask).isSome = Xml.isLegal (latexLabel source) ∧
      forms.omml =
        .ofText ("<m:oMath xmlns:m=\"".toList ++ Omml.uri ++ "\"><m:r><m:t>".toList ++
          Html.escape .plain (latexLabel source) ++ "</m:t></m:r></m:oMath>".toList) ∧
      (Xml.isLegal (latexLabel source) = true →
        Omml.isPlain forms.omml.mask = true ∧ Omml.text forms.omml.mask = latexLabel source) := by
  have hconvert : convertFormula fc latex display =
      (ommlOf fc (MathMl.errorDocument latex display)).bind fun omml =>
        .ok ⟨errorSpan latex why, MathMl.errorDocument latex display, omml⟩ := by
    rw [convertFormula, startingForms_of_failed hmathml]
    rfl
  refine ⟨fun hhalf => ?_, ?_⟩
  · have hdocument := hhalf
    rw [← MathMl.hasHalf_errorDocument latex display] at hdocument
    obtain ⟨a, units, r, -, -, -, hbytes⟩ := LooseText.toText_of_hasHalf hdocument
    refine ⟨units, a.length, ?_⟩
    rw [hconvert, ommlOf_errorDocument homml, hbytes]
    rfl
  · rintro source rfl
    rw [LooseText.mask_ofText] at hcr
    have homml' : ommlOf fc (MathMl.errorDocument (.ofText source) display) =
        .ok (.ofText (plainFragment (latexLabel source))) := by
      rw [ommlOf_errorDocument homml, MathMl.errorDocument_ofText, LooseText.toText_ofText]
      show (MathMl.text (MathMl.errorText source display)).bind _ = _
      rw [MathMl.text_errorText hcr]
      rfl
    have hparse : (Xml.parse? .faithful (MathMl.errorText source display)).isSome =
        Xml.isLegal (latexLabel source) := by
      rw [MathMl.parse?_errorText hcr]
      cases Xml.isLegal (latexLabel source) <;> rfl
    have hplain := @Omml.plain_plainFragment (latexLabel source) (return_notMem_latexLabel hcr)
    have htitle : (why.lift (Html.escape .named)).mask = Html.escape .named why.mask :=
      LooseText.mask_lift why _
    obtain ⟨hopen, hclose, -⟩ := Html.notMem_escape_named (latexLabel source)
    rw [homml', MathMl.errorDocument_ofText, errorSpan, shownLabel_ofText] at hconvert
    refine ⟨_, why.lift (Html.escape .named), Html.escape .named (latexLabel source), hconvert, rfl,
      htitle ▸ Html.notMem_escape_named why.mask, ⟨hopen, hclose⟩, ?_, Html.unescape_escape _, ?_,
      ?_, rfl, fun hlegal => ?_⟩
    · rw [htitle, Html.unescape_escape]
      exact congrArg _ (LooseText.putBack_lift why count_stand_escape)
    · exact congrArg LooseText.ofText (MathMl.errorText_eq source display)
    · rw [← hparse]
      exact congrArg _ (congrArg _ (LooseText.mask_ofText _))
    · rw [show (LooseText.ofText (plainFragment (latexLabel source))).mask = _ from
        LooseText.mask_ofText _]
      exact hplain hlegal

/-- Converters of formulas that give up with a message, or answer with blanks. -/
def refusing (message : LooseText) : FormulaConverters where
  mathml _ _ := .error message
  omml _ := .ok (.ofText " \n".toList)
  report _ := []

/-- Source with a reference, a tag and quotation marks in it. -/
def hostileLatex : Text := "\\alpha &lt; <b> \"c\" 'd'".toList

/-- A message with markup and half of a pair in it. -/
def hostileMessage : LooseText := LooseText.ofText "<e> & \"f\"".toList ++ [.half 0xD800]

theorem convertFormula_failed_hostileLatex :
    '\r' ∉ hostileLatex ∧ latexLabel hostileLatex = "α &lt; <b> \"c\" 'd'".toList ∧
    (∃ forms title content,
      convertFormula (refusing hostileMessage) (.ofText hostileLatex) true = .ok forms ∧
      Omml.isPlain forms.omml.mask = true ∧
      Omml.text forms.omml.mask = latexLabel hostileLatex ∧
      forms.preview =
        .ofText "<span class=\"math-error\" title=\"".toList ++ title ++ .ofText "\">".toList ++
          .ofText content ++ .ofText "</span>".toList ∧
      (Html.unescape title.mask).map title.putBack = .ok hostileMessage ∧
      Html.unescape content = .ok (latexLabel hostileLatex)) ∧
    ∃ units place, convertFormula (refusing []) [.half 0xD83D] false =
      .error (.unpaired units place) := by
  have hcr : '\r' ∉ hostileLatex := by decide
  have hblank : ∀ (message document a : LooseText), (refusing message).omml document = .ok a →
      ∀ c ∈ a.mask, Text.isBlank c = true := by
    intro message document a ha
    obtain rfl := Except.ok.inj ha
    exact List.all_eq_true.mp (by decide)
  have hlabel : latexLabel hostileLatex = "α &lt; <b> \"c\" 'd'".toList := by decide +kernel
  obtain ⟨-, hforms⟩ := convertFormula_failed (refusing hostileMessage) (.ofText hostileLatex)
    hostileMessage true (by rwa [LooseText.mask_ofText]) rfl (hblank _ _)
  obtain ⟨forms, title, content, hconvert, hpreview, -, -, htitle, hcontent, -, -, -, hplain⟩ :=
    hforms hostileLatex rfl
  obtain ⟨hisPlain, htext⟩ := hplain (by rw [hlabel]; decide)
  obtain ⟨hhalf, -⟩ := convertFormula_failed (refusing []) [.half 0xD83D] [] false (by decide) rfl
    (hblank _ _)
  exact ⟨hcr, hlabel, ⟨forms, title, content, hconvert, hisPlain, htext, hpreview, htitle,
    hcontent⟩, hhalf rfl⟩

end Formulary
