/-
# Leaves of inline Markdown

Expanding inline nodes comes down to their leaves: texts, among them the labels of links
without children, code, and breaks. Whatever is made of a text, the runs of nodes are those
of their leaves in order, and a leaf is bold if the style given is or a strong node lies
around it, at whatever depth and in whatever order (`expandAll_eq_leaves`).

Where there is no lexer, the texts hold no asterisks, and the start mark of placeholders
stands in them only where a formula is meant, nothing is lost or made up: each text can be
read as literals and formulas in one way, and shows just these (`inlineRuns_leaves`). Two
things that look like placeholders are not read: one that has no id, and one that begins
inside another (`inlineRuns_unread`).

Key definitions: `Wrapping`, `Reached`, `allLeaves`, `Style.within`, `MarksOnly`, `Reads`,
`ShowsLeaves`.
Key theorems: `expandAll_eq_leaves`, `exists_reads`, `reads_iff`, `inlineRuns_leaves`,
`inlineRuns_unread`.
-/
import Formulary.Proofs.Document.Emphasis
import Formulary.Proofs.Token.Reading

namespace Formulary

/-! ### Leaves -/

/-- What a node does to those in it. -/
inductive Wrapping
  | strong | emphasis
  /-- A link, an image or any other node. -/
  | other
deriving DecidableEq, Repr

/-- A node in which there are no others. -/
inductive Leaf
  | text (s : Text)
  | code (s : Text)
  | lineBreak
  | softBreak
deriving DecidableEq, Repr

/-- A leaf, with the nodes around it from the outermost on. -/
structure Reached where
  above : List Wrapping
  leaf : Leaf
deriving DecidableEq, Repr

/-- The leaf with one more node around it. -/
def Reached.inside (w : Wrapping) (l : Reached) : Reached := { l with above := w :: l.above }

mutual
/-- The leaves of a node, in order. A link without children has its label for a leaf. -/
def Inline.leaves : Inline → List Reached
  | .text raw => [⟨[], .text raw⟩]
  | .strong ns => (allLeaves ns).map (Reached.inside .strong)
  | .emphasis ns => (allLeaves ns).map (Reached.inside .emphasis)
  | .code raw => [⟨[], .code raw⟩]
  | .lineBreak => [⟨[], .lineBreak⟩]
  | .softBreak => [⟨[], .softBreak⟩]
  | .link label url ns =>
    if ns.isEmpty then [⟨[.other], .text (linkLabel label url)⟩]
    else (allLeaves ns).map (Reached.inside .other)
  | .group ns => (allLeaves ns).map (Reached.inside .other)
/-- The leaves of all nodes, in order. -/
def allLeaves : List Inline → List Reached
  | [] => []
  | n :: ns => n.leaves ++ allLeaves ns
end

/-- The text of a leaf that is read for placeholders. -/
def Leaf.source? : Leaf → Option Text
  | .text s => some s
  | .code s => some s
  | _ => none

/-- The style of a leaf with these nodes around it. -/
def Style.within (style : Style) (above : List Wrapping) : Style where
  bold := style.bold || above.contains .strong
  italic := style.italic || above.contains .emphasis

@[simp] theorem within_nil (style : Style) : style.within [] = style := by
  simp [Style.within]

@[simp] theorem within_strong (style : Style) :
    style.within [.strong] = { style with bold := true } := by
  simp [Style.within]

@[simp] theorem within_emphasis (style : Style) :
    style.within [.emphasis] = { style with italic := true } := by
  simp [Style.within]

@[simp] theorem within_other (style : Style) : style.within [.other] = style := by
  simp [Style.within]

theorem within_cons (style : Style) (w : Wrapping) (above : List Wrapping) :
    style.within (w :: above) = (style.within [w]).within above := by
  cases w <;> simp [Style.within]

section Expanding

variable (byId : Text → Option Formula) (texts : Style → Text → Option (List Run))

/-- The runs of a leaf, given those of texts. -/
def Reached.runs (style : Style) (l : Reached) : Option (List Run) :=
  match l.leaf with
  | .text s => texts (style.within l.above) s
  | .code s => some [.text (restoreSource byId s) (style.within l.above)]
  | .lineBreak => some [.lineBreak]
  | .softBreak => some [.text [' '] (style.within l.above)]

/-- The runs of leaves in order, given those of texts. -/
def leavesRuns (style : Style) (ls : List Reached) : Option (List Run) :=
  (ls.mapM (Reached.runs byId texts style)).map List.flatten

theorem leavesRuns_single (style : Style) (l : Reached) :
    leavesRuns byId texts style [l] = l.runs byId texts style := by
  rw [leavesRuns, List.mapM_cons]
  cases l.runs byId texts style <;> simp

theorem leavesRuns_append (style : Style) (ls more : List Reached) :
    leavesRuns byId texts style (ls ++ more) = (do
      let rs ← leavesRuns byId texts style ls
      let rs' ← leavesRuns byId texts style more
      pure (rs ++ rs')) := by
  rw [leavesRuns, leavesRuns, leavesRuns, List.mapM_append]
  cases ls.mapM (Reached.runs byId texts style) with
  | none => rfl
  | some rss =>
    cases more.mapM (Reached.runs byId texts style) <;> simp

/-- A node around leaves changes the style that they are in. -/
theorem leavesRuns_inside (style : Style) (w : Wrapping) (ls : List Reached) :
    leavesRuns byId texts style (ls.map (Reached.inside w)) =
      leavesRuns byId texts (style.within [w]) ls := by
  have hleaf : ∀ l : Reached, (l.inside w).runs byId texts style =
      l.runs byId texts (style.within [w]) := fun l => by
    rw [Reached.runs, Reached.runs, Reached.inside, within_cons]
  rw [leavesRuns, leavesRuns, List.mapM_map]
  congr 2
  exact funext hleaf

mutual
theorem expand_eq_leaves (style : Style) :
    ∀ n : Inline, expand byId texts style n = leavesRuns byId texts style n.leaves
  | .text raw => by
    rw [Inline.leaves, leavesRuns_single, Reached.runs, within_nil, expand]
  | .strong ns => by
    rw [Inline.leaves, leavesRuns_inside, within_strong, expand, expandAll_eq_leaves]
  | .emphasis ns => by
    rw [Inline.leaves, leavesRuns_inside, within_emphasis, expand, expandAll_eq_leaves]
  | .code raw => by
    rw [Inline.leaves, leavesRuns_single, Reached.runs, within_nil, expand]
  | .lineBreak => by rw [Inline.leaves, leavesRuns_single, Reached.runs, expand]
  | .softBreak => by
    rw [Inline.leaves, leavesRuns_single, Reached.runs, within_nil, expand]
  | .link label url [] => by
    have hlabel : (Inline.link label url []).leaves =
      [⟨[.other], .text (linkLabel label url)⟩] := rfl
    rw [hlabel, leavesRuns_single, Reached.runs, within_other, expand]
  | .link label url (n :: ns) => by
    have hchildren : (Inline.link label url (n :: ns)).leaves =
      (allLeaves (n :: ns)).map (Reached.inside .other) := rfl
    have hexpand : expand byId texts style (.link label url (n :: ns)) =
      expandAll byId texts style (n :: ns) := rfl
    rw [hchildren, leavesRuns_inside, within_other, hexpand, expandAll_eq_leaves]
  | .group ns => by
    rw [Inline.leaves, leavesRuns_inside, within_other, expand, expandAll_eq_leaves]
/-- **Expanding nodes is expanding their leaves**, each in its style, in order. -/
theorem expandAll_eq_leaves (style : Style) :
    ∀ ns : List Inline, expandAll byId texts style ns = leavesRuns byId texts style (allLeaves ns)
  | [] => rfl
  | n :: ns => by
    rw [allLeaves, leavesRuns_append, expandAll, expand_eq_leaves style n,
      expandAll_eq_leaves style ns]
end

end Expanding

/-! ### What leaves show without a lexer -/

/-- What a part of a text shows if it is not styled any further. -/
def Part.shown (style : Style) : Part → List Run
  | .literal s => [.text s style]
  | .math f => formulaRuns style f

/-- What a leaf shows if its text is read in this way. -/
def Reached.shown (read : Text → List Part) (style : Style) (l : Reached) : List Run :=
  match l.leaf with
  | .text s => (read s).flatMap (Part.shown (style.within l.above))
  | .code s => [.text ((read s).flatMap Part.source) (style.within l.above)]
  | .lineBreak => [.lineBreak]
  | .softBreak => [.text [' '] (style.within l.above)]

/-- The formulas that a leaf shows. Those in code are source. -/
def Reached.formulas (read : Text → List Part) (l : Reached) : List Formula :=
  match l.leaf with
  | .text s => (read s).filterMap Part.formula?
  | _ => []

/-- Whether a run is a formula. -/
def Run.isMath : Run → Bool
  | .math _ _ _ => true
  | _ => false

/-- A formula as a run of its own. -/
def Formula.run (f : Formula) : Run := .math f.markup.omml f.latex f.display

/-- The text of a leaf holds no asterisk, and no start mark but those of known formulas. -/
structure Reached.IsPlain (byId : Text → Option Formula) (l : Reached) : Prop where
  unstarred : ∀ s, l.leaf = .text s → '*' ∉ s
  marks : ∀ s ∈ l.leaf.source?, MarksOnly byId s

/-- These are the runs of the nodes in a style, when texts are read in this way. -/
structure ShowsLeaves (byId : Text → Option Formula) (style : Style) (ns : List Inline)
    (read : Text → List Part) (rs : List Run) : Prop where
  /-- A text is read in the one way there is. -/
  reads : ∀ l ∈ allLeaves ns, ∀ s ∈ l.leaf.source?, ∀ ps, Reads byId s ps ↔ ps = read s
  /-- The runs are those of the leaves, in order. -/
  runs_eq : rs = (allLeaves ns).flatMap (Reached.shown read style)
  /-- Text is bold if the style is or a strong node lies around it, and in italics likewise. -/
  styled : ∀ l ∈ allLeaves ns, ∀ t st, Run.text t st ∈ l.shown read style →
    (st.bold = true ↔ style.bold = true ∨ Wrapping.strong ∈ l.above) ∧
    (st.italic = true ↔ style.italic = true ∨ Wrapping.emphasis ∈ l.above)
  /-- Each placeholder in a text is a formula, unless the formula reads as text. -/
  math_eq : rs.filter Run.isMath = (((allLeaves ns).flatMap (Reached.formulas read)).filter
    fun f => !Omml.isPlain f.markup.omml).map Formula.run

/-- One text is plain if it is in itself. -/
theorem isPlain_text {byId : Text → Option Formula} {s : Text} (hs : '*' ∉ s)
    (hmarks : MarksOnly byId s) : ∀ l ∈ allLeaves [.text s], l.IsPlain byId := by
  intro l hl
  obtain rfl := List.mem_singleton.mp hl
  refine ⟨fun t ht => ?_, fun t ht => ?_⟩
  · obtain rfl := Leaf.text.inj ht
    exact hs
  · obtain rfl := Option.some.inj ht
    exact hmarks

theorem leavesRuns_of_forall {byId : Text → Option Formula}
    {texts : Style → Text → Option (List Run)} {style : Style} {g : Reached → List Run}
    {ls : List Reached} (h : ∀ l ∈ ls, l.runs byId texts style = some (g l)) :
    leavesRuns byId texts style ls = some (ls.flatMap g) := by
  induction ls with
  | nil => rfl
  | cons l ls ih =>
    obtain ⟨hl, hls⟩ := List.forall_mem_cons.mp h
    rw [← List.singleton_append, leavesRuns_append, leavesRuns_single, hl, ih hls]
    rfl

theorem styledRuns_of_notMem {s : Text} (hne : s ≠ []) (h : '*' ∉ s) (style : Style) :
    styledRuns style s = [.text s style] := by
  obtain ⟨c, s, rfl⟩ := List.exists_cons_of_ne_nil hne
  obtain ⟨hc, hs⟩ := List.ne_and_not_mem_of_not_mem_cons h
  have hall : ∀ d ∈ s, isUnmarked d = true := fun d hd =>
    bne_iff_ne.mpr fun he => hs (he ▸ hd)
  rw [styledRuns_unmarked hc.symm, List.takeWhile_eq_self_iff.mpr hall,
    List.dropWhile_eq_nil_iff.mpr hall, styledRuns]

section Plain

variable {byId : Text → Option Formula}

/-- A text without asterisks shows its reading. -/
theorem leafRuns_of_reads {s : Text} {ps : List Part} (h : Reads byId s ps) (hs : '*' ∉ s)
    (style : Style) : leafRuns byId style s = ps.flatMap (Part.shown style) := by
  rw [leafRuns, h.splitPlaceholders]
  refine List.flatMap_congr fun p hp => ?_
  cases p with
  | math f => rfl
  | literal t =>
    have hne : t ≠ [] := fun ht => h.filled (ht ▸ hp)
    have hin : t <:+: s := by
      rw [← h.marked]
      exact List.infix_of_mem_flatten (List.mem_map.mpr ⟨_, hp, rfl⟩)
    exact styledRuns_of_notMem hne (fun hmem => hs (hin.subset hmem)) style

/-- Without a lexer, a text without asterisks is read at once. -/
theorem textRuns_of_notMem {s : Text} (hs : '*' ∉ s) (depth : Nat) (style : Style) :
    textRuns byId (lexOrPlain Inline.view none) (depth + 1) style s =
      some (leafRuns byId style s) := by
  have hmixed : ¬ (s ≠ [] ∧ s.all (· == '*')) := by
    rintro ⟨hne, hall⟩
    obtain ⟨c, s, rfl⟩ := List.exists_cons_of_ne_nil hne
    have hc : c = '*' := by simpa using List.all_eq_true.mp hall c List.mem_cons_self
    exact hs (hc ▸ List.mem_cons_self)
  rw [textRuns, if_neg hmixed]
  rfl

theorem Reached.IsPlain.runs_eq (hnamed : byId [] = none) {l : Reached} (h : l.IsPlain byId)
    (depth : Nat) (style : Style) :
    l.runs byId (textRuns byId (lexOrPlain Inline.view none) (depth + 1)) style =
      some (l.shown (splitPlaceholders byId) style) := by
  obtain ⟨above, leaf⟩ := l
  cases leaf with
  | text s =>
    have hs := h.unstarred s rfl
    have hreads := (reads_iff hnamed (h.marks s rfl)).mpr rfl
    show textRuns _ _ _ _ s = _
    rw [textRuns_of_notMem hs, leafRuns_of_reads hreads hs]
    rfl
  | code s => rfl
  | lineBreak => rfl
  | softBreak => rfl

end Plain

/-- A formula shows itself, or nothing but text. -/
theorem filter_isMath_formulaRuns (style : Style) (f : Formula) :
    (formulaRuns style f).filter Run.isMath =
      ([f].filter fun f => !Omml.isPlain f.markup.omml).map Formula.run := by
  rw [formulaRuns]
  cases hplain : Omml.isPlain f.markup.omml with
  | true =>
    by_cases htext : Omml.text f.markup.omml = [] <;> simp [htext, hplain, Run.isMath]
  | false => simp [hplain, Run.isMath, Formula.run]

theorem filter_isMath_shown (style : Style) (ps : List Part) :
    (ps.flatMap (Part.shown style)).filter Run.isMath =
      ((ps.filterMap Part.formula?).filter fun f => !Omml.isPlain f.markup.omml).map
        Formula.run := by
  induction ps with
  | nil => rfl
  | cons p ps ih =>
    rw [List.flatMap_cons, List.filter_append, ih]
    cases p with
    | literal s => rfl
    | math f =>
      have hsplit : (Part.math f :: ps).filterMap Part.formula? =
          [f] ++ ps.filterMap Part.formula? := rfl
      rw [hsplit, List.filter_append, List.map_append, Part.shown, filter_isMath_formulaRuns]

theorem Reached.filter_isMath_shown (read : Text → List Part) (style : Style) (l : Reached) :
    (l.shown read style).filter Run.isMath =
      ((l.formulas read).filter fun f => !Omml.isPlain f.markup.omml).map Formula.run := by
  obtain ⟨above, leaf⟩ := l
  cases leaf with
  | text s => exact Formulary.filter_isMath_shown _ _
  | code s => rfl
  | lineBreak => rfl
  | softBreak => rfl

/-- The text that a part shows is in the style given. -/
theorem style_of_mem_shown {style st : Style} {p : Part} {t : Text}
    (h : Run.text t st ∈ p.shown style) : st = style := by
  cases p with
  | literal s =>
    obtain ⟨-, rfl⟩ := Run.text.inj (List.mem_singleton.mp h)
    rfl
  | math f =>
    rw [Part.shown, formulaRuns] at h
    split at h
    · split at h
      · exact absurd h List.not_mem_nil
      · obtain ⟨-, rfl⟩ := Run.text.inj (List.mem_singleton.mp h)
        rfl
    · exact absurd (List.mem_singleton.mp h) (by simp)

theorem Reached.style_of_mem_shown {read : Text → List Part} {style st : Style} {l : Reached}
    {t : Text} (h : Run.text t st ∈ l.shown read style) : st = style.within l.above := by
  obtain ⟨above, leaf⟩ := l
  cases leaf with
  | text s =>
    obtain ⟨p, -, hp⟩ := List.mem_flatMap.mp h
    exact Formulary.style_of_mem_shown hp
  | code s => exact (Run.text.inj (List.mem_singleton.mp h)).2
  | lineBreak => exact absurd (List.mem_singleton.mp h) (by simp)
  | softBreak => exact (Run.text.inj (List.mem_singleton.mp h)).2

/-- **Inline nodes show their leaves.** Take nodes whose texts hold no asterisks, and in whose
texts and code the start mark stands only where a known formula is meant, none of them without
an id. Without a lexer their runs are those of the leaves in order: literals, formulas, code and
breaks, each text in the style that the nodes around it give, and each formula in a text once. -/
theorem inlineRuns_leaves {byId : Text → Option Formula} (hnamed : byId [] = none)
    {ns : List Inline} (h : ∀ l ∈ allLeaves ns, l.IsPlain byId) (depth : Nat) (style : Style) :
    ∃ read rs, inlineRuns byId (lexOrPlain Inline.view none) (depth + 1) style ns = some rs ∧
      ShowsLeaves byId style ns read rs := by
  refine ⟨splitPlaceholders byId, _, ?_, ?_, rfl, ?_, ?_⟩
  · rw [inlineRuns, expandAll_eq_leaves]
    exact leavesRuns_of_forall fun l hl => (h l hl).runs_eq hnamed depth style
  · exact fun l hl s hs ps => reads_iff hnamed ((h l hl).marks s hs)
  · intro l _ t st ht
    rw [Reached.style_of_mem_shown ht]
    simp [Style.within]
  · simp only [List.filter_flatMap, List.map_flatMap, Reached.filter_isMath_shown]

/-- A fraction under another id. -/
def fractionAs (id : String) : Formula := { fraction with id := id.toList }

/-- A variable, which reads as text. -/
def variableX : Formula :=
  ⟨"m-2-k".toList, "x".toList, false,
    ⟨[], [], "<m:oMath><m:r><m:t>x</m:t></m:r></m:oMath>".toList⟩⟩

/-- Bold text in a link in italics, with a formula in it and another one in code; behind it an
image with a variable for its label. -/
def nestedPhrase : List Inline :=
  [.emphasis
    [.link [] "u".toList
      [.strong [.text "a MATHPHm-1-kPHMATH b".toList, .softBreak,
        .strong [.emphasis [.code "*MATHPHm-1-kPHMATH*".toList]]]],
     .lineBreak],
   .link "MATHPHm-2-kPHMATH".toList "u".toList []]

theorem inlineRuns_leaves_nested :
    formulaById [.math fraction, .math variableX] [] = none ∧
    (∀ l ∈ allLeaves nestedPhrase, l.IsPlain (formulaById [.math fraction, .math variableX])) ∧
    ∃ read, ShowsLeaves (formulaById [.math fraction, .math variableX]) .plain nestedPhrase read
      [.text "a ".toList ⟨true, true⟩, fraction.run, .text " b".toList ⟨true, true⟩,
       .text " ".toList ⟨true, true⟩, .text "*$\\frac$*".toList ⟨true, true⟩, .lineBreak,
       .text "x".toList .plain] := by
  have hnamed : formulaById [.math fraction, .math variableX] [] = none := by decide
  have hmarks : ∀ s ∈ ["a MATHPHm-1-kPHMATH b".toList, "*MATHPHm-1-kPHMATH*".toList,
      "MATHPHm-2-kPHMATH".toList], MarksOnly (formulaById [.math fraction, .math variableX]) s := by
    have htails : ∀ s ∈ ["a MATHPHm-1-kPHMATH b".toList, "*MATHPHm-1-kPHMATH*".toList,
        "MATHPHm-2-kPHMATH".toList], ∀ t ∈ s.tails, markStart <+: t →
          ∃ f ∈ [fraction, variableX], Known (formulaById [.math fraction, .math variableX]) f ∧
            placeholder f.id <+: t := by
      decide
    exact fun s hs => marksOnly_of_tails (htails s hs)
  have hleaves : allLeaves nestedPhrase =
      [⟨[.emphasis, .other, .strong], .text "a MATHPHm-1-kPHMATH b".toList⟩,
       ⟨[.emphasis, .other, .strong], .softBreak⟩,
       ⟨[.emphasis, .other, .strong, .strong, .emphasis], .code "*MATHPHm-1-kPHMATH*".toList⟩,
       ⟨[.emphasis], .lineBreak⟩, ⟨[.other], .text "MATHPHm-2-kPHMATH".toList⟩] := rfl
  have hunstarred : ∀ l ∈ allLeaves nestedPhrase, ∀ s, l.leaf = .text s → '*' ∉ s := by
    rw [hleaves]
    simp
  have hsources : ∀ l ∈ allLeaves nestedPhrase, ∀ s ∈ l.leaf.source?,
      s ∈ ["a MATHPHm-1-kPHMATH b".toList, "*MATHPHm-1-kPHMATH*".toList,
        "MATHPHm-2-kPHMATH".toList] := by
    rw [hleaves]
    simp [Leaf.source?]
  have hplain : ∀ l ∈ allLeaves nestedPhrase,
      l.IsPlain (formulaById [.math fraction, .math variableX]) := fun l hl =>
    ⟨hunstarred l hl, fun s hs => hmarks s (hsources l hl s hs)⟩
  have hruns : inlineRuns (formulaById [.math fraction, .math variableX])
      (lexOrPlain Inline.view none) 1 .plain nestedPhrase = some
      [.text "a ".toList ⟨true, true⟩, fraction.run, .text " b".toList ⟨true, true⟩,
       .text " ".toList ⟨true, true⟩, .text "*$\\frac$*".toList ⟨true, true⟩, .lineBreak,
       .text "x".toList .plain] := by
    decide +kernel
  obtain ⟨read, rs, hrs, hshows⟩ := inlineRuns_leaves hnamed hplain 0 .plain
  rw [hruns] at hrs
  obtain rfl := Option.some.inj hrs
  exact ⟨hnamed, hplain, read, hshows⟩

/-- Not every placeholder of a known formula is read: one without an id stays text, and so does
what is left of one that begins inside another. -/
theorem inlineRuns_unread :
    ((∀ l ∈ allLeaves [.text "MATHPHPHMATH".toList],
        l.IsPlain (formulaById [.math (fractionAs "")])) ∧
      "MATHPHPHMATH".toList = placeholder (fractionAs "").id ∧
      Omml.isPlain (fractionAs "").markup.omml = false ∧
      inlineRuns (formulaById [.math (fractionAs "")]) (lexOrPlain Inline.view none) 1 .plain
        [.text "MATHPHPHMATH".toList] = some [.text "MATHPHPHMATH".toList .plain]) ∧
    ((∀ l ∈ allLeaves [.text "MATHPHm-1-kPHMATHPHm-2-kPHMATH".toList],
        l.IsPlain (formulaById [.math fraction, .math (fractionAs "m-2-k")])) ∧
      "MATHPHm-1-kPHMATHPHm-2-kPHMATH".toList =
        "MATHPHm-1-kPH".toList ++ placeholder (fractionAs "m-2-k").id ∧
      Omml.isPlain (fractionAs "m-2-k").markup.omml = false ∧
      inlineRuns (formulaById [.math fraction, .math (fractionAs "m-2-k")])
        (lexOrPlain Inline.view none) 1 .plain [.text "MATHPHm-1-kPHMATHPHm-2-kPHMATH".toList] =
        some [fraction.run, .text "PHm-2-kPHMATH".toList .plain]) := by
  have hnameless : MarksOnly (formulaById [.math (fractionAs "")]) "MATHPHPHMATH".toList := by
    have htails : ∀ t ∈ "MATHPHPHMATH".toList.tails, markStart <+: t →
        ∃ f ∈ [fractionAs ""], Known (formulaById [.math (fractionAs "")]) f ∧
          placeholder f.id <+: t := by
      decide
    exact marksOnly_of_tails htails
  have hoverlap : MarksOnly (formulaById [.math fraction, .math (fractionAs "m-2-k")])
      "MATHPHm-1-kPHMATHPHm-2-kPHMATH".toList := by
    have htails : ∀ t ∈ "MATHPHm-1-kPHMATHPHm-2-kPHMATH".toList.tails, markStart <+: t →
        ∃ f ∈ [fraction, fractionAs "m-2-k"],
          Known (formulaById [.math fraction, .math (fractionAs "m-2-k")]) f ∧
            placeholder f.id <+: t := by
      decide
    exact marksOnly_of_tails htails
  refine ⟨⟨isPlain_text (by decide) hnameless, by decide, by decide +kernel, by decide +kernel⟩,
    ⟨isPlain_text (by decide) hoverlap, by decide, by decide +kernel, by decide +kernel⟩⟩

end Formulary
