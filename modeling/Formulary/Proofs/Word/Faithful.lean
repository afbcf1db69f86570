/-
# Reading a document back

What is written can be read back from the elements of the document: a run gives its
style, its font and its text, with carriage returns as line feeds, and a formula is the
root of its fragment. So the paragraphs of a document are those that were given, each
with one node a run, and this holds however they are cut into batches
(`writeBatches_faithful`). A formula that cannot be read becomes text, unless its fragment
names an encoding: then the writing of its batch stops there.

Key definitions: `runText`, `runProps`, `IsRun`, `StandsFor`, `IsWritten`, `Adds`,
`Draft.writeBatches`, `HasRoom`.
Key theorems: `isRun_node`, `writeRun_standsFor`, `write_adds`, `write_append`,
`writeBatches_faithful`.
-/
import Formulary.Proofs.Word.Finished

namespace Formulary

open Xml (isLegal)

/-- Whether the texts of a run are legal XML. The fragment of a formula may be anything. -/
def Run.IsLegal : Run → Prop
  | .text s _ => isLegal s = true
  | .math _ latex _ => isLegal latex = true
  | .lineBreak => True

instance Run.decidableIsLegal : ∀ r : Run, Decidable r.IsLegal
  | .text s _ => inferInstanceAs (Decidable (isLegal s = true))
  | .math _ latex _ => inferInstanceAs (Decidable (isLegal latex = true))
  | .lineBreak => inferInstanceAs (Decidable True)

/-- Whether a run is a formula whose fragment, once it is complete, names an encoding. -/
def Run.namesEncoding : Run → Bool
  | .math omml _ _ => Omml.namesEncoding (Omml.complete omml)
  | _ => false

namespace Word

/-! ### Reading a run -/

/-- The text that a part of a run reads as. -/
def partText : Xml.Node → Text
  | .element t ns =>
    if t.name.is Omml.wordUri "t" then Xml.contentAll ns
    else if t.name.is Omml.wordUri "tab" then ['\t']
    else if t.name.is Omml.wordUri "br" then ['\n']
    else []
  | _ => []

/-- The text that a run reads as. -/
def runText : Xml.Node → Text
  | .element _ ns => ns.flatMap partText
  | _ => []

/-- The properties of a run, which stand in front of its parts. -/
def runProps (n : Xml.Node) : List Xml.Node := leadingProps "rPr" n

/-- Whether a run has a property of this name. -/
def hasProp (loc : String) (n : Xml.Node) : Bool :=
  (runProps n).any fun p => p.isElement Omml.wordUri loc

/-- The text as it is read back: a carriage return reads as a line feed. -/
def readText (s : Text) : Text := s.map fun c => if c = '\r' then '\n' else c

/-- Whether a node is a run with these fonts and this style that reads as this text. -/
structure IsRun (fonts : List Xml.Node) (style : Style) (s : Text) (n : Xml.Node) : Prop where
  run : n.isElement Omml.wordUri "r" = true
  bold : hasProp "b" n = style.bold
  italic : hasProp "i" n = style.italic
  fonts : (runProps n).filter (fun p => p.isElement Omml.wordUri "rFonts") = fonts
  text : runText n = readText s

/-- The text that a part stands for. -/
def Piece.chars : Piece → Text
  | .text s => s
  | .tab => ['\t']
  | .lineBreak => ['\n']

theorem partText_element (loc : String) (attrs : List Xml.Attr) (ns : List Xml.Node) :
    partText (element loc attrs ns) =
      if loc.toList = "t".toList then Xml.contentAll ns
      else if loc.toList = "tab".toList then ['\t']
      else if loc.toList = "br".toList then ['\n'] else [] := by
  rw [element, partText]
  simp only [name_is, beq_iff_eq]

theorem partText_node (p : Piece) : partText p.node = p.chars := by
  cases p with
  | text s =>
    rw [Piece.node, partText_element, if_pos rfl]
    exact List.append_nil s
  | tab => rw [Piece.node, partText_element, if_neg (by decide), if_pos rfl]; rfl
  | lineBreak =>
    rw [Piece.node, partText_element, if_neg (by decide), if_neg (by decide), if_pos rfl]
    rfl

theorem readText_append (s t : Text) : readText (s ++ t) = readText s ++ readText t :=
  List.map_append

theorem readText_of_textual {s : Text} (hs : ∀ c ∈ s, isTextual c = true) : readText s = s := by
  refine (List.map_congr_left fun c hc => ?_).trans (List.map_id s)
  have hc := hs c hc
  rw [isTextual, Bool.and_eq_true, bne_iff_ne] at hc
  rw [if_neg hc.2, id]

/-- The parts of a text stand for the text. -/
theorem flatMap_chars_pieces (s : Text) : (pieces s).flatMap Piece.chars = readText s := by
  fun_induction pieces s with
  | case1 => rfl
  | case2 s ih => rw [List.flatMap_cons, ih]; rfl
  | case3 s ih => rw [List.flatMap_cons, ih]; rfl
  | case4 s ih => rw [List.flatMap_cons, ih]; rfl
  | case5 c s htab hfeed hreturn ih =>
    have hsplit : c :: s = (c :: s.takeWhile isTextual) ++ s.dropWhile isTextual := by
      rw [List.cons_append, List.takeWhile_append_dropWhile]
    have htextual : ∀ x ∈ c :: s.takeWhile isTextual, isTextual x = true := by
      refine List.forall_mem_cons.mpr ⟨?_, fun x => List.mem_takeWhile_imp⟩
      simp only [isTextual, Bool.and_eq_true, bne_iff_ne]
      exact ⟨⟨htab, hfeed⟩, hreturn⟩
    rw [List.flatMap_cons, ih, hsplit, readText_append, readText_of_textual htextual]
    rfl

theorem runProps_element (attrs : List Xml.Attr) (loc : String) (attrs' : List Xml.Attr)
    (ms ns : List Xml.Node) :
    runProps (element "r" attrs (element loc attrs' ms :: ns)) =
      if loc.toList = "rPr".toList then ms else [] := by
  simp only [element, runProps, leadingProps, name_is, beq_iff_eq]

theorem runProps_node (r : Run) : runProps r.node = r.props.nodes := by
  rw [Run.node, propsNode]
  cases hprops : r.props.nodes with
  | nil =>
    rw [List.isEmpty_nil, if_pos rfl, List.nil_append]
    cases r.pieces with
    | nil => rfl
    | cons p ps => cases p <;> exact runProps_element ..
  | cons p ps => exact runProps_element ..

theorem runText_node (r : Run) : runText r.node = r.pieces.flatMap Piece.chars := by
  have hprops : (propsNode "rPr" r.props.nodes).flatMap partText = [] := by
    rw [propsNode]
    split
    · rfl
    · rw [List.flatMap_singleton, partText_element]
      rfl
  show (propsNode "rPr" r.props.nodes ++ r.pieces.map Piece.node).flatMap partText = _
  rw [List.flatMap_append, hprops, List.nil_append, List.flatMap_map]
  exact List.flatMap_congr fun p _ => partText_node p

theorem isElement_fonts (f : Fonts) (loc : String) :
    f.node.isElement Omml.wordUri loc = ("rFonts".toList == loc.toList) := by
  cases f <;> exact isElement_element ..

/-- What a run was given is what it reads as. -/
theorem isRun_node (font : Option Fonts) (style : Style) (s : Text) :
    IsRun (font.map Fonts.node).toList style s
      (Run.node ⟨⟨font, style.bold, style.italic⟩, pieces s⟩) := by
  obtain ⟨bold, italic⟩ := style
  have hprops : runProps (Run.node ⟨⟨font, bold, italic⟩, pieces s⟩) =
      (font.map Fonts.node).toList ++ (if bold then [element "b" [] []] else []) ++
        if italic then [element "i" [] []] else [] := runProps_node _
  refine ⟨isElement_element .., ?_, ?_, ?_, ?_⟩
  · rw [hasProp, hprops]
    cases font <;> cases bold <;> cases italic <;> simp [isElement_element, isElement_fonts]
  · rw [hasProp, hprops]
    cases font <;> cases bold <;> cases italic <;> simp [isElement_element, isElement_fonts]
  · rw [hprops]
    cases font <;> cases bold <;> cases italic <;> simp [isElement_element, isElement_fonts]
  · rw [runText_node]
    exact flatMap_chars_pieces s

/-! ### Writing runs -/

/-- Whether a node of a paragraph stands for a run. A formula is the root of its fragment; one
whose fragment cannot be read is its readable text, slanted and in a font of its own. The
monospace font is for East Asian text as well. -/
def StandsFor (fonts : FontChoice) (monospace : Bool) : Formulary.Run → Xml.Node → Prop
  | .text s style, n =>
    IsRun (if monospace then [element "rFonts" [attr "ascii" fonts.monospace,
      attr "hAnsi" fonts.monospace, attr "eastAsia" fonts.monospace] []] else []) style s n
  | .lineBreak, n => n = element "r" [] [element "br" [] []]
  | .math omml latex _, n =>
    match Xml.parse? .compact (Omml.complete omml) with
    | some e => n = e.node
    | none =>
      IsRun [element "rFonts" [attr "ascii" fonts.mathFallback, attr "hAnsi" fonts.mathFallback] []]
        ⟨false, true⟩ (latexLabel latex) n

section Runs

variable {fonts : FontChoice} {monospace : Bool}

theorem writeText_of_isLegal {s : Text} (hs : isLegal s = true) :
    writeText s = (⟨.none, pieces s⟩, none) := by
  rw [writeText, all_isLegal_pieces, if_pos hs]

theorem setFont_of_isLegal {font : Text} (hfont : isLegal font = true) (eastAsian : Bool)
    (r : Run) : setFont font eastAsian r =
      (⟨{ r.props with fonts := some (.named font eastAsian) }, r.pieces⟩, none) := by
  rw [setFont, if_pos hfont]

/-- A run that is written is one node, which stands for the run. -/
theorem writeRun_standsFor {r : Formulary.Run} {is : List Item}
    (h : writeRun fonts monospace r = (is, none)) :
    ∃ i, is = [i] ∧ StandsFor fonts monospace r i.node := by
  have hwritable := (writeRun_eq_none_iff fonts monospace r).mp (congrArg Prod.snd h)
  cases r with
  | lineBreak =>
    obtain ⟨rfl, -⟩ := Prod.mk.inj h
    exact ⟨_, rfl, rfl⟩
  | text s style =>
    obtain ⟨hs, hmono⟩ := hwritable
    rw [writeRun, textRun, writeText_of_isLegal hs] at h
    cases monospace with
    | false =>
      obtain ⟨rfl, -⟩ := Prod.mk.inj h
      exact ⟨_, rfl, isRun_node none style s⟩
    | true =>
      rw [if_pos rfl, Attempt.andThen, setStyle, Attempt.andThen,
        setFont_of_isLegal (hmono rfl)] at h
      obtain ⟨rfl, -⟩ := Prod.mk.inj h
      exact ⟨_, rfl, isRun_node (some (.named fonts.monospace true)) style s⟩
  | math omml latex display =>
    obtain ⟨hencoding, hread⟩ := hwritable
    rw [writeRun, Omml.element, hencoding] at h
    simp only [StandsFor]
    cases hparse : Xml.parse? .compact (Omml.complete omml) with
    | some e =>
      simp only [hparse, Bool.false_eq_true, if_false] at h
      obtain ⟨rfl, -⟩ := Prod.mk.inj h
      exact ⟨_, rfl, rfl⟩
    | none =>
      obtain ⟨hlatex, hfont⟩ : isLegal (latexLabel latex) = true ∧
          isLegal fonts.mathFallback = true := by simpa [hparse] using hread
      simp only [hparse, Bool.false_eq_true, if_false, fallbackRun, writeText_of_isLegal hlatex,
        Attempt.andThen, setFont_of_isLegal hfont] at h
      obtain ⟨rfl, -⟩ := Prod.mk.inj h
      exact ⟨_, rfl, isRun_node (some (.named fonts.mathFallback false)) ⟨false, true⟩ _⟩

theorem writeRuns_standsFor {rs : List Formulary.Run} {is : List Item}
    (h : writeRuns fonts monospace rs = (is, none)) :
    List.Forall₂ (StandsFor fonts monospace) rs (is.map Item.node) := by
  induction rs generalizing is with
  | nil =>
    obtain ⟨rfl, -⟩ := Prod.mk.inj h
    exact .nil
  | cons r rs ih =>
    rw [writeRuns] at h
    split at h
    · simp at h
    · rename_i first hfirst
      obtain ⟨rfl, hrest⟩ := Prod.mk.inj h
      obtain ⟨i, rfl, hi⟩ := writeRun_standsFor hfirst
      exact .cons hi (ih (Prod.ext rfl hrest))

end Runs

/-! ### Writing paragraphs -/

/-- Whether a node is the paragraph: its properties in at most one element, and after them one
node for each run, in order. -/
def IsWritten (fonts : FontChoice) (p : Formulary.Paragraph) (n : Xml.Node) : Prop :=
  ∃ props ns, n = element "p" [] (props ++ ns) ∧
    props.length ≤ 1 ∧ (∀ q ∈ props, q.isElement Omml.wordUri "pPr" = true) ∧
    List.Forall₂ (StandsFor fonts (p.kind = .preformatted)) p.runs ns

/-- What paragraphs that are written add to a document: one each, or, if something stops the
writing, one for each up to the one where it stops. -/
inductive Adds (fonts : FontChoice) :
    List Formulary.Paragraph → Option Failure → List Paragraph → Prop
  | all {ps : List Formulary.Paragraph} {qs : List Paragraph} :
    List.Forall₂ (IsWritten fonts) ps (qs.map Paragraph.node) → Adds fonts ps none qs
  | upTo {ps rest : List Formulary.Paragraph} {p : Formulary.Paragraph} {qs : List Paragraph}
      {q : Paragraph} {e : Failure} :
    List.Forall₂ (IsWritten fonts) ps (qs.map Paragraph.node) →
      Adds fonts (ps ++ p :: rest) (some e) (qs ++ [q])

section Paragraphs

variable {fonts : FontChoice}

theorem isWritten_node {p : Formulary.Paragraph} {props : ParagraphProps} {is : List Item}
    (h : List.Forall₂ (StandsFor fonts (p.kind = .preformatted)) p.runs (is.map Item.node)) :
    IsWritten fonts p (Paragraph.node ⟨props, is⟩) := by
  refine ⟨propsNode "pPr" props.nodes, is.map Item.node, rfl, ?_, ?_, h⟩
  · rw [propsNode]
    split <;> simp
  · rw [propsNode]
    split
    · simp
    · exact List.forall_mem_singleton.mpr (isElement_element ..)

/-- Writing a paragraph adds one, whatever comes of it. -/
theorem writeParagraph_adds {d d' : Draft} {p : Formulary.Paragraph} {e : Option Failure}
    (h : d.writeParagraph fonts p = (d', e)) :
    ∃ q, d'.paragraphs = d.paragraphs ++ [q] ∧ (e = none → IsWritten fonts p q.node) := by
  have hparagraphs := paragraphs_place d p
  unfold Draft.writeParagraph at h
  generalize d.place p = placed at hparagraphs h
  obtain ⟨⟨place, failure⟩, d₁⟩ := placed
  cases failure with
  | some e' =>
    obtain ⟨rfl, rfl⟩ := Prod.mk.inj h
    exact ⟨_, congrArg (· ++ [_]) hparagraphs, fun he => absurd he (by simp)⟩
  | none =>
    obtain ⟨rfl, rfl⟩ := Prod.mk.inj h
    exact ⟨_, congrArg (· ++ [_]) hparagraphs,
      fun he => isWritten_node (writeRuns_standsFor (Prod.ext rfl he))⟩

theorem Adds.cons {p : Formulary.Paragraph} {q : Paragraph} (hq : IsWritten fonts p q.node)
    {ps : List Formulary.Paragraph} {e : Option Failure} {qs : List Paragraph}
    (h : Adds fonts ps e qs) : Adds fonts (p :: ps) e (q :: qs) := by
  cases h with
  | all h => exact .all (.cons hq h)
  | @upTo ps rest p' qs q' e h =>
    have hwritten : List.Forall₂ (IsWritten fonts) (p :: ps) ((q :: qs).map Paragraph.node) :=
      .cons hq h
    exact .upTo hwritten

theorem Adds.forall₂_of_none {ps : List Formulary.Paragraph} {qs : List Paragraph}
    (h : Adds fonts ps none qs) : List.Forall₂ (IsWritten fonts) ps (qs.map Paragraph.node) := by
  cases h with
  | all h => exact h

/-- **What a document gains by a batch of paragraphs.** -/
theorem write_adds {ps : List Formulary.Paragraph} {d d' : Draft} {e : Option Failure}
    (h : d.write fonts ps = (d', e)) :
    ∃ qs, d'.paragraphs = d.paragraphs ++ qs ∧ Adds fonts ps e qs := by
  induction ps generalizing d with
  | nil =>
    obtain ⟨rfl, rfl⟩ := Prod.mk.inj h
    exact ⟨[], by simp, .all .nil⟩
  | cons p ps ih =>
    rw [Draft.write] at h
    split at h <;> rename_i d₁ _ hstep <;> obtain ⟨q, hq, hwritten⟩ := writeParagraph_adds hstep
    · obtain ⟨rfl, rfl⟩ := Prod.mk.inj h
      exact ⟨[q], hq, @Adds.upTo fonts [] ps p [] q _ .nil⟩
    · obtain ⟨qs, hqs, hadds⟩ := ih h
      exact ⟨q :: qs, by rw [hqs, hq, List.append_assoc]; rfl, hadds.cons (hwritten rfl)⟩

end Paragraphs

/-! ### Batches -/

/-- Writes batches of paragraphs one after another. What stops one of them is noted, and the next
goes on with the same document. -/
def Draft.writeBatches (fonts : FontChoice) (d : Draft) :
    List (List Formulary.Paragraph) → Draft × List (Option Failure)
  | [] => (d, [])
  | ps :: batches =>
    let (d, e) := d.write fonts ps
    let (d, es) := d.writeBatches fonts batches
    (d, e :: es)

/-- Whether Word's markup has room for the lists that paragraphs are items of. -/
structure HasRoom (ps : List Formulary.Paragraph) : Prop where
  levels : ∀ p ∈ ps, ∀ m ∈ activeMarker p, fits (writtenLevel m.level) = true
  lists : (opened (ps.filterMap activeMarker)).length ≤ 2147483637

section Batches

variable {fonts : FontChoice}

/-- A document that is written in two parts is the same as in one. -/
theorem write_append {d d' : Draft} {ps : List Formulary.Paragraph}
    (h : d.write fonts ps = (d', none)) (qs : List Formulary.Paragraph) :
    d.write fonts (ps ++ qs) = d'.write fonts qs := by
  induction ps generalizing d with
  | nil =>
    obtain ⟨rfl, -⟩ := Prod.mk.inj h
    rfl
  | cons p ps ih =>
    rw [List.cons_append, Draft.write]
    rw [Draft.write] at h
    split at h
    · simp at h
    · exact ih h

/-- Writing that stops is not taken up again. -/
theorem write_append_of_some {d d' : Draft} {ps : List Formulary.Paragraph} {e : Failure}
    (h : d.write fonts ps = (d', some e)) (qs : List Formulary.Paragraph) :
    d.write fonts (ps ++ qs) = (d', some e) := by
  induction ps generalizing d with
  | nil => simp [Draft.write] at h
  | cons p ps ih =>
    rw [List.cons_append, Draft.write]
    rw [Draft.write] at h
    split at h
    · exact h
    · exact ih h

/-- Nothing stops any of the batches exactly if nothing stops their paragraphs in a row, and the
document is the same then. -/
theorem writeBatches_flatten {batches : List (List Formulary.Paragraph)} {d d' : Draft}
    {es : List (Option Failure)} (h : d.writeBatches fonts batches = (d', es)) :
    ((∀ e ∈ es, e = none) ↔ (d.write fonts batches.flatten).2 = none) ∧
      ((d.write fonts batches.flatten).2 = none → (d.write fonts batches.flatten).1 = d') := by
  induction batches generalizing d es with
  | nil =>
    obtain ⟨rfl, rfl⟩ := Prod.mk.inj h
    simp [Draft.write]
  | cons ps batches ih =>
    rw [Draft.writeBatches] at h
    obtain ⟨rfl, rfl⟩ := Prod.mk.inj h
    have hlater := ih (d := (d.write fonts ps).1) rfl
    rw [List.forall_mem_cons, hlater.1, List.flatten_cons]
    cases hps : d.write fonts ps with
    | mk d₁ e =>
      rw [hps] at hlater
      cases e with
      | none => simpa [write_append hps] using hlater.2
      | some e => simp [write_append_of_some hps]

theorem writeBatches_adds {batches : List (List Formulary.Paragraph)} {d d' : Draft}
    {es : List (Option Failure)} (h : d.writeBatches fonts batches = (d', es)) :
    ∃ qss, d'.paragraphs = d.paragraphs ++ qss.flatten ∧
      List.Forall₂ (fun ps x => Adds fonts ps x.1 x.2) batches (es.zip qss) := by
  induction batches generalizing d es with
  | nil =>
    obtain ⟨rfl, rfl⟩ := Prod.mk.inj h
    exact ⟨[], by simp, .nil⟩
  | cons ps batches ih =>
    rw [Draft.writeBatches] at h
    obtain ⟨rfl, rfl⟩ := Prod.mk.inj h
    have hfirst : d.write fonts ps = ((d.write fonts ps).1, (d.write fonts ps).2) := rfl
    obtain ⟨qs, hqs, hadds⟩ := write_adds hfirst
    obtain ⟨qss, hqss, hall⟩ := ih (d := (d.write fonts ps).1) rfl
    exact ⟨qs :: qss, by rw [hqss, hqs, List.append_assoc]; rfl, .cons hadds hall⟩

/-! ### What stops the writing -/

theorem fits_level_of_place {d : Draft} {p : Formulary.Paragraph} (h : (d.place p).1.2 = none) :
    ∀ m ∈ activeMarker p, fits (writtenLevel m.level) = true := by
  intro m hm
  rw [Draft.place, hm] at h
  by_contra hfits
  simp [Numbering.place, hfits] at h

theorem fits_level_of_write {d : Draft} {ps : List Formulary.Paragraph}
    (h : (d.write fonts ps).2 = none) :
    ∀ p ∈ ps, ∀ m ∈ activeMarker p, fits (writtenLevel m.level) = true := by
  induction ps generalizing d with
  | nil => simp
  | cons p ps ih =>
    rw [Draft.write] at h
    split at h
    · simp at h
    · rename_i hstep
      have hplace := ((writeParagraph_eq_none_iff fonts d p).mp (congrArg Prod.snd hstep)).2
      exact List.forall_mem_cons.mpr ⟨fits_level_of_place hplace, ih h⟩

/-- A document is written to its end if every run can be written and there is room for its
lists. -/
theorem write_empty_eq_none_iff {ps : List Formulary.Paragraph} :
    (Draft.empty.write fonts ps).2 = none ↔ (∀ p ∈ ps, Writable fonts p) ∧ HasRoom ps := by
  have hempty : Draft.empty.Opened [] := rfl
  have hiff := fun hlevel => @write_eq_none_iff fonts ps Draft.empty [] hempty hlevel
  simp only [List.nil_append, fits_numOf_iff] at hiff
  refine ⟨fun h => ?_, fun ⟨hruns, hroom⟩ => (hiff hroom.levels).mpr ⟨hruns, hroom.lists⟩⟩
  have hlevel := fits_level_of_write h
  obtain ⟨hruns, hlists⟩ := (hiff hlevel).mp h
  exact ⟨hruns, hlevel, hlists⟩

/-- With legal texts and fonts, only a fragment that names an encoding keeps a run from being
written. -/
theorem isWritable_iff (hmono : isLegal fonts.monospace = true)
    (hmath : isLegal fonts.mathFallback = true) (monospace : Bool) {r : Formulary.Run}
    (hr : r.IsLegal) : r.IsWritable fonts monospace ↔ r.namesEncoding = false := by
  cases r with
  | text s style => exact iff_of_true ⟨hr, fun _ => hmono⟩ rfl
  | lineBreak => exact iff_of_true trivial rfl
  | math omml latex display => exact and_iff_left (.inr ⟨isLegal_latexLabel hr, hmath⟩)

/-- **A document can be read back.** From legal texts, all paragraphs are written, whatever their
batches, exactly if no fragment names an encoding and there is room for the lists; they then are
the paragraphs of the document, with one node for each run. In any case each batch adds its
paragraphs in order, up to the first that cannot be written. -/
theorem writeBatches_faithful (hmono : isLegal fonts.monospace = true)
    (hmath : isLegal fonts.mathFallback = true) {batches : List (List Formulary.Paragraph)}
    (hlegal : ∀ p ∈ batches.flatten, ∀ r ∈ p.runs, r.IsLegal) {d : Draft}
    {es : List (Option Failure)} (hwrite : Draft.empty.writeBatches fonts batches = (d, es)) :
    ((∀ e ∈ es, e = none) ↔ HasRoom batches.flatten ∧
      ∀ p ∈ batches.flatten, ∀ r ∈ p.runs, r.namesEncoding = false) ∧
    ((∀ e ∈ es, e = none) →
      List.Forall₂ (IsWritten fonts) batches.flatten (d.paragraphs.map Paragraph.node)) ∧
    ∃ qss, d.paragraphs = qss.flatten ∧
      List.Forall₂ (fun ps x => Adds fonts ps x.1 x.2) batches (es.zip qss) := by
  obtain ⟨hnone, hsame⟩ := writeBatches_flatten hwrite
  refine ⟨?_, fun h => ?_, writeBatches_adds hwrite⟩
  · rw [hnone, write_empty_eq_none_iff, and_comm]
    refine and_congr_right fun _ => forall₂_congr fun p hp => forall₂_congr fun r hr => ?_
    exact isWritable_iff hmono hmath _ (hlegal p hp r hr)
  · have hflat := hnone.mp h
    obtain ⟨qs, hqs, hadds⟩ := write_adds (Prod.ext (hsame hflat) hflat)
    rw [hqs]
    exact hadds.forall₂_of_none

end Batches

/-- Two batches: a list item with a formula, and code followed by a formula that is not well
formed. -/
def mixedBatches : List (List Formulary.Paragraph) :=
  [[⟨.listItem, [.text "a\tb\rc".toList ⟨true, false⟩, .lineBreak,
      .math "<m:oMath><m:f/></m:oMath>".toList "\\frac".toList false], 0, some ⟨true, 1, 1, 3⟩⟩],
    [.of .preformatted [.text [] .plain, .text " x".toList .plain],
      .of .body [.math "<m:oMath><m:f>".toList "\\alpha".toList true]]]

/-- A formula whose fragment has two declarations, of which one is dropped. -/
def encodedFormula : Formulary.Run :=
  .math ("<?xml version=\"1.0\" encoding=\"UTF-8\"?>".toList ++
    "<?xml version=\"1.0\" encoding=\"UTF-8\"?><m:oMath/>".toList) ['x'] false

/-- The two batches, and a third with this formula. -/
def stoppedBatches : List (List Formulary.Paragraph) :=
  mixedBatches ++ [[Formulary.Paragraph.of .body [encodedFormula]]]

theorem writeBatches_faithful_mixedBatches :
    List.Forall₂ (IsWritten (Settings.standard.fonts none none)) mixedBatches.flatten
      ((Draft.empty.writeBatches (Settings.standard.fonts none none) mixedBatches).1.paragraphs.map
        Paragraph.node) ∧
    ¬ ∀ e ∈ (Draft.empty.writeBatches (Settings.standard.fonts none none) stoppedBatches).2,
      e = none := by
  have hmono : isLegal (Settings.standard.fonts none none).monospace = true := by decide
  have hmath : isLegal (Settings.standard.fonts none none).mathFallback = true := by decide
  constructor
  · have hlegal : ∀ p ∈ mixedBatches.flatten, ∀ r ∈ p.runs, r.IsLegal := by decide
    obtain ⟨hiff, hall, -⟩ := writeBatches_faithful hmono hmath hlegal rfl
    exact hall (hiff.mpr ⟨⟨by decide, by decide⟩, by decide⟩)
  · have hlegal : ∀ p ∈ stoppedBatches.flatten, ∀ r ∈ p.runs, r.IsLegal := by decide
    obtain ⟨hiff, -, -⟩ := writeBatches_faithful hmono hmath hlegal rfl
    intro h
    have hmem : Formulary.Paragraph.of .body [encodedFormula] ∈ stoppedBatches.flatten := by
      simp [stoppedBatches]
    have hencoding := (hiff.mp h).2 _ hmem encodedFormula (List.mem_singleton.mpr rfl)
    exact absurd hencoding (by decide)

end Word
end Formulary
