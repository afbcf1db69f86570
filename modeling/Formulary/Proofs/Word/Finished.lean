/-
# When a document is finished

Writing stops at the first run that cannot be written, or at the first list whose number
has no room; nothing else stops it (`write_eq_none_iff`). A text is written only if it
is legal XML, and a formula whose fragment cannot be read becomes text. So one such
text keeps the rest of a document from being written (`documentOf_of_blocks`).

Key definitions: `Run.IsWritable`, `Word.IsOrdinary`.
Key theorems: `all_isLegal_pieces`, `writeRun_eq_none_iff`, `write_eq_none_iff`,
`documentOf_eq_ok_iff`, `documentOf_of_blocks`.
-/
import Formulary.Proofs.Document.Legal
import Formulary.Proofs.Word.ListItems
import Formulary.Service.Convert

namespace Formulary

open Xml (isLegal)

/-- Whether a run can be written: its text is legal, and so is the font that it needs; a formula
has to name no encoding, and to be well formed or else to have a legal readable text. -/
def Run.IsWritable (fonts : Word.FontChoice) (monospace : Bool) : Run → Prop
  | .text s _ => isLegal s = true ∧ (monospace = true → isLegal fonts.monospace = true)
  | .math omml latex _ => Omml.namesEncoding (Omml.complete omml) = false ∧
      ((∃ e, Xml.parse? .compact (Omml.complete omml) = some e) ∨
        (isLegal (latexLabel latex) = true ∧ isLegal fonts.mathFallback = true))
  | .lineBreak => True

namespace Word

/-! ### Runs -/

/-- The parts of a text are legal if the text is: tabs and line ends always are. -/
theorem all_isLegal_pieces (s : Text) : (pieces s).all Piece.isLegal = isLegal s := by
  fun_induction pieces s with
  | case1 => rfl
  | case2 s ih => rw [List.all_cons, ih]; rfl
  | case3 s ih => rw [List.all_cons, ih]; rfl
  | case4 s ih => rw [List.all_cons, ih]; rfl
  | case5 c s _ _ _ ih =>
    have hsplit : c :: s = (c :: s.takeWhile isTextual) ++ s.dropWhile isTextual := by
      rw [List.cons_append, List.takeWhile_append_dropWhile]
    rw [List.all_cons, ih, hsplit, Xml.isLegal_append]
    rfl

theorem writeText_eq_none_iff (s : Text) : (writeText s).2 = none ↔ isLegal s = true := by
  rw [writeText, all_isLegal_pieces]
  split <;> simp_all

theorem setFont_eq_none_iff (font : Text) (eastAsian : Bool) (r : Run) :
    (setFont font eastAsian r).2 = none ↔ isLegal font = true := by
  rw [setFont]
  split <;> simp_all

theorem andThen_eq_none_iff {a : Attempt} {f : Run → Attempt} :
    (a.andThen f).2 = none ↔ a.2 = none ∧ (f a.1).2 = none := by
  obtain ⟨r, e⟩ := a
  cases e <;> simp [Attempt.andThen]

theorem textRun_eq_none_iff (fonts : FontChoice) (monospace : Bool) (s : Text) (style : Style) :
    (textRun fonts monospace s style).2 = none ↔
      isLegal s = true ∧ (monospace = true → isLegal fonts.monospace = true) := by
  have hstyled : ((writeText s).andThen (setStyle style.bold style.italic)).2 = none ↔
      isLegal s = true := by
    rw [andThen_eq_none_iff, writeText_eq_none_iff]
    exact and_iff_left rfl
  unfold textRun
  cases monospace with
  | false => simpa using hstyled
  | true =>
    simp only [if_true, forall_const]
    rw [andThen_eq_none_iff, hstyled, setFont_eq_none_iff]

theorem fallbackRun_eq_none_iff (fonts : FontChoice) (latex : Text) :
    (fallbackRun fonts latex).2 = none ↔
      isLegal (latexLabel latex) = true ∧ isLegal fonts.mathFallback = true := by
  rw [fallbackRun, andThen_eq_none_iff, andThen_eq_none_iff, writeText_eq_none_iff,
    setFont_eq_none_iff]
  exact and_iff_left rfl

/-- Nothing stops the writing of a run that can be written, and something does if it cannot. -/
theorem writeRun_eq_none_iff (fonts : FontChoice) (monospace : Bool) (r : Formulary.Run) :
    (writeRun fonts monospace r).2 = none ↔ r.IsWritable fonts monospace := by
  cases r with
  | lineBreak => simp [writeRun, Run.IsWritable]
  | text s style => exact textRun_eq_none_iff fonts monospace s style
  | math omml latex display =>
    have hfallback := fallbackRun_eq_none_iff fonts latex
    rw [writeRun, Omml.element, Run.IsWritable]
    cases hencoding : Omml.namesEncoding (Omml.complete omml) with
    | true => simp
    | false =>
      cases hparse : Xml.parse? .compact (Omml.complete omml) with
      | none => simpa [Attempt.items] using hfallback
      | some e => simp

theorem writeRuns_eq_none_iff (fonts : FontChoice) (monospace : Bool) (rs : List Formulary.Run) :
    (writeRuns fonts monospace rs).2 = none ↔ ∀ r ∈ rs, r.IsWritable fonts monospace := by
  induction rs with
  | nil => simp [writeRuns]
  | cons r rs ih =>
    have hr := writeRun_eq_none_iff fonts monospace r
    rw [List.forall_mem_cons, ← hr, ← ih, writeRuns]
    obtain ⟨is, e⟩ := writeRun fonts monospace r
    cases e <;> simp

/-! ### Paragraphs -/

/-- Whether all runs of a paragraph can be written. -/
def Writable (fonts : FontChoice) (p : Formulary.Paragraph) : Prop :=
  ∀ r ∈ p.runs, r.IsWritable fonts (p.kind = .preformatted)

theorem writeParagraph_eq_none_iff (fonts : FontChoice) (d : Draft) (p : Formulary.Paragraph) :
    (d.writeParagraph fonts p).2 = none ↔ Writable fonts p ∧ (d.place p).1.2 = none := by
  rw [Writable, ← writeRuns_eq_none_iff, Draft.writeParagraph]
  obtain ⟨⟨place, e⟩, d'⟩ := d.place p
  cases e <;> simp

theorem place_eq_none_iff {d : Draft} {ws : List Marker} (hd : d.Opened ws)
    {p : Formulary.Paragraph}
    (hlevel : ∀ m ∈ activeMarker p, fits (writtenLevel m.level) = true) :
    (d.place p).1.2 = none ↔
      ∀ m ∈ activeMarker p, fits (numOf defaultNumbering (opened ws) m) = true := by
  unfold Draft.place
  cases hp : activeMarker p with
  | none => simp
  | some m =>
    simp only [hd.getNumbering, place_counting defaultNumbering (nodup_opened ws) (hlevel m hp)]
    split <;> simp_all

/-- **What stops the writing of a document**: a run that cannot be written, or a list whose
number has no room. -/
theorem write_eq_none_iff {fonts : FontChoice} {ps : List Formulary.Paragraph} {d : Draft}
    {ws : List Marker} (hd : d.Opened ws)
    (hlevel : ∀ p ∈ ps, ∀ m ∈ activeMarker p, fits (writtenLevel m.level) = true) :
    (d.write fonts ps).2 = none ↔ (∀ p ∈ ps, Writable fonts p) ∧
      ∀ m ∈ ps.filterMap activeMarker,
        fits (numOf defaultNumbering (opened (ws ++ ps.filterMap activeMarker)) m) = true := by
  induction ps generalizing d ws with
  | nil => simp [Draft.write]
  | cons p ps ih =>
    obtain ⟨hhead, hrest⟩ := List.forall_mem_cons.mp hlevel
    have hlater := ih (opened_writeParagraph fonts hd hhead) hrest
    have hfirst := writeParagraph_eq_none_iff fonts d p
    rw [place_eq_none_iff hd hhead] at hfirst
    have hwrite : (d.write fonts (p :: ps)).2 = none ↔
        (d.writeParagraph fonts p).2 = none ∧
          ((d.writeParagraph fonts p).1.write fonts ps).2 = none := by
      rw [Draft.write]
      obtain ⟨d', e⟩ := d.writeParagraph fonts p
      cases e <;> simp
    rw [hwrite, hfirst, hlater, List.forall_mem_cons]
    cases hp : activeMarker p with
    | none =>
      rw [List.filterMap_cons_none hp]
      simp [and_assoc]
    | some m =>
      rw [List.filterMap_cons_some hp, List.forall_mem_cons]
      -- the number of the first item is the same at the end as when it was written
      rw [numOf_opened, Option.toList_some, ← List.append_cons]
      simp only [Option.mem_some_iff, forall_eq']
      exact and_and_and_comm

/-- The numbers of all lists have room exactly if there are not more counted lists than Word
has numbers for. -/
theorem fits_numOf_iff {ws : List Marker} :
    (∀ m ∈ ws, fits (numOf defaultNumbering (opened ws) m) = true) ↔
      (opened ws).length ≤ 2147483637 := by
  refine ⟨fun h => ?_, fun h m hm => ?_⟩
  · by_contra hmany
    have hlast : (opened ws).length - 1 < (opened ws).length := by omega
    obtain ⟨hm, hordered⟩ := mem_of_mem_opened (List.getElem_mem hlast)
    have hnext : nextNum defaultNumbering = 10 := by decide
    have hfits := fits_iff.mp (h _ hm)
    rw [numOf, if_pos hordered, idxOf_list (nodup_opened ws) hlast, listNum, hnext] at hfits
    omega
  · obtain ⟨hlow, hhigh⟩ := numOf_le_length hm
    exact fits_iff.mpr (by omega)

/-! ### Documents -/

/-- A document is finished if nothing stops the writing of its paragraphs. -/
theorem documentOf_eq_ok_iff {cv : Converters} {ts : List Token} {ps : List Formulary.Paragraph}
    (hps : buildParagraphs cv ts = .ok ps) (st : Settings) :
    (∃ d, documentOf cv st ts = .ok d) ↔
      (Draft.empty.write (st.fonts none none) ps).2 = none := by
  rw [documentOf, hps]
  show (∃ d, document (st.fonts none none) ps = .ok d) ↔ _
  unfold document
  obtain ⟨d, e⟩ := Draft.empty.write (st.fonts none none) ps
  cases e <;> simp

/-- What holds of an ordinary document: its text, key and fonts are legal, no fragment names an
encoding, and Word has numbers for all its lists. -/
structure IsOrdinary (fonts : FontChoice) (key s : Text) (ts : List Token) (bs : List Block) :
    Prop where
  text : isLegal s = true
  key : isLegal key = true
  monospace : isLegal fonts.monospace = true
  mathFallback : isLegal fonts.mathFallback = true
  encoding : ∀ f ∈ formulas ts, Omml.namesEncoding (Omml.complete f.markup.omml) = false
  lists : (nestedNodes [] 0 0 bs).length ≤ 2147483637

/-- In an ordinary document every run can be written that shows something of its tokens. -/
theorem IsOrdinary.isWritable {cv : Converters} {fonts : FontChoice} {key s : Text}
    {bs : List Block} (h : IsOrdinary fonts key s (tokenize cv key s) bs) (monospace : Bool)
    {r : Formulary.Run} (hr : r.IsOf (tokenize cv key s)) : r.IsWritable fonts monospace := by
  cases r with
  | lineBreak => trivial
  | text u style =>
    exact ⟨isLegal_of_subset hr (isLegal_shown h.text h.key), fun _ => h.monospace⟩
  | math omml latex display =>
    obtain ⟨f, hf, rfl, rfl, -⟩ := hr
    exact ⟨h.encoding f hf, .inr ⟨isLegal_latexLabel (isLegal_latex h.text hf), h.mathFallback⟩⟩

/-- **When a document is finished.** The paragraphs are always made. The document is finished
exactly if all their runs can be written and its counted lists have room; that is so for all
ordinary texts, whatever the converters make of the formulas. -/
theorem documentOf_of_blocks {cv : Converters} {st : Settings} {key s : Text} {bs : List Block}
    {ts : List Token} (hts : ts = tokenize cv key s) (hinline : cv.inline = none)
    (hblocks : cv.blocks (combine ts) = .ok bs) (hbs : BlocksOf (combine ts) bs) :
    ∃ ps, buildParagraphs cv ts = .ok ps ∧
      ((∃ d, documentOf cv st ts = .ok d) ↔ (∀ p ∈ ps, Writable (st.fonts none none) p) ∧
        (opened (ps.filterMap activeMarker)).length ≤ 2147483637) ∧
      (IsOrdinary (st.fonts none none) key s ts bs → ∃ d, documentOf cv st ts = .ok d) := by
  obtain ⟨ps, hps, hshown⟩ := buildParagraphs_of_blocks hinline hblocks hbs
  obtain ⟨hitems, -⟩ := items_of_buildParagraphs hblocks hps
  have hempty : Draft.empty.Opened [] := rfl
  have hwrite : (Draft.empty.write (st.fonts none none) ps).2 = none ↔ _ :=
    write_eq_none_iff hempty (level_fits hitems)
  rw [List.nil_append, fits_numOf_iff] at hwrite
  have hdocument := documentOf_eq_ok_iff hps st
  refine ⟨ps, hps, hdocument.trans hwrite, fun h => ?_⟩
  subst hts
  refine hdocument.mpr (hwrite.mpr ⟨fun p hp r hr => h.isWritable _ (hshown p hp r hr), ?_⟩)
  exact (length_opened_le fun m hm => exists_marks hitems hm).trans h.lists

/-- Converters that find one paragraph, and no formulas. -/
def oneText (s : Text) : Converters := blocksOnly [.paragraph ⟨[.text s], [], []⟩]

theorem blocksOf_oneText {src s : Text} (h : s <:+: src) :
    BlocksOf src [.paragraph ⟨[.text s], [], []⟩] :=
  ⟨⟨⟨h, trivial⟩, List.nil_infix, List.nil_infix⟩, trivial⟩

/-- A text with a character that no document may hold. -/
def controlText : Text := "a\x01b".toList

/-- A text with a formula. -/
def formulaText : Text := "a $x^2$".toList

/-- What Markdown sees of the text with a formula, under a key of one letter. -/
def formulaLine : Text := "a MATHPHm-1-kPHMATH".toList

theorem documentOf_of_blocks_controlText :
    (∃ d, documentOf (oneText formulaLine) .standard
      (tokenize (oneText formulaLine) ['k'] formulaText) = .ok d) ∧
    ¬ ∃ d, documentOf (oneText controlText) .standard
      (tokenize (oneText controlText) ['k'] controlText) = .ok d := by
  constructor
  · have hraw : formulaLine <:+: combine (tokenize (oneText formulaLine) ['k'] formulaText) := by
      decide +kernel
    obtain ⟨ps, -, -, hfinished⟩ := @documentOf_of_blocks (oneText formulaLine) .standard ['k']
      formulaText _ _ rfl rfl rfl (blocksOf_oneText hraw)
    exact hfinished ⟨by decide, by decide, by decide, by decide, by decide +kernel, by decide⟩
  · have hraw : controlText <:+: combine (tokenize (oneText controlText) ['k'] controlText) := by
      decide +kernel
    obtain ⟨ps, hps, hiff, -⟩ := @documentOf_of_blocks (oneText controlText) .standard ['k']
      controlText _ _ rfl rfl rfl (blocksOf_oneText hraw)
    have hbuilt : buildParagraphs (oneText controlText)
        (tokenize (oneText controlText) ['k'] controlText) =
        .ok [.of .body [.text controlText .plain]] := by decide +kernel
    obtain rfl := Except.ok.inj (hps.symm.trans hbuilt)
    intro h
    have hwritable := (hiff.mp h).1 _ List.mem_cons_self _ List.mem_cons_self
    exact absurd hwritable.1 (by decide)

end Word

end Formulary
