/-
# Formulas in code

Code is literal, so the placeholders in it give way to the source of their
formulas. What comes back is the text of the tokens in a row, but display
math keeps the blank lines that were put around its placeholder: four line feeds
for each. So code is its own text exactly as long as it holds no display math
(`restoreSource_combine`), and its own lines then are the paragraphs of a code block.

Key definitions: `Token.isDisplay`, `Token.spaced`.
Key theorems: `linesOf_eq_splitOn`, `restoreSource_marked`, `length_flatMap_spaced`,
`restoreSource_combine`.
-/
import Formulary.Document.Build
import Formulary.Proofs.Page.Substitution
import Formulary.Proofs.Token.RoundTrip

namespace Formulary

/-! ### Lines -/

/-- The lines of a text are what stands between its line feeds. -/
theorem linesOf_eq_splitOn (s : Text) : linesOf s = s.splitOn '\n' := by
  have hline : ∀ l ∈ linesOf s, '\n' ∉ l := by
    intro l hl hmem
    obtain ⟨a, b, rfl⟩ := List.append_of_mem hmem
    exact Text.not_infix_of_mem_pieces (by simp) hl ⟨a, b, by simp⟩
  have hsplit := List.splitOn_intercalate '\n' hline (Text.pieces_ne_nil ['\n'] s)
  rw [← hsplit, linesOf, Text.intercalate_pieces]

/-- A line feed at the end of code starts no line of its own. -/
theorem codeLines_append_lineFeed (s : Text) : codeLines (s ++ ['\n']) = s.splitOn '\n' := by
  have hends : Text.endsWith '\n' (s ++ ['\n']) = true := by simp [Text.endsWith]
  rw [codeLines, if_pos hends, List.dropLast_concat, linesOf_eq_splitOn]

/-! ### Source in the place of placeholders -/

theorem flatMap_source_consPart (p : Part) (ps : List Part) :
    (consPart p ps).flatMap Part.source = p.source ++ ps.flatMap Part.source := by
  unfold consPart
  split
  · rfl
  · simp [Part.source]
  · rfl

theorem flatMap_source_joinLiterals (ps : List Part) :
    (joinLiterals ps).flatMap Part.source = ps.flatMap Part.source := by
  induction ps with
  | nil => rfl
  | cons p ps ih => rw [joinLiterals_cons, flatMap_source_consPart, ih, List.flatMap_cons]

/-- In an interleaving each formula is put back as it stood in the source. -/
theorem restoreSource_marked {byId : Text → Option Formula} {ps : List Part}
    (hclear : Clear markStart ps)
    (hid : ∀ f, Part.math f ∈ ps → IsMarkId f.id ∧ byId f.id = some f) :
    restoreSource byId (ps.flatMap Part.marked) = ps.flatMap Part.source := by
  rw [restoreSource, splitPlaceholders_marked hclear hid, flatMap_source_joinLiterals]

/-- A character that the pattern does not hold can follow the parts. -/
theorem clear_append_literal {pat : Text} {c : Char} (hpat : pat ≠ []) (hc : c ∉ pat)
    {ps : List Part} (h : Clear pat ps) : Clear pat (ps ++ [.literal [c]]) := by
  have hleading : ∀ ps : List Part, leading (ps ++ [.literal [c]]) = leading ps ∨
      leading (ps ++ [.literal [c]]) = leading ps ++ [c] := by
    intro ps
    induction ps with
    | nil => exact .inr rfl
    | cons p ps ih =>
      cases p with
      | math f => exact .inl rfl
      | literal u =>
        refine ih.imp (fun h => ?_) fun h => ?_
        · simp [leading, h]
        · simp [leading, h]
  have hnot : ∀ ps : List Part, ¬ pat <:+: leading ps →
      ¬ pat <:+: leading (ps ++ [.literal [c]]) := by
    intro ps hps
    rcases hleading ps with h | h
    · rw [h]
      exact hps
    · rw [h, Text.infix_append_cons_iff hc, not_or]
      exact ⟨hps, fun hnil => hpat (List.infix_nil.mp hnil)⟩
  induction ps with
  | nil => exact clear_cons.mpr ⟨hnot [] h.leading, clear_nil hpat⟩
  | cons p ps ih =>
    obtain ⟨hlead, hrest⟩ := clear_cons.mp h
    exact clear_cons.mpr ⟨hnot (p :: ps) hlead, ih hrest⟩

/-! ### The source of a token -/

namespace Token

/-- Whether a token is display math. -/
def isDisplay (t : Token) : Bool := t.formula?.any Formula.display

/-- A token as it comes back in code. -/
def spaced (t : Token) : Text :=
  if t.isDisplay then blankLines ++ t.segment.source ++ blankLines else t.segment.source

theorem flatMap_source_parts (t : Token) : t.parts.flatMap Part.source = t.spaced := by
  cases t with
  | plain id s => simp [parts, spaced, isDisplay, formula?, segment, Segment.source, Part.source]
  | math f =>
    by_cases hd : f.display = true
    · simp [parts, spaced, isDisplay, formula?, segment, Segment.source, Part.source, hd]
    · simp [parts, spaced, isDisplay, formula?, segment, Segment.source, Part.source, hd]

theorem length_spaced (t : Token) :
    t.spaced.length = t.segment.source.length + if t.isDisplay then 4 else 0 := by
  by_cases hd : t.isDisplay = true
  · have hblank : blankLines.length = 2 := rfl
    simp only [spaced, hd, if_true, List.length_append, hblank]
    omega
  · simp [spaced, hd]

end Token

/-- Each display formula comes back four characters longer. -/
theorem length_flatMap_spaced (ts : List Token) :
    (ts.flatMap Token.spaced).length =
      (ts.flatMap fun t => t.segment.source).length + 4 * ts.countP Token.isDisplay := by
  induction ts with
  | nil => rfl
  | cons t ts ih =>
    simp only [List.flatMap_cons, List.length_append, ih, Token.length_spaced, List.countP_cons]
    split <;> omega

theorem flatMap_spaced_eq_iff (ts : List Token) :
    ts.flatMap Token.spaced = ts.flatMap (fun t => t.segment.source) ↔
      ∀ t ∈ ts, ¬ t.isDisplay = true := by
  refine ⟨fun h t ht hd => ?_, fun h => ?_⟩
  · have hlength := length_flatMap_spaced ts
    have hpos : 0 < ts.countP Token.isDisplay := List.countP_pos_iff.mpr ⟨t, ht, hd⟩
    rw [h] at hlength
    omega
  · refine List.flatMap_congr fun t ht => ?_
    rw [Token.spaced, if_neg (h t ht)]

/-! ### Code with formulas -/

theorem unaccented_markStart : Accent.Unaccented markStart := by decide

/-- A plain token of a text without a start mark holds none either. -/
theorem markStart_not_infix_plain {cv : Converters} {key s : Text} (hs : ¬ markStart <:+: s)
    {id u : Text} (hu : Token.plain id u ∈ tokenize cv key s) : ¬ markStart <:+: u := by
  have hpart : u <:+: foldAccents s := source_infix_of_mem_tokenize cv key s hu
  exact fun h => hs (infix_of_infix_foldAccents unaccented_markStart (h.trans hpart))

theorem flatMap_source_tokenize (cv : Converters) (key s : Text) :
    (tokenize cv key s).flatMap (fun t => t.segment.source) = foldAccents s := by
  rw [← List.flatMap_map, map_segment_tokenize, flatMap_source_segments]

section Run

variable (cv : Converters) {key s : Text} (hkey : IsRunKey key) (hs : ¬ markStart <:+: s)
include hkey hs

/-- The formulas of a run are put back, also in front of the line feed that ends a
code block. -/
theorem restoreSource_tokenize :
    restoreSource (formulaById (tokenize cv key s)) (combine (tokenize cv key s)) =
        (tokenize cv key s).flatMap Token.spaced ∧
      restoreSource (formulaById (tokenize cv key s)) (combine (tokenize cv key s) ++ ['\n']) =
        (tokenize cv key s).flatMap Token.spaced ++ ['\n'] := by
  have hclear : Clear markStart ((tokenize cv key s).flatMap Token.parts) :=
    clear_parts (isChain_tokenize cv key s) fun _ _ => markStart_not_infix_plain hs
  have hid : ∀ f, Part.math f ∈ (tokenize cv key s).flatMap Token.parts →
      IsMarkId f.id ∧ formulaById (tokenize cv key s) f.id = some f := by
    intro f hf
    have hf := math_mem_flatMap_parts_iff.mp hf
    have hnodup := nodup_ids_formulas_tokenize cv key s
    exact ⟨isMarkId_of_mem_tokenize hkey.oneLine hkey.no_markEnd hf,
      (formulaById_eq_some_iff hnodup).mpr ⟨hf, rfl⟩⟩
  have hsource : ((tokenize cv key s).flatMap Token.parts).flatMap Part.source =
      (tokenize cv key s).flatMap Token.spaced := by
    rw [List.flatMap_assoc]
    exact List.flatMap_congr fun t _ => t.flatMap_source_parts
  refine ⟨?_, ?_⟩
  · rw [combine_eq_flatMap_marked, restoreSource_marked hclear hid, hsource]
  · have hclear' := clear_append_literal (c := '\n') (by decide) (by decide) hclear
    have hid' : ∀ f, Part.math f ∈ (tokenize cv key s).flatMap Token.parts ++ [.literal ['\n']] →
        IsMarkId f.id ∧ formulaById (tokenize cv key s) f.id = some f := fun f hf =>
      hid f (by simpa using hf)
    have hall := restoreSource_marked hclear' hid'
    simpa [combine_eq_flatMap_marked, hsource, Part.marked, Part.source] using hall

end Run

/-- **Code comes back as it was written, but for display math.** For a text
without a start mark, the formulas in code are put back with the blank lines
around display math: four characters more for each, so the text is its own just
if there is none. A span of code is this text, and a code block a paragraph for each
of its lines. -/
theorem restoreSource_combine (cv : Converters) (key s : Text) (ts : List Token)
    (hts : ts = tokenize cv key s) (hkey : IsRunKey key) (hs : ¬ markStart <:+: s) :
    restoreSource (formulaById ts) (combine ts) = ts.flatMap Token.spaced ∧
    (ts.flatMap Token.spaced).length = (foldAccents s).length + 4 * ts.countP Token.isDisplay ∧
    (ts.flatMap Token.spaced = foldAccents s ↔ ∀ t ∈ ts, ¬ t.isDisplay = true) ∧
    (∀ texts style, expand (formulaById ts) texts style (.code (combine ts)) =
      some [.text (ts.flatMap Token.spaced) style]) ∧
    ∀ lex, Entry.paragraphs (formulaById ts) lex (.code (combine ts ++ ['\n'])) =
      .ok (((ts.flatMap Token.spaced).splitOn '\n').map fun l =>
        .of .preformatted [.text l .plain]) := by
  subst hts
  obtain ⟨hrestore, hblock⟩ := restoreSource_tokenize cv hkey hs
  have hsource := flatMap_source_tokenize cv key s
  refine ⟨hrestore, ?_, ?_, fun texts style => ?_, fun lex => ?_⟩
  · rw [length_flatMap_spaced, hsource]
  · rw [← hsource]
    exact flatMap_spaced_eq_iff _
  · rw [expand, hrestore]
  · rw [Entry.paragraphs, hblock, codeLines_append_lineFeed]

/-- Code with an inline formula and display math. -/
def mixedCode : Text := "\\hat{a} $x$ b $$y$$ c".toList

theorem restoreSource_combine_mixedCode :
    ¬ markStart <:+: mixedCode ∧
    restoreSource (formulaById (tokenize .wordsOnly digitsKey mixedCode))
      (combine (tokenize .wordsOnly digitsKey mixedCode)) = "â $x$ b \n\n$$y$$\n\n c".toList ∧
    foldAccents mixedCode = "â $x$ b $$y$$ c".toList ∧
    Entry.paragraphs (formulaById (tokenize .wordsOnly digitsKey mixedCode))
        Converters.wordsOnly.lexInline
        (.code (combine (tokenize .wordsOnly digitsKey mixedCode) ++ ['\n'])) =
      .ok (["â $x$ b ", "", "$$y$$", "", " c"].map fun l =>
        .of .preformatted [.text l.toList .plain]) := by
  have hs : ¬ markStart <:+: mixedCode := by decide
  obtain ⟨hrestore, -, -, -, hblock⟩ := restoreSource_combine .wordsOnly digitsKey mixedCode
    (tokenize .wordsOnly digitsKey mixedCode) rfl isRunKey_digitsKey hs
  have hspaced : (tokenize .wordsOnly digitsKey mixedCode).flatMap Token.spaced =
      "â $x$ b \n\n$$y$$\n\n c".toList := by decide +kernel
  refine ⟨hs, ?_, by decide +kernel, ?_⟩
  · rw [hrestore, hspaced]
  · rw [hblock, hspaced]
    rfl

end Formulary
