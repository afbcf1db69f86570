/-
# The characters of a document

What a document shows is legal XML if the text it was made from is, and the key of
the run. Folding accents and readable text add letters and symbols that every
document may hold, and the text of a formula is legal whatever converter wrote it,
since a document with another character is not read.

Key theorems: `isLegal_foldAccents`, `isLegal_latexLabel`, `Omml.isLegal_text`,
`isLegal_shown`.
-/
import Formulary.Proofs.Document.Shown
import Formulary.Proofs.Formula.Fallback
import Formulary.Proofs.Token.Run
import Formulary.Proofs.Xml.Legal

namespace Formulary

open Xml (isChar isLegal)

theorem isLegal_iff {s : Text} : isLegal s = true ↔ ∀ c ∈ s, isChar c = true := List.all_eq_true

theorem isLegal_of_subset {s t : Text} (hst : s ⊆ t) (ht : isLegal t = true) : isLegal s = true :=
  isLegal_iff.mpr fun c hc => isLegal_iff.mp ht c (hst hc)

/-! ### Texts that are made from a text -/

theorem isLegal_fold {a : Accent} {s : Text} (h : isLegal s = true) :
    isLegal (a.fold s) = true := by
  have hletters : ∀ a ∈ Accent.all, ∀ p ∈ a.table, isLegal p.2 = true := by decide
  fun_induction a.fold s with
  | case1 => exact h
  | case2 s t r hcommand ih =>
    obtain ⟨c, hc⟩ := Accent.letter?_of_command? hcommand
    have ht := hletters a (Accent.mem_all a) _ (Accent.mem_table_of_letter? hc)
    have hr : r ⊆ '\\' :: s :=
      List.Subset.trans (Accent.suffix_of_command? hcommand).subset (List.subset_cons_self _ s)
    rw [Xml.isLegal_append, ht, ih (isLegal_of_subset hr h)]
    rfl
  | case3 s _ ih =>
    rw [isLegal_iff, List.forall_mem_cons] at h ⊢
    exact ⟨h.1, isLegal_iff.mp (ih (isLegal_iff.mpr h.2))⟩
  | case4 c s _ ih =>
    rw [isLegal_iff, List.forall_mem_cons] at h ⊢
    exact ⟨h.1, isLegal_iff.mp (ih (isLegal_iff.mpr h.2))⟩

theorem isLegal_foldAccents {s : Text} (h : isLegal s = true) : isLegal (foldAccents s) = true := by
  unfold foldAccents
  generalize Accent.all = as
  induction as generalizing s with
  | nil => exact h
  | cons a as ih => exact ih (isLegal_fold h)

/-- Readable text is legal if its source is. -/
theorem isLegal_latexLabel {s : Text} (h : isLegal s = true) : isLegal (latexLabel s) = true := by
  have hsymbols : isLegal (symbols.map (·.2)) = true := by rfl
  refine isLegal_iff.mpr fun c hc => ?_
  rcases mem_latexLabel hc with hc | ⟨w, hw⟩
  · exact isLegal_iff.mp h c hc
  · exact isLegal_iff.mp hsymbols c (symbol?_mem hw)

/-! ### The text of a fragment -/

theorem Xml.isLegal_leadingText {ns : List Xml.Node} (h : Xml.AllLegal ns) :
    isLegal (Xml.leadingText ns) = true := by
  induction ns with
  | nil => rfl
  | cons n ns ih =>
    obtain ⟨hn, hns⟩ := h
    cases n with
    | text s =>
      have hs : isLegal s = true := hn
      rw [Xml.leadingText, Xml.isLegal_append, hs, ih hns]
      rfl
    | _ => rfl

namespace Omml

mutual
theorem isLegal_nodeText : ∀ {n : Xml.Node}, n.IsLegal → isLegal (nodeText n) = true
  | .element t ns, h => by
    have hnodes := isLegal_nodesText h
    rw [nodeText, Xml.isLegal_append, hnodes]
    split
    · rw [Xml.isLegal_leadingText h]
      rfl
    · rfl
  | .text _, _ => rfl
  | .comment _, _ => rfl
  | .instruction _ _, _ => rfl
  | .reference _, _ => rfl
theorem isLegal_nodesText : ∀ {ns : List Xml.Node}, Xml.AllLegal ns → isLegal (nodesText ns) = true
  | [], _ => rfl
  | n :: ns, ⟨hn, hns⟩ => by
    rw [nodesText, Xml.isLegal_append, isLegal_nodeText hn, isLegal_nodesText hns]
    rfl
end

/-- The text of a fragment is legal, whatever the fragment is. -/
theorem isLegal_text (s : Text) : isLegal (text s) = true := by
  unfold text
  split
  · rename_i e h
    exact isLegal_nodeText (Xml.isLegal_of_parse? h)
  · rfl

end Omml

/-! ### The tokens of a text -/

theorem isChar_of_isDigit {c : Char} (h : c.isDigit = true) : isChar c = true := by
  have hrange : 0x20 ≤ c.toNat ∧ c.toNat ≤ 0xD7FF := by
    simp only [Char.isDigit, Bool.and_eq_true, decide_eq_true_eq, UInt32.le_iff_toNat_le] at h
    have hlow : 48 ≤ c.toNat := h.1
    have hhigh : c.toNat ≤ 57 := h.2
    omega
  simp [isChar, hrange]

theorem isLegal_tokenId {kind : Char} (hkind : isChar kind = true) (n : Nat) {key : Text}
    (hkey : isLegal key = true) : isLegal (tokenId kind n key) = true := by
  have hdigits : isLegal (Text.ofNat n) = true :=
    isLegal_iff.mpr fun c hc => isChar_of_isDigit (Text.isDigit_of_mem_ofNat hc)
  have hnumber : isLegal (kind :: '-' :: Text.ofNat n) = true :=
    isLegal_iff.mpr (List.forall_mem_cons.mpr ⟨hkind, List.forall_mem_cons.mpr
      ⟨by decide, isLegal_iff.mp hdigits⟩⟩)
  have hend : isLegal ('-' :: key) = true :=
    isLegal_iff.mpr (List.forall_mem_cons.mpr ⟨by decide, isLegal_iff.mp hkey⟩)
  rw [tokenId, Xml.isLegal_append, hnumber, hend]
  rfl

theorem isLegal_placeholder {id : Text} (h : isLegal id = true) :
    isLegal (placeholder id) = true := by
  have hmarks : isLegal markStart = true ∧ isLegal markEnd = true := by decide
  rw [placeholder, Xml.isLegal_append, Xml.isLegal_append, h, hmarks.1, hmarks.2]
  rfl

section Tokens

variable {cv : Converters} {key s : Text} (hs : isLegal s = true)

include hs

/-- The stretch of text that a token stands for is legal. -/
theorem isLegal_segment {t : Token} (ht : t ∈ tokenize cv key s) :
    isLegal t.segment.source = true :=
  isLegal_of_subset (source_infix_of_mem_tokenize cv key s ht).subset (isLegal_foldAccents hs)

theorem isLegal_latex {f : Formula} (hf : f ∈ formulas (tokenize cv key s)) :
    isLegal f.latex = true :=
  isLegal_of_subset (infix_source f.latex f.display).subset
    (isLegal_segment hs (mem_formulas_iff.mp hf))

theorem isLegal_combined (hkey : isLegal key = true) {t : Token} (ht : t ∈ tokenize cv key s) :
    isLegal t.combined = true := by
  cases t with
  | plain id u => exact isLegal_segment hs ht
  | math f =>
    obtain ⟨i, hi⟩ := List.mem_iff_getElem?.mp ht
    have hid : f.id = tokenId 'm' i key := id_of_getElem?_tokenize cv key s hi
    have hletter : isChar 'm' = true := by decide
    have hmark := isLegal_placeholder (isLegal_tokenId hletter i hkey)
    rw [← hid] at hmark
    have hblank : isLegal "\n\n".toList = true := by decide
    rw [Token.combined]
    split
    · rw [Xml.isLegal_append, Xml.isLegal_append, hblank, hmark]
      rfl
    · exact hmark

/-- **What a document shows of a legal text is legal**, whatever the converters answer. -/
theorem isLegal_shown (hkey : isLegal key = true) : isLegal (shown (tokenize cv key s)) = true := by
  have hcombine : isLegal (combine (tokenize cv key s)) = true := by
    refine isLegal_iff.mpr fun c hc => ?_
    obtain ⟨t, ht, hc⟩ := List.mem_flatMap.mp hc
    exact isLegal_iff.mp (isLegal_combined hs hkey ht) c hc
  have hformulas : isLegal ((formulas (tokenize cv key s)).flatMap fun f =>
      f.latex ++ Omml.text f.markup.omml) = true := by
    refine isLegal_iff.mpr fun c hc => ?_
    obtain ⟨f, hf, hc⟩ := List.mem_flatMap.mp hc
    rcases List.mem_append.mp hc with hc | hc
    · exact isLegal_iff.mp (isLegal_latex hs hf) c hc
    · exact isLegal_iff.mp (Omml.isLegal_text _) c hc
  have hsigns : isLegal "$ ".toList = true := by decide
  rw [shown, Xml.isLegal_append, Xml.isLegal_append, hcombine, hsigns, hformulas]
  rfl

end Tokens

end Formulary
