/-
# The forms of a formula belong together

All forms of a formula are made in one go, with one use of the LaTeX converter. They are
those that would be made one by one (`convertFormula_agrees`), with one exception: where the
preview cannot be made, the MathML is the error document too, although there may be an answer
of the converter. What keeps a preview from being made is the converter's failure, an
answer that has no bytes or is not well formed, or source that has no bytes or that no
document may hold, in this order (`obstacle?`); nothing else does.

That there are forms at all depends on what is turned into bytes without a way back: the
MathML, where its text is the fragment, and the fragment, where its boxes are opened. With
half of a pair in them there is no form (`convertFormula_eq_error_iff`). Of source and
answers of characters there always are forms (`convertFormula_formulas`).

Key definitions: `MathMl.fault?`, `obstacle?`.
Key theorems: `tryFormula_of_obstacle?`, `tryFormula_of_no_obstacle`, `ommlOf_eq_error_iff`,
`ommlOf_not_blank`, `convertFormula_agrees`.
-/
import Formulary.Proofs.Formula.Fallback
import Formulary.Proofs.Text.Blank

namespace Formulary

/-! ### What keeps a preview from being made -/

namespace MathMl

variable {mathml latex : LooseText} {display : Bool}

/-- What keeps a preview from being made of MathML and its source. -/
def fault? (mathml latex : LooseText) : Option Failure :=
  match mathml.toText with
  | .error e => some e
  | .ok document =>
    if (Xml.parse? .faithful document).isNone then some .malformedXml
    else
      match latex.toText with
      | .error e => some e
      | .ok source => if Xml.isLegal source then none else some .illegalText

theorem preview_of_fault? {e : Failure} (h : fault? mathml latex = some e) :
    preview mathml latex display = .error e := by
  unfold fault? at h
  split at h
  · rename_i e' hbytes
    obtain rfl := Option.some.inj h
    rw [preview, hbytes]
    rfl
  · rename_i document hbytes
    rw [preview, hbytes]
    dsimp only [bind, Except.bind]
    split at h
    · rename_i hparse
      obtain rfl := Option.some.inj h
      rw [Option.isNone_iff_eq_none.mp hparse]
    · rename_i hparse
      obtain ⟨root, hroot⟩ := Option.ne_none_iff_exists'.mp
        (fun hnone => hparse (Option.isNone_iff_eq_none.mpr hnone))
      rw [hroot]
      split at h
      · rename_i e' hsource
        obtain rfl := Option.some.inj h
        rw [hsource]
      · rename_i source hsource
        split at h
        · exact absurd h (by simp)
        · rename_i hlegal
          obtain rfl := Option.some.inj h
          rw [hsource]
          exact if_neg hlegal

/-- The written form of a preview. -/
theorem preview_ofText {document source : Text} {root : Xml.Element}
    (hroot : Xml.parse? .faithful document = some root) (hlegal : Xml.isLegal source = true) :
    preview (.ofText document) (.ofText source) display =
      .ok ("<span class=\"".toList ++ previewClass display ++ "\">".toList ++
        (annotate root source).print ++ "</span>".toList) := by
  rw [preview, LooseText.toText_ofText]
  dsimp only [bind, Except.bind]
  rw [hroot, LooseText.toText_ofText]
  exact if_pos hlegal

theorem fault?_ofText {document : Text} (hroot : (Xml.parse? .faithful document).isNone = false)
    (source : Text) : fault? (.ofText document) (.ofText source) =
      if Xml.isLegal source then none else some .illegalText := by
  rw [fault?, LooseText.toText_ofText, LooseText.toText_ofText]
  exact if_neg (by rw [hroot]; simp)

/-- A preview can be made of a well formed document and source that a document may hold. -/
theorem fault?_eq_none_iff : fault? mathml latex = none ↔
    ∃ document source root, mathml = .ofText document ∧ latex = .ofText source ∧
      Xml.parse? .faithful document = some root ∧ Xml.isLegal source = true := by
  constructor
  · intro h
    cases hbytes : mathml.toText with
    | error e =>
      rw [fault?, hbytes] at h
      exact absurd h (by simp)
    | ok document =>
      cases hroot : Xml.parse? .faithful document with
      | none =>
        rw [fault?, hbytes] at h
        simp [hroot] at h
      | some root =>
        obtain rfl := LooseText.toText_eq_ok_iff.mp hbytes
        cases hsource : latex.toText with
        | error e =>
          rw [fault?, hbytes, hsource] at h
          simp [hroot] at h
        | ok source =>
          obtain rfl := LooseText.toText_eq_ok_iff.mp hsource
          rw [fault?_ofText (by rw [hroot]; rfl)] at h
          exact ⟨document, source, root, rfl, rfl, hroot, by simpa using h⟩
  · rintro ⟨document, source, root, rfl, rfl, hroot, hlegal⟩
    rw [fault?_ofText (by rw [hroot]; rfl), if_pos hlegal]

theorem preview_eq_error_iff_fault? :
    (∃ why, preview mathml latex display = .error why) ↔ fault? mathml latex ≠ none := by
  cases h : fault? mathml latex with
  | some e => exact ⟨fun _ => by simp, fun _ => ⟨e, preview_of_fault? h⟩⟩
  | none =>
    obtain ⟨document, source, root, rfl, rfl, hroot, hlegal⟩ := fault?_eq_none_iff.mp h
    rw [preview_ofText hroot hlegal]
    simp

/-- What keeps a preview from being made, in terms of the masks. -/
theorem preview_eq_error_iff : (∃ why, preview mathml latex display = .error why) ↔
    mathml.hasHalf = true ∨ Xml.parse? .faithful mathml.mask = none ∨
      latex.hasHalf = true ∨ Xml.isLegal latex.mask = false := by
  rw [preview_eq_error_iff_fault?, ne_eq, fault?_eq_none_iff]
  constructor
  · intro h
    by_contra hnot
    simp only [not_or, Bool.not_eq_true, Bool.not_eq_false] at hnot
    obtain ⟨hmathml, hparse, hlatex, hlegal⟩ := hnot
    obtain ⟨root, hroot⟩ := Option.ne_none_iff_exists'.mp hparse
    exact h ⟨_, _, root, (LooseText.ofText_mask hmathml).symm,
      (LooseText.ofText_mask hlatex).symm, hroot, hlegal⟩
  · rintro h ⟨document, source, root, rfl, rfl, hroot, hlegal⟩
    simp [LooseText.hasHalf_ofText, LooseText.mask_ofText, hroot, hlegal] at h

end MathMl

section Forms

variable (fc : FormulaConverters) (latex : LooseText) (display : Bool)

/-- What keeps the preview of a formula from being made. -/
def obstacle? : Option LooseText :=
  match fc.mathml latex display with
  | .error why => some why
  | .ok mathml =>
    (MathMl.fault? mathml latex).map fun e => .ofText (e.message (fc.report mathml.mask))

variable {fc latex display}

theorem tryFormula_of_obstacle? {why : LooseText} (h : obstacle? fc latex display = some why) :
    tryFormula fc latex display = .error why := by
  unfold obstacle? at h
  split at h
  · rename_i e he
    obtain rfl := Option.some.inj h
    rw [tryFormula, he]
    rfl
  · rename_i mathml hmathml
    obtain ⟨e, he, rfl⟩ := Option.map_eq_some_iff.mp h
    rw [tryFormula, hmathml]
    show ((MathMl.preview mathml latex display).mapError _).bind _ = _
    rw [MathMl.preview_of_fault? he]
    rfl

theorem tryFormula_of_no_obstacle (h : obstacle? fc latex display = none) :
    ∃ document source root, latex = .ofText source ∧
      fc.mathml latex display = .ok (.ofText document) ∧
      Xml.parse? .faithful document = some root ∧
      tryFormula fc latex display = .ok (.ofText document,
        .ofText ("<span class=\"".toList ++ MathMl.previewClass display ++ "\">".toList ++
          (MathMl.annotate root source).print ++ "</span>".toList)) := by
  unfold obstacle? at h
  split at h
  · exact absurd h (by simp)
  · rename_i mathml hmathml
    obtain ⟨document, source, root, rfl, rfl, hroot, hlegal⟩ :=
      MathMl.fault?_eq_none_iff.mp (Option.map_eq_none_iff.mp h)
    refine ⟨document, source, root, rfl, hmathml, hroot, ?_⟩
    rw [tryFormula, hmathml]
    show ((MathMl.preview (.ofText document) (.ofText source) display).mapError _).bind _ = _
    rw [MathMl.preview_ofText hroot hlegal]
    rfl

/-! ### Previews and error spans -/

/-- The class of a preview is never that of an error. -/
theorem preview_ne_errorSpan (inner : Text) (why : LooseText) :
    .ofText ("<span class=\"".toList ++ MathMl.previewClass display ++ "\">".toList ++ inner ++
      "</span>".toList) ≠ errorSpan latex why := by
  intro h
  have hclass : ∃ r, LooseText.ofText ("<span class=\"".toList ++ MathMl.previewClass display ++
      "\">".toList ++ inner ++ "</span>".toList) =
        LooseText.ofText "<span class=\"math-r".toList ++ r := by
    unfold MathMl.previewClass
    split <;> exact ⟨_, rfl⟩
  have herror : ∃ r, errorSpan latex why = LooseText.ofText "<span class=\"math-e".toList ++ r :=
    ⟨_, rfl⟩
  obtain ⟨r, hr⟩ := hclass
  obtain ⟨r', hr'⟩ := herror
  rw [hr, hr'] at h
  have hletter := congrArg (fun s : LooseText => s[18]?) h
  exact absurd hletter (by simp [LooseText.ofText])

end Forms

/-! ### Fragments -/

theorem eq_ok_of_bind {α β : Type} {x : Except Failure α} {f : α → Except Failure β} {b : β}
    (h : x >>= f = .ok b) : ∃ a, x = .ok a ∧ f a = .ok b := by
  cases x with
  | error e => exact absurd h (by simp [bind, Except.bind])
  | ok a => exact ⟨a, rfl, h⟩

/-- A written element starts with its tag. -/
theorem print_eq_cons (e : Xml.Element) : ∃ r, e.print = '<' :: r := by
  obtain ⟨t, ns⟩ := e
  cases ns <;> exact ⟨_, rfl⟩

theorem text_eq_error_iff {document : Text} : (∃ e, MathMl.text document = .error e) ↔
    Xml.parse? .faithful document = none ∧ Html.HasLongReference (MathMl.dropTags document) := by
  cases hroot : Xml.parse? .faithful document with
  | none => simp [MathMl.text, hroot, Html.unescape_eq_error_iff]
  | some root => simp [MathMl.text, hroot]

theorem openedFragment_eq_error_iff {s : LooseText} :
    (∃ e, openedFragment s = .error e) ↔ (s.lift Omml.complete).hasHalf = true := by
  rw [← LooseText.toText_eq_error_iff, openedFragment]
  cases (s.lift Omml.complete).toText with
  | error e => exact ⟨fun _ => ⟨e, rfl⟩, fun _ => ⟨e, rfl⟩⟩
  | ok fragment =>
    -- read or not, there is a fragment
    dsimp only [bind, Except.bind]
    split <;> simp [pure, Except.pure]

/-- Of a fragment of characters the boxes can be opened. -/
theorem openedFragment_ofText (s : Text) :
    openedFragment (.ofText s) = .ok (.ofText (Omml.unwrap s)) := by
  rw [openedFragment, LooseText.lift_ofText, LooseText.toText_ofText, Omml.unwrap, Omml.parse?]
  dsimp only [bind, Except.bind]
  cases Xml.parse? .faithful (Omml.complete s) <;> rfl

variable (fc : FormulaConverters)

/-- What keeps a fragment from being made. -/
theorem ommlOf_eq_error_iff (mathml : LooseText) : (∃ e, ommlOf fc mathml = .error e) ↔
    ommlAnswer fc mathml = [] ∧ (mathml.hasHalf = true ∨
      Xml.parse? .faithful mathml.mask = none ∧
        Html.HasLongReference (MathMl.dropTags mathml.mask)) ∨
    ommlAnswer fc mathml ≠ [] ∧ ((ommlAnswer fc mathml).lift Omml.complete).hasHalf = true := by
  unfold ommlOf
  split
  · rename_i hblank
    have hleft : ∀ p q : Prop, ommlAnswer fc mathml = [] ∧ p ∨ ommlAnswer fc mathml ≠ [] ∧ q ↔ p :=
      fun p q => by simp [hblank]
    rw [hleft]
    cases hhalf : mathml.hasHalf with
    | true =>
      obtain ⟨e, he⟩ := LooseText.toText_eq_error_iff.mpr hhalf
      rw [he]
      exact ⟨fun _ => .inl rfl, fun _ => ⟨e, rfl⟩⟩
    | false =>
      rw [LooseText.toText_of_not_hasHalf hhalf, ← text_eq_error_iff]
      show (∃ e, (MathMl.text mathml.mask).bind _ = .error e) ↔ _
      cases MathMl.text mathml.mask with
      | error e => exact ⟨fun _ => .inr ⟨e, rfl⟩, fun _ => ⟨e, rfl⟩⟩
      | ok t =>
        simp [Except.bind, pure, Except.pure]
  · rename_i hne
    rw [openedFragment_eq_error_iff]
    simp [hne]

/-- A fragment is never blank, whatever the converter answers. -/
theorem ommlOf_not_blank {mathml s : LooseText} (h : ommlOf fc mathml = .ok s) :
    ∃ c ∈ s.mask, Text.isBlank c = false := by
  have hbracket : Text.isBlank '<' = false := by decide
  unfold ommlOf at h
  split at h
  · obtain ⟨document, -, h⟩ := eq_ok_of_bind h
    obtain ⟨text, -, h⟩ := eq_ok_of_bind h
    obtain rfl := Except.ok.inj h
    rw [LooseText.mask_ofText]
    exact ⟨'<', List.mem_cons_self, hbracket⟩
  · rename_i hne
    obtain ⟨fragment, -, h⟩ := eq_ok_of_bind h
    split at h
    · -- a fragment that is read is written anew, from its first tag on
      rename_i e he
      obtain rfl := Except.ok.inj h
      obtain ⟨r, hr⟩ := print_eq_cons (Omml.openBoxes e)
      rw [LooseText.mask_ofText]
      exact ⟨'<', hr ▸ List.mem_cons_self, hbracket⟩
    · obtain rfl := Except.ok.inj h
      unfold ommlAnswer at hne ⊢
      split at hne
      · rw [LooseText.mask_lift]
        refine (Text.ends_strip _).exists_not_isBlank fun hnil => hne ?_
        rw [LooseText.lift, hnil, LooseText.putBack_nil]
      · exact absurd rfl hne

/-! ### All forms -/

section All

variable (latex : LooseText) (display : Bool)

theorem startingForms_of_no_obstacle (h : obstacle? fc latex display = none) :
    ∃ document source root, latex = .ofText source ∧
      fc.mathml latex display = .ok (.ofText document) ∧
      Xml.parse? .faithful document = some root ∧
      startingForms fc latex display = (.ofText document,
        .ofText ("<span class=\"".toList ++ MathMl.previewClass display ++ "\">".toList ++
          (MathMl.annotate root source).print ++ "</span>".toList)) := by
  obtain ⟨document, source, root, hlatex, hmathml, hroot, htry⟩ := tryFormula_of_no_obstacle h
  exact ⟨document, source, root, hlatex, hmathml, hroot, by rw [startingForms, htry]⟩

theorem startingForms_of_obstacle? {why : LooseText} (h : obstacle? fc latex display = some why) :
    startingForms fc latex display =
      (MathMl.errorDocument latex display, errorSpan latex why) := by
  rw [startingForms, tryFormula_of_obstacle? h]

theorem renderFormula_eq : renderFormula fc latex display = (startingForms fc latex display).2 := by
  unfold renderFormula startingForms
  split <;> rfl

theorem convertFormula_eq : convertFormula fc latex display =
    (ommlOf fc (startingForms fc latex display).1).bind fun omml =>
      .ok ⟨(startingForms fc latex display).2, (startingForms fc latex display).1, omml⟩ := rfl

/-- **There are no forms** only where half of a pair is left in what is needed as bytes without a
way back: the error document whose text is the fragment, or the converter's fragment. -/
theorem convertFormula_eq_error_iff : (∃ e, convertFormula fc latex display = .error e) ↔
    ommlAnswer fc (startingForms fc latex display).1 = [] ∧ latex.hasHalf = true ∨
    ommlAnswer fc (startingForms fc latex display).1 ≠ [] ∧
      ((ommlAnswer fc (startingForms fc latex display).1).lift Omml.complete).hasHalf = true := by
  have hforms : (∃ e, convertFormula fc latex display = .error e) ↔
      ∃ e, ommlOf fc (startingForms fc latex display).1 = .error e := by
    rw [convertFormula_eq]
    cases ommlOf fc (startingForms fc latex display).1 <;> simp [Except.bind]
  rw [hforms, ommlOf_eq_error_iff]
  refine or_congr (and_congr_right fun _ => ?_) Iff.rfl
  cases h : obstacle? fc latex display with
  | none =>
    obtain ⟨document, source, root, rfl, -, hroot, hstart⟩ :=
      startingForms_of_no_obstacle fc latex display h
    rw [hstart]
    simp [LooseText.hasHalf_ofText, LooseText.mask_ofText, hroot]
  | some why =>
    rw [startingForms_of_obstacle? fc latex display h, MathMl.hasHalf_errorDocument]
    refine or_iff_left_of_imp fun hlong => ?_
    -- without halves the error document has a text
    cases hhalf : latex.hasHalf with
    | true => rfl
    | false =>
      obtain ⟨t, ht⟩ := MathMl.text_errorText_isOk latex.mask display
      rw [← LooseText.ofText_mask hhalf, MathMl.errorDocument_ofText, LooseText.mask_ofText,
        ← text_eq_error_iff] at hlong
      obtain ⟨e, he⟩ := hlong
      exact absurd (ht.symm.trans he) (by simp)

end All

/-! ### Formulas of characters -/

section Characters

variable (cv : Converters) (latex : Text) (display : Bool)

theorem errorSpan_ofText (latex why : Text) :
    ∃ s, errorSpan (.ofText latex) (.ofText why) = .ofText s := by
  rw [errorSpan, shownLabel_ofText, LooseText.lift_ofText]
  simp only [← LooseText.ofText_append]
  exact ⟨_, rfl⟩

theorem obstacle?_formulas {why : LooseText}
    (h : obstacle? cv.formulas (.ofText latex) display = some why) : ∃ s, why = .ofText s := by
  unfold obstacle? at h
  split at h
  · rename_i e he
    obtain rfl := Option.some.inj h
    have hmathml : cv.formulas.mathml (.ofText latex) display =
      ((cv.mathml (LooseText.ofText latex).mask display).mapError _).map _ := rfl
    rw [hmathml] at he
    cases hanswer : cv.mathml (LooseText.ofText latex).mask display with
    | ok a => simp [hanswer, Except.mapError, Except.map] at he
    | error e' =>
      rw [hanswer] at he
      exact ⟨_, (Except.error.inj he).symm⟩
  · obtain ⟨e, -, rfl⟩ := Option.map_eq_some_iff.mp h
    exact ⟨_, rfl⟩

theorem startingForms_formulas : ∃ mathml preview,
    startingForms cv.formulas (.ofText latex) display = (.ofText mathml, .ofText preview) := by
  cases h : obstacle? cv.formulas (.ofText latex) display with
  | none =>
    obtain ⟨document, source, root, -, -, -, hstart⟩ := startingForms_of_no_obstacle _ _ _ h
    exact ⟨_, _, hstart⟩
  | some why =>
    obtain ⟨w, rfl⟩ := obstacle?_formulas cv latex display h
    obtain ⟨s, hs⟩ := errorSpan_ofText latex w
    rw [startingForms_of_obstacle? _ _ _ h, MathMl.errorDocument_ofText, hs]
    exact ⟨_, _, rfl⟩

theorem ommlAnswer_formulas (mathml : Text) :
    ∃ s, ommlAnswer cv.formulas (.ofText mathml) = .ofText s := by
  have homml : cv.formulas.omml (.ofText mathml) =
    ((cv.omml (LooseText.ofText mathml).mask).mapError _).map .ofText := rfl
  rw [ommlAnswer, homml]
  cases cv.omml (LooseText.ofText mathml).mask with
  | ok a =>
    refine ⟨Text.strip (Omml.dropDeclaration a), ?_⟩
    exact LooseText.lift_ofText _ a
  | error e => exact ⟨[], rfl⟩

/-- The forms of a formula whose source holds characters only. -/
def Markup.forms (m : Markup) : FormulaForms :=
  ⟨.ofText m.preview, .ofText m.mathml, .ofText m.omml⟩

theorem mask_forms (m : Markup) : m.forms.mask = m := by
  simp only [Markup.forms, FormulaForms.mask, LooseText.mask_ofText]

/-- **A formula of characters always has its forms**, which are texts. -/
theorem convertFormula_formulas :
    convertFormula cv.formulas (.ofText latex) display = .ok (markupOf cv latex display).forms := by
  obtain ⟨mathml, preview, hstart⟩ := startingForms_formulas cv latex display
  obtain ⟨answer, hanswer⟩ := ommlAnswer_formulas cv mathml
  have hok : ∃ omml, convertFormula cv.formulas (.ofText latex) display =
      .ok (Markup.forms ⟨preview, mathml, omml⟩) := by
    cases hforms : convertFormula cv.formulas (.ofText latex) display with
    | error e =>
      have hfails := (convertFormula_eq_error_iff _ _ _).mp ⟨e, hforms⟩
      rw [hstart, hanswer, LooseText.lift_ofText, LooseText.hasHalf_ofText,
        LooseText.hasHalf_ofText] at hfails
      exact absurd hfails (by simp)
    | ok forms =>
      rw [convertFormula_eq, hstart] at hforms
      obtain ⟨omml, homml, hmade⟩ := eq_ok_of_bind hforms
      obtain rfl := Except.ok.inj hmade
      have htext : ∃ t, omml = .ofText t := by
        rw [ommlOf] at homml
        split at homml
        · obtain ⟨document, -, homml⟩ := eq_ok_of_bind homml
          obtain ⟨text, -, homml⟩ := eq_ok_of_bind homml
          exact ⟨_, (Except.ok.inj homml).symm⟩
        · rw [hanswer, openedFragment_ofText] at homml
          exact ⟨_, (Except.ok.inj homml).symm⟩
      obtain ⟨t, rfl⟩ := htext
      exact ⟨t, rfl⟩
  obtain ⟨omml, hok⟩ := hok
  rw [markupOf, hok]
  exact congrArg (fun m => Except.ok (Markup.forms m)) (mask_forms _).symm

end Characters

/-- **A formula's forms are those that would be made one by one, or all of them stand for a
failure.** Preview and fragment are always what is made of the formula, or of its MathML, alone.
If the preview can be made, so is the MathML, which is the answer of the converter; if not, the
preview is the error span with the reason and the MathML the error document. A fragment is never
blank. Where a fragment is needed as bytes and has none, or the text that stands for it cannot be
read, it cannot be made, nor can the other forms. -/
theorem convertFormula_agrees (fc : FormulaConverters) (latex : LooseText) (display : Bool) :
    (∀ forms, convertFormula fc latex display = .ok forms →
      forms.preview = renderFormula fc latex display ∧
      ommlOf fc forms.mathml = .ok forms.omml ∧
      (obstacle? fc latex display = none →
        forms.mathml = mathmlOf fc latex display ∧
        fc.mathml latex display = .ok forms.mathml ∧
        ∀ why, forms.preview ≠ errorSpan latex why) ∧
      ∀ why, obstacle? fc latex display = some why →
        forms.mathml = MathMl.errorDocument latex display ∧
        forms.preview = errorSpan latex why) ∧
    ((∃ e, convertFormula fc latex display = .error e) ↔
      ommlAnswer fc (startingForms fc latex display).1 = [] ∧ latex.hasHalf = true ∨
      ommlAnswer fc (startingForms fc latex display).1 ≠ [] ∧
        ((ommlAnswer fc (startingForms fc latex display).1).lift Omml.complete).hasHalf = true) ∧
    ∀ mathml,
      ((∃ e, ommlOf fc mathml = .error e) ↔
        ommlAnswer fc mathml = [] ∧ (mathml.hasHalf = true ∨
          Xml.parse? .faithful mathml.mask = none ∧
            Html.HasLongReference (MathMl.dropTags mathml.mask)) ∨
        ommlAnswer fc mathml ≠ [] ∧
          ((ommlAnswer fc mathml).lift Omml.complete).hasHalf = true) ∧
      ∀ s, ommlOf fc mathml = .ok s → ∃ c ∈ s.mask, Text.isBlank c = false := by
  refine ⟨fun forms hforms => ?_, convertFormula_eq_error_iff fc latex display,
    fun mathml => ⟨ommlOf_eq_error_iff fc mathml, fun s => ommlOf_not_blank fc⟩⟩
  rw [convertFormula_eq] at hforms
  obtain ⟨omml, homml, hmade⟩ := eq_ok_of_bind hforms
  obtain rfl := Except.ok.inj hmade
  refine ⟨(renderFormula_eq fc latex display).symm, homml, fun hnone => ?_, fun why hwhy => ?_⟩
  · obtain ⟨document, source, root, -, hmathml, -, hstart⟩ :=
      startingForms_of_no_obstacle fc latex display hnone
    rw [hstart, mathmlOf, hmathml]
    exact ⟨rfl, rfl, preview_ne_errorSpan _⟩
  · rw [startingForms_of_obstacle? fc latex display hwhy]
    exact ⟨rfl, rfl⟩

/-- Converters that answer with one MathML document whatever they are asked, and with no
fragment. -/
def steadfast (mathml : Text) : FormulaConverters where
  mathml _ _ := .ok (.ofText mathml)
  omml _ := .error []
  report _ := "not well formed".toList

theorem convertFormula_agrees_steadfast :
    (∃ forms,
      convertFormula (steadfast "<math><mi>x</mi></math>".toList) (.ofText "x".toList) true =
        .ok forms ∧
      forms.mathml = .ofText "<math><mi>x</mi></math>".toList) ∧
    (∃ forms,
      convertFormula (steadfast "<math><mi>x</mi></math>".toList) (.ofText "\x01".toList) true =
        .ok forms ∧
      forms.mathml = MathMl.errorDocument (.ofText "\x01".toList) true) ∧
    (∃ forms,
      convertFormula (steadfast "<math><mi>x</math>".toList) (.ofText "x".toList) false =
        .ok forms ∧
      forms.preview = errorSpan (.ofText "x".toList) (.ofText "not well formed".toList)) ∧
    ∃ e, convertFormula (steadfast "<math/>".toList) [.half 0xD83D] false = .error e := by
  have hobstacles :
      obstacle? (steadfast "<math><mi>x</mi></math>".toList) (.ofText "x".toList) true = none ∧
      obstacle? (steadfast "<math><mi>x</mi></math>".toList) (.ofText "\x01".toList) true =
        some (.ofText (Failure.message [] .illegalText)) ∧
      obstacle? (steadfast "<math><mi>x</math>".toList) (.ofText "x".toList) false =
        some (.ofText "not well formed".toList) := by
    decide +kernel
  have hmade : ∀ mathml source display, ∃ forms,
      convertFormula (steadfast mathml) (.ofText source) display = .ok forms := by
    intro mathml source display
    cases hforms : convertFormula (steadfast mathml) (.ofText source) display with
    | ok forms => exact ⟨forms, rfl⟩
    | error e =>
      obtain ⟨-, hfails, -⟩ := convertFormula_agrees (steadfast mathml) (.ofText source) display
      rcases hfails.mp ⟨e, hforms⟩ with ⟨-, hhalf⟩ | ⟨hanswer, -⟩
      · exact absurd hhalf (by simp [LooseText.hasHalf_ofText])
      · exact absurd rfl hanswer
  obtain ⟨hnone, hillegal, hmalformed⟩ := hobstacles
  refine ⟨?_, ?_, ?_, ?_⟩
  · obtain ⟨forms, hforms⟩ := hmade "<math><mi>x</mi></math>".toList "x".toList true
    obtain ⟨hagree, -, -⟩ :=
      convertFormula_agrees (steadfast "<math><mi>x</mi></math>".toList) (.ofText "x".toList) true
    obtain ⟨-, -, hpreview, -⟩ := hagree forms hforms
    exact ⟨forms, hforms, (hpreview hnone).1⟩
  · obtain ⟨forms, hforms⟩ := hmade "<math><mi>x</mi></math>".toList "\x01".toList true
    obtain ⟨hagree, -, -⟩ := convertFormula_agrees
      (steadfast "<math><mi>x</mi></math>".toList) (.ofText "\x01".toList) true
    obtain ⟨-, -, -, hfailed⟩ := hagree forms hforms
    exact ⟨forms, hforms, (hfailed _ hillegal).1⟩
  · obtain ⟨forms, hforms⟩ := hmade "<math><mi>x</math>".toList "x".toList false
    obtain ⟨hagree, -, -⟩ :=
      convertFormula_agrees (steadfast "<math><mi>x</math>".toList) (.ofText "x".toList) false
    obtain ⟨-, -, -, hfailed⟩ := hagree forms hforms
    exact ⟨forms, hforms, (hfailed _ hmalformed).2⟩
  · obtain ⟨-, hfails, -⟩ := convertFormula_agrees (steadfast "<math/>".toList) [.half 0xD83D] false
    exact hfails.mpr (.inl ⟨rfl, rfl⟩)

end Formulary
