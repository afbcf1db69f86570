/-
# What a document shows

From blocks whose texts are cut out of the combined text, and whose numbers are
numbers, a list of paragraphs is always made if inline Markdown is not lexed any
further (`buildParagraphs_of_blocks`). Nothing is made up on the way: the text of
a run holds characters of the combined text and of the formulas, and a formula
is one of the tokens.

Key definitions: `Inline.IsOf`, `Block.IsOf`, `Entry.IsOf`, `shown`, `Run.IsOf`, `Legible`.
Key theorems: `styledRuns_subset`, `part_of_splitPlaceholders`, `expand_shown`,
`isOf_entriesFrom`, `buildParagraphs_of_blocks`.
-/
import Formulary.Document.Build
import Formulary.Proofs.Text.Search

namespace Formulary

/-! ### Nodes that are cut out of a text -/

mutual
/-- Whether the texts of a node are stretches of the source. -/
def Inline.IsOf (src : Text) : Inline → Prop
  | .text raw => raw <:+: src
  | .strong ns => AllOf src ns
  | .emphasis ns => AllOf src ns
  | .code raw => raw <:+: src
  | .lineBreak => True
  | .softBreak => True
  | .link label url ns => label <:+: src ∧ url <:+: src ∧ AllOf src ns
  | .group ns => AllOf src ns
/-- Whether the texts of all nodes are stretches of the source. -/
def AllOf (src : Text) : List Inline → Prop
  | [] => True
  | n :: ns => n.IsOf src ∧ AllOf src ns
end

/-- Whether the texts of a phrase are stretches of the source. -/
structure Phrase.IsOf (src : Text) (p : Phrase) : Prop where
  children : AllOf src p.children
  text : p.text <:+: src
  raw : p.raw <:+: src

/-- Whether an attribute is a number or left out. -/
def Attribute.IsInteger : Attribute → Prop
  | .absent => True
  | .flag _ => True
  | .number _ => True
  | _ => False

mutual
/-- Whether the texts of a block are stretches of the source, and its levels and starts are
numbers. -/
def Block.IsOf (src : Text) : Block → Prop
  | .heading level p => level.IsInteger ∧ p.IsOf src
  | .paragraph p => p.IsOf src
  | .blockText p => p.IsOf src
  | .list _ start bs => start.IsInteger ∧ BlocksOf src bs
  | .item bs => BlocksOf src bs
  | .rule => True
  | .code raw => raw <:+: src
  | .other => True
/-- Whether all blocks are of a source. -/
def BlocksOf (src : Text) : List Block → Prop
  | [] => True
  | b :: bs => b.IsOf src ∧ BlocksOf src bs
end

theorem Attribute.IsInteger.toNumber {a : Attribute} (h : a.IsInteger) :
    ∃ n, a.toNumber = .ok n := by
  cases a with
  | absent => exact ⟨1, rfl⟩
  | flag b => exact ⟨_, rfl⟩
  | number n => exact ⟨n, rfl⟩
  | _ => exact h.elim

theorem Attribute.IsInteger.listStart {a : Attribute} (h : a.IsInteger) :
    ∃ n, listStart a = .ok n := by
  unfold Formulary.listStart
  split
  · exact h.toNumber
  · exact ⟨1, rfl⟩

theorem Phrase.IsOf.source {src : Text} {p : Phrase} (h : p.IsOf src) : p.source <:+: src := by
  unfold Phrase.source
  split
  · exact h.raw
  · exact h.text

/-! ### The outline -/

/-- Whether an entry says something of the source, and is no fault. -/
def Entry.IsOf (src : Text) : Entry → Prop
  | .heading _ p => p.IsOf src
  | .body p => p.IsOf src
  | .item _ ps => ∀ p ∈ ps, p.IsOf src
  | .rule => True
  | .code raw => raw <:+: src
  | .fault _ => False

section Outline

variable {src : Text}

theorem isOf_itemPhrases {bs : List Block} (h : BlocksOf src bs) :
    ∀ p ∈ itemPhrases bs, p.IsOf src := by
  induction bs with
  | nil => simp [itemPhrases]
  | cons b bs ih =>
    obtain ⟨hb, hbs⟩ := h
    cases b with
    | paragraph p => exact List.forall_mem_cons.mpr ⟨hb, ih hbs⟩
    | blockText p => exact List.forall_mem_cons.mpr ⟨hb, ih hbs⟩
    | _ => exact ih hbs

mutual
theorem Block.isOf_listEntries (level : Int) (used : Nat) : ∀ {b : Block}, b.IsOf src →
    ∀ e ∈ b.listEntries level used, e.IsOf src := fun {b} h => by
  cases b with
  | list ordered start bs =>
    obtain ⟨hstart, hbs⟩ := h
    obtain ⟨n, hn⟩ := hstart.listStart
    rw [Block.listEntries, hn]
    exact isOf_itemEntries _ _ hbs
  | _ => simp [Block.listEntries]
theorem isOf_itemEntries (marker : Marker) (used : Nat) : ∀ {bs : List Block}, BlocksOf src bs →
    ∀ e ∈ itemEntries marker used bs, e.IsOf src
  | [], _ => by simp [itemEntries]
  | b :: rest, ⟨hb, hrest⟩ => by
    have hlater := isOf_itemEntries marker used hrest
    cases b with
    | item bs =>
      have hitem : (Entry.item marker (itemPhrases bs)).IsOf src := isOf_itemPhrases hb
      rw [itemEntries]
      refine List.forall_mem_append.mpr ⟨List.forall_mem_cons.mpr ⟨hitem, ?_⟩, ?_⟩
      · exact isOf_nestedEntries (marker.level + 1) used hb
      · exact isOf_itemEntries marker (used + nestedLists bs) hrest
    | _ => simpa only [itemEntries] using hlater
theorem isOf_nestedEntries (level : Int) (used : Nat) : ∀ {bs : List Block}, BlocksOf src bs →
    ∀ e ∈ nestedEntries level used bs, e.IsOf src
  | [], _ => by simp [nestedEntries]
  | b :: bs, ⟨hb, hbs⟩ => by
    have hlist := List.forall_mem_append.mpr
      ⟨Block.isOf_listEntries level used hb, isOf_nestedEntries level (used + b.lists) hbs⟩
    cases b with
    | code raw =>
      have hcode : (Entry.code raw).IsOf src := hb
      exact List.forall_mem_cons.mpr ⟨hcode, isOf_nestedEntries level used hbs⟩
    | _ =>
      rw [nestedEntries]
      · exact hlist
      · simp
end

theorem isOf_blockEntries (used : Nat) {b : Block} (h : b.IsOf src) :
    ∀ e ∈ b.entries used, e.IsOf src := by
  have hlist := Block.isOf_listEntries 0 used h
  cases b with
  | heading level p =>
    obtain ⟨hlevel, hp⟩ := h
    obtain ⟨n, hn⟩ := hlevel.toNumber
    have hmin : headingLevel level = .ok (min n 6) := by
      rw [headingLevel, hn]
      rfl
    rw [Block.entries, hmin]
    exact List.forall_mem_singleton.mpr hp
  | paragraph p => exact List.forall_mem_singleton.mpr h
  | rule => exact List.forall_mem_singleton.mpr trivial
  | code raw => exact List.forall_mem_singleton.mpr h
  | _ => exact hlist

/-- The entries of blocks of a source say something of the source, and none is a fault. -/
theorem isOf_entriesFrom (used : Nat) {bs : List Block} (h : BlocksOf src bs) :
    ∀ e ∈ entriesFrom used bs, e.IsOf src := by
  induction bs generalizing used with
  | nil => simp [entriesFrom]
  | cons b bs ih =>
    obtain ⟨hb, hbs⟩ := h
    exact List.forall_mem_append.mpr ⟨isOf_blockEntries used hb, ih _ hbs⟩

end Outline

/-! ### Characters of texts and formulas -/

/-- All that a document can show of tokens: their combined text, what their formulas say, and
the signs that are put in between. -/
def shown (ts : List Token) : Text :=
  combine ts ++ "$ ".toList ++ (formulas ts).flatMap fun f => f.latex ++ Omml.text f.markup.omml

/-- Whether a run shows something of the tokens. -/
def Run.IsOf (ts : List Token) : Run → Prop
  | .text s _ => s ⊆ shown ts
  | .math omml latex display =>
    ∃ f ∈ formulas ts, f.markup.omml = omml ∧ f.latex = latex ∧ f.display = display
  | .lineBreak => True

/-- Each run of a text with literal markers holds characters of it. -/
theorem styledRuns_subset (style : Style) (s : Text) :
    ∀ r ∈ styledRuns style s, ∃ t st, r = .text t st ∧ t ⊆ s := by
  have hmore : ∀ {s u : Text} {rs : List Run}, s ⊆ u →
      (∀ r ∈ rs, ∃ t st, r = Run.text t st ∧ t ⊆ s) → ∀ r ∈ rs, ∃ t st, r = .text t st ∧ t ⊆ u :=
    fun hsu h r hr => by
      obtain ⟨t, st, rfl, ht⟩ := h r hr
      exact ⟨t, st, rfl, List.Subset.trans ht hsu⟩
  fun_induction styledRuns style s with
  | case1 => simp
  | case2 style s ih => exact hmore (fun c hc => by simp [hc]) ih
  | case3 style s _ ih => exact hmore (fun c hc => by simp [hc]) ih
  | case4 style c s _ _ ih =>
    refine List.forall_mem_cons.mpr ⟨⟨_, _, rfl, ?_⟩, hmore ?_ ih⟩
    · exact List.cons_subset_cons c (List.takeWhile_sublist _).subset
    · exact List.Subset.trans (List.dropWhile_sublist _).subset (List.subset_cons_self c s)

theorem mem_formulas_of_formulaById {ts : List Token} {id : Text} {f : Formula}
    (h : formulaById ts id = some f) : f ∈ formulas ts :=
  List.mem_reverse.mp (List.mem_of_find?_eq_some h)

/-- A part of a text is a stretch of it, or a formula that is known. -/
theorem part_of_splitPlaceholders {byId : Text → Option Formula} {s : Text} {p : Part}
    (h : p ∈ splitPlaceholders byId s) :
    (∃ t, p = .literal t ∧ t <:+: s) ∨ ∃ id f, p = .math f ∧ byId id = some f := by
  obtain ⟨slice, hslice, hp⟩ := List.mem_filterMap.mp h
  cases slice with
  | literal t =>
    obtain rfl := Option.some.inj hp
    have hin := List.infix_of_mem_flatten (List.mem_map_of_mem (f := Slice.source) hslice)
    rw [← List.flatMap_def, flatMap_source_slices] at hin
    exact .inl ⟨t, rfl, hin⟩
  | mark id =>
    obtain ⟨f, hf, rfl⟩ := Option.map_eq_some_iff.mp hp
    exact .inr ⟨id, f, rfl, hf⟩

section Shown

variable {ts : List Token}

theorem combine_subset_shown : combine ts ⊆ shown ts :=
  List.Subset.trans (List.prefix_append _ _).subset (List.prefix_append _ _).subset

theorem infix_subset_shown {s : Text} (h : s <:+: combine ts) : s ⊆ shown ts :=
  List.Subset.trans h.subset combine_subset_shown

theorem formula_subset_shown {f : Formula} (h : f ∈ formulas ts) :
    f.latex ⊆ shown ts ∧ Omml.text f.markup.omml ⊆ shown ts := by
  have hf : f.latex ++ Omml.text f.markup.omml ⊆ shown ts := fun c hc =>
    List.mem_append_right _ (List.mem_flatMap.mpr ⟨f, h, hc⟩)
  exact ⟨List.Subset.trans (List.prefix_append _ _).subset hf,
    List.Subset.trans (List.suffix_append _ _).subset hf⟩

theorem restoreSource_subset_shown {s : Text} (h : s ⊆ shown ts) :
    restoreSource (formulaById ts) s ⊆ shown ts := by
  intro c hc
  obtain ⟨p, hp, hc⟩ := List.mem_flatMap.mp hc
  rcases part_of_splitPlaceholders hp with ⟨t, rfl, ht⟩ | ⟨id, f, rfl, hf⟩
  · exact h (ht.subset hc)
  · have hdollar : '$' ∈ shown ts := by simp [shown]
    have hlatex := (formula_subset_shown (mem_formulas_of_formulaById hf)).1
    have hsource : ∀ d, c ∈ (Part.math f).source → f.display = d → c = '$' ∨ c ∈ f.latex := by
      rintro (_ | _) hc hd
      · simpa [Part.source, hd, or_comm, or_assoc] using hc
      · simpa [Part.source, hd, or_comm, or_assoc] using hc
    rcases hsource f.display hc rfl with rfl | hc
    · exact hdollar
    · exact hlatex hc

theorem isOf_leafRuns (style : Style) {s : Text} (h : s ⊆ shown ts) :
    ∀ r ∈ leafRuns (formulaById ts) style s, r.IsOf ts := by
  intro r hr
  obtain ⟨p, hp, hr⟩ := List.mem_flatMap.mp hr
  rcases part_of_splitPlaceholders hp with ⟨t, rfl, ht⟩ | ⟨id, f, rfl, hf⟩
  · obtain ⟨u, st, rfl, hu⟩ := styledRuns_subset style t r hr
    exact fun c hc => h (ht.subset (hu hc))
  · have hmem := mem_formulas_of_formulaById hf
    rw [partRuns, formulaRuns] at hr
    split at hr
    · split at hr
      · exact absurd hr List.not_mem_nil
      · obtain rfl := List.mem_singleton.mp hr
        exact (formula_subset_shown hmem).2
    · obtain rfl := List.mem_singleton.mp hr
      exact ⟨f, hmem, rfl, rfl, rfl⟩

/-! ### Runs -/

/-- Every text of characters of the tokens has runs, and they show something of the tokens. -/
def Legible (ts : List Token) (texts : Style → Text → Option (List Run)) : Prop :=
  ∀ style s, s ⊆ shown ts → ∃ rs, texts style s = some rs ∧ ∀ r ∈ rs, r.IsOf ts

/-- Without a lexer a text is read at once. -/
theorem legible_textRuns {depth : Nat} (hdepth : depth ≠ 0) :
    Legible ts (textRuns (formulaById ts) (fun s => [.text s]) depth) := by
  intro style s h
  obtain ⟨depth, rfl⟩ := Nat.exists_eq_succ_of_ne_zero hdepth
  rw [textRuns]
  split
  · exact ⟨_, rfl, List.forall_mem_singleton.mpr h⟩
  · exact ⟨_, rfl, isOf_leafRuns style h⟩

mutual
/-- A node of the combined text has runs, and they show something of the tokens. -/
theorem expand_shown {texts : Style → Text → Option (List Run)} (htexts : Legible ts texts)
    (style : Style) : ∀ {n : Inline}, n.IsOf (combine ts) →
    ∃ rs, expand (formulaById ts) texts style n = some rs ∧ ∀ r ∈ rs, r.IsOf ts := fun {n} h => by
  cases n with
  | text raw => exact htexts style raw (infix_subset_shown h)
  | strong ns => exact expandAll_shown htexts _ h
  | emphasis ns => exact expandAll_shown htexts _ h
  | code raw =>
    exact ⟨_, rfl, List.forall_mem_singleton.mpr
      (restoreSource_subset_shown (infix_subset_shown h))⟩
  | lineBreak => exact ⟨_, rfl, List.forall_mem_singleton.mpr trivial⟩
  | softBreak =>
    have hblank : [' '] ⊆ shown ts := by simp [shown]
    exact ⟨_, rfl, List.forall_mem_singleton.mpr hblank⟩
  | link label url ns =>
    obtain ⟨hlabel, hurl, hns⟩ := h
    cases ns with
    | nil =>
      have hshown : linkLabel label url ⊆ shown ts := by
        unfold linkLabel
        split
        · exact infix_subset_shown hurl
        · exact infix_subset_shown hlabel
      exact htexts style _ hshown
    | cons n ns => exact expandAll_shown htexts style hns
  | group ns => exact expandAll_shown htexts _ h
theorem expandAll_shown {texts : Style → Text → Option (List Run)} (htexts : Legible ts texts)
    (style : Style) : ∀ {ns : List Inline}, AllOf (combine ts) ns →
    ∃ rs, expandAll (formulaById ts) texts style ns = some rs ∧ ∀ r ∈ rs, r.IsOf ts
  | [], _ => ⟨[], rfl, by simp⟩
  | n :: ns, ⟨hn, hns⟩ => by
    obtain ⟨rs, hrs, hall⟩ := expand_shown htexts style hn
    obtain ⟨more, hmore, hmoreAll⟩ := expandAll_shown htexts style hns
    refine ⟨rs ++ more, ?_, List.forall_mem_append.mpr ⟨hall, hmoreAll⟩⟩
    rw [expandAll, hrs, hmore]
    rfl
end

/-! ### Paragraphs -/

theorem phraseRuns_shown {p : Phrase} (h : p.IsOf (combine ts)) :
    ∃ rs, phraseRuns (formulaById ts) (fun s => [.text s]) p = .ok rs ∧ ∀ r ∈ rs, r.IsOf ts := by
  have hnodes :
      AllOf (combine ts) (if p.children.isEmpty then [.text p.source] else p.children) := by
    split
    · exact ⟨h.source, trivial⟩
    · exact h.children
  have hdepth : lexingDepth ≠ 0 := by decide
  obtain ⟨rs, hrs, hall⟩ := expandAll_shown (legible_textRuns hdepth) .plain hnodes
  exact ⟨rs, by rw [phraseRuns, inlineRuns, hrs], hall⟩

theorem isOf_joinPhrases {rss : List (List Run)} (h : ∀ rs ∈ rss, ∀ r ∈ rs, r.IsOf ts) :
    ∀ r ∈ joinPhrases rss, r.IsOf ts := by
  have hfold : ∀ (rss : List (List Run)) (acc : List Run), (∀ r ∈ acc, r.IsOf ts) →
      (∀ rs ∈ rss, ∀ r ∈ rs, r.IsOf ts) →
      ∀ r ∈ rss.foldl (fun acc rs => if acc.isEmpty then rs else acc ++ .lineBreak :: rs) acc,
        r.IsOf ts := by
    intro rss
    induction rss with
    | nil => exact fun acc hacc _ => hacc
    | cons rs rss ih =>
      intro acc hacc hrss
      obtain ⟨hrs, hrest⟩ := List.forall_mem_cons.mp hrss
      refine ih _ ?_ hrest
      dsimp only
      split
      · exact hrs
      · exact List.forall_mem_append.mpr ⟨hacc, List.forall_mem_cons.mpr ⟨trivial, hrs⟩⟩
  exact hfold rss [] (by simp) h

theorem codeLines_subset {s l : Text} (h : l ∈ codeLines s) : l ⊆ s := by
  have hin := (Text.infix_of_mem_pieces (by simp) h).subset
  split at hin
  · exact List.Subset.trans hin (List.dropLast_sublist s).subset
  · exact hin

/-- Steps that all succeed succeed in a row. -/
theorem mapM_total {α β : Type} {f : α → Except Failure β} {P : β → Prop} {xs : List α}
    (h : ∀ x ∈ xs, ∃ y, f x = .ok y ∧ P y) : ∃ ys, xs.mapM f = .ok ys ∧ ∀ y ∈ ys, P y := by
  induction xs with
  | nil => exact ⟨[], rfl, by simp⟩
  | cons x xs ih =>
    obtain ⟨⟨y, hy, hP⟩, hxs⟩ := List.forall_mem_cons.mp h
    obtain ⟨ys, hys, hall⟩ := ih hxs
    refine ⟨y :: ys, ?_, List.forall_mem_cons.mpr ⟨hP, hall⟩⟩
    rw [List.mapM_cons, hy, hys]
    rfl

/-- An entry of the combined text has paragraphs, and they show something of the tokens. -/
theorem paragraphs_shown {e : Entry} (h : e.IsOf (combine ts)) :
    ∃ ps, e.paragraphs (formulaById ts) (fun s => [.text s]) = .ok ps ∧
      ∀ p ∈ ps, ∀ r ∈ p.runs, r.IsOf ts := by
  cases e with
  | heading level p =>
    obtain ⟨rs, hrs, hall⟩ := phraseRuns_shown h
    exact ⟨_, by rw [Entry.paragraphs, hrs]; rfl, List.forall_mem_singleton.mpr hall⟩
  | body p =>
    obtain ⟨rs, hrs, hall⟩ := phraseRuns_shown h
    exact ⟨_, by rw [Entry.paragraphs, hrs]; rfl, List.forall_mem_singleton.mpr hall⟩
  | item marker ps =>
    obtain ⟨rss, hrss, hall⟩ := mapM_total fun p hp => phraseRuns_shown (h p hp)
    exact ⟨_, by rw [Entry.paragraphs, hrss]; rfl,
      List.forall_mem_singleton.mpr (isOf_joinPhrases hall)⟩
  | rule => exact ⟨_, rfl, List.forall_mem_singleton.mpr (by simp [Paragraph.of])⟩
  | code raw =>
    refine ⟨_, rfl, fun p hp => ?_⟩
    obtain ⟨l, hl, rfl⟩ := List.mem_map.mp hp
    exact List.forall_mem_singleton.mpr (List.Subset.trans (codeLines_subset hl)
      (restoreSource_subset_shown (infix_subset_shown h)))
  | fault e => exact h.elim

/-- **Paragraphs are made from all blocks of the combined text**, and they show nothing but
characters of the tokens. -/
theorem buildParagraphs_of_blocks {cv : Converters} (hinline : cv.inline = none) {bs : List Block}
    (hblocks : cv.blocks (combine ts) = .ok bs) (hbs : BlocksOf (combine ts) bs) :
    ∃ ps, buildParagraphs cv ts = .ok ps ∧ ∀ p ∈ ps, ∀ r ∈ p.runs, r.IsOf ts := by
  have hlex : cv.lexInline = fun s => [.text s] := by
    funext s
    rw [Converters.lexInline, hinline]
    rfl
  obtain ⟨pss, hpss, hall⟩ := mapM_total fun e he => paragraphs_shown (isOf_entriesFrom 0 hbs e he)
  refine ⟨pss.flatten, ?_, fun p hp => ?_⟩
  · rw [buildParagraphs, hblocks, hlex]
    show entryParagraphs _ _ (outline bs) = _
    rw [entryParagraphs, outline, hpss]
    rfl
  · obtain ⟨ps, hps, hp⟩ := List.mem_flatten.mp hp
    exact hall ps hps p hp

end Shown

end Formulary
