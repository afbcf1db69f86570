/-
# Joining stretches of text

Joining leaves the nodes that are no text as they are and in their order, and between them one
text node of each stretch of text nodes, which says what they said together
(`mergeTexts_append_cons`, `splitOnP_mergeTexts`). So it is a normal form: it does not matter
whether parts of a list have been joined before (`mergeTexts_append`), and inline nodes come to
the same when joined exactly if they differ in how their text is cut (`mergeTexts_eq_iff`).

A text is only lexed again by way of joining. Lexers that cut the text between other nodes in
different places give every text the same runs, at every depth, and lexing again ends for the
same texts (`mergeTexts_recut`). A stretch may not come and go: one text node without any text is
no stretch less.

Key definitions: `TextView.Lawful`, `TextView.isMarkup`, `TextView.said`, `TextView.joined`,
`TextView.stretches`, `Recut`.
Key theorems: `splitOnP_mergeTexts`, `mergeTexts_append`, `mergeTexts_eq_iff`,
`textRuns_eq_of_mergeTexts`, `mergeTexts_recut`.
-/
import Formulary.Proofs.Document.Relexing

namespace Formulary

namespace TextView

variable {α : Type}

/-- A node that is made of a text is a text node that says it. -/
def Lawful (v : TextView α) : Prop := ∀ s, v.text? (v.ofText s) = some s

/-- Text nodes hold nothing beside their text. -/
def Bare (v : TextView α) : Prop := ∀ n s, v.text? n = some s → n = v.ofText s

/-- Whether a node is no text. -/
def isMarkup (v : TextView α) (n : α) : Bool := (v.text? n).isNone

/-- What text nodes say together. -/
def said (v : TextView α) (ns : List α) : Text := ns.flatMap fun n => (v.text? n).getD []

/-- What is left of a stretch of text nodes: one node, if there is any. One that stands alone
keeps all it has. -/
def joined (v : TextView α) : List α → List α
  | [] => []
  | [n] => [n]
  | ns => [v.ofText (v.said ns)]

/-- What the stretches of text between the other nodes say, in order. A place without a text node
has none. -/
def stretches (v : TextView α) (ns : List α) : List (Option Text) :=
  (ns.splitOnP v.isMarkup).map fun as => if as.isEmpty then none else some (v.said as)

end TextView

/-- Two lists of nodes differ at most in how their stretches of text are cut into nodes: they have
the same other nodes in the same order, and where there are text nodes between them in one list,
there are in the other, and they say the same together. -/
structure Recut {α : Type} (v : TextView α) (ns ms : List α) : Prop where
  markup : ns.filter v.isMarkup = ms.filter v.isMarkup
  stretches : v.stretches ns = v.stretches ms

section Nodes

variable {α : Type} {v : TextView α} {n m : α} {ns ms as bs : List α} {s t : Text}

/-! ### Stretches -/

theorem isMarkup_iff : v.isMarkup n = true ↔ v.text? n = none := Option.isNone_iff_eq_none

theorem isMarkup_eq_false_iff : v.isMarkup n = false ↔ ∃ s, v.text? n = some s := by
  rw [← Bool.not_eq_true, isMarkup_iff, ← ne_eq, Option.ne_none_iff_exists']

/-- A list is a stretch of text nodes, or a stretch, another node and a list. -/
theorem stretch_induction {p : α → Bool} {P : List α → Prop}
    (last : ∀ as, (∀ n ∈ as, p n = false) → P as)
    (next : ∀ as m ns, (∀ n ∈ as, p n = false) → p m = true → P ns → P (as ++ m :: ns)) :
    ∀ ns, P ns := by
  -- the text nodes in front of the place that has been reached are carried along
  have hfront : ∀ ns as, (∀ n ∈ as, p n = false) → P (as ++ ns) := by
    intro ns
    induction ns with
    | nil => exact fun as has => (List.append_nil as).symm ▸ last as has
    | cons m ns ih =>
      intro as has
      cases hm : p m with
      | true => exact next as m ns has hm (ih [] (by simp))
      | false =>
        rw [List.append_cons]
        exact ih (as ++ [m]) fun n hn => (List.mem_append.mp hn).elim (has n)
          fun hn => List.mem_singleton.mp hn ▸ hm
  exact fun ns => hfront ns [] (by simp)

theorem said_cons (h : v.text? n = some s) (ns : List α) : v.said (n :: ns) = s ++ v.said ns := by
  rw [TextView.said, List.flatMap_cons, h, Option.getD_some]
  rfl

theorem said_append (ns ms : List α) : v.said (ns ++ ms) = v.said ns ++ v.said ms :=
  List.flatMap_append

/-- Of a stretch with a text node one is left, which says what it said. -/
theorem exists_joined (hv : v.Lawful) (has : ∀ n ∈ as, v.isMarkup n = false) (hne : as ≠ []) :
    ∃ n, v.joined as = [n] ∧ v.text? n = some (v.said as) := by
  match as with
  | [n] =>
    obtain ⟨s, hs⟩ := isMarkup_eq_false_iff.mp (has n List.mem_cons_self)
    exact ⟨n, rfl, by rw [said_cons hs, hs]; simp [TextView.said]⟩
  | n :: m :: as => exact ⟨_, rfl, hv _⟩

theorem joined_joined (as : List α) : v.joined (v.joined as) = v.joined as := by
  match as with
  | [] => rfl
  | [n] => rfl
  | n :: m :: as => rfl

theorem isMarkup_of_mem_joined (hv : v.Lawful) (has : ∀ n ∈ as, v.isMarkup n = false) :
    ∀ n ∈ v.joined as, v.isMarkup n = false := by
  intro n hn
  cases as with
  | nil => exact absurd hn List.not_mem_nil
  | cons a as =>
    obtain ⟨m, hm, hsaid⟩ := exists_joined hv has (List.cons_ne_nil a as)
    rw [hm, List.mem_singleton] at hn
    exact isMarkup_eq_false_iff.mpr ⟨_, hn ▸ hsaid⟩

theorem joined_append_joined (hv : v.Lawful) (has : ∀ n ∈ as, v.isMarkup n = false)
    (hbs : ∀ n ∈ bs, v.isMarkup n = false) :
    v.joined (v.joined as ++ v.joined bs) = v.joined (as ++ bs) := by
  cases as with
  | nil => exact joined_joined bs
  | cons a as =>
    cases bs with
    | nil =>
      rw [List.append_nil, TextView.joined, List.append_nil]
      exact joined_joined (a :: as)
    | cons b bs =>
      obtain ⟨n, hn, hsaid⟩ := exists_joined hv has (List.cons_ne_nil a as)
      obtain ⟨m, hm, hsaid'⟩ := exists_joined hv hbs (List.cons_ne_nil b bs)
      have htwo : v.joined (a :: as ++ b :: bs) = [v.ofText (v.said (a :: as ++ b :: bs))] := by
        cases as <;> rfl
      have hpair : v.joined [n, m] = [v.ofText (v.said [n, m])] := rfl
      rw [hn, hm, List.singleton_append, hpair, htwo, said_append, said_cons hsaid,
        said_cons hsaid']
      simp [TextView.said]

/-! ### Joining by stretches -/

theorem mergeTexts_cons_markup (hn : v.isMarkup n = true) (ns : List α) :
    mergeTexts v (n :: ns) = n :: mergeTexts v ns := by
  rw [mergeTexts, isMarkup_iff.mp hn]

/-- A text node in front of none stays. -/
theorem mergeTexts_cons_of_head? (h : ∀ m ∈ (mergeTexts v ns).head?, v.isMarkup m = true) (n : α) :
    mergeTexts v (n :: ns) = n :: mergeTexts v ns := by
  cases hn : v.text? n with
  | none => exact mergeTexts_cons_markup (isMarkup_iff.mpr hn) ns
  | some s =>
    cases hns : mergeTexts v ns with
    | nil => rw [mergeTexts, hn, hns]
    | cons m ms =>
      rw [hns] at h
      rw [mergeTexts, hn, hns]
      simp only [isMarkup_iff.mp (h m rfl)]

/-- A text node in front of another goes into it. -/
theorem mergeTexts_cons_of_text (hn : v.text? n = some s) (hns : mergeTexts v ns = m :: ms)
    (hm : v.text? m = some t) : mergeTexts v (n :: ns) = v.ofText (s ++ t) :: ms := by
  rw [mergeTexts, hn, hns]
  simp only [hm]

/-- A stretch of text nodes is joined by itself. -/
theorem mergeTexts_append_of_head? (hv : v.Lawful) (has : ∀ n ∈ as, v.isMarkup n = false)
    (h : ∀ m ∈ (mergeTexts v ns).head?, v.isMarkup m = true) :
    mergeTexts v (as ++ ns) = v.joined as ++ mergeTexts v ns := by
  induction as with
  | nil => rfl
  | cons a as ih =>
    obtain ⟨ha, has⟩ := List.forall_mem_cons.mp has
    cases as with
    | nil => exact mergeTexts_cons_of_head? h a
    | cons b as =>
      obtain ⟨s, hs⟩ := isMarkup_eq_false_iff.mp ha
      obtain ⟨n, hn, hsaid⟩ := exists_joined hv has (List.cons_ne_nil b as)
      have hrest : mergeTexts v (b :: as ++ ns) = n :: mergeTexts v ns := by
        rw [ih has, hn, List.singleton_append]
      rw [List.cons_append, mergeTexts_cons_of_text hs hrest hsaid, ← said_cons hs]
      rfl

theorem mergeTexts_of_texts (hv : v.Lawful) (has : ∀ n ∈ as, v.isMarkup n = false) :
    mergeTexts v as = v.joined as := by
  have hnil : ∀ m ∈ (mergeTexts v ([] : List α)).head?, v.isMarkup m = true := by simp [mergeTexts]
  have hjoined := mergeTexts_append_of_head? hv has hnil
  simpa [mergeTexts] using hjoined

/-- **Joining goes stretch by stretch.** -/
theorem mergeTexts_append_cons (hv : v.Lawful) (has : ∀ n ∈ as, v.isMarkup n = false)
    (hm : v.isMarkup m = true) (ns : List α) :
    mergeTexts v (as ++ m :: ns) = v.joined as ++ m :: mergeTexts v ns := by
  rw [mergeTexts_append_of_head? hv has, mergeTexts_cons_markup hm]
  rw [mergeTexts_cons_markup hm]
  simpa using hm

/-! ### What joining keeps -/

theorem filter_isMarkup_of_texts (has : ∀ n ∈ as, v.isMarkup n = false) :
    as.filter v.isMarkup = [] :=
  List.filter_eq_nil_iff.mpr fun n hn => by simp [has n hn]

/-- The nodes that are no text stay, in order. -/
theorem filter_mergeTexts (hv : v.Lawful) (ns : List α) :
    (mergeTexts v ns).filter v.isMarkup = ns.filter v.isMarkup := by
  induction ns using stretch_induction (p := v.isMarkup) with
  | last as has =>
    rw [mergeTexts_of_texts hv has, filter_isMarkup_of_texts has,
      filter_isMarkup_of_texts (isMarkup_of_mem_joined hv has)]
  | next as m ns has hm ih =>
    rw [mergeTexts_append_cons hv has hm, List.filter_append, List.filter_append,
      filter_isMarkup_of_texts has, filter_isMarkup_of_texts (isMarkup_of_mem_joined hv has),
      List.filter_cons_of_pos hm, List.filter_cons_of_pos hm, ih]

theorem stretches_of_texts (has : ∀ n ∈ as, v.isMarkup n = false) :
    v.stretches as = [if as.isEmpty then none else some (v.said as)] := by
  rw [TextView.stretches, List.splitOnP_eq_singleton has, List.map_singleton]

theorem stretches_append_cons (hm : v.isMarkup m = true) (as ns : List α) :
    v.stretches (as ++ m :: ns) = v.stretches as ++ v.stretches ns := by
  rw [TextView.stretches, List.splitOnP_append_cons _ _ hm, List.map_append]
  rfl

theorem stretches_joined (hv : v.Lawful) (has : ∀ n ∈ as, v.isMarkup n = false) :
    v.stretches (v.joined as) = v.stretches as := by
  rw [stretches_of_texts has, stretches_of_texts (isMarkup_of_mem_joined hv has)]
  cases as with
  | nil => rfl
  | cons a as =>
    obtain ⟨n, hn, hsaid⟩ := exists_joined hv has (List.cons_ne_nil a as)
    have halone : v.said [n] = v.said (a :: as) := by
      rw [said_cons hsaid]
      exact List.append_nil _
    rw [hn, halone]
    rfl

/-- The stretches of text between them say what they said. -/
theorem stretches_mergeTexts (hv : v.Lawful) (ns : List α) :
    v.stretches (mergeTexts v ns) = v.stretches ns := by
  induction ns using stretch_induction (p := v.isMarkup) with
  | last as has => rw [mergeTexts_of_texts hv has, stretches_joined hv has]
  | next as m ns has hm ih =>
    rw [mergeTexts_append_cons hv has hm, stretches_append_cons hm, stretches_append_cons hm,
      stretches_joined hv has, ih]

/-- **Joining only cuts text in other places.** -/
theorem recut_mergeTexts (hv : v.Lawful) (ns : List α) : Recut v (mergeTexts v ns) ns :=
  ⟨filter_mergeTexts hv ns, stretches_mergeTexts hv ns⟩

/-- A stretch may be cut in any way that leaves a text node in it. -/
theorem recut_of_texts (has : ∀ n ∈ as, v.isMarkup n = false) (hbs : ∀ n ∈ bs, v.isMarkup n = false)
    (hne : as ≠ []) (hne' : bs ≠ []) (h : v.said as = v.said bs) : Recut v as bs where
  markup := by rw [filter_isMarkup_of_texts has, filter_isMarkup_of_texts hbs]
  stretches := by
    rw [stretches_of_texts has, stretches_of_texts hbs, h]
    simp [hne, hne']

/-- Stretches may be cut one by one. -/
theorem Recut.append_cons (has : Recut v as bs) (hns : Recut v ns ms) (hm : v.isMarkup m = true) :
    Recut v (as ++ m :: ns) (bs ++ m :: ms) where
  markup := by
    rw [List.filter_append, List.filter_append, List.filter_cons_of_pos hm,
      List.filter_cons_of_pos hm, has.markup, hns.markup]
  stretches := by
    rw [stretches_append_cons hm, stretches_append_cons hm, has.stretches, hns.stretches]

/-! ### A normal form -/

/-- No two text nodes stand side by side. -/
theorem isChain_mergeTexts (hv : v.Lawful) (ns : List α) :
    (mergeTexts v ns).IsChain fun n m => v.isMarkup n ∨ v.isMarkup m := by
  induction ns using stretch_induction (p := v.isMarkup) with
  | last as has =>
    rw [mergeTexts_of_texts hv has]
    cases as with
    | nil => exact List.IsChain.nil
    | cons a as =>
      obtain ⟨n, hn, -⟩ := exists_joined hv has (List.cons_ne_nil a as)
      exact hn ▸ List.IsChain.singleton n
  | next as m ns has hm ih =>
    rw [mergeTexts_append_cons hv has hm]
    have hrest := ih.cons (x := m) fun n _ => .inl hm
    cases as with
    | nil => exact hrest
    | cons a as =>
      obtain ⟨n, hn, -⟩ := exists_joined hv has (List.cons_ne_nil a as)
      rw [hn]
      exact List.isChain_cons_cons.mpr ⟨.inr hm, hrest⟩

/-- What is joined stays as it is when it is joined again. -/
theorem mergeTexts_mergeTexts (hv : v.Lawful) (ns : List α) :
    mergeTexts v (mergeTexts v ns) = mergeTexts v ns := by
  induction ns using stretch_induction (p := v.isMarkup) with
  | last as has =>
    rw [mergeTexts_of_texts hv has, mergeTexts_of_texts hv (isMarkup_of_mem_joined hv has),
      joined_joined]
  | next as m ns has hm ih =>
    rw [mergeTexts_append_cons hv has hm,
      mergeTexts_append_cons hv (isMarkup_of_mem_joined hv has) hm, joined_joined, ih]

/-- A stretch in front of a list may be joined before, and so may the list. -/
theorem mergeTexts_joined_append (hv : v.Lawful) (has : ∀ n ∈ as, v.isMarkup n = false)
    (ns : List α) : mergeTexts v (v.joined as ++ mergeTexts v ns) = mergeTexts v (as ++ ns) := by
  have hjoined := isMarkup_of_mem_joined hv has
  induction ns using stretch_induction (p := v.isMarkup) with
  | last bs hbs =>
    rw [mergeTexts_of_texts hv hbs,
      mergeTexts_of_texts hv (List.forall_mem_append.mpr ⟨hjoined, isMarkup_of_mem_joined hv hbs⟩),
      mergeTexts_of_texts hv (List.forall_mem_append.mpr ⟨has, hbs⟩),
      joined_append_joined hv has hbs]
  | next bs m ns hbs hm _ =>
    rw [mergeTexts_append_cons hv hbs hm, ← List.append_assoc, ← List.append_assoc,
      mergeTexts_append_cons hv
        (List.forall_mem_append.mpr ⟨hjoined, isMarkup_of_mem_joined hv hbs⟩) hm,
      mergeTexts_append_cons hv (List.forall_mem_append.mpr ⟨has, hbs⟩) hm,
      joined_append_joined hv has hbs, mergeTexts_mergeTexts hv]

/-- **Joining may be done in parts.** -/
theorem mergeTexts_append (hv : v.Lawful) (ns ms : List α) :
    mergeTexts v (ns ++ ms) = mergeTexts v (mergeTexts v ns ++ mergeTexts v ms) := by
  induction ns using stretch_induction (p := v.isMarkup) with
  | last as has => rw [mergeTexts_of_texts hv has, mergeTexts_joined_append hv has]
  | next as m ns has hm ih =>
    rw [List.append_assoc, List.cons_append, mergeTexts_append_cons hv has hm,
      mergeTexts_append_cons hv has hm, List.append_assoc, List.cons_append,
      mergeTexts_append_cons hv (isMarkup_of_mem_joined hv has) hm, joined_joined, ih]

theorem joined_eq_toList (hv : v.Lawful) (hb : v.Bare) (has : ∀ n ∈ as, v.isMarkup n = false) :
    v.joined as = ((if as.isEmpty then none else some (v.said as)).map v.ofText).toList := by
  cases as with
  | nil => rfl
  | cons a as =>
    obtain ⟨n, hn, hsaid⟩ := exists_joined hv has (List.cons_ne_nil a as)
    rw [hn, hb n _ hsaid]
    rfl

/-- The nodes between those that are no text can be made from what the stretches say. -/
theorem splitOnP_mergeTexts (hv : v.Lawful) (hb : v.Bare) (ns : List α) :
    (mergeTexts v ns).splitOnP v.isMarkup =
      (v.stretches ns).map fun s => (s.map v.ofText).toList := by
  induction ns using stretch_induction (p := v.isMarkup) with
  | last as has =>
    rw [mergeTexts_of_texts hv has, stretches_of_texts has, List.map_singleton,
      List.splitOnP_eq_singleton (isMarkup_of_mem_joined hv has), joined_eq_toList hv hb has]
  | next as m ns has hm ih =>
    rw [mergeTexts_append_cons hv has hm, stretches_append_cons hm, stretches_of_texts has,
      List.splitOnP_append_cons _ _ hm, List.map_append, List.map_singleton, ih,
      List.splitOnP_eq_singleton (isMarkup_of_mem_joined hv has), joined_eq_toList hv hb has]

/-- **Lists come to the same when joined exactly if only their text is cut in different places**,
where text nodes hold nothing beside their text. -/
theorem mergeTexts_eq_iff (hv : v.Lawful) (hb : v.Bare) :
    mergeTexts v ns = mergeTexts v ms ↔ Recut v ns ms := by
  constructor
  · intro h
    have hns := recut_mergeTexts hv ns
    have hms := recut_mergeTexts hv ms
    rw [h] at hns
    exact ⟨hns.markup.symm.trans hms.markup, hns.stretches.symm.trans hms.stretches⟩
  · rintro ⟨hmarkup, hstretches⟩
    -- a list is made up of what stands at its markup and between it
    rw [← List.splitOnP_spec (p := v.isMarkup) (mergeTexts v ns),
      ← List.splitOnP_spec (p := v.isMarkup) (mergeTexts v ms), splitOnP_mergeTexts hv hb,
      splitOnP_mergeTexts hv hb, filter_mergeTexts hv, filter_mergeTexts hv, hmarkup, hstretches]

end Nodes

/-! ### Lexing again -/

theorem lawful_view : Inline.view.Lawful := fun _ => rfl

theorem bare_view : Inline.view.Bare := fun n s h => by
  cases n with
  | text raw => exact congrArg Inline.text (Option.some.inj h)
  | _ => exact absurd h (by simp [Inline.view, Inline.text?])

section Texts

variable {byId : Text → Option Formula} {lex₁ lex₂ : Text → List Inline}

/-- A text has runs by what its nodes come to when joined. -/
theorem textRuns_eq_of_mergeTexts
    (h : ∀ t, mergeTexts Inline.view (lex₁ t) = mergeTexts Inline.view (lex₂ t)) (depth : Nat) :
    textRuns byId lex₁ depth = textRuns byId lex₂ depth := by
  induction depth with
  | zero => rfl
  | succ depth ih =>
    funext style t
    rw [textRuns, textRuns, h t, ih]

theorem relexes_eq_of_mergeTexts
    (h : ∀ t, mergeTexts Inline.view (lex₁ t) = mergeTexts Inline.view (lex₂ t)) :
    Relexes lex₁ = Relexes lex₂ := by
  funext u t
  rw [Relexes, Relexes, h t]

end Texts

/-- **Joining does not see how text is cut.** Take nodes of any kind, of which some are texts and
may hold more than their text. Joining leaves no two text nodes side by side, keeps the other
nodes and what the stretches between them say, changes nothing when it is done again, and may be
done in parts. So two lexers that answer every text with nodes that differ at most in how the
stretches of text are cut give each text the same runs at every depth, and the same once and for
all where lexing again ends. -/
theorem mergeTexts_recut {α : Type} {v : TextView α} (hv : v.Lawful) :
    (∀ ns : List α,
      (mergeTexts v ns).IsChain (fun n m => v.isMarkup n ∨ v.isMarkup m) ∧
      Recut v (mergeTexts v ns) ns ∧
      mergeTexts v (mergeTexts v ns) = mergeTexts v ns) ∧
    (∀ ns ms : List α,
      mergeTexts v (ns ++ ms) = mergeTexts v (mergeTexts v ns ++ mergeTexts v ms)) ∧
    ∀ lex₁ lex₂ : Text → List Inline, (∀ t, Recut Inline.view (lex₁ t) (lex₂ t)) →
      ∀ (byId : Text → Option Formula) (style : Style) (t : Text),
        (∀ depth, textRuns byId lex₁ depth style t = textRuns byId lex₂ depth style t) ∧
        (Acc (Relexes lex₁) t → Acc (Relexes lex₂) t ∧ ∃ rs depth, ∀ n, depth ≤ n →
          textRuns byId lex₁ n style t = some rs ∧ textRuns byId lex₂ n style t = some rs) := by
  refine ⟨fun ns => ⟨isChain_mergeTexts hv ns, recut_mergeTexts hv ns, mergeTexts_mergeTexts hv ns⟩,
    mergeTexts_append hv, fun lex₁ lex₂ hcut byId style t => ?_⟩
  have hsame : ∀ t, mergeTexts Inline.view (lex₁ t) = mergeTexts Inline.view (lex₂ t) :=
    fun t => (mergeTexts_eq_iff lawful_view bare_view).mpr (hcut t)
  have hruns : ∀ depth, textRuns byId lex₁ depth = textRuns byId lex₂ depth :=
    textRuns_eq_of_mergeTexts hsame
  refine ⟨fun depth => by rw [hruns depth], fun hends => ?_⟩
  obtain ⟨depth, rs, hrs⟩ := (acc_relexes_iff byId style).mp hends
  refine ⟨relexes_eq_of_mergeTexts hsame ▸ hends, rs, depth, fun n hn => ?_⟩
  rw [← hruns n]
  exact ⟨textRuns_mono hrs hn, textRuns_mono hrs hn⟩

/-- Nodes with a number beside them, which a node that is made of a text does not keep. -/
def numberedView : TextView (Option Text × Nat) := ⟨Prod.fst, fun s => (some s, 0)⟩

/-- A lexer that takes the first bar for a line break. -/
def brokenAtBar (t : Text) : List Inline :=
  match Text.cut? ['|'] t with
  | some (a, b) => [.text a, .lineBreak, .text b]
  | none => [.text t]

/-- A text cut at each of its characters, behind a text node without any. -/
def spelledOut (t : Text) : List Inline := .text [] :: t.map fun c => .text [c]

/-- The same lexer, which cuts text wherever it can. -/
def spelledAtBar (t : Text) : List Inline :=
  match Text.cut? ['|'] t with
  | some (a, b) => spelledOut a ++ .lineBreak :: spelledOut b
  | none => spelledOut t

theorem recut_spelledOut (t : Text) : Recut Inline.view [.text t] (spelledOut t) := by
  refine recut_of_texts (by simp [TextView.isMarkup, Inline.view, Inline.text?]) ?_ (by simp)
    (List.cons_ne_nil _ _) ?_
  · simp [spelledOut, TextView.isMarkup, Inline.view, Inline.text?]
  · simp [spelledOut, TextView.said, Inline.view, Inline.text?, List.flatMap_map]

theorem recut_spelledAtBar (t : Text) : Recut Inline.view (brokenAtBar t) (spelledAtBar t) := by
  unfold brokenAtBar spelledAtBar
  split
  · exact (recut_spelledOut _).append_cons (recut_spelledOut _) rfl
  · exact recut_spelledOut t

/-- Markers and a formula on both sides of a bar. -/
def barText : Text := "**a|MATHPHm-1-kPHMATH*b".toList

theorem mergeTexts_recut_spelledOut :
    numberedView.Lawful ∧ (∀ t, Recut Inline.view (brokenAtBar t) (spelledAtBar t)) ∧
    Acc (Relexes brokenAtBar) barText ∧
    mergeTexts numberedView (mergeTexts numberedView [(some "a".toList, 1), (some "b".toList, 2)] ++
        mergeTexts numberedView [(some "c".toList, 3), (none, 4), (some "d".toList, 5)]) =
      [(some "abc".toList, 0), (none, 4), (some "d".toList, 5)] ∧
    ∃ depth, ∀ n, depth ≤ n →
      textRuns (formulaById [.math fraction]) spelledAtBar n .plain barText =
        some [.text "a".toList ⟨true, false⟩, .lineBreak,
          .math fraction.markup.omml fraction.latex false, .text "b".toList ⟨false, true⟩] := by
  have hv : numberedView.Lawful := fun _ => rfl
  have hruns : textRuns (formulaById [.math fraction]) brokenAtBar 2 .plain barText =
      some [.text "a".toList ⟨true, false⟩, .lineBreak,
        .math fraction.markup.omml fraction.latex false, .text "b".toList ⟨false, true⟩] := by
    decide +kernel
  have hends : Acc (Relexes brokenAtBar) barText := (acc_relexes_iff _ _).mpr ⟨2, _, hruns⟩
  obtain ⟨-, hparts, hlexers⟩ := mergeTexts_recut hv
  obtain ⟨-, hsame⟩ := hlexers brokenAtBar spelledAtBar recut_spelledAtBar
    (formulaById [.math fraction]) .plain barText
  obtain ⟨-, rs, depth, hall⟩ := hsame hends
  refine ⟨hv, recut_spelledAtBar, hends, ?_, depth, fun n hn => ?_⟩
  · rw [← hparts]
    rfl
  · -- the runs are those at depth two
    have htwo := (hall _ (le_max_left depth 2)).1
    rw [textRuns_mono hruns (le_max_right depth 2)] at htwo
    rw [(hall n hn).2, htwo]

end Formulary
