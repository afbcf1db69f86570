/-
# List items in a written document

A document is written from left to right, and the numbering part grows with
the counted lists whose items come up. So at every point of the writing the
part is the one in which the lists of the items written so far are open, and
each item stands where these lists place it (`write_opened`).

Key definitions: `opened`, `Draft.Opened`, `placeIn`, `FitsUpTo`.
Key theorems: `items_of_entryParagraphs`, `place_opened`, `write_opened`,
`items_of_buildParagraphs`.
-/
import Formulary.Document.Build
import Formulary.Proofs.Document.Lists
import Formulary.Proofs.Word.Numbering
import Formulary.Word.Writer
import Mathlib.Data.List.Perm.Subperm

namespace Formulary

/-! ### From the outline to the paragraphs -/

theorem mapM_eq_ok_iff {α β : Type} {f : α → Except Failure β} {xs : List α} {ys : List β} :
    xs.mapM f = .ok ys ↔ List.Forall₂ (fun x y => f x = .ok y) xs ys := by
  induction xs generalizing ys with
  | nil => cases ys <;> simp [pure, Except.pure]
  | cons x xs ih =>
    rw [List.mapM_cons]
    cases hx : f x with
    | error e => cases ys <;> simp [bind, Except.bind, hx]
    | ok y =>
      cases hxs : xs.mapM f with
      | error e => cases ys <;> simp [bind, Except.bind, ← ih, hxs, hx]
      | ok zs => cases ys <;> simp [bind, Except.bind, pure, Except.pure, ← ih, hxs, hx]

theorem map_eq_ok_iff {α β : Type} {f : α → β} {x : Except Failure α} {y : β} :
    x.map f = .ok y ↔ ∃ a, x = .ok a ∧ f a = y := by
  cases x <;> simp [Except.map]

namespace Word

section Paragraphs

variable {byId : Text → Option Formula} {lex : Text → List Inline}

/-- The items among the paragraphs of an entry: the entry itself, if it is one. -/
theorem items_of_paragraphs {e : Entry} {ps : List Formulary.Paragraph}
    (h : e.paragraphs byId lex = .ok ps) :
    e.isFault = false ∧ ps.filterMap activeMarker = e.marker?.toList ∧
      ∀ p ∈ ps, (activeMarker p).isSome = decide (p.kind = .listItem) := by
  cases e with
  | heading level p =>
    obtain ⟨rs, -, rfl⟩ := map_eq_ok_iff.mp h
    exact ⟨rfl, rfl, by simp [activeMarker]⟩
  | body p =>
    obtain ⟨rs, -, rfl⟩ := map_eq_ok_iff.mp h
    exact ⟨rfl, rfl, by simp [activeMarker, Formulary.Paragraph.of]⟩
  | item m ps =>
    obtain ⟨rss, -, rfl⟩ := map_eq_ok_iff.mp h
    exact ⟨rfl, rfl, by simp [activeMarker]⟩
  | rule =>
    obtain rfl := Except.ok.inj h
    exact ⟨rfl, rfl, by simp [activeMarker, Formulary.Paragraph.of]⟩
  | code raw =>
    obtain rfl := Except.ok.inj h
    refine ⟨rfl, ?_, fun p hp => ?_⟩
    · rw [List.filterMap_map]
      exact List.filterMap_eq_nil_iff.mpr fun s _ => rfl
    · obtain ⟨s, -, rfl⟩ := List.mem_map.mp hp
      rfl
  | fault e => exact absurd h (by simp [Entry.paragraphs])

/-- The list items among paragraphs are those of the entries they are made from. -/
theorem items_of_entryParagraphs {es : List Entry} {ps : List Formulary.Paragraph}
    (h : entryParagraphs byId lex es = .ok ps) :
    (∀ e ∈ es, e.isFault = false) ∧ ps.filterMap activeMarker = markers es ∧
      ∀ p ∈ ps, (activeMarker p).isSome = decide (p.kind = .listItem) := by
  obtain ⟨pss, hpss, rfl⟩ := map_eq_ok_iff.mp h
  have hall := mapM_eq_ok_iff.mp hpss
  clear h hpss
  induction hall with
  | nil => simp [markers]
  | @cons e ps es pss hhead _ ih =>
    obtain ⟨hfault, hmarker, hkind⟩ := items_of_paragraphs hhead
    refine ⟨List.forall_mem_cons.mpr ⟨hfault, ih.1⟩, ?_, fun p hp => ?_⟩
    · rw [List.flatten_cons, List.filterMap_append, hmarker, ih.2.1]
      unfold markers
      cases hm : e.marker? <;> simp [hm]
    · rw [List.flatten_cons] at hp
      rcases List.mem_append.mp hp with hp | hp
      · exact hkind p hp
      · exact ih.2.2 p hp

end Paragraphs

/-! ### Writing -/

/-- The counted lists that are open once items with the given markers have been written. -/
def opened (ws : List Marker) : List Marker := enlistCalls [] (ws.map Call.find)

theorem opened_concat (ws : List Marker) (m : Marker) :
    opened (ws ++ [m]) = enlist (opened ws) m := by
  rw [opened, opened, List.map_append, enlistCalls, enlistCalls, List.foldl_append]
  rfl

theorem nodup_opened (ws : List Marker) : ((opened ws).map Marker.list).Nodup := by
  have hnil : (([] : List Marker).map Marker.list).Nodup := List.nodup_nil
  exact nodup_enlistCalls hnil _

theorem opened_prefix (ws us : List Marker) : opened ws <+: opened (ws ++ us) := by
  rw [opened, opened, List.map_append, enlistCalls, enlistCalls, List.foldl_append]
  exact prefix_enlistCalls _ _

/-- Items with the markers `ws` have been written into the document so far. -/
def Draft.Opened (d : Draft) (ws : List Marker) : Prop :=
  d.numbering = if ws = [] then none else some (Numbering.counting defaultNumbering (opened ws))

theorem Draft.Opened.getNumbering {d : Draft} {ws : List Marker} (hd : d.Opened ws) :
    d.getNumbering = Numbering.counting defaultNumbering (opened ws) := by
  rw [Draft.getNumbering, hd]
  split
  · rename_i hws
    rw [hws]
    exact (counting_nil defaultNumbering).symm
  · rfl

/-- The place of an item under the numbers of open lists. -/
def placeIn (ms : List Marker) (m : Marker) : ListPlace :=
  if fits (numOf defaultNumbering ms m) then
    .whole (writtenLevel m.level) (numOf defaultNumbering ms m)
  else .noNum (writtenLevel m.level)

theorem fits_iff {n : Int} : fits n = true ↔ -2147483648 ≤ n ∧ n ≤ 2147483647 := by
  rw [fits, Bool.and_eq_true, decide_eq_true_eq, decide_eq_true_eq]

theorem fits_writtenLevel {n : Int} (hn : 0 ≤ n) : fits (writtenLevel n) = true := by
  rw [fits_iff]
  simp only [writtenLevel, maxLevels]
  omega

/-- The number of an item's list does not change with later items. -/
theorem numOf_opened (ws us : List Marker) (m : Marker) :
    numOf defaultNumbering (opened (ws ++ m :: us)) m = numOf defaultNumbering (opened ws) m := by
  have hkept : enlist (opened ws) m <+: opened (ws ++ m :: us) := by
    have := opened_prefix (ws ++ [m]) us
    rwa [opened_concat, ← List.append_cons] at this
  exact numOf_of_enlist defaultNumbering hkept

theorem place_opened {d : Draft} {ws : List Marker} (hd : d.Opened ws) {p : Formulary.Paragraph}
    (hlevel : ∀ m ∈ activeMarker p, fits (writtenLevel m.level) = true) :
    (d.place p).1.1 = (activeMarker p).map (placeIn (opened ws)) ∧
      (d.place p).2.Opened (ws ++ (activeMarker p).toList) := by
  unfold Draft.place
  cases hp : activeMarker p with
  | none => simpa using hd
  | some m =>
    simp only [hd.getNumbering, place_counting defaultNumbering (nodup_opened ws) (hlevel m hp)]
    refine ⟨?_, ?_⟩
    · rw [Option.map_some, placeIn]
      split <;> rfl
    · rw [Draft.Opened, Option.toList_some, opened_concat, if_neg (by simp)]

theorem paragraphs_place (d : Draft) (p : Formulary.Paragraph) :
    (d.place p).2.paragraphs = d.paragraphs := by
  unfold Draft.place
  cases activeMarker p <;> rfl

/-- A paragraph is written at its place, whatever becomes of its runs. -/
theorem writeParagraph_place (fonts : FontChoice) (d : Draft) (p : Formulary.Paragraph) :
    (d.writeParagraph fonts p).1.paragraphs.map (·.props.place) =
        d.paragraphs.map (·.props.place) ++ [(d.place p).1.1] ∧
      (d.writeParagraph fonts p).1.numbering = (d.place p).2.numbering := by
  have hparagraphs := paragraphs_place d p
  unfold Draft.writeParagraph
  generalize d.place p = placed at hparagraphs ⊢
  obtain ⟨⟨place, failure⟩, d'⟩ := placed
  cases failure <;> simp_all

theorem opened_writeParagraph (fonts : FontChoice) {d : Draft} {ws : List Marker}
    (hd : d.Opened ws) {p : Formulary.Paragraph}
    (hlevel : ∀ m ∈ activeMarker p, fits (writtenLevel m.level) = true) :
    (d.writeParagraph fonts p).1.Opened (ws ++ (activeMarker p).toList) := by
  rw [Draft.Opened, (writeParagraph_place fonts d p).2]
  exact (place_opened hd hlevel).2

/-- The numbers of the items with these markers fit, save that the last may be too large; this
then is what stops the writing. -/
def FitsUpTo (num : Marker → Int) (ms : List Marker) (e : Option Failure) : Prop :=
  ∀ k m, ms[k]? = some m →
    fits (num m) = true ∨ (k + 1 = ms.length ∧ e = some (.outOfRange (num m)))

theorem fitsUpTo_toList {num : Marker → Int} {m? : Option Marker} {e : Option Failure}
    (h : ∀ m ∈ m?, fits (num m) = true ∨ e = some (.outOfRange (num m))) :
    FitsUpTo num m?.toList e := by
  intro k m hk
  cases m? with
  | none => simp at hk
  | some m' =>
    cases k with
    | zero =>
      obtain rfl := Option.some.inj hk
      exact (h m' rfl).imp_right fun he => ⟨rfl, he⟩
    | succ k => simp at hk

theorem FitsUpTo.append {num : Marker → Int} {m? : Option Marker} {ms : List Marker}
    {e : Option Failure} (h : FitsUpTo num ms e) (hm : ∀ m ∈ m?, fits (num m) = true) :
    FitsUpTo num (m?.toList ++ ms) e := by
  cases m? with
  | none => exact h
  | some m =>
    intro k m' hk
    cases k with
    | zero =>
      obtain rfl := Option.some.inj hk
      exact .inl (hm m rfl)
    | succ k => exact (h k m' hk).imp_right (And.imp_left (congrArg (· + 1)))

/-- The number of an item that is written fits, or else it stops the writing. -/
theorem fits_writeParagraph (fonts : FontChoice) {d : Draft} {ws : List Marker} (hd : d.Opened ws)
    {p : Formulary.Paragraph}
    (hlevel : ∀ m ∈ activeMarker p, fits (writtenLevel m.level) = true) :
    ∀ m ∈ activeMarker p, fits (numOf defaultNumbering (opened ws) m) = true ∨
      (d.writeParagraph fonts p).2 =
        some (.outOfRange (numOf defaultNumbering (opened ws) m)) := by
  intro m hm
  have hplace := place_counting defaultNumbering (nodup_opened ws) (hlevel m hm)
  cases hfits : fits (numOf defaultNumbering (opened ws) m) with
  | true => exact .inl rfl
  | false =>
    rw [hfits] at hplace
    rw [Option.mem_def] at hm
    simp [Draft.writeParagraph, Draft.place, hm, hd.getNumbering, hplace]

/-- **How the numbering grows with the items.** However far the writing comes,
the items written are the first of the paragraphs, and each stands where the lists
that are open in the end place it. -/
theorem write_opened {fonts : FontChoice} {ps : List Formulary.Paragraph} {d d' : Draft}
    {e : Option Failure} {ws : List Marker} (hd : d.Opened ws)
    (hlevel : ∀ p ∈ ps, ∀ m ∈ activeMarker p, fits (writtenLevel m.level) = true)
    (h : d.write fonts ps = (d', e)) :
    ∃ n ≤ ps.length, (e = none → n = ps.length) ∧
      d'.Opened (ws ++ (ps.take n).filterMap activeMarker) ∧
      d'.paragraphs.map (·.props.place) = d.paragraphs.map (·.props.place) ++
        (ps.take n).map (fun p => (activeMarker p).map
          (placeIn (opened (ws ++ (ps.take n).filterMap activeMarker)))) ∧
      FitsUpTo (numOf defaultNumbering (opened (ws ++ (ps.take n).filterMap activeMarker)))
        ((ps.take n).filterMap activeMarker) e := by
  induction ps generalizing d ws with
  | nil =>
    obtain ⟨rfl, -⟩ := Prod.mk.inj h
    exact ⟨0, Nat.le_refl 0, fun _ => rfl, by simpa using hd, by simp,
      fun k m hk => absurd hk (by simp)⟩
  | cons p ps ih =>
    obtain ⟨hhead, hrest⟩ := List.forall_mem_cons.mp hlevel
    have hparagraphs := (writeParagraph_place fonts d p).1
    have hopened := opened_writeParagraph fonts hd hhead
    have hfirst := fits_writeParagraph fonts hd hhead
    have hitems : ∀ n, ((p :: ps).take (n + 1)).filterMap activeMarker =
        (activeMarker p).toList ++ (ps.take n).filterMap activeMarker := fun n => by
      cases hp : activeMarker p <;> simp [hp]
    -- the first item keeps its number and its place, whatever is opened after it
    have hkeeps : ∀ us, ∀ m ∈ activeMarker p, numOf defaultNumbering (opened ws) m =
        numOf defaultNumbering (opened (ws ++ ((activeMarker p).toList ++ us))) m :=
      fun us m hm => by rw [hm, Option.toList_some, List.singleton_append, numOf_opened]
    have hstays : ∀ us, (activeMarker p).map (placeIn (opened ws)) =
        (activeMarker p).map (placeIn (opened (ws ++ ((activeMarker p).toList ++ us)))) :=
      fun us => Option.map_congr fun m hm => by rw [placeIn, placeIn, hkeeps us m hm]
    rw [(place_opened hd hhead).1] at hparagraphs
    rw [Draft.write] at h
    split at h <;> rename_i d₁ _ hstep <;> rw [hstep] at hparagraphs hopened hfirst
    · obtain ⟨rfl, rfl⟩ := Prod.mk.inj h
      refine ⟨1, by simp, by simp, ?_⟩
      rw [hitems 0, List.take_zero, List.filterMap_nil]
      refine ⟨by simpa using hopened, ?_, ?_⟩
      · rw [hparagraphs, hstays []]
        rfl
      · rw [List.append_nil]
        refine fitsUpTo_toList fun m hm => ?_
        have hm' := hkeeps [] m hm
        rw [List.append_nil] at hm'
        rw [← hm']
        exact hfirst m hm
    · obtain ⟨n, hn, hall, hd', hplaces, hfits⟩ := ih hopened hrest h
      rw [List.append_assoc] at hd' hplaces hfits
      refine ⟨n + 1, by simpa using hn, by simpa using hall, ?_⟩
      rw [hitems n]
      refine ⟨hd', ?_, hfits.append fun m hm => ?_⟩
      · rw [hplaces, hparagraphs, hstays, List.append_assoc]
        rfl
      · rw [← hkeeps _ m hm]
        exact (hfirst m hm).resolve_right (by simp)

/-! ### The numbers of a document's lists -/

theorem mem_of_mem_opened {ws : List Marker} {m : Marker} (h : m ∈ opened ws) :
    m ∈ ws ∧ m.ordered = true := by
  induction ws using List.reverseRecOn with
  | nil => exact absurd h List.not_mem_nil
  | append_singleton ws w ih =>
    rw [opened_concat, enlist] at h
    split at h
    · rename_i hw
      rcases List.mem_append.mp h with h | h
      · exact (ih h).imp_left (List.mem_append_left _)
      · obtain rfl := List.mem_singleton.mp h
        exact ⟨List.mem_append_right _ h, hw.1⟩
    · exact (ih h).imp_left (List.mem_append_left _)

theorem list_mem_opened {ws : List Marker} {m : Marker} (hm : m ∈ ws)
    (hordered : m.ordered = true) : m.list ∈ (opened ws).map Marker.list := by
  obtain ⟨earlier, later, rfl⟩ := List.append_of_mem hm
  have hkept : enlist (opened earlier) m <+: opened (earlier ++ m :: later) := by
    have := opened_prefix (earlier ++ [m]) later
    rwa [opened_concat, ← List.append_cons] at this
  exact (hkept.map Marker.list).subset (mem_enlist hordered)

/-- The numbers of the items go on from the numbers of a new document, one for each counted
list that is open. -/
theorem numOf_le_length {ws : List Marker} {m : Marker} (hm : m ∈ ws) :
    10 ≤ numOf defaultNumbering (opened ws) m ∧
      numOf defaultNumbering (opened ws) m ≤ 10 + (opened ws).length := by
  have hnext : nextNum defaultNumbering = 10 := by decide
  rw [numOf]
  cases hordered : m.ordered with
  | false =>
    simp only [Bool.false_eq_true, if_false, hnext]
    omega
  | true =>
    have hlt := List.idxOf_lt_length_iff.mpr (list_mem_opened hm hordered)
    rw [List.length_map] at hlt
    simp only [if_true, listNum, hnext]
    omega

/-- A list that is open is found at its place. -/
theorem idxOf_list {ms : List Marker} (hms : (ms.map Marker.list).Nodup) {i : Nat}
    (hi : i < ms.length) : (ms.map Marker.list).idxOf ms[i].list = i := by
  have hi' : i < (ms.map Marker.list).length := by rwa [List.length_map]
  have := hms.idxOf_getElem i hi'
  rwa [List.getElem_map] at this

theorem exists_marks {bs : List Block} {ms : List Marker} {ls : List ListNode}
    (h : List.Forall₂ (Marks 0 (nestedNodes [] 0 0 bs)) ms ls) {m : Marker} (hm : m ∈ ms) :
    ∃ l, Marks 0 (nestedNodes [] 0 0 bs) m l := by
  obtain ⟨hlength, hmarks⟩ := List.forall₂_iff_get.mp h
  obtain ⟨k, hk, rfl⟩ := List.mem_iff_getElem.mp hm
  exact ⟨_, hmarks k hk (hlength ▸ hk)⟩

theorem level_fits {bs : List Block} {ps : List Formulary.Paragraph} {ls : List ListNode}
    (h : List.Forall₂ (Marks 0 (nestedNodes [] 0 0 bs)) (ps.filterMap activeMarker) ls) :
    ∀ p ∈ ps, ∀ m ∈ activeMarker p, fits (writtenLevel m.level) = true := by
  intro p hp m hm
  obtain ⟨l, hl⟩ := exists_marks h (List.mem_filterMap.mpr ⟨p, hp, hm⟩)
  rw [hl.level]
  exact fits_writtenLevel (Int.natCast_nonneg _)

section Lists

variable {bs : List Block} {ws : List Marker}
  (hws : ∀ m ∈ ws, ∃ l, Marks 0 (nestedNodes [] 0 0 bs) m l)

include hws

theorem mem_opened {m : Marker} (hm : m ∈ ws) (hordered : m.ordered = true) : m ∈ opened ws := by
  obtain ⟨m', hm', hlist⟩ := List.mem_map.mp (list_mem_opened hm hordered)
  obtain ⟨l, hl⟩ := hws m hm
  obtain ⟨l', hl'⟩ := hws m' (mem_of_mem_opened hm').1
  rwa [← (list_eq_iff hl' hl).2 hlist]

/-- No more lists are open than the document has. -/
theorem length_opened_le : (opened ws).length ≤ (nestedNodes [] 0 0 bs).length := by
  have hsub : (opened ws).map Marker.list ⊆
      (List.range (nestedNodes [] 0 0 bs).length).map fun i : Nat => (i : Int) + 1 := by
    intro k hk
    obtain ⟨m, hm, rfl⟩ := List.mem_map.mp hk
    obtain ⟨l, hl⟩ := hws m (mem_of_mem_opened hm).1
    obtain ⟨i, hi, hget⟩ := hl.place
    have hlt := (List.getElem?_eq_some_iff.mp hget).1
    exact List.mem_map.mpr ⟨i, List.mem_range.mpr hlt, by omega⟩
  have hlength := (List.subperm_of_subset (nodup_opened ws) hsub).length_le
  simpa using hlength

end Lists

/-- The items among the paragraphs of a document are in step with those of its blocks. -/
theorem items_of_buildParagraphs {cv : Converters} {ts : List Token} {bs : List Block}
    {ps : List Formulary.Paragraph} (hblocks : cv.blocks (combine ts) = .ok bs)
    (hps : buildParagraphs cv ts = .ok ps) :
    List.Forall₂ (Marks 0 (nestedNodes [] 0 0 bs)) (ps.filterMap activeMarker)
        (nestedItems [] 0 0 bs) ∧
      ∀ p ∈ ps, (activeMarker p).isSome = decide (p.kind = .listItem) := by
  have hentries : entryParagraphs (formulaById ts) cv.lexInline (outline bs) = .ok ps := by
    rw [buildParagraphs, hblocks] at hps
    exact hps
  obtain ⟨hfault, hmarkers, hkind⟩ := items_of_entryParagraphs hentries
  have hitems := inStep_entriesFrom 0 0 bs hfault
  rw [← outline, ← hmarkers] at hitems
  exact ⟨hitems, hkind⟩

/-- Converters that find the same blocks in every text, and no formulas. -/
def blocksOnly (bs : List Block) : Converters where
  mathml _ _ := .error .malformedXml
  omml _ := .error .malformedXml
  report _ := []
  html _ := .error .malformedXml
  blocks _ := .ok bs
  inline := none

end Word
end Formulary
