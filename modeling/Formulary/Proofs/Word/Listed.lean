/-
# The lists of a written document

In the XML of a written document each list item names its level and its numbering, and the
numbering part defines this numbering once: bullets by the one format of bullets, and a counted
list by the one decimal format, with its own start at the level that its items name. Two items
have the same number exactly if they are both bullets or items of one counted list
(`write_listItems`). A list whose number is too large for Word stops the writing, at its first
item.

Key definitions: `itemNodes`, `Defines`, `Numbered`.
Key theorems: `items_of_write`, `defines_of_marks`, `numbered_of_opened`, `write_listItems`.
-/
import Formulary.Proofs.Word.ListItems

namespace Formulary
namespace Word

/-! ### The numbering part -/

/-- An element whose key no other has is all that a search for its key finds. -/
theorem filter_eq_singleton {α : Type} {f : α → Option Int} {xs : List α} {x : α} {k : Int}
    (hxs : (xs.filterMap f).Nodup) (hx : x ∈ xs) (hk : f x = some k) :
    xs.filter (fun y => f y = some k) = [x] := by
  induction xs with
  | nil => exact absurd hx List.not_mem_nil
  | cons y ys ih =>
    rcases List.mem_cons.mp hx with rfl | hx
    · rw [List.filterMap_cons_some hk] at hxs
      have hrest : ys.filter (fun y => f y = some k) = [] := by
        refine List.filter_eq_nil_iff.mpr fun y hy hfy => (List.nodup_cons.mp hxs).1 ?_
        exact List.mem_filterMap.mpr ⟨y, hy, of_decide_eq_true hfy⟩
      rw [List.filter_cons_of_pos (by simpa using hk), hrest]
    · have hys : (ys.filterMap f).Nodup :=
        hxs.sublist ((List.sublist_cons_self y ys).filterMap f)
      have hy : f y ≠ some k := fun hy => by
        rw [List.filterMap_cons_some hy] at hxs
        exact (List.nodup_cons.mp hxs).1 (List.mem_filterMap.mpr ⟨x, hx, hk⟩)
      rw [List.filter_cons_of_neg (by simpa using hy), ih hys hx]

theorem nodup_numIds_counting {es : List NumberingEntry} (hes : (numIds es).Nodup)
    (ms : List Marker) : (numIds (Numbering.counting es ms).entries).Nodup := by
  rw [entries_counting, numIds_append, numIds_with_ourFormats]
  refine List.nodup_append.mpr ⟨hes, nodup_numIds_newEntries es ms, fun k hk l hl => ?_⟩
  have hlt : k < nextNum es := lt_nextId hk
  have hle := nextNum_le_of_mem hl
  omega

theorem formatIds_append (es fs : List NumberingEntry) :
    formatIds (es ++ fs) = formatIds es ++ formatIds fs := List.filterMap_append

theorem formatIds_newEntries (es : List NumberingEntry) (ms : List Marker) :
    formatIds (newEntries es ms) = [] := by
  refine List.filterMap_eq_nil_iff.mpr fun e he => ?_
  rcases List.mem_cons.mp he with rfl | he
  · rfl
  · obtain ⟨i, hi, rfl⟩ := List.mem_mapIdx.mp he
    rfl

theorem nodup_formatIds_counting {es : List NumberingEntry} (hes : (formatIds es).Nodup)
    (ms : List Marker) : (formatIds (Numbering.counting es ms).entries).Nodup := by
  have hparts : formatIds (Numbering.counting es ms).entries =
      formatIds (front es) ++ [nextFormat es, nextFormat es + 1] ++ formatIds (back es) := by
    rw [entries_counting, formatIds_append, formatIds_append, formatIds_append,
      formatIds_newEntries, List.append_nil]
    rfl
  have hours : (formatIds (Numbering.counting es ms).entries).Perm
      (nextFormat es :: (nextFormat es + 1) :: formatIds es) := by
    rw [hparts, List.append_assoc]
    refine (List.perm_append_comm_assoc _ _ _).trans ?_
    rw [← formatIds_append, front_append_back]
    exact List.Perm.refl _
  have hfirst : nextFormat es ∉ formatIds es := by
    simpa using nextFormat_notMem (k := 0) (Int.le_refl 0)
  have hsecond : nextFormat es + 1 ∉ formatIds es := nextFormat_notMem (by decide)
  rw [hours.nodup_iff, List.nodup_cons, List.nodup_cons, List.mem_cons]
  exact ⟨fun h => h.elim (by omega) hfirst, hsecond, hes⟩

/-- The numbers of a part are written as usual, if they were at first. -/
theorem written_counting {es : List NumberingEntry}
    (hes : ∀ e ∈ es, e.written = Text.ofInt e.id) (ms : List Marker) :
    ∀ e ∈ (Numbering.counting es ms).entries, e.written = Text.ofInt e.id := by
  rw [entries_counting]
  intro e he
  rcases List.mem_append.mp he with he | he
  · rcases List.mem_append.mp he with he | he
    · rcases List.mem_append.mp he with he | he
      · exact hes e (List.takeWhile_subset _ he)
      · rcases List.mem_pair.mp he with rfl | rfl <;> rfl
    · exact hes e (List.dropWhile_subset _ he)
  · rcases List.mem_cons.mp he with rfl | he
    · rfl
    · obtain ⟨i, hi, rfl⟩ := List.mem_mapIdx.mp he
      rfl

/-- The XML of a part has what its entries have: one node for a key that no other has. -/
theorem filter_node_eq_singleton {es : List NumberingEntry} {f : NumberingEntry → Option Int}
    {isIt : Xml.Node → Bool} {id : Int}
    (hes : ∀ e ∈ es, isIt e.node = decide (f e = some id)) (hnodup : (es.filterMap f).Nodup)
    {e : NumberingEntry} (he : e ∈ es) (hid : f e = some id) :
    (es.map NumberingEntry.node).filter isIt = [e.node] := by
  have hcongr : es.filter (isIt ∘ NumberingEntry.node) = es.filter fun e => f e = some id :=
    List.filter_congr hes
  rw [List.filter_map, hcongr, filter_eq_singleton hnodup he hid, List.map_singleton]

/-- The numbering of a marker, once its list is open. -/
theorem num_mem_newEntries (es : List NumberingEntry) {ms : List Marker}
    (hms : (ms.map Marker.list).Nodup) {m : Marker} (hm : m.ordered = true → m ∈ ms) :
    .num (numOf es ms m) (some (if m.ordered then nextFormat es + 1 else nextFormat es))
      (if m.ordered then some ⟨writtenLevel m.level, m.start⟩ else none) ∈ newEntries es ms := by
  cases hordered : m.ordered with
  | false => simp [numOf, hordered, newEntries]
  | true =>
    obtain ⟨i, hi, rfl⟩ := List.mem_iff_getElem.mp (hm hordered)
    rw [numOf, hordered, if_pos rfl, if_pos rfl, if_pos rfl, idxOf_list hms hi]
    exact List.mem_cons_of_mem _ (List.mem_mapIdx.mpr ⟨i, hi, rfl⟩)

/-- In the XML of a numbering part, `id` is the number of a list: one numbering has it. Bullets
use the format `bullets`; a counted list uses `decimal` and takes up its count at `start`, at the
level that its items name. -/
def Defines (part : List Xml.Node) (bullets decimal : Int) (l : ListNode) (start id : Int) :
    Prop :=
  ∃ num, part.filter (hasId "num" "numId" id) = [num] ∧
    if l.ordered then IsNum id decimal [((min l.depth 8 : Nat), start)] num
    else IsNum id bullets [] num

theorem writtenLevel_natCast (n : Nat) : writtenLevel n = (min n 8 : Nat) := by
  simp only [writtenLevel, maxLevels]
  omega

/-- The XML of a document's numbering part. -/
def Draft.numberingPart (d : Draft) : List Xml.Node :=
  d.numberingEntries.map NumberingEntry.node

section Opened

variable {d : Draft} {ws : List Marker} (hd : d.Opened ws) {m : Marker} (hm : m ∈ ws)

include hd hm

theorem numberingPart_of_opened : d.numberingPart =
    (Numbering.counting defaultNumbering (opened ws)).entries.map NumberingEntry.node := by
  rw [Draft.numberingPart, Draft.numberingEntries, hd, if_neg (List.ne_nil_of_mem hm)]

/-- Our formats are defined once, as soon as there is an item. -/
theorem formats_of_opened :
    (∃ n, d.numberingPart.filter (hasId "abstractNum" "abstractNumId"
        (nextFormat defaultNumbering)) = [n] ∧ IsBullets (nextFormat defaultNumbering) n) ∧
    ∃ n, d.numberingPart.filter (hasId "abstractNum" "abstractNumId"
        (nextFormat defaultNumbering + 1)) = [n] ∧
      IsDecimal (nextFormat defaultNumbering + 1) n := by
  have hnodup : (formatIds (Numbering.counting defaultNumbering (opened ws)).entries).Nodup :=
    nodup_formatIds_counting (by decide) _
  have hwritten : ∀ e ∈ (Numbering.counting defaultNumbering (opened ws)).entries,
      e.written = Text.ofInt e.id := written_counting (by decide) _
  have hmem : ∀ e ∈ ourFormats defaultNumbering,
      e ∈ (Numbering.counting defaultNumbering (opened ws)).entries := fun e he => by
    rw [entries_counting]
    exact List.mem_append_left _ (List.mem_append_left _ (List.mem_append_right _ he))
  rw [numberingPart_of_opened hd hm]
  have hone : ∀ e ∈ ourFormats defaultNumbering, ∀ id, e.formatId? = some id →
      ((Numbering.counting defaultNumbering (opened ws)).entries.map NumberingEntry.node).filter
        (hasId "abstractNum" "abstractNumId" id) = [e.node] := fun e he id =>
    filter_node_eq_singleton (fun e he => hasId_format (hwritten e he) id) hnodup (hmem e he)
  exact ⟨⟨_, hone _ (.head _) _ rfl, isBullets_format _⟩,
    ⟨_, hone _ (.tail _ (.head _)) _ rfl, isDecimal_format _⟩⟩

/-- The number of an item's marker is the number of its list. -/
theorem defines_of_marks {bs : List Block}
    (hws : ∀ m ∈ ws, ∃ l, Marks 0 (nestedNodes [] 0 0 bs) m l) {l : ListNode}
    (hl : Marks 0 (nestedNodes [] 0 0 bs) m l) :
    Defines d.numberingPart (nextFormat defaultNumbering) (nextFormat defaultNumbering + 1) l
      m.start (numOf defaultNumbering (opened ws) m) := by
  have hnodup : (numIds (Numbering.counting defaultNumbering (opened ws)).entries).Nodup :=
    nodup_numIds_counting (by decide) _
  have hwritten : ∀ e ∈ (Numbering.counting defaultNumbering (opened ws)).entries,
      e.written = Text.ofInt e.id := written_counting (by decide) _
  have hnum := num_mem_newEntries defaultNumbering (nodup_opened ws) (mem_opened hws hm)
  have hmem := List.mem_append_right
    (front defaultNumbering ++ ourFormats defaultNumbering ++ back defaultNumbering) hnum
  rw [← entries_counting] at hmem
  rw [numberingPart_of_opened hd hm]
  refine ⟨_, filter_node_eq_singleton (fun e he => hasId_num (hwritten e he) _) hnodup hmem rfl, ?_⟩
  rw [← hl.ordered, ← writtenLevel_natCast, ← hl.level]
  cases m.ordered with
  | true => exact isNum_num _ _ (some ⟨writtenLevel m.level, m.start⟩)
  | false => exact isNum_num _ _ none

end Opened

/-! ### The items -/

/-- The paragraphs of a document that were written for list items. -/
def itemNodes (ps : List Formulary.Paragraph) (qs : List Paragraph) : List Xml.Node :=
  ((ps.zip qs).filter fun x => x.1.kind = .listItem).map fun x => x.2.node

/-- A paragraph was written at a place. -/
def WrittenAt (place : ListPlace) (n : Xml.Node) : Prop :=
  ∃ q : Paragraph, n = q.node ∧ q.props.place = some place

theorem forall₂_itemNodes {ps : List Formulary.Paragraph} {qs : List Paragraph} {n : Nat}
    {f : Marker → ListPlace}
    (hkind : ∀ p ∈ ps, (activeMarker p).isSome = decide (p.kind = .listItem))
    (h : qs.map (·.props.place) = (ps.take n).map fun p => (activeMarker p).map f) :
    List.Forall₂ (fun m => WrittenAt (f m)) ((ps.take n).filterMap activeMarker)
      (itemNodes ps qs) := by
  induction ps generalizing qs n with
  | nil =>
    rw [List.take_nil]
    exact .nil
  | cons p ps ih =>
    obtain ⟨hp, hrest⟩ := List.forall_mem_cons.mp hkind
    cases n with
    | zero =>
      obtain rfl := List.map_eq_nil_iff.mp h
      exact .nil
    | succ n =>
      cases qs with
      | nil => simp at h
      | cons q qs =>
        rw [List.take_succ_cons, List.map_cons, List.map_cons] at h
        obtain ⟨hq, hqs⟩ := List.cons.inj h
        have hlater := ih hrest hqs
        rw [itemNodes, List.zip_cons_cons, List.take_succ_cons]
        cases hm : activeMarker p with
        | none =>
          have hother : ¬ p.kind = .listItem := by simpa [hm] using hp
          rw [List.filterMap_cons_none hm, List.filter_cons_of_neg (by simpa using hother)]
          exact hlater
        | some m =>
          have hitem : p.kind = .listItem := by simpa [hm] using hp
          rw [List.filterMap_cons_some hm, List.filter_cons_of_pos (by simpa using hitem)]
          rw [hm] at hq
          exact .cons ⟨q, rfl, hq⟩ hlater

section Items

variable {bs : List Block} {ps : List Formulary.Paragraph} {fonts : FontChoice} {d : Draft}
  {e : Option Failure}

/-- **The items of a written document.** They are the first of all items, all of them if nothing
stops the writing, and stand where the lists place them that are open in the end. -/
theorem items_of_write
    (hitems : List.Forall₂ (Marks 0 (nestedNodes [] 0 0 bs)) (ps.filterMap activeMarker)
      (nestedItems [] 0 0 bs))
    (hkind : ∀ p ∈ ps, (activeMarker p).isSome = decide (p.kind = .listItem))
    (hwrite : Draft.empty.write fonts ps = (d, e)) :
    ∃ ws, ws <+: ps.filterMap activeMarker ∧ (e = none → ws = ps.filterMap activeMarker) ∧
      d.Opened ws ∧ FitsUpTo (numOf defaultNumbering (opened ws)) ws e ∧
      List.Forall₂ (fun m => WrittenAt (placeIn (opened ws) m)) ws (itemNodes ps d.paragraphs) := by
  have hempty : Draft.empty.Opened [] := rfl
  obtain ⟨n, -, hall, hopened, hplaces, hfits⟩ := write_opened hempty (level_fits hitems) hwrite
  exact ⟨_, (List.take_prefix n ps).filterMap activeMarker,
    fun he => by rw [hall he, List.take_length], hopened, hfits, forall₂_itemNodes hkind hplaces⟩

end Items

/-- What a document says about its list items, as far as they were written: the `k`-th item of
the document is an item of the `k`-th list of `nestedItems`, and has the `k`-th of `ids` as its
number. -/
structure Numbered (ps : List Formulary.Paragraph) (d : Draft) (e : Option Failure)
    (bs : List Block) (bullets decimal : Int) (ids : List Int) : Prop where
  written : ids.length ≤ (nestedItems [] 0 0 bs).length
  items : (itemNodes ps d.paragraphs).length = ids.length
  /-- The two formats are defined once. -/
  formats : ids ≠ [] →
    (∃ n, d.numberingPart.filter (hasId "abstractNum" "abstractNumId" bullets) = [n] ∧
      IsBullets bullets n) ∧
    ∃ n, d.numberingPart.filter (hasId "abstractNum" "abstractNumId" decimal) = [n] ∧
      IsDecimal decimal n
  /-- An item stands at the depth of its list, at most the ninth level, under its number; only
  the last may not, if it stopped the writing because Word has no such number. -/
  place : ∀ (k : Nat) (l : ListNode) (id : Int) (n : Xml.Node),
    (nestedItems [] 0 0 bs)[k]? = some l → ids[k]? = some id →
    (itemNodes ps d.paragraphs)[k]? = some n →
      StandsAt (min l.depth 8 : Nat) id n ∨ (k + 1 = ids.length ∧ e = some (.outOfRange id))
  /-- The number of an item is defined as its list and its marker demand. -/
  defined : ∀ (k : Nat) (l : ListNode) (m : Marker) (id : Int),
    (nestedItems [] 0 0 bs)[k]? = some l → (ps.filterMap activeMarker)[k]? = some m →
    ids[k]? = some id →
      listStart l.start = .ok m.start ∧ Defines d.numberingPart bullets decimal l m.start id
  same_iff : ∀ (j k : Nat) (l l' : ListNode) (id id' : Int),
    (nestedItems [] 0 0 bs)[j]? = some l → (nestedItems [] 0 0 bs)[k]? = some l' →
      ids[j]? = some id → ids[k]? = some id' → (id = id' ↔ l.sharesNum l')

theorem numOf_eq_iff (es : List NumberingEntry) {ms : List Marker} {m m' : Marker}
    (hm : m.ordered = true → m.list ∈ ms.map Marker.list) :
    numOf es ms m = numOf es ms m' ↔ (m.ordered = false ∧ m'.ordered = false) ∨
      (m.ordered = true ∧ m'.ordered = true ∧ m.list = m'.list) := by
  have hbullets : ∀ i, listNum es i ≠ nextNum es := fun i h => by
    simp only [listNum] at h
    omega
  cases hordered : m.ordered with
  | false =>
    cases hordered' : m'.ordered with
    | false => simp [numOf, hordered, hordered']
    | true => simpa [numOf, hordered, hordered'] using (hbullets _).symm
  | true =>
    cases hordered' : m'.ordered with
    | false => simpa [numOf, hordered, hordered'] using hbullets _
    | true => simpa using numOf_inj es hordered hordered' (hm hordered)

/-- A document is numbered as its lists demand, once the items written so far are the first
ones and stand where the open lists place them. -/
theorem numbered_of_opened {bs : List Block} {ps : List Formulary.Paragraph} {ws : List Marker}
    {d : Draft} {e : Option Failure}
    (hitems : List.Forall₂ (Marks 0 (nestedNodes [] 0 0 bs)) (ps.filterMap activeMarker)
      (nestedItems [] 0 0 bs))
    (hws : ws <+: ps.filterMap activeMarker) (hd : d.Opened ws)
    (hfits : FitsUpTo (numOf defaultNumbering (opened ws)) ws e)
    (hplaces : List.Forall₂ (fun m => WrittenAt (placeIn (opened ws) m)) ws
      (itemNodes ps d.paragraphs)) :
    Numbered ps d e bs (nextFormat defaultNumbering) (nextFormat defaultNumbering + 1)
      (ws.map (numOf defaultNumbering (opened ws))) := by
  obtain ⟨hlength, hmarks⟩ := List.forall₂_iff_get.mp hitems
  obtain ⟨hplaced, hat⟩ := List.forall₂_iff_get.mp hplaces
  have hmarked : ∀ m ∈ ws, ∃ l, Marks 0 (nestedNodes [] 0 0 bs) m l := fun m hm =>
    exists_marks hitems (hws.subset hm)
  -- the number of an item is the number of a marker that stands for its list
  have hmarker : ∀ k l id, (nestedItems [] 0 0 bs)[k]? = some l →
      (ws.map (numOf defaultNumbering (opened ws)))[k]? = some id →
      ∃ m, ws[k]? = some m ∧ (ps.filterMap activeMarker)[k]? = some m ∧ m ∈ ws ∧
        Marks 0 (nestedNodes [] 0 0 bs) m l ∧ id = numOf defaultNumbering (opened ws) m :=
    fun k l id hl hid => by
      rw [List.getElem?_map] at hid
      obtain ⟨m, hm, rfl⟩ := Option.map_eq_some_iff.mp hid
      obtain ⟨hk, rfl⟩ := List.getElem?_eq_some_iff.mp hm
      obtain ⟨hk', rfl⟩ := List.getElem?_eq_some_iff.mp hl
      have hm' := List.prefix_iff_getElem?.mp hws k hk
      obtain ⟨hk'', hget⟩ := List.getElem?_eq_some_iff.mp hm'
      have hmk := hmarks k hk'' hk'
      rw [List.get_eq_getElem, List.get_eq_getElem, hget] at hmk
      exact ⟨ws[k], hm, hm', List.getElem_mem hk, hmk, rfl⟩
  refine ⟨?_, by rw [← hplaced, List.length_map], fun hids => ?_, fun k l id n hl hid hn => ?_,
    fun k l m id hl hm hid => ?_, fun j k l l' id id' hl hl' hid hid' => ?_⟩
  · rw [List.length_map, ← hlength]
    exact hws.length_le
  · obtain ⟨m, hm⟩ := List.exists_mem_of_ne_nil ws fun h => hids (by rw [h, List.map_nil])
    exact formats_of_opened hd hm
  · obtain ⟨m, hm, -, -, hml, rfl⟩ := hmarker k l id hl hid
    rw [List.length_map]
    refine (hfits k m hm).imp_left fun hfit => ?_
    obtain ⟨hk, rfl⟩ := List.getElem?_eq_some_iff.mp hm
    obtain ⟨hk', rfl⟩ := List.getElem?_eq_some_iff.mp hn
    obtain ⟨q, hq, hplace⟩ := hat k hk hk'
    rw [List.get_eq_getElem] at hq hplace
    rw [hq, standsAt_node_iff hplace, placeIn]
    rw [if_pos hfit, hml.level, writtenLevel_natCast]
  · obtain ⟨m', -, hm', hmem, hml, rfl⟩ := hmarker k l id hl hid
    obtain rfl := Option.some.inj (hm.symm.trans hm')
    exact ⟨hml.start, defines_of_marks hd hmem hmarked hml⟩
  · obtain ⟨m, -, -, hmem, hml, rfl⟩ := hmarker j l id hl hid
    obtain ⟨m', -, -, hmem', hml', rfl⟩ := hmarker k l' id' hl' hid'
    rw [numOf_eq_iff _ (list_mem_opened hmem), (list_eq_iff hml hml').1, hml.ordered, hml'.ordered]
    rfl

/-- The paragraphs that are written are the first ones, and each has a place in a list exactly
if it is a list item. -/
theorem paragraphs_of_write {bs : List Block} {ps : List Formulary.Paragraph} {fonts : FontChoice}
    {d : Draft} {e : Option Failure}
    (hitems : List.Forall₂ (Marks 0 (nestedNodes [] 0 0 bs)) (ps.filterMap activeMarker)
      (nestedItems [] 0 0 bs))
    (hkind : ∀ p ∈ ps, (activeMarker p).isSome = decide (p.kind = .listItem))
    (hwrite : Draft.empty.write fonts ps = (d, e)) :
    d.paragraphs.map (·.props.place.isSome) <+: ps.map (fun p => decide (p.kind = .listItem)) ∧
      (e = none → d.paragraphs.length = ps.length) := by
  have hempty : Draft.empty.Opened [] := rfl
  obtain ⟨n, -, hall, -, hplaces, -⟩ := write_opened hempty (level_fits hitems) hwrite
  have hsome : d.paragraphs.map (·.props.place.isSome) =
      (ps.take n).map fun p => decide (p.kind = .listItem) := by
    calc d.paragraphs.map (·.props.place.isSome)
        = (d.paragraphs.map (·.props.place)).map Option.isSome := by
          rw [List.map_map]
          rfl
      _ = _ := by
          rw [hplaces]
          refine List.map_map.trans (List.map_congr_left fun p hp => ?_)
          rw [Function.comp_apply, Option.isSome_map]
          exact hkind p (List.mem_of_mem_take hp)
  refine ⟨hsome ▸ (List.take_prefix n ps).map _, fun he => ?_⟩
  have hlength := congrArg List.length hsome
  rw [hall he, List.take_length, List.length_map, List.length_map] at hlength
  exact hlength

/-- **Every list item gets the number of its list.** The paragraphs that are written are the
first ones, and each has a place in a list exactly if it is a list item. They are all there
if nothing has stopped the writing. -/
theorem write_listItems {cv : Converters} {ts : List Token} {bs : List Block}
    {ps : List Formulary.Paragraph} {fonts : FontChoice} {d : Draft} {e : Option Failure}
    (hblocks : cv.blocks (combine ts) = .ok bs) (hps : buildParagraphs cv ts = .ok ps)
    (hwrite : Draft.empty.write fonts ps = (d, e)) :
    d.paragraphs.map (·.props.place.isSome) <+: ps.map (fun p => decide (p.kind = .listItem)) ∧
      ∃ bullets decimal ids, Numbered ps d e bs bullets decimal ids ∧
        (e = none → d.paragraphs.length = ps.length ∧
          ids.length = (nestedItems [] 0 0 bs).length) := by
  obtain ⟨hitems, hkind⟩ := items_of_buildParagraphs hblocks hps
  obtain ⟨hplaced, hlength⟩ := paragraphs_of_write hitems hkind hwrite
  obtain ⟨ws, hfirst, hwhole, hopened, hfits, hnodes⟩ := items_of_write hitems hkind hwrite
  have hnumbered := numbered_of_opened hitems hfirst hopened hfits hnodes
  refine ⟨hplaced, _, _, _, hnumbered, fun he => ⟨hlength he, ?_⟩⟩
  rw [List.length_map, hwhole he, hitems.length_eq]

/-- A counted list that goes on after bullets with a counted list of their own, and, after other
blocks, a second counted list. -/
def resumedLists : List Block :=
  let item (s : String) (bs : List Block) : Block :=
    .item (.blockText ⟨[], s.toList, []⟩ :: bs)
  [.list (.flag true) (.number 3)
      [item "a" [.list (.flag false) .absent
          [item "b" [.list (.flag true) .absent [item "c" []]], item "d" []]],
        item "e" []],
    .paragraph ⟨[], "f".toList, []⟩, .code "g\n".toList,
    .list (.flag true) .absent [item "h" []], .list .absent .absent [item "i" []]]

theorem write_listItems_resumedLists :
    (nestedItems [] 0 0 resumedLists).map (fun l => (l.path, l.depth, l.ordered)) =
      [([0], 0, true), ([0, 0, 1], 1, false), ([0, 0, 1, 0, 1], 2, true), ([0, 0, 1], 1, false),
        ([0], 0, true), ([3], 0, true), ([4], 0, false)] ∧
    ∃ ps d bullets decimal ids, buildParagraphs (blocksOnly resumedLists) [] = .ok ps ∧
      Draft.empty.write ⟨[], []⟩ ps = (d, none) ∧
      Numbered ps d none resumedLists bullets decimal ids ∧ ids.length = 7 ∧
      (itemNodes ps d.paragraphs).map placeValues =
        [("0", "11"), ("1", "10"), ("2", "12"), ("1", "10"), ("0", "11"), ("0", "13"),
          ("0", "10")].map fun x => [([some x.1.toList], [some x.2.toList])] := by
  let places := [("0", "11"), ("1", "10"), ("2", "12"), ("1", "10"), ("0", "11"), ("0", "13"),
    ("0", "10")].map fun x => [([some x.1.toList], [some x.2.toList])]
  have hwrite : (buildParagraphs (blocksOnly resumedLists) []).map (fun ps =>
        ((Draft.empty.write ⟨[], []⟩ ps).2, decide
          ((itemNodes ps (Draft.empty.write ⟨[], []⟩ ps).1.paragraphs).map placeValues = places))) =
      .ok (none, true) := by decide +kernel
  obtain ⟨ps, hps, heq⟩ := map_eq_ok_iff.mp hwrite
  obtain ⟨he, hplaces⟩ := Prod.mk.inj heq
  obtain ⟨-, bullets, decimal, ids, hids, hall⟩ :=
    @write_listItems (blocksOnly resumedLists) [] resumedLists ps ⟨[], []⟩ _ _ rfl hps rfl
  rw [he] at hids
  exact ⟨by decide, ps, _, bullets, decimal, ids, hps, Prod.ext rfl he, hids, (hall he).2,
    of_decide_eq_true hplaces⟩

end Word
end Formulary
