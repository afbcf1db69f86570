/-
# Where the lists of a document start

A counted list says where it starts, and all its items and its numbering in the written
document agree on one number. It is the number that the list says, and one if it says
none (`listStart_number`). But zero counts as no number: a list that says zero starts at
one like a list that says nothing (`write_starts`).

Key definition: `StartsAt`.
Key theorems: `listStart_number`, `startsAt_of_written`, `write_starts`.
-/
import Formulary.Proofs.Document.Places
import Formulary.Proofs.Word.Listed

namespace Formulary

/-- A list starts at the number it says, unless that is zero. -/
theorem listStart_number (s : Int) : listStart (.number s) = .ok (if s = 0 then 1 else s) := by
  by_cases hs : s = 0
  · subst hs
    rfl
  · rw [listStart, Attribute.isSet, if_pos (by simpa using hs), if_neg hs]
    rfl

namespace Word

/-- A counted list of a document starts at `n`: its items do among the paragraphs, and, as far as
they were written, the one numbering that they have does so, at the level of the list. -/
structure StartsAt (bs : List Block) (ps : List Formulary.Paragraph) (d : Draft) (l : ListNode)
    (n : Int) : Prop where
  marker : ∀ k : Nat, (nestedItems [] 0 0 bs)[k]? = some l →
    ∃ m, (ps.filterMap activeMarker)[k]? = some m ∧ m.start = n
  override : ∀ (k : Nat) (p : Xml.Node) (level id : Int), (nestedItems [] 0 0 bs)[k]? = some l →
    (itemNodes ps d.paragraphs)[k]? = some p → StandsAt level id p →
      level = (min l.depth 8 : Nat) ∧ ∃ num format,
        d.numberingPart.filter (hasId "num" "numId" id) = [num] ∧
          IsNum id format [(level, n)] num

section Starts

variable {cv : Converters} {ts : List Token} {bs : List Block} {ps : List Formulary.Paragraph}
  {fonts : FontChoice} {d : Draft} {e : Option Failure}

theorem startsAt_of_written
    (hitems : List.Forall₂ (Marks 0 (nestedNodes [] 0 0 bs)) (ps.filterMap activeMarker)
      (nestedItems [] 0 0 bs))
    (hkind : ∀ p ∈ ps, (activeMarker p).isSome = decide (p.kind = .listItem))
    (hwrite : Draft.empty.write fonts ps = (d, e)) {l : ListNode} {n : Int}
    (hordered : l.ordered = true) (hstart : listStart l.start = .ok n) :
    StartsAt bs ps d l n := by
  obtain ⟨hlength, hmarks⟩ := List.forall₂_iff_get.mp hitems
  have hmark : ∀ (k : Nat) m, (nestedItems [] 0 0 bs)[k]? = some l →
      (ps.filterMap activeMarker)[k]? = some m → Marks 0 (nestedNodes [] 0 0 bs) m l := by
    intro k m hl hm
    obtain ⟨hk, rfl⟩ := List.getElem?_eq_some_iff.mp hm
    obtain ⟨hk', rfl⟩ := List.getElem?_eq_some_iff.mp hl
    exact hmarks k hk hk'
  have hsame : ∀ m, Marks 0 (nestedNodes [] 0 0 bs) m l → m.start = n := fun m hm =>
    Except.ok.inj (hm.start.symm.trans hstart)
  obtain ⟨ws, hfirst, -, hopened, -, hnodes⟩ := items_of_write hitems hkind hwrite
  obtain ⟨hplaced, hat⟩ := List.forall₂_iff_get.mp hnodes
  refine ⟨fun k hl => ?_, fun k p level id hl hp hstands => ?_⟩
  · have hk : k < (ps.filterMap activeMarker).length :=
      hlength ▸ (List.getElem?_eq_some_iff.mp hl).1
    exact ⟨_, List.getElem?_eq_getElem hk, hsame _ (hmark k _ hl (List.getElem?_eq_getElem hk))⟩
  · obtain ⟨hk, rfl⟩ := List.getElem?_eq_some_iff.mp hp
    have hk' : k < ws.length := hplaced ▸ hk
    have hmem : ws[k] ∈ ws := List.getElem_mem hk'
    have hml := hmark k ws[k] hl (List.prefix_iff_getElem?.mp hfirst k hk')
    have hws : ∀ m ∈ ws, ∃ l, Marks 0 (nestedNodes [] 0 0 bs) m l := fun m hm =>
      exists_marks hitems (hfirst.subset hm)
    obtain ⟨q, hq, hplace⟩ := hat k hk' hk
    rw [List.get_eq_getElem] at hq
    rw [hq, standsAt_node_iff hplace, List.get_eq_getElem, placeIn] at hstands
    obtain ⟨hlevel, hid⟩ : writtenLevel ws[k].level = level ∧
        numOf defaultNumbering (opened ws) ws[k] = id := by
      split at hstands
      · exact ListPlace.whole.inj hstands
      · exact absurd hstands (by simp)
    rw [hml.level, writtenLevel_natCast] at hlevel
    obtain ⟨num, hone, hnum⟩ := defines_of_marks hopened hmem hws hml
    rw [if_pos hordered, hsame _ hml, hid, hlevel] at hnum
    rw [hid] at hone
    exact ⟨hlevel.symm, num, _, hone, hnum⟩

/-- **Where a list starts.** Every counted list with an item starts, in its items and in the
written document, at the number that it says, and at one if it says nothing or zero. A
document that is written to its end has all its items in numberings. -/
theorem write_starts (hblocks : cv.blocks (combine ts) = .ok bs)
    (hps : buildParagraphs cv ts = .ok ps) (hwrite : Draft.empty.write fonts ps = (d, e)) :
    (e = none → (itemNodes ps d.paragraphs).length = (nestedItems [] 0 0 bs).length ∧
      ∀ p ∈ itemNodes ps d.paragraphs, ∃ level id, StandsAt level id p) ∧
    ∀ path depth ordered start cs ds,
      spotAt? 0 bs path = some (.block depth (.list ordered start cs)) →
      ordered.isSet = true → .item ds ∈ cs →
      ⟨path, depth, true, start⟩ ∈ nestedItems [] 0 0 bs ∧
      ∃ n, StartsAt bs ps d ⟨path, depth, true, start⟩ n ∧
        (∀ s, start = .number s → n = if s = 0 then 1 else s) ∧ (start = .absent → n = 1) := by
  obtain ⟨hitems, hkind⟩ := items_of_buildParagraphs hblocks hps
  refine ⟨fun he => ?_, fun path depth ordered start cs ds hlist hordered hds => ?_⟩
  · obtain ⟨ws, -, hwhole, -, hfits, hnodes⟩ := items_of_write hitems hkind hwrite
    obtain rfl := hwhole he
    obtain ⟨hplaced, hat⟩ := List.forall₂_iff_get.mp hnodes
    refine ⟨hplaced.symm.trans hitems.length_eq, fun p hp => ?_⟩
    obtain ⟨k, hk, rfl⟩ := List.mem_iff_getElem.mp hp
    have hk' := hplaced.symm ▸ hk
    obtain ⟨q, hq, hplace⟩ := hat k hk' hk
    rw [List.get_eq_getElem] at hq
    have hfit := (hfits k _ (List.getElem?_eq_getElem hk')).resolve_right (by simp [he])
    rw [List.get_eq_getElem, placeIn, if_pos hfit] at hplace
    rw [hq]
    exact ⟨_, _, (standsAt_node_iff hplace).mpr rfl⟩
  · have hmem : (⟨path, depth, true, start⟩ : ListNode) ∈ nestedItems [] 0 0 bs :=
      mem_nestedItems.mpr ⟨ordered, cs, ds, hlist, hordered.symm, hds⟩
    obtain ⟨k, hk, hget⟩ := List.mem_iff_getElem.mp hmem
    obtain ⟨hlength, hmarks⟩ := List.forall₂_iff_get.mp hitems
    have hmark := hmarks k (hlength ▸ hk) hk
    rw [List.get_eq_getElem, List.get_eq_getElem, hget] at hmark
    refine ⟨hmem, _, startsAt_of_written hitems hkind hwrite rfl hmark.start, ?_, ?_⟩
    · rintro s rfl
      exact Except.ok.inj (hmark.start.symm.trans (listStart_number s))
    · rintro rfl
      exact (Except.ok.inj hmark.start).symm

end Starts

/-- A counted list that starts at seven, with one in it that starts at zero, and a counted list
that says nothing. -/
def startedLists : List Block :=
  let item (s : String) (bs : List Block) : Block :=
    .item (.blockText ⟨[], s.toList, []⟩ :: bs)
  [.list (.flag true) (.number 7)
      [item "a" [.list (.flag true) (.number 0) [item "b" []]], item "c" []],
    .rule, .list (.flag true) .absent [item "d" []]]

/-- The number of a numbering, and where it takes up its count. -/
def overrideValues (n : Xml.Node) :
    Option Text × List (Option Text × List (Option Text)) :=
  (wordAttr? "numId" n,
    (wordParts "lvlOverride" n).map fun o => (wordAttr? "ilvl" o, wordValues "startOverride" o))

theorem write_starts_startedLists :
    ∃ ps d, buildParagraphs (blocksOnly startedLists) [] = .ok ps ∧
      Draft.empty.write ⟨[], []⟩ ps = (d, none) ∧
      (itemNodes ps d.paragraphs).map placeValues =
        [("0", "11"), ("1", "12"), ("0", "11"), ("0", "13")].map
          (fun x => [([some x.1.toList], [some x.2.toList])]) ∧
      (d.numberingPart.drop 21).map overrideValues =
        [("11", "0", "7"), ("12", "1", "1"), ("13", "0", "1")].map
          (fun x => (some x.1.toList, [(some x.2.1.toList, [some x.2.2.toList])])) ∧
      StartsAt startedLists ps d ⟨[0], 0, true, .number 7⟩ 7 ∧
      StartsAt startedLists ps d ⟨[0, 0, 1], 1, true, .number 0⟩ 1 ∧
      StartsAt startedLists ps d ⟨[2], 0, true, .absent⟩ 1 := by
  let places := [("0", "11"), ("1", "12"), ("0", "11"), ("0", "13")].map
    fun x => [([some x.1.toList], [some x.2.toList])]
  let overrides := [("11", "0", "7"), ("12", "1", "1"), ("13", "0", "1")].map
    fun x => (some x.1.toList, [(some x.2.1.toList, [some x.2.2.toList])])
  have hwrite : (buildParagraphs (blocksOnly startedLists) []).map (fun ps =>
        ((Draft.empty.write ⟨[], []⟩ ps).2,
          decide ((itemNodes ps (Draft.empty.write ⟨[], []⟩ ps).1.paragraphs).map placeValues =
            places),
          decide (((Draft.empty.write ⟨[], []⟩ ps).1.numberingPart.drop 21).map overrideValues =
            overrides))) =
      .ok (none, true, true) := by decide +kernel
  obtain ⟨ps, hps, heq⟩ := map_eq_ok_iff.mp hwrite
  obtain ⟨he, heq⟩ := Prod.mk.inj heq
  obtain ⟨hplaces, hoverrides⟩ := Prod.mk.inj heq
  obtain ⟨-, hlists⟩ := @write_starts (blocksOnly startedLists) [] startedLists ps ⟨[], []⟩ _ _
    rfl hps rfl
  obtain ⟨-, n, hn, hseven, -⟩ := hlists [0] 0 (.flag true) (.number 7) _ _ rfl rfl (.head _)
  obtain ⟨-, k, hk, hzero, -⟩ := hlists [0, 0, 1] 1 (.flag true) (.number 0) _ _ rfl rfl (.head _)
  obtain ⟨-, j, hj, -, hnothing⟩ := hlists [2] 0 (.flag true) .absent _ _ rfl rfl (.head _)
  obtain rfl : n = 7 := hseven 7 rfl
  obtain rfl : k = 1 := hzero 0 rfl
  obtain rfl : j = 1 := hnothing rfl
  exact ⟨ps, _, hps, Prod.ext rfl he, of_decide_eq_true hplaces, of_decide_eq_true hoverrides,
    hn, hk, hj⟩

end Word
end Formulary
