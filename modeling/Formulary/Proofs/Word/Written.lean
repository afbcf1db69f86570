/-
# What a written document says of its lists

The lists of a document are known from its elements: an item names its level and its numbering,
a numbering its format and where it takes up its count, and a format says what stands in
front of the items of each level. The readers here know the names of WordprocessingML and
nothing of how a document is written; what is written reads as it is meant.

Key definitions: `wordAttr?`, `wordParts`, `wordValues`, `leadingProps`, `IsNum`, `IsFormat`,
`IsBullets`, `IsDecimal`, `hasId`, `StandsAt`.
Key theorems: `isNum_num`, `isBullets_format`, `isDecimal_format`, `standsAt_node_iff`.
-/
import Formulary.Proofs.Text.Decimal
import Formulary.Word.Numbering

namespace Formulary
namespace Word

/-! ### Readers -/

/-- The value of an attribute with a name of WordprocessingML. -/
def wordAttr? (loc : String) : Xml.Node → Option Text
  | .element t _ => (t.attrs.find? fun a => a.name.is Omml.wordUri loc).map (·.value)
  | _ => none

/-- The parts of an element that have a name of WordprocessingML. -/
def wordParts (loc : String) : Xml.Node → List Xml.Node
  | .element _ ns => ns.filter fun n => n.isElement Omml.wordUri loc
  | _ => []

/-- The values that the parts with a name hold. -/
def wordValues (loc : String) (n : Xml.Node) : List (Option Text) :=
  (wordParts loc n).map (wordAttr? "val")

/-- The properties with a name, which stand in front of everything else. -/
def leadingProps (loc : String) : Xml.Node → List Xml.Node
  | .element _ (.element t ns :: _) => if t.name.is Omml.wordUri loc then ns else []
  | _ => []

/-- A node is the numbering `id`. It uses one format, and takes up its count at the given
levels and numbers. -/
structure IsNum (id format : Int) (starts : List (Int × Int)) (n : Xml.Node) : Prop where
  num : n.isElement Omml.wordUri "num" = true
  id : wordAttr? "numId" n = some (Text.ofInt id)
  format : wordValues "abstractNumId" n = [some (Text.ofInt format)]
  level : (wordParts "lvlOverride" n).map (wordAttr? "ilvl") =
    starts.map fun s => some (Text.ofInt s.1)
  start : (wordParts "lvlOverride" n).map (wordValues "startOverride") =
    starts.map fun s => [some (Text.ofInt s.2)]

/-- A node is the format `id`. Its levels, from zero on, start at one, and have these texts in
front of their items. -/
structure IsFormat (id : Int) (kind : String) (texts : List String) (n : Xml.Node) : Prop where
  format : n.isElement Omml.wordUri "abstractNum" = true
  id : wordAttr? "abstractNumId" n = some (Text.ofInt id)
  level : (wordParts "lvl" n).map (wordAttr? "ilvl") =
    (List.range texts.length).map fun i => some (Text.ofNat i)
  start : (wordParts "lvl" n).map (wordValues "start") = texts.map fun _ => [some ['1']]
  kind : (wordParts "lvl" n).map (wordValues "numFmt") = texts.map fun _ => [some kind.toList]
  text : (wordParts "lvl" n).map (wordValues "lvlText") = texts.map fun s => [some s.toList]

/-- A node is the format `id`, of bullets that take turns. -/
def IsBullets (id : Int) (n : Xml.Node) : Prop :=
  IsFormat id "bullet" ["•", "◦", "▪", "•", "◦", "▪", "•", "◦", "▪"] n

/-- A node is the format `id`, of decimal numbers with a full stop. -/
def IsDecimal (id : Int) (n : Xml.Node) : Prop :=
  IsFormat id "decimal" ["%1.", "%2.", "%3.", "%4.", "%5.", "%6.", "%7.", "%8.", "%9."] n

/-- A node is the numbering or the format with a number. -/
def hasId (loc idLoc : String) (id : Int) (n : Xml.Node) : Bool :=
  n.isElement Omml.wordUri loc && wordAttr? idLoc n == some (Text.ofInt id)

/-- What a paragraph says of its place in a list: the levels and the numberings that it names. -/
def placeValues (n : Xml.Node) : List (List (Option Text) × List (Option Text)) :=
  ((leadingProps "pPr" n).filter fun p => p.isElement Omml.wordUri "numPr").map fun p =>
    (wordValues "ilvl" p, wordValues "numId" p)

/-- A paragraph is an item of the list with this numbering, at this level. -/
def StandsAt (level num : Int) (n : Xml.Node) : Prop :=
  placeValues n = [([some (Text.ofInt level)], [some (Text.ofInt num)])]

/-! ### Elements that are written -/

/-- A name of WordprocessingML is told by its local part. -/
theorem name_is (loc loc' : String) :
    (name loc).is Omml.wordUri loc' = (loc.toList == loc'.toList) := by
  show (Omml.wordUri == Omml.wordUri && loc.toList == loc'.toList) = _
  rw [beq_self_eq_true, Bool.true_and]

theorem isElement_element (loc loc' : String) (attrs : List Xml.Attr) (ns : List Xml.Node) :
    (element loc attrs ns).isElement Omml.wordUri loc' = (loc.toList == loc'.toList) :=
  name_is loc loc'

theorem isElement_self (loc : String) (attrs : List Xml.Attr) (ns : List Xml.Node) :
    (element loc attrs ns).isElement Omml.wordUri loc = true := by
  rw [isElement_element, beq_self_eq_true]

/-- The first attribute is found by its name. -/
theorem wordAttr?_element (loc attrLoc : String) (value : Text) (attrs : List Xml.Attr)
    (ns : List Xml.Node) :
    wordAttr? attrLoc (element loc (attr attrLoc value :: attrs) ns) = some value := by
  rw [element, wordAttr?, attr, List.find?_cons_of_pos (by rw [name_is, beq_self_eq_true])]
  rfl

theorem wordAttr?_valued (loc : String) (value : Text) :
    wordAttr? "val" (valued loc value) = some value := wordAttr?_element ..

theorem wordValues_of_parts {loc loc' : String} {value : Text} {n : Xml.Node}
    (h : wordParts loc n = [valued loc' value]) : wordValues loc n = [some value] := by
  rw [wordValues, h, List.map_singleton, wordAttr?_valued]

/-! ### Entries of the numbering part -/

theorem isElement_entry (e : NumberingEntry) :
    e.node.isElement Omml.wordUri "num" = e.isNum := by
  rw [NumberingEntry.node, isElement_element]
  cases e.isNum <;> rfl

/-- Numbers are told apart by what is written. -/
theorem some_ofInt_beq (m n : Int) :
    (some (Text.ofInt m) == some (Text.ofInt n)) = decide (some m = some n) := by
  rw [Bool.eq_iff_iff, beq_iff_eq, decide_eq_true_eq, Option.some_inj, Option.some_inj,
    Text.ofInt_injective.eq_iff]

/-- A numbering is found by its number, if that is written as usual. -/
theorem hasId_num {e : NumberingEntry} (he : e.written = Text.ofInt e.id) (id : Int) :
    hasId "num" "numId" id e.node = decide (e.numId? = some id) := by
  rw [hasId, isElement_entry, NumberingEntry.numId?, NumberingEntry.node, he]
  cases e.isNum with
  | false => simp
  | true =>
    rw [if_pos rfl, if_pos rfl, wordAttr?_element, Bool.true_and, if_pos rfl, some_ofInt_beq]

/-- A format is found by its number, if that is written as usual. -/
theorem hasId_format {e : NumberingEntry} (he : e.written = Text.ofInt e.id) (id : Int) :
    hasId "abstractNum" "abstractNumId" id e.node = decide (e.formatId? = some id) := by
  rw [hasId, NumberingEntry.formatId?, NumberingEntry.node, he, isElement_element]
  cases e.isNum with
  | true => simp
  | false =>
    simp only [Bool.false_eq_true, if_false, wordAttr?_element, beq_self_eq_true, Bool.true_and,
      some_ofInt_beq]

/-- A numbering that is written uses its format and takes up its count where it is told to. -/
theorem isNum_num (id format : Int) (override : Option StartOverride) :
    IsNum id format (override.toList.map fun o => (o.level, o.start))
      (NumberingEntry.num id (some format) override).node := by
  have hid : wordAttr? "numId" (NumberingEntry.num id (some format) override).node =
      some (Text.ofInt id) := wordAttr?_element ..
  cases override with
  | none => exact ⟨isElement_self .., hid, wordValues_of_parts rfl, rfl, rfl⟩
  | some o =>
    have hlevel : wordAttr? "ilvl" o.node = some (Text.ofInt o.level) := wordAttr?_element ..
    have hstart : wordValues "startOverride" o.node = [some (Text.ofInt o.start)] :=
      wordValues_of_parts rfl
    exact ⟨isElement_self .., hid, wordValues_of_parts rfl, congrArg (fun x => [x]) hlevel,
      congrArg (fun x => [x]) hstart⟩

theorem wordParts_format (id : Int) (f : ListFormat) :
    wordParts "lvl" (NumberingEntry.format id (some f)).node =
      (List.range maxLevels).map (levelNode f) := rfl

/-- A format that is written describes its levels. -/
theorem isFormat_format (id : Int) (f : ListFormat) {kind : String} {texts : List String}
    (hkind : f.name = kind.toList)
    (htexts : (List.range maxLevels).map (levelText f) = texts.map String.toList) :
    IsFormat id kind texts (NumberingEntry.format id (some f)).node := by
  have hid : wordAttr? "abstractNumId" (NumberingEntry.format id (some f)).node =
      some (Text.ofInt id) := wordAttr?_element ..
  have hlength : texts.length = maxLevels := by
    simpa using (congrArg List.length htexts).symm
  have hconst : ∀ x : List (Option Text),
      (List.range maxLevels).map (fun _ => x) = texts.map fun _ => x := fun x => by
    rw [List.map_const', List.map_const', List.length_range, hlength]
  refine ⟨isElement_self .., hid, ?_, ?_, ?_, ?_⟩ <;> rw [wordParts_format, List.map_map]
  · rw [hlength]
    exact List.map_congr_left fun i _ => wordAttr?_element ..
  · rw [← hconst]
    exact List.map_congr_left fun i _ => wordValues_of_parts rfl
  · rw [← hconst, ← hkind]
    exact List.map_congr_left fun i _ => wordValues_of_parts rfl
  · calc _ = ((List.range maxLevels).map (levelText f)).map fun s => [some s] := by
          rw [List.map_map]
          exact List.map_congr_left fun i _ => wordValues_of_parts rfl
      _ = _ := by
          rw [htexts, List.map_map]
          rfl

theorem isBullets_format (id : Int) :
    IsBullets id (NumberingEntry.format id (some .bullets)).node :=
  isFormat_format id .bullets rfl (by decide)

theorem isDecimal_format (id : Int) :
    IsDecimal id (NumberingEntry.format id (some .decimal)).node :=
  isFormat_format id .decimal rfl (by decide)

/-! ### Paragraphs -/

theorem isElement_place (place : ListPlace) : place.node.isElement Omml.wordUri "numPr" = true := by
  cases place <;> exact isElement_self ..

/-- The place of a paragraph is its only entry of this kind. -/
theorem filter_place {p : ParagraphProps} {place : ListPlace} (h : p.place = some place) :
    p.nodes.filter (fun n => n.isElement Omml.wordUri "numPr") = [place.node] := by
  obtain ⟨style, _, ruled, centered⟩ := p
  obtain rfl := h
  have hplace := isElement_place place
  cases style <;> cases ruled <;> cases centered <;>
    simp [ParagraphProps.nodes, hplace, valued, borderNode, isElement_element]

theorem leadingProps_node {q : Paragraph} (h : q.props.nodes ≠ []) :
    leadingProps "pPr" q.node = q.props.nodes := by
  rw [Paragraph.node, propsNode, if_neg (by simpa using h), element, List.singleton_append,
    element, leadingProps, if_pos (by rw [name_is, beq_self_eq_true])]

/-- An item stands at the place it was given, and nowhere if a part of it is missing. -/
theorem standsAt_node_iff {q : Paragraph} {place : ListPlace} (h : q.props.place = some place)
    {level num : Int} : StandsAt level num q.node ↔ place = .whole level num := by
  have hfilter := filter_place h
  have hprops : leadingProps "pPr" q.node = q.props.nodes := leadingProps_node fun hnil => by
    simp [hnil] at hfilter
  have hsome : ∀ m n : Int, [some (Text.ofInt m)] = [some (Text.ofInt n)] ↔ m = n := fun m n => by
    rw [List.singleton_inj, Option.some_inj, Text.ofInt_injective.eq_iff]
  rw [StandsAt, placeValues, hprops, hfilter, List.map_singleton, List.singleton_inj,
    Prod.mk.injEq]
  cases place with
  | whole l n =>
    have hlevel : wordValues "ilvl" (ListPlace.whole l n).node = [some (Text.ofInt l)] :=
      wordValues_of_parts rfl
    have hnum : wordValues "numId" (ListPlace.whole l n).node = [some (Text.ofInt n)] :=
      wordValues_of_parts rfl
    rw [hlevel, hnum, hsome, hsome, ListPlace.whole.injEq]
  | noLevel =>
    have hnone : wordValues "ilvl" ListPlace.noLevel.node = [none] := rfl
    simp [hnone]
  | noNum l =>
    have hnone : wordValues "numId" (ListPlace.noNum l).node = [none] := rfl
    simp [hnone]

end Word
end Formulary
