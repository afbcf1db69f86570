/-
# Where the header points

The positions in the header are those of the document and of the fragment
between the two marks. If the text holds no mark of its own, each mark stands
in the document once, and without them the document is the text as it was,
or the text in a new body (`payload_locates`), as it has a body or not
(`isSome_bodyRange?_iff`). Only the order of the two places where the body
starts and ends counts for that, so it holds as well where lower-casing has
moved them.

Key definitions: `Clipboard.withMarks`, `Clipboard.unmarked`, `Clipboard.headerOf`,
`Clipboard.Locates`.
Key theorems: `Clipboard.wrap_of_bodyRange?_eq_some`, `Clipboard.payload_eq`,
`Clipboard.stretch?_fragment`, `Clipboard.isSome_bodyRange?_iff`,
`Clipboard.locates_of_wrap_eq`, `Clipboard.payload_locates`.
-/
import Formulary.Proofs.Clipboard.Header

namespace Formulary
namespace Clipboard

/-! ### A document and its marks -/

/-- A document in three parts with the marks of the fragment between them. -/
def withMarks (before inside after : Text) : Text :=
  before ++ (startMark ++ (inside ++ (endMark ++ after)))

theorem wrap_of_bodyRange?_eq_some {s : Text} {a b : Nat} (h : bodyRange? s = some (a, b)) :
    wrap s = withMarks (s.take a) ((s.take b).drop a) (s.drop b) := by
  simp [wrap, h, withMarks]

theorem wrap_of_bodyRange?_eq_none {s : Text} (h : bodyRange? s = none) :
    wrap s = withMarks "<html><body>".toList s "</body></html>".toList := by
  simp only [wrap, h, withMarks, List.append_assoc]

theorem le_of_bodyRange? {s : Text} {a b : Nat} (h : bodyRange? s = some (a, b)) : a ≤ b := by
  unfold bodyRange? at h
  split at h
  · split at h
    · obtain ⟨rfl, rfl⟩ := Prod.mk.inj (Option.some.inj h)
      assumption
    · simp at h
  · simp at h

/-- Two cuts in order part a text in three. -/
theorem take_append_drop_take {a b : Nat} (h : a ≤ b) (s : Text) :
    s.take a ++ ((s.take b).drop a ++ s.drop b) = s := by
  have htake : s.take a = (s.take b).take a := by rw [List.take_take, Nat.min_eq_left h]
  rw [htake, ← List.append_assoc, List.take_append_drop, List.take_append_drop]

theorem startMark_infix_iff {x s : Text} :
    startMark <:+: x ++ (endMark ++ s) ↔ startMark <:+: x ∨ startMark <:+: s :=
  Text.infix_append_head_iff (by decide) (by decide) (by decide) (by decide)

theorem endMark_infix_iff {x s : Text} :
    endMark <:+: x ++ (startMark ++ s) ↔ endMark <:+: x ∨ endMark <:+: s :=
  Text.infix_append_head_iff (by decide) (by decide) (by decide) (by decide)

section Marks

variable {x y z : Text}

/-- The first start mark is the one put in, if there is none before it. -/
theorem cut?_startMark (hx : ¬ startMark <:+: x) :
    Text.cut? startMark (withMarks x y z) = some (x, y ++ (endMark ++ z)) :=
  Text.cut?_eq_some_iff.mpr ⟨rfl, Text.skips_of_unbordered (by decide) hx _⟩

/-- The first end mark is the one put in, if there is none before it. -/
theorem cut?_endMark (hx : ¬ endMark <:+: x) (hy : ¬ endMark <:+: y) :
    Text.cut? endMark (withMarks x y z) = some (x ++ (startMark ++ y), z) := by
  refine Text.cut?_eq_some_iff.mpr ⟨by simp [withMarks], ?_⟩
  refine Text.skips_of_unbordered (by decide) (fun h => ?_) z
  exact (endMark_infix_iff.mp h).elim hx hy

theorem existsUnique_startMark (hx : ¬ startMark <:+: x) (hy : ¬ startMark <:+: y)
    (hz : ¬ startMark <:+: z) :
    ∃! p : Text × Text, withMarks x y z = p.1 ++ (startMark ++ p.2) := by
  refine Text.existsUnique_append_of_absent (by decide) hx fun h => ?_
  exact (startMark_infix_iff.mp h).elim hy hz

theorem existsUnique_endMark (hx : ¬ endMark <:+: x) (hy : ¬ endMark <:+: y)
    (hz : ¬ endMark <:+: z) :
    ∃! p : Text × Text, withMarks x y z = p.1 ++ (endMark ++ p.2) := by
  have hparts : withMarks x y z = (x ++ (startMark ++ y)) ++ (endMark ++ z) := by simp [withMarks]
  rw [hparts]
  refine Text.existsUnique_append_of_absent (by decide) (fun h => ?_) hz
  exact (endMark_infix_iff.mp h).elim hx hy

/-- The document with its marks taken out. -/
def unmarked (doc : Text) : Text := Text.replaceAll startMark [] (Text.replaceAll endMark [] doc)

/-- Taking out the marks leaves what was there before, if that has none. -/
theorem unmarked_withMarks (hstart : ¬ startMark <:+: x ++ (y ++ z))
    (hend : ¬ endMark <:+: x ++ (y ++ z)) : unmarked (withMarks x y z) = x ++ (y ++ z) := by
  have hinner : Text.replaceAll endMark [] (withMarks x y z) = x ++ (startMark ++ (y ++ z)) := by
    have hx : ¬ endMark <:+: x ++ (startMark ++ y) := fun h => by
      rcases endMark_infix_iff.mp h with h | h
      · exact hend (h.trans (List.prefix_append _ _).isInfix)
      · exact hend (h.trans ⟨x, z, by simp⟩)
    have hz : ¬ endMark <:+: z := fun h => hend (h.trans ⟨x ++ y, [], by simp⟩)
    have hparts : withMarks x y z = (x ++ (startMark ++ y)) ++ (endMark ++ z) := by
      simp [withMarks]
    rw [hparts, Text.replaceAll_append (by decide) (Text.skips_of_unbordered (by decide) hx z),
      Text.replaceAll_self_append (by decide), Text.replaceAll_of_absent hz]
    simp
  have hx : ¬ startMark <:+: x := fun h => hstart (h.trans (List.prefix_append _ _).isInfix)
  have hyz : ¬ startMark <:+: y ++ z := fun h => hstart (h.trans (List.suffix_append _ _).isInfix)
  rw [unmarked, hinner,
    Text.replaceAll_append (by decide) (Text.skips_of_unbordered (by decide) hx _),
    Text.replaceAll_self_append (by decide), Text.replaceAll_of_absent hyz]
  rfl

end Marks

/-! ### The positions -/

theorem byteIndex_of_cut? {mark s a b : Text} (h : Text.cut? mark s = some (a, b)) :
    byteIndex mark s = Text.byteLength a := by
  rw [byteIndex, h]

theorem headerLength_add_le (html : Text) :
    headerLength + Text.byteLength (wrap html) ≤ Text.byteLength (payload html) := by
  rw [payload, Text.byteLength_append]
  exact Nat.add_le_add_right (headerLength_le _ _ _ _) _

section Payload

variable {html x y z : Text}

/-- The header of a document in which the marks stand around `inside`. -/
def headerOf (doc before inside : Text) : Text :=
  header headerLength (headerLength + Text.byteLength doc)
    (headerLength + Text.byteLength (before ++ startMark))
    (headerLength + Text.byteLength (before ++ (startMark ++ inside)))

/-- The header takes up the bytes that it counts for itself. -/
theorem byteLength_headerOf (hwrap : wrap html = withMarks x y z)
    (hsize : Text.byteLength (payload html) < 1000000000) :
    Text.byteLength (headerOf (wrap html) x y) = headerLength := by
  have htotal := headerLength_add_le html
  have hinside : Text.byteLength (x ++ (startMark ++ y)) ≤ Text.byteLength (wrap html) := by
    simp only [hwrap, withMarks, Text.byteLength_append]
    omega
  have hbefore : Text.byteLength (x ++ startMark) ≤ Text.byteLength (x ++ (startMark ++ y)) := by
    simp only [Text.byteLength_append]
    omega
  apply byteLength_header <;> omega

variable (hstart : Text.cut? startMark (wrap html) = some (x, y ++ (endMark ++ z)))
variable (hend : Text.cut? endMark (wrap html) = some (x ++ (startMark ++ y), z))
include hstart hend

/-- A payload is the document, behind a header made for the places of its marks. -/
theorem payload_eq : payload html = headerOf (wrap html) x y ++ wrap html := by
  rw [payload, headerOf, byteIndex_of_cut? hstart, byteIndex_of_cut? hend,
    Text.byteLength_append x startMark, Nat.add_assoc]

theorem fields_payload : fields (Text.utf8 (payload html)) =
    [("StartHTML".toList, headerLength),
      ("EndHTML".toList, headerLength + Text.byteLength (wrap html)),
      ("StartFragment".toList, headerLength + Text.byteLength (x ++ startMark)),
      ("EndFragment".toList, headerLength + Text.byteLength (x ++ (startMark ++ y)))] := by
  rw [payload_eq hstart hend]
  exact fields_utf8_header _ _ _ _ _

variable (hwrap : wrap html = withMarks x y z)
variable (hsize : Text.byteLength (payload html) < 1000000000)
include hwrap hsize

/-- The bytes up to a place in the document, and those after it. -/
theorem take_drop_payload {u v : Text} (huv : wrap html = u ++ v) :
    ∃ h, Text.byteLength h = headerLength ∧
      (Text.utf8 (payload html)).take (headerLength + Text.byteLength u) = Text.utf8 (h ++ u) ∧
      (Text.utf8 (payload html)).drop (headerLength + Text.byteLength u) = Text.utf8 v := by
  obtain ⟨h, hpayload, hlength⟩ :
      ∃ h, payload html = h ++ wrap html ∧ Text.byteLength h = headerLength :=
    ⟨_, payload_eq hstart hend, byteLength_headerOf hwrap hsize⟩
  have hparts : payload html = (h ++ u) ++ v := by rw [hpayload, huv, List.append_assoc]
  have hu : headerLength + Text.byteLength u = Text.byteLength (h ++ u) := by
    rw [Text.byteLength_append, hlength]
  refine ⟨h, hlength, ?_⟩
  rw [hu, hparts]
  exact ⟨Text.take_utf8_append _ _, Text.drop_utf8_append _ _⟩

/-- The bytes between two places in the document. -/
theorem drop_take_payload {u v w : Text} (huvw : wrap html = u ++ (v ++ w)) :
    ((Text.utf8 (payload html)).take (headerLength + Text.byteLength (u ++ v))).drop
      (headerLength + Text.byteLength u) = Text.utf8 v := by
  obtain ⟨h, hlength, htake, -⟩ :=
    take_drop_payload hstart hend hwrap hsize (u := u ++ v) (v := w) (by simp [huvw])
  have hu : headerLength + Text.byteLength u = Text.byteLength (h ++ u) := by
    rw [Text.byteLength_append, hlength]
  rw [htake, hu, ← List.append_assoc]
  exact Text.drop_utf8_append _ _

/-- The fragment that the header points at stands between the first marks. -/
theorem stretch?_fragment :
    stretch? "StartFragment" "EndFragment" (Text.utf8 (payload html)) = some (Text.utf8 y) := by
  have hy := drop_take_payload hstart hend hwrap hsize (u := x ++ startMark) (v := y)
    (w := endMark ++ z) (by simp [hwrap, withMarks])
  rw [List.append_assoc] at hy
  rw [stretch?, position?, position?, fields_payload hstart hend]
  exact congrArg some hy

theorem stretch?_document :
    stretch? "StartHTML" "EndHTML" (Text.utf8 (payload html)) = some (Text.utf8 (wrap html)) := by
  have hdoc := drop_take_payload hstart hend hwrap hsize (u := []) (v := wrap html) (w := [])
    (by simp)
  rw [stretch?, position?, position?, fields_payload hstart hend]
  exact congrArg some hdoc

end Payload

/-! ### Which texts have a body -/

/-- The end of the first tag of a body is no later than that of any other. -/
theorem exists_bodyStart? {s before tag rest : Text}
    (h : s = before ++ ("<body".toList ++ (tag ++ '>' :: rest))) :
    ∃ a, bodyStart? s = some a ∧
      a ≤ (before ++ ("<body".toList ++ (tag ++ ['>']))).length := by
  have hlen : "<body".length = 5 ∧ "<body".toList.length = 5 := by decide
  obtain ⟨before', r, hopen⟩ : ∃ a b, Text.cut? "<body".toList s = some (a, b) :=
    Text.exists_cut? ⟨before, _, by rw [h, List.append_assoc]⟩
  have hfirst := Text.length_le_of_cut? hopen h
  have hsplit := Text.eq_of_cut? hopen
  -- what follows the first tag has the end of the given tag in it
  have hwhole : s = before ++ ("<body".toList ++ tag) ++ '>' :: rest := by
    rw [h]
    simp
  obtain ⟨between, hbetween⟩ : before' ++ "<body".toList <+: before ++ ("<body".toList ++ tag) := by
    refine List.prefix_of_prefix_length_le ⟨r, hsplit.symm⟩ ⟨_, hwhole.symm⟩ ?_
    simp only [List.length_append]
    omega
  have hr : r = between ++ (['>'] ++ rest) := by
    rw [← hbetween, hsplit, List.append_assoc _ between, List.append_cancel_left_eq] at hwhole
    exact hwhole
  obtain ⟨tag', rest', htag⟩ : ∃ a b, Text.cut? ['>'] r = some (a, b) :=
    Text.exists_cut? ⟨between, _, by rw [hr, List.append_assoc]⟩
  have hend := Text.length_le_of_cut? htag hr
  have hlengths := congrArg List.length hbetween
  refine ⟨before'.length + "<body".length + tag'.length + 1, ?_, ?_⟩
  · rw [bodyStart?, hopen]
    simp only [htag, Option.map_some]
  · simp only [List.length_append, List.length_singleton, hlen] at hlengths ⊢
    omega

theorem eq_of_bodyStart? {s : Text} {a : Nat} (h : bodyStart? s = some a) :
    ∃ before tag rest, s = before ++ ("<body".toList ++ (tag ++ '>' :: rest)) ∧
      a = (before ++ ("<body".toList ++ (tag ++ ['>']))).length := by
  have hlen : "<body".length = 5 ∧ "<body".toList.length = 5 := by decide
  unfold bodyStart? at h
  split at h
  · simp at h
  · rename_i before r hopen
    obtain ⟨⟨tag, rest⟩, htag, rfl⟩ := Option.map_eq_some_iff.mp h
    refine ⟨before, tag, rest, ?_, ?_⟩
    · rw [Text.eq_of_cut? hopen, Text.eq_of_cut? htag]
      simp
    · simp only [List.length_append, List.length_singleton, hlen]
      omega

/-- **Which texts have a body**: those that hold, in lower case, the start of a body's tag, the
end of a tag after it, and after this the end tag of a body. -/
theorem isSome_bodyRange?_iff (html : Text) : (bodyRange? html).isSome ↔
    ∃ before tag inside after, lower html = before ++ ("<body".toList ++ (tag ++
      '>' :: (inside ++ ("</body>".toList ++ after)))) := by
  constructor
  · intro h
    obtain ⟨⟨a, b⟩, hrange⟩ := Option.isSome_iff_exists.mp h
    unfold bodyRange? at hrange
    split at hrange
    · rename_i a' b' hstart hend
      obtain ⟨before, tag, rest, hopen, rfl⟩ := eq_of_bodyStart? hstart
      obtain ⟨⟨front, after⟩, hlast, rfl⟩ := Option.map_eq_some_iff.mp hend
      have hclose := Text.eq_of_cutLast? hlast
      split at hrange
      · rename_i hle
        have hwhole : before ++ ("<body".toList ++ (tag ++ ['>'])) ++ rest = lower html := by
          rw [hopen]
          simp
        obtain ⟨inside, rfl⟩ : before ++ ("<body".toList ++ (tag ++ ['>'])) <+: front :=
          List.prefix_of_prefix_length_le ⟨rest, hwhole⟩ ⟨_, hclose.symm⟩ hle
        exact ⟨before, tag, inside, after, by simp [hclose]⟩
      · simp at hrange
    · simp at hrange
  · rintro ⟨before, tag, inside, after, hlower⟩
    obtain ⟨a, hstart, ha⟩ := exists_bodyStart? hlower
    have hlast : lower html = (before ++ ("<body".toList ++ (tag ++ ['>']))) ++ inside ++
        ("</body>".toList ++ after) := by
      rw [hlower]
      simp
    obtain ⟨front, after', hclose⟩ :
        ∃ a b, Text.cutLast? "</body>".toList (lower html) = some (a, b) :=
      Text.exists_cutLast? ⟨_, after, by rw [hlast, List.append_assoc _ _ after]⟩
    have hle := Text.length_le_of_cutLast? hclose hlast
    rw [List.length_append] at hle
    rw [bodyRange?, hstart, bodyEnd?, hclose, Option.map_some]
    simp only
    rw [if_pos (by omega)]
    rfl

/-! ### Every payload -/

/-- `bytes` are a document `doc` behind a header, whose numbers say where the
document and the fragment in it start and end. -/
structure Locates (bytes : List UInt8) (doc : Text)
    (startHtml endHtml startFragment endFragment : Nat) : Prop where
  /-- These are the numbers that the header gives. -/
  fields_eq : fields bytes = [("StartHTML".toList, startHtml), ("EndHTML".toList, endHtml),
    ("StartFragment".toList, startFragment), ("EndFragment".toList, endFragment)]
  /-- The document starts where the header ends. -/
  header_eq : bytes.take startHtml =
    Text.utf8 (header startHtml endHtml startFragment endFragment)
  startHtml_eq :
    startHtml = Text.byteLength (header startHtml endHtml startFragment endFragment)
  /-- It ends where the bytes end. -/
  endHtml_eq : endHtml = bytes.length
  document_eq : stretch? "StartHTML" "EndHTML" bytes = some (Text.utf8 doc)
  startHtml_le : startHtml ≤ startFragment
  startFragment_le : startFragment ≤ endFragment
  endFragment_le : endFragment ≤ endHtml
  /-- The start mark stands right before the fragment, and the end mark right after it. -/
  startMark_before : Text.utf8 startMark <:+ bytes.take startFragment
  endMark_after : Text.utf8 endMark <+: bytes.drop endFragment
  /-- Neither mark stands anywhere else in the document. -/
  startMark_once : ∃! p : Text × Text, doc = p.1 ++ (startMark ++ p.2)
  endMark_once : ∃! p : Text × Text, doc = p.1 ++ (endMark ++ p.2)

/-- Parts without marks, put together with the marks between them, are located. -/
theorem locates_of_wrap_eq {html x y z : Text} (hwrap : wrap html = withMarks x y z)
    (hstart : ∀ p ∈ [x, y, z], ¬ startMark <:+: p) (hend : ∀ p ∈ [x, y, z], ¬ endMark <:+: p)
    (hsize : Text.byteLength (payload html) < 1000000000) :
    Locates (Text.utf8 (payload html)) (wrap html) headerLength
      (headerLength + Text.byteLength (wrap html))
      (headerLength + Text.byteLength (x ++ startMark))
      (headerLength + Text.byteLength (x ++ (startMark ++ y))) := by
  have hx : x ∈ [x, y, z] := by simp
  have hy : y ∈ [x, y, z] := by simp
  have hz : z ∈ [x, y, z] := by simp
  have hfirst : Text.cut? startMark (wrap html) = some (x, y ++ (endMark ++ z)) := by
    rw [hwrap]
    exact cut?_startMark (hstart x hx)
  have hlast : Text.cut? endMark (wrap html) = some (x ++ (startMark ++ y), z) := by
    rw [hwrap]
    exact cut?_endMark (hend x hx) (hend y hy)
  have hlength := byteLength_headerOf hwrap hsize
  have hpayload := payload_eq hfirst hlast
  refine ⟨fields_payload hfirst hlast, ?_, hlength.symm, ?_,
    stretch?_document hfirst hlast hwrap hsize, Nat.le_add_right _ _, ?_, ?_, ?_, ?_, ?_, ?_⟩
  · have htake := Text.take_utf8_append (headerOf (wrap html) x y) (wrap html)
    rwa [hlength, ← hpayload] at htake
  · show _ = Text.byteLength (payload html)
    rw [hpayload, Text.byteLength_append, hlength]
  · simp only [Text.byteLength_append]
    omega
  · simp only [hwrap, withMarks, Text.byteLength_append]
    omega
  · obtain ⟨h, -, htake, -⟩ := take_drop_payload hfirst hlast hwrap hsize (u := x ++ startMark)
      (v := y ++ (endMark ++ z)) (by simp [hwrap, withMarks])
    rw [htake, ← List.append_assoc, Text.utf8_append]
    exact List.suffix_append _ _
  · obtain ⟨h, -, -, hdrop⟩ := take_drop_payload hfirst hlast hwrap hsize
      (u := x ++ (startMark ++ y)) (v := endMark ++ z) (by simp [hwrap, withMarks])
    rw [hdrop, Text.utf8_append]
    exact List.prefix_append _ _
  · rw [hwrap]
    exact existsUnique_startMark (hstart x hx) (hstart y hy) (hstart z hz)
  · rw [hwrap]
    exact existsUnique_endMark (hend x hx) (hend y hy) (hend z hz)

/-- **The header of every payload is right**, if the text holds neither mark
and the payload has less than a billion bytes: the document is the text with
the two marks put in where a body was found, or else a new document around
the text. -/
theorem payload_locates (html : Text) (hstart : ¬ startMark <:+: html)
    (hend : ¬ endMark <:+: html) (hsize : Text.byteLength (payload html) < 1000000000) :
    ∃ doc startHtml endHtml startFragment endFragment,
      Locates (Text.utf8 (payload html)) doc startHtml endHtml startFragment endFragment ∧
      ((bodyRange? html).isSome → unmarked doc = html) ∧
      (bodyRange? html = none → doc = "<html><body>".toList ++ startMark ++ html ++ endMark ++
        "</body></html>".toList) := by
  cases hrange : bodyRange? html with
  | none =>
    have hwrap := wrap_of_bodyRange?_eq_none hrange
    refine ⟨_, _, _, _, _, locates_of_wrap_eq hwrap ?_ ?_ hsize, by simp, fun _ => ?_⟩
    · simp only [List.forall_mem_cons]
      exact ⟨by decide, hstart, by decide, by simp⟩
    · simp only [List.forall_mem_cons]
      exact ⟨by decide, hend, by decide, by simp⟩
    · rw [hwrap, withMarks]
      simp only [List.append_assoc]
  | some r =>
    obtain ⟨a, b⟩ := r
    have hwrap := wrap_of_bodyRange?_eq_some hrange
    have hjoin := take_append_drop_take (le_of_bodyRange? hrange) html
    have hpart : ∀ p ∈ [html.take a, (html.take b).drop a, html.drop b], p <:+: html := by
      simp only [List.forall_mem_cons]
      refine ⟨(List.take_prefix a html).isInfix, ?_, (List.drop_suffix b html).isInfix, by simp⟩
      exact (List.drop_suffix a _).isInfix.trans (List.take_prefix b html).isInfix
    refine ⟨_, _, _, _, _, locates_of_wrap_eq hwrap (fun p hp h => hstart (h.trans (hpart p hp)))
      (fun p hp h => hend (h.trans (hpart p hp))) hsize, fun _ => ?_, by simp⟩
    rw [hwrap, unmarked_withMarks (by rwa [hjoin]) (by rwa [hjoin]), hjoin]

/-- A text in which lower-casing moves the end of the body. -/
def shifted : Text := "İİ<body>é</body>".toList

theorem payload_locates_shifted :
    bodyRange? shifted = some (10, 11) ∧ ¬ startMark <:+: shifted ∧ ¬ endMark <:+: shifted ∧
    Text.byteLength (payload shifted) < 1000000000 ∧
    ∃ doc startHtml endHtml startFragment endFragment,
      Locates (Text.utf8 (payload shifted)) doc startHtml endHtml startFragment endFragment ∧
      unmarked doc = shifted := by
  have hrange : bodyRange? shifted = some (10, 11) := by rfl
  have hstart : ¬ startMark <:+: shifted := by decide
  have hend : ¬ endMark <:+: shifted := by decide
  have hsize : Text.byteLength (payload shifted) < 1000000000 := by decide +kernel
  obtain ⟨doc, a, b, c, d, hloc, hdoc, -⟩ := payload_locates shifted hstart hend hsize
  exact ⟨hrange, hstart, hend, hsize, doc, a, b, c, d, hloc, hdoc (by simp [hrange])⟩

end Clipboard
end Formulary
