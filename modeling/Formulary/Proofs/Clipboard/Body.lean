/-
# The body of a page on the clipboard

In a page for Word the body is found at the tags of the envelope, whatever
the title and the body hold: the title is escaped, so the first tag that is
found is the envelope's, and so is the last closing tag. But the places are
those of the lower-cased page, in which a capital I with a dot is two
characters long (`bodyRange?_envelope`), and the end of the fragment is where
the first end mark stands. So the fragment is the body exactly as long as
neither holds such a letter and the body holds no end mark (`fragment_wordPage`).

Key definitions: `opening`, `closing`.
Key theorems: `Clipboard.length_lower`, `Clipboard.bodyRange?_envelope`,
`Clipboard.wrap_envelope`, `Clipboard.fragment_wordPage`.
-/
import Formulary.Page.Envelope
import Formulary.Proofs.Clipboard.Offsets
import Formulary.Proofs.Token.Run

namespace Formulary

/-! ### The envelope -/

/-- A page from its start to the tag of its title. -/
def pageStart : Text :=
  "<!DOCTYPE html><html xmlns:m=\"".toList ++ Html.escape .decimal Omml.uri ++
    "\"><head><meta charset=\"UTF-8\">".toList

/-- A page up to the tag of its body. -/
def opening (title : Text) : Text :=
  pageStart ++ ("<title>".toList ++ (Html.escape .decimal title ++ "</title></head>".toList))

/-- What follows the body of a page. -/
def closing : Text := "</body></html>".toList

theorem envelope_eq (title body : Text) :
    envelope title body = opening title ++ "<body>".toList ++ (body ++ closing) := by
  have htitle : "\"><head><meta charset=\"UTF-8\"><title>".toList =
      "\"><head><meta charset=\"UTF-8\">".toList ++ "<title>".toList := rfl
  have hbody : "</title></head><body>".toList =
      "</title></head>".toList ++ "<body>".toList := rfl
  unfold envelope opening pageStart closing
  rw [htitle, hbody]
  simp only [List.append_assoc]

/-- An escaped text holds no tag. -/
theorem notMem_escape (s : Text) : '<' ∉ Html.escape .decimal s := by
  rw [Html.escape, List.mem_flatMap]
  rintro ⟨c, -, hc⟩
  unfold Html.escapeChar at hc
  split_ifs at hc with _ hlt
  case neg => exact hlt (List.mem_singleton.mp hc).symm
  all_goals exact absurd hc (by decide)

/-- The number of capital I's with a dot. -/
def dots (s : Text) : Nat := List.count 'İ' s

theorem dots_append (s t : Text) : dots (s ++ t) = dots s + dots t := List.count_append

theorem dots_eq_zero_iff {s : Text} : dots s = 0 ↔ 'İ' ∉ s := List.count_eq_zero

theorem dots_escape (s : Text) : dots (Html.escape .decimal s) = dots s := by
  induction s with
  | nil => rfl
  | cons c s ih =>
    have hchar : dots (Html.escapeChar .decimal c) = dots [c] := by
      unfold Html.escapeChar
      split_ifs with h1 h2 h3 h4 h5
      case neg => rfl
      all_goals
        subst c
        decide
    have hcons : Html.escape .decimal (c :: s) =
        Html.escapeChar .decimal c ++ Html.escape .decimal s := rfl
    rw [hcons, dots_append, hchar, ih, ← dots_append]
    rfl

namespace Clipboard

/-- A mark that is not in the fixed part of a page is not in what comes before its body. -/
theorem not_infix_title {pat start t : Text} (hpat : '<' ∉ pat) (hstart : ¬ '<' :: pat <:+: start)
    (htag : ¬ pat <+: "title>".toList) (htag' : ¬ "title>".toList <+: pat)
    (hhead : ¬ '<' :: pat <:+: "</title></head>".toList) (ht : '<' ∉ t) :
    ¬ '<' :: pat <:+: start ++ ("<title>".toList ++ (t ++ "</title></head>".toList)) := by
  show ¬ '<' :: pat <:+: start ++ ('<' :: "title>".toList ++ (t ++ "</title></head>".toList))
  rw [Text.infix_append_head_iff hpat (by decide) htag htag', not_or]
  exact ⟨hstart, fun h => hhead (Text.infix_of_infix_append ht h)⟩

theorem startMark_not_infix_opening (title : Text) :
    ¬ startMark <:+: opening title ++ "<body>".toList := fun h => by
  rcases (Text.infix_append_iff_of_head (by decide)).mp h with h | h
  · exact not_infix_title (by decide) (by decide +kernel) (by decide) (by decide) (by decide)
      (notMem_escape title) h
  · exact absurd h (by decide)

theorem endMark_not_infix_opening (title : Text) :
    ¬ endMark <:+: opening title ++ "<body>".toList := fun h => by
  rcases (Text.infix_append_iff_of_head (by decide)).mp h with h | h
  · exact not_infix_title (by decide) (by decide +kernel) (by decide) (by decide) (by decide)
      (notMem_escape title) h
  · exact absurd h (by decide)

/-! ### Lower case -/

theorem lower_append (s t : Text) : lower (s ++ t) = lower s ++ lower t := List.flatMap_append

/-- Lower-casing makes a text longer by its capital I's with a dot. -/
theorem length_lower (s : Text) : (lower s).length = s.length + dots s := by
  induction s with
  | nil => rfl
  | cons c s ih =>
    have hcons : lower (c :: s) = lower [c] ++ lower s := lower_append [c] s
    have hchar : (lower [c]).length = 1 + dots [c] := by
      by_cases hc : c = 'İ'
      · subst hc
        rfl
      · simp [lower, dots, hc]
    have hdots : dots (c :: s) = dots [c] + dots s := dots_append [c] s
    rw [hcons, List.length_append, hchar, ih, List.length_cons, hdots]
    omega

theorem eq_of_toLower_eq {c : Char} (h : c.toLower = '<') : c = '<' := by
  unfold Char.toLower at h
  split at h
  · rename_i hc
    have hval : c.val + 32 = 60 := congrArg Char.val h
    have hsum := congrArg UInt32.toNat hval
    have hle : 65 ≤ c.val.toNat := UInt32.le_iff_toNat_le.mp hc.1
    have hge : c.val.toNat ≤ 90 := UInt32.le_iff_toNat_le.mp hc.2
    simp only [UInt32.toNat_add, UInt32.reduceToNat] at hsum
    omega
  · exact h

theorem notMem_lower {s : Text} (h : '<' ∉ s) : '<' ∉ lower s := by
  rw [lower, List.mem_flatMap]
  rintro ⟨c, hc, hmem⟩
  split_ifs at hmem with hdot
  · exact absurd hmem (by decide)
  · have := eq_of_toLower_eq (List.mem_singleton.mp hmem).symm
    exact h (this ▸ hc)

theorem lower_opening (title : Text) : lower (opening title) = lower pageStart ++
    ("<title>".toList ++ (lower (Html.escape .decimal title) ++ "</title></head>".toList)) := by
  have htags : lower "<title>".toList = "<title>".toList ∧
      lower "</title></head>".toList = "</title></head>".toList := by decide
  simp only [opening, lower_append, htags]

theorem body_not_infix_lower_opening (title : Text) :
    ¬ "<body".toList <:+: lower (opening title) := by
  rw [lower_opening]
  show ¬ '<' :: "body".toList <:+: _
  exact not_infix_title (by decide) (by decide +kernel) (by decide)
    (by decide) (by decide) (notMem_lower (notMem_escape title))

theorem dots_opening (title : Text) : dots (opening title) = dots title := by
  have hfixed : dots pageStart = 0 ∧ dots "<title>".toList = 0 ∧
      dots "</title></head>".toList = 0 := by decide
  simp only [opening, dots_append, hfixed, dots_escape]
  omega

/-! ### The body in a page -/

/-- The body is looked for as many characters too far as there are capital
I's with a dot before its start, and before its end. -/
theorem bodyRange?_envelope (title body : Text) :
    bodyRange? (envelope title body) =
      some ((opening title ++ "<body>".toList).length + dots title,
        (opening title ++ "<body>".toList).length +
          (dots title + (body.length + dots body))) := by
  have hlower : lower (envelope title body) =
      lower (opening title) ++ ("<body>".toList ++ (lower body ++ closing)) := by
    have htags : lower "<body>".toList = "<body>".toList ∧ lower closing = closing := by decide
    rw [envelope_eq]
    simp only [lower_append, htags, List.append_assoc]
  have hopen : Text.cut? "<body".toList (lower (envelope title body)) =
      some (lower (opening title), '>' :: (lower body ++ closing)) := by
    rw [hlower]
    refine Text.cut?_eq_some_iff.mpr ⟨rfl, ?_⟩
    exact Text.skips_of_unbordered (by decide) (body_not_infix_lower_opening title) _
  have htag : Text.cut? ['>'] ('>' :: (lower body ++ closing)) = some ([], lower body ++ closing) :=
    Text.cut?_self_append ['>'] _
  have hclose : Text.cutLast? "</body>".toList (lower (envelope title body)) =
      some (lower (opening title) ++ ("<body>".toList ++ lower body), "</html>".toList) := by
    have hparts : lower (envelope title body) =
        (lower (opening title) ++ ("<body>".toList ++ lower body)) ++
          ("</body>".toList ++ "</html>".toList) := by
      rw [hlower, List.append_assoc, List.append_assoc]
      rfl
    rw [hparts]
    exact Text.cutLast?_append (by decide) (by decide) _
  have hstart : bodyStart? (lower (envelope title body)) =
      some ((opening title ++ "<body>".toList).length + dots title) := by
    have hlen : "<body".length = 5 ∧ "<body>".toList.length = 6 := by decide
    rw [bodyStart?, hopen]
    simp only [htag, Option.map_some, List.length_nil, List.length_append, hlen, length_lower,
      dots_opening, Option.some.injEq]
    omega
  have hend : bodyEnd? (lower (envelope title body)) =
      some ((opening title ++ "<body>".toList).length +
        (dots title + (body.length + dots body))) := by
    rw [bodyEnd?, hclose]
    simp only [Option.map_some, List.length_append, length_lower, dots_opening,
      Option.some.injEq]
    omega
  rw [bodyRange?, hstart, hend]
  simp

/-- The marks are put around as much of the page, that many characters further on. -/
theorem wrap_envelope (title body : Text) :
    wrap (envelope title body) =
      withMarks (opening title ++ "<body>".toList ++ (body ++ closing).take (dots title))
        (((body ++ closing).take (dots title + (body.length + dots body))).drop
          (dots title))
        ((body ++ closing).drop (dots title + (body.length + dots body))) := by
  rw [wrap_of_bodyRange?_eq_some (bodyRange?_envelope title body), envelope_eq,
    List.take_length_add_append, List.take_length_add_append, List.drop_length_add_append,
    List.drop_length_add_append]

/-- Under a title without such letters the fragment starts where the body does. -/
theorem wrap_envelope_of_notMem {title : Text} (htitle : 'İ' ∉ title) (body : Text) :
    wrap (envelope title body) =
      withMarks (opening title ++ "<body>".toList) (body ++ closing.take (dots body))
        (closing.drop (dots body)) := by
  rw [wrap_envelope, dots_eq_zero_iff.mpr htitle, Nat.zero_add, List.take_zero, List.drop_zero,
    List.append_nil, List.take_length_add_append, List.drop_length_add_append]

/-- The end of a page holds no end mark, nor a part of one. -/
theorem endMark_infix_append_closing {body : Text} {n : Nat} :
    endMark <:+: body ++ closing.take n ↔ endMark <:+: body := by
  refine ⟨fun h => ?_, fun h => h.trans (List.prefix_append _ _).isInfix⟩
  cases n with
  | zero => rwa [List.take_zero, List.append_nil] at h
  | succ n =>
    have hclosing : closing.take (n + 1) = '<' :: closing.tail.take n := rfl
    rw [hclosing] at h
    have hparts : endMark <:+: body ∨ endMark <:+: closing.take (n + 1) :=
      (Text.infix_append_iff_of_head (by decide)).mp h
    refine hparts.resolve_right fun h => ?_
    exact absurd (h.trans (List.take_prefix _ closing).isInfix) (by decide)

/-- Where the end mark is first met, the fragment ends. -/
theorem stretch?_of_wrap_eq {page x y z : Text} (hwrap : wrap page = withMarks x y z)
    (hstart : ¬ startMark <:+: x) (hend : ¬ endMark <:+: x) (hy : ¬ endMark <:+: y)
    (hsize : Text.byteLength (payload page) < 1000000000) :
    stretch? "StartFragment" "EndFragment" (Text.utf8 (payload page)) = some (Text.utf8 y) := by
  refine stretch?_fragment ?_ ?_ hwrap hsize
  · rw [hwrap]
    exact cut?_startMark hstart
  · rw [hwrap]
    exact cut?_endMark hend hy

/-- Under a title without such letters, the fragment is the body just if the
body has none either and no end mark. -/
theorem stretch?_envelope_iff {title body : Text} (htitle : 'İ' ∉ title)
    (hsize : Text.byteLength (payload (envelope title body)) < 1000000000) :
    stretch? "StartFragment" "EndFragment" (Text.utf8 (payload (envelope title body))) =
      some (Text.utf8 body) ↔ 'İ' ∉ body ∧ ¬ endMark <:+: body := by
  have hstart := startMark_not_infix_opening title
  have hend := endMark_not_infix_opening title
  have hwrap := wrap_envelope_of_notMem htitle body
  by_cases hbody : endMark <:+: body
  · -- the fragment stops short at the mark in the body
    obtain ⟨y, w, hsplit, hy⟩ := Text.exists_eq_append_of_infix (by decide) hbody
    have hinside : body ++ closing.take (dots body) =
        y ++ (endMark ++ (w ++ closing.take (dots body))) := by
      refine (congrArg (· ++ closing.take (dots body)) hsplit).trans ?_
      simp only [List.append_assoc]
    have hshort : wrap (envelope title body) = withMarks (opening title ++ "<body>".toList) y
        (w ++ (closing.take (dots body) ++ (endMark ++ closing.drop (dots body)))) := by
      rw [hwrap, hinside, withMarks, withMarks]
      simp only [List.append_assoc]
    rw [stretch?_of_wrap_eq hshort hstart hend hy hsize, Option.some.injEq]
    refine iff_of_false (fun heq => ?_) fun h => h.2 hbody
    have hbytes : Text.byteLength y = Text.byteLength body := congrArg List.length heq
    have hmark : 0 < Text.byteLength endMark := by decide
    rw [hsplit, Text.byteLength_append, Text.byteLength_append] at hbytes
    omega
  · have hy : ¬ endMark <:+: body ++ closing.take (dots body) := fun h =>
      hbody (endMark_infix_append_closing.mp h)
    rw [stretch?_of_wrap_eq hwrap hstart hend hy hsize, Option.some.injEq, ← dots_eq_zero_iff]
    refine ⟨fun heq => ⟨?_, hbody⟩, fun h => by rw [h.1, List.take_zero, List.append_nil]⟩
    -- what the fragment has too much would have no bytes
    have hbytes : Text.byteLength (body ++ closing.take (dots body)) = Text.byteLength body :=
      congrArg List.length heq
    have hlength : Text.byteLength (closing.take (dots body)) = (closing.take (dots body)).length :=
      Text.byteLength_of_isAscii fun c hc =>
        (by decide : Text.IsAscii closing) c (List.mem_of_mem_take hc)
    have hclosing : closing.length = 14 := rfl
    rw [Text.byteLength_append, hlength, List.length_take, hclosing] at hbytes
    omega

/-- **The fragment of a page for Word is its body**, under a title without a
capital I with a dot, just if the body has no such letter and no end mark.
Under any title the marks are put as many characters too far as there are
such letters before them. -/
theorem fragment_wordPage (cv : Converters) (title : Text) (ts : List Token) (rendered : Woven)
    (hbody : weave cv wordMarkup ts = .ok rendered) :
    ∃ w, wordPage cv title ts = .ok w ∧ w.page = envelope title rendered.page ∧
      wrap w.page =
        withMarks
          (opening title ++ "<body>".toList ++ (rendered.page ++ closing).take (dots title))
          (((rendered.page ++ closing).take
            (dots title + (rendered.page.length + dots rendered.page))).drop (dots title))
          ((rendered.page ++ closing).drop
            (dots title + (rendered.page.length + dots rendered.page))) ∧
      ('İ' ∉ title → Text.byteLength (payload w.page) < 1000000000 →
        (stretch? "StartFragment" "EndFragment" (Text.utf8 (payload w.page)) =
            some (Text.utf8 rendered.page) ↔
          'İ' ∉ rendered.page ∧ ¬ endMark <:+: rendered.page)) := by
  refine ⟨{ rendered with page := envelope title rendered.page }, ?_, rfl,
    wrap_envelope title rendered.page, stretch?_envelope_iff⟩
  rw [wordPage, hbody]
  rfl

/-- A paragraph that ends in the mark of another fragment. -/
def foreignMark : List Token := [.plain "t-0".toList "é<!--EndFragment-->".toList]

theorem fragment_wordPage_foreignMark :
    weave .wordsOnly wordMarkup foreignMark = .ok ⟨"<p>é<!--EndFragment--></p>\n".toList, []⟩ ∧
    'İ' ∉ "Word".toList ∧
    ∃ w, wordPage .wordsOnly "Word".toList foreignMark = .ok w ∧
      Text.byteLength (payload w.page) < 1000000000 ∧
      stretch? "StartFragment" "EndFragment" (Text.utf8 (payload w.page)) ≠
        some (Text.utf8 "<p>é<!--EndFragment--></p>\n".toList) := by
  have hbody : weave .wordsOnly wordMarkup foreignMark =
      .ok ⟨"<p>é<!--EndFragment--></p>\n".toList, []⟩ := by rfl
  obtain ⟨w, hw, hpage, -, hiff⟩ :=
    fragment_wordPage .wordsOnly "Word".toList foreignMark _ hbody
  have hsize : Text.byteLength (payload w.page) < 1000000000 := by
    rw [hpage]
    decide +kernel
  refine ⟨hbody, by decide, w, hw, hsize, fun h => ?_⟩
  exact ((hiff (by decide) hsize).mp h).2 (by decide)

end Clipboard
end Formulary
