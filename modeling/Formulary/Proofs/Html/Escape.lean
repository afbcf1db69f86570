/-
# Escaped text

Escaped text holds no brackets and no quotation marks, and reads back as the
text it was made from, whatever that text holds: references, tags or
control characters. Texts that nothing has escaped can be read in this way as
well, unless there is a decimal reference in them with more digits than are
read.

Key definitions: `Html.isEscaped`, `Html.HasLongReference`.
Key theorems: `Html.escapeChar_of_not_isEscaped`, `Html.notMem_escape_named`,
`Html.unescape_escape`, `Html.unescape_eq_error_iff`.
-/
import Formulary.Html.Entity
import Formulary.Html.Escape
import Formulary.Proofs.Text.Search
import Mathlib.Data.List.TakeWhile

namespace Formulary
namespace Html

/-- The characters that are written as references in element content and attribute values. -/
def isEscaped (c : Char) : Bool := c == '&' || c == '<' || c == '>' || c == '"' || c == '\''

theorem escapeChar_of_not_isEscaped {c : Char} (h : isEscaped c = false) (q : Quotes) :
    escapeChar q c = [c] := by
  simp only [isEscaped, Bool.or_eq_false_iff, beq_eq_false_iff_ne] at h
  obtain ⟨⟨⟨⟨hamp, hlt⟩, hgt⟩, hdouble⟩, hsingle⟩ := h
  rw [escapeChar, if_neg hamp, if_neg hlt, if_neg hgt, if_neg hdouble, if_neg hsingle]

/-- The five characters that are escaped, one by one. -/
theorem isEscaped_cases {c : Char} (h : isEscaped c = true) :
    c = '&' ∨ c = '<' ∨ c = '>' ∨ c = '"' ∨ c = '\'' := by
  simpa [isEscaped, or_assoc] using h

theorem notMem_escapeChar_named (c : Char) :
    '<' ∉ escapeChar .named c ∧ '>' ∉ escapeChar .named c ∧ '"' ∉ escapeChar .named c := by
  cases h : isEscaped c with
  | true =>
    rcases isEscaped_cases h with rfl | rfl | rfl | rfl | rfl <;> decide
  | false =>
    rw [escapeChar_of_not_isEscaped h]
    refine ⟨?_, ?_, ?_⟩ <;>
    · rw [List.mem_singleton]
      rintro rfl
      exact absurd h (by decide)

/-- Escaped text can stand in element content and in attribute values. -/
theorem notMem_escape_named (s : Text) :
    '<' ∉ escape .named s ∧ '>' ∉ escape .named s ∧ '"' ∉ escape .named s := by
  simp only [escape, List.mem_flatMap, not_exists, not_and]
  exact ⟨fun c _ => (notMem_escapeChar_named c).1, fun c _ => (notMem_escapeChar_named c).2.1,
    fun c _ => (notMem_escapeChar_named c).2.2⟩

/-! ### Reading back -/

theorem unescape_cons {c : Char} (h : c ≠ '&') (s : Text) :
    unescape (c :: s) = (unescape s).map (c :: ·) := by
  rw [unescape, if_neg h]

theorem unescape_reference {s t r : Text} (hexcess : excess? s = none)
    (h : reference? s = some (t, r)) : unescape ('&' :: s) = (unescape r).map (t ++ ·) := by
  rw [unescape, if_pos rfl, hexcess]
  simp only []
  split
  · rename_i t' r' h'
    obtain ⟨rfl, rfl⟩ := Prod.mk.inj (Option.some.inj (h.symm.trans h'))
    rfl
  · rename_i h'
    exact absurd (h.symm.trans h') (by simp)

theorem excess?_of_not_hash {s : Text} (h : ∀ r, s ≠ '#' :: r) : excess? s = none := by
  unfold excess?
  split
  · exact absurd rfl (h _)
  · rfl

/-- A name with a semicolon is a reference, whatever follows. -/
theorem reference?_closed {name t : Text} (hname : name.all (fun c => !endsName c) = true)
    (hlength : name.length ≤ 32) (ht : closedText? name = some t) (r : Text) :
    excess? (name ++ ';' :: r) = none ∧ reference? (name ++ ';' :: r) = some (t, r) := by
  have hrun : nameRun (name ++ ';' :: r) = name := by
    rw [nameRun, Text.takeWhile_until (List.all_eq_true.mp hname) (by decide),
      List.take_of_length_le hlength]
  have hnamed : named? (name ++ ';' :: r) = some (t, r) := by
    rw [named?, hrun, List.drop_left, closedEntity?, ht]
    rfl
  have hhash : ∀ s, name ++ ';' :: r ≠ '#' :: s := fun s h => by
    cases name with
    | nil => exact absurd (List.cons.inj h).1 (by decide)
    | cons c name =>
      have hc := List.all_eq_true.mp hname c List.mem_cons_self
      rw [(List.cons.inj h).1] at hc
      exact absurd hc (by decide)
  refine ⟨excess?_of_not_hash hhash, ?_⟩
  unfold reference?
  split
  · exact absurd (by assumption) (hhash _)
  · exact absurd (by assumption) (hhash _)
  · exact absurd (by assumption) (hhash _)
  · exact hnamed

/-- The references that are written for characters stand for these. -/
theorem unescape_escapeChar_append (c : Char) (s : Text) :
    unescape (escapeChar .named c ++ s) = (unescape s).map (c :: ·) := by
  cases h : isEscaped c with
  | false =>
    rw [escapeChar_of_not_isEscaped h]
    refine unescape_cons ?_ s
    rintro rfl
    exact absurd h (by decide)
  | true =>
    have hclosed : ∀ name : Text, name.all (fun c => !endsName c) = true → name.length ≤ 32 →
        closedText? name = some [c] →
        unescape ('&' :: name ++ ';' :: s) = (unescape s).map (c :: ·) :=
      fun name hname hlength ht =>
        have hread := reference?_closed hname hlength ht s
        unescape_reference hread.1 hread.2
    rcases isEscaped_cases h with rfl | rfl | rfl | rfl | rfl
    · exact hclosed "amp".toList (by decide) (by decide) (by rfl)
    · exact hclosed "lt".toList (by decide) (by decide) (by rfl)
    · exact hclosed "gt".toList (by decide) (by decide) (by rfl)
    · exact hclosed "quot".toList (by decide) (by decide) (by rfl)
    · have hcode : reference? ("#x27;".toList ++ s) = some (['\''], s) := by
        have hhex : "27".toList.all isHex = true := by decide
        have htake : ("27;".toList ++ s).takeWhile isHex = "27".toList :=
          Text.takeWhile_until (c := ';') (List.all_eq_true.mp hhex) (by decide) s
        have hdrop : ("27;".toList ++ s).dropWhile isHex = ';' :: s :=
          Text.dropWhile_until (c := ';') (List.all_eq_true.mp hhex) (by decide) s
        show numbered? isHex hexNumber ("27;".toList ++ s) = _
        rw [numbered?, htake, hdrop]
        rfl
      exact unescape_reference rfl hcode

/-- Escaped text reads back as the text it was made from. -/
theorem unescape_escape (s : Text) : unescape (escape .named s) = .ok s := by
  induction s with
  | nil => rw [escape, List.flatMap_nil, unescape]
  | cons c s ih =>
    rw [escape, List.flatMap_cons, unescape_escapeChar_append, ← escape, ih]
    rfl

/-! ### References with too many digits -/

/-- Somewhere in the text a decimal reference starts that has too many digits. -/
def HasLongReference (s : Text) : Prop :=
  ∃ ds : Text, ds.length = Numeral.maxDigits + 1 ∧ (∀ d ∈ ds, d.isDigit = true) ∧
    '&' :: '#' :: ds <:+: s

theorem excess?_eq_some_iff {s : Text} : (∃ ds, excess? s = some ds) ↔
    ∃ ds : Text, ds.length = Numeral.maxDigits + 1 ∧ (∀ d ∈ ds, d.isDigit = true) ∧
      '#' :: ds <+: s := by
  constructor
  · rintro ⟨ds, h⟩
    unfold excess? at h
    split at h
    · rename_i s
      split at h
      · rename_i hlong
        refine ⟨(s.takeWhile Char.isDigit).take (Numeral.maxDigits + 1), ?_, fun d hd => ?_, ?_⟩
        · rw [List.length_take]
          omega
        · exact List.mem_takeWhile_imp (List.mem_of_mem_take hd)
        · exact List.cons_prefix_cons.mpr
            ⟨rfl, (List.take_prefix _ _).trans (List.takeWhile_prefix _)⟩
      · exact absurd h (by simp)
    · exact absurd h (by simp)
  · rintro ⟨ds, hlength, hdigits, r, rfl⟩
    have hrun : ds <+: (ds ++ r).takeWhile Char.isDigit := by
      rw [List.takeWhile_append_of_pos hdigits]
      exact List.prefix_append _ _
    have hlong : Numeral.maxDigits < ((ds ++ r).takeWhile Char.isDigit).length := by
      have := hrun.length_le
      omega
    exact ⟨_, if_pos hlong⟩

theorem dropSemicolon_consumes (s : Text) : ∃ u, s = u ++ dropSemicolon s ∧ '&' ∉ u := by
  unfold dropSemicolon
  split
  · exact ⟨[';'], rfl, by decide⟩
  · exact ⟨[], rfl, List.not_mem_nil⟩

theorem numbered?_consumes {p : Char → Bool} {value : Text → Nat} {s t r : Text}
    (hp : p '&' = false) (h : numbered? p value s = some (t, r)) :
    ∃ u, s = u ++ r ∧ '&' ∉ u := by
  unfold numbered? at h
  split at h
  · exact absurd h (by simp)
  · obtain ⟨-, rfl⟩ := Prod.mk.inj (Option.some.inj h)
    obtain ⟨u, hu, hmem⟩ := dropSemicolon_consumes (s.dropWhile p)
    refine ⟨s.takeWhile p ++ u, ?_, fun hin => ?_⟩
    · rw [List.append_assoc, ← hu, List.takeWhile_append_dropWhile]
    · rcases List.mem_append.mp hin with hin | hin
      · exact absurd (List.mem_takeWhile_imp hin) (by simp [hp])
      · exact hmem hin

theorem bareEntity?_consumes {name : Text} : ∀ {n : Nat} {c : Char} {r : Text},
    bareEntity? name n = some (c, r) → ∃ u, name = u ++ r
  | 0, c, r, h => by simp [bareEntity?] at h
  | n + 1, c, r, h => by
    unfold bareEntity? at h
    split at h
    · obtain ⟨-, rfl⟩ := Prod.mk.inj (Option.some.inj h)
      exact ⟨_, (List.take_append_drop _ _).symm⟩
    · exact bareEntity?_consumes h

theorem named?_consumes {s t r : Text} (h : named? s = some (t, r)) :
    ∃ u, s = u ++ r ∧ '&' ∉ u := by
  have hrun : '&' ∉ nameRun s := fun hin => by
    have hname := List.mem_takeWhile_imp (List.mem_of_mem_take hin)
    exact absurd hname (by decide)
  have hprefix : nameRun s <+: s := (List.take_prefix _ _).trans (List.takeWhile_prefix _)
  have hsplit : s = nameRun s ++ s.drop (nameRun s).length :=
    (List.prefix_iff_eq_append.mp hprefix).symm
  unfold named? at h
  split at h
  · rename_i p hp
    obtain rfl := Option.some.inj h
    unfold closedEntity? at hp
    split at hp
    · rename_i r' hr
      obtain ⟨t', -, ht⟩ := Option.map_eq_some_iff.mp hp
      obtain ⟨-, rfl⟩ := Prod.mk.inj ht
      refine ⟨nameRun s ++ [';'], ?_, fun hin => ?_⟩
      · rw [List.append_assoc, List.singleton_append, ← hr, ← hsplit]
      · rcases List.mem_append.mp hin with hin | hin
        · exact hrun hin
        · exact absurd hin (by decide)
    · exact absurd hp (by simp)
  · obtain ⟨⟨c, q⟩, hc, ht⟩ := Option.map_eq_some_iff.mp h
    obtain ⟨-, rfl⟩ := Prod.mk.inj ht
    obtain ⟨u, hu⟩ := bareEntity?_consumes hc
    refine ⟨u, ?_, fun hin => hrun (hu ▸ List.mem_append_left q hin)⟩
    rw [← List.append_assoc, ← hu, ← hsplit]

/-- A reference holds no second ampersand. -/
theorem reference?_consumes {s t r : Text} (h : reference? s = some (t, r)) :
    ∃ u, s = u ++ r ∧ '&' ∉ u := by
  have hfront : ∀ {w v : Text}, '&' ∉ w → (∃ u, v = u ++ r ∧ '&' ∉ u) →
      ∃ u, w ++ v = u ++ r ∧ '&' ∉ u := fun {w v} hw ⟨u, hu, hmem⟩ =>
    ⟨w ++ u, by rw [hu, List.append_assoc], fun hin => (List.mem_append.mp hin).elim hw hmem⟩
  unfold reference? at h
  split at h
  · exact hfront (w := "#x".toList) (by decide) (numbered?_consumes (by decide) h)
  · exact hfront (w := "#X".toList) (by decide) (numbered?_consumes (by decide) h)
  · exact hfront (w := "#".toList) (by decide) (numbered?_consumes (by decide) h)
  · exact named?_consumes h

theorem hasLongReference_append_iff {u : Text} (hu : '&' ∉ u) (s : Text) :
    HasLongReference (u ++ s) ↔ HasLongReference s := by
  refine exists_congr fun ds => and_congr_right fun _ => and_congr_right fun _ => ?_
  exact ⟨Text.infix_of_infix_append hu, fun h => h.trans (List.suffix_append u s).isInfix⟩

theorem hasLongReference_ampersand_iff (s : Text) :
    HasLongReference ('&' :: s) ↔ (∃ ds, excess? s = some ds) ∨ HasLongReference s := by
  rw [excess?_eq_some_iff]
  constructor
  · rintro ⟨ds, hlength, hdigits, h⟩
    rcases List.infix_cons_iff.mp h with h | h
    · exact .inl ⟨ds, hlength, hdigits, (List.cons_prefix_cons.mp h).2⟩
    · exact .inr ⟨ds, hlength, hdigits, h⟩
  · rintro (⟨ds, hlength, hdigits, h⟩ | ⟨ds, hlength, hdigits, h⟩)
    · exact ⟨ds, hlength, hdigits, (List.cons_prefix_cons.mpr ⟨rfl, h⟩).isInfix⟩
    · exact ⟨ds, hlength, hdigits, h.trans (List.suffix_cons '&' s).isInfix⟩

theorem exists_map_eq_error_iff {x : Except Failure Text} {f : Text → Text} :
    (∃ e, x.map f = .error e) ↔ ∃ e, x = .error e := by
  cases x <;> simp [Except.map]

/-- **What keeps a text from being read**: a decimal reference with more digits than are read as
a number. -/
theorem unescape_eq_error_iff (s : Text) :
    (∃ e, unescape s = .error e) ↔ HasLongReference s := by
  fun_induction unescape s with
  | case1 =>
    refine ⟨fun ⟨e, he⟩ => absurd he (by simp), ?_⟩
    rintro ⟨ds, -, -, h⟩
    exact absurd (List.infix_nil.mp h) (by simp)
  | case2 s ds h =>
    exact ⟨fun _ => (hasLongReference_ampersand_iff s).mpr (.inl ⟨ds, h⟩), fun _ => ⟨_, rfl⟩⟩
  | case3 s hexcess t r h ih =>
    obtain ⟨u, rfl, hu⟩ := reference?_consumes h
    rw [exists_map_eq_error_iff, ih, hasLongReference_ampersand_iff, hexcess,
      hasLongReference_append_iff hu]
    simp
  | case4 s hexcess h ih =>
    rw [exists_map_eq_error_iff, ih, hasLongReference_ampersand_iff, hexcess]
    simp
  | case5 c s hc ih =>
    rw [exists_map_eq_error_iff, ih, ← List.singleton_append,
      hasLongReference_append_iff (by simpa using Ne.symm hc)]

end Html
end Formulary
