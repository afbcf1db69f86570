/-
# The grammar of math spans

What the segments of a text are, said without a reader: they make up the
text, each is well formed, plain stretches are as long as they can be, and no
math span opens inside one of them. A text has exactly one such list of
segments, and `segments` finds it (`segmentation_iff`).

Key definitions: `OpensSpan`, `Segment.WellFormed`, `Segmentation`.
Key theorems: `spanAt?_eq_some_iff`, `spanAt?_eq_none_iff`, `segmentation_cons`,
`segmentation_segments`, `Segmentation.eq_segments`, `segmentation_iff`.
-/
import Formulary.Proofs.Text.Search
import Formulary.Token.Segment
import Mathlib.Data.List.Basic
import Mathlib.Data.List.Chain
import Mathlib.Data.List.TakeWhile

namespace Formulary

/-- What stands on both sides of display math. -/
def fence : Text := "$$".toList

/-- A display span opens at position `p`: a double dollar sign, and another
one after at least one character. -/
def OpensDisplay (s : Text) (p : Nat) : Prop :=
  fence <+: s.drop p ∧ ∃ q, p + 3 ≤ q ∧ fence <+: s.drop q

/-- An inline span opens at position `p`: a dollar sign, and another one after
at least one character, with no dollar sign or line end between them. -/
def OpensInline (s : Text) (p : Nat) : Prop :=
  s[p]? = some '$' ∧ ∃ q, p + 2 ≤ q ∧ s[q]? = some '$' ∧
    ∀ i, p < i → i < q → s[i]? ≠ some '$' ∧ s[i]? ≠ some '\n'

/-- A math span opens at position `p`. -/
def OpensSpan (s : Text) (p : Nat) : Prop := OpensDisplay s p ∨ OpensInline s p

namespace Segment

def isMath : Segment → Bool
  | plain _ => false
  | math _ _ => true

/-- A segment that can stand in a text. Display math ends at the first double
dollar sign after its first character. -/
def WellFormed : Segment → Prop
  | plain u => u ≠ []
  | math c true => c ≠ [] ∧ ∀ i, 1 ≤ i → fence <+: (c ++ fence).drop i → c.length ≤ i
  | math c false => c ≠ [] ∧ '$' ∉ c ∧ '\n' ∉ c

theorem source_ne_nil : ∀ {g : Segment}, g.WellFormed → g.source ≠ []
  | plain _, h => h
  | math _ true, _ => by simp [source]
  | math _ false, _ => by simp [source]

end Segment

/-- `gs` takes the text `s` apart into plain stretches and math spans. -/
structure Segmentation (s : Text) (gs : List Segment) : Prop where
  source_eq : gs.flatMap Segment.source = s
  wellFormed : ∀ g ∈ gs, g.WellFormed
  not_adjacent : gs.IsChain fun g h => g.isMath ∨ h.isMath
  not_opens : ∀ before u after, gs = before ++ .plain u :: after → ∀ p < u.length,
    ¬ OpensSpan s ((before.flatMap Segment.source).length + p)

/-! ### One span -/

theorem displaySpan?_eq_some_iff {s r : Text} {g : Segment} :
    displaySpan? s = some (g, r) ↔
      ∃ c, g = .math c true ∧ g.WellFormed ∧ s = c ++ (fence ++ r) := by
  cases s with
  | nil =>
    refine ⟨fun h => by simp [displaySpan?] at h, ?_⟩
    rintro ⟨c, -, -, h⟩
    simp [fence] at h
  | cons x s =>
    have hskip : ∀ a, Text.Skips fence a (fence ++ r) ↔
        (Segment.math (x :: a) true).WellFormed := by
      intro a
      rw [Text.skips_self_iff]
      refine ⟨fun h => ⟨by simp, fun i hi hp => ?_⟩, fun h i hp => ?_⟩
      · obtain ⟨j, rfl⟩ : ∃ j, i = j + 1 := ⟨i - 1, by omega⟩
        have := h j hp
        simpa using this
      · have := h.2 (i + 1) (by omega) hp
        simpa using this
    simp only [displaySpan?, Option.map_eq_some_iff, Prod.mk.injEq, Prod.exists]
    constructor
    · rintro ⟨a, b, h, rfl, rfl⟩
      obtain ⟨hs, hfirst⟩ := Text.cut?_eq_some_iff.mp h
      exact ⟨x :: a, rfl, (hskip a).mp hfirst, by rw [hs]; rfl⟩
    · rintro ⟨c, rfl, hc, h⟩
      obtain ⟨y, a, rfl⟩ := List.exists_cons_of_ne_nil hc.1
      obtain ⟨rfl, rfl⟩ := List.cons.inj h
      exact ⟨a, r, Text.cut?_eq_some_iff.mpr ⟨rfl, (hskip a).mpr hc⟩, rfl, rfl⟩

theorem isInline_iff {c : Char} : isInline c = true ↔ c ≠ '$' ∧ c ≠ '\n' := by
  simp [isInline]

theorem forall_isInline_iff {c : Text} : (∀ x ∈ c, isInline x = true) ↔ '$' ∉ c ∧ '\n' ∉ c := by
  simp only [isInline_iff]
  refine ⟨fun h => ⟨fun hd => (h _ hd).1 rfl, fun hn => (h _ hn).2 rfl⟩, ?_⟩
  rintro ⟨hd, hn⟩ x hx
  exact ⟨fun he => hd (he ▸ hx), fun he => hn (he ▸ hx)⟩

theorem inlineSpan?_eq_some_iff {s r : Text} {g : Segment} :
    inlineSpan? s = some (g, r) ↔
      ∃ c, g = .math c false ∧ g.WellFormed ∧ s = c ++ '$' :: r := by
  constructor
  · intro h
    unfold inlineSpan? at h
    split at h
    · rename_i x c v htake hdrop
      simp only [Option.some.injEq, Prod.mk.injEq] at h
      obtain ⟨rfl, rfl⟩ := h
      have hin : ∀ y ∈ x :: c, isInline y = true := fun y hy =>
        List.mem_takeWhile_imp (htake ▸ hy)
      refine ⟨x :: c, rfl, ⟨by simp, forall_isInline_iff.mp hin⟩, ?_⟩
      rw [← htake, ← hdrop, List.takeWhile_append_dropWhile]
    · simp at h
  · rintro ⟨c, rfl, ⟨hne, hin⟩, rfl⟩
    have hin := forall_isInline_iff.mpr hin
    obtain ⟨x, c, rfl⟩ := List.exists_cons_of_ne_nil hne
    have hstop : ('$' :: r).takeWhile isInline = [] := by simp [isInline]
    have hstay : ('$' :: r).dropWhile isInline = '$' :: r := by simp [isInline]
    have htake : (x :: c ++ '$' :: r).takeWhile isInline = x :: c := by
      rw [List.takeWhile_append_of_pos hin, hstop, List.append_nil]
    have hdrop : (x :: c ++ '$' :: r).dropWhile isInline = '$' :: r := by
      rw [List.dropWhile_append_of_pos hin, hstay]
    unfold inlineSpan?
    rw [htake, hdrop]
    rfl

theorem wellFormed_of_spanAt? {s r : Text} {g : Segment} (h : spanAt? s = some (g, r)) :
    g.isMath ∧ g.WellFormed := by
  unfold spanAt? at h
  split at h
  · obtain ⟨c, rfl, hc, -⟩ := displaySpan?_eq_some_iff.mp h
    exact ⟨rfl, hc⟩
  · obtain ⟨c, rfl, hc, -⟩ := inlineSpan?_eq_some_iff.mp h
    exact ⟨rfl, hc⟩
  · simp at h

theorem spanAt?_display {c : Text} (hc : (Segment.math c true).WellFormed) (r : Text) :
    spanAt? ((Segment.math c true).source ++ r) = some (.math c true, r) := by
  have h : displaySpan? (c ++ (fence ++ r)) = some (.math c true, r) :=
    displaySpan?_eq_some_iff.mpr ⟨c, rfl, hc, rfl⟩
  simpa [spanAt?, Segment.source, fence] using h

theorem spanAt?_inline {c : Text} (hc : (Segment.math c false).WellFormed) (r : Text) :
    spanAt? ((Segment.math c false).source ++ r) = some (.math c false, r) := by
  have h : inlineSpan? (c ++ '$' :: r) = some (.math c false, r) :=
    inlineSpan?_eq_some_iff.mpr ⟨c, rfl, hc, rfl⟩
  obtain ⟨x, c, rfl⟩ := List.exists_cons_of_ne_nil hc.1
  have hx : x ≠ '$' := fun he => hc.2.1 (he ▸ List.mem_cons_self)
  have hsource : (Segment.math (x :: c) false).source ++ r = '$' :: (x :: c ++ '$' :: r) := by
    simp [Segment.source]
  rw [hsource]
  -- the character after the dollar sign is none, so the span is not display math
  unfold spanAt?
  split
  · rename_i u hu
    exact absurd (List.cons.inj (List.cons.inj hu).2).1 hx
  · rename_i u _ hu
    rw [← (List.cons.inj hu).2]
    exact h
  · rename_i hno
    exact absurd rfl (hno _)

/-- A span is read exactly where a well-formed one stands. -/
theorem spanAt?_eq_some_iff {s r : Text} {g : Segment} :
    spanAt? s = some (g, r) ↔ g.isMath ∧ g.WellFormed ∧ s = g.source ++ r := by
  constructor
  · intro h
    obtain ⟨hm, hg⟩ := wellFormed_of_spanAt? h
    exact ⟨hm, hg, source_of_spanAt? h⟩
  · rintro ⟨hm, hg, rfl⟩
    match g, hm, hg with
    | .math c true, _, hg => exact spanAt?_display hg r
    | .math c false, _, hg => exact spanAt?_inline hg r

/-! ### Where spans open -/

theorem opensDisplay_append (x s : Text) (p : Nat) :
    OpensDisplay (x ++ s) (x.length + p) ↔ OpensDisplay s p := by
  unfold OpensDisplay
  rw [List.drop_length_add_append]
  refine and_congr_right fun _ => ⟨?_, ?_⟩
  · rintro ⟨q, hq, h⟩
    obtain ⟨k, rfl⟩ : ∃ k, q = x.length + k := ⟨q - x.length, by omega⟩
    rw [List.drop_length_add_append] at h
    exact ⟨k, by omega, h⟩
  · rintro ⟨q, hq, h⟩
    exact ⟨x.length + q, by omega, by rwa [List.drop_length_add_append]⟩

theorem opensInline_append (x s : Text) (p : Nat) :
    OpensInline (x ++ s) (x.length + p) ↔ OpensInline s p := by
  have hget : ∀ i, (x ++ s)[x.length + i]? = s[i]? := fun i => by
    rw [List.getElem?_append_right (Nat.le_add_right _ _), Nat.add_sub_cancel_left]
  unfold OpensInline
  rw [hget]
  refine and_congr_right fun _ => ⟨?_, ?_⟩
  · rintro ⟨q, hq, hclose, hin⟩
    obtain ⟨k, rfl⟩ : ∃ k, q = x.length + k := ⟨q - x.length, by omega⟩
    rw [hget] at hclose
    refine ⟨k, by omega, hclose, fun i hi hik => ?_⟩
    have := hin (x.length + i) (by omega) (by omega)
    rwa [hget] at this
  · rintro ⟨q, hq, hclose, hin⟩
    refine ⟨x.length + q, by omega, by rwa [hget], fun i hi hiq => ?_⟩
    obtain ⟨k, rfl⟩ : ∃ k, i = x.length + k := ⟨i - x.length, by omega⟩
    rw [hget]
    exact hin k (by omega) (by omega)

/-- Whether a span opens depends on the rest of the text only. -/
theorem opensSpan_append (x s : Text) (p : Nat) :
    OpensSpan (x ++ s) (x.length + p) ↔ OpensSpan s p :=
  or_congr (opensDisplay_append x s p) (opensInline_append x s p)

theorem exists_spanAt?_of_opensDisplay {s : Text} (h : OpensDisplay s 0) :
    ∃ g r, spanAt? s = some (g, r) := by
  obtain ⟨⟨t, rfl⟩, q, hq, hclose⟩ := h
  obtain ⟨j, rfl⟩ : ∃ j, q = j + 3 := ⟨q - 3, by omega⟩
  cases t with
  | nil => simp [fence] at hclose
  | cons c u =>
    have hu : fence <:+: u := Text.infix_iff_exists_drop.mpr ⟨j, by simpa [fence] using hclose⟩
    cases hcut : Text.cut? fence u with
    | none => exact absurd hu (Text.cut?_eq_none_iff.mp hcut)
    | some p => exact ⟨.math (c :: p.1) true, p.2, congrArg (Option.map _) hcut⟩

theorem exists_spanAt?_of_opensInline {s : Text} (h : OpensInline s 0) :
    ∃ g r, spanAt? s = some (g, r) := by
  obtain ⟨h0, q, hq, hclose, hin⟩ := h
  cases s with
  | nil => simp at h0
  | cons d t =>
    obtain rfl : d = '$' := by simpa using h0
    obtain ⟨k, rfl⟩ : ∃ k, q = k + 1 := ⟨q - 1, by omega⟩
    rw [List.getElem?_cons_succ] at hclose
    obtain ⟨hk, hclose⟩ := List.getElem?_eq_some_iff.mp hclose
    have hnot : ∀ x ∈ t.take k, x ≠ '$' ∧ x ≠ '\n' := by
      intro x hx
      obtain ⟨i, hi, rfl⟩ := List.mem_take_iff_getElem.mp hx
      have := hin (i + 1) (by omega) (by omega)
      rw [List.getElem?_cons_succ, List.getElem?_eq_getElem (by omega)] at this
      simpa using this
    refine ⟨.math (t.take k) false, t.drop (k + 1), spanAt?_eq_some_iff.mpr ⟨rfl, ⟨?_, ?_, ?_⟩, ?_⟩⟩
    · refine List.ne_nil_of_length_pos ?_
      rw [List.length_take]
      omega
    · exact fun hd => (hnot _ hd).1 rfl
    · exact fun hn => (hnot _ hn).2 rfl
    · have hdrop : t.drop k = '$' :: t.drop (k + 1) := by
        rw [List.drop_eq_getElem_cons hk, hclose]
      simp [Segment.source, ← hdrop]

/-- A span opens at the start of a text exactly if one is read there. -/
theorem opensSpan_zero_iff {s : Text} : OpensSpan s 0 ↔ ∃ g r, spanAt? s = some (g, r) := by
  refine ⟨fun h => h.elim exists_spanAt?_of_opensDisplay exists_spanAt?_of_opensInline, ?_⟩
  rintro ⟨g, r, h⟩
  obtain ⟨hm, hg, rfl⟩ := spanAt?_eq_some_iff.mp h
  match g, hm, hg with
  | .math c true, _, hg =>
    have := List.length_pos_iff.mpr hg.1
    refine .inl ⟨⟨c ++ (fence ++ r), ?_⟩, c.length + 2, by omega, r, ?_⟩ <;>
      simp [Segment.source, fence]
  | .math u false, _, hg =>
    have := List.length_pos_iff.mpr hg.1
    refine .inr ⟨by simp [Segment.source], u.length + 1, by omega, by simp [Segment.source], ?_⟩
    intro i hi hiu
    obtain ⟨k, rfl⟩ : ∃ k, i = k + 1 := ⟨i - 1, by omega⟩
    have hk : k < u.length := by omega
    have hget : ((Segment.math u false).source ++ r)[k + 1]? = some u[k] := by
      simp [Segment.source, List.getElem?_append_left hk, hk]
    rw [hget]
    refine ⟨fun he => hg.2.1 ?_, fun he => hg.2.2 ?_⟩ <;>
      · rw [← Option.some.inj he]
        exact List.getElem_mem hk

theorem spanAt?_eq_none_iff {s : Text} : spanAt? s = none ↔ ¬ OpensSpan s 0 := by
  rw [opensSpan_zero_iff, Option.eq_none_iff_forall_ne_some]
  simp

/-! ### Segmentations -/

theorem segmentation_nil_iff {s : Text} : Segmentation s [] ↔ s = [] := by
  refine ⟨fun h => h.source_eq.symm, ?_⟩
  rintro rfl
  exact ⟨rfl, by simp, List.IsChain.nil, by simp⟩

theorem segmentation_cons {s : Text} {g : Segment} {gs : List Segment} :
    Segmentation s (g :: gs) ↔ ∃ r, s = g.source ++ r ∧ g.WellFormed ∧
      (∀ h ∈ gs.head?, g.isMath ∨ h.isMath) ∧
      (∀ u, g = .plain u → ∀ p < u.length, ¬ OpensSpan s p) ∧ Segmentation r gs := by
  constructor
  · rintro ⟨rfl, hwf, hadj, hop⟩
    obtain ⟨hhead, htail⟩ := List.isChain_cons.mp hadj
    refine ⟨gs.flatMap Segment.source, by simp, hwf g List.mem_cons_self, hhead, ?_, rfl, ?_,
      htail, ?_⟩
    · rintro u rfl p hp
      simpa using hop [] u gs rfl p hp
    · exact fun h hh => hwf h (List.mem_cons_of_mem g hh)
    · rintro before u after rfl p hp
      have := hop (g :: before) u after rfl p hp
      rwa [List.flatMap_cons, List.flatMap_cons, List.length_append, Nat.add_assoc,
        opensSpan_append] at this
  · rintro ⟨r, rfl, hg, hhead, hplain, rfl, hwf, htail, hop⟩
    refine ⟨by simp, ?_, List.isChain_cons.mpr ⟨hhead, htail⟩, ?_⟩
    · intro h hh
      rcases List.mem_cons.mp hh with rfl | hh
      · exact hg
      · exact hwf h hh
    · intro before u after heq p hp
      cases before with
      | nil =>
        obtain ⟨rfl, rfl⟩ := List.cons.inj heq
        simpa using hplain u rfl p hp
      | cons g' before =>
        obtain ⟨rfl, rfl⟩ := List.cons.inj heq
        rw [List.flatMap_cons, List.length_append, Nat.add_assoc, opensSpan_append]
        exact hop before u after rfl p hp

/-- Where a span is read, every segmentation starts with it. -/
theorem segmentation_iff_of_spanAt?_eq_some {s r : Text} {g : Segment} {gs : List Segment}
    (h : spanAt? s = some (g, r)) :
    Segmentation s gs ↔ ∃ hs, gs = g :: hs ∧ Segmentation r hs := by
  obtain ⟨hm, hg, hs⟩ := spanAt?_eq_some_iff.mp h
  constructor
  · intro hseg
    cases gs with
    | nil =>
      rw [segmentation_nil_iff.mp hseg] at h
      simp [spanAt?] at h
    | cons g' gs =>
      obtain ⟨r', hs', hg', -, hplain, hrest⟩ := segmentation_cons.mp hseg
      cases g' with
      | plain u =>
        have hu : 0 < u.length := List.length_pos_iff.mpr hg'
        exact absurd (opensSpan_zero_iff.mpr ⟨g, r, h⟩) (hplain u rfl 0 hu)
      | math c d =>
        have h' := spanAt?_eq_some_iff.mpr ⟨rfl, hg', hs'⟩
        rw [h] at h'
        simp only [Option.some.injEq, Prod.mk.injEq] at h'
        obtain ⟨rfl, rfl⟩ := h'
        exact ⟨gs, rfl, hrest⟩
  · rintro ⟨hs', rfl, hrest⟩
    refine segmentation_cons.mpr ⟨r, hs, hg, fun _ _ => .inl hm, ?_, hrest⟩
    rintro u rfl
    simp [Segment.isMath] at hm

theorem opensSpan_cons_succ (c : Char) (s : Text) (p : Nat) :
    OpensSpan (c :: s) (p + 1) ↔ OpensSpan s p := by
  have h := opensSpan_append [c] s p
  rwa [List.length_singleton, Nat.add_comm] at h

section Plain

variable {c : Char} {s : Text} {gs : List Segment}

/-- Where no span is read, the first character can be a plain stretch of its
own, in front of math or at the end. -/
theorem Segmentation.cons_singleton (h : spanAt? (c :: s) = none) (hseg : Segmentation s gs)
    (hhead : ∀ g ∈ gs.head?, g.isMath) : Segmentation (c :: s) (.plain [c] :: gs) := by
  refine segmentation_cons.mpr
    ⟨s, rfl, List.cons_ne_nil c [], fun g hg => .inr (hhead g hg), ?_, hseg⟩
  intro u hu p hp
  cases hu
  obtain rfl : p = 0 := by simpa using hp
  exact spanAt?_eq_none_iff.mp h

/-- Where no span is read, the first character goes into the plain stretch
that follows. -/
theorem Segmentation.cons_char (h : spanAt? (c :: s) = none) (hseg : Segmentation s gs) :
    Segmentation (c :: s) (consPlain c gs) := by
  cases gs with
  | nil => exact hseg.cons_singleton h (by simp)
  | cons g gs =>
    cases g with
    | math content d => exact hseg.cons_singleton h (by simp [Segment.isMath])
    | plain u =>
      obtain ⟨r, rfl, hg, hhead, hplain, hrest⟩ := segmentation_cons.mp hseg
      refine segmentation_cons.mpr ⟨r, rfl, List.cons_ne_nil c u, hhead, ?_, hrest⟩
      intro v hv p hp
      cases hv
      cases p with
      | zero => exact spanAt?_eq_none_iff.mp h
      | succ p =>
        rw [opensSpan_cons_succ]
        exact hplain u rfl p (by simpa using hp)

/-- Without its first character, a plain stretch that goes on is still one. -/
theorem Segmentation.tail_plain {y : Char} {u : Text}
    (hseg : Segmentation (c :: s) (.plain (c :: y :: u) :: gs)) :
    Segmentation s (.plain (y :: u) :: gs) := by
  obtain ⟨r, hs, -, hhead, hplain, hrest⟩ := segmentation_cons.mp hseg
  refine segmentation_cons.mpr
    ⟨r, (List.cons.inj hs).2, List.cons_ne_nil y u, hhead, ?_, hrest⟩
  intro v hv p hp
  cases hv
  rw [← opensSpan_cons_succ c]
  exact hplain _ rfl (p + 1) (by simpa using hp)

/-- Where no span is read, every segmentation has the first character in the
plain stretch that it starts with. -/
theorem Segmentation.exists_consPlain (h : spanAt? (c :: s) = none)
    (hseg : Segmentation (c :: s) gs) : ∃ hs, gs = consPlain c hs ∧ Segmentation s hs := by
  cases gs with
  | nil => exact absurd (segmentation_nil_iff.mp hseg) (List.cons_ne_nil c s)
  | cons g gs =>
    obtain ⟨r, hs, hg, hhead, -, hrest⟩ := segmentation_cons.mp hseg
    cases g with
    | math content d =>
      rw [spanAt?_eq_some_iff.mpr ⟨rfl, hg, hs⟩] at h
      simp at h
    | plain u =>
      obtain ⟨x, u, rfl⟩ := List.exists_cons_of_ne_nil hg
      obtain ⟨rfl, htail⟩ := List.cons.inj hs
      cases u with
      | cons y u => exact ⟨.plain (y :: u) :: gs, rfl, hseg.tail_plain⟩
      | nil =>
        have hsr : s = r := htail
        refine ⟨gs, ?_, hsr ▸ hrest⟩
        cases gs with
        | nil => rfl
        | cons g' gs =>
          cases g' with
          | plain v => simp [Segment.isMath] at hhead
          | math content d => rfl

end Plain

/-- The segments that are read from the left are a segmentation. -/
theorem segmentation_segments (s : Text) : Segmentation s (segments s) := by
  fun_induction segments s with
  | case1 => exact segmentation_nil_iff.mpr rfl
  | case2 c s g r h ih => exact (segmentation_iff_of_spanAt?_eq_some h).mpr ⟨_, rfl, ih⟩
  | case3 c s h ih => exact ih.cons_char h

/-- Every segmentation of a text is the one that is read from the left. -/
theorem Segmentation.eq_segments {s : Text} {gs : List Segment} (h : Segmentation s gs) :
    gs = segments s := by
  fun_induction segments s generalizing gs with
  | case1 =>
    cases gs with
    | nil => rfl
    | cons g gs =>
      obtain ⟨r, hs, hg, -⟩ := segmentation_cons.mp h
      exact absurd (List.append_eq_nil_iff.mp hs.symm).1 (Segment.source_ne_nil hg)
  | case2 c s g r hat ih =>
    obtain ⟨hs, rfl, hrest⟩ := (segmentation_iff_of_spanAt?_eq_some hat).mp h
    rw [ih hrest]
  | case3 c s hat ih =>
    obtain ⟨hs, rfl, hrest⟩ := h.exists_consPlain hat
    rw [ih hrest]

/-- **A text has exactly one segmentation**, the one that is read from the
left. -/
theorem segmentation_iff (s : Text) (gs : List Segment) : Segmentation s gs ↔ gs = segments s := by
  refine ⟨Segmentation.eq_segments, ?_⟩
  rintro rfl
  exact segmentation_segments s

-- The fence is not closed, so the span starts one character later.
example : segments "$$a$".toList = [.plain "$".toList, .math "a".toList false] := by decide +kernel

end Formulary
