/-
# Markup that can be written again

What is lexed of the markup of a document keeps the rules for writing it: a comment or an
instruction does not hold what would end it, not even across lines that are joined by reading
their ends as line feeds, and names are names. Stretches of text are looked after by the
characters in them (`isLegal_of_lex`).

Key definitions: `Xml.Token.Fits`.
Key theorems: `Xml.standsBefore_normalizeLines`, `Xml.fits_of_lex`.
-/
import Formulary.Proofs.Xml.Legal
import Formulary.Proofs.Xml.Legible

namespace Formulary
namespace Xml

/-! ### Tokens -/

/-- Whether the markup of a token may be written again. -/
def Token.Fits : Token → Prop
  | .comment s => isCommentText s = true
  | .instruction target data =>
    isName target = true ∧ isLegal target = true ∧ target.map Char.toLower ≠ "xml".toList ∧
      data.all isDataText = true
  | .opening name as _ => isName name = true ∧ ∀ a ∈ as, isName a.name = true
  | _ => True

theorem head?_normalizeLines (s : Text) :
    (normalizeLines s).head? = s.head?.map fun c => if c = '\r' then '\n' else c := by
  fun_induction normalizeLines s with
  | case1 => rfl
  | case2 s ih => rfl
  | case3 s _ ih => rfl
  | case4 c s _ hc ih => simp [if_neg hc]

theorem return_notMem_normalizeLines (s : Text) : '\r' ∉ normalizeLines s := by
  fun_induction normalizeLines s with
  | case1 => exact List.not_mem_nil
  | case2 s ih => simpa using ih
  | case3 s _ ih => simpa using ih
  | case4 c s _ hc ih => simpa [ih] using Ne.symm hc

/-- What ends a text does not stand across its lines, however they end. -/
theorem skips_normalizeLines {x y : Char} (hx : x ≠ '\n') (hy : y ≠ '\n') {s b : Text}
    (h : Text.Skips [x, y] s ([x, y] ++ b)) :
    Text.Skips [x, y] (normalizeLines s) ([x, y] ++ []) := by
  have hfeed : ∀ t : Text, ¬ [x, y] <+: '\n' :: t := fun t ht =>
    hx (List.cons_prefix_cons.mp ht).1
  fun_induction normalizeLines s with
  | case1 => exact Text.skips_nil _ _
  | case2 s ih =>
    obtain ⟨-, h⟩ := Text.skips_cons.mp h
    exact Text.skips_cons.mpr ⟨hfeed _, ih (Text.skips_cons.mp h).2⟩
  | case3 s _ ih => exact Text.skips_cons.mpr ⟨hfeed _, ih (Text.skips_cons.mp h).2⟩
  | case4 c s _ hc ih =>
    obtain ⟨hhead, hrest⟩ := Text.skips_cons.mp h
    refine Text.skips_cons.mpr ⟨fun hp => hhead ?_, ih hrest⟩
    obtain ⟨hxc, hp⟩ := List.cons_prefix_cons.mp hp
    refine List.cons_prefix_cons.mpr ⟨hxc, ?_⟩
    cases s with
    | nil => exact List.cons_prefix_cons.mpr ⟨(List.cons_prefix_cons.mp hp).1, List.nil_prefix⟩
    | cons d s =>
      have hfirst := head?_normalizeLines (d :: s)
      obtain ⟨e, u, hu⟩ := List.exists_cons_of_ne_nil
        (show normalizeLines (d :: s) ≠ [] from fun hnil => by simp [hnil] at hfirst)
      rw [hu, List.cons_append] at hp
      obtain ⟨rfl, -⟩ := List.cons_prefix_cons.mp hp
      rw [hu, List.head?_cons, List.head?_cons, Option.map_some, Option.some_inj] at hfirst
      split at hfirst
      · exact absurd hfirst hy
      · exact List.cons_prefix_cons.mpr ⟨hfirst, List.nil_prefix⟩

/-- What stands in front of a pattern in a text is a text that the pattern may end. -/
theorem standsBefore_normalizeLines {x y : Char} (hx : x ≠ '\n') (hy : y ≠ '\n') {s b : Text}
    (h : Text.Skips [x, y] s ([x, y] ++ b)) : standsBefore [x, y] (normalizeLines s) = true := by
  rw [standsBefore, beq_iff_eq]
  exact Text.cut?_eq_some_iff.mpr
    ⟨by rw [List.append_nil], skips_normalizeLines hx hy h⟩

theorem all_ne_return_normalizeLines (s : Text) : (normalizeLines s).all (· != '\r') = true :=
  List.all_eq_true.mpr fun c hc => by
    rw [bne_iff_ne]
    rintro rfl
    exact return_notMem_normalizeLines s hc

theorem fits_of_comment? {s r : Text} {t : Token} (h : comment? s = some (t, r)) : t.Fits := by
  unfold comment? at h
  split at h
  · rename_i a u hcut
    split at h
    · rename_i hlegal
      obtain ⟨rfl, -⟩ := Prod.mk.inj (Option.some.inj h)
      have hends := standsBefore_normalizeLines (by decide) (by decide) (Text.skips_of_cut? hcut)
      show isCommentText (normalizeLines a) = true
      rw [isCommentText, isLegal_normalizeLines hlegal, all_ne_return_normalizeLines]
      exact hends
    · exact absurd h (by simp)
  · exact absurd h (by simp)

theorem isLegal_of_suffix {s t : Text} (h : t <:+ s) (hs : isLegal s = true) : isLegal t = true :=
  List.all_eq_true.mpr fun c hc => List.all_eq_true.mp hs c (h.subset hc)

theorem head?_dropWhile_isSpace (s : Text) : (s.dropWhile isSpace).head?.any isSpace = false := by
  cases h : s.dropWhile isSpace with
  | nil => rfl
  | cons c u =>
    have hc := List.head?_dropWhile_not isSpace s
    rw [h] at hc
    simpa using hc

/-- What follows the target of an instruction may be written again. -/
theorem isDataText_normalizeLines {s u b : Text} (hlegal : isLegal s = true) (hu : u <:+ s)
    (hskips : Text.Skips "?>".toList s ("?>".toList ++ b)) :
    isDataText (normalizeLines (u.dropWhile isSpace)) = true := by
  have hsuffix : u.dropWhile isSpace <:+ s := (List.dropWhile_suffix isSpace).trans hu
  have hhead : (normalizeLines (u.dropWhile isSpace)).head?.any isSpace = false := by
    have hspace := head?_dropWhile_isSpace u
    rw [head?_normalizeLines]
    cases hfirst : (u.dropWhile isSpace).head? with
    | none => rfl
    | some c =>
      rw [hfirst] at hspace
      have hc : c ≠ '\r' := by
        rintro rfl
        exact absurd hspace (by decide)
      simpa [hc] using hspace
  obtain ⟨v, hv⟩ := hsuffix
  have hends := standsBefore_normalizeLines (by decide) (by decide)
    (Text.skips_append.mp (hv ▸ hskips)).2
  rw [isDataText, isLegal_normalizeLines (isLegal_of_suffix ⟨v, hv⟩ hlegal),
    all_ne_return_normalizeLines, hhead]
  exact hends

theorem fits_of_instructionBody? {s b : Text} {t : Token}
    (hskips : Text.Skips "?>".toList s ("?>".toList ++ b)) (h : instructionBody? s = some t) :
    t.Fits := by
  unfold instructionBody? at h
  dsimp only at h
  split at h
  · rename_i hbody
    simp only [Bool.and_eq_true, bne_iff_ne] at hbody
    obtain ⟨⟨hname, hxml⟩, hlegal⟩ := hbody
    have htarget : isLegal (s.takeWhile isWordChar) = true := List.all_eq_true.mpr fun c hc =>
      List.all_eq_true.mp hlegal c ((List.takeWhile_sublist _).subset hc)
    split at h
    · obtain rfl := Option.some.inj h
      exact ⟨hname, htarget, hxml, rfl⟩
    · split at h
      · obtain rfl := Option.some.inj h
        exact ⟨hname, htarget, hxml,
          isDataText_normalizeLines hlegal (List.dropWhile_suffix _) hskips⟩
      · exact absurd h (by simp)
  · exact absurd h (by simp)

theorem isName_of_attribute? {s r : Text} {a : RawAttr} (h : attribute? s = some (a, r)) :
    isName a.name = true := by
  unfold attribute? at h
  split at h
  · obtain ⟨p, -, h⟩ := Option.bind_eq_some_iff.mp h
    obtain ⟨_, hguard, h⟩ := Option.bind_eq_some_iff.mp h
    obtain ⟨rfl, -⟩ := Prod.mk.inj (Option.some.inj h)
    exact ((Option.guard_eq_some' _).mp hguard).1
  · exact absurd h (by simp)

theorem isName_of_attributes {s r : Text} {as : List RawAttr} {closed : Bool}
    (h : attributes s = some (as, closed, r)) : ∀ a ∈ as, isName a.name = true := by
  fun_induction attributes s generalizing as with
  | case1 s r' hs =>
    obtain ⟨rfl, -⟩ := Prod.mk.inj (Option.some.inj h)
    exact fun a ha => absurd ha List.not_mem_nil
  | case2 s r' hs =>
    obtain ⟨rfl, -⟩ := Prod.mk.inj (Option.some.inj h)
    exact fun a ha => absurd ha List.not_mem_nil
  | case3 s a r' _ _ _ ha ih =>
    obtain ⟨⟨bs, q⟩, hp, heq⟩ := Option.map_eq_some_iff.mp h
    obtain ⟨rfl, rfl⟩ := Prod.mk.inj heq
    exact List.forall_mem_cons.mpr ⟨isName_of_attribute? ha, ih hp⟩
  | case4 => exact absurd h (by simp)
  | case5 => exact absurd h (by simp)

theorem fits_of_tag? {s r : Text} {t : Token} (h : tag? s = some (t, r)) : t.Fits := by
  unfold tag? at h
  split at h
  · unfold instruction? at h
    split at h
    · rename_i a b hcut
      obtain ⟨u, hu, heq⟩ := Option.map_eq_some_iff.mp h
      obtain ⟨rfl, -⟩ := Prod.mk.inj heq
      exact fits_of_instructionBody? (Text.skips_of_cut? hcut) hu
    · exact absurd h (by simp)
  · unfold closingTag? at h
    split at h
    · split at h
      · obtain ⟨rfl, -⟩ := Prod.mk.inj (Option.some.inj h)
        trivial
      · exact absurd h (by simp)
    · exact absurd h (by simp)
  · obtain ⟨_, hguard, h⟩ := Option.bind_eq_some_iff.mp h
    obtain ⟨⟨as, closed, q⟩, hattrs, h⟩ := Option.bind_eq_some_iff.mp h
    obtain ⟨rfl, -⟩ := Prod.mk.inj (Option.some.inj h)
    exact ⟨(Option.guard_eq_some' _).mp hguard, isName_of_attributes hattrs⟩

theorem fits_of_markup? {s r : Text} {t : Token} (h : markup? s = some (t, r)) : t.Fits := by
  unfold markup? at h
  split at h
  · exact fits_of_comment? h
  · split at h
    · unfold cdata? at h
      split at h
      · split at h
        · obtain ⟨rfl, -⟩ := Prod.mk.inj (Option.some.inj h)
          trivial
        · exact absurd h (by simp)
      · exact absurd h (by simp)
    · exact fits_of_tag? h

/-- The markup of a text that is lexed may be written again. -/
theorem fits_of_lex {s : Text} {ts : List Token} (h : lex s = some ts) : ∀ t ∈ ts, t.Fits := by
  refine forall_of_lex fits_of_markup? (fun {s r p} _ => ?_) (fun {raw rest t} ht => ?_) h
  · cases p <;> trivial
  · unfold textToken? at ht
    split at ht
    · obtain rfl := Option.some.inj ht
      trivial
    · exact absurd ht (by simp)

end Xml
end Formulary
