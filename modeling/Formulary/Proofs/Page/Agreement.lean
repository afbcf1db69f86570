/-
# The formulas on every path

A page takes up every placeholder that stands in it. Splitting the same text
goes from the left, from the start of a placeholder to the next end, so a start
mark among the literals can run into the placeholder after it, and then takes its
end. It finds the formulas of the page in their order, but it misses each one
before which the literal text ends inside such a placeholder
(`readings_eq_substituted_iff`). Without a start mark in the literals it misses none
(`readable_of_clear`).

Key definitions: `readings`, `standing`, `endsOpen`, `Readable`.
Key theorems: `readings_sublist_standing`, `standing_marked`, `readings_append_of_closed`,
`readings_append_of_open`, `readings_eq_substituted_iff`.
-/
import Formulary.Proofs.Page.Substitution
import Formulary.Proofs.Token.RoundTrip

namespace Formulary

/-! ### What splitting finds -/

section Readings

variable (byId : Text → Option Formula)

/-- The formulas that splitting a text finds. -/
def readings (s : Text) : List Formula := (splitPlaceholders byId s).filterMap Part.formula?

/-- The formulas whose placeholders start anywhere in a text, be it inside
another placeholder. -/
def standing : Text → List Formula
  | [] => []
  | c :: s => ((markAt? (c :: s)).bind fun p => byId p.1).toList ++ standing s

variable {byId}

theorem filterMap_formula?_literal (u : Text) (ps : List Part) :
    (Part.literal u :: ps).filterMap Part.formula? = ps.filterMap Part.formula? := rfl

theorem filterMap_formula?_math (f : Formula) (ps : List Part) :
    (Part.math f :: ps).filterMap Part.formula? = f :: ps.filterMap Part.formula? := rfl

theorem readings_nil : readings byId [] = [] := by
  rw [readings, splitPlaceholders, slices]
  rfl

/-- Splitting goes on after the end of a placeholder. -/
theorem readings_of_markAt?_eq_some {s id r : Text} (h : markAt? s = some (id, r)) :
    readings byId s = (byId id).toList ++ readings byId r := by
  rw [readings, readings, splitPlaceholders, splitPlaceholders, slices_of_markAt?_eq_some h,
    List.filterMap_cons]
  cases hid : byId id <;> simp [Slice.resolve?, hid, Part.formula?]

/-- Where no placeholder is read, splitting goes on at the next character. -/
theorem readings_cons_of_markAt?_eq_none {c : Char} {s : Text} (h : markAt? (c :: s) = none) :
    readings byId (c :: s) = readings byId s := by
  have hcons : ∀ xs : List Slice,
      ((consLiteral c xs).filterMap (Slice.resolve? byId)).filterMap Part.formula? =
        (xs.filterMap (Slice.resolve? byId)).filterMap Part.formula? := by
    intro xs
    unfold consLiteral
    split <;> rfl
  rw [readings, splitPlaceholders, slices_of_markAt?_eq_none h, hcons]
  rfl

theorem standing_suffix_append (x s : Text) : standing byId s <:+ standing byId (x ++ s) := by
  induction x with
  | nil => exact List.suffix_refl _
  | cons c x ih => exact ih.trans (List.suffix_append _ _)

/-- What splitting finds stands in the text, in the same order. -/
theorem readings_sublist_standing (s : Text) :
    (readings byId s).Sublist (standing byId s) := by
  induction s using slices.induct with
  | case1 =>
    rw [readings_nil]
    exact List.Sublist.refl _
  | case2 c s id r h ih =>
    obtain ⟨x, hx⟩ : r <:+ s := by
      have hlength := length_lt_of_markAt? h
      have hr : r <:+ c :: s := ⟨placeholder id, (source_of_markAt? h).symm⟩
      rcases List.suffix_cons_iff.mp hr with rfl | hr
      · exact absurd hlength (Nat.lt_irrefl _)
      · exact hr
    have hrest : (standing byId r).Sublist (standing byId s) := by
      rw [← hx]
      exact (standing_suffix_append x r).sublist
    rw [readings_of_markAt?_eq_some h, standing, h]
    exact (List.Sublist.refl _).append (ih.trans hrest)
  | case3 c s h ih =>
    rw [readings_cons_of_markAt?_eq_none h, standing, h]
    exact ih

end Readings

/-! ### What stands in a page -/

/-- The ids that are known are those of a run, and those of the parts are among them. -/
structure Resolves (key : Text) (byId : Text → Option Formula) (ps : List Part) : Prop where
  known : ∀ id f, byId id = some f → ∃ n, id = tokenId 'm' n key
  found : ∀ f, Part.math f ∈ ps → byId f.id = some f

theorem Resolves.of_cons {key : Text} {byId : Text → Option Formula} {p : Part} {ps : List Part}
    (h : Resolves key byId (p :: ps)) : Resolves key byId ps :=
  ⟨h.known, fun f hf => h.found f (List.mem_cons_of_mem p hf)⟩

section Page

variable {key : Text} {byId : Text → Option Formula} {ps : List Part}

theorem Resolves.shows (h : Resolves key byId ps) : Shows key (fun f => placeholder f.id) ps := by
  intro f hf
  obtain ⟨n, hn⟩ := h.known f.id f (h.found f hf)
  exact .inl ⟨n, congrArg placeholder hn⟩

theorem IsRunKey.isMarkId (hkey : IsRunKey key) (n : Nat) : IsMarkId (tokenId 'm' n key) :=
  isMarkId_tokenId hkey.oneLine hkey.no_markEnd n

/-- A placeholder that is read where none of the run starts is none that is known. -/
theorem byId_eq_none (hknown : ∀ id f, byId id = some f → ∃ n, id = tokenId 'm' n key)
    {s id r : Text} (hs : ∀ n, ¬ placeholder (tokenId 'm' n key) <+: s)
    (h : markAt? s = some (id, r)) : byId id = none := by
  cases hid : byId id with
  | none => rfl
  | some f =>
    obtain ⟨n, rfl⟩ := hknown id f hid
    exact absurd ⟨r, (source_of_markAt? h).symm⟩ (hs n)

/-- Where no placeholder of the run starts, no formula stands. -/
theorem standing_append (hknown : ∀ id f, byId id = some f → ∃ n, id = tokenId 'm' n key)
    {x s : Text} (h : ∀ n, Text.Skips (placeholder (tokenId 'm' n key)) x s) :
    standing byId (x ++ s) = standing byId s := by
  induction x with
  | nil => rfl
  | cons c x ih =>
    have hhead : ∀ n, ¬ placeholder (tokenId 'm' n key) <+: c :: (x ++ s) := fun n =>
      (Text.skips_cons.mp (h n)).1
    have hnone : ((markAt? (c :: (x ++ s))).bind fun p => byId p.1) = none := by
      cases hat : markAt? (c :: (x ++ s)) with
      | none => rfl
      | some p => exact byId_eq_none hknown hhead hat
    rw [List.cons_append, standing, hnone, ih fun n => (Text.skips_cons.mp (h n)).2]
    rfl

variable (hkey : IsRunKey key)
include hkey

/-- No placeholder of the run starts in a literal without the key. -/
theorem skips_literal (hids : Resolves key byId ps) (hclear : Clear key ps) {u : Text}
    (hu : ¬ key <:+: u ++ leading ps) (n : Nat) :
    Text.Skips (placeholder (tokenId 'm' n key)) u (ps.flatMap Part.marked) := by
  rw [Part.marked_eq_filled]
  exact skips_filled hkey n hids.shows hclear hu

/-- After the first character of a placeholder, the next formula is that of
the next placeholder. -/
theorem standing_tail_placeholder {f : Formula} (hids : Resolves key byId (.math f :: ps))
    (hclear : Clear key ps) :
    standing byId ((placeholder f.id).tail ++ ps.flatMap Part.marked) =
      standing byId (ps.flatMap Part.marked) := by
  obtain ⟨n, hn⟩ := hids.known f.id f (hids.found f List.mem_cons_self)
  refine standing_append hids.known fun m => ?_
  rw [hn, placeholder_eq_core, Part.marked_eq_filled]
  exact skips_tail_placeholder hkey m n hids.of_cons.shows hclear

/-- In a page of literals without the key, the formulas that stand in it are
those that were put in. -/
theorem standing_marked (hids : Resolves key byId ps) (hclear : Clear key ps) :
    standing byId (ps.flatMap Part.marked) = ps.filterMap Part.formula? := by
  induction ps with
  | nil => rfl
  | cons p ps ih =>
    obtain ⟨hlead, hrest⟩ := clear_cons.mp hclear
    have ih := ih hids.of_cons hrest
    cases p with
    | literal u =>
      have hskips := skips_literal hkey hids.of_cons hrest (u := u) hlead
      rw [List.flatMap_cons, Part.marked, standing_append hids.known hskips, ih,
        filterMap_formula?_literal]
    | math f =>
      have hf : byId f.id = some f := hids.found f List.mem_cons_self
      obtain ⟨n, hn⟩ := hids.known f.id f hf
      have hat : markAt? (placeholder f.id ++ ps.flatMap Part.marked) =
          some (f.id, ps.flatMap Part.marked) :=
        markAt?_placeholder_append (hn ▸ hkey.isMarkId n) _
      have hhead : placeholder f.id = 'M' :: (placeholder f.id).tail := rfl
      have htail := standing_tail_placeholder hkey hids hrest
      rw [hhead, List.cons_append] at hat
      rw [List.flatMap_cons, Part.marked, hhead, List.cons_append, standing, hat, htail, ih,
        Option.bind_some, hf, filterMap_formula?_math]
      rfl

end Page

/-! ### Literals that run into a placeholder -/

/-- Whether a text ends inside a placeholder: read from the left, one starts
that has no end in the text, and no line ends after its start. -/
def endsOpen : Text → Bool
  | [] => false
  | c :: s =>
    match _ : markAt? (c :: s) with
    | some (_, r) => endsOpen r
    | none => (markStart.isPrefixOf (c :: s) && !(c :: s).contains '\n') || endsOpen s
termination_by s => s.length
decreasing_by
  · exact length_lt_of_markAt? (by assumption)
  · simp

theorem endsOpen_of_markAt?_eq_some {s id r : Text} (h : markAt? s = some (id, r)) :
    endsOpen s = endsOpen r := by
  cases s with
  | nil => simp [markAt?, Text.after?, markStart] at h
  | cons c s =>
    rw [endsOpen]
    split
    · rename_i hat
      rw [h] at hat
      rw [(Prod.mk.inj (Option.some.inj hat)).2]
    · rename_i hat
      rw [h] at hat
      simp at hat

theorem endsOpen_cons_of_markAt?_eq_none {c : Char} {s : Text} (h : markAt? (c :: s) = none) :
    endsOpen (c :: s) = true ↔ (markStart <+: c :: s ∧ '\n' ∉ c :: s) ∨ endsOpen s = true := by
  rw [endsOpen]
  split
  · rename_i hat
    rw [h] at hat
    simp at hat
  · simp [List.isPrefixOf_iff_prefix]

section Literal

variable {u id s : Text}

/-- A placeholder that has its end in a text is read there, whatever follows. -/
theorem markAt?_append {r : Text} (h : markAt? u = some (id, r)) (s : Text) :
    markAt? (u ++ s) = some (id, r ++ s) := by
  obtain ⟨rfl, hid⟩ := markAt?_eq_some_iff.mp h
  exact markAt?_eq_some_iff.mpr ⟨by rw [List.append_assoc], hid⟩

/-- A placeholder that is read only because of what follows the text that it
starts in has its end beyond that text. -/
theorem end_of_markAt?_append {w x i b : Text} (hnone : markAt? (markStart ++ w) = none)
    (h : markAt? (markStart ++ w ++ x) = some (i, b)) :
    w ++ x = (i ++ markEnd) ++ b ∧ w.length < (i ++ markEnd).length := by
  obtain ⟨hsource, hi, hline, hend⟩ := markAt?_eq_some_iff.mp h
  have hrest : w ++ x = (i ++ markEnd) ++ b := by
    have hparts : placeholder i ++ b = markStart ++ ((i ++ markEnd) ++ b) := by simp [placeholder]
    rw [hparts, List.append_assoc] at hsource
    exact List.append_cancel_left hsource
  refine ⟨hrest, ?_⟩
  by_contra hle
  push Not at hle
  obtain ⟨b', rfl⟩ : i ++ markEnd <+: w :=
    List.prefix_of_prefix_length_le ⟨b, hrest.symm⟩ (List.prefix_append _ _) hle
  have : markAt? (markStart ++ (i ++ markEnd ++ b')) = some (i, b') :=
    markAt?_eq_some_iff.mpr ⟨by simp [placeholder], hi, hline, hend⟩
  rw [this] at hnone
  simp at hnone

/-- If a placeholder starts in a text, has no end in it, and is read because of
the placeholder that follows, then no line ends after its start, and what is left of
that other placeholder is not the whole of it. -/
theorem open_of_markAt?_append {i b : Text} (hne : u ≠ []) (hnone : markAt? u = none)
    (h : markAt? (u ++ (placeholder id ++ s)) = some (i, b)) :
    (markStart <+: u ∧ '\n' ∉ u) ∧ b <:+ (placeholder id).tail ++ s := by
  obtain ⟨hsource, -, hline, -⟩ := markAt?_eq_some_iff.mp h
  have hstart : markStart <+: u := by
    have hp : markStart <+: u ++ (markStart ++ (id ++ markEnd ++ s)) := by
      have : placeholder id ++ s = markStart ++ (id ++ markEnd ++ s) := by simp [placeholder]
      rw [← this, hsource, placeholder, List.append_assoc, List.append_assoc]
      exact List.prefix_append _ _
    exact Text.prefix_of_prefix_append_self unbordered_markStart hne hp
  obtain ⟨w, rfl⟩ := hstart
  obtain ⟨hrest, hlong⟩ := end_of_markAt?_append hnone h
  have hw : w <+: i ++ markEnd :=
    List.prefix_of_prefix_length_le (List.prefix_append _ _) ⟨b, hrest.symm⟩ hlong.le
  refine ⟨⟨List.prefix_append _ _, fun hmem => ?_⟩, ?_⟩
  · have hfixed : '\n' ∉ markStart ∧ '\n' ∉ markEnd := by decide
    rcases List.mem_append.mp hmem with hmem | hmem
    · exact hfixed.1 hmem
    · exact (List.mem_append.mp (hw.subset hmem)).elim hline hfixed.2
  · have hb : b <:+ w ++ 'M' :: ((placeholder id).tail ++ s) := ⟨i ++ markEnd, hrest.symm⟩
    have hlength := congrArg List.length hrest
    have hhead : placeholder id = 'M' :: (placeholder id).tail := rfl
    refine List.suffix_of_suffix_length_le hb
      ((List.suffix_cons 'M' _).trans (List.suffix_append w _)) ?_
    rw [hhead] at hlength
    simp only [List.length_append, List.length_cons] at hlength hlong ⊢
    omega

/-- Where a text ends inside a placeholder, the placeholder that follows it
gives that one an end. -/
theorem exists_markAt?_append (hstart : markStart <+: u) (hline : '\n' ∉ u) (hid : '\n' ∉ id)
    (s : Text) : ∃ i b, markAt? (u ++ (placeholder id ++ s)) = some (i, b) := by
  obtain ⟨w, rfl⟩ := hstart
  have hw : '\n' ∉ w ++ (markStart ++ id) := by
    have hfixed : '\n' ∉ markStart := by decide
    simp only [List.mem_append, not_or] at hline ⊢
    exact ⟨hline.2, hfixed, hid⟩
  obtain ⟨d, y, hy⟩ : ∃ d y, w ++ (markStart ++ id) = d :: y :=
    List.exists_cons_of_ne_nil (by simp [markStart])
  rw [hy] at hw
  have hin : markEnd <:+: y ++ markEnd := (List.suffix_append y _).isInfix
  obtain ⟨a, b, hab, hend⟩ := Text.exists_eq_append_of_infix (by decide) hin
  have ha : '\n' ∉ a := fun hmem => by
    have hmem : '\n' ∈ y ++ markEnd := hab ▸ List.mem_append_left _ hmem
    have hfixed : '\n' ∉ markEnd := by decide
    exact (List.mem_append.mp hmem).elim (List.not_mem_of_not_mem_cons hw) hfixed
  refine ⟨d :: a, b ++ s, markAt?_eq_some_iff.mpr ⟨?_, by simp, ?_, hend⟩⟩
  · calc markStart ++ w ++ (placeholder id ++ s)
        = markStart ++ ((w ++ (markStart ++ id)) ++ (markEnd ++ s)) := by simp [placeholder]
      _ = markStart ++ (d :: (y ++ markEnd) ++ s) := by simp [hy]
      _ = placeholder (d :: a) ++ (b ++ s) := by simp [hab, placeholder]
  · exact List.not_mem_cons_of_ne_of_not_mem (List.ne_of_not_mem_cons hw) ha

variable {key : Text} {byId : Text → Option Formula}
variable (hknown : ∀ id f, byId id = some f → ∃ n, id = tokenId 'm' n key)
variable (hskips : ∀ n, Text.Skips (placeholder (tokenId 'm' n key)) u (placeholder id ++ s))
include hknown hskips

/-- A placeholder that has its end in a literal gives no formula. -/
theorem readings_append_of_markAt? {i r : Text} (hat : markAt? u = some (i, r)) :
    readings byId (u ++ (placeholder id ++ s)) = readings byId (r ++ (placeholder id ++ s)) ∧
      ∀ n, Text.Skips (placeholder (tokenId 'm' n key)) r (placeholder id ++ s) := by
  have hsource : u = placeholder i ++ r := source_of_markAt? hat
  have hne : u ≠ [] := by simp [hsource, placeholder_ne_nil]
  have hwhole := markAt?_append hat (placeholder id ++ s)
  have hnone : byId i = none :=
    byId_eq_none hknown (fun n => hskips n u (List.suffix_refl u) hne) hwhole
  refine ⟨?_, fun n => ?_⟩
  · rw [readings_of_markAt?_eq_some hwhole, hnone]
    rfl
  · have := hskips n
    rw [hsource, Text.skips_append] at this
    exact this.2

/-- A literal that does not end inside a placeholder is passed over. -/
theorem readings_append_of_closed (hopen : ¬ endsOpen u = true) :
    readings byId (u ++ (placeholder id ++ s)) = readings byId (placeholder id ++ s) := by
  induction u using endsOpen.induct with
  | case1 => rfl
  | case2 c u i r hat ih =>
    obtain ⟨hread, hrest⟩ := readings_append_of_markAt? hknown hskips hat
    rw [endsOpen_of_markAt?_eq_some hat] at hopen
    rw [hread]
    exact ih hrest hopen
  | case3 c u hat ih =>
    rw [endsOpen_cons_of_markAt?_eq_none hat, not_or] at hopen
    have hwhole : markAt? ((c :: u) ++ (placeholder id ++ s)) = none := by
      cases h : markAt? ((c :: u) ++ (placeholder id ++ s)) with
      | none => rfl
      | some p => exact absurd (open_of_markAt?_append (by simp) hat h).1 hopen.1
    rw [List.cons_append] at hwhole ⊢
    rw [readings_cons_of_markAt?_eq_none hwhole]
    exact ih (fun n => (Text.skips_cons.mp (hskips n)).2) hopen.2

/-- After a literal that ends inside a placeholder, splitting goes on behind
the start of the next one. -/
theorem readings_append_of_open (hid : '\n' ∉ id) (hopen : endsOpen u = true) :
    ∃ r, r <:+ (placeholder id).tail ++ s ∧
      readings byId (u ++ (placeholder id ++ s)) = readings byId r := by
  induction u using endsOpen.induct with
  | case1 => simp [endsOpen] at hopen
  | case2 c u i r hat ih =>
    obtain ⟨hread, hrest⟩ := readings_append_of_markAt? hknown hskips hat
    rw [endsOpen_of_markAt?_eq_some hat] at hopen
    rw [hread]
    exact ih hrest hopen
  | case3 c u hat ih =>
    cases hwhole : markAt? ((c :: u) ++ (placeholder id ++ s)) with
    | some p =>
      have hnone : byId p.1 = none :=
        byId_eq_none hknown (fun n => (Text.skips_cons.mp (hskips n)).1) hwhole
      refine ⟨p.2, (open_of_markAt?_append (by simp) hat hwhole).2, ?_⟩
      rw [readings_of_markAt?_eq_some hwhole, hnone]
      rfl
    | none =>
      have hopen : endsOpen u = true := by
        refine ((endsOpen_cons_of_markAt?_eq_none hat).mp hopen).resolve_left ?_
        rintro ⟨hstart, hline⟩
        obtain ⟨i, b, hib⟩ := exists_markAt?_append hstart hline hid s
        rw [hwhole] at hib
        simp at hib
      rw [List.cons_append] at hwhole ⊢
      rw [readings_cons_of_markAt?_eq_none hwhole]
      exact ih (fun n => (Text.skips_cons.mp (hskips n)).2) hopen

end Literal

/-! ### Which formulas are missed -/

/-- No formula comes where the literal text before it, which starts with `u`,
ends inside a placeholder. -/
def Readable : Text → List Part → Prop
  | _, [] => True
  | u, .literal v :: ps => Readable (u ++ v) ps
  | u, .math _ :: ps => ¬ endsOpen u = true ∧ Readable [] ps

/-- A text ends inside a placeholder only if one starts in it. -/
theorem markStart_infix_of_endsOpen {u : Text} (h : endsOpen u = true) : markStart <:+: u := by
  induction u using endsOpen.induct with
  | case1 => simp [endsOpen] at h
  | case2 c u i r hat ih =>
    rw [source_of_markAt? hat, placeholder, List.append_assoc, List.append_assoc]
    exact (List.prefix_append _ _).isInfix
  | case3 c u hat ih =>
    rcases (endsOpen_cons_of_markAt?_eq_none hat).mp h with h | h
    · exact h.1.isInfix
    · exact (ih h).trans (List.suffix_cons c u).isInfix

theorem readable_of_clear {ps : List Part} (hclear : Clear markStart ps) {u : Text}
    (hu : ¬ markStart <:+: u ++ leading ps) : Readable u ps := by
  induction ps generalizing u with
  | nil => trivial
  | cons p ps ih =>
    obtain ⟨hlead, hrest⟩ := clear_cons.mp hclear
    cases p with
    | literal v => exact ih hrest (by simpa [leading] using hu)
    | math f =>
      have hu : ¬ markStart <:+: u := by simpa [leading] using hu
      exact ⟨fun h => hu (markStart_infix_of_endsOpen h), ih hrest hrest.leading⟩

section Run

variable {key : Text} {byId : Text → Option Formula} {ps : List Part} (hkey : IsRunKey key)
include hkey

/-- Splitting finds no formula that was not put in, and none out of its place. -/
theorem readings_marked_sublist (hids : Resolves key byId ps) (hclear : Clear key ps) :
    (readings byId (ps.flatMap Part.marked)).Sublist (ps.filterMap Part.formula?) := by
  rw [← standing_marked hkey hids hclear]
  exact readings_sublist_standing _

/-- Splitting finds all formulas just if no literal runs into a placeholder. -/
theorem readings_marked_iff (hids : Resolves key byId ps) (hclear : Clear key ps) {u : Text}
    (hu : ¬ key <:+: u ++ leading ps) :
    readings byId (u ++ ps.flatMap Part.marked) = ps.filterMap Part.formula? ↔
      Readable u ps := by
  induction ps generalizing u with
  | nil =>
    have hskips := skips_literal hkey hids hclear hu
    have hnone : standing byId (u ++ []) = [] := standing_append hids.known hskips
    have hsub : (readings byId (u ++ [])).Sublist (standing byId (u ++ [])) :=
      readings_sublist_standing _
    rw [hnone] at hsub
    exact iff_of_true (List.sublist_nil.mp hsub) trivial
  | cons p ps ih =>
    have hrest := (clear_cons.mp hclear).2
    have ih := fun u => ih (u := u) hids.of_cons hrest
    cases p with
    | literal v =>
      rw [List.flatMap_cons, Part.marked, filterMap_formula?_literal, Readable,
        ← List.append_assoc]
      exact ih (u ++ v) (by simpa [leading] using hu)
    | math f =>
      have hf : byId f.id = some f := hids.found f List.mem_cons_self
      have hid : IsMarkId f.id := by
        obtain ⟨n, hn⟩ := hids.known f.id f hf
        rw [hn]
        exact hkey.isMarkId n
      have hskips := skips_literal hkey hids hclear hu
      rw [List.flatMap_cons, Part.marked] at hskips
      rw [List.flatMap_cons, Part.marked, Readable, ← ih [] hrest.leading, List.nil_append]
      by_cases hopen : endsOpen u = true
      · -- one formula less is left to be found
        obtain ⟨r, ⟨x, hx⟩, hread⟩ :=
          readings_append_of_open hids.known hskips hid.oneLine hopen
        have hfewer : (readings byId r).length ≤ (ps.filterMap Part.formula?).length := by
          have htail := standing_tail_placeholder hkey hids hrest
          rw [standing_marked hkey hids.of_cons hrest, ← hx] at htail
          rw [← htail]
          exact ((readings_sublist_standing r).trans
            (standing_suffix_append x r).sublist).length_le
        refine iff_of_false (fun heq => ?_) fun h => h.1 hopen
        rw [hread] at heq
        rw [heq, filterMap_formula?_math, List.length_cons] at hfewer
        exact absurd hfewer (Nat.not_succ_le_self _)
      · rw [readings_append_of_closed hids.known hskips hopen,
          readings_of_markAt?_eq_some (markAt?_placeholder_append hid _), hf,
          filterMap_formula?_math]
        simp [hopen]

end Run

/-- **Splitting finds the formulas of the page, in their order, but for those
that a literal runs into.** In a page that interleaves literals without the
key and placeholders of the formulas, weaving replaces every placeholder;
splitting the same text finds some of these formulas, and all of them just
if before none of them the literal text ends inside a placeholder. -/
theorem readings_eq_substituted_iff (ts : List Token) (ps : List Part) (key : Text)
    (ns : List Nat) (hkey : IsRunKey key) (hns : ns.Nodup)
    (hids : (formulas ts).map Formula.id = ns.map fun n => tokenId 'm' n key)
    (hmem : ∀ f, Part.math f ∈ ps → f ∈ formulas ts) (hclear : Clear key ps) :
    (∀ replacer : Formula → Text, (∀ f ∈ formulas ts, IsMarkup key (replacer f)) →
      (weaveInto replacer (formulas ts) (ps.flatMap Part.marked)).page =
        ps.flatMap (Part.filled replacer)) ∧
    (readings (formulaById ts) (ps.flatMap Part.marked)).Sublist
      (ps.filterMap Part.formula?) ∧
    (readings (formulaById ts) (ps.flatMap Part.marked) = ps.filterMap Part.formula? ↔
      Readable [] ps) := by
  have hnumber : ∀ g ∈ formulas ts, ∃ n, g.id = tokenId 'm' n key := fun g => exists_number hids
  have hnodup : ((formulas ts).map Formula.id).Nodup := nodup_ids_of_numbers hids hns
  have hresolves : Resolves key (formulaById ts) ps := by
    refine ⟨fun id f h => ?_, fun f hf => ?_⟩
    · obtain ⟨hf, rfl⟩ := (formulaById_eq_some_iff hnodup).mp h
      exact hnumber f (mem_formulas_iff.mpr hf)
    · exact (formulaById_eq_some_iff hnodup).mpr ⟨mem_formulas_iff.mp (hmem f hf), rfl⟩
  refine ⟨fun replacer hrep => ?_, readings_marked_sublist hkey hresolves hclear,
    readings_marked_iff hkey hresolves hclear (u := []) hclear.leading⟩
  rw [weaveInto_marked hkey hclear (fun g hg => ⟨hnumber g hg, hrep g hg⟩) hnodup hmem]

/-- The first formula beside marks stands in the page, and is missed. -/
theorem readings_eq_substituted_iff_besideMarks :
    (weaveInto screenMarkup (formulas besideMarks)
        (besideMarksPage.flatMap Part.marked)).page =
      "<p>MATHPH <span>a</span><span>b</span>PHMATH</p>\n".toList ∧
    ¬ Readable [] besideMarksPage ∧
    readings (formulaById besideMarks) (besideMarksPage.flatMap Part.marked) ≠
      [numbered 1 "a", numbered 11 "b"] := by
  obtain ⟨hpage, -, hiff⟩ := readings_eq_substituted_iff besideMarks besideMarksPage digitsKey
    [1, 11] isRunKey_digitsKey (by decide) (by rfl)
    (fun _ => mem_formulas_besideMarks) clear_besideMarksPage
  have hopen : endsOpen "<p>MATHPH ".toList = true := by decide +kernel
  have hnot : ¬ Readable [] besideMarksPage := fun h => h.1 hopen
  refine ⟨?_, hnot, fun h => hnot (hiff.mp h)⟩
  rw [hpage screenMarkup fun _ => isMarkup_screenMarkup_besideMarks]
  rfl

end Formulary
