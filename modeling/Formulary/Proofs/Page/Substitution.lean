/-
# Replacing placeholders one by one

The placeholders in a page are replaced formula by formula, each time in the
whole page. Under the key of a run this is one simultaneous substitution
(`weave_marked`): a search for a placeholder meets it where it was put
and nowhere else, because the key stands in no literal and in no markup, and
the only `M` in a placeholder after its first one is in its last four characters.

Key definitions: `IsRunKey`, `IsMarkup`, `Part.filled`, `Shows`, `stage`.
Key theorems: `skips_part`, `replaceAll_filled`, `count_filled`, `weaveOne_filled`,
`foldl_weaveOne`, `weave_marked`.
-/
import Formulary.Page.Weave
import Formulary.Proofs.Token.Interleaving
import Formulary.Proofs.Token.Run

namespace Formulary

/-- A lowercase hexadecimal digit. -/
def isLowerHex (c : Char) : Bool := ('0' ≤ c && c ≤ '9') || ('a' ≤ c && c ≤ 'f')

/-- A key such as a run draws for itself: twelve lowercase hexadecimal digits. -/
structure IsRunKey (key : Text) : Prop where
  length_eq : key.length = 12
  lowerHex : ∀ c ∈ key, isLowerHex c = true

/-- Markup that can take a placeholder's place: from one tag to another, and
without the key. -/
structure IsMarkup (key t : Text) : Prop where
  starts : ['<'] <+: t
  ends : ['>'] <:+ t
  no_key : ¬ key <:+: t

/-- A part in a page where `σ` stands for the formulas. -/
def Part.filled (σ : Formula → Text) : Part → Text
  | .literal s => s
  | .math f => σ f

theorem Part.marked_eq_filled : Part.marked = Part.filled fun f => placeholder f.id := by
  funext p
  cases p <;> rfl

namespace IsRunKey

variable {key : Text}

theorem notMem (h : IsRunKey key) {c : Char} (hc : isLowerHex c = false) : c ∉ key := fun hm => by
  rw [h.lowerHex c hm] at hc
  simp at hc

theorem ne_nil (h : IsRunKey key) : key ≠ [] := by
  rintro rfl
  simpa using h.length_eq

theorem oneLine (h : IsRunKey key) : '\n' ∉ key := h.notMem rfl

theorem no_markEnd (h : IsRunKey key) : ¬ markEnd <:+: key := fun hin =>
  h.notMem (c := 'P') rfl (hin.subset List.mem_cons_self)

end IsRunKey

/-! ### The shape of a placeholder -/

/-- A placeholder of a run between its first four characters and its end mark. -/
def core (key : Text) (n : Nat) : Text := "PHm-".toList ++ Text.ofNat n ++ '-' :: key

theorem placeholder_eq_core (key : Text) (n : Nat) :
    placeholder (tokenId 'm' n key) = 'M' :: ("ATH".toList ++ core key n ++ markEnd) := by
  simp [placeholder, tokenId, core, markStart]

theorem placeholder_ne_nil (id : Text) : placeholder id ≠ [] := by
  simp [placeholder, markStart]

theorem key_infix_core (key : Text) (n : Nat) : key <:+: core key n :=
  ((List.suffix_cons '-' key).trans (List.suffix_append _ _)).isInfix

theorem notMem_core {key : Text} (hkey : IsRunKey key) (n : Nat) : 'M' ∉ core key n := by
  have hdigits : 'M' ∉ Text.ofNat n := fun h => by simpa using Text.isDigit_of_mem_ofNat h
  simp [core, hdigits, hkey.notMem (c := 'M') rfl]

/-- After its first character, a placeholder has an `M` only where its last
four characters start. -/
theorem eq_of_suffix_core {key t : Text} (hkey : IsRunKey key) {n : Nat}
    (ht : 'M' :: t <:+ "ATH".toList ++ core key n ++ markEnd) : t = "ATH".toList := by
  have hM : 'M' ∉ "ATH".toList ++ core key n ++ "PH".toList := by simp [notMem_core hkey n]
  have hend : 'M' :: t <:+ "MATH".toList := by
    apply Text.suffix_of_suffix_append hM
    rwa [List.append_assoc _ "PH".toList]
  rcases List.suffix_cons_iff.mp hend with heq | hrest
  · exact (List.cons.inj heq).2
  · exact absurd (hrest.subset List.mem_cons_self) (by decide)

/-! ### Where a placeholder can start -/

/-- In place of each formula stands a placeholder of the run, or markup. -/
def Shows (key : Text) (σ : Formula → Text) (ps : List Part) : Prop :=
  ∀ f, Part.math f ∈ ps → (∃ n, σ f = placeholder (tokenId 'm' n key)) ∨ IsMarkup key (σ f)

theorem Shows.of_cons {key : Text} {σ : Formula → Text} {p : Part} {ps : List Part}
    (h : Shows key σ (p :: ps)) : Shows key σ ps :=
  fun f hf => h f (List.mem_cons_of_mem p hf)

variable {key : Text} {σ : Formula → Text}

theorem IsMarkup.exists_eq {t : Text} (ht : IsMarkup key t) : ∃ w, t = '<' :: (w ++ ['>']) := by
  obtain ⟨a, rfl⟩ := ht.starts
  obtain ⟨b, hb⟩ := ht.ends
  cases b with
  | nil => simp at hb
  | cons c b =>
    obtain ⟨rfl, hrest⟩ := List.cons.inj hb
    exact ⟨b, congrArg (List.cons '<') hrest.symm⟩

/-- Markup parts the text before it from the text after it. -/
theorem IsMarkup.key_not_infix_append {t u v : Text} (hkey : IsRunKey key) (ht : IsMarkup key t)
    (hu : ¬ key <:+: u) (hv : ¬ key <:+: v) : ¬ key <:+: u ++ t ++ v := by
  obtain ⟨w, rfl⟩ := ht.exists_eq
  have hw : ¬ key <:+: w := fun h => ht.no_key (h.trans ⟨['<'], ['>'], by simp⟩)
  rw [List.append_assoc, List.cons_append, List.append_assoc, List.singleton_append,
    Text.infix_append_cons_iff (hkey.notMem rfl), Text.infix_append_cons_iff (hkey.notMem rfl)]
  exact fun h => h.elim hu fun h => h.elim hw hv

/-- A text up to the key does not stand at the start of a page, if it has no
`M`: before the first placeholder there is no key, and that starts with `M`. -/
theorem not_prefix_filled (hkey : IsRunKey key) {w : Text} (hM : 'M' ∉ w) (hw : key <:+: w)
    {ps : List Part} (hσ : Shows key σ ps) (hclear : Clear key ps) {u : Text}
    (hu : ¬ key <:+: u ++ leading ps) : ¬ w <+: u ++ ps.flatMap (Part.filled σ) := by
  induction ps generalizing u with
  | nil =>
    intro h
    exact hu (hw.trans h.isInfix)
  | cons p ps ih =>
    have hrest := (clear_cons.mp hclear).2
    have ih := fun u => ih (u := u) hσ.of_cons hrest
    rw [List.flatMap_cons]
    cases p with
    | literal s =>
      have := ih (u ++ s) (by simpa [leading] using hu)
      simpa [Part.filled] using this
    | math f =>
      have hu : ¬ key <:+: u := by simpa [leading] using hu
      rcases hσ f List.mem_cons_self with ⟨n, hn⟩ | hmark
      · rw [Part.filled, hn, placeholder_eq_core, List.cons_append]
        intro h
        exact hu (hw.trans (Text.prefix_of_prefix_append_cons hM h).isInfix)
      · have := ih (u ++ σ f) (hmark.key_not_infix_append hkey hu hrest.leading)
        simpa [Part.filled] using this

/-- No placeholder starts in a text without the key. -/
theorem skips_filled (hkey : IsRunKey key) (n : Nat) {ps : List Part} (hσ : Shows key σ ps)
    (hclear : Clear key ps) {u : Text} (hu : ¬ key <:+: u ++ leading ps) :
    Text.Skips (placeholder (tokenId 'm' n key)) u (ps.flatMap (Part.filled σ)) := by
  rintro t ⟨v, rfl⟩ hne hp
  obtain ⟨c, t, rfl⟩ := List.exists_cons_of_ne_nil hne
  rw [placeholder_eq_core] at hp
  have hM : 'M' ∉ "ATH".toList ++ core key n := by simp [notMem_core hkey n]
  have hin : key <:+: "ATH".toList ++ core key n :=
    (key_infix_core key n).trans (List.suffix_append _ _).isInfix
  have ht : ¬ key <:+: t ++ leading ps := fun h => hu (h.trans ⟨v ++ [c], [], by simp⟩)
  exact not_prefix_filled hkey hM hin hσ hclear ht
    ((List.prefix_append _ _).trans (List.cons_prefix_cons.mp hp).2)

/-- No placeholder starts in another one after its first character: from the
second `M` on, the rest of the page would start with the key. -/
theorem skips_tail_placeholder (hkey : IsRunKey key) (m n : Nat) {ps : List Part}
    (hσ : Shows key σ ps) (hclear : Clear key ps) :
    Text.Skips (placeholder (tokenId 'm' m key)) ("ATH".toList ++ core key n ++ markEnd)
      (ps.flatMap (Part.filled σ)) := by
  intro t ht hne hp
  obtain ⟨c, t, rfl⟩ := List.exists_cons_of_ne_nil hne
  rw [placeholder_eq_core] at hp
  obtain rfl : 'M' = c := (List.cons_prefix_cons.mp hp).1
  obtain rfl := eq_of_suffix_core hkey ht
  rw [List.cons_append] at hp
  have hp := (List.cons_prefix_cons.mp hp).2
  rw [List.append_assoc, List.prefix_append_right_inj] at hp
  exact not_prefix_filled hkey (notMem_core hkey m) (key_infix_core key m) hσ hclear
    (u := []) hclear.leading ((List.prefix_append _ _).trans hp)

/-- No placeholder starts in another one. -/
theorem skips_placeholder (hkey : IsRunKey key) {m n : Nat} (hmn : m ≠ n) {ps : List Part}
    (hσ : Shows key σ ps) (hclear : Clear key ps) :
    Text.Skips (placeholder (tokenId 'm' m key)) (placeholder (tokenId 'm' n key))
      (ps.flatMap (Part.filled σ)) := by
  rw [placeholder_eq_core key n]
  refine Text.skips_cons.mpr ⟨fun hp => ?_, skips_tail_placeholder hkey m n hσ hclear⟩
  -- from the first character on, the ids would have to agree
  rw [← List.cons_append, ← placeholder_eq_core key n] at hp
  obtain ⟨r, hr⟩ := hp
  simp only [placeholder, List.append_assoc] at hr
  exact hmn (tokenId_append_inj (List.append_cancel_left hr)).2.1

/-- A search for a placeholder passes over every part that is not this placeholder. -/
theorem skips_part (hkey : IsRunKey key) (m : Nat) {p : Part} {ps : List Part}
    (hσ : Shows key σ (p :: ps)) (hclear : Clear key (p :: ps))
    (hne : ∀ f, p = .math f → σ f ≠ placeholder (tokenId 'm' m key)) :
    Text.Skips (placeholder (tokenId 'm' m key)) (p.filled σ) (ps.flatMap (Part.filled σ)) := by
  obtain ⟨hlead, hrest⟩ := clear_cons.mp hclear
  cases p with
  | literal s => exact skips_filled hkey m hσ.of_cons hrest hlead
  | math f =>
    rcases hσ f List.mem_cons_self with ⟨n, hn⟩ | hmark
    · have hmn : m ≠ n := by
        rintro rfl
        exact hne f rfl hn
      rw [Part.filled, hn]
      exact skips_placeholder hkey hmn hσ.of_cons hrest
    · have hnil : ¬ key <:+: [] := fun h => hkey.ne_nil (List.infix_nil.mp h)
      have hapart := hmark.key_not_infix_append hkey hnil hrest.leading
      exact skips_filled hkey m hσ.of_cons hrest hapart

/-- Replacing a placeholder changes what stands for its formulas, and nothing else. -/
theorem replaceAll_filled (hkey : IsRunKey key) (m : Nat) (rep : Text) {ps : List Part}
    (hσ : Shows key σ ps) (hclear : Clear key ps) :
    Text.replaceAll (placeholder (tokenId 'm' m key)) rep (ps.flatMap (Part.filled σ)) =
      ps.flatMap (Part.filled fun f =>
        if σ f = placeholder (tokenId 'm' m key) then rep else σ f) := by
  have hP := placeholder_ne_nil (tokenId 'm' m key)
  induction ps with
  | nil =>
    refine Text.replaceAll_of_absent fun h => ?_
    exact hP (List.infix_nil.mp h)
  | cons p ps ih =>
    have ih := ih hσ.of_cons (clear_cons.mp hclear).2
    rw [List.flatMap_cons, List.flatMap_cons, ← ih]
    by_cases hp : ∃ f, p = .math f ∧ σ f = placeholder (tokenId 'm' m key)
    · obtain ⟨f, rfl, hf⟩ := hp
      rw [Part.filled, Part.filled, if_pos hf, hf, Text.replaceAll_self_append hP]
    · push Not at hp
      rw [Text.replaceAll_append hP (skips_part hkey m hσ hclear hp)]
      cases p with
      | literal s => rfl
      | math f => rw [Part.filled, Part.filled, if_neg (hp f rfl)]

/-- The number of times a placeholder occurs is the number of formulas that it stands for. -/
theorem count_filled (hkey : IsRunKey key) (m : Nat) {ps : List Part} (hσ : Shows key σ ps)
    (hclear : Clear key ps) :
    Text.count (placeholder (tokenId 'm' m key)) (ps.flatMap (Part.filled σ)) =
      ps.countP fun p => p.formula?.any fun f => σ f == placeholder (tokenId 'm' m key) := by
  have hP := placeholder_ne_nil (tokenId 'm' m key)
  induction ps with
  | nil =>
    refine Text.count_of_absent fun h => ?_
    exact hP (List.infix_nil.mp h)
  | cons p ps ih =>
    have ih := ih hσ.of_cons (clear_cons.mp hclear).2
    rw [List.flatMap_cons]
    by_cases hp : ∃ f, p = .math f ∧ σ f = placeholder (tokenId 'm' m key)
    · obtain ⟨f, rfl, hf⟩ := hp
      rw [Part.filled, hf, Text.count_self_append hP, ih, List.countP_cons_of_pos]
      simp [Part.formula?, hf]
    · push Not at hp
      rw [Text.count_append hP (skips_part hkey m hσ hclear hp), ih, List.countP_cons_of_neg]
      cases p with
      | literal s => simp [Part.formula?]
      | math f => simpa [Part.formula?] using hp f rfl

/-- A placeholder that stands for one formula only occurs as often as that formula. -/
theorem count_filled_of_iff (hkey : IsRunKey key) (m : Nat) {ps : List Part} (hσ : Shows key σ ps)
    (hclear : Clear key ps) {g : Formula}
    (hg : ∀ f, Part.math f ∈ ps → (σ f = placeholder (tokenId 'm' m key) ↔ f = g)) :
    Text.count (placeholder (tokenId 'm' m key)) (ps.flatMap (Part.filled σ)) =
      ps.count (.math g) := by
  rw [count_filled hkey m hσ hclear, List.count_eq_countP]
  refine List.countP_congr fun p hp => ?_
  cases p with
  | literal s => simp [Part.formula?]
  | math f => simp [Part.formula?, hg f hp]

/-- Where markup stands for every formula, the key is gone. -/
theorem not_infix_filled (hkey : IsRunKey key) {ps : List Part}
    (hσ : ∀ f, Part.math f ∈ ps → IsMarkup key (σ f)) (hclear : Clear key ps) {u : Text}
    (hu : ¬ key <:+: u ++ leading ps) : ¬ key <:+: u ++ ps.flatMap (Part.filled σ) := by
  induction ps generalizing u with
  | nil => exact hu
  | cons p ps ih =>
    have hrest := (clear_cons.mp hclear).2
    have ih := fun u => ih (u := u) (fun f hf => hσ f (List.mem_cons_of_mem p hf)) hrest
    rw [List.flatMap_cons, ← List.append_assoc]
    cases p with
    | literal s => exact ih (u ++ s) (by simpa [leading] using hu)
    | math f =>
      have hu : ¬ key <:+: u := by simpa [leading] using hu
      exact ih (u ++ σ f) ((hσ f List.mem_cons_self).key_not_infix_append hkey hu hrest.leading)

/-! ### Formula by formula -/

variable {replacer : Formula → Text} {ps : List Part}

/-- What stands for a formula while the placeholders of the ids `left` are
still to be replaced. -/
def stage (replacer : Formula → Text) (left : List Text) (f : Formula) : Text :=
  if left.contains f.id then placeholder f.id else replacer f

theorem stage_of_mem {left : List Text} {f : Formula} (h : f.id ∈ left) :
    stage replacer left f = placeholder f.id :=
  if_pos (List.contains_iff_mem.mpr h)

theorem stage_of_notMem {left : List Text} {f : Formula} (h : f.id ∉ left) :
    stage replacer left f = replacer f :=
  if_neg fun hc => h (List.contains_iff_mem.mp hc)

/-- The note on a formula of an interleaving, unless it stands there once. -/
def note? (ps : List Part) (f : Formula) : Option Text :=
  if ps.count (.math f) = 1 then none else some (occurrenceNote f.id (ps.count (.math f)))

theorem placeholder_inj {id id' : Text} : placeholder id = placeholder id' ↔ id = id' := by
  refine ⟨fun h => ?_, congrArg placeholder⟩
  exact List.append_cancel_left (List.append_cancel_right h)

theorem IsMarkup.ne_placeholder {t : Text} (h : IsMarkup key t) (id : Text) :
    t ≠ placeholder id := by
  rintro rfl
  obtain ⟨u, hu⟩ := h.starts
  simp [placeholder, markStart] at hu

/-- The formulas of the parts have ids of the run, and markup to be replaced by. -/
def Replaceable (key : Text) (replacer : Formula → Text) (ps : List Part) : Prop :=
  ∀ f, Part.math f ∈ ps → (∃ n, f.id = tokenId 'm' n key) ∧ IsMarkup key (replacer f)

theorem Replaceable.shows_stage (h : Replaceable key replacer ps) (left : List Text) :
    Shows key (stage replacer left) ps := by
  intro f hf
  obtain ⟨⟨n, hn⟩, hmark⟩ := h f hf
  by_cases hleft : f.id ∈ left
  · rw [stage_of_mem hleft, hn]
    exact .inl ⟨n, rfl⟩
  · rw [stage_of_notMem hleft]
    exact .inr hmark

theorem Replaceable.stage_eq_placeholder_iff (h : Replaceable key replacer ps) {f g : Formula}
    (hf : Part.math f ∈ ps) (left : List Text) :
    stage replacer (g.id :: left) f = placeholder g.id ↔ f.id = g.id := by
  by_cases hleft : f.id ∈ g.id :: left
  · rw [stage_of_mem hleft, placeholder_inj]
  · rw [stage_of_notMem hleft]
    refine iff_of_false ((h f hf).2.ne_placeholder g.id) fun he => hleft ?_
    rw [he]
    exact List.mem_cons_self

section Step

variable (hkey : IsRunKey key) (hps : Replaceable key replacer ps) (hclear : Clear key ps)
variable {g : Formula} (hg : ∃ n, g.id = tokenId 'm' n key)
variable (hinj : ∀ f, Part.math f ∈ ps → f.id = g.id → f = g)
include hkey hps hclear hg hinj

/-- The placeholders of the next formula are still there. -/
theorem count_stage (left : List Text) :
    Text.count (placeholder g.id) (ps.flatMap (Part.filled (stage replacer (g.id :: left)))) =
      ps.count (.math g) := by
  obtain ⟨n, hn⟩ := hg
  have hσ := hps.shows_stage (g.id :: left)
  have hiff : ∀ f, Part.math f ∈ ps →
      (stage replacer (g.id :: left) f = placeholder (tokenId 'm' n key) ↔ f = g) := by
    intro f hf
    rw [← hn, hps.stage_eq_placeholder_iff hf left]
    exact ⟨hinj f hf, congrArg Formula.id⟩
  have hcount := count_filled_of_iff hkey n hσ hclear hiff
  rwa [← hn] at hcount

/-- Replacing them leaves the placeholders of the formulas after it. -/
theorem replaceAll_stage {left : List Text} (hleft : g.id ∉ left) :
    Text.replaceAll (placeholder g.id) (replacer g)
        (ps.flatMap (Part.filled (stage replacer (g.id :: left)))) =
      ps.flatMap (Part.filled (stage replacer left)) := by
  obtain ⟨n, hn⟩ := hg
  have hσ := hps.shows_stage (g.id :: left)
  have hall := replaceAll_filled hkey n (replacer g) hσ hclear
  rw [← hn] at hall
  rw [hall]
  refine List.flatMap_congr fun p hp => ?_
  cases p with
  | literal s => rfl
  | math f =>
    have hiff := hps.stage_eq_placeholder_iff (g := g) hp left
    rw [Part.filled, Part.filled]
    by_cases hid : f.id = g.id
    · obtain rfl := hinj f hp hid
      rw [if_pos (hiff.mpr rfl), stage_of_notMem hleft]
    · rw [if_neg fun h => hid (hiff.mp h)]
      simp [stage, hid]

/-- One formula is replaced, and noted if it does not stand there once. -/
theorem weaveOne_filled {left : List Text} (hleft : g.id ∉ left) (notes : List Text) :
    weaveOne replacer ⟨ps.flatMap (Part.filled (stage replacer (g.id :: left))), notes⟩ g =
      ⟨ps.flatMap (Part.filled (stage replacer left)), notes ++ (note? ps g).toList⟩ := by
  have hcount := count_stage hkey hps hclear hg hinj left
  have hpage := replaceAll_stage hkey hps hclear hg hinj hleft
  simp only [weaveOne, hcount, hpage, note?]
  split <;> simp

end Step

/-- Formula by formula, all placeholders are replaced. -/
theorem foldl_weaveOne (hkey : IsRunKey key) (hps : Replaceable key replacer ps)
    (hclear : Clear key ps) {fs : List Formula} (hfs : ∀ g ∈ fs, ∃ n, g.id = tokenId 'm' n key)
    (hnodup : (fs.map Formula.id).Nodup)
    (hinj : ∀ g ∈ fs, ∀ f, Part.math f ∈ ps → f.id = g.id → f = g) (notes : List Text) :
    fs.foldl (weaveOne replacer)
      ⟨ps.flatMap (Part.filled (stage replacer (fs.map Formula.id))), notes⟩ =
      ⟨ps.flatMap (Part.filled replacer), notes ++ fs.filterMap (note? ps)⟩ := by
  induction fs generalizing notes with
  | nil =>
    have hstage : stage replacer [] = replacer := funext fun f => stage_of_notMem List.not_mem_nil
    simp [hstage]
  | cons g fs ih =>
    obtain ⟨hg, hnodup⟩ := List.nodup_cons.mp hnodup
    rw [List.foldl_cons, List.map_cons,
      weaveOne_filled hkey hps hclear (hfs g List.mem_cons_self) (hinj g List.mem_cons_self) hg,
      ih (fun f hf => hfs f (List.mem_cons_of_mem g hf)) hnodup
        (fun f hf => hinj f (List.mem_cons_of_mem g hf)),
      List.filterMap_cons]
    cases note? ps g <;> simp

/-- Weaving formulas into an interleaving of their placeholders. -/
theorem weaveInto_marked (hkey : IsRunKey key) (hclear : Clear key ps) {fs : List Formula}
    (hfs : ∀ g ∈ fs, (∃ n, g.id = tokenId 'm' n key) ∧ IsMarkup key (replacer g))
    (hnodup : (fs.map Formula.id).Nodup) (hmem : ∀ f, Part.math f ∈ ps → f ∈ fs) :
    weaveInto replacer fs (ps.flatMap Part.marked) =
      ⟨ps.flatMap (Part.filled replacer), fs.filterMap (note? ps)⟩ := by
  have hps : Replaceable key replacer ps := fun f hf => hfs f (hmem f hf)
  have hinj : ∀ g ∈ fs, ∀ f, Part.math f ∈ ps → f.id = g.id → f = g := fun g hg f hf =>
    List.inj_on_of_nodup_map hnodup (hmem f hf) hg
  have hstart : ps.flatMap Part.marked =
      ps.flatMap (Part.filled (stage replacer (fs.map Formula.id))) := by
    refine List.flatMap_congr fun p hp => ?_
    cases p with
    | literal s => rfl
    | math f => rw [Part.filled, stage_of_mem (List.mem_map_of_mem (hmem f hp)), Part.marked]
  rw [weaveInto, hstart, foldl_weaveOne hkey hps hclear (fun g hg => (hfs g hg).1) hnodup hinj,
    List.nil_append]

/-- A page has as many placeholders of a formula as were put into it. -/
theorem count_marked (hkey : IsRunKey key) (hclear : Clear key ps) {fs : List Formula}
    (hfs : ∀ g ∈ fs, ∃ n, g.id = tokenId 'm' n key) (hnodup : (fs.map Formula.id).Nodup)
    (hmem : ∀ f, Part.math f ∈ ps → f ∈ fs) {f : Formula} (hf : f ∈ fs) :
    Text.count (placeholder f.id) (ps.flatMap Part.marked) = ps.count (.math f) := by
  obtain ⟨n, hn⟩ := hfs f hf
  have hshows : Shows key (fun g => placeholder g.id) ps := by
    intro g hg
    obtain ⟨k, hk⟩ := hfs g (hmem g hg)
    exact .inl ⟨k, congrArg placeholder hk⟩
  rw [Part.marked_eq_filled, hn]
  refine count_filled_of_iff hkey n hshows hclear fun g hg => ?_
  rw [← hn, placeholder_inj]
  exact ⟨fun h => List.inj_on_of_nodup_map hnodup (hmem g hg) hf h, congrArg Formula.id⟩

section Numbered

variable {ts : List Token} {ns : List Nat}
variable (hids : (formulas ts).map Formula.id = ns.map fun n => tokenId 'm' n key)
include hids

theorem exists_number {g : Formula} (hg : g ∈ formulas ts) : ∃ n, g.id = tokenId 'm' n key := by
  have hg := List.mem_map_of_mem (f := Formula.id) hg
  rw [hids] at hg
  obtain ⟨n, -, hn⟩ := List.mem_map.mp hg
  exact ⟨n, hn.symm⟩

theorem nodup_ids_of_numbers (hns : ns.Nodup) : ((formulas ts).map Formula.id).Nodup := by
  rw [hids]
  exact hns.map fun m n h => (tokenId_inj.mp h).2

end Numbered

/-- A key as a run draws it. -/
def digitsKey : Text := "0123456789ab".toList

theorem isRunKey_digitsKey : IsRunKey digitsKey := ⟨rfl, List.all_eq_true.mp (by decide)⟩

/-- A formula with the number `n` under that key. -/
def numbered (n : Nat) (latex : String) : Formula :=
  ⟨tokenId 'm' n digitsKey, latex.toList, false, ⟨latex.toList, [], []⟩⟩

/-- Two formulas side by side, between marks that belong to no placeholder. -/
def besideMarks : List Token :=
  [.plain "t-0".toList "MATHPH ".toList, .math (numbered 1 "a"), .math (numbered 11 "b"),
    .plain "t-12".toList "PHMATH".toList]

/-- The page that `besideMarks` are rendered as. -/
def besideMarksPage : List Part :=
  [.literal "<p>MATHPH ".toList, .math (numbered 1 "a"), .math (numbered 11 "b"),
    .literal "PHMATH</p>\n".toList]

theorem clear_besideMarksPage : Clear digitsKey besideMarksPage := by
  unfold besideMarksPage
  repeat refine clear_cons.mpr ⟨by decide, ?_⟩
  exact clear_nil (by decide)

theorem mem_formulas_besideMarks {f : Formula} (hf : Part.math f ∈ besideMarksPage) :
    f ∈ formulas besideMarks := by
  revert f
  simp [besideMarksPage, besideMarks, formulas, Token.formula?]

theorem isMarkup_screenMarkup_besideMarks {f : Formula} (hf : f ∈ formulas besideMarks) :
    IsMarkup digitsKey (screenMarkup f) := by
  have hf : numbered 1 "a" = f ∨ numbered 11 "b" = f := by
    simpa [besideMarks, formulas, Token.formula?] using hf
  rcases hf with rfl | rfl <;> exact ⟨by decide, by decide, by decide⟩

end Formulary
