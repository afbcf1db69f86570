/-
# The reading of a text with placeholders

If the start mark of placeholders stands in a text only where the placeholder of a known
formula starts, the text is made up of literals and formulas in exactly one way, once no two
literals stand side by side and none is empty (`exists_reads`), and splitting it gives just
these (`reads_iff`). A placeholder that begins inside the one before it is not among
them.

Key definitions: `Known`, `MarksOnly`, `Reads`.
Key theorems: `joinLiterals_eq_self`, `Reads.splitPlaceholders`, `exists_reads`, `reads_iff`.
-/
import Formulary.Proofs.Token.Interleaving

namespace Formulary

variable {byId : Text → Option Formula} {s : Text} {ps : List Part}

/-- Joining changes nothing where no literal is empty and none stands beside another. -/
theorem joinLiterals_eq_self (hne : Part.literal [] ∉ ps) (hps : ps.IsChain Apart) :
    joinLiterals ps = ps := by
  induction ps with
  | nil => rfl
  | cons p ps ih =>
    obtain ⟨hhead, htail⟩ := List.isChain_cons.mp hps
    rw [joinLiterals_cons, ih (List.not_mem_of_not_mem_cons hne) htail]
    cases p with
    | math f => exact consPart_math f ps
    | literal u =>
      cases u with
      | nil => exact absurd List.mem_cons_self hne
      | cons c u =>
        cases ps with
        | nil => rfl
        | cons q ps =>
          cases q with
          | math f => rfl
          | literal v => simpa [Apart, Part.formula?] using hhead (.literal v) rfl

/-! ### Readings -/

/-- A formula is known by its id, which stands on one line and holds no end mark. -/
def Known (byId : Text → Option Formula) (f : Formula) : Prop :=
  byId f.id = some f ∧ '\n' ∉ f.id ∧ ¬ markEnd <:+: f.id

instance (byId : Text → Option Formula) : DecidablePred (Known byId) := fun f =>
  inferInstanceAs (Decidable (byId f.id = some f ∧ '\n' ∉ f.id ∧ ¬ markEnd <:+: f.id))

/-- The start mark stands in a text only where the placeholder of a known formula starts. -/
def MarksOnly (byId : Text → Option Formula) (s : Text) : Prop :=
  ∀ u v, s = u ++ markStart ++ v → ∃ f r, Known byId f ∧ markStart ++ v = placeholder f.id ++ r

/-- A text is made up of these literals and known formulas: no literal holds a start mark, none
is empty, and each reaches as far as it can. -/
structure Reads (byId : Text → Option Formula) (s : Text) (ps : List Part) : Prop where
  marked : ps.flatMap Part.marked = s
  clear : Clear markStart ps
  known : ∀ f, Part.math f ∈ ps → IsMarkId f.id ∧ byId f.id = some f
  filled : Part.literal [] ∉ ps
  apart : ps.IsChain Apart

theorem Reads.splitPlaceholders (h : Reads byId s ps) : splitPlaceholders byId s = ps := by
  rw [← h.marked, splitPlaceholders_marked h.clear h.known, joinLiterals_eq_self h.filled h.apart]

theorem MarksOnly.of_suffix {t : Text} (h : MarksOnly byId s) (ht : t <:+ s) :
    MarksOnly byId t := by
  obtain ⟨x, rfl⟩ := ht
  rintro u v rfl
  exact h (x ++ u) v (by simp)

/-- Where the start mark stands can be looked up at each place of a text. -/
theorem marksOnly_of_tails {fs : List Formula}
    (h : ∀ t ∈ s.tails, markStart <+: t → ∃ f ∈ fs, Known byId f ∧ placeholder f.id <+: t) :
    MarksOnly byId s := by
  rintro u v rfl
  have htail : markStart ++ v ∈ (u ++ markStart ++ v).tails :=
    (List.mem_tails _ _).mpr ⟨u, (List.append_assoc _ _ _).symm⟩
  obtain ⟨f, -, hf, r, hr⟩ := h _ htail (List.prefix_append _ _)
  exact ⟨f, r, hf, hr.symm⟩

/-- A text without the start mark is one literal. -/
theorem reads_literal (hne : s ≠ []) (h : ¬ markStart <:+: s) : Reads byId s [.literal s] where
  marked := by simp [Part.marked]
  clear := clear_cons.mpr ⟨by simpa [leading] using h, clear_nil (by decide)⟩
  known := by simp
  filled := by simpa using hne.symm
  apart := List.IsChain.singleton _

/-- A formula, and a literal in front of it, are read before the rest. -/
theorem Reads.cons {a : Text} {f : Formula} (ha : ¬ markStart <:+: a) (hid : IsMarkId f.id)
    (hf : byId f.id = some f) (h : Reads byId s ps) :
    Reads byId (a ++ placeholder f.id ++ s) (consPart (.literal a) (.math f :: ps)) := by
  have hmath : (Part.literal [] ∉ Part.math f :: ps) ∧ (Part.math f :: ps).IsChain Apart :=
    ⟨by simpa using h.filled, List.isChain_cons.mpr ⟨fun _ _ => .inl rfl, h.apart⟩⟩
  have hjoined := joined_consPart (p := .literal a) hmath.1 hmath.2
  have hknown : ∀ g, Part.math g ∈ consPart (.literal a) (.math f :: ps) →
      IsMarkId g.id ∧ byId g.id = some g := fun g hg => by
    have hmem : Part.math g ∈ Part.math f :: ps := by
      cases a with
      | nil => exact hg
      | cons c a => simpa [consPart] using hg
    rcases List.mem_cons.mp hmem with he | hmem
    · obtain rfl := Part.math.inj he
      exact ⟨hid, hf⟩
    · exact h.known g hmem
  have hformula : Clear markStart (.math f :: ps) :=
    clear_cons.mpr ⟨by simp [leading, markStart], h.clear⟩
  refine ⟨?_, ?_, hknown, hjoined.1, hjoined.2⟩
  · cases a <;> simp [consPart, Part.marked, h.marked]
  · cases a with
    | nil => exact hformula
    | cons c a => exact clear_cons.mpr ⟨by simpa [leading] using ha, hformula⟩

/-- **Every such text can be read**, if no formula goes without an id. -/
theorem exists_reads (hnamed : byId [] = none) (s : Text) (h : MarksOnly byId s) :
    ∃ ps, Reads byId s ps := by
  cases hcut : Text.cut? markStart s with
  | none =>
    by_cases hs : s = []
    · subst hs
      exact ⟨[], rfl, clear_nil (by decide), by simp, by simp, List.IsChain.nil⟩
    · exact ⟨_, reads_literal hs (Text.cut?_eq_none_iff.mp hcut)⟩
  | some p =>
    obtain ⟨a, v⟩ := p
    obtain ⟨hs, hskips⟩ := Text.cut?_eq_some_iff.mp hcut
    have ha : ¬ markStart <:+: a := Text.not_infix_of_skips (by decide) hskips
    obtain ⟨f, r, ⟨hf, hline, hend⟩, hv⟩ := h a v (by rw [hs, List.append_assoc])
    have hne : f.id ≠ [] := by
      intro hid
      rw [hid, hnamed] at hf
      simp at hf
    have hr : a ++ placeholder f.id ++ r = s := by rw [List.append_assoc, ← hv, hs]
    have hshort : r.length < s.length := by
      have hmark : markStart.length = 6 := rfl
      rw [← hr, placeholder]
      simp only [List.length_append]
      omega
    obtain ⟨ps, hps⟩ := exists_reads hnamed r (h.of_suffix ⟨_, hr⟩)
    exact ⟨_, hr ▸ hps.cons ha ⟨hne, hline, hend⟩ hf⟩
termination_by s.length

/-- **Splitting finds the one reading.** -/
theorem reads_iff (hnamed : byId [] = none) (h : MarksOnly byId s) :
    Reads byId s ps ↔ ps = splitPlaceholders byId s := by
  refine ⟨fun hps => hps.splitPlaceholders.symm, ?_⟩
  rintro rfl
  obtain ⟨ps, hps⟩ := exists_reads hnamed s h
  rw [hps.splitPlaceholders]
  exact hps

end Formulary
