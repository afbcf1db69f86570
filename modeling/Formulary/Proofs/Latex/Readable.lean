/-
# Readable text in one scan

Readable text is made in seven steps: symbol commands are expanded in the whole text, each of
five markup characters is deleted from it, and the blanks at the ends are taken off. One
scan from the left gives the same (`readable`): at a backslash it shows the longest run of
letters, as a symbol if the whole run is a command and as it is otherwise, and it leaves out
every other character of markup. What the deletions bring together is never read again, so
a short command does not act inside a longer one, and a second time changes nothing.

Key definitions: `spelled`, `readable`, `markupChars`, `deleted`.
Key theorems: `deleted_eq_filter`, `filter_expandSymbols`, `readable_command`, `latexText_oneScan`.
-/
import Formulary.Latex.PlainText
import Formulary.Proofs.Text.Blank
import Formulary.Proofs.Text.Search

namespace Formulary

/-- What is shown for the name of a command: its symbol if it has one, else its letters. -/
def spelled (name : Text) : Text :=
  match symbol? name with
  | some x => [x]
  | none => name

/-- The source read in one scan. -/
def readable : Text → Text
  | [] => []
  | c :: s =>
    if c = '\\' then spelled (s.takeWhile Char.isAlpha) ++ readable (s.dropWhile Char.isAlpha)
    else if isMarkup c then readable s
    else c :: readable s
termination_by s => s.length
decreasing_by
  · have := Text.length_dropWhile_le Char.isAlpha s
    simp only [List.length_cons]
    omega
  · simp
  · simp

/-- The characters of markup, in the order in which they are deleted. -/
def markupChars : List Char := ['\\', '{', '}', '^', '_']

/-- The text with every occurrence of some characters deleted, one character after another. -/
def deleted (cs : List Char) (s : Text) : Text :=
  cs.foldl (fun t c => Text.replaceAll [c] [] t) s

/-! ### Deleting -/

theorem replaceAll_singleton_nil (c : Char) (s : Text) :
    Text.replaceAll [c] [] s = s.filter (· != c) := by
  have hstep : ∀ {d : Char} {s : Text}, d ≠ c →
      Text.replaceAll [c] [] (d :: s) = d :: Text.replaceAll [c] [] s := by
    intro d s hd
    refine Text.replaceAll_append (x := [d]) (List.cons_ne_nil c []) ?_
    refine Text.skips_cons.mpr ⟨fun h => ?_, Text.skips_nil _ _⟩
    exact hd (List.cons_prefix_cons.mp h).1.symm
  induction s with
  | nil => exact Text.replaceAll_of_absent (by simp)
  | cons d s ih =>
    by_cases hd : d = c
    · subst hd
      rw [List.filter_cons_of_neg (by simp), ← ih]
      exact Text.replaceAll_self_append (List.cons_ne_nil d []) [] s
    · rw [List.filter_cons_of_pos (by simpa using hd), ← ih, hstep hd]

/-- Deleting characters one after another leaves the others. -/
theorem deleted_eq_filter (cs : List Char) (s : Text) :
    deleted cs s = s.filter fun c => !cs.contains c := by
  induction cs generalizing s with
  | nil => simp [deleted]
  | cons c cs ih =>
    show deleted cs (Text.replaceAll [c] [] s) = _
    rw [ih, replaceAll_singleton_nil, List.filter_filter]
    refine List.filter_congr fun d _ => ?_
    rw [List.contains_cons, Bool.not_or, Bool.and_comm]
    rfl

theorem isMarkup_eq_contains (c : Char) : isMarkup c = markupChars.contains c := by
  simp only [isMarkup, markupChars, List.contains_cons, List.contains_nil, Bool.or_false,
    Bool.or_assoc]

/-! ### Expanding and deleting at once -/

theorem expandSymbols_cons {c : Char} (hc : c ≠ '\\') (s : Text) :
    expandSymbols (c :: s) = c :: expandSymbols s := by
  rw [expandSymbols, if_neg hc]

theorem readable_backslash (s : Text) :
    readable ('\\' :: s) =
      spelled (s.takeWhile Char.isAlpha) ++ readable (s.dropWhile Char.isAlpha) := by
  rw [readable, if_pos rfl]

theorem isMarkup_of_isAlpha {c : Char} (h : c.isAlpha = true) : isMarkup c = false := by
  rw [isMarkup_eq_contains, Bool.eq_false_iff]
  intro hc
  have hall : (markupChars.all fun d => !d.isAlpha) = true := by decide
  have hnot := List.all_eq_true.mp hall c (List.contains_iff_mem.mp hc)
  simp [h] at hnot

theorem isMarkup_of_symbol? {name : Text} {x : Char} (h : symbol? name = some x) :
    isMarkup x = false := by
  have hall : ∀ p ∈ symbols, isMarkup p.2 = false := by decide
  obtain ⟨p, hp, rfl⟩ := Option.map_eq_some_iff.mp h
  exact hall p (List.mem_of_find?_eq_some hp)

theorem isMarkup_of_mem_spelled {s : Text} {c : Char}
    (h : c ∈ spelled (s.takeWhile Char.isAlpha)) : isMarkup c = false := by
  unfold spelled at h
  split at h
  · rename_i x hx
    rw [List.mem_singleton.mp h]
    exact isMarkup_of_symbol? hx
  · exact isMarkup_of_isAlpha (List.mem_takeWhile_imp h)

theorem filter_spelled (s : Text) :
    (spelled (s.takeWhile Char.isAlpha)).filter (fun c => !isMarkup c) =
      spelled (s.takeWhile Char.isAlpha) :=
  List.filter_eq_self.mpr fun _ hc => by rw [isMarkup_of_mem_spelled hc]; rfl

theorem filter_expandSymbols_backslash (s : Text) :
    (expandSymbols ('\\' :: s)).filter (fun c => !isMarkup c) =
      spelled (s.takeWhile Char.isAlpha) ++
        (expandSymbols (s.dropWhile Char.isAlpha)).filter fun c => !isMarkup c := by
  have hspelled := filter_spelled s
  rw [expandSymbols, if_pos rfl]
  cases hsymbol : symbol? (s.takeWhile Char.isAlpha) with
  | some x =>
    have hname : spelled (s.takeWhile Char.isAlpha) = [x] := by rw [spelled, hsymbol]
    rw [hname] at hspelled ⊢
    show ([x] ++ _).filter _ = _
    rw [List.filter_append, hspelled]
  | none =>
    have hname : spelled (s.takeWhile Char.isAlpha) = s.takeWhile Char.isAlpha := by
      rw [spelled, hsymbol]
    rw [hname] at hspelled ⊢
    show (['\\'] ++ (s.takeWhile Char.isAlpha ++ _)).filter _ = _
    rw [List.filter_append, List.filter_append, hspelled]
    rfl

/-- Expanding the commands and deleting the markup is one scan. -/
theorem filter_expandSymbols (s : Text) :
    (expandSymbols s).filter (fun c => !isMarkup c) = readable s := by
  fun_induction readable s with
  | case1 =>
    rw [expandSymbols]
    rfl
  | case2 s ih => rw [filter_expandSymbols_backslash, ih]
  | case3 c s hc hmarkup ih =>
    rw [expandSymbols_cons hc, List.filter_cons_of_neg (by simpa using hmarkup), ih]
  | case4 c s hc hmarkup ih =>
    rw [expandSymbols_cons hc, List.filter_cons_of_pos (by simpa using hmarkup), ih]

/-! ### What is shown -/

theorem isMarkup_of_mem_readable {s : Text} {c : Char} (h : c ∈ readable s) :
    isMarkup c = false := by
  rw [← filter_expandSymbols] at h
  simpa using (List.mem_filter.mp h).2

/-- A text without markup is shown as it is. -/
theorem readable_eq_self {s : Text} (h : ∀ c ∈ s, isMarkup c = false) : readable s = s := by
  induction s with
  | nil => rw [readable]
  | cons c s ih =>
    obtain ⟨hc, hs⟩ := List.forall_mem_cons.mp h
    have hne : c ≠ '\\' := by
      rintro rfl
      exact absurd hc (by decide)
    rw [readable, if_neg hne, hc, ih hs]
    rfl

/-- A backslash parts the source in two that are read on their own. -/
theorem readable_append_backslash (a s : Text) :
    readable (a ++ '\\' :: s) = readable a ++ readable ('\\' :: s) := by
  fun_induction readable a with
  | case1 => rfl
  | case2 a ih =>
    -- the letters of a command end in front of the backslash, if not before
    have hstop : ('\\' : Char).isAlpha = false := by decide
    have htake : (a ++ '\\' :: s).takeWhile Char.isAlpha = a.takeWhile Char.isAlpha := by
      rw [List.takeWhile_append]
      split
      · rename_i hall
        rw [List.takeWhile_cons_of_neg (by simp [hstop]), List.append_nil]
        exact ((List.takeWhile_prefix _).eq_of_length hall).symm
      · rfl
    have hdrop : (a ++ '\\' :: s).dropWhile Char.isAlpha =
        a.dropWhile Char.isAlpha ++ '\\' :: s := by
      rw [List.dropWhile_append]
      split
      · rename_i hnil
        rw [List.isEmpty_iff.mp hnil, List.dropWhile_cons_of_neg (by simp [hstop]),
          List.nil_append]
      · rfl
    rw [List.cons_append, readable_backslash, htake, hdrop, ih, List.append_assoc]
  | case3 c a hc hmarkup ih =>
    rw [List.cons_append, readable, if_neg hc, if_pos hmarkup, ih]
  | case4 c a hc hmarkup ih =>
    rw [List.cons_append, readable, if_neg hc, if_neg hmarkup, ih, List.cons_append]

/-- **A command is read as a whole**, wherever it stands. -/
theorem readable_command {name rest : Text} (a : Text) (hname : ∀ c ∈ name, c.isAlpha = true)
    (hrest : ∀ c ∈ rest.head?, c.isAlpha = false) :
    readable (a ++ '\\' :: (name ++ rest)) = readable a ++ (spelled name ++ readable rest) := by
  have hstop : rest.takeWhile Char.isAlpha = [] ∧ rest.dropWhile Char.isAlpha = rest := by
    cases rest with
    | nil => exact ⟨rfl, rfl⟩
    | cons c rest =>
      have hc := hrest c rfl
      exact ⟨List.takeWhile_cons_of_neg (by simp [hc]),
        List.dropWhile_cons_of_neg (by simp [hc])⟩
  rw [readable_append_backslash, readable_backslash, List.takeWhile_append_of_pos hname,
    List.dropWhile_append_of_pos hname, hstop.1, hstop.2, List.append_nil]

/-- **Readable text is made in one scan.** Expanding the commands, deleting the characters of
markup one after another and taking the blanks off the ends gives what `readable` reads, without
blanks at its ends. No markup is left, a command's name is always read whole, and what is
readable stays as it is. -/
theorem latexText_oneScan (s : Text) :
    latexText s = Text.strip (deleted markupChars (expandSymbols s)) ∧
    latexText s = Text.strip (readable s) ∧
    (∀ c ∈ markupChars, c ∉ latexText s) ∧
    (∀ a name rest : Text, s = a ++ '\\' :: (name ++ rest) → (∀ c ∈ name, c.isAlpha = true) →
      (∀ c ∈ rest.head?, c.isAlpha = false) →
      latexText s = Text.strip (readable a ++ (spelled name ++ readable rest))) ∧
    latexText (latexText s) = latexText s := by
  have hfilter : ∀ t : Text, latexText t = Text.strip (readable t) := fun t => by
    rw [latexText, filter_expandSymbols]
  have hclean : ∀ c ∈ latexText s, isMarkup c = false := fun c hc => by
    rw [hfilter] at hc
    exact isMarkup_of_mem_readable ((Text.strip_infix _).subset hc)
  refine ⟨?_, hfilter s, fun c hc hmem => ?_, ?_, ?_⟩
  · rw [latexText, deleted_eq_filter]
    simp only [isMarkup_eq_contains]
  · have hmarkup := hclean c hmem
    rw [isMarkup_eq_contains, List.contains_iff_mem.mpr hc] at hmarkup
    exact absurd hmarkup (by simp)
  · rintro a name rest rfl hname hrest
    rw [hfilter, readable_command a hname hrest]
  · rw [hfilter (latexText s), readable_eq_self hclean, hfilter, Text.strip_strip]

/-- Source in which short names begin longer ones, and deletions bring a name together with a
backslash or with letters. -/
def crowdedRest : Text := '_' :: "\x7b\\in\x7d\\left\\infty\\\x7bin\x7dt \\le\x7bft\x7d ".toList

/-- The source with a command in front of it. -/
def crowdedLatex : Text := ' ' :: '\\' :: ("int".toList ++ crowdedRest)

theorem latexText_oneScan_crowded :
    latexText crowdedLatex = "∫∈left∞int ≤ft".toList ∧
    (∀ c ∈ markupChars, c ∉ latexText crowdedLatex) ∧
    latexText crowdedLatex = Text.strip (readable [' '] ++ (['∫'] ++ readable crowdedRest)) ∧
    latexText (latexText crowdedLatex) = latexText crowdedLatex := by
  obtain ⟨-, -, hclean, hwhole, hagain⟩ := latexText_oneScan crowdedLatex
  refine ⟨by decide +kernel, hclean, ?_, hagain⟩
  exact hwhole [' '] "int".toList crowdedRest rfl (List.all_eq_true.mp (by decide))
    fun c hc => by
      obtain rfl := Option.some.inj hc
      decide

end Formulary
