/-
# Completing a fragment

A fragment is completed in its first tag: the declarations that the tag lacks are set in at its
end, in front of the slash of a tag that closes itself, and nothing else is changed
(`complete_of_first`). What is set in holds no closing bracket and shows both declarations, so
the first tag stays the first tag and lacks nothing any more: a fragment is completed once and
for all (`complete_inserts`).

Whether a declaration is there is a matter of the text of the tag: it is there as soon as
`xmlns:m=` is, be it in a value or at the end of another name.

Key definitions: `Omml.ownNamespaces`, `Omml.declaring`, `Omml.lacking`, `Omml.ownSlash`.
Key theorems: `Omml.strip_dropDeclaration`, `Omml.complete_of_first`, `Omml.complete_inserts`.
-/
import Formulary.Formula.Omml
import Formulary.Proofs.Text.Blank
import Formulary.Proofs.Text.Search

namespace Formulary
namespace Omml

/-- The prefixes that a fragment has to declare and their namespaces, in the order in which they
are added. -/
def ownNamespaces : List (String × Text) := [("m", uri), ("w", wordUri)]

/-- What the declaration of a prefix starts with. -/
def declaring (pre : String) : Text := "xmlns:".toList ++ pre.toList ++ ['=']

/-- The declarations that the text of a tag lacks, in order. -/
def lacking (head : Text) : Text :=
  (ownNamespaces.filter fun p => ¬ declaring p.1 <:+: head).flatMap fun p => declaration p.1 p.2

/-- The slash at the end of a tag that closes itself. -/
def ownSlash (head : Text) : Text := if ['/'] <:+ head then ['/'] else []

variable {s t head front rest u : Text} {c : Char}

/-! ### What is added -/

theorem missing_eq_lacking (head : Text) : missing head = lacking head := by
  have hm : Text.contains "xmlns:m=".toList head = decide (declaring "m" <:+: head) :=
    Text.contains_eq_decide _ _
  have hw : Text.contains "xmlns:w=".toList head = decide (declaring "w" <:+: head) :=
    Text.contains_eq_decide _ _
  rw [missing, hm, hw, lacking, ownNamespaces]
  by_cases h1 : declaring "m" <:+: head <;> by_cases h2 : declaring "w" <:+: head <;>
    simp [h1, h2]

theorem lacking_subset (head : Text) :
    lacking head ⊆ ownNamespaces.flatMap fun p => declaration p.1 p.2 := fun c hc => by
  obtain ⟨p, hp, hc⟩ := List.mem_flatMap.mp hc
  exact List.mem_flatMap.mpr ⟨p, List.mem_of_mem_filter hp, hc⟩

theorem notMem_lacking (head : Text) : '>' ∉ lacking head ∧ '?' ∉ lacking head :=
  ⟨fun h => absurd (lacking_subset head h) (by decide),
    fun h => absurd (lacking_subset head h) (by decide)⟩

/-- A tag lacks nothing if and only if it shows each declaration. -/
theorem lacking_eq_nil (h : ∀ p ∈ ownNamespaces, declaring p.1 <:+: head) : lacking head = [] := by
  rw [lacking, List.filter_eq_nil_iff.mpr fun p hp => by simpa using h p hp, List.flatMap_nil]

/-- With what it lacks, a tag shows each declaration. -/
theorem declaring_infix_completed (hfront : head = front ++ ownSlash head) {p : String × Text}
    (hp : p ∈ ownNamespaces) : declaring p.1 <:+: front ++ lacking head ++ ownSlash head := by
  have hall : ∀ p ∈ ownNamespaces, '/' ∉ declaring p.1 ∧ declaring p.1 <:+: declaration p.1 p.2 := by
    decide
  obtain ⟨hslash, hadded⟩ := hall p hp
  by_cases hshows : declaring p.1 <:+: head
  · -- the slash is no part of it
    have hin : declaring p.1 <:+: front := by
      rw [hfront] at hshows
      unfold ownSlash at hshows
      split at hshows
      · exact ((Text.infix_append_cons_iff hslash).mp hshows).elim id fun h => h.trans List.nil_infix
      · rwa [List.append_nil] at hshows
    rw [List.append_assoc]
    exact hin.trans (List.prefix_append _ _).isInfix
  · have hmem : p ∈ ownNamespaces.filter fun p => ¬ declaring p.1 <:+: head :=
      List.mem_filter.mpr ⟨hp, by simpa using hshows⟩
    have hin : declaration p.1 p.2 <:+: lacking head :=
      List.infix_of_mem_flatten (List.mem_map_of_mem hmem)
    exact (hadded.trans hin).trans ⟨front, ownSlash head, rfl⟩

theorem exists_front (head : Text) : ∃ front, head = front ++ ownSlash head := by
  unfold ownSlash
  split
  · rename_i h
    obtain ⟨front, hfront⟩ := h
    exact ⟨front, hfront.symm⟩
  · exact ⟨head, (List.append_nil head).symm⟩

/-! ### Where it is added -/

/-- A trimmed text that starts with no declaration has nothing in front of it and behind it. -/
theorem strip_dropDeclaration (ht : t.IsTrim) (h : ¬ "<?".toList <+: t) :
    Text.strip (dropDeclaration t) = t := by
  have hnone : Text.after? "<?xml".toList t = none :=
    Text.after?_eq_none_iff.mpr fun hpre => h (List.IsPrefix.trans ⟨"xml".toList, rfl⟩ hpre)
  rw [dropDeclaration, Text.stripLeft_of_head? ht.1, hnone, Text.strip_eq_self_iff.mpr ht]

theorem complete_of_notMem (h : '>' ∉ Text.strip (dropDeclaration s)) :
    complete s = Text.strip (dropDeclaration s) := by
  have hcut : Text.cut? ['>'] (Text.strip (dropDeclaration s)) = none :=
    Text.cut?_eq_none_iff.mpr fun hin => h (hin.subset List.mem_cons_self)
  rw [complete, hcut]

/-- **What is lacking comes last in the first tag**, in front of its slash. -/
theorem complete_of_first (ht : Text.strip (dropDeclaration s) = head ++ '>' :: rest)
    (hhead : '>' ∉ head) (hfront : head = front ++ ownSlash head) :
    complete s = front ++ lacking head ++ ownSlash head ++ '>' :: rest := by
  rw [complete, ht, Text.cut?_char hhead]
  simp only [missing_eq_lacking, Text.endsWith_eq_decide, decide_eq_true_eq]
  unfold ownSlash at hfront ⊢
  split
  · rename_i hslash
    rw [if_pos hslash] at hfront
    have hdrop : head.dropLast = front := by rw [hfront, List.dropLast_concat]
    rw [hdrop, List.append_assoc _ ['/'], List.singleton_append]
  · rename_i hslash
    rw [if_neg hslash, List.append_nil] at hfront
    rw [List.append_nil, ← hfront]

/-! ### Completing again -/

theorem notMem_completed (hhead : '>' ∉ front ++ ownSlash head) :
    '>' ∉ front ++ lacking head ++ ownSlash head := by
  simp only [List.mem_append, not_or] at hhead ⊢
  exact ⟨⟨hhead.1, (notMem_lacking head).1⟩, hhead.2⟩

theorem front_ne_nil (h : ['<'] <+: front ++ ownSlash head ++ '>' :: rest) : front ≠ [] := by
  rintro rfl
  unfold ownSlash at h
  split at h <;> exact absurd (List.cons_prefix_cons.mp h).1 (by decide)

/-- What is added does not make a declaration of the tag. -/
theorem not_prefix_completed (h : ¬ "<?".toList <+: front ++ ownSlash head ++ '>' :: rest) :
    ¬ "<?".toList <+: front ++ lacking head ++ ownSlash head ++ '>' :: rest := by
  intro hpre
  have hslash : '?' ∉ ownSlash head := by
    unfold ownSlash
    split <;> decide
  have hadded : '?' ∉ lacking head ++ ownSlash head := by
    rw [List.mem_append, not_or]
    exact ⟨(notMem_lacking head).2, hslash⟩
  have htag : "<?".toList <+: front ++ (lacking head ++ ownSlash head) := by
    rw [← List.append_assoc]
    exact Text.prefix_of_prefix_append_cons (by decide) hpre
  have hfront : "<?".toList <+: front :=
    @Text.prefix_of_prefix_append_of_last ['<'] _ _ _ hadded htag
  rw [List.append_assoc] at h
  exact h (hfront.trans (List.prefix_append _ _))

/-- **A completed fragment is complete.** -/
theorem complete_completed (ht : (front ++ ownSlash head ++ '>' :: rest).IsTrim)
    (hstart : ['<'] <+: front ++ ownSlash head ++ '>' :: rest)
    (hdeclaration : ¬ "<?".toList <+: front ++ ownSlash head ++ '>' :: rest)
    (hfront : head = front ++ ownSlash head) (hhead : '>' ∉ head) :
    complete (front ++ lacking head ++ ownSlash head ++ '>' :: rest) =
      front ++ lacking head ++ ownSlash head ++ '>' :: rest := by
  have htrim : (front ++ lacking head ++ ownSlash head ++ '>' :: rest).IsTrim := by
    rw [List.append_assoc] at ht
    rw [List.append_assoc, List.append_assoc]
    exact ht.insert (front_ne_nil hstart) (by simp) (lacking head)
  obtain ⟨front', hfront'⟩ := exists_front (front ++ lacking head ++ ownSlash head)
  have hagain := complete_of_first
    (strip_dropDeclaration htrim (not_prefix_completed hdeclaration))
    (notMem_completed (hfront ▸ hhead)) hfront'
  rwa [lacking_eq_nil fun p => declaring_infix_completed hfront, List.append_nil, ← hfront'] at hagain

/-- **A fragment is completed once and for all, and nothing of it is lost.** Take any text that,
without a declaration in front and the blanks around, starts with a tag. What it is completed to
stays as it is when it is completed again. Without a closing bracket nothing is added; otherwise
the declarations that the first tag lacks are set in at its end, each once and in order, in front
of its slash, and then the tag shows both. -/
theorem complete_inserts (ht : Text.strip (dropDeclaration s) = t)
    (hstart : ∃ c u, t = '<' :: c :: u ∧ c ≠ '?') :
    complete (complete s) = complete s ∧
    ('>' ∉ t → complete s = t) ∧
    ∀ head rest, t = head ++ '>' :: rest → '>' ∉ head →
      ∃ front, head = front ++ ownSlash head ∧
        complete s = front ++ lacking head ++ ownSlash head ++ '>' :: rest ∧
        '>' ∉ front ++ lacking head ++ ownSlash head ∧
        ∀ p ∈ ownNamespaces, declaring p.1 <:+: front ++ lacking head ++ ownSlash head := by
  have htrim : t.IsTrim := ht ▸ Text.ends_strip _
  have hopens : ['<'] <+: t ∧ ¬ "<?".toList <+: t := by
    obtain ⟨c, u, rfl, hc⟩ := hstart
    exact ⟨⟨c :: u, rfl⟩, fun h => hc (List.cons_prefix_cons.mp (List.cons_prefix_cons.mp h).2).1.symm⟩
  have hnone : '>' ∉ t → complete s = t := fun h => by
    rw [complete_of_notMem (ht ▸ h), ht]
  refine ⟨?_, hnone, fun head rest hsplit hhead => ?_⟩
  · by_cases hclose : '>' ∈ t
    · obtain ⟨head, rest, hsplit, hhead⟩ := List.eq_append_cons_of_mem hclose
      obtain ⟨front, hfront⟩ := exists_front head
      have hfull : t = front ++ ownSlash head ++ '>' :: rest :=
        hsplit.trans (congrArg (· ++ '>' :: rest) hfront)
      rw [hfull] at htrim hopens
      rw [complete_of_first (ht.trans hsplit) hhead hfront,
        complete_completed htrim hopens.1 hopens.2 hfront hhead]
    · rw [hnone hclose]
      exact (complete_of_notMem (s := t) (by rwa [strip_dropDeclaration htrim hopens.2])).trans
        (strip_dropDeclaration htrim hopens.2)
  · obtain ⟨front, hfront⟩ := exists_front head
    exact ⟨front, hfront, complete_of_first (ht.trans hsplit) hhead hfront,
      notMem_completed (hfront ▸ hhead), fun p => declaring_infix_completed hfront⟩

/-- A run with blanks and a declaration in front that closes itself and has one declaration. -/
def closedRun : Text := "\u00a0<?xml version=\"1.0\"?>\n<m:r xmlns:w='u'/>\n".toList

theorem complete_inserts_closedRun :
    Text.strip (dropDeclaration closedRun) = "<m:r xmlns:w='u'/>".toList ∧
    (∃ c u, "<m:r xmlns:w='u'/>".toList = '<' :: c :: u ∧ c ≠ '?') ∧
    complete (complete closedRun) = complete closedRun ∧
    complete closedRun = "<m:r xmlns:w='u'".toList ++
      " xmlns:m=\"http://schemas.openxmlformats.org/officeDocument/2006/math\"/>".toList ∧
    complete "<m:r>a".toList =
      "<m:r xmlns:m=\"http://schemas.openxmlformats.org/officeDocument/2006/math\"".toList ++
      " xmlns:w=\"http://schemas.openxmlformats.org/wordprocessingml/2006/main\">a".toList := by
  have ht : Text.strip (dropDeclaration closedRun) = "<m:r xmlns:w='u'/>".toList := by decide
  have hstart : ∃ c u, "<m:r xmlns:w='u'/>".toList = '<' :: c :: u ∧ c ≠ '?' :=
    ⟨'m', _, rfl, by decide⟩
  obtain ⟨hagain, -, hfirst⟩ := complete_inserts ht hstart
  obtain ⟨front, hfront, hcomplete, -, -⟩ :=
    hfirst "<m:r xmlns:w='u'/".toList [] (by decide) (by decide)
  have hslash : ownSlash "<m:r xmlns:w='u'/".toList = ['/'] := by decide
  have hlacking : lacking "<m:r xmlns:w='u'/".toList = declaration "m" uri := by decide
  rw [hslash] at hfront
  have hsame : front ++ ['/'] = "<m:r xmlns:w='u'".toList ++ ['/'] := hfront.symm.trans rfl
  obtain rfl : front = "<m:r xmlns:w='u'".toList := List.append_cancel_right hsame
  rw [hslash, hlacking] at hcomplete
  refine ⟨ht, hstart, hagain, hcomplete.trans ?_, by decide +kernel⟩
  decide

end Omml
end Formulary
