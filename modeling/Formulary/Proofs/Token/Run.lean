/-
# The tokens of a run

The tokens of a text are its segments in order, each under an id with its own
number: nothing of the folded text is lost, no formula is changed by being
folded on its own, and an id stands for one token only (`tokensOf_run`).

Key definitions: `Token.id`, `Token.segment`, `TokensOf`.
Key theorems: `tokenId_inj`, `map_segment_tokenize`, `nodup_ids_tokenize`,
`formulaById_eq_some_iff`, `tokensOf_run`.
-/
import Formulary.Proofs.Latex.Folding
import Formulary.Proofs.Text.Decimal
import Formulary.Proofs.Token.Grammar
import Formulary.Token.Basic
import Mathlib.Data.List.Nodup

namespace Formulary

/-! ### Ids -/

/-- Two texts that agree up to the first `x` of each agree before and after it. -/
theorem Text.append_cons_inj {u v s t : Text} {x : Char} (hu : x ∉ u) (hv : x ∉ v)
    (h : u ++ x :: s = v ++ x :: t) : u = v ∧ s = t := by
  induction u generalizing v with
  | nil =>
    cases v with
    | nil => exact ⟨rfl, (List.cons.inj h).2⟩
    | cons d v => exact absurd (List.cons.inj h).1 (List.ne_of_not_mem_cons hv)
  | cons c u ih =>
    cases v with
    | nil => exact absurd (List.cons.inj h).1.symm (List.ne_of_not_mem_cons hu)
    | cons d v =>
      obtain ⟨hc, htail⟩ := List.cons.inj h
      obtain ⟨huv, hst⟩ :=
        ih (List.not_mem_of_not_mem_cons hu) (List.not_mem_of_not_mem_cons hv) htail
      exact ⟨by rw [hc, huv], hst⟩

/-- An id and what follows it determine its number, whatever the key is. -/
theorem tokenId_append_inj {k k' : Char} {m n : Nat} {key s t : Text}
    (h : tokenId k m key ++ s = tokenId k' n key ++ t) : k = k' ∧ m = n ∧ s = t := by
  simp only [tokenId, List.cons_append, List.append_assoc] at h
  obtain ⟨hk, hdash⟩ := List.cons.inj h
  obtain ⟨hn, hrest⟩ := Text.append_cons_inj (Text.dash_notMem_ofNat m) (Text.dash_notMem_ofNat n)
    (List.cons.inj hdash).2
  exact ⟨hk, Text.ofNat_injective hn, List.append_cancel_left hrest⟩

theorem tokenId_inj {k k' : Char} {m n : Nat} {key : Text} :
    tokenId k m key = tokenId k' n key ↔ k = k' ∧ m = n := by
  refine ⟨fun h => ?_, ?_⟩
  · obtain ⟨hk, hn, -⟩ := tokenId_append_inj (congrArg (· ++ []) h)
    exact ⟨hk, hn⟩
  · rintro ⟨rfl, rfl⟩
    rfl

theorem runKey_some {key : Text} (h : key ≠ []) (fresh : Text) :
    runKey fresh (some key) = key := by
  obtain ⟨c, s, rfl⟩ := List.exists_cons_of_ne_nil h
  rfl

/-! ### Tokens and segments -/

namespace Token

/-- The id of a token. -/
def id : Token → Text
  | plain id _ => id
  | math f => f.id

/-- The stretch of text that a token stands for. -/
def segment : Token → Segment
  | plain _ s => .plain s
  | math f => .math f.latex f.display

end Token

theorem infix_source (c : Text) (d : Bool) : c <:+: (Segment.math c d).source := by
  cases d
  · exact ⟨['$'], ['$'], rfl⟩
  · exact ⟨fence, fence, rfl⟩

/-- Each segment is a stretch of the text. -/
theorem source_infix_of_mem_segments {s : Text} {g : Segment} (h : g ∈ segments s) :
    g.source <:+: s := by
  have := List.infix_of_mem_flatten (List.mem_map_of_mem (f := Segment.source) h)
  rwa [← List.flatMap_def, flatMap_source_segments] at this

/-- Nothing is left to fold in the content of a span of a folded text. -/
theorem foldAccents_of_mem_segments {s c : Text} {d : Bool}
    (h : Segment.math c d ∈ segments (foldAccents s)) : foldAccents c = c :=
  foldAccents_of_part ((infix_source c d).trans (source_infix_of_mem_segments h))

variable (cv : Converters) (key s : Text)

theorem getElem?_tokenize (i : Nat) : (tokenize cv key s)[i]? =
    (segments (foldAccents s))[i]?.map fun g => tokenOf cv key g i := by
  rw [tokenize, List.getElem?_map, List.getElem?_zipIdx, Option.map_map, Nat.zero_add]
  rfl

/-- The tokens stand for the segments of the folded text. -/
theorem map_segment_tokenize :
    (tokenize cv key s).map Token.segment = segments (foldAccents s) := by
  refine List.ext_getElem? fun i => ?_
  rw [List.getElem?_map, getElem?_tokenize, Option.map_map]
  cases hg : (segments (foldAccents s))[i]? with
  | none => rfl
  | some g =>
    cases g with
    | plain u => rfl
    | math c d =>
      have hc := foldAccents_of_mem_segments (List.mem_of_getElem? hg)
      simp [tokenOf, Token.segment, hc]

/-- What a token stands for is a stretch of the folded text. -/
theorem source_infix_of_mem_tokenize {t : Token} (h : t ∈ tokenize cv key s) :
    t.segment.source <:+: foldAccents s := by
  have hmem := List.mem_map_of_mem (f := Token.segment) h
  rw [map_segment_tokenize] at hmem
  exact source_infix_of_mem_segments hmem

theorem id_of_getElem?_tokenize {i : Nat} {t : Token} (h : (tokenize cv key s)[i]? = some t) :
    t.id = tokenId (if t.isMath then 'm' else 't') i key := by
  rw [getElem?_tokenize] at h
  obtain ⟨g, -, rfl⟩ := Option.map_eq_some_iff.mp h
  cases g <;> rfl

theorem nodup_ids_tokenize : ((tokenize cv key s).map Token.id).Nodup := by
  refine List.pairwise_iff_getElem.mpr fun i j hi hj hij h => ?_
  rw [List.getElem_map, List.getElem_map] at h
  rw [id_of_getElem?_tokenize cv key s (List.getElem?_eq_getElem (by simpa using hi)),
    id_of_getElem?_tokenize cv key s (List.getElem?_eq_getElem (by simpa using hj)),
    tokenId_inj] at h
  exact hij.ne h.2

/-! ### Formulas by their ids -/

theorem mem_formulas_iff {ts : List Token} {f : Formula} : f ∈ formulas ts ↔ Token.math f ∈ ts := by
  rw [formulas, List.mem_filterMap]
  refine ⟨?_, fun h => ⟨_, h, rfl⟩⟩
  rintro ⟨t, ht, hf⟩
  cases t with
  | plain id u => simp [Token.formula?] at hf
  | math g =>
    obtain rfl : g = f := by simpa [Token.formula?] using hf
    exact ht

theorem map_id_formulas_sublist : ∀ ts : List Token,
    ((formulas ts).map Formula.id).Sublist (ts.map Token.id)
  | [] => List.Sublist.refl _
  | .plain _ _ :: ts => (map_id_formulas_sublist ts).cons _
  | .math _ :: ts => (map_id_formulas_sublist ts).cons_cons _

/-- Among formulas with ids of their own, an id finds its formula. -/
theorem formulaById_eq_some_iff {ts : List Token} (hids : ((formulas ts).map Formula.id).Nodup)
    {id : Text} {f : Formula} :
    formulaById ts id = some f ↔ Token.math f ∈ ts ∧ f.id = id := by
  have hmem : ∀ g, g ∈ (formulas ts).reverse ↔ Token.math g ∈ ts := fun g => by
    rw [List.mem_reverse, mem_formulas_iff]
  have hfound : ∀ g, formulaById ts id = some g → Token.math g ∈ ts ∧ g.id = id := fun g h =>
    ⟨(hmem g).mp (List.mem_of_find?_eq_some h), by simpa using List.find?_some h⟩
  refine ⟨hfound f, ?_⟩
  rintro ⟨hf, rfl⟩
  cases h : formulaById ts f.id with
  | none =>
    have := List.find?_eq_none.mp h f ((hmem f).mpr hf)
    simp at this
  | some g =>
    obtain ⟨hg, hid⟩ := hfound g h
    rw [List.inj_on_of_nodup_map hids (mem_formulas_iff.mpr hg) (mem_formulas_iff.mpr hf) hid]

theorem nodup_ids_formulas_tokenize : ((formulas (tokenize cv key s)).map Formula.id).Nodup :=
  (nodup_ids_tokenize cv key s).sublist (map_id_formulas_sublist _)

/-! ### What a run makes of a text -/

/-- `ts` are the tokens of the text `s` under the key `key`. -/
structure TokensOf (key s : Text) (ts : List Token) : Prop where
  /-- Put together as they stand, they make up the text with its accents folded. -/
  source_eq : ts.flatMap (fun t => t.segment.source) = foldAccents s
  /-- They are its segments, each formula's LaTeX as it stands there. -/
  segments_eq : ts.map Token.segment = segments (foldAccents s)
  /-- Folding the content of a span on its own changes nothing. -/
  content_folded : ∀ c d, Segment.math c d ∈ segments (foldAccents s) → foldAccents c = c
  /-- Each id has the token's kind and place. -/
  id_eq : ∀ i t, ts[i]? = some t → t.id = tokenId (if t.isMath then 'm' else 't') i key
  ids_nodup : (ts.map Token.id).Nodup
  /-- Every formula is found by its own id, and by no other. -/
  byId_iff : ∀ id f, formulaById ts id = some f ↔ Token.math f ∈ ts ∧ f.id = id

/-- **Tokenizing loses nothing and names everything once**, whatever the
converters answer. -/
theorem tokensOf_run (cv : Converters) (fresh key s : Text) (hkey : key ≠ []) :
    TokensOf key s (tokenize cv (runKey fresh (some key)) s) := by
  rw [runKey_some hkey]
  refine ⟨?_, map_segment_tokenize cv key s, fun c d => foldAccents_of_mem_segments,
    fun i t => id_of_getElem?_tokenize cv key s, nodup_ids_tokenize cv key s,
    fun id f => formulaById_eq_some_iff (nodup_ids_formulas_tokenize cv key s)⟩
  rw [← List.flatMap_map, map_segment_tokenize, flatMap_source_segments]

/-- Converters that refuse all formulas and take Markdown for one paragraph of words. -/
def Converters.wordsOnly : Converters where
  mathml _ _ := .error (.converter "no formulas".toList)
  omml _ := .error (.converter "no formulas".toList)
  report _ := []
  html s := .ok ("<p>".toList ++ s ++ "</p>\n".toList)
  blocks _ := .ok []
  inline := none

theorem tokensOf_run_accents :
    "k".toList ≠ [] ∧
    (tokenize .wordsOnly (runKey [] (some "k".toList)) "\\hat{a} $\\bar{x}$".toList).map Token.id =
      ["t-0-k".toList, "m-1-k".toList] ∧
    TokensOf "k".toList "\\hat{a} $\\bar{x}$".toList
      (tokenize .wordsOnly (runKey [] (some "k".toList)) "\\hat{a} $\\bar{x}$".toList) :=
  ⟨by decide, by decide +kernel, tokensOf_run .wordsOnly [] "k".toList _ (by decide)⟩

end Formulary
