/-
# Prefixes of a moved node

No prefix stands for two namespaces, if that was so before and the new prefixes are new. A moved
node takes a prefix of its own for a name only if none around it can be used: that of the
declaration that stayed behind, which is free then, the usual one of the namespace, or one with
a number. A number is new as long as numbers are counted; and none is needed where something is
known of every declaration that a name may use.

Key definitions: `Xml.IsClear`, `Xml.Prefixes`, `Xml.Move.Declares`, `Xml.Move.Clear`,
`Xml.Tag.WellNamed`.
Key theorems: `Xml.Move.declares_declare`, `Xml.Move.Clear.fix`, `Xml.clear_adaptInner`,
`Xml.joins_adapt`, `Xml.joins_adaptEach`.
-/
import Formulary.Proofs.Text.Decimal
import Formulary.Proofs.Xml.Legible
import Formulary.Proofs.Xml.Settling

namespace Formulary
namespace Xml

/-! ### Prefixes with one meaning -/

/-- Whether no prefix stands for two namespaces. -/
def IsClear (bs : List Binding) : Prop := ∀ b ∈ bs, ∀ c ∈ bs, b.pre = c.pre → b.uri = c.uri

instance (bs : List Binding) : Decidable (IsClear bs) :=
  inferInstanceAs (Decidable (∀ b ∈ bs, ∀ c ∈ bs, b.pre = c.pre → b.uri = c.uri))

theorem IsClear.mono {bs cs : List Binding} (h : IsClear bs) (hcs : cs ⊆ bs) : IsClear cs :=
  fun b hb c hc => h b (hcs hb) c (hcs hc)

/-- A declaration of a prefix that has no other meaning joins the others. -/
theorem IsClear.cons {bs : List Binding} {c : Binding} (h : IsClear bs)
    (hc : ∀ b ∈ bs, b.pre = c.pre → b.uri = c.uri) : IsClear (c :: bs) := by
  intro b hb d hd hpre
  rw [List.mem_cons] at hb hd
  rcases hb with rfl | hb
  · rcases hd with rfl | hd
    · rfl
    · exact (hc d hd hpre.symm).symm
  · rcases hd with rfl | hd
    · exact hc b hb hpre
    · exact h b hb d hd hpre

/-- The declarations of the usual prefixes. -/
def usual : List Binding := usualPrefixes.map fun p => ⟨0, p.2.toList, p.1.toList⟩

theorem newPrefix_injective : Function.Injective newPrefix := fun n k h => by
  simp only [newPrefix, List.cons.injEq, true_and] at h
  exact Text.ofNat_injective h

/-- A prefix with a number is none of the usual ones. -/
theorem pre_ne_newPrefix_of_mem_usual {b : Binding} (hb : b ∈ usual) (n : Nat) :
    b.pre ≠ newPrefix n := by
  have hhead : ∀ b ∈ usual, b.pre.head? ≠ some 'n' := by decide
  intro heq
  exact hhead b hb (heq ▸ rfl)

theorem isSimpleName_newPrefix (n : Nat) : isSimpleName (newPrefix n) = true := by
  have hstart : isNameStart 'n' = true := by decide
  have hrest : ((newPrefix n).tail.all isNameChar) = true := by
    rw [List.all_eq_true]
    intro c hc
    rcases List.mem_cons.mp hc with rfl | hc
    · decide
    · simp [isNameChar, Text.isDigit_of_mem_ofNat hc]
  exact Bool.and_eq_true_iff.mpr ⟨hstart, hrest⟩

/-- Whether each of the prefixes that has a number has one below the bound. -/
def NumbersBelow (bound : Nat) (bs : List Binding) : Prop :=
  ∀ b ∈ bs, ∀ n, b.pre = newPrefix n → n < bound

theorem NumbersBelow.mono {bound bound' : Nat} {bs cs : List Binding} (h : NumbersBelow bound bs)
    (hle : bound ≤ bound') (hcs : cs ⊆ bs) : NumbersBelow bound' cs :=
  fun b hb n hn => (h b (hcs hb) n hn).trans_le hle

/-- Declarations of namespaces that keep the rules, and no prefix stands for two of them. -/
structure Prefixes (bs : List Binding) : Prop where
  clear : IsClear (usual ++ bs)
  orderly : ∀ b ∈ bs, b.IsOrderly
  named : ∀ b ∈ bs, b.uri ≠ []

theorem Prefixes.mono {bs cs : List Binding} (h : Prefixes bs) (hcs : cs ⊆ bs) : Prefixes cs :=
  ⟨h.clear.mono (append_scope_subset hcs usual), fun b hb => h.orderly b (hcs hb),
    fun b hb => h.named b (hcs hb)⟩

theorem Prefixes.cons {bs : List Binding} {c : Binding} (h : Prefixes bs) (horderly : c.IsOrderly)
    (hnamed : c.uri ≠ []) (hc : ∀ b ∈ usual ++ bs, b.pre = c.pre → b.uri = c.uri) :
    Prefixes (c :: bs) := by
  refine ⟨(h.clear.cons hc).mono ?_, List.forall_mem_cons.mpr ⟨horderly, h.orderly⟩,
    List.forall_mem_cons.mpr ⟨hnamed, h.named⟩⟩
  exact (List.perm_middle).subset

theorem Binding.IsOrderly.pre_ne_xml {b : Binding} (h : b.IsOrderly) :
    b.pre ≠ Binding.xml.pre := by
  have hallowed := h.allowed
  simp only [mayDeclare, Bool.and_eq_true, bne_iff_ne] at hallowed
  exact hallowed.1.1.1.1

theorem Binding.IsOrderly.uri_ne_xmlUri {b : Binding} (h : b.IsOrderly) : b.uri ≠ xmlUri := by
  have hallowed := h.allowed
  simp only [mayDeclare, Bool.and_eq_true, bne_iff_ne] at hallowed
  exact hallowed.1.1.2

/-- A namespace may be declared for another prefix as well. -/
theorem Binding.IsOrderly.withPrefix {b : Binding} (h : b.IsOrderly) (hnamed : b.uri ≠ [])
    {pre : Text} (hsimple : isSimpleName pre = true)
    (hpre : pre ≠ Binding.xml.pre ∧ pre ≠ "xmlns".toList) (id : Nat) :
    (Binding.mk id pre b.uri).IsOrderly := by
  have hallowed := h.allowed
  simp only [mayDeclare, Bool.and_eq_true, bne_iff_ne] at hallowed
  refine ⟨.inr hsimple, ?_, h.address, h.legal⟩
  have hne : (!b.uri.isEmpty) = true := by simpa using hnamed
  simp only [mayDeclare, Bool.and_eq_true, bne_iff_ne, Bool.or_eq_true]
  exact ⟨⟨⟨hpre, hallowed.1.1.2⟩, hallowed.1.2⟩, .inr hne⟩

/-! ### The prefix of a new declaration -/

theorem mem_of_declarationOf? {pre : Text} (hpre : pre ≠ Binding.xml.pre) {t : Tag} {up : List Tag}
    {b : Binding} (h : declarationOf? pre (t :: up) = some b) :
    b ∈ t.bindings ++ up.flatMap Tag.seen ∧ b.pre = pre := by
  rw [declarationOf?, if_neg hpre, Option.or_eq_some_iff] at h
  rcases h with h | ⟨-, h⟩
  · exact ⟨List.mem_append_left _ (List.mem_of_find?_eq_some h), by simpa using List.find?_some h⟩
  · obtain ⟨u, hu, h⟩ := List.exists_of_findSome?_eq_some h
    exact ⟨List.mem_append_right _ (List.mem_flatMap.mpr ⟨u, hu, List.mem_of_find?_eq_some h⟩),
      by simpa using List.find?_some h⟩

theorem pre_ne_of_declarationOf?_eq_none {pre : Text} {t : Tag} {up : List Tag}
    (h : declarationOf? pre (t :: up) = none) : ∀ b ∈ t.bindings, b.pre ≠ pre := by
  rw [declarationOf?] at h
  split at h
  · exact absurd h (by simp)
  · intro b hb
    simpa using List.find?_eq_none.mp (Option.or_eq_none_iff.mp h).1 b hb

theorem le_freePrefix (path : List Tag) (n : Nat) : n ≤ freePrefix path n := by
  unfold freePrefix
  dsimp only
  cases hfind : List.find? (fun i => (declarationOf? (newPrefix i) path).isNone)
      ((List.range ((path.flatMap Tag.seen).length + 1)).map (n + ·)) with
  | none => exact Nat.le_refl n
  | some k =>
    obtain ⟨i, -, rfl⟩ := List.mem_map.mp (List.mem_of_find?_eq_some hfind)
    exact Nat.le_add_right n i

namespace Move

variable {outer inner : List Tag} {bs names ds : List Binding} {m m' : Move} {b : Binding}

/-- The prefixes that a new declaration may take, and the next number for one. -/
inductive Declares (outer : List Tag) (b : Binding) (m : Move) : Text → Nat → Prop
  | same (hpre : b.pre ≠ []) (hfree : declarationOf? b.pre (m.start :: outer) = none) :
      Declares outer b m b.pre m.supply.pre
  | usual {c : Binding} (hpre : b.pre = []) (hc : c ∈ Xml.usual) (huri : c.uri = b.uri)
      (hfree : declarationOf? c.pre (m.start :: outer) = none) :
      Declares outer b m c.pre m.supply.pre
  | new {n : Nat} (hn : m.supply.pre ≤ n)
      (htaken : b.pre ≠ [] → declarationOf? b.pre (m.start :: outer) ≠ none) :
      Declares outer b m (newPrefix n) (n + 1)

theorem declares_declare (outer : List Tag) (b : Binding) (m : Move) :
    Declares outer b m (m.declare outer b).1.pre (m.declare outer b).2.supply.pre := by
  have hnew := le_freePrefix (m.start :: outer) m.supply.pre
  unfold Move.declare
  dsimp only
  by_cases hpre : b.pre = []
  · rw [if_pos (List.isEmpty_iff.mpr hpre)]
    split
    · rename_i p hp
      obtain ⟨hp, hfree⟩ := Option.filter_eq_some_iff.mp hp
      obtain ⟨q, hq, rfl⟩ := Option.map_eq_some_iff.mp hp
      have huri : q.1.toList = b.uri := by simpa using List.find?_some hq
      exact .usual (c := ⟨0, q.2.toList, q.1.toList⟩) hpre
        (List.mem_map.mpr ⟨q, List.mem_of_find?_eq_some hq, rfl⟩) huri (by simpa using hfree)
    · exact .new hnew fun h => absurd hpre h
  · rw [if_neg (by simpa using hpre)]
    split
    · rename_i p hp
      obtain ⟨hp, hfree⟩ := Option.filter_eq_some_iff.mp hp
      obtain rfl := Option.some.inj hp
      exact .same hpre (by simpa using hfree)
    · rename_i hp
      refine .new hnew fun _ hfree => ?_
      rw [Option.filter_eq_none_iff] at hp
      exact absurd (hp b.pre rfl) (by simp [hfree])

/-- A declaration that is known for one without a prefix can be used for any name. -/
theorem known?_ne_none {isAttr : Bool} (hpre : b.pre = []) {p : Nat × Binding} (hp : p ∈ m.known)
    (hid : p.1 = b.id) : m.known? isAttr b ≠ none := by
  intro hnone
  have hnot := List.find?_eq_none.mp (Option.map_eq_none_iff.mp hnone) p hp
  simp [hid, hpre] at hnot

/-- A prefix that is taken is taken for its own namespace, which is found then. -/
theorem find?_ne_none {isAttr : Bool} (hpre : b.pre ≠ []) (hxml : b.pre ≠ Binding.xml.pre)
    (hclear : ∀ c ∈ m.start.bindings ++ outer.flatMap Tag.seen, c.pre = b.pre → c.uri = b.uri)
    (htaken : declarationOf? b.pre (m.start :: outer) ≠ none) :
    m.find? outer isAttr b.uri ≠ none := by
  obtain ⟨c, hc⟩ := Option.ne_none_iff_exists'.mp htaken
  obtain ⟨hmem, heq⟩ := mem_of_declarationOf? hxml hc
  intro hnone
  have hnot := List.find?_eq_none.mp hnone c hmem
  simp [hclear c hmem heq, heq, hpre, hc] at hnot

/-! ### Prefixes on the moved node -/

/-- No prefix stands for two namespaces, those on the moved node among them. The names that are
still to come use declarations of `names`. Either prefixes with numbers are counted, or
something is known of all these declarations. -/
structure Clear (outer : List Tag) (bs names : List Binding) (counted : Bool) (m : Move) :
    Prop where
  prefixes : Prefixes (bs ++ m.start.bindings)
  distinct : (m.start.bindings.map Binding.pre).Nodup
  added : ∀ b ∈ m.start.bindings, b ∈ bs ∨ b.pre ≠ []
  outer : ∀ b ∈ outer.flatMap Tag.seen, b.IsIn bs
  within : names ⊆ bs
  numbers : counted = true → NumbersBelow m.supply.pre (bs ++ m.start.bindings)
  known : counted = false → ∀ b ∈ names, ∃ p ∈ m.known, p.1 = b.id

variable {counted : Bool}

/-- Nothing changes while the moved node keeps its declarations. -/
theorem Clear.of_known_subset (h : m.Clear outer bs names counted)
    (hstart : m'.start.bindings = m.start.bindings) (hsupply : m'.supply = m.supply)
    (hknown : m.known ⊆ m'.known) : m'.Clear outer bs names counted := by
  obtain ⟨hprefixes, hdistinct, hadded, houter, hnames, hnumbers, hall⟩ := h
  rw [← hstart] at hprefixes hdistinct hadded hnumbers
  rw [← hsupply] at hnumbers
  exact ⟨hprefixes, hdistinct, hadded, houter, hnames, hnumbers, fun hc b hb =>
    (hall hc b hb).imp fun _ hp => ⟨hknown hp.1, hp.2⟩⟩

theorem Clear.mono (h : m.Clear outer bs names counted) {names' : List Binding}
    (hnames : names' ⊆ names) : m.Clear outer bs names' counted :=
  ⟨h.prefixes, h.distinct, h.added, h.outer, List.Subset.trans hnames h.within, h.numbers,
    fun hc b hb => h.known hc b (hnames hb)⟩

/-- A prefix that suits a new declaration of a namespace, and the next number after it. -/
structure Suits (bs : List Binding) (counted : Bool) (m : Move) (uri pre : Text) (next : Nat) :
    Prop where
  orderly : ∀ id, (Binding.mk id pre uri).IsOrderly
  clear : ∀ b ∈ Xml.usual ++ (bs ++ m.start.bindings), b.pre = pre → b.uri = uri
  distinct : ∀ b ∈ m.start.bindings, b.pre ≠ pre
  isSome : pre ≠ []
  numbers : counted = true → m.supply.pre ≤ next ∧ ∀ n, pre = newPrefix n → n < next

/-- **A new declaration takes a prefix with no other meaning.** -/
theorem Clear.suits (h : m.Clear outer bs names counted) {isAttr : Bool} (hb : b ∈ names)
    (hnew : m.known? isAttr b = none) (hnone : m.find? outer isAttr b.uri = none) {pre : Text}
    {next : Nat} (hd : Declares outer b m pre next) : m.Suits bs counted b.uri pre next := by
  have hbs := List.mem_append_left m.start.bindings (h.within hb)
  have horderly := h.prefixes.orderly b hbs
  have hnamed := h.prefixes.named b hbs
  cases hd with
  | same hpre hfree =>
    refine ⟨fun _ => ⟨horderly.simple, horderly.allowed, horderly.address, horderly.legal⟩,
      fun c hc heq => h.prefixes.clear c hc b (List.mem_append_right _ hbs) heq,
      pre_ne_of_declarationOf?_eq_none hfree, hpre, fun hc => ⟨Nat.le_refl _, ?_⟩⟩
    exact h.numbers hc b hbs
  | @usual c hpre hc huri hfree =>
    have hrules : ∀ c ∈ Xml.usual, isSimpleName c.pre = true ∧
        (c.pre ≠ Binding.xml.pre ∧ c.pre ≠ "xmlns".toList) ∧ c.pre ≠ [] := by decide
    obtain ⟨hsimple, hreserved, hsome⟩ := hrules c hc
    refine ⟨horderly.withPrefix hnamed hsimple hreserved, fun d hd heq => ?_,
      pre_ne_of_declarationOf?_eq_none hfree, hsome, fun _ => ⟨Nat.le_refl _, fun n hn => ?_⟩⟩
    · exact (h.prefixes.clear d hd c (List.mem_append_left _ hc) heq).trans huri
    · exact absurd hn (pre_ne_newPrefix_of_mem_usual hc n)
  | @new n hn htaken =>
    have hpre : b.pre = [] := by
      by_contra hpre
      refine find?_ne_none hpre horderly.pre_ne_xml (fun c hc heq => ?_) (htaken hpre) hnone
      rcases List.mem_append.mp hc with hc | hc
      · exact h.prefixes.clear c (List.mem_append_right _ (List.mem_append_right _ hc)) b
          (List.mem_append_right _ hbs) heq
      · rcases h.outer c hc with rfl | hc
        · exact absurd heq.symm horderly.pre_ne_xml
        · exact h.prefixes.clear c (List.mem_append_right _ (List.mem_append_left _ hc)) b
            (List.mem_append_right _ hbs) heq
    have hcounted : counted = true := by
      by_contra hc
      obtain ⟨p, hp, hid⟩ := h.known (by simpa using hc) b hb
      exact known?_ne_none hpre hp hid hnew
    have hfresh : ∀ c ∈ bs ++ m.start.bindings, c.pre ≠ newPrefix n := fun c hc heq =>
      absurd (h.numbers hcounted c hc n heq) (Nat.not_lt.mpr hn)
    have hhead : (newPrefix n).head? = some 'n' := rfl
    have hreserved : newPrefix n ≠ Binding.xml.pre ∧ newPrefix n ≠ "xmlns".toList :=
      ⟨fun heq => absurd (heq ▸ hhead) (by decide), fun heq => absurd (heq ▸ hhead) (by decide)⟩
    refine ⟨horderly.withPrefix hnamed (isSimpleName_newPrefix n) hreserved, fun c hc heq => ?_,
      fun c hc => hfresh c (List.mem_append_right _ hc), by simp [newPrefix],
      fun _ => ⟨hn.trans (Nat.le_succ n), fun k hk => ?_⟩⟩
    · rcases List.mem_append.mp hc with hc | hc
      · exact absurd heq (pre_ne_newPrefix_of_mem_usual hc n)
      · exact absurd heq (hfresh c hc)
    · rw [newPrefix_injective hk]
      exact Nat.lt_succ_self k

/-- **No prefix comes to stand for two namespaces** when a name is adapted. -/
theorem Clear.fix (h : m.Clear outer bs names counted) (isAttr : Bool) (hb : b.IsIn names) :
    (m.fix outer isAttr b).2.Clear outer bs names counted := by
  have hfix := fix_fix outer isAttr b m
  generalize (m.fix outer isAttr b).2 = m' at hfix ⊢
  generalize (m.fix outer isAttr b).1 = c at hfix
  cases hfix with
  | reserved => exact h
  | known => exact h
  | found => exact h.of_known_subset rfl rfl (List.subset_append_left _ _)
  | @declared _ d huri hnew hnone hd =>
    have hnames : b ∈ names := hb.resolve_left fun heq => by
      rw [heq] at huri
      exact huri rfl
    have hsuits := h.suits hnames hnew hnone (declares_declare outer b m)
    obtain ⟨hc, -⟩ := declare_uri outer b m
    obtain ⟨hknown, hstart, -⟩ := declare_move outer b m
    rw [hd] at hsuits hc hknown hstart
    dsimp only at hsuits hc hknown hstart
    have hstart' : d.start.bindings = m.start.bindings ++ [c] := by rw [hstart]
    have hperm : (bs ++ (m.start.bindings ++ [c])).Perm (c :: (bs ++ m.start.bindings)) := by
      rw [← List.append_assoc]
      exact List.perm_append_singleton c _
    have hcnamed : c.uri ≠ [] := by
      rw [hc]
      exact h.prefixes.named b (List.mem_append_left _ (h.within hnames))
    have hcorderly : c.IsOrderly := by
      obtain ⟨id, pre, uri⟩ := c
      dsimp only at hc hsuits
      rw [hc]
      exact hsuits.orderly id
    refine ⟨?_, ?_, ?_, h.outer, h.within, fun hcounted => ?_, fun hcounted b' hb' => ?_⟩
    · show Prefixes (bs ++ d.start.bindings)
      rw [hstart']
      exact (h.prefixes.cons hcorderly hcnamed (hc ▸ hsuits.clear)).mono hperm.subset
    · show (d.start.bindings.map Binding.pre).Nodup
      rw [hstart', List.map_append, List.map_singleton, ← List.concat_eq_append]
      refine List.Nodup.concat (fun hmem => ?_) h.distinct
      obtain ⟨e, he, heq⟩ := List.mem_map.mp hmem
      exact hsuits.distinct e he heq
    · show ∀ e ∈ d.start.bindings, e ∈ bs ∨ e.pre ≠ []
      rw [hstart']
      exact List.forall_mem_append.mpr
        ⟨h.added, List.forall_mem_singleton.mpr (.inr hsuits.isSome)⟩
    · show NumbersBelow d.supply.pre (bs ++ d.start.bindings)
      obtain ⟨hle, hnumber⟩ := hsuits.numbers hcounted
      rw [hstart']
      intro e he
      rcases List.mem_cons.mp (hperm.subset he) with rfl | he
      · exact hnumber
      · exact fun n hn => (h.numbers hcounted e he n hn).trans_le hle
    · obtain ⟨p, hp, hid⟩ := h.known hcounted b' hb'
      exact ⟨p, List.mem_append_left _ (hknown ▸ hp), hid⟩

theorem Clear.fixName (h : m.Clear outer bs names counted) (isAttr : Bool) {n : Name}
    (hn : n.Uses names) : (m.fixName outer isAttr n).2.Clear outer bs names counted := by
  obtain ⟨ns, loc⟩ := n
  cases ns with
  | none => exact h
  | some b => exact h.fix isAttr (hn b rfl)

theorem Clear.fixAttrs (h : m.Clear outer bs names counted) {as : List Attr}
    (has : ∀ a ∈ as, a.name.Uses names) :
    (m.fixAttrs outer as).2.Clear outer bs names counted := by
  induction as generalizing m with
  | nil => exact h
  | cons a as ih =>
    obtain ⟨ha, has⟩ := List.forall_mem_cons.mp has
    exact ih (h.fixName true ha) has

theorem Clear.strip (h : m.Clear outer bs names counted) (path : List Tag) (hds : ds ⊆ bs) :
    (m.strip path ds).2.Clear outer bs (ds ++ names) counted := by
  obtain ⟨hstart, hsupply⟩ := strip_start path ds m
  have hsame := h.of_known_subset (congrArg Tag.bindings hstart) hsupply
    (known_strip_subset path ds m)
  refine ⟨hsame.prefixes, hsame.distinct, hsame.added, h.outer,
    List.append_subset.mpr ⟨hds, h.within⟩, hsame.numbers, fun hc b hb => ?_⟩
  rcases List.mem_append.mp hb with hb | hb
  · exact exists_mem_known_strip hb
  · exact hsame.known hc b hb

theorem Clear.adaptTag (h : m.Clear outer bs names counted) (inner : List Tag) {t : Tag}
    (hbindings : t.bindings ⊆ bs) (ht : t.Grounded names) :
    (m.adaptTag outer inner t).2.Clear outer bs (t.bindings ++ names) counted :=
  ((h.strip _ hbindings).fixName false ht.1).fixAttrs ht.2

end Move

/-! ### Nodes -/

section Adapt

variable {outer : List Tag} {bs : List Binding} {counted : Bool}

mutual
theorem clear_adaptInner : ∀ {n : Node} {inner : List Tag} {names : List Binding} {m : Move},
    m.Clear outer bs names counted → n.declared ⊆ bs → n.Grounded names →
    (n.adaptInner outer inner m).2.Clear outer bs names counted
  | .element t ns, inner, names, m, h, hbs, hn => by
    obtain ⟨hbindings, hnsbs⟩ := List.append_subset.mp hbs
    rw [adaptInner_element]
    exact (clear_adaptAllInner (h.adaptTag inner hbindings hn.1) hnsbs hn.2).mono
      (List.subset_append_right _ _)
  | .text _, _, _, _, h, _, _ => h
  | .comment _, _, _, _, h, _, _ => h
  | .instruction _ _, _, _, _, h, _, _ => h
  | .reference _, _, _, _, h, _, _ => h
/-- No prefix comes to stand for two namespaces when the nodes inside the moved one are
adapted. -/
theorem clear_adaptAllInner : ∀ {ns : List Node} {inner : List Tag} {names : List Binding}
    {m : Move}, m.Clear outer bs names counted → declaredAll ns ⊆ bs → AllGrounded names ns →
    (adaptAllInner outer inner ns m).2.Clear outer bs names counted
  | [], _, _, _, h, _, _ => h
  | n :: ns, inner, names, m, h, hbs, hns => by
    obtain ⟨hnbs, hnsbs⟩ := List.append_subset.mp hbs
    simp only [adaptAllInner]
    exact clear_adaptAllInner (clear_adaptInner h hnbs hns.1) hnsbs hns.2
end

end Adapt

/-! ### Tags -/

theorem Tag.DeclaresWell.of_sublist {t t' : Tag} (h : t.DeclaresWell)
    (hsub : t'.bindings.Sublist t.bindings) : t'.DeclaresWell :=
  ⟨fun b hb => h.orderly b (hsub.subset hb), (hsub.map _).nodup h.distinct⟩

/-- A tag that declares well and whose attributes use no default namespace. Whether its name may
lack a namespace is given. -/
structure Tag.WellNamed (lack : Prop) (t : Tag) : Prop where
  declares : t.DeclaresWell
  attrs : ∀ a ∈ t.attrs, ∀ b ∈ a.name.ns, b.pre ≠ []
  name : t.name.ns = none → lack

namespace Move

variable {outer inner : List Tag} {m : Move} {b : Binding}

/-- An attribute with a prefix keeps one. -/
theorem pre_fix_ne_nil (hpre : b.pre ≠ []) : (m.fix outer true b).1.pre ≠ [] := by
  have hfix := fix_fix outer true b m
  generalize (m.fix outer true b).2 = m' at hfix
  generalize (m.fix outer true b).1 = c at hfix ⊢
  cases hfix with
  | reserved => exact hpre
  | known huri hc =>
    obtain ⟨p, hp, rfl⟩ := Option.map_eq_some_iff.mp hc
    have hfound := List.find?_some hp
    simp only [Bool.and_eq_true, Bool.not_eq_true', Bool.true_and, Bool.and_eq_false_iff] at hfound
    rcases hfound.2 with hempty | hempty
    · exact absurd hempty (by simpa using hpre)
    · simpa using hempty
  | found huri hnew hc =>
    have hfound := List.find?_some hc
    simp only [Bool.and_eq_true, Bool.not_eq_true', Bool.true_and] at hfound
    simpa using hfound.1.2
  | @declared _ d huri hnew hnone hd =>
    have hdeclares := declares_declare outer b m
    rw [hd] at hdeclares
    dsimp only at hdeclares
    generalize c.pre = pre at hdeclares ⊢
    generalize d.supply.pre = next at hdeclares
    cases hdeclares with
    | same => exact hpre
    | usual hnil => exact absurd hnil hpre
    | new => simp [newPrefix]

theorem pre_fixAttrs_ne_nil {as : List Attr} (h : ∀ a ∈ as, ∀ b ∈ a.name.ns, b.pre ≠ []) :
    ∀ a ∈ (m.fixAttrs outer as).1, ∀ b ∈ a.name.ns, b.pre ≠ [] := by
  induction as generalizing m with
  | nil => exact fun a ha => absurd ha List.not_mem_nil
  | cons a as ih =>
    obtain ⟨ha, has⟩ := List.forall_mem_cons.mp h
    refine List.forall_mem_cons.mpr ⟨?_, ih has⟩
    obtain ⟨⟨ns, loc⟩, value⟩ := a
    cases ns with
    | none => exact fun b hb => absurd hb (by simp)
    | some b =>
      intro c hc
      obtain rfl := Option.some.inj hc
      exact pre_fix_ne_nil (ha b rfl)

theorem ns_fixName_eq_none {isAttr : Bool} {n : Name}
    (h : (m.fixName outer isAttr n).1.ns = none) : n.ns = none := by
  obtain ⟨ns, loc⟩ := n
  cases ns with
  | none => rfl
  | some b => exact absurd h (by simp [Move.fixName])

theorem wellNamed_adaptTag {lack : Prop} {t : Tag} (h : t.WellNamed lack) :
    (m.adaptTag outer inner t).1.WellNamed lack :=
  ⟨.of_sublist h.declares (bindings_adaptTag_sublist outer inner t m),
    pre_fixAttrs_ne_nil h.attrs, fun hns => h.name (ns_fixName_eq_none hns)⟩

end Move

section Adapt

variable {outer : List Tag} {lack : Prop}

mutual
theorem wellNamed_adaptInner : ∀ {n : Node} {inner : List Tag} {m : Move},
    (∀ t ∈ n.tags, t.WellNamed lack) →
    ∀ t ∈ (n.adaptInner outer inner m).1.tags, t.WellNamed lack
  | .element t ns, inner, m, h => by
    obtain ⟨ht, hns⟩ := List.forall_mem_cons.mp h
    rw [adaptInner_element]
    exact List.forall_mem_cons.mpr ⟨Move.wellNamed_adaptTag ht, wellNamed_adaptAllInner hns⟩
  | .text _, _, _, h => h
  | .comment _, _, _, h => h
  | .instruction _ _, _, _, h => h
  | .reference _, _, _, h => h
/-- The tags inside a moved node stay well named. -/
theorem wellNamed_adaptAllInner : ∀ {ns : List Node} {inner : List Tag} {m : Move},
    (∀ t ∈ tagsAll ns, t.WellNamed lack) →
    ∀ t ∈ tagsAll (adaptAllInner outer inner ns m).1, t.WellNamed lack
  | [], _, _, h => h
  | n :: ns, inner, m, h => by
    obtain ⟨hn, hns⟩ := List.forall_mem_append.mp h
    simp only [adaptAllInner]
    exact List.forall_mem_append.mpr ⟨wellNamed_adaptInner hn, wellNamed_adaptAllInner hns⟩
end

end Adapt

/-! ### The moved node -/

/-- Declarations that join others, and no prefix comes to stand for two namespaces. Those that
are new have a prefix. Prefixes with numbers may be counted. -/
structure Joins (bs : List Binding) (counted : Bool) (bound : Nat) (added : List Binding) :
    Prop where
  prefixes : Prefixes (bs ++ added)
  named : ∀ b ∈ added, b ∈ bs ∨ b.pre ≠ []
  numbers : counted = true → NumbersBelow bound (bs ++ added)

theorem Joins.append {bs added added' : List Binding} {counted : Bool} {bound bound' : Nat}
    (h : Joins bs counted bound added) (h' : Joins (bs ++ added) counted bound' added') :
    Joins bs counted bound' (added ++ added') := by
  obtain ⟨hprefixes, hnamed, hnumbers⟩ := h'
  rw [List.append_assoc] at hprefixes hnumbers
  refine ⟨hprefixes, List.forall_mem_append.mpr ⟨h.named, fun b hb => ?_⟩, hnumbers⟩
  rcases hnamed b hb with hb | hb
  · exact (List.mem_append.mp hb).elim .inl (h.named b)
  · exact .inr hb

section Adapt

variable {outer : List Tag} {bs names : List Binding} {counted : Bool} {lack : Prop} {s : Supply}
  (hbs : Prefixes bs) (houter : ∀ b ∈ outer.flatMap Tag.seen, b.IsIn bs)
  (hnumbers : counted = true → NumbersBelow s.pre bs) (hknown : counted = false → names = [])

include hbs houter hnumbers hknown

theorem Move.clear_begin {t : Tag} (hwithin : t.bindings ++ names ⊆ bs) (ht : t.DeclaresWell) :
    (Move.begin outer t s).Clear outer bs (t.bindings ++ names) counted := by
  have hkept := strip_sublist outer t.bindings ⟨[], t, s⟩
  have hsub : bs ++ (Move.begin outer t s).start.bindings ⊆ bs :=
    List.append_subset.mpr ⟨List.Subset.refl bs, List.Subset.trans hkept.subset
      (List.append_subset.mp hwithin).1⟩
  have hsupply : (Move.begin outer t s).supply = s := (strip_start outer t.bindings ⟨[], t, s⟩).2
  refine ⟨hbs.mono hsub, (hkept.map _).nodup ht.distinct,
    fun b hb => .inl ((List.append_subset.mp hsub).2 hb), houter, hwithin, fun hc => ?_,
    fun hc b hb => ?_⟩
  · rw [hsupply]
    exact (hnumbers hc).mono (Nat.le_refl _) hsub
  · rw [hknown hc, List.append_nil] at hb
    exact exists_mem_known_strip hb

variable {n : Node} (hwithin : n.declared ++ names ⊆ bs) (hn : n.Grounded names)
  (htags : ∀ t ∈ n.tags, t.WellNamed lack)

include hwithin hn htags

/-- **When a node is moved, no prefix comes to stand for two namespaces**, and its tags stay well
named. -/
theorem joins_adapt :
    Joins bs counted (n.adapt outer s).2.pre (n.adapt outer s).1.declared ∧
      ∀ t ∈ (n.adapt outer s).1.tags, t.WellNamed lack := by
  cases n with
  | element t ns =>
    obtain ⟨ht, hns⟩ := List.forall_mem_cons.mp htags
    obtain ⟨hdeclared, hnames⟩ := List.append_subset.mp hwithin
    obtain ⟨hbindings, hnsbs⟩ := List.append_subset.mp hdeclared
    have hbegin := Move.clear_begin hbs houter hnumbers hknown
      (List.append_subset.mpr ⟨hbindings, hnames⟩) ht.declares
    have hnamed := (hbegin.fixName false hn.1.1).fixAttrs hn.1.2
    have hheaded : (Move.headed outer t s).Clear outer bs (t.bindings ++ names) counted :=
      ⟨hnamed.prefixes, hnamed.distinct, hnamed.added, hnamed.outer, hnamed.within,
        hnamed.numbers, hnamed.known⟩
    have hclear := @clear_adaptAllInner outer bs counted ns [] _ _ hheaded hnsbs hn.2
    obtain ⟨hname, hattrs⟩ := @sameHead_adaptAllInner outer [] ns (Move.headed outer t s)
    have hinner := (declaredAll_adaptAllInner_sublist outer [] ns
      (Move.headed outer t s)).subset
    have hinside := @wellNamed_adaptAllInner outer lack ns [] (Move.headed outer t s) hns
    rw [adapt_element]
    generalize (adaptAllInner outer [] ns (Move.headed outer t s)).2 = m at hclear hname hattrs ⊢
    generalize (adaptAllInner outer [] ns (Move.headed outer t s)).1 = ms at hinner hinside ⊢
    have hms : declaredAll ms ⊆ bs := List.Subset.trans hinner hnsbs
    have hsub : bs ++ (Node.element m.start ms).declared ⊆ bs ++ m.start.bindings :=
      List.append_subset.mpr ⟨List.subset_append_left _ _, List.append_subset.mpr
        ⟨List.subset_append_right _ _, List.Subset.trans hms (List.subset_append_left _ _)⟩⟩
    refine ⟨⟨hclear.prefixes.mono hsub, ?_, fun hc =>
      (hclear.numbers hc).mono (Nat.le_refl _) hsub⟩,
      List.forall_mem_cons.mpr ⟨⟨?_, ?_, ?_⟩, hinside⟩⟩
    · exact List.forall_mem_append.mpr ⟨hclear.added, fun b hb => .inl (hms hb)⟩
    · exact ⟨fun b hb => hclear.prefixes.orderly b (List.mem_append_right _ hb), hclear.distinct⟩
    · rw [hattrs]
      exact Move.pre_fixAttrs_ne_nil ht.attrs
    · rw [hname]
      exact fun hns => ht.name (Move.ns_fixName_eq_none hns)
  | _ =>
    refine ⟨⟨?_, fun b hb => absurd hb List.not_mem_nil, ?_⟩, htags⟩
    · exact hbs.mono (List.append_subset.mpr ⟨List.Subset.refl bs, List.nil_subset bs⟩)
    · exact fun hc => (hnumbers hc).mono (Nat.le_refl _)
        (List.append_subset.mpr ⟨List.Subset.refl bs, List.nil_subset bs⟩)

end Adapt

/-- Nodes that are moved one after another take prefixes with no other meaning, if prefixes with
numbers are counted. -/
theorem joins_adaptEach {outer : List Tag} {bs names : List Binding} {lack : Prop} {s : Supply}
    (hbs : Prefixes bs) (houter : ∀ b ∈ outer.flatMap Tag.seen, b.IsIn bs)
    (hnumbers : NumbersBelow s.pre bs) {ns : List Node} (hwithin : declaredAll ns ++ names ⊆ bs)
    (hns : AllGrounded names ns) (htags : ∀ t ∈ tagsAll ns, t.WellNamed lack) :
    Joins bs true (adaptEach outer s ns).2.pre (declaredAll (adaptEach outer s ns).1) ∧
      ∀ t ∈ tagsAll (adaptEach outer s ns).1, t.WellNamed lack := by
  induction ns generalizing bs s with
  | nil =>
    rw [← List.append_nil bs] at hbs hnumbers
    exact ⟨⟨hbs, fun b hb => absurd hb List.not_mem_nil, fun _ => hnumbers⟩, htags⟩
  | cons n ns ih =>
    obtain ⟨hdeclared, hnames⟩ := List.append_subset.mp hwithin
    obtain ⟨hndeclared, hnsdeclared⟩ := List.append_subset.mp hdeclared
    obtain ⟨hntags, hnstags⟩ := List.forall_mem_append.mp htags
    have hnone : true = false → names = [] := nofun
    obtain ⟨hjoins, hmoved⟩ := joins_adapt hbs houter (fun _ => hnumbers) hnone
      (List.append_subset.mpr ⟨hndeclared, hnames⟩) hns.1 hntags
    have hmore : bs ⊆ bs ++ (n.adapt outer s).1.declared := List.subset_append_left _ _
    obtain ⟨hjoins', hmoved'⟩ := ih hjoins.prefixes (fun b hb => (houter b hb).mono hmore)
      (hjoins.numbers rfl) (List.append_subset.mpr
        ⟨List.Subset.trans hnsdeclared hmore, List.Subset.trans hnames hmore⟩) hns.2 hnstags
    exact ⟨hjoins.append hjoins', List.forall_mem_append.mpr ⟨hmoved, hmoved'⟩⟩

end Xml
end Formulary
