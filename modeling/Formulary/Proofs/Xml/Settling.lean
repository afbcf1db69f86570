/-
# Moved names find their declarations

Where the names of a node use declarations around them, so do the names of the node that is
moved, even though some declarations have stayed behind: each name comes to use one that is
made around its new place (`grounded_adapt`). While the node is gone through, what is known of
a declaration that is in scope is one that is in scope again (`Move.Settled`); what is known of
others does not matter, since their numbers are different (`Move.Awaits`).

Key definitions: `Xml.Binding.IsIn`, `Xml.Move.Settled`, `Xml.Move.Sees`, `Xml.Apart`,
`Xml.Move.Awaits`, `Xml.Renews`.
Key theorems: `Xml.Move.Settled.fix`, `Xml.grounded_adaptInner`, `Xml.grounded_adapt`,
`Xml.grounded_adaptEach`, `Xml.renews_adaptEach`.
-/
import Formulary.Proofs.Xml.Learning

namespace Formulary
namespace Xml

/-- Whether a declaration is one of the given ones, or that of the prefix `xml`. -/
def Binding.IsIn (scope : List Binding) (b : Binding) : Prop := b = .xml ∨ b ∈ scope

theorem Binding.IsIn.mono {scope scope' : List Binding} (h : scope ⊆ scope') {b : Binding}
    (hb : b.IsIn scope) : b.IsIn scope' :=
  hb.imp_right (@h b)

namespace Move

variable {outer inner : List Tag} {top here names ds es : List Binding} {m m' : Move}

/-! ### What is known in scope -/

/-- The declarations in scope inside the moved node, given those made further inside and those
outside. -/
def scope (top here : List Binding) (m : Move) : List Binding :=
  here ++ (m.start.bindings ++ top)

theorem Learns.scope_subset (h : Learns outer ds m m') (top here : List Binding) :
    m.scope top here ⊆ m'.scope top here :=
  append_scope_subset (List.append_subset.mpr
    ⟨List.Subset.trans h.subset (List.subset_append_left _ _),
      List.subset_append_right _ _⟩) here

/-- What is known of the given declarations, to which names refer, is in scope. -/
structure Settled (outer : List Tag) (top here names : List Binding) (m : Move) : Prop where
  outer : ∀ b ∈ outer.flatMap Tag.seen, b.IsIn top
  plain : ∀ b ∈ names, b.uri ≠ xmlUri
  known : ∀ p ∈ m.known, ∀ b ∈ names, b.id = p.1 → p.2.IsIn (m.scope top here)

theorem Settled.mem_scope (h : m.Settled outer top here names) {c : Binding}
    (hc : c ∈ m.start.bindings ++ outer.flatMap Tag.seen) : c.IsIn (m.scope top here) := by
  have hsub := List.subset_append_right here (m.start.bindings ++ top)
  rcases List.mem_append.mp hc with hc | hc
  · exact .inr (hsub (List.mem_append_left top hc))
  · exact (h.outer c hc).mono (List.Subset.trans (List.subset_append_right _ _) hsub)

/-- What a move learns of other declarations changes nothing. -/
theorem Settled.learns (h : m.Settled outer top here names) (hm : Learns outer ds m m')
    (hds : ∀ d ∈ ds, ∀ b ∈ names, b.id ≠ d.id) : m'.Settled outer top here names := by
  have hnone : m'.Settled outer top here [] := ⟨h.outer, by simp, by simp⟩
  refine ⟨h.outer, h.plain, fun p hp b hb hid => ?_⟩
  rcases hm.known p hp with hp | ⟨d, hd, hpd⟩ | ⟨-, hp⟩
  · exact (h.known p hp b hb hid).mono (hm.scope_subset top here)
  · exact absurd (hid.trans hpd) (hds d hd b hb)
  · exact hnone.mem_scope hp

/-- **The declaration that a name comes to use is in scope.** -/
theorem Settled.fix (h : m.Settled outer top here names) (isAttr : Bool) {b : Binding}
    (hb : b.IsIn names) :
    (m.fix outer isAttr b).1.IsIn ((m.fix outer isAttr b).2.scope top here) := by
  have hafter : (m.fix outer isAttr b).2.Settled outer top here names :=
    h.learns (learns_fix outer isAttr b m) (by simp)
  have hnamed : b.uri ≠ xmlUri → b ∈ names := fun huri => hb.resolve_left fun heq => by
    rw [heq] at huri
    exact huri rfl
  have hfix := fix_fix outer isAttr b m
  generalize (m.fix outer isAttr b).2 = m' at hfix hafter ⊢
  generalize (m.fix outer isAttr b).1 = c at hfix ⊢
  cases hfix with
  | reserved huri => exact .inl (hb.resolve_right fun hb => h.plain b hb huri)
  | known huri hc => exact h.known _ (mem_of_known? hc) b (hnamed huri) rfl
  | found huri hnew hc => exact hafter.mem_scope (mem_of_find? hc)
  | declared huri hnew hnone hd =>
    obtain ⟨-, hstart, -⟩ := declare_move outer b m
    rw [hd] at hstart
    dsimp only at hstart
    refine hafter.mem_scope (List.mem_append_left _ ?_)
    rw [hstart]
    exact List.mem_append_right _ (List.mem_singleton.mpr rfl)

theorem Settled.fixName (h : m.Settled outer top here names) (isAttr : Bool) {n : Name}
    (hn : n.Uses names) :
    (m.fixName outer isAttr n).1.Uses ((m.fixName outer isAttr n).2.scope top here) := by
  obtain ⟨ns, loc⟩ := n
  cases ns with
  | none => exact fun b hb => absurd hb (by simp [Move.fixName])
  | some b =>
    intro c hc
    obtain rfl := Option.some.inj hc
    exact h.fix isAttr (hn b rfl)

theorem Settled.fixAttrs (h : m.Settled outer top here names) {as : List Attr}
    (has : ∀ a ∈ as, a.name.Uses names) :
    ∀ a ∈ (m.fixAttrs outer as).1, a.name.Uses ((m.fixAttrs outer as).2.scope top here) := by
  induction as generalizing m with
  | nil => exact fun a ha => absurd ha List.not_mem_nil
  | cons a as ih =>
    obtain ⟨ha, has⟩ := List.forall_mem_cons.mp has
    have hafter := h.learns (learns_fixName outer true a.name m) (by simp)
    have hlearns := learns_fixAttrs outer as (m.fixName outer true a.name).2
    exact List.forall_mem_cons.mpr
      ⟨(h.fixName true ha).mono (hlearns.scope_subset top here), ih hafter has⟩

/-! ### Declarations that are still to come -/

end Move

/-- Declarations with numbers of their own, below a bound: they differ from each other and from
those around. -/
structure Apart (around : List Binding) (bound : Nat) (ds : List Binding) : Prop where
  nodup : (ds.map Binding.id).Nodup
  around : ∀ d ∈ ds, ∀ b ∈ around, b.id ≠ d.id
  lt : ∀ d ∈ ds, d.id < bound

theorem Apart.mono {around around' ds ds' : List Binding} {bound bound' : Nat}
    (h : Apart around bound ds) (haround : around' ⊆ around) (hbound : bound ≤ bound')
    (hds : ds'.Sublist ds) : Apart around' bound' ds' :=
  ⟨(hds.map _).nodup h.nodup, fun d hd b hb => h.around d (hds.subset hd) b (haround hb),
    fun d hd => (h.lt d (hds.subset hd)).trans_le hbound⟩

/-- Declarations in front are apart from those that follow. -/
theorem Apart.ne {around ds es : List Binding} {bound : Nat} (h : Apart around bound (ds ++ es))
    {d e : Binding} (hd : d ∈ ds) (he : e ∈ es) : d.id ≠ e.id := by
  have hnodup := h.nodup
  rw [List.map_append] at hnodup
  exact (List.nodup_append.mp hnodup).2.2 _ (List.mem_map_of_mem hd) _ (List.mem_map_of_mem he)

namespace Move

variable {outer inner : List Tag} {top here names ds es : List Binding} {m m' : Move}

/-- The given declarations are still to come: none is known yet. -/
structure Awaits (outer : List Tag) (names ds : List Binding) (m : Move) : Prop where
  apart : Apart (names ++ (m.start.bindings ++ outer.flatMap Tag.seen)) m.supply.id ds
  unknown : ∀ d ∈ ds, ∀ p ∈ m.known, p.1 ≠ d.id

/-- When a move has gone through the first declarations, the others are still to come. -/
theorem Awaits.learns (h : m.Awaits outer names (ds ++ es)) (hm : Learns outer ds m m') :
    m'.Awaits outer (ds ++ names) es := by
  have hes := List.sublist_append_right ds es
  have hmade : ∀ d ∈ es, ∀ b ∈ m'.start.bindings ++ outer.flatMap Tag.seen, b.id ≠ d.id :=
    fun d hd b hb => by
      have hd' := hes.subset hd
      rcases List.mem_append.mp hb with hb | hb
      · rcases hm.mem_start hb with hb | ⟨hle, -⟩
        · exact h.apart.around d hd' b
            (List.mem_append_right _ (List.mem_append_left _ hb))
        · exact Nat.ne_of_gt ((h.apart.lt d hd').trans_le hle)
      · exact h.apart.around d hd' b (List.mem_append_right _ (List.mem_append_right _ hb))
  refine ⟨⟨((hes.map _).nodup h.apart.nodup), fun d hd b hb => ?_, fun d hd => ?_⟩,
    fun d hd p hp => ?_⟩
  · rcases List.mem_append.mp hb with hb | hb
    · rcases List.mem_append.mp hb with hb | hb
      · exact h.apart.ne hb hd
      · exact h.apart.around d (hes.subset hd) b (List.mem_append_left _ hb)
    · exact hmade d hd b hb
  · exact (h.apart.lt d (hes.subset hd)).trans_le hm.supply_le
  · rcases hm.known p hp with hp | ⟨e, he, hid⟩ | ⟨hid, hp⟩
    · exact h.unknown d (hes.subset hd) p hp
    · exact hid ▸ h.apart.ne he hd
    · exact hid ▸ hmade d hd p.2 hp

/-- A step that goes through no declarations leaves them all to come. -/
theorem Awaits.learns_nil (h : m.Awaits outer names ds) (hm : Learns outer [] m m') :
    m'.Awaits outer names ds :=
  Awaits.learns (by rwa [List.nil_append]) hm

theorem Awaits.mono {names' : List Binding} (h : m.Awaits outer names ds)
    (hnames : names' ⊆ names) (hes : es.Sublist ds) : m.Awaits outer names' es :=
  ⟨h.apart.mono (List.append_subset.mpr ⟨List.Subset.trans hnames (List.subset_append_left _ _),
      List.subset_append_right _ _⟩) (Nat.le_refl _) hes,
    fun d hd => h.unknown d (hes.subset hd)⟩

/-! ### Going inside -/

/-- The elements gone into, and the moved node, use declarations in scope. -/
structure Sees (top here : List Binding) (inner : List Tag) (m : Move) : Prop where
  inner : ∀ b ∈ inner.flatMap Tag.seen, b.IsIn (m.scope top here)
  start : m.start.name.Uses (m.start.bindings ++ top)

theorem Sees.learns (h : m.Sees top here inner) (hm : Learns outer ds m m') :
    m'.Sees top here inner := by
  refine ⟨fun b hb => (h.inner b hb).mono (hm.scope_subset top here), ?_⟩
  rw [hm.head.1]
  exact h.start.mono (hm.scope_subset top [])

/-- What is seen from inside is in scope. -/
theorem Sees.path (h : m.Sees top here inner) (hm : m.Settled outer top here names) :
    ∀ b ∈ (inner ++ m.start :: outer).flatMap Tag.seen, b.IsIn (m.scope top here) := by
  intro b hb
  rw [List.flatMap_append, List.flatMap_cons] at hb
  rcases List.mem_append.mp hb with hb | hb
  · exact h.inner b hb
  · rcases List.mem_append.mp hb with hb | hb
    · rcases List.mem_append.mp hb with hb | hb
      · exact hm.mem_scope (List.mem_append_left _ hb)
      · exact Binding.IsIn.mono (List.subset_append_right here _)
          (h.start b (Option.mem_toList.mp hb))
    · exact hm.mem_scope (List.mem_append_right _ hb)

theorem Sees.below (h : m.Sees top here inner) {t : Tag} (ht : t.Grounded (m.scope top here)) :
    m.Sees top (t.bindings ++ here) (t :: inner) := by
  have hscope : m.scope top (t.bindings ++ here) = t.bindings ++ m.scope top here :=
    List.append_assoc _ _ _
  refine ⟨fun b hb => ?_, h.start⟩
  rw [hscope]
  rw [List.flatMap_cons] at hb
  rcases List.mem_append.mp hb with hb | hb
  · rcases List.mem_append.mp hb with hb | hb
    · exact .inr (List.mem_append_left _ hb)
    · exact ht.1 b (Option.mem_toList.mp hb)
  · exact (h.inner b hb).mono (List.subset_append_right _ _)

/-- Once the declarations of a tag have been looked through, what is known of them is in scope
too. -/
theorem Settled.strip (h : m.Settled outer top here names) (hsees : m.Sees top here inner)
    (hnew : ∀ d ∈ ds, ∀ p ∈ m.known, p.1 ≠ d.id) (hds : ∀ d ∈ ds, d.uri ≠ xmlUri) :
    (m.strip (inner ++ m.start :: outer) ds).2.Settled outer top
      ((m.strip (inner ++ m.start :: outer) ds).1 ++ here) (ds ++ names) := by
  obtain ⟨hstart, -⟩ := strip_start (inner ++ m.start :: outer) ds m
  have hpath := hsees.path h
  have hknown : ∀ p ∈ (m.strip (inner ++ m.start :: outer) ds).2.known, _ :=
    fun p hp => mem_known_strip hp
  generalize (m.strip (inner ++ m.start :: outer) ds).1 = kept at *
  generalize (m.strip (inner ++ m.start :: outer) ds).2 = m' at *
  have hscope : m'.scope top (kept ++ here) = kept ++ m.scope top here := by
    rw [scope, scope, hstart, List.append_assoc]
  refine ⟨h.outer, fun b hb => (List.mem_append.mp hb).elim (hds b) (h.plain b),
    fun p hp b hb hid => ?_⟩
  rw [hscope]
  rcases hknown p hp with hp | ⟨-, hp | hp⟩
  · rcases List.mem_append.mp hb with hb | hb
    · exact absurd hid.symm (hnew b hb p hp)
    · exact (h.known p hp b hb hid).mono (List.subset_append_right _ _)
  · exact .inr (List.mem_append_left _ hp)
  · exact (hpath _ hp).mono (List.subset_append_right _ _)

/-- A tag inside the moved node comes to use declarations in scope, and what is known of its own
is in scope inside it. -/
theorem Settled.adaptTag (h : m.Settled outer top here names) (hsees : m.Sees top here inner)
    {t : Tag} (hnew : ∀ d ∈ t.bindings, ∀ p ∈ m.known, p.1 ≠ d.id)
    (hds : ∀ d ∈ t.bindings, d.uri ≠ xmlUri) (ht : t.Grounded names) :
    (m.adaptTag outer inner t).1.Grounded ((m.adaptTag outer inner t).2.scope top here) ∧
      (m.adaptTag outer inner t).2.Settled outer top
        ((m.adaptTag outer inner t).1.bindings ++ here) (t.bindings ++ names) := by
  have hstripped := h.strip hsees hnew hds
  have hname := hstripped.fixName false ht.1
  have hnamed := hstripped.learns (learns_fixName outer false t.name _) (by simp)
  have hlearns := learns_fixAttrs outer t.attrs
    ((m.strip (inner ++ m.start :: outer) t.bindings).2.fixName outer false t.name).2
  have hattrs := hnamed.fixAttrs ht.2
  have hscope : (m.adaptTag outer inner t).2.scope top
      ((m.adaptTag outer inner t).1.bindings ++ here) =
        (m.adaptTag outer inner t).1.bindings ++ (m.adaptTag outer inner t).2.scope top here :=
    List.append_assoc _ _ _
  refine ⟨?_, hnamed.learns hlearns (by simp)⟩
  rw [Tag.Grounded, ← hscope]
  exact ⟨hname.mono (hlearns.scope_subset _ _), hattrs⟩

end Move

/-! ### Nodes -/

section Adapt

variable {outer : List Tag} {top : List Binding}

mutual
/-- A node inside the moved one comes to use declarations in scope. -/
theorem grounded_adaptInner : ∀ {n : Node} {inner : List Tag} {here names es : List Binding}
    {m : Move}, m.Settled outer top here names → m.Sees top here inner →
    m.Awaits outer names (n.declared ++ es) → (∀ d ∈ n.declared, d.uri ≠ xmlUri) →
    n.Grounded names →
    (n.adaptInner outer inner m).1.Grounded ((n.adaptInner outer inner m).2.scope top here)
  | .element t ns, inner, here, names, es, m, h, hsees, hawaits, hplain, hn => by
    obtain ⟨htplain, hnsplain⟩ := List.forall_mem_append.mp hplain
    have hnew : ∀ d ∈ t.bindings, ∀ p ∈ m.known, p.1 ≠ d.id := fun d hd =>
      hawaits.unknown d (List.mem_append_left es (List.mem_append_left _ hd))
    obtain ⟨htag, hinside⟩ := h.adaptTag hsees hnew htplain hn.1
    have hlearns := Move.learns_adaptTag outer inner t m
    rw [Node.declared, List.append_assoc] at hawaits
    have hawaits' := hawaits.learns hlearns
    have hsees' := (hsees.learns hlearns).below htag
    have hns := grounded_adaptAllInner hinside hsees' hawaits' hnsplain hn.2
    have hlater := learns_adaptAllInner outer ((m.adaptTag outer inner t).1 :: inner) ns
      (m.adaptTag outer inner t).2
    rw [adaptInner_element]
    refine ⟨htag.mono (hlater.scope_subset top here), ?_⟩
    rw [Move.scope, List.append_assoc] at hns
    exact hns
  | .text _, _, _, _, _, _, _, _, _, _, _ => trivial
  | .comment _, _, _, _, _, _, _, _, _, _, _ => trivial
  | .instruction _ _, _, _, _, _, _, _, _, _, _, _ => trivial
  | .reference _, _, _, _, _, _, _, _, _, _, _ => trivial
/-- Nodes inside the moved one come to use declarations in scope. -/
theorem grounded_adaptAllInner : ∀ {ns : List Node} {inner : List Tag}
    {here names es : List Binding} {m : Move}, m.Settled outer top here names →
    m.Sees top here inner → m.Awaits outer names (declaredAll ns ++ es) →
    (∀ d ∈ declaredAll ns, d.uri ≠ xmlUri) → AllGrounded names ns →
    AllGrounded ((adaptAllInner outer inner ns m).2.scope top here)
      (adaptAllInner outer inner ns m).1
  | [], _, _, _, _, _, _, _, _, _, _ => trivial
  | n :: ns, inner, here, names, es, m, h, hsees, hawaits, hplain, hns => by
    obtain ⟨hnplain, hnsplain⟩ := List.forall_mem_append.mp hplain
    rw [declaredAll, List.append_assoc] at hawaits
    have hlearns := learns_adaptInner outer inner n m
    have hother : ∀ d ∈ n.declared, ∀ b ∈ names, b.id ≠ d.id := fun d hd b hb =>
      hawaits.apart.around d (List.mem_append_left _ hd) b (List.mem_append_left _ hb)
    have hawaits' := (hawaits.learns hlearns).mono
      (List.subset_append_right n.declared names) (List.Sublist.refl _)
    have hn := grounded_adaptInner h hsees hawaits hnplain hns.1
    have hlater := learns_adaptAllInner outer inner ns (n.adaptInner outer inner m).2
    simp only [adaptAllInner]
    exact ⟨hn.mono (hlater.scope_subset top here),
      grounded_adaptAllInner (h.learns hlearns hother) (hsees.learns hlearns) hawaits' hnsplain
        hns.2⟩
end

/-! ### The moved node -/

variable {names : List Binding} {s : Supply} {t : Tag} {ds : List Binding}

/-- At first what is known is that of the declarations of the moved node. -/
theorem Move.settled_begin (houter : ∀ b ∈ outer.flatMap Tag.seen, b.IsIn top)
    (hplain : ∀ b ∈ t.bindings ++ names, b.uri ≠ xmlUri) :
    (Move.begin outer t s).Settled outer top [] (t.bindings ++ names) := by
  refine ⟨houter, hplain, fun p hp _ _ _ => ?_⟩
  rcases mem_known_strip hp with hp | ⟨-, hp | hp⟩
  · exact absurd hp List.not_mem_nil
  · exact .inr (List.mem_append_left top hp)
  · exact (houter _ hp).mono (List.subset_append_right _ _)

theorem Move.awaits_begin (h : Apart (names ++ outer.flatMap Tag.seen) s.id (t.bindings ++ ds)) :
    (Move.begin outer t s).Awaits outer (t.bindings ++ names) ds := by
  have hds := List.sublist_append_right t.bindings ds
  have hkept := (strip_sublist outer t.bindings ⟨[], t, s⟩).subset
  have hsupply : (Move.begin outer t s).supply = s := (strip_start outer t.bindings ⟨[], t, s⟩).2
  refine ⟨⟨(hds.map _).nodup h.nodup, fun d hd b hb => ?_, fun d hd => ?_⟩, fun d hd p hp => ?_⟩
  · have hold := h.around d (hds.subset hd) b
    rcases List.mem_append.mp hb with hb | hb
    · rcases List.mem_append.mp hb with hb | hb
      · exact h.ne hb hd
      · exact hold (List.mem_append_left _ hb)
    · rcases List.mem_append.mp hb with hb | hb
      · exact h.ne (hkept hb) hd
      · exact hold (List.mem_append_right _ hb)
  · rw [hsupply]
    exact h.lt d (hds.subset hd)
  · rcases mem_known_strip hp with hp | ⟨⟨e, he, hid⟩, -⟩
    · exact absurd hp List.not_mem_nil
    · exact hid ▸ h.ne he hd

/-- **A moved node uses declarations around its new place**, if it used declarations around its
old one. -/
theorem grounded_adapt (houter : ∀ b ∈ outer.flatMap Tag.seen, b.IsIn top) {n : Node}
    (hapart : Apart (names ++ outer.flatMap Tag.seen) s.id n.declared)
    (hplain : ∀ b ∈ n.declared ++ names, b.uri ≠ xmlUri) (hn : n.Grounded names) :
    (n.adapt outer s).1.Grounded top := by
  cases n with
  | element t ns =>
    have hplain' : ∀ b ∈ t.bindings ++ names, b.uri ≠ xmlUri := fun b hb => by
      refine hplain b ?_
      simp only [Node.declared, List.mem_append] at hb ⊢
      exact hb.imp_left .inl
    have hnsplain : ∀ b ∈ declaredAll ns, b.uri ≠ xmlUri := fun b hb =>
      hplain b (List.mem_append_left _ (List.mem_append_right _ hb))
    have hbegin := Move.settled_begin (s := s) houter hplain'
    have hname := hbegin.fixName false hn.1.1
    have hnamed := hbegin.learns (Move.learns_fixName outer false t.name _) (by simp)
    have hattrs := hnamed.fixAttrs hn.1.2
    have hlearns := Move.learns_fixAttrs outer t.attrs
      ((Move.begin outer t s).fixName outer false t.name).2
    have hheaded := hnamed.learns hlearns (by simp)
    have hawaits := ((Move.awaits_begin hapart).learns_nil
      (Move.learns_fixName outer false t.name _)).learns_nil hlearns
    -- from here on the moved node has its new name and attributes
    have hsettled : (Move.headed outer t s).Settled outer top [] (t.bindings ++ names) :=
      ⟨hheaded.outer, hheaded.plain, hheaded.known⟩
    have hwaits : (Move.headed outer t s).Awaits outer (t.bindings ++ names) (declaredAll ns) :=
      ⟨hawaits.apart, hawaits.unknown⟩
    rw [← List.append_nil (declaredAll ns)] at hwaits
    have htag : (Move.headed outer t s).start.Grounded top :=
      ⟨hname.mono (hlearns.scope_subset top []), hattrs⟩
    have hsees : (Move.headed outer t s).Sees top [] [] := ⟨by simp, htag.1⟩
    have hns := grounded_adaptAllInner hsettled hsees hwaits hnsplain hn.2
    have hlater := learns_adaptAllInner outer [] ns (Move.headed outer t s)
    rw [adapt_element]
    refine ⟨?_, hns⟩
    have hsub := hlater.scope_subset top []
    rw [Tag.Grounded, hlater.head.1, hlater.head.2]
    exact ⟨htag.1.mono hsub, fun a ha => (htag.2 a ha).mono hsub⟩
  | _ => trivial

end Adapt

/-! ### Numbers of moved declarations -/

/-- Declarations of which some were there before, and the others take the next numbers. -/
def Renews (lo hi : Nat) (before after : List Binding) : Prop :=
  ∃ old new, after.Perm (old ++ new) ∧ old.Sublist before ∧ hi = lo + new.length ∧
    new.map Binding.id = List.range' lo new.length

namespace Renews

variable {lo mid hi : Nat} {before after before' after' around : List Binding}

theorem nil (n : Nat) : Renews n n [] [] := ⟨[], [], .refl _, .slnil, rfl, rfl⟩

theorem append (h : Renews lo mid before after) (h' : Renews mid hi before' after') :
    Renews lo hi (before ++ before') (after ++ after') := by
  obtain ⟨old, new, hperm, hold, rfl, hids⟩ := h
  obtain ⟨old', new', hperm', hold', rfl, hids'⟩ := h'
  refine ⟨old ++ old', new ++ new', ?_, hold.append hold', ?_, ?_⟩
  · refine (hperm.append hperm').trans ?_
    rw [List.append_assoc, List.append_assoc]
    exact (List.perm_append_comm_assoc new old' new').append_left old
  · rw [List.length_append, Nat.add_assoc]
  · rw [List.map_append, hids, hids', List.length_append, List.range'_append_1]

theorem le (h : Renews lo hi before after) : lo ≤ hi := by
  obtain ⟨_, new, -, -, rfl, -⟩ := h
  exact Nat.le_add_right lo new.length

theorem mem (h : Renews lo hi before after) {b : Binding} (hb : b ∈ after) :
    b ∈ before ∨ lo ≤ b.id ∧ b.id < hi := by
  obtain ⟨old, new, hperm, hold, rfl, hids⟩ := h
  rcases List.mem_append.mp (hperm.mem_iff.mp hb) with hb | hb
  · exact .inl (hold.subset hb)
  · have hid : b.id ∈ new.map Binding.id := List.mem_map_of_mem hb
    rw [hids, List.mem_range'_1] at hid
    exact .inr hid

/-- Moved declarations are apart from those that the node was apart from before. -/
theorem apart (h : Renews lo hi before after) (hbefore : Apart around lo before)
    (haround : ∀ b ∈ around, b.id < lo) : Apart around hi after := by
  refine ⟨?_, fun d hd b hb => ?_, fun d hd => ?_⟩
  · obtain ⟨old, new, hperm, hold, rfl, hids⟩ := h
    rw [(hperm.map Binding.id).nodup_iff, List.map_append]
    refine List.Nodup.append ((hold.map _).nodup hbefore.nodup) ?_ fun i hi hi' => ?_
    · rw [hids]
      exact List.nodup_range'
    · obtain ⟨d, hd, rfl⟩ := List.mem_map.mp hi
      rw [hids, List.mem_range'_1] at hi'
      exact absurd (hbefore.lt d (hold.subset hd)) (Nat.not_lt.mpr hi'.1)
  · rcases h.mem hd with hd | hd
    · exact hbefore.around d hd b hb
    · exact Nat.ne_of_lt ((haround b hb).trans_le hd.1)
  · rcases h.mem hd with hd | hd
    · exact (hbefore.lt d hd).trans_le h.le
    · exact hd.2

end Renews

section Adapt

variable {outer : List Tag} {top names : List Binding}

theorem renews_adapt (n : Node) (s : Supply) :
    Renews s.id (n.adapt outer s).2.id n.declared (n.adapt outer s).1.declared := by
  cases n with
  | element t ns =>
    have hkept := Move.strip_sublist outer t.bindings ⟨[], t, s⟩
    have hsupply : (Move.begin outer t s).supply = s :=
      (Move.strip_start outer t.bindings ⟨[], t, s⟩).2
    obtain ⟨new, hstart, hid, hids⟩ := ((Move.learns_fixName outer false t.name
      (Move.begin outer t s)).trans (Move.learns_fixAttrs outer t.attrs _)).start
    obtain ⟨new', hstart', hid', hids'⟩ :=
      (learns_adaptAllInner outer [] ns (Move.headed outer t s)).start
    rw [hsupply] at hid hids
    have hheaded : (Move.headed outer t s).supply.id = s.id + new.length := hid
    have hmade : (Move.headed outer t s).start.bindings =
        (Move.begin outer t s).start.bindings ++ new := hstart
    rw [adapt_element]
    refine ⟨(Move.begin outer t s).start.bindings ++
      declaredAll (adaptAllInner outer [] ns (Move.headed outer t s)).1, new ++ new',
      ?_, ?_, ?_, ?_⟩
    · rw [Node.declared, hstart', hmade, List.append_assoc, List.append_assoc, List.append_assoc]
      refine List.Perm.append_left _ ?_
      rw [← List.append_assoc]
      exact List.perm_append_comm
    · exact hkept.append (declaredAll_adaptAllInner_sublist outer [] ns _)
    · rw [hid', hheaded, List.length_append, Nat.add_assoc]
    · rw [List.map_append, hids', hids, hheaded, List.length_append, List.range'_append_1]
  | _ => exact .nil s.id

theorem renews_adaptEach (ns : List Node) (s : Supply) :
    Renews s.id (adaptEach outer s ns).2.id (declaredAll ns)
      (declaredAll (adaptEach outer s ns).1) := by
  induction ns generalizing s with
  | nil => exact .nil s.id
  | cons n ns ih => exact (renews_adapt n s).append (ih _)

/-- Nodes that are moved one after another use declarations around their new place. -/
theorem grounded_adaptEach (houter : ∀ b ∈ outer.flatMap Tag.seen, b.IsIn top) {ns : List Node}
    {s : Supply} (hapart : Apart (names ++ outer.flatMap Tag.seen) s.id (declaredAll ns))
    (hplain : ∀ b ∈ declaredAll ns ++ names, b.uri ≠ xmlUri) (hns : AllGrounded names ns) :
    AllGrounded top (adaptEach outer s ns).1 := by
  induction ns generalizing s with
  | nil => trivial
  | cons n ns ih =>
    have hn : Apart (names ++ outer.flatMap Tag.seen) s.id n.declared :=
      hapart.mono (List.Subset.refl _) (Nat.le_refl _) (List.sublist_append_left _ _)
    have hrest : Apart (names ++ outer.flatMap Tag.seen) (n.adapt outer s).2.id (declaredAll ns) :=
      hapart.mono (List.Subset.refl _) (renews_adapt n s).le (List.sublist_append_right _ _)
    have hplainHead : ∀ b ∈ n.declared ++ names, b.uri ≠ xmlUri := fun b hb => by
      refine hplain b ?_
      simp only [declaredAll, List.mem_append] at hb ⊢
      exact hb.imp_left .inl
    have hplainRest : ∀ b ∈ declaredAll ns ++ names, b.uri ≠ xmlUri := fun b hb => by
      refine hplain b ?_
      simp only [declaredAll, List.mem_append] at hb ⊢
      exact hb.imp_left .inr
    exact ⟨grounded_adapt houter hn hplainHead hns.1, ih hrest hplainRest hns.2⟩

end Adapt

end Xml
end Formulary
