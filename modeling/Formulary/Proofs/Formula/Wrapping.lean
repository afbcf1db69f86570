/-
# Previews that are read back

A formula in which prefixes have one meaning keeps that when its source is put beside it: the
names of the preview use declarations around them, and no prefix comes to stand for two
namespaces. If the formula can be written and read again with room for two more elements, so
can its preview (`legible_annotate`).

Key definition: `MathMl.Wraps`.
Key theorems: `MathMl.wraps_oneExpression`, `MathMl.grounded_semantics`,
`MathMl.legible_annotate`.
-/
import Formulary.Proofs.Formula.Annotated
import Formulary.Proofs.Xml.Scoping
import Formulary.Proofs.Xml.Standing

namespace Formulary
namespace MathMl

open Xml (Node Element Binding Tag Supply Attr Prefixes Joins Renews Apart NumbersBelow
  AllGrounded declaredAll tagsAll)

/-! ### Rules that do not look at prefixes -/

theorem isOrderly_annotated {root : Element} {latex : Text} (hroot : root.node.isOrderly = true)
    (hlatex : Xml.isLegal latex = true) : (annotated root latex).node.isOrderly = true := by
  rw [Element.node, Node.isOrderly, Bool.and_eq_true, Xml.allOrderly_eq_all] at hroot ⊢
  have hchildren : ∀ n ∈ root.children, n.isOrderly = true := List.all_eq_true.mp hroot.2
  have hsource : (sourceNode plainNs latex).isOrderly = true := by
    have htag : (tag plainNs "annotation"
        [⟨⟨none, "encoding".toList⟩, "application/x-tex".toList⟩]).IsOrderly := by decide
    rw [sourceNode, Node.isOrderly, Bool.and_eq_true, Xml.allOrderly_eq_all]
    exact ⟨decide_eq_true htag, List.all_eq_true.mpr (List.forall_mem_singleton.mpr hlatex)⟩
  have hcontent : ∀ n ∈ expression (Xml.dropLeadingText root.children), n.isOrderly = true := by
    have hdrop : ∀ n ∈ Xml.dropLeadingText root.children, n.isOrderly = true := fun n hn =>
      hchildren n ((List.dropWhile_sublist _).subset hn)
    have hrow : (tag plainNs "mrow" []).IsOrderly := by decide
    unfold expression
    split
    · exact hdrop
    · rw [List.forall_mem_singleton, Node.isOrderly, Bool.and_eq_true, Xml.allOrderly_eq_all]
      exact ⟨decide_eq_true hrow, List.all_eq_true.mpr hdrop⟩
  have hsemantics : (tag plainNs "semantics" []).IsOrderly := by decide
  refine ⟨hroot.1, List.all_eq_true.mpr (List.forall_mem_append.mpr ⟨fun n hn => ?_, ?_⟩)⟩
  · exact hchildren n ((List.takeWhile_sublist _).subset hn)
  · rw [List.forall_mem_singleton, Node.isOrderly, Bool.and_eq_true, Xml.allOrderly_eq_all]
    exact ⟨decide_eq_true hsemantics, List.all_eq_true.mpr
      (List.forall_mem_append.mpr ⟨hcontent, List.forall_mem_singleton.mpr hsource⟩)⟩

/-- A preview is deeper than its formula by two elements at most. -/
theorem height_annotated (root : Element) (latex : Text) :
    (annotated root latex).node.height ≤ root.node.height + 2 := by
  have hchildren : ∀ n ∈ root.children, n.height ≤ Xml.heightAll root.children :=
    Xml.heightAll_le_iff.mp (Nat.le_refl _)
  have hcontent : ∀ n ∈ expression (Xml.dropLeadingText root.children),
      n.height ≤ Xml.heightAll root.children + 1 := by
    have hdrop : ∀ n ∈ Xml.dropLeadingText root.children,
        n.height ≤ Xml.heightAll root.children := fun n hn =>
      hchildren n ((List.dropWhile_sublist _).subset hn)
    unfold expression
    split
    · exact fun n hn => (hdrop n hn).trans (Nat.le_succ _)
    · rw [List.forall_mem_singleton, Node.height]
      exact Nat.succ_le_succ (Xml.heightAll_le_iff.mpr hdrop)
  have hsource : (sourceNode plainNs latex).height ≤ Xml.heightAll root.children + 1 := by
    rw [sourceNode, Node.height]
    exact Nat.succ_le_succ (Nat.zero_le _)
  have hsemantics : (Node.element (tag plainNs "semantics" [])
      (expression (Xml.dropLeadingText root.children) ++ [sourceNode plainNs latex])).height ≤
        Xml.heightAll root.children + 2 := by
    rw [Node.height]
    exact Nat.succ_le_succ (Xml.heightAll_le_iff.mpr
      (List.forall_mem_append.mpr ⟨hcontent, List.forall_mem_singleton.mpr hsource⟩))
  rw [Element.node, Element.node, Node.height, Node.height, Nat.add_right_comm]
  refine Nat.succ_le_succ (Xml.heightAll_le_iff.mpr (List.forall_mem_append.mpr
    ⟨fun n hn => ?_, List.forall_mem_singleton.mpr hsemantics⟩))
  exact (hchildren n ((List.takeWhile_sublist _).subset hn)).trans (Nat.le_add_right _ 2)

/-- A preview gives no names to elements but those of the formula. -/
theorem ids_annotated (root : Element) (latex : Text) :
    (annotated root latex).node.ids = root.node.ids := by
  have hexpression : ∀ ns, Xml.idsAll (expression ns) = Xml.idsAll ns := fun ns => by
    unfold expression
    split
    · rfl
    · rw [Xml.idsAll, Node.ids, Xml.idsAll, List.append_nil]
      rfl
  have hsource : Xml.idsAll [sourceNode plainNs latex] = [] := rfl
  have hsplit : Xml.idsAll (root.children.takeWhile Node.isText) ++
      Xml.idsAll (Xml.dropLeadingText root.children) = Xml.idsAll root.children := by
    rw [← Xml.idsAll_append, Xml.dropLeadingText, List.takeWhile_append_dropWhile]
  rw [annotated, Element.node, Element.node, Node.ids, Node.ids, ← hsplit, Xml.idsAll_append,
    Xml.idsAll, Node.ids, Xml.idsAll_append, hexpression, hsource]
  simp [Tag.ids, tag, Xml.idsAll]

/-! ### The content as one expression -/

/-- What becomes of content that is moved below elements of MathML: its names use declarations
there, new declarations take the next numbers, and prefixes keep their one meaning. -/
structure Wraps (ns : Binding) (bs : List Binding) (lack : Prop) (s : Supply) (before : List Node)
    (after : List Node × Supply) : Prop where
  grounded : AllGrounded [ns] after.1
  renews : Renews s.id after.2.id (declaredAll before) (declaredAll after.1)
  joins : Joins bs true after.2.pre (declaredAll after.1)
  tags : ∀ t ∈ tagsAll after.1, t.WellNamed lack

/-- What is needed of content so that it can be moved. -/
structure Movable (ns : Binding) (bs : List Binding) (lack : Prop) (s : Supply)
    (names : List Binding) (content : List Node) : Prop where
  prefixes : Prefixes bs
  mem : ns ∈ bs
  numbers : NumbersBelow s.pre bs
  within : declaredAll content ++ names ⊆ bs
  apart : Apart (ns :: names) s.id (declaredAll content)
  grounded : AllGrounded names content
  tags : ∀ t ∈ tagsAll content, t.WellNamed lack

section Content

variable {ns : Binding} {bs names : List Binding} {lack : Prop} {s : Supply} {content : List Node}

theorem wraps_adaptEach (h : Movable ns bs lack s names content) {outer : List Tag}
    (houter : ∀ b ∈ outer.flatMap Tag.seen, b = ns) :
    Wraps ns bs lack s content (Xml.adaptEach outer s content) := by
  have hapart : Apart (names ++ outer.flatMap Tag.seen) s.id (declaredAll content) := by
    refine h.apart.mono (List.append_subset.mpr ⟨List.subset_cons_self ns names, fun b hb => ?_⟩)
      (Nat.le_refl _) (List.Sublist.refl _)
    rw [houter b hb]
    exact List.mem_cons_self
  obtain ⟨hjoins, htags⟩ := Xml.joins_adaptEach h.prefixes
    (fun b hb => .inr ((houter b hb).symm ▸ h.mem)) h.numbers h.within h.grounded h.tags
  exact ⟨Xml.grounded_adaptEach (fun b hb => .inr (List.mem_singleton.mpr (houter b hb))) hapart
    (fun b hb => (h.prefixes.orderly b (h.within hb)).uri_ne_xmlUri) h.grounded,
    Xml.renews_adaptEach content s, hjoins, htags⟩

theorem wellNamed_tag (ns : Binding) (loc : String) : (tag ns loc []).WellNamed lack :=
  ⟨⟨fun _ hb => absurd hb List.not_mem_nil, List.nodup_nil⟩,
    fun _ ha => absurd ha List.not_mem_nil, nofun⟩

/-- The content of a formula is moved as one expression. -/
theorem wraps_oneExpression (h : Movable ns bs lack s names content) {outer : Tag}
    (houter : ∀ b ∈ outer.seen, b = ns) :
    Wraps ns bs lack s content (oneExpression outer ns s content) := by
  unfold oneExpression
  split
  · exact wraps_adaptEach h (by simpa using houter)
  · have hseen : ∀ b ∈ [tag ns "mrow" [], outer].flatMap Tag.seen, b = ns := by
      intro b hb
      rcases List.mem_append.mp hb with hb | hb
      · exact List.mem_singleton.mp hb
      · exact houter b (by simpa using hb)
    obtain ⟨hgrounded, hrenews, hjoins, htags⟩ := wraps_adaptEach h hseen
    have hdeclared : ∀ ms, declaredAll [.element (tag ns "mrow" []) ms] = declaredAll ms :=
      fun ms => List.append_nil (declaredAll ms)
    refine ⟨⟨⟨⟨fun b hb => .inr ?_, nofun⟩, hgrounded⟩, trivial⟩, ?_, ?_, ?_⟩
    · obtain rfl := Option.some.inj hb
      exact List.mem_singleton.mpr rfl
    · rw [hdeclared]
      exact hrenews
    · rw [hdeclared]
      exact hjoins
    · refine List.forall_mem_append.mpr ⟨List.forall_mem_cons.mpr ⟨wellNamed_tag ns "mrow", htags⟩,
        fun t ht => absurd ht List.not_mem_nil⟩

end Content

/-! ### The `semantics` element -/

section Semantics

variable {root : Element} {latex : Text} {room : Nat}

/-- Whether an element of the formula has a name without a namespace. -/
def Lacks (root : Element) : Prop := ∃ t ∈ root.node.tags, t.name.ns = none

theorem isOrderly_ownNs (s : Supply) : (ownNs s).IsOrderly := by
  have h : ∀ id, (Binding.mk id (Xml.newPrefix 0) uri).IsOrderly := fun id =>
    have h₀ : (Binding.mk 0 (Xml.newPrefix 0) uri).IsOrderly := by decide
    ⟨h₀.simple, h₀.allowed, h₀.address, h₀.legal⟩
  exact h s.id

theorem wellNamed_root (hscoped : root.IsScoped) (hlegible : root.node.Legible [] room)
    (hclear : root.IsUnambiguous) : ∀ t ∈ root.node.tags, t.WellNamed (Lacks root) := by
  refine Node.wellNamed_of_legible hlegible (fun b hb => ?_) fun t ht hns => ⟨t, ht, hns⟩
  rcases hscoped.grounded.mentioned b hb with rfl | hb
  · decide
  · exact hclear.named b (by rwa [List.append_nil] at hb)

/-- The content of a formula can be moved, if prefixes have one meaning in the formula. -/
theorem movable_content (hscoped : root.IsScoped) (hlegible : root.node.Legible [] room)
    (hclear : root.IsUnambiguous) :
    Movable (ownNs root.supply) (ownNs root.supply :: root.node.declared) (Lacks root)
      ⟨root.supply.id + 1, 1⟩ root.tag.bindings (Xml.dropLeadingText root.children) := by
  have hcontent : (declaredAll (Xml.dropLeadingText root.children)).Sublist
      (declaredAll root.children) := by
    rw [Xml.declaredAll_eq_flatMap, Xml.declaredAll_eq_flatMap]
    exact (List.dropWhile_sublist _).flatMap _
  have hdeclared : root.node.declared = root.tag.bindings ++ declaredAll root.children := rfl
  have hlt : ∀ b ∈ root.node.declared, b.id < root.supply.id := fun b hb =>
    hscoped.isNumbered.register.id_lt b (Node.declared_subset_mentioned hb)
  have horderly := Node.orderly_of_legible hlegible
  have hprefixes : Prefixes root.node.declared := ⟨hclear.clear, horderly, hclear.named⟩
  have hnew : ∀ b ∈ root.node.declared, ∀ n, b.pre ≠ Xml.newPrefix n := fun b hb n heq => by
    have hfree := hclear.free b hb
    rw [heq, Xml.isNumberedPrefix_newPrefix] at hfree
    exact Bool.noConfusion hfree
  obtain ⟨htag, hchildren⟩ := hscoped.grounded
  rw [List.append_nil] at hchildren
  refine ⟨hprefixes.cons (isOrderly_ownNs _) (show uri ≠ [] by decide) fun b hb heq => ?_,
    List.mem_cons_self, fun b hb n heq => ?_, ?_, ⟨?_, fun d hd b hb => ?_, fun d hd => ?_⟩, ?_,
    fun t ht => ?_⟩
  · rcases List.mem_append.mp hb with hb | hb
    · exact absurd heq (Xml.pre_ne_newPrefix_of_mem_usual hb 0)
    · exact absurd heq (hnew b hb 0)
  · rcases List.mem_cons.mp hb with rfl | hb
    · rw [← Xml.newPrefix_injective heq]
      exact Nat.zero_lt_one
    · exact absurd heq (hnew b hb n)
  · refine List.subset_cons_of_subset _ (List.append_subset.mpr ⟨fun b hb => ?_, ?_⟩)
    · exact List.mem_append_right _ (hcontent.subset hb)
    · exact List.subset_append_left _ _
  · have hnodup := hscoped.nodup
    rw [hdeclared, List.map_append] at hnodup
    exact (hcontent.map _).nodup (List.nodup_append.mp hnodup).2.1
  · have hd' := hcontent.subset hd
    rcases List.mem_cons.mp hb with rfl | hb
    · exact Nat.ne_of_gt (hlt d (List.mem_append_right _ hd'))
    · have hnodup := hscoped.nodup
      rw [hdeclared, List.map_append] at hnodup
      exact (List.nodup_append.mp hnodup).2.2 _ (List.mem_map_of_mem hb) _
        (List.mem_map_of_mem hd')
  · exact Nat.lt_succ_of_lt (hlt d (List.mem_append_right _ (hcontent.subset hd)))
  · exact Xml.allGrounded_iff.mpr fun n hn =>
      Xml.allGrounded_iff.mp hchildren n ((List.dropWhile_sublist _).subset hn)
  · obtain ⟨n, hn, ht⟩ := Xml.mem_tagsAll.mp ht
    refine wellNamed_root hscoped hlegible hclear t (List.mem_cons_of_mem _ ?_)
    exact Xml.mem_tagsAll.mpr ⟨n, (List.dropWhile_sublist _).subset hn, ht⟩

/-- The content of a formula below its `semantics` element. -/
def ownContent (root : Element) : List Node × Supply :=
  oneExpression (ownTag root.supply) (ownNs root.supply) ⟨root.supply.id + 1, 1⟩
    (Xml.dropLeadingText root.children)

theorem wraps_content (hscoped : root.IsScoped) (hlegible : root.node.Legible [] room)
    (hclear : root.IsUnambiguous) :
    Wraps (ownNs root.supply) (ownNs root.supply :: root.node.declared) (Lacks root)
      ⟨root.supply.id + 1, 1⟩ (Xml.dropLeadingText root.children)
      (ownContent root) := by
  refine wraps_oneExpression (movable_content hscoped hlegible hclear) fun b hb => ?_
  simpa [Tag.seen, ownTag, tag] using hb

/-- The declarations of the `semantics` element. -/
theorem declared_ownSemantics (root : Element) (latex : Text) :
    (ownSemantics root latex).1.declared =
      ownNs root.supply :: declaredAll (ownContent root).1 := by
  have hsource : declaredAll [sourceNode (ownNs root.supply) latex] = [] := rfl
  rw [ownSemantics, semantics_eq, Node.declared, Xml.declaredAll_eq_flatMap, List.flatMap_append,
    ← Xml.declaredAll_eq_flatMap, ← Xml.declaredAll_eq_flatMap, hsource, List.append_nil]
  rfl

/-- The names of the `semantics` element use its declarations. -/
theorem grounded_ownSemantics (hscoped : root.IsScoped) (hlegible : root.node.Legible [] room)
    (hclear : root.IsUnambiguous) : (ownSemantics root latex).1.Grounded [] := by
  have hown : ∀ b ∈ some (ownNs root.supply), b = .xml ∨ b ∈ [ownNs root.supply] := fun b hb => by
    obtain rfl := Option.some.inj hb
    exact .inr (List.mem_singleton.mpr rfl)
  have hsource : (sourceNode (ownNs root.supply) latex).Grounded [ownNs root.supply] :=
    ⟨⟨hown, List.forall_mem_singleton.mpr nofun⟩, trivial, trivial⟩
  have hcontent := Xml.allGrounded_iff.mp (wraps_content hscoped hlegible hclear).grounded
  exact ⟨⟨hown, nofun⟩, Xml.allGrounded_iff.mpr
    (List.forall_mem_append.mpr ⟨hcontent, List.forall_mem_singleton.mpr hsource⟩)⟩

/-- The tags of the `semantics` element are well named. -/
theorem wellNamed_ownSemantics (hscoped : root.IsScoped) (hlegible : root.node.Legible [] room)
    (hclear : root.IsUnambiguous) :
    ∀ t ∈ (ownSemantics root latex).1.tags, t.WellNamed (Lacks root) := by
  have hsource : ∀ t ∈ (sourceNode (ownNs root.supply) latex).tags, t.WellNamed (Lacks root) := by
    refine List.forall_mem_singleton.mpr ⟨⟨nofun, List.nodup_nil⟩, ?_, nofun⟩
    exact List.forall_mem_singleton.mpr nofun
  have hdeclares : (ownTag root.supply).DeclaresWell :=
    ⟨List.forall_mem_singleton.mpr (isOrderly_ownNs _), List.nodup_singleton _⟩
  refine List.forall_mem_cons.mpr ⟨⟨hdeclares, nofun, nofun⟩, ?_⟩
  rw [Xml.tagsAll_append]
  refine List.forall_mem_append.mpr ⟨(wraps_content hscoped hlegible hclear).tags, ?_⟩
  exact List.forall_mem_append.mpr ⟨hsource, nofun⟩

/-- What the root of a document sees is declared there. -/
theorem isIn_of_mem_seen (hscoped : root.IsScoped) :
    ∀ b ∈ root.tag.seen, b.IsIn root.tag.bindings := by
  intro b hb
  rcases List.mem_append.mp hb with hb | hb
  · exact .inr hb
  · have huses := hscoped.grounded.1.1 b (Option.mem_toList.mp hb)
    rwa [List.append_nil] at huses

/-- The declarations of the `semantics` element are apart from those that the root sees. -/
theorem apart_ownSemantics (hscoped : root.IsScoped) (hlegible : root.node.Legible [] room)
    (hclear : root.IsUnambiguous) :
    Apart root.tag.seen (ownSemantics root latex).2.id (ownSemantics root latex).1.declared := by
  have hmovable := movable_content hscoped hlegible hclear
  have hwraps := wraps_content hscoped hlegible hclear
  have hseen : ∀ b ∈ root.tag.seen, b.id < root.supply.id := fun b hb =>
    hscoped.isNumbered.register.id_lt b (List.mem_append_left _ (List.mem_append_left _ hb))
  have hpos : ∀ d ∈ declaredAll (Xml.dropLeadingText root.children), 0 < d.id := fun d hd => by
    rcases List.mem_cons.mp (hmovable.within (List.mem_append_left _ hd)) with rfl | hd
    · exact Nat.lt_of_lt_of_le Nat.zero_lt_one (Nat.le_max_left _ _)
    · exact hscoped.pos d hd
  have hbefore : Apart (ownNs root.supply :: root.tag.seen) (root.supply.id + 1)
      (declaredAll (Xml.dropLeadingText root.children)) := by
    refine ⟨hmovable.apart.nodup, fun d hd b hb => ?_, hmovable.apart.lt⟩
    rcases List.mem_cons.mp hb with rfl | hb
    · exact hmovable.apart.around d hd _ List.mem_cons_self
    · rcases isIn_of_mem_seen hscoped b hb with rfl | hb
      · exact Nat.ne_of_lt (hpos d hd)
      · exact hmovable.apart.around d hd b (List.mem_cons_of_mem _ hb)
  have haround : ∀ b ∈ ownNs root.supply :: root.tag.seen, b.id < root.supply.id + 1 :=
    List.forall_mem_cons.mpr ⟨Nat.lt_succ_self _, fun b hb => Nat.lt_succ_of_lt (hseen b hb)⟩
  have hafter := hwraps.renews.apart hbefore haround
  rw [declared_ownSemantics]
  refine ⟨?_, List.forall_mem_cons.mpr ⟨fun b hb => ?_, fun d hd b hb => ?_⟩,
    List.forall_mem_cons.mpr ⟨?_, hafter.lt⟩⟩
  · rw [List.map_cons, List.nodup_cons]
    refine ⟨fun hmem => ?_, hafter.nodup⟩
    obtain ⟨d, hd, heq⟩ := List.mem_map.mp hmem
    exact hafter.around d hd _ List.mem_cons_self heq.symm
  · exact Nat.ne_of_lt (hseen b hb)
  · exact hafter.around d hd b (List.mem_cons_of_mem _ hb)
  · exact Nat.lt_of_lt_of_le (Nat.lt_succ_self _) hwraps.renews.le

end Semantics

/-! ### The preview -/

section Preview

variable {root : Element} {latex : Text}

theorem grounded_annotate (hscoped : root.IsScoped) {room : Nat}
    (hlegible : root.node.Legible [] room) (hclear : root.IsUnambiguous) :
    (annotate root latex).node.Grounded [] := by
  have hjoins := (wraps_content hscoped hlegible hclear).joins
  have hplain : ∀ b ∈ (ownSemantics root latex).1.declared ++ [], b.uri ≠ Xml.xmlUri := by
    rw [List.append_nil, declared_ownSemantics]
    exact List.forall_mem_cons.mpr ⟨(isOrderly_ownNs _).uri_ne_xmlUri, fun b hb =>
      (hjoins.prefixes.orderly b (List.mem_append_right _ hb)).uri_ne_xmlUri⟩
  have houter : ∀ b ∈ [root.tag].flatMap Tag.seen, b.IsIn root.tag.bindings := by
    simpa using isIn_of_mem_seen hscoped
  have hapart : Apart ([] ++ [root.tag].flatMap Tag.seen) (ownSemantics root latex).2.id
      (ownSemantics root latex).1.declared := by
    simpa using apart_ownSemantics hscoped hlegible hclear
  have hmoved := Xml.grounded_adapt (s := ⟨(ownSemantics root latex).2.id, root.supply.pre⟩)
    houter hapart hplain (grounded_ownSemantics hscoped hlegible hclear)
  rw [annotate_eq, Element.node, Node.Grounded]
  refine ⟨hscoped.grounded.1, ?_⟩
  rw [List.append_nil, Xml.allGrounded_iff]
  refine List.forall_mem_append.mpr ⟨fun n hn => ?_, List.forall_mem_singleton.mpr hmoved⟩
  cases n with
  | element t ns => exact absurd (List.mem_takeWhile_imp hn) (by simp [Node.isText])
  | _ => trivial

/-- The declarations of the preview are among some in which no prefix stands for two
namespaces, and its tags are well named. -/
theorem exists_prefixes_annotate (hscoped : root.IsScoped) {room : Nat}
    (hlegible : root.node.Legible [] room) (hclear : root.IsUnambiguous) :
    ∃ bs, Prefixes bs ∧ (annotate root latex).node.declared ⊆ bs ∧
      (Lacks root → ∀ b ∈ bs, b.pre ≠ []) ∧
      ∀ t ∈ (annotate root latex).node.tags, t.WellNamed (Lacks root) := by
  have hjoins := (wraps_content hscoped hlegible hclear).joins
  have hroot : root.tag.bindings ⊆ ownNs root.supply :: root.node.declared :=
    List.subset_cons_of_subset _ (List.subset_append_left _ _)
  have houter : ∀ b ∈ [root.tag].flatMap Tag.seen, b.IsIn
      (ownNs root.supply :: root.node.declared ++ declaredAll (ownContent root).1) := fun b hb =>
    (isIn_of_mem_seen hscoped b (by simpa using hb)).mono
      (List.Subset.trans hroot (List.subset_append_left _ _))
  have hwithin : (ownSemantics root latex).1.declared ++ [] ⊆
      ownNs root.supply :: root.node.declared ++ declaredAll (ownContent root).1 := by
    rw [List.append_nil, declared_ownSemantics]
    exact List.cons_subset.mpr ⟨List.mem_cons_self, List.subset_append_right _ _⟩
  -- something is known of all declarations that names use, so no numbers are counted
  let supply : Supply := ⟨(ownSemantics root latex).2.id, root.supply.pre⟩
  have hnumbers : false = true → NumbersBelow supply.pre
      (ownNs root.supply :: root.node.declared ++ declaredAll (ownContent root).1) := nofun
  obtain ⟨hmoved, htags⟩ := Xml.joins_adapt hjoins.prefixes houter hnumbers (fun _ => rfl) hwithin
    (grounded_ownSemantics hscoped hlegible hclear)
    (wellNamed_ownSemantics hscoped hlegible hclear)
  have htexts : ∀ n ∈ root.children.takeWhile Node.isText, n.declared = [] ∧ n.tags = [] := by
    intro n hn
    cases n with
    | element t ns => exact absurd (List.mem_takeWhile_imp hn) (by simp [Node.isText])
    | _ => exact ⟨rfl, rfl⟩
  rw [annotate_eq]
  refine ⟨_, hmoved.prefixes, ?_, fun hlacks => ?_, List.forall_mem_cons.mpr
    ⟨wellNamed_root hscoped hlegible hclear _ List.mem_cons_self, fun t ht => ?_⟩⟩
  · refine List.append_subset.mpr ⟨List.Subset.trans hroot (List.Subset.trans
      (List.subset_append_left _ _) (List.subset_append_left _ _)), fun b hb => ?_⟩
    obtain ⟨n, hn, hb⟩ := Xml.mem_declaredAll.mp hb
    rcases List.mem_append.mp hn with hn | hn
    · exact absurd ((htexts n hn).1 ▸ hb) List.not_mem_nil
    · obtain rfl := List.mem_singleton.mp hn
      exact List.mem_append_right _ hb
  · -- no declaration lacks a prefix, neither an old one nor a new one
    have hown : (ownNs root.supply).pre ≠ [] := by simp [ownNs, Xml.newPrefix]
    have hold : ∀ b ∈ ownNs root.supply :: root.node.declared, b.pre ≠ [] :=
      List.forall_mem_cons.mpr ⟨hown, hclear.lack hlacks⟩
    have hcontent : ∀ b ∈ ownNs root.supply :: root.node.declared ++ _, b.pre ≠ [] :=
      List.forall_mem_append.mpr ⟨hold, fun b hb => (hjoins.named b hb).elim (hold b) id⟩
    exact List.forall_mem_append.mpr
      ⟨hcontent, fun b hb => (hmoved.named b hb).elim (hcontent b) id⟩
  · obtain ⟨n, hn, ht⟩ := Xml.mem_tagsAll.mp ht
    rcases List.mem_append.mp hn with hn | hn
    · exact absurd ((htexts n hn).2 ▸ ht) List.not_mem_nil
    · obtain rfl := List.mem_singleton.mp hn
      exact htags t ht

/-- **The preview of a formula is legible**, if prefixes have one meaning in the formula, it is
legible and leaves room for two more elements, and no name in the preview is too long. -/
theorem legible_annotate (hscoped : root.IsScoped) (hlegible : root.IsLegible)
    (hroom : root.node.height ≤ Xml.Stack.maxOpen - 2) (hclear : root.IsUnambiguous)
    (hlatex : Xml.isLegal latex = true) (hshort : (annotate root latex).node.IsShort) :
    (annotate root latex).IsLegible := by
  have hbare : (annotate root latex).node.bare = (annotated root.bare latex).node := by
    rw [← Element.node_bare, bare_annotate hscoped.isNumbered]
  obtain ⟨bs, hprefixes, hwithin, hlack, htags⟩ :=
    @exists_prefixes_annotate root latex hscoped _ hlegible.node hclear
  have hheight : (annotate root latex).node.height ≤ Xml.Stack.maxOpen := by
    have hroot : root.bare.node.height ≤ Xml.Stack.maxOpen - 2 := by
      rwa [Element.node_bare, Node.height_bare]
    have hle := height_annotated root.bare latex
    rw [← Node.height_bare, hbare]
    exact hle.trans (Nat.add_le_add_right hroot 2)
  have horderly : (annotate root latex).node.isOrderly = true := by
    have hroot : root.bare.node.isOrderly = true := by
      rw [Element.node_bare, Node.isOrderly_bare]
      exact Node.isOrderly_of_legible hlegible.node
    rw [← Node.isOrderly_bare, hbare]
    exact isOrderly_annotated hroot hlatex
  refine ⟨Node.legible_of_grounded hprefixes hlack ?_ hheight horderly
    (grounded_annotate hscoped hlegible.node hclear) htags hshort, ?_⟩
  · rw [List.append_nil]
    exact hwithin
  · rw [← Node.ids_bare, hbare, ids_annotated, Element.node_bare, Node.ids_bare]
    exact hlegible.ids

end Preview

end MathMl
end Formulary
