/-
# Names that stand for their namespaces

In a tree whose names use declarations around them, each name is written with a prefix that
stands for its namespace, if no prefix stands for two of them. Such a tree is legible if it
breaks no other rule and keeps to the limits (`Node.legible_of_grounded`). Those rules do not
look at prefixes, so they are the same for trees that say the same.

Key definitions: `Xml.Node.height`, `Xml.Node.IsShort`, `Xml.Element.IsUnambiguous`.
Key theorems: `Xml.Node.isOrderly_bare`, `Xml.Node.ids_bare`, `Xml.Node.height_bare`,
`Xml.Name.standsIn_of_uses`, `Xml.Node.legible_of_grounded`, `Xml.Node.wellNamed_of_legible`.
-/
import Formulary.Proofs.Xml.Prefixes

namespace Formulary
namespace Xml

/-! ### Rules that do not look at prefixes -/

theorem Attr.isOrderly_bare {a : Attr} : a.bare.IsOrderly ↔ a.IsOrderly := by
  have hsame : a.bare.name.loc = a.name.loc ∧ a.bare.value = a.value ∧
      a.bare.name.uri = a.name.uri ∧ a.bare.name.is xmlUri "id" = a.name.is xmlUri "id" :=
    ⟨rfl, rfl, a.name.uri_bare, a.name.is_bare xmlUri "id"⟩
  obtain ⟨hloc, hvalue, huri, his⟩ := hsame
  constructor
  · rintro ⟨h₁, h₂, h₃, h₄⟩
    exact ⟨h₁, h₂, huri ▸ h₃, his ▸ h₄⟩
  · rintro ⟨h₁, h₂, h₃, h₄⟩
    exact ⟨h₁, h₂, huri.symm ▸ h₃, his.symm ▸ h₄⟩

theorem Tag.isOrderly_bare {t : Tag} : t.bare.IsOrderly ↔ t.IsOrderly := by
  have hattrs : (∀ a ∈ t.bare.attrs, a.IsOrderly) ↔ ∀ a ∈ t.attrs, a.IsOrderly := by
    simp only [Tag.bare, List.forall_mem_map, Attr.isOrderly_bare]
  have hnames : t.bare.attrs.map (fun a => a.name.bare) = t.attrs.map fun a => a.name.bare := by
    simp [Tag.bare, Attr.bare, List.map_map, Function.comp_def]
  constructor
  · rintro ⟨h₁, h₂, h₃⟩
    exact ⟨h₁, hattrs.mp h₂, hnames ▸ h₃⟩
  · rintro ⟨h₁, h₂, h₃⟩
    exact ⟨h₁, hattrs.mpr h₂, hnames.symm ▸ h₃⟩

theorem allOrderly_eq_all (ns : List Node) : allOrderly ns = ns.all Node.isOrderly := by
  induction ns with
  | nil => rfl
  | cons n ns ih => rw [allOrderly, ih, List.all_cons]

/-- Whether a tree breaks no rule does not depend on prefixes. -/
theorem Node.isOrderly_bare (n : Node) : n.bare.isOrderly = n.isOrderly := by
  induction n using Node.ind with
  | leaf n hn => rw [Node.bare_of_leaf hn]
  | element t ns ih =>
    have hns : allOrderly (bareAll ns) = allOrderly ns := by
      rw [allOrderly_eq_all, allOrderly_eq_all, bareAll_eq_map, List.all_map, Bool.eq_iff_iff,
        List.all_eq_true, List.all_eq_true]
      exact forall₂_congr fun n hn => by rw [Function.comp, ih n hn]
    rw [Node.bare, Node.isOrderly, Node.isOrderly, hns]
    congr 1
    exact decide_eq_decide.mpr Tag.isOrderly_bare

theorem idsAll_eq_flatMap (ns : List Node) : idsAll ns = ns.flatMap Node.ids := by
  induction ns with
  | nil => rfl
  | cons n ns ih => rw [idsAll, ih, List.flatMap_cons]

theorem idsAll_append (ns ms : List Node) : idsAll (ns ++ ms) = idsAll ns ++ idsAll ms := by
  simp only [idsAll_eq_flatMap, List.flatMap_append]

theorem Tag.ids_bare (t : Tag) : t.bare.ids = t.ids := by
  have hattr : ∀ a : Attr, a.bare.ids = a.ids := fun a => by
    rw [Attr.ids, Attr.ids, Attr.bare, Name.is_bare]
  simp [Tag.ids, Tag.bare, List.flatMap_map, hattr]

/-- The names that are given to elements do not depend on prefixes. -/
theorem Node.ids_bare (n : Node) : n.bare.ids = n.ids := by
  induction n using Node.ind with
  | leaf n hn => rw [Node.bare_of_leaf hn]
  | element t ns ih =>
    have hns : idsAll (bareAll ns) = idsAll ns := by
      rw [idsAll_eq_flatMap, idsAll_eq_flatMap, bareAll_eq_map, List.flatMap_map]
      exact List.flatMap_congr ih
    rw [Node.bare, Node.ids, Node.ids, hns, Tag.ids_bare]

/-! ### Tags and declarations of lists -/

theorem mem_declaredAll {ns : List Node} {b : Binding} :
    b ∈ declaredAll ns ↔ ∃ n ∈ ns, b ∈ n.declared := by
  rw [declaredAll_eq_flatMap, List.mem_flatMap]

theorem mem_mentionedAll {ns : List Node} {b : Binding} :
    b ∈ mentionedAll ns ↔ ∃ n ∈ ns, b ∈ n.mentioned := by
  rw [mentionedAll_eq_flatMap, List.mem_flatMap]

/-! ### Limits -/

mutual
/-- The most elements that are open at once in a node. -/
def Node.height : Node → Nat
  | .element _ ns => heightAll ns + 1
  | _ => 0
/-- The most elements that are open at once in a list of nodes. -/
def heightAll : List Node → Nat
  | [] => 0
  | n :: ns => max n.height (heightAll ns)
end

theorem heightAll_le_iff {ns : List Node} {k : Nat} :
    heightAll ns ≤ k ↔ ∀ n ∈ ns, n.height ≤ k := by
  induction ns with
  | nil => simp [heightAll]
  | cons n ns ih => rw [heightAll, Nat.max_le, ih, List.forall_mem_cons]

theorem Node.height_bare (n : Node) : n.bare.height = n.height := by
  induction n using Node.ind with
  | leaf n hn => rw [Node.bare_of_leaf hn]
  | element t ns ih =>
    have hle : ∀ k, heightAll (bareAll ns) ≤ k ↔ heightAll ns ≤ k := fun k => by
      rw [heightAll_le_iff, heightAll_le_iff, bareAll_eq_map, List.forall_mem_map]
      exact forall₂_congr fun n hn => by rw [ih n hn]
    rw [Node.bare, Node.height, Node.height]
    exact congrArg (· + 1) (Nat.le_antisymm ((hle _).mpr (Nat.le_refl _))
      ((hle _).mp (Nat.le_refl _)))

/-- Whether no name that is written in a node is longer than names may be. -/
def Node.IsShort (n : Node) : Prop := ∀ t ∈ n.tags, ∀ w ∈ t.written, w.length ≤ maxName

instance (n : Node) : Decidable n.IsShort :=
  inferInstanceAs (Decidable (∀ t ∈ n.tags, ∀ w ∈ t.written, w.length ≤ maxName))

/-! ### Names -/

/-- **A name that uses a declaration in scope stands for its namespace there**, if no prefix in
scope stands for two. -/
theorem Name.standsIn_of_uses {scope : Scope} {n : Name} {isAttr : Bool} (hscope : Prefixes scope)
    (hn : n.Uses scope) (hattr : isAttr = true → ∀ b ∈ n.ns, b.pre ≠ [])
    (hlack : isAttr = false → n.ns = none → ∀ b ∈ scope, b.pre ≠ []) :
    n.standsIn scope isAttr = true := by
  obtain ⟨ns, loc⟩ := n
  cases ns with
  | none =>
    cases isAttr with
    | true => rfl
    | false =>
      have hnone : scope.uri? [] = none := by
        rw [Scope.uri?, Scope.find?, if_neg (by decide), Option.map_eq_none_iff,
          List.find?_eq_none]
        exact fun b hb => by simpa using hlack rfl rfl b hb
      show ((scope.uri? []).getD [] == []) = true
      rw [hnone]
      rfl
  | some b =>
    have hfound : b ∈ scope → scope.uri? b.pre = some b.uri := fun hb => by
      have hxml : b.pre ≠ "xml".toList := (hscope.orderly b hb).pre_ne_xml
      rw [Scope.uri?, Scope.find?, if_neg hxml]
      cases hfind : List.find? (fun c : Binding => c.pre == b.pre) scope with
      | none => exact absurd (List.find?_eq_none.mp hfind b hb) (by simp)
      | some c =>
        have hpre : c.pre = b.pre := by simpa using List.find?_some hfind
        have huri := hscope.clear c (List.mem_append_right _ (List.mem_of_find?_eq_some hfind)) b
          (List.mem_append_right _ hb) hpre
        rw [Option.map_some, huri]
    rcases hn b rfl with rfl | hb
    · rfl
    · show (if b.pre = [] then if isAttr then b.uri == [] else (scope.uri? []).getD [] == b.uri
        else scope.uri? b.pre == some b.uri) = true
      split
      · rename_i hpre
        rw [hpre] at hfound
        cases isAttr with
        | true => exact absurd hpre (hattr rfl b rfl)
        | false => simp [hfound hb]
      · simp [hfound hb]

/-- **A tree whose names use declarations around them is legible**, if no prefix stands for two
namespaces, no other rule is broken and the limits are kept. -/
theorem Node.legible_of_grounded {n : Node} {bs scope : List Binding} {lack : Prop} {room : Nat}
    (hbs : Prefixes bs) (hlack : lack → ∀ b ∈ bs, b.pre ≠ []) (hwithin : n.declared ++ scope ⊆ bs)
    (hheight : n.height ≤ room) (horderly : n.isOrderly = true) (hn : n.Grounded scope)
    (htags : ∀ t ∈ n.tags, t.WellNamed lack) (hshort : n.IsShort) : n.Legible scope room := by
  induction n using Node.ind generalizing scope room with
  | leaf n hleaf =>
    cases n with
    | element t ns => exact absurd rfl (hleaf t ns)
    | _ => exact horderly
  | element t ns ih =>
    obtain ⟨ht, hns⟩ := List.forall_mem_cons.mp htags
    obtain ⟨htshort, hnsshort⟩ := List.forall_mem_cons.mp hshort
    rw [Node.isOrderly, Bool.and_eq_true, decide_eq_true_eq] at horderly
    rw [Node.height] at hheight
    have hscope : t.bindings ++ scope ⊆ bs := fun b hb => hwithin (by
      simp only [Node.declared, List.mem_append] at hb ⊢
      exact hb.imp_left .inl)
    have hhere := hbs.mono hscope
    have hnone : ∀ b ∈ t.bindings ++ scope, t.name.ns = none → b.pre ≠ [] := fun b hb hnone =>
      hlack (ht.name hnone) b (hscope hb)
    refine ⟨by omega, ⟨horderly.1, ht.declares, ?_, fun a ha => ?_, htshort⟩, ?_⟩
    · exact Name.standsIn_of_uses hhere hn.1.1 (fun h => absurd h Bool.false_ne_true)
        fun _ hns b hb => hnone b hb hns
    · exact Name.standsIn_of_uses hhere (hn.1.2 a ha) (fun _ => ht.attrs a ha)
        fun h => absurd h.symm Bool.false_ne_true
    · refine allLegible_iff.mpr fun m hm => ih m hm (fun b hb => ?_) ?_ ?_ ?_ ?_ ?_
      · rcases List.mem_append.mp hb with hb | hb
        · exact hwithin (List.mem_append_left _ (List.mem_append_right _
            (mem_declaredAll.mpr ⟨m, hm, hb⟩)))
        · exact hscope hb
      · exact heightAll_le_iff.mp (Nat.le_sub_one_of_lt (Nat.lt_of_succ_le hheight)) m hm
      · exact List.all_eq_true.mp (allOrderly_eq_all ns ▸ horderly.2) m hm
      · exact allGrounded_iff.mp hn.2 m hm
      · exact fun u hu => hns u (mem_tagsAll.mpr ⟨m, hm, hu⟩)
      · exact fun u hu => hnsshort u (mem_tagsAll.mpr ⟨m, hm, hu⟩)

/-! ### What a legible tree keeps -/

theorem Node.isOrderly_of_legible {n : Node} {scope : Scope} {room : Nat}
    (h : n.Legible scope room) : n.isOrderly = true := by
  induction n using Node.ind generalizing scope room with
  | leaf n hn =>
    cases n with
    | element t ns => exact absurd rfl (hn t ns)
    | _ => exact h
  | element t ns ih =>
    obtain ⟨-, ht, hns⟩ := h
    rw [Node.isOrderly, Bool.and_eq_true, decide_eq_true_eq, allOrderly_eq_all, List.all_eq_true]
    exact ⟨ht.orderly, fun m hm => ih m hm (allLegible_iff.mp hns m hm)⟩

/-- The declarations in a legible tree keep the rules of namespaces. -/
theorem Node.orderly_of_legible {n : Node} {scope : Scope} {room : Nat}
    (h : n.Legible scope room) : ∀ b ∈ n.declared, b.IsOrderly := by
  induction n using Node.ind generalizing scope room with
  | leaf n hn =>
    cases n with
    | element t ns => exact absurd rfl (hn t ns)
    | _ => exact fun b hb => absurd hb List.not_mem_nil
  | element t ns ih =>
    obtain ⟨-, ht, hns⟩ := h
    refine List.forall_mem_append.mpr ⟨ht.declares.orderly, fun b hb => ?_⟩
    obtain ⟨m, hm, hb⟩ := mem_declaredAll.mp hb
    exact ih m hm (allLegible_iff.mp hns m hm) b hb

/-- The tags of a legible tree are well named, if each declaration in play is of a namespace. -/
theorem Node.wellNamed_of_legible {n : Node} {scope : Scope} {room : Nat} {lack : Prop}
    (h : n.Legible scope room) (hnamed : ∀ b ∈ n.mentioned, b.uri ≠ [])
    (hlack : ∀ t ∈ n.tags, t.name.ns = none → lack) : ∀ t ∈ n.tags, t.WellNamed lack := by
  induction n using Node.ind generalizing scope room with
  | leaf n hn =>
    cases n with
    | element t ns => exact absurd rfl (hn t ns)
    | _ => exact fun t ht => absurd ht List.not_mem_nil
  | element t ns ih =>
    obtain ⟨-, ht, hns⟩ := h
    obtain ⟨htlack, hnslack⟩ := List.forall_mem_cons.mp hlack
    refine List.forall_mem_cons.mpr ⟨⟨ht.declares, fun a ha b hb hpre => ?_, htlack⟩,
      fun u hu => ?_⟩
    · -- without a prefix the attribute would be in no namespace
      have hstands := ht.attrs a ha
      have hmentioned : b ∈ t.mentioned := List.mem_append_right _
        (List.mem_flatMap.mpr ⟨a, ha, Option.mem_toList.mpr hb⟩)
      have huri := hnamed b (List.mem_append_left _ hmentioned)
      obtain ⟨⟨ns, loc⟩, value⟩ := a
      obtain rfl : ns = some b := hb
      have hempty : b.uri = [] := by simpa [Name.standsIn, Name.pre, Name.uri, hpre] using hstands
      exact huri hempty
    · obtain ⟨m, hm, hu⟩ := mem_tagsAll.mp hu
      refine ih m hm (allLegible_iff.mp hns m hm) (fun b hb => ?_) (fun v hv => ?_) u hu
      · exact hnamed b (List.mem_append_right _ (mem_mentionedAll.mpr ⟨m, hm, hb⟩))
      · exact hnslack v (mem_tagsAll.mpr ⟨m, hm, hv⟩)

/-! ### Unambiguous documents -/

/-- Whether a prefix has the form of those that are made by number. -/
def isNumberedPrefix : Text → Bool
  | 'n' :: 's' :: digits => digits.all Char.isDigit
  | _ => false

theorem isNumberedPrefix_newPrefix (n : Nat) : isNumberedPrefix (newPrefix n) = true :=
  List.all_eq_true.mpr fun _ hc => Text.isDigit_of_mem_ofNat hc

/-- An element in which prefixes have one meaning: no prefix, a usual one included, stands for two
namespaces, the lack of a prefix for a namespace and for none, or a prefix for no namespace; and
prefixes that may be made by number are not taken. -/
structure Element.IsUnambiguous (e : Element) : Prop where
  clear : IsClear (usual ++ e.node.declared)
  named : ∀ b ∈ e.node.declared, b.uri ≠ []
  lack : (∃ t ∈ e.node.tags, t.name.ns = none) → ∀ b ∈ e.node.declared, b.pre ≠ []
  free : ∀ b ∈ e.node.declared, isNumberedPrefix b.pre = false

instance (e : Element) : Decidable e.IsUnambiguous :=
  decidable_of_iff (IsClear (usual ++ e.node.declared) ∧ (∀ b ∈ e.node.declared, b.uri ≠ []) ∧
      ((∃ t ∈ e.node.tags, t.name.ns = none) → ∀ b ∈ e.node.declared, b.pre ≠ []) ∧
      ∀ b ∈ e.node.declared, isNumberedPrefix b.pre = false)
    ⟨fun ⟨h₁, h₂, h₃, h₄⟩ => ⟨h₁, h₂, h₃, h₄⟩, fun ⟨h₁, h₂, h₃, h₄⟩ => ⟨h₁, h₂, h₃, h₄⟩⟩

end Xml
end Formulary
