/-
# What a move learns

A step of a move either takes a declaration out of a tag, or finds the declaration that a name
comes to use. What is known after it is what was known before, what is known now of the
declarations of the node that is gone through, and what is known of declarations on the moved
node or outside it. New declarations are made on the moved node only, and they take the next
numbers (`learns_adaptInner`). The node itself keeps some of its declarations and gets no
others.

Key definitions: `Xml.Move.Fix`, `Xml.Move.adaptTag`, `Xml.Move.Learns`.
Key theorems: `Xml.Move.fix_fix`, `Xml.Move.mem_known_strip`, `Xml.learns_adaptInner`,
`Xml.declared_adaptInner_sublist`.
-/
import Formulary.Proofs.Xml.Grounded

namespace Formulary
namespace Xml
namespace Move

variable {outer : List Tag} {m m' m'' : Move}

/-! ### One name -/

/-- The ways in which a name comes to use a declaration: the reserved one stays, one is known
to stand for it, one of its namespace is found, or a new one is declared. -/
inductive Fix (outer : List Tag) (isAttr : Bool) (b : Binding) (m : Move) : Binding → Move → Prop
  | reserved (huri : b.uri = xmlUri) : Fix outer isAttr b m b m
  | known {c : Binding} (huri : b.uri ≠ xmlUri) (hc : m.known? isAttr b = some c) :
      Fix outer isAttr b m c m
  | found {c : Binding} (huri : b.uri ≠ xmlUri) (hnew : m.known? isAttr b = none)
      (hc : m.find? outer isAttr b.uri = some c) :
      Fix outer isAttr b m c { m with known := m.known ++ [(c.id, c)] }
  | declared {c : Binding} {d : Move} (huri : b.uri ≠ xmlUri) (hnew : m.known? isAttr b = none)
      (hnone : m.find? outer isAttr b.uri = none) (hd : m.declare outer b = (c, d)) :
      Fix outer isAttr b m c { d with known := d.known ++ [(c.id, c)] }

theorem fix_fix (outer : List Tag) (isAttr : Bool) (b : Binding) (m : Move) :
    Fix outer isAttr b m (m.fix outer isAttr b).1 (m.fix outer isAttr b).2 := by
  unfold Move.fix
  split
  · exact .reserved ‹_›
  · split
    · exact .known ‹_› ‹_›
    · cases hfind : m.find? outer isAttr b.uri with
      | some c => exact .found ‹_› ‹_› hfind
      | none => exact .declared ‹_› ‹_› hfind rfl

theorem mem_of_known? {isAttr : Bool} {b c : Binding} (h : m.known? isAttr b = some c) :
    (b.id, c) ∈ m.known := by
  obtain ⟨p, hp, rfl⟩ := Option.map_eq_some_iff.mp h
  have hid := List.find?_some hp
  simp only [Bool.and_eq_true, beq_iff_eq] at hid
  rw [← hid.1]
  exact List.mem_of_find?_eq_some hp

theorem mem_of_find? {isAttr : Bool} {uri : Text} {c : Binding}
    (h : m.find? outer isAttr uri = some c) : c ∈ m.start.bindings ++ outer.flatMap Tag.seen :=
  List.mem_of_find?_eq_some h

/-! ### The declarations of a tag -/

/-- The declarations that stay are some of those that were there. -/
theorem strip_sublist (path : List Tag) (ds : List Binding) (m : Move) :
    (m.strip path ds).1.Sublist ds := by
  induction ds generalizing m with
  | nil => exact .slnil
  | cons d ds ih =>
    rw [strip]
    split
    · exact (ih _).cons d
    · exact (ih _).cons_cons d

theorem strip_start (path : List Tag) (ds : List Binding) (m : Move) :
    (m.strip path ds).2.start = m.start ∧ (m.strip path ds).2.supply = m.supply := by
  induction ds generalizing m with
  | nil => exact ⟨rfl, rfl⟩
  | cons d ds ih =>
    rw [strip]
    split
    · exact ih { m with known := m.known ++ [(d.id, _)] }
    · exact ih { m with known := m.known ++ [(d.id, d)] }

theorem known_strip_subset (path : List Tag) (ds : List Binding) (m : Move) :
    m.known ⊆ (m.strip path ds).2.known := by
  induction ds generalizing m with
  | nil => exact List.Subset.refl _
  | cons d ds ih =>
    rw [strip]
    split
    · exact List.Subset.trans (List.subset_append_left _ _)
        (ih { m with known := m.known ++ [(d.id, _)] })
    · exact List.Subset.trans (List.subset_append_left _ _)
        (ih { m with known := m.known ++ [(d.id, d)] })

/-- What is known of the declarations of a tag: each stands for itself and stays, or one from
further out stands for it. -/
theorem mem_known_strip {path : List Tag} {ds : List Binding} {p : Nat × Binding}
    (hp : p ∈ (m.strip path ds).2.known) :
    p ∈ m.known ∨ (∃ d ∈ ds, p.1 = d.id) ∧
      (p.2 ∈ (m.strip path ds).1 ∨ p.2 ∈ path.flatMap Tag.seen) := by
  induction ds generalizing m with
  | nil => exact .inl hp
  | cons d ds ih =>
    rw [strip] at hp ⊢
    split at hp
    · rename_i c hc
      rcases ih hp with hp | ⟨⟨e, he, hid⟩, hwhere⟩
      · rcases List.mem_append.mp hp with hp | hp
        · exact .inl hp
        · obtain rfl := List.mem_singleton.mp hp
          exact .inr ⟨⟨d, List.mem_cons_self, rfl⟩, .inr (mem_of_inScope? hc).1⟩
      · exact .inr ⟨⟨e, List.mem_cons_of_mem d he, hid⟩, hwhere⟩
    · rcases ih hp with hp | ⟨⟨e, he, hid⟩, hwhere⟩
      · rcases List.mem_append.mp hp with hp | hp
        · exact .inl hp
        · obtain rfl := List.mem_singleton.mp hp
          exact .inr ⟨⟨d, List.mem_cons_self, rfl⟩, .inl List.mem_cons_self⟩
      · exact .inr ⟨⟨e, List.mem_cons_of_mem d he, hid⟩,
          hwhere.imp_left (List.mem_cons_of_mem d)⟩

/-- Something is known of each declaration of a tag. -/
theorem exists_mem_known_strip {path : List Tag} {ds : List Binding} {d : Binding} (hd : d ∈ ds) :
    ∃ p ∈ (m.strip path ds).2.known, p.1 = d.id := by
  induction ds generalizing m with
  | nil => exact absurd hd List.not_mem_nil
  | cons e ds ih =>
    have hnew : ∀ c, (e.id, c) ∈ m.known ++ [(e.id, c)] := fun c =>
      List.mem_append_right _ (List.mem_singleton.mpr rfl)
    rw [strip]
    split
    · rcases List.mem_cons.mp hd with rfl | hd
      · exact ⟨_, known_strip_subset _ _ _ (hnew _), rfl⟩
      · exact ih hd
    · rcases List.mem_cons.mp hd with rfl | hd
      · exact ⟨_, known_strip_subset _ _ _ (hnew _), rfl⟩
      · exact ih hd

/-! ### What a step learns -/

/-- What a part of a move that goes through the given declarations has learned. -/
structure Learns (outer : List Tag) (ds : List Binding) (m m' : Move) : Prop where
  grows : m.known ⊆ m'.known
  known : ∀ p ∈ m'.known, p ∈ m.known ∨ (∃ d ∈ ds, p.1 = d.id) ∨
    p.1 = p.2.id ∧ p.2 ∈ m'.start.bindings ++ outer.flatMap Tag.seen
  head : SameHead m m'
  start : ∃ new, m'.start.bindings = m.start.bindings ++ new ∧
    m'.supply.id = m.supply.id + new.length ∧
    new.map Binding.id = List.range' m.supply.id new.length

namespace Learns

variable {ds es : List Binding}

theorem refl (outer : List Tag) (m : Move) : Learns outer [] m m :=
  ⟨List.Subset.refl _, fun _ hp => .inl hp, .refl m, [], by simp⟩

theorem subset (h : Learns outer ds m m') : m.start.bindings ⊆ m'.start.bindings := by
  obtain ⟨new, hnew, -, -⟩ := h.start
  rw [hnew]
  exact List.subset_append_left _ _

theorem supply_le (h : Learns outer ds m m') : m.supply.id ≤ m'.supply.id := by
  obtain ⟨new, -, hsupply, -⟩ := h.start
  omega

/-- A declaration on the moved node was there, or has one of the numbers that were free. -/
theorem mem_start (h : Learns outer ds m m') {c : Binding} (hc : c ∈ m'.start.bindings) :
    c ∈ m.start.bindings ∨ m.supply.id ≤ c.id ∧ c.id < m'.supply.id := by
  obtain ⟨new, hnew, hsupply, hids⟩ := h.start
  rw [hnew] at hc
  rcases List.mem_append.mp hc with hc | hc
  · exact .inl hc
  · have hid : c.id ∈ new.map Binding.id := List.mem_map_of_mem hc
    rw [hids, List.mem_range'_1] at hid
    exact .inr ⟨hid.1, by omega⟩

theorem trans (h : Learns outer ds m m') (h' : Learns outer es m' m'') :
    Learns outer (ds ++ es) m m'' := by
  obtain ⟨new, hstart, hsupply, hids⟩ := h.start
  obtain ⟨new', hstart', hsupply', hids'⟩ := h'.start
  refine ⟨List.Subset.trans h.grows h'.grows, fun p hp => ?_, h.head.trans h'.head,
    new ++ new', ?_, ?_, ?_⟩
  · rcases h'.known p hp with hp | ⟨d, hd, hid⟩ | hp
    · rcases h.known p hp with hp | ⟨d, hd, hid⟩ | ⟨hid, hp⟩
      · exact .inl hp
      · exact .inr (.inl ⟨d, List.mem_append_left es hd, hid⟩)
      · refine .inr (.inr ⟨hid, ?_⟩)
        exact (List.mem_append.mp hp).elim (fun hp => List.mem_append_left _ (h'.subset hp))
          (List.mem_append_right _)
    · exact .inr (.inl ⟨d, List.mem_append_right ds hd, hid⟩)
    · exact .inr (.inr hp)
  · rw [hstart', hstart, List.append_assoc]
  · rw [hsupply', hsupply, List.length_append, Nat.add_assoc]
  · rw [List.map_append, hids, hids', hsupply, List.length_append, List.range'_append_1]

end Learns

theorem learns_fix (outer : List Tag) (isAttr : Bool) (b : Binding) (m : Move) :
    Learns outer [] m (m.fix outer isAttr b).2 := by
  have hfix := fix_fix outer isAttr b m
  generalize (m.fix outer isAttr b).2 = m' at hfix ⊢
  generalize (m.fix outer isAttr b).1 = c at hfix
  -- an entry for a declaration on the moved node or outside it
  have hentry : ∀ {known : List (Nat × Binding)} {start : Tag},
      c ∈ start.bindings ++ outer.flatMap Tag.seen → ∀ p ∈ known ++ [(c.id, c)],
        p ∈ known ∨ (∃ d ∈ ([] : List Binding), p.1 = d.id) ∨
          p.1 = p.2.id ∧ p.2 ∈ start.bindings ++ outer.flatMap Tag.seen :=
    fun hmem p hp => (List.mem_append.mp hp).imp_right fun hp => by
      obtain rfl := List.mem_singleton.mp hp
      exact .inr ⟨rfl, hmem⟩
  cases hfix with
  | reserved => exact .refl outer m
  | known => exact .refl outer m
  | found huri hnew hfound =>
    exact ⟨List.subset_append_left _ _, hentry (mem_of_find? hfound), ⟨rfl, rfl⟩, [], by simp⟩
  | declared huri hnew hnone hd =>
    obtain ⟨-, hid⟩ := declare_uri outer b m
    obtain ⟨hknown, hstart, hsupply⟩ := declare_move outer b m
    rw [hd] at hid hknown hstart hsupply
    dsimp only at hid hknown hstart hsupply
    rw [hknown]
    refine ⟨List.subset_append_left _ _, hentry ?_, ?_, [c], ?_, ?_, ?_⟩
    · rw [hstart]
      exact List.mem_append_left _ (List.mem_append_right _ (List.mem_singleton.mpr rfl))
    · exact ⟨by rw [hstart], by rw [hstart]⟩
    · rw [hstart]
    · exact hsupply
    · rw [List.map_singleton, hid]
      rfl

theorem learns_fixName (outer : List Tag) (isAttr : Bool) (n : Name) (m : Move) :
    Learns outer [] m (m.fixName outer isAttr n).2 := by
  obtain ⟨ns, loc⟩ := n
  cases ns with
  | none => exact .refl outer m
  | some b => exact learns_fix outer isAttr b m

theorem learns_fixAttrs (outer : List Tag) (as : List Attr) (m : Move) :
    Learns outer [] m (m.fixAttrs outer as).2 := by
  induction as generalizing m with
  | nil => exact .refl outer m
  | cons a as ih => exact (learns_fixName outer true a.name m).trans (ih _)

theorem learns_strip (outer path : List Tag) (ds : List Binding) (m : Move) :
    Learns outer ds m (m.strip path ds).2 := by
  obtain ⟨hstart, hsupply⟩ := strip_start path ds m
  refine ⟨known_strip_subset path ds m, fun p hp => ?_, sameHead_strip path ds m, [], ?_, ?_, ?_⟩
  · exact (mem_known_strip hp).imp_right fun h => .inl h.1
  · rw [hstart, List.append_nil]
  · rw [hsupply]
    rfl
  · rfl

/-! ### Nodes -/

/-- The tag of a node inside the moved one once it is adapted, and the move after it. -/
def adaptTag (outer inner : List Tag) (t : Tag) (m : Move) : Tag × Move :=
  let p := m.strip (inner ++ m.start :: outer) t.bindings
  let q := p.2.fixName outer false t.name
  let r := q.2.fixAttrs outer t.attrs
  (⟨q.1, p.1, r.1⟩, r.2)

theorem bindings_adaptTag_sublist (outer inner : List Tag) (t : Tag) (m : Move) :
    (m.adaptTag outer inner t).1.bindings.Sublist t.bindings :=
  strip_sublist _ _ _

theorem learns_adaptTag (outer inner : List Tag) (t : Tag) (m : Move) :
    Learns outer t.bindings m (m.adaptTag outer inner t).2 := by
  have h := ((learns_strip outer (inner ++ m.start :: outer) t.bindings m).trans
    (learns_fixName outer false t.name _)).trans (learns_fixAttrs outer t.attrs _)
  rwa [List.append_nil, List.append_nil] at h

end Move

section Adapt

variable (outer : List Tag)

theorem adaptInner_element (inner : List Tag) (t : Tag) (ns : List Node) (m : Move) :
    (Node.element t ns).adaptInner outer inner m =
      (.element (m.adaptTag outer inner t).1
        (adaptAllInner outer ((m.adaptTag outer inner t).1 :: inner) ns
          (m.adaptTag outer inner t).2).1,
        (adaptAllInner outer ((m.adaptTag outer inner t).1 :: inner) ns
          (m.adaptTag outer inner t).2).2) := by
  simp only [Node.adaptInner]
  rfl

mutual
/-- **A move through a node learns of its declarations** and of those that it makes. -/
theorem learns_adaptInner : ∀ (inner : List Tag) (n : Node) (m : Move),
    m.Learns outer n.declared (n.adaptInner outer inner m).2
  | inner, .element t ns, m => by
    rw [adaptInner_element]
    exact (Move.learns_adaptTag outer inner t m).trans (learns_adaptAllInner _ ns _)
  | _, .text _, m => .refl outer m
  | _, .comment _, m => .refl outer m
  | _, .instruction _ _, m => .refl outer m
  | _, .reference _, m => .refl outer m
theorem learns_adaptAllInner : ∀ (inner : List Tag) (ns : List Node) (m : Move),
    m.Learns outer (declaredAll ns) (adaptAllInner outer inner ns m).2
  | _, [], m => .refl outer m
  | inner, n :: ns, m => by
    simp only [adaptAllInner]
    exact (learns_adaptInner inner n m).trans (learns_adaptAllInner inner ns _)
end

mutual
/-- A node inside the moved one keeps some of its declarations. -/
theorem declared_adaptInner_sublist : ∀ (inner : List Tag) (n : Node) (m : Move),
    (n.adaptInner outer inner m).1.declared.Sublist n.declared
  | inner, .element t ns, m => by
    rw [adaptInner_element]
    exact (Move.bindings_adaptTag_sublist outer inner t m).append
      (declaredAll_adaptAllInner_sublist _ ns _)
  | _, .text _, _ => .slnil
  | _, .comment _, _ => .slnil
  | _, .instruction _ _, _ => .slnil
  | _, .reference _, _ => .slnil
theorem declaredAll_adaptAllInner_sublist : ∀ (inner : List Tag) (ns : List Node) (m : Move),
    (declaredAll (adaptAllInner outer inner ns m).1).Sublist (declaredAll ns)
  | _, [], _ => .slnil
  | inner, n :: ns, m => by
    simp only [adaptAllInner, declaredAll]
    exact (declared_adaptInner_sublist inner n m).append
      (declaredAll_adaptAllInner_sublist inner ns _)
end

end Adapt

end Xml
end Formulary
