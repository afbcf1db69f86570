/-
# Moving changes no names

A node that is moved may take other prefixes, and declarations may be taken out of it or be
made anew, but every name in it keeps its namespace (`bare_adapt`). This rests on numbers:
a declaration is known again by its number, so no two that differ may have the same one. The
declarations in play are kept in a register (`Register`), which a move only adds to, each time
with a number that is still free.

Key definitions: `Xml.Node.mentioned`, `Xml.Register`, `Xml.Move.Sound`.
Key theorems: `Xml.Move.Sound.fix`, `Xml.bare_adapt`, `Xml.bare_adaptEach`.
-/
import Formulary.Proofs.Xml.Bare
import Formulary.Xml.Move
import Mathlib.Data.List.Infix
import Mathlib.Data.List.Flatten

namespace Formulary
namespace Xml

/-! ### Declarations in play -/

/-- The declarations that a tag makes or uses. -/
def Tag.mentioned (t : Tag) : List Binding :=
  t.seen ++ t.attrs.flatMap fun a => a.name.ns.toList

mutual
/-- The declarations that are made or used in a node. -/
def Node.mentioned : Node → List Binding
  | .element t ns => t.mentioned ++ mentionedAll ns
  | _ => []
/-- The declarations that are made or used in a list of nodes. -/
def mentionedAll : List Node → List Binding
  | [] => []
  | n :: ns => n.mentioned ++ mentionedAll ns
end

theorem mentionedAll_append (ns ms : List Node) :
    mentionedAll (ns ++ ms) = mentionedAll ns ++ mentionedAll ms := by
  induction ns with
  | nil => rfl
  | cons n ns ih => simp only [List.cons_append, mentionedAll, ih, List.append_assoc]

theorem mentionedAll_eq_flatMap (ns : List Node) : mentionedAll ns = ns.flatMap Node.mentioned := by
  induction ns with
  | nil => rfl
  | cons n ns ih => rw [mentionedAll, ih, List.flatMap_cons]

/-- The declarations in play, with numbers below a bound: a number stands for one of them. -/
structure Register (bs : List Binding) (bound : Nat) : Prop where
  eq_of_id : ∀ b ∈ bs, ∀ c ∈ bs, b.id = c.id → b = c
  id_lt : ∀ b ∈ bs, b.id < bound

namespace Register

variable {bs : List Binding} {bound : Nat}

theorem mono {bound' : Nat} (h : Register bs bound) (hle : bound ≤ bound') :
    Register bs bound' :=
  ⟨h.eq_of_id, fun b hb => Nat.lt_of_lt_of_le (h.id_lt b hb) hle⟩

/-- A declaration with the next number joins the others. -/
theorem cons (h : Register bs bound) (pre uri : Text) :
    Register (⟨bound, pre, uri⟩ :: bs) (bound + 1) := by
  have hne : ∀ b ∈ bs, b.id ≠ bound := fun b hb => Nat.ne_of_lt (h.id_lt b hb)
  refine ⟨fun b hb c hc hid => ?_, fun b hb => ?_⟩
  · rcases List.mem_cons.mp hb with rfl | hb
    · rcases List.mem_cons.mp hc with rfl | hc
      · rfl
      · exact absurd hid.symm (hne c hc)
    · rcases List.mem_cons.mp hc with rfl | hc
      · exact absurd hid (hne b hb)
      · exact h.eq_of_id b hb c hc hid
  · rcases List.mem_cons.mp hb with rfl | hb
    · exact Nat.lt_succ_self _
    · exact Nat.lt_succ_of_lt (h.id_lt b hb)

end Register

/-! ### Looking up -/

theorem mem_of_inScope?_above {uri : Text} {c : Binding} : ∀ {path : List Tag} {hidden : List Text},
    inScope?.above uri hidden path = some c → c ∈ path.flatMap Tag.seen ∧ c.uri = uri
  | [], _, h => absurd h (by simp [inScope?.above])
  | t :: up, hidden, h => by
    rw [inScope?.above, Option.or_eq_some_iff] at h
    rcases h with h | ⟨-, h⟩
    · refine ⟨List.mem_append_left _ (List.mem_of_find?_eq_some h), ?_⟩
      have hp := List.find?_some h
      simp only [Bool.and_eq_true, beq_iff_eq] at hp
      exact hp.1
    · obtain ⟨hmem, huri⟩ := mem_of_inScope?_above h
      exact ⟨List.mem_append_right _ hmem, huri⟩

/-- What is found for a namespace is a declaration of that namespace on the way out. -/
theorem mem_of_inScope? {uri : Text} {c : Binding} {path : List Tag}
    (h : inScope? uri path = some c) : c ∈ path.flatMap Tag.seen ∧ c.uri = uri := by
  cases path with
  | nil => exact absurd h (by simp [inScope?])
  | cons t up =>
    rw [inScope?, Option.or_eq_some_iff] at h
    rcases h with h | ⟨-, h⟩
    · have hp := List.find?_some (p := fun b : Binding => b.uri == uri) h
      exact ⟨List.mem_append_left _ (List.mem_append_left _ (List.mem_of_find?_eq_some h)),
        beq_iff_eq.mp hp⟩
    · obtain ⟨hmem, huri⟩ := mem_of_inScope?_above h
      exact ⟨List.mem_append_right _ hmem, huri⟩

/-! ### What a move knows -/

namespace Move

/-- A move is sound with a register: it holds the declarations around the moved node and on it,
and each declaration that is known to stand for another is of the same namespace. -/
structure Sound (outer : List Tag) (bs : List Binding) (m : Move) : Prop where
  register : Register bs m.supply.id
  outer : outer.flatMap Tag.seen ⊆ bs
  start : m.start.seen ⊆ bs
  known : ∀ p ∈ m.known, p.2 ∈ bs ∧ ∃ b ∈ bs, b.id = p.1 ∧ b.uri = p.2.uri

variable {outer : List Tag} {bs : List Binding} {m : Move}

/-- A declaration that is known to stand for another joins the known ones. -/
theorem Sound.know (h : m.Sound outer bs) {b c : Binding} (hb : b ∈ bs) (hc : c ∈ bs)
    (huri : b.uri = c.uri) : Sound outer bs { m with known := m.known ++ [(b.id, c)] } := by
  refine ⟨h.register, h.outer, h.start, fun p hp => ?_⟩
  rcases List.mem_append.mp hp with hp | hp
  · exact h.known p hp
  · obtain rfl := List.mem_singleton.mp hp
    exact ⟨hc, b, hb, rfl, huri⟩

theorem Sound.known? (h : m.Sound outer bs) {isAttr : Bool} {b c : Binding} (hb : b ∈ bs)
    (hc : m.known? isAttr b = some c) : c ∈ bs ∧ c.uri = b.uri := by
  obtain ⟨p, hp, rfl⟩ := Option.map_eq_some_iff.mp hc
  obtain ⟨hmem, b', hb', hid, huri⟩ := h.known p (List.mem_of_find?_eq_some hp)
  have hsame := List.find?_some hp
  simp only [Bool.and_eq_true, beq_iff_eq] at hsame
  rw [← huri, h.register.eq_of_id b' hb' b hb (hid.trans hsame.1)]
  exact ⟨hmem, rfl⟩

theorem Sound.find? (h : m.Sound outer bs) {isAttr : Bool} {uri : Text} {c : Binding}
    (hc : m.find? outer isAttr uri = some c) : c ∈ bs ∧ c.uri = uri := by
  have hp := List.find?_some hc
  simp only [Bool.and_eq_true, beq_iff_eq] at hp
  refine ⟨?_, hp.1.1⟩
  rcases List.mem_append.mp (List.mem_of_find?_eq_some hc) with hmem | hmem
  · exact h.start (List.mem_append_left _ hmem)
  · exact h.outer hmem

/-- What a step of a move has done: the register has grown, the move is sound with it, and what
the step gives has a property that lasts. -/
def Keeps (outer : List Tag) (bs : List Binding) (m : Move) (P : List Binding → Prop) : Prop :=
  ∃ cs, bs ⊆ cs ∧ m.Sound outer cs ∧ P cs

theorem declare_uri (outer : List Tag) (b : Binding) (m : Move) :
    (m.declare outer b).1.uri = b.uri ∧ (m.declare outer b).1.id = m.supply.id :=
  ⟨rfl, rfl⟩

theorem declare_move (outer : List Tag) (b : Binding) (m : Move) :
    (m.declare outer b).2.known = m.known ∧
    (m.declare outer b).2.start =
      { m.start with bindings := m.start.bindings ++ [(m.declare outer b).1] } ∧
    (m.declare outer b).2.supply.id = m.supply.id + 1 :=
  ⟨rfl, rfl, rfl⟩

theorem Sound.declare (h : m.Sound outer bs) (b : Binding) :
    Keeps outer bs (m.declare outer b).2 fun cs =>
      (m.declare outer b).1 ∈ cs ∧ (m.declare outer b).1.uri = b.uri := by
  obtain ⟨huri, hid⟩ := declare_uri outer b m
  obtain ⟨hknown, hstart, hsupply⟩ := declare_move outer b m
  generalize (m.declare outer b).1 = c at *
  generalize (m.declare outer b).2 = m' at *
  have hregister := h.register.cons c.pre c.uri
  rw [← hid] at hregister
  refine ⟨c :: bs, List.subset_cons_self c bs, ⟨?_, ?_, ?_, ?_⟩, List.mem_cons_self, huri⟩
  · rw [hsupply, ← hid]
    exact hregister
  · exact List.Subset.trans h.outer (List.subset_cons_self c bs)
  · obtain ⟨hbindings, hname⟩ := List.append_subset.mp
      (List.Subset.trans h.start (List.subset_cons_self c bs))
    rw [hstart]
    refine List.append_subset.mpr ⟨List.append_subset.mpr ⟨hbindings, ?_⟩, hname⟩
    exact List.cons_subset.mpr ⟨List.mem_cons_self, List.nil_subset _⟩
  · rw [hknown]
    intro p hp
    obtain ⟨hmem, b', hb', hp'⟩ := h.known p hp
    exact ⟨List.mem_cons_of_mem c hmem, b', List.mem_cons_of_mem c hb', hp'⟩

/-- **The declaration that a name comes to use is of the same namespace.** -/
theorem Sound.fix (h : m.Sound outer bs) (isAttr : Bool) {b : Binding} (hb : b ∈ bs) :
    Keeps outer bs (m.fix outer isAttr b).2 fun cs =>
      (m.fix outer isAttr b).1 ∈ cs ∧ (m.fix outer isAttr b).1.uri = b.uri := by
  unfold Move.fix
  split
  · exact ⟨bs, List.Subset.refl bs, h, hb, rfl⟩
  · split
    · rename_i c hc
      exact ⟨bs, List.Subset.refl bs, h, h.known? hb hc⟩
    · cases hfind : m.find? outer isAttr b.uri with
      | some c =>
        obtain ⟨hc, huri⟩ := h.find? hfind
        exact ⟨bs, List.Subset.refl bs, h.know hc hc rfl, hc, huri⟩
      | none =>
        obtain ⟨cs, hcs, hsound, hc, huri⟩ := h.declare b
        exact ⟨cs, hcs, hsound.know hc hc rfl, hc, huri⟩

theorem Sound.fixName (h : m.Sound outer bs) (isAttr : Bool) {n : Name}
    (hn : n.ns.toList ⊆ bs) :
    Keeps outer bs (m.fixName outer isAttr n).2 fun cs =>
      (m.fixName outer isAttr n).1.ns.toList ⊆ cs ∧
        (m.fixName outer isAttr n).1.bare = n.bare := by
  obtain ⟨ns, loc⟩ := n
  cases ns with
  | none => exact ⟨bs, List.Subset.refl bs, h, hn, rfl⟩
  | some b =>
    obtain ⟨cs, hcs, hsound, hc, huri⟩ := h.fix isAttr (hn List.mem_cons_self)
    refine ⟨cs, hcs, hsound, ?_, Name.bare_eq_iff.mpr ⟨huri, rfl⟩⟩
    exact List.cons_subset.mpr ⟨hc, List.nil_subset _⟩

theorem Sound.fixAttrs (h : m.Sound outer bs) {as : List Attr}
    (has : (as.flatMap fun a => a.name.ns.toList) ⊆ bs) :
    Keeps outer bs (m.fixAttrs outer as).2 fun cs =>
      ((m.fixAttrs outer as).1.flatMap fun a => a.name.ns.toList) ⊆ cs ∧
        (m.fixAttrs outer as).1.map Attr.bare = as.map Attr.bare := by
  induction as generalizing m bs with
  | nil => exact ⟨bs, List.Subset.refl bs, h, has, rfl⟩
  | cons a as ih =>
    rw [List.flatMap_cons, List.append_subset] at has
    obtain ⟨cs, hcs, hsound, hname, hbare⟩ := h.fixName true has.1
    obtain ⟨ds, hds, hsound', hnames, hbares⟩ := ih hsound (List.Subset.trans has.2 hcs)
    refine ⟨ds, List.Subset.trans hcs hds, hsound', ?_, ?_⟩
    · simp only [Move.fixAttrs, List.flatMap_cons]
      exact List.append_subset.mpr ⟨List.Subset.trans hname hds, hnames⟩
    · simp only [Move.fixAttrs, List.map_cons, Attr.bare, hbare]
      exact congrArg _ hbares

/-- Declarations that are taken out of a tag leave it with fewer. -/
theorem Sound.strip (h : m.Sound outer bs) {path : List Tag} {ds : List Binding}
    (hpath : path.flatMap Tag.seen ⊆ bs) (hds : ds ⊆ bs) :
    (m.strip path ds).1 ⊆ ds ∧ Sound outer bs (m.strip path ds).2 := by
  induction ds generalizing m with
  | nil => exact ⟨List.Subset.refl [], h⟩
  | cons b ds ih =>
    obtain ⟨hb, hds⟩ := List.cons_subset.mp hds
    rw [Move.strip]
    split
    · rename_i c hc
      obtain ⟨hmem, huri⟩ := mem_of_inScope? hc
      obtain ⟨hsub, hsound⟩ := ih (h.know hb (hpath hmem) huri.symm) hds
      exact ⟨List.Subset.trans hsub (List.subset_cons_self b ds), hsound⟩
    · obtain ⟨hsub, hsound⟩ := ih (h.know hb hb rfl) hds
      exact ⟨List.cons_subset_cons b hsub, hsound⟩

/-! ### The tag of the moved node -/

/-- Whether the moved node has kept its name and its attributes. -/
def SameHead (m m' : Move) : Prop :=
  m'.start.name = m.start.name ∧ m'.start.attrs = m.start.attrs

theorem SameHead.refl (m : Move) : SameHead m m := ⟨rfl, rfl⟩

theorem SameHead.trans {m m' m'' : Move} (h : SameHead m m') (h' : SameHead m' m'') :
    SameHead m m'' :=
  ⟨h'.1.trans h.1, h'.2.trans h.2⟩

theorem sameHead_strip (path : List Tag) : ∀ (ds : List Binding) (m : Move),
    SameHead m (m.strip path ds).2
  | [], m => .refl m
  | b :: ds, m => by
    rw [Move.strip]
    split
    · exact sameHead_strip path ds { m with known := m.known ++ [(b.id, _)] }
    · exact sameHead_strip path ds { m with known := m.known ++ [(b.id, b)] }

theorem sameHead_fix (isAttr : Bool) (b : Binding) (m : Move) :
    SameHead m (m.fix outer isAttr b).2 := by
  unfold Move.fix
  split
  · exact .refl m
  · split
    · exact .refl m
    · cases m.find? outer isAttr b.uri with
      | some c => exact .refl m
      | none => exact ⟨rfl, rfl⟩

theorem sameHead_fixName (isAttr : Bool) (n : Name) (m : Move) :
    SameHead m (m.fixName outer isAttr n).2 := by
  obtain ⟨ns, loc⟩ := n
  cases ns with
  | none => exact .refl m
  | some b => exact sameHead_fix isAttr b m

theorem sameHead_fixAttrs : ∀ (as : List Attr) (m : Move), SameHead m (m.fixAttrs outer as).2
  | [], m => .refl m
  | a :: as, m => (sameHead_fixName true a.name m).trans (sameHead_fixAttrs as _)

end Move

/-! ### Moving nodes -/

theorem Tag.mentioned_subset_iff {t : Tag} {bs : List Binding} :
    t.mentioned ⊆ bs ↔ t.seen ⊆ bs ∧ (t.attrs.flatMap fun a => a.name.ns.toList) ⊆ bs :=
  List.append_subset

theorem Tag.bare_eq {t u : Tag} (hname : t.name.bare = u.name.bare)
    (hattrs : t.attrs.map Attr.bare = u.attrs.map Attr.bare) : t.bare = u.bare := by
  rw [Tag.bare, Tag.bare, hname, hattrs]

section Adapt

variable {outer : List Tag}

mutual
theorem sameHead_adaptInner : ∀ (inner : List Tag) (n : Node) (m : Move),
    m.SameHead (n.adaptInner outer inner m).2
  | inner, .element t ns, m => by
    simp only [Node.adaptInner]
    exact (((Move.sameHead_strip _ t.bindings m).trans (Move.sameHead_fixName false t.name _)).trans
      (Move.sameHead_fixAttrs t.attrs _)).trans (sameHead_adaptAllInner _ ns _)
  | _, .text _, m => .refl m
  | _, .comment _, m => .refl m
  | _, .instruction _ _, m => .refl m
  | _, .reference _, m => .refl m
theorem sameHead_adaptAllInner : ∀ (inner : List Tag) (ns : List Node) (m : Move),
    m.SameHead (adaptAllInner outer inner ns m).2
  | _, [], m => .refl m
  | inner, n :: ns, m => by
    simp only [adaptAllInner]
    exact (sameHead_adaptInner inner n m).trans (sameHead_adaptAllInner inner ns _)
end

mutual
/-- A node inside a moved one keeps its names. -/
theorem bare_adaptInner : ∀ {n : Node} {inner : List Tag} {bs : List Binding} {m : Move},
    m.Sound outer bs → inner.flatMap Tag.seen ⊆ bs → n.mentioned ⊆ bs →
    Move.Keeps outer bs (n.adaptInner outer inner m).2 fun cs =>
      (n.adaptInner outer inner m).1.mentioned ⊆ cs ∧
        (n.adaptInner outer inner m).1.bare = n.bare
  | .element t ns, inner, bs, m, h, hinner, hn => by
    obtain ⟨htag, hns⟩ := List.append_subset.mp hn
    obtain ⟨hseen, hattrs⟩ := Tag.mentioned_subset_iff.mp htag
    obtain ⟨hbindings, hname⟩ := List.append_subset.mp hseen
    have hpath : (inner ++ m.start :: outer).flatMap Tag.seen ⊆ bs := by
      rw [List.flatMap_append, List.flatMap_cons]
      exact List.append_subset.mpr ⟨hinner, List.append_subset.mpr ⟨h.start, h.outer⟩⟩
    obtain ⟨hkept, hsound⟩ := h.strip hpath hbindings
    obtain ⟨cs, hcs, hsound, hname', hbare⟩ := hsound.fixName false hname
    obtain ⟨ds, hds, hsound, hattrs', hbares⟩ := hsound.fixAttrs (List.Subset.trans hattrs hcs)
    have hbs := List.Subset.trans hcs hds
    have hseen' := List.append_subset.mpr
      ⟨List.Subset.trans hkept (List.Subset.trans hbindings hbs), List.Subset.trans hname' hds⟩
    have hinner' := List.append_subset.mpr ⟨hseen', List.Subset.trans hinner hbs⟩
    obtain ⟨es, hes, hsound, hns', hbareAll⟩ :=
      @bare_adaptAllInner ns (⟨_, _, _⟩ :: inner) ds _ hsound hinner' (List.Subset.trans hns hbs)
    simp only [Node.adaptInner]
    refine ⟨es, List.Subset.trans hbs hes, hsound, ?_, ?_⟩
    · have htag' := List.Subset.trans hseen' hes
      refine List.append_subset.mpr ⟨Tag.mentioned_subset_iff.mpr ⟨htag', ?_⟩, hns'⟩
      exact List.Subset.trans hattrs' hes
    · simp only [Node.bare]
      rw [hbareAll, Tag.bare_eq (u := t) hbare hbares]
  | .text _, _, bs, _, h, _, hn => ⟨bs, List.Subset.refl bs, h, hn, rfl⟩
  | .comment _, _, bs, _, h, _, hn => ⟨bs, List.Subset.refl bs, h, hn, rfl⟩
  | .instruction _ _, _, bs, _, h, _, hn => ⟨bs, List.Subset.refl bs, h, hn, rfl⟩
  | .reference _, _, bs, _, h, _, hn => ⟨bs, List.Subset.refl bs, h, hn, rfl⟩
/-- Nodes inside a moved one keep their names. -/
theorem bare_adaptAllInner : ∀ {ns : List Node} {inner : List Tag} {bs : List Binding} {m : Move},
    m.Sound outer bs → inner.flatMap Tag.seen ⊆ bs → mentionedAll ns ⊆ bs →
    Move.Keeps outer bs (adaptAllInner outer inner ns m).2 fun cs =>
      mentionedAll (adaptAllInner outer inner ns m).1 ⊆ cs ∧
        bareAll (adaptAllInner outer inner ns m).1 = bareAll ns
  | [], _, bs, _, h, _, hns => ⟨bs, List.Subset.refl bs, h, hns, rfl⟩
  | n :: ns, inner, bs, m, h, hinner, hns => by
    obtain ⟨hn, hns⟩ := List.append_subset.mp hns
    obtain ⟨cs, hcs, hsound, hn', hbare⟩ := bare_adaptInner h hinner hn
    obtain ⟨ds, hds, hsound, hns', hbares⟩ :=
      bare_adaptAllInner hsound (List.Subset.trans hinner hcs) (List.Subset.trans hns hcs)
    simp only [adaptAllInner]
    have hboth := List.append_subset.mpr ⟨List.Subset.trans hn' hds, hns'⟩
    refine ⟨ds, List.Subset.trans hcs hds, hsound, hboth, ?_⟩
    rw [bareAll, hbare, hbares, bareAll]
end

/-- The move of an element once its own declarations have been looked through. -/
def Move.begin (outer : List Tag) (t : Tag) (s : Supply) : Move :=
  let p := Move.strip outer t.bindings ⟨[], t, s⟩
  { p.2 with start := { t with bindings := p.1 } }

/-- The move of an element once its tag has been adapted. -/
def Move.headed (outer : List Tag) (t : Tag) (s : Supply) : Move :=
  let p := (Move.begin outer t s).fixName outer false t.name
  let q := p.2.fixAttrs outer t.attrs
  { q.2 with start := ⟨p.1, q.2.start.bindings, q.1⟩ }

theorem adapt_element (t : Tag) (ns : List Node) (s : Supply) :
    (Node.element t ns).adapt outer s =
      (.element (adaptAllInner outer [] ns (.headed outer t s)).2.start
        (adaptAllInner outer [] ns (.headed outer t s)).1,
        (adaptAllInner outer [] ns (.headed outer t s)).2.supply) :=
  rfl

section Element

variable {bs : List Binding} {s : Supply} {t : Tag} (hbs : Register bs s.id)
  (houter : outer.flatMap Tag.seen ⊆ bs) (ht : t.mentioned ⊆ bs)

include hbs houter ht

theorem Move.sound_begin : (Move.begin outer t s).Sound outer bs := by
  obtain ⟨hseen, -⟩ := Tag.mentioned_subset_iff.mp ht
  obtain ⟨hbindings, hname⟩ := List.append_subset.mp hseen
  have hsound : Move.Sound outer bs ⟨[], t, s⟩ :=
    ⟨hbs, houter, hseen, fun p hp => absurd hp List.not_mem_nil⟩
  obtain ⟨hkept, hsound⟩ := hsound.strip houter hbindings
  have hstart := List.append_subset.mpr ⟨List.Subset.trans hkept hbindings, hname⟩
  exact ⟨hsound.register, hsound.outer, hstart, hsound.known⟩

/-- An adapted tag has the same names. -/
theorem Move.sound_headed :
    Keeps outer bs (.headed outer t s) fun cs =>
      (Move.headed outer t s).start.mentioned ⊆ cs ∧
        (Move.headed outer t s).start.bare = t.bare := by
  obtain ⟨hseen, hattrs⟩ := Tag.mentioned_subset_iff.mp ht
  obtain ⟨-, hname⟩ := List.append_subset.mp hseen
  obtain ⟨cs, hcs, hsound, hname', hbare⟩ := (sound_begin hbs houter ht).fixName false hname
  obtain ⟨ds, hds, hsound, hattrs', hbares⟩ := hsound.fixAttrs (List.Subset.trans hattrs hcs)
  have hstart := List.append_subset.mpr
    ⟨(List.append_subset.mp hsound.start).1, List.Subset.trans hname' hds⟩
  refine ⟨ds, List.Subset.trans hcs hds,
    ⟨hsound.register, hsound.outer, hstart, hsound.known⟩, ?_, ?_⟩
  · exact Tag.mentioned_subset_iff.mpr ⟨hstart, hattrs'⟩
  · exact Tag.bare_eq hbare hbares

end Element

/-- **A moved node keeps its names**, and what it mentions joins the register. -/
theorem bare_adapt {n : Node} {bs : List Binding} {s : Supply} (hbs : Register bs s.id)
    (houter : outer.flatMap Tag.seen ⊆ bs) (hn : n.mentioned ⊆ bs) :
    ∃ cs, bs ⊆ cs ∧ Register cs (n.adapt outer s).2.id ∧ (n.adapt outer s).1.mentioned ⊆ cs ∧
      (n.adapt outer s).1.bare = n.bare := by
  cases n with
  | element t ns =>
    obtain ⟨htag, hns⟩ := List.append_subset.mp hn
    obtain ⟨cs, hcs, hsound, hhead, hbare⟩ := Move.sound_headed hbs houter htag
    have hinner : ([] : List Tag).flatMap Tag.seen ⊆ cs := List.nil_subset _
    obtain ⟨ds, hds, hsound', hns', hbareAll⟩ :=
      bare_adaptAllInner hsound hinner (List.Subset.trans hns hcs)
    obtain ⟨hname, hattrs⟩ := @sameHead_adaptAllInner outer [] ns (.headed outer t s)
    rw [adapt_element]
    refine ⟨ds, List.Subset.trans hcs hds, hsound'.register, ?_, ?_⟩
    · refine List.append_subset.mpr ⟨Tag.mentioned_subset_iff.mpr ⟨hsound'.start, ?_⟩, hns'⟩
      rw [hattrs]
      exact List.Subset.trans (Tag.mentioned_subset_iff.mp hhead).2 hds
    · simp only [Node.bare]
      rw [hbareAll, Tag.bare, hname, hattrs, ← hbare]
      rfl
  | _ => exact ⟨bs, List.Subset.refl bs, hbs, hn, rfl⟩

/-- Nodes that are moved one after another keep their names. -/
theorem bare_adaptEach {ns : List Node} {bs : List Binding} {s : Supply}
    (hbs : Register bs s.id) (houter : outer.flatMap Tag.seen ⊆ bs) (hns : mentionedAll ns ⊆ bs) :
    ∃ cs, bs ⊆ cs ∧ Register cs (adaptEach outer s ns).2.id ∧
      mentionedAll (adaptEach outer s ns).1 ⊆ cs ∧
      bareAll (adaptEach outer s ns).1 = bareAll ns := by
  induction ns generalizing bs s with
  | nil => exact ⟨bs, List.Subset.refl bs, hbs, hns, rfl⟩
  | cons n ns ih =>
    obtain ⟨hn, hns⟩ := List.append_subset.mp hns
    obtain ⟨cs, hcs, hregister, hn', hbare⟩ := bare_adapt hbs houter hn
    obtain ⟨ds, hds, hregister, hns', hbares⟩ :=
      ih hregister (List.Subset.trans houter hcs) (List.Subset.trans hns hcs)
    simp only [adaptEach]
    have hboth := List.append_subset.mpr ⟨List.Subset.trans hn' hds, hns'⟩
    refine ⟨ds, List.Subset.trans hcs hds, hregister, hboth, ?_⟩
    rw [bareAll, hbare, hbares, bareAll]

end Adapt

/-! ### Free numbers -/

theorem lt_foldl_max {bs : List Binding} {k : Nat} : k ≤ bs.foldl (fun n b => max n (b.id + 1)) k ∧
    ∀ b ∈ bs, b.id < bs.foldl (fun n b => max n (b.id + 1)) k := by
  induction bs generalizing k with
  | nil => exact ⟨Nat.le_refl k, fun b hb => absurd hb List.not_mem_nil⟩
  | cons c bs ih =>
    obtain ⟨hle, hlt⟩ := ih (k := max k (c.id + 1))
    rw [List.foldl_cons]
    refine ⟨(Nat.le_max_left _ _).trans hle, fun b hb => ?_⟩
    rcases List.mem_cons.mp hb with rfl | hb
    · exact Nat.lt_of_lt_of_le (Nat.lt_succ_self _) ((Nat.le_max_right _ _).trans hle)
    · exact hlt b hb

theorem Tag.id_lt_freeId {t : Tag} {b : Binding} (hb : b ∈ t.mentioned) : b.id < t.freeId :=
  lt_foldl_max.2 b hb

mutual
theorem Node.id_lt_freeId : ∀ {n : Node} {b : Binding}, b ∈ n.mentioned → b.id < n.freeId
  | .element t ns, b, hb => by
    rcases List.mem_append.mp hb with hb | hb
    · exact Nat.lt_of_lt_of_le (Tag.id_lt_freeId hb) (Nat.le_max_left _ _)
    · exact Nat.lt_of_lt_of_le (id_lt_freeIdAll hb) (Nat.le_max_right _ _)
theorem id_lt_freeIdAll : ∀ {ns : List Node} {b : Binding}, b ∈ mentionedAll ns →
    b.id < freeIdAll ns
  | n :: ns, b, hb => by
    rcases List.mem_append.mp hb with hb | hb
    · exact Nat.lt_of_lt_of_le (Node.id_lt_freeId hb) (Nat.le_max_left _ _)
    · exact Nat.lt_of_lt_of_le (id_lt_freeIdAll hb) (Nat.le_max_right _ _)
end

/-- Whether the declarations in an element are told apart by their numbers. -/
def Element.IsNumbered (e : Element) : Prop :=
  ∀ b ∈ e.node.mentioned, ∀ c ∈ e.node.mentioned, b.id = c.id → b = c

/-- The declarations of an element are a register below the numbers that are free. -/
theorem Element.IsNumbered.register {e : Element} (h : e.IsNumbered) :
    Register e.node.mentioned e.supply.id :=
  ⟨h, fun _ hb => Nat.lt_of_lt_of_le (Node.id_lt_freeId hb) (Nat.le_max_right _ _)⟩

end Xml
end Formulary
