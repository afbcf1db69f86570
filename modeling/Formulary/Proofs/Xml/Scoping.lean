/-
# Names of a document that is read

In a document that is read each name uses a declaration of an element around it, or of its own,
or the prefix `xml`; and each declaration has a number of its own. Both are kept while tags are
read, since a declaration takes the next number, and while elements are closed, since an
element goes where its declarations were in scope. So the declarations of a document are told
apart by their numbers (`isNumbered_of_parse?`).

Key definitions: `Xml.Stack.Grows`, `Xml.Stack.Scoped`, `Xml.Element.IsScoped`.
Key theorems: `Xml.Definitions.allots_tag`, `Xml.allots_readTokens`, `Xml.allots_readEntity`,
`Xml.isScoped_of_parse?`, `Xml.isNumbered_of_parse?`.
-/
import Formulary.Proofs.Xml.Grounded

namespace Formulary
namespace Xml

/-! ### Attributes and tags -/

theorem mem_find? {scope : Scope} {pre : Text} {b : Binding} (h : scope.find? pre = some b) :
    b = .xml ∨ b ∈ scope := by
  unfold Scope.find? at h
  split at h
  · exact .inl (Option.some.inj h).symm
  · exact .inr (List.mem_of_find?_eq_some h)

theorem quiet_name (scope : Scope) (q : Qualified) :
    (scope.name q).Quiet fun n => n.Uses scope := by
  unfold Scope.name
  split
  · rename_i b hb
    refine Reading.quiet_pure fun c hc => ?_
    obtain rfl := Option.some.inj hc
    exact mem_find? hb
  · refine (Reading.quiet_report _).bind fun _ _ => Reading.quiet_pure fun c hc => ?_
    exact absurd hc (by simp)

theorem quiet_elementName (scope : Scope) (q : Qualified) :
    (scope.elementName q).Quiet fun n => n.Uses scope := by
  unfold Scope.elementName
  split
  · refine Reading.quiet_pure fun c hc => ?_
    exact mem_find? (Option.filter_eq_some_iff.mp hc).1
  · exact quiet_name scope q

theorem quiet_attributeName (scope : Scope) (q : Qualified) :
    (scope.attributeName q).Quiet fun n => n.Uses scope := by
  unfold Scope.attributeName
  split
  · exact Reading.quiet_pure fun c hc => absurd hc (by simp)
  · exact quiet_name scope q

theorem quiet_qualify (s : Text) : (qualify s).Quiet fun _ => True := by
  unfold qualify
  split
  · exact Reading.quiet_pure trivial
  · exact (Reading.quiet_report _).bind fun _ _ => Reading.quiet_pure trivial

theorem quiet_checkUri (pre uri : Text) : (checkUri pre uri).Quiet fun _ => True := by
  unfold checkUri
  split
  · exact Reading.quiet_pure trivial
  · split
    · exact Reading.quiet_reportIf _ _
    · exact Reading.quiet_report _

/-- A declaration that is taken in has a number of its own. -/
theorem allots_declarePrefix {lo : Nat} (bs : List Binding) (pre uri : Text) :
    (declarePrefix bs pre uri).Allots (fun n => Ids lo n bs) fun n cs => Ids lo n cs := by
  unfold declarePrefix
  split
  · refine (quiet_checkUri pre uri).bind_allots fun _ _ => ?_
    refine (Reading.quiet_guard _).bind_allots fun _ _ => ?_
    exact Reading.allots_declare.bind fun b => Reading.allots_pure fun _ h => h
  · exact (Reading.quiet_reportIf _ _).bind_allots fun _ _ => Reading.allots_pure fun _ h => h

namespace Definitions

variable {d : Definitions}

theorem quiet_undeclared : d.undeclared.Quiet fun _ => True := by
  unfold undeclared
  split
  · exact Reading.quiet_failure
  · split
    · exact Reading.quiet_report _
    · exact Reading.quiet_report _

theorem quiet_expandWith {inner : Text → Reading Text} (h : ∀ t, (inner t).Quiet fun _ => True)
    (ps : List Part) : (d.expandWith inner ps).Quiet fun _ => True := by
  unfold expandWith
  refine (Reading.quiet_mapM (fun p => ?_) ps).bind fun _ _ => Reading.quiet_pure trivial
  cases p with
  | code c => exact Reading.quiet_pure trivial
  | literal c =>
    dsimp only
    split
    · exact Reading.quiet_failure
    · exact Reading.quiet_pure trivial
  | entity name =>
    dsimp only
    split
    · exact quiet_undeclared.bind fun _ _ => Reading.quiet_pure trivial
    · exact h _
    · exact Reading.quiet_failure

theorem quiet_expand (depth : Nat) (ps : List Part) :
    (d.expand depth ps).Quiet fun _ => True := by
  induction depth generalizing ps with
  | zero => exact quiet_expandWith (fun _ => Reading.quiet_failure) ps
  | succ depth ih =>
    refine quiet_expandWith (fun t => (Reading.quiet_spend t).bind fun _ _ => ?_) ps
    have hparts : Reading.Quiet (fun _ => True) (StateT.lift (parts? t)) :=
      Reading.quiet_lift fun _ _ => trivial
    exact hparts.bind fun ps _ => ih ps

theorem quiet_value (depth : Nat) (type : AttributeType) (raw : Text) :
    (d.value depth type raw).Quiet fun _ => True := by
  have hparts : Reading.Quiet (fun _ => True) (StateT.lift (parts? (normalizeLines raw))) :=
    Reading.quiet_lift fun _ _ => trivial
  exact hparts.bind fun ps _ => (quiet_expand depth ps).bind fun _ _ => Reading.quiet_pure trivial

theorem allots_readAttribute {lo : Nat} (depth : Nat) (element : Text) (as : Attributes)
    (a : RawAttr) :
    (d.readAttribute depth element as a).Allots (fun n => Ids lo n as.bindings)
      fun n bs => Ids lo n bs.bindings := by
  unfold readAttribute
  refine (quiet_qualify _).bind_allots fun q _ => (quiet_value _ _ _).bind_allots fun v _ => ?_
  split
  · exact (allots_declarePrefix _ _ _).bind fun bs => Reading.allots_pure fun _ h => h
  · exact (Reading.quiet_reportIf _ _).bind_allots fun _ _ => Reading.allots_pure fun _ h => h

theorem allots_addFallbacks {lo : Nat} (element : Text) (bs : List Binding) :
    (d.addFallbacks element bs).Allots (fun n => Ids lo n bs) fun n cs => Ids lo n cs := by
  refine Reading.allots_foldlM (J := fun n cs => Ids lo n cs) (fun bs r => ?_) bs _
  dsimp only
  split
  · exact Reading.allots_pure fun _ h => h
  · exact Reading.allots_declare.bind fun b => Reading.allots_pure fun _ h => h

theorem quiet_nameAttributes (scope : Scope) (as : List (RawAttr × Qualified)) :
    (nameAttributes scope as).Quiet fun bs => ∀ b ∈ bs, b.name.Uses scope := by
  refine (Reading.quiet_guard _).bind fun _ _ => Reading.quiet_foldlM (fun done hdone a => ?_)
    (by simp) as
  refine (quiet_attributeName scope a.2).bind fun n hn => ?_
  refine (Reading.quiet_reportIf _ _).bind fun _ _ => Reading.quiet_pure ?_
  exact List.forall_mem_append.mpr ⟨hdone, List.forall_mem_singleton.mpr hn⟩

theorem quiet_nameElement (element : Text) (a : RawAttr) :
    (d.nameElement element a).Quiet fun _ => True := by
  unfold nameElement
  refine (Reading.quiet_reportIf _ _).bind fun _ _ => ?_
  split
  · refine Reading.quiet_get fun p b q h => ?_
    split at h
    · exact Reading.quiet_report _ _ _ _ h
    · obtain ⟨-, rfl⟩ := Prod.mk.inj (Option.some.inj h)
      exact ⟨rfl, trivial⟩
  · exact Reading.quiet_pure trivial

/-- **A tag that is read uses its own declarations and those in scope**, and the numbers of its
own follow on those before. -/
theorem allots_tag (n₀ depth : Nat) (isOutside : Bool) (scope : Scope) (name : Text)
    (raw : List RawAttr) :
    (d.tag depth isOutside scope name raw).Allots (· = n₀)
      fun n t => Ids n₀ n t.bindings ∧ t.Grounded scope := by
  unfold tag
  refine (quiet_qualify _).bind_allots fun q _ => ?_
  have hraw := Reading.allots_foldlM (J := fun n (as : Attributes) => Ids n₀ n as.bindings)
    (allots_readAttribute (d := d) depth name) ⟨[], []⟩ raw
  refine Reading.Allots.bind (J := fun n as => Ids n₀ n as.bindings) ?_ fun as => ?_
  · exact fun p as r hp h => hraw p as r (hp ▸ Ids.nil n₀) h
  refine (allots_addFallbacks name as.bindings).bind fun bs => ?_
  refine (quiet_nameAttributes (bs ++ scope) as.others).bind_allots fun attrs hattrs => ?_
  refine (quiet_elementName (bs ++ scope) q).bind_allots fun n hn => ?_
  have hdone : Reading.Allots (fun n => Ids n₀ n bs) (pure ⟨n, bs, attrs⟩ : Reading Tag)
      fun n t => Ids n₀ n t.bindings ∧ t.Grounded scope :=
    Reading.allots_pure fun _ h => ⟨h, hn, hattrs⟩
  split
  · have hnames := Reading.quiet_forM (fun a : RawAttr × Qualified =>
      quiet_nameElement (d := d) name a.1) as.others
    exact hnames.bind_allots fun _ _ => hdone
  · exact hdone

end Definitions

/-! ### Open elements -/

/-- Whether names in open elements use declarations around them. Each element has the scope
that those outside it make. -/
def FramesGrounded : List Frame → Prop
  | [] => True
  | f :: up =>
    f.scope = innerScope up ∧ f.tag.Grounded f.scope ∧
      AllGrounded (f.tag.bindings ++ f.scope) f.nodes ∧ FramesGrounded up

/-- Whether names in what has been finished use declarations around them. -/
def Base.Grounded : Base → Prop
  | .document root => ∀ e ∈ root, e.node.Grounded []
  | .entity ns => AllGrounded [] ns

namespace Stack

/-- Whether all names that have been read use declarations around them. -/
def Grounded (k : Stack) : Prop := k.base.Grounded ∧ FramesGrounded k.frames

/-- What a step of reading does with the open elements: all names still use declarations around
them, and there are more tags. -/
structure Grows (k : Stack) (ts : List Tag) (k' : Stack) : Prop where
  grounded : k'.Grounded
  tags : k'.tags.Perm (ts ++ k.tags)

/-- Whether names use declarations around them, and declarations have numbers of their own. -/
structure Scoped (lo hi : Nat) (k : Stack) : Prop where
  grounded : k.Grounded
  ids : Ids lo hi (k.tags.flatMap Tag.bindings)

variable {k k' : Stack} {ts : List Tag}

theorem Scoped.grow {lo mid hi : Nat} (h : k.Scoped lo mid)
    (hts : Ids mid hi (ts.flatMap Tag.bindings)) (hk : k.Grows ts k') : k'.Scoped lo hi := by
  have hperm := hk.tags.flatMap_right Tag.bindings
  rw [List.flatMap_append] at hperm
  exact ⟨hk.grounded, (hts.append h.ids).perm hperm.symm⟩

theorem Scoped.step {lo hi : Nat} (h : k.Scoped lo hi) (hk : k.Grows [] k') : k'.Scoped lo hi :=
  have hnone : Ids hi hi (List.flatMap Tag.bindings []) := .nil hi
  h.grow hnone hk

theorem Grounded.change {f : List Node → List Node} (hk : k.Grounded)
    (hf : ∀ ns, AllGrounded k.scope ns → AllGrounded k.scope (f ns)) (h : k.change f = some k') :
    k'.Grounded := by
  obtain ⟨b, g, up, rfl, rfl⟩ | ⟨ns, rfl, rfl⟩ := change_cases h
  · obtain ⟨hb, hscope, htag, hnodes, hup⟩ := hk
    exact ⟨hb, hscope, htag, hf _ hnodes, hup⟩
  · exact ⟨hf _ hk.1, hk.2⟩

theorem Grows.refl (hk : k.Grounded) : k.Grows [] k := ⟨hk, .refl _⟩

theorem Grows.trans {k'' : Stack} {ts' : List Tag} (h : k.Grows ts k') (h' : k'.Grows ts' k'') :
    k.Grows (ts ++ ts') k'' := by
  refine ⟨h'.grounded, h'.tags.trans ((h.tags.append_left ts').trans ?_)⟩
  rw [List.append_assoc]
  exact List.perm_append_comm_assoc _ _ _

theorem Grows.addText {s : Text} (hk : k.Grounded) (h : k.addText s = some k') :
    k.Grows [] k' := by
  refine ⟨hk.change (fun ns hns => ?_) h, tags_addText h⟩
  unfold joinText
  split
  · exact ⟨trivial, hns.2⟩
  · exact ⟨trivial, hns⟩

theorem Grows.addNode {n : Node} (hk : k.Grounded) (hn : n.Grounded k.scope)
    (h : k.addNode n = some k') : k.Grows n.tags k' :=
  ⟨hk.change (f := fun ns => n :: ns) (fun _ hns => ⟨hn, hns⟩) h, tags_addNode h⟩

theorem Grows.addAside {n : Node} (hk : k.Grounded) (hn : ∀ scope, n.Grounded scope)
    (hts : n.tags = []) : k.Grows [] (k.addAside n) := by
  refine ⟨?_, tags_addAside hts⟩
  unfold Stack.addAside
  cases h : k.addNode n with
  | none => exact hk
  | some k' => exact (Grows.addNode hk (hn _) h).grounded

theorem Grows.addNodes {ns : List Node} (hk : k.Grounded) (hns : AllGrounded k.scope ns)
    (h : k.addNodes ns = some k') : k.Grows (tagsAll ns) k' := by
  induction ns generalizing k with
  | nil =>
    obtain rfl := Option.some.inj h
    exact .refl hk
  | cons n ns ih =>
    obtain ⟨hn, hns⟩ := hns
    cases n with
    | text s =>
      obtain ⟨k₁, hk₁, h⟩ := Option.bind_eq_some_iff.mp h
      have hgrows := Grows.addText hk hk₁
      exact hgrows.trans (ih hgrows.grounded (scope_change hk₁ ▸ hns) h)
    | _ =>
      obtain ⟨k₁, hk₁, h⟩ := Option.bind_eq_some_iff.mp h
      have hgrows := Grows.addNode hk hn hk₁
      exact hgrows.trans (ih hgrows.grounded (scope_change hk₁ ▸ hns) h)

theorem Grows.addElement {e : Element} (hk : k.Grounded) (he : e.node.Grounded k.scope)
    (h : k.addElement e = some k') : k.Grows e.node.tags k' := by
  refine ⟨?_, tags_addElement h⟩
  obtain ⟨rfl, rfl⟩ | h := addElement_cases h
  · refine ⟨fun e' he' => ?_, trivial⟩
    obtain rfl := Option.some.inj he'
    exact he
  · exact (Grows.addNode hk he h).grounded

theorem Grows.enter {t : Tag} {written : Text} {closed : Bool} (hk : k.Grounded)
    (ht : t.Grounded k.scope) (h : k.enter t written closed = some k') : k.Grows [t] k' := by
  refine ⟨?_, tags_enter h⟩
  unfold Stack.enter at h
  split at h
  · have hempty : (Element.node ⟨t, []⟩).Grounded k.scope := ⟨ht, trivial⟩
    exact (Grows.addElement hk hempty h).grounded
  · obtain rfl := Option.some.inj h
    exact ⟨hk.1, k.scope_eq, ht, trivial, hk.2⟩

theorem Grows.leave {written : Text} (hk : k.Grounded) (h : k.leave written = some k') :
    k.Grows [] k' := by
  refine ⟨?_, tags_leave h⟩
  obtain ⟨b, f, up, rfl, hclosed⟩ := leave_cases h
  obtain ⟨hb, hscope, htag, hnodes, hup⟩ := hk
  have hnode : (Element.node ⟨f.tag, f.nodes.reverse⟩).Grounded (Stack.scope ⟨b, up⟩) := by
    rw [Stack.scope_eq, ← hscope]
    exact ⟨htag, allGrounded_iff.mpr fun n hn =>
      allGrounded_iff.mp hnodes n (List.mem_reverse.mp hn)⟩
  exact (Grows.addElement (k := ⟨b, up⟩) ⟨hb, hup⟩ hnode hclosed).grounded

theorem Grows.addRaw {d : Definitions} {st : Setting} {raw rest : Text}
    (hd : d.manner = .faithful) (hk : k.Grounded) (h : k.addRaw d st raw rest = some k') :
    k.Grows [] k' := by
  obtain rfl | h := addRaw_cases hd h
  · exact .refl hk
  · exact .addText hk h

end Stack

/-! ### Reading -/

/-- What reading the text of an entity gives: nodes whose names use declarations in them, with
the next numbers. -/
def EntityScoped (n₀ n : Nat) (ns : List Node) : Prop :=
  AllGrounded [] ns ∧ Ids n₀ n (declaredAll ns)

section Reading

variable {d : Definitions} {readText : Nat → Text → Text → Reading (List Node)} {st : Setting}
  {lo : Nat} (hd : d.manner = .faithful)
  (hread : ∀ n₀ around name t,
    (readText around name t).Allots (· = n₀) fun n ns => EntityScoped n₀ n ns)

include hd hread

theorem allots_readReference (name : Text) (k : Stack) :
    (readReference d readText st name k).Allots (fun n => k.Scoped lo n)
      fun n k' => k'.Scoped lo n := by
  refine Reading.allots_from fun n₀ hk => ?_
  have hadd : ∀ ns, Reading.Allots (fun n => EntityScoped n₀ n ns)
      (StateT.lift (k.change id >>= Stack.addNodes ns)) fun n k' => k'.Scoped lo n :=
    fun ns => Reading.allots_lift fun n k' ⟨hns, hids⟩ h => by
      obtain ⟨k₁, hk₁, h⟩ := Option.bind_eq_some_iff.mp h
      have hsame : ∀ ns, (tagsAll (id ns)).Perm ([] ++ tagsAll ns) := fun _ => .refl _
      have hgrows : k.Grows [] k₁ :=
        ⟨hk.grounded.change (f := id) (fun _ h => h) hk₁, Stack.tags_change hsame hk₁⟩
      rw [declaredAll_eq_flatMap_tags] at hids
      have hns₁ := AllGrounded.mono (List.nil_subset k₁.scope) hns
      exact (hk.step hgrows).grow hids (.addNodes hgrows.grounded hns₁ h)
  have hempty : Reading.Allots (· = n₀) (pure []) (EntityScoped n₀) :=
    Reading.allots_pure fun n hn => hn ▸ ⟨trivial, .nil n⟩
  unfold readReference
  simp only [hd, if_true]
  cases d.entities.lookup name with
  | none => exact Definitions.quiet_undeclared.bind_allots fun _ _ => hempty.bind hadd
  | some v =>
    cases v with
    | internal t => exact (hread n₀ _ name t).bind hadd
    | _ => exact (Reading.allots_failure (J := EntityScoped n₀)).bind hadd

/-- Tokens are read onto a stack whose names use declarations around them, with numbers of
their own. -/
theorem allots_readTokens (ts : List Token) (k : Stack) :
    (readTokens d readText st ts k).Allots (fun n => k.Scoped lo n) fun n k' => k'.Scoped lo n := by
  induction ts generalizing k with
  | nil => exact Reading.allots_pure fun _ h => h
  | cons t ts ih =>
    have hstep : ∀ x : Option Stack, (∀ k', x = some k' → k.Grounded → k.Grows [] k') →
        Reading.Allots (fun n => k.Scoped lo n)
          (StateT.lift x >>= fun k' => readTokens d readText st ts k')
          fun n k' => k'.Scoped lo n := fun x hx =>
      (Reading.allots_lift fun n k' hk h => hk.step (hx k' h hk.grounded)).bind ih
    cases t with
    | text raw rest => exact hstep _ fun _ h hk => .addRaw hd hk h
    | char c => exact hstep _ fun _ h hk => .addText hk h
    | cdata s => exact hstep _ fun _ h hk => .addText hk h
    | comment s =>
      refine Reading.allots_from fun n₀ hk => ?_
      have hgrows := Stack.Grows.addAside (n := .comment s) hk.grounded (fun _ => trivial) rfl
      exact fun p a q hp h => ih _ p a q (hp ▸ hk.step hgrows) h
    | instruction target data =>
      refine Reading.allots_from fun n₀ hk => ?_
      have hgrows := Stack.Grows.addAside (n := .instruction target data) hk.grounded
        (fun _ => trivial) rfl
      have hcheck : (Definitions.checkTarget target).Quiet fun _ => True := by
        unfold Definitions.checkTarget
        split
        · exact Reading.quiet_pure trivial
        · exact (Reading.quiet_reportIf _ _).bind fun _ _ => Reading.quiet_reportIf _ _
      refine hcheck.bind_allots fun _ _ => ?_
      exact fun p a q hp h => ih _ p a q (hp ▸ hk.step hgrows) h
    | reference name => exact (allots_readReference hd hread name k).bind ih
    | opening name attrs closed =>
      refine (Reading.quiet_guard _).bind_allots fun _ _ => Reading.allots_from fun n₀ hk => ?_
      refine (Definitions.allots_tag n₀ _ _ k.scope name attrs).bind fun t => ?_
      refine (Reading.allots_lift fun n k' ⟨hids, ht⟩ h => ?_).bind ih
      refine hk.grow ?_ (.enter hk.grounded ht h)
      rwa [List.flatMap_singleton]
    | closing name => exact hstep _ fun _ h hk => .leave hk h

end Reading

/-- A step that is only noted once makes the declarations that it makes. -/
theorem Reading.Allots.onlyOnce {α : Type} {n₀ : Nat} {J : Nat → α → Prop} {name : Text}
    {x : Reading α} (hx : x.Allots (· = n₀) J) : (onlyOnce name x).Allots (· = n₀) J := by
  intro p a q hp h
  change (if _ then _ else _ : Reading α) p = some (a, q) at h
  split at h
  · obtain ⟨b, r, hb, h⟩ := bind_eq_some_iff.mp h
    obtain ⟨rfl, rfl⟩ := Prod.mk.inj (Option.some.inj h)
    exact hx p _ r hp hb
  · exact hx { p with opened := name :: p.opened } a q hp h

theorem allots_readEntity {d : Definitions} (hd : d.manner = .faithful) (n₀ depth around : Nat)
    (name t : Text) :
    (readEntity d depth around name t).Allots (· = n₀) fun n ns => EntityScoped n₀ n ns := by
  induction depth generalizing n₀ around name t with
  | zero => exact Reading.allots_failure
  | succ depth ih =>
    have hstart : ∀ n, Stack.Scoped n n ⟨.entity [], []⟩ := fun n => ⟨⟨trivial, trivial⟩, .nil n⟩
    refine (Reading.quiet_spend t).bind_allots fun _ _ => ?_
    have hlex : Reading.Quiet (fun _ => True) (StateT.lift (lex t)) :=
      Reading.quiet_lift fun _ _ => trivial
    refine hlex.bind_allots fun ts _ => ?_
    have hinner : (readTokens d (readEntity d depth) ⟨Text.byteLength t, depth, around⟩ ts
        ⟨.entity [], []⟩).Allots (· = n₀) fun n k => k.Scoped n₀ n := fun p k q hp h =>
      allots_readTokens hd ih ts ⟨.entity [], []⟩ p k q (hp ▸ hstart n₀) h
    refine hinner.onlyOnce.bind fun k => ?_
    split
    · refine Reading.allots_pure fun n hk => ⟨?_, ?_⟩
      · exact allGrounded_iff.mpr fun m hm =>
          allGrounded_iff.mp hk.grounded.1 m (List.mem_reverse.mp hm)
      · rw [declaredAll_eq_flatMap_tags]
        exact hk.ids.perm ((tagsAll_reverse_perm _).flatMap_right _).symm
    · exact Reading.allots_failure

/-! ### Documents -/

/-- What reading a document gives: an element whose names use declarations in it, with numbers
of their own. -/
structure Element.IsScoped (e : Element) : Prop where
  grounded : e.node.Grounded []
  nodup : (e.node.declared.map Binding.id).Nodup
  pos : ∀ b ∈ e.node.declared, 0 < b.id

theorem yields_readDocument_isScoped (bytes : Nat) (start : Prolog) (ts : List Token) :
    (readDocument .faithful bytes start ts).Yields Element.IsScoped := by
  have hread : ∀ d : Definitions, d.manner = .faithful → Reading.Yields
      (fun k => ∃ lo hi, Stack.Scoped lo hi k)
      (readTokens d (readEntity d Definitions.maxDepth) ⟨bytes, Definitions.maxDepth, 0⟩ ts
        ⟨.document none, []⟩) := fun d hd p k q h => by
    have hstart : Stack.Scoped p.bindings p.bindings ⟨.document none, []⟩ :=
      ⟨⟨by simp [Base.Grounded], trivial⟩, .nil _⟩
    exact ⟨_, _, (allots_readTokens hd (fun n₀ => allots_readEntity hd n₀ _) ts _ p k q hstart h).2⟩
  have hdone : ∀ e : Element, (∃ lo hi, Stack.Scoped lo hi ⟨.document (some e), []⟩) →
      e.IsScoped := fun e ⟨lo, hi, hk⟩ => by
    have hids : Ids lo hi e.node.declared := e.node.declared_eq_flatMap_tags ▸ hk.ids
    refine ⟨hk.grounded.1 _ rfl, hids.nodup, fun b hb => ?_⟩
    exact Nat.lt_of_le_of_lt (Nat.zero_le lo) (hids.range b hb).1
  refine Reading.yields_bind fun _ => ?_
  split
  · rename_i t _
    refine (Definitions.yields_declare rfl Definitions.maxDepth t.declarations).bind fun d hd => ?_
    refine (hread d hd).bind fun k hk => ?_
    split
    · exact Reading.yields_pure (hdone _ hk)
    · exact Reading.yields_failure
  · have hempty : Reading.Yields (fun d => d.manner = .faithful)
        (pure (Definitions.empty .faithful start.standalone)) := Reading.yields_pure rfl
    refine hempty.bind fun d hd => (hread d hd).bind fun k hk => ?_
    split
    · exact Reading.yields_pure (hdone _ hk)
    · exact Reading.yields_failure

/-- **In a document that is read, names use declarations around them**, and declarations have
numbers of their own. -/
theorem isScoped_of_parse? {s : Text} {e : Element} (h : parse? .faithful s = some e) :
    e.IsScoped := by
  obtain ⟨⟨start, body⟩, -, h⟩ := Option.bind_eq_some_iff.mp h
  obtain ⟨ts, -, h⟩ := Option.bind_eq_some_iff.mp h
  obtain ⟨⟨e', progress⟩, hread, h⟩ := Option.bind_eq_some_iff.mp h
  have heq : e' = e := by
    dsimp only at h
    split at h
    · exact Option.some.inj h
    · exact absurd h (by simp)
  exact heq ▸ yields_readDocument_isScoped _ start ts _ _ _ hread

/-- The declarations of a document that is read are told apart by their numbers. -/
theorem Element.IsScoped.isNumbered {e : Element} (h : e.IsScoped) : e.IsNumbered := by
  have hids : ∀ b ∈ e.node.mentioned, b = .xml ∨ b ∈ e.node.declared := fun b hb => by
    simpa using h.grounded.mentioned b hb
  intro b hb c hc hid
  rcases hids b hb with rfl | hb
  · rcases hids c hc with rfl | hc
    · rfl
    · exact absurd hid (Nat.ne_of_lt (h.pos c hc))
  · rcases hids c hc with rfl | hc
    · exact absurd hid.symm (Nat.ne_of_lt (h.pos b hb))
    · exact List.inj_on_of_nodup_map h.nodup hb hc hid

theorem isNumbered_of_parse? {s : Text} {e : Element} (h : parse? .faithful s = some e) :
    e.IsNumbered :=
  (isScoped_of_parse? h).isNumbered

end Xml
end Formulary
