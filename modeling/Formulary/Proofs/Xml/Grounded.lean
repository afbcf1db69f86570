/-
# Declarations around names, and their numbers

A name is grounded if its declaration is made around it, or on its own tag, or if it uses the
prefix `xml`. Each declaration of a document takes the next number. A step of reading makes no
declarations (`Reading.Quiet`), or makes some with numbers that follow on those before
(`Reading.Allots`).

Key definitions: `Xml.Node.Grounded`, `Xml.Node.declared`, `Xml.Ids`, `Xml.Reading.Quiet`,
`Xml.Reading.Allots`.
Key theorems: `Xml.AllGrounded.mentioned`, `Xml.Ids.append`, `Xml.Reading.allots_declare`.
-/
import Formulary.Proofs.Xml.Legal
import Formulary.Proofs.Xml.Moving
import Mathlib.Data.List.Nodup

namespace Formulary
namespace Xml

/-! ### Grounded names -/

/-- Whether a name uses one of the given declarations, or the prefix `xml`. -/
def Name.Uses (scope : List Binding) (n : Name) : Prop := ∀ b ∈ n.ns, b = .xml ∨ b ∈ scope

/-- Whether the names of a tag use declarations of the tag or of the scope. -/
def Tag.Grounded (scope : List Binding) (t : Tag) : Prop :=
  t.name.Uses (t.bindings ++ scope) ∧ ∀ a ∈ t.attrs, a.name.Uses (t.bindings ++ scope)

mutual
/-- Whether each name in a node uses a declaration of an element around it, or of the scope. -/
def Node.Grounded (scope : List Binding) : Node → Prop
  | .element t ns => t.Grounded scope ∧ AllGrounded (t.bindings ++ scope) ns
  | _ => True
/-- Whether each name in a list of nodes uses a declaration around it. -/
def AllGrounded (scope : List Binding) : List Node → Prop
  | [] => True
  | n :: ns => n.Grounded scope ∧ AllGrounded scope ns
end

theorem allGrounded_iff {scope : List Binding} {ns : List Node} :
    AllGrounded scope ns ↔ ∀ n ∈ ns, n.Grounded scope := by
  induction ns with
  | nil => simp [AllGrounded]
  | cons n ns ih => simp [AllGrounded, ih]

theorem Name.Uses.mono {scope scope' : List Binding} (h : scope ⊆ scope') {n : Name}
    (hn : n.Uses scope) : n.Uses scope' :=
  fun b hb => (hn b hb).imp_right (@h b)

theorem append_scope_subset {scope scope' : List Binding} (h : scope ⊆ scope')
    (bs : List Binding) : bs ++ scope ⊆ bs ++ scope' :=
  List.append_subset.mpr
    ⟨List.subset_append_left bs scope', List.Subset.trans h (List.subset_append_right bs scope')⟩

theorem Tag.Grounded.mono {scope scope' : List Binding} (h : scope ⊆ scope') {t : Tag}
    (ht : t.Grounded scope) : t.Grounded scope' :=
  have hsub := append_scope_subset h t.bindings
  ⟨ht.1.mono hsub, fun a ha => (ht.2 a ha).mono hsub⟩

mutual
theorem Node.Grounded.mono : ∀ {n : Node} {scope scope' : List Binding}, scope ⊆ scope' →
    n.Grounded scope → n.Grounded scope'
  | .element _ _, _, _, h, hn =>
    ⟨hn.1.mono h, AllGrounded.mono (append_scope_subset h _) hn.2⟩
  | .text _, _, _, _, _ => trivial
  | .comment _, _, _, _, _ => trivial
  | .instruction _ _, _, _, _, _ => trivial
  | .reference _, _, _, _, _ => trivial
theorem AllGrounded.mono : ∀ {ns : List Node} {scope scope' : List Binding}, scope ⊆ scope' →
    AllGrounded scope ns → AllGrounded scope' ns
  | [], _, _, _, _ => trivial
  | _ :: _, _, _, h, hns => ⟨Node.Grounded.mono h hns.1, AllGrounded.mono h hns.2⟩
end

/-! ### Numbers of declarations -/

mutual
/-- The declarations that are made in a node. -/
def Node.declared : Node → List Binding
  | .element t ns => t.bindings ++ declaredAll ns
  | _ => []
/-- The declarations that are made in a list of nodes. -/
def declaredAll : List Node → List Binding
  | [] => []
  | n :: ns => n.declared ++ declaredAll ns
end

theorem declaredAll_eq_flatMap (ns : List Node) : declaredAll ns = ns.flatMap Node.declared := by
  induction ns with
  | nil => rfl
  | cons n ns ih => rw [declaredAll, ih, List.flatMap_cons]

theorem Node.declared_subset_mentioned {n : Node} : n.declared ⊆ n.mentioned := by
  induction n using Node.ind with
  | leaf n hn =>
    cases n with
    | element t ns => exact absurd rfl (hn t ns)
    | _ => exact List.nil_subset _
  | element t ns ih =>
    have hns : declaredAll ns ⊆ mentionedAll ns := fun b hb => by
      rw [declaredAll_eq_flatMap, List.mem_flatMap] at hb
      obtain ⟨m, hm, hb⟩ := hb
      rw [mentionedAll_eq_flatMap]
      exact List.mem_flatMap.mpr ⟨m, hm, ih m hm hb⟩
    refine List.append_subset.mpr ⟨?_, List.subset_append_of_subset_right _ hns⟩
    exact List.subset_append_of_subset_left _
      (List.subset_append_of_subset_left _ (List.subset_append_left _ _))

mutual
/-- The declarations in a node are those of its tags. -/
theorem Node.declared_eq_flatMap_tags : ∀ n : Node, n.declared = n.tags.flatMap Tag.bindings
  | .element t ns => by
    rw [Node.declared, Node.tags, List.flatMap_cons, declaredAll_eq_flatMap_tags ns]
  | .text _ => rfl
  | .comment _ => rfl
  | .instruction _ _ => rfl
  | .reference _ => rfl
/-- The declarations in nodes are those of their tags. -/
theorem declaredAll_eq_flatMap_tags : ∀ ns : List Node,
    declaredAll ns = (tagsAll ns).flatMap Tag.bindings
  | [] => rfl
  | n :: ns => by
    rw [declaredAll, tagsAll, List.flatMap_append, n.declared_eq_flatMap_tags,
      declaredAll_eq_flatMap_tags ns]
end

mutual
/-- What is mentioned in a grounded node is declared in it or around it. -/
theorem Node.Grounded.mentioned : ∀ {n : Node} {scope : List Binding}, n.Grounded scope →
    ∀ b ∈ n.mentioned, b = .xml ∨ b ∈ n.declared ++ scope
  | .element t ns, scope, h, b, hb => by
    obtain ⟨⟨hname, hattrs⟩, hns⟩ := h
    have hin : ∀ {n : Name}, n.Uses (t.bindings ++ scope) → b ∈ n.ns.toList →
        b = .xml ∨ b ∈ t.bindings ++ declaredAll ns ++ scope := fun hn hb =>
      (hn b (Option.mem_toList.mp hb)).imp_right fun h => by
        simp only [List.mem_append] at h ⊢
        exact h.imp_left .inl
    rcases List.mem_append.mp hb with hb | hb
    · rcases List.mem_append.mp hb with hb | hb
      · rcases List.mem_append.mp hb with hb | hb
        · exact .inr (List.mem_append_left _ (List.mem_append_left _ hb))
        · exact hin hname hb
      · obtain ⟨a, ha, hb⟩ := List.mem_flatMap.mp hb
        exact hin (hattrs a ha) hb
    · refine (AllGrounded.mentioned hns b hb).imp_right fun h => ?_
      simp only [Node.declared, List.mem_append] at h ⊢
      rcases h with h | h | h
      · exact .inl (.inr h)
      · exact .inl (.inl h)
      · exact .inr h
/-- What is mentioned in grounded nodes is declared in them or around them. -/
theorem AllGrounded.mentioned : ∀ {ns : List Node} {scope : List Binding}, AllGrounded scope ns →
    ∀ b ∈ mentionedAll ns, b = .xml ∨ b ∈ declaredAll ns ++ scope
  | n :: ns, scope, h, b, hb => by
    rcases List.mem_append.mp hb with hb | hb
    · refine (Node.Grounded.mentioned h.1 b hb).imp_right fun h => ?_
      simp only [declaredAll, List.mem_append] at h ⊢
      exact h.imp_left .inl
    · refine (AllGrounded.mentioned h.2 b hb).imp_right fun h => ?_
      simp only [declaredAll, List.mem_append] at h ⊢
      exact h.imp_left .inr
end

/-- The declarations have each a number of its own, above a bound and up to another. -/
structure Ids (lo hi : Nat) (bs : List Binding) : Prop where
  le : lo ≤ hi
  nodup : (bs.map Binding.id).Nodup
  range : ∀ b ∈ bs, lo < b.id ∧ b.id ≤ hi

namespace Ids

variable {lo hi : Nat} {bs cs : List Binding}

theorem nil (n : Nat) : Ids n n [] :=
  ⟨Nat.le_refl n, List.nodup_nil, fun _ h => absurd h List.not_mem_nil⟩

theorem perm (h : Ids lo hi bs) (hp : bs.Perm cs) : Ids lo hi cs :=
  ⟨h.le, (hp.map Binding.id).nodup_iff.mp h.nodup, fun b hb => h.range b (hp.mem_iff.mpr hb)⟩

/-- Declarations with later numbers come to others. -/
theorem append {mid : Nat} (h : Ids mid hi cs) (h' : Ids lo mid bs) : Ids lo hi (cs ++ bs) := by
  refine ⟨h'.le.trans h.le, ?_, fun b hb => ?_⟩
  · rw [List.map_append]
    refine List.Nodup.append h.nodup h'.nodup fun i hi hi' => ?_
    obtain ⟨c, hc, rfl⟩ := List.mem_map.mp hi
    obtain ⟨b, hb, hbc⟩ := List.mem_map.mp hi'
    have hlt := (h.range c hc).1
    have hle := (h'.range b hb).2
    omega
  · rcases List.mem_append.mp hb with hb | hb
    · exact ⟨Nat.lt_of_le_of_lt h'.le (h.range b hb).1, (h.range b hb).2⟩
    · exact ⟨(h'.range b hb).1, (h'.range b hb).2.trans h.le⟩

/-- Numbers tell these declarations apart. -/
theorem eq_of_id (h : Ids lo hi bs) {b c : Binding} (hb : b ∈ bs) (hc : c ∈ bs)
    (hid : b.id = c.id) : b = c :=
  List.inj_on_of_nodup_map h.nodup hb hc hid

end Ids

/-! ### Steps of reading -/

namespace Reading

variable {α β : Type}

/-- A step that makes no declarations, and gives what has a property. -/
def Quiet (P : α → Prop) (x : Reading α) : Prop :=
  ∀ p a q, x p = some (a, q) → q.bindings = p.bindings ∧ P a

/-- A step that makes declarations. Before it something holds for the number of declarations
made so far, and after it something else. -/
def Allots (P : Nat → Prop) (x : Reading α) (Q : Nat → α → Prop) : Prop :=
  ∀ p a q, P p.bindings → x p = some (a, q) → p.bindings ≤ q.bindings ∧ Q q.bindings a

variable {P : α → Prop} {Q : β → Prop}

theorem quiet_pure {a : α} (ha : P a) : Quiet P (pure a : Reading α) := fun p b q h => by
  obtain ⟨rfl, rfl⟩ := Prod.mk.inj (Option.some.inj h)
  exact ⟨rfl, ha⟩

theorem quiet_failure : Quiet P (failure : Reading α) := fun p a q h =>
  absurd h (by simp [failure, StateT.failure])

theorem Quiet.bind {x : Reading α} {f : α → Reading β} (hx : Quiet P x)
    (hf : ∀ a, P a → Quiet Q (f a)) : Quiet Q (x >>= f) := fun p b r h => by
  obtain ⟨a, q, ha, hb⟩ := bind_eq_some_iff.mp h
  obtain ⟨hq, hP⟩ := hx p a q ha
  obtain ⟨hr, hQ⟩ := hf a hP q b r hb
  exact ⟨hr.trans hq, hQ⟩

theorem Quiet.mono {P' : α → Prop} {x : Reading α} (hx : Quiet P x) (h : ∀ a, P a → P' a) :
    Quiet P' x := fun p a q ha => ⟨(hx p a q ha).1, h a (hx p a q ha).2⟩

theorem quiet_lift {x : Option α} (hx : ∀ a, x = some a → P a) :
    Quiet P (StateT.lift x : Reading α) := fun p a q h => by
  cases x with
  | none => exact absurd h (by simp [StateT.lift])
  | some b =>
    obtain ⟨rfl, rfl⟩ := Prod.mk.inj (Option.some.inj h)
    exact ⟨rfl, hx b rfl⟩

theorem quiet_guard (c : Prop) [Decidable c] :
    Quiet (fun _ => c) (guard c : Reading Unit) := by
  unfold guard
  split
  · exact quiet_pure ‹c›
  · exact quiet_failure

theorem quiet_report (s : Severity) : Quiet (fun _ => True) (Reading.report s) :=
  fun p a q h => by
    obtain ⟨-, rfl⟩ := Prod.mk.inj (Option.some.inj h)
    refine ⟨?_, trivial⟩
    unfold Progress.report
    split <;> rfl

theorem quiet_reportIf (fault : Bool) (s : Severity) :
    Quiet (fun _ => True) (Reading.reportIf fault s) := by
  unfold Reading.reportIf
  split
  · exact quiet_report s
  · exact quiet_pure trivial

theorem quiet_spend (s : Text) : Quiet (fun _ => True) (Reading.spend s) := fun p a q h => by
  obtain ⟨r, hr, heq⟩ := Option.map_eq_some_iff.mp h
  obtain ⟨-, rfl⟩ := Prod.mk.inj heq
  unfold Progress.spend? at hr
  split at hr
  · obtain rfl := Option.some.inj hr
    exact ⟨rfl, trivial⟩
  · exact absurd hr (by simp)

/-- A step that looks at the record. -/
theorem quiet_get {f : Progress → Reading α}
    (hf : ∀ p a q, f p p = some (a, q) → q.bindings = p.bindings ∧ P a) :
    Quiet P (get >>= f) := hf

theorem quiet_mapM {f : α → Reading β} (hf : ∀ a, Quiet (fun _ => True) (f a)) (as : List α) :
    Quiet (fun _ => True) (as.mapM f) := by
  induction as with
  | nil =>
    rw [List.mapM_nil]
    exact quiet_pure trivial
  | cons a as ih =>
    rw [List.mapM_cons]
    exact (hf a).bind fun _ _ => ih.bind fun _ _ => quiet_pure trivial

theorem quiet_forM {f : α → Reading Unit} (hf : ∀ a, Quiet (fun _ => True) (f a)) (as : List α) :
    Quiet (fun _ => True) (as.forM f) := by
  induction as with
  | nil => exact quiet_pure trivial
  | cons a as ih => exact (hf a).bind fun _ _ => ih

theorem quiet_foldlM {γ : Type} {f : α → γ → Reading α} (hf : ∀ a, P a → ∀ c, Quiet P (f a c))
    {a : α} (ha : P a) (cs : List γ) : Quiet P (cs.foldlM f a) := by
  induction cs generalizing a with
  | nil => exact quiet_pure ha
  | cons c cs ih => exact (hf a ha c).bind fun _ => ih

variable {I : Nat → Prop} {J : Nat → α → Prop} {K : Nat → β → Prop}

theorem allots_pure {a : α} (h : ∀ n, I n → J n a) : Allots I (pure a : Reading α) J :=
  fun p b q hp hb => by
    obtain ⟨rfl, rfl⟩ := Prod.mk.inj (Option.some.inj hb)
    exact ⟨Nat.le_refl _, h _ hp⟩

theorem allots_failure : Allots I (failure : Reading α) J := fun p a q _ h =>
  absurd h (by simp [failure, StateT.failure])

theorem Allots.bind {x : Reading α} {f : α → Reading β} (hx : Allots I x J)
    (hf : ∀ a, Allots (fun n => J n a) (f a) K) : Allots I (x >>= f) K := fun p b r hp h => by
  obtain ⟨a, q, ha, hb⟩ := bind_eq_some_iff.mp h
  obtain ⟨hle, hJ⟩ := hx p a q hp ha
  obtain ⟨hle', hK⟩ := hf a q b r hJ hb
  exact ⟨hle.trans hle', hK⟩

/-- After a step that makes no declarations everything is as before. -/
theorem Quiet.bind_allots {x : Reading α} {f : α → Reading β} (hx : Quiet P x)
    (hf : ∀ a, P a → Allots I (f a) K) : Allots I (x >>= f) K := fun p b r hp h => by
  obtain ⟨a, q, ha, hb⟩ := bind_eq_some_iff.mp h
  obtain ⟨hq, hP⟩ := hx p a q ha
  have hfa := hf a hP q b r
  rw [hq] at hfa
  exact hfa hp hb

/-- A step without the record keeps the number of declarations. -/
theorem allots_lift {x : Option α} (hx : ∀ n a, I n → x = some a → J n a) :
    Allots I (StateT.lift x : Reading α) J := fun p a q hp h => by
  cases x with
  | none => exact absurd h (by simp [StateT.lift])
  | some b =>
    obtain ⟨rfl, rfl⟩ := Prod.mk.inj (Option.some.inj h)
    exact ⟨Nat.le_refl _, hx _ b hp rfl⟩

/-- A step may be looked at from each number of declarations before it. -/
theorem allots_from {x : Reading α} (hx : ∀ n, I n → Allots (· = n) x J) : Allots I x J :=
  fun p a q hp h => hx p.bindings hp p a q rfl h

theorem Allots.mono {J' : Nat → α → Prop} {x : Reading α} (hx : Allots I x J)
    (h : ∀ n a, J n a → J' n a) : Allots I x J' := fun p a q hp ha =>
  (hx p a q hp ha).imp_right (h _ a)

theorem allots_declare {pre uri : Text} {lo : Nat} {bs : List Binding} :
    Allots (fun n => Ids lo n bs) (Reading.declare pre uri) (fun n b => Ids lo n (bs ++ [b])) :=
  fun p b q hp h => by
  obtain ⟨rfl, rfl⟩ := Prod.mk.inj (Option.some.inj h)
  have hnew : Ids p.bindings (p.bindings + 1) [⟨p.bindings + 1, pre, uri⟩] :=
    ⟨Nat.le_succ _, List.nodup_singleton _, fun b hb => by
      obtain rfl := List.mem_singleton.mp hb
      exact ⟨Nat.lt_succ_self _, Nat.le_refl _⟩⟩
  exact ⟨Nat.le_succ _, (hnew.append hp).perm List.perm_append_comm⟩

theorem allots_foldlM {γ : Type} {f : α → γ → Reading α}
    (hf : ∀ a c, Allots (fun n => J n a) (f a c) J) (a : α) (cs : List γ) :
    Allots (fun n => J n a) (cs.foldlM f a) J := by
  induction cs generalizing a with
  | nil => exact allots_pure fun _ h => h
  | cons c cs ih => exact (hf a c).bind fun b => ih b

end Reading

end Xml
end Formulary
