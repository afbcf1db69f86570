/-
# Tags that are read without an error

A tag after which no error has been noted is legible: its names have no colons and are found by
their prefixes, its declarations keep the rules, its values hold legal characters, and the name
that it gives to its element is a new one. No rule is broken without an error, so what a step
gives is known from there being none afterwards (`Xml.Reading.Clears`). Entities and attributes
that a document defines could bring in what is not checked; there are none here
(`Xml.Definitions.IsBare`).

Key definitions: `Xml.Reading.Clears`, `Xml.Reading.Clean`, `Xml.Qualified.Means`,
`Xml.NamedIn`, `Xml.Declared`, `Xml.Definitions.IsBare`, `Xml.Attributes.Fit`.
Key theorems: `Xml.Reading.Clean.bind`, `Xml.Reading.clean_foldlM`,
`Xml.Attributes.Fit.legible`, `Xml.Definitions.clears_tag`.
-/
import Formulary.Proofs.Xml.Legal
import Formulary.Proofs.Xml.Rereading

namespace Formulary
namespace Xml

/-! ### Steps without errors -/

namespace Reading

variable {α β γ : Type}

/-- A step after which no error has been noted only if there was none before. What holds before
it for the names that elements have got, and what holds after it, are given. -/
def Clears (I : List Text → Prop) (x : Reading α) (J : List Text → α → Prop) : Prop :=
  ∀ p a q, x p = some (a, q) → Severity.error ∉ q.reports →
    Severity.error ∉ p.reports ∧ (I p.ids → J q.ids a)

/-- Such a step that gives no names to elements, and gives what has a property. -/
def Clean (x : Reading α) (P : α → Prop) : Prop := ∀ I, Clears I x fun ids a => I ids ∧ P a

variable {I : List Text → Prop} {J : List Text → α → Prop} {K : List Text → β → Prop}
  {P : α → Prop} {Q : β → Prop}

theorem clears_pure {a : α} (h : ∀ ids, I ids → J ids a) : Clears I (pure a : Reading α) J :=
  fun p b q hb hq => by
    obtain ⟨rfl, rfl⟩ := Prod.mk.inj (Option.some.inj hb)
    exact ⟨hq, h _⟩

theorem Clears.bind {x : Reading α} {f : α → Reading β} (hx : Clears I x J)
    (hf : ∀ a, Clears (J · a) (f a) K) : Clears I (x >>= f) K := fun p b r h hr => by
  obtain ⟨a, q, ha, hb⟩ := bind_eq_some_iff.mp h
  obtain ⟨hq, hK⟩ := hf a q b r hb hr
  obtain ⟨hp, hJ⟩ := hx p a q ha hq
  exact ⟨hp, fun hI => hK (hJ hI)⟩

theorem Clears.mono {J' : List Text → α → Prop} {x : Reading α} (hx : Clears I x J)
    (h : ∀ ids a, J ids a → J' ids a) : Clears I x J' := fun p a q ha hq =>
  (hx p a q ha hq).imp_right fun hJ hI => h _ a (hJ hI)

theorem Clears.of_imp {I' : List Text → Prop} {x : Reading α} (hx : Clears I x J)
    (h : ∀ ids, I' ids → I ids) : Clears I' x J := fun p a q ha hq =>
  (hx p a q ha hq).imp_right fun hJ hI => hJ (h _ hI)

/-- What does not depend on names holds on. -/
theorem Clears.frame {x : Reading α} (hx : Clears I x J) (c : Prop) :
    Clears (fun ids => I ids ∧ c) x fun ids a => J ids a ∧ c := fun p a q ha hq =>
  (hx p a q ha hq).imp_right fun hJ hI => ⟨hJ hI.1, hI.2⟩

theorem clean_pure {a : α} (ha : P a) : Clean (pure a) P :=
  fun _ => clears_pure fun _ h => ⟨h, ha⟩

theorem clears_failure : Clears I (failure : Reading α) J := fun p a q h =>
  absurd h (by simp [failure, StateT.failure])

theorem clean_failure : Clean (failure : Reading α) P := fun _ => clears_failure

/-- After a step that gives no names, what follows starts with what the step gave. -/
theorem Clean.bind_clears {x : Reading α} {f : α → Reading β} (hx : Clean x P)
    (hf : ∀ a, Clears (fun ids => I ids ∧ P a) (f a) K) : Clears I (x >>= f) K :=
  (hx I).bind hf

theorem Clean.bind {x : Reading α} {f : α → Reading β} (hx : Clean x P)
    (hf : ∀ a, Clean (f a) fun b => P a → Q b) : Clean (x >>= f) Q := fun I =>
  hx.bind_clears fun a p b q h hq => by
    obtain ⟨hp, hQ⟩ := hf a (fun ids => I ids ∧ P a) p b q h hq
    exact ⟨hp, fun hI => ⟨(hQ hI).1.1, (hQ hI).2 hI.2⟩⟩

theorem Clean.mono {x : Reading α} {P' : α → Prop} (hx : Clean x P) (h : ∀ a, P a → P' a) :
    Clean x P' := fun I => (hx I).mono fun _ a hP => ⟨hP.1, h a hP.2⟩

theorem clean_lift {x : Option α} (hx : ∀ a, x = some a → P a) :
    Clean (StateT.lift x : Reading α) P := fun I p a q h hq => by
  cases x with
  | none => exact absurd h (by simp [StateT.lift])
  | some b =>
    obtain ⟨rfl, rfl⟩ := Prod.mk.inj (Option.some.inj h)
    exact ⟨hq, fun hI => ⟨hI, hx b rfl⟩⟩

/-- What a step without the record gives is known to what follows. -/
theorem clean_lift_bind {x : Option α} {f : α → Reading β} (hf : ∀ a, x = some a → Clean (f a) Q) :
    Clean ((StateT.lift x : Reading α) >>= f) Q := by
  cases x with
  | none => exact fun I p a q h => absurd h (by simp [StateT.lift, bind, StateT.bind])
  | some a => exact hf a rfl

theorem clears_lift {x : Option α} (hx : ∀ ids a, I ids → x = some a → J ids a) :
    Clears I (StateT.lift x : Reading α) J := fun p a q h hq => by
  cases x with
  | none => exact absurd h (by simp [StateT.lift])
  | some b =>
    obtain ⟨rfl, rfl⟩ := Prod.mk.inj (Option.some.inj h)
    exact ⟨hq, fun hI => hx _ b hI rfl⟩

/-- What a step gives at all is known to what follows. -/
theorem Clears.bind_yields {x : Reading α} {f : α → Reading β} (hy : x.Yields P)
    (hx : Clears I x J) (hf : ∀ a, P a → Clears (J · a) (f a) K) : Clears I (x >>= f) K :=
  fun p b r h hr => by
    obtain ⟨a, q, ha, hb⟩ := bind_eq_some_iff.mp h
    obtain ⟨hq, hK⟩ := hf a (hy p a q ha) q b r hb hr
    obtain ⟨hp, hJ⟩ := hx p a q ha hq
    exact ⟨hp, fun hI => hK (hJ hI)⟩

theorem clean_guard (c : Prop) [Decidable c] : Clean (guard c : Reading Unit) fun _ => c := by
  unfold guard
  split
  · exact clean_pure ‹c›
  · exact clean_failure

/-- An error that is reported is noted, unless there are some already. -/
theorem clean_error : Clean (Reading.report .error) fun _ => False := fun I p a q h hq => by
  obtain ⟨-, rfl⟩ := Prod.mk.inj (Option.some.inj h)
  refine absurd ?_ hq
  unfold Progress.report
  split
  · exact List.mem_cons_self
  · rename_i hmany
    exact List.count_pos_iff.mp (by unfold Progress.maxReports at hmany; omega)

theorem clean_warning : Clean (Reading.report .warning) fun _ => True := fun I p a q h hq => by
  obtain ⟨-, rfl⟩ := Prod.mk.inj (Option.some.inj h)
  have hids : (p.report .warning).ids = p.ids := by
    unfold Progress.report
    split <;> rfl
  refine ⟨fun herror => hq ?_, fun hI => ⟨hids.symm ▸ hI, trivial⟩⟩
  unfold Progress.report
  split
  · exact List.mem_cons_of_mem _ herror
  · exact herror

theorem clean_errorIf (fault : Bool) :
    Clean (Reading.reportIf fault .error) fun _ => fault = false := by
  unfold Reading.reportIf
  cases fault with
  | true => exact clean_error.mono fun _ h => h.elim
  | false => exact clean_pure rfl

theorem clean_warningIf (fault : Bool) :
    Clean (Reading.reportIf fault .warning) fun _ => True := by
  unfold Reading.reportIf
  split
  · exact clean_warning
  · exact clean_pure trivial

theorem clean_declare (pre uri : Text) :
    Clean (Reading.declare pre uri) fun b => b.pre = pre ∧ b.uri = uri := fun I p a q h hq => by
  obtain ⟨rfl, rfl⟩ := Prod.mk.inj (Option.some.inj h)
  exact ⟨hq, fun hI => ⟨hI, rfl, rfl⟩⟩

theorem clean_mapM {f : γ → Reading α} (cs : List γ) (hf : ∀ c ∈ cs, Clean (f c) P) :
    Clean (cs.mapM f) fun as => ∀ a ∈ as, P a := by
  induction cs with
  | nil =>
    rw [List.mapM_nil]
    exact clean_pure fun a ha => absurd ha List.not_mem_nil
  | cons c cs ih =>
    obtain ⟨hc, hcs⟩ := List.forall_mem_cons.mp hf
    rw [List.mapM_cons]
    refine hc.bind fun a => (ih hcs).bind fun as => clean_pure fun has ha => ?_
    exact List.forall_mem_cons.mpr ⟨ha, has⟩

/-- What holds of what has been made of the first elements holds in the end. -/
theorem clean_foldlM {R : List γ → α → Prop} {f : α → γ → Reading α}
    (hf : ∀ cs a c, Clean (f a c) fun b => R cs a → R (cs ++ [c]) b) (cs : List γ) (a : α)
    (done : List γ) : Clean (cs.foldlM f a) fun b => R done a → R (done ++ cs) b := by
  induction cs generalizing a done with
  | nil => exact clean_pure (by simp)
  | cons c cs ih =>
    rw [List.foldlM_cons]
    refine (hf done a c).bind fun b => (ih b (done ++ [c])).mono fun r hr hb ha => ?_
    have h := hr (hb ha)
    rwa [List.append_assoc, List.singleton_append] at h

end Reading
open Reading (Clean Clears clean_pure clean_failure clean_lift clean_lift_bind clean_guard
  clean_error clean_errorIf clean_warningIf clean_declare clean_mapM clean_foldlM)

/-! ### Names -/

theorem clean_qualify (s : Text) : Clean (qualify s) fun q => qualified? s = some q := by
  unfold qualify
  split
  · rename_i q hq
    exact clean_pure hq
  · exact clean_error.bind fun _ => clean_pure False.elim

/-- A written name that is split at its colon is put together of the parts. -/
theorem parts_of_qualified? {s : Text} {q : Qualified} (h : qualified? s = some q) :
    isSimpleName q.loc = true ∧ (q.pre = [] ∧ s = q.loc ∨
      isSimpleName q.pre = true ∧ s = q.pre ++ ':' :: q.loc) := by
  unfold qualified? at h
  split at h
  · split at h
    · rename_i hs
      obtain rfl := Option.some.inj h
      exact ⟨hs, .inl ⟨rfl, rfl⟩⟩
    · exact absurd h (by simp)
  · rename_i c loc hdrop
    split at h
    · rename_i hparts
      obtain ⟨hpre, hloc⟩ := Bool.and_eq_true_iff.mp hparts
      obtain rfl := Option.some.inj h
      have hc : c = ':' := by
        have hstop := List.head?_dropWhile_not (· != ':') s
        rw [hdrop] at hstop
        simpa using hstop
      rw [hc] at hdrop
      refine ⟨hloc, .inr ⟨hpre, ?_⟩⟩
      show s = s.takeWhile (· != ':') ++ ':' :: loc
      rw [← hdrop, List.takeWhile_append_dropWhile]
    · exact absurd h (by simp)

/-- Whether a name is one with the given parts that is found by its prefix in a scope. -/
structure Qualified.Means (scope : Scope) (isAttr : Bool) (q : Qualified) (n : Name) : Prop where
  loc : n.loc = q.loc
  pre : n.pre = q.pre
  stands : n.standsIn scope isAttr = true

theorem Qualified.Means.print {scope : Scope} {isAttr : Bool} {s : Text} {q : Qualified} {n : Name}
    (h : q.Means scope isAttr n) (hq : qualified? s = some q) : n.print = s := by
  have hne : isSimpleName [] = false := rfl
  rw [Name.print, h.pre, h.loc]
  rcases (parts_of_qualified? hq).2 with ⟨hpre, rfl⟩ | ⟨hpre, rfl⟩
  · rw [if_pos hpre]
  · rw [if_neg fun hnil => absurd hpre (by simp [hnil, hne])]

theorem pre_of_find? {scope : Scope} {pre : Text} {b : Binding} (h : scope.find? pre = some b) :
    b.pre = pre := by
  unfold Scope.find? at h
  split at h
  · rename_i hxml
    obtain rfl := Option.some.inj h
    exact hxml.symm
  · simpa using List.find?_some h

theorem clean_name {scope : Scope} {q : Qualified} (hpre : q.pre ≠ []) (isAttr : Bool) :
    Clean (scope.name q) fun n => q.Means scope isAttr n := by
  unfold Scope.name
  split
  · rename_i b hb
    have hbpre := pre_of_find? hb
    refine clean_pure ⟨rfl, hbpre, ?_⟩
    show (if b.pre = [] then _ else scope.uri? b.pre == some b.uri) = true
    rw [hbpre, if_neg hpre, Scope.uri?, hb, Option.map_some, beq_self_eq_true]
  · exact clean_error.bind fun _ => clean_pure False.elim

theorem clean_elementName (scope : Scope) (q : Qualified) :
    Clean (scope.elementName q) fun n => q.Means scope false n := by
  unfold Scope.elementName
  split
  · rename_i hpre
    refine clean_pure ?_
    cases hfind : scope.find? [] with
    | none =>
      refine ⟨rfl, hpre.symm, ?_⟩
      show ((scope.uri? []).getD [] == []) = true
      rw [Scope.uri?, hfind]
      rfl
    | some b =>
      have hbpre := pre_of_find? hfind
      have huri : (scope.uri? []).getD [] = b.uri := by
        rw [Scope.uri?, hfind, Option.map_some, Option.getD_some]
      by_cases hempty : b.uri = []
      · rw [Option.filter_some, if_neg (by simp [hempty])]
        refine ⟨rfl, hpre.symm, ?_⟩
        show ((scope.uri? []).getD [] == []) = true
        rw [huri, hempty]
        rfl
      · rw [Option.filter_some, if_pos (by simp [hempty])]
        refine ⟨rfl, hbpre.trans hpre.symm, ?_⟩
        show (if b.pre = [] then ((scope.uri? []).getD [] == b.uri) else _) = true
        rw [if_pos hbpre, huri, beq_self_eq_true]
  · rename_i hpre
    exact clean_name hpre false

theorem clean_attributeName (scope : Scope) (q : Qualified) :
    Clean (scope.attributeName q) fun n => q.Means scope true n := by
  unfold Scope.attributeName
  split
  · rename_i hpre
    exact clean_pure ⟨rfl, hpre.symm, rfl⟩
  · rename_i hpre
    exact clean_name hpre true

/-- Attributes that are named after what has been read: no written name stands twice, each name is
found by its prefix, and no two names in a namespace mean the same. -/
structure NamedIn (scope : Scope) (as : List (RawAttr × Qualified)) (bs : List Attr) : Prop where
  written : (as.map fun a => a.1.name).Nodup
  means : List.Forall₂ (fun a b => a.2.Means scope true b.name ∧ b.value = a.1.value) as bs
  distinct : bs.Pairwise fun b c => c.name.uri ≠ [] → b.name.bare ≠ c.name.bare

/-! ### Declarations -/

theorem length_le_of_isName {s : Text} (h : isName s = true) : s.length ≤ maxName := by
  cases s with
  | nil => exact Nat.zero_le _
  | cons c s =>
    simp only [isName, Bool.and_eq_true, decide_eq_true_eq] at h
    exact h.2

/-- Declarations of a tag that may be written again. -/
structure Declared (bs : List Binding) : Prop where
  orderly : ∀ b ∈ bs, b.IsOrderly
  distinct : (bs.map Binding.pre).Nodup
  short : ∀ b ∈ bs, ("xmlns:".toList ++ b.pre).length ≤ maxName

theorem clean_checkUri (pre uri : Text) :
    Clean (checkUri pre uri) fun _ => uri = [] ∨ Uri.isReference uri = true := by
  unfold checkUri
  split
  · rename_i hempty
    exact clean_pure (.inl hempty)
  · split
    · rename_i href
      exact (clean_warningIf _).mono fun _ _ => .inr href
    · exact clean_error.mono fun _ h => h.elim

theorem clean_declarePrefix (bs : List Binding) (pre uri : Text) :
    Clean (declarePrefix bs pre uri) fun cs => isLegal uri = true →
      (pre = [] ∨ isSimpleName pre = true) → ("xmlns:".toList ++ pre).length ≤ maxName →
      Declared bs → Declared cs := by
  unfold declarePrefix
  split
  · rename_i hmay
    refine (clean_checkUri pre uri).bind fun _ => (clean_guard _).bind fun _ =>
      (clean_declare pre uri).bind fun b =>
        clean_pure fun hb hnew haddress hlegal hpre hshort hbs => ?_
    obtain ⟨rfl, rfl⟩ := hb
    refine ⟨?_, ?_, ?_⟩
    · exact List.forall_mem_append.mpr ⟨hbs.orderly,
        List.forall_mem_singleton.mpr ⟨hpre, hmay, haddress, hlegal⟩⟩
    · rw [List.map_append, List.map_singleton]
      refine List.Nodup.append hbs.distinct (List.nodup_singleton _) ?_
      rw [List.disjoint_singleton, List.mem_map]
      rintro ⟨c, hc, hcb⟩
      simpa [hcb] using List.all_eq_true.mp hnew c hc
    · exact List.forall_mem_append.mpr ⟨hbs.short, List.forall_mem_singleton.mpr hshort⟩
  · exact (clean_errorIf _).bind fun _ => clean_pure fun _ _ _ _ hbs => hbs

/-- The prefix that a written name declares. -/
theorem of_declares? {s pre : Text} {q : Qualified} (hs : isName s = true)
    (hq : qualified? s = some q) (h : q.declares? = some pre) :
    (pre = [] ∨ isSimpleName pre = true) ∧ ("xmlns:".toList ++ pre).length ≤ maxName := by
  obtain ⟨hloc, hparts⟩ := parts_of_qualified? hq
  unfold Qualified.declares? at h
  split at h
  · rename_i hxmlns
    obtain rfl := Option.some.inj h
    refine ⟨.inr hloc, ?_⟩
    rcases hparts with ⟨hpre, -⟩ | ⟨-, rfl⟩
    · exact absurd (hpre.symm.trans hxmlns) (by decide)
    · have hlength := length_le_of_isName hs
      rw [hxmlns] at hlength
      simpa using hlength
  · split at h
    · obtain rfl := Option.some.inj h
      exact ⟨.inl rfl, by decide⟩
    · exact absurd h (by simp)

/-! ### Values -/

theorem isLegal_of_parts? {s : Text} {ps : List Part} (h : parts? s = some ps) :
    ∀ p ∈ ps, p.token.IsLegal := by
  fun_induction parts? s generalizing ps with
  | case1 =>
    obtain rfl := Option.some.inj h
    exact fun p hp => absurd hp List.not_mem_nil
  | case2 s p r hr ih =>
    obtain ⟨us, hus, rfl⟩ := Option.map_eq_some_iff.mp h
    exact List.forall_mem_cons.mpr ⟨isLegal_of_reference? hr, ih hus⟩
  | case3 => exact absurd h (by simp)
  | case4 c s _ hc ih =>
    obtain ⟨us, hus, rfl⟩ := Option.map_eq_some_iff.mp h
    exact List.forall_mem_cons.mpr ⟨hc, ih hus⟩
  | case5 => exact absurd h (by simp)

/-- What may be written again of what has been read of the attributes of a tag. -/
structure Attributes.Fit (as : Attributes) : Prop where
  bindings : Declared as.bindings
  names : ∀ p ∈ as.others, qualified? p.1.name = some p.2 ∧ p.2.declares? = none ∧
    p.1.name.length ≤ maxName
  values : ∀ p ∈ as.others, isLegal p.1.value = true

/-- Definitions of a document that define neither entities nor attributes. -/
structure Definitions.IsBare (d : Definitions) : Prop where
  manner : d.manner = .faithful
  entities : d.entities = []
  parameters : d.parameters = []
  attributes : d.attributes = []

namespace Definitions

variable {d : Definitions} (hd : d.IsBare)

include hd

theorem clean_undeclared : Clean d.undeclared fun _ => False := by
  unfold undeclared
  rw [hd.manner]
  split
  · exact clean_failure
  · exact clean_error

theorem clean_expandWith (inner : Text → Reading Text) {ps : List Part}
    (hps : ∀ p ∈ ps, p.token.IsLegal) :
    Clean (d.expandWith inner ps) fun s => isLegal s = true := by
  unfold expandWith
  refine (clean_mapM (P := fun s => isLegal s = true) ps fun p hp => ?_).bind fun ts =>
    clean_pure fun hts => ?_
  · cases p with
    | code c =>
      have hc : isChar c = true := hps _ hp
      exact clean_pure (by simpa [isLegal] using hc)
    | literal c =>
      have hc : isChar c = true := hps _ hp
      dsimp only
      split
      · exact clean_failure
      · refine clean_pure ?_
        rw [isLegal, List.all_cons, List.all_nil, Bool.and_true]
        split
        · decide
        · exact hc
    | entity name =>
      simp only [hd.entities, List.lookup_nil]
      exact (clean_undeclared hd).bind fun _ => clean_pure False.elim
  · rw [isLegal, List.all_flatten, List.all_eq_true]
    exact hts

theorem clean_value (depth : Nat) (raw : Text) :
    Clean (d.value depth .text raw) fun s => isLegal s = true := by
  refine clean_lift_bind fun ps hps => ?_
  have hexpand : Clean (d.expand depth ps) fun s => isLegal s = true := by
    cases depth <;> exact clean_expandWith hd _ (isLegal_of_parts? hps)
  exact hexpand.bind fun _ => clean_pure fun hs => hs

theorem typeOf_eq (element name : Text) : d.typeOf element name = .text := by
  rw [typeOf, rule?, hd.attributes]
  rfl

/-! ### Attributes -/

theorem clean_readAttribute (depth : Nat) (element : Text) (as : Attributes) (a : RawAttr) :
    Clean (d.readAttribute depth element as a) fun bs =>
      isName a.name = true → as.Fit → bs.Fit := by
  unfold readAttribute
  rw [typeOf_eq hd]
  refine (clean_qualify a.name).bind fun q => (clean_value hd depth a.value).bind fun v => ?_
  split
  · rename_i pre hpre
    refine (clean_declarePrefix as.bindings pre v).bind fun bs => clean_pure ?_
    intro hbs hv hq ha has
    obtain ⟨hsimple, hshort⟩ := of_declares? ha hq hpre
    exact ⟨hbs hv hsimple hshort has.bindings, has.names, has.values⟩
  · rename_i hdeclares
    refine (clean_warningIf _).bind fun _ => clean_pure fun _ hv hq ha has => ?_
    refine ⟨has.bindings, ?_, ?_⟩
    · exact List.forall_mem_append.mpr ⟨has.names,
        List.forall_mem_singleton.mpr ⟨hq, hdeclares, length_le_of_isName ha⟩⟩
    · exact List.forall_mem_append.mpr ⟨has.values, List.forall_mem_singleton.mpr hv⟩

theorem clean_addFallbacks (element : Text) (bs : List Binding) :
    Clean (d.addFallbacks element bs) (· = bs) := by
  rw [addFallbacks, hd.attributes]
  exact clean_pure rfl

omit hd in
theorem clean_nameAttributes (scope : Scope) (as : List (RawAttr × Qualified)) :
    Clean (nameAttributes scope as) (NamedIn scope as) := by
  unfold nameAttributes
  refine (clean_guard _).bind fun _ => ?_
  refine Clean.mono (clean_foldlM
    (R := fun (done : List (RawAttr × Qualified)) (bs : List Attr) =>
      List.Forall₂ (fun a b => a.2.Means scope true b.name ∧ b.value = a.1.value) done bs ∧
        bs.Pairwise fun b c => c.name.uri ≠ [] → b.name.bare ≠ c.name.bare)
    ?_ as [] []) fun bs hbs hwritten => ?_
  · rintro done bs ⟨a, q⟩
    refine (clean_attributeName scope q).bind fun n => (clean_errorIf _).bind fun _ =>
      clean_pure fun hfault hn hbs => ?_
    obtain ⟨hmeans, hdistinct⟩ := hbs
    refine ⟨List.rel_append hmeans (.cons ⟨hn, rfl⟩ .nil), List.pairwise_append.mpr
      ⟨hdistinct, List.pairwise_singleton _ _, fun b hb c hc huri hbare => ?_⟩⟩
    obtain rfl := List.mem_singleton.mp hc
    obtain ⟨hsame, hloc⟩ := Name.bare_eq_iff.mp hbare
    have hns : n.ns.isSome = true := by
      cases hns : n.ns with
      | none => exact absurd (by rw [Name.uri, hns]) huri
      | some c => rfl
    have hany : (bs.any fun b => b.name.uri == n.uri && b.name.loc == n.loc) = true :=
      List.any_eq_true.mpr ⟨b, hb, by simp [hsame, hloc]⟩
    rw [hns, hany] at hfault
    exact absurd hfault (by decide)
  · obtain ⟨hmeans, hdistinct⟩ := hbs ⟨.nil, .nil⟩
    exact ⟨hwritten, hmeans, hdistinct⟩

end Definitions

/-! ### Attributes -/

section Attributes

variable {scope : Scope} (hscope : ∀ b ∈ scope, b.IsOrderly)

include hscope

theorem pre_eq_nil_of_uri {n : Name} (h : n.standsIn scope true = true) (huri : n.uri = []) :
    n.pre = [] := by
  by_contra hpre
  rw [Name.standsIn, if_neg hpre, beq_iff_eq, huri] at h
  obtain ⟨b, hb, hbpre, hburi⟩ := mem_of_uri? h
  rcases hb with rfl | hb
  · exact absurd hburi (by decide)
  · have hmay := (hscope b hb).allowed
    rw [mayDeclare, hburi, hbpre] at hmay
    simp [hpre] at hmay

theorem pre_eq_xml_of_uri {n : Name} (h : n.standsIn scope true = true) (huri : n.uri = xmlUri) :
    n.pre = "xml".toList := by
  unfold Name.standsIn at h
  rw [huri] at h
  split at h
  · rw [if_pos rfl] at h
    exact absurd h (by decide)
  · rw [beq_iff_eq] at h
    obtain ⟨b, hb, hbpre, hburi⟩ := mem_of_uri? h
    rcases hb with rfl | hb
    · exact hbpre.symm
    · have hmay := (hscope b hb).allowed
      rw [mayDeclare, hburi] at hmay
      simp at hmay

variable {s v : Text} {q : Qualified} {n : Name} (hq : qualified? s = some q)
  (hn : q.Means scope true n)

include hq hn

theorem is_xmlId_iff : n.is xmlUri "id" = true ↔ s = "xml:id".toList := by
  have hloc : isSimpleName n.loc = true := hn.loc ▸ (parts_of_qualified? hq).1
  refine ⟨fun h => ?_, fun h => print_eq_xmlId hscope hn.stands hloc ((hn.print hq).trans h)⟩
  obtain ⟨huri, hid⟩ := Bool.and_eq_true_iff.mp h
  have hpre := pre_eq_xml_of_uri hscope hn.stands (beq_iff_eq.mp huri)
  rw [← hn.print hq, Name.print, hpre, beq_iff_eq.mp hid]
  decide

/-- An attribute that is no declaration breaks no rule if its written name does not. -/
theorem isOrderly_of_means (hdeclares : q.declares? = none) (hv : isLegal v = true)
    (hid : s = "xml:id".toList → isSimpleName (trimmed v) = true) : (Attr.mk n v).IsOrderly := by
  refine ⟨hn.loc ▸ (parts_of_qualified? hq).1, hv, fun huri hxmlns => ?_,
    fun h => hid ((is_xmlId_iff hscope hq hn).mp h)⟩
  have hpre : q.pre = [] := hn.pre ▸ pre_eq_nil_of_uri hscope hn.stands huri
  have hloc : q.loc = "xmlns".toList := hn.loc ▸ hxmlns
  rw [Qualified.declares?, hpre, hloc] at hdeclares
  exact absurd hdeclares (by decide)

end Attributes

/-- The name that an attribute gives to its element, if it does, as it is written. -/
def RawAttr.ids (a : RawAttr) : List Text := if a.name = "xml:id".toList then [a.value] else []

section Attributes

variable {scope : Scope} (hscope : ∀ b ∈ scope, b.IsOrderly) {as : List (RawAttr × Qualified)}
  {bs : List Attr} (hnames : ∀ a ∈ as, qualified? a.1.name = some a.2) (h : NamedIn scope as bs)

include h

theorem NamedIn.exists_of_mem {b : Attr} (hb : b ∈ bs) :
    ∃ a ∈ as, a.2.Means scope true b.name ∧ b.value = a.1.value := by
  obtain ⟨i, hi, rfl⟩ := List.getElem_of_mem hb
  have hlt : i < as.length := by rwa [h.means.length_eq]
  exact ⟨as[i], List.getElem_mem hlt, (List.forall₂_iff_get.mp h.means).2 i hlt hi⟩

include hnames

theorem NamedIn.map_print : bs.map (fun b => b.name.print) = as.map fun a => a.1.name := by
  obtain ⟨-, hmeans, -⟩ := h
  induction hmeans with
  | nil => rfl
  | cons hab _ ih =>
    obtain ⟨ha, has⟩ := List.forall_mem_cons.mp hnames
    rw [List.map_cons, List.map_cons, hab.1.print ha, ih has]

include hscope

theorem NamedIn.flatMap_ids : bs.flatMap Attr.ids = as.flatMap fun a => a.1.ids := by
  obtain ⟨-, hmeans, -⟩ := h
  induction hmeans with
  | nil => rfl
  | @cons a b as bs hab _ ih =>
    obtain ⟨ha, has⟩ := List.forall_mem_cons.mp hnames
    have hid := is_xmlId_iff hscope ha hab.1
    have hsame : b.ids = a.1.ids := by
      unfold Attr.ids RawAttr.ids
      simp only [hid, hab.2]
    rw [List.flatMap_cons, List.flatMap_cons, hsame, ih has]

/-- Attributes with different written names have different names. -/
theorem NamedIn.nodup_bare : (bs.map fun b => b.name.bare).Nodup := by
  have hprints := h.written
  rw [← h.map_print hnames] at hprints
  have hstands : ∀ b ∈ bs, b.name.standsIn scope true = true := fun b hb => by
    obtain ⟨a, -, hmean, -⟩ := h.exists_of_mem hb
    exact hmean.stands
  refine List.pairwise_map.mpr ((h.distinct.and (List.pairwise_map.mp hprints)).imp_of_mem ?_)
  rintro b c hb hc ⟨hns, hprint⟩ hbare
  by_cases huri : c.name.uri = []
  · obtain ⟨hburi, hloc⟩ := Name.bare_eq_iff.mp hbare
    have hbpre := pre_eq_nil_of_uri hscope (hstands b hb) (hburi.trans huri)
    have hcpre := pre_eq_nil_of_uri hscope (hstands c hc) huri
    refine hprint ?_
    rw [Name.print, if_pos hbpre, Name.print, if_pos hcpre, hloc]
  · exact hns huri hbare

end Attributes

/-- What has been read of a start tag makes a legible tag. -/
theorem Attributes.Fit.legible {scope : Scope} (hscope : ∀ b ∈ scope, b.IsOrderly) {name : Text}
    (hname : isName name = true) {q : Qualified} (hq : qualified? name = some q) {as : Attributes}
    (has : as.Fit) {n : Name} (hn : q.Means (as.bindings ++ scope) false n) {bs : List Attr}
    (hbs : NamedIn (as.bindings ++ scope) as.others bs)
    (hids : ∀ a ∈ as.others, a.1.name = "xml:id".toList →
      isSimpleName (trimmed a.1.value) = true) :
    (Tag.mk n as.bindings bs).Legible scope ∧
      (Tag.mk n as.bindings bs).ids = as.others.flatMap fun a => a.1.ids := by
  have hinner : ∀ b ∈ as.bindings ++ scope, b.IsOrderly :=
    List.forall_mem_append.mpr ⟨has.bindings.orderly, hscope⟩
  have hnames : ∀ a ∈ as.others, qualified? a.1.name = some a.2 := fun a ha => (has.names a ha).1
  refine ⟨⟨⟨hn.loc ▸ (parts_of_qualified? hq).1, fun b hb => ?_, hbs.nodup_bare hinner hnames⟩,
    ⟨has.bindings.orderly, has.bindings.distinct⟩, hn.stands, fun b hb => ?_, fun w hw => ?_⟩,
    hbs.flatMap_ids hinner hnames⟩
  · obtain ⟨a, ha, hmean, hvalue⟩ := hbs.exists_of_mem hb
    obtain ⟨hsplit, hdeclares, -⟩ := has.names a ha
    have hlegal : isLegal b.value = true := hvalue ▸ has.values a ha
    exact isOrderly_of_means hinner hsplit hmean hdeclares hlegal (hvalue ▸ hids a ha)
  · obtain ⟨a, -, hmean, -⟩ := hbs.exists_of_mem hb
    exact hmean.stands
  · rcases List.mem_cons.mp hw with rfl | hw
    · rw [hn.print hq]
      exact length_le_of_isName hname
    · rcases List.mem_append.mp hw with hw | hw
      · obtain ⟨b, hb, rfl⟩ := List.mem_map.mp hw
        exact has.bindings.short b hb
      · obtain ⟨b, hb, rfl⟩ := List.mem_map.mp hw
        obtain ⟨a, ha, hmean, -⟩ := hbs.exists_of_mem hb
        rw [hmean.print (has.names a ha).1]
        exact (has.names a ha).2.2

namespace Definitions

variable {d : Definitions} (hd : d.IsBare)

include hd

/-- A name that an attribute gives to its element is a simple one, and a new one. -/
theorem clears_nameElement (element : Text) (a : RawAttr) (is : List Text) :
    Clears (fun ids => ids.Perm is ∧ is.Nodup) (d.nameElement element a) fun ids _ =>
      (ids.Perm (a.ids ++ is) ∧ (a.ids ++ is).Nodup) ∧
        (a.name = "xml:id".toList → isSimpleName (trimmed a.value) = true) := by
  unfold nameElement
  rw [typeOf_eq hd]
  refine (clean_errorIf _).bind_clears fun _ => ?_
  by_cases hname : a.name = "xml:id".toList
  · have hsimple : decide (a.name = "xml:id".toList ∧ (!isSimpleName (trimmed a.value)) = true) =
        false → isSimpleName (trimmed a.value) = true := fun h => by
      simpa [hname] using of_decide_eq_false h
    have hids : a.ids = [a.value] := if_pos hname
    by_cases hvalue : a.value = []
    · rw [if_neg fun h => h.2 hvalue]
      refine Reading.clears_pure fun ids h => ?_
      have hempty := hsimple h.2
      rw [hvalue] at hempty
      exact absurd hempty (by decide)
    · rw [if_pos ⟨.inl hname, hvalue⟩]
      intro p b q h hq
      change (if a.value ∈ p.ids then Reading.report .error else _ : Reading Unit) p = _ at h
      split at h
      · obtain ⟨hp, himp⟩ := clean_error (fun _ => True) p b q h hq
        exact ⟨hp, fun _ => absurd (himp trivial).2 id⟩
      · rename_i hnew
        obtain ⟨-, rfl⟩ := Prod.mk.inj (Option.some.inj h)
        refine ⟨hq, fun hI => ⟨?_, fun _ => hsimple hI.2⟩⟩
        rw [hids, List.singleton_append, List.nodup_cons]
        exact ⟨hI.1.1.cons _, fun hmem => hnew (hI.1.1.mem_iff.mpr hmem), hI.1.2⟩
  · have hnone : ¬((a.name = "xml:id".toList ∨ AttributeType.text = .id) ∧ a.value ≠ []) :=
      fun h => h.1.elim hname fun h => absurd h (by decide)
    rw [if_neg hnone]
    refine Reading.clears_pure fun ids hids => ⟨?_, fun h => absurd h hname⟩
    rw [RawAttr.ids, if_neg hname]
    exact hids.1

theorem clears_nameElements (element : Text) (as : List (RawAttr × Qualified)) (is : List Text) :
    Clears (fun ids => ids.Perm is ∧ is.Nodup) (as.forM fun a => d.nameElement element a.1)
      fun ids _ => (ids.Perm ((as.flatMap fun a => a.1.ids) ++ is) ∧
        ((as.flatMap fun a => a.1.ids) ++ is).Nodup) ∧
          ∀ a ∈ as, a.1.name = "xml:id".toList → isSimpleName (trimmed a.1.value) = true := by
  induction as generalizing is with
  | nil => exact Reading.clears_pure fun ids hids => ⟨hids, fun a ha => absurd ha List.not_mem_nil⟩
  | cons a as ih =>
    have hswap : ((as.flatMap fun a => a.1.ids) ++ (a.1.ids ++ is)).Perm
        (((a :: as).flatMap fun a => a.1.ids) ++ is) := by
      rw [List.flatMap_cons, List.append_assoc]
      exact List.perm_append_comm_assoc _ _ _
    refine (clears_nameElement hd element a.1 is).bind fun _ => ?_
    refine ((ih (a.1.ids ++ is)).frame _).mono fun ids _ h => ?_
    obtain ⟨⟨⟨hids, hnodup⟩, has⟩, ha⟩ := h
    exact ⟨⟨hids.trans hswap, hswap.nodup_iff.mp hnodup⟩, List.forall_mem_cons.mpr ⟨ha, has⟩⟩

/-- **A tag that is read without an error is legible**, and the names that it gives to its element
are new. -/
theorem clears_tag (depth : Nat) (scope : Scope) {name : Text} (hname : isName name = true)
    {raw : List RawAttr} (hraw : ∀ a ∈ raw, isName a.name = true) (is : List Text) :
    Clears (fun ids => (ids.Perm is ∧ is.Nodup) ∧ ∀ b ∈ scope, b.IsOrderly)
      (d.tag depth true scope name raw)
      fun ids t => t.Legible scope ∧ ids.Perm (t.ids ++ is) ∧ (t.ids ++ is).Nodup := by
  have hfold := clean_foldlM (R := fun (cs : List RawAttr) (as : Attributes) =>
    (∀ a ∈ cs, isName a.name = true) → as.Fit) (f := d.readAttribute depth name)
    (fun cs as a => (clean_readAttribute hd depth name as a).mono fun bs hbs has hcs =>
      have hnames := List.forall_mem_append.mp hcs
      hbs (hnames.2 a (List.mem_singleton_self a)) (has hnames.1)) raw ⟨[], []⟩ []
  have hempty : Attributes.Fit ⟨[], []⟩ := by
    refine ⟨⟨?_, List.nodup_nil, ?_⟩, ?_, ?_⟩ <;> exact fun _ h => absurd h List.not_mem_nil
  have hattrs : Clean (raw.foldlM (d.readAttribute depth name) ⟨[], []⟩) Attributes.Fit :=
    hfold.mono fun as has => has (fun _ => hempty) hraw
  unfold tag
  refine (clean_qualify name).bind_clears fun q => hattrs.bind_clears fun as => ?_
  refine (clean_addFallbacks hd name as.bindings).bind_clears fun bs => ?_
  refine (clean_nameAttributes (bs ++ scope) as.others).bind_clears fun attrs => ?_
  refine (clean_elementName (bs ++ scope) q).bind_clears fun n => ?_
  rw [if_pos rfl]
  -- what has been read of the tag does not depend on the names that elements have got
  have hgiven := (clears_nameElements hd name as.others is).frame
    ((∀ b ∈ scope, b.IsOrderly) ∧ qualified? name = some q ∧ as.Fit ∧ bs = as.bindings ∧
      NamedIn (bs ++ scope) as.others attrs ∧ q.Means (bs ++ scope) false n)
  refine (hgiven.of_imp fun ids h => ?_).bind fun _ => Reading.clears_pure fun ids h => ?_
  · obtain ⟨⟨⟨⟨⟨hI, hq⟩, hfit⟩, hbs⟩, hattrs⟩, hn⟩ := h
    exact ⟨hI.1, hI.2, hq, hfit, hbs, hattrs, hn⟩
  · obtain ⟨⟨⟨hids, hnodup⟩, hsimple⟩, hscope, hq, hfit, rfl, hattrs, hn⟩ := h
    obtain ⟨hlegible, hsame⟩ := hfit.legible hscope hname hq hn hattrs hsimple
    rw [hsame]
    exact ⟨hlegible, hids, hnodup⟩

end Definitions

end Xml
end Formulary
