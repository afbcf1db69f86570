/-
# Reading tags back

A start tag that was written for a legible tag is read as a tag with the same names, values and
declarations, and without an error being noted. What a step of reading needs for this is a
record without errors (`Xml.Progress.Calm`), and it leaves one (`Xml.Reading.Gives`).

Key definitions: `Xml.Progress.Calm`, `Xml.Reading.Gives`, `Xml.Binding.said`.
Key theorems: `Xml.gives_value`, `Xml.qualified?_print`, `Xml.gives_tag`.
-/
import Formulary.Proofs.Xml.Printing

namespace Formulary
namespace Xml

/-! ### Steps without errors -/

/-- Nothing but warnings has been noted so far, and the names that were given to elements are
among the given ones. -/
structure Progress.Calm (ids : List Text) (p : Progress) : Prop where
  reports : .error ∉ p.reports
  ids : p.ids ⊆ ids

namespace Reading

variable {α β γ : Type} {P : α → Prop} {Q : β → Prop} {ids ids' ids'' : List Text}

/-- A step that succeeds with a result that has a property, and without noting an error. -/
def Gives (ids ids' : List Text) (x : Reading α) (P : α → Prop) : Prop :=
  ∀ p, p.Calm ids → ∃ a q, x p = some (a, q) ∧ q.Calm ids' ∧ P a

theorem gives_pure {a : α} (ha : P a) : Gives ids ids (pure a) P :=
  fun p hp => ⟨a, p, rfl, hp, ha⟩

theorem Gives.bind {x : Reading α} {f : α → Reading β} (hx : Gives ids ids' x P)
    (hf : ∀ a, P a → Gives ids' ids'' (f a) Q) : Gives ids ids'' (x >>= f) Q := fun p hp => by
  obtain ⟨a, q, hxp, hq, ha⟩ := hx p hp
  obtain ⟨b, r, hfq, hr, hb⟩ := hf a ha q hq
  exact ⟨b, r, (bind_of_eq_some hxp).trans hfq, hr, hb⟩

theorem Gives.mono {x : Reading α} {P' : α → Prop} (hx : Gives ids ids' x P)
    (h : ∀ a, P a → P' a) : Gives ids ids' x P' := fun p hp => by
  obtain ⟨a, q, hxp, hq, ha⟩ := hx p hp
  exact ⟨a, q, hxp, hq, h a ha⟩

theorem gives_lift {x : Option α} {a : α} (hx : x = some a) (ha : P a) :
    Gives ids ids (StateT.lift x) P := fun p hp => by
  subst hx
  exact ⟨a, p, rfl, hp, ha⟩

theorem gives_guard {c : Prop} [Decidable c] (hc : c) :
    Gives ids ids (guard c : Reading Unit) fun _ => True := by
  rw [guard, if_pos hc]
  exact gives_pure trivial

theorem gives_warn (fault : Bool) : Gives ids ids (reportIf fault .warning) fun _ => True := by
  unfold reportIf
  split
  · refine fun p hp => ⟨(), p.report .warning, rfl, ⟨?_, ?_⟩, trivial⟩
    · unfold Progress.report
      split
      · exact fun h => hp.reports ((List.mem_cons.mp h).resolve_left (by decide))
      · exact hp.reports
    · unfold Progress.report
      split <;> exact hp.ids
  · exact gives_pure trivial

theorem gives_noError {fault : Bool} (h : fault = false) :
    Gives ids ids (reportIf fault .error) fun _ => True := by
  subst h
  exact gives_pure trivial

theorem gives_declare (pre uri : Text) :
    Gives ids ids (Reading.declare pre uri) fun b => b.pre = pre ∧ b.uri = uri :=
  fun p hp => ⟨_, { p with bindings := p.bindings + 1 }, rfl, ⟨hp.reports, hp.ids⟩, rfl, rfl⟩

end Reading

open Reading (Gives gives_pure gives_lift gives_guard gives_warn gives_noError gives_declare)

/-! ### Values -/

/-- The part that the written form of a character is. -/
def writtenPart (esc : Char → Text) (c : Char) : Part :=
  if isLiteral esc c then .literal c else .code c

/-- The parts of a written text are its characters. -/
theorem parts?_escaped {esc : Char → Text} {s : Text} (h : ∀ c ∈ s, Recovers esc c)
    (hs : isLegal s = true) : parts? (s.flatMap esc) = some (s.map (writtenPart esc)) := by
  induction s with
  | nil => rw [List.flatMap_nil, parts?, List.map_nil]
  | cons c s ih =>
    obtain ⟨hc, hrest⟩ := List.forall_mem_cons.mp h
    obtain ⟨hlegal, hlegals⟩ := Bool.and_eq_true_iff.mp hs
    rw [List.flatMap_cons, List.map_cons, writtenPart]
    rcases hc with ⟨hesc, htextual, -⟩ | ⟨-, w, hw, hread⟩
    · have hamp : c ≠ '&' := by
        rintro rfl
        exact absurd htextual (by decide)
      rw [isLiteral, hesc, beq_self_eq_true, if_pos rfl, List.singleton_append,
        parts?_cons hamp hlegal, ih hrest hlegals]
      rfl
    · have hliteral : isLiteral esc c = false := by
        rw [isLiteral, beq_eq_false_iff_ne]
        intro heq
        -- nothing would follow the ampersand
        obtain ⟨-, rfl⟩ := List.cons.inj (hw.symm.trans heq)
        exact absurd (show (none : Option (Part × Text)) = _ from hread []) (by simp)
      rw [hliteral, hw, List.cons_append, parts?_reference (hread _), ih hrest hlegals]
      rfl

variable {d : Definitions} {depth : Nat} {ids : List Text}

/-- A character that is written as it is in a value means itself. -/
theorem expand_literal {c : Char} (h : isLiteral escapeValueChar c = true) :
    c ≠ '<' ∧ (if isSpace c then ' ' else c) = c := by
  have hne : ∀ e : Char, isLiteral escapeValueChar e = false → c ≠ e := by
    rintro e he rfl
    exact absurd h (by simp [he])
  refine ⟨hne '<' (by decide), ?_⟩
  by_cases hblank : c = ' '
  · subst hblank
    rfl
  · have htab := hne '\t' (by decide)
    have hfeed := hne '\n' (by decide)
    have hreturn := hne '\r' (by decide)
    simp [isSpace, hblank, htab, hfeed, hreturn]

theorem expandWith_written (inner : Text → Reading Text) (v : Text) :
    d.expandWith inner (v.map (writtenPart escapeValueChar)) = pure v := by
  unfold Definitions.expandWith
  suffices h : ∀ f : Part → Reading Text,
      (∀ c, f (writtenPart escapeValueChar c) = pure [c]) →
      (v.map (writtenPart escapeValueChar)).mapM f = pure (v.map fun c => [c]) by
    rw [h _ fun c => ?_, pure_bind]
    · rw [← List.flatMap_def, List.flatMap_singleton']
    · unfold writtenPart
      cases hc : isLiteral escapeValueChar c with
      | false => rfl
      | true =>
        obtain ⟨hlt, hsame⟩ := expand_literal hc
        simp only [if_true, if_neg hlt, hsame]
  intro f hf
  induction v with
  | nil => rfl
  | cons c v ih => rw [List.map_cons, List.mapM_cons, hf, pure_bind, ih, pure_bind, List.map_cons]

/-- **A value is read back from its written form.** -/
theorem gives_value {v : Text} (hv : isLegal v = true) :
    Gives ids ids (d.value depth .text (escapeValue v)) (· = v) := by
  have hlines : normalizeLines (escapeValue v) = escapeValue v :=
    normalizeLines_of_notMem (notMem_escapeValue (by simp) v)
  have hparts : parts? (escapeValue v) = some (v.map (writtenPart escapeValueChar)) :=
    parts?_escaped (fun c _ => recovers_escapeValueChar c) hv
  have hexpand : d.expand depth (v.map (writtenPart escapeValueChar)) = pure v := by
    cases depth <;> exact expandWith_written _ v
  unfold Definitions.value
  rw [hlines]
  refine (gives_lift hparts rfl).bind fun ps hps => ?_
  obtain rfl := hps
  rw [hexpand, pure_bind]
  exact gives_pure rfl

/-! ### Names -/

theorem qualified?_simple {s : Text} (hs : isSimpleName s = true) :
    qualified? s = some ⟨[], s⟩ := by
  have hdrop : s.dropWhile (· != ':') = [] := List.dropWhile_eq_nil_iff.mpr fun c hc => by
    simp only [bne_iff_ne]
    rintro rfl
    exact colon_notMem_of_isSimpleName hs hc
  rw [qualified?, hdrop, hs]
  rfl

theorem qualified?_append {p s : Text} (hp : isSimpleName p = true) (hs : isSimpleName s = true) :
    qualified? (p ++ ':' :: s) = some ⟨p, s⟩ := by
  have hstop : ∀ c ∈ p, (c != ':') = true := fun c hc => by
    simp only [bne_iff_ne]
    rintro rfl
    exact colon_notMem_of_isSimpleName hp hc
  rw [qualified?, Text.takeWhile_until hstop (by decide), Text.dropWhile_until hstop (by decide)]
  simp only [hp, hs, Bool.and_self, if_true]

section Names

variable {scope : Scope} (hscope : ∀ b ∈ scope, b.IsOrderly)

include hscope

/-- **A name that stands among orderly declarations is split as it was put together.** -/
theorem qualified?_print {n : Name} {isAttr : Bool} (h : n.standsIn scope isAttr = true)
    (hloc : isSimpleName n.loc = true) : qualified? n.print = some ⟨n.pre, n.loc⟩ := by
  unfold Name.print
  split
  · rename_i hpre
    rw [hpre]
    exact qualified?_simple hloc
  · rename_i hpre
    exact qualified?_append (Name.isSimpleName_pre hscope h hpre) hloc

/-- Attributes that are written the same have the same name. -/
theorem Name.bare_eq_of_print {n m : Name} (hn : n.standsIn scope true = true)
    (hm : m.standsIn scope true = true) (hnloc : isSimpleName n.loc = true)
    (hmloc : isSimpleName m.loc = true) (h : n.print = m.print) : n.bare = m.bare := by
  have hsplit := qualified?_print hscope hn hnloc
  rw [h, qualified?_print hscope hm hmloc] at hsplit
  obtain ⟨hpre, hloc⟩ := Qualified.mk.inj (Option.some.inj hsplit)
  refine Name.bare_eq_iff.mpr ⟨?_, hloc.symm⟩
  unfold Name.standsIn at hn hm
  rw [hpre] at hm
  split at hn
  · rename_i hempty
    rw [if_pos hempty, if_pos rfl, beq_iff_eq] at hm
    rw [if_pos rfl, beq_iff_eq] at hn
    rw [hn, hm]
  · rename_i hne
    rw [if_neg hne, beq_iff_eq] at hm
    rw [beq_iff_eq] at hn
    exact Option.some.inj (hn.symm.trans hm)

theorem print_eq_xmlId {n : Name} {isAttr : Bool} (h : n.standsIn scope isAttr = true)
    (hloc : isSimpleName n.loc = true) (hid : n.print = "xml:id".toList) :
    n.is xmlUri "id" = true := by
  have hsplit := qualified?_print hscope h hloc
  rw [hid] at hsplit
  obtain ⟨hpre, hloc'⟩ := Qualified.mk.inj (Option.some.inj
    ((show qualified? "xml:id".toList = some ⟨"xml".toList, "id".toList⟩ by decide).symm.trans
      hsplit))
  rw [Name.standsIn, ← hpre, if_neg (by decide), beq_iff_eq] at h
  have huri : n.uri = xmlUri := (Option.some.inj h).symm
  rw [Name.is, huri, ← hloc', beq_self_eq_true, beq_self_eq_true]
  rfl

end Names

theorem gives_qualify {s : Text} {q : Qualified} (h : qualified? s = some q) :
    Gives ids ids (qualify s) (· = q) := by
  unfold qualify
  rw [h]
  exact gives_pure rfl

/-! ### Declarations -/

/-- What a declaration says. -/
def Binding.said (b : Binding) : Text × Text := (b.pre, b.uri)

/-- What a prefix stands for depends only on what declarations say. -/
theorem uri?_of_map_said {scope scope' : Scope}
    (h : scope'.map Binding.said = scope.map Binding.said) : scope'.uri? = scope.uri? := by
  have hfind : ∀ (bs : Scope) (pre : Text),
      ((List.find? (fun b : Binding => b.pre == pre) bs).map Binding.uri) =
        ((bs.map Binding.said).find? fun p => p.1 == pre).map Prod.snd := fun bs pre => by
    rw [List.find?_map, Option.map_map]
    rfl
  funext pre
  unfold Scope.uri? Scope.find?
  split
  · rfl
  · rw [hfind, hfind, h]

theorem typeOf_of_nil (hd : d.attributes = []) (element name : Text) :
    d.typeOf element name = .text := by
  rw [Definitions.typeOf, Definitions.rule?, hd]
  rfl

theorem gives_declarePrefix {b : Binding} (hb : b.IsOrderly) {bs : List Binding}
    (hfresh : b.pre ∉ bs.map Binding.pre) :
    Gives ids ids (declarePrefix bs b.pre b.uri) fun cs => ∃ c, c.said = b.said ∧ cs = bs ++ [c] := by
  have huri : Gives ids ids (checkUri b.pre b.uri) fun _ => True := by
    unfold checkUri
    split
    · exact gives_pure trivial
    · rename_i hne
      rw [if_pos (hb.address.resolve_left hne)]
      exact gives_warn _
  have hnone : (bs.all fun c => c.pre != b.pre) = true := by
    rw [List.all_eq_true]
    intro c hc
    rw [bne_iff_ne]
    rintro h
    exact hfresh (h ▸ List.mem_map_of_mem hc)
  unfold declarePrefix
  rw [if_pos hb.allowed]
  refine huri.bind fun _ _ => (gives_guard hnone).bind fun _ _ => ?_
  refine (gives_declare b.pre b.uri).bind fun c hc => gives_pure ⟨c, ?_, rfl⟩
  exact Prod.ext hc.1 hc.2

theorem declares?_key {b : Binding} (hb : b.IsOrderly) :
    ∃ q, qualified? b.key = some q ∧ q.declares? = some b.pre := by
  unfold Binding.key
  split
  · rename_i hpre
    refine ⟨⟨[], "xmlns".toList⟩, by decide, ?_⟩
    rw [hpre]
    decide
  · rename_i hpre
    have hsplit := qualified?_append (p := "xmlns".toList) (by decide)
      (hb.simple.resolve_left hpre)
    exact ⟨⟨"xmlns".toList, b.pre⟩, hsplit, if_pos rfl⟩

/-- A declaration is read back. -/
theorem gives_readBinding (hd : d.attributes = []) {b : Binding} (hb : b.IsOrderly) (element : Text)
    {as : Attributes} (hfresh : b.pre ∉ as.bindings.map Binding.pre) :
    Gives ids ids (d.readAttribute depth element as b.raw) fun r =>
      ∃ c, c.said = b.said ∧ r = { as with bindings := as.bindings ++ [c] } := by
  obtain ⟨q, hq, hdeclares⟩ := declares?_key hb
  unfold Definitions.readAttribute
  rw [typeOf_of_nil hd]
  refine (gives_qualify hq).bind fun q' hq' => ?_
  obtain rfl := hq'
  refine (gives_value hb.legal).bind fun v hv => ?_
  obtain rfl := hv
  simp only [hdeclares]
  refine (gives_declarePrefix hb hfresh).bind fun cs hcs => ?_
  obtain ⟨c, hc, rfl⟩ := hcs
  exact gives_pure ⟨c, hc, rfl⟩

/-- The declarations of a tag are read back. -/
theorem gives_readBindings (hd : d.attributes = []) (element : Text) {bs : List Binding}
    (hbs : ∀ b ∈ bs, b.IsOrderly) (as : Attributes)
    (hnodup : (as.bindings.map Binding.pre ++ bs.map Binding.pre).Nodup) :
    Gives ids ids ((bs.map Binding.raw).foldlM (d.readAttribute depth element) as) fun r =>
      ∃ cs, cs.map Binding.said = bs.map Binding.said ∧
        r = { as with bindings := as.bindings ++ cs } := by
  induction bs generalizing as with
  | nil => exact gives_pure ⟨[], rfl, by rw [List.append_nil]⟩
  | cons b bs ih =>
    obtain ⟨hb, hrest⟩ := List.forall_mem_cons.mp hbs
    have hfresh : b.pre ∉ as.bindings.map Binding.pre := fun h =>
      (List.nodup_append.mp hnodup).2.2 _ h _ List.mem_cons_self rfl
    rw [List.map_cons, List.foldlM_cons]
    refine (gives_readBinding hd hb element hfresh).bind fun r hr => ?_
    obtain ⟨c, hc, rfl⟩ := hr
    have hpre : c.pre = b.pre := congrArg Prod.fst hc
    have hnodup' : ((as.bindings ++ [c]).map Binding.pre ++ bs.map Binding.pre).Nodup := by
      rw [List.map_append, List.map_singleton, hpre, List.append_assoc]
      exact hnodup
    refine (ih hrest _ hnodup').mono fun r hr => ?_
    obtain ⟨cs, hcs, rfl⟩ := hr
    refine ⟨c :: cs, ?_, ?_⟩
    · rw [List.map_cons, List.map_cons, hc, hcs]
    · rw [List.append_assoc, List.singleton_append]

/-! ### Attributes -/

/-- An attribute with its name in parts. -/
def Attr.parted (a : Attr) : RawAttr × Qualified :=
  (⟨a.name.print, a.value⟩, ⟨a.name.pre, a.name.loc⟩)

section Attributes

variable {scope : Scope} (hscope : ∀ b ∈ scope, b.IsOrderly)

include hscope

theorem declares?_of_isOrderly {a : Attr} (ha : a.IsOrderly)
    (hstands : a.name.standsIn scope true = true) :
    (Qualified.mk a.name.pre a.name.loc).declares? = none := by
  unfold Qualified.declares?
  have hpre : a.name.pre ≠ "xmlns".toList := by
    intro h
    rw [Name.standsIn, h, if_neg (by decide), beq_iff_eq] at hstands
    obtain ⟨b, hb, hbpre, -⟩ := mem_of_uri? hstands
    rcases hb with rfl | hb
    · exact absurd hbpre (by decide)
    · have hallowed := (hscope b hb).allowed
      rw [mayDeclare, hbpre] at hallowed
      exact absurd hallowed (by simp)
  rw [if_neg hpre, if_neg]
  rintro ⟨hempty, hloc⟩
  simp only at hempty hloc
  rw [Name.standsIn, if_pos hempty, if_pos rfl, beq_iff_eq] at hstands
  exact ha.declaresNot hstands hloc

/-- An attribute is read back. -/
theorem gives_readAttr (hd : d.attributes = []) (element : Text) {a : Attr} (ha : a.IsOrderly)
    (hstands : a.name.standsIn scope true = true) (as : Attributes) :
    Gives ids ids (d.readAttribute depth element as a.raw)
      (· = { as with others := as.others ++ [a.parted] }) := by
  unfold Definitions.readAttribute
  rw [typeOf_of_nil hd]
  refine (gives_qualify (qualified?_print hscope hstands ha.simple)).bind fun q hq => ?_
  obtain rfl := hq
  refine (gives_value ha.legal).bind fun v hv => ?_
  obtain rfl := hv
  simp only [declares?_of_isOrderly hscope ha hstands]
  exact (gives_warn _).bind fun _ _ => gives_pure rfl

/-- The attributes of a tag are read back. -/
theorem gives_readAttrs (hd : d.attributes = []) (element : Text) {attrs : List Attr}
    (hattrs : ∀ a ∈ attrs, a.IsOrderly) (hstand : ∀ a ∈ attrs, a.name.standsIn scope true = true)
    (as : Attributes) :
    Gives ids ids ((attrs.map Attr.raw).foldlM (d.readAttribute depth element) as)
      (· = { as with others := as.others ++ attrs.map Attr.parted }) := by
  induction attrs generalizing as with
  | nil => exact gives_pure (by rw [List.map_nil, List.append_nil])
  | cons a attrs ih =>
    obtain ⟨ha, hrest⟩ := List.forall_mem_cons.mp hattrs
    obtain ⟨hstands, hstand⟩ := List.forall_mem_cons.mp hstand
    rw [List.map_cons, List.foldlM_cons]
    refine (gives_readAttr hscope hd element ha hstands as).bind fun r hr => ?_
    obtain rfl := hr
    refine (ih hrest hstand _).mono fun r hr => ?_
    rw [hr, List.map_cons, List.append_assoc, List.singleton_append]

end Attributes

/-- Names one attribute after those that are named. -/
def nameOne (scope : Scope) (done : List Attr) (x : RawAttr × Qualified) : Reading (List Attr) := do
  let n ← scope.attributeName x.2
  Reading.reportIf
    (n.ns.isSome && done.any fun b => b.name.uri == n.uri && b.name.loc == n.loc) .error
  pure (done ++ [⟨n, x.1.value⟩])

theorem nameAttributes_eq (scope : Scope) (as : List (RawAttr × Qualified)) :
    Definitions.nameAttributes scope as = (do
      guard (as.map fun a => a.1.name).Nodup
      as.foldlM (nameOne scope) []) := rfl

section Naming

variable {scope scope' : Scope} (huris : scope'.uri? = scope.uri?)

include huris

theorem gives_name {n : Name} {isAttr : Bool} (h : n.standsIn scope isAttr = true)
    (hpre : n.pre ≠ []) :
    Gives ids ids (scope'.name ⟨n.pre, n.loc⟩) fun m => m.bare = n.bare := by
  rw [Name.standsIn, if_neg hpre, ← huris, beq_iff_eq] at h
  obtain ⟨b, hb, huri⟩ := Option.map_eq_some_iff.mp h
  unfold Scope.name
  simp only [hb]
  exact gives_pure (Name.bare_eq_iff.mpr ⟨huri, rfl⟩)

/-- The name of an attribute is read back. -/
theorem gives_attributeName {n : Name} (h : n.standsIn scope true = true) :
    Gives ids ids (scope'.attributeName ⟨n.pre, n.loc⟩) fun m => m.bare = n.bare := by
  unfold Scope.attributeName
  split
  · rename_i hpre
    rw [Name.standsIn, if_pos hpre, if_pos rfl, beq_iff_eq] at h
    exact gives_pure (Name.bare_eq_iff.mpr ⟨h.symm, rfl⟩)
  · rename_i hpre
    exact gives_name huris h hpre

/-- The name of an element is read back. -/
theorem gives_elementName {n : Name} (h : n.standsIn scope false = true) :
    Gives ids ids (scope'.elementName ⟨n.pre, n.loc⟩) fun m => m.bare = n.bare := by
  unfold Scope.elementName
  split
  · rename_i hpre
    rw [Name.standsIn, if_pos hpre, ← huris] at h
    simp only [Bool.false_eq_true, if_false, beq_iff_eq] at h
    refine gives_pure (Name.bare_eq_iff.mpr ⟨?_, rfl⟩)
    rw [← h, Scope.uri?]
    cases scope'.find? [] with
    | none => rfl
    | some b =>
      by_cases hb : b.uri = []
      · simp [Name.uri, hb, Option.filter]
      · simp [Name.uri, hb, Option.filter]
  · rename_i hpre
    exact gives_name huris h hpre

/-- The names of attributes are read back, one after another. -/
theorem gives_nameEach {attrs : List Attr} (done done' : List Attr)
    (hstand : ∀ a ∈ attrs, a.name.standsIn scope true = true)
    (hdistinct : ((done ++ attrs).map fun a => a.name.bare).Nodup)
    (hdone : done'.map Attr.bare = done.map Attr.bare) :
    Gives ids ids ((attrs.map Attr.parted).foldlM (nameOne scope') done') fun as =>
      as.map Attr.bare = (done ++ attrs).map Attr.bare := by
  induction attrs generalizing done done' with
  | nil => exact gives_pure (by rw [List.append_nil, hdone])
  | cons a attrs ih =>
    obtain ⟨hstands, hstand⟩ := List.forall_mem_cons.mp hstand
    rw [List.map_cons, List.foldlM_cons]
    have hone : Gives ids ids (nameOne scope' done' a.parted) fun as =>
        as.map Attr.bare = (done ++ [a]).map Attr.bare := by
      refine (gives_attributeName huris hstands).bind fun n hn => ?_
      have hnew : (done'.any fun b => b.name.uri == n.uri && b.name.loc == n.loc) = false := by
        rw [Bool.eq_false_iff]
        intro hany
        obtain ⟨b, hb, hsame⟩ := List.any_eq_true.mp hany
        simp only [Bool.and_eq_true, beq_iff_eq] at hsame
        have hbare : b.name.bare = a.name.bare := (Name.bare_eq_iff.mpr hsame).trans hn
        obtain ⟨c, hc, hcb⟩ : ∃ c ∈ done, c.bare = b.bare :=
          List.mem_map.mp (hdone ▸ List.mem_map_of_mem hb)
        have hcname : c.name.bare = b.name.bare := congrArg Attr.name hcb
        rw [List.map_append] at hdistinct
        exact (List.nodup_append.mp hdistinct).2.2 _ (List.mem_map_of_mem hc) _
          (List.mem_cons_self) (hcname.trans hbare)
      rw [hnew, Bool.and_false]
      refine (gives_noError rfl).bind fun _ _ => gives_pure ?_
      rw [List.map_append, List.map_append, hdone]
      exact congrArg (fun m => done.map Attr.bare ++ [Attr.mk m a.value]) hn
    have hdistinct' : ((done ++ [a] ++ attrs).map fun a => a.name.bare).Nodup := by
      rwa [List.append_assoc, List.singleton_append]
    refine hone.bind fun as has => (ih _ _ hstand hdistinct' has).mono fun r hr => ?_
    rw [hr, List.append_assoc, List.singleton_append]

end Naming

/-- The names that attributes give to their element are taken in. -/
theorem gives_nameElements (hd : d.attributes = []) {scope : Scope}
    (hscope : ∀ b ∈ scope, b.IsOrderly) (element : Text) {attrs : List Attr}
    (hattrs : ∀ a ∈ attrs, a.IsOrderly) (hstand : ∀ a ∈ attrs, a.name.standsIn scope true = true)
    (hnodup : (ids ++ attrs.flatMap Attr.ids).Nodup) :
    Gives ids (ids ++ attrs.flatMap Attr.ids)
      ((attrs.map Attr.parted).forM fun a => d.nameElement element a.1) fun _ => True := by
  induction attrs generalizing ids with
  | nil =>
    rw [List.flatMap_nil, List.append_nil]
    exact gives_pure trivial
  | cons a attrs ih =>
    obtain ⟨ha, hrest⟩ := List.forall_mem_cons.mp hattrs
    obtain ⟨hstands, hstand⟩ := List.forall_mem_cons.mp hstand
    rw [List.flatMap_cons, ← List.append_assoc] at hnodup ⊢
    have hone : Gives ids (ids ++ a.ids) (d.nameElement element ⟨a.name.print, a.value⟩)
        fun _ => True := by
      unfold Definitions.nameElement
      by_cases hid : a.name.print = "xml:id".toList
      · have his := print_eq_xmlId hscope hstands ha.simple hid
        have hsimple := ha.id his
        have hids : a.ids = [a.value] := if_pos his
        have hvalue : a.value ≠ [] := by
          intro h
          rw [h] at hsimple
          exact absurd hsimple (by decide)
        have hfresh : a.value ∉ ids := fun h => by
          rw [hids] at hnodup
          exact (List.nodup_append.mp (List.nodup_append.mp hnodup).1).2.2 _ h _
            List.mem_cons_self rfl
        refine (gives_noError ?_).bind fun _ _ => ?_
        · show decide (_ ∧ !isSimpleName (trimmed a.value)) = false
          simp [hsimple]
        · rw [if_pos ⟨.inl hid, hvalue⟩, hids]
          refine fun p hp => ⟨(), { p with ids := a.value :: p.ids }, ?_, ⟨hp.reports, ?_⟩, trivial⟩
          · show (if a.value ∈ p.ids then Reading.report .error
              else set { p with ids := a.value :: p.ids }) p = _
            rw [if_neg fun h => hfresh (hp.ids h)]
            rfl
          · refine List.cons_subset.mpr ⟨by simp, fun v hv => ?_⟩
            exact List.mem_append_left _ (hp.ids hv)
      · refine (gives_noError (decide_eq_false fun h => hid h.1)).bind fun _ _ => ?_
        rw [if_neg]
        · refine fun p hp => ⟨(), p, rfl, ⟨hp.reports, fun v hv => ?_⟩, trivial⟩
          exact List.mem_append_left _ (hp.ids hv)
        · rw [typeOf_of_nil hd]
          rintro ⟨h | h, -⟩
          · exact hid h
          · exact absurd h (by decide)
    exact hone.bind fun _ _ => ih hrest hstand hnodup

/-! ### Tags -/

/-- **A legible tag is read back**, with the same names and values, and with declarations that say
the same. -/
theorem gives_tag (hd : d.attributes = []) {scope scope' : Scope}
    (hscope : ∀ b ∈ scope, b.IsOrderly) (hsaid : scope'.map Binding.said = scope.map Binding.said)
    {t : Tag} (ht : t.Legible scope) (hnodup : (ids ++ t.ids).Nodup) :
    Gives ids (ids ++ t.ids) (d.tag depth true scope' t.name.print t.rawAttrs) fun t' =>
      t'.bare = t.bare ∧ t'.bindings.map Binding.said = t.bindings.map Binding.said := by
  have hinner : ∀ b ∈ t.bindings ++ scope, b.IsOrderly := fun b hb =>
    (List.mem_append.mp hb).elim (ht.declares.orderly b) (hscope b)
  have hwritten : (t.attrs.map fun a => a.name.print).Nodup := by
    refine List.pairwise_map.mpr ((List.pairwise_map.mp ht.orderly.distinct).imp_of_mem ?_)
    intro a b ha hb hne h
    exact hne (Name.bare_eq_of_print hinner (ht.attrs a ha) (ht.attrs b hb)
      (ht.orderly.attrs a ha).simple (ht.orderly.attrs b hb).simple h)
  unfold Definitions.tag
  refine (gives_qualify (qualified?_print hinner ht.name ht.orderly.simple)).bind fun q hq => ?_
  obtain rfl := hq
  rw [Tag.rawAttrs, List.foldlM_append, bind_assoc]
  refine (gives_readBindings hd _ ht.declares.orderly ⟨[], []⟩ ht.declares.distinct).bind
    fun r hr => ?_
  obtain ⟨bs, hbs, rfl⟩ := hr
  refine (gives_readAttrs hinner hd _ ht.orderly.attrs ht.attrs _).bind fun r hr => ?_
  obtain rfl := hr
  simp only [List.nil_append]
  have hfallbacks : d.addFallbacks t.name.print bs = pure bs := by
    rw [Definitions.addFallbacks, hd]
    rfl
  rw [hfallbacks, pure_bind]
  have huris : Scope.uri? (bs ++ scope') = Scope.uri? (t.bindings ++ scope) :=
    uri?_of_map_said (by rw [List.map_append, List.map_append, hbs, hsaid])
  have hnames : ((t.attrs.map Attr.parted).map fun a => a.1.name).Nodup := by
    rw [List.map_map]
    exact hwritten
  rw [nameAttributes_eq, bind_assoc]
  refine (gives_guard hnames).bind fun _ _ => ?_
  refine (gives_nameEach huris [] [] ht.attrs ht.orderly.distinct rfl).bind
    fun as has => ?_
  refine (gives_elementName huris ht.name).bind fun n hn => ?_
  rw [if_pos trivial]
  refine (gives_nameElements hd hinner _ ht.orderly.attrs ht.attrs hnodup).bind fun _ _ => ?_
  refine gives_pure ⟨?_, hbs⟩
  rw [Tag.bare, Tag.bare, hn, has, List.nil_append]

end Xml
end Formulary
