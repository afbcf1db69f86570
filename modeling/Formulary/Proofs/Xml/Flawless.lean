/-
# Documents without faults

A document that is read without an error, and that defines neither entities nor attributes, is
legible: it can be written again and is read back then. So are its open elements while it is
read, each among the declarations around it and with room for those that are opened in it
(`Xml.FramesLegible`). An error does not stop the reading, and a document with one counts as
read if a warning comes last; so it is asked for that none is noted at all.

Key definitions: `Xml.Stack.Legible`, `Xml.Stack.Sound`, `Xml.isFlawless`.
Key theorems: `Xml.clears_readTokens`, `Xml.isLegible_of_isFlawless`.
-/
import Formulary.Proofs.Xml.Clearing
import Formulary.Proofs.Xml.Fitting
import Formulary.Proofs.Xml.Standing

namespace Formulary
namespace Xml

open Reading (Clean Clears clean_pure clean_failure clean_errorIf clean_warningIf)

/-! ### Names of elements -/

mutual
/-- The names that are given to elements in a node are those that its tags give. -/
theorem Node.ids_eq_flatMap_tags : ∀ n : Node, n.ids = n.tags.flatMap Tag.ids
  | .element t ns => by
    rw [Node.ids, Node.tags, List.flatMap_cons, idsAll_eq_flatMap_tags ns]
  | .text _ => rfl
  | .comment _ => rfl
  | .instruction _ _ => rfl
  | .reference _ => rfl
/-- The names that are given to elements in nodes are those that their tags give. -/
theorem idsAll_eq_flatMap_tags : ∀ ns : List Node, idsAll ns = (tagsAll ns).flatMap Tag.ids
  | [] => rfl
  | n :: ns => by
    rw [idsAll, tagsAll, List.flatMap_append, n.ids_eq_flatMap_tags, idsAll_eq_flatMap_tags ns]
end

/-! ### Open elements -/

/-- Whether open elements are legible so far. Each has the scope that those outside it make, and
room for those that are opened in it. -/
def FramesLegible : List Frame → Prop
  | [] => True
  | f :: up =>
    f.scope = innerScope up ∧ up.length < Stack.maxOpen ∧ f.tag.Legible f.scope ∧
      AllLegible (f.tag.bindings ++ f.scope) (Stack.maxOpen - up.length - 1) f.nodes ∧
      FramesLegible up

/-- Whether what has been finished of a document is legible. -/
def Base.Legible : Base → Prop
  | .document root => ∀ e ∈ root, e.node.Legible [] Stack.maxOpen
  | .entity _ => False

theorem FramesLegible.isOrderly : ∀ {frames : List Frame}, FramesLegible frames →
    ∀ b ∈ innerScope frames, b.IsOrderly
  | [], _ => fun _ hb => absurd hb List.not_mem_nil
  | _ :: _, ⟨hscope, _, htag, _, hup⟩ =>
    List.forall_mem_append.mpr ⟨htag.declares.orderly, hscope ▸ hup.isOrderly⟩

namespace Stack

/-- Whether what has been read of a document is legible. -/
def Legible (k : Stack) : Prop := k.base.Legible ∧ FramesLegible k.frames

/-- The room for elements in the innermost of those that are open. -/
def room (k : Stack) : Nat := maxOpen - k.frames.length

variable {k k' : Stack}

theorem Legible.change {f : List Node → List Node} (hk : k.Legible)
    (hf : ∀ ns, AllLegible k.scope k.room ns → AllLegible k.scope k.room (f ns))
    (h : k.change f = some k') : k'.Legible := by
  obtain ⟨b, g, up, rfl, rfl⟩ | ⟨ns, rfl, rfl⟩ := change_cases h
  · obtain ⟨hb, hscope, hlt, htag, hnodes, hup⟩ := hk
    exact ⟨hb, hscope, hlt, htag, hf _ hnodes, hup⟩
  · exact hk.1.elim

theorem Legible.addText {s : Text} (hk : k.Legible) (hs : isLegal s = true)
    (h : k.addText s = some k') : k'.Legible := by
  refine hk.change (fun ns hns => ?_) h
  unfold joinText
  split
  · obtain ⟨ht, hns⟩ := hns
    refine ⟨(isLegal_append _ _).trans ?_, hns⟩
    rw [show isLegal _ = true from ht, hs]
    rfl
  · exact ⟨hs, hns⟩

theorem Legible.addNode {n : Node} (hk : k.Legible) (hn : n.Legible k.scope k.room)
    (h : k.addNode n = some k') : k'.Legible :=
  hk.change (f := fun ns => n :: ns) (fun _ hns => ⟨hn, hns⟩) h

theorem Legible.addAside {n : Node} (hk : k.Legible) (hn : n.Legible k.scope k.room) :
    (k.addAside n).Legible := by
  unfold Stack.addAside
  cases h : k.addNode n with
  | none => exact hk
  | some k' => exact hk.addNode hn h

theorem Legible.addElement {e : Element} (hk : k.Legible) (he : e.node.Legible k.scope k.room)
    (h : k.addElement e = some k') : k'.Legible := by
  obtain ⟨rfl, rfl⟩ | h := addElement_cases h
  · refine ⟨fun e' he' => ?_, trivial⟩
    obtain rfl := Option.some.inj he'
    exact he
  · exact hk.addNode he h

theorem Legible.enter {t : Tag} {written : Text} {closed : Bool} (hk : k.Legible)
    (ht : t.Legible k.scope) (hroom : k.frames.length < maxOpen)
    (h : k.enter t written closed = some k') : k'.Legible := by
  unfold Stack.enter at h
  split at h
  · exact hk.addElement (e := ⟨t, []⟩) ⟨Nat.sub_pos_of_lt hroom, ht, trivial⟩ h
  · obtain rfl := Option.some.inj h
    exact ⟨hk.1, k.scope_eq, hroom, ht, trivial, hk.2⟩

theorem Legible.leave {written : Text} (hk : k.Legible) (h : k.leave written = some k') :
    k'.Legible := by
  obtain ⟨b, f, up, rfl, hclosed⟩ := leave_cases h
  obtain ⟨hb, hscope, hlt, htag, hnodes, hup⟩ := hk
  refine Legible.addElement (k := ⟨b, up⟩) ⟨hb, hup⟩ (e := ⟨f.tag, f.nodes.reverse⟩) ?_ hclosed
  have hnodes' : AllLegible (f.tag.bindings ++ f.scope) (maxOpen - up.length - 1)
      f.nodes.reverse := allLegible_iff.mpr fun n hn =>
    allLegible_iff.mp hnodes n (List.mem_reverse.mp hn)
  rw [Stack.scope_eq, ← hscope]
  exact ⟨Nat.sub_pos_of_lt hlt, htag, hnodes'⟩

theorem Legible.addRaw {d : Definitions} {st : Setting} {raw rest : Text}
    (hd : d.manner = .faithful) (hk : k.Legible) (hraw : isLegal raw = true)
    (h : k.addRaw d st raw rest = some k') : k'.Legible := by
  obtain rfl | h := addRaw_cases hd h
  · exact hk
  · exact hk.addText (isLegal_normalizeLines hraw) h

/-- The names that have been given to elements. -/
def ids (k : Stack) : List Text := k.tags.flatMap Tag.ids

/-- Whether what has been read of a document is legible, and the given names are those that
elements have got, each another. -/
structure Sound (is : List Text) (k : Stack) : Prop where
  legible : k.Legible
  ids : is.Perm k.ids
  nodup : k.ids.Nodup

theorem Sound.grow {is : List Text} {ts : List Tag} (hk : k'.Legible)
    (hts : k'.tags.Perm (ts ++ k.tags)) (his : is.Perm (ts.flatMap Tag.ids ++ k.ids))
    (hnodup : (ts.flatMap Tag.ids ++ k.ids).Nodup) : k'.Sound is := by
  have hperm := hts.flatMap_right Tag.ids
  rw [List.flatMap_append] at hperm
  exact ⟨hk, his.trans hperm.symm, hperm.nodup_iff.mpr hnodup⟩

theorem Sound.step {is : List Text} (h : k.Sound is) (hk : k'.Legible)
    (hts : k'.tags.Perm k.tags) : k'.Sound is :=
  have hids : is.Perm (List.flatMap Tag.ids [] ++ k.ids) := h.ids
  .grow hk hts hids h.nodup

theorem sound_start : Stack.Sound [] ⟨.document none, []⟩ :=
  ⟨⟨fun _ h => absurd h (by simp), trivial⟩, .nil, List.nodup_nil⟩

/-- The root of a document that is read to its end may be written again. -/
theorem Sound.isLegible {is : List Text} {e : Element}
    (h : Stack.Sound is ⟨.document (some e), []⟩) : e.IsLegible :=
  ⟨h.legible.1 e rfl, e.node.ids_eq_flatMap_tags ▸ h.nodup⟩

end Stack

/-! ### Tokens -/

theorem clean_checkTarget (target : Text) :
    Clean (Definitions.checkTarget target) fun _ => ':' ∉ target := by
  unfold Definitions.checkTarget
  split
  · rename_i hknown
    refine clean_pure ?_
    obtain ⟨w, hw, heq⟩ := List.any_eq_true.mp hknown
    rw [beq_iff_eq.mp heq]
    have hall : ∀ w ∈ Definitions.knownTargets, ':' ∉ w.toList := by decide
    exact hall w hw
  · exact (clean_warningIf _).bind fun _ => (clean_errorIf _).mono fun _ h _ =>
      of_decide_eq_false h

section Tokens

variable {d : Definitions} {readText : Nat → Text → Text → Reading (List Node)} {st : Setting}
  (hd : d.IsBare)

include hd

/-- There is nothing to refer to. -/
theorem clean_readReference (name : Text) (k : Stack) :
    Clean (readReference d readText st name k) fun _ => False := by
  unfold readReference
  simp only [hd.entities, hd.manner, List.lookup_nil]
  exact (Definitions.clean_undeclared hd).bind fun _ =>
    Reading.clean_lift fun _ _ => False.elim

/-- **Tokens that are read without an error keep what is read legible**, and elements get names
of their own. -/
theorem clears_readTokens (hst : st.depth = Definitions.maxDepth) {ts : List Token}
    (hfits : ∀ t ∈ ts, t.Fits) (hlegal : ∀ t ∈ ts, t.IsLegal) (k : Stack) :
    Clears (fun ids => k.Sound ids) (readTokens d readText st ts k) fun ids k' => k'.Sound ids := by
  induction ts generalizing k with
  | nil => exact Reading.clears_pure fun _ h => h
  | cons t ts ih =>
    obtain ⟨hfit, hfits⟩ := List.forall_mem_cons.mp hfits
    obtain ⟨hchars, hlegal⟩ := List.forall_mem_cons.mp hlegal
    have hrest := fun k' => ih hfits hlegal k'
    have hstep : ∀ x : Option Stack,
        (∀ k', x = some k' → k'.tags.Perm k.tags ∧ (k.Legible → k'.Legible)) →
        Clears (fun ids => k.Sound ids)
          (StateT.lift x >>= fun k' => readTokens d readText st ts k')
          fun ids k' => k'.Sound ids := fun x hx =>
      (Reading.clears_lift fun ids k' hk h => hk.step ((hx k' h).2 hk.legible) (hx k' h).1).bind
        hrest
    have haside : ∀ n : Node, n.tags = [] → (∀ scope room, n.Legible scope room) →
        Clears (fun ids => k.Sound ids) (readTokens d readText st ts (k.addAside n))
          fun ids k' => k'.Sound ids := fun n hn hlegible =>
      (hrest _).of_imp fun ids hk =>
        hk.step (hk.legible.addAside (hlegible _ _)) (Stack.tags_addAside hn)
    cases t with
    | text raw rest =>
      exact hstep _ fun _ h =>
        ⟨Stack.tags_addRaw hd.manner h, fun hk => hk.addRaw hd.manner hchars h⟩
    | char c =>
      have hc : isLegal [c] = true := by simpa [isLegal, Token.IsLegal] using hchars
      exact hstep _ fun _ h => ⟨Stack.tags_addText h, fun hk => hk.addText hc h⟩
    | cdata s => exact hstep _ fun _ h => ⟨Stack.tags_addText h, fun hk => hk.addText hchars h⟩
    | comment s => exact haside _ rfl fun _ _ => hfit
    | instruction target data =>
      obtain ⟨hname, htarget, hxml, hdata⟩ := hfit
      refine (clean_checkTarget target).bind_clears fun _ => ?_
      refine (hrest _).of_imp fun ids h => ?_
      obtain ⟨hk, hcolon⟩ := h
      have hnode : (Node.instruction target data).isOrderly = true := by
        have hcolons : target.all (· != ':') = true := List.all_eq_true.mpr fun c hc =>
          bne_iff_ne.mpr fun heq => hcolon (heq ▸ hc)
        rw [Node.isOrderly, isTarget, hname, htarget, hcolons, hdata]
        simpa using hxml
      exact hk.step (hk.legible.addAside hnode) (Stack.tags_addAside rfl)
    | reference name =>
      exact (clean_readReference hd name k).bind_clears fun k' =>
        (hrest k').of_imp fun ids h => h.2.elim
    | opening name attrs closed =>
      obtain ⟨hname, hattrs⟩ := hfit
      refine (Reading.clean_guard _).bind_clears fun _ => ?_
      rw [hst, decide_eq_true rfl]
      have htag := Definitions.clears_tag hd (Definitions.maxDepth - 1) k.scope hname hattrs k.ids
      refine Reading.Clears.bind (J := fun ids t => (t.Legible k.scope ∧
        ids.Perm (t.ids ++ k.ids) ∧ (t.ids ++ k.ids).Nodup) ∧ k.Legible ∧
          k.frames.length < Stack.maxOpen) ?_ fun t => ?_
      · refine (htag.frame _).of_imp fun ids h => ?_
        obtain ⟨hk, hroom⟩ := h
        refine ⟨⟨⟨hk.ids, hk.nodup⟩, ?_⟩, hk.legible, ?_⟩
        · exact k.scope_eq ▸ hk.legible.2.isOrderly
        · exact Nat.lt_of_le_of_lt (Nat.le_add_left _ _) hroom
      · refine (Reading.clears_lift fun ids k' h hk' => ?_).bind hrest
        obtain ⟨⟨ht, hids, hnodup⟩, hk, hroom⟩ := h
        rw [← List.flatMap_singleton Tag.ids t] at hids hnodup
        exact .grow (hk.enter ht hroom hk') (Stack.tags_enter hk') hids hnodup
    | closing name => exact hstep _ fun _ h => ⟨Stack.tags_leave h, fun hk => hk.leave h⟩

end Tokens

/-! ### Documents -/

/-- Whether a markup declaration defines neither an entity nor attributes. -/
def Declaration.isPlain : Declaration → Bool
  | .attributes _ _ => false
  | .entity _ _ _ => false
  | _ => true

theorem Definitions.IsBare.lookup_parameters {d : Definitions} (hd : d.IsBare) {name : Text}
    {v : EntityValue} (h : d.parameters.lookup name = some v) : False := by
  rw [hd.parameters] at h
  exact absurd h (by simp)

/-- Declarations that define neither entities nor attributes leave nothing of them known. -/
theorem clean_declare {d : Definitions} (hd : d.IsBare) (depth : Nat) {xs : List Declaration}
    (hxs : xs.all Declaration.isPlain = true) :
    (Definitions.declare depth xs d).Yields Definitions.IsBare ∧
      Clean (Definitions.declare depth xs d) fun _ => True := by
  have hthen : ∀ {β : Type} {P : β → Prop} {x : Reading β} {y : Reading Definitions}, Clean x P →
      y.Yields Definitions.IsBare ∧ Clean y (fun _ => True) →
      (x >>= fun _ => y).Yields Definitions.IsBare ∧ Clean (x >>= fun _ => y) fun _ => True :=
    fun hx hy =>
      ⟨Reading.yields_bind fun _ => hy.1, hx.bind fun _ => hy.2.mono fun _ _ _ => trivial⟩
  fun_induction Definitions.declare depth xs d
  case case1 => exact ⟨Reading.yields_pure hd, clean_pure trivial⟩
  all_goals have htail := (Bool.and_eq_true_iff.mp hxs).2
  case case2 d _ n only ih =>
    have hbare : { d with elements := d.elements ++ [(n, only)] }.IsBare :=
      ⟨hd.manner, hd.entities, hd.parameters, hd.attributes⟩
    exact hthen (clean_errorIf _) (ih _ hbare htail)
  case case5 ih => exact hthen (clean_errorIf _) (ih _ hd htail)
  case case6 ih => exact hthen (clean_checkTarget _) (ih _ hd htail)
  case case7 ih => exact ih _ hd htail
  case case8 d _ n d' _ ih =>
    have hbare : d'.IsBare := ⟨hd.manner, hd.entities, hd.parameters, hd.attributes⟩
    exact hthen (Definitions.clean_undeclared hbare) (ih _ hbare htail)
  -- the other declarations define something, or refer to what is not defined
  case case3 | case4 => exact absurd (Bool.and_eq_true_iff.mp hxs).1 (by simp [Declaration.isPlain])
  all_goals exact (hd.lookup_parameters (by assumption)).elim

/-- Whether a document is read without an error, and defines neither entities nor attributes. -/
def isFlawless (s : Text) : Bool :=
  Option.any id do
    let (p, body) ← prolog? .faithful s
    let ts ← lex body
    let (_, progress) ← (readDocument .faithful (Text.byteLength s) p ts).run .start
    pure (p.doctype.all (fun t => t.declarations.all Declaration.isPlain) &&
      !progress.reports.contains .error)

theorem clean_forM_checkTarget (as : List Token) :
    Clean (as.forM fun
      | .instruction target _ => Definitions.checkTarget target
      | _ => pure ()) fun _ => True := by
  induction as with
  | nil => exact clean_pure trivial
  | cons a as ih =>
    refine Clean.bind (P := fun _ => True) ?_ fun _ => ih.mono fun _ h _ => h
    cases a with
    | instruction target _ => exact (clean_checkTarget target).mono fun _ _ => trivial
    | _ => exact clean_pure trivial

/-- **A document that is read without an error is legible**, if it defines neither entities nor
attributes. -/
theorem clears_readDocument (bytes : Nat) {p : Prolog}
    (hp : p.doctype.all (fun t => t.declarations.all Declaration.isPlain) = true)
    {s : Text} {ts : List Token} (hts : lex s = some ts) :
    Clears (· = []) (readDocument .faithful bytes p ts) fun _ e => e.IsLegible := by
  have hread : ∀ d : Definitions, d.IsBare → Clears (· = [])
      (readTokens d (readEntity d Definitions.maxDepth) ⟨bytes, Definitions.maxDepth, 0⟩ ts
        ⟨.document none, []⟩) fun ids k => k.Sound ids := fun d hd =>
    (clears_readTokens hd rfl (fits_of_lex hts) (isLegal_of_lex hts) _).of_imp
      fun ids hids => hids ▸ Stack.sound_start
  have hempty : (Definitions.empty .faithful p.standalone).IsBare := ⟨rfl, rfl, rfl, rfl⟩
  refine (clean_forM_checkTarget p.asides).bind_clears fun _ => ?_
  refine Clears.of_imp (I := (· = [])) ?_ fun ids h => h.1
  split
  · rename_i t ht
    rw [ht] at hp
    have hbare : { Definitions.empty .faithful p.standalone with
        hasExternal := t.hasExternal }.IsBare := ⟨rfl, rfl, rfl, rfl⟩
    obtain ⟨hyields, hdeclare⟩ := clean_declare hbare Definitions.maxDepth hp
    refine (hdeclare _).bind_yields hyields fun d hd => ?_
    refine ((hread d hd).of_imp fun ids h => h.1).bind fun k => ?_
    split
    · exact Reading.clears_pure fun _ hk => hk.isLegible
    · exact Reading.clears_failure
  · refine Clears.bind_yields (J := fun ids _ => ids = []) (Reading.yields_pure hempty)
      (Reading.clears_pure fun _ h => h) fun d hd => (hread d hd).bind fun k => ?_
    split
    · exact Reading.clears_pure fun _ hk => hk.isLegible
    · exact Reading.clears_failure

/-- **What is read without faults can be written again** and read back. -/
theorem isLegible_of_isFlawless {s : Text} (h : isFlawless s = true) {e : Element}
    (he : parse? .faithful s = some e) : e.IsLegible := by
  obtain ⟨⟨p, body⟩, hp, he⟩ := Option.bind_eq_some_iff.mp he
  obtain ⟨ts, hts, he⟩ := Option.bind_eq_some_iff.mp he
  obtain ⟨⟨e', progress⟩, hread, he⟩ := Option.bind_eq_some_iff.mp he
  have heq : e' = e := by
    dsimp only at he
    split at he
    · exact Option.some.inj he
    · exact absurd he (by simp)
  subst heq
  have hflawless : (p.doctype.all (fun t => t.declarations.all Declaration.isPlain) &&
      !progress.reports.contains .error) = true := by
    simpa [isFlawless, hp, hts, hread] using h
  obtain ⟨hplain, hclean⟩ := Bool.and_eq_true_iff.mp hflawless
  have hnone : Severity.error ∉ progress.reports := fun hmem => by
    rw [List.contains_iff_mem.mpr hmem] at hclean
    exact absurd hclean (by decide)
  exact (clears_readDocument _ hplain hts _ _ _ hread hnone).2 rfl

/-- A document in which an element gets a name that is none. -/
def faultyText : Text := "<a xml:id='1'><b xml:space='x'/></a>".toList

-- the warning comes after the error, so the document counts as read
example : isFlawless faultyText = false ∧
    (parse? .faithful faultyText).any (fun e => ¬ e.node.Legible [] Stack.maxOpen) = true := by
  decide +kernel

end Xml
end Formulary
