/-
# The characters of what is read

A document that is read holds characters that a document may hold, and no
others: lexing checks every stretch of text, a reference to a code names one of
these characters, and the text of an entity is lexed like the document.

Key definitions: `Xml.Token.IsLegal`, `Xml.Node.IsLegal`, `Xml.Stack.IsLegal`,
`Xml.Reading.Yields`.
Key theorems: `Xml.isLegal_of_lex`, `Xml.yields_readTokens`, `Xml.yields_readEntity`,
`Xml.isLegal_of_parse?`.
-/
import Formulary.Proofs.Xml.Nested
import Formulary.Proofs.Xml.Stacking

namespace Formulary
namespace Xml

/-! ### Tokens -/

/-- Whether the characters that a token brings may stand in a document. -/
def Token.IsLegal : Token → Prop
  | .text raw _ => isLegal raw = true
  | .char c => isChar c = true
  | .cdata s => isLegal s = true
  | _ => True

theorem isLegal_normalizeLines {s : Text} (h : isLegal s = true) :
    isLegal (normalizeLines s) = true := by
  fun_induction normalizeLines s with
  | case1 => rfl
  | case2 s ih =>
    simp only [isLegal, List.all_cons, Bool.and_eq_true] at h ih ⊢
    exact ⟨by decide, ih h.2.2⟩
  | case3 s _ ih =>
    simp only [isLegal, List.all_cons, Bool.and_eq_true] at h ih ⊢
    exact ⟨by decide, ih h.2⟩
  | case4 c s _ _ ih =>
    simp only [isLegal, List.all_cons, Bool.and_eq_true] at h ih ⊢
    exact ⟨h.1, ih h.2⟩

theorem isLegal_of_codeReference? {isDigit : Char → Bool} {value : Text → Nat} {s r : Text}
    {p : Part} (h : codeReference? isDigit value s = some (p, r)) : p.token.IsLegal := by
  unfold codeReference? at h
  split at h
  · split at h
    · exact absurd h (by simp)
    · obtain ⟨c, hc, heq⟩ := Option.map_eq_some_iff.mp h
      obtain ⟨rfl, -⟩ := Prod.mk.inj heq
      unfold charOfCode? at hc
      split at hc
      · rename_i hcode
        obtain rfl := Option.some.inj hc
        exact hcode.2.2
      · exact absurd hc (by simp)
  · exact absurd h (by simp)

theorem isChar_of_predefined? {name : Text} {c : Char} (h : predefined? name = some c) :
    isChar c = true := by
  have hall : ∀ p ∈ predefined, isChar p.2 = true := by decide
  obtain ⟨_, _, hsplit, -⟩ := List.lookup_eq_some_iff.mp h
  exact hall (name, c) (hsplit ▸ List.mem_append_right _ List.mem_cons_self)

theorem isLegal_of_nameReference? {s r : Text} {p : Part}
    (h : nameReference? s = some (p, r)) : p.token.IsLegal := by
  unfold nameReference? at h
  split at h
  · split at h
    · split at h
      · rename_i c hc
        obtain ⟨rfl, -⟩ := Prod.mk.inj (Option.some.inj h)
        exact isChar_of_predefined? hc
      · obtain ⟨rfl, -⟩ := Prod.mk.inj (Option.some.inj h)
        trivial
    · exact absurd h (by simp)
  · exact absurd h (by simp)

theorem isLegal_of_reference? {s r : Text} {p : Part} (h : reference? s = some (p, r)) :
    p.token.IsLegal := by
  unfold reference? at h
  split at h
  · exact isLegal_of_codeReference? h
  · exact isLegal_of_codeReference? h
  · exact isLegal_of_nameReference? h

theorem isLegal_of_instructionBody? {s : Text} {t : Token} (h : instructionBody? s = some t) :
    t.IsLegal := by
  unfold instructionBody? at h
  dsimp only at h
  split at h
  · split at h
    · obtain rfl := Option.some.inj h
      trivial
    · split at h
      · obtain rfl := Option.some.inj h
        trivial
      · exact absurd h (by simp)
  · exact absurd h (by simp)

theorem isLegal_of_tag? {s r : Text} {t : Token} (h : tag? s = some (t, r)) : t.IsLegal := by
  unfold tag? at h
  split at h
  · unfold instruction? at h
    split at h
    · obtain ⟨u, hu, heq⟩ := Option.map_eq_some_iff.mp h
      obtain ⟨rfl, -⟩ := Prod.mk.inj heq
      exact isLegal_of_instructionBody? hu
    · exact absurd h (by simp)
  · unfold closingTag? at h
    split at h
    · split at h
      · obtain ⟨rfl, -⟩ := Prod.mk.inj (Option.some.inj h)
        trivial
      · exact absurd h (by simp)
    · exact absurd h (by simp)
  · obtain ⟨_, _, h⟩ := Option.bind_eq_some_iff.mp h
    obtain ⟨q, _, h⟩ := Option.bind_eq_some_iff.mp h
    obtain ⟨rfl, -⟩ := Prod.mk.inj (Option.some.inj h)
    trivial

theorem isLegal_of_markup? {s r : Text} {t : Token} (h : markup? s = some (t, r)) : t.IsLegal := by
  unfold markup? at h
  split at h
  · unfold comment? at h
    split at h
    · split at h
      · obtain ⟨rfl, -⟩ := Prod.mk.inj (Option.some.inj h)
        trivial
      · exact absurd h (by simp)
    · exact absurd h (by simp)
  · split at h
    · unfold cdata? at h
      split at h
      · split at h
        · rename_i hlegal
          obtain ⟨rfl, -⟩ := Prod.mk.inj (Option.some.inj h)
          exact isLegal_normalizeLines hlegal
        · exact absurd h (by simp)
      · exact absurd h (by simp)
    · exact isLegal_of_tag? h

theorem isLegal_of_textToken? {raw rest : Text} {t : Token} (h : textToken? raw rest = some t) :
    t.IsLegal := by
  unfold textToken? at h
  split at h
  · rename_i hlegal
    obtain rfl := Option.some.inj h
    exact (Bool.and_eq_true_iff.mp hlegal).1
  · exact absurd h (by simp)

/-- What holds of markup, of references and of stretches of text holds of all tokens of a text. -/
theorem forall_of_lex {P : Token → Prop}
    (hmarkup : ∀ {s r : Text} {t : Token}, markup? s = some (t, r) → P t)
    (hreference : ∀ {s r : Text} {p : Part}, reference? s = some (p, r) → P p.token)
    (htext : ∀ {raw rest : Text} {t : Token}, textToken? raw rest = some t → P t)
    {s : Text} {ts : List Token} (h : lex s = some ts) : ∀ t ∈ ts, P t := by
  fun_induction lex s generalizing ts with
  | case1 =>
    obtain rfl := Option.some.inj h
    exact fun t ht => absurd ht List.not_mem_nil
  | case2 s t r hr ih =>
    obtain ⟨us, hus, rfl⟩ := Option.map_eq_some_iff.mp h
    exact List.forall_mem_cons.mpr ⟨hmarkup hr, ih hus⟩
  | case3 => exact absurd h (by simp)
  | case4 s p r hr ih =>
    obtain ⟨us, hus, rfl⟩ := Option.map_eq_some_iff.mp h
    exact List.forall_mem_cons.mpr ⟨hreference hr, ih hus⟩
  | case5 => exact absurd h (by simp)
  | case6 c s _ _ ih =>
    obtain ⟨t, ht, h⟩ := Option.bind_eq_some_iff.mp h
    obtain ⟨us, hus, h⟩ := Option.bind_eq_some_iff.mp h
    obtain rfl := Option.some.inj h
    exact List.forall_mem_cons.mpr ⟨htext ht, ih hus⟩

/-- The tokens of a text bring characters that may stand in a document. -/
theorem isLegal_of_lex {s : Text} {ts : List Token} (h : lex s = some ts) :
    ∀ t ∈ ts, t.IsLegal :=
  forall_of_lex isLegal_of_markup? isLegal_of_reference? isLegal_of_textToken? h

/-! ### Nodes -/

mutual
/-- Whether all text in a node may stand in a document. -/
def Node.IsLegal : Node → Prop
  | .text s => isLegal s = true
  | .element _ ns => AllLegal ns
  | _ => True
/-- Whether all text in a list of nodes may stand in a document. -/
def AllLegal : List Node → Prop
  | [] => True
  | n :: ns => n.IsLegal ∧ AllLegal ns
end

theorem allLegal_iff {ns : List Node} : AllLegal ns ↔ ∀ n ∈ ns, n.IsLegal := by
  induction ns with
  | nil => simp [AllLegal]
  | cons n ns ih => simp [AllLegal, ih]

theorem allLegal_reverse {ns : List Node} (h : AllLegal ns) : AllLegal ns.reverse :=
  allLegal_iff.mpr fun n hn => allLegal_iff.mp h n (List.mem_reverse.mp hn)

theorem allLegal_joinText {s : Text} {ns : List Node} (hs : isLegal s = true)
    (hns : AllLegal ns) : AllLegal (joinText s ns) := by
  unfold joinText
  split
  · obtain ⟨ht, hns⟩ := hns
    exact ⟨(isLegal_append _ _).trans (by rw [show isLegal _ = true from ht, hs]; rfl), hns⟩
  · exact ⟨hs, hns⟩

/-- Whether all text that has been read so far may stand in a document. -/
def Base.IsLegal : Base → Prop
  | .document root => ∀ e ∈ root, e.node.IsLegal
  | .entity ns => AllLegal ns

/-- Whether all text that has been read so far may stand in a document, that of open elements
included. -/
def Stack.IsLegal (k : Stack) : Prop := k.base.IsLegal ∧ ∀ f ∈ k.frames, AllLegal f.nodes

namespace Stack

variable {k k' : Stack}

theorem IsLegal.change {f : List Node → List Node} (hf : ∀ ns, AllLegal ns → AllLegal (f ns))
    (hk : k.IsLegal) (h : k.change f = some k') : k'.IsLegal := by
  obtain ⟨b, g, up, rfl, rfl⟩ | ⟨ns, rfl, rfl⟩ := change_cases h
  · obtain ⟨hg, hup⟩ := List.forall_mem_cons.mp hk.2
    exact ⟨hk.1, List.forall_mem_cons.mpr ⟨hf _ hg, hup⟩⟩
  · exact ⟨hf _ hk.1, hk.2⟩

theorem IsLegal.addText {s : Text} (hs : isLegal s = true) (hk : k.IsLegal)
    (h : k.addText s = some k') : k'.IsLegal :=
  hk.change (fun _ => allLegal_joinText hs) h

theorem IsLegal.addNode {n : Node} (hn : n.IsLegal) (hk : k.IsLegal) (h : k.addNode n = some k') :
    k'.IsLegal :=
  hk.change (f := fun ns => n :: ns) (fun _ hns => ⟨hn, hns⟩) h

theorem IsLegal.addAside {n : Node} (hn : n.IsLegal) (hk : k.IsLegal) :
    (k.addAside n).IsLegal := by
  unfold Stack.addAside
  cases h : k.addNode n with
  | none => exact hk
  | some k' => exact hk.addNode hn h

theorem IsLegal.addNodes {ns : List Node} (hns : AllLegal ns) (hk : k.IsLegal)
    (h : k.addNodes ns = some k') : k'.IsLegal := by
  induction ns generalizing k with
  | nil =>
    obtain rfl := Option.some.inj h
    exact hk
  | cons n ns ih =>
    obtain ⟨hn, hns⟩ := hns
    cases n with
    | text s =>
      obtain ⟨k₁, hk₁, h⟩ := Option.bind_eq_some_iff.mp h
      exact ih hns (hk.addText hn hk₁) h
    | _ =>
      obtain ⟨k₁, hk₁, h⟩ := Option.bind_eq_some_iff.mp h
      exact ih hns (hk.addNode hn hk₁) h

theorem IsLegal.addElement {e : Element} (he : e.node.IsLegal) (hk : k.IsLegal)
    (h : k.addElement e = some k') : k'.IsLegal := by
  obtain ⟨-, rfl⟩ | h := addElement_cases h
  · refine ⟨fun e' he' => ?_, by simp⟩
    obtain rfl := Option.some.inj he'
    exact he
  · exact hk.addNode he h

theorem IsLegal.enter {t : Tag} {written : Text} {closed : Bool} (hk : k.IsLegal)
    (h : k.enter t written closed = some k') : k'.IsLegal := by
  unfold Stack.enter at h
  split at h
  · have hempty : (Element.node ⟨t, []⟩).IsLegal := allLegal_iff.mpr (by simp)
    exact hk.addElement hempty h
  · obtain rfl := Option.some.inj h
    exact ⟨hk.1, List.forall_mem_cons.mpr ⟨trivial, hk.2⟩⟩

theorem IsLegal.leave {written : Text} (hk : k.IsLegal) (h : k.leave written = some k') :
    k'.IsLegal := by
  obtain ⟨b, f, up, rfl, hclosed⟩ := leave_cases h
  obtain ⟨hf, hup⟩ := List.forall_mem_cons.mp hk.2
  have hrest : Stack.IsLegal ⟨b, up⟩ := ⟨hk.1, hup⟩
  exact hrest.addElement (e := ⟨f.tag, f.nodes.reverse⟩) (allLegal_reverse hf) hclosed

theorem IsLegal.addRaw {d : Definitions} {st : Setting} {raw rest : Text}
    (hd : d.manner = .faithful) (hraw : isLegal raw = true) (hk : k.IsLegal)
    (h : k.addRaw d st raw rest = some k') : k'.IsLegal := by
  obtain rfl | h := addRaw_cases hd h
  · exact hk
  · exact hk.addText (isLegal_normalizeLines hraw) h

end Stack

/-! ### Reading -/

/-- What a step of reading gives, if it gives anything, has a property. -/
def Reading.Yields {α : Type} (P : α → Prop) (x : Reading α) : Prop :=
  ∀ p a q, x p = some (a, q) → P a

namespace Reading

variable {α β : Type} {P : α → Prop} {Q : β → Prop}

theorem yields_pure {a : α} (ha : P a) : Yields P (pure a : Reading α) := fun p b q h => by
  obtain ⟨rfl, -⟩ := Prod.mk.inj (Option.some.inj h)
  exact ha

theorem yields_failure : Yields P (failure : Reading α) := fun p a q h =>
  absurd h (by simp [failure, StateT.failure])

theorem Yields.bind {x : Reading α} {f : α → Reading β} (hx : Yields P x)
    (hf : ∀ a, P a → Yields Q (f a)) : Yields Q (x >>= f) := fun p b r h => by
  obtain ⟨a, q, ha, hb⟩ := bind_eq_some_iff.mp h
  exact hf a (hx p a q ha) q b r hb

theorem yields_bind {x : Reading α} {f : α → Reading β} (hf : ∀ a, Yields Q (f a)) :
    Yields Q (x >>= f) := fun p b r h => by
  obtain ⟨a, q, -, hb⟩ := bind_eq_some_iff.mp h
  exact hf a q b r hb

/-- A step that has no need of the record gives what it gives without one. -/
theorem yields_lift {x : Option α} (hx : ∀ a, x = some a → P a) :
    Yields P (StateT.lift x : Reading α) := fun p a q h => by
  cases x with
  | none => exact absurd h (by simp [StateT.lift])
  | some b =>
    obtain ⟨rfl, -⟩ := Prod.mk.inj (Option.some.inj h)
    exact hx b rfl

theorem yields_foldlM {f : α → β → Reading α} (hf : ∀ a, P a → ∀ b, Yields P (f a b)) {a : α}
    (ha : P a) {bs : List β} : Yields P (bs.foldlM f a) := by
  induction bs generalizing a with
  | nil => exact yields_pure ha
  | cons b bs ih => exact (hf a ha b).bind fun _ => ih

/-- A step that is only noted once gives what it gives. -/
theorem Yields.onlyOnce {name : Text} {x : Reading α} (hx : Yields P x) :
    Yields P (onlyOnce name x) := by
  refine yields_bind fun p => ?_
  split
  · exact hx.bind fun a ha => yields_bind fun _ => yields_pure ha
  · exact yields_bind fun _ => hx

end Reading

section Reading

variable {d : Definitions} {readText : Nat → Text → Text → Reading (List Node)} {st : Setting}
  (hd : d.manner = .faithful)
  (hread : ∀ around name t, (readText around name t).Yields AllLegal)

include hd hread

theorem yields_readReference (name : Text) {k : Stack} (hk : k.IsLegal) :
    (readReference d readText st name k).Yields Stack.IsLegal := by
  have hadd : ∀ ns, AllLegal ns →
      Reading.Yields Stack.IsLegal (StateT.lift (k.change id >>= Stack.addNodes ns)) :=
    fun ns hns => Reading.yields_lift fun k' h => by
      obtain ⟨k₁, hk₁, h⟩ := Option.bind_eq_some_iff.mp h
      exact (hk.change (f := id) (fun _ h => h) hk₁).addNodes hns h
  have hempty : AllLegal [] := trivial
  unfold readReference
  simp only [hd, if_true]
  cases d.entities.lookup name with
  | none => exact Reading.yields_bind fun _ => (Reading.yields_pure hempty).bind hadd
  | some v =>
    cases v with
    | internal t => exact (hread _ name t).bind hadd
    | _ => exact (Reading.yields_failure (P := AllLegal)).bind hadd

/-- Tokens that may stand in a document are read onto a stack that may. -/
theorem yields_readTokens {ts : List Token} (hts : ∀ t ∈ ts, t.IsLegal) {k : Stack}
    (hk : k.IsLegal) : (readTokens d readText st ts k).Yields Stack.IsLegal := by
  induction ts generalizing k with
  | nil => exact Reading.yields_pure hk
  | cons t ts ih =>
    obtain ⟨ht, htail⟩ := List.forall_mem_cons.mp hts
    cases t with
    | text raw rest =>
      exact (Reading.yields_lift fun _ h => hk.addRaw hd ht h).bind fun _ => ih htail
    | char c =>
      have hc : isLegal [c] = true := by simpa [isLegal, Token.IsLegal] using ht
      exact (Reading.yields_lift fun _ h => hk.addText hc h).bind fun _ => ih htail
    | cdata s => exact (Reading.yields_lift fun _ h => hk.addText ht h).bind fun _ => ih htail
    | comment s =>
      have hnode : (Node.comment s).IsLegal := trivial
      exact ih htail (hk.addAside hnode)
    | instruction target data =>
      have hnode : (Node.instruction target data).IsLegal := trivial
      exact Reading.yields_bind fun _ => ih htail (hk.addAside hnode)
    | reference name => exact (yields_readReference hd hread name hk).bind fun _ => ih htail
    | opening name attrs closed =>
      exact Reading.yields_bind fun _ => Reading.yields_bind fun _ =>
        (Reading.yields_lift fun _ h => hk.enter h).bind fun _ => ih htail
    | closing name => exact (Reading.yields_lift fun _ h => hk.leave h).bind fun _ => ih htail

end Reading

/-- What is read of an entity's text may stand in a document, however deep other entities are
nested in it. -/
theorem yields_readEntity {d : Definitions} (hd : d.manner = .faithful) (depth around : Nat)
    (name t : Text) : (readEntity d depth around name t).Yields AllLegal := by
  induction depth generalizing around name t with
  | zero => exact Reading.yields_failure
  | succ depth ih =>
    have hstart : Stack.IsLegal ⟨.entity [], []⟩ := ⟨trivial, by simp⟩
    refine Reading.yields_bind fun _ => ?_
    refine (Reading.yields_lift fun ts => isLegal_of_lex (s := t)).bind fun ts hts => ?_
    refine (yields_readTokens hd ih hts hstart).onlyOnce.bind fun k hk => ?_
    split
    · exact Reading.yields_pure (allLegal_reverse hk.1)
    · exact Reading.yields_failure

/-! ### The manner of reading -/

namespace Definitions

variable {m : Manner} {d : Definitions}

theorem yields_declareAttribute (hd : d.manner = m) (element : Text) (a : AttributeDef) :
    Reading.Yields (fun d => d.manner = m) (declareAttribute element d a) := by
  unfold declareAttribute
  refine Reading.yields_bind fun _ => ?_
  cases a.fallback
  all_goals
    refine Reading.yields_bind fun _ => Reading.yields_bind fun _ => Reading.yields_bind fun _ => ?_
    split
    · exact Reading.yields_bind fun _ => Reading.yields_pure hd
    · exact Reading.yields_bind fun _ => Reading.yields_pure hd

theorem yields_resolve (hd : d.manner = m) (v : EntityValue) :
    Reading.Yields (fun p => p.1.manner = m) (d.resolve v) := by
  unfold resolve
  split
  · refine Reading.yields_bind fun p => ?_
    split
    split
    · exact Reading.yields_bind fun _ => Reading.yields_pure hd
    · exact Reading.yields_pure hd
  · exact Reading.yields_pure hd

theorem yields_declareEntity (hd : d.manner = m) (isParameter : Bool) (name : Text)
    (v : EntityValue) :
    Reading.Yields (fun d => d.manner = m) (declareEntity isParameter name v d) := by
  unfold declareEntity
  refine Reading.yields_bind fun _ => (yields_resolve hd v).bind fun p hp => ?_
  split
  split
  · exact Reading.yields_pure hp
  · split
    · exact Reading.yields_pure hp
    · exact Reading.yields_bind fun _ => Reading.yields_pure hp

/-- Declarations do not change the manner of reading. -/
theorem yields_declare (hd : d.manner = m) (depth : Nat) (xs : List Declaration) :
    Reading.Yields (fun d => d.manner = m) (declare depth xs d) := by
  fun_induction declare depth xs d
  case case1 => exact Reading.yields_pure hd
  -- a declaration that is noted, or one that changes no manner, stands before the others
  case case2 ih | case5 ih | case6 ih | case8 ih | case11 ih =>
    refine Reading.yields_bind fun _ => Reading.Yields.bind ?_ ih
    exact Reading.yields_pure hd
  case case7 ih =>
    refine Reading.Yields.bind ?_ ih
    exact Reading.yields_pure hd
  case case3 element _ ih =>
    refine Reading.Yields.bind ?_ ih
    exact Reading.yields_foldlM (fun _ h a => yields_declareAttribute h element a) hd
  case case4 isParameter n v ih => exact (yields_declareEntity hd isParameter n v).bind ih
  case case9 ih ihInner =>
    exact Reading.yields_bind fun _ => Reading.yields_bind fun ys => (ihInner ys hd).bind ih
  case case10 ih | case12 ih =>
    refine Reading.Yields.bind ?_ ih
    exact Reading.yields_failure

end Definitions

/-! ### Documents -/

/-- The root of a document in the faithful manner may stand in a document. -/
theorem yields_readDocument (bytes : Nat) (start : Prolog) {ts : List Token}
    (hts : ∀ t ∈ ts, t.IsLegal) :
    (readDocument .faithful bytes start ts).Yields fun e => e.node.IsLegal := by
  have hstart : Stack.IsLegal ⟨.document none, []⟩ := ⟨by simp [Base.IsLegal], by simp⟩
  have hread : ∀ d : Definitions, d.manner = .faithful → Reading.Yields Stack.IsLegal
      (readTokens d (readEntity d Definitions.maxDepth) ⟨bytes, Definitions.maxDepth, 0⟩ ts
        ⟨.document none, []⟩) := fun d hd =>
    yields_readTokens hd (yields_readEntity hd _) hts hstart
  refine Reading.yields_bind fun _ => ?_
  split
  · rename_i t _
    refine (Definitions.yields_declare rfl Definitions.maxDepth t.declarations).bind fun d hd => ?_
    refine (hread d hd).bind fun k hk => ?_
    split
    · exact Reading.yields_pure (hk.1 _ rfl)
    · exact Reading.yields_failure
  · have hempty : Reading.Yields (fun d => d.manner = .faithful)
        (pure (Definitions.empty .faithful start.standalone)) := Reading.yields_pure rfl
    refine hempty.bind fun d hd => (hread d hd).bind fun k hk => ?_
    split
    · exact Reading.yields_pure (hk.1 _ rfl)
    · exact Reading.yields_failure

/-- **A document that is read holds only characters that a document may hold.** -/
theorem isLegal_of_parse? {s : Text} {e : Element} (h : parse? .faithful s = some e) :
    e.node.IsLegal := by
  obtain ⟨⟨start, body⟩, -, h⟩ := Option.bind_eq_some_iff.mp h
  obtain ⟨ts, hts, h⟩ := Option.bind_eq_some_iff.mp h
  obtain ⟨⟨e', progress⟩, hread, h⟩ := Option.bind_eq_some_iff.mp h
  have heq : e' = e := by
    dsimp only at h
    split at h
    · exact Option.some.inj h
    · exact absurd h (by simp)
  exact heq ▸ yields_readDocument _ start (isLegal_of_lex hts) _ _ _ hread

end Xml
end Formulary
