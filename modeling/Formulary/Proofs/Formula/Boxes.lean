/-
# Boxes that hold nothing but an expression

A box that holds nothing but an expression is replaced by what the expression holds. Said of a
tree without its prefixes this is a plain recursion (`Omml.unbox`): the nodes of the expression,
in which boxes have been replaced already, take the place of the box, and the text right after
the box is dropped with it. The boxes of a document are opened one after another while their
content moves about and takes other prefixes; the outcome is that of the recursion
(`bare_openBoxes`).

Key definitions: `Omml.unbox`, `Omml.holdsBox`, `Omml.isUnstacked`, `Omml.texts`.
Key theorems: `Omml.bareAll_openNodes`, `Omml.textsAll_unboxAll`, `Omml.anyBox_unboxAll`,
`unwrap_boxes`.
-/
import Formulary.Formula.Omml
import Formulary.Proofs.Xml.Scoping
import Mathlib.Data.List.DropRight
import Mathlib.Logic.Relation

namespace Formulary
namespace Omml

open Xml (Node bareAll)

/-! ### The recursion -/

mutual
/-- What stands in the place of a node once all boxes in it have been opened. -/
def unbox : Node → List Node
  | .element t ns =>
    if opens (.element t ns) then (unboxAll ns).flatMap expressionNodes
    else [.element t (unboxAll ns)]
  | n => [n]
/-- The nodes with all boxes opened. The text right after an opened box goes with it. -/
def unboxAll : List Node → List Node
  | [] => []
  | n :: ns => unbox n ++ if opens n then Xml.dropLeadingText (unboxAll ns) else unboxAll ns
end

/-- The element with all boxes in it opened; it stays itself. -/
def unboxed (e : Xml.Element) : Xml.Element := { e with children := unboxAll e.children }

/-- A node that is not opened, with the boxes in it opened. -/
def inside : Node → Node
  | .element t ns => .element t (unboxAll ns)
  | n => n

mutual
/-- Whether a node is a box to open, or holds one. -/
def holdsBox : Node → Bool
  | .element t ns => opens (.element t ns) || anyBox ns
  | _ => false
/-- Whether one of the nodes is a box to open, or holds one. -/
def anyBox : List Node → Bool
  | [] => false
  | n :: ns => holdsBox n || anyBox ns
end

mutual
/-- Whether no box in a node stands directly in a box. -/
def isUnstacked : Node → Bool
  | .element t ns =>
    !(t.name.is uri "box" && ns.any fun n => n.isElement uri "box") && allUnstacked ns
  | _ => true
/-- Whether no box in the nodes stands directly in a box of them. -/
def allUnstacked : List Node → Bool
  | [] => true
  | n :: ns => isUnstacked n && allUnstacked ns
end

mutual
/-- The text of each text element in a node, in document order. -/
def texts : Node → List Text
  | .element t ns => (if t.name.is uri "t" then [Xml.leadingText ns] else []) ++ textsAll ns
  | _ => []
/-- The text of each text element in a list of nodes, in document order. -/
def textsAll : List Node → List Text
  | [] => []
  | n :: ns => texts n ++ textsAll ns
end

/-! ### Lists without text in front -/

/-- Whether a list of nodes does not start with text. -/
def Led (ns : List Node) : Prop := Xml.dropLeadingText ns = ns

theorem led_nil : Led [] := rfl

theorem led_cons {n : Node} (hn : n.isText = false) (ns : List Node) : Led (n :: ns) := by
  rw [Led, Xml.dropLeadingText, List.dropWhile_cons_of_neg (by simp [hn])]

theorem led_dropLeadingText (ns : List Node) : Led (Xml.dropLeadingText ns) :=
  List.dropWhile_idempotent _ ns

theorem dropLeadingText_append {ms : List Node} (hms : Led ms) (ns : List Node) :
    Xml.dropLeadingText (ns ++ ms) = Xml.dropLeadingText ns ++ ms := by
  induction ns with
  | nil => exact hms
  | cons n ns ih =>
    by_cases hn : n.isText = true
    · rw [List.cons_append, Xml.dropLeadingText, List.dropWhile_cons_of_pos hn]
      rw [Xml.dropLeadingText, List.dropWhile_cons_of_pos hn]
      exact ih
    · rw [List.cons_append, led_cons (by simpa using hn), led_cons (by simpa using hn)]
      rfl

theorem Led.append {ns ms : List Node} (hns : Led ns) (hms : Led ms) : Led (ns ++ ms) := by
  rw [Led, dropLeadingText_append hms, hns]

theorem led_expressionNodes (n : Node) : Led (expressionNodes n) := by
  cases n with
  | element t ns => exact led_dropLeadingText ns
  | _ => exact led_nil

theorem led_flatMap_expressionNodes (ns : List Node) : Led (ns.flatMap expressionNodes) := by
  induction ns with
  | nil => exact led_nil
  | cons n ns ih =>
    rw [List.flatMap_cons]
    exact (led_expressionNodes n).append ih

theorem leadingText_of_led {ns : List Node} (h : Led ns) : Xml.leadingText ns = [] := by
  cases ns with
  | nil => rfl
  | cons n ns =>
    cases n with
    | text s =>
      have hlength := congrArg List.length h
      have hle := (List.dropWhile_suffix Node.isText (l := ns)).length_le
      rw [Xml.dropLeadingText, List.dropWhile_cons_of_pos rfl, List.length_cons] at hlength
      omega
    | _ => rfl

/-! ### The shape of a box to open -/

theorem not_isBox_of_isExpression {n : Xml.Name} (h : n.is uri "e" = true) :
    n.is uri "box" = false := by
  have hne : ("e".toList == "box".toList) = false := by decide
  obtain ⟨-, hloc⟩ := Bool.and_eq_true_iff.mp h
  rw [Xml.Name.is, beq_iff_eq.mp hloc, hne, Bool.and_false]

/-- A box to open holds an expression, with text around it at most. -/
theorem exists_of_opens {n : Node} (h : opens n = true) :
    ∃ t u as ms bs, n = .element t (as ++ .element u ms :: bs) ∧ t.name.is uri "box" = true ∧
      u.name.is uri "e" = true ∧ (∀ m ∈ as, m.isText = true) ∧ ∀ m ∈ bs, m.isText = true := by
  cases n with
  | element t ns =>
    obtain ⟨hbox, hone⟩ := Bool.and_eq_true_iff.mp h
    split at hone
    · rename_i m hm
      obtain ⟨as, bs, rfl, has, -, hbs⟩ := List.filter_eq_cons_iff.mp hm
      cases m with
      | element u ms =>
        refine ⟨t, u, as, ms, bs, rfl, hbox, hone, fun m hm => ?_, fun m hm => ?_⟩
        · simpa using has m hm
        · simpa using List.filter_eq_nil_iff.mp hbs m hm
      | _ => exact absurd hone (by simp [Node.isElement])
    · exact absurd hone (by simp)
  | _ => exact absurd h (by simp [opens])

/-- What is seen of a node from the box around it. -/
def look (n : Node) : Bool × Bool := (n.isText, n.isElement uri "e")

/-- Whether a box is one to open is seen from what its nodes look like. -/
theorem opens_eq_look (t : Xml.Tag) (ns : List Node) :
    opens (.element t ns) =
      (t.name.is uri "box" && ((ns.map look).filter fun p => !p.1) == [(false, true)]) := by
  have hfilter : (ns.map look).filter (fun p => !p.1) =
      (ns.filter fun n => !n.isText).map look := List.filter_map
  have hnot : ∀ n ∈ ns.filter (fun n => !n.isText), n.isText = false := fun n hn => by
    simpa using (List.mem_filter.mp hn).2
  rw [opens, hfilter]
  generalize ns.filter (fun n => !n.isText) = ms at hnot
  rcases ms with _ | ⟨m, _ | ⟨m', ms⟩⟩
  · rfl
  · have hm := hnot m List.mem_cons_self
    cases he : m.isElement uri "e" <;> simp [look, hm, he]
  · simp

/-- Nodes may change in other respects without a box to open becoming another. -/
theorem opens_congr {t u : Xml.Tag} {ns ms : List Node}
    (hname : u.name.is uri "box" = t.name.is uri "box") (hlook : ms.map look = ns.map look) :
    opens (.element u ms) = opens (.element t ns) := by
  rw [opens_eq_look, opens_eq_look, hname, hlook]

theorem opens_of_isText {n : Node} (h : n.isText = true) : opens n = false := by
  cases n with
  | text s => rfl
  | _ => exact absurd h (by simp [Node.isText])

theorem opens_of_not_isBox {t : Xml.Tag} (h : t.name.is uri "box" = false) (ns : List Node) :
    opens (.element t ns) = false := by
  rw [opens, h, Bool.false_and]

theorem isBox_of_opens {n : Node} (h : opens n = true) : n.isElement uri "box" = true := by
  obtain ⟨t, u, as, ms, bs, rfl, hbox, -⟩ := exists_of_opens h
  exact hbox

/-! ### Laws of the recursion -/

theorem unbox_of_opens {t : Xml.Tag} {ns : List Node} (h : opens (.element t ns) = true) :
    unbox (.element t ns) = (unboxAll ns).flatMap expressionNodes := by
  rw [unbox, if_pos h]

theorem unbox_of_not_opens {n : Node} (h : opens n = false) : unbox n = [inside n] := by
  cases n with
  | element t ns => rw [unbox, if_neg (by simp [h]), inside]
  | _ => rfl

theorem unboxAll_cons_of_opens {n : Node} (h : opens n = true) (ns : List Node) :
    unboxAll (n :: ns) = unbox n ++ Xml.dropLeadingText (unboxAll ns) := by
  rw [unboxAll, if_pos h]

theorem unboxAll_cons_of_not_opens {n : Node} (h : opens n = false) (ns : List Node) :
    unboxAll (n :: ns) = inside n :: unboxAll ns := by
  rw [unboxAll, if_neg (by simp [h]), unbox_of_not_opens h, List.singleton_append]

@[simp] theorem isText_inside (n : Node) : (inside n).isText = n.isText := by
  cases n <;> rfl

@[simp] theorem isElement_inside (n : Node) (uri : Text) (loc : String) :
    (inside n).isElement uri loc = n.isElement uri loc := by
  cases n <;> rfl

theorem inside_of_isText {n : Node} (h : n.isText = true) : inside n = n := by
  cases n with
  | element t ns => exact absurd h (by simp [Node.isText])
  | _ => rfl

theorem unboxAll_eq_map {ns : List Node} (h : ∀ n ∈ ns, opens n = false) :
    unboxAll ns = ns.map inside := by
  induction ns with
  | nil => rfl
  | cons n ns ih =>
    obtain ⟨hn, hns⟩ := List.forall_mem_cons.mp h
    rw [unboxAll_cons_of_not_opens hn, ih hns, List.map_cons]

/-- If no node in an element is opened, the element is a box to open after as before. -/
theorem opens_unboxAll {t : Xml.Tag} {ns : List Node} (h : ∀ n ∈ ns, opens n = false) :
    opens (.element t (unboxAll ns)) = opens (.element t ns) := by
  refine opens_congr rfl ?_
  simp [unboxAll_eq_map h, look, Function.comp_def]

/-- No node right in a box to open is one itself. -/
theorem not_opens_of_mem {t : Xml.Tag} {ns : List Node} (h : opens (.element t ns) = true) :
    ∀ n ∈ ns, opens n = false := by
  obtain ⟨t, u, as, ms, bs, heq, -, hu, has, hbs⟩ := exists_of_opens h
  obtain ⟨rfl, rfl⟩ := Node.element.inj heq
  refine List.forall_mem_append.mpr ⟨fun n hn => opens_of_isText (has n hn), ?_⟩
  refine List.forall_mem_cons.mpr ⟨?_, fun n hn => opens_of_isText (hbs n hn)⟩
  exact opens_of_not_isBox (not_isBox_of_isExpression hu) ms

theorem unboxAll_texts_append {as : List Node} (has : ∀ n ∈ as, n.isText = true)
    (ns : List Node) : unboxAll (as ++ ns) = as ++ unboxAll ns := by
  induction as with
  | nil => rfl
  | cons n as ih =>
    obtain ⟨hn, has⟩ := List.forall_mem_cons.mp has
    rw [List.cons_append, unboxAll_cons_of_not_opens (opens_of_isText hn), ih has,
      inside_of_isText hn, List.cons_append]

theorem unboxAll_texts {as : List Node} (has : ∀ n ∈ as, n.isText = true) : unboxAll as = as := by
  have happend := unboxAll_texts_append has []
  rwa [List.append_nil, unboxAll, List.append_nil] at happend

theorem led_unbox {n : Node} (hn : n.isText = false) : Led (unbox n) := by
  cases hopens : opens n with
  | true =>
    obtain ⟨t, u, as, ms, bs, rfl, -⟩ := exists_of_opens hopens
    rw [unbox_of_opens hopens]
    exact led_flatMap_expressionNodes _
  | false =>
    rw [unbox_of_not_opens hopens]
    exact led_cons (by simpa using hn) []

theorem led_unboxAll_cons {n : Node} (hn : n.isText = false) (ns : List Node) :
    Led (unboxAll (n :: ns)) := by
  cases hopens : opens n with
  | true =>
    rw [unboxAll_cons_of_opens hopens]
    exact (led_unbox hn).append (led_dropLeadingText _)
  | false =>
    rw [unboxAll_cons_of_not_opens hopens]
    exact led_cons (by simpa using hn) _

/-- Text in front may be dropped before boxes are opened or after. -/
theorem unboxAll_dropLeadingText (ns : List Node) :
    unboxAll (Xml.dropLeadingText ns) = Xml.dropLeadingText (unboxAll ns) := by
  induction ns with
  | nil => rfl
  | cons n ns ih =>
    cases hn : n.isText with
    | true =>
      rw [unboxAll_cons_of_not_opens (opens_of_isText hn), Xml.dropLeadingText,
        List.dropWhile_cons_of_pos hn, Xml.dropLeadingText,
        List.dropWhile_cons_of_pos ((isText_inside n).trans hn)]
      exact ih
    | false => rw [led_cons hn, led_unboxAll_cons hn]

/-- Boxes are opened in two stretches of nodes one by one, if no text in front of the second
might go with a box of the first. -/
theorem unboxAll_append {ms : List Node} (hms : Led (unboxAll ms)) (ns : List Node) :
    unboxAll (ns ++ ms) = unboxAll ns ++ unboxAll ms := by
  induction ns with
  | nil => rfl
  | cons n ns ih =>
    rw [List.cons_append]
    cases hopens : opens n with
    | true =>
      rw [unboxAll_cons_of_opens hopens, unboxAll_cons_of_opens hopens, ih,
        dropLeadingText_append hms, List.append_assoc]
    | false =>
      rw [unboxAll_cons_of_not_opens hopens, unboxAll_cons_of_not_opens hopens, ih,
        List.cons_append]

theorem flatMap_expressionNodes_texts {as : List Node} (has : ∀ n ∈ as, n.isText = true) :
    as.flatMap expressionNodes = [] := by
  refine List.flatMap_eq_nil_iff.mpr fun n hn => ?_
  have htext := has n hn
  cases n with
  | element t ns => exact absurd htext (by simp [Node.isText])
  | _ => rfl

/-- It comes to the same whether boxes are opened in what a box holds before it takes the place
of the box, or after. -/
theorem unboxAll_held {n : Node} (h : opens n = true) : unboxAll (held n) = unbox n := by
  obtain ⟨t, u, as, ms, bs, rfl, -, hu, has, hbs⟩ := exists_of_opens h
  have hnot := opens_of_not_isBox (not_isBox_of_isExpression hu) ms
  rw [unbox_of_opens h, unboxAll_texts_append has, unboxAll_cons_of_not_opens hnot,
    unboxAll_texts hbs]
  simp only [held, List.flatMap_append, List.flatMap_cons, flatMap_expressionNodes_texts has,
    flatMap_expressionNodes_texts hbs, List.nil_append, List.append_nil, inside, expressionNodes]
  exact unboxAll_dropLeadingText ms

/-- What stands in the place of a box, and what comes after it. -/
theorem unboxAll_opened {n : Node} (h : opens n = true) (ns : List Node) :
    unboxAll (held n ++ Xml.dropLeadingText ns) = unboxAll (n :: ns) := by
  have hled : Led (unboxAll (Xml.dropLeadingText ns)) := by
    rw [unboxAll_dropLeadingText]
    exact led_dropLeadingText _
  rw [unboxAll_append hled, unboxAll_held h, unboxAll_dropLeadingText, unboxAll_cons_of_opens h]

/-! ### Opening boxes in a document -/

@[simp] theorem opens_bare (n : Node) : opens n.bare = opens n := by
  cases n with
  | element t ns =>
    refine opens_congr (t.name.is_bare uri "box") ?_
    simp [Xml.bareAll_eq_map, look, Function.comp_def]
  | _ => rfl

theorem bareAll_expressionNodes (n : Node) :
    bareAll (expressionNodes n) = expressionNodes n.bare := by
  cases n with
  | element t ns => exact (Xml.dropLeadingText_bareAll ns).symm
  | _ => rfl

theorem bareAll_flatMap_expressionNodes (ns : List Node) :
    bareAll (ns.flatMap expressionNodes) = (bareAll ns).flatMap expressionNodes := by
  induction ns with
  | nil => rfl
  | cons n ns ih =>
    rw [List.flatMap_cons, Xml.bareAll_append, ih, bareAll_expressionNodes, Xml.bareAll_cons,
      List.flatMap_cons]

theorem bareAll_held (n : Node) : bareAll (held n) = held n.bare := by
  cases n with
  | element t ns => exact bareAll_flatMap_expressionNodes ns
  | _ => rfl

theorem mentionedAll_dropLeadingText_subset (ns : List Node) :
    Xml.mentionedAll (Xml.dropLeadingText ns) ⊆ Xml.mentionedAll ns := by
  rw [Xml.mentionedAll_eq_flatMap, Xml.mentionedAll_eq_flatMap]
  exact ((List.dropWhile_sublist _).flatMap _).subset

theorem mentionedAll_held_subset (n : Node) : Xml.mentionedAll (held n) ⊆ n.mentioned := by
  cases n with
  | element t ns =>
    refine List.Subset.trans ?_ (List.subset_append_right _ _)
    induction ns with
    | nil => exact List.nil_subset _
    | cons m ns ih =>
      have hm : Xml.mentionedAll (expressionNodes m) ⊆ m.mentioned := by
        cases m with
        | element u ms =>
          exact List.Subset.trans (mentionedAll_dropLeadingText_subset ms)
            (List.subset_append_right _ _)
        | _ => exact List.nil_subset _
      rw [held, List.flatMap_cons, Xml.mentionedAll_append, Xml.mentionedAll]
      exact List.append_subset.mpr ⟨List.Subset.trans hm (List.subset_append_left _ _),
        List.Subset.trans ih (List.subset_append_right _ _)⟩
  | _ => exact List.nil_subset _

section Register

variable {outer : List Xml.Tag} {s : Xml.Supply} {bs : List Xml.Binding}
  (hbs : Xml.Register bs s.id) (houter : outer.flatMap Xml.Tag.seen ⊆ bs)

include hbs houter

/-- What comes to stand in the place of a box says what the box held. -/
theorem bareAll_release {n : Node} (hn : n.mentioned ⊆ bs) :
    ∃ cs, bs ⊆ cs ∧ Xml.Register cs (release outer s n).2.id ∧
      Xml.mentionedAll (release outer s n).1 ⊆ cs ∧
      bareAll (release outer s n).1 = bareAll (held n) := by
  have hnowhere : ([] : List Xml.Tag).flatMap Xml.Tag.seen ⊆ bs := List.nil_subset bs
  obtain ⟨cs, hcs, hregister, hmoved, hbare⟩ := Xml.bare_adapt hbs hnowhere hn
  have hheld := List.Subset.trans (mentionedAll_held_subset (n.adapt [] s).1) hmoved
  obtain ⟨ds, hds, hregister, hplaced, hbares⟩ :=
    Xml.bare_adaptEach hregister (List.Subset.trans houter hcs) hheld
  refine ⟨ds, List.Subset.trans hcs hds, hregister, hplaced, hbares.trans ?_⟩
  rw [bareAll_held, hbare, ← bareAll_held]

end Register

/-- **Boxes that are opened one after another leave what the recursion gives**, prefixes
apart. -/
theorem bareAll_openNodes {outer : List Xml.Tag} {s : Xml.Supply} {ns : List Node}
    {bs : List Xml.Binding} (hbs : Xml.Register bs s.id)
    (houter : outer.flatMap Xml.Tag.seen ⊆ bs) (hns : Xml.mentionedAll ns ⊆ bs) :
    ∃ cs, bs ⊆ cs ∧ Xml.Register cs (openNodes outer s ns).2.id ∧
      Xml.mentionedAll (openNodes outer s ns).1 ⊆ cs ∧
      bareAll (openNodes outer s ns).1 = unboxAll (bareAll ns) := by
  fun_induction openNodes outer s ns generalizing bs with
  | case1 => exact ⟨bs, List.Subset.refl bs, hbs, hns, rfl⟩
  | case2 outer s n ns hopens ih =>
    obtain ⟨hn, hns⟩ := List.append_subset.mp hns
    obtain ⟨cs, hcs, hregister, hplaced, hbares⟩ := bareAll_release hbs houter hn
    have hrest := List.Subset.trans (mentionedAll_dropLeadingText_subset ns)
      (List.Subset.trans hns hcs)
    have hall : Xml.mentionedAll ((release outer s n).1 ++ Xml.dropLeadingText ns) ⊆ cs := by
      rw [Xml.mentionedAll_append]
      exact List.append_subset.mpr ⟨hplaced, hrest⟩
    obtain ⟨ds, hds, hregister, hdone, hbare⟩ := ih hregister (List.Subset.trans houter hcs) hall
    refine ⟨ds, List.Subset.trans hcs hds, hregister, hdone, hbare.trans ?_⟩
    rw [Xml.bareAll_append, hbares, bareAll_held, ← Xml.dropLeadingText_bareAll,
      unboxAll_opened ((opens_bare n).trans hopens), Xml.bareAll_cons]
  | case3 outer s ns t ms ms' s₁ hms ns' s₂ hns' hopens ihInside ihAfter =>
    rw [hms] at ihInside
    rw [hns'] at ihAfter
    obtain ⟨hn, hrest⟩ := List.append_subset.mp hns
    obtain ⟨htag, hinside⟩ := List.append_subset.mp hn
    obtain ⟨hseen, -⟩ := Xml.Tag.mentioned_subset_iff.mp htag
    obtain ⟨cs, hcs, hregister, hms', hbare⟩ :=
      ihInside hbs (List.append_subset.mpr ⟨hseen, houter⟩) hinside
    obtain ⟨ds, hds, hregister, hns', hbares⟩ :=
      ihAfter hregister (List.Subset.trans houter hcs) (List.Subset.trans hrest hcs)
    refine ⟨ds, List.Subset.trans hcs hds, hregister, ?_, ?_⟩
    · have hbelow := List.append_subset.mpr
        ⟨List.Subset.trans htag (List.Subset.trans hcs hds), List.Subset.trans hms' hds⟩
      exact List.append_subset.mpr ⟨hbelow, hns'⟩
    · have hnot : opens (Node.element t ms).bare = false := by simpa using hopens
      rw [Xml.bareAll_cons, Xml.bareAll_cons, unboxAll_cons_of_not_opens hnot, hbares, Node.bare,
        Node.bare, hbare, inside]
  | case4 outer s n ns hopens ns' s₁ hns' hleaf ih =>
    rw [hns'] at ih
    obtain ⟨hn, hrest⟩ := List.append_subset.mp hns
    obtain ⟨cs, hcs, hregister, hdone, hbare⟩ := ih hbs houter hrest
    refine ⟨cs, hcs, hregister, ?_, ?_⟩
    · exact List.append_subset.mpr ⟨List.Subset.trans hn hcs, hdone⟩
    · have hnot : opens n.bare = false := by simpa using hopens
      have hkept : inside n.bare = n.bare := by
        cases n with
        | element t ms => exact absurd rfl (hleaf t ms)
        | _ => rfl
      rw [Xml.bareAll_cons, Xml.bareAll_cons, unboxAll_cons_of_not_opens hnot, hbare, hkept]

/-- **Opening the boxes of a document is the recursion**, prefixes apart. -/
theorem bare_openBoxes {e : Xml.Element} (h : e.IsNumbered) :
    (openBoxes e).bare = unboxed e.bare := by
  have hmentioned := List.append_subset.mp (List.Subset.refl e.node.mentioned)
  have houter : [e.tag].flatMap Xml.Tag.seen ⊆ e.node.mentioned := by
    rw [List.flatMap_singleton]
    exact (Xml.Tag.mentioned_subset_iff.mp hmentioned.1).1
  obtain ⟨-, -, -, -, hbare⟩ := bareAll_openNodes h.register houter hmentioned.2
  exact congrArg (Xml.Element.mk e.tag.bare) hbare

/-! ### Text elements -/

theorem textsAll_append (ns ms : List Node) : textsAll (ns ++ ms) = textsAll ns ++ textsAll ms := by
  induction ns with
  | nil => rfl
  | cons n ns ih => rw [List.cons_append, textsAll, textsAll, ih, List.append_assoc]

theorem texts_of_isText {n : Node} (h : n.isText = true) : texts n = [] := by
  cases n with
  | element t ns => exact absurd h (by simp [Node.isText])
  | _ => rfl

theorem textsAll_of_texts {as : List Node} (has : ∀ n ∈ as, n.isText = true) :
    textsAll as = [] := by
  induction as with
  | nil => rfl
  | cons n as ih =>
    obtain ⟨hn, has⟩ := List.forall_mem_cons.mp has
    rw [textsAll, texts_of_isText hn, ih has, List.append_nil]

@[simp] theorem textsAll_dropLeadingText (ns : List Node) :
    textsAll (Xml.dropLeadingText ns) = textsAll ns := by
  conv_rhs => rw [← List.takeWhile_append_dropWhile (p := Node.isText) (l := ns)]
  rw [textsAll_append, textsAll_of_texts fun n hn => List.mem_takeWhile_imp hn, List.nil_append]
  rfl

/-- What a box to open holds has the text elements of the box. -/
theorem textsAll_held {n : Node} (h : opens n = true) : textsAll (held n) = texts n := by
  have hne : ∀ w ∈ ["box", "e"], (w.toList == "t".toList) = false := by decide
  have hother : ∀ {n : Xml.Name} {w : String}, w ∈ ["box", "e"] → n.is uri w = true →
      n.is uri "t" = false := fun hw hn => by
    obtain ⟨-, hloc⟩ := Bool.and_eq_true_iff.mp hn
    rw [Xml.Name.is, beq_iff_eq.mp hloc, hne _ hw, Bool.and_false]
  obtain ⟨t, u, as, ms, bs, rfl, ht, hu, has, hbs⟩ := exists_of_opens h
  simp only [held, List.flatMap_append, List.flatMap_cons, flatMap_expressionNodes_texts has,
    flatMap_expressionNodes_texts hbs, List.nil_append, List.append_nil, expressionNodes,
    textsAll_dropLeadingText, texts, textsAll, textsAll_append, textsAll_of_texts has,
    textsAll_of_texts hbs, hother (by simp) ht, hother (by simp) hu, Bool.false_eq_true, if_false]

/-- The text in front of the first other node stays as boxes are opened. -/
theorem leadingText_unboxAll (ns : List Node) :
    Xml.leadingText (unboxAll ns) = Xml.leadingText ns := by
  induction ns with
  | nil => rfl
  | cons n ns ih =>
    cases hn : n.isText with
    | true =>
      cases n with
      | text s =>
        rw [unboxAll_cons_of_not_opens (opens_of_isText hn)]
        exact congrArg (s ++ ·) ih
      | _ => exact absurd hn (by simp [Node.isText])
    | false =>
      rw [leadingText_of_led (led_unboxAll_cons hn ns), leadingText_of_led (led_cons hn ns)]

theorem textsAll_unboxAll_of_texts {ns : List Node}
    (h : ∀ n ∈ ns, textsAll (unbox n) = texts n) : textsAll (unboxAll ns) = textsAll ns := by
  induction ns with
  | nil => rfl
  | cons n ns ih =>
    obtain ⟨hn, hns⟩ := List.forall_mem_cons.mp h
    rw [unboxAll, textsAll_append, hn, textsAll]
    split
    · rw [textsAll_dropLeadingText, ih hns]
    · rw [ih hns]

theorem textsAll_unbox (n : Node) : textsAll (unbox n) = texts n := by
  induction n using Node.ind with
  | leaf n hn =>
    cases n with
    | element t ns => exact absurd rfl (hn t ns)
    | _ => rfl
  | element t ns ih =>
    have hns := textsAll_unboxAll_of_texts ih
    cases hopens : opens (.element t ns) with
    | true =>
      have hstays := (opens_unboxAll (not_opens_of_mem hopens)).trans hopens
      have hheld := textsAll_held hstays
      rw [unbox_of_opens hopens]
      exact hheld.trans (by rw [texts, texts, leadingText_unboxAll, hns])
    | false =>
      rw [unbox_of_not_opens hopens]
      simp only [inside, textsAll, texts, leadingText_unboxAll, hns, List.append_nil]

/-- **Text elements stay as they are and in order** as boxes are opened, whatever stands in
whatever. -/
theorem textsAll_unboxAll (ns : List Node) : textsAll (unboxAll ns) = textsAll ns :=
  textsAll_unboxAll_of_texts fun n _ => textsAll_unbox n

@[simp] theorem texts_bare (n : Node) : texts n.bare = texts n := by
  induction n using Node.ind with
  | leaf n hn => rw [Node.bare_of_leaf hn]
  | element t ns ih =>
    have hns : textsAll (bareAll ns) = textsAll ns := by
      induction ns with
      | nil => rfl
      | cons n ns ihAll =>
        obtain ⟨hn, hns⟩ := List.forall_mem_cons.mp ih
        rw [Xml.bareAll_cons, textsAll, textsAll, hn, ihAll hns]
    have hname : t.bare.name = t.name.bare := rfl
    rw [Node.bare, texts, texts, hns, Xml.leadingText_bareAll, hname, Xml.Name.is_bare]

theorem texts_unboxed (e : Xml.Element) : texts (unboxed e).node = texts e.node := by
  simp only [unboxed, Xml.Element.node, texts, leadingText_unboxAll, textsAll_unboxAll]

theorem nodesText_eq_flatten {ns : List Node} (h : ∀ n ∈ ns, nodeText n = (texts n).flatten) :
    nodesText ns = (textsAll ns).flatten := by
  induction ns with
  | nil => rfl
  | cons n ns ih =>
    obtain ⟨hn, hns⟩ := List.forall_mem_cons.mp h
    rw [nodesText, textsAll, List.flatten_append, hn, ih hns]

/-- The text of a fragment is that of its text elements one after another. -/
theorem nodeText_eq_flatten (n : Node) : nodeText n = (texts n).flatten := by
  induction n using Node.ind with
  | leaf n hn =>
    cases n with
    | element t ns => exact absurd rfl (hn t ns)
    | _ => rfl
  | element t ns ih =>
    rw [nodeText, texts, nodesText_eq_flatten ih, List.flatten_append]
    split
    · rw [List.flatten_singleton]
    · rfl

/-! ### Nothing is left to open -/

theorem anyBox_append (ns ms : List Node) : anyBox (ns ++ ms) = (anyBox ns || anyBox ms) := by
  induction ns with
  | nil => rfl
  | cons n ns ih => rw [List.cons_append, anyBox, anyBox, ih, Bool.or_assoc]

theorem anyBox_eq_false_iff {ns : List Node} :
    anyBox ns = false ↔ ∀ n ∈ ns, holdsBox n = false := by
  induction ns with
  | nil => simp [anyBox]
  | cons n ns ih => simp [anyBox, ih]

theorem allUnstacked_iff {ns : List Node} :
    allUnstacked ns = true ↔ ∀ n ∈ ns, isUnstacked n = true := by
  induction ns with
  | nil => simp [allUnstacked]
  | cons n ns ih => simp [allUnstacked, ih]

theorem anyBox_dropLeadingText {ns : List Node} (h : anyBox ns = false) :
    anyBox (Xml.dropLeadingText ns) = false :=
  anyBox_eq_false_iff.mpr fun n hn =>
    anyBox_eq_false_iff.mp h n ((List.dropWhile_sublist _).subset hn)

theorem anyBox_flatMap_expressionNodes {ns : List Node} (h : anyBox ns = false) :
    anyBox (ns.flatMap expressionNodes) = false := by
  refine anyBox_eq_false_iff.mpr fun n hn => ?_
  obtain ⟨m, hm, hn⟩ := List.mem_flatMap.mp hn
  have hmBox := anyBox_eq_false_iff.mp h m hm
  cases m with
  | element t ms =>
    obtain ⟨-, hms⟩ := Bool.or_eq_false_iff.mp hmBox
    exact anyBox_eq_false_iff.mp (anyBox_dropLeadingText hms) n hn
  | _ => exact absurd hn List.not_mem_nil

theorem anyBox_unboxAll_of_unbox {ns : List Node} (h : ∀ n ∈ ns, anyBox (unbox n) = false) :
    anyBox (unboxAll ns) = false := by
  induction ns with
  | nil => rfl
  | cons n ns ih =>
    obtain ⟨hn, hns⟩ := List.forall_mem_cons.mp h
    rw [unboxAll, anyBox_append, hn, Bool.false_or]
    split
    · exact anyBox_dropLeadingText (ih hns)
    · exact ih hns

theorem anyBox_unbox {n : Node} (h : isUnstacked n = true) : anyBox (unbox n) = false := by
  induction n using Node.ind with
  | leaf n hn =>
    cases n with
    | element t ns => exact absurd rfl (hn t ns)
    | _ => rfl
  | element t ns ih =>
    obtain ⟨hstack, hns⟩ := Bool.and_eq_true_iff.mp h
    have hinside : anyBox (unboxAll ns) = false :=
      anyBox_unboxAll_of_unbox fun n hn => ih n hn (allUnstacked_iff.mp hns n hn)
    cases hopens : opens (.element t ns) with
    | true =>
      rw [unbox_of_opens hopens]
      exact anyBox_flatMap_expressionNodes hinside
    | false =>
      have hnot : opens (.element t (unboxAll ns)) = false := by
        cases hbox : t.name.is uri "box" with
        | false => exact opens_of_not_isBox hbox _
        | true =>
          rw [hbox, Bool.true_and, Bool.not_eq_true', List.any_eq_false] at hstack
          refine (opens_unboxAll fun n hn => ?_).trans hopens
          exact Bool.eq_false_iff.mpr fun hn' => hstack n hn (isBox_of_opens hn')
      rw [unbox_of_not_opens hopens, inside, anyBox, holdsBox, hnot, hinside]
      rfl

/-- **No box is left to open**, if none stands directly in another. -/
theorem anyBox_unboxAll {ns : List Node} (h : allUnstacked ns = true) :
    anyBox (unboxAll ns) = false :=
  anyBox_unboxAll_of_unbox fun n hn => anyBox_unbox (allUnstacked_iff.mp h n hn)

@[simp] theorem holdsBox_bare (n : Node) : holdsBox n.bare = holdsBox n := by
  induction n using Node.ind with
  | leaf n hn => rw [Node.bare_of_leaf hn]
  | element t ns ih =>
    have hns : anyBox (bareAll ns) = anyBox ns := by
      induction ns with
      | nil => rfl
      | cons n ns ihAll =>
        obtain ⟨hn, hns⟩ := List.forall_mem_cons.mp ih
        rw [Xml.bareAll_cons, anyBox, anyBox, hn, ihAll hns]
    have hopens := opens_bare (.element t ns)
    rw [Node.bare] at hopens ⊢
    rw [holdsBox, holdsBox, hopens, hns]

theorem anyBox_bareAll (ns : List Node) : anyBox (bareAll ns) = anyBox ns := by
  induction ns with
  | nil => rfl
  | cons n ns ih => rw [Xml.bareAll_cons, anyBox, anyBox, holdsBox_bare, ih]

@[simp] theorem isUnstacked_bare (n : Node) : isUnstacked n.bare = isUnstacked n := by
  induction n using Node.ind with
  | leaf n hn => rw [Node.bare_of_leaf hn]
  | element t ns ih =>
    have hns : allUnstacked (bareAll ns) = allUnstacked ns := by
      induction ns with
      | nil => rfl
      | cons n ns ihAll =>
        obtain ⟨hn, hns⟩ := List.forall_mem_cons.mp ih
        rw [Xml.bareAll_cons, allUnstacked, allUnstacked, hn, ihAll hns]
    have hany : (bareAll ns).any (fun n => n.isElement uri "box") =
        ns.any fun n => n.isElement uri "box" := by
      simp [Xml.bareAll_eq_map, Function.comp_def]
    have hname : t.bare.name = t.name.bare := rfl
    rw [Node.bare, isUnstacked, isUnstacked, hns, hany, hname, Xml.Name.is_bare]

theorem not_opens_of_not_holdsBox {n : Node} (h : holdsBox n = false) : opens n = false := by
  cases n with
  | element t ns => exact (Bool.or_eq_false_iff.mp h).1
  | _ => rfl

/-- Where there is no box to open nothing changes. -/
theorem openNodes_of_anyBox_eq_false {outer : List Xml.Tag} {s : Xml.Supply} {ns : List Node}
    (h : anyBox ns = false) : openNodes outer s ns = (ns, s) := by
  fun_induction openNodes outer s ns with
  | case1 => rfl
  | case2 outer s n ns hopens ih =>
    have hn := not_opens_of_not_holdsBox (Bool.or_eq_false_iff.mp h).1
    exact absurd hopens (by simp [hn])
  | case3 outer s ns t ms ms' s₁ hms ns' s₂ hns' hopens ihInside ihAfter =>
    obtain ⟨hn, hns⟩ := Bool.or_eq_false_iff.mp h
    obtain ⟨-, hinside⟩ := Bool.or_eq_false_iff.mp hn
    obtain ⟨rfl, rfl⟩ := Prod.mk.inj (hms.symm.trans (ihInside hinside))
    obtain ⟨rfl, rfl⟩ := Prod.mk.inj (hns'.symm.trans (ihAfter hns))
    rfl
  | case4 outer s n ns hopens ns' s₁ hns' hleaf ih =>
    obtain ⟨-, hns⟩ := Bool.or_eq_false_iff.mp h
    obtain ⟨rfl, rfl⟩ := Prod.mk.inj (hns'.symm.trans (ih hns))
    rfl

theorem openBoxes_of_anyBox_eq_false {e : Xml.Element} (h : anyBox e.children = false) :
    openBoxes e = e := by
  rw [openBoxes, openNodes_of_anyBox_eq_false h]

/-- A document in which no box stands directly in another has no box left to open afterwards. -/
theorem anyBox_openBoxes {e : Xml.Element} (h : e.IsNumbered)
    (hstack : isUnstacked e.node = true) : anyBox (openBoxes e).children = false := by
  have hbare := congrArg Xml.Element.children (bare_openBoxes h)
  have hunstacked : allUnstacked (bareAll e.children) = true := by
    rw [← isUnstacked_bare] at hstack
    exact (Bool.and_eq_true_iff.mp hstack).2
  have hnone := anyBox_unboxAll hunstacked
  rwa [← anyBox_bareAll, show bareAll (openBoxes e).children = _ from hbare]

/-! ### Any order -/

/-- One box is opened where it stands: what it holds takes its place, and the text right after
it goes. -/
inductive Opening : List Node → List Node → Prop
  | here {n : Node} (h : opens n = true) (ns : List Node) :
    Opening (n :: ns) (held n ++ Xml.dropLeadingText ns)
  | within (t : Xml.Tag) {ms ms' : List Node} (h : Opening ms ms') (ns : List Node) :
    Opening (.element t ms :: ns) (.element t ms' :: ns)
  | after (n : Node) {ns ns' : List Node} (h : Opening ns ns') : Opening (n :: ns) (n :: ns')

/-- The recursion opens boxes one at a time. -/
theorem openings_unboxAll_of_inside {ns : List Node}
    (h : ∀ t ms, .element t ms ∈ ns → Relation.ReflTransGen Opening ms (unboxAll ms)) :
    Relation.ReflTransGen Opening ns (unboxAll ns) := by
  induction ns with
  | nil => exact .refl
  | cons n ns ih =>
    have hns := ih fun t ms hm => h t ms (List.mem_cons_of_mem n hm)
    have hinside : Relation.ReflTransGen Opening (n :: ns) (inside n :: unboxAll ns) := by
      refine .trans ?_ (hns.lift (inside n :: ·) fun _ _ => Opening.after (inside n))
      cases n with
      | element t ms =>
        exact (h t ms List.mem_cons_self).lift (.element t · :: ns) fun _ _ h =>
          Opening.within t h ns
      | _ => exact .refl
    cases hopens : opens n with
    | false => exact (unboxAll_cons_of_not_opens hopens ns).symm ▸ hinside
    | true =>
      have hbox : opens (inside n) = true := by
        cases n with
        | element t ms => exact (opens_unboxAll (not_opens_of_mem hopens)).trans hopens
        | _ => exact hopens
      have hheld : held (inside n) = unbox n := by
        cases n with
        | element t ms => exact (unbox_of_opens hopens).symm
        | _ => exact absurd hopens (by simp [opens])
      rw [unboxAll_cons_of_opens hopens, ← hheld]
      exact hinside.tail (.here hbox _)

theorem openings_unboxAll (ns : List Node) :
    Relation.ReflTransGen Opening ns (unboxAll ns) := by
  have hnode : ∀ n : Node, ∀ t ms, n = .element t ms →
      Relation.ReflTransGen Opening ms (unboxAll ms) := fun n => by
    induction n using Node.ind with
    | leaf n hn => exact fun t ms h => absurd h (hn t ms)
    | element t ns ih =>
      intro u ms h
      obtain ⟨rfl, rfl⟩ := Node.element.inj h
      exact openings_unboxAll_of_inside fun v ms hm => ih _ hm v ms rfl
  exact openings_unboxAll_of_inside fun t ms _ => hnode _ t ms rfl

theorem isUnstacked_of_mem_held {n m : Node} (h : isUnstacked n = true) (hm : m ∈ held n) :
    isUnstacked m = true := by
  cases n with
  | element t ns =>
    obtain ⟨k, hk, hm⟩ := List.mem_flatMap.mp hm
    have hkUnstacked := allUnstacked_iff.mp (Bool.and_eq_true_iff.mp h).2 k hk
    cases k with
    | element u ms =>
      have hms := allUnstacked_iff.mp (Bool.and_eq_true_iff.mp hkUnstacked).2
      exact hms m ((List.dropWhile_sublist _).subset hm)
    | _ => exact absurd hm List.not_mem_nil
  | _ => exact absurd hm List.not_mem_nil

/-- Where no box stands right in a list of nodes, a box is opened in a node of the list. -/
theorem exists_of_opening {ns ns' : List Node} (h : Opening ns ns')
    (hns : ns.any (fun n => n.isElement uri "box") = false) :
    ∃ as t ms ms' bs, ns = as ++ .element t ms :: bs ∧ ns' = as ++ .element t ms' :: bs := by
  induction h with
  | here hopens ns =>
    rw [List.any_cons, isBox_of_opens hopens] at hns
    exact absurd hns (by simp)
  | within t h ns => exact ⟨[], t, _, _, ns, rfl, rfl⟩
  | after n h ih =>
    rw [List.any_cons, Bool.or_eq_false_iff] at hns
    obtain ⟨as, t, ms, ms', bs, rfl, rfl⟩ := ih hns.2
    exact ⟨n :: as, t, ms, ms', bs, rfl, rfl⟩

/-- Opening one box, wherever it stands, leaves the outcome of the recursion as it is. -/
theorem unboxAll_of_opening {ns ns' : List Node} (h : Opening ns ns')
    (hns : allUnstacked ns = true) : unboxAll ns' = unboxAll ns ∧ allUnstacked ns' = true := by
  induction h with
  | here hopens ns =>
    obtain ⟨hn, hns⟩ := Bool.and_eq_true_iff.mp hns
    refine ⟨unboxAll_opened hopens ns, allUnstacked_iff.mpr fun m hm => ?_⟩
    rcases List.mem_append.mp hm with hm | hm
    · exact isUnstacked_of_mem_held hn hm
    · exact allUnstacked_iff.mp hns m ((List.dropWhile_sublist _).subset hm)
  | @within t ms ms' h ns ih =>
    obtain ⟨hn, hns⟩ := Bool.and_eq_true_iff.mp hns
    obtain ⟨hstack, hms⟩ := Bool.and_eq_true_iff.mp hn
    obtain ⟨hsame, hms'⟩ := ih hms
    have hbox : opens (.element t ms') = opens (.element t ms) ∧
        (!(t.name.is uri "box" && ms'.any fun n => n.isElement uri "box")) = true := by
      cases hname : t.name.is uri "box" with
      | false =>
        rw [opens_of_not_isBox hname, opens_of_not_isBox hname]
        exact ⟨rfl, rfl⟩
      | true =>
        rw [hname, Bool.true_and, Bool.not_eq_true'] at hstack
        obtain ⟨as, u, ks, ks', bs, rfl, rfl⟩ := exists_of_opening h hstack
        refine ⟨opens_congr rfl (by simp [look, Node.isText, Node.isElement]), ?_⟩
        simpa [Node.isElement] using hstack
    refine ⟨?_, ?_⟩
    · rw [unboxAll, unboxAll, unbox, unbox, hbox.1, hsame]
    · rw [allUnstacked, isUnstacked, hbox.2, hms', hns]
      rfl
  | after n h ih =>
    obtain ⟨hn, hns⟩ := Bool.and_eq_true_iff.mp hns
    obtain ⟨hsame, hns'⟩ := ih hns
    rw [unboxAll, unboxAll, hsame, allUnstacked, hn, hns']
    exact ⟨rfl, rfl⟩

theorem inside_of_not_holdsBox {n : Node} (h : holdsBox n = false) : inside n = n := by
  induction n using Node.ind with
  | leaf n hn =>
    cases n with
    | element t ns => exact absurd rfl (hn t ns)
    | _ => rfl
  | element t ns ih =>
    have hns := anyBox_eq_false_iff.mp (Bool.or_eq_false_iff.mp h).2
    have hmap : ns.map inside = ns := by
      conv_rhs => rw [← List.map_id ns]
      exact List.map_congr_left fun n hn => ih n hn (hns n hn)
    rw [inside, unboxAll_eq_map fun n hn => not_opens_of_not_holdsBox (hns n hn), hmap]

theorem unboxAll_of_anyBox_eq_false {ns : List Node} (h : anyBox ns = false) :
    unboxAll ns = ns := by
  have hns := anyBox_eq_false_iff.mp h
  rw [unboxAll_eq_map fun n hn => not_opens_of_not_holdsBox (hns n hn)]
  conv_rhs => rw [← List.map_id ns]
  exact List.map_congr_left fun n hn => inside_of_not_holdsBox (hns n hn)

/-- **Boxes may be opened in any order**: where no box stands directly in another, opening one
after another leads to the outcome of the recursion once none is left. -/
theorem eq_unboxAll_of_openings {ns ms : List Node} (hns : allUnstacked ns = true)
    (h : Relation.ReflTransGen Opening ns ms) (hms : anyBox ms = false) : ms = unboxAll ns := by
  have hkept : unboxAll ms = unboxAll ns ∧ allUnstacked ms = true := by
    clear hms
    induction h with
    | refl => exact ⟨rfl, hns⟩
    | tail _ hstep ih =>
      obtain ⟨hsame, hunstacked⟩ := unboxAll_of_opening hstep ih.2
      exact ⟨hsame.trans ih.1, hunstacked⟩
  exact (unboxAll_of_anyBox_eq_false hms).symm.trans hkept.1

/-- The boxes of a document are opened one at a time, each where it stands. -/
theorem openings_openBoxes {e : Xml.Element} (h : e.IsNumbered) :
    Relation.ReflTransGen Opening e.bare.children (openBoxes e).bare.children := by
  rw [bare_openBoxes h]
  exact openings_unboxAll e.bare.children

end Omml

/-! ### Unwrapping a fragment -/

/-- **Unwrapping a fragment is the recursion.** Prefixes apart, the boxes of a fragment are
opened one at a time until all are replaced as the recursion replaces them, and its text
elements stay. If no box stands directly in another, no box is left to open, opening boxes
again changes nothing, and their order does not matter. What is said of the document is said of
the written fragment too, if it is read as the same document. -/
theorem unwrap_eq_unboxed (s : Text) :
    (Omml.parse? s = none → Omml.unwrap s = s) ∧
    ∀ e, Omml.parse? s = some e →
      Omml.unwrap s = (Omml.openBoxes e).print ∧
      Relation.ReflTransGen Omml.Opening e.bare.children (Omml.openBoxes e).bare.children ∧
      (Omml.openBoxes e).bare = Omml.unboxed e.bare ∧
      Omml.texts (Omml.openBoxes e).node = Omml.texts e.node ∧
      (Omml.isUnstacked e.node = true →
        Omml.anyBox (Omml.openBoxes e).children = false ∧
        Omml.openBoxes (Omml.openBoxes e) = Omml.openBoxes e ∧
        ∀ ns, Relation.ReflTransGen Omml.Opening e.bare.children ns → Omml.anyBox ns = false →
          ns = (Omml.openBoxes e).bare.children) ∧
      ∀ e', Omml.parse? (Omml.unwrap s) = some e' → e'.bare = (Omml.openBoxes e).bare →
        Omml.texts e'.node = Omml.texts e.node ∧
        Omml.text (Omml.unwrap s) = Omml.text s ∧
        (Omml.isUnstacked e.node = true → Omml.openBoxes e' = e') := by
  refine ⟨fun hnone => by rw [Omml.unwrap, hnone], fun e he => ?_⟩
  have hnumbered : e.IsNumbered := Xml.isNumbered_of_parse? he
  have hbare := Omml.bare_openBoxes hnumbered
  have htexts : ∀ e' : Xml.Element, e'.bare = (Omml.openBoxes e).bare →
      Omml.texts e'.node = Omml.texts e.node := fun e' he' => by
    rw [← Omml.texts_bare, ← Xml.Element.node_bare, he', hbare, Omml.texts_unboxed,
      Xml.Element.node_bare, Omml.texts_bare]
  refine ⟨by rw [Omml.unwrap, he], Omml.openings_openBoxes hnumbered, hbare, htexts _ rfl,
    fun hstack => ?_, fun e' he' hsame => ?_⟩
  · have hnone := Omml.anyBox_openBoxes hnumbered hstack
    refine ⟨hnone, Omml.openBoxes_of_anyBox_eq_false hnone, fun ns hopened hns => ?_⟩
    rw [hbare]
    rw [← Omml.isUnstacked_bare] at hstack
    exact Omml.eq_unboxAll_of_openings (Bool.and_eq_true_iff.mp hstack).2 hopened hns
  · refine ⟨htexts e' hsame, ?_, fun hstack => ?_⟩
    · rw [Omml.text, he', Omml.text, he]
      dsimp only
      rw [Omml.nodeText_eq_flatten, Omml.nodeText_eq_flatten, htexts e' hsame]
    · have hchildren := congrArg Xml.Element.children hsame
      have hnone := Omml.anyBox_openBoxes hnumbered hstack
      rw [← Omml.anyBox_bareAll] at hnone
      refine Omml.openBoxes_of_anyBox_eq_false ?_
      rw [← Omml.anyBox_bareAll]
      exact (congrArg Omml.anyBox hchildren).trans hnone

/-- A fragment with an empty box in the expression of another, and with text around both. -/
def boxedFragment : Text :=
  "<m:oMath><m:box>u<m:e>a<m:t>n</m:t>b<m:box><m:e/></m:box>c</m:e></m:box>d</m:oMath>".toList

theorem unwrap_eq_unboxed_boxedFragment :
    ∃ e e', Omml.parse? boxedFragment = some e ∧ Omml.isUnstacked e.node = true ∧
      Omml.parse? (Omml.unwrap boxedFragment) = some e' ∧ e'.bare = Omml.unboxed e.bare ∧
      Omml.texts e'.node = ["n".toList] ∧
      Omml.text (Omml.unwrap boxedFragment) = "n".toList ∧
      Omml.anyBox e.children = true ∧ Omml.openBoxes e' = e' := by
  have hread : (Omml.parse? boxedFragment).any (fun e => Omml.isUnstacked e.node &&
      Omml.anyBox e.children && Omml.texts e.node == ["n".toList] &&
      (Omml.parse? (Omml.openBoxes e).print).any fun e' =>
        e'.bare = (Omml.openBoxes e).bare) = true := by
    decide +kernel
  obtain ⟨e, he, hfacts⟩ := (Option.any_eq_true _ _).mp hread
  simp only [Bool.and_eq_true, beq_iff_eq] at hfacts
  obtain ⟨⟨⟨hstack, hany⟩, htexts⟩, hagain⟩ := hfacts
  obtain ⟨e', he', hsame⟩ := (Option.any_eq_true _ _).mp hagain
  obtain ⟨hunwrap, -, hbare, -, -, hwritten⟩ := (unwrap_eq_unboxed boxedFragment).2 e he
  rw [← hunwrap] at he'
  obtain ⟨htexts', htext, hdone⟩ := hwritten e' he' (decide_eq_true_eq.mp hsame)
  have hsource : Omml.text boxedFragment = "n".toList := by
    rw [Omml.text, he]
    dsimp only
    rw [Omml.nodeText_eq_flatten, htexts]
    rfl
  exact ⟨e, e', he, hstack, he', (decide_eq_true_eq.mp hsame).trans hbare, htexts'.trans htexts,
    htext.trans hsource, hany, hdone hstack⟩

end Formulary
