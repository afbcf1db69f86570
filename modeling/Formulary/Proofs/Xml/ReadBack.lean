/-
# Reading back what is printed

A legible document that is printed is read back as the tidy tree, prefixes apart
(`parse?_print`). Its tokens bring the nodes one after another: a start tag opens an element
whose declarations say what those of the tag say, the nodes in it are read below these, and the
end tag puts the element where it stood.

Key theorems: `Xml.readTokens_brings`, `Xml.readDocument_brings`, `Xml.parse?_print`.
-/
import Formulary.Proofs.Xml.Rereading

namespace Formulary
namespace Xml

open Reading (Gives gives_pure gives_warn gives_noError)

/-! ### Nodes -/

theorem gives_checkTarget {ids : List Text} {target : Text} (h : isTarget target = true) :
    Gives ids ids (Definitions.checkTarget target) fun _ => True := by
  have hcolon : decide (':' ∈ target) = false := by
    simp only [isTarget, Bool.and_eq_true] at h
    refine decide_eq_false fun hmem => ?_
    exact absurd (List.all_eq_true.mp h.1.2 _ hmem) (by decide)
  unfold Definitions.checkTarget
  split
  · exact gives_pure trivial
  · exact (gives_warn _).bind fun _ _ => gives_noError hcolon

section Reading

variable {d : Definitions} {readText : Nat → Text → Text → Reading (List Node)} {st : Setting}

/-- The text that is brought comes to stand as a node of its own after what is no text. -/
theorem joined_of_head {s : Text} (hs : s ≠ []) {ns : List Node}
    (hns : ∀ n ∈ ns.head?, n.isText = false) : joined s ns = .text s :: ns := by
  unfold joined
  rw [if_neg hs]
  cases ns with
  | nil => rfl
  | cons n ns =>
    cases n with
    | text t => exact absurd (hns _ rfl) (by simp [Node.isText])
    | _ => rfl

/-- A start tag that is the end tag as well adds an element. -/
theorem readTokens_closed {t : RawTag} {ts : List Token} {b : Base} {f : Frame} {up : List Frame}
    {p q : Progress} {tag : Tag} (hroom : st.around + (f :: up).length < Stack.maxOpen)
    (htag : d.tag (st.depth - 1) (st.depth = Definitions.maxDepth) (f.tag.bindings ++ f.scope)
      t.name t.attrs p = some (tag, q)) :
    readTokens d readText st (.opening t.name t.attrs true :: ts) ⟨b, f :: up⟩ p =
      readTokens d readText st ts ⟨b, { f with nodes := .element tag [] :: f.nodes } :: up⟩ q := by
  have hguard : (guard (st.around + (f :: up).length < Stack.maxOpen) : Reading Unit) p =
      some ((), p) := by
    rw [guard, if_pos hroom]
    rfl
  have hscope : Stack.scope ⟨b, f :: up⟩ = f.tag.bindings ++ f.scope := rfl
  rw [readTokens, Reading.bind_of_eq_some hguard, hscope, Reading.bind_of_eq_some htag]
  rfl

variable (hd : d.attributes = []) (hm : d.manner = .faithful)
  (hst : st.depth = Definitions.maxDepth)

include hd hst

/-- A legible tag is read from the record as it stands. -/
theorem exists_tag {scope scope' : Scope} (hscope : ∀ b ∈ scope, b.IsOrderly)
    (hsaid : scope'.map Binding.said = scope.map Binding.said) {t : Tag} (ht : t.Legible scope)
    {ids : List Text} (hnodup : (ids ++ t.ids).Nodup) {p : Progress} (hp : p.Calm ids) :
    ∃ t' q, d.tag (st.depth - 1) (st.depth = Definitions.maxDepth) scope' t.name.print t.rawAttrs p =
        some (t', q) ∧ q.Calm (ids ++ t.ids) ∧ t'.bare = t.bare ∧
      t'.bindings.map Binding.said = t.bindings.map Binding.said := by
  have hread := @gives_tag d (st.depth - 1) ids hd scope scope' hscope hsaid t ht hnodup p hp
  rw [hst] at hread ⊢
  exact hread

include hm

/-- **Tokens that bring legible nodes are read as these nodes**, prefixes apart. -/
theorem readTokens_brings {ts : List Token} {ns : List Node} (h : Brings ts ns) :
    ∀ {scope : Scope} {room : Nat} {ids : List Text} {b : Base} {f : Frame} {up : List Frame}
      {p : Progress}, (∀ b ∈ scope, b.IsOrderly) → AllLegible scope room ns →
      (f.tag.bindings ++ f.scope).map Binding.said = scope.map Binding.said →
      st.around + (f :: up).length + room ≤ Stack.maxOpen → (ids ++ idsAll ns).Nodup → p.Calm ids →
      (∀ n ∈ ns.head?, n.isText = true → ∀ m ∈ f.nodes.head?, m.isText = false) →
      ∃ ms q, bareAll ms = bareAll ns ∧ q.Calm (ids ++ idsAll ns) ∧
        ∀ rest, readTokens d readText st (ts ++ rest) ⟨b, f :: up⟩ p =
          readTokens d readText st rest ⟨b, { f with nodes := ms.reverse ++ f.nodes } :: up⟩ q := by
  induction h with
  | nil =>
    intro scope room ids b f up p _ _ _ _ _ hp _
    refine ⟨[], p, rfl, ?_, fun rest => rfl⟩
    rwa [idsAll, List.append_nil]
  | @text ts us s ns hs hts hns _ ih =>
    intro scope room ids b f up p hscope hlegible hsaid hroom hnodup hp hhead
    let g : Frame := { f with nodes := .text s :: f.nodes }
    have hg : ∀ n ∈ ns.head?, n.isText = true → ∀ m ∈ g.nodes.head?, m.isText = false :=
      fun n hn htext => absurd htext (by rw [hns n hn]; decide)
    obtain ⟨ms, q, hbare, hq, hread⟩ :=
      @ih scope room ids b g up p hscope hlegible.2 hsaid hroom hnodup hp hg
    refine ⟨.text s :: ms, q, ?_, hq, fun rest => ?_⟩
    · rw [bareAll, bareAll, hbare]
    · have hadd := congrFun (@readTokens_spells d readText st hm ts s hts (us ++ rest) b f up) p
      rw [joined_of_head hs (hhead _ rfl rfl)] at hadd
      rw [List.append_assoc, hadd, hread rest]
      simp [g]
  | @comment us ns s _ ih =>
    intro scope room ids b f up p hscope hlegible hsaid hroom hnodup hp hhead
    let g : Frame := { f with nodes := .comment s :: f.nodes }
    have hg : ∀ n ∈ ns.head?, n.isText = true → ∀ m ∈ g.nodes.head?, m.isText = false :=
      fun n _ _ m hm => by
        obtain rfl := Option.some.inj hm
        rfl
    obtain ⟨ms, q, hbare, hq, hread⟩ :=
      @ih scope room ids b g up p hscope hlegible.2 hsaid hroom hnodup hp hg
    refine ⟨.comment s :: ms, q, ?_, hq, fun rest => ?_⟩
    · rw [bareAll, bareAll, hbare]
    · rw [List.cons_append, readTokens]
      refine (hread rest).trans ?_
      simp [g]
  | @instruction us ns target data _ ih =>
    intro scope room ids b f up p hscope hlegible hsaid hroom hnodup hp hhead
    let g : Frame := { f with nodes := .instruction target data :: f.nodes }
    have hg : ∀ n ∈ ns.head?, n.isText = true → ∀ m ∈ g.nodes.head?, m.isText = false :=
      fun n _ _ m hm => by
        obtain rfl := Option.some.inj hm
        rfl
    obtain ⟨u, p', hcheck, hp', -⟩ :=
      gives_checkTarget (Bool.and_eq_true_iff.mp hlegible.1).1 p hp
    obtain ⟨ms, q, hbare, hq, hread⟩ :=
      @ih scope room ids b g up p' hscope hlegible.2 hsaid hroom hnodup hp' hg
    refine ⟨.instruction target data :: ms, q, ?_, hq, fun rest => ?_⟩
    · rw [bareAll, bareAll, hbare]
    · rw [List.cons_append, readTokens, Reading.bind_of_eq_some hcheck]
      refine (hread rest).trans ?_
      simp [g]
  | @empty us ns t _ ih =>
    intro scope room ids b f up p hscope hlegible hsaid hroom hnodup hp hhead
    obtain ⟨⟨hpos, ht, -⟩, hlegibles⟩ := hlegible
    have hids : idsAll (.element t [] :: ns) = t.ids ++ idsAll ns := by
      rw [idsAll, Node.ids, idsAll, List.append_nil]
    rw [hids, ← List.append_assoc] at hnodup ⊢
    obtain ⟨t', p', htag, hp', hbare', -⟩ :=
      exists_tag hd hst hscope hsaid ht (List.nodup_append.mp hnodup).1 hp
    have hopen : st.around + (f :: up).length < Stack.maxOpen := by omega
    let g : Frame := { f with nodes := .element t' [] :: f.nodes }
    have hg : ∀ n ∈ ns.head?, n.isText = true → ∀ m ∈ g.nodes.head?, m.isText = false :=
      fun n _ _ m hm => by
        obtain rfl := Option.some.inj hm
        rfl
    obtain ⟨ms, q, hbare, hq, hread⟩ :=
      @ih scope room (ids ++ t.ids) b g up p' hscope hlegibles hsaid hroom hnodup hp' hg
    refine ⟨.element t' [] :: ms, q, ?_, hq, fun rest => ?_⟩
    · rw [bareAll, bareAll, hbare, Node.bare, Node.bare, hbare']
    · rw [List.cons_append, readTokens_closed (t := ⟨t.name.print, t.rawAttrs⟩) hopen htag]
      refine (hread rest).trans ?_
      simp [g]
  | @element ts us ms ns t _ _ ihInner ih =>
    intro scope room ids b f up p hscope hlegible hsaid hroom hnodup hp hhead
    obtain ⟨⟨hpos, ht, hinside⟩, hlegibles⟩ := hlegible
    have hids : idsAll (.element t ms :: ns) = t.ids ++ (idsAll ms ++ idsAll ns) := by
      rw [idsAll, Node.ids, List.append_assoc]
    rw [hids, ← List.append_assoc, ← List.append_assoc] at hnodup ⊢
    have hinner : (ids ++ t.ids ++ idsAll ms).Nodup := (List.nodup_append.mp hnodup).1
    obtain ⟨t', p', htag, hp', hbare', hsaid'⟩ :=
      exists_tag hd hst hscope hsaid ht (List.nodup_append.mp hinner).1 hp
    have hopen : st.around + (f :: up).length < Stack.maxOpen := by omega
    have hscope' : ∀ b ∈ t.bindings ++ scope, b.IsOrderly := fun b hb =>
      (List.mem_append.mp hb).elim (ht.declares.orderly b) (hscope b)
    let k : Stack := ⟨b, f :: up⟩
    let e : Frame := ⟨t', t.name.print, k.scope, k.rule.inner t', []⟩
    have he : (e.tag.bindings ++ e.scope).map Binding.said =
        (t.bindings ++ scope).map Binding.said := by
      rw [List.map_append, List.map_append]
      exact congrArg₂ (· ++ ·) hsaid' hsaid
    have hroom' : st.around + (e :: f :: up).length + (room - 1) ≤ Stack.maxOpen := by
      rw [List.length_cons]
      omega
    obtain ⟨ks, q, hks, hq, hread⟩ :=
      @ihInner (t.bindings ++ scope) (room - 1) (ids ++ t.ids) b e (f :: up) p' hscope' hinside he
        hroom' hinner hp' fun _ _ _ m hm => absurd hm (by simp [e])
    let g : Frame := { f with nodes := .element t' ks :: f.nodes }
    have hg : ∀ n ∈ ns.head?, n.isText = true → ∀ m ∈ g.nodes.head?, m.isText = false :=
      fun n _ _ m hm => by
        obtain rfl := Option.some.inj hm
        rfl
    obtain ⟨ls, r, hls, hr, hread'⟩ :=
      @ih scope room (ids ++ t.ids ++ idsAll ms) b g up q hscope hlegibles hsaid hroom hnodup hq hg
    refine ⟨.element t' ks :: ls, r, ?_, hr, fun rest => ?_⟩
    · rw [bareAll, bareAll, hls, Node.bare, Node.bare, hbare', hks]
    · have hsplit : Token.opening t.name.print t.rawAttrs false ::
          (ts ++ .closing t.name.print :: us) ++ rest =
          .opening t.name.print t.rawAttrs false ::
            (ts ++ .closing t.name.print :: (us ++ rest)) := by simp
      have hclose := congrFun (@readTokens_closing d readText st (us ++ rest) b
        { e with nodes := ks.reverse ++ [] } f up) q
      rw [List.append_nil, List.reverse_reverse] at hclose
      rw [hsplit, readTokens_opening (t := ⟨t.name.print, t.rawAttrs⟩) (k := k) hopen htag]
      refine ((hread (.closing t.name.print :: (us ++ rest))).trans ?_).trans
        ((hread' rest).trans ?_)
      · rw [List.append_nil]
        exact hclose
      · simp [g]

end Reading

/-! ### Documents -/

theorem calm_start : Progress.start.Calm [] := ⟨by simp [Progress.start], by simp [Progress.start]⟩

theorem accepts_of_calm {ids : List Text} {p : Progress} (h : p.Calm ids) : p.accepts = true := by
  rw [Progress.accepts, bne_iff_ne]
  intro hhead
  exact h.reports (List.mem_of_head? hhead)

theorem readDocument_of_readTokens {bytes : Nat} {ts : List Token} {e : Element} {p : Progress}
    (h : readTokens (.empty .faithful false) (readEntity (.empty .faithful false) Definitions.maxDepth)
      ⟨bytes, Definitions.maxDepth, 0⟩ ts ⟨.document none, []⟩ .start =
        some (⟨.document (some e), []⟩, p)) :
    readDocument .faithful bytes ⟨false, [], none⟩ ts .start = some (e, p) := by
  show (readTokens _ _ _ ts ⟨.document none, []⟩ .start).bind _ = _
  rw [h]
  rfl

/-- The tokens of a legible root are read as this root, prefixes apart. -/
theorem readDocument_brings {ts : List Token} {t : Tag} {ns : List Node}
    (h : Brings ts [.element t ns]) (hlegible : (Node.element t ns).Legible [] Stack.maxOpen)
    (hids : (Node.element t ns).ids.Nodup) (bytes : Nat) :
    ∃ e p, readDocument .faithful bytes ⟨false, [], none⟩ ts .start = some (e, p) ∧
      p.accepts = true ∧ e.bare = (Element.mk t ns).bare := by
  let d := Definitions.empty .faithful false
  let readText := readEntity d Definitions.maxDepth
  let st : Setting := ⟨bytes, Definitions.maxDepth, 0⟩
  obtain ⟨hpos, ht, hns⟩ := hlegible
  have hopen : st.around + ([] : List Frame).length < Stack.maxOpen := hpos
  have hnodup : ([] ++ t.ids : List Text).Nodup := (List.nodup_append.mp hids).1
  obtain ⟨t', p, htag, hp, hbare, hsaid⟩ :=
    @exists_tag d st rfl rfl [] [] (by simp) rfl t ht [] hnodup .start calm_start
  cases h with
  | empty _ hus =>
    cases hus
    refine ⟨⟨t', []⟩, p, readDocument_of_readTokens ?_, accepts_of_calm hp, ?_⟩
    · have hguard : (guard (st.around + ([] : List Frame).length < Stack.maxOpen) :
          Reading Unit) .start = some ((), .start) := by
        rw [guard, if_pos hopen]
        rfl
      show readTokens d readText st _ _ _ = _
      rw [readTokens, Reading.bind_of_eq_some hguard]
      exact Reading.bind_of_eq_some htag
    · rw [Element.bare, hbare]
      rfl
  | element _ hts hus =>
    cases hus
    let f : Frame := ⟨t', t.name.print, [], SpaceRule.unset.inner t', []⟩
    have hf : (f.tag.bindings ++ f.scope).map Binding.said =
        (t.bindings ++ []).map Binding.said := by
      rw [List.append_nil, List.append_nil]
      exact hsaid
    have hroom : st.around + [f].length + (Stack.maxOpen - 1) ≤ Stack.maxOpen := by
      show 0 + 1 + (Stack.maxOpen - 1) ≤ Stack.maxOpen
      omega
    have hscope : ∀ b ∈ t.bindings ++ [], b.IsOrderly := fun b hb =>
      ht.declares.orderly b (by rwa [List.append_nil] at hb)
    obtain ⟨ks, q, hks, hq, hread⟩ := @readTokens_brings d readText st rfl rfl rfl _ _ hts
      _ _ _ (.document none) f [] p hscope hns hf hroom hids hp
      fun _ _ _ m hm => absurd hm (by simp [f])
    refine ⟨⟨t', ks⟩, q, readDocument_of_readTokens ?_, accepts_of_calm hq, ?_⟩
    · have hclose := congrFun (@readTokens_closing_root d readText st []
        { f with nodes := ks.reverse ++ [] }) q
      rw [List.append_nil, List.reverse_reverse] at hclose
      show readTokens d readText st _ _ _ = _
      rw [readTokens_opening (t := ⟨t.name.print, t.rawAttrs⟩) (k := ⟨.document none, []⟩) hopen htag]
      refine (hread [.closing t.name.print]).trans ?_
      rw [List.append_nil]
      exact hclose
    · rw [Element.bare, hbare, hks]
      rfl

/-- **A legible document is read back from its written form**: as the tidy tree, prefixes
apart. -/
theorem parse?_print {e : Element} (h : e.IsLegible) :
    ∃ e', parse? .faithful e.print = some e' ∧ e'.bare = e.bare.tidy := by
  have hlexed : e.node.IsLexed := h.node.isLexed (by simp) rfl
  obtain ⟨ts, hlex, hbrings⟩ := hlexed [] [] (by rw [lex])
  rw [List.append_nil, List.append_nil] at hlex
  have hnode := hbrings [] [] .nil
  rw [List.append_nil] at hnode
  have hids : e.node.tidy.ids.Nodup := by
    rw [Node.ids_tidy]
    exact h.ids
  obtain ⟨e', p, hread, haccepts, hbare⟩ :=
    readDocument_brings hnode (Node.legible_tidy h.node) hids (Text.byteLength e.print)
  -- the document starts with the name of its root
  obtain ⟨hname, -⟩ := h.node.2.1.isPlain (by simp)
  obtain ⟨c, w, hw, hc⟩ := exists_cons_of_isName hname
  obtain ⟨s, hs⟩ : ∃ s, e.print = '<' :: c :: s := by
    obtain ⟨t, ns⟩ := e
    have hprint : t.print = c :: (w ++ t.rawAttrs.flatMap RawAttr.print) := by
      rw [Tag.print_eq]
      exact congrArg (· ++ _) hw
    cases ns with
    | nil => exact ⟨_, congrArg (fun p => '<' :: (p ++ "/>".toList)) hprint⟩
    | cons n ns =>
      refine ⟨_, congrArg (fun p => '<' :: p ++ ['>'] ++ n.print ++ printAll ns ++ "</".toList ++
        t.name.print ++ ['>']) hprint⟩
  have hprolog := prolog?_of_startsName hc s
  rw [← hs] at hprolog
  refine ⟨e', ?_, ?_⟩
  · rw [parse?, hprolog]
    have hlex' : lex e.print = some ts := hlex
    simp only [Option.bind_eq_bind, Option.bind_some, hlex', StateT.run, hread, haccepts, if_true]
    rfl
  · rw [hbare]
    exact e.bare_tidy

end Xml
end Formulary
