/-
# Lexing what is printed

The written form of a legible tree is lexed into tokens that bring the nodes of the tidy tree:
text comes as tokens that spell it, and each tag as the raw form of its names, declarations and
attributes.

Key definitions: `Xml.Tag.rawAttrs`, `Xml.Brings`.
Key theorems: `Xml.recovers_escapeTextChar`, `Xml.recovers_escapeValueChar`, `Xml.lex_comment`,
`Xml.lex_instruction`, `Xml.lex_printAll`, `Xml.lex_print`.
-/
import Formulary.Proofs.Xml.Legible
import Formulary.Proofs.Xml.Nested

namespace Formulary
namespace Xml

/-! ### Characters -/

/-- Characters of text are found again in what is written for them. -/
theorem recovers_escapeTextChar (c : Char) : Recovers escapeTextChar c := by
  by_cases hamp : c = '&'
  · subst hamp
    exact .of_name "amp".toList rfl (by decide) (by decide) (by decide)
  by_cases hlt : c = '<'
  · subst hlt
    exact .of_name "lt".toList rfl (by decide) (by decide) (by decide)
  by_cases hgt : c = '>'
  · subst hgt
    exact .of_name "gt".toList rfl (by decide) (by decide) (by decide)
  by_cases hcr : c = '\r'
  · subst hcr
    exact .inr ⟨by decide, "#13;".toList, rfl, fun _ => rfl⟩
  refine .inl ⟨?_, by simp [isTextual, hamp, hlt], hgt, hcr⟩
  simp [escapeTextChar, hamp, hlt, hgt, hcr]

/-- Characters of values are found again in what is written for them. -/
theorem recovers_escapeValueChar (c : Char) : Recovers escapeValueChar c := by
  by_cases hamp : c = '&'
  · subst hamp
    exact .of_name "amp".toList rfl (by decide) (by decide) (by decide)
  by_cases hlt : c = '<'
  · subst hlt
    exact .of_name "lt".toList rfl (by decide) (by decide) (by decide)
  by_cases hgt : c = '>'
  · subst hgt
    exact .of_name "gt".toList rfl (by decide) (by decide) (by decide)
  by_cases hquote : c = '"'
  · subst hquote
    exact .of_name "quot".toList rfl (by decide) (by decide) (by decide)
  by_cases htab : c = '\t'
  · subst htab
    exact .inr ⟨by decide, "#9;".toList, rfl, fun _ => rfl⟩
  by_cases hfeed : c = '\n'
  · subst hfeed
    exact .inr ⟨by decide, "#10;".toList, rfl, fun _ => rfl⟩
  by_cases hcr : c = '\r'
  · subst hcr
    exact .inr ⟨by decide, "#13;".toList, rfl, fun _ => rfl⟩
  refine .inl ⟨?_, by simp [isTextual, hamp, hlt], hgt, hcr⟩
  simp [escapeValueChar, hamp, hlt, hgt, hquote, htab, hfeed, hcr]

/-- No character that ends a value, starts a tag or is a line end is left in a written value. -/
theorem notMem_escapeValue {d : Char} (hd : d ∈ ['"', '<', '\r']) (s : Text) :
    d ∉ escapeValue s := by
  have hchar : ∀ c, d ∉ escapeValueChar c := fun c => by
    have hplain : ∀ w : Text, (w.all fun e => !(['"', '<', '\r'].contains e)) = true → d ∉ w :=
      fun w hw hmem => by
        have hnot := List.all_eq_true.mp hw d hmem
        simp only [Bool.not_eq_true', List.contains_eq_mem, decide_eq_false_iff_not] at hnot
        exact hnot hd
    unfold escapeValueChar
    split
    · exact hplain _ (by decide)
    split
    · exact hplain _ (by decide)
    split
    · exact hplain _ (by decide)
    split
    · exact hplain _ (by decide)
    split
    · exact hplain _ (by decide)
    split
    · exact hplain _ (by decide)
    split
    · exact hplain _ (by decide)
    rename_i hlt _ hquote _ _ hcr
    refine hplain _ ?_
    simp [hlt, hquote, hcr]
  intro h
  obtain ⟨c, -, hc⟩ := List.mem_flatMap.mp h
  exact hchar c hc

/-! ### Names -/

theorem isNameChar_of_isSimpleName {s : Text} (h : isSimpleName s = true) :
    ∀ c ∈ s, isNameChar c = true := by
  cases s with
  | nil => exact absurd h (by decide)
  | cons c s =>
    obtain ⟨hc, hs⟩ := Bool.and_eq_true_iff.mp h
    refine List.forall_mem_cons.mpr ⟨?_, List.all_eq_true.mp hs⟩
    simp [isNameChar, hc]

theorem isWordChar_of_isNameChar {c : Char} (h : isNameChar c = true) : isWordChar c = true := by
  rw [isWordChar, h, Bool.or_true]

theorem colon_notMem_of_isSimpleName {s : Text} (h : isSimpleName s = true) : ':' ∉ s := fun hmem =>
  absurd (isNameChar_of_isSimpleName h _ hmem) (by decide)

/-- A simple name, and a simple name with a prefix, are written names if they are short. -/
theorem isName_append {p s : Text} (hp : isSimpleName p = true) (hs : ∀ c ∈ s, isWordChar c = true)
    (hshort : (p ++ s).length ≤ maxName) : isName (p ++ s) = true := by
  cases p with
  | nil => exact absurd hp (by decide)
  | cons c p =>
    have hchars := isNameChar_of_isSimpleName hp
    have hstart : isNameStart c = true := (Bool.and_eq_true_iff.mp hp).1
    rw [List.cons_append, List.length_cons] at hshort
    simp only [List.cons_append, isName, Bool.and_eq_true, Bool.or_eq_true, List.all_eq_true,
      decide_eq_true_eq]
    refine ⟨⟨.inr hstart, fun d hd => ?_⟩, hshort⟩
    rcases List.mem_append.mp hd with hd | hd
    · exact isWordChar_of_isNameChar (hchars d (List.mem_cons_of_mem c hd))
    · exact hs d hd

theorem isName_of_isSimpleName {s : Text} (hs : isSimpleName s = true)
    (hshort : s.length ≤ maxName) : isName s = true := by
  have h := isName_append hs (s := []) (by simp) (by simpa using hshort)
  rwa [List.append_nil] at h

theorem isName_qualified {p s : Text} (hp : isSimpleName p = true) (hs : isSimpleName s = true)
    (hshort : (p ++ ':' :: s).length ≤ maxName) : isName (p ++ ':' :: s) = true := by
  refine isName_append hp (fun c hc => ?_) hshort
  rcases List.mem_cons.mp hc with rfl | hc
  · decide
  · exact isWordChar_of_isNameChar (isNameChar_of_isSimpleName hs c hc)

theorem mem_of_uri? {scope : Scope} {pre uri : Text} (h : scope.uri? pre = some uri) :
    ∃ b, (b = .xml ∨ b ∈ scope) ∧ b.pre = pre ∧ b.uri = uri := by
  obtain ⟨b, hb, rfl⟩ := Option.map_eq_some_iff.mp h
  unfold Scope.find? at hb
  split at hb
  · rename_i hxml
    obtain rfl := Option.some.inj hb
    exact ⟨.xml, .inl rfl, hxml.symm, rfl⟩
  · exact ⟨b, .inr (List.mem_of_find?_eq_some hb), by simpa using List.find?_some hb, rfl⟩

/-- A name that stands among orderly declarations has a simple prefix, or none. -/
theorem Name.isSimpleName_pre {scope : Scope} (hscope : ∀ b ∈ scope, b.IsOrderly) {n : Name}
    {isAttr : Bool} (h : n.standsIn scope isAttr = true) (hpre : n.pre ≠ []) :
    isSimpleName n.pre = true := by
  rw [Name.standsIn, if_neg hpre, beq_iff_eq] at h
  obtain ⟨b, hb, hbpre, -⟩ := mem_of_uri? h
  rcases hb with rfl | hb
  · rw [← hbpre]
    decide
  · rw [← hbpre] at hpre ⊢
    exact (hscope b hb).simple.resolve_left hpre

theorem Name.isName_print {scope : Scope} (hscope : ∀ b ∈ scope, b.IsOrderly) {n : Name}
    {isAttr : Bool} (h : n.standsIn scope isAttr = true) (hloc : isSimpleName n.loc = true)
    (hshort : n.print.length ≤ maxName) : isName n.print = true := by
  unfold Name.print at hshort ⊢
  split at hshort
  · rename_i hpre
    rw [if_pos hpre]
    exact isName_of_isSimpleName hloc hshort
  · rename_i hpre
    rw [if_neg hpre]
    exact isName_qualified (Name.isSimpleName_pre hscope h hpre) hloc hshort

/-! ### Tags -/

/-- The written name of a declaration. -/
def Binding.key (b : Binding) : Text :=
  if b.pre = [] then "xmlns".toList else "xmlns:".toList ++ b.pre

/-- A declaration as it is written. -/
def Binding.raw (b : Binding) : RawAttr := ⟨b.key, escapeValue b.uri⟩

/-- An attribute as it is written. -/
def Attr.raw (a : Attr) : RawAttr := ⟨a.name.print, escapeValue a.value⟩

/-- The declarations and attributes of a tag as they are written. -/
def Tag.rawAttrs (t : Tag) : List RawAttr := t.bindings.map Binding.raw ++ t.attrs.map Attr.raw

theorem Tag.print_eq (t : Tag) : t.print = t.name.print ++ t.rawAttrs.flatMap RawAttr.print := by
  have hprint : ∀ name value : Text, printAttr name value =
      RawAttr.print ⟨name, escapeValue value⟩ := fun name value => by
    simp [printAttr, RawAttr.print]
  have hbinding : Binding.print = fun b => b.raw.print := funext fun b => hprint _ _
  have hattr : (fun a : Attr => printAttr a.name.print a.value) = fun a => a.raw.print :=
    funext fun a => hprint _ _
  rw [Tag.print, Tag.rawAttrs, List.flatMap_append, List.flatMap_map, List.flatMap_map,
    List.append_assoc, hbinding, hattr]

theorem isPlain_raw {name : Text} (hname : isName name = true) (value : Text) :
    RawAttr.IsPlain ⟨name, escapeValue value⟩ :=
  ⟨hname, notMem_escapeValue (by simp) value, notMem_escapeValue (by simp) value⟩

/-- What is written in a legible tag is lexed. -/
theorem Tag.Legible.isPlain {scope : Scope} (hscope : ∀ b ∈ scope, b.IsOrderly) {t : Tag}
    (h : t.Legible scope) : isName t.name.print = true ∧ ∀ a ∈ t.rawAttrs, a.IsPlain := by
  have hinner : ∀ b ∈ t.bindings ++ scope, b.IsOrderly := fun b hb =>
    (List.mem_append.mp hb).elim (h.declares.orderly b) (hscope b)
  refine ⟨Name.isName_print hinner h.name h.orderly.simple (h.short _ List.mem_cons_self),
    fun a ha => ?_⟩
  rcases List.mem_append.mp ha with ha | ha
  · obtain ⟨b, hb, rfl⟩ := List.mem_map.mp ha
    refine isPlain_raw ?_ b.uri
    unfold Binding.key
    split
    · decide
    · rename_i hpre
      have hsimple := (h.declares.orderly b hb).simple.resolve_left hpre
      have hwritten : "xmlns:".toList ++ b.pre ∈ t.written :=
        List.mem_cons_of_mem _ (List.mem_append_left _ (List.mem_map_of_mem hb))
      exact isName_qualified (p := "xmlns".toList) (by decide) hsimple (h.short _ hwritten)
  · obtain ⟨b, hb, rfl⟩ := List.mem_map.mp ha
    have hwritten : b.name.print ∈ t.written :=
      List.mem_cons_of_mem _ (List.mem_append_right _ (List.mem_map_of_mem hb))
    exact isPlain_raw (Name.isName_print hinner (h.attrs b hb) (h.orderly.attrs b hb).simple
      (h.short _ hwritten)) b.value

/-! ### Comments and instructions -/

/-- What ends a text is found right after it, whatever follows. -/
theorem cut?_of_standsBefore {pat s : Text} (h : standsBefore pat s = true) (r : Text) :
    Text.cut? pat (s ++ (pat ++ r)) = some (s, r) := by
  obtain ⟨-, hskips⟩ := Text.cut?_eq_some_iff.mp (beq_iff_eq.mp h)
  exact Text.cut?_eq_some_iff.mpr
    ⟨rfl, (Text.skips_self_iff pat s r).mpr ((Text.skips_self_iff pat s []).mp hskips)⟩

theorem normalizeLines_of_all {s : Text} (h : (s.all fun c => c != '\r') = true) :
    normalizeLines s = s :=
  normalizeLines_of_notMem fun hmem => absurd (List.all_eq_true.mp h _ hmem) (by simp)

/-- A comment is lexed as what it was written for. -/
theorem lex_comment {s : Text} (h : isCommentText s = true) (r : Text) :
    lex ((Node.comment s).print ++ r) = (lex r).map (.comment s :: ·) := by
  simp only [isCommentText, Bool.and_eq_true] at h
  obtain ⟨⟨hlegal, hcr⟩, hend⟩ := h
  have hcut := cut?_of_standsBefore hend ('>' :: r)
  have hcomment : comment? (s ++ ("--".toList ++ '>' :: r)) = some (.comment s, r) := by
    rw [comment?, hcut]
    simp only [hlegal, if_true, normalizeLines_of_all hcr]
  have hsplit : (Node.comment s).print ++ r =
      '<' :: ("!--".toList ++ (s ++ ("--".toList ++ '>' :: r))) := by
    simp [Node.print]
  have hafter := Text.after?_append "!--".toList (s ++ ("--".toList ++ '>' :: r))
  rw [hsplit]
  refine lex_markup ?_
  rw [markup?, hafter]
  exact hcomment

/-- The body of an instruction, between its brackets. -/
def instructionText (target : Text) : Option Text → Text
  | none => target
  | some data => target ++ ' ' :: data

theorem skips_of_head_notMem {c : Char} {pat x : Text} (hc : c ∉ x) (s : Text) :
    Text.Skips (c :: pat) x s := fun t ht hne hpre => by
  obtain ⟨d, u, rfl⟩ := List.exists_cons_of_ne_nil hne
  obtain rfl : c = d := (List.cons_prefix_cons.mp hpre).1
  exact hc (ht.subset List.mem_cons_self)

theorem standsBefore_instructionText {target : Text} (htarget : isName target = true)
    {data : Option Text} (hdata : ∀ d ∈ data, standsBefore "?>".toList d = true) :
    standsBefore "?>".toList (instructionText target data) = true := by
  have hmark : '?' ∉ target := fun h =>
    absurd (isWordChar_of_isName htarget _ h) (by decide)
  refine beq_iff_eq.mpr (Text.cut?_eq_some_iff.mpr ⟨by rw [List.append_nil], ?_⟩)
  cases data with
  | none => exact skips_of_head_notMem hmark _
  | some d =>
    obtain ⟨-, hskips⟩ := Text.cut?_eq_some_iff.mp (beq_iff_eq.mp (hdata d rfl))
    refine Text.skips_append.mpr ⟨skips_of_head_notMem hmark _, ?_⟩
    refine Text.skips_cons.mpr ⟨fun h => ?_, hskips⟩
    exact absurd (List.cons_prefix_cons.mp h).1 (by decide)

theorem instructionBody?_print {target : Text} (htarget : isTarget target = true)
    {data : Option Text} (hdata : data.all isDataText = true) :
    instructionBody? (instructionText target data) = some (.instruction target data) := by
  simp only [isTarget, Bool.and_eq_true] at htarget
  obtain ⟨⟨⟨hname, hlegal⟩, -⟩, hxml⟩ := htarget
  have hword := isWordChar_of_isName hname
  cases data with
  | none =>
    have htake : target.takeWhile isWordChar = target := List.takeWhile_eq_self_iff.mpr hword
    have hdrop : target.dropWhile isWordChar = [] := List.dropWhile_eq_nil_iff.mpr hword
    rw [instructionText, instructionBody?]
    simp only [htake, hdrop, hname, hxml, hlegal, Bool.and_self, if_true, List.isEmpty_nil]
  | some d =>
    simp only [Option.all_some, isDataText, Bool.and_eq_true, Bool.not_eq_true'] at hdata
    obtain ⟨⟨⟨hd, hcr⟩, hspace⟩, -⟩ := hdata
    have hall : isLegal (target ++ ' ' :: d) = true := by
      rw [isLegal_append, hlegal, Bool.true_and, isLegal, List.all_cons, ← isLegal, hd]
      decide
    have hrest : (' ' :: d).dropWhile isSpace = d := by
      rw [List.dropWhile_cons_of_pos (by decide)]
      cases d with
      | nil => rfl
      | cons c d => exact List.dropWhile_cons_of_neg (by simpa using hspace)
    rw [instructionText, instructionBody?]
    simp only [Text.takeWhile_until hword (c := ' ') (by decide),
      Text.dropWhile_until hword (c := ' ') (by decide), hname, hxml, hall, Bool.and_self, if_true,
      hrest, normalizeLines_of_all hcr, List.isEmpty_cons, Bool.false_eq_true, if_false]
    rfl

/-- An instruction is lexed as what it was written for. -/
theorem lex_instruction {target : Text} {data : Option Text}
    (h : (Node.instruction target data).isOrderly = true) (r : Text) :
    lex ((Node.instruction target data).print ++ r) =
      (lex r).map (.instruction target data :: ·) := by
  obtain ⟨htarget, hdata⟩ := Bool.and_eq_true_iff.mp h
  have hname : isName target = true := by
    simp only [isTarget, Bool.and_eq_true] at htarget
    exact htarget.1.1.1
  have hends : ∀ d ∈ data, standsBefore "?>".toList d = true := fun d hd => by
    obtain rfl := Option.mem_def.mp hd
    exact (Bool.and_eq_true_iff.mp hdata).2
  have hcut := cut?_of_standsBefore (standsBefore_instructionText hname hends) r
  have hinstruction : instruction? (instructionText target data ++ ("?>".toList ++ r)) =
      some (.instruction target data, r) := by
    rw [instruction?, hcut]
    simp only [instructionBody?_print htarget hdata]
    rfl
  have hsplit : (Node.instruction target data).print ++ r =
      '<' :: '?' :: (instructionText target data ++ ("?>".toList ++ r)) := by
    cases data <;> simp [Node.print, instructionText]
  rw [hsplit]
  exact lex_markup hinstruction

/-! ### Nodes -/

/-- The tokens bring these nodes, which are tidy. -/
inductive Brings : List Token → List Node → Prop
  | nil : Brings [] []
  | text {ts us : List Token} {s : Text} {ns : List Node} : s ≠ [] → Spells ts s →
      (∀ n ∈ ns.head?, n.isText = false) → Brings us ns → Brings (ts ++ us) (.text s :: ns)
  | comment {us : List Token} {ns : List Node} (s : Text) : Brings us ns →
      Brings (.comment s :: us) (.comment s :: ns)
  | instruction {us : List Token} {ns : List Node} (target : Text) (data : Option Text) :
      Brings us ns → Brings (.instruction target data :: us) (.instruction target data :: ns)
  | empty {us : List Token} {ns : List Node} (t : Tag) : Brings us ns →
      Brings (.opening t.name.print t.rawAttrs true :: us) (.element t [] :: ns)
  | element {ts us : List Token} {ms ns : List Node} (t : Tag) : Brings ts ms → Brings us ns →
      Brings (.opening t.name.print t.rawAttrs false :: (ts ++ .closing t.name.print :: us))
        (.element t ms :: ns)

theorem Spells.eq_nil {ts : List Token} (h : Spells ts []) : ts = [] := by
  generalize hs : ([] : Text) = s at h
  cases h with
  | nil => rfl
  | text _ hne => exact absurd (List.append_eq_nil_iff.mp hs.symm).1 hne
  | char c => exact absurd hs (by simp)

/-- Text in front of other nodes. -/
theorem Brings.withText {ts us : List Token} {s : Text} {ns : List Node} (hs : Spells ts s)
    (hns : ∀ n ∈ ns.head?, n.isText = false) (h : Brings us ns) :
    Brings (ts ++ us) (withText s ns) := by
  by_cases hne : s = []
  · subst hne
    rw [hs.eq_nil]
    exact h
  · rw [withText_of_head hne hns]
    exact .text hne hs hns h

/-- Whether a node is lexed, whatever follows, into tokens that bring it. -/
def Node.IsLexed (n : Node) : Prop :=
  ∀ r us, lex r = some us → ∃ ts, lex (n.print ++ r) = some (ts ++ us) ∧
    ∀ vs ns, Brings vs ns → Brings (ts ++ vs) (n.tidy :: ns)

theorem print_eq_cons_of_not_isText {n : Node} {scope : Scope} {room : Nat}
    (h : n.Legible scope room) (hn : n.isText = false) : ∃ w, n.print = '<' :: w := by
  cases n with
  | text s => exact absurd hn (by simp [Node.isText])
  | comment s => exact ⟨_, rfl⟩
  | instruction target data => cases data <;> exact ⟨_, rfl⟩
  | reference name => exact absurd (show false = true from h) (by decide)
  | element t ns => cases ns <;> exact ⟨_, rfl⟩

/-- Nodes with text in front of them are lexed into tokens that bring the tidy nodes. -/
theorem lex_withText {scope : Scope} {room : Nat} {ns : List Node}
    (hlexed : ∀ n ∈ ns, n.isText = false → n.IsLexed) (hns : AllLegible scope room ns) {s : Text}
    (hs : isLegal s = true) {r : Text} {us : List Token} (hr : lex ('<' :: r) = some us) :
    ∃ ts, lex (escapeText s ++ (printAll ns ++ '<' :: r)) = some (ts ++ us) ∧
      Brings ts (withText s (tidyAll ns)) := by
  induction ns generalizing s with
  | nil =>
    obtain ⟨ts, hts, hlex⟩ := lex_escape r fun c (_ : c ∈ s) => recovers_escapeTextChar c
    rw [hs, if_pos rfl, hr] at hlex
    have hbrings := @Brings.withText ts [] s [] hts (by simp) .nil
    rw [List.append_nil] at hbrings
    exact ⟨ts, hlex, hbrings⟩
  | cons n ns ih =>
    obtain ⟨hn, hrest⟩ := List.forall_mem_cons.mp hlexed
    obtain ⟨hlegible, hlegibles⟩ := hns
    cases hkind : n.isText with
    | true =>
      -- text joins the text in front of it
      cases n with
      | text t =>
        have hjoined : isLegal (s ++ t) = true := by
          rw [isLegal_append, hs, Bool.true_and]
          exact hlegible
        obtain ⟨ts, hlex, hbrings⟩ := ih hrest hlegibles hjoined
        refine ⟨ts, ?_, ?_⟩
        · rw [escapeText, List.flatMap_append, List.append_assoc] at hlex
          rw [printAll, Node.print, List.append_assoc]
          exact hlex
        · rw [tidyAll]
          show Brings ts (withText s (withText t (tidyAll ns)))
          rwa [withText_withText]
      | _ => exact absurd hkind (by simp [Node.isText])
    | false =>
      obtain ⟨ws, hafter, hfollowing⟩ := ih hrest hlegibles (s := []) rfl
      obtain ⟨vs, hnode, hbrings⟩ := hn hkind _ _ hafter
      obtain ⟨w, hw⟩ := print_eq_cons_of_not_isText hlegible hkind
      obtain ⟨ts, hts, hlex⟩ := lex_escape (w ++ (printAll ns ++ '<' :: r))
        fun c (_ : c ∈ s) => recovers_escapeTextChar c
      have hhead : ∀ m ∈ (n.tidy :: tidyAll ns).head?, m.isText = false := fun m hm => by
        obtain rfl := Option.some.inj hm
        rw [Node.isText_tidy, hkind]
      refine ⟨ts ++ (vs ++ ws), ?_, ?_⟩
      · rw [printAll, hw]
        rw [hw] at hnode
        have hnode' : lex ('<' :: (w ++ (printAll ns ++ '<' :: r))) = some (vs ++ (ws ++ us)) := hnode
        rw [hs, if_pos rfl, hnode', Option.map_some] at hlex
        rw [List.append_assoc, List.cons_append, List.append_assoc ts, List.append_assoc vs]
        exact hlex
      · rw [tidyAll, Node.before_of_not_isText (by rw [Node.isText_tidy, hkind])]
        exact .withText hts hhead (hbrings ws _ hfollowing)

/-- **What is printed of a legible node is lexed into tokens that bring the tidy node.** -/
theorem Node.Legible.isLexed {n : Node} {scope : Scope} {room : Nat}
    (hscope : ∀ b ∈ scope, b.IsOrderly) (h : n.Legible scope room) (hn : n.isText = false) :
    n.IsLexed := by
  induction n using Node.ind generalizing scope room with
  | leaf n hleaf =>
    intro r us hr
    cases n with
    | element t ns => exact absurd rfl (hleaf t ns)
    | text s => exact absurd hn (by simp [Node.isText])
    | reference name => exact absurd (show false = true from h) (by decide)
    | comment s =>
      refine ⟨[.comment s], ?_, fun vs ns hvs => .comment s hvs⟩
      rw [lex_comment h, hr]
      rfl
    | instruction target data =>
      refine ⟨[.instruction target data], ?_, fun vs ns hvs => .instruction target data hvs⟩
      rw [lex_instruction h, hr]
      rfl
  | element t ns ih =>
    intro r us hr
    obtain ⟨-, ht, hns⟩ := h
    obtain ⟨hname, hattrs⟩ := ht.isPlain hscope
    have hinner : ∀ b ∈ t.bindings ++ scope, b.IsOrderly := fun b hb =>
      (List.mem_append.mp hb).elim (ht.declares.orderly b) (hscope b)
    cases ns with
    | nil =>
      refine ⟨[.opening t.name.print t.rawAttrs true], ?_, fun vs ns hvs => .empty t hvs⟩
      have htag := lex_tag hname hattrs true r
      rw [hr] at htag
      rw [Node.print, Tag.print_eq]
      simpa [tagEnd] using htag
    | cons n ns =>
      have hclosing := lex_endTag hname r
      rw [hr, Option.map_some] at hclosing
      have hend : endTag t.name.print ++ r = '<' :: ('/' :: t.name.print ++ '>' :: r) := by
        simp [endTag]
      rw [hend] at hclosing
      have hlexed : ∀ m ∈ n :: ns, m.isText = false → m.IsLexed := fun m hm hkind =>
        ih m hm hinner (allLegible_iff.mp hns m hm) hkind
      obtain ⟨ts, hlex, hbrings⟩ := lex_withText hlexed hns (s := []) rfl hclosing
      refine ⟨.opening t.name.print t.rawAttrs false :: (ts ++ [.closing t.name.print]), ?_,
        fun vs ks hvs => ?_⟩
      · have htag := lex_tag hname hattrs false
          (printAll (n :: ns) ++ '<' :: ('/' :: t.name.print ++ '>' :: r))
        rw [show lex (printAll (n :: ns) ++ _) = _ from hlex, Option.map_some] at htag
        rw [Node.print, Tag.print_eq]
        simpa [tagEnd, printAll] using htag
      · have hwhole := Brings.element t hbrings hvs
        rw [Node.tidy]
        simpa using hwhole

end Xml
end Formulary
