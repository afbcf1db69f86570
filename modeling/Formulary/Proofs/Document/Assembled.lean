/-
# What a converter makes

The steps of a converter add what the outline says, behind what is there already
(`Assembles`), so a conversion gives the same whatever the converter holds. And the outline
is read off the places of the document: each place adds its own paragraphs, those of an item
before what stands in it, under the number that its list has among all lists
(`entryParagraphs_entriesFrom`).

Key definitions: `Assembles`, `Makes`, `Layout`.
Key theorems: `assembles_addBlocks`, `entryParagraphs_entriesFrom`, `makes_iff`,
`buildParagraphs_isOk_iff`, `convert_eq`, `convert_layout`.
-/
import Formulary.Document.Assembly
import Formulary.Proofs.Document.Places
import Formulary.Proofs.Word.ListItems

namespace Formulary

section Entries

variable {byId : Text → Option Formula} {lex : Text → List Inline}

/-! ### Entries in a row -/

theorem entryParagraphs_nil : entryParagraphs byId lex [] = .ok [] := rfl

theorem entryParagraphs_cons (e : Entry) (es : List Entry) :
    entryParagraphs byId lex (e :: es) =
      (e.paragraphs byId lex).bind fun ps => (entryParagraphs byId lex es).map (ps ++ ·) := by
  rw [entryParagraphs, entryParagraphs, List.mapM_cons]
  cases e.paragraphs byId lex with
  | error f => rfl
  | ok ps => cases es.mapM (Entry.paragraphs byId lex) <;> rfl

theorem entryParagraphs_append (es fs : List Entry) :
    entryParagraphs byId lex (es ++ fs) =
      (entryParagraphs byId lex es).bind fun ps =>
        (entryParagraphs byId lex fs).map (ps ++ ·) := by
  induction es with
  | nil =>
    rw [List.nil_append, entryParagraphs_nil]
    cases entryParagraphs byId lex fs <;> rfl
  | cons e es ih =>
    rw [List.cons_append, entryParagraphs_cons, entryParagraphs_cons, ih]
    cases e.paragraphs byId lex <;> cases entryParagraphs byId lex es <;>
      cases entryParagraphs byId lex fs <;> simp [Except.bind, Except.map]

theorem entryParagraphs_single (e : Entry) :
    entryParagraphs byId lex [e] = e.paragraphs byId lex := by
  rw [entryParagraphs_cons, entryParagraphs_nil]
  cases e.paragraphs byId lex <;> simp [Except.bind, Except.map]

theorem entryParagraphs_fault (e : Failure) (es : List Entry) :
    entryParagraphs byId lex (.fault e :: es) = .error e := entryParagraphs_cons _ _

/-! ### The steps of a converter -/

/-- A step adds the paragraphs of entries and counts lists, whatever is there before it. What it
adds depends on the number of lists before it only. -/
def Assembles (byId : Text → Option Formula) (lex : Text → List Inline)
    (f : Assembly → Except Failure Assembly) (es : Nat → List Entry) (n : Nat) : Prop :=
  ∀ a, f a = (entryParagraphs byId lex (es a.lists)).map fun ps =>
    ⟨a.paragraphs ++ ps, a.lists + n⟩

theorem assembles_pure : Assembles byId lex pure (fun _ => []) 0 := fun a => by
  rw [entryParagraphs_nil, Except.map, List.append_nil]
  rfl

/-- Two steps in a row add what both add, the second behind the lists of the first. -/
theorem Assembles.andThen {f g : Assembly → Except Failure Assembly} {es fs : Nat → List Entry}
    {m n : Nat} (hf : Assembles byId lex f es m) (hg : Assembles byId lex g fs n) :
    Assembles byId lex (fun a => f a >>= g) (fun used => es used ++ fs (used + m)) (m + n) := by
  intro a
  show f a >>= g = _
  rw [hf, entryParagraphs_append]
  cases entryParagraphs byId lex (es a.lists) with
  | error e => rfl
  | ok ps =>
    show g _ = _
    rw [hg]
    cases entryParagraphs byId lex (fs (a.lists + m)) <;>
      simp [Except.bind, Except.map, Nat.add_assoc]

theorem assembles_addEntry (e : Entry) :
    Assembles byId lex (addEntry byId lex e) (fun _ => [e]) 0 := by
  intro a
  rw [entryParagraphs_single]
  rfl

mutual
theorem assembles_addList (level : Int) : ∀ b : Block,
    Assembles byId lex (addList byId lex level b) (b.listEntries level ·) b.lists := fun b => by
  cases b with
  | list ordered start cs =>
    intro a
    simp only [addList, Block.listEntries, Block.lists]
    cases hstart : listStart start with
    | error e => rfl
    | ok n =>
      refine (assembles_addItems _ cs a.openList).trans ?_
      rw [startingFrom, Assembly.openList]
      simp [Nat.add_assoc, Nat.add_comm 1]
  | _ =>
    intro a
    rw [addList]
    · exact assembles_pure a
    · simp
theorem assembles_addItems (marker : Marker) : ∀ cs : List Block,
    Assembles byId lex (addItems byId lex marker cs) (fun used => itemEntries marker used cs)
      (itemLists cs)
  | [] => assembles_pure
  | c :: rest => by
    have hrest := assembles_addItems marker rest
    cases c with
    | item bs =>
      have hitem := (assembles_addEntry (.item marker (itemPhrases bs))).andThen
        ((assembles_addNested (marker.level + 1) bs).andThen hrest)
      simpa [addItems, itemEntries, itemLists, Assembles] using hitem
    | _ => simpa only [addItems, itemEntries, itemLists] using hrest
theorem assembles_addNested (level : Int) : ∀ bs : List Block,
    Assembles byId lex (addNested byId lex level bs) (fun used => nestedEntries level used bs)
      (nestedLists bs)
  | [] => assembles_pure
  | b :: bs => by
    have hrest := assembles_addNested level bs
    have hblock := (assembles_addList level b).andThen hrest
    cases b with
    | code raw =>
      have hcode := (assembles_addEntry (.code raw)).andThen hrest
      simpa [addNested, nestedEntries, nestedLists, Block.lists, Assembles] using hcode
    | _ => simpa [addNested, nestedEntries, nestedLists, Assembles] using hblock
end

theorem assembles_addBlock (b : Block) :
    Assembles byId lex (addBlock byId lex b) (b.entries ·) b.lists := by
  cases b with
  | heading level p =>
    intro a
    simp only [addBlock, Block.entries, Block.lists]
    cases headingLevel level with
    | error e => rfl
    | ok n => exact assembles_addEntry (.heading n p) a
  | paragraph p => exact assembles_addEntry (.body p)
  | rule => exact assembles_addEntry .rule
  | code raw => exact assembles_addEntry (.code raw)
  | _ => exact assembles_addList 0 _

/-- Adding blocks adds what the outline says, behind what is there. -/
theorem assembles_addBlocks : ∀ bs : List Block,
    Assembles byId lex (addBlocks byId lex bs) (entriesFrom · bs) (nestedLists bs)
  | [] => assembles_pure
  | b :: bs => (assembles_addBlock b).andThen (assembles_addBlocks bs)

/-! ### From the outline to the places -/

/-- The entries that a place has of its own, if its list has this number. -/
def Spot.entries (number : Nat) : Spot → List Entry
  | .block _ (.list _ start _) => startingFrom (fun _ => []) (listStart start)
  | .block _ (.code raw) => [.code raw]
  | .block 0 b => b.entries 0
  | .block _ _ => []
  | .item depth ordered start bs =>
    startingFrom (fun n => [.item ⟨ordered.isSet, depth, number, n⟩ (itemPhrases bs)])
      (listStart start)

/-- The entries of places, if lists at paths have these numbers. The list of an item is a step
before it. -/
def spotEntries (number : List Nat → Nat) (xs : List (List Nat × Spot)) : List Entry :=
  xs.flatMap fun x => x.2.entries (number x.1.dropLast)

/-- The lists have numbers that follow on from `used`. -/
def Follow (number : List Nat → Nat) (used : Nat) (ls : List ListNode) : Prop :=
  ∀ j l, ls[j]? = some l → number l.path = used + j + 1

section Follow

variable {number : List Nat → Nat} {used : Nat}

theorem Follow.head {l : ListNode} {ls : List ListNode} (h : Follow number used (l :: ls)) :
    number l.path = used + 1 := h 0 l rfl

theorem Follow.tail {l : ListNode} {ls : List ListNode} (h : Follow number used (l :: ls)) :
    Follow number (used + 1) ls := fun j k hk => by
  rw [h (j + 1) k hk]
  omega

theorem Follow.left {ls ks : List ListNode} (h : Follow number used (ls ++ ks)) :
    Follow number used ls := fun j l hl =>
  h j l (by rw [List.getElem?_append_left (List.getElem?_eq_some_iff.mp hl).1, hl])

theorem Follow.right {ls ks : List ListNode} (h : Follow number used (ls ++ ks)) :
    Follow number (used + ls.length) ks := fun j l hl => by
  rw [h (ls.length + j) l (by rw [List.getElem?_append_right (by omega), Nat.add_sub_cancel_left, hl])]
  omega

theorem spotEntries_cons (path : List Nat) (x : Spot) (xs : List (List Nat × Spot)) :
    spotEntries number ((path, x) :: xs) =
      x.entries (number path.dropLast) ++ spotEntries number xs := rfl

theorem spotEntries_single (path : List Nat) (x : Spot) :
    spotEntries number [(path, x)] = x.entries (number path.dropLast) := List.append_nil _

theorem spotEntries_append (xs ys : List (List Nat × Spot)) :
    spotEntries number (xs ++ ys) = spotEntries number xs ++ spotEntries number ys :=
  List.flatMap_append

mutual
theorem Block.entryParagraphs_listEntries (path : List Nat) (depth used : Nat) : ∀ b : Block,
    Follow number used (b.listNodes path depth) → b.listNodes path depth ≠ [] →
    entryParagraphs byId lex (b.listEntries depth used) =
      entryParagraphs byId lex (spotEntries number (b.tour path depth)) := fun b h hne => by
  cases b with
  | list ordered start cs =>
    rw [Block.listNodes] at h
    rw [Block.listEntries, Block.tour, spotEntries_cons, Spot.entries]
    cases hstart : listStart start with
    | error e =>
      -- a list that cannot start is a fault in the outline, and its place is one before its items
      rw [startingFrom, startingFrom, List.singleton_append, entryParagraphs_fault]
      rfl
    | ok n =>
      have hitems := entryParagraphs_itemEntries path depth ordered hstart (used + 1) 0 cs h.tail
      rw [h.head] at hitems
      exact hitems
  | _ => exact absurd rfl hne
theorem entryParagraphs_itemEntries (path : List Nat) (depth : Nat) (ordered : Attribute)
    {start : Attribute} {n : Int} (hstart : listStart start = .ok n) :
    ∀ (used i : Nat) (cs : List Block), Follow number used (itemNodes path (depth + 1) i cs) →
    entryParagraphs byId lex
        (itemEntries ⟨ordered.isSet, depth, (number path : Int), n⟩ used cs) =
      entryParagraphs byId lex (spotEntries number (itemTour path depth ordered start i cs))
  | used, i, [], _ => by rw [itemEntries, itemTour]; rfl
  | used, i, c :: rest, h => by
    have hrest := fun used => entryParagraphs_itemEntries path depth ordered hstart used (i + 1) rest
    cases c with
    | item bs =>
      rw [itemNodes] at h
      have hnested := entryParagraphs_nestedEntries (path ++ [i]) depth used 0 bs h.left
      have hlater := hrest (used + nestedLists bs) (by simpa only [length_nestedNodes] using h.right)
      rw [itemEntries, itemTour, List.cons_append, List.cons_append, spotEntries_cons,
        spotEntries_append, List.dropLast_concat, Spot.entries, hstart, startingFrom,
        List.singleton_append, entryParagraphs_cons, entryParagraphs_cons, entryParagraphs_append,
        entryParagraphs_append, ← hlater, ← hnested]
      rfl
    | _ =>
      simp only [itemEntries, itemTour, itemNodes] at h ⊢
      exact hrest used h
theorem entryParagraphs_nestedEntries (path : List Nat) (depth : Nat) :
    ∀ (used i : Nat) (bs : List Block), Follow number used (nestedNodes path (depth + 1) i bs) →
    entryParagraphs byId lex (nestedEntries ((depth + 1 : Nat) : Int) used bs) =
      entryParagraphs byId lex (spotEntries number (rowTour path (depth + 1) i bs))
  | used, i, [], _ => by rw [nestedEntries, rowTour]; rfl
  | used, i, b :: bs, h => by
    rw [nestedNodes] at h
    have hlist := b.entryParagraphs_listEntries (path ++ [i]) (depth + 1) used h.left
    have hrest := entryParagraphs_nestedEntries path depth (used + b.lists) (i + 1) bs
      (by simpa only [Block.length_listNodes] using h.right)
    rw [rowTour, spotEntries_append, entryParagraphs_append, ← hrest]
    cases b with
    | list ordered start cs =>
      rw [nestedEntries, entryParagraphs_append, hlist (by simp [Block.listNodes])]
      simp
    | code raw => rw [nestedEntries, ← List.singleton_append, entryParagraphs_append]; rfl
    | _ =>
      rw [nestedEntries, entryParagraphs_append]
      · rfl
      · simp
end

/-- The paragraphs of a row of blocks are those of its places. -/
theorem entryParagraphs_entriesFrom : ∀ (used i : Nat) (bs : List Block),
    Follow number used (nestedNodes [] 0 i bs) →
    entryParagraphs byId lex (entriesFrom used bs) =
      entryParagraphs byId lex (spotEntries number (rowTour [] 0 i bs))
  | used, i, [], _ => rfl
  | used, i, b :: bs, h => by
    rw [nestedNodes] at h
    have hrest := entryParagraphs_entriesFrom (used + b.lists) (i + 1) bs
      (by simpa only [Block.length_listNodes] using h.right)
    rw [entriesFrom, rowTour, spotEntries_append, entryParagraphs_append, entryParagraphs_append,
      ← hrest]
    cases b with
    | list ordered start cs =>
      have hlist : entryParagraphs byId lex ((Block.list ordered start cs).listEntries 0 used) = _ :=
        Block.entryParagraphs_listEntries ([] ++ [i]) 0 used _ h.left (by simp [Block.listNodes])
      exact congrArg (Except.bind · _) hlist
    | _ =>
      rw [Block.tour, spotEntries_single]
      · rfl
      · simp

end Follow

/-! ### What each place makes -/

/-- Whether a block that stands in some number of lists says nothing of its own: no other block
does, and of those in an item only lists and code do. -/
def Block.isSilent (depth : Nat) : Block → Bool
  | .list _ _ _ => false
  | .code _ => false
  | .heading _ _ => depth != 0
  | .paragraph _ => depth != 0
  | .rule => depth != 0
  | _ => true

variable (byId lex) in
/-- The paragraphs that a place makes, if its list has this number. A list has none of its own,
an item has one, and code has one for each of its lines. -/
inductive Makes (number : Nat) : Spot → List Paragraph → Prop
  | heading {level : Attribute} {p : Phrase} {n : Int} {rs : List Run} :
    headingLevel level = .ok n → phraseRuns byId lex p = .ok rs →
      Makes number (.block 0 (.heading level p)) [⟨.heading, rs, n, none⟩]
  | body {p : Phrase} {rs : List Run} : phraseRuns byId lex p = .ok rs →
      Makes number (.block 0 (.paragraph p)) [.of .body rs]
  | rule : Makes number (.block 0 .rule) [.of .rule []]
  | code {depth : Nat} {raw : Text} :
      Makes number (.block depth (.code raw))
        ((codeLines (restoreSource byId raw)).map fun s => .of .preformatted [.text s .plain])
  | list {depth : Nat} {ordered start : Attribute} {cs : List Block} {n : Int} :
    listStart start = .ok n → Makes number (.block depth (.list ordered start cs)) []
  | item {depth : Nat} {ordered start : Attribute} {bs : List Block} {n : Int}
      {rss : List (List Run)} :
    listStart start = .ok n →
      List.Forall₂ (fun p rs => phraseRuns byId lex p = .ok rs) (itemPhrases bs) rss →
      Makes number (.item depth ordered start bs)
        [⟨.listItem, joinPhrases rss, 0, some ⟨ordered.isSet, depth, number, n⟩⟩]
  | silent {depth : Nat} {b : Block} : b.isSilent depth = true → Makes number (.block depth b) []

theorem makes_of_eq_ok {number depth : Nat} {b : Block} {qs : List Paragraph}
    (h : entryParagraphs byId lex ((Spot.block depth b).entries number) = .ok qs) :
    Makes byId lex number (.block depth b) qs := by
  have hsilent : b.isSilent depth = true → (Spot.block depth b).entries number = [] →
      Makes byId lex number (.block depth b) qs := fun hb hnil => by
    rw [hnil] at h
    obtain rfl := Except.ok.inj h
    exact .silent hb
  cases b with
  | list ordered start cs =>
    rw [Spot.entries] at h
    cases hstart : listStart start with
    | error e => rw [hstart] at h; exact absurd h (by simp [startingFrom, entryParagraphs_fault])
    | ok n =>
      rw [hstart] at h
      obtain rfl := Except.ok.inj h
      exact .list hstart
  | code raw =>
    rw [Spot.entries, entryParagraphs_single] at h
    obtain rfl := Except.ok.inj h
    exact .code
  | heading level p =>
    cases depth with
    | succ depth => exact hsilent rfl rfl
    | zero =>
      simp only [Spot.entries, Block.entries] at h
      cases hlevel : headingLevel level with
      | error e => rw [hlevel] at h; exact absurd h (by simp [entryParagraphs_fault])
      | ok n =>
        simp only [hlevel, entryParagraphs_single] at h
        obtain ⟨rs, hrs, rfl⟩ := map_eq_ok_iff.mp h
        exact .heading hlevel hrs
  | paragraph p =>
    cases depth with
    | succ depth => exact hsilent rfl rfl
    | zero =>
      simp only [Spot.entries, Block.entries, entryParagraphs_single] at h
      obtain ⟨rs, hrs, rfl⟩ := map_eq_ok_iff.mp h
      exact .body hrs
  | rule =>
    cases depth with
    | succ depth => exact hsilent rfl rfl
    | zero =>
      simp only [Spot.entries, Block.entries, entryParagraphs_single] at h
      obtain rfl := Except.ok.inj h
      exact .rule
  | _ => cases depth <;> exact hsilent rfl rfl

/-- The paragraphs of a place are those of its entries. -/
theorem makes_iff {number : Nat} {x : Spot} {qs : List Paragraph} :
    Makes byId lex number x qs ↔ entryParagraphs byId lex (x.entries number) = .ok qs := by
  constructor
  · intro h
    cases h with
    | heading hn hp =>
      simp [Spot.entries, Block.entries, hn, entryParagraphs_single, Entry.paragraphs, hp, Except.map]
    | body hp =>
      simp [Spot.entries, Block.entries, entryParagraphs_single, Entry.paragraphs, hp, Except.map]
    | rule => rfl
    | code => exact entryParagraphs_single _
    | list hn => rw [Spot.entries, hn]; rfl
    | item hn hps =>
      rw [Spot.entries, hn, startingFrom, entryParagraphs_single, Entry.paragraphs,
        mapM_eq_ok_iff.mpr hps]
      rfl
    | @silent depth b hb => cases depth <;> cases b <;> first | rfl | exact absurd hb (by simp [Block.isSilent])
  · intro h
    cases x with
    | block depth b => exact makes_of_eq_ok h
    | item depth ordered start bs =>
      rw [Spot.entries] at h
      cases hstart : listStart start with
      | error e => rw [hstart] at h; exact absurd h (by simp [startingFrom, entryParagraphs_fault])
      | ok n =>
        rw [hstart, startingFrom, entryParagraphs_single] at h
        obtain ⟨rss, hrss, rfl⟩ := map_eq_ok_iff.mp h
        exact .item hstart (mapM_eq_ok_iff.mp hrss)

/-- Whether a place makes anything at all does not depend on the number of its list. -/
theorem Makes.renumber {number : Nat} {x : Spot} {qs : List Paragraph}
    (h : Makes byId lex number x qs) (other : Nat) : ∃ qs', Makes byId lex other x qs' := by
  cases h with
  | heading hn hp => exact ⟨_, .heading hn hp⟩
  | body hp => exact ⟨_, .body hp⟩
  | rule => exact ⟨_, .rule⟩
  | code => exact ⟨_, .code⟩
  | list hn => exact ⟨_, .list hn⟩
  | item hn hps => exact ⟨_, .item hn hps⟩
  | silent hb => exact ⟨_, .silent hb⟩

theorem entryParagraphs_append_eq_ok_iff {es fs : List Entry} {ps : List Paragraph} :
    entryParagraphs byId lex (es ++ fs) = .ok ps ↔
      ∃ qs rs, entryParagraphs byId lex es = .ok qs ∧ entryParagraphs byId lex fs = .ok rs ∧
        qs ++ rs = ps := by
  rw [entryParagraphs_append]
  cases entryParagraphs byId lex es <;> cases entryParagraphs byId lex fs <;>
    simp [Except.bind, Except.map]

/-- The paragraphs of places are what each of them makes, in a row. -/
theorem spotEntries_eq_ok_iff {number : List Nat → Nat} {xs : List (List Nat × Spot)}
    {ps : List Paragraph} :
    entryParagraphs byId lex (spotEntries number xs) = .ok ps ↔
      ∃ made, List.Forall₂ (fun x qs => Makes byId lex (number x.1.dropLast) x.2 qs) xs made ∧
        made.flatten = ps := by
  induction xs generalizing ps with
  | nil =>
    refine ⟨fun h => ⟨[], .nil, Except.ok.inj h⟩, ?_⟩
    rintro ⟨made, hmade, rfl⟩
    cases hmade
    rfl
  | cons x xs ih =>
    rw [spotEntries_cons, entryParagraphs_append_eq_ok_iff]
    constructor
    · rintro ⟨qs, rs, hqs, hrs, rfl⟩
      obtain ⟨made, hmade, rfl⟩ := ih.mp hrs
      exact ⟨qs :: made, .cons (makes_iff.mpr hqs) hmade, rfl⟩
    · rintro ⟨made, hmade, rfl⟩
      cases hmade with
      | cons hx hmade => exact ⟨_, _, makes_iff.mp hx, ih.mpr ⟨_, hmade, rfl⟩, rfl⟩

/-- Places have paragraphs if each of them makes something. -/
theorem spotEntries_isOk_iff {number : List Nat → Nat} {xs : List (List Nat × Spot)} :
    (∃ ps, entryParagraphs byId lex (spotEntries number xs) = .ok ps) ↔
      ∀ x ∈ xs, ∃ n qs, Makes byId lex n x.2 qs := by
  induction xs with
  | nil => exact iff_of_true ⟨[], rfl⟩ (by simp)
  | cons x xs ih =>
    rw [spotEntries_cons, List.forall_mem_cons, ← ih]
    constructor
    · rintro ⟨ps, hps⟩
      obtain ⟨qs, rs, hqs, hrs, -⟩ := entryParagraphs_append_eq_ok_iff.mp hps
      exact ⟨⟨_, qs, makes_iff.mpr hqs⟩, rs, hrs⟩
    · rintro ⟨⟨n, qs, hqs⟩, rs, hrs⟩
      obtain ⟨qs', hqs'⟩ := hqs.renumber (number x.1.dropLast)
      exact ⟨_, entryParagraphs_append_eq_ok_iff.mpr ⟨_, rs, makes_iff.mp hqs', hrs, rfl⟩⟩

end Entries

/-! ### The whole document -/

section Document

variable {cv : Converters} {ts : List Token} {bs : List Block}

/-- The number of the list at a path: its rank among all lists. -/
def listNumber (bs : List Block) (path : List Nat) : Nat := (listPaths bs).idxOf path + 1

theorem follow_listNumber (bs : List Block) :
    Follow (listNumber bs) 0 (nestedNodes [] 0 0 bs) := by
  intro j l hl
  have hpath : (listPaths bs)[j]? = some l.path := by rw [listPaths, List.getElem?_map, hl]; rfl
  obtain ⟨hj, hget⟩ := List.getElem?_eq_some_iff.mp hpath
  rw [listNumber, ← hget, (nodup_listPaths bs).idxOf_getElem j hj, Nat.zero_add]

theorem buildParagraphs_eq (hblocks : cv.blocks (combine ts) = .ok bs) :
    buildParagraphs cv ts = entryParagraphs (formulaById ts) cv.lexInline
      (spotEntries (listNumber bs) (rowTour [] 0 0 bs)) := by
  rw [buildParagraphs, hblocks]
  exact entryParagraphs_entriesFrom 0 0 bs (follow_listNumber bs)

/-- Paragraphs are made exactly if every place of the document makes something. -/
theorem buildParagraphs_isOk_iff (hblocks : cv.blocks (combine ts) = .ok bs) :
    (∃ ps, buildParagraphs cv ts = .ok ps) ↔ ∀ path x, spotAt? 0 bs path = some x →
      ∃ n qs, Makes (formulaById ts) cv.lexInline n x qs := by
  rw [buildParagraphs_eq hblocks, spotEntries_isOk_iff]
  exact ⟨fun h path x hx => h (path, x) (mem_tour.mpr hx), fun h x hx => h x.1 x.2 (mem_tour.mp hx)⟩

/-- A conversion gives the paragraphs and the number of lists, whatever the converter holds. -/
theorem convert_eq (hblocks : cv.blocks (combine ts) = .ok bs) (a : Assembly) :
    a.convert cv ts = (buildParagraphs cv ts).map fun ps => ⟨ps, (listPaths bs).length⟩ := by
  rw [Assembly.convert, hblocks, buildParagraphs, hblocks]
  refine (assembles_addBlocks bs _).trans ?_
  rw [listPaths, List.length_map, length_nestedNodes]
  simp [outline, bind, Except.bind]

/-- How the paragraphs of a document are laid out. -/
structure Layout (byId : Text → Option Formula) (lex : Text → List Inline) (bs : List Block)
    (a : Assembly) (lists places : List (List Nat)) (made : List (List Paragraph)) : Prop where
  /-- These are the lists of the document, in order. -/
  sorted_lists : lists.Pairwise (· < ·)
  lists_iff : ∀ path, path ∈ lists ↔
    ∃ depth ordered start cs, spotAt? 0 bs path = some (.block depth (.list ordered start cs))
  counted : a.lists = lists.length
  /-- These are all places of the document, in order. -/
  sorted_places : places.Pairwise (· < ·)
  places_iff : ∀ path, path ∈ places ↔ (spotAt? 0 bs path).isSome
  /-- The paragraphs are what each place makes, where a list goes by its rank. -/
  paragraphs : a.paragraphs = made.flatten
  makes : List.Forall₂ (fun path qs => ∃ x, spotAt? 0 bs path = some x ∧
    Makes byId lex (lists.idxOf path.dropLast + 1) x qs) places made
  /-- A block is as deep as lists stand around it. -/
  depth_eq : ∀ path depth b, spotAt? 0 bs path = some (.block depth b) →
    lists.countP (fun l => l <+: path ∧ l ≠ path) = depth
  /-- The list of an item is a step before it. -/
  list_of_item : ∀ path depth ordered start cs,
    spotAt? 0 bs path = some (.item depth ordered start cs) →
      ∃ k ds, path = path.dropLast ++ [k] ∧
        spotAt? 0 bs path.dropLast = some (.block depth (.list ordered start ds)) ∧
        ds[k]? = some (.item cs)
  /-- Two items have one number if they are in one list, and only then. -/
  number_iff : ∀ path depth ordered start cs path' depth' ordered' start' cs',
    spotAt? 0 bs path = some (.item depth ordered start cs) →
    spotAt? 0 bs path' = some (.item depth' ordered' start' cs') →
      (lists.idxOf path.dropLast = lists.idxOf path'.dropLast ↔ path.dropLast = path'.dropLast)

theorem layout_of_eq_ok (hblocks : cv.blocks (combine ts) = .ok bs) {ps : List Paragraph}
    (hps : buildParagraphs cv ts = .ok ps) :
    ∃ made, Layout (formulaById ts) cv.lexInline bs ⟨ps, (listPaths bs).length⟩ (listPaths bs)
      (allPlaces bs) made := by
  rw [buildParagraphs_eq hblocks] at hps
  obtain ⟨made, hmade, hflat⟩ := spotEntries_eq_ok_iff.mp hps
  refine ⟨made, sorted_listPaths bs, fun path => mem_listPaths, rfl, sorted_rowTour [] 0 0 bs,
    fun path => mem_allPlaces, hflat.symm, ?_, fun path depth b => countP_listPaths,
    fun path depth ordered start cs => list_of_item, ?_⟩
  · have hspots : ∀ x ∈ rowTour [] 0 0 bs, spotAt? 0 bs x.1 = some x.2 := fun x hx =>
      mem_tour.mp hx
    rw [allPlaces, List.forall₂_map_left_iff]
    exact ((List.forall₂_and_left _ _).mpr ⟨hspots, hmade⟩).imp fun x qs h => ⟨x.2, h⟩
  · intro path depth ordered start cs path' depth' ordered' start' cs' h _
    obtain ⟨k, ds, -, hlist, -⟩ := list_of_item h
    exact List.idxOf_inj (mem_listPaths.mpr ⟨_, _, _, _, hlist⟩)

/-- **The paragraphs of a document.** Whatever a converter holds, it converts a document in the
same way. It comes to an end exactly if every place of the document makes something, and the
paragraphs are laid out place by place then. -/
theorem convert_layout (hblocks : cv.blocks (combine ts) = .ok bs) (a : Assembly) :
    (∀ a' : Assembly, a'.convert cv ts = a.convert cv ts) ∧
    ((∃ a', a.convert cv ts = .ok a') ↔ ∀ path x, spotAt? 0 bs path = some x →
      ∃ n qs, Makes (formulaById ts) cv.lexInline n x qs) ∧
    ∀ a', a.convert cv ts = .ok a' → buildParagraphs cv ts = .ok a'.paragraphs ∧
      ∃ lists places made, Layout (formulaById ts) cv.lexInline bs a' lists places made := by
  have hconvert := fun a => convert_eq hblocks a
  refine ⟨fun a' => (hconvert a').trans (hconvert a).symm, ?_, fun a' ha' => ?_⟩
  · rw [hconvert, ← buildParagraphs_isOk_iff hblocks]
    constructor
    · rintro ⟨a', ha'⟩
      obtain ⟨ps, hps, -⟩ := map_eq_ok_iff.mp ha'
      exact ⟨ps, hps⟩
    · rintro ⟨ps, hps⟩
      exact ⟨_, map_eq_ok_iff.mpr ⟨ps, hps, rfl⟩⟩
  · rw [hconvert] at ha'
    obtain ⟨ps, hps, rfl⟩ := map_eq_ok_iff.mp ha'
    obtain ⟨made, hmade⟩ := layout_of_eq_ok hblocks hps
    exact ⟨hps, _, _, made, hmade⟩

end Document

/-- A formula that stands in code. -/
def codeFormula : Formula := ⟨"m-1-k".toList, "x^2".toList, false, ⟨[], [], []⟩⟩

/-- A counted list whose first item holds code with a formula, bullets and code again, and code
after it. -/
def codeInList : List Block :=
  let item (s : String) (bs : List Block) : Block :=
    .item (.blockText ⟨[], s.toList, []⟩ :: bs)
  [.list (.flag true) (.number 3)
      [item "a" [.code "b MATHPHm-1-kPHMATH\nc\n".toList,
          .list (.flag false) .absent [item "d" []], .code []],
        .other, item "e" []],
    .code "f\n\n".toList]

/-- A converter that holds something from earlier. -/
def usedAssembly : Assembly := ⟨[.of .rule [], .of .rule []], 7⟩

theorem convert_layout_codeInList :
    ∃ a lists places made,
      usedAssembly.convert (Word.blocksOnly codeInList) [.math codeFormula] = .ok a ∧
      Layout (formulaById [.math codeFormula]) (Word.blocksOnly codeInList).lexInline codeInList a
        lists places made ∧
      a.lists = 2 ∧ a.paragraphs.map (fun p => (p.kind, p.text, p.marker)) =
        [(.listItem, ['a'], some ⟨true, 0, 1, 3⟩), (.preformatted, "b $x^2$".toList, none),
          (.preformatted, ['c'], none), (.listItem, ['d'], some ⟨false, 1, 2, 1⟩),
          (.preformatted, [], none), (.listItem, ['e'], some ⟨true, 0, 1, 3⟩),
          (.preformatted, ['f'], none), (.preformatted, [], none)] := by
  have hmade : (usedAssembly.convert (Word.blocksOnly codeInList) [.math codeFormula]).map
      (fun a => (a.lists, a.paragraphs.map fun p => (p.kind, p.text, p.marker))) =
      .ok (2, [(.listItem, ['a'], some ⟨true, 0, 1, 3⟩), (.preformatted, "b $x^2$".toList, none),
        (.preformatted, ['c'], none), (.listItem, ['d'], some ⟨false, 1, 2, 1⟩),
        (.preformatted, [], none), (.listItem, ['e'], some ⟨true, 0, 1, 3⟩),
        (.preformatted, ['f'], none), (.preformatted, [], none)]) := by decide +kernel
  obtain ⟨a, ha, heq⟩ := map_eq_ok_iff.mp hmade
  obtain ⟨hlists, hparagraphs⟩ := Prod.mk.inj heq
  obtain ⟨-, -, hlayout⟩ := @convert_layout (Word.blocksOnly codeInList) [.math codeFormula]
    codeInList rfl usedAssembly
  obtain ⟨-, lists, places, made, h⟩ := hlayout a ha
  exact ⟨a, lists, places, made, ha, h, hlists, hparagraphs⟩

end Formulary
