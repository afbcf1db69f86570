/-
# A numbering part over a run

All that a numbering part goes through is told by the counted lists that have
been opened so far, in this order (`Numbering.counting`): whoever asks for the
numbering of a marker gets the number that belongs to the place of its list
in this order, and at most adds its list at the end (`numFor_counting`). So what
was in the part stays there, and a list keeps its number, whatever is asked
and in whatever order (`numbering_run`).

Key definitions: `Numbering.counting`, `enlist`, `numOf`, `Call`, `Numbering.after`,
`Numbering.answers`, `RunOf`.
Key theorems: `lt_nextId`, `setUp_eq`, `numFor_counting`, `after_counting`,
`answers_counting`, `numbering_run`.
-/
import Formulary.Proofs.Word.Written
import Mathlib.Data.List.Induction
import Mathlib.Data.List.Nodup
import Mathlib.Data.List.TakeWhile

namespace Formulary
namespace Word

/-! ### Free numbers -/

theorem le_foldl_max : ∀ (ns : List Int) (m : Int),
    m ≤ ns.foldl max m ∧ ∀ n ∈ ns, n ≤ ns.foldl max m
  | [], m => ⟨Int.le_refl m, fun n hn => absurd hn List.not_mem_nil⟩
  | k :: ns, m => by
    obtain ⟨hmax, hall⟩ := le_foldl_max ns (max m k)
    refine ⟨Int.le_trans (Int.le_max_left m k) hmax, fun n hn => ?_⟩
    rcases List.mem_cons.mp hn with rfl | hn
    · exact Int.le_trans (Int.le_max_right m n) hmax
    · exact hall n hn

/-- The next number is above all that are taken. -/
theorem lt_nextId {first n : Int} {ns : List Int} (h : n ∈ ns) : n < nextId first ns := by
  cases ns with
  | nil => exact absurd h List.not_mem_nil
  | cons m ns =>
    obtain ⟨hhead, htail⟩ := le_foldl_max ns m
    refine Int.lt_add_one_of_le ?_
    rcases List.mem_cons.mp h with rfl | h
    · exact hhead
    · exact htail n h

/-- Once the next number is taken, the one after it is next. -/
theorem nextId_concat (first : Int) (ns : List Int) :
    nextId first (ns ++ [nextId first ns]) = nextId first ns + 1 := by
  cases ns with
  | nil => rfl
  | cons m ns =>
    simp only [List.cons_append, nextId, List.foldl_append, List.foldl_cons, List.foldl_nil]
    omega

/-- The numbers that the formats of a part have. -/
def formatIds (es : List NumberingEntry) : List Int := es.filterMap (·.formatId?)

/-- The numbers that the numberings of a part have. -/
def numIds (es : List NumberingEntry) : List Int := es.filterMap (·.numId?)

theorem numIds_append (es fs : List NumberingEntry) : numIds (es ++ fs) = numIds es ++ numIds fs :=
  List.filterMap_append

theorem nextFormat_notMem {es : List NumberingEntry} {k : Int} (hk : 0 ≤ k) :
    nextFormat es + k ∉ formatIds es := fun h => by
  have : nextFormat es + k < nextFormat es := lt_nextId h
  omega

/-! ### Our formats -/

/-- The entries in front of the first numbering, which are formats. -/
def front (es : List NumberingEntry) : List NumberingEntry := es.takeWhile fun e => !e.isNum

/-- The entries from the first numbering on. -/
def back (es : List NumberingEntry) : List NumberingEntry := es.dropWhile fun e => !e.isNum

theorem front_append_back (es : List NumberingEntry) : front es ++ back es = es :=
  List.takeWhile_append_dropWhile

theorem isNum_of_mem_front {es : List NumberingEntry} {e : NumberingEntry} (h : e ∈ front es) :
    e.isNum = false := by
  simpa using List.mem_takeWhile_imp h

theorem front_back (es : List NumberingEntry) : front (back es) = [] := by
  induction es with
  | nil => rfl
  | cons e es ih =>
    cases he : e.isNum with
    | false => simpa [back, he] using ih
    | true => simp [back, front, he]

theorem addFormat_append {a b : List NumberingEntry} (ha : ∀ e ∈ a, e.isNum = false)
    (hb : front b = []) (e : NumberingEntry) : addFormat (a ++ b) e = a ++ e :: b := by
  have hskip : ∀ e ∈ a, (!e.isNum) = true := fun e he => by rw [ha e he]; rfl
  have hback : back b = b := by
    have := front_append_back b
    rwa [hb, List.nil_append] at this
  rw [addFormat, List.takeWhile_append_of_pos hskip, List.dropWhile_append_of_pos hskip]
  show a ++ front b ++ e :: back b = _
  rw [hb, hback, List.append_nil]

/-- The formats that are added to a part. -/
def ourFormats (es : List NumberingEntry) : List NumberingEntry :=
  [.format (nextFormat es) (some .bullets), .format (nextFormat es + 1) (some .decimal)]

theorem numIds_with_ourFormats (es : List NumberingEntry) :
    numIds (front es ++ ourFormats es ++ back es) = numIds es := by
  have hours : numIds (ourFormats es) = [] := rfl
  rw [numIds_append, numIds_append, hours, List.append_nil, ← numIds_append, front_append_back]

/-- Our formats come to stand in front of the first numbering, and the
numbering of the bullets after all that was there. -/
theorem setUp_eq (es : List NumberingEntry) :
    Numbering.setUp es =
      ⟨front es ++ ourFormats es ++ back es ++ [.num (nextNum es) (some (nextFormat es)) none],
        nextFormat es, nextFormat es + 1, nextNum es, []⟩ := by
  have hfirst : ∀ e, addFormat es e = front es ++ [e] ++ back es := fun e => by
    have := addFormat_append (a := front es) (fun _ => isNum_of_mem_front) (front_back es) e
    rwa [front_append_back, List.append_cons] at this
  have hsecond : addFormat (addFormat es (.format (nextFormat es) (some .bullets)))
      (.format (nextFormat es + 1) (some .decimal)) = front es ++ ourFormats es ++ back es := by
    rw [hfirst, addFormat_append (fun e he => ?_) (front_back es)]
    · simp [ourFormats]
    · rcases List.mem_append.mp he with he | he
      · exact isNum_of_mem_front he
      · rw [List.mem_singleton.mp he]
        rfl
  have hnum : nextNum (front es ++ ourFormats es ++ back es) = nextNum es :=
    congrArg (nextId 1) (numIds_with_ourFormats es)
  rw [Numbering.setUp, hsecond, hnum]

/-! ### The lists that have been opened -/

/-- The number of the `i`-th counted list to be opened. -/
def listNum (es : List NumberingEntry) (i : Nat) : Int := nextNum es + 1 + i

/-- The numbering of the `i`-th counted list to be opened. -/
def listEntry (es : List NumberingEntry) (i : Nat) (m : Marker) : NumberingEntry :=
  .num (listNum es i) (some (nextFormat es + 1)) (some ⟨writtenLevel m.level, m.start⟩)

/-- The numbering part that held `es` at first, after counted lists with
these markers were opened. -/
def Numbering.counting (es : List NumberingEntry) (ms : List Marker) : Numbering :=
  { Numbering.setUp es with
    entries := (Numbering.setUp es).entries ++ ms.mapIdx (listEntry es)
    ordered := (ms.mapIdx fun i m => (m.list, listNum es i)).reverse }

/-- The opened lists once a marker has been asked for. -/
def enlist (ms : List Marker) (m : Marker) : List Marker :=
  if m.ordered = true ∧ m.list ∉ ms.map Marker.list then ms ++ [m] else ms

/-- The number that a marker gets. -/
def numOf (es : List NumberingEntry) (ms : List Marker) (m : Marker) : Int :=
  if m.ordered then listNum es ((ms.map Marker.list).idxOf m.list) else nextNum es

section Counting

variable (es : List NumberingEntry) (ms : List Marker)

@[simp] theorem bulletFormat_counting :
    (Numbering.counting es ms).bulletFormat = nextFormat es := by
  rw [Numbering.counting, setUp_eq]

@[simp] theorem decimalFormat_counting :
    (Numbering.counting es ms).decimalFormat = nextFormat es + 1 := by
  rw [Numbering.counting, setUp_eq]

@[simp] theorem bulletNum_counting : (Numbering.counting es ms).bulletNum = nextNum es := by
  rw [Numbering.counting, setUp_eq]

end Counting

theorem counting_nil (es : List NumberingEntry) :
    Numbering.counting es [] = Numbering.setUp es := by
  rw [Numbering.counting, setUp_eq]
  simp

theorem numIds_listEntries (es : List NumberingEntry) (ms : List Marker) :
    numIds (ms.mapIdx (listEntry es)) = (List.range ms.length).map (listNum es) := by
  induction ms using List.reverseRecOn with
  | nil => rfl
  | append_singleton ms m ih =>
    rw [List.mapIdx_concat, numIds_append, ih, List.length_append, List.length_singleton,
      List.range_succ, List.map_append]
    rfl

theorem numIds_counting (es : List NumberingEntry) (ms : List Marker) :
    numIds (Numbering.counting es ms).entries =
      numIds es ++ nextNum es :: (List.range ms.length).map (listNum es) := by
  show numIds ((Numbering.setUp es).entries ++ ms.mapIdx (listEntry es)) = _
  rw [setUp_eq, numIds_append, numIds_append, numIds_with_ourFormats, numIds_listEntries,
    List.append_assoc]
  rfl

/-- Lists get their numbers one after another. -/
theorem nextNum_counting (es : List NumberingEntry) (ms : List Marker) :
    nextNum (Numbering.counting es ms).entries = listNum es ms.length := by
  show nextId 1 (numIds _) = _
  rw [numIds_counting]
  have hbullets : nextId 1 (numIds es ++ [nextNum es]) = nextNum es + 1 :=
    nextId_concat 1 (numIds es)
  generalize ms.length = n
  induction n with
  | zero => simpa [listNum] using hbullets
  | succ n ih =>
    have hsplit : numIds es ++ nextNum es :: (List.range (n + 1)).map (listNum es) =
        (numIds es ++ nextNum es :: (List.range n).map (listNum es)) ++ [listNum es n] := by
      simp [List.range_succ]
    rw [hsplit, ← ih, nextId_concat, ih]
    simp only [listNum]
    omega

/-- A list that has been opened is found under the number of its place. -/
theorem lookup_counting (es : List NumberingEntry) {ms : List Marker}
    (hms : (ms.map Marker.list).Nodup) (k : Int) :
    (Numbering.counting es ms).ordered.lookup k =
      if k ∈ ms.map Marker.list then some (listNum es ((ms.map Marker.list).idxOf k))
      else none := by
  show ((ms.mapIdx fun i m => (m.list, listNum es i)).reverse).lookup k = _
  induction ms using List.reverseRecOn with
  | nil => rfl
  | append_singleton ms m ih =>
    rw [List.map_append, List.map_singleton] at hms ⊢
    obtain ⟨hinit, -, hapart⟩ := List.nodup_append.mp hms
    have hm : m.list ∉ ms.map Marker.list := fun h =>
      hapart _ h _ (List.mem_singleton.mpr rfl) rfl
    rw [List.mapIdx_concat, List.reverse_append, List.reverse_singleton, List.singleton_append,
      List.lookup_cons]
    by_cases hk : k = m.list
    · subst hk
      simp [List.idxOf_append_of_notMem hm]
    · rw [beq_false_of_ne hk, ih hinit]
      by_cases hmem : k ∈ ms.map Marker.list
      · simp only [hmem, List.mem_append, true_or, if_true, List.idxOf_append_of_mem]
      · simp only [hmem, List.mem_append, List.mem_singleton, hk, or_self, if_false]

theorem nodup_enlist {ms : List Marker} (hms : (ms.map Marker.list).Nodup) (m : Marker) :
    ((enlist ms m).map Marker.list).Nodup := by
  unfold enlist
  split
  · rename_i h
    rw [List.map_append, List.map_singleton]
    refine List.nodup_append.mpr ⟨hms, List.nodup_singleton _, fun k hk l hl => ?_⟩
    rw [List.mem_singleton.mp hl]
    exact ne_of_mem_of_not_mem hk h.2
  · exact hms

/-- **What asking for a numbering does.** The marker gets its number, and a
counted list is opened if it has not been. -/
theorem numFor_counting (es : List NumberingEntry) {ms : List Marker}
    (hms : (ms.map Marker.list).Nodup) (m : Marker) :
    (Numbering.counting es ms).numFor m = (numOf es ms m, Numbering.counting es (enlist ms m)) := by
  unfold Numbering.numFor numOf enlist
  cases hm : m.ordered with
  | false => simp
  | true =>
    by_cases hopen : m.list ∈ ms.map Marker.list
    · simp only [if_true, lookup_counting es hms, hopen, not_true_eq_false, and_false, if_false]
    · have hplace : (ms.map Marker.list).idxOf m.list = ms.length := by
        rw [List.idxOf_eq_length_iff.mpr hopen, List.length_map]
      have hdecimal : (Numbering.setUp es).decimalFormat = nextFormat es + 1 := by rw [setUp_eq]
      simp only [if_true, lookup_counting es hms, hopen, if_false, not_false_eq_true, and_self,
        nextNum_counting, hplace]
      simp only [Numbering.counting, hdecimal, List.mapIdx_concat, listEntry, List.append_assoc,
        List.reverse_append, List.reverse_singleton, List.singleton_append]

theorem prefix_enlist (ms : List Marker) (m : Marker) : ms <+: enlist ms m := by
  unfold enlist
  split
  · exact List.prefix_append ms [m]
  · exact List.prefix_refl ms

theorem mem_enlist {ms : List Marker} {m : Marker} (hm : m.ordered = true) :
    m.list ∈ (enlist ms m).map Marker.list := by
  unfold enlist
  split
  · simp
  · rename_i h
    by_contra hmem
    exact h ⟨hm, hmem⟩

/-- A list keeps its number from the time it is opened on. -/
theorem numOf_of_enlist (es : List NumberingEntry) {ms ns : List Marker} {m : Marker}
    (hns : enlist ms m <+: ns) : numOf es ns m = numOf es ms m := by
  unfold numOf
  cases hm : m.ordered with
  | false => rfl
  | true =>
    have hmem : m.list ∈ (enlist ms m).map Marker.list := mem_enlist hm
    obtain ⟨rest, rfl⟩ := hns
    have hkeep : (ms.map Marker.list).idxOf m.list =
        ((enlist ms m).map Marker.list).idxOf m.list := by
      by_cases hopen : m.list ∈ ms.map Marker.list
      · rw [enlist, if_neg fun h => h.2 hopen]
      · rw [enlist, if_pos ⟨hm, hopen⟩, List.map_append, List.idxOf_append_of_notMem hopen,
          List.idxOf_eq_length_iff.mpr hopen]
        simp
    rw [if_pos rfl, if_pos rfl, List.map_append, List.idxOf_append_of_mem hmem, hkeep]

/-! ### Runs -/

/-- What is asked of a numbering: the number of a marker, or the place that an
item with this marker is written at. -/
inductive Call
  | find (m : Marker)
  | place (m : Marker)
deriving DecidableEq, Repr, Inhabited

/-- The marker that a call is about. -/
def Call.marker : Call → Marker
  | find m => m
  | place m => m

/-- Whether a call comes to ask for a number: a place whose level does not fit
is given up before. -/
def Call.asks : Call → Bool
  | find _ => true
  | place m => fits (writtenLevel m.level)

/-- The number that a place was given, be it too large to be written. -/
def foundNum? : ListPlace × Option Failure → Option Int
  | (.whole _ id, _) => some id
  | (.noNum _, some (.outOfRange id)) => some id
  | _ => none

namespace Numbering

/-- The number that a call gives, if it comes to that, and the numbering after it. -/
def call (n : Numbering) : Call → Option Int × Numbering
  | .find m => (some (n.numFor m).1, (n.numFor m).2)
  | .place m => (foundNum? (n.place m).1, (n.place m).2)

/-- The numbering after calls. -/
def after (n : Numbering) : List Call → Numbering
  | [] => n
  | c :: cs => (n.call c).2.after cs

/-- The markers of calls with the numbers that they are given. -/
def answers (n : Numbering) : List Call → List (Marker × Option Int)
  | [] => []
  | c :: cs => (c.marker, (n.call c).1) :: (n.call c).2.answers cs

end Numbering

/-- The opened lists after a call. -/
def enlistCall (ms : List Marker) (c : Call) : List Marker :=
  if c.asks then enlist ms c.marker else ms

/-- The opened lists after calls. -/
def enlistCalls (ms : List Marker) (cs : List Call) : List Marker := cs.foldl enlistCall ms

theorem nodup_enlistCall {ms : List Marker} (hms : (ms.map Marker.list).Nodup) (c : Call) :
    ((enlistCall ms c).map Marker.list).Nodup := by
  unfold enlistCall
  split
  · exact nodup_enlist hms c.marker
  · exact hms

theorem nodup_enlistCalls {ms : List Marker} (hms : (ms.map Marker.list).Nodup) (cs : List Call) :
    ((enlistCalls ms cs).map Marker.list).Nodup := by
  induction cs generalizing ms with
  | nil => exact hms
  | cons c cs ih => exact ih (nodup_enlistCall hms c)

theorem prefix_enlistCalls (ms : List Marker) (cs : List Call) : ms <+: enlistCalls ms cs := by
  induction cs generalizing ms with
  | nil => exact List.prefix_refl ms
  | cons c cs ih =>
    refine List.IsPrefix.trans ?_ (ih (enlistCall ms c))
    unfold enlistCall
    split
    · exact prefix_enlist ms c.marker
    · exact List.prefix_refl ms

/-- A place is found as a number is, once its level fits. -/
theorem place_counting (es : List NumberingEntry) {ms : List Marker}
    (hms : (ms.map Marker.list).Nodup) {m : Marker} (hfits : fits (writtenLevel m.level) = true) :
    (Numbering.counting es ms).place m =
      (if fits (numOf es ms m) then (.whole (writtenLevel m.level) (numOf es ms m), none)
        else (.noNum (writtenLevel m.level), some (.outOfRange (numOf es ms m))),
      Numbering.counting es (enlist ms m)) := by
  rw [Numbering.place, if_pos hfits, numFor_counting es hms]
  dsimp only
  split <;> rfl

theorem call_counting (es : List NumberingEntry) {ms : List Marker}
    (hms : (ms.map Marker.list).Nodup) (c : Call) :
    (Numbering.counting es ms).call c =
      (if c.asks then some (numOf es ms c.marker) else none,
        Numbering.counting es (enlistCall ms c)) := by
  unfold enlistCall
  cases c with
  | find m => simp only [Numbering.call, numFor_counting es hms, Call.asks, Call.marker, if_true]
  | place m =>
    cases hfits : fits (writtenLevel m.level) with
    | false => simp [Numbering.call, Numbering.place, Call.asks, hfits, foundNum?]
    | true =>
      simp only [Numbering.call, place_counting es hms hfits, Call.asks, Call.marker, hfits,
        if_true]
      split <;> rfl

theorem after_counting (es : List NumberingEntry) {ms : List Marker}
    (hms : (ms.map Marker.list).Nodup) (cs : List Call) :
    (Numbering.counting es ms).after cs = Numbering.counting es (enlistCalls ms cs) := by
  induction cs generalizing ms with
  | nil => rfl
  | cons c cs ih =>
    rw [Numbering.after, call_counting es hms, ih (nodup_enlistCall hms c)]
    rfl

/-- Every number that is given on the way is the marker's number in the end. -/
theorem answers_counting (es : List NumberingEntry) {ms : List Marker}
    (hms : (ms.map Marker.list).Nodup) (cs : List Call) {m : Marker} {id : Int}
    (h : (m, some id) ∈ (Numbering.counting es ms).answers cs) :
    id = numOf es (enlistCalls ms cs) m ∧
      (m.ordered = true → m.list ∈ (enlistCalls ms cs).map Marker.list) := by
  induction cs generalizing ms with
  | nil => exact absurd h List.not_mem_nil
  | cons c cs ih =>
    rw [Numbering.answers, call_counting es hms] at h
    rcases List.mem_cons.mp h with h | h
    · obtain ⟨rfl, hid⟩ := Prod.mk.inj h
      cases hasks : c.asks with
      | false => simp [hasks] at hid
      | true =>
        have hlater : enlist ms c.marker <+: enlistCalls ms (c :: cs) := by
          rw [enlistCalls, List.foldl_cons, enlistCall, if_pos hasks]
          exact prefix_enlistCalls (enlist ms c.marker) cs
        refine ⟨?_, fun hm => ?_⟩
        · rw [numOf_of_enlist es hlater]
          simpa [hasks] using hid
        · exact (hlater.map Marker.list).subset (mem_enlist hm)
    · exact ih (nodup_enlistCall hms c) h

/-- Every call that comes to ask is given a number. -/
theorem exists_answer (es : List NumberingEntry) {ms : List Marker}
    (hms : (ms.map Marker.list).Nodup) {cs : List Call} {c : Call} (hc : c ∈ cs)
    (hasks : c.asks = true) :
    ∃ id, (c.marker, some id) ∈ (Numbering.counting es ms).answers cs := by
  induction cs generalizing ms with
  | nil => exact absurd hc List.not_mem_nil
  | cons c' cs ih =>
    rw [Numbering.answers, call_counting es hms]
    rcases List.mem_cons.mp hc with rfl | hc
    · rw [if_pos hasks]
      exact ⟨_, List.mem_cons_self⟩
    · obtain ⟨id, hid⟩ := ih (nodup_enlistCall hms c') hc
      exact ⟨id, List.mem_cons_of_mem _ hid⟩

/-! ### What holds of every run -/

/-- All formats stand in front of all numberings. -/
def FormatsFirst (ns : List Xml.Node) : Prop :=
  ns.Pairwise fun a b => a.isElement Omml.wordUri "num" = true →
    b.isElement Omml.wordUri "num" = true

theorem formatsFirst_map_iff {es : List NumberingEntry} :
    FormatsFirst (es.map NumberingEntry.node) ↔
      es.Pairwise fun a b => a.isNum = true → b.isNum = true := by
  rw [FormatsFirst, List.pairwise_map]
  simp only [isElement_entry]

theorem isNum_of_mem_back {es : List NumberingEntry}
    (hes : FormatsFirst (es.map NumberingEntry.node)) {e : NumberingEntry}
    (he : e ∈ back es) : e.isNum = true := by
  have hback : (back es).Pairwise fun a b => a.isNum = true → b.isNum = true := by
    rw [formatsFirst_map_iff, ← front_append_back es] at hes
    exact (List.pairwise_append.mp hes).2.1
  have hfront := front_back es
  cases hparts : back es with
  | nil =>
    rw [hparts] at he
    exact absurd he List.not_mem_nil
  | cons x xs =>
    rw [hparts] at he hback hfront
    have hx : x.isNum = true := by
      cases hx : x.isNum with
      | true => rfl
      | false => simp [front, hx] at hfront
    rcases List.mem_cons.mp he with rfl | he
    · exact hx
    · exact (List.pairwise_cons.mp hback).1 e he hx

/-- A node is a numbering that uses one of two formats. -/
def UsesOneOf (f g id : Int) (n : Xml.Node) : Prop :=
  ∃ starts, IsNum id f starts n ∨ IsNum id g starts n

/-- What a numbering part is after a run in which `answers` were given. At
first it held `es`, and `news` are the numberings added since, whose numbers are `ids`. -/
structure RunOf (es before after : List NumberingEntry) (news : List Xml.Node) (ids : List Int)
    (n : Numbering) (answers : List (Marker × Option Int)) : Prop where
  /-- What was there is still there, unchanged and in its order; our formats
  stand in front of every numbering, and the new numberings at the end. -/
  parts : es = before ++ after
  before_formats : ∀ e ∈ before, e.node.isElement Omml.wordUri "num" = false
  nodes : ∃ bullets decimal, IsBullets n.bulletFormat bullets ∧
    IsDecimal n.decimalFormat decimal ∧
    n.entries.map NumberingEntry.node = before.map NumberingEntry.node ++ [bullets, decimal] ++
      after.map NumberingEntry.node ++ news
  formats_first : FormatsFirst (es.map NumberingEntry.node) →
    FormatsFirst (n.entries.map NumberingEntry.node)
  /-- No number of a format or of a numbering is given twice. -/
  formats_ne : n.bulletFormat ≠ n.decimalFormat
  formats_fresh : n.bulletFormat ∉ formatIds es ∧ n.decimalFormat ∉ formatIds es
  nums_nodup : ids.Nodup
  nums_fresh : ∀ id ∈ ids, id ∉ numIds es
  /-- A new numbering uses one of our formats. -/
  uses : List.Forall₂ (UsesOneOf n.bulletFormat n.decimalFormat) ids news
  /-- All bullets get one number, and each counted list gets one of its own. -/
  found : ∀ m id, (m, some id) ∈ answers → id ∈ ids
  bullet : ∀ m id, (m, some id) ∈ answers → m.ordered = false → id = n.bulletNum
  counted : ∀ m id, (m, some id) ∈ answers → m.ordered = true → id ≠ n.bulletNum
  same_iff : ∀ m id m' id', (m, some id) ∈ answers → (m', some id') ∈ answers →
    m.ordered = true → m'.ordered = true → (id = id' ↔ m.list = m'.list)

/-- The numberings that opened lists bring, after that of the bullets. -/
def newEntries (es : List NumberingEntry) (ms : List Marker) : List NumberingEntry :=
  .num (nextNum es) (some (nextFormat es)) none :: ms.mapIdx (listEntry es)

theorem numIds_newEntries (es : List NumberingEntry) (ms : List Marker) :
    numIds (newEntries es ms) = nextNum es :: (List.range ms.length).map (listNum es) := by
  show nextNum es :: numIds (ms.mapIdx (listEntry es)) = _
  rw [numIds_listEntries]

theorem entries_counting (es : List NumberingEntry) (ms : List Marker) :
    (Numbering.counting es ms).entries =
      front es ++ ourFormats es ++ back es ++ newEntries es ms := by
  show (Numbering.setUp es).entries ++ ms.mapIdx (listEntry es) = _
  rw [setUp_eq, newEntries, List.append_assoc, List.singleton_append]

theorem nextNum_le_of_mem {es : List NumberingEntry} {ms : List Marker} {id : Int}
    (h : id ∈ numIds (newEntries es ms)) : nextNum es ≤ id := by
  rw [numIds_newEntries] at h
  rcases List.mem_cons.mp h with rfl | h
  · exact Int.le_refl _
  · obtain ⟨i, -, rfl⟩ := List.mem_map.mp h
    simp only [listNum]
    omega

theorem listNum_injective (es : List NumberingEntry) : Function.Injective (listNum es) := by
  intro i j h
  simp only [listNum] at h
  omega

theorem nodup_numIds_newEntries (es : List NumberingEntry) (ms : List Marker) :
    (numIds (newEntries es ms)).Nodup := by
  rw [numIds_newEntries]
  refine List.nodup_cons.mpr ⟨fun h => ?_, List.nodup_range.map (listNum_injective es)⟩
  obtain ⟨i, -, hi⟩ := List.mem_map.mp h
  simp only [listNum] at hi
  omega

theorem formatsFirst_counting {es : List NumberingEntry}
    (hes : FormatsFirst (es.map NumberingEntry.node)) (ms : List Marker) :
    FormatsFirst ((Numbering.counting es ms).entries.map NumberingEntry.node) := by
  rw [formatsFirst_map_iff, entries_counting, List.append_assoc]
  have hformats : ∀ e ∈ front es ++ ourFormats es, e.isNum = false := fun e he => by
    rcases List.mem_append.mp he with he | he
    · exact isNum_of_mem_front he
    · rcases List.mem_pair.mp he with rfl | rfl <;> rfl
  have hnums : ∀ e ∈ back es ++ newEntries es ms, e.isNum = true := fun e he => by
    rcases List.mem_append.mp he with he | he
    · exact isNum_of_mem_back hes he
    · rcases List.mem_cons.mp he with rfl | he
      · rfl
      · obtain ⟨i, hi, rfl⟩ := List.mem_mapIdx.mp he
        rfl
  refine List.pairwise_append.mpr ⟨?_, ?_, fun a ha b hb _ => hnums b hb⟩
  · refine List.pairwise_of_forall_mem_list fun a ha b _ h => ?_
    rw [hformats a ha] at h
    exact absurd h Bool.false_ne_true
  · exact List.pairwise_of_forall_mem_list fun a _ b hb _ => hnums b hb

/-- Two counted lists have the same number only if they are one. -/
theorem numOf_inj (es : List NumberingEntry) {ms : List Marker} {m m' : Marker}
    (hm : m.ordered = true) (hm' : m'.ordered = true) (hmem : m.list ∈ ms.map Marker.list) :
    numOf es ms m = numOf es ms m' ↔ m.list = m'.list := by
  rw [numOf, if_pos hm, numOf, if_pos hm', (listNum_injective es).eq_iff, List.idxOf_inj hmem]

theorem numOf_mem {es : List NumberingEntry} {ms : List Marker} {m : Marker}
    (hmem : m.ordered = true → m.list ∈ ms.map Marker.list) :
    numOf es ms m ∈ numIds (newEntries es ms) := by
  rw [numIds_newEntries, numOf]
  cases hm : m.ordered with
  | false => exact List.mem_cons_self
  | true =>
    have hlt := List.idxOf_lt_length_iff.mpr (hmem hm)
    rw [List.length_map] at hlt
    exact List.mem_cons_of_mem _ (List.mem_map_of_mem (List.mem_range.mpr hlt))

/-- Each numbering that is added has a number and uses one of our formats. -/
theorem forall₂_newEntries (es : List NumberingEntry) (ms : List Marker) :
    List.Forall₂ (UsesOneOf (nextFormat es) (nextFormat es + 1))
      (numIds (newEntries es ms)) ((newEntries es ms).map NumberingEntry.node) := by
  have hall : ∀ e ∈ newEntries es ms, ∃ id, e.numId? = some id ∧
      UsesOneOf (nextFormat es) (nextFormat es + 1) id e.node := by
    refine List.forall_mem_cons.mpr ⟨⟨_, rfl, _, .inl (isNum_num ..)⟩, fun e he => ?_⟩
    obtain ⟨i, hi, rfl⟩ := List.mem_mapIdx.mp he
    exact ⟨_, rfl, _, .inr (isNum_num ..)⟩
  generalize newEntries es ms = news at hall
  induction news with
  | nil => exact .nil
  | cons e news ih =>
    obtain ⟨⟨id, hid, huses⟩, hrest⟩ := List.forall_mem_cons.mp hall
    rw [numIds, List.filterMap_cons_some hid]
    exact .cons huses (ih hrest)

/-- A part in which lists are open is one after a run, if each answer is the
number of an open list or of the bullets. -/
theorem runOf_counting {es : List NumberingEntry} {ms : List Marker}
    {answers : List (Marker × Option Int)}
    (hanswers : ∀ m id, (m, some id) ∈ answers →
      id = numOf es ms m ∧ (m.ordered = true → m.list ∈ ms.map Marker.list)) :
    RunOf es (front es) (back es) ((newEntries es ms).map NumberingEntry.node)
      (numIds (newEntries es ms)) (Numbering.counting es ms) answers where
  parts := (front_append_back es).symm
  before_formats e he := by
    rw [isElement_entry]
    exact isNum_of_mem_front he
  nodes := by
    rw [bulletFormat_counting, decimalFormat_counting]
    refine ⟨_, _, isBullets_format (nextFormat es), isDecimal_format (nextFormat es + 1), ?_⟩
    rw [entries_counting, List.map_append, List.map_append, List.map_append]
    rfl
  formats_first hes := formatsFirst_counting hes ms
  formats_ne := by
    rw [bulletFormat_counting, decimalFormat_counting]
    exact Int.ne_of_lt (Int.lt_succ _)
  formats_fresh := by
    rw [bulletFormat_counting, decimalFormat_counting]
    refine ⟨?_, nextFormat_notMem (by decide)⟩
    simpa using nextFormat_notMem (k := 0) (Int.le_refl 0)
  nums_nodup := nodup_numIds_newEntries es ms
  nums_fresh id hid hmem := by
    have hlt : id < nextNum es := lt_nextId hmem
    have hle := nextNum_le_of_mem hid
    omega
  uses := by
    rw [bulletFormat_counting, decimalFormat_counting]
    exact forall₂_newEntries es ms
  found m id h := by
    obtain ⟨rfl, hmem⟩ := hanswers m id h
    exact numOf_mem hmem
  bullet m id h hm := by
    rw [(hanswers m id h).1, bulletNum_counting, numOf, if_neg (by simp [hm])]
  counted m id h hm := by
    rw [(hanswers m id h).1, bulletNum_counting, numOf, if_pos hm]
    simp only [listNum]
    omega
  same_iff m id m' id' h h' hm hm' := by
    rw [(hanswers m id h).1, (hanswers m' id' h').1]
    exact numOf_inj es hm hm' ((hanswers m id h).2 hm)

/-- A call about bullets opens no list. -/
theorem enlistCall_of_bullet {c : Call} (hc : c.marker.ordered = false) (ms : List Marker) :
    enlistCall ms c = ms := by
  have hbullet : ¬ (c.marker.ordered = true ∧ c.marker.list ∉ ms.map Marker.list) := by
    simp [hc]
  rw [enlistCall, enlist, if_neg hbullet, ite_self]

/-- A part with gaps, in which a numbering stands in front of a format. -/
example :
    let items : List Call :=
      [.place ⟨true, 0, 1, 3⟩, .find ⟨false, 1, 2, 1⟩, .place ⟨true, 9, 3, 1⟩,
        .place ⟨true, 0, 1, 3⟩]
    let n := Numbering.setUp [.format 4 none, .num 7 (some 4) none, .format 1 none]
    (n.after items).entries.map (fun e => (e.isNum, e.id)) =
      [(false, 4), (false, 5), (false, 6), (true, 7), (false, 1), (true, 8), (true, 9),
        (true, 10)] ∧
    (n.answers items).map (·.2) = [some 9, some 8, some 10, some 9] := by
  decide

end Word
end Formulary
