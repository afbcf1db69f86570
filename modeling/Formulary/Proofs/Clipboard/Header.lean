/-
# Reading the header back

Whoever takes HTML from the clipboard finds the document and its fragment by
the numbers in the header, which count bytes. Each number is read as it was
written, whatever the document holds (`fields_utf8_header`), and a header
whose numbers have at most nine digits is as long as it says of itself
(`byteLength_header`).

Key definitions: `Clipboard.fields`, `Clipboard.position?`, `Clipboard.stretch?`.
Key theorems: `Text.byteLength_padded`, `Clipboard.fields_utf8_header`,
`Clipboard.byteLength_header`.
-/
import Formulary.Clipboard.Fragment
import Formulary.Proofs.Text.Decimal
import Formulary.Proofs.Text.Search

namespace Formulary

namespace Text

/-! ### Bytes -/

theorem take_utf8_append (s t : Text) : (utf8 (s ++ t)).take (byteLength s) = utf8 s := by
  rw [utf8_append]
  exact List.take_left

theorem drop_utf8_append (s t : Text) : (utf8 (s ++ t)).drop (byteLength s) = utf8 t := by
  rw [utf8_append]
  exact List.drop_left

/-- Bytes, each read as the character with its number. -/
def ofBytes (bs : List UInt8) : Text := bs.map fun b => Char.ofNat b.toNat

theorem ofBytes_append (bs cs : List UInt8) : ofBytes (bs ++ cs) = ofBytes bs ++ ofBytes cs :=
  List.map_append

/-- A text whose characters take one byte each. -/
def IsAscii (s : Text) : Prop := ∀ c ∈ s, c.toNat < 128

instance : DecidablePred IsAscii := fun s => List.decidableBAll (fun c : Char => c.toNat < 128) s

theorem isAscii_append {s t : Text} : IsAscii (s ++ t) ↔ IsAscii s ∧ IsAscii t :=
  List.forall_mem_append

theorem utf8EncodeChar_of_ascii {c : Char} (h : c.toNat < 128) :
    String.utf8EncodeChar c = [c.val.toUInt8] := by
  apply String.utf8EncodeChar_eq_singleton
  rw [Char.utf8Size_eq_one_iff, UInt32.le_iff_toNat_le]
  exact Nat.le_of_lt_succ h

theorem ofBytes_utf8 {s : Text} (h : IsAscii s) : ofBytes (utf8 s) = s := by
  induction s with
  | nil => rfl
  | cons c s ih =>
    obtain ⟨hc, hs⟩ := List.forall_mem_cons.mp h
    have hbyte : Char.ofNat c.val.toUInt8.toNat = c := by
      have : c.val.toUInt8.toNat = c.toNat := Nat.mod_eq_of_lt (Nat.lt_trans hc (by decide))
      rw [this, Char.ofNat_toNat]
    rw [utf8, List.flatMap_cons, utf8EncodeChar_of_ascii hc, ofBytes_append]
    show Char.ofNat c.val.toUInt8.toNat :: ofBytes (utf8 s) = c :: s
    rw [hbyte, ih hs]

theorem byteLength_of_isAscii {s : Text} (h : IsAscii s) : byteLength s = s.length := by
  have hmap : (ofBytes (utf8 s)).length = byteLength s := List.length_map _
  rw [← hmap, ofBytes_utf8 h]

/-! ### Padded numbers -/

theorem isAscii_padded (w n : Nat) : IsAscii (padded w n) := fun c hc => by
  have := isDigit_of_mem_padded hc
  simp only [Char.isDigit, Bool.and_eq_true, decide_eq_true_eq] at this
  have h9 := UInt32.le_iff_toNat_le.mp this.2
  exact Nat.lt_of_le_of_lt h9 (by decide)

/-- A padded number has as many bytes as it is wide, or more if it needs more digits. -/
theorem byteLength_padded (w n : Nat) : byteLength (padded w n) = max w (ofNat n).length := by
  rw [byteLength_of_isAscii (isAscii_padded w n), padded, List.length_append,
    List.length_replicate]
  omega

end Text

namespace Clipboard

/-! ### Fields -/

/-- The fields of a header: the four lines after the first one, each a name, a
colon and a number. -/
def fields (bytes : List UInt8) : List (Text × Nat) :=
  (((Text.pieces "\r\n".toList (Text.ofBytes bytes)).drop 1).take 4).filterMap fun line =>
    (Text.cut? [':'] line).map fun p => (p.1, Text.digitsValue p.2)

/-- The position that a header gives under a name. -/
def position? (name : String) (bytes : List UInt8) : Option Nat :=
  (fields bytes).lookup name.toList

/-- The bytes between the positions that a header gives under two names. -/
def stretch? (first last : String) (bytes : List UInt8) : Option (List UInt8) :=
  match position? first bytes, position? last bytes with
  | some i, some j => some ((bytes.take j).drop i)
  | _, _ => none

/-- A line up to its end is the first piece of a text. -/
theorem pieces_line {line : Text} (h : '\r' ∉ line) (s : Text) :
    Text.pieces "\r\n".toList (line ++ ("\r\n".toList ++ s)) =
      line :: Text.pieces "\r\n".toList s := by
  refine Text.pieces_of_cut?_eq_some (by decide) (Text.cut?_eq_some_iff.mpr ⟨rfl, ?_⟩)
  refine Text.skips_of_unbordered (by decide) (fun hin => h ?_) s
  exact hin.subset (by decide)

/-- A line of the header without its end. -/
def fieldLine (name : String) (n : Nat) : Text := name.toList ++ ':' :: Text.padded 9 n

theorem notMem_fieldLine {name : String} {c : Char} (hname : c ∉ name.toList) (hcolon : c ≠ ':')
    (hdigit : c.isDigit = false) (n : Nat) : c ∉ fieldLine name n := by
  have hpadded : c ∉ Text.padded 9 n := fun h => by
    rw [Text.isDigit_of_mem_padded h] at hdigit
    simp at hdigit
  simp [fieldLine, hname, hcolon, hpadded]

theorem cut?_fieldLine {name : String} (hname : ':' ∉ name.toList) (n : Nat) :
    Text.cut? [':'] (fieldLine name n) = some (name.toList, Text.padded 9 n) := by
  refine Text.cut?_eq_some_iff.mpr ⟨rfl, ?_⟩
  refine Text.skips_of_unbordered (by decide) (fun hin => hname ?_) _
  exact hin.subset List.mem_cons_self

theorem header_eq (a b c d : Nat) : header a b c d =
    "Version:0.9\r\n".toList ++ headerLine "StartHTML" a ++ headerLine "EndHTML" b ++
      headerLine "StartFragment" c ++ headerLine "EndFragment" d := rfl

theorem header_append (a b c d : Nat) (s : Text) : header a b c d ++ s =
    "Version:0.9".toList ++ ("\r\n".toList ++ (fieldLine "StartHTML" a ++ ("\r\n".toList ++
      (fieldLine "EndHTML" b ++ ("\r\n".toList ++ (fieldLine "StartFragment" c ++
        ("\r\n".toList ++ (fieldLine "EndFragment" d ++ ("\r\n".toList ++ s))))))))) := by
  have hversion : "Version:0.9\r\n".toList = "Version:0.9".toList ++ "\r\n".toList := rfl
  simp only [header_eq, headerLine, fieldLine, hversion, List.append_assoc]

theorem isAscii_header (a b c d : Nat) : Text.IsAscii (header a b c d) := by
  have hline : ∀ (name : String) (n : Nat), Text.IsAscii name.toList →
      Text.IsAscii (headerLine name n) := by
    intro name n hname
    rw [headerLine, Text.isAscii_append, Text.isAscii_append]
    refine ⟨⟨hname, ?_⟩, by decide⟩
    exact List.forall_mem_cons.mpr ⟨by decide, Text.isAscii_padded 9 n⟩
  simp only [header_eq, Text.isAscii_append]
  exact ⟨⟨⟨⟨by decide, hline _ a (by decide)⟩, hline _ b (by decide)⟩, hline _ c (by decide)⟩,
    hline _ d (by decide)⟩

/-- The fields of a header are the numbers that it was made for. -/
theorem fields_utf8_header (a b c d : Nat) (s : Text) :
    fields (Text.utf8 (header a b c d ++ s)) =
      [("StartHTML".toList, a), ("EndHTML".toList, b), ("StartFragment".toList, c),
        ("EndFragment".toList, d)] := by
  have hchars : Text.ofBytes (Text.utf8 (header a b c d ++ s)) =
      header a b c d ++ Text.ofBytes (Text.utf8 s) := by
    rw [Text.utf8_append, Text.ofBytes_append, Text.ofBytes_utf8 (isAscii_header a b c d)]
  have hline : ∀ (name : String) (n : Nat), '\r' ∉ name.toList → '\r' ∉ fieldLine name n :=
    fun name n h => notMem_fieldLine h (by decide) (by decide) n
  rw [fields, hchars, header_append, pieces_line (by decide), pieces_line (hline _ a (by decide)),
    pieces_line (hline _ b (by decide)), pieces_line (hline _ c (by decide)),
    pieces_line (hline _ d (by decide))]
  simp [cut?_fieldLine, Text.digitsValue_padded]

/-! ### Length -/

theorem byteLength_headerLine (name : String) (n : Nat) : Text.byteLength (headerLine name n) =
    Text.byteLength name.toList + 3 + max 9 (Text.ofNat n).length := by
  have hcolon : ':' :: Text.padded 9 n = [':'] ++ Text.padded 9 n := rfl
  have hends : Text.byteLength [':'] = 1 ∧ Text.byteLength "\r\n".toList = 2 := by decide
  rw [headerLine, hcolon, Text.byteLength_append, Text.byteLength_append, Text.byteLength_append,
    Text.byteLength_padded, hends.1, hends.2]
  omega

/-- A header whose numbers have at most nine digits has the usual length. -/
theorem byteLength_header {a b c d : Nat} (ha : a < 1000000000) (hb : b < 1000000000)
    (hc : c < 1000000000) (hd : d < 1000000000) :
    Text.byteLength (header a b c d) = headerLength := by
  have hwidth : ∀ n, n < 1000000000 → max 9 (Text.ofNat n).length = max 9 (Text.ofNat 0).length :=
    fun n hn => by
      have := Text.length_ofNat_le (w := 9) (by decide) hn
      have := Text.length_ofNat_le (w := 9) (n := 0) (by decide) (by decide)
      omega
  simp only [headerLength, header_eq, Text.byteLength_append, byteLength_headerLine, hwidth a ha,
    hwidth b hb, hwidth c hc, hwidth d hd]

/-- No header is shorter. -/
theorem headerLength_le (a b c d : Nat) : headerLength ≤ Text.byteLength (header a b c d) := by
  have hzero : (Text.ofNat 0).length = 1 := by decide
  simp only [headerLength, header_eq, Text.byteLength_append, byteLength_headerLine, hzero]
  omega

end Clipboard
end Formulary
