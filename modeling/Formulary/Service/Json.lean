/-
# JSON

Reading JSON texts, as the bodies of requests hold them. Besides the standard
the three numbers that are no numbers are read, and of a repeated key the
last value counts. A text is read up to its first fault, which is a breach of
the grammar or of the limits on numbers and on values inside each other.

Key definitions: `Json`, `Json.lex`, `Json.readValue`, `Json.read`, `Json.decode?`,
`Json.get?`.
-/
import Formulary.Html.Entity
import Formulary.Text.Loose
import Formulary.Text.Utf8

namespace Formulary

/-- A JSON value. The digits of numbers are not kept. A string may hold a code
unit that is half of a pair without the other half. -/
inductive Json
  | null
  | bool (b : Bool)
  | number
  | string (s : LooseText)
  | array (items : List Json)
  | object (fields : List (LooseText × Json))
deriving Repr, Inhabited

namespace Json

/-- The value of a field of an object. -/
def get? (key : Text) (fields : List (LooseText × Json)) : Option Json :=
  (fields.reverse.find? fun p => p.1 == .ofText key).map (·.2)

/-! ### Tokens -/

/-- A piece of a JSON text. -/
inductive Token
  | openObject | closeObject | openArray | closeArray | comma | colon
  | scalar (v : Json)
  /-- A whole number with more digits than a number may have. -/
  | huge
  /-- Something that is no piece of a JSON text. -/
  | broken
deriving Repr, Inhabited

/-- The white space of JSON. -/
def isSpace (c : Char) : Bool := c == ' ' || c == '\t' || c == '\n' || c == '\r'

/-- A character that an escape of one letter stands for. -/
def shortEscape? : Char → Option Char
  | '"' => some '"'
  | '\\' => some '\\'
  | '/' => some '/'
  | 'b' => some '\x08'
  | 'f' => some '\x0C'
  | 'n' => some '\n'
  | 'r' => some '\r'
  | 't' => some '\t'
  | _ => none

/-- The number written by four hexadecimal digits, and what follows them. -/
def unit? : Text → Option (Nat × Text)
  | a :: b :: c :: d :: s =>
    if [a, b, c, d].all Html.isHex then some (Html.hexNumber [a, b, c, d], s) else none
  | _ => none

theorem length_lt_of_unit? {s r : Text} {n : Nat} (h : unit? s = some (n, r)) :
    r.length < s.length := by
  unfold unit? at h
  split at h
  · split at h
    · simp only [Option.some.injEq, Prod.mk.injEq] at h
      rw [← h.2]
      simp only [List.length_cons]
      omega
    · simp at h
  · simp at h

/-- The second code unit of a pair, at the start of a text. -/
def secondUnit? : Text → Option (Nat × Text)
  | '\\' :: 'u' :: s => unit? s
  | _ => none

/-- What a numeric escape stands for, read after its letter. -/
def longEscape? (s : Text) : Option (LooseChar × Text) :=
  match unit? s with
  | none => none
  | some (hi, r) =>
    match secondUnit? r with
    | none => some (.ofUnit hi, r)
    | some (lo, rest) =>
      match Text.pairOf? hi lo with
      | some c => some (.char c, rest)
      | none => some (.ofUnit hi, r)

theorem length_lt_of_longEscape? {s r : Text} {c : LooseChar} (h : longEscape? s = some (c, r)) :
    r.length < s.length := by
  unfold longEscape? at h
  split at h
  · simp at h
  · rename_i hi u hu
    have hlt := length_lt_of_unit? hu
    split at h
    · simp only [Option.some.injEq, Prod.mk.injEq] at h
      rwa [← h.2]
    · rename_i lo v hv
      have hv' : v.length < u.length := by
        unfold secondUnit? at hv
        split at hv
        · exact Nat.lt_trans (length_lt_of_unit? hv) (by simp only [List.length_cons]; omega)
        · simp at hv
      split at h
      · simp only [Option.some.injEq, Prod.mk.injEq] at h
        rw [← h.2]
        omega
      · simp only [Option.some.injEq, Prod.mk.injEq] at h
        rwa [← h.2]

/-- A string, after its opening quotation mark: what it stands for, and what
follows it. Control characters have to be escaped. -/
def stringBody? : Text → Option (LooseText × Text)
  | [] => none
  | '"' :: s => some ([], s)
  | '\\' :: 'u' :: s =>
    match _ : longEscape? s with
    | some (c, r) => (stringBody? r).map fun p => (c :: p.1, p.2)
    | none => none
  | '\\' :: e :: s =>
    match shortEscape? e with
    | some c => (stringBody? s).map fun p => (.char c :: p.1, p.2)
    | none => none
  | c :: s =>
    if c.toNat < 0x20 ∨ c = '\\' then none
    else (stringBody? s).map fun p => (.char c :: p.1, p.2)
termination_by s => s.length
decreasing_by
  · have := length_lt_of_longEscape? (by assumption)
    simp only [List.length_cons]
    omega
  · simp only [List.length_cons]
    omega
  · simp

/-- The words of JSON, and the numbers that are none. -/
def words : List (String × Json) :=
  [("null", .null), ("true", .bool true), ("false", .bool false), ("NaN", .number),
    ("Infinity", .number), ("-Infinity", .number)]

/-- The value of the word that a text starts with, and what follows it. -/
def word? (s : Text) : Option (Json × Text) :=
  words.findSome? fun w => (Text.after? w.1.toList s).map fun r => (w.2, r)

/-- What follows a fraction; without one, the text itself. -/
def afterFraction (s : Text) : Text :=
  match s with
  | '.' :: c :: r => if c.isDigit then r.dropWhile Char.isDigit else s
  | _ => s

/-- The text without the sign that it may start with. -/
def dropSign : Text → Text
  | '+' :: s => s
  | '-' :: s => s
  | s => s

/-- What follows an exponent; without one, the text itself. -/
def afterExponent : Text → Text
  | [] => []
  | e :: s =>
    if (e = 'e' ∨ e = 'E') ∧ (dropSign s).head?.any Char.isDigit then
      (dropSign s).dropWhile Char.isDigit
    else e :: s

/-- What follows the digits of a whole number, in front of which no zero stands. -/
def wholePart? : Text → Option (Text × Text)
  | '0' :: s => some (['0'], s)
  | s =>
    if s.takeWhile Char.isDigit = [] then none
    else some (s.takeWhile Char.isDigit, s.dropWhile Char.isDigit)

/-- The number that a text starts with, and what follows it. Only whole
numbers have a greatest number of digits. -/
def number? (s : Text) : Option (Token × Text) :=
  (wholePart? (match s with | '-' :: r => r | r => r)).map fun p =>
    let rest := afterExponent (afterFraction p.2)
    (if rest.length = p.2.length ∧ Numeral.maxDigits < p.1.length then .huge
      else .scalar .number, rest)

/-- The word or number that a text starts with, and what follows it. -/
def bare? (s : Text) : Option (Token × Text) :=
  match word? s with
  | some (v, r) => some (.scalar v, r)
  | none => number? s

theorem length_lt_of_word? {s r : Text} {v : Json} (h : word? s = some (v, r)) :
    r.length < s.length := by
  unfold word? at h
  obtain ⟨w, hw, hr⟩ := List.exists_of_findSome?_eq_some h
  simp only [Option.map_eq_some_iff, Prod.mk.injEq] at hr
  obtain ⟨t, ht, _, rfl⟩ := hr
  have hpos : 0 < w.1.toList.length := by
    simp only [words, List.mem_cons, List.not_mem_nil, or_false] at hw
    rcases hw with rfl | rfl | rfl | rfl | rfl | rfl <;> decide
  rw [Text.after?_eq_some_iff.mp ht, List.length_append]
  omega

theorem length_afterFraction_le (s : Text) : (afterFraction s).length ≤ s.length := by
  unfold afterFraction
  split
  · rename_i c r
    split
    · have := Text.length_dropWhile_le Char.isDigit r
      simp only [List.length_cons]
      omega
    · exact Nat.le_refl _
  · exact Nat.le_refl _

theorem length_dropSign_le (s : Text) : (dropSign s).length ≤ s.length := by
  unfold dropSign
  split
  · exact Nat.le_succ _
  · exact Nat.le_succ _
  · exact Nat.le_refl _

theorem length_afterExponent_le (s : Text) : (afterExponent s).length ≤ s.length := by
  cases s with
  | nil => simp [afterExponent]
  | cons e s =>
    have h1 := Text.length_dropWhile_le Char.isDigit (dropSign s)
    have h2 := length_dropSign_le s
    simp only [afterExponent]
    split
    · simp only [List.length_cons]
      omega
    · exact Nat.le_refl _

theorem length_lt_of_wholePart? {s ds r : Text} (h : wholePart? s = some (ds, r)) :
    r.length < s.length := by
  unfold wholePart? at h
  split at h
  · simp only [Option.some.injEq, Prod.mk.injEq] at h
    rw [← h.2, List.length_cons]
    omega
  · split at h
    · simp at h
    · rename_i hne
      simp only [Option.some.injEq, Prod.mk.injEq] at h
      have hpos : 0 < (s.takeWhile Char.isDigit).length := List.length_pos_iff.mpr hne
      have hsum := congrArg List.length (@List.takeWhile_append_dropWhile _ Char.isDigit s)
      rw [List.length_append] at hsum
      rw [← h.2]
      omega

theorem length_lt_of_number? {s r : Text} {t : Token} (h : number? s = some (t, r)) :
    r.length < s.length := by
  simp only [number?, Option.map_eq_some_iff, Prod.mk.injEq] at h
  obtain ⟨p, hp, _, rfl⟩ := h
  have h1 := length_lt_of_wholePart? hp
  have h2 := length_afterFraction_le p.2
  have h3 := length_afterExponent_le (afterFraction p.2)
  split at h1
  · simp only [List.length_cons]
    omega
  · omega

theorem length_lt_of_bare? {s r : Text} {t : Token} (h : bare? s = some (t, r)) :
    r.length < s.length := by
  unfold bare? at h
  split at h
  · rename_i hw
    simp only [Option.some.injEq, Prod.mk.injEq] at h
    rw [← h.2]
    exact length_lt_of_word? hw
  · exact length_lt_of_number? h

/-- The mark that a character is. -/
def mark? : Char → Option Token
  | '\x7b' => some .openObject
  | '\x7d' => some .closeObject
  | '[' => some .openArray
  | ']' => some .closeArray
  | ',' => some .comma
  | ':' => some .colon
  | _ => none

theorem length_lt_of_stringBody? : ∀ {s r : Text} {a : LooseText},
    stringBody? s = some (a, r) → r.length < s.length := by
  intro s
  fun_induction stringBody? s with
  | case1 => simp
  | case2 s =>
    intro r a h
    simp only [Option.some.injEq, Prod.mk.injEq] at h
    rw [← h.2]
    simp
  | case3 s c r' hc ih =>
    intro r a h
    simp only [Option.map_eq_some_iff, Prod.mk.injEq] at h
    obtain ⟨p, hp, _, rfl⟩ := h
    have h1 := ih hp
    have h2 := length_lt_of_longEscape? hc
    simp only [List.length_cons]
    omega
  | case4 => simp
  | case5 e s _ c hc ih =>
    intro r a h
    simp only [Option.map_eq_some_iff, Prod.mk.injEq] at h
    obtain ⟨p, hp, _, rfl⟩ := h
    have h1 := ih hp
    simp only [List.length_cons]
    omega
  | case6 => simp
  | case7 => simp
  | case8 c s _ _ _ _ ih =>
    intro r a h
    simp only [Option.map_eq_some_iff, Prod.mk.injEq] at h
    obtain ⟨p, hp, _, rfl⟩ := h
    have h1 := ih hp
    simp only [List.length_cons]
    omega

/-- The pieces of a JSON text, up to the first that is broken. -/
def lex : Text → List Token
  | [] => []
  | c :: s =>
    if isSpace c then lex s
    else if c = '"' then
      match _ : stringBody? s with
      | some (v, r) => .scalar (.string v) :: lex r
      | none => [.broken]
    else
      match mark? c with
      | some t => t :: lex s
      | none =>
        match _ : bare? (c :: s) with
        | some (t, r) => t :: lex r
        | none => [.broken]
termination_by s => s.length
decreasing_by
  · simp
  · have := length_lt_of_stringBody? (by assumption)
    simp only [List.length_cons]
    omega
  · simp
  · exact length_lt_of_bare? (by assumption)

/-! ### Values -/

/-- A value that is not complete: what it holds so far, the last first. An
object may have a key that waits for its value. -/
inductive Frame
  | array (items : List Json)
  | object (fields : List (LooseText × Json)) (key : LooseText)
deriving Repr, Inhabited

/-- What may come next. -/
inductive Expect
  /-- A value, or the end of the array that was just opened. -/
  | first
  | value
  /-- A key, or the end of the object that was just opened. -/
  | firstKey
  | key
  | colon
  /-- A comma or the end of the innermost value. -/
  | next
deriving DecidableEq, Repr

/-- Puts a finished value into the innermost open one. -/
def Frame.put (v : Json) : Frame → Frame
  | .array items => .array (v :: items)
  | .object fields key => .object ((key, v) :: fields) key

/-- The value of a frame that is complete. -/
def Frame.value : Frame → Json
  | .array items => .array items.reverse
  | .object fields _ => .object fields.reverse

/-- The most arrays and objects that may be open at once. -/
def maxOpen : Nat := 10000

/-- Why a text cannot be read: it breaks the grammar, or it goes beyond the
limits on numbers and on values inside each other. -/
inductive Fault
  | malformed | limit
deriving DecidableEq, Repr, Inhabited

/-- Reads a value: the value, and the tokens after it. -/
def readValue : List Token → Expect → List Frame → Except Fault (Json × List Token)
  | [], _, _ => .error .malformed
  | .broken :: _, _, _ => .error .malformed
  | .huge :: _, e, _ => .error (if e = .first ∨ e = .value then .limit else .malformed)
  | .scalar v :: ts, e, up =>
    if e = .first ∨ e = .value then
      match up with
      | [] => .ok (v, ts)
      | f :: up => readValue ts .next (f.put v :: up)
    else
      match v, up with
      | .string k, .object fields _ :: up =>
        if e = .firstKey ∨ e = .key then readValue ts .colon (.object fields k :: up)
        else .error .malformed
      | _, _ => .error .malformed
  | .openArray :: ts, e, up =>
    if e = .first ∨ e = .value then
      if up.length < maxOpen then readValue ts .first (.array [] :: up) else .error .limit
    else .error .malformed
  | .openObject :: ts, e, up =>
    if e = .first ∨ e = .value then
      if up.length < maxOpen then readValue ts .firstKey (.object [] [] :: up) else .error .limit
    else .error .malformed
  | .colon :: ts, e, up => if e = .colon then readValue ts .value up else .error .malformed
  | .comma :: ts, e, up =>
    match e, up with
    | .next, .array items :: up => readValue ts .value (.array items :: up)
    | .next, .object fields k :: up => readValue ts .key (.object fields k :: up)
    | _, _ => .error .malformed
  | .closeArray :: ts, e, up =>
    match up with
    | .array items :: up =>
      if e = .first ∨ e = .next then
        match up with
        | [] => .ok (Frame.value (.array items), ts)
        | f :: up => readValue ts .next (f.put (Frame.value (.array items)) :: up)
      else .error .malformed
    | _ => .error .malformed
  | .closeObject :: ts, e, up =>
    match up with
    | .object fields k :: up =>
      if e = .firstKey ∨ e = .next then
        match up with
        | [] => .ok (Frame.value (.object fields k), ts)
        | f :: up => readValue ts .next (f.put (Frame.value (.object fields k)) :: up)
      else .error .malformed
    | _ => .error .malformed

/-- The value of a JSON text. -/
def read (s : Text) : Except Fault Json := do
  let p ← readValue (lex s) .value []
  if p.2.isEmpty then pure p.1 else .error .malformed

/-! ### Bytes -/

/-- The encoding of sixteen or thirty-two bits that bytes are written in: the
first characters of a JSON text are ASCII, so it shows in the zeros. -/
def encoding? : List UInt8 → Option Wide
  | [a, b] => if a = 0 then some ⟨false, true⟩ else if b = 0 then some ⟨false, false⟩ else none
  | a :: b :: c :: d :: _ =>
    if a = 0 then some ⟨b = 0, true⟩
    else if b = 0 then some ⟨c = 0 ∧ d = 0, false⟩
    else none
  | _ => none

/-- The JSON text that a body stands for, given the text that its bytes have
in UTF-8. Half of a pair without the other half is read as the last
character of the plane. -/
def decode? (s : Text) : Option Text :=
  match encoding? (Text.utf8 s) with
  | some w => w.decode? (some '\uFFFF') (Text.utf8 s)
  | none => some (Text.dropMark s)

end Json
end Formulary
