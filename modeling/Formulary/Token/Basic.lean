/-
# Tokens

The segments of a text with their math converted, each under an id of its
own. All outputs are made from the same tokens.

Key definitions: `Formula`, `Token`, `tokenize`, `formulaSources`, `runKey`, `tokenReport`.
-/
import Formulary.Formula.Markup
import Formulary.Latex.Accent
import Formulary.Text.Decimal
import Formulary.Token.Segment

namespace Formulary

/-- A converted formula. -/
structure Formula where
  id : Text
  latex : Text
  display : Bool
  markup : Markup
deriving DecidableEq, Repr, Inhabited

/-- A piece of a document: plain text or a formula. -/
inductive Token
  | plain (id text : Text)
  | math (f : Formula)
deriving DecidableEq, Repr, Inhabited

namespace Token

/-- The formula of a token that is one. -/
def formula? : Token → Option Formula
  | plain _ _ => none
  | math f => some f

/-- Whether a token is a formula. -/
def isMath (t : Token) : Bool := t.formula?.isSome

end Token

/-- The id of the `n`-th token of a run; the kind is one letter. -/
def tokenId (kind : Char) (n : Nat) (key : Text) : Text :=
  kind :: '-' :: Text.ofNat n ++ '-' :: key

/-- The token of a segment. -/
def tokenOf (cv : Converters) (key : Text) (g : Segment) (n : Nat) : Token :=
  match g with
  | .plain s => .plain (tokenId 't' n key) s
  | .math content display =>
    .math ⟨tokenId 'm' n key, foldAccents content, display,
      markupOf cv (foldAccents content) display⟩

/-- The tokens of a text, its accents folded. The ids share one count. -/
def tokenize (cv : Converters) (key : Text) (s : Text) : List Token :=
  ((segments (foldAccents s)).zipIdx).map fun p => tokenOf cv key p.1 p.2

/-- The sources of the formulas among segments, with what the stand-ins in the
segments stand for. -/
def sourcesAmong : List LooseChar → List Segment → List (LooseText × Bool)
  | _, [] => []
  | ms, .plain s :: gs => sourcesAmong (ms.drop (List.count LooseChar.stand s)) gs
  | ms, .math content display :: gs =>
    (.refill ms content, display) :: sourcesAmong (ms.drop (List.count LooseChar.stand content)) gs

/-- The sources of the formulas in a text, each with whether it is displayed. -/
def formulaSources (s : LooseText) : List (LooseText × Bool) :=
  sourcesAmong s.stood (segments (foldAccents s.mask))

/-- The key of a run: the one that was asked for, unless it is empty. -/
def runKey (fresh : Text) (asked : Option Text) : Text :=
  match asked with
  | some (c :: s) => c :: s
  | _ => fresh

/-- The formulas of a token list. -/
def formulas (ts : List Token) : List Formula := ts.filterMap Token.formula?

/-- The formula with an id; of two with the same id, the last one. -/
def formulaById (ts : List Token) (id : Text) : Option Formula :=
  (formulas ts).reverse.find? fun f => f.id == id

/-- What is noted about a tokenized text. -/
def tokenReport (s : Text) (ts : List Token) : Text :=
  "Tokenized ".toList ++ Text.ofNat s.length ++ " chars into ".toList ++ Text.ofNat ts.length ++
    " tokens (".toList ++ Text.ofNat (formulas ts).length ++ " math)".toList

end Formulary
