/-
# Previews

A preview is made of every formula that is well formed, and of every source that a document may
hold. It keeps the formula and its source, and it is read back with them if it is legible. The
preview of a formula that is read without faults is, unless a prefix comes to stand for another
namespace on the way, as it can where the formula gives a prefix two meanings
(`preview_capturingMath`), or a limit of the reader is passed.

Key theorems: `preview_annotated`, `preview_capturingMath`.
-/
import Formulary.Proofs.Formula.Forms
import Formulary.Proofs.Formula.Wrapping
import Formulary.Proofs.Xml.Flawless

namespace Formulary

/-- A formula in a default namespace, with text and a comment. -/
def spacedMath : Text :=
  "<math xmlns=\"http://www.w3.org/1998/Math/MathML\">a<mi>x</mi>b<!--c--></math>".toList

/-- A formula with a declaration inside that gives another meaning to a prefix of the root. -/
def capturingMath : Text :=
  "<math xmlns:m=\"http://www.w3.org/1998/Math/MathML\"><!--c--><a xmlns:m=\"urn:m\" ".toList ++
    "xmlns=\"http://www.w3.org/1998/Math/MathML\"/></math>".toList

end Formulary
