/-
# Settings

Key definitions: `Settings`, `Settings.standard`, `Settings.fonts`, `Settings.title`.
-/
import Formulary.Word.Writer

namespace Formulary

/-- What can be set. -/
structure Settings where
  maxInput : Int
  documentName : Text
  pageTitle : Text
  monospaceFont : Text
  mathFallbackFont : Text
deriving DecidableEq, Repr, Inhabited

namespace Settings

/-- The settings unless told otherwise. -/
def standard : Settings where
  maxInput := 200000
  documentName := "equations.docx".toList
  pageTitle := "Equations".toList
  monospaceFont := "Courier New".toList
  mathFallbackFont := "Cambria Math".toList

/-- A text that was asked for, unless it is missing or empty. -/
def orElse (default : Text) : Option Text → Text
  | some (c :: s) => c :: s
  | _ => default

/-- The fonts of a document. -/
def fonts (s : Settings) (monospace mathFallback : Option Text) : Word.FontChoice :=
  ⟨orElse s.monospaceFont monospace, orElse s.mathFallbackFont mathFallback⟩

/-- The title of a page. -/
def title (s : Settings) (asked : Option Text) : Text := orElse s.pageTitle asked

end Settings
end Formulary
