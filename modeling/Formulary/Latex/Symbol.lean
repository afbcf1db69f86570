/-
# Symbol commands

The commands that stand for one mathematical symbol.

Key definition: `symbol?`.
-/
import Formulary.Text.Basic

namespace Formulary

/-- The symbol commands by name, without the backslash. -/
def symbols : List (String × Char) :=
  [("geq", '≥'), ("ge", '≥'), ("leq", '≤'), ("le", '≤'), ("neq", '≠'), ("ne", '≠'),
   ("approx", '≈'), ("equiv", '≡'), ("sim", '∼'), ("propto", '∝'), ("times", '×'), ("div", '÷'),
   ("pm", '±'), ("mp", '∓'), ("cdot", '·'), ("ldots", '…'), ("cdots", '⋯'), ("dots", '…'),
   ("to", '→'), ("rightarrow", '→'), ("leftarrow", '←'), ("Rightarrow", '⇒'), ("Leftarrow", '⇐'),
   ("leftrightarrow", '↔'), ("Leftrightarrow", '⇔'), ("mapsto", '↦'), ("infty", '∞'),
   ("partial", '∂'), ("nabla", '∇'), ("forall", '∀'), ("exists", '∃'), ("in", '∈'),
   ("notin", '∉'), ("subset", '⊂'), ("subseteq", '⊆'), ("supset", '⊃'), ("cup", '∪'),
   ("cap", '∩'), ("emptyset", '∅'), ("alpha", 'α'), ("beta", 'β'), ("gamma", 'γ'),
   ("Gamma", 'Γ'), ("delta", 'δ'), ("Delta", 'Δ'), ("epsilon", 'ε'), ("varepsilon", 'ε'),
   ("eta", 'η'), ("kappa", 'κ'), ("lambda", 'λ'), ("Lambda", 'Λ'), ("mu", 'μ'), ("nu", 'ν'),
   ("rho", 'ρ'), ("sigma", 'σ'), ("Sigma", 'Σ'), ("tau", 'τ'), ("omega", 'ω'), ("Omega", 'Ω'),
   ("pi", 'π'), ("Pi", 'Π'), ("theta", 'θ'), ("Theta", 'Θ'), ("phi", 'φ'), ("Phi", 'Φ'),
   ("psi", 'ψ'), ("chi", 'χ'), ("xi", 'ξ'), ("zeta", 'ζ'), ("sum", '∑'), ("prod", '∏'),
   ("int", '∫'), ("oint", '∮'), ("sqrt", '√'), ("degree", '°'), ("circ", '∘'), ("angle", '∠'),
   ("perp", '⊥'), ("parallel", '∥'), ("hbar", 'ℏ'), ("ell", 'ℓ')]

/-- The symbol that a command stands for. -/
def symbol? (name : Text) : Option Char := (symbols.find? fun p => p.1.toList == name).map (·.2)

end Formulary
