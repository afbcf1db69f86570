import Formulary.Clipboard.Copy
import Formulary.Clipboard.Fragment
import Formulary.Converters
import Formulary.Document.Assembly
import Formulary.Document.Build
import Formulary.Document.Expand
import Formulary.Document.Outline
import Formulary.Document.Run
import Formulary.Document.Styled
import Formulary.Failure
import Formulary.Formula.Markup
import Formulary.Formula.MathMl
import Formulary.Formula.Omml
import Formulary.Html.Entity
import Formulary.Html.Escape
import Formulary.Html.Further
import Formulary.Html.Named
import Formulary.Latex.Accent
import Formulary.Latex.PlainText
import Formulary.Latex.Symbol
import Formulary.Markdown.Block
import Formulary.Markdown.Inline
import Formulary.Page.Envelope
import Formulary.Page.Weave
import Formulary.Proofs.Clipboard.Body
import Formulary.Proofs.Clipboard.Header
import Formulary.Proofs.Clipboard.Offsets
import Formulary.Proofs.Document.Assembled
import Formulary.Proofs.Document.Emphasis
import Formulary.Proofs.Document.Leaves
import Formulary.Proofs.Document.Legal
import Formulary.Proofs.Document.Lists
import Formulary.Proofs.Document.Literal
import Formulary.Proofs.Document.Places
import Formulary.Proofs.Document.Relexing
import Formulary.Proofs.Document.Shown
import Formulary.Proofs.Document.Stretches
import Formulary.Proofs.Formula.Annotated
import Formulary.Proofs.Formula.Boxes
import Formulary.Proofs.Formula.Completion
import Formulary.Proofs.Formula.Fallback
import Formulary.Proofs.Formula.Forms
import Formulary.Proofs.Formula.Preview
import Formulary.Proofs.Formula.Wrapping
import Formulary.Proofs.Html.Escape
import Formulary.Proofs.Latex.Folding
import Formulary.Proofs.Latex.OnePass
import Formulary.Proofs.Latex.Readable
import Formulary.Proofs.Markdown.Joining
import Formulary.Proofs.Page.Agreement
import Formulary.Proofs.Page.Substitution
import Formulary.Proofs.Text.Blank
import Formulary.Proofs.Text.Decimal
import Formulary.Proofs.Text.Loose
import Formulary.Proofs.Text.Search
import Formulary.Proofs.Token.Grammar
import Formulary.Proofs.Token.Interleaving
import Formulary.Proofs.Token.Reading
import Formulary.Proofs.Token.RoundTrip
import Formulary.Proofs.Token.Run
import Formulary.Proofs.Word.Faithful
import Formulary.Proofs.Word.Finished
import Formulary.Proofs.Word.ListItems
import Formulary.Proofs.Word.Listed
import Formulary.Proofs.Word.Numbering
import Formulary.Proofs.Word.Starts
import Formulary.Proofs.Word.Written
import Formulary.Proofs.Xml.Bare
import Formulary.Proofs.Xml.Clearing
import Formulary.Proofs.Xml.Fitting
import Formulary.Proofs.Xml.Flawless
import Formulary.Proofs.Xml.Grounded
import Formulary.Proofs.Xml.Learning
import Formulary.Proofs.Xml.Legal
import Formulary.Proofs.Xml.Legible
import Formulary.Proofs.Xml.Lexing
import Formulary.Proofs.Xml.Moving
import Formulary.Proofs.Xml.Nested
import Formulary.Proofs.Xml.Prefixes
import Formulary.Proofs.Xml.Printing
import Formulary.Proofs.Xml.ReadBack
import Formulary.Proofs.Xml.Rereading
import Formulary.Proofs.Xml.Scoping
import Formulary.Proofs.Xml.Settling
import Formulary.Proofs.Xml.Stacking
import Formulary.Proofs.Xml.Standing
import Formulary.Service.Convert
import Formulary.Service.Http
import Formulary.Service.Json
import Formulary.Service.Logging
import Formulary.Service.Path
import Formulary.Service.Settings
import Formulary.Text.Alphabet
import Formulary.Text.Basic
import Formulary.Text.Blank
import Formulary.Text.CodePage
import Formulary.Text.Decimal
import Formulary.Text.Loose
import Formulary.Text.Numeral
import Formulary.Text.Quoted
import Formulary.Text.Utf8
import Formulary.Text.Wide
import Formulary.Token.Basic
import Formulary.Token.Placeholder
import Formulary.Token.Segment
import Formulary.Word.Content
import Formulary.Word.Numbering
import Formulary.Word.Writer
import Formulary.Xml.Char
import Formulary.Xml.Definitions
import Formulary.Xml.Doctype
import Formulary.Xml.Layout
import Formulary.Xml.Move
import Formulary.Xml.Printer
import Formulary.Xml.Prolog
import Formulary.Xml.Reader
import Formulary.Xml.Reference
import Formulary.Xml.Report
import Formulary.Xml.Scan
import Formulary.Xml.Scope
import Formulary.Xml.Token
import Formulary.Xml.Tree
import Formulary.Xml.Uri
