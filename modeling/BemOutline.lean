import BemOutline.Arena.Basic
import BemOutline.Arena.Clone
import BemOutline.Arena.Diagram
import BemOutline.Arena.Measure
import BemOutline.Arena.Raw
import BemOutline.Arena.Repeats
import BemOutline.Arena.Search
import BemOutline.Arena.Tree
import BemOutline.Arena.Walk
import BemOutline.Bem.Clean
import BemOutline.Bem.Decode
import BemOutline.Bem.Encode
import BemOutline.Bem.Node
import BemOutline.Command.Arguments
import BemOutline.Command.Basic
import BemOutline.Command.Run
import BemOutline.Command.Texts
import BemOutline.Conversion.Basic
import BemOutline.Conversion.Table
import BemOutline.Decimal.Layout
import BemOutline.Decimal.Shortest
import BemOutline.Expansion
import BemOutline.Files.Basic
import BemOutline.Files.Tree
import BemOutline.Format
import BemOutline.Json.Basic
import BemOutline.Json.Printer
import BemOutline.Json.Reader
import BemOutline.Line.Basic
import BemOutline.Line.Label
import BemOutline.Line.Parser
import BemOutline.Main
import BemOutline.Outline
import BemOutline.OutlineError
import BemOutline.Proofs.Arena.Acyclic
import BemOutline.Proofs.Arena.Cloning
import BemOutline.Proofs.Arena.Copying
import BemOutline.Proofs.Arena.DocumentOrder
import BemOutline.Proofs.Arena.Height
import BemOutline.Proofs.Arena.Lookup
import BemOutline.Proofs.Arena.Places
import BemOutline.Proofs.Arena.RawValue
import BemOutline.Proofs.Arena.Readings
import BemOutline.Proofs.Arena.Unfolding
import BemOutline.Proofs.Bem.CleanedAgain
import BemOutline.Proofs.Bem.CleanedDocument
import BemOutline.Proofs.Bem.CleanedRaw
import BemOutline.Proofs.Bem.Cleaning
import BemOutline.Proofs.Bem.Decoded
import BemOutline.Proofs.Bem.Encoded
import BemOutline.Proofs.Bem.NormalForm
import BemOutline.Proofs.Bem.Scope
import BemOutline.Proofs.Bem.Stripped
import BemOutline.Proofs.Bem.Translated
import BemOutline.Proofs.Command.Convert
import BemOutline.Proofs.Conversion.ClassNames
import BemOutline.Proofs.Conversion.Detection
import BemOutline.Proofs.Conversion.FedBack
import BemOutline.Proofs.Conversion.Notices
import BemOutline.Proofs.Conversion.OutlineNode
import BemOutline.Proofs.Conversion.Stylesheet
import BemOutline.Proofs.Expansion.Growth
import BemOutline.Proofs.Expansion.Integrity
import BemOutline.Proofs.Expansion.Meaning
import BemOutline.Proofs.Expansion.Nested
import BemOutline.Proofs.Expansion.NodeLimit
import BemOutline.Proofs.Expansion.Refinement
import BemOutline.Proofs.Expansion.Resumption
import BemOutline.Proofs.Expansion.Runs
import BemOutline.Proofs.Expansion.Sound
import BemOutline.Proofs.Expansion.Step
import BemOutline.Proofs.Expansion.StepLimit
import BemOutline.Proofs.Expansion.Treelike
import BemOutline.Proofs.Expansion.Unfolding
import BemOutline.Proofs.Json.Brackets
import BemOutline.Proofs.Json.Fields
import BemOutline.Proofs.Json.Printed
import BemOutline.Proofs.Json.Scalars
import BemOutline.Proofs.Line.Canonical
import BemOutline.Proofs.Line.Dashes
import BemOutline.Proofs.Line.Grammar
import BemOutline.Proofs.Line.Parsed
import BemOutline.Proofs.Line.Written
import BemOutline.Proofs.Outline.Built
import BemOutline.Proofs.Outline.Limit
import BemOutline.Proofs.Outline.Nesting
import BemOutline.Proofs.Outline.Noise
import BemOutline.Proofs.Outline.Placement
import BemOutline.Proofs.Outline.Reference
import BemOutline.Proofs.Outline.Unambiguous
import BemOutline.Proofs.Outline.Written
import BemOutline.Proofs.Render.Classes
import BemOutline.Proofs.Render.Entities
import BemOutline.Proofs.Render.Escaping
import BemOutline.Proofs.Render.Gathering
import BemOutline.Proofs.Render.Marks
import BemOutline.Proofs.Render.Markup
import BemOutline.Proofs.Render.Nesting
import BemOutline.Proofs.Render.Repetition
import BemOutline.Proofs.Render.Selectors
import BemOutline.Proofs.Results
import BemOutline.Proofs.Settings.Fields
import BemOutline.Proofs.Settings.Resolution
import BemOutline.Proofs.Settings.Written
import BemOutline.Proofs.Text.Digits
import BemOutline.Proofs.Text.Pieces
import BemOutline.Proofs.Toml.Documents
import BemOutline.Proofs.Toml.Quotation
import BemOutline.Proofs.Toml.Scalars
import BemOutline.Proofs.Tree.Full
import BemOutline.Proofs.Tree.Levels
import BemOutline.Proofs.Tree.Reading
import BemOutline.Proofs.Tree.Steps
import BemOutline.Render.Html
import BemOutline.Render.Options
import BemOutline.Render.Style
import BemOutline.Settings.Basic
import BemOutline.Settings.Document
import BemOutline.Settings.Environment
import BemOutline.Settings.Layer
import BemOutline.Settings.Load
import BemOutline.Settings.Path
import BemOutline.Text.Blank
import BemOutline.Text.Digit
import BemOutline.Text.Quoted
import BemOutline.Text.Unprintable
import BemOutline.Toml.Basic
import BemOutline.Toml.Moment
import BemOutline.Toml.Number
import BemOutline.Toml.Quotation
import BemOutline.Toml.Reader
import BemOutline.Toml.Section
import BemOutline.Proofs.Arena.Addresses
import BemOutline.Proofs.Expansion.Drawing
import BemOutline.Proofs.Outline.Ancestry
import BemOutline.Proofs.Conversion.Registration
import BemOutline.Proofs.Expansion.Words
import BemOutline.Proofs.Expansion.Copies
import BemOutline.Proofs.Expansion.Search
