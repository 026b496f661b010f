import ProseLens.AnnotatedText.Basic
import ProseLens.AnnotatedText.Consistency
import ProseLens.AnnotatedText.Mapping
import ProseLens.Event
import ProseLens.Extract.Advance
import ProseLens.Extract.Character
import ProseLens.Extract.Command
import ProseLens.Extract.Control
import ProseLens.Extract.Environment
import ProseLens.Extract.Flags
import ProseLens.Extract.Placeholder
import ProseLens.Extract.Run
import ProseLens.Extract.Stall
import ProseLens.Extract.State
import ProseLens.LineIndex
import ProseLens.Mode
import ProseLens.Options
import ProseLens.Placeholder
import ProseLens.Sentence
import ProseLens.Settings
import ProseLens.Signature.Argument
import ProseLens.Signature.Basic
import ProseLens.Signature.Builtin
import ProseLens.Signature.Match
import ProseLens.Signature.Prototype
import ProseLens.Signature.Registry
import ProseLens.Span
import ProseLens.Text.Bytes
import ProseLens.Text.CodePoint
import ProseLens.Text.Front
import ProseLens.Text.Quoted
import ProseLens.Token.Accent
import ProseLens.Token.Blank
import ProseLens.Token.Control
import ProseLens.Token.Dimension
import ProseLens.Proofs.AnnotatedText.WellFormed
import ProseLens.Proofs.AnnotatedText.Mapping
import ProseLens.Proofs.AnnotatedText.SourceRange
import ProseLens.Proofs.AnnotatedText.RoundTrip
import ProseLens.Proofs.Extract.Reachable
import ProseLens.Proofs.Extract.Tiling
import ProseLens.Proofs.Extract.Strictness
import ProseLens.Proofs.Extract.Fields
import ProseLens.Proofs.Extract.Act
import ProseLens.Proofs.Extract.Construct
import ProseLens.Proofs.Extract.Discipline
import ProseLens.Proofs.Extract.PlainText
import ProseLens.Proofs.Extract.Hidden
import ProseLens.Proofs.Extract.Dispatch
import ProseLens.Proofs.Text.Occurrence
import ProseLens.Proofs.Extract.OpaqueRegion
import ProseLens.Proofs.Extract.Passage
import ProseLens.Proofs.Extract.Balance
import ProseLens.Proofs.AnnotatedText.Calls
import ProseLens.Proofs.Extract.History
import ProseLens.Proofs.Extract.Numbering
import ProseLens.Proofs.Extract.Spacing
import ProseLens.Proofs.Extract.FormulaText
import ProseLens.Proofs.Extract.InlineFormula
import ProseLens.Proofs.Sentence.Shape
import ProseLens.Proofs.Signature.Argument
import ProseLens.Proofs.Extract.DisplayFormula
import ProseLens.Proofs.Extract.IgnoredEnvironment
import ProseLens.Proofs.Text.LineBreak
import ProseLens.Proofs.Token.LineBreak
import ProseLens.Proofs.Signature.LineBreak
import ProseLens.Proofs.Extract.Mirror
import ProseLens.Proofs.Extract.LineBreak
import ProseLens.Proofs.AnnotatedText.Widening
import ProseLens.Proofs.Signature.Grammar
import ProseLens.Proofs.Signature.Longest
import ProseLens.Proofs.Signature.Filing
import ProseLens.Proofs.Extract.Filing
import ProseLens.Proofs.AnnotatedText.Share
import ProseLens.Proofs.AnnotatedText.NormalForm
import ProseLens.Proofs.Extract.InlineFormulaText
import ProseLens.Proofs.Extract.Opening
import ProseLens.Proofs.Signature.Prototype
import ProseLens.Proofs.LineIndex.Position
import ProseLens.Proofs.Sentence.Template
import ProseLens.Proofs.Extract.OpeningKey
import ProseLens.Proofs.Text.Order
import ProseLens.Proofs.Settings.Registry
import ProseLens.Proofs.Extract.Trailing
import ProseLens.Proofs.Extract.Surroundings
import ProseLens.Proofs.Text.Octets
import ProseLens.Proofs.Token.Octets
import ProseLens.Proofs.Token.Grammar
import ProseLens.Proofs.Token.Extent
