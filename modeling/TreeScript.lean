import TreeScript.Decimal
import TreeScript.Decimal.Binary64
import TreeScript.Decimal.Shortest
import TreeScript.Decimal.Numeral
import TreeScript.Text.Printable
import TreeScript.Text.Quoted
import TreeScript.Text.Units
import TreeScript.Text.Base64
import TreeScript.Number
import TreeScript.Token
import TreeScript.Tree
import TreeScript.Value
import TreeScript.RuntimeError
import TreeScript.Scope
import TreeScript.Scope.Chain
import TreeScript.Scope.Forest
import TreeScript.Interpreter
import TreeScript.Eval
import TreeScript.Yaml.Character
import TreeScript.Yaml.SyntaxError
import TreeScript.Yaml.Cursor
import TreeScript.Yaml.Token
import TreeScript.Yaml.Comment
import TreeScript.Yaml.Token.Queue
import TreeScript.Yaml.Token.Scanner
import TreeScript.Yaml.Token.Gap
import TreeScript.Yaml.Token.Folding
import TreeScript.Yaml.Token.PlainScalar
import TreeScript.Yaml.Token.QuotedScalar
import TreeScript.Yaml.Token.BlockScalar
import TreeScript.Yaml.Token.Property
import TreeScript.Yaml.Token.Directive
import TreeScript.Yaml.Token.Stream
import TreeScript.Yaml.Event
import TreeScript.Yaml.Timestamp
import TreeScript.Yaml.Scalar
import TreeScript.Yaml.Node
import TreeScript.Files
import TreeScript.Files.Path
import TreeScript.Files.Tree
import TreeScript.Program.DecodeError
import TreeScript.Program.Layer
import TreeScript.Program.Decode
import TreeScript.Program.Load
import TreeScript.Settings
import TreeScript.Settings.SettingsError
import TreeScript.Settings.Reading
import TreeScript.Settings.Document
import TreeScript.Settings.Load
import TreeScript.Pipeline
import TreeScript.CommandLine.Options
import TreeScript.CommandLine.Notice
import TreeScript.CommandLine.Run
import TreeScript.Main
import TreeScript.Proofs.Forest
import TreeScript.Proofs.Run
import TreeScript.Proofs.Account
import TreeScript.Proofs.Restoration
import TreeScript.Proofs.Placement
import TreeScript.Proofs.WellFormed
import TreeScript.Proofs.Endings
import TreeScript.Proofs.Soundness
import TreeScript.Proofs.Nesting
import TreeScript.Proofs.BigStep
import TreeScript.Proofs.Adequacy
import TreeScript.Proofs.Lockstep
import TreeScript.Proofs.Trace
import TreeScript.Proofs.Cancellation
import TreeScript.Proofs.Frame
import TreeScript.Proofs.Resolution
import TreeScript.Proofs.Format
import TreeScript.Proofs.Layers
import TreeScript.Proofs.Acceptance
import TreeScript.Proofs.Driver
import TreeScript.Proofs.Lookup
import TreeScript.Proofs.Aliases
import TreeScript.Proofs.Binary64
import TreeScript.Proofs.Spelling
import TreeScript.Proofs.Canonical
import TreeScript.Proofs.RoundTrip
import TreeScript.Proofs.Footprint
import TreeScript.Proofs.Renaming
import TreeScript.Proofs.Commutation
import TreeScript.Proofs.Stages
import TreeScript.Proofs.ExitCode
import TreeScript.Proofs.Blame
import TreeScript.Proofs.Grouping
import TreeScript.Proofs.Record
import TreeScript.Proofs.Rounding
import TreeScript.Proofs.Shortest
import TreeScript.Proofs.Display
import TreeScript.Proofs.Transparency
import TreeScript.Proofs.Places
import TreeScript.Proofs.Locality
import TreeScript.Proofs.Reordering
import TreeScript.Proofs.FieldOrder
import TreeScript.Proofs.WholePart
import TreeScript.Proofs.ExplicitLine
import TreeScript.Proofs.Relining
import TreeScript.Proofs.Loading
import TreeScript.Proofs.Pieces
import TreeScript.Proofs.Paths
import TreeScript.Proofs.Nearest
import TreeScript.Proofs.Diagnostics
import TreeScript.Proofs.Equality
import TreeScript.Proofs.Negation
import TreeScript.Proofs.History
import TreeScript.Proofs.Guard
import TreeScript.Proofs.Shape
import TreeScript.Proofs.Addition
import TreeScript.Proofs.Units
import TreeScript.Proofs.ByteOrder
import TreeScript.Proofs.Encoding
import TreeScript.Proofs.Environments
