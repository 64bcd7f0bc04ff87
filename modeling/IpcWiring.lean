import IpcWiring.Build.Change
import IpcWiring.Build.Plan
import IpcWiring.Build.Session
import IpcWiring.Command.Basic
import IpcWiring.Command.Options
import IpcWiring.Command.Run
import IpcWiring.Companions
import IpcWiring.Config.Basic
import IpcWiring.Config.File
import IpcWiring.Config.Template
import IpcWiring.Distinct
import IpcWiring.Emit.Artifact
import IpcWiring.Emit.Bridge
import IpcWiring.Emit.Events
import IpcWiring.Emit.Handlers
import IpcWiring.Emit.ImportBlock
import IpcWiring.Emit.Layout
import IpcWiring.Emit.Name
import IpcWiring.Emit.Options
import IpcWiring.Emit.Service
import IpcWiring.Extract.Api
import IpcWiring.Extract.Events
import IpcWiring.Extract.Skip
import IpcWiring.Files.FilterPattern
import IpcWiring.Files.IgnorePattern
import IpcWiring.Files.IgnoreRules
import IpcWiring.Files.Scanner
import IpcWiring.Files.Tree
import IpcWiring.Files.Writer
import IpcWiring.Main
import IpcWiring.NameMap
import IpcWiring.Path
import IpcWiring.Program.Basic
import IpcWiring.Program.Members
import IpcWiring.Program.Render
import IpcWiring.Program.Resolve
import IpcWiring.Program.Schemas
import IpcWiring.Program.Substitution
import IpcWiring.Project
import IpcWiring.Proofs.Blank
import IpcWiring.Proofs.Build.Calls
import IpcWiring.Proofs.Build.Commit
import IpcWiring.Proofs.Build.Confluence
import IpcWiring.Proofs.Build.Disk
import IpcWiring.Proofs.Build.Edits
import IpcWiring.Proofs.Build.Feedback
import IpcWiring.Proofs.Build.Fresh
import IpcWiring.Proofs.Build.Idempotence
import IpcWiring.Proofs.Build.Incremental
import IpcWiring.Proofs.Build.Invariant
import IpcWiring.Proofs.Build.Plan
import IpcWiring.Proofs.Build.Run
import IpcWiring.Proofs.Build.Serial
import IpcWiring.Proofs.Build.Written
import IpcWiring.Proofs.Distinct
import IpcWiring.Proofs.Emit.Code
import IpcWiring.Proofs.Emit.Hygiene
import IpcWiring.Proofs.Emit.Identifiers
import IpcWiring.Proofs.Emit.ImportBlock
import IpcWiring.Proofs.Emit.ImportLines
import IpcWiring.Proofs.Emit.Imports
import IpcWiring.Proofs.Emit.Keys
import IpcWiring.Proofs.Emit.Name
import IpcWiring.Proofs.Emit.Numbering
import IpcWiring.Proofs.Emit.Scopes
import IpcWiring.Proofs.Emit.Templates
import IpcWiring.Proofs.Emit.Wire
import IpcWiring.Proofs.Extract.Accounting
import IpcWiring.Proofs.Extract.Aliases
import IpcWiring.Proofs.Extract.Closed
import IpcWiring.Proofs.Extract.Flattening
import IpcWiring.Proofs.Extract.FreeNames
import IpcWiring.Proofs.Extract.Names
import IpcWiring.Proofs.Extract.Replacing
import IpcWiring.Proofs.Extract.Requests
import IpcWiring.Proofs.Files.Following
import IpcWiring.Proofs.Files.Progress
import IpcWiring.Proofs.Files.Scanning
import IpcWiring.Proofs.Files.Writing
import IpcWiring.Proofs.Path.Join
import IpcWiring.Proofs.Path.Location
import IpcWiring.Proofs.Path.NormalForm
import IpcWiring.Proofs.Path.Order
import IpcWiring.Proofs.Path.Resolved
import IpcWiring.Proofs.Program.Agreement
import IpcWiring.Proofs.Program.Bounds
import IpcWiring.Proofs.Program.Chains
import IpcWiring.Proofs.Program.Closure
import IpcWiring.Proofs.Program.Exports
import IpcWiring.Proofs.Program.Inlining
import IpcWiring.Proofs.Program.Instances
import IpcWiring.Proofs.Program.Loading
import IpcWiring.Proofs.Program.Locality
import IpcWiring.Proofs.Program.Ordering
import IpcWiring.Proofs.Program.RenamedMembers
import IpcWiring.Proofs.Program.Renaming
import IpcWiring.Proofs.Program.Rendering
import IpcWiring.Proofs.Program.Respelling
import IpcWiring.Proofs.Program.Runs
import IpcWiring.Proofs.Program.Targets
import IpcWiring.Proofs.Project
import IpcWiring.Proofs.Schema.Containers
import IpcWiring.Proofs.Schema.Grouping
import IpcWiring.Proofs.Schema.Modes
import IpcWiring.Proofs.Schema.Names
import IpcWiring.Proofs.Schema.Optionality
import IpcWiring.Proofs.Schema.Properties
import IpcWiring.Proofs.Schema.Reading
import IpcWiring.Proofs.Schema.Types
import IpcWiring.Proofs.Schema.Typing
import IpcWiring.Proofs.Script.Items
import IpcWiring.Proofs.Script.Keys
import IpcWiring.Proofs.Script.Layout
import IpcWiring.Proofs.Script.Literals
import IpcWiring.Proofs.Script.NormalText
import IpcWiring.Proofs.Script.Reaching
import IpcWiring.Proofs.Script.Readings
import IpcWiring.Proofs.Script.Recorded
import IpcWiring.Proofs.Script.RoundTrip
import IpcWiring.Proofs.Script.Running
import IpcWiring.Proofs.Script.Squeezing
import IpcWiring.Proofs.Script.Stretches
import IpcWiring.Proofs.Script.Strings
import IpcWiring.Proofs.Script.Tokens
import IpcWiring.Proofs.Script.Unions
import IpcWiring.Proofs.Script.Written
import IpcWiring.Proofs.SourceModule
import IpcWiring.Proofs.Specifier
import IpcWiring.Proofs.Specifier.Relative
import IpcWiring.Proofs.Text.LetterCase
import IpcWiring.Proofs.Text.Words
import IpcWiring.Proofs.TypeText.Alternatives
import IpcWiring.Proofs.TypeText.Closing
import IpcWiring.Proofs.TypeText.Exposed
import IpcWiring.Proofs.TypeText.Grouping
import IpcWiring.Proofs.TypeText.Pass
import IpcWiring.Proofs.TypeText.Phrase
import IpcWiring.Proofs.TypeText.Placement
import IpcWiring.Proofs.TypeText.Plain
import IpcWiring.Proofs.TypeText.Positions
import IpcWiring.Proofs.TypeText.Readers
import IpcWiring.Proofs.TypeText.Reading
import IpcWiring.Proofs.TypeText.RoundTrip
import IpcWiring.Proofs.TypeText.Segments
import IpcWiring.Proofs.TypeText.Substitution
import IpcWiring.Proofs.TypeText.Widening
import IpcWiring.Proofs.WorkingSet.Edits
import IpcWiring.Proofs.WorkingSet.Sorted
import IpcWiring.Report.Json
import IpcWiring.Report.WorkingSet
import IpcWiring.Schema.Basic
import IpcWiring.Schema.Shape
import IpcWiring.Script.Grammar.Elements
import IpcWiring.Script.Grammar.Expressions
import IpcWiring.Script.Grammar.Statements
import IpcWiring.Script.Grammar.Types
import IpcWiring.Script.NameChar
import IpcWiring.Script.Number
import IpcWiring.Script.Reader
import IpcWiring.Script.Source
import IpcWiring.Script.Syntax
import IpcWiring.Script.Token
import IpcWiring.Script.TypeExpr
import IpcWiring.Script.TypeText
import IpcWiring.SourceModule
import IpcWiring.Specifier
import IpcWiring.Text.Basic
import IpcWiring.Text.Braces
import IpcWiring.Text.CharRanges
import IpcWiring.Text.Grapheme
import IpcWiring.Text.Key
import IpcWiring.Text.LetterCase
import IpcWiring.Text.Letters
import IpcWiring.Text.Scan
import IpcWiring.Text.Words
import IpcWiring.Toml.Document
import IpcWiring.Toml.Draft
import IpcWiring.Toml.Number
import IpcWiring.Toml.Quoted
import IpcWiring.Toml.Value
import IpcWiring.TypeImport
import IpcWiring.WorkingSet.Basic
import IpcWiring.WorkingSet.Entry
import IpcWiring.WorkingSet.Record
