import ApiForge.Cli.Arguments
import ApiForge.Cli.Batch
import ApiForge.Cli.Command
import ApiForge.Cli.Execute
import ApiForge.Code.Basic
import ApiForge.Code.Builder
import ApiForge.Code.Printer
import ApiForge.Comparison
import ApiForge.Compilation
import ApiForge.CompileError
import ApiForge.Config
import ApiForge.Config.Load
import ApiForge.Decimal.Layout
import ApiForge.Decimal.Read
import ApiForge.Decimal.Shortest
import ApiForge.Description.Basic
import ApiForge.Description.Load
import ApiForge.Description.Shape
import ApiForge.Description.Structure
import ApiForge.Diagnostic
import ApiForge.Dispatch.Call
import ApiForge.Dispatch.Dispatcher
import ApiForge.Emission.Record
import ApiForge.Emission.Request
import ApiForge.Emission.Response
import ApiForge.Emission.TypeName
import ApiForge.Files.Path
import ApiForge.Files.Task
import ApiForge.Files.Workspace
import ApiForge.Http.Cookie
import ApiForge.Http.Envelope
import ApiForge.Http.Form
import ApiForge.Http.Request
import ApiForge.Http.Response
import ApiForge.Json.Basic
import ApiForge.Json.Parser
import ApiForge.Json.Printer
import ApiForge.LineDiff.Edit
import ApiForge.LineDiff.Line
import ApiForge.LineDiff.Unified
import ApiForge.Logging
import ApiForge.Main
import ApiForge.Naming.Allocator
import ApiForge.Naming.Identifier
import ApiForge.Operation.Basic
import ApiForge.Operation.Extract
import ApiForge.Operation.Resolve
import ApiForge.Pattern.CharSet
import ApiForge.Pattern.Parser
import ApiForge.Pattern.Regex
import ApiForge.Proofs.Cli.Names
import ApiForge.Proofs.Cli.Outputs
import ApiForge.Proofs.Code.Documentation
import ApiForge.Proofs.Code.History
import ApiForge.Proofs.Code.Imports
import ApiForge.Proofs.Code.Lines
import ApiForge.Proofs.Code.Literals
import ApiForge.Proofs.Code.Meaning
import ApiForge.Proofs.Code.Readable
import ApiForge.Proofs.Decimal.Binary64
import ApiForge.Proofs.Decimal.Rounding
import ApiForge.Proofs.Decimal.Whole
import ApiForge.Proofs.Description.Complete
import ApiForge.Proofs.Description.Loading
import ApiForge.Proofs.Description.Tidy
import ApiForge.Proofs.Dispatch.Decision
import ApiForge.Proofs.Dispatch.History
import ApiForge.Proofs.Dispatch.PathParameters
import ApiForge.Proofs.Dispatch.Presence
import ApiForge.Proofs.Dispatch.Relevance
import ApiForge.Proofs.Dispatch.Statuses
import ApiForge.Proofs.Emission.Capture
import ApiForge.Proofs.Emission.Closure
import ApiForge.Proofs.Emission.Completeness
import ApiForge.Proofs.Emission.Elements
import ApiForge.Proofs.Emission.Envelope
import ApiForge.Proofs.Emission.Identifiers
import ApiForge.Proofs.Emission.Integers
import ApiForge.Proofs.Emission.Literals
import ApiForge.Proofs.Emission.Nullability
import ApiForge.Proofs.Emission.PatternSites
import ApiForge.Proofs.Emission.Patterns
import ApiForge.Proofs.Emission.Presence
import ApiForge.Proofs.Emission.Sources
import ApiForge.Proofs.Emission.Spelled
import ApiForge.Proofs.Emission.Upheld
import ApiForge.Proofs.Emission.WireNames
import ApiForge.Proofs.Files.Path
import ApiForge.Proofs.Files.Workspace
import ApiForge.Proofs.Http.Cookie
import ApiForge.Proofs.Http.History
import ApiForge.Proofs.Naming.Fresh
import ApiForge.Proofs.Naming.History
import ApiForge.Proofs.Naming.Idempotent
import ApiForge.Proofs.Naming.Identifier
import ApiForge.Proofs.Naming.Legal
import ApiForge.Proofs.Naming.Snake
import ApiForge.Proofs.Naming.Words
import ApiForge.Proofs.Operation.Declared
import ApiForge.Proofs.Operation.Faults
import ApiForge.Proofs.Operation.Identity
import ApiForge.Proofs.Operation.Owners
import ApiForge.Proofs.Operation.PathParameters
import ApiForge.Proofs.Operation.Presence
import ApiForge.Proofs.Operation.Provenance
import ApiForge.Proofs.Operation.Responses
import ApiForge.Proofs.Operation.Synthesized
import ApiForge.Proofs.Route.Grammar
import ApiForge.Proofs.Route.Mismatch
import ApiForge.Proofs.Route.Reachable
import ApiForge.Proofs.Route.Table
import ApiForge.Proofs.Route.Template
import ApiForge.Proofs.Rule.Annotations
import ApiForge.Proofs.Rule.Places
import ApiForge.Proofs.Rule.Said
import ApiForge.Proofs.Rule.Timestamps
import ApiForge.Proofs.Rule.Violations
import ApiForge.Proofs.Run
import ApiForge.Proofs.Schema.Bare
import ApiForge.Proofs.Schema.Bounds
import ApiForge.Proofs.Schema.Coercion
import ApiForge.Proofs.Schema.Compiled
import ApiForge.Proofs.Schema.Composition
import ApiForge.Proofs.Schema.Declarations
import ApiForge.Proofs.Schema.Denotation
import ApiForge.Proofs.Schema.Faults
import ApiForge.Proofs.Schema.Forms
import ApiForge.Proofs.Schema.Legible
import ApiForge.Proofs.Schema.Merging
import ApiForge.Proofs.Schema.Nullable
import ApiForge.Proofs.Schema.Order
import ApiForge.Proofs.Schema.Outline
import ApiForge.Proofs.Schema.Overriding
import ApiForge.Proofs.Schema.Pointers
import ApiForge.Proofs.Schema.Presence
import ApiForge.Proofs.Schema.Provenance
import ApiForge.Proofs.Schema.Reading
import ApiForge.Proofs.Schema.Registry
import ApiForge.Proofs.Schema.Resolution
import ApiForge.Proofs.Schema.Session
import ApiForge.Proofs.Schema.Spelling
import ApiForge.Proofs.Schema.Standing
import ApiForge.Proofs.Schema.Stored
import ApiForge.Proofs.Schema.Termination
import ApiForge.Proofs.Schema.Trimming
import ApiForge.Proofs.Schema.TypeNames
import ApiForge.Proofs.Schema.Verdict
import ApiForge.Proofs.Schema.Within
import ApiForge.Proofs.Text.Ascii
import ApiForge.Proofs.Text.Blank
import ApiForge.Proofs.Text.Cutting
import ApiForge.Proofs.Text.Literal
import ApiForge.Proofs.Url.BasePath
import ApiForge.Route.Table
import ApiForge.Route.Template
import ApiForge.Rule.Annotate
import ApiForge.Rule.Basic
import ApiForge.Rule.Coerce
import ApiForge.Rule.Compile
import ApiForge.Rule.DateTime
import ApiForge.Rule.Evaluate
import ApiForge.Schema.Node
import ApiForge.Schema.Resolver
import ApiForge.Text.Ascii
import ApiForge.Text.Basic
import ApiForge.Text.Blank
import ApiForge.Text.Category
import ApiForge.Text.DecimalDigit
import ApiForge.Text.Folding
import ApiForge.Text.Literal
import ApiForge.Text.Percent
import ApiForge.Text.Property
import ApiForge.Text.Runs
import ApiForge.Text.Script
import ApiForge.Text.Utf8
import ApiForge.Toml.Basic
import ApiForge.Toml.Parser
import ApiForge.Url.Basic
import ApiForge.Url.Host
import ApiForge.Url.Path
import ApiForge.Yaml.Document
import ApiForge.Yaml.Node
import ApiForge.Yaml.Scalar
import ApiForge.Yaml.Token
import ApiForge.Proofs.Pattern.Matching
import ApiForge.Proofs.Files.Rounds
