import AzurePipelines.CommandLine.Accessors
import AzurePipelines.CommandLine.Arguments
import AzurePipelines.Config
import AzurePipelines.Config.File
import AzurePipelines.Config.Reading
import AzurePipelines.Decimal.Binary64
import AzurePipelines.Decimal.Literal
import AzurePipelines.Decimal.Positional
import AzurePipelines.Decimal.Shortest
import AzurePipelines.Expression
import AzurePipelines.FileSystem.Access
import AzurePipelines.FileSystem.Basic
import AzurePipelines.FileSystem.Path
import AzurePipelines.Main
import AzurePipelines.OrderedMap
import AzurePipelines.Pipeline.Branching
import AzurePipelines.Pipeline.Document
import AzurePipelines.Pipeline.Fault
import AzurePipelines.Pipeline.Item
import AzurePipelines.Pipeline.Job
import AzurePipelines.Pipeline.Sections
import AzurePipelines.Pipeline.Step
import AzurePipelines.Pipeline.Trigger
import AzurePipelines.Proofs.Expression.UniqueReading
import AzurePipelines.Proofs.OrderedMap.Histories
import AzurePipelines.Proofs.Pipeline.BlockBuilders
import AzurePipelines.Proofs.Pipeline.BranchChains
import AzurePipelines.Proofs.Pipeline.Canonical
import AzurePipelines.Proofs.Pipeline.Completeness
import AzurePipelines.Proofs.Pipeline.DistinctKeys
import AzurePipelines.Proofs.Pipeline.Fields
import AzurePipelines.Proofs.Pipeline.FirstFault
import AzurePipelines.Proofs.Pipeline.Grouping
import AzurePipelines.Proofs.Pipeline.ImplicitKeys
import AzurePipelines.Proofs.Pipeline.KeyOrder
import AzurePipelines.Proofs.Pipeline.Lists
import AzurePipelines.Proofs.Pipeline.Mappings
import AzurePipelines.Proofs.Pipeline.Orders
import AzurePipelines.Proofs.Pipeline.PathText
import AzurePipelines.Proofs.Pipeline.Places
import AzurePipelines.Proofs.Pipeline.Records
import AzurePipelines.Proofs.Pipeline.Recovery
import AzurePipelines.Proofs.Pipeline.Splicing
import AzurePipelines.Proofs.Pipeline.Tree
import AzurePipelines.Proofs.Pipeline.Validation
import AzurePipelines.Proofs.Pipeline.Visits
import AzurePipelines.Proofs.Publishing.Atomicity
import AzurePipelines.Proofs.Publishing.Batches
import AzurePipelines.Proofs.Publishing.Staleness
import AzurePipelines.Proofs.Schema.BodyPaths
import AzurePipelines.Proofs.Schema.Calls
import AzurePipelines.Proofs.Schema.Code
import AzurePipelines.Proofs.Schema.CodeLines
import AzurePipelines.Proofs.Schema.Collisions
import AzurePipelines.Proofs.Schema.Composition
import AzurePipelines.Proofs.Schema.Consistency
import AzurePipelines.Proofs.Schema.Identifiers
import AzurePipelines.Proofs.Schema.Positions
import AzurePipelines.Proofs.Schema.RecordWays
import AzurePipelines.Proofs.Schema.ReferencePaths
import AzurePipelines.Proofs.Schema.References
import AzurePipelines.Proofs.Schema.Scope
import AzurePipelines.Proofs.Schema.SourceText
import AzurePipelines.Proofs.Schema.Walks
import AzurePipelines.Proofs.Schema.Words
import AzurePipelines.Proofs.Yaml.BareText
import AzurePipelines.Proofs.Yaml.BlankLines
import AzurePipelines.Proofs.Yaml.BlockScalars
import AzurePipelines.Proofs.Yaml.Blocks
import AzurePipelines.Proofs.Yaml.Characters
import AzurePipelines.Proofs.Yaml.Descriptions
import AzurePipelines.Proofs.Yaml.FlowScalars
import AzurePipelines.Proofs.Yaml.Header
import AzurePipelines.Proofs.Yaml.ImplicitTypes
import AzurePipelines.Proofs.Yaml.Indentation
import AzurePipelines.Proofs.Yaml.InlineText
import AzurePipelines.Proofs.Yaml.KeyTexts
import AzurePipelines.Proofs.Yaml.Keys
import AzurePipelines.Proofs.Yaml.LayoutMarks
import AzurePipelines.Proofs.Yaml.LiteralText
import AzurePipelines.Proofs.Yaml.NodeMarks
import AzurePipelines.Proofs.Yaml.Numerals
import AzurePipelines.Proofs.Yaml.Resolution
import AzurePipelines.Proofs.Yaml.RoundTrip
import AzurePipelines.Proofs.Yaml.SectionBreaks
import AzurePipelines.Proofs.Yaml.Timestamps
import AzurePipelines.Proofs.Yaml.UnsupportedKeys
import AzurePipelines.Publishing.Basic
import AzurePipelines.Publishing.Files
import AzurePipelines.Publishing.Memory
import AzurePipelines.Reference
import AzurePipelines.Scalar
import AzurePipelines.Schema.Accessors
import AzurePipelines.Schema.Basic
import AzurePipelines.Schema.Names
import AzurePipelines.Schema.Reading
import AzurePipelines.Schema.Source
import AzurePipelines.Serialization
import AzurePipelines.Text.Blank
import AzurePipelines.Text.Pieces
import AzurePipelines.Text.Quoted
import AzurePipelines.Text.Visible
import AzurePipelines.Value
import AzurePipelines.Yaml.Content
import AzurePipelines.Yaml.Cursor
import AzurePipelines.Yaml.Datum
import AzurePipelines.Yaml.Folding
import AzurePipelines.Yaml.Layout
import AzurePipelines.Yaml.Lines
import AzurePipelines.Yaml.Node
import AzurePipelines.Yaml.Plain
import AzurePipelines.Yaml.Reader
import AzurePipelines.Yaml.Style
