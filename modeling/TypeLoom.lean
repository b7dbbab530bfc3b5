import TypeLoom.Collected.Collection
import TypeLoom.Collected.Context
import TypeLoom.Collected.Validation
import TypeLoom.CommandLine
import TypeLoom.Configuration
import TypeLoom.Decimal.Binary64
import TypeLoom.Decimal.Signed64
import TypeLoom.Declaration.Basic
import TypeLoom.Declaration.Dependencies
import TypeLoom.Declaration.Text
import TypeLoom.Files.Access
import TypeLoom.Files.OsError
import TypeLoom.Files.Tree
import TypeLoom.Generation.Emission
import TypeLoom.Generation.Naming
import TypeLoom.Generation.OutputPaths
import TypeLoom.Generation.Settings
import TypeLoom.Generation.TypeMapping
import TypeLoom.Grouping
import TypeLoom.Location
import TypeLoom.Main
import TypeLoom.Path
import TypeLoom.Pipeline.Failure
import TypeLoom.Pipeline.Plugin
import TypeLoom.Pipeline.Run
import TypeLoom.Plugins.Declarations
import TypeLoom.Plugins.Output
import TypeLoom.Plugins.Registry
import TypeLoom.Plugins.RequestContext
import TypeLoom.Plugins.Resolvers
import TypeLoom.Plugins.SchemaSource
import TypeLoom.Proofs.Collection.Declared
import TypeLoom.Proofs.Collection.Duplicates
import TypeLoom.Proofs.Collection.Findings
import TypeLoom.Proofs.Collection.Operations
import TypeLoom.Proofs.Collection.Partition
import TypeLoom.Proofs.Collection.Reordering
import TypeLoom.Proofs.Collection.Settings
import TypeLoom.Proofs.Collection.Valid
import TypeLoom.Proofs.Declaration.DocComment
import TypeLoom.Proofs.Declaration.Ordered
import TypeLoom.Proofs.Declaration.Outcome
import TypeLoom.Proofs.Declaration.ReadBack
import TypeLoom.Proofs.Declaration.Reading
import TypeLoom.Proofs.Declaration.References
import TypeLoom.Proofs.Declaration.Tokens
import TypeLoom.Proofs.Edit.Replacement
import TypeLoom.Proofs.Edit.Substitution
import TypeLoom.Proofs.Emission.Agreement
import TypeLoom.Proofs.Emission.Distinct
import TypeLoom.Proofs.Emission.Identifiers
import TypeLoom.Proofs.Emission.Imports
import TypeLoom.Proofs.Emission.Layout
import TypeLoom.Proofs.Emission.Mapped
import TypeLoom.Proofs.Emission.Members
import TypeLoom.Proofs.Emission.Order
import TypeLoom.Proofs.Emission.Reordering
import TypeLoom.Proofs.Emission.Snapshot
import TypeLoom.Proofs.Emission.Translation
import TypeLoom.Proofs.Emission.Unrelated
import TypeLoom.Proofs.Emission.Unresolved
import TypeLoom.Proofs.Files.Furnished
import TypeLoom.Proofs.Files.Laid
import TypeLoom.Proofs.Files.Later
import TypeLoom.Proofs.Files.Lineage
import TypeLoom.Proofs.Files.Target
import TypeLoom.Proofs.Files.Tidy
import TypeLoom.Proofs.Files.Trail
import TypeLoom.Proofs.Grouping
import TypeLoom.Proofs.Merge.AtOnce
import TypeLoom.Proofs.Merge.Drafts
import TypeLoom.Proofs.Merge.Frame
import TypeLoom.Proofs.Merge.Fresh
import TypeLoom.Proofs.Merge.Importing
import TypeLoom.Proofs.Merge.Precedence
import TypeLoom.Proofs.Merge.Rebuilding
import TypeLoom.Proofs.Merge.Recognition
import TypeLoom.Proofs.Merge.UpToDate
import TypeLoom.Proofs.Path.Joined
import TypeLoom.Proofs.Path.Lexical
import TypeLoom.Proofs.Path.Modules
import TypeLoom.Proofs.Path.Order
import TypeLoom.Proofs.Path.Parent
import TypeLoom.Proofs.Path.Relative
import TypeLoom.Proofs.Pipeline.Account
import TypeLoom.Proofs.Pipeline.Alike
import TypeLoom.Proofs.Pipeline.Execution
import TypeLoom.Proofs.Pipeline.Gates
import TypeLoom.Proofs.Pipeline.Growth
import TypeLoom.Proofs.Pipeline.Journal
import TypeLoom.Proofs.Pipeline.Schedule
import TypeLoom.Proofs.Plugins.Agreement
import TypeLoom.Proofs.Plugins.BuiltIn
import TypeLoom.Proofs.Plugins.Configuration
import TypeLoom.Proofs.Plugins.Congruence
import TypeLoom.Proofs.Plugins.DeclarationFiles
import TypeLoom.Proofs.Plugins.Discovery
import TypeLoom.Proofs.Plugins.DryRun
import TypeLoom.Proofs.Plugins.Independence
import TypeLoom.Proofs.Plugins.Regeneration
import TypeLoom.Proofs.Plugins.Repetition
import TypeLoom.Proofs.Plugins.RequestContext
import TypeLoom.Proofs.Plugins.Rewriting
import TypeLoom.Proofs.Plugins.Shuffled
import TypeLoom.Proofs.Plugins.Soundness
import TypeLoom.Proofs.Plugins.Standing
import TypeLoom.Proofs.Plugins.Steps
import TypeLoom.Proofs.Plugins.TableOrder
import TypeLoom.Proofs.Plugins.Tables
import TypeLoom.Proofs.Plugins.Updates
import TypeLoom.Proofs.Reading.Attachment
import TypeLoom.Proofs.Reading.Placement
import TypeLoom.Proofs.Reading.Sketches
import TypeLoom.Proofs.Reading.Trees
import TypeLoom.Proofs.Schema.Building
import TypeLoom.Proofs.Schema.Comparison
import TypeLoom.Proofs.Schema.Consumption
import TypeLoom.Proofs.Schema.Directives
import TypeLoom.Proofs.Schema.Folded
import TypeLoom.Proofs.Schema.Folding
import TypeLoom.Proofs.Schema.Loaded
import TypeLoom.Proofs.Schema.Names
import TypeLoom.Proofs.Schema.Positions
import TypeLoom.Proofs.Schema.Reordering
import TypeLoom.Proofs.Schema.SourceFiles
import TypeLoom.Proofs.Sorting
import TypeLoom.Proofs.Span
import TypeLoom.Proofs.Text.RoundTrip
import TypeLoom.Proofs.Token.Scanning
import TypeLoom.Proofs.Token.Spelling
import TypeLoom.Proofs.Updates.Below
import TypeLoom.Proofs.Updates.Groups
import TypeLoom.Proofs.World
import TypeLoom.ResolverModule.Edit
import TypeLoom.ResolverModule.Merge
import TypeLoom.ResolverModule.Node
import TypeLoom.ResolverModule.Plan
import TypeLoom.ResolverModule.Reading
import TypeLoom.ResolverModule.Update
import TypeLoom.Schema.Definition
import TypeLoom.Schema.Document
import TypeLoom.Schema.Folding
import TypeLoom.Schema.Problem
import TypeLoom.Schema.Quoted
import TypeLoom.Schema.Reading
import TypeLoom.Schema.Sdl
import TypeLoom.Schema.Token
import TypeLoom.Text.Blank
import TypeLoom.Text.Case
import TypeLoom.Text.Escaped
import TypeLoom.Text.Utf8
import TypeLoom.Toml.Document
import TypeLoom.Toml.Reading
import TypeLoom.Toml.Record
import TypeLoom.Toml.Scalar
import TypeLoom.Toml.Value
import TypeLoom.TypeScript.Grammar
import TypeLoom.TypeScript.Pattern
import TypeLoom.TypeScript.Syntax
import TypeLoom.TypeScript.Token
import TypeLoom.TypeScript.Tree
