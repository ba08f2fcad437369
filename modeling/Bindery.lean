import Bindery.Analysis.Exportability
import Bindery.Analysis.Order
import Bindery.Analysis.Policy
import Bindery.Analysis.Unexposed
import Bindery.Binding.Basic
import Bindery.Binding.Class
import Bindery.Binding.Method
import Bindery.Binding.Module
import Bindery.Binding.Operator
import Bindery.Binding.Signature
import Bindery.Code.Decode
import Bindery.Code.Expression
import Bindery.Code.Node
import Bindery.Code.Registration
import Bindery.Code.Render
import Bindery.Code.Scope
import Bindery.Code.Tree
import Bindery.Code.WrapperMember
import Bindery.Command.Arguments
import Bindery.Command.Generate
import Bindery.Command.Report
import Bindery.Command.Run
import Bindery.Command.Shell
import Bindery.Decimal
import Bindery.Decl.Basic
import Bindery.Decl.Build
import Bindery.Decl.Codec
import Bindery.Decl.Config
import Bindery.Decl.Dependency
import Bindery.Decl.Graph
import Bindery.Decl.Hierarchy
import Bindery.Decl.Samples
import Bindery.Decl.Type
import Bindery.Decl.Validation
import Bindery.Diagnostic
import Bindery.Files.Access
import Bindery.Files.Directory
import Bindery.Files.Path
import Bindery.Generation.Basic
import Bindery.Generation.Candidates
import Bindery.Generation.Checks
import Bindery.Generation.Stages
import Bindery.Generation.Summary
import Bindery.Json.Basic
import Bindery.Json.Decode
import Bindery.Json.Lenient
import Bindery.Json.Reader
import Bindery.Json.Writer
import Bindery.Manifest.Basic
import Bindery.Manifest.Codec
import Bindery.Manifest.Error
import Bindery.Manifest.File
import Bindery.Manifest.Override
import Bindery.Manifest.Span
import Bindery.Manifest.Validation
import Bindery.NameMap
import Bindery.Options
import Bindery.SupportHeader
import Bindery.Text.Blank
import Bindery.Text.Difference
import Bindery.Text.Find
import Bindery.Text.Identifier
import Bindery.Text.Lines
import Bindery.Text.Template
import Bindery.Toml.Moment
import Bindery.Toml.Number
import Bindery.Toml.Reader
import Bindery.Toml.Scalar
import Bindery.Toml.Tables
import Bindery.Toml.Text
import Bindery.Transform.CallCode
import Bindery.Transform.State
import Bindery.Transform.Transformer
import Bindery.Main
import Bindery.Proofs.Computation
import Bindery.Proofs.Transform.Edits
import Bindery.Proofs.Transform.Places
import Bindery.Proofs.Transform.OverrideOrder
import Bindery.Proofs.NameMap
import Bindery.Proofs.ParentChain
import Bindery.Proofs.ListOrder
import Bindery.Proofs.Decl.Scopes
import Bindery.Proofs.Analysis.DepthFirst
import Bindery.Proofs.Analysis.ClassOrder
import Bindery.Proofs.Code.Shape
import Bindery.Proofs.Code.Linking
import Bindery.Proofs.Code.FreshText
import Bindery.Proofs.Code.Coherence
import Bindery.Proofs.Code.Editing
import Bindery.Proofs.Binding.Moves
import Bindery.Proofs.Binding.Parts
import Bindery.Proofs.Binding.Members
import Bindery.Proofs.Binding.ClassTree
import Bindery.Proofs.Binding.ModuleTree
import Bindery.Proofs.Code.PreOrder
import Bindery.Proofs.Decl.Reached
import Bindery.Proofs.Analysis.Siblings
import Bindery.Proofs.Generation.Run
import Bindery.Proofs.Generation.TextOrder
import Bindery.Proofs.Decl.Overriding
import Bindery.Proofs.Binding.Inherited
import Bindery.Proofs.Text.Mangler
import Bindery.Proofs.Binding.Steps
import Bindery.Proofs.Binding.Methods
import Bindery.Proofs.Binding.Runs
import Bindery.Proofs.Binding.StandIns
import Bindery.Proofs.Binding.Overriding
import Bindery.Proofs.Binding.Addresses
import Bindery.Proofs.Generation.Aliases
import Bindery.Proofs.Walks
import Bindery.Proofs.Decl.Trees
import Bindery.Proofs.Code.Changes
import Bindery.Proofs.Json.Nesting
import Bindery.Proofs.Json.Scalars
import Bindery.Proofs.Json.ReadBack
import Bindery.Proofs.Json.Recoding
import Bindery.Proofs.Decl.TypeCodec
import Bindery.Proofs.Decl.Codec
import Bindery.Proofs.Decl.Closed
import Bindery.Proofs.Analysis.Answers
import Bindery.Proofs.Binding.Room
import Bindery.Proofs.Binding.Safety
import Bindery.Proofs.Binding.SafeMembers
import Bindery.Proofs.Binding.SafeModule
import Bindery.Proofs.Transform.Ranges
import Bindery.Proofs.Generation.Failures
import Bindery.Proofs.Binding.Ledger
import Bindery.Proofs.Binding.Entries
import Bindery.Proofs.Binding.Exported
import Bindery.Proofs.Binding.Answered
import Bindery.Proofs.Binding.Recorded
import Bindery.Proofs.Generation.Wrapping
import Bindery.Proofs.Generation.Silence
import Bindery.Proofs.Transform.Temporaries
import Bindery.Proofs.Transform.Results
import Bindery.Proofs.Transform.ExposedNames
import Bindery.Proofs.Transform.OverrideNames
import Bindery.Proofs.Text.ContentLines
import Bindery.Proofs.Code.ShownText
import Bindery.Proofs.Code.Frames
import Bindery.Proofs.Code.WrapperFunctions
import Bindery.Proofs.Binding.References
import Bindery.Proofs.Binding.Backing
import Bindery.Proofs.Binding.Layout
import Bindery.Proofs.Binding.Exposers
import Bindery.Proofs.Analysis.Unexposed
import Bindery.Proofs.Decl.Bases
import Bindery.Proofs.Decl.Building
import Bindery.Proofs.Decl.PureVirtuals
import Bindery.Proofs.Transform.Acceptance
import Bindery.Proofs.Transform.Defaults
import Bindery.Proofs.Decl.Distances
import Bindery.Proofs.Decl.Qualifiers
import Bindery.Proofs.Decl.Copyability
import Bindery.Proofs.Analysis.Policies
import Bindery.Proofs.Code.FailedMoves
import Bindery.Proofs.Code.AliasNames
import Bindery.Proofs.Text.Tidiness
import Bindery.Proofs.Text.Pieces
import Bindery.Proofs.Analysis.ClassSets
import Bindery.Proofs.Decl.Requirements
import Bindery.Proofs.Binding.Construction
import Bindery.Proofs.Binding.Completion
import Bindery.Proofs.Generation.ConstructorOrder
import Bindery.Proofs.Generation.HeldTypes
import Bindery.Proofs.Manifest.Overrides
import Bindery.Proofs.Text.Places
import Bindery.Proofs.Manifest.OptionPlaces
import Bindery.Proofs.Manifest.KeyPlaces
import Bindery.Proofs.Text.Identifiers
import Bindery.Proofs.Transform.IndexMap
import Bindery.Proofs.Code.Literals
import Bindery.Proofs.Binding.StaticRoles
import Bindery.Proofs.Binding.StaticMethods
import Bindery.Proofs.Code.ChildLists
import Bindery.Proofs.Binding.ParameterNames
