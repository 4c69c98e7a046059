import StableProps.Command.Arguments
import StableProps.Command.Collect
import StableProps.Command.Console
import StableProps.Command.Run
import StableProps.Command.Session
import StableProps.Command.Watch
import StableProps.Diff.Blocks
import StableProps.Diff.Unified
import StableProps.Distinct
import StableProps.Failure
import StableProps.File.Path
import StableProps.File.Tree
import StableProps.Import.Entry
import StableProps.Import.Plan
import StableProps.Import.Planner
import StableProps.Import.Specifier
import StableProps.Json.Decimal
import StableProps.Json.Read
import StableProps.Json.Value
import StableProps.Json.Write
import StableProps.Lift.Analysis
import StableProps.Lift.Dependencies
import StableProps.Lift.Finding
import StableProps.Lift.Fix
import StableProps.Lift.Report
import StableProps.Main
import StableProps.Module.Config
import StableProps.Module.Index
import StableProps.Module.Project
import StableProps.Module.Resolver
import StableProps.Module.Store
import StableProps.Options.Basic
import StableProps.Options.Read
import StableProps.Patch.Anchor
import StableProps.Patch.Assemble
import StableProps.Patch.Declaration
import StableProps.Patch.Edit
import StableProps.Patch.Part
import StableProps.Pattern.Basic
import StableProps.Pattern.Read
import StableProps.Proofs.Command.SharedProject
import StableProps.Proofs.File.Walk
import StableProps.Proofs.File.Written
import StableProps.Proofs.Import.Additions
import StableProps.Proofs.Import.Entry
import StableProps.Proofs.Import.Grammar
import StableProps.Proofs.Import.LeadBack
import StableProps.Proofs.Import.Merge
import StableProps.Proofs.Import.Plan
import StableProps.Proofs.Import.Satisfied
import StableProps.Proofs.Import.Typings
import StableProps.Proofs.Lift.CachedFix
import StableProps.Proofs.Lift.Choice
import StableProps.Proofs.Lift.FixLoop
import StableProps.Proofs.Lift.Hoisting
import StableProps.Proofs.Lift.Hygiene
import StableProps.Proofs.Lift.Named
import StableProps.Proofs.Lift.NewImports
import StableProps.Proofs.Lift.NewNames
import StableProps.Proofs.Lift.Receiver
import StableProps.Proofs.Lift.Shared
import StableProps.Proofs.Lift.Stable
import StableProps.Proofs.Lift.Untyped
import StableProps.Proofs.Lift.Uses
import StableProps.Proofs.Module.Alias
import StableProps.Proofs.Module.Asked
import StableProps.Proofs.Module.Cycles
import StableProps.Proofs.Module.DeclaredTypes
import StableProps.Proofs.Module.Export
import StableProps.Proofs.Module.Files
import StableProps.Proofs.Module.Inherited
import StableProps.Proofs.Module.Relative
import StableProps.Proofs.Module.Star
import StableProps.Proofs.Module.TypeNames
import StableProps.Proofs.Outcome
import StableProps.Proofs.Patch.Between
import StableProps.Proofs.Patch.HookReach
import StableProps.Proofs.Patch.HookScope
import StableProps.Proofs.Patch.Imports
import StableProps.Proofs.Patch.NormalForm
import StableProps.Proofs.Patch.Overlap
import StableProps.Proofs.Patch.Reorder
import StableProps.Proofs.Patch.Splice
import StableProps.Proofs.Props.Annotation
import StableProps.Proofs.Props.Callable
import StableProps.Proofs.Props.Callback
import StableProps.Proofs.Props.Collapse
import StableProps.Proofs.Props.Origin
import StableProps.Proofs.Props.UnionMember
import StableProps.Proofs.Scope.Chain
import StableProps.Proofs.Scope.Declared
import StableProps.Proofs.Scope.Enclosing
import StableProps.Proofs.Scope.Function
import StableProps.Proofs.Scope.Hoisted
import StableProps.Proofs.Scope.OwnScope
import StableProps.Proofs.Scope.Pattern
import StableProps.Proofs.Scope.Recorded
import StableProps.Proofs.Site.Identifier
import StableProps.Proofs.Site.Place
import StableProps.Proofs.Syntax.Place
import StableProps.Proofs.Syntax.Range
import StableProps.Proofs.Syntax.Reading
import StableProps.Proofs.Text.Lines
import StableProps.Proofs.Text.MovedLines
import StableProps.Proofs.Text.Reindent
import StableProps.Proofs.Text.Utf8
import StableProps.Proofs.Types.Built
import StableProps.Proofs.Types.Collected
import StableProps.Proofs.Types.Derived
import StableProps.Proofs.Types.Flat
import StableProps.Proofs.Types.Grammar
import StableProps.Proofs.Types.Mentioned
import StableProps.Proofs.Types.Names
import StableProps.Proofs.Types.Outline
import StableProps.Proofs.Types.Parameters
import StableProps.Proofs.Types.Printed
import StableProps.Proofs.Types.ReadBack
import StableProps.Proofs.Types.Rendered
import StableProps.Proofs.Types.Union
import StableProps.Proofs.Types.Within
import StableProps.Props.Binding
import StableProps.Props.Callable
import StableProps.Props.Component
import StableProps.Props.Declared
import StableProps.Props.Intrinsic
import StableProps.Props.Member
import StableProps.Scope.Binding
import StableProps.Scope.Event
import StableProps.Scope.Symbol
import StableProps.Scope.Tree
import StableProps.Site.Basic
import StableProps.Site.Category
import StableProps.Site.Name
import StableProps.Source
import StableProps.Syntax.Focus
import StableProps.Syntax.Kind
import StableProps.Syntax.Language
import StableProps.Syntax.Node
import StableProps.Syntax.Parse
import StableProps.Syntax.Reader.Expressions
import StableProps.Syntax.Reader.Finish
import StableProps.Syntax.Reader.Grammar
import StableProps.Syntax.Reader.Input
import StableProps.Syntax.Reader.Literal
import StableProps.Syntax.Reader.Markup
import StableProps.Syntax.Reader.Patterns
import StableProps.Syntax.Reader.Statements
import StableProps.Syntax.Reader.Types
import StableProps.Text.Blank
import StableProps.Text.Bytes
import StableProps.Text.Case
import StableProps.Text.Lines
import StableProps.Text.Reindent
import StableProps.Text.Word
import StableProps.Types.Build
import StableProps.Types.Expr
