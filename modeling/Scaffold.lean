import Scaffold.AppView
import Scaffold.Assembly
import Scaffold.BuildConfig
import Scaffold.Command.Context
import Scaffold.Command.Execute
import Scaffold.Command.Grammar
import Scaffold.Command.Help
import Scaffold.Command.Invocation
import Scaffold.Composition
import Scaffold.Decimal.Binary64
import Scaffold.Decimal.Layout
import Scaffold.Decimal.Shortest
import Scaffold.Description
import Scaffold.Disk
import Scaffold.EditorFiles
import Scaffold.Effects
import Scaffold.Effects.Ledger
import Scaffold.Entries
import Scaffold.Entry
import Scaffold.Failure
import Scaffold.Feature
import Scaffold.Feature.Builtin
import Scaffold.Feature.CommitChecks
import Scaffold.Feature.Linting
import Scaffold.Feature.Routing
import Scaffold.Feature.Storage
import Scaffold.Feature.Styling
import Scaffold.Feature.UtilityClasses
import Scaffold.Fields
import Scaffold.Json.Basic
import Scaffold.Json.Comments
import Scaffold.Json.Parser
import Scaffold.Json.Token
import Scaffold.Json.Writer
import Scaffold.Log
import Scaffold.Main
import Scaffold.Manifest
import Scaffold.Manifest.File
import Scaffold.Manifest.Update
import Scaffold.Name.Package
import Scaffold.Name.Slug
import Scaffold.Options
import Scaffold.Options.Reading
import Scaffold.Path
import Scaffold.Run
import Scaffold.Template.Placeholder
import Scaffold.Template.Render
import Scaffold.Template.Shipped
import Scaffold.Template.Source
import Scaffold.Text.AsciiFold
import Scaffold.Text.Blank
import Scaffold.Text.Lines
import Scaffold.Text.Printable
import Scaffold.Text.Quoted
import Scaffold.Text.Ranges
import Scaffold.Text.Search
import Scaffold.Text.Utf8
import Scaffold.Text.Wide
import Scaffold.Text.Word
import Scaffold.Tree
import Scaffold.Proofs.Outcomes
import Scaffold.Proofs.Lists
import Scaffold.Proofs.Run.Calculus
import Scaffold.Proofs.Disk.Frame
import Scaffold.Proofs.Template.Emission
import Scaffold.Proofs.Assembly.Rerun
import Scaffold.Proofs.AppView.Route
import Scaffold.Proofs.Assembly.Retry
import Scaffold.Proofs.Manifest.Stepwise
import Scaffold.Proofs.Assembly.Order
import Scaffold.Proofs.Template.Grammar
import Scaffold.Proofs.Template.Lines
import Scaffold.Proofs.Template.Names
import Scaffold.Proofs.Effects.Collisions
import Scaffold.Proofs.Template.Patterns
import Scaffold.Proofs.Composition.Prefix
import Scaffold.Proofs.Effects.Rearranged
import Scaffold.Proofs.Composition.Reordered
import Scaffold.Proofs.Tree.Ways
import Scaffold.Proofs.Disk.Below
import Scaffold.Proofs.Disk.Confined
import Scaffold.Proofs.Assembly.Files
import Scaffold.Proofs.Disk.Lockstep
import Scaffold.Proofs.Composition.Independence
import Scaffold.Proofs.Disk.Values
import Scaffold.Proofs.Json.Spelling
import Scaffold.Proofs.Json.Commented
import Scaffold.Proofs.Entry.Statement
import Scaffold.Proofs.Text.Scan
import Scaffold.Proofs.Entry.Layout
import Scaffold.Proofs.Disk.Needs
import Scaffold.Proofs.Feature.Needs
import Scaffold.Proofs.Composition.Needs
import Scaffold.Proofs.Assembly.Ending
import Scaffold.Proofs.BuildConfig.Plugins
import Scaffold.Proofs.BuildConfig.Imports
import Scaffold.Proofs.AppView.Greeting
import Scaffold.Proofs.AppView.Removal
import Scaffold.Proofs.Feature.RootView
import Scaffold.Proofs.BuildConfig.Settings
import Scaffold.Proofs.BuildConfig.ImportLines
import Scaffold.Proofs.BuildConfig.Elements
import Scaffold.Proofs.Template.Leftovers
import Scaffold.Proofs.Json.Scanned
import Scaffold.Proofs.Json.Faults
import Scaffold.Proofs.Json.Places
import Scaffold.Proofs.Manifest.FaultLine
import Scaffold.Proofs.Feature.CheckedFiles
import Scaffold.Proofs.Name.Slugs
import Scaffold.Proofs.Name.NormalForm
import Scaffold.Proofs.Name.Grammar
