import Dossier.Main
import Dossier.CommandLine.Run
import Dossier.Document.Compile
import Dossier.Document.CodeMap
import Dossier.Document.KeyFiles
import Dossier.Document.Notes
import Dossier.Document.Overview
import Dossier.Document.Markup
import Dossier.DirectoryTree.Render
import Dossier.Budget.Shares
import Dossier.Settings
import Dossier.Inventory
import Dossier.Profile.Detect
import Dossier.FileSystem.Expand
import Dossier.Data.Yaml.Document
import Dossier.Data.Toml
import Dossier.Data.Json
import Dossier.Outline.Extract
import Dossier.Outline.BracedClasses
import Dossier.Outline.Go
import Dossier.Outline.Rust
import Dossier.Outline.Ruby
import Dossier.Outline.Python
import Dossier.Outline.Script
import Dossier.Source.Registry
import Dossier.Source.Node
import Dossier.Outline.Basic
import Dossier.FileSystem.Resolve
import Dossier.FileSystem.Edit
import Dossier.FileSystem.Basic
import Dossier.Path.Basic
import Dossier.Path.Glob
import Dossier.Text.Lines
import Dossier.Text.Case
import Dossier.Text.Pattern
import Dossier.Text.Quoted
import Dossier.Text.Utf8
import Dossier.Text.Wildcard
import Dossier.Proofs.Budget.Shares
import Dossier.Proofs.DirectoryTree.Fitting
import Dossier.Proofs.DirectoryTree.Members
import Dossier.Proofs.Document.CodeMap
import Dossier.Proofs.Document.Coverage
import Dossier.Proofs.Document.Layout
import Dossier.Proofs.Document.Run
import Dossier.Proofs.Document.Sections
import Dossier.Proofs.Outline.BracedClasses
import Dossier.Proofs.Outline.Extract
import Dossier.Proofs.Inventory.Denied
import Dossier.Proofs.Inventory.Exact
import Dossier.Proofs.Document.Headings
import Dossier.Proofs.Document.Confidential
import Dossier.Proofs.Document.Relocated
import Dossier.Proofs.Document.Reordered
import Dossier.Proofs.Settings.Fields
import Dossier.Proofs.Budget.Rounding
import Dossier.Proofs.Document.Ranking
import Dossier.Proofs.Document.Funding
import Dossier.Proofs.Document.Output
import Dossier.Proofs.Document.FairShare
import Dossier.Proofs.Document.Repacking
import Dossier.Proofs.Document.Demand
import Dossier.Proofs.Outline.PythonHeaders
import Dossier.Proofs.Document.Fencing
import Dossier.Proofs.Path.Segments
import Dossier.Proofs.DirectoryTree.Shape
import Dossier.Proofs.Outline.Classes
import Dossier.Proofs.Outline.Behaviour
import Dossier.Proofs.Outline.ScriptFields
import Dossier.Proofs.Text.Lines
import Dossier.Proofs.Document.Folding
import Dossier.Proofs.DirectoryTree.Rendering
import Dossier.Proofs.DirectoryTree.Reports
import Dossier.Proofs.Text.Located
import Dossier.Proofs.Text.Pattern
import Dossier.Proofs.Outline.Brackets
import Dossier.Proofs.Outline.LineNumbers
import Dossier.Proofs.Outline.NamePlaces
import Dossier.Proofs.Outline.Names
import Dossier.Proofs.Outline.SourceOrder
import Dossier.Proofs.Outline.Exports
import Dossier.Proofs.Document.Barrels
import Dossier.Proofs.Profile.Naming
import Dossier.Proofs.Text.Wildcard
import Dossier.Proofs.Outline.NameOrigins
import Dossier.Proofs.Source.Registry
import Dossier.Proofs.Document.Switching
import Dossier.Proofs.Document.Titles
import Dossier.Proofs.Document.Cutting
import Dossier.Proofs.Document.Warnings
import Dossier.Proofs.Text.Preview
