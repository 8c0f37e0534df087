import Arborist.Analysis.Complexity
import Arborist.Analysis.Import
import Arborist.Analysis.Structure
import Arborist.Analysis.Symbol
import Arborist.Bench.Fixture
import Arborist.Bench.ProjectWork
import Arborist.Bench.Scenario
import Arborist.Bench.TextWork
import Arborist.Bench.TreeWork
import Arborist.Cache.Basic
import Arborist.Data.Compare
import Arborist.Data.Fields
import Arborist.Data.Json
import Arborist.Data.Value
import Arborist.Data.Yaml.Load
import Arborist.Data.Yaml.Scalar
import Arborist.Data.Yaml.Token
import Arborist.Data.Yaml.Tree
import Arborist.Diagnostic.Basic
import Arborist.Engine.Absent
import Arborist.Engine.Basic
import Arborist.Engine.Capture
import Arborist.Engine.Document
import Arborist.Fault
import Arborist.File.Glob
import Arborist.File.Path
import Arborist.File.Pattern
import Arborist.File.Read
import Arborist.File.Resolve
import Arborist.File.Store
import Arborist.File.Walk
import Arborist.Language.NodeKind
import Arborist.Language.Registry
import Arborist.Language.Template
import Arborist.Language.Template.Application
import Arborist.Language.Template.Scripting
import Arborist.Language.Template.Systems
import Arborist.Language.Template.Vector
import Arborist.Main
import Arborist.Measure.Coverage
import Arborist.Measure.History
import Arborist.Measure.Report
import Arborist.Measure.SelfCheck
import Arborist.Measure.TimeShare
import Arborist.Number.Binary64
import Arborist.Number.Decimal
import Arborist.Progress.Basic
import Arborist.Project.Access
import Arborist.Project.Basic
import Arborist.Project.Root
import Arborist.Prompt.Advice
import Arborist.Regex.Basic
import Arborist.Regex.Match
import Arborist.Regex.Parse
import Arborist.Search.Limit
import Arborist.Search.Query
import Arborist.Search.Text
import Arborist.Server.Call
import Arborist.Server.Capability
import Arborist.Server.CommandLine
import Arborist.Server.Prompt
import Arborist.Server.Startup
import Arborist.Server.Tool
import Arborist.Service.Configure
import Arborist.Service.Diagnose
import Arborist.Service.Files
import Arborist.Service.Parsing
import Arborist.Service.Projects
import Arborist.Service.State
import Arborist.Settings.Basic
import Arborist.Settings.Load
import Arborist.Settings.Update
import Arborist.Settings.Validate
import Arborist.Sketch.Build
import Arborist.Sketch.Query
import Arborist.Sketch.Sample
import Arborist.Sketch.Statement
import Arborist.Text.Base64
import Arborist.Text.Blank
import Arborist.Text.Case
import Arborist.Text.Encoding
import Arborist.Text.Find
import Arborist.Text.Integer
import Arborist.Text.Letter
import Arborist.Text.Lines
import Arborist.Text.Printable
import Arborist.Text.Quoted
import Arborist.Text.Utf8
import Arborist.Tree.Cursor
import Arborist.Tree.Locate
import Arborist.Tree.Node
import Arborist.Tree.Outline
import Arborist.Tree.Walk
import Arborist.Proofs.File.PathText
import Arborist.Proofs.File.Resolution
import Arborist.Proofs.Project.Containment
import Arborist.Proofs.Cache.Accounting
import Arborist.Proofs.Service.ActionRun
import Arborist.Proofs.Cache.Run
import Arborist.Proofs.Number.Rounding
import Arborist.Proofs.Cache.SizeLimit
import Arborist.Proofs.Number.ShortestText
import Arborist.Proofs.Cache.Key
import Arborist.Proofs.Service.Agreement
import Arborist.Proofs.File.Reading
import Arborist.Proofs.Service.Twins
import Arborist.Proofs.Service.Answers
import Arborist.Proofs.Service.Transparency
import Arborist.Proofs.Cache.History
import Arborist.Proofs.Server.NodeAccess
import Arborist.Proofs.File.Climb
import Arborist.Proofs.File.Blank
import Arborist.Proofs.Service.Listing
import Arborist.Proofs.Project.Blank
import Arborist.Proofs.Service.Secrecy
import Arborist.Proofs.File.Following
import Arborist.Proofs.Search.Text
import Arborist.Proofs.Service.SearchAccess
import Arborist.Proofs.Settings.Adoption
import Arborist.Proofs.Settings.Loading
import Arborist.Proofs.Service.Configuring
import Arborist.Proofs.Server.Startup
import Arborist.Proofs.Server.CacheSwitch
import Arborist.Proofs.Tree.Walking
import Arborist.Proofs.Tree.Outlining
import Arborist.Proofs.Tree.OutlineParts
import Arborist.Proofs.Settings.Document
import Arborist.Proofs.Server.Reloading
import Arborist.Proofs.Tree.Routes
import Arborist.Proofs.Tree.Visits
import Arborist.Proofs.Tree.Locating
import Arborist.Proofs.Tree.MostSpecific
import Arborist.Proofs.Service.Updating
import Arborist.Proofs.Number.Overflow
import Arborist.Proofs.Cache.Eviction
import Arborist.Proofs.Server.Clearing
import Arborist.Proofs.Search.Truncation
import Arborist.Proofs.Text.Stripping
import Arborist.Proofs.Text.Lowering
import Arborist.Proofs.Search.Plain
import Arborist.Proofs.File.Globbing
import Arborist.Proofs.Text.OneLine
import Arborist.Proofs.Server.Similar
import Arborist.Proofs.Service.Repetition
import Arborist.Proofs.Search.QueryLimits
import Arborist.Proofs.Search.LanguageReach
import Arborist.Proofs.Service.Engines
import Arborist.Proofs.Analysis.Asking
import Arborist.Proofs.Analysis.Symbols
import Arborist.Proofs.Analysis.MethodFilter
import Arborist.Proofs.Analysis.Recorded
import Arborist.Proofs.Analysis.CaptureForms
import Arborist.Proofs.Analysis.ClassRows
import Arborist.Proofs.Analysis.Imports
import Arborist.Proofs.Analysis.Interchange
import Arborist.Proofs.Analysis.PythonImports
import Arborist.Proofs.File.LineEnds
import Arborist.Proofs.Service.Paging
import Arborist.Proofs.Analysis.Measures
import Arborist.Proofs.Analysis.ImportStatements
import Arborist.Proofs.Language.Adaptation
import Arborist.Proofs.Data.Enumeration
import Arborist.Proofs.File.Levels
import Arborist.Proofs.Project.RootSearch
import Arborist.Proofs.Project.LanguageCounts
import Arborist.Proofs.Service.DepthListing
import Arborist.Proofs.Tree.Ancestry
import Arborist.Proofs.Tree.Paths
import Arborist.Proofs.Tree.Links
import Arborist.Proofs.Sketch.Nesting
import Arborist.Proofs.Sketch.Numbering
import Arborist.Proofs.Sketch.Blocks
import Arborist.Proofs.Sketch.Matching
import Arborist.Proofs.Server.Completion
import Arborist.Proofs.Tree.Innermost
import Arborist.Proofs.Progress.Scope
import Arborist.Proofs.Measure.Plateau
import Arborist.Proofs.Sketch.Spelling
import Arborist.Proofs.Sketch.Reading
