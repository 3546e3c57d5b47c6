import Archetype.Action
import Archetype.Calendar
import Archetype.Command.Arguments
import Archetype.Command.Pairs
import Archetype.Command.Request
import Archetype.Command.Run
import Archetype.Copier
import Archetype.Disk.Basic
import Archetype.Disk.Change
import Archetype.Failure
import Archetype.Git.Client
import Archetype.Git.Hosting
import Archetype.Git.Repository
import Archetype.Hook.Application
import Archetype.Hook.Basic
import Archetype.Hook.Registry
import Archetype.Journal
import Archetype.Main
import Archetype.Name.Form
import Archetype.Number.Double
import Archetype.Number.Shortest
import Archetype.Path
import Archetype.Placeholder
import Archetype.Project.Generation
import Archetype.Project.Identity
import Archetype.Project.Preparation
import Archetype.Proofs.Disk.Alteration
import Archetype.Proofs.Disk.Places
import Archetype.Proofs.Paths
import Archetype.Proofs.Rendering
import Archetype.Proofs.Tables
import Archetype.Settings
import Archetype.Table
import Archetype.Template.Bundled
import Archetype.Template.Descriptor
import Archetype.Template.Entry
import Archetype.Template.Load
import Archetype.Template.Locate
import Archetype.Template.Name
import Archetype.Template.Shape
import Archetype.Template.Transform
import Archetype.Text.Base64
import Archetype.Text.Blank
import Archetype.Text.CaseTable
import Archetype.Text.Cases
import Archetype.Text.Digits
import Archetype.Text.Lines
import Archetype.Text.Order
import Archetype.Text.Pattern
import Archetype.Text.PrintableTable
import Archetype.Text.Quoted
import Archetype.Text.Replace
import Archetype.Text.Split
import Archetype.Value
import Archetype.Value.Data
import Archetype.Violation
import Archetype.Yaml.Cursor
import Archetype.Yaml.Document
import Archetype.Yaml.Error
import Archetype.Yaml.Node
import Archetype.Yaml.Scalar
import Archetype.Yaml.ScalarText
import Archetype.Yaml.Token
import Archetype.Yaml.TokenList
import Archetype.Proofs.Actions
import Archetype.Proofs.Copying
import Archetype.Proofs.Containment
import Archetype.Proofs.Disk.Contents
import Archetype.Proofs.Completions
import Archetype.Proofs.Targets
import Archetype.Proofs.CopyResults
import Archetype.Proofs.Staging
import Archetype.Proofs.Renames
import Archetype.Proofs.Arrivals
import Archetype.Proofs.RenamedFiles
import Archetype.Proofs.Precedence
import Archetype.Proofs.Disk.Agreement
import Archetype.Proofs.Disk.Links
import Archetype.Proofs.Laying
import Archetype.Proofs.Outcomes
import Archetype.Proofs.Layouts
import Archetype.Proofs.Stages
import Archetype.Proofs.Plans
import Archetype.Proofs.Runs
import Archetype.Proofs.Repetition
import Archetype.Proofs.Placements
import Archetype.Proofs.Overlays
import Archetype.Proofs.Keeping
import Archetype.Proofs.UnlistedFiles
import Archetype.Proofs.HookCalls
import Archetype.Proofs.Phases
import Archetype.Proofs.LastHook
import Archetype.Proofs.Raising
import Archetype.Proofs.EarlyFailures
import Archetype.Proofs.Requests
import Archetype.Proofs.Searching
import Archetype.Proofs.Directories
import Archetype.Proofs.Fetching
import Archetype.Proofs.Checkouts
import Archetype.Proofs.Conduct
import Archetype.Proofs.Courses
import Archetype.Proofs.HookOrder
import Archetype.Proofs.Escapes
import Archetype.Proofs.DefaultTargets
import Archetype.Proofs.FilePlans
import Archetype.Proofs.IgnoredNames
import Archetype.Proofs.NewProjects
import Archetype.Proofs.PackagePaths
import Archetype.Proofs.ProjectNames
import Archetype.Proofs.BundledTemplate
import Archetype.Proofs.Locations
import Archetype.Proofs.LibraryProjects
import Archetype.Proofs.CopiedFiles
import Archetype.Proofs.ReportedFiles
import Archetype.Proofs.CleanNames
import Archetype.Proofs.FailedStages
import Archetype.Proofs.TemplateNames
import Archetype.Proofs.DescriptorFiles
import Archetype.Proofs.StagedFiles
import Archetype.Proofs.RawEntries
import Archetype.Proofs.OnlyEntries
import Archetype.Proofs.EntryForms
import Archetype.Proofs.ListedReferences
import Archetype.Proofs.Qualifiers
import Archetype.Proofs.Identities
import Archetype.Proofs.Conversations
import Archetype.Proofs.Addresses
import Archetype.Proofs.Producers
import Archetype.Proofs.SourceLinks
import Archetype.Proofs.NameForms
import Archetype.Proofs.Delimiters
import Archetype.Proofs.CommandPairs
