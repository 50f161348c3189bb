import Outreach.Calendar
import Outreach.Command
import Outreach.CommandLine
import Outreach.CommandLine.Grammar
import Outreach.CommandLine.Reader
import Outreach.Commands.Generate
import Outreach.Commands.Init
import Outreach.Commands.Inputs
import Outreach.Commands.Layout
import Outreach.Commands.Presets
import Outreach.Commands.Run
import Outreach.Commands.Templates
import Outreach.DataDirectory
import Outreach.Deal.Assignment
import Outreach.Deal.Field
import Outreach.Deal.RecordFile
import Outreach.Deal.Terms
import Outreach.Deal.TermsFile
import Outreach.Display
import Outreach.Edit
import Outreach.Failure
import Outreach.Files.AtomicWrite
import Outreach.Files.FileError
import Outreach.Files.Path
import Outreach.Files.Tree
import Outreach.FreshId
import Outreach.Json
import Outreach.Json.Reader
import Outreach.Json.Token
import Outreach.Json.Writer
import Outreach.Main
import Outreach.Message.Breaks
import Outreach.Message.BuiltIn
import Outreach.Message.Conditional
import Outreach.Message.Placeholder
import Outreach.Message.Render
import Outreach.Number.Binary64
import Outreach.Number.Fixed
import Outreach.Number.Leading
import Outreach.Number.Numeral
import Outreach.Number.Shortest
import Outreach.Polish.Offer
import Outreach.Polish.Service
import Outreach.Polish.Settings
import Outreach.Preset
import Outreach.Preset.File
import Outreach.Program
import Outreach.Record
import Outreach.Settings
import Outreach.Settings.File
import Outreach.Settings.Reader
import Outreach.Settings.Writer
import Outreach.StoreFile
import Outreach.Template
import Outreach.Template.File
import Outreach.Text.Blank
import Outreach.Text.Utf8
import Outreach.World
import Outreach.Yaml.Document
import Outreach.Yaml.Grammar
import Outreach.Yaml.Node
import Outreach.Yaml.NumberText
import Outreach.Yaml.Scalar.Block
import Outreach.Yaml.Scalar.Gap
import Outreach.Yaml.Scalar.Plain
import Outreach.Yaml.Scalar.Quoted
import Outreach.Yaml.Scalar.Resolve
import Outreach.Yaml.Scalar.Writer
import Outreach.Yaml.Scan
import Outreach.Yaml.Source
import Outreach.Yaml.Tag
import Outreach.Yaml.Token
import Outreach.Yaml.Value
import Outreach.Proofs.Message.BuiltIn
import Outreach.Proofs.Message.Segments
import Outreach.Proofs.Message.Breaks
import Outreach.Proofs.Message.Blocks
import Outreach.Proofs.Message.Tokens
import Outreach.Proofs.Json.RoundTrip
import Outreach.Proofs.Json.Grammar
import Outreach.Proofs.Json.Spelling
import Outreach.Proofs.Json.Portable
import Outreach.Proofs.Files.Names
import Outreach.Proofs.Files.Tree
import Outreach.Proofs.Files.AtomicWrite
import Outreach.Proofs.Files.Contents
import Outreach.Proofs.Files.Stages
import Outreach.Proofs.Files.AllOrNothing
import Outreach.Proofs.Files.Course
import Outreach.Proofs.Files.Race
import Outreach.Proofs.Files.Parents
import Outreach.Proofs.Files.TwoWriters
import Outreach.Proofs.StoreFile.Forms
import Outreach.Proofs.StoreFile.RoundTrip
import Outreach.Proofs.FreshId
import Outreach.Proofs.IdSearch
import Outreach.Proofs.Template.Operations
import Outreach.Proofs.Template.Runs
import Outreach.Proofs.Text.Trimming
import Outreach.Proofs.Record.Layers
import Outreach.Proofs.Record.JsonText
import Outreach.Proofs.Preset.Runs
import Outreach.Proofs.Number.Rounding
import Outreach.Proofs.Number.Digits
import Outreach.Proofs.Number.Nearest
import Outreach.Proofs.Number.Leading
import Outreach.Proofs.Yaml.Places
import Outreach.Proofs.Yaml.Quoted
import Outreach.Proofs.Yaml.SingleQuoted
import Outreach.Proofs.Yaml.Lines
import Outreach.Proofs.Yaml.Literal
import Outreach.Proofs.Yaml.Scanning
import Outreach.Proofs.Yaml.LineValues
import Outreach.Proofs.Yaml.Outline
import Outreach.Proofs.Yaml.OutlineNodes
import Outreach.Proofs.Yaml.Flow
import Outreach.Proofs.Yaml.WrittenScalars
import Outreach.Proofs.Settings.RoundTrip
import Outreach.Proofs.Display.Amounts
import Outreach.Proofs.Display.Rounded
import Outreach.Proofs.Settings.Separators
import Outreach.Proofs.Deal.Assignments
import Outreach.Proofs.Deal.Terms
import Outreach.Proofs.Commands.Messages
import Outreach.Proofs.Commands.HandleFailures
import Outreach.Proofs.Commands.SavedTerms
import Outreach.Proofs.Commands.Observation
import Outreach.Proofs.Commands.Frame
import Outreach.Proofs.Commands.TemplateOrders
import Outreach.Proofs.Commands.TemplateProcesses
import Outreach.Proofs.Commands.Scaffold
import Outreach.Proofs.Template.Selection
import Outreach.Proofs.Json.Paths
import Outreach.Proofs.Polish.Outcome
import Outreach.Proofs.Deal.Absence
import Outreach.Proofs.Display.Presence
import Outreach.Proofs.Commands.PolishedOffers
import Outreach.Proofs.Deal.Views
import Outreach.Proofs.Commands.ActiveTemplate
import Outreach.Proofs.Message.ShortRuns
import Outreach.Proofs.CommandLine.WrittenLevels
import Outreach.Proofs.CommandLine.RoundTrip
import Outreach.Proofs.Files.Ancestors
import Outreach.Proofs.Commands.Discovery
import Outreach.Proofs.Commands.FailedSaves
import Outreach.Proofs.Commands.FilledTemplates
