import GraphSurvey.Builder.Catalog
import GraphSurvey.Builder.Layer
import GraphSurvey.Builder.Session
import GraphSurvey.Builder.Tensor
import GraphSurvey.CommandLine.Options
import GraphSurvey.CommandLine.Program
import GraphSurvey.Config.Basic
import GraphSurvey.Config.Error
import GraphSurvey.Config.Files
import GraphSurvey.Config.Shown
import GraphSurvey.Decimal.Binary
import GraphSurvey.Decimal.Layout
import GraphSurvey.Decimal.Shortest
import GraphSurvey.Detail.Store
import GraphSurvey.Detail.Value
import GraphSurvey.Dictionary
import GraphSurvey.Document.Decode
import GraphSurvey.Document.Json
import GraphSurvey.Document.Numeral
import GraphSurvey.Document.Token
import GraphSurvey.Document.Tree
import GraphSurvey.Graph.Basic
import GraphSurvey.Graph.Build
import GraphSurvey.Graph.Read
import GraphSurvey.Graph.Walk
import GraphSurvey.Graph.Written
import GraphSurvey.Main
import GraphSurvey.Pass.Access
import GraphSurvey.Pass.Basic
import GraphSurvey.Pass.Error
import GraphSurvey.Pass.Standard
import GraphSurvey.Pipeline.Run
import GraphSurvey.Pipeline.Schedule
import GraphSurvey.Proofs.Builder.Channels
import GraphSurvey.Proofs.Builder.Contexts
import GraphSurvey.Proofs.Builder.Equipment
import GraphSurvey.Proofs.Builder.History
import GraphSurvey.Proofs.Builder.Layers
import GraphSurvey.Proofs.Builder.Normalisation
import GraphSurvey.Proofs.Builder.Operation
import GraphSurvey.Proofs.Builder.Residual
import GraphSurvey.Proofs.Builder.Sequence
import GraphSurvey.Proofs.Builder.Typing
import GraphSurvey.Proofs.CommandLine.Survey
import GraphSurvey.Proofs.Config.Details
import GraphSurvey.Proofs.Config.Pipeline
import GraphSurvey.Proofs.Config.Written
import GraphSurvey.Proofs.Decimal.Finite
import GraphSurvey.Proofs.Decimal.Shortest
import GraphSurvey.Proofs.Detail.Forms
import GraphSurvey.Proofs.Detail.ReadBack
import GraphSurvey.Proofs.Detail.Store
import GraphSurvey.Proofs.Detail.Value
import GraphSurvey.Proofs.Detail.Words
import GraphSurvey.Proofs.Dictionary
import GraphSurvey.Proofs.Document.Accepted
import GraphSurvey.Proofs.Document.Indented
import GraphSurvey.Proofs.Document.Sorted
import GraphSurvey.Proofs.Graph.Edit
import GraphSurvey.Proofs.Graph.Growth
import GraphSurvey.Proofs.Graph.Loaded
import GraphSurvey.Proofs.Graph.Recovered
import GraphSurvey.Proofs.Pass.Confinement
import GraphSurvey.Proofs.Pass.Effect
import GraphSurvey.Proofs.Pass.Standard
import GraphSurvey.Proofs.Pipeline.Configured
import GraphSurvey.Proofs.Pipeline.Contract
import GraphSurvey.Proofs.Pipeline.Events
import GraphSurvey.Proofs.Pipeline.Histogram
import GraphSurvey.Proofs.Pipeline.Isolation
import GraphSurvey.Proofs.Pipeline.Logging
import GraphSurvey.Proofs.Pipeline.Merging
import GraphSurvey.Proofs.Pipeline.Permutation
import GraphSurvey.Proofs.Pipeline.Renaming
import GraphSurvey.Proofs.Pipeline.Turn
import GraphSurvey.Proofs.Report.Accounts
import GraphSurvey.Proofs.Report.Alignment
import GraphSurvey.Proofs.Report.Columns
import GraphSurvey.Proofs.Report.Lookup
import GraphSurvey.Proofs.Report.Marker
import GraphSurvey.Proofs.Report.Rows
import GraphSurvey.Proofs.Report.StandardColumns
import GraphSurvey.Proofs.Report.Summaries
import GraphSurvey.Proofs.Schedule.Admission
import GraphSurvey.Proofs.Schedule.Cycle
import GraphSurvey.Proofs.Schedule.Dependency
import GraphSurvey.Proofs.Schedule.Order
import GraphSurvey.Proofs.Schedule.Release
import GraphSurvey.Proofs.Shape.Broadcast
import GraphSurvey.Proofs.Shape.Concatenation
import GraphSurvey.Proofs.Shape.Degenerate
import GraphSurvey.Proofs.Shape.Transposed
import GraphSurvey.Proofs.Shape.Window
import GraphSurvey.Proofs.Text.Label
import GraphSurvey.Proofs.Text.Quoted
import GraphSurvey.Proofs.Text.Trimmed
import GraphSurvey.Proofs.Walk.Course
import GraphSurvey.Proofs.Walk.Moves
import GraphSurvey.Proofs.Walk.Order
import GraphSurvey.Proofs.Walk.Recursion
import GraphSurvey.Proofs.Walk.Renaming
import GraphSurvey.Proofs.Walk.WellFormed
import GraphSurvey.Report.Accounts
import GraphSurvey.Report.Overview
import GraphSurvey.Report.Schema
import GraphSurvey.Report.Table
import GraphSurvey.Shape.Error
import GraphSurvey.Shape.Rules
import GraphSurvey.Shape.Window
import GraphSurvey.Text.Blank
import GraphSurvey.Text.Label
import GraphSurvey.Text.Quoted
import GraphSurvey.Text.Shown
import GraphSurvey.Word
