import BulkTransfer.Quantity
import BulkTransfer.Calendar
import BulkTransfer.Location.Wildcard
import BulkTransfer.Location.Expression
import BulkTransfer.Store.Listing
import BulkTransfer.Job.Parse
import BulkTransfer.Job.ExitCode
import BulkTransfer.JobError
import BulkTransfer.Environment
import BulkTransfer.Pool.Script
import BulkTransfer.Main
import BulkTransfer.Report.Lines
import BulkTransfer.Proofs.Pool.Chronicle
import BulkTransfer.Proofs.Pool.Transition
import BulkTransfer.Proofs.Pool.Overview
import BulkTransfer.Proofs.Pool.Move
import BulkTransfer.Proofs.Pool.Simulation
import BulkTransfer.Proofs.Pool.Balance
import BulkTransfer.Proofs.Pool.Rest
import BulkTransfer.Proofs.Pool.Receipts
import BulkTransfer.Proofs.Pool.Names
import BulkTransfer.Proofs.Pool.Delivery
import BulkTransfer.Proofs.Pool.Continuations
import BulkTransfer.Proofs.Pool.Recovery
import BulkTransfer.Proofs.Pool.Tallies
import BulkTransfer.Proofs.Pool.Closing
import BulkTransfer.Proofs.Pool.Batches
import BulkTransfer.Proofs.Pool.Activity
import BulkTransfer.Proofs.Pool.Starts
import BulkTransfer.Proofs.Pool.Changes
import BulkTransfer.Proofs.Pool.Counters
import BulkTransfer.Proofs.Pool.Outcomes
import BulkTransfer.Proofs.Pool.Cancellation
import BulkTransfer.Proofs.Pool.Causality
import BulkTransfer.Proofs.Pool.Backlog
import BulkTransfer.Proofs.Pool.Progress
import BulkTransfer.Proofs.Pool.Attempts
import BulkTransfer.Proofs.Pool.Retries
import BulkTransfer.Proofs.Pool.Delays
import BulkTransfer.Proofs.Pool.Completion
import BulkTransfer.Proofs.Text.Words
import BulkTransfer.Proofs.Parse.Prepared
import BulkTransfer.Proofs.Parse.Preparation
import BulkTransfer.Proofs.Parse.Shapes
import BulkTransfer.Proofs.Parse.Chains
import BulkTransfer.Proofs.Parse.Segments
import BulkTransfer.Proofs.Parse.Lines
import BulkTransfer.Proofs.Parse.Renderings
import BulkTransfer.Proofs.Parse.Tasks
import BulkTransfer.Proofs.Parse.StorageWords
import BulkTransfer.Proofs.Parse.Destinations
import BulkTransfer.Proofs.Command.Reading
import BulkTransfer.Proofs.Command.Arguments
import BulkTransfer.Proofs.Command.Canonical
import BulkTransfer.Proofs.Command.Sorts
import BulkTransfer.Proofs.Command.Rereading
import BulkTransfer.Proofs.Command.Texts
import BulkTransfer.Proofs.Command.StoragePlaces
import BulkTransfer.Proofs.Command.Overloads
import BulkTransfer.Proofs.Location.Matching
import BulkTransfer.Proofs.Location.Expressions
import BulkTransfer.Proofs.Location.CanonicalForms
import BulkTransfer.Proofs.FileSystem.Failures
import BulkTransfer.Proofs.FileSystem.Paths
import BulkTransfer.Proofs.FileSystem.Following
import BulkTransfer.Proofs.FileSystem.Leading
import BulkTransfer.Proofs.FileSystem.Resolution
import BulkTransfer.Proofs.FileSystem.Evolution
import BulkTransfer.Proofs.FileSystem.Operations
import BulkTransfer.Proofs.FileSystem.Copies
import BulkTransfer.Proofs.FileSystem.Parents
import BulkTransfer.Proofs.FileSystem.SelfCopies
import BulkTransfer.Proofs.FileSystem.Interruptions
import BulkTransfer.Proofs.FileSystem.Strikes
import BulkTransfer.Proofs.FileSystem.Ancestors
import BulkTransfer.Proofs.FileSystem.Arrivals
import BulkTransfer.Proofs.Store.Layout
import BulkTransfer.Proofs.Store.Objects
import BulkTransfer.Proofs.Store.Transfers
import BulkTransfer.Proofs.Store.Calls
import BulkTransfer.Proofs.Store.Strikes
import BulkTransfer.Proofs.Execution.Demands
import BulkTransfer.Proofs.Expansion.Names
import BulkTransfer.Proofs.Expansion.Pieces
import BulkTransfer.Proofs.Expansion.Matches
import BulkTransfer.Proofs.Expansion.Items
import BulkTransfer.Proofs.Expansion.Commands
import BulkTransfer.Proofs.Store.Walks
import BulkTransfer.Proofs.Store.Listings
import BulkTransfer.Proofs.Store.Folding
import BulkTransfer.Proofs.Execution.Wildcards
import BulkTransfer.Proofs.Execution.SingleKeys
import BulkTransfer.Proofs.Execution.KeyDeletions
import BulkTransfer.Proofs.Execution.Endpoints
import BulkTransfer.Proofs.Execution.Transfers
import BulkTransfer.Proofs.Execution.Repetitions
import BulkTransfer.Proofs.Expansion.Completeness
import BulkTransfer.Proofs.Expansion.Containment
import BulkTransfer.Proofs.Expansion.Directories
import BulkTransfer.Proofs.Json.Quoting
import BulkTransfer.Proofs.Json.Reading
import BulkTransfer.Proofs.Json.Records
import BulkTransfer.Proofs.Report.Output
import BulkTransfer.Proofs.Report.Messages
import BulkTransfer.Proofs.Pool.SharedCounters
