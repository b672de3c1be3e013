import Winnow.EntryList
import Winnow.FileTree.Basic
import Winnow.FileTree.Build
import Winnow.FileTree.Resolve
import Winnow.FilterError
import Winnow.FilterSet.Basic
import Winnow.FilterSet.Compile
import Winnow.Glob.Front
import Winnow.Glob.List
import Winnow.Glob.Match
import Winnow.Glob.Parser
import Winnow.Glob.Token
import Winnow.Instant.Basic
import Winnow.Instant.Calendar
import Winnow.Instant.Rfc3339
import Winnow.Item
import Winnow.Json.Basic
import Winnow.Json.Number
import Winnow.Json.Parser
import Winnow.Json.Text
import Winnow.Kind
import Winnow.Log.Buffer
import Winnow.Log.Event
import Winnow.Log.Flag
import Winnow.Log.Json
import Winnow.Log.Logging
import Winnow.Log.MonadLog
import Winnow.Log.Noted
import Winnow.Log.Token
import Winnow.Log.Verbosity
import Winnow.Materializer.Basic
import Winnow.Materializer.Call
import Winnow.Materializer.Close
import Winnow.Materializer.Observe
import Winnow.Options.Basic
import Winnow.Options.Json
import Winnow.Pass.Basic
import Winnow.Pass.Run
import Winnow.PathList
import Winnow.Record
import Winnow.RelPath.Basic
import Winnow.RelPath.Lemmas
import Winnow.RelPath.Native
import Winnow.RelPath.Order
import Winnow.Scope
import Winnow.Summary
import Winnow.Text.Blank
import Winnow.Text.Pieces
import Winnow.Text.Quoted
import Winnow.Text.Utf8
import Winnow.TreeSource
import Winnow.Verdict
import Winnow.Walk.Basic
import Winnow.Walk.Walker
import Winnow.Proofs.Materializer.History
import Winnow.Proofs.Materializer.Placement
import Winnow.Proofs.Materializer.Gapless
import Winnow.Proofs.Materializer.Observation
import Winnow.Proofs.Materializer.Stores
import Winnow.Proofs.Materializer.Accounting
import Winnow.Proofs.Materializer.ParentsFirst
import Winnow.Proofs.Materializer.Conservation
import Winnow.Proofs.Materializer.Rearrangement
import Winnow.Proofs.Materializer.Enumeration
import Winnow.Proofs.Pass.Completion
import Winnow.Proofs.Pass.ArrivalOrder
import Winnow.Proofs.EntryList
import Winnow.Proofs.FilterSet.Compiled
import Winnow.Proofs.FilterSet.Decision
import Winnow.Proofs.FilterSet.Validation
import Winnow.Proofs.Pass.Interruption
import Winnow.Proofs.Pass.Exclusion
import Winnow.Proofs.Pass.Confinement
import Winnow.Proofs.Pass.DecidedFirst
import Winnow.Proofs.FilterSet.Extension
import Winnow.Proofs.Pass.Cancellation
import Winnow.Proofs.Pass.Monotonicity
import Winnow.Proofs.FileTree.Listing
import Winnow.Proofs.FileTree.Resolution
import Winnow.Proofs.Walk.Pending
import Winnow.Proofs.Walk.Listing
import Winnow.Proofs.Walk.Containment
import Winnow.Proofs.Walk.Entering
import Winnow.Proofs.Walk.Exploration
import Winnow.Proofs.Walk.Collection
import Winnow.Proofs.Walk.Following
import Winnow.Proofs.TreeSource.Feeding
import Winnow.Proofs.TreeSource.Reporting
import Winnow.Proofs.TreeSource.Pruning
import Winnow.Proofs.Log.Hearing
import Winnow.Proofs.Log.Mirroring
import Winnow.Proofs.Pass.Job
import Winnow.Proofs.Pass.Levels
import Winnow.Proofs.Materializer.Lifecycle
import Winnow.Proofs.Materializer.Synthesis
import Winnow.Proofs.FilterSet.Malformation
import Winnow.Proofs.RelPath.NormalForm
import Winnow.Proofs.RelPath.Native
import Winnow.Proofs.EntryList.Concatenation
import Winnow.Proofs.FilterSet.Spelling
import Winnow.Proofs.FilterSet.Prefixes
import Winnow.Proofs.Glob.Language
import Winnow.Proofs.Glob.Stars
import Winnow.Proofs.Glob.Literal
import Winnow.Proofs.Glob.Quoting
import Winnow.Proofs.Glob.Index
import Winnow.Proofs.Walk.Termination
import Winnow.Proofs.Instant.Order
import Winnow.Proofs.Instant.Written
import Winnow.Proofs.FilterSet.Threshold
import Winnow.Proofs.Log.Draining
import Winnow.Proofs.Log.Tokens
import Winnow.Proofs.Options.RoundTrip
