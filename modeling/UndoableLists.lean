import UndoableLists.Act
import UndoableLists.Audience
import UndoableLists.CachedView
import UndoableLists.Capture.Batch
import UndoableLists.Capture.Cell
import UndoableLists.Change
import UndoableLists.Filter
import UndoableLists.History
import UndoableLists.Journal
import UndoableLists.Json
import UndoableLists.Json.Parser
import UndoableLists.List.Operation
import UndoableLists.List.Site
import UndoableLists.Lock.Access
import UndoableLists.Lock.Basic
import UndoableLists.Lock.Scope
import UndoableLists.LockDefaults
import UndoableLists.Objects
import UndoableLists.Proofs.Audience.Roll
import UndoableLists.Proofs.Audience.Rounds
import UndoableLists.Proofs.Audience.Scripts
import UndoableLists.Proofs.Bulletins
import UndoableLists.Proofs.Cache.Calls
import UndoableLists.Proofs.Cache.Course
import UndoableLists.Proofs.Cache.Hold
import UndoableLists.Proofs.Cache.Serving
import UndoableLists.Proofs.Capture.Cells
import UndoableLists.Proofs.Capture.Exchange
import UndoableLists.Proofs.Capture.Faults
import UndoableLists.Proofs.Capture.Rollback
import UndoableLists.Proofs.Conclusion
import UndoableLists.Proofs.Decimals
import UndoableLists.Proofs.Documents
import UndoableLists.Proofs.Failure
import UndoableLists.Proofs.Following.Announcing
import UndoableLists.Proofs.Following.Audiences
import UndoableLists.Proofs.Following.Beginnings
import UndoableLists.Proofs.Following.Copying
import UndoableLists.Proofs.Following.Edited
import UndoableLists.Proofs.Following.Looking
import UndoableLists.Proofs.Following.Mirroring
import UndoableLists.Proofs.Following.Moving
import UndoableLists.Proofs.Following.Properties
import UndoableLists.Proofs.Following.Relays
import UndoableLists.Proofs.Following.Reshaping
import UndoableLists.Proofs.Following.Setting
import UndoableLists.Proofs.Following.Slaves
import UndoableLists.Proofs.Following.Telling
import UndoableLists.Proofs.Following.ViewCopies
import UndoableLists.Proofs.List.Commit
import UndoableLists.Proofs.List.Planning
import UndoableLists.Proofs.List.Sequence
import UndoableLists.Proofs.List.Tracking
import UndoableLists.Proofs.Loading
import UndoableLists.Proofs.Lock.Ease
import UndoableLists.Proofs.Lock.Threads
import UndoableLists.Proofs.Lock.Tokens
import UndoableLists.Proofs.Meanwhile
import UndoableLists.Proofs.Minutes
import UndoableLists.Proofs.Mirrors.Copies
import UndoableLists.Proofs.Mirrors.Delivery
import UndoableLists.Proofs.Mirrors.Handing
import UndoableLists.Proofs.Mirrors.Reactions
import UndoableLists.Proofs.Mirrors.Resets
import UndoableLists.Proofs.Orderly
import UndoableLists.Proofs.Ownership.Acceptance
import UndoableLists.Proofs.Ownership.Charted
import UndoableLists.Proofs.Ownership.Edits
import UndoableLists.Proofs.Ownership.Exchange
import UndoableLists.Proofs.Ownership.Exposure
import UndoableLists.Proofs.Ownership.Possession
import UndoableLists.Proofs.Ownership.Reach
import UndoableLists.Proofs.Ownership.Roster
import UndoableLists.Proofs.Ownership.Sound
import UndoableLists.Proofs.Ownership.Tenure
import UndoableLists.Proofs.Ownership.Visits
import UndoableLists.Proofs.Record.Accesses
import UndoableLists.Proofs.Record.Application
import UndoableLists.Proofs.Record.Bounds
import UndoableLists.Proofs.Record.Changes
import UndoableLists.Proofs.Record.Handover
import UndoableLists.Proofs.Record.Inverse
import UndoableLists.Proofs.Record.Leads
import UndoableLists.Proofs.Record.Lengths
import UndoableLists.Proofs.Record.Matching
import UndoableLists.Proofs.Record.Reports
import UndoableLists.Proofs.Record.Shortcut
import UndoableLists.Proofs.Record.Told
import UndoableLists.Proofs.Refinement
import UndoableLists.Proofs.Restoring
import UndoableLists.Proofs.Rework
import UndoableLists.Proofs.Signals
import UndoableLists.Proofs.Tape
import UndoableLists.Proofs.Timeline
import UndoableLists.Proofs.UndoRedo.Attended
import UndoableLists.Proofs.UndoRedo.Course
import UndoableLists.Proofs.UndoRedo.ItemLife
import UndoableLists.Proofs.UndoRedo.ItemRetracing
import UndoableLists.Proofs.UndoRedo.Life
import UndoableLists.Proofs.UndoRedo.Retracing
import UndoableLists.Proofs.UndoRedo.Snapshot
import UndoableLists.Proofs.Views.Answers
import UndoableLists.Proofs.Views.Disposal
import UndoableLists.Proofs.Views.Fetching
import UndoableLists.Proofs.Views.Filtered
import UndoableLists.Proofs.Views.Merged
import UndoableLists.Proofs.Views.Onward
import UndoableLists.Proofs.Views.Reading
import UndoableLists.Proofs.Views.Recall
import UndoableLists.Proofs.Views.Runs
import UndoableLists.Proofs.Views.Spared
import UndoableLists.Proofs.Views.Steps
import UndoableLists.Proofs.Views.Writing
import UndoableLists.Proofs.World.Aside
import UndoableLists.Proofs.World.Editing
import UndoableLists.Proofs.World.Hearing
import UndoableLists.Proofs.World.Iteration
import UndoableLists.Proofs.World.Mutating
import UndoableLists.Proofs.World.ListFree
import UndoableLists.Proofs.World.Replaying
import UndoableLists.Proofs.World.Sections
import UndoableLists.Proofs.World.Steady
import UndoableLists.Proofs.World.Telling
import UndoableLists.Proofs.World.Walk
import UndoableLists.Record
import UndoableLists.Refusal
import UndoableLists.Session.CachedViews
import UndoableLists.Session.Capture
import UndoableLists.Session.Deliveries
import UndoableLists.Session.Guarded
import UndoableLists.Session.Lists
import UndoableLists.Session.Locks
import UndoableLists.Session.Questions
import UndoableLists.Session.Script
import UndoableLists.Session.Sequences
import UndoableLists.Session.Stage
import UndoableLists.Store
import UndoableLists.Table
import UndoableLists.Text.Printable
import UndoableLists.Text.Shown
import UndoableLists.Toml
import UndoableLists.Toml.Lexis
import UndoableLists.Toml.Number
import UndoableLists.Toml.Parser
import UndoableLists.Transaction
import UndoableLists.Value
import UndoableLists.World.Announcement
import UndoableLists.World.Basic
import UndoableLists.World.Filtering
import UndoableLists.World.Iterator
import UndoableLists.World.Merging
import UndoableLists.World.Mutation
import UndoableLists.World.View
