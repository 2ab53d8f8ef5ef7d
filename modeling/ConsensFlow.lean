import ConsensFlow.Lib.Txn
import ConsensFlow.Lib.Table
import ConsensFlow.Lib.Text
import ConsensFlow.Lib.Graph
import ConsensFlow.Model
import ConsensFlow.Notes
import ConsensFlow.Frames
import ConsensFlow.Store
import ConsensFlow.Mail
import ConsensFlow.Continuations
import ConsensFlow.Outage
import ConsensFlow.Moves
import ConsensFlow.Carrying
import ConsensFlow.Telling
import ConsensFlow.Clock
import ConsensFlow.Staff
import ConsensFlow.Releasing
import ConsensFlow.Giving
import ConsensFlow.Editing
import ConsensFlow.Pausing
import ConsensFlow.Finishing
import ConsensFlow.Receiving
import ConsensFlow.Asking
import ConsensFlow.Delivering
import ConsensFlow.Members
import ConsensFlow.Projects
import ConsensFlow.Machine
import ConsensFlow.Board
import ConsensFlow.Invariants
import ConsensFlow.Edits.Base
import ConsensFlow.Edits.Releasing
import ConsensFlow.Edits.Staff
import ConsensFlow.Edits.Giving
import ConsensFlow.Edits.Editing
import ConsensFlow.Edits.Pausing
import ConsensFlow.Edits.Finishing
import ConsensFlow.Edits.Delivering
import ConsensFlow.Edits.Members
import ConsensFlow.Edits.Projects
import ConsensFlow.Edits.Calls
import ConsensFlow.Plan
import ConsensFlow.Deleting
import ConsensFlow.Stops
import ConsensFlow.Resumed
import ConsensFlow.Windows
import ConsensFlow.Pastes
import ConsensFlow.Lib.Nested
import ConsensFlow.Writes
import ConsensFlow.Panes.Watch
import ConsensFlow.Panes.Input
import ConsensFlow.Gate
import ConsensFlow.Panes.Teardown
import ConsensFlow.Lib.Vec
import ConsensFlow.Panes.Grid
import ConsensFlow.Panes.Screen
import ConsensFlow.Panes.PaneClock
import ConsensFlow.Lib.Json
import ConsensFlow.Lib.Lines
import ConsensFlow.Codex.Selection
import ConsensFlow.Codex.Switching
import ConsensFlow.Engine.Hold
import ConsensFlow.Harness.Jsonl
import ConsensFlow.Harness.Tally
import ConsensFlow.Harness.Followed
import ConsensFlow.Harness.FileTimes
import ConsensFlow.Harness.Onward
import ConsensFlow.Harness.Afresh
import ConsensFlow.Harness.Following
import ConsensFlow.Lib.Search
import ConsensFlow.Lib.Paging
import ConsensFlow.History.Reading
import ConsensFlow.History.Parts
import ConsensFlow.History.Place
import ConsensFlow.History.Items
import ConsensFlow.History.Pages
import ConsensFlow.Lib.Markers
import ConsensFlow.Panes.OutputHub
import ConsensFlow.Panes.Cuts
import ConsensFlow.Panes.Bracketed
import ConsensFlow.Panes.Unsent
import ConsensFlow.Lib.Digits
import ConsensFlow.Dates
import ConsensFlow.Instants
import ConsensFlow.Times
import ConsensFlow.Sorting
import ConsensFlow.Due
import ConsensFlow.Lib.Climb
import ConsensFlow.Processes.Baseline
import ConsensFlow.Processes.Named
import ConsensFlow.Engine.Executor
import ConsensFlow.Bridge.Requests
import ConsensFlow.Words.PauseNotes
import ConsensFlow.Words.KeptWords
import ConsensFlow.Words.AnswerNotes
import ConsensFlow.Words.GoOnNotes
import ConsensFlow.Words.Arrivals
import ConsensFlow.Words.Pictures
import ConsensFlow.Words.BriefFirst
import ConsensFlow.Bridge.BoundedLines
import ConsensFlow.Harness.Tail
import ConsensFlow.Harness.Drawn
import ConsensFlow.Harness.Timeline
import ConsensFlow.Lib.Spans
import ConsensFlow.Shown.Mask
import ConsensFlow.Lib.Rows
import ConsensFlow.History.CopyRows
import ConsensFlow.History.PartByPart
import ConsensFlow.Quota.WallClock
import ConsensFlow.Quota.Reset
import ConsensFlow.Lib.Utf8
import ConsensFlow.Lib.Segments
import ConsensFlow.Paths.Segmented
import ConsensFlow.Paths.Win32
import ConsensFlow.Lib.Stable
import ConsensFlow.JsOrder
import ConsensFlow.Surrogates
import ConsensFlow.Processes.Runnable
import ConsensFlow.Engine.Pacing
import ConsensFlow.Lib.Utf16
import ConsensFlow.Handoff.Pages
import ConsensFlow.Handles
import ConsensFlow.Keeping
import ConsensFlow.Panes.Printed
import ConsensFlow.Harness.Ancestry
import ConsensFlow.Harness.Jobs
import ConsensFlow.Standing
import ConsensFlow.Panes.InputQueue
import ConsensFlow.Panes.PageInput
import ConsensFlow.Panes.OutputFlow
import ConsensFlow.Untouched
import ConsensFlow.Engine.Scheduler
import ConsensFlow.Codex.Forwarded
import ConsensFlow.Codex.Answered
import ConsensFlow.Codex.Settled
import ConsensFlow.Codex.Ended
import ConsensFlow.Codex.Delivery
