import EvictingDeque.Binary64.Basic
import EvictingDeque.Binary64.Decimal
import EvictingDeque.Deque.Basic
import EvictingDeque.Deque.Bounds
import EvictingDeque.Deque.Edit
import EvictingDeque.Deque.Order
import EvictingDeque.Deque.Refusal
import EvictingDeque.Deque.Repetition
import EvictingDeque.Deque.Search
import EvictingDeque.Deque.Walk
import EvictingDeque.Deque.Written
import EvictingDeque.Document.Basic
import EvictingDeque.Document.Stored
import EvictingDeque.DoubleEnded
import EvictingDeque.Memo
import EvictingDeque.Proofs.Bounds.Runs
import EvictingDeque.Proofs.Comparing.Asking
import EvictingDeque.Proofs.Comparing.Coherence
import EvictingDeque.Proofs.Comparing.Copies
import EvictingDeque.Proofs.Comparing.Ending
import EvictingDeque.Proofs.Comparing.Equivalence
import EvictingDeque.Proofs.Comparing.Looking
import EvictingDeque.Proofs.Comparing.Ordering
import EvictingDeque.Proofs.Comparing.Recurring
import EvictingDeque.Proofs.Comparing.Searching
import EvictingDeque.Proofs.Comparing.Verdicts
import EvictingDeque.Proofs.Conservation.Runs
import EvictingDeque.Proofs.Conservation.Steps
import EvictingDeque.Proofs.Conservation.Trades
import EvictingDeque.Proofs.Cursor.CutShort
import EvictingDeque.Proofs.Cursor.Extending
import EvictingDeque.Proofs.Cursor.Over
import EvictingDeque.Proofs.Cursor.Snapshot
import EvictingDeque.Proofs.Cursor.Told
import EvictingDeque.Proofs.Deque.Changes
import EvictingDeque.Proofs.Deque.Concatenating
import EvictingDeque.Proofs.Deque.Contents
import EvictingDeque.Proofs.Deque.Draining
import EvictingDeque.Proofs.Deque.Idle
import EvictingDeque.Proofs.Deque.Inserting
import EvictingDeque.Proofs.Deque.Nested
import EvictingDeque.Proofs.Deque.Ranges
import EvictingDeque.Proofs.Deque.Repeating
import EvictingDeque.Proofs.Deque.Rotating
import EvictingDeque.Proofs.Deque.Words
import EvictingDeque.Proofs.Documents.Reading
import EvictingDeque.Proofs.Documents.RoundTrip
import EvictingDeque.Proofs.Frame.Copies
import EvictingDeque.Proofs.Frame.Handles
import EvictingDeque.Proofs.Frame.Places
import EvictingDeque.Proofs.Frame.Runs
import EvictingDeque.Proofs.Frame.Steps
import EvictingDeque.Proofs.Interpreter.AtHand
import EvictingDeque.Proofs.Interpreter.Cells
import EvictingDeque.Proofs.Interpreter.Course
import EvictingDeque.Proofs.Interpreter.Depth
import EvictingDeque.Proofs.Interpreter.Outcomes
import EvictingDeque.Proofs.Interpreter.Proper
import EvictingDeque.Proofs.Interpreter.Relation
import EvictingDeque.Proofs.Interpreter.SafeSteps
import EvictingDeque.Proofs.Interpreter.Safety
import EvictingDeque.Proofs.Interpreter.Steps
import EvictingDeque.Proofs.Locks.Conflicts
import EvictingDeque.Proofs.Locks.Detected
import EvictingDeque.Proofs.Locks.Refusals
import EvictingDeque.Proofs.Locks.Released
import EvictingDeque.Proofs.Mirror.Deque
import EvictingDeque.Proofs.Mirror.Runs
import EvictingDeque.Proofs.Mutations.Counted
import EvictingDeque.Proofs.Mutations.Operations
import EvictingDeque.Proofs.Mutations.Still
import EvictingDeque.Proofs.Ownership.Lifetimes
import EvictingDeque.Proofs.Ownership.Living
import EvictingDeque.Proofs.Ownership.Owning
import EvictingDeque.Proofs.Ownership.Shunning
import EvictingDeque.Proofs.Ownership.ShunningActions
import EvictingDeque.Proofs.Ownership.ShunningSteps
import EvictingDeque.Proofs.Plain.Agreement
import EvictingDeque.Proofs.Plain.Model
import EvictingDeque.Proofs.Plain.Runs
import EvictingDeque.Proofs.Plain.Searching
import EvictingDeque.Proofs.Plain.Steps
import EvictingDeque.Proofs.Search.Comparisons
import EvictingDeque.Proofs.Search.Reentrant
import EvictingDeque.Proofs.Search.Rereading
import EvictingDeque.Proofs.Text.Unescaping
import EvictingDeque.Proofs.Warnings.Calls
import EvictingDeque.Proofs.Warnings.Switch
import EvictingDeque.Proofs.Warnings.Trails
import EvictingDeque.Proofs.Window.History
import EvictingDeque.Proofs.Window.Trailing
import EvictingDeque.Proofs.Writing.Finishing
import EvictingDeque.Proofs.Writing.Modest
import EvictingDeque.Proofs.Writing.Paths
import EvictingDeque.Proofs.Writing.Reaching
import EvictingDeque.Proofs.Writing.Snapshot
import EvictingDeque.Proofs.Writing.Unambiguous
import EvictingDeque.Session.Access
import EvictingDeque.Session.Comparing
import EvictingDeque.Session.Meaning
import EvictingDeque.Session.Owned
import EvictingDeque.Session.Owners
import EvictingDeque.Session.Ownership
import EvictingDeque.Session.Performing
import EvictingDeque.Session.Run
import EvictingDeque.Session.Searching
import EvictingDeque.Session.Shared
import EvictingDeque.Session.State
import EvictingDeque.Session.Step
import EvictingDeque.Session.Writing
import EvictingDeque.Settings
import EvictingDeque.Shared.Cell
import EvictingDeque.Shared.Cursor
import EvictingDeque.Table
import EvictingDeque.Text.Quoted
import EvictingDeque.Text.Visible
import EvictingDeque.Value.Basic
import EvictingDeque.Value.Order
import EvictingDeque.Value.Stored
import EvictingDeque.Warning
import EvictingDeque.Word
