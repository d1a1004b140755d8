import Sigc.Reasoning.Program
import Sigc.Reasoning.FreshMap
import Sigc.Reasoning.Classes
import Sigc.Memory
import Sigc.Trackable
import Sigc.SlotBase
import Sigc.Framing
import Sigc.SignalBase
import Sigc.Emission
import Sigc.Client
import Sigc.Step
import Sigc.Effects
import Sigc.Sharing
import Sigc.Extends
import Sigc.Addressing
import Sigc.Linkage
import Sigc.ListSteps
import Sigc.ExecCount
import Sigc.Adaptors
import Sigc.AdaptorSafety
import Sigc.VisitorCoverage
import Sigc.Behaviour
import Sigc.Straight
import Sigc.SlotRuns
import Sigc.SignalRuns
import Sigc.EmissionRuns
import Sigc.ClientRuns
import Sigc.Nesting
import Sigc.Observers
import Sigc.Watching
import Sigc.WatchSteps
import Sigc.Connections
import Sigc.Paths
import Sigc.Accumulators
import Sigc.Tracking
import Sigc.ScopedConnection
import Sigc.Bookkeeping
import Sigc.Disconnecting
import Sigc.Ownership
import Sigc.Dependence
import Sigc.Tuples
import Sigc.Positions
import Sigc.CallbackWalk
import Sigc.Renotification
import Sigc.ThrowingCopy
import Sigc.Sparing
import Sigc.Destruction
import Sigc.Copying
import Sigc.Assignment
import Sigc.Agreement
import Sigc.StoredSource
import Sigc.Leaving
import Sigc.NewRep
import Sigc.Exchange
import Sigc.Entries
import Sigc.Uses
import Sigc.Sweeping
import Sigc.Clearing
import Sigc.Elements
import Sigc.Reasoning.Subscribers
import Sigc.Traversal
import Sigc.History
import Sigc.Register
import Sigc.Depth
import Sigc.Iterators
import Sigc.Clearance
import Sigc.Guarantees
import Sigc.Notified
import Sigc.Confluence
import Sigc.Safety
import Sigc.Stack
import Sigc.Lifetime
import Sigc.Observing
import Sigc.Refinement
import Sigc.Visits
import Sigc.Invocations
import Sigc.ClearWithin
import Sigc.Records
import Sigc.Emptying
