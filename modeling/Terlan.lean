import Terlan.ExecutionShard.Supervisor
import Terlan.Coordination.Membership
import Terlan.TermFormat.Limits
import Terlan.Coordination.Delivery
import Terlan.Memory
import Terlan.Failure.Store
import Terlan.Http.Router
import Terlan.WebSocket.Pairing
import Terlan.NativeIr.ShortCircuit
import Terlan.NativeIr.Escape
import Terlan.Purity.Soundness
import Terlan.ValueLifecycle.CaptureFree
import Terlan.ValueLifecycle.Agreement
import Terlan.NativeIr.Sharing
import Terlan.Typeck.UnionNormal
import Terlan.Typeck.AlphaEquivalence
import Terlan.Typeck.FiniteCoverage
import Terlan.Typeck.AliasExpansion
import Terlan.ValueLifecycle.ConstGenericRewriting
import Terlan.Formatter.GroupedCases
import Terlan.WorkStealing
import Terlan.Scheduler.Bypass
import Terlan.ActorDirectory.Parking
import Terlan.ValueHash
import Terlan.StringPattern
import Terlan.Tcp.Framing
import Terlan.Supervision.Incarnation
import Terlan.Managed.Layout
import Terlan.Managed.List
import Terlan.NativeBoundary.Worker
import Terlan.CodeServer
import Terlan.Packet.Stability
import Terlan.Http.Http1
import Terlan.PersistentActorCompaction
import Terlan.PersistentActorRestore
import Terlan.PersistentMap.IndexDepth
import Terlan.Http.SessionRegistry
