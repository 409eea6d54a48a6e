import DaimDistributed.AddPeer
import DaimDistributed.Agreement
import DaimDistributed.Backpressure
import DaimDistributed.Baseline
import DaimDistributed.BigEndian
import DaimDistributed.BridgeLearning
import DaimDistributed.Buffers
import DaimDistributed.CText
import DaimDistributed.CappedMap
import DaimDistributed.Chain
import DaimDistributed.Cluster
import DaimDistributed.Codecs
import DaimDistributed.Collecting
import DaimDistributed.Conflict
import DaimDistributed.Core
import DaimDistributed.CoreBodies
import DaimDistributed.CoreLinearizable
import DaimDistributed.CoreMonitor
import DaimDistributed.CoreTables
import DaimDistributed.Coverage
import DaimDistributed.Deferral
import DaimDistributed.Delimited
import DaimDistributed.Destroy
import DaimDistributed.DialLoop
import DaimDistributed.Dissemination
import DaimDistributed.ErrorCodec
import DaimDistributed.Exchange
import DaimDistributed.FlowGrammar
import DaimDistributed.FlowMod
import DaimDistributed.FlowRules
import DaimDistributed.FlowString
import DaimDistributed.Flows
import DaimDistributed.Forwarding
import DaimDistributed.Framing
import DaimDistributed.FullMesh
import DaimDistributed.HostInv
import DaimDistributed.HostMonitor
import DaimDistributed.HostState
import DaimDistributed.HostTable
import DaimDistributed.Interpolation
import DaimDistributed.LearningApp
import DaimDistributed.Lifecycle
import DaimDistributed.Live
import DaimDistributed.LoadProfile
import DaimDistributed.Merge
import DaimDistributed.Monitors
import DaimDistributed.NodeRun
import DaimDistributed.OfMessage
import DaimDistributed.OfSwitch
import DaimDistributed.OutgoingStreams
import DaimDistributed.Ownership
import DaimDistributed.Percentile
import DaimDistributed.PersistentReader
import DaimDistributed.PersistentWriter
import DaimDistributed.Phases
import DaimDistributed.Protocol
import DaimDistributed.Registers
import DaimDistributed.Rejection
import DaimDistributed.ScriptedPeer
import DaimDistributed.SendFramed
import DaimDistributed.SendRoles
import DaimDistributed.Sequence
import DaimDistributed.Shutdown
import DaimDistributed.ShutdownSweep
import DaimDistributed.Sightings
import DaimDistributed.SingleSwitch
import DaimDistributed.Slots
import DaimDistributed.TableRefinement
import DaimDistributed.TableScan
import DaimDistributed.Threads
import DaimDistributed.Traffic
import DaimDistributed.Transitions
import DaimDistributed.Transport
import DaimDistributed.Wiring
