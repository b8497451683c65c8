import McpVenusOs.Lib.Machine
import McpVenusOs.Lib.Program
import McpVenusOs.Lib.PyValue
import McpVenusOs.Lib.PyFloat
import McpVenusOs.Lib.PyInt
import McpVenusOs.Lib.Regex
import McpVenusOs.HardwareContracts
import McpVenusOs.Config
import McpVenusOs.Safety
import McpVenusOs.NumericGates
import McpVenusOs.DenyPatterns
import McpVenusOs.Lib.Rotation
import McpVenusOs.Lib.TopicFilter
import McpVenusOs.Lib.TarGz
import McpVenusOs.Lib.Register
import McpVenusOs.Lib.JsonScan
import McpVenusOs.Lib.JsonTree
import McpVenusOs.Capabilities
import McpVenusOs.Telemetry
import McpVenusOs.Mqtt.Filters
import McpVenusOs.Mqtt.State
import McpVenusOs.Mqtt.RefreshTopics
import McpVenusOs.Mqtt.Devices
import McpVenusOs.Mqtt.Dispatch
import McpVenusOs.Mqtt.Callbacks
import McpVenusOs.Mqtt.ReadFeed
import McpVenusOs.Mqtt.Decoder
import McpVenusOs.Mqtt.Lifecycle
import McpVenusOs.Mqtt.Machine
import McpVenusOs.Mqtt.SocketEvents
import McpVenusOs.Mqtt.FeedRuns
import McpVenusOs.Mqtt.FeedCalls
import McpVenusOs.Mqtt.FeedPacing
import McpVenusOs.Mqtt.FeedRotation
import McpVenusOs.Mqtt.Ownership
import McpVenusOs.Mqtt.SingleTransport
import McpVenusOs.Mqtt.Stale
import McpVenusOs.Mqtt.Pending
import McpVenusOs.Mqtt.Provenance
import McpVenusOs.Mqtt.Removal
import McpVenusOs.Mqtt.Subscriptions
import McpVenusOs.Mqtt.Accounting
import McpVenusOs.Server.Tools
import McpVenusOs.Server.Reads
import McpVenusOs.Server.Tanks
import McpVenusOs.Server.Registration
import McpVenusOs.Server.Readings
import McpVenusOs.Server.ReadSurvival
import McpVenusOs.Server.LiveReads
import McpVenusOs.Server.DeviceList
import McpVenusOs.Server.PlainValues
import McpVenusOs.Server.Rules
import McpVenusOs.Server.Admission
import McpVenusOs.Server.Acknowledgement
import McpVenusOs.Server.Consumers
import McpVenusOs.Ssh.Client
import McpVenusOs.Ssh.Tools
import McpVenusOs.Ssh.Admission
import McpVenusOs.Ssh.Connection
import McpVenusOs.Ssh.Arguments
import McpVenusOs.Release.Sdist
import McpVenusOs.Release.Plan
import McpVenusOs.Release.Ledger
import McpVenusOs.Release.LedgerCalls
import McpVenusOs.Release.LedgerInvariant
import McpVenusOs.Release.Reservations
import McpVenusOs.Release.Projections
import McpVenusOs.Release.JsonDocument
import McpVenusOs.Release.JsonEdit
