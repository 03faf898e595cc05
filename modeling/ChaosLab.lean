import ChaosLab.Foundation.Transition
import ChaosLab.Foundation.WriteOnce
import ChaosLab.Foundation.Delimited
import ChaosLab.Foundation.OrderedMap
import ChaosLab.Foundation.Radix
import ChaosLab.Foundation.Words
import ChaosLab.Foundation.Json
import ChaosLab.Foundation.JsonText
import ChaosLab.Foundation.JsonPieces
import ChaosLab.Bytes
import ChaosLab.BytesProperties
import ChaosLab.Text
import ChaosLab.TextProperties
import ChaosLab.Foundation.Blocks
import ChaosLab.Foundation.Sha2
import ChaosLab.Digest
import ChaosLab.DigestProperties
import ChaosLab.Evidence
import ChaosLab.EscapeProperties
import ChaosLab.EvidenceFieldsProperties
import ChaosLab.EvidenceRoundTrip
import ChaosLab.EvidenceCanonical
import ChaosLab.EvidenceColumns
import ChaosLab.EvidenceCuts
import ChaosLab.EvidencePhase
import ChaosLab.EvidencePinned
import ChaosLab.EvidenceJson
import ChaosLab.EvidenceJsonProperties
import ChaosLab.Replay
import ChaosLab.ReplayCoherence
import ChaosLab.ReplayProperties
import ChaosLab.CompareProperties
import ChaosLab.Tcp
import ChaosLab.RuntimeProtocol
import ChaosLab.RuntimeProtocolProperties
import ChaosLab.Foundation.Departures
import ChaosLab.Sending
import ChaosLab.Coordinator
import ChaosLab.CoordinatorRun
import ChaosLab.CoordinatorRunProperties
import ChaosLab.CoordinatorProperties
import ChaosLab.CoordinatorLedger
import ChaosLab.CoordinatorAccept
import ChaosLab.CoordinatorAuthority
import ChaosLab.CoordinatorCommit
import ChaosLab.CoordinatorRestart
import ChaosLab.CoordinatorLiveness
import ChaosLab.CoordinatorSubmit
import ChaosLab.CoordinatorOrders
import ChaosLab.TargetWorker
import ChaosLab.FreshWork
import ChaosLab.WorkerLife
import ChaosLab.Foundation.Projection
import ChaosLab.Foundation.Channels
import ChaosLab.Network
import ChaosLab.NetworkProperties
import ChaosLab.NetworkResults
import ChaosLab.Foundation.Arrivals
import ChaosLab.Foundation.Framing
import ChaosLab.Frame
import ChaosLab.FrameProperties
import ChaosLab.Transport
import ChaosLab.TransportRelay
import ChaosLab.TransportProperties
import ChaosLab.TransportEndToEnd
import ChaosLab.Foundation.StopFlag
import ChaosLab.TransportDuplex
import ChaosLab.TransportLoss
import ChaosLab.Foundation.Mixing
import ChaosLab.Random
import ChaosLab.RandomProperties
import ChaosLab.HexProperties
import ChaosLab.Identity
import ChaosLab.Fault
import ChaosLab.Campaign
import ChaosLab.CampaignProperties
import ChaosLab.Foundation.Deletion
import ChaosLab.Fuzz
import ChaosLab.FuzzBounds
import ChaosLab.FuzzProperties
import ChaosLab.ReduceProperties
import ChaosLab.Scheduler
import ChaosLab.SchedulerProperties
import ChaosLab.Foundation.Latch
import ChaosLab.SchedulerFiring
import ChaosLab.Foundation.Generations
import ChaosLab.Authority
import ChaosLab.AuthorityProperties
import ChaosLab.Foundation.HighWater
import ChaosLab.Safety
import ChaosLab.SafetyProperties
import ChaosLab.Foundation.Threads
import ChaosLab.EvidenceLines
import ChaosLab.EvidenceNumbering
import ChaosLab.Foundation.Paths
import ChaosLab.SafetyPaths
import ChaosLab.TransportAccounting
import ChaosLab.TransportAmbiguity
import ChaosLab.Foundation.Numbering
import ChaosLab.IdentityProperties
import ChaosLab.Assertions
import ChaosLab.Scenario
import ChaosLab.ScenarioLockStep
import ChaosLab.ScenarioProperties
import ChaosLab.AssertionProperties
import ChaosLab.Foundation.Misread
import ChaosLab.SchedulerCounts
import ChaosLab.Foundation.Quoting
import ChaosLab.Foundation.Terminated
import ChaosLab.Process
import ChaosLab.CommandLineProperties
import ChaosLab.EnvironmentProperties
import ChaosLab.Foundation.FileStream
import ChaosLab.Persistence
import ChaosLab.PersistenceProperties
import ChaosLab.Resource
import ChaosLab.ResourceProperties
import ChaosLab.Foundation.Ownership
import ChaosLab.OwnedBlock
import ChaosLab.ProcessHandles
import ChaosLab.ProcessHandlesProperties
import ChaosLab.CoordinatorReplies
import ChaosLab.Controller
import ChaosLab.ControllerProperties
import ChaosLab.ControllerResults
import ChaosLab.CoordinatorEpochs
import ChaosLab.Foundation.Needles
import ChaosLab.Foundation.Lexicographic
import ChaosLab.Output
import ChaosLab.OutputProperties
