import PeerCluster.Backlog
import PeerCluster.Backlog.Calls
import PeerCluster.Backlog.Timeline
import PeerCluster.BacklogWorker
import PeerCluster.BacklogWorker.Calls
import PeerCluster.Beacon
import PeerCluster.Beacon.Buffer
import PeerCluster.Beacon.Calls
import PeerCluster.BigEndian
import PeerCluster.Channels
import PeerCluster.CommandLine
import PeerCluster.Courier
import PeerCluster.CourierPool
import PeerCluster.CourierPool.Sweeps
import PeerCluster.DeliveryError
import PeerCluster.Exchange
import PeerCluster.Feed
import PeerCluster.Feed.Calls
import PeerCluster.Feed.Crowd
import PeerCluster.Feed.Script
import PeerCluster.Frame
import PeerCluster.Frame.Kind
import PeerCluster.FrameStream
import PeerCluster.Handshake
import PeerCluster.Health
import PeerCluster.HealthBoard
import PeerCluster.HealthBoard.Uses
import PeerCluster.Heartbeat.Packet
import PeerCluster.Inbound
import PeerCluster.IoFault
import PeerCluster.Json.Printer
import PeerCluster.Json.Reader
import PeerCluster.Json.Record
import PeerCluster.Json.Token
import PeerCluster.Json.Value
import PeerCluster.Live.Loop
import PeerCluster.Live.Sockets
import PeerCluster.Mailing
import PeerCluster.Member
import PeerCluster.Member.Id
import PeerCluster.Member.Map
import PeerCluster.MemberEvent
import PeerCluster.Net.Address
import PeerCluster.Net.Printer
import PeerCluster.Net.Reader
import PeerCluster.Node
import PeerCluster.Notice
import PeerCluster.Radix
import PeerCluster.Roster
import PeerCluster.Settings.Basic
import PeerCluster.Settings.Excerpt
import PeerCluster.Settings.Load
import PeerCluster.Settings.Printer
import PeerCluster.Settings.Reader
import PeerCluster.Simulation.Caller
import PeerCluster.Simulation.Depot
import PeerCluster.Simulation.Machine
import PeerCluster.Simulation.Network
import PeerCluster.Simulation.Peer
import PeerCluster.Simulation.Station
import PeerCluster.Startup
import PeerCluster.Text.Ascii
import PeerCluster.Text.Hex
import PeerCluster.Text.Utf8
import PeerCluster.WireError
import PeerCluster.Main
import PeerCluster.Proofs.AcknowledgedDelivery
import PeerCluster.Proofs.CutStreams
import PeerCluster.Proofs.DeliveryOrder
import PeerCluster.Proofs.FailureDetection
import PeerCluster.Proofs.FanOut
import PeerCluster.Proofs.HeartbeatCodec
import PeerCluster.Proofs.MemberEvents
import PeerCluster.Proofs.ServedStreams
import PeerCluster.Proofs.BacklogAccount
import PeerCluster.Proofs.BeaconSteps
import PeerCluster.Proofs.OverlappingCalls
import PeerCluster.Proofs.BeaconLifecycle
import PeerCluster.Proofs.PeerWorlds
import PeerCluster.Proofs.Receptions
import PeerCluster.Proofs.Errands
import PeerCluster.Proofs.FanOutModes
import PeerCluster.Proofs.RosterHistory
import PeerCluster.Proofs.Announcements
import PeerCluster.Proofs.HeartbeatConvergence
import PeerCluster.Proofs.Pieces
import PeerCluster.Proofs.BacklogWaits
import PeerCluster.Proofs.TimelineScenes
import PeerCluster.Proofs.WorkerAccount
import PeerCluster.Proofs.WorkerScenes
import PeerCluster.Proofs.WorkerRest
import PeerCluster.Proofs.WorkerOrder
import PeerCluster.Proofs.StreamEnds
import PeerCluster.Proofs.CourierRecords
import PeerCluster.Proofs.CourierLives
import PeerCluster.Proofs.Acquaintances
import PeerCluster.Proofs.DepartedPeers
import PeerCluster.Proofs.DeliveryTranscripts
import PeerCluster.Proofs.PostedCells
import PeerCluster.Proofs.MailingMinutes
import PeerCluster.Proofs.HealthEpisodes
import PeerCluster.Proofs.Introductions
import PeerCluster.Proofs.ForeignTraffic
import PeerCluster.Proofs.Dismissals
import PeerCluster.Proofs.TendedPeers
import PeerCluster.Proofs.PoolConsistency
import PeerCluster.Proofs.Reentrancy
import PeerCluster.Proofs.ScriptScenes
import PeerCluster.Proofs.SocketErrors
import PeerCluster.Proofs.BoundedRetry
import PeerCluster.Proofs.HeldConnections
import PeerCluster.Proofs.UnsendableMessages
import PeerCluster.Proofs.CutSweeps
import PeerCluster.Proofs.DirectedPlans
import PeerCluster.Proofs.CourierDestinations
import PeerCluster.Proofs.DeliveryAddresses
import PeerCluster.Proofs.SharedCells
import PeerCluster.Proofs.LostCancellations
import PeerCluster.Proofs.WellFormedBytes
import PeerCluster.Proofs.AddressText
import PeerCluster.Proofs.RecordExcerpts
import PeerCluster.Proofs.SettingsText
import PeerCluster.Proofs.CutHeartbeats
import PeerCluster.Proofs.IdTexts
import PeerCluster.Proofs.ConnectionAccounts
import PeerCluster.Proofs.NumberRanges
import PeerCluster.Proofs.PeerAddresses
import PeerCluster.Proofs.MovedPeers
