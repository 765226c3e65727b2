import ArmatureWebsocket.Execution
import ArmatureWebsocket.Interleaving
import ArmatureWebsocket.KeyMap
import ArmatureWebsocket.Visit
import ArmatureWebsocket.Trimming
import ArmatureWebsocket.Relay
import ArmatureWebsocket.CallPool
import ArmatureWebsocket.Guards
import ArmatureWebsocket.BoundedQueue
import ArmatureWebsocket.UnboundedQueue
import ArmatureWebsocket.Settings
import ArmatureWebsocket.Utf8
import ArmatureWebsocket.Utf8Text
import ArmatureWebsocket.Error
import ArmatureWebsocket.Message
import ArmatureWebsocket.Codec
import ArmatureWebsocket.Auth
import ArmatureWebsocket.Config
import ArmatureWebsocket.Connection
import ArmatureWebsocket.Overtaking
import ArmatureWebsocket.ConnPool
import ArmatureWebsocket.NoHoles
import ArmatureWebsocket.Outbound
import ArmatureWebsocket.Delivery
import ArmatureWebsocket.ReadLoop
import ArmatureWebsocket.Client
import ArmatureWebsocket.ClientReader
import ArmatureWebsocket.ClientDelivery
import ArmatureWebsocket.ClientClose
import ArmatureWebsocket.ClientBuilder
import ArmatureWebsocket.WriterLoop
import ArmatureWebsocket.WriterRuns
import ArmatureWebsocket.Session
import ArmatureWebsocket.WireLegality
import ArmatureWebsocket.Teardown
import ArmatureWebsocket.PanicFree
import ArmatureWebsocket.Timed
import ArmatureWebsocket.Eviction
import ArmatureWebsocket.Trace
import ArmatureWebsocket.Handshake
import ArmatureWebsocket.Origin
import ArmatureWebsocket.Serve
import ArmatureWebsocket.Authorization
import ArmatureWebsocket.ServeSessions
import ArmatureWebsocket.Admission
import ArmatureWebsocket.Contract
import ArmatureWebsocket.ServerBuilder
import ArmatureWebsocket.LivePeer
import ArmatureWebsocket.Heartbeat
import ArmatureWebsocket.Link
import ArmatureWebsocket.EndToEnd
import ArmatureWebsocket.Progress
import ArmatureWebsocket.SilentPeer
import ArmatureWebsocket.Drain
import ArmatureWebsocket.Lifetime
import ArmatureWebsocket.Room
import ArmatureWebsocket.RoomIndex
import ArmatureWebsocket.Reregistration
import ArmatureWebsocket.Broadcast
import ArmatureWebsocket.RoomSteps
import ArmatureWebsocket.UnregisterRace
import ArmatureWebsocket.EmptyRooms
import ArmatureWebsocket.Leftovers
import ArmatureWebsocket.JoinRace
import ArmatureWebsocket.DeleteRace
import ArmatureWebsocket.RoomAlone
import ArmatureWebsocket.Grouping
import ArmatureWebsocket.RoomRefinement
import ArmatureWebsocket.RoomCommute
import ArmatureWebsocket.HubSteps
import ArmatureWebsocket.HubBroadcast
import ArmatureWebsocket.HubRooms
import ArmatureWebsocket.HubCells
import ArmatureWebsocket.Pongs
