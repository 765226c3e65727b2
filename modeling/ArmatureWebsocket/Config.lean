import ArmatureWebsocket.Auth
import ArmatureWebsocket.Error

/-! # The server configuration and the calls made with its values

`WebSocketServerConfig.validate` is the check that stands between a configuration and a server.
The values that pass it go to library functions that panic when their arguments are out of range;
`LibraryCall` lists these calls and `LibraryCall.Safe` is their documented precondition.  Code that
makes such a call runs `checked` first, so that a violated precondition ends it with a panic.

Sizes, durations and instants are natural numbers, durations and instants in nanoseconds.  Adding a
duration to an instant panics past `instantMax`, the last instant that the platform represents.

The bind address is left out: nothing modelled here reads it. -/

namespace ArmatureWebsocket

/-- The largest `usize`. -/
def USIZE_MAX : ℕ := 2 ^ 64 - 1

/-- The most permits that a semaphore, and with it a channel, can have. -/
def MAX_PERMITS : ℕ := USIZE_MAX >>> 3

/-- tungstenite's write buffer size. -/
def WRITE_BUFFER_SIZE : ℕ := 128 * 1024

/-- WebSocket server configuration. -/
structure WebSocketServerConfig where
  maxMessageSize : ℕ
  maxFrameSize : ℕ
  maxWriteBufferSize : ℕ
  outboundQueueCapacity : ℕ
  maxConnections : ℕ
  handshakeTimeout : ℕ
  closeTimeout : ℕ
  heartbeatInterval : ℕ
  connectionTimeout : ℕ
  originPolicy : OriginPolicy
deriving DecidableEq, Repr

/-- The part of the protocol library's configuration that the server sets. -/
structure WebSocketConfig where
  maxMessageSize : Option ℕ
  maxFrameSize : Option ℕ
  writeBufferSize : ℕ
  maxWriteBufferSize : ℕ
deriving DecidableEq, Repr

/-- The library calls that panic on arguments out of range. -/
inductive LibraryCall where
  | semaphoreNew (permits : ℕ)
  | acceptWith (config : WebSocketConfig)
  | mpscChannel (buffer : ℕ)
  | interval (period : ℕ)
  | instantAdd (instant duration : ℕ)
deriving DecidableEq, Repr

/-- The call does not panic. -/
def LibraryCall.Safe (instantMax : ℕ) : LibraryCall → Prop
  | .semaphoreNew permits => permits ≤ MAX_PERMITS
  | .acceptWith config => config.writeBufferSize < config.maxWriteBufferSize
  | .mpscChannel buffer => 0 < buffer ∧ buffer ≤ MAX_PERMITS
  | .interval period => 0 < period
  | .instantAdd instant duration => instant + duration ≤ instantMax

instance (instantMax : ℕ) (call : LibraryCall) : Decidable (call.Safe instantMax) :=
  match call with
  | .semaphoreNew _ => inferInstanceAs (Decidable (_ ≤ _))
  | .acceptWith _ => inferInstanceAs (Decidable (_ < _))
  | .mpscChannel _ => inferInstanceAs (Decidable (_ ∧ _))
  | .interval _ => inferInstanceAs (Decidable (_ < _))
  | .instantAdd _ _ => inferInstanceAs (Decidable (_ ≤ _))

/-- Make a library call: go on, or panic. -/
def checked (instantMax : ℕ) (call : LibraryCall) : Except LibraryCall Unit :=
  if call.Safe instantMax then .ok () else .error call

theorem checked_eq_ok_iff {instantMax : ℕ} {call : LibraryCall} :
    checked instantMax call = .ok () ↔ call.Safe instantMax := by
  unfold checked
  split_ifs with h <;> simp [h]

theorem checked_eq_error_iff {instantMax : ℕ} {call why : LibraryCall} :
    checked instantMax call = .error why ↔ why = call ∧ ¬ call.Safe instantMax := by
  unfold checked
  split_ifs with h <;> simp [h, eq_comm]

namespace WebSocketServerConfig

/-- The default configuration. -/
def default : WebSocketServerConfig where
  maxMessageSize := 64 * 1024
  maxFrameSize := 64 * 1024
  maxWriteBufferSize := 4 * 1024 * 1024
  outboundQueueCapacity := 1024
  maxConnections := 10000
  handshakeTimeout := 10 * 10 ^ 9
  closeTimeout := 5 * 10 ^ 9
  heartbeatInterval := 30 * 10 ^ 9
  connectionTimeout := 60 * 10 ^ 9
  originPolicy := .default

/-- The error of a configuration that is not accepted. -/
def invalid (m : String) : WebSocketResult Unit := .error (.server ("Invalid config: " ++ m))

/-- The check that a server is only built from configurations that pass. -/
def validate (config : WebSocketServerConfig) : WebSocketResult Unit :=
  if config.maxMessageSize = 0 ∨ config.maxFrameSize = 0 then
    invalid "max_message_size and max_frame_size must be non-zero"
  else if config.maxWriteBufferSize ≤ WRITE_BUFFER_SIZE then
    invalid "max_write_buffer_size must be larger than 128 KiB"
  else if config.outboundQueueCapacity = 0 then
    invalid "outbound_queue_capacity must be non-zero"
  else if config.maxConnections = 0 ∨ config.maxConnections > MAX_PERMITS then
    invalid "max_connections is out of range"
  else .ok ()

/-- The protocol library's configuration. -/
def wsConfig (config : WebSocketServerConfig) : WebSocketConfig where
  maxMessageSize := some config.maxMessageSize
  maxFrameSize := some config.maxFrameSize
  writeBufferSize := WRITE_BUFFER_SIZE
  maxWriteBufferSize := config.maxWriteBufferSize

/-- What the check guarantees. -/
structure Accepted (config : WebSocketServerConfig) : Prop where
  message_size_pos : 0 < config.maxMessageSize
  frame_size_pos : 0 < config.maxFrameSize
  write_buffer_lt : WRITE_BUFFER_SIZE < config.maxWriteBufferSize
  queue_capacity_pos : 0 < config.outboundQueueCapacity
  connections_pos : 0 < config.maxConnections
  connections_le : config.maxConnections ≤ MAX_PERMITS

theorem validate_eq_ok_iff {config : WebSocketServerConfig} :
    config.validate = .ok () ↔ config.Accepted := by
  unfold validate invalid
  constructor
  · intro h
    split_ifs at h
    exact ⟨by omega, by omega, by omega, by omega, by omega, by omega⟩
  · intro h
    obtain ⟨hmessage, hframe, hbuffer, hqueue, hpos, hle⟩ := h
    rw [if_neg (by omega), if_neg (by omega), if_neg (by omega), if_neg (by omega)]

theorem validate_default : default.validate = .ok () := by decide

end WebSocketServerConfig

/-- A server: its configuration and the number of its connection slots. -/
structure WebSocketServer where
  config : WebSocketServerConfig
  connectionSlots : ℕ
deriving DecidableEq, Repr

/-- Build a server from a configuration, unless it is refused. -/
def WebSocketServer.fromParts (instantMax : ℕ) (config : WebSocketServerConfig) :
    Except LibraryCall (WebSocketResult WebSocketServer) :=
  match config.validate with
  | .error e => .ok (.error e)
  | .ok () =>
      match checked instantMax (.semaphoreNew config.maxConnections) with
      | .error why => .error why
      | .ok () => .ok (.ok ⟨config, config.maxConnections⟩)

/-- A server is built from exactly the accepted configurations, without a panic. -/
theorem WebSocketServer.fromParts_eq {instantMax : ℕ} {config : WebSocketServerConfig} :
    fromParts instantMax config =
      .ok (config.validate.map fun _ => ⟨config, config.maxConnections⟩) := by
  unfold fromParts
  cases h : config.validate with
  | error e => rfl
  | ok u =>
      have hsafe : (LibraryCall.semaphoreNew config.maxConnections).Safe instantMax :=
        (WebSocketServerConfig.validate_eq_ok_iff.mp h).connections_le
      simp only [checked_eq_ok_iff.mpr hsafe]
      rfl

end ArmatureWebsocket
