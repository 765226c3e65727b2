import ArmatureWebsocket.Admission
import ArmatureWebsocket.Origin
import ArmatureWebsocket.Settings

/-! # Building a server

`WebSocketServerBuilder` is set up by a chain of calls and then built; `set` has the setters and
`chain` is a chain with its `build`.  `parse` reads the text of a socket address.

`BuilderCall.gives` is what a call gives values to, and `lastOf` the values that a chain gave last.
What comes of any chain is said in these terms (`chain_eq`), and so is who gets a connection of the
server that it builds (`built_serves`). -/

namespace ArmatureWebsocket

open Execution Settings

/-- The address of a socket. -/
inductive SocketAddr where
  | v4 (ip : UInt8 × UInt8 × UInt8 × UInt8) (port : UInt16)
  | v6 (ip : BitVec 128) (port : UInt16) (flowinfo scopeId : UInt32)
deriving DecidableEq, Repr

namespace SocketAddr

/-- `127.0.0.1:9001`. -/
def default : SocketAddr := .v4 (127, 0, 0, 1) 9001

/-- Only processes of the same host can connect to it. -/
def isLoopback : SocketAddr → Bool
  | .v4 (a, _, _, _) _ => a == 127
  | .v6 ip _ _ _ => ip == 1

end SocketAddr

/-- A value whose type is an authorizer: `AllowAnonymous`, or one of any other type. -/
inductive AuthorizerValue where
  | allowAnonymous
  | other (authorize : HandshakeAuthorizer)

namespace AuthorizerValue

/-- What the value does. -/
def authorize : AuthorizerValue → HandshakeAuthorizer
  | allowAnonymous => AllowAnonymous
  | other authorize => authorize

/-- The type of the value is `AllowAnonymous`. -/
def isAllowAnonymous : AuthorizerValue → Bool
  | allowAnonymous => true
  | other _ => false

end AuthorizerValue

/-- What is logged as a warning when a server is built. -/
inductive BuildWarning where
  | unauthenticated
  | anyOrigin
deriving DecidableEq, Repr

/-- A server with all that it runs with, and what was logged when it was built. -/
structure BuiltServer extends WebSocketServer where
  bindAddr : SocketAddr
  authorizer : HandshakeAuthorizer
  manager : RoomPool RoomThread
  warnings : List BuildWarning

namespace BuiltServer

/-- The warnings of a server. -/
def warningsOf (config : WebSocketServerConfig) (anonymous : Bool) : List BuildWarning :=
  (if anonymous then [.unauthenticated] else []) ++
    if config.originPolicy = .any then [.anyOrigin] else []

/-- Build a server from its parts, unless the configuration is refused. -/
def fromParts (instantMax : ℕ) (bindAddr : SocketAddr) (config : WebSocketServerConfig)
    (authorizer : HandshakeAuthorizer) (anonymous : Bool) :
    Except LibraryCall (WebSocketResult BuiltServer) :=
  (WebSocketServer.fromParts instantMax config).map fun result => result.map fun server =>
    { server with
      bindAddr := bindAddr
      authorizer := authorizer
      manager := .new
      warnings := warningsOf config anonymous }

/-- Create a server. -/
def new (instantMax : ℕ) (bindAddr : SocketAddr) (config : WebSocketServerConfig)
    (authorizer : AuthorizerValue) : Except LibraryCall (WebSocketResult BuiltServer) :=
  fromParts instantMax bindAddr config authorizer.authorize authorizer.isAllowAnonymous

/-- Run the server; `listen` binds the listener. -/
def run (listen : SocketAddr → Except String Unit) (server : BuiltServer) : WebSocketResult Serve :=
  match listen server.bindAddr with
  | .error reason => .error (.io reason)
  | .ok () => .ok { Serve.new server.config with rooms := server.manager }

/-- A server is built from exactly the accepted configurations, without a panic. -/
theorem fromParts_eq {instantMax : ℕ} {bindAddr : SocketAddr} {config : WebSocketServerConfig}
    {authorizer : HandshakeAuthorizer} {anonymous : Bool} :
    fromParts instantMax bindAddr config authorizer anonymous =
      .ok (config.validate.map fun _ => {
        config := config
        connectionSlots := config.maxConnections
        bindAddr := bindAddr
        authorizer := authorizer
        manager := .new
        warnings := warningsOf config anonymous }) := by
  unfold fromParts
  rw [WebSocketServer.fromParts_eq]
  cases config.validate with
  | error e => rfl
  | ok u => rfl

end BuiltServer

/-- A builder of servers. -/
@[ext] structure WebSocketServerBuilder where
  bindAddr : SocketAddr
  config : WebSocketServerConfig
  authorizer : Option HandshakeAuthorizer
  anonymous : Bool

/-- The setters with their arguments. -/
inductive BuilderCall where
  | bindAddr (addr : SocketAddr)
  | bind (addr : String)
  | maxMessageSize (size : ℕ)
  | maxFrameSize (size : ℕ)
  | maxWriteBufferSize (size : ℕ)
  | outboundQueueCapacity (capacity : ℕ)
  | maxConnections (max : ℕ)
  | handshakeTimeout (timeout : ℕ)
  | closeTimeout (timeout : ℕ)
  | heartbeatInterval (interval : ℕ)
  | connectionTimeout (timeout : ℕ)
  | originPolicy (policy : OriginPolicy)
  | allowedOrigins (origins : List String)
  | authorizer (value : AuthorizerValue)
  | allowAnonymous

namespace WebSocketServerBuilder

/-- A builder with the default configuration and no authorizer. -/
def new : WebSocketServerBuilder := ⟨.default, .default, none, false⟩

/-- Set the browser-origin policy. -/
def setOriginPolicy (b : WebSocketServerBuilder) (policy : OriginPolicy) : WebSocketServerBuilder :=
  { b with config := { b.config with originPolicy := policy } }

section

variable (parse : String → Except String SocketAddr)

/-- The setters. -/
def set (b : WebSocketServerBuilder) : BuilderCall → WebSocketResult WebSocketServerBuilder
  | .bindAddr addr => .ok { b with bindAddr := addr }
  | .bind addr =>
      match parse addr with
      | .ok addr => .ok { b with bindAddr := addr }
      | .error e => .error (.server ("Invalid address: " ++ e))
  | .maxMessageSize size => .ok { b with config := { b.config with maxMessageSize := size } }
  | .maxFrameSize size => .ok { b with config := { b.config with maxFrameSize := size } }
  | .maxWriteBufferSize size =>
      .ok { b with config := { b.config with maxWriteBufferSize := size } }
  | .outboundQueueCapacity capacity =>
      .ok { b with config := { b.config with outboundQueueCapacity := capacity } }
  | .maxConnections max => .ok { b with config := { b.config with maxConnections := max } }
  | .handshakeTimeout timeout =>
      .ok { b with config := { b.config with handshakeTimeout := timeout } }
  | .closeTimeout timeout => .ok { b with config := { b.config with closeTimeout := timeout } }
  | .heartbeatInterval interval =>
      .ok { b with config := { b.config with heartbeatInterval := interval } }
  | .connectionTimeout timeout =>
      .ok { b with config := { b.config with connectionTimeout := timeout } }
  | .originPolicy policy => .ok (b.setOriginPolicy policy)
  | .allowedOrigins origins => .ok (b.setOriginPolicy (.allowList origins))
  | .authorizer value => .ok { b with authorizer := some value.authorize, anonymous := false }
  | .allowAnonymous => .ok { b with authorizer := some AllowAnonymous, anonymous := true }

/-- The error of a builder that was not told whom to accept. -/
def undecided : WebSocketError :=
  .server ("no handshake authorizer configured: call .authorizer(..) or, for " ++
    "unauthenticated servers, .allow_anonymous()")

/-- Build the server. -/
def build (instantMax : ℕ) (b : WebSocketServerBuilder) :
    Except LibraryCall (WebSocketResult BuiltServer) :=
  match b.authorizer with
  | none => .ok (.error undecided)
  | some authorizer => BuiltServer.fromParts instantMax b.bindAddr b.config authorizer b.anonymous

/-- A chain of setters on a new builder, with `build` at its end. -/
def chain (instantMax : ℕ) (calls : List BuilderCall) :
    Except LibraryCall (WebSocketResult BuiltServer) :=
  match calls.foldlM (set parse) new with
  | .error e => .ok (.error e)
  | .ok b => b.build instantMax

end

end WebSocketServerBuilder

/-! ### What the calls give -/

/-- What a server was told about whom to accept. -/
inductive Decision where
  | authorizer (value : AuthorizerValue)
  | allowAnonymous

namespace Decision

def authorize : Decision → HandshakeAuthorizer
  | authorizer value => value.authorize
  | allowAnonymous => AllowAnonymous

def anonymous : Decision → Bool
  | authorizer _ => false
  | allowAnonymous => true

end Decision

namespace BuilderCall

/-- The address that a call gives, if it can be read. -/
def address (parse : String → Except String SocketAddr) : BuilderCall → Option SocketAddr
  | bindAddr addr => some addr
  | bind addr => (parse addr).toOption
  | _ => none

/-- Why the address of a call cannot be read. -/
def badAddress (parse : String → Except String SocketAddr) : BuilderCall → Option WebSocketError
  | bind addr =>
      match parse addr with
      | .ok _ => none
      | .error e => some (.server ("Invalid address: " ++ e))
  | _ => none

/-- The policy that a call gives. -/
def policy : BuilderCall → Option OriginPolicy
  | originPolicy policy => some policy
  | allowedOrigins origins => some (.allowList origins)
  | _ => none

/-- The decision that a call is. -/
def decision : BuilderCall → Option Decision
  | authorizer value => some (.authorizer value)
  | allowAnonymous => some .allowAnonymous
  | _ => none

end BuilderCall

namespace WebSocketServerBuilder

/-- The configuration that a chain gives: each value is the last one given for it. -/
def lastConfig (calls : List BuilderCall) : WebSocketServerConfig where
  maxMessageSize := (lastGiven (fun
    | .maxMessageSize size => some size
    | _ => none) calls).getD WebSocketServerConfig.default.maxMessageSize
  maxFrameSize := (lastGiven (fun
    | .maxFrameSize size => some size
    | _ => none) calls).getD WebSocketServerConfig.default.maxFrameSize
  maxWriteBufferSize := (lastGiven (fun
    | .maxWriteBufferSize size => some size
    | _ => none) calls).getD WebSocketServerConfig.default.maxWriteBufferSize
  outboundQueueCapacity := (lastGiven (fun
    | .outboundQueueCapacity capacity => some capacity
    | _ => none) calls).getD WebSocketServerConfig.default.outboundQueueCapacity
  maxConnections := (lastGiven (fun
    | .maxConnections max => some max
    | _ => none) calls).getD WebSocketServerConfig.default.maxConnections
  handshakeTimeout := (lastGiven (fun
    | .handshakeTimeout timeout => some timeout
    | _ => none) calls).getD WebSocketServerConfig.default.handshakeTimeout
  closeTimeout := (lastGiven (fun
    | .closeTimeout timeout => some timeout
    | _ => none) calls).getD WebSocketServerConfig.default.closeTimeout
  heartbeatInterval := (lastGiven (fun
    | .heartbeatInterval interval => some interval
    | _ => none) calls).getD WebSocketServerConfig.default.heartbeatInterval
  connectionTimeout := (lastGiven (fun
    | .connectionTimeout timeout => some timeout
    | _ => none) calls).getD WebSocketServerConfig.default.connectionTimeout
  originPolicy :=
    (lastGiven BuilderCall.policy calls).getD WebSocketServerConfig.default.originPolicy

/-- The address that a chain gives. -/
def lastAddress (parse : String → Except String SocketAddr) (calls : List BuilderCall) :
    SocketAddr :=
  (lastGiven (BuilderCall.address parse) calls).getD .default

variable {parse : String → Except String SocketAddr} {instantMax : ℕ} {calls : List BuilderCall}

/-- What a call that does not fail does to a builder. -/
def done (parse : String → Except String SocketAddr) (b : WebSocketServerBuilder)
    (call : BuilderCall) : WebSocketServerBuilder :=
  match b.set parse call with
  | .ok b' => b'
  | .error _ => b

theorem set_eq (b : WebSocketServerBuilder) (call : BuilderCall) :
    b.set parse call = (call.badAddress parse).elim (.ok (b.done parse call)) .error := by
  cases call with
  | bind addr =>
      unfold done
      simp only [set, BuilderCall.badAddress]
      cases parse addr with
      | ok a => rfl
      | error e => rfl
  | _ => rfl

/-- What a chain leaves of which no call fails. -/
def left (parse : String → Except String SocketAddr) (calls : List BuilderCall) :
    WebSocketServerBuilder where
  bindAddr := lastAddress parse calls
  config := lastConfig calls
  authorizer := (lastGiven BuilderCall.decision calls).map Decision.authorize
  anonymous := (lastGiven BuilderCall.decision calls).any Decision.anonymous

theorem left_concat (calls : List BuilderCall) (call : BuilderCall) :
    left parse (calls ++ [call]) = (left parse calls).done parse call := by
  unfold left lastConfig lastAddress done
  simp only [lastGiven_concat]
  cases call with
  | bind addr =>
      simp only [set, BuilderCall.address]
      cases parse addr with
      | ok a => rfl
      | error e => rfl
  | _ => rfl

theorem foldlM_set : calls.foldlM (set parse) new =
    (calls.findSome? (BuilderCall.badAddress parse)).elim (.ok (left parse calls)) .error := by
  have hleft : calls.foldl (done parse) new = left parse calls := foldl_eq rfl left_concat calls
  rw [foldlM_eq set_eq, hleft]

/-- The server that a chain comes to. -/
def built (parse : String → Except String SocketAddr) (calls : List BuilderCall)
    (decision : Decision) : BuiltServer where
  config := lastConfig calls
  connectionSlots := (lastConfig calls).maxConnections
  bindAddr := lastAddress parse calls
  authorizer := decision.authorize
  manager := .new
  warnings := BuiltServer.warningsOf (lastConfig calls) decision.anonymous

theorem chain_eq :
    chain parse instantMax calls =
      .ok (match calls.findSome? (BuilderCall.badAddress parse) with
        | some e => .error e
        | none =>
            match lastGiven BuilderCall.decision calls with
            | none => .error undecided
            | some decision =>
                (lastConfig calls).validate.map fun _ => built parse calls decision) := by
  unfold chain
  rw [foldlM_set]
  cases calls.findSome? (BuilderCall.badAddress parse) with
  | some e => rfl
  | none =>
      show (left parse calls).build instantMax = _
      unfold build left
      cases lastGiven BuilderCall.decision calls with
      | none => rfl
      | some decision => exact BuiltServer.fromParts_eq

theorem chain_ok {server : BuiltServer} (h : chain parse instantMax calls = .ok (.ok server)) :
    ∃ decision, lastGiven BuilderCall.decision calls = some decision ∧
      server = built parse calls decision := by
  rw [chain_eq] at h
  cases hbad : calls.findSome? (BuilderCall.badAddress parse) with
  | some e =>
      rw [hbad] at h
      cases h
  | none =>
      cases hdecision : lastGiven BuilderCall.decision calls with
      | none =>
          rw [hbad, hdecision] at h
          cases h
      | some decision =>
          cases hvalid : (lastConfig calls).validate with
          | error e =>
              simp only [hbad, hdecision, hvalid] at h
              cases h
          | ok u =>
              simp only [hbad, hdecision, hvalid] at h
              cases h
              exact ⟨decision, rfl, rfl⟩

/-- All the setters but `bind` and `allowed_origins`, for given values. -/
def settersOf (bindAddr : SocketAddr) (config : WebSocketServerConfig) (value : AuthorizerValue) :
    List BuilderCall :=
  [.bindAddr bindAddr, .maxMessageSize config.maxMessageSize, .maxFrameSize config.maxFrameSize,
    .maxWriteBufferSize config.maxWriteBufferSize,
    .outboundQueueCapacity config.outboundQueueCapacity, .maxConnections config.maxConnections,
    .handshakeTimeout config.handshakeTimeout, .closeTimeout config.closeTimeout,
    .heartbeatInterval config.heartbeatInterval, .connectionTimeout config.connectionTimeout,
    .originPolicy config.originPolicy, .authorizer value]

/-- `new` is the chain of all setters, but it is only `new` that warns when it is given
`AllowAnonymous`. -/
theorem chain_settersOf {bindAddr : SocketAddr} {config : WebSocketServerConfig}
    {value : AuthorizerValue} :
    chain parse instantMax (settersOf bindAddr config value) =
      (BuiltServer.new instantMax bindAddr config value).map fun result => result.map fun server =>
        { server with warnings := server.warnings.erase .unauthenticated } := by
  have hwarnings : (BuiltServer.warningsOf config value.isAllowAnonymous).erase .unauthenticated =
      BuiltServer.warningsOf config false := by
    unfold BuiltServer.warningsOf
    cases value <;> by_cases hany : config.originPolicy = .any <;>
      simp [AuthorizerValue.isAllowAnonymous, hany]
  rw [chain_eq]
  unfold BuiltServer.new
  rw [BuiltServer.fromParts_eq]
  show Except.ok (config.validate.map fun _ => _) = Except.ok ((config.validate.map _).map _)
  cases config.validate with
  | error e => rfl
  | ok u =>
      simp only [Except.map, hwarnings]
      rfl

/-- **What comes of a chain**: it never panics.  A server comes of it exactly when every address can
be read, a decision about whom to accept is made and the configuration of the values given last is
accepted; it has these values, the authorizer of the last decision and a new room manager.  An error
is that of the first address that cannot be read, else that of a missing decision, else that of the
check of the configuration.  Every server that `new` creates comes of a chain, whose warnings are
the same but for the one about `AllowAnonymous`. -/
theorem chain_builds (parse : String → Except String SocketAddr) (instantMax : ℕ)
    (calls : List BuilderCall) :
    (∃ result, chain parse instantMax calls = .ok result ∧
      (∀ server, result = .ok server ↔
        (∀ call ∈ calls, call.badAddress parse = none) ∧ (lastConfig calls).Accepted ∧
          ∃ decision, lastGiven BuilderCall.decision calls = some decision ∧
            server = built parse calls decision) ∧
      ∀ e, result = .error e ↔
        calls.findSome? (BuilderCall.badAddress parse) = some e ∨
        (∀ call ∈ calls, call.badAddress parse = none) ∧
          (lastGiven BuilderCall.decision calls = none ∧ e = undecided ∨
            lastGiven BuilderCall.decision calls ≠ none ∧ (lastConfig calls).validate = .error e)) ∧
    ∀ bindAddr config value, chain parse instantMax (settersOf bindAddr config value) =
      (BuiltServer.new instantMax bindAddr config value).map fun result => result.map fun server =>
        { server with warnings := server.warnings.erase .unauthenticated } := by
  refine ⟨?_, fun _ _ _ => chain_settersOf⟩
  rw [chain_eq]
  refine ⟨_, rfl, ?_⟩
  simp only [← List.findSome?_eq_none_iff, ← WebSocketServerConfig.validate_eq_ok_iff]
  cases hbad : calls.findSome? (BuilderCall.badAddress parse) with
  | some e => simp [eq_comm]
  | none =>
      cases hdecision : lastGiven BuilderCall.decision calls with
      | none => simp [eq_comm]
      | some decision =>
          cases hvalid : (lastConfig calls).validate with
          | error e => simp [Except.map]
          | ok u => simp [Except.map, eq_comm]

end WebSocketServerBuilder

namespace BuiltServer

open WebSocketServerBuilder

variable {parse : String → Except String SocketAddr} {instantMax : ℕ} {calls : List BuilderCall}

theorem run_ok {listen : SocketAddr → Except String Unit} {decision : Decision} {s : Serve}
    (h : (built parse calls decision).run listen = .ok s) :
    listen (lastAddress parse calls) = .ok () ∧ s = .new (lastConfig calls) := by
  unfold run at h
  cases hlisten : listen (built parse calls decision).bindAddr with
  | error reason =>
      rw [hlisten] at h
      cases h
  | ok u =>
      rw [hlisten] at h
      cases h
      exact ⟨hlisten, rfl⟩

theorem no_origin (hpolicy : ∀ call ∈ calls, call.policy = none) {request : HandshakeRequest}
    (hcheck : (lastConfig calls).originPolicy.check request = .ok ()) :
    request.getAll "origin" = [] := by
  have hnone : lastGiven BuilderCall.policy calls = none := lastGiven_eq_none_iff.mpr hpolicy
  have hempty : (lastConfig calls).originPolicy = .allowList [] := by
    show (lastGiven BuilderCall.policy calls).getD _ = _
    rw [hnone]
    rfl
  rw [hempty] at hcheck
  obtain hnot | ⟨_, _, -, -, a, ha, -⟩ := OriginPolicy.check_allowList_iff.mp hcheck
  · exact hnot
  · cases ha

theorem unauthenticated_mem_iff {config : WebSocketServerConfig} {anonymous : Bool} :
    .unauthenticated ∈ warningsOf config anonymous ↔ anonymous = true := by
  unfold warningsOf
  cases anonymous <;> by_cases hany : config.originPolicy = .any <;> simp [hany]

theorem anyOrigin_mem_iff {config : WebSocketServerConfig} {anonymous : Bool} :
    .anyOrigin ∈ warningsOf config anonymous ↔ config.originPolicy = .any := by
  unfold warningsOf
  cases anonymous <;> by_cases hany : config.originPolicy = .any <;> simp [hany]

/-- **Who gets a connection**: a server that comes of a chain listens at the address given last, on
the loopback interface unless one is given; in each of its runs the slots held and available are
as many as given last, and every connection with an identity has the principal that the authorizer
of the last decision returned for a request that the last policy let pass; a chain without a policy
admits no browser at all.  It warns of unauthenticated connections exactly when the last decision
was `allow_anonymous`, and of any origin exactly when the last policy was to allow it. -/
theorem built_serves (parse : String → Except String SocketAddr) (instantMax : ℕ)
    (calls : List BuilderCall) (server : BuiltServer) (listen : SocketAddr → Except String Unit)
    (s₀ s : Serve) (acts : List ServeAct)
    (hchain : chain parse instantMax calls = .ok (.ok server)) (hrun : server.run listen = .ok s₀)
    (hexec : exec (Serve.step server.config server.authorizer instantMax) s₀ acts = some s) :
    listen (lastAddress parse calls) = .ok () ∧
    ((∀ call ∈ calls, call.address parse = none) → (lastAddress parse calls).isLoopback = true) ∧
    s.held + s.available = (lastConfig calls).maxConnections ∧
    ∃ decision, lastGiven BuilderCall.decision calls = some decision ∧
      (.unauthenticated ∈ server.warnings ↔ decision.anonymous = true) ∧
      (.anyOrigin ∈ server.warnings ↔ (lastConfig calls).originPolicy = .any) ∧
      ∀ i t who, s.tasks.lookup i = some t → t.session.identity = some who →
        ∃ request, t.handshake.request = some request ∧
          (lastConfig calls).originPolicy.check request = .ok () ∧
          decision.authorize request = .ok who.principal ∧
          ((∀ call ∈ calls, call.policy = none) → request.getAll "origin" = []) := by
  obtain ⟨decision, hdecision, rfl⟩ := chain_ok hchain
  obtain ⟨hlisten, rfl⟩ := run_ok hrun
  have hslots : s.Slots (lastConfig calls) :=
    exec_invariant (fun _ _ _ h hs => h.step hs) Serve.slots_new hexec
  have hauth : s.Authorized (lastConfig calls) decision.authorize :=
    exec_invariant (fun _ _ _ h hs => h.step hs) Serve.authorized_new hexec
  refine ⟨hlisten, ?_, hslots.count, decision, hdecision, unauthenticated_mem_iff,
    anyOrigin_mem_iff, ?_⟩
  · intro haddress
    unfold lastAddress
    rw [lastGiven_eq_none_iff.mpr haddress]
    rfl
  · intro i t who ht hwho
    obtain ⟨request, hrequest, hverdict⟩ := (hauth.tasks i t ht).granted who hwho
    obtain ⟨hcheck, hgranted⟩ := verdict_eq_ok_iff.mp hverdict
    exact ⟨request, hrequest, hcheck, hgranted, fun hpolicy => no_origin hpolicy hcheck⟩

/-- Reads one address. -/
def readsPublic : String → Except String SocketAddr := fun text =>
  if text == "0.0.0.0:9001" then .ok (.v4 (0, 0, 0, 0) 9001)
  else .error "invalid socket address syntax"

/-- A public server which was to accept everyone at first. -/
def aliceAtLast : List BuilderCall :=
  [.allowAnonymous, .originPolicy .any, .bind "0.0.0.0:9001", .authorizer (.other Serve.aliceOnly),
    .allowedOrigins ["https://chat.example.com"]]

theorem built_serves_aliceAtLast :
    ∃ server s₀ s, chain readsPublic (10 ^ 18) aliceAtLast = .ok (.ok server) ∧
      server.run (fun _ => .ok ()) = .ok s₀ ∧
      exec (Serve.step server.config server.authorizer (10 ^ 18)) s₀ Serve.threeAtOnce = some s ∧
      s.held + s.available = 10000 ∧
      ∀ i t who, s.tasks.lookup i = some t → t.session.identity = some who →
        who.principal = .new "alice" := by
  have hchain : chain readsPublic (10 ^ 18) aliceAtLast =
      .ok (.ok (built readsPublic aliceAtLast (.authorizer (.other Serve.aliceOnly)))) := by
    rw [chain_eq]
    rfl
  obtain ⟨s, hexec⟩ : ∃ s, exec (Serve.step (lastConfig aliceAtLast) Serve.aliceOnly (10 ^ 18))
      (.new (lastConfig aliceAtLast)) Serve.threeAtOnce = some s :=
    Option.isSome_iff_exists.mp (by decide)
  refine ⟨_, _, s, hchain, rfl, hexec, ?_⟩
  obtain ⟨-, -, hslots, decision, hdecision, -, -, hgranted⟩ :=
    built_serves readsPublic (10 ^ 18) aliceAtLast _ (fun _ => .ok ()) _ s Serve.threeAtOnce hchain
      rfl hexec
  refine ⟨hslots, ?_⟩
  intro i t who ht hwho
  obtain ⟨request, -, -, hauthorize, -⟩ := hgranted i t who ht hwho
  cases hdecision
  have halice : Serve.aliceOnly request = .ok who.principal := hauthorize
  unfold Serve.aliceOnly at halice
  split_ifs at halice
  exact (Except.ok.inj halice).symm

end BuiltServer
end ArmatureWebsocket
