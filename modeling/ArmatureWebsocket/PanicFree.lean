import ArmatureWebsocket.Session

/-! # Which configurations make the server panic

The values of an accepted configuration reach five library calls: the semaphore of the connection
slots, the protocol library's configuration at each handshake, and for each connection its queue,
its ticker and, at every turn of the loop, its idle deadline.  `validate` covers the first two and
that the queue is not of capacity zero.  It checks neither the other bound of the queue's capacity
nor the heartbeat interval nor the connection timeout, and the ticker and the deadline are computed
after the registration.

`panicFree_iff` says which accepted configurations are safe to serve up to a given instant;
`zeroInterval` is one that is not. -/

namespace ArmatureWebsocket

open Execution

/-- Building the server does not panic, and no run of a connection whose clock readings are at most
`latest` ends in the panic of a library call. -/
def WebSocketServerConfig.PanicFree (config : WebSocketServerConfig) (instantMax latest : ℕ) :
    Prop :=
  (∀ why, WebSocketServer.fromParts instantMax config ≠ .error why) ∧
    ∀ acts s, (∀ act ∈ acts, ∀ now ∈ act.instant, now ≤ latest) →
      exec (Session.step config instantMax) (.new config) acts = some s →
      ∀ call, s.stage ≠ .panicked (.library call)

/-- What `validate` does not check. -/
structure WebSocketServerConfig.Fits (config : WebSocketServerConfig) (instantMax latest : ℕ) :
    Prop where
  capacity_le : config.outboundQueueCapacity ≤ MAX_PERMITS
  interval_pos : 0 < config.heartbeatInterval
  deadline_le : latest + config.connectionTimeout ≤ instantMax

namespace Session

variable {config : WebSocketServerConfig} {instantMax latest : ℕ} {s s' : Session}

/-- No library call has panicked, and the last read was not after `latest`. -/
structure Calm (latest : ℕ) (s : Session) : Prop where
  no_panic : ∀ call, s.stage ≠ .panicked (.library call)
  lastRead_le : s.vars.lastRead ≤ latest

theorem calm_new : (new config).Calm latest := ⟨fun _ => by simp [new], Nat.zero_le _⟩

theorem Calm.goto (h : s.Calm latest) {stage : Stage}
    (hstage : ∀ call, stage ≠ .panicked (.library call)) : (s.goto stage).Calm latest :=
  ⟨hstage, h.lastRead_le⟩

theorem Calm.begin (h : s.Calm latest) {call : ConnCall} {stage : Stage}
    (hbegin : s.begin call stage = some s') (hstage : ∀ call, stage ≠ .panicked (.library call)) :
    s'.Calm latest := by
  obtain ⟨-, -, rfl⟩ := begin_some hbegin
  exact ⟨hstage, h.lastRead_le⟩

theorem Calm.loopHead (h : config.Fits instantMax latest) (hread : s.vars.lastRead ≤ latest) :
    (s.loopHead config instantMax).Calm latest := by
  have hdeadline := h.deadline_le
  have hsafe :
      (LibraryCall.instantAdd s.vars.lastRead config.connectionTimeout).Safe instantMax := by
    show s.vars.lastRead + config.connectionTimeout ≤ instantMax
    omega
  unfold Session.loopHead
  rw [guarded_eq hsafe]
  exact ⟨fun _ => by simp, hread⟩

theorem Calm.handshakeEnd (h : s.Calm latest) (haccepted : config.Accepted)
    (hfits : config.Fits instantMax latest) {outcome : WebSocketResult (Option Principal)}
    {id : ConnectionId} : (s.handshakeEnd config instantMax outcome id).Calm latest := by
  have hbuffer : (LibraryCall.acceptWith config.wsConfig).Safe instantMax :=
    haccepted.write_buffer_lt
  have hqueue : (LibraryCall.mpscChannel config.outboundQueueCapacity).Safe instantMax :=
    ⟨haccepted.queue_capacity_pos, hfits.capacity_le⟩
  unfold Session.handshakeEnd
  rw [guarded_eq hbuffer]
  split
  · unfold establish
    rw [guarded_eq hqueue]
    exact ⟨fun _ => by simp, h.lastRead_le⟩
  · exact h.goto fun _ => by simp
  · exact h.goto fun _ => by simp

theorem Calm.callReturned (h : s.Calm latest) (hfits : config.Fits instantMax latest)
    {failed : Bool} : (s.callReturned config instantMax failed).Calm latest := by
  unfold Session.callReturned
  split
  · split_ifs
    · exact h.goto fun _ => by simp
    · exact .loopHead hfits h.lastRead_le
  · exact .loopHead hfits h.lastRead_le
  · exact h.goto fun _ => by simp
  · exact ⟨fun _ => by simp, h.lastRead_le⟩
  · exact h

theorem Calm.step {act : SessionAct} (h : s.Calm latest) (haccepted : config.Accepted)
    (hfits : config.Fits instantMax latest) (hact : ∀ now ∈ act.instant, now ≤ latest)
    (hstep : s.step config instantMax act = some s') : s'.Calm latest := by
  cases act with
  | outside a =>
      obtain ⟨-, -, he⟩ := outside_some hstep
      rw [he]
      exact ⟨h.no_panic, h.lastRead_le⟩
  | handshaken outcome id =>
      obtain ⟨-, rfl⟩ := handshaken_some hstep
      exact h.handshakeEnd haccepted hfits
  | registered =>
      obtain ⟨-, rfl⟩ := registered_some hstep
      exact ⟨fun _ => by simp [Session.registered], h.lastRead_le⟩
  | connected now =>
      obtain ⟨out, -, -, rfl⟩ := connected_some hstep
      have hinterval : (LibraryCall.interval config.heartbeatInterval).Safe instantMax :=
        hfits.interval_pos
      unfold enterLoop
      rw [guarded_eq hinterval]
      exact .loopHead hfits (hact now rfl)
  | tick =>
      obtain ⟨-, ⟨vars, why, hvars, rfl⟩ | ⟨vars, hvars, hbegin⟩⟩ := tick_some hstep
      · have hread := onTick_lastRead s.vars
        rw [hvars] at hread
        exact ⟨fun _ => by simp, hread ▸ h.lastRead_le⟩
      · have hread := onTick_lastRead s.vars
        rw [hvars] at hread
        have hvars' : Calm latest { s with vars := vars } := ⟨h.no_panic, hread ▸ h.lastRead_le⟩
        exact hvars'.begin hbegin fun _ => by simp
  | evicted =>
      obtain ⟨out, -, -, rfl⟩ := evicted_some hstep
      exact ⟨fun _ => by simp, h.lastRead_le⟩
  | idle =>
      obtain ⟨-, rfl⟩ := idle_some hstep
      exact h.goto fun _ => by simp
  | read now result =>
      obtain ⟨-, rfl⟩ := read_some hstep
      have hread : (readVars s.vars now result).lastRead ≤ latest := by
        rw [readVars_lastRead]
        exact hact now rfl
      unfold afterRead
      split
      · exact ⟨fun _ => by simp, hread⟩
      · exact ⟨fun _ => by simp, hread⟩
  | callbackReturned pong =>
      obtain ⟨cb, -, ⟨-, rfl⟩ | ⟨-, hbegin⟩ | ⟨why, -, rfl⟩⟩ := callbackReturned_some hstep
      · exact .loopHead hfits h.lastRead_le
      · have hnote : (s.note fun _ => [.pong pong]).Calm latest := ⟨h.no_panic, h.lastRead_le⟩
        exact hnote.begin hbegin fun _ => by simp
      · exact h.goto fun _ => by simp
  | callbackPanicked =>
      obtain ⟨-, out, -, rfl⟩ | ⟨-, rfl⟩ := callbackPanicked_some hstep
      · exact ⟨fun _ => by simp, h.lastRead_le⟩
      · exact h.goto fun _ => by simp
  | taskStep =>
      obtain ⟨f, out, -, -, -, ⟨pc, -, rfl⟩ | ⟨reply, -, rfl⟩⟩ := taskStep_some hstep
      · exact ⟨h.no_panic, h.lastRead_le⟩
      · have hout : (s.withOut out).Calm latest := ⟨h.no_panic, h.lastRead_le⟩
        exact hout.callReturned hfits
  | teardown => exact h.begin (teardown_some hstep).2 fun _ => by simp
  | joined => exact h.begin (joined_some hstep).2.2 fun _ => by simp
  | timedOut =>
      have hrequested : Calm latest { s with abortRequested := true } :=
        ⟨h.no_panic, h.lastRead_le⟩
      exact hrequested.begin (timedOut_some hstep).2 fun _ => by simp
  | disconnected =>
      obtain ⟨-, rfl⟩ := disconnected_some hstep
      exact ⟨fun _ => by simp, h.lastRead_le⟩

end Session

namespace WebSocketServerConfig

open Session

variable {config : WebSocketServerConfig} {instantMax latest : ℕ}

/-- An upgrade that is accepted. -/
abbrev upgraded : SessionAct := .handshaken (.ok (some .anonymous)) ""

theorem Fits.panicFree (hfits : config.Fits instantMax latest) (haccepted : config.Accepted) :
    config.PanicFree instantMax latest := by
  constructor
  · intro why h
    rw [WebSocketServer.fromParts_eq] at h
    cases h
  · intro acts s hacts hrun
    have hcalm : s.Calm latest := by
      refine exec_invariant_along ?_ calm_new hrun (along_of_forall_mem hacts)
      intro s₁ act s₂ h₁ hstep hact
      exact h₁.step haccepted hfits hact hstep
    exact hcalm.no_panic

theorem PanicFree.fits (h : config.PanicFree instantMax latest) (haccepted : config.Accepted) :
    config.Fits instantMax latest := by
  have hbuffer : (LibraryCall.acceptWith config.wsConfig).Safe instantMax :=
    haccepted.write_buffer_lt
  let s := (new config).made ⟨"", .anonymous⟩
  have hqueue : (LibraryCall.mpscChannel config.outboundQueueCapacity).Safe instantMax := by
    have hrun : exec (Session.step config instantMax) (.new config) [upgraded] =
        some ((new config).establish config instantMax ⟨"", .anonymous⟩) := by
      show some (guarded _ _ _ _) = _
      rw [guarded_eq hbuffer]
    exact safe_of_guarded (h.2 _ _ (by simp [SessionAct.instant]) hrun)
  have hrun : exec (Session.step config instantMax) (.new config)
      [upgraded, .registered, .connected latest] =
        some ((s.registered.withOut { s.out with writer := .waiting }).enterLoop config instantMax
          latest) := by
    refine exec_cons_iff.mpr ⟨s, ?_, rfl⟩
    show some (guarded _ _ _ _) = _
    rw [guarded_eq hbuffer]
    show some (guarded _ _ _ _) = _
    rw [guarded_eq hqueue]
  have hcalm := h.2 _ _ (by simp [SessionAct.instant]) hrun
  have hinterval : (LibraryCall.interval config.heartbeatInterval).Safe instantMax :=
    safe_of_guarded hcalm
  unfold enterLoop at hcalm
  rw [guarded_eq hinterval] at hcalm
  exact ⟨hqueue.2, hinterval, safe_of_guarded hcalm⟩

/-- **Which accepted configurations are safe**: an accepted configuration makes no library call
panic at the instants up to `latest` if and only if the queue's capacity is at most the number of
permits that a channel can have, the heartbeat interval is not zero, and the idle deadline of a
read at `latest` is representable. -/
theorem panicFree_iff (config : WebSocketServerConfig) (instantMax latest : ℕ)
    (hvalid : config.validate = .ok ()) :
    config.PanicFree instantMax latest ↔ config.outboundQueueCapacity ≤ MAX_PERMITS ∧
      0 < config.heartbeatInterval ∧ latest + config.connectionTimeout ≤ instantMax := by
  have haccepted := validate_eq_ok_iff.mp hvalid
  constructor
  · intro h
    have hfits := h.fits haccepted
    exact ⟨hfits.capacity_le, hfits.interval_pos, hfits.deadline_le⟩
  · rintro ⟨hcapacity, hinterval, hdeadline⟩
    exact Fits.panicFree ⟨hcapacity, hinterval, hdeadline⟩ haccepted

/-- The default configuration can be served as long as one connection timeout is left. -/
theorem panicFree_iff_default :
    default.PanicFree (10 ^ 18 + 60 * 10 ^ 9) (10 ^ 18) :=
  (panicFree_iff default _ _ validate_default).mpr (by decide)

/-- The default configuration with a heartbeat interval of zero. -/
def zeroInterval : WebSocketServerConfig := { default with heartbeatInterval := 0 }

/-- It is accepted, and its first connection panics after the registration, which stays. -/
theorem panicked_zeroInterval :
    zeroInterval.validate = .ok () ∧
      ∃ s, exec (Session.step zeroInterval (10 ^ 18)) (.new zeroInterval)
        [upgraded, .registered, .connected 0] = some s ∧
        s.stage = .panicked (.library (.interval 0)) ∧
        s.trace = [.register "" .anonymous, .handler (.onConnect "" .anonymous)] := by
  decide

end WebSocketServerConfig
end ArmatureWebsocket
