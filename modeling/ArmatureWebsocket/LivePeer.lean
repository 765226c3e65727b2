import ArmatureWebsocket.Timed

/-! # A live peer and the two liveness checks of the loop

The loop gives a connection up when four ticks were taken since the last frame was read, or when
nothing was read for the connection timeout.  Both are judged when the loop comes to look, and it
does not look while it awaits a callback: the ticks and the idle deadline of that time wait for it,
and if they are ready together with the peer's frames, they may be taken first.  So a peer that
sends a frame in every heartbeat interval is given up when a callback takes long enough
(`given_up_after_callback`).

`live_peer_stays` says when it is not: every callback returns before the idle deadline, and the
fourth tick that is not taken yet comes due only after the next frame can be read. -/

namespace ArmatureWebsocket

open Execution

/-- In every interval of length `h` after `start` a frame arrives. -/
def Socket.LiveFrom (socket : Socket) (start h : ℕ) : Prop :=
  ∀ τ, start ≤ τ → ∃ k, τ < socket.arrival k ∧ socket.arrival k ≤ τ + h

/-- A frame arrives at every multiple of `h`. -/
def Socket.steady (h : ℕ) : Socket where
  arrival := fun k => (k + 1) * h
  yields := fun _ => .message (.binary [1])
  ordered := fun _ _ hjk => Nat.mul_le_mul_right h (Nat.succ_le_succ hjk)

theorem Socket.liveFrom_steady {h : ℕ} (hpos : 0 < h) : (Socket.steady h).LiveFrom 0 h := by
  intro τ _
  have hle : τ / h * h ≤ τ := Nat.div_mul_le_self τ h
  have hlt : τ < h * (τ / h + 1) := Nat.lt_mul_div_succ τ hpos
  have harrival : (Socket.steady h).arrival (τ / h) = τ / h * h + h := by
    show (τ / h + 1) * h = _
    rw [Nat.add_mul, Nat.one_mul]
  rw [Nat.mul_comm, Nat.add_mul, Nat.one_mul] at hlt
  exact ⟨τ / h, by omega, by omega⟩

/-- The callback is the one for errors, after which the loop ends. -/
def Callback.isError : Callback → Bool
  | .onError _ => true
  | _ => false

/-- The loop goes on after the callback that is awaited. -/
def Stage.resumes : Stage → Bool
  | .handling cb => !cb.isError
  | _ => false

theorem Callback.resume_exit_iff {cb : Callback} {why : LoopExit} :
    cb.resume = .exit why ↔ cb.isError = true ∧ why = .readError := by
  cases cb <;> simp [Callback.resume, Callback.isError, eq_comm]

theorem Callback.isError_of_resume {cb : Callback} (h : ∀ why, cb.resume ≠ .exit why) :
    cb.isError = false := by
  by_contra hcb
  exact h .readError (resume_exit_iff.mpr ⟨by simpa using hcb, rfl⟩)

theorem missed_of_afterRead {vars : LoopVars} {now : ℕ} {result : ReadResult} {cb : Callback}
    (h : afterRead result = .call cb) (hcb : cb.isError = false) :
    (readVars vars now result).missedHeartbeats = 0 := by
  cases result with
  | message msg => rfl
  | error reason =>
      cases h
      cases hcb
  | endOfStream => cases h

namespace TimedSession

/-- The loop is entered at `start`. -/
structure AtLoopStart (config : WebSocketServerConfig) (start : ℕ) (t : TimedSession) : Prop where
  stage_eq : t.session.stage = .selecting
  vars_eq : t.session.vars = ⟨0, start⟩
  now_eq : t.now = start
  nextTick_eq : t.nextTick = start + config.heartbeatInterval
  taken_eq : t.taken = 0

instance (config : WebSocketServerConfig) (start : ℕ) (t : TimedSession) :
    Decidable (t.AtLoopStart config start) :=
  decidable_of_iff
    (t.session.stage = .selecting ∧ t.session.vars = ⟨0, start⟩ ∧ t.now = start ∧
      t.nextTick = start + config.heartbeatInterval ∧ t.taken = 0)
    ⟨fun ⟨h₁, h₂, h₃, h₄, h₅⟩ => ⟨h₁, h₂, h₃, h₄, h₅⟩,
      fun ⟨h₁, h₂, h₃, h₄, h₅⟩ => ⟨h₁, h₂, h₃, h₄, h₅⟩⟩

section

variable (config : WebSocketServerConfig) (socket : Socket)

/-- A callback that the loop goes on after returns before the idle deadline, and the fourth tick not
taken yet comes due only after the next frame can be read. -/
def ReturnsInTime (t : TimedSession) : TimedAct → TimedSession → Prop
  | .other (.callbackReturned _), _ => t.session.stage.resumes = true →
      t.now < t.idleDeadline config ∧
        max t.now (t.nextFrame socket) <
          t.nextTick + MAX_MISSED_HEARTBEATS * config.heartbeatInterval
  | _, _ => True

instance (t : TimedSession) (act : TimedAct) (t' : TimedSession) :
    Decidable (ReturnsInTime config socket t act t') :=
  match act with
  | .other (.callbackReturned _) => inferInstanceAs (Decidable (_ → _ ∧ _))
  | .other (.outside _) | .other (.handshaken _ _) | .other .registered
  | .other (.connected _) | .other .tick | .other .evicted | .other .idle | .other (.read _ _)
  | .other .callbackPanicked | .other .taskStep | .other .teardown | .other .joined
  | .other .timedOut | .other .disconnected
  | .elapse _ | .connected | .tick | .idle | .read => .isTrue trivial

/-- Everything read had arrived by the last read, which was not before `start`. -/
structure KeepsUp (start now taken : ℕ) (vars : LoopVars) : Prop where
  arrived : ∀ j < taken, socket.arrival j ≤ vars.lastRead
  start_le : start ≤ vars.lastRead
  read_le : vars.lastRead ≤ now

/-- Neither liveness check can fire before the next frame can be read. -/
structure InTime (now nextTick taken : ℕ) (vars : LoopVars) : Prop where
  missed_le : vars.missedHeartbeats ≤ MAX_MISSED_HEARTBEATS
  before_fourth : max now (socket.arrival taken) < nextTick +
    (MAX_MISSED_HEARTBEATS - vars.missedHeartbeats) * config.heartbeatInterval
  before_deadline : now < vars.lastRead + config.connectionTimeout

/-- The loop waits, or is in the middle of a ping or a pong. -/
def Running (start : ℕ) (t : TimedSession) : Prop :=
  KeepsUp socket start t.now t.taken t.session.vars ∧
    InTime config socket t.now t.nextTick t.taken t.session.vars

/-- What holds at each stage of a connection whose loop has begun and whose peer is live. -/
def Live (start : ℕ) (t : TimedSession) : Prop :=
  match t.session.stage with
  | .handshaking => False
  | .registering => False
  | .connecting => False
  | .selecting => Running config socket start t
  | .pinging => Running config socket start t
  | .ponging => Running config socket start t
  | .handling cb => KeepsUp socket start t.now t.taken t.session.vars ∧
      (cb.isError = false → t.session.vars.missedHeartbeats = 0)
  | .ended why => why ≠ .missedHeartbeats ∧ why ≠ .idleTimeout
  | _ => True

end

variable {config : WebSocketServerConfig} {instantMax start : ℕ} {socket : Socket}
  {t t' : TimedSession} {now nextTick taken : ℕ} {vars : LoopVars}

theorem KeepsUp.arrival_le (h : KeepsUp socket start now taken vars)
    (hlive : socket.LiveFrom start config.heartbeatInterval) :
    socket.arrival taken ≤ vars.lastRead + config.heartbeatInterval := by
  obtain ⟨k, hlt, hle⟩ := hlive vars.lastRead h.start_le
  have hk : taken ≤ k := by
    by_contra hlt'
    have harrived := h.arrived k (by omega)
    omega
  exact (socket.ordered hk).trans hle

theorem KeepsUp.later (h : KeepsUp socket start now taken vars) {d : ℕ} :
    KeepsUp socket start (now + d) taken vars :=
  ⟨h.arrived, h.start_le, h.read_le.trans (Nat.le_add_right _ _)⟩

/-- A frame that has arrived is read. -/
theorem KeepsUp.read (h : KeepsUp socket start now taken vars) (hready : socket.arrival taken ≤ now)
    (result : ReadResult) :
    KeepsUp socket start now (taken + 1) (readVars vars now result) := by
  have hread := h.read_le
  have hstart := h.start_le
  refine ⟨fun j hj => ?_, ?_, ?_⟩
  · rw [readVars_lastRead]
    exact (socket.ordered (by omega)).trans hready
  · rw [readVars_lastRead]
    omega
  · rw [readVars_lastRead]

theorem InTime.wait (h : InTime config socket now nextTick taken vars)
    (hk : KeepsUp socket start now taken vars)
    (hlive : socket.LiveFrom start config.heartbeatInterval) (hpos : 0 < config.heartbeatInterval)
    (htimeout : 2 * config.heartbeatInterval ≤ config.connectionTimeout) {d : ℕ}
    (hd : now + d ≤ socket.arrival taken) :
    InTime config socket (now + d) nextTick taken vars := by
  have harrival := hk.arrival_le hlive
  have hfourth := h.before_fourth
  exact ⟨h.missed_le, by omega, by omega⟩

theorem InTime.missed_lt (h : InTime config socket now nextTick taken vars)
    (hdue : nextTick ≤ now) : vars.missedHeartbeats < MAX_MISSED_HEARTBEATS := by
  have hle := h.missed_le
  have hfourth := h.before_fourth
  by_contra hnot
  have heq : MAX_MISSED_HEARTBEATS - vars.missedHeartbeats = 0 := by omega
  rw [heq, Nat.zero_mul] at hfourth
  omega

/-- A tick is taken and counted. -/
theorem InTime.tick (h : InTime config socket now nextTick taken vars)
    (hlt : vars.missedHeartbeats < MAX_MISSED_HEARTBEATS) :
    InTime config socket now (nextTick + config.heartbeatInterval) taken
      { vars with missedHeartbeats := vars.missedHeartbeats + 1 } := by
  have hfourth := h.before_fourth
  have hsplit : MAX_MISSED_HEARTBEATS - vars.missedHeartbeats =
      MAX_MISSED_HEARTBEATS - (vars.missedHeartbeats + 1) + 1 := by omega
  rw [hsplit, Nat.add_mul, Nat.one_mul] at hfourth
  refine ⟨hlt, ?_, h.before_deadline⟩
  show max now (socket.arrival taken) < nextTick + config.heartbeatInterval +
    (MAX_MISSED_HEARTBEATS - (vars.missedHeartbeats + 1)) * config.heartbeatInterval
  omega

theorem Running.loopHead (h : Running config socket start t) :
    Live config socket start { t with session := t.session.loopHead config instantMax } := by
  obtain he | ⟨call, he⟩ := Session.loopHead_cases config instantMax t.session
  · rw [he]
    exact h
  · rw [he]
    trivial

theorem running_of_returnsInTime {pong : Bytes}
    (hk : KeepsUp socket start t.now t.taken t.session.vars)
    (hmissed : t.session.vars.missedHeartbeats = 0) (hresumes : t.session.stage.resumes = true)
    (hreturns : ReturnsInTime config socket t (.other (.callbackReturned pong)) t') :
    Running config socket start t := by
  obtain ⟨hdeadline, hfourth⟩ := hreturns hresumes
  refine ⟨hk, ?_, ?_, hdeadline⟩
  · rw [hmissed]
    exact Nat.zero_le _
  · rw [hmissed]
    exact hfourth

theorem Live.elapse (h : Live config socket start t)
    (hlive : socket.LiveFrom start config.heartbeatInterval) (hpos : 0 < config.heartbeatInterval)
    (htimeout : 2 * config.heartbeatInterval ≤ config.connectionTimeout) {d : ℕ}
    (hd : t.MayElapse config socket d) : Live config socket start { t with now := t.now + d } := by
  obtain ⟨hbusy, hselect⟩ := hd
  unfold Live at h ⊢
  cases hs : t.session.stage with
  | handshaking =>
      rw [hs] at h
      exact h.elim
  | registering =>
      rw [hs] at h
      exact h.elim
  | connecting =>
      rw [hs] at h
      exact h.elim
  | selecting =>
      rw [hs] at h
      obtain rfl | ⟨-, -, -, hframe⟩ := hselect hs
      · exact h
      · exact ⟨h.1.later, h.2.wait h.1 hlive hpos htimeout hframe⟩
  | pinging =>
      rw [hs] at h
      obtain rfl := hbusy (by rw [hs]; rfl)
      exact h
  | ponging =>
      rw [hs] at h
      obtain rfl := hbusy (by rw [hs]; rfl)
      exact h
  | handling cb =>
      rw [hs] at h
      exact ⟨h.1.later, h.2⟩
  | ended why =>
      rw [hs] at h
      exact h
  | _ => trivial

theorem Live.tick {s : Session} (h : Live config socket start t) (hdue : t.nextTick ≤ t.now)
    (hstep : t.session.step config instantMax .tick = some s) :
    Live config socket start
      { t with session := s, nextTick := t.nextTick + config.heartbeatInterval } := by
  obtain ⟨hs, hnext⟩ := Session.tick_some hstep
  unfold Live at h
  rw [hs] at h
  obtain ⟨hk, hi⟩ := h
  have hlt := hi.missed_lt hdue
  rw [onTick_of_lt hlt] at hnext
  obtain ⟨vars, why, hvars, -⟩ | ⟨vars, hvars, hbegin⟩ := hnext
  · cases hvars
  · cases hvars
    obtain ⟨-, -, rfl⟩ := Session.begin_some hbegin
    exact ⟨⟨hk.arrived, hk.start_le, hk.read_le⟩, hi.tick hlt⟩

/-- What is read is handled, or ends the loop for another reason. -/
theorem Live.read {s : Session} (h : Live config socket start t)
    (hready : t.nextFrame socket ≤ t.now)
    (hstep : t.session.step config instantMax (.read t.now (socket.yields t.taken)) = some s) :
    Live config socket start { t with session := s, taken := t.taken + 1 } := by
  obtain ⟨hs, rfl⟩ := Session.read_some hstep
  unfold Live at h
  rw [hs] at h
  have hk := h.1.read hready (socket.yields t.taken)
  cases hafter : ArmatureWebsocket.afterRead (socket.yields t.taken) with
  | exit why =>
      unfold Session.afterRead
      rw [hafter]
      obtain rfl | rfl := afterRead_exit_ne hafter
      · exact ⟨by decide, by decide⟩
      · exact ⟨by decide, by decide⟩
  | call cb =>
      unfold Session.afterRead
      rw [hafter]
      exact ⟨hk, fun hcb => missed_of_afterRead hafter hcb⟩

/-- A call of the task goes on or returns. -/
theorem Live.taskStep {s : Session} (h : Live config socket start t)
    (hstep : t.session.step config instantMax .taskStep = some s) :
    Live config socket start { t with session := s } := by
  obtain ⟨f, out, -, -, -, ⟨pc, -, rfl⟩ | ⟨reply, -, rfl⟩⟩ := Session.taskStep_some hstep
  · exact h
  · unfold Live at h
    unfold Session.callReturned
    split
    · rename_i hs
      rw [Session.withOut_stage] at hs
      rw [hs] at h
      split_ifs
      · exact ⟨by decide, by decide⟩
      · exact Running.loopHead (t := { t with session := t.session.withOut out }) h
    · rename_i hs
      rw [Session.withOut_stage] at hs
      rw [hs] at h
      exact Running.loopHead (t := { t with session := t.session.withOut out }) h
    · trivial
    · trivial
    · exact h

theorem Live.callbackReturned {s : Session} {pong : Bytes} (h : Live config socket start t)
    (hreturns : ReturnsInTime config socket t (.other (.callbackReturned pong)) t')
    (hstep : t.session.step config instantMax (.callbackReturned pong) = some s) :
    Live config socket start { t with session := s } := by
  obtain ⟨cb, hs, hnext⟩ := Session.callbackReturned_some hstep
  unfold Live at h
  rw [hs] at h
  obtain ⟨hk, hmissed⟩ := h
  have hrunning (hcb : cb.isError = false) : Running config socket start t := by
    refine running_of_returnsInTime hk (hmissed hcb) ?_ hreturns
    rw [hs, Stage.resumes, hcb]
    rfl
  obtain ⟨hresume, rfl⟩ | ⟨hresume, hbegin⟩ | ⟨why, hresume, rfl⟩ := hnext
  · have hcb : cb.isError = false := Callback.isError_of_resume (by simp [hresume])
    exact (hrunning hcb).loopHead
  · have hcb : cb.isError = false := Callback.isError_of_resume (by simp [hresume])
    obtain ⟨-, -, rfl⟩ := Session.begin_some hbegin
    exact hrunning hcb
  · obtain ⟨-, rfl⟩ := Callback.resume_exit_iff.mp hresume
    exact ⟨by decide, by decide⟩

theorem Live.other {act : SessionAct} {s : Session} (h : Live config socket start t)
    (huntimed : act.untimed = true) (hreturns : ReturnsInTime config socket t (.other act) t')
    (hstep : t.session.step config instantMax act = some s) :
    Live config socket start { t with session := s } := by
  cases act with
  | outside a =>
      obtain ⟨-, -, he⟩ := Session.outside_some hstep
      rw [he]
      exact h
  | handshaken outcome id =>
      obtain ⟨hs, -⟩ := Session.handshaken_some hstep
      unfold Live at h
      rw [hs] at h
      exact h.elim
  | registered =>
      obtain ⟨hs, -⟩ := Session.registered_some hstep
      unfold Live at h
      rw [hs] at h
      exact h.elim
  | connected now => cases huntimed
  | tick => cases huntimed
  | evicted =>
      obtain ⟨out, -, -, rfl⟩ := Session.evicted_some hstep
      exact ⟨by decide, by decide⟩
  | idle => cases huntimed
  | read now result => cases huntimed
  | callbackReturned pong => exact h.callbackReturned hreturns hstep
  | callbackPanicked =>
      obtain ⟨-, out, -, rfl⟩ | ⟨-, rfl⟩ := Session.callbackPanicked_some hstep <;> trivial
  | taskStep => exact h.taskStep hstep
  | teardown =>
      obtain ⟨-, -, rfl⟩ := Session.begin_some (Session.teardown_some hstep).2
      trivial
  | joined =>
      obtain ⟨-, -, rfl⟩ := Session.begin_some (Session.joined_some hstep).2.2
      trivial
  | timedOut =>
      obtain ⟨-, -, rfl⟩ := Session.begin_some (Session.timedOut_some hstep).2
      trivial
  | disconnected =>
      obtain ⟨-, rfl⟩ := Session.disconnected_some hstep
      trivial

theorem Live.step {act : TimedAct} (h : Live config socket start t)
    (hlive : socket.LiveFrom start config.heartbeatInterval) (hpos : 0 < config.heartbeatInterval)
    (htimeout : 2 * config.heartbeatInterval ≤ config.connectionTimeout)
    (hstep : t.step config instantMax socket act = some t')
    (hreturns : ReturnsInTime config socket t act t') : Live config socket start t' := by
  obtain ⟨d, -, hd, rfl⟩ | ⟨s, -, hs, rfl⟩ | ⟨s, -, hdue, hs, rfl⟩ |
    ⟨s, -, hdue, hs, rfl⟩ | ⟨s, -, hready, hs, rfl⟩ | ⟨a, s, rfl, huntimed, hs, rfl⟩ :=
    step_cases hstep
  · exact h.elapse hlive hpos htimeout hd
  · obtain ⟨out, hconnecting, -, -⟩ := Session.connected_some hs
    unfold Live at h
    rw [hconnecting] at h
    exact h.elim
  · exact h.tick hdue hs
  · -- the idle deadline is not reached
    obtain ⟨hselecting, -⟩ := Session.idle_some hs
    unfold Live at h
    rw [hselecting] at h
    have hbefore : t.now < t.idleDeadline config := h.2.before_deadline
    omega
  · exact h.read hready hs
  · exact h.other huntimed hreturns hs

theorem AtLoopStart.live (h : t.AtLoopStart config start)
    (hlive : socket.LiveFrom start config.heartbeatInterval) (hpos : 0 < config.heartbeatInterval)
    (htimeout : 2 * config.heartbeatInterval ≤ config.connectionTimeout) :
    Live config socket start t := by
  have hk : KeepsUp socket start start 0 ⟨0, start⟩ :=
    ⟨fun j hj => by omega, le_rfl, le_rfl⟩
  have harrival : socket.arrival 0 ≤ start + config.heartbeatInterval := hk.arrival_le hlive
  unfold Live
  rw [h.stage_eq]
  unfold Running
  rw [h.vars_eq, h.now_eq, h.nextTick_eq, h.taken_eq]
  refine ⟨hk, Nat.zero_le _, ?_, ?_⟩
  · show max start (socket.arrival 0) < start + config.heartbeatInterval +
      (3 - 0) * config.heartbeatInterval
    omega
  · show start < start + config.connectionTimeout
    omega

/-- **A live peer stays**: if a frame arrives in every heartbeat interval, twice the interval is at
most the connection timeout, and every callback of the loop returns before the idle deadline and
early enough for the next frame to be readable before the fourth tick not taken yet, the loop ends
neither for missed heartbeats nor for idleness. -/
theorem live_peer_stays (config : WebSocketServerConfig) (instantMax start : ℕ) (socket : Socket)
    (t t' : TimedSession) (acts : List TimedAct) (hpos : 0 < 2 * config.heartbeatInterval)
    (htimeout : 2 * config.heartbeatInterval ≤ config.connectionTimeout)
    (hlive : socket.LiveFrom start config.heartbeatInterval) (hstart : t.AtLoopStart config start)
    (hrun : exec (step config instantMax socket) t acts = some t')
    (hreturns : Along (step config instantMax socket) (ReturnsInTime config socket) t acts) :
    t'.session.stage ≠ .ended .missedHeartbeats ∧ t'.session.stage ≠ .ended .idleTimeout := by
  have hpos' : 0 < config.heartbeatInterval := by omega
  have hend : Live config socket start t' := by
    refine exec_invariant_along ?_ (hstart.live hlive hpos' htimeout) hrun hreturns
    intro t₁ act t₂ h₁ hstep hq
    exact h₁.step hlive hpos' htimeout hstep hq
  unfold Live at hend
  constructor
  · intro hs
    rw [hs] at hend
    exact hend.1 rfl
  · intro hs
    rw [hs] at hend
    exact hend.2 rfl

/-! ### Runs with a peer that sends a frame at every interval -/

/-- The upgrade, and `on_connect` returning at once. -/
def entering : List TimedAct :=
  [.other (.handshaken (.ok (some .anonymous)) "a"), .other .registered, .connected]

/-- One access of the task's ping after another. -/
def pinging : List TimedAct := [.tick, .other .taskStep, .other .taskStep]

/-- The first frame's callback takes ten seconds less than the interval. -/
def promptCallback : List TimedAct :=
  [.elapse (30 * 10 ^ 9), .read, .elapse (20 * 10 ^ 9), .other (.callbackReturned [])] ++ pinging ++
    [.elapse (10 * 10 ^ 9), .read, .other (.callbackReturned [])]

theorem live_peer_stays_promptCallback :
    ∃ t₀, exec (step .default (10 ^ 18) (.steady (30 * 10 ^ 9))) (new .default 0) entering =
        some t₀ ∧
      ∃ t, exec (step .default (10 ^ 18) (.steady (30 * 10 ^ 9))) t₀ promptCallback = some t ∧
        t.session.stage ≠ .ended .missedHeartbeats ∧ t.session.stage ≠ .ended .idleTimeout := by
  have hruns : ∃ t₀,
      exec (step .default (10 ^ 18) (.steady (30 * 10 ^ 9))) (new .default 0) entering = some t₀ ∧
      t₀.AtLoopStart .default 0 ∧
      Along (step .default (10 ^ 18) (.steady (30 * 10 ^ 9)))
        (ReturnsInTime .default (.steady (30 * 10 ^ 9))) t₀ promptCallback ∧
      ∃ t, exec (step .default (10 ^ 18) (.steady (30 * 10 ^ 9))) t₀ promptCallback = some t ∧
        t.taken = 2 := by decide
  obtain ⟨t₀, hentering, hstart, hreturns, t, hrun, -⟩ := hruns
  exact ⟨t₀, hentering, t, hrun, live_peer_stays .default (10 ^ 18) 0 _ t₀ t _ (by decide)
    (by decide) (Socket.liveFrom_steady (by decide)) hstart hrun hreturns⟩

/-- The first frame's callback takes as long as the connection timeout. -/
def slowCallback : List TimedAct :=
  [.elapse (30 * 10 ^ 9), .read, .elapse (60 * 10 ^ 9), .other (.callbackReturned []), .idle]

/-- The default configuration with a long connection timeout. -/
def patient : WebSocketServerConfig :=
  { WebSocketServerConfig.default with connectionTimeout := 3600 * 10 ^ 9 }

/-- The first frame's callback takes four intervals, whose ticks are taken one after the other. -/
def burst : List TimedAct :=
  [.elapse (30 * 10 ^ 9), .read, .elapse (120 * 10 ^ 9), .other (.callbackReturned [])] ++
    pinging ++ pinging ++ pinging ++ [.tick]

/-- A peer that sends a frame at every interval is given up as idle, and as not answering. -/
theorem given_up_after_callback :
    (Socket.steady (30 * 10 ^ 9)).LiveFrom 0 (30 * 10 ^ 9) ∧
      (∀ config ∈ [WebSocketServerConfig.default, patient], config.heartbeatInterval = 30 * 10 ^ 9 ∧
        2 * config.heartbeatInterval ≤ config.connectionTimeout) ∧
      (∃ t₀, exec (step .default (10 ^ 18) (.steady (30 * 10 ^ 9))) (new .default 0) entering =
          some t₀ ∧ t₀.AtLoopStart .default 0 ∧
        ∃ t, exec (step .default (10 ^ 18) (.steady (30 * 10 ^ 9))) t₀ slowCallback = some t ∧
          t.session.stage = .ended .idleTimeout) ∧
      ∃ t₀, exec (step patient (10 ^ 18) (.steady (30 * 10 ^ 9))) (new patient 0) entering =
          some t₀ ∧ t₀.AtLoopStart patient 0 ∧
        ∃ t, exec (step patient (10 ^ 18) (.steady (30 * 10 ^ 9))) t₀ burst = some t ∧
          t.session.stage = .ended .missedHeartbeats :=
  ⟨Socket.liveFrom_steady (by decide), by decide, by decide, by decide⟩

end TimedSession
end ArmatureWebsocket
