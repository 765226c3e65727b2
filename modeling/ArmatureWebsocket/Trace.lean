import ArmatureWebsocket.Session

/-! # The contract of `handle_connection` with its handler

`Session.trace` is what a connection does that others see.  This module says what it is.  A
`LoopHistory` is what a read loop has read: frames, none of them a Close, each with what its
callback returned, and at most one thing after them that ended the reading.  `Stage.Tells` says
what the trace is at every stage, given what was read and what the callbacks returned.

It holds in every run in which the callbacks return and the timers do not panic
(`SessionAct.Orderly`), whatever else happens in between (`trace_of_run`). -/

namespace ArmatureWebsocket

open Execution

/-- Callbacks return, and the ticker and the idle deadline are within range. -/
def SessionAct.Orderly (config : WebSocketServerConfig) (instantMax : ℕ) : SessionAct → Prop
  | .callbackPanicked => False
  | .connected now => 0 < config.heartbeatInterval ∧ now + config.connectionTimeout ≤ instantMax
  | .read now _ => now + config.connectionTimeout ≤ instantMax
  | _ => True

instance (config : WebSocketServerConfig) (instantMax : ℕ) (act : SessionAct) :
    Decidable (act.Orderly config instantMax) :=
  match act with
  | .callbackPanicked => .isFalse id
  | .connected _ => inferInstanceAs (Decidable (_ ∧ _))
  | .read _ _ => inferInstanceAs (Decidable (_ ≤ _))
  | .outside _ | .handshaken _ _ | .registered | .tick | .evicted | .idle
  | .callbackReturned _ | .taskStep | .teardown | .joined | .timedOut
  | .disconnected => .isTrue trivial

/-- What a callback of the loop returned; only the result of `on_ping` is used. -/
def SessionAct.answer : SessionAct → Option Bytes
  | .callbackReturned pong => some pong
  | _ => none

/-- What the callbacks of the loop returned, in order. -/
def answers (acts : List SessionAct) : List Bytes := acts.filterMap SessionAct.answer

/-- How the reading ended, if it did. -/
inductive Ending where
  | none
  | close (frame : Option CloseFrame)
  | error (reason : String)
  | endOfStream

/-- What the socket yielded at the end. -/
def Ending.reads : Ending → List ReadResult
  | .none => []
  | .close frame => [.message (.close frame)]
  | .error reason => [.error reason]
  | .endOfStream => [.endOfStream]

/-- What the end of the reading is answered with. -/
def Ending.events (who : Identity) : Ending → List SessionEvent
  | .error reason => [.handler (.onError who.id (.protocol reason))]
  | _ => []

/-- What a frame is answered with, given what its callback returned. -/
def frameEvents (who : Identity) (frame : TungsteniteMessage × Bytes) : List SessionEvent :=
  match frame.1 with
  | .ping data => [.handler (.onPing who.id data), .pong frame.2]
  | .pong data => [.handler (.onPong who.id data)]
  | .close _ => []
  | msg => [.handler (.onMessage who.id who.principal (.ofTungstenite msg))]

/-- What a read loop has read: frames with what their callbacks returned, and how it ended. -/
structure LoopHistory where
  frames : List (TungsteniteMessage × Bytes)
  ending : Ending
  no_close : ∀ frame ∈ frames, frame.1.isClose = false

namespace LoopHistory

/-- Nothing has been read. -/
def empty : LoopHistory := ⟨[], .none, fun _ h => by cases h⟩

/-- One more frame. -/
def push (h : LoopHistory) (msg : TungsteniteMessage) (answer : Bytes)
    (hmsg : msg.isClose = false) : LoopHistory where
  frames := h.frames ++ [(msg, answer)]
  ending := h.ending
  no_close := fun frame hframe => by
    obtain hframe | hframe := List.mem_append.mp hframe
    · exact h.no_close frame hframe
    · rw [List.mem_singleton.mp hframe]
      exact hmsg

/-- The reading ends. -/
def finish (h : LoopHistory) (ending : Ending) : LoopHistory := { h with ending := ending }

/-- What the socket yielded. -/
def reads (h : LoopHistory) : List ReadResult :=
  h.frames.map (fun frame => .message frame.1) ++ h.ending.reads

/-- What the callbacks of the frames returned. -/
def answers (h : LoopHistory) : List Bytes := h.frames.map Prod.snd

/-- What was read is answered with, in order. -/
def events (who : Identity) (h : LoopHistory) : List SessionEvent :=
  h.frames.flatMap (frameEvents who) ++ h.ending.events who

end LoopHistory

/-- How every connection begins. -/
def opening (who : Identity) : List SessionEvent :=
  [.register who.id who.principal, .handler (.onConnect who.id who.principal)]

/-- What is seen of the teardown, up to the given stage. -/
def Stage.closingEvents (who : Identity) : Stage → List SessionEvent
  | .disconnecting => [.stateClosed, .handler (.onDisconnect who.id who.principal)]
  | .finished => [.stateClosed, .handler (.onDisconnect who.id who.principal), .unregister who.id]
  | _ => []

/-- What the trace of a connection is at each stage: nothing before it is registered, then the
opening, the answers to the frames read and, while a callback is running, its call; after the loop,
the answer to the end of the reading and the events of the teardown. -/
def Stage.Tells (who : Identity) (reads : List ReadResult) (returned : List Bytes)
    (trace : List SessionEvent) (stage : Stage) : Prop :=
  match stage with
  | .handshaking | .refused | .panicked _ => False
  | .registering => reads = [] ∧ returned = [] ∧ trace = []
  | .connecting => reads = [] ∧ returned = [] ∧ trace = opening who
  | .selecting | .pinging | .ponging =>
      ∃ h : LoopHistory, h.ending = .none ∧ reads = h.reads ∧ returned = h.answers ∧
        trace = opening who ++ h.events who
  | .handling callback =>
      ∃ (h : LoopHistory) (r : ReadResult), h.ending = .none ∧ reads = h.reads ++ [r] ∧
        afterRead r = .call callback ∧ returned = h.answers ∧
        trace = opening who ++ h.events who ++ [.handler (callback.handlerCall who)]
  | .ended _ | .closing | .flushing | .marking | .disconnecting | .finished =>
      ∃ h : LoopHistory, reads = h.reads ∧ h.answers <+: returned ∧
        trace = opening who ++ h.events who ++ stage.closingEvents who

/-- The callback is called with that identity. -/
def HandlerCall.Concerns (who : Identity) : HandlerCall → Prop
  | .onConnect id principal => id = who.id ∧ principal = who.principal
  | .onMessage id principal _ => id = who.id ∧ principal = who.principal
  | .onPing id _ => id = who.id
  | .onPong id _ => id = who.id
  | .onError id _ => id = who.id
  | .onDisconnect id principal => id = who.id ∧ principal = who.principal

/-- The event happens under that identity. -/
def SessionEvent.Concerns (who : Identity) : SessionEvent → Prop
  | .register id principal => id = who.id ∧ principal = who.principal
  | .handler call => call.Concerns who
  | .pong _ => True
  | .stateClosed => True
  | .unregister id => id = who.id

theorem Callback.concerns (who : Identity) (callback : Callback) :
    (callback.handlerCall who).Concerns who := by
  cases callback with
  | onMessage message => exact ⟨rfl, rfl⟩
  | onPing payload => exact rfl
  | onPong payload => exact rfl
  | onError reason => exact rfl

/-- The loop waits for its branches or makes a call of its own. -/
def Stage.loops : Stage → Bool
  | .selecting | .pinging | .ponging => true
  | _ => false

/-- The loop is over, and the task has not panicked. -/
def Stage.leaving : Stage → Bool
  | .ended _ | .closing | .flushing | .marking | .disconnecting | .finished => true
  | _ => false

/-- The handshake did not lead to a connection. -/
def Stage.away : Stage → Bool
  | .refused | .panicked (.library _) => true
  | _ => false

/-- There is no connection. -/
def Stage.early (stage : Stage) : Bool := stage == .handshaking || stage.away

/-- The task is in its loop. -/
def Stage.inLoop (stage : Stage) : Prop :=
  stage.loops = true ∨ ∃ callback, stage = .handling callback

/-! ### What was read -/

namespace LoopHistory

variable {h : LoopHistory} {who : Identity}

theorem reads_push {msg : TungsteniteMessage} {answer : Bytes} {hmsg : msg.isClose = false}
    (hend : h.ending = .none) :
    (h.push msg answer hmsg).reads = h.reads ++ [.message msg] := by
  simp [reads, push, hend, Ending.reads]

theorem answers_push {msg : TungsteniteMessage} {answer : Bytes} {hmsg : msg.isClose = false} :
    (h.push msg answer hmsg).answers = h.answers ++ [answer] := by
  simp [answers, push]

theorem events_push {msg : TungsteniteMessage} {answer : Bytes} {hmsg : msg.isClose = false}
    (hend : h.ending = .none) :
    (h.push msg answer hmsg).events who = h.events who ++ frameEvents who (msg, answer) := by
  simp [events, push, hend, Ending.events]

theorem reads_finish {ending : Ending} (hend : h.ending = .none) :
    (h.finish ending).reads = h.reads ++ ending.reads := by
  simp [reads, finish, hend, Ending.reads]

theorem events_finish {ending : Ending} (hend : h.ending = .none) :
    (h.finish ending).events who = h.events who ++ ending.events who := by
  simp [events, finish, hend, Ending.events]

end LoopHistory

theorem afterRead_call {r : ReadResult} {callback : Callback} (h : afterRead r = .call callback) :
    (∃ msg, r = .message msg ∧ msg.isClose = false ∧ (∀ why, callback.resume ≠ .exit why) ∧
      ∀ who answer, frameEvents who (msg, answer) = .handler (callback.handlerCall who) ::
        if callback.resume = .pong then [.pong answer] else []) ∨
    ∃ reason, r = .error reason ∧ callback = .onError reason := by
  cases r with
  | message msg =>
      refine .inl ⟨msg, rfl, ?_⟩
      cases msg <;> simp_all [afterRead, TungsteniteMessage.isClose, Message.ofTungstenite,
        Message.isPing, Message.isPong, Message.text, Message.binary, Message.ping,
        Message.pong] <;>
        subst h <;> simp [Callback.resume, Callback.handlerCall, frameEvents,
          Message.ofTungstenite, Message.text, Message.binary]
  | error reason =>
      cases h
      exact .inr ⟨reason, rfl, rfl⟩
  | endOfStream => cases h

theorem afterRead_exit {r : ReadResult} {why : LoopExit} (h : afterRead r = .exit why) :
    ∃ ending : Ending, ending.reads = [r] ∧ ∀ who, ending.events who = [] := by
  cases r with
  | message msg =>
      have hclose : msg.isClose = true := (afterRead_message_exit_iff msg).mp ⟨why, h⟩
      cases msg with
      | close frame => exact ⟨.close frame, rfl, fun _ => rfl⟩
      | _ => cases hclose
  | error reason => cases h
  | endOfStream => exact ⟨.endOfStream, rfl, fun _ => rfl⟩

/-! ### How the trace goes on -/

namespace Stage

variable {who : Identity} {reads : List ReadResult} {returned : List Bytes}
  {trace : List SessionEvent} {stage stage' : Stage}

theorem tells_of_loops (hloops : stage.loops = true) :
    stage.Tells who reads returned trace ↔
      ∃ h : LoopHistory, h.ending = .none ∧ reads = h.reads ∧ returned = h.answers ∧
        trace = opening who ++ h.events who := by
  cases stage with
  | selecting | pinging | ponging => exact Iff.rfl
  | _ => cases hloops

theorem tells_of_leaving (hleaving : stage.leaving = true) :
    stage.Tells who reads returned trace ↔
      ∃ h : LoopHistory, reads = h.reads ∧ h.answers <+: returned ∧
        trace = opening who ++ h.events who ++ stage.closingEvents who := by
  cases stage with
  | ended | closing | flushing | marking | disconnecting | finished => exact Iff.rfl
  | _ => cases hleaving

/-- The registration is done. -/
theorem Tells.register (h : registering.Tells who reads returned trace) :
    connecting.Tells who reads returned (trace ++ opening who) := by
  obtain ⟨rfl, rfl, rfl⟩ := h
  exact ⟨rfl, rfl, rfl⟩

theorem Tells.enter (h : connecting.Tells who reads returned trace) :
    selecting.Tells who reads returned trace := by
  obtain ⟨rfl, rfl, rfl⟩ := h
  exact ⟨.empty, rfl, rfl, rfl, rfl⟩

theorem Tells.stay (h : stage.Tells who reads returned trace) (hloops : stage.loops = true)
    (hloops' : stage'.loops = true) : stage'.Tells who reads returned trace := by
  rw [tells_of_loops hloops']
  exact (tells_of_loops hloops).mp h

/-- The loop ends without reading. -/
theorem Tells.leave (h : stage.Tells who reads returned trace) (hloops : stage.loops = true)
    (why : LoopExit) : (ended why).Tells who reads returned trace := by
  obtain ⟨hist, -, hreads, hanswers, htrace⟩ := (tells_of_loops hloops).mp h
  refine ⟨hist, hreads, ?_, ?_⟩
  · rw [hanswers]
  · rw [htrace]
    exact (List.append_nil _).symm

/-- A read that ends the loop. -/
theorem Tells.exit (h : selecting.Tells who reads returned trace) {r : ReadResult}
    {why : LoopExit} (hr : afterRead r = .exit why) :
    (ended why).Tells who (reads ++ [r]) returned trace := by
  obtain ⟨hist, hend, rfl, rfl, rfl⟩ := h
  obtain ⟨ending, hone, hnone⟩ := afterRead_exit hr
  refine ⟨hist.finish ending, ?_, List.prefix_rfl, ?_⟩
  · rw [LoopHistory.reads_finish hend, hone]
  · rw [LoopHistory.events_finish hend, hnone, List.append_nil]
    exact (List.append_nil _).symm

/-- A read that is handed to a callback. -/
theorem Tells.call (h : selecting.Tells who reads returned trace) {r : ReadResult}
    {callback : Callback} (hr : afterRead r = .call callback) :
    (handling callback).Tells who (reads ++ [r]) returned
      (trace ++ [.handler (callback.handlerCall who)]) := by
  obtain ⟨hist, hend, rfl, rfl, rfl⟩ := h
  exact ⟨hist, r, hend, rfl, hr, rfl, rfl⟩

/-- The callback of a frame returns, and its pong is on its way if it has one. -/
theorem Tells.resume (stage : Stage) {callback : Callback}
    (h : (handling callback).Tells who reads returned trace) (answer : Bytes)
    (hresume : ∀ why, callback.resume ≠ .exit why) (hloops : stage.loops = true) :
    stage.Tells who reads (returned ++ [answer])
      (trace ++ if callback.resume = .pong then [.pong answer] else []) := by
  obtain ⟨hist, r, hend, rfl, hr, rfl, rfl⟩ := h
  obtain ⟨msg, rfl, hmsg, -, hevents⟩ | ⟨reason, -, rfl⟩ := afterRead_call hr
  · rw [tells_of_loops hloops]
    refine ⟨hist.push msg answer hmsg, hend, (LoopHistory.reads_push hend).symm,
      LoopHistory.answers_push.symm, ?_⟩
    rw [LoopHistory.events_push hend, hevents]
    simp
  · exact absurd rfl (hresume _)

theorem Tells.fail {callback : Callback} {why : LoopExit}
    (h : (handling callback).Tells who reads returned trace) (answer : Bytes)
    (hresume : callback.resume = .exit why) :
    (ended why).Tells who reads (returned ++ [answer]) trace := by
  obtain ⟨hist, r, hend, rfl, hr, rfl, rfl⟩ := h
  obtain ⟨msg, -, -, hne, -⟩ | ⟨reason, rfl, rfl⟩ := afterRead_call hr
  · exact absurd hresume (hne why)
  · refine ⟨hist.finish (.error reason), ?_, List.prefix_append _ _, ?_⟩
    · rw [LoopHistory.reads_finish hend]
      rfl
    rw [LoopHistory.events_finish hend]
    simp [Ending.events, Callback.handlerCall, closingEvents]

/-- The teardown goes on. -/
theorem Tells.proceed (stage' : Stage) (h : stage.Tells who reads returned trace)
    (hleaving : stage.leaving = true) (hleaving' : stage'.leaving = true)
    (events : List SessionEvent)
    (hevents : stage'.closingEvents who = stage.closingEvents who ++ events) :
    stage'.Tells who reads returned (trace ++ events) := by
  obtain ⟨hist, hreads, hanswers, rfl⟩ := (tells_of_leaving hleaving).mp h
  rw [tells_of_leaving hleaving']
  refine ⟨hist, hreads, hanswers, ?_⟩
  rw [hevents]
  simp only [List.append_assoc]

end Stage

/-! ### The steps of a session -/

namespace Session

variable {config : WebSocketServerConfig} {instantMax : ℕ} {s s' : Session} {returned : List Bytes}

/-- Without a connection nothing has been shown; a connection has the trace of its stage, and while
it is in its loop the idle deadline is within range. -/
def Lives (config : WebSocketServerConfig) (instantMax : ℕ) (returned : List Bytes) (s : Session) :
    Prop :=
  match s.identity with
  | none => s.stage.early = true ∧ s.trace = [] ∧ s.yielded = [] ∧ returned = []
  | some who => s.stage.Tells who s.yielded returned s.trace ∧
      (s.stage.inLoop → s.vars.lastRead + config.connectionTimeout ≤ instantMax)

theorem lives_new : (new config).Lives config instantMax [] := ⟨rfl, rfl, rfl, rfl⟩

theorem loopHead_eq (h : s.vars.lastRead + config.connectionTimeout ≤ instantMax) :
    s.loopHead config instantMax = s.goto .selecting := guarded_eq h

theorem enterLoop_eq_of_le {now : ℕ} (hinterval : 0 < config.heartbeatInterval)
    (hnow : now + config.connectionTimeout ≤ instantMax) :
    s.enterLoop config instantMax now = { s with vars := ⟨0, now⟩ }.goto .selecting := by
  have hsafe : (LibraryCall.interval config.heartbeatInterval).Safe instantMax := hinterval
  unfold enterLoop
  rw [guarded_eq hsafe]
  exact loopHead_eq hnow

/-- The handshake leads to a connection about to be registered, or to none. -/
theorem handshakeEnd_cases (config : WebSocketServerConfig) (instantMax : ℕ) (s : Session)
    (outcome : WebSocketResult (Option Principal)) (id : ConnectionId) :
    (∃ principal, outcome = .ok (some principal) ∧
      s.handshakeEnd config instantMax outcome id = s.made ⟨id, principal⟩) ∨
    ∃ stage : Stage, stage.away = true ∧
      s.handshakeEnd config instantMax outcome id = s.goto stage := by
  have hguarded : ∀ call next, guarded instantMax s call next = next ∨
      ∃ stage : Stage, stage.away = true ∧ guarded instantMax s call next = s.goto stage := by
    intro call next
    obtain ⟨-, he⟩ | ⟨-, he⟩ := guarded_cases instantMax s call next
    · exact .inl he
    · exact .inr ⟨_, rfl, he⟩
  have hrefused : ∃ stage : Stage, stage.away = true ∧
      guarded instantMax s (.acceptWith config.wsConfig) (s.goto .refused) = s.goto stage := by
    obtain he | he := hguarded (.acceptWith config.wsConfig) (s.goto .refused)
    · exact ⟨.refused, rfl, he⟩
    · exact he
  unfold handshakeEnd
  cases outcome with
  | error e => exact .inr hrefused
  | ok principal =>
      cases principal with
      | none => exact .inr hrefused
      | some principal =>
          obtain he | ⟨stage, haway, he⟩ := hguarded (.acceptWith config.wsConfig)
            (s.establish config instantMax ⟨id, principal⟩)
          · obtain he' | ⟨stage, haway, he'⟩ := hguarded
              (.mpscChannel config.outboundQueueCapacity) (s.made ⟨id, principal⟩)
            · exact .inl ⟨principal, rfl, he.trans he'⟩
            · exact .inr ⟨stage, haway, he.trans he'⟩
          · exact .inr ⟨stage, haway, he⟩

theorem lives_of_some (who : Identity) (hwho : s.identity = some who)
    (htells : s.stage.Tells who s.yielded returned s.trace)
    (hdeadline : s.stage.inLoop → s.vars.lastRead + config.connectionTimeout ≤ instantMax) :
    s.Lives config instantMax returned := by
  unfold Lives
  rw [hwho]
  exact ⟨htells, hdeadline⟩

theorem lives_of_leaving (who : Identity) (hwho : s.identity = some who)
    (hleaving : s.stage.leaving = true)
    (htells : s.stage.Tells who s.yielded returned s.trace) :
    s.Lives config instantMax returned := by
  apply lives_of_some who hwho htells
  rintro (hloops | ⟨callback, hcallback⟩)
  · cases hstage : s.stage <;> rw [hstage] at hleaving hloops <;> cases hleaving <;> cases hloops
  · rw [hcallback] at hleaving
    cases hleaving

/-- Past the handshake there is a connection. -/
theorem Lives.at {stage : Stage} (h : s.Lives config instantMax returned)
    (hstage : s.stage = stage) (hearly : stage.early = false) :
    ∃ who, s.identity = some who ∧ stage.Tells who s.yielded returned s.trace ∧
      (stage.inLoop → s.vars.lastRead + config.connectionTimeout ≤ instantMax) := by
  subst hstage
  unfold Lives at h
  cases hwho : s.identity with
  | none =>
      rw [hwho] at h
      rw [h.1] at hearly
      cases hearly
  | some who =>
      rw [hwho] at h
      exact ⟨who, rfl, h⟩

theorem Lives.handshaking (h : s.Lives config instantMax returned)
    (hstage : s.stage = .handshaking) :
    s.identity = none ∧ s.trace = [] ∧ s.yielded = [] ∧ returned = [] := by
  unfold Lives at h
  cases hwho : s.identity with
  | none =>
      rw [hwho] at h
      exact ⟨rfl, h.2⟩
  | some who =>
      rw [hwho, hstage] at h
      exact h.1.elim

/-- The task begins a call of its own. -/
theorem Lives.begin {call : ConnCall} {stage : Stage} {t : Session}
    (hbegin : t.begin call stage = some s')
    (h : (t.goto stage).Lives config instantMax returned) :
    s'.Lives config instantMax returned := by
  obtain ⟨-, -, rfl⟩ := begin_some hbegin
  exact h

/-- A call of the task returns. -/
theorem Lives.callReturned (h : s.Lives config instantMax returned) (failed : Bool) :
    (s.callReturned config instantMax failed).Lives config instantMax returned := by
  unfold Session.callReturned
  split
  · obtain ⟨who, hwho, htells, hdeadline⟩ := h.at ‹s.stage = _› rfl
    have hle := hdeadline (.inl rfl)
    split_ifs
    · exact lives_of_leaving who hwho rfl (htells.leave rfl _)
    · rw [loopHead_eq hle]
      exact lives_of_some who hwho (htells.stay rfl rfl) fun _ => hle
  · obtain ⟨who, hwho, htells, hdeadline⟩ := h.at ‹s.stage = _› rfl
    have hle := hdeadline (.inl rfl)
    rw [loopHead_eq hle]
    exact lives_of_some who hwho (htells.stay rfl rfl) fun _ => hle
  · obtain ⟨who, hwho, htells, -⟩ := h.at ‹s.stage = _› rfl
    have hnext := htells.proceed .flushing rfl rfl [] rfl
    rw [List.append_nil] at hnext
    exact lives_of_leaving who hwho rfl hnext
  · obtain ⟨who, hwho, htells, -⟩ := h.at ‹s.stage = _› rfl
    have hnext := htells.proceed .disconnecting rfl rfl _ rfl
    refine lives_of_leaving who hwho rfl ?_
    show Stage.Tells _ _ _ (s.trace ++ s.identity.elim _ _) _
    rw [hwho]
    exact hnext
  · exact h

theorem Lives.handshaken {outcome : WebSocketResult (Option Principal)} {id : ConnectionId}
    (h : s.Lives config instantMax returned)
    (hstep : s.step config instantMax (.handshaken outcome id) = some s') :
    s'.Lives config instantMax returned := by
  obtain ⟨hstage, rfl⟩ := handshaken_some hstep
  obtain ⟨hnone, htrace, hyielded, hreturned⟩ := h.handshaking hstage
  obtain ⟨principal, -, he⟩ | ⟨stage, haway, he⟩ :=
    handshakeEnd_cases config instantMax s outcome id
  · rw [he]
    refine lives_of_some ⟨id, principal⟩ rfl ⟨hyielded, hreturned, htrace⟩ ?_
    rintro (hloops | ⟨callback, hcallback⟩)
    · cases hloops
    · cases hcallback
  · rw [he]
    unfold Lives
    show match s.identity with | none => _ | some who => _
    rw [hnone]
    have hearly : stage.early = true := by
      unfold Stage.early
      rw [haway, Bool.or_true]
    exact ⟨hearly, htrace, hyielded, hreturned⟩

theorem Lives.registered (h : s.Lives config instantMax returned)
    (hstep : s.step config instantMax .registered = some s') :
    s'.Lives config instantMax returned := by
  obtain ⟨hstage, rfl⟩ := registered_some hstep
  obtain ⟨who, hwho, htells, -⟩ := h.at hstage rfl
  refine lives_of_some who hwho ?_ ?_
  · show Stage.Tells _ _ _ (s.trace ++ s.identity.elim _ _) _
    rw [hwho]
    exact htells.register
  · rintro (hloops | ⟨callback, hcallback⟩)
    · cases hloops
    · cases hcallback

theorem Lives.connected {now : ℕ} (h : s.Lives config instantMax returned)
    (hact : (SessionAct.connected now).Orderly config instantMax)
    (hstep : s.step config instantMax (.connected now) = some s') :
    s'.Lives config instantMax returned := by
  obtain ⟨out, hstage, -, rfl⟩ := connected_some hstep
  obtain ⟨who, hwho, htells, -⟩ := h.at hstage rfl
  rw [enterLoop_eq_of_le hact.1 hact.2]
  exact lives_of_some who hwho htells.enter fun _ => hact.2

theorem Lives.tick (h : s.Lives config instantMax returned)
    (hstep : s.step config instantMax .tick = some s') : s'.Lives config instantMax returned := by
  obtain ⟨hstage, ⟨vars, why, -, rfl⟩ | ⟨vars, hvars, hbegin⟩⟩ := tick_some hstep
  · obtain ⟨who, hwho, htells, -⟩ := h.at hstage rfl
    exact lives_of_leaving who hwho rfl (htells.leave rfl why)
  · obtain ⟨who, hwho, htells, hdeadline⟩ := h.at hstage rfl
    have hread := onTick_lastRead s.vars
    rw [hvars] at hread
    apply Lives.begin hbegin
    refine lives_of_some who hwho (htells.stay rfl rfl) fun _ => ?_
    show vars.lastRead + _ ≤ _
    rw [hread]
    exact hdeadline (.inl rfl)

theorem Lives.read {now : ℕ} {result : ReadResult} (h : s.Lives config instantMax returned)
    (hact : (SessionAct.read now result).Orderly config instantMax)
    (hstep : s.step config instantMax (.read now result) = some s') :
    s'.Lives config instantMax returned := by
  obtain ⟨hstage, rfl⟩ := read_some hstep
  obtain ⟨who, hwho, htells, -⟩ := h.at hstage rfl
  unfold afterRead
  split
  · exact lives_of_leaving who hwho rfl (htells.exit ‹_›)
  · refine lives_of_some who hwho ?_ fun _ => ?_
    · show Stage.Tells _ _ _ (s.trace ++ s.identity.elim _ _) _
      rw [hwho]
      exact htells.call ‹_›
    · show (readVars s.vars now result).lastRead + _ ≤ _
      rw [readVars_lastRead]
      exact hact

theorem Lives.callbackReturned {pong : Bytes} (h : s.Lives config instantMax returned)
    (hstep : s.step config instantMax (.callbackReturned pong) = some s') :
    s'.Lives config instantMax (returned ++ [pong]) := by
  obtain ⟨callback, hstage, hnext⟩ := callbackReturned_some hstep
  obtain ⟨who, hwho, htells, hdeadline⟩ := h.at hstage rfl
  have hle := hdeadline (.inr ⟨callback, rfl⟩)
  obtain ⟨hresume, rfl⟩ | ⟨hresume, hbegin⟩ | ⟨why, hresume, rfl⟩ := hnext
  · have htold := htells.resume .selecting pong (by rw [hresume]; simp) rfl
    rw [hresume, if_neg (by simp), List.append_nil] at htold
    rw [loopHead_eq hle]
    exact lives_of_some who hwho htold fun _ => hle
  · have htold := htells.resume .ponging pong (by rw [hresume]; simp) rfl
    rw [hresume, if_pos rfl] at htold
    apply Lives.begin hbegin
    refine lives_of_some who hwho ?_ fun _ => hle
    show Stage.Tells _ _ _ (s.trace ++ s.identity.elim _ _) _
    rw [hwho]
    exact htold
  · exact lives_of_leaving who hwho rfl (htells.fail pong hresume)

theorem Lives.taskStep (h : s.Lives config instantMax returned)
    (hstep : s.step config instantMax .taskStep = some s') :
    s'.Lives config instantMax returned := by
  obtain ⟨f, out, -, -, -, ⟨pc, -, rfl⟩ | ⟨reply, -, rfl⟩⟩ := taskStep_some hstep
  · exact h
  · have hout : (s.withOut out).Lives config instantMax returned := h
    exact hout.callReturned reply.failed

/-- The loop ends by itself, and nothing is seen of it. -/
theorem Lives.leave {t : Session} {why : LoopExit} (h : s.Lives config instantMax returned)
    (hstage : s.stage = .selecting) (hsame : t.identity = s.identity ∧ t.yielded = s.yielded ∧
      t.trace = s.trace) (hstage' : t.stage = .ended why) : t.Lives config instantMax returned := by
  obtain ⟨who, hwho, htells, -⟩ := h.at hstage rfl
  obtain ⟨hidentity, hyielded, htrace⟩ := hsame
  refine lives_of_leaving who (hidentity.trans hwho) (by rw [hstage']; rfl) ?_
  rw [hstage', hyielded, htrace]
  exact htells.leave rfl why

/-- A call of the teardown begins, and nothing is seen of it. -/
theorem Lives.proceed {call : ConnCall} {stage stage' : Stage} {t : Session}
    (h : t.Lives config instantMax returned) (hstage : t.stage = stage)
    (hleaving : stage.leaving = true) (hleaving' : stage'.leaving = true)
    (hsame : ∀ who, stage'.closingEvents who = stage.closingEvents who ++ [])
    (hearly : stage.early = false) (hbegin : t.begin call stage' = some s') :
    s'.Lives config instantMax returned := by
  obtain ⟨who, hwho, htells, -⟩ := h.at hstage hearly
  have hnext := htells.proceed stage' hleaving hleaving' [] (hsame who)
  rw [List.append_nil] at hnext
  exact .begin hbegin (lives_of_leaving who hwho hleaving' hnext)

theorem Lives.disconnected (h : s.Lives config instantMax returned)
    (hstep : s.step config instantMax .disconnected = some s') :
    s'.Lives config instantMax returned := by
  obtain ⟨hstage, rfl⟩ := disconnected_some hstep
  obtain ⟨who, hwho, htells, -⟩ := h.at hstage rfl
  refine lives_of_leaving who hwho rfl ?_
  show Stage.Tells _ _ _ (s.trace ++ s.identity.elim _ _) _
  rw [hwho]
  exact htells.proceed .finished rfl rfl _ rfl

theorem Lives.step {act : SessionAct} (h : s.Lives config instantMax returned)
    (hact : act.Orderly config instantMax) (hstep : s.step config instantMax act = some s') :
    s'.Lives config instantMax (returned ++ act.answer.toList) := by
  have hsame (ht : s'.Lives config instantMax returned) :
      s'.Lives config instantMax (returned ++ (none : Option Bytes).toList) :=
    (List.append_nil returned).symm ▸ ht
  cases act with
  | outside a =>
      obtain ⟨-, -, he⟩ := outside_some hstep
      rw [he] at hsame ⊢
      exact hsame h
  | handshaken outcome id => exact hsame (h.handshaken hstep)
  | registered => exact hsame (h.registered hstep)
  | connected now => exact hsame (h.connected hact hstep)
  | tick => exact hsame (h.tick hstep)
  | evicted =>
      obtain ⟨out, hstage, -, rfl⟩ := evicted_some hstep
      exact hsame (h.leave hstage ⟨rfl, rfl, rfl⟩ rfl)
  | idle =>
      obtain ⟨hstage, rfl⟩ := idle_some hstep
      exact hsame (h.leave hstage ⟨rfl, rfl, rfl⟩ rfl)
  | read now result => exact hsame (h.read hact hstep)
  | callbackReturned pong => exact h.callbackReturned hstep
  | callbackPanicked => exact hact.elim
  | taskStep => exact hsame (h.taskStep hstep)
  | teardown =>
      obtain ⟨⟨why, hstage⟩, hbegin⟩ := teardown_some hstep
      exact hsame (h.proceed hstage rfl rfl (fun _ => rfl) rfl hbegin)
  | joined =>
      obtain ⟨hstage, -, hbegin⟩ := joined_some hstep
      exact hsame (h.proceed hstage rfl rfl (fun _ => rfl) rfl hbegin)
  | timedOut =>
      obtain ⟨hstage, hbegin⟩ := timedOut_some hstep
      have habort : ({ s with abortRequested := true } : Session).Lives config instantMax
          returned := h
      exact hsame (habort.proceed hstage rfl rfl (fun _ => rfl) rfl hbegin)
  | disconnected => exact hsame (h.disconnected hstep)

/-! ### What a step shows, and under which identity -/

/-- What others see of the session, and under which identity. -/
def shown (s : Session) : Option Identity × List SessionEvent := (s.identity, s.trace)

theorem guarded_shown {call : LibraryCall} {next : Session} (h : next.shown = s.shown) :
    (guarded instantMax s call next).shown = s.shown := by
  obtain ⟨-, he⟩ | ⟨-, he⟩ := guarded_cases instantMax s call next
  · rw [he, h]
  · rw [he]
    rfl

theorem loopHead_shown : (s.loopHead config instantMax).shown = s.shown := guarded_shown rfl

theorem enterLoop_shown {now : ℕ} : (s.enterLoop config instantMax now).shown = s.shown :=
  guarded_shown loopHead_shown

theorem begin_shown {call : ConnCall} {stage : Stage} {t : Session}
    (hbegin : t.begin call stage = some s') : s'.shown = t.shown := by
  obtain ⟨-, -, rfl⟩ := begin_some hbegin
  rfl

/-- Which events a step notes: the registration and `on_connect`, the call of a callback for what
was read, the pong that the task begins to send, the access that has marked the connection closed
and `on_disconnect`, the end of the registration. -/
inductive Notes (s s' : Session) : SessionAct → (Identity → List SessionEvent) → Prop where
  | registered (hs : s.stage = .registering) (hs' : s'.stage = .connecting) :
      Notes s s' .registered opening
  | called {now : ℕ} {result : ReadResult} {callback : Callback} (hs : s.stage = .selecting)
      (hs' : s'.stage = .handling callback) :
      Notes s s' (.read now result) fun who => [.handler (callback.handlerCall who)]
  | answered {payload pong : Bytes} (hs : s.stage = .handling (.onPing payload))
      (hout : s.out.step (.start .task (.send (.pong pong))) = some s'.out) :
      Notes s s' (.callbackReturned pong) fun _ => [.pong pong]
  | closed {f : InFlight} {reply : ConnReply} (hs : s.stage = .marking)
      (hs' : s'.stage = .disconnecting) (hf : s.out.pool.threads.lookup .task = some f)
      (hreply : (connStep .task s.out.pool.shared f.pc).2 = .inr reply)
      (hout : s'.out.pool = s.out.pool.moved .task f (.inr reply)) :
      Notes s s' .taskStep fun who =>
        [.stateClosed, .handler (.onDisconnect who.id who.principal)]
  | unregistered (hs : s.stage = .disconnecting) :
      Notes s s' .disconnected fun who => [.unregister who.id]

theorem Notes.not_done {act : SessionAct} {events : Identity → List SessionEvent}
    (h : s.Notes s' act events) : s.stage.done = false := by
  cases h with
  | registered hs _ => rw [hs]; rfl
  | called hs _ => rw [hs]; rfl
  | answered hs _ => rw [hs]; rfl
  | closed hs _ _ _ _ => rw [hs]; rfl
  | unregistered hs => rw [hs]; rfl

theorem Notes.concerns {act : SessionAct} {events : Identity → List SessionEvent}
    (h : s.Notes s' act events) (who : Identity) : ∀ e ∈ events who, e.Concerns who := by
  intro e he
  cases h with
  | registered _ _ =>
      obtain rfl | he := List.mem_cons.mp he
      · exact ⟨rfl, rfl⟩
      · obtain rfl := List.mem_singleton.mp he
        exact ⟨rfl, rfl⟩
  | @called _ _ callback _ _ =>
      obtain rfl := List.mem_singleton.mp he
      exact callback.concerns who
  | answered _ _ =>
      obtain rfl := List.mem_singleton.mp he
      exact trivial
  | closed _ _ _ _ _ =>
      obtain rfl | he := List.mem_cons.mp he
      · exact trivial
      · obtain rfl := List.mem_singleton.mp he
        exact ⟨rfl, rfl⟩
  | unregistered _ =>
      obtain rfl := List.mem_singleton.mp he
      exact rfl

/-- A step leaves what is seen as it is, makes the connection, or notes events under its identity,
before the task is done. -/
theorem shown_of_step {act : SessionAct} (hstep : s.step config instantMax act = some s') :
    s'.shown = s.shown ∨
      (∃ principal id, act = .handshaken (.ok (some principal)) id ∧ s.stage = .handshaking ∧
        s' = s.made ⟨id, principal⟩) ∨
      ∃ events, s.Notes s' act events ∧ s'.shown = (s.note events).shown := by
  cases act with
  | outside a =>
      obtain ⟨-, -, he⟩ := outside_some hstep
      rw [he]
      exact .inl rfl
  | handshaken outcome id =>
      obtain ⟨hstage, rfl⟩ := handshaken_some hstep
      obtain ⟨principal, rfl, he⟩ | ⟨stage, -, he⟩ :=
        handshakeEnd_cases config instantMax s outcome id
      · exact .inr (.inl ⟨principal, id, rfl, hstage, he⟩)
      · rw [he]
        exact .inl rfl
  | registered =>
      obtain ⟨hstage, rfl⟩ := registered_some hstep
      exact .inr (.inr ⟨_, .registered hstage rfl, rfl⟩)
  | connected now =>
      obtain ⟨out, -, -, rfl⟩ := connected_some hstep
      exact .inl enterLoop_shown
  | tick =>
      obtain ⟨-, ⟨vars, why, -, rfl⟩ | ⟨vars, -, hbegin⟩⟩ := tick_some hstep
      · exact .inl rfl
      · exact .inl ((begin_shown hbegin).trans rfl)
  | evicted =>
      obtain ⟨out, -, -, rfl⟩ := evicted_some hstep
      exact .inl rfl
  | idle =>
      obtain ⟨-, rfl⟩ := idle_some hstep
      exact .inl rfl
  | read now result =>
      obtain ⟨hstage, rfl⟩ := read_some hstep
      unfold Session.afterRead
      split
      · exact .inl rfl
      · exact .inr (.inr ⟨_, .called hstage rfl, rfl⟩)
  | callbackReturned pong =>
      obtain ⟨callback, hstage, ⟨-, rfl⟩ | ⟨hresume, hbegin⟩ | ⟨why, -, rfl⟩⟩ :=
        callbackReturned_some hstep
      · exact .inl loopHead_shown
      · have hout : s.out.step (.start .task (.send (.pong pong))) = some s'.out :=
          (begin_some hbegin).2.1
        cases callback with
        | onPing payload => exact .inr (.inr ⟨_, .answered hstage hout, begin_shown hbegin⟩)
        | _ => cases hresume
      · exact .inl rfl
  | callbackPanicked =>
      obtain ⟨-, out, -, rfl⟩ | ⟨-, rfl⟩ := callbackPanicked_some hstep <;> exact .inl rfl
  | taskStep =>
      obtain ⟨f, out, hf, -, hout, ⟨pc, -, rfl⟩ | ⟨reply, hreply, rfl⟩⟩ := taskStep_some hstep
      · exact .inl rfl
      · unfold Session.callReturned
        split
        · split_ifs
          · exact .inl rfl
          · exact .inl loopHead_shown
        · exact .inl loopHead_shown
        · exact .inl rfl
        · rename_i hstage
          refine .inr (.inr ⟨_, .closed hstage rfl hf hreply ?_, rfl⟩)
          show out.pool = _
          rw [hout, hreply]
        · exact .inl rfl
  | teardown => exact .inl (begin_shown (teardown_some hstep).2)
  | joined => exact .inl (begin_shown (joined_some hstep).2.2)
  | timedOut => exact .inl ((begin_shown (timedOut_some hstep).2).trans rfl)
  | disconnected =>
      obtain ⟨hstage, rfl⟩ := disconnected_some hstep
      exact .inr (.inr ⟨_, .unregistered hstage, rfl⟩)

theorem step_identity {act : SessionAct} (hstep : s.step config instantMax act = some s') :
    s'.identity = s.identity ∨ ∃ principal id, act = .handshaken (.ok (some principal)) id ∧
      s.stage = .handshaking ∧ s' = s.made ⟨id, principal⟩ := by
  obtain hsame | hregistered | ⟨events, -, hnoted⟩ := shown_of_step hstep
  · exact .inl (congrArg Prod.fst hsame)
  · exact .inr hregistered
  · exact .inl (congrArg Prod.fst hnoted)

/-! ### Which handshake a connection comes from -/

/-- The connection has been turned away: the task is done, and nothing was seen of it. -/
def TurnedAway (s : Session) : Prop := s.stage.away = true ∧ s.trace = []

theorem done_of_step {act : SessionAct} (h : s.stage.done = true)
    (hstep : s.step config instantMax act = some s') :
    s'.stage = s.stage ∧ s'.shown = s.shown := by
  have hnot : s.stage.done = false → s'.stage = s.stage ∧ s'.shown = s.shown := by
    intro hdone
    rw [h] at hdone
    cases hdone
  obtain hstage | hmoves := stage_moves hstep
  · obtain hshown | ⟨principal, id, -, hhandshaking, -⟩ | ⟨events, hnotes, -⟩ := shown_of_step hstep
    · exact ⟨hstage, hshown⟩
    · exact hnot (by rw [hhandshaking]; rfl)
    · exact hnot hnotes.not_done
  · exact hnot hmoves.not_done

theorem done_of_away {stage : Stage} (h : stage.away = true) : stage.done = true := by
  cases stage with
  | refused => rfl
  | panicked why => rfl
  | _ => cases h

theorem TurnedAway.step {act : SessionAct} (h : s.TurnedAway)
    (hstep : s.step config instantMax act = some s') : s'.TurnedAway := by
  obtain ⟨hstage, hshown⟩ := done_of_step (done_of_away h.1) hstep
  have htrace : s'.trace = s.trace := congrArg Prod.snd hshown
  exact ⟨by rw [hstage, h.1], by rw [htrace, h.2]⟩

theorem lives_of_exec {acts : List SessionAct}
    (hrun : exec (step config instantMax) (new config) acts = some s)
    (horderly : ∀ act ∈ acts, act.Orderly config instantMax) :
    s.Lives config instantMax (answers acts) := by
  refine exec_history (P := fun acts s => (∀ act ∈ acts, act.Orderly config instantMax) →
    s.Lives config instantMax (answers acts)) ?_ (fun _ => lives_new) hrun horderly
  intro acts s₁ act s₂ h₁ hstep horderly
  have hact : act.Orderly config instantMax :=
    horderly act (List.mem_append_right acts List.mem_cons_self)
  have h := (h₁ fun a ha => horderly a (List.mem_append_left [act] ha)).step hact hstep
  unfold answers at h ⊢
  rw [List.filterMap_append]
  cases hanswer : act.answer with
  | none =>
      rw [hanswer] at h
      simpa [hanswer] using h
  | some pong =>
      rw [hanswer] at h
      simpa [hanswer] using h

theorem handshaken_of_identity {acts : List SessionAct} {who : Identity}
    (hrun : exec (step config instantMax) (new config) acts = some s)
    (hwho : s.identity = some who) :
    SessionAct.handshaken (.ok (some who.principal)) who.id ∈ acts := by
  refine exec_history (P := fun acts s => s.identity = some who →
    SessionAct.handshaken (.ok (some who.principal)) who.id ∈ acts) ?_ ?_ hrun hwho
  · intro acts s₁ act s₂ h₁ hstep hwho₂
    obtain hsame | ⟨principal, id, rfl, -, rfl⟩ := step_identity hstep
    · rw [hsame] at hwho₂
      exact List.mem_append_left _ (h₁ hwho₂)
    · cases hwho₂
      exact List.mem_append_right _ List.mem_cons_self
  · intro h
    cases h

theorem turnedAway_of_refused {acts : List SessionAct} {id : ConnectionId}
    {outcome : WebSocketResult (Option Principal)}
    (hrun : exec (step config instantMax) (new config) acts = some s)
    (horderly : ∀ act ∈ acts, act.Orderly config instantMax)
    (hmem : SessionAct.handshaken outcome id ∈ acts) (hrefused : ∀ p, outcome ≠ .ok (some p)) :
    s.TurnedAway := by
  obtain ⟨before, after, rfl⟩ := List.append_of_mem hmem
  rw [exec_append, Option.bind_eq_some_iff] at hrun
  obtain ⟨s₁, hbefore, hafter⟩ := hrun
  obtain ⟨s₂, hstep, hrest⟩ := exec_cons_iff.mp hafter
  obtain ⟨hstage, rfl⟩ := handshaken_some hstep
  have h₁ : s₁.Lives config instantMax (answers before) :=
    lives_of_exec hbefore fun act hact => horderly act (List.mem_append_left _ hact)
  have htrace : s₁.trace = [] := (h₁.handshaking hstage).2.1
  refine exec_invariant (fun _ _ _ h hs => TurnedAway.step h hs) ?_ hrest
  obtain ⟨principal, hok, -⟩ | ⟨stage, haway, he⟩ :=
    handshakeEnd_cases config instantMax s₁ outcome id
  · exact absurd hok (hrefused principal)
  · rw [he]
    exact ⟨haway, htrace⟩

/-- In every run whose callbacks return and whose timers do not panic, a connection whose handshake
is refused, times out or fails shows nothing.  A connection that shows anything was upgraded with
its identity, and its trace is that of its stage: registration, `on_connect`, the answers to the
frames in the order in which the socket yielded them, the answer to the end of the reading, and in
the end `Closed`, `on_disconnect` and the end of the registration. -/
theorem trace_of_run {acts : List SessionAct}
    (hrun : exec (step config instantMax) (new config) acts = some s)
    (horderly : ∀ act ∈ acts, act.Orderly config instantMax) :
    (∀ outcome id, SessionAct.handshaken outcome id ∈ acts → (∀ p, outcome ≠ .ok (some p)) →
        s.identity = none ∧ s.trace = [] ∧ s.yielded = [] ∧ s.stage.away = true) ∧
      (s.identity = none → s.trace = [] ∧ s.yielded = []) ∧
      ∀ who, s.identity = some who →
        SessionAct.handshaken (.ok (some who.principal)) who.id ∈ acts ∧
          s.stage.Tells who s.yielded (answers acts) s.trace := by
  have hlives := lives_of_exec hrun horderly
  have hnone : s.identity = none → s.trace = [] ∧ s.yielded = [] := by
    intro h
    unfold Lives at hlives
    rw [h] at hlives
    exact ⟨hlives.2.1, hlives.2.2.1⟩
  refine ⟨?_, hnone, ?_⟩
  · intro outcome id hmem hrefused
    have haway := turnedAway_of_refused hrun horderly hmem hrefused
    cases hwho : s.identity with
    | none => exact ⟨rfl, haway.2, (hnone hwho).2, haway.1⟩
    | some who =>
        unfold Lives at hlives
        rw [hwho] at hlives
        have htells := hlives.1
        have hstage := haway.1
        cases hs : s.stage <;> rw [hs] at htells hstage <;> first | exact htells.elim | cases hstage
  · intro who hwho
    unfold Lives at hlives
    rw [hwho] at hlives
    exact ⟨handshaken_of_identity hrun hwho, hlives.1⟩

end Session

end ArmatureWebsocket
