import ArmatureWebsocket.Delivery
import ArmatureWebsocket.ReadLoop

/-! # The life of one connection

`Session` is the server task of one connection: the handshake, the registration, the read loop and
the teardown, around the connection's outbound side.  `Stage` says what the task waits for or what
it is in the middle of.  Its own sends and its `close` are calls like those of the application, so
other callers and the writer get in between their accesses.

The labels say what the task is told: how the handshake ended, that the registration is done, which
branch of the loop is taken, what the socket yields, what a callback returns.  `outside` is a step
of the application, of the writer or of the sink; the application can reach the connection while its
registration is still under way.  The task panics when a library call is given an argument out of
range or a callback panics.

`yielded` is what the loop read, and `trace` what the task did that others see: the registration,
the callbacks, the pongs, the change to `Closed` and the end of the registration. -/

namespace ArmatureWebsocket

open Execution CallPool

/-- Who a connection belongs to. -/
structure Identity where
  id : ConnectionId
  principal : Principal
deriving DecidableEq

/-- The handler's callbacks with their arguments. -/
inductive HandlerCall where
  | onConnect (id : ConnectionId) (principal : Principal)
  | onMessage (id : ConnectionId) (principal : Principal) (message : Message)
  | onPing (id : ConnectionId) (payload : Bytes)
  | onPong (id : ConnectionId) (payload : Bytes)
  | onError (id : ConnectionId) (error : WebSocketError)
  | onDisconnect (id : ConnectionId) (principal : Principal)
deriving DecidableEq

/-- A callback of the loop, for the connection at hand. -/
def Callback.handlerCall (who : Identity) : Callback → HandlerCall
  | .onMessage message => .onMessage who.id who.principal message
  | .onPing payload => .onPing who.id payload
  | .onPong payload => .onPong who.id payload
  | .onError reason => .onError who.id (.protocol reason)

/-- What others see of a session. -/
inductive SessionEvent where
  | register (id : ConnectionId) (principal : Principal)
  | handler (call : HandlerCall)
  | pong (payload : Bytes)
  | stateClosed
  | unregister (id : ConnectionId)
deriving DecidableEq

/-- Why a task panicked. -/
inductive Panic where
  | library (call : LibraryCall)
  | callback
deriving DecidableEq, Repr

/-- What the server task waits for or is in the middle of. -/
inductive Stage where
  | handshaking
  | refused
  | registering
  | connecting
  | selecting
  | pinging
  | handling (callback : Callback)
  | ponging
  | ended (why : LoopExit)
  | closing
  | flushing
  | marking
  | disconnecting
  | finished
  | panicked (why : Panic)
deriving DecidableEq, Repr

/-- A connection's server task with its outbound side. -/
structure Session where
  stage : Stage
  identity : Option Identity
  vars : LoopVars
  out : Outbound
  abortRequested : Bool
  yielded : List ReadResult
  trace : List SessionEvent

/-- What the task is told, and the steps of everyone else. -/
inductive SessionAct where
  | outside (act : OutAct)
  | handshaken (outcome : WebSocketResult (Option Principal)) (id : ConnectionId)
  | registered
  | connected (now : ℕ)
  | tick
  | evicted
  | idle
  | read (now : ℕ) (result : ReadResult)
  | callbackReturned (pong : Bytes)
  | callbackPanicked
  | taskStep
  | teardown
  | joined
  | timedOut
  | disconnected

/-- The instant at which a step reads the clock. -/
def SessionAct.instant : SessionAct → Option ℕ
  | .connected now => some now
  | .read now _ => some now
  | _ => none

/-- The application can make the call. -/
def ConnCall.isPublic : ConnCall → Bool
  | .setState _ => false
  | _ => true

/-- The task is gone, and with it its handle on the connection. -/
def Stage.over : Stage → Bool
  | .finished => true
  | .panicked _ => true
  | _ => false

/-- The task has come to its end. -/
def Stage.done : Stage → Bool
  | .refused => true
  | .finished => true
  | .panicked _ => true
  | _ => false

/-- The stages that follow one another, and the labels that lead from one to the next. -/
inductive Stage.Moves : Stage → SessionAct → Stage → Prop where
  | upgraded (outcome id) : Moves .handshaking (.handshaken outcome id) .registering
  | refused (outcome id) : Moves .handshaking (.handshaken outcome id) .refused
  | registered : Moves .registering .registered .connecting
  | connected (now) : Moves .connecting (.connected now) .selecting
  | pinged : Moves .selecting .tick .pinging
  | unanswered (why) : Moves .selecting .tick (.ended why)
  | evicted : Moves .selecting .evicted (.ended .evicted)
  | idle : Moves .selecting .idle (.ended .idleTimeout)
  | called (now result callback) : Moves .selecting (.read now result) (.handling callback)
  | exited (now result why) : Moves .selecting (.read now result) (.ended why)
  | resumed (callback pong) : Moves (.handling callback) (.callbackReturned pong) .selecting
  | answered (callback pong) : Moves (.handling callback) (.callbackReturned pong) .ponging
  | failed (callback pong why) : Moves (.handling callback) (.callbackReturned pong) (.ended why)
  | pingSent : Moves .pinging .taskStep .selecting
  | pingRefused : Moves .pinging .taskStep (.ended .pingRefused)
  | pongSent : Moves .ponging .taskStep .selecting
  | closing (why) : Moves (.ended why) .teardown .closing
  | closed : Moves .closing .taskStep .flushing
  | joined : Moves .flushing .joined .marking
  | timedOut : Moves .flushing .timedOut .marking
  | marked : Moves .marking .taskStep .disconnecting
  | disconnected : Moves .disconnecting .disconnected .finished
  | panicked (stage act why) : stage.done = false → Moves stage act (.panicked why)

theorem Stage.Moves.not_done {stage stage' : Stage} {act : SessionAct}
    (h : stage.Moves act stage') : stage.done = false := by
  cases h with
  | panicked _ _ _ hdone => exact hdone
  | _ => rfl

namespace Session

/-- A task about to do the handshake.  Its queue is not used before the handshake is done. -/
def new (config : WebSocketServerConfig) : Session where
  stage := .handshaking
  identity := none
  vars := ⟨0, 0⟩
  out := .new config.outboundQueueCapacity
  abortRequested := false
  yielded := []
  trace := []

/-- Which steps of the outbound side others can do: the application once the connection is
registered, the writer and the sink at any time, an abort on request, and the end of the last
handle after the task's own. -/
def Allows (s : Session) : OutAct → Bool
  | .start (.app _) call => s.identity.isSome && call.isPublic
  | .step (.app _) => true
  | .recv => true
  | .recvNone => true
  | .accept => true
  | .refuse => true
  | .sinkClosed => true
  | .abort => s.abortRequested
  | .dropSenders => s.stage.over
  | .start .task _ => false
  | .step .task => false
  | .spawn => false
  | .evicted => false

/-- The session with another outbound side. -/
def withOut (s : Session) (out : Outbound) : Session := { s with out := out }

/-- The session at another stage. -/
def goto (s : Session) (stage : Stage) : Session := { s with stage := stage }

/-- Note what others see of the session. -/
def note (s : Session) (events : Identity → List SessionEvent) : Session :=
  { s with trace := s.trace ++ s.identity.elim [] events }

/-- The connection is made, and its registration begins. -/
def made (s : Session) (who : Identity) : Session :=
  { s with identity := some who }.goto .registering

/-- The connection is registered, and `on_connect` called. -/
def registered (s : Session) : Session :=
  (s.note fun who => [.register who.id who.principal,
    .handler (.onConnect who.id who.principal)]).goto .connecting

/-- Make a library call: go on, or panic. -/
def guarded (instantMax : ℕ) (s : Session) (call : LibraryCall) (next : Session) : Session :=
  match checked instantMax call with
  | .ok () => next
  | .error why => s.goto (.panicked (.library why))

section

variable (config : WebSocketServerConfig) (instantMax : ℕ)

/-- The head of the loop: compute the idle deadline and wait for the four branches. -/
def loopHead (s : Session) : Session :=
  guarded instantMax s (.instantAdd s.vars.lastRead config.connectionTimeout) (s.goto .selecting)

/-- The handshake is done: create the queue and the connection. -/
def establish (s : Session) (who : Identity) : Session :=
  guarded instantMax s (.mpscChannel config.outboundQueueCapacity) (s.made who)

/-- The handshake ended. -/
def handshakeEnd (s : Session) (outcome : WebSocketResult (Option Principal)) (id : ConnectionId) :
    Session :=
  guarded instantMax s (.acceptWith config.wsConfig) <|
    match outcome with
    | .ok (some principal) => s.establish config instantMax ⟨id, principal⟩
    | .ok none => s.goto .refused
    | .error _ => s.goto .refused

/-- Create the ticker and enter the loop. -/
def enterLoop (s : Session) (now : ℕ) : Session :=
  guarded instantMax s (.interval config.heartbeatInterval)
    ({ s with vars := ⟨0, now⟩ }.loopHead config instantMax)

/-- A call of the task has returned. -/
def callReturned (s : Session) (failed : Bool) : Session :=
  match s.stage with
  | .pinging => if failed then s.goto (.ended .pingRefused) else s.loopHead config instantMax
  | .ponging => s.loopHead config instantMax
  | .closing => s.goto .flushing
  | .marking =>
      (s.note fun who => [.stateClosed, .handler (.onDisconnect who.id who.principal)]).goto
        .disconnecting
  | _ => s

/-- The session after a read. -/
def afterRead (s : Session) (now : ℕ) (result : ReadResult) : Session :=
  let s := { s with vars := readVars s.vars now result, yielded := s.yielded ++ [result] }
  match ArmatureWebsocket.afterRead result with
  | .exit why => s.goto (.ended why)
  | .call cb => (s.note fun who => [.handler (cb.handlerCall who)]).goto (.handling cb)

/-- Begin a call of the task. -/
def begin (s : Session) (call : ConnCall) (stage : Stage) : Option Session :=
  (s.out.step (.start .task call)).map fun out => (s.withOut out).goto stage

/-- The steps of a session. -/
def step (s : Session) : SessionAct → Option Session
  | .outside act => if s.Allows act then (s.out.step act).map s.withOut else none
  | .handshaken outcome id =>
      match s.stage with
      | .handshaking => some (s.handshakeEnd config instantMax outcome id)
      | _ => none
  | .registered =>
      match s.stage with
      | .registering => some s.registered
      | _ => none
  | .connected now =>
      match s.stage with
      | .connecting =>
          (s.out.step .spawn).map fun out => (s.withOut out).enterLoop config instantMax now
      | _ => none
  | .tick =>
      match s.stage with
      | .selecting =>
          match onTick s.vars with
          | (vars, some why) => some ({ s with vars := vars }.goto (.ended why))
          | (vars, none) => { s with vars := vars }.begin (.send (.ping [])) .pinging
      | _ => none
  | .evicted =>
      match s.stage with
      | .selecting => (s.out.step .evicted).map fun out => (s.withOut out).goto (.ended .evicted)
      | _ => none
  | .idle =>
      match s.stage with
      | .selecting => some (s.goto (.ended .idleTimeout))
      | _ => none
  | .read now result =>
      match s.stage with
      | .selecting => some (s.afterRead now result)
      | _ => none
  | .callbackReturned pong =>
      match s.stage with
      | .handling cb =>
          match cb.resume with
          | .select => some (s.loopHead config instantMax)
          | .pong => (s.note fun _ => [.pong pong]).begin (.send (.pong pong)) .ponging
          | .exit why => some (s.goto (.ended why))
      | _ => none
  | .callbackPanicked =>
      match s.stage with
      | .connecting =>
          (s.out.step .abort).map fun out => (s.withOut out).goto (.panicked .callback)
      | .handling _ => some (s.goto (.panicked .callback))
      | .disconnecting => some (s.goto (.panicked .callback))
      | _ => none
  | .taskStep =>
      (s.out.step (.step .task)).map fun out =>
        match out.pool.threads.lookup .task with
        | some _ => s.withOut out
        | none =>
            (s.withOut out).callReturned config instantMax
              (out.pool.log.getLast?.any fun e => e.reply.failed)
  | .teardown =>
      match s.stage with
      | .ended _ => s.begin .close .closing
      | _ => none
  | .joined =>
      match s.stage, s.out.writer with
      | .flushing, .stopped => s.begin (.setState .closed) .marking
      | _, _ => none
  | .timedOut =>
      match s.stage with
      | .flushing => { s with abortRequested := true }.begin (.setState .closed) .marking
      | _ => none
  | .disconnected =>
      match s.stage with
      | .disconnecting => some ((s.note fun who => [.unregister who.id]).goto .finished)
      | _ => none

end

variable {config : WebSocketServerConfig} {instantMax : ℕ} {s s' : Session}

@[simp] theorem withOut_stage (out : Outbound) : (s.withOut out).stage = s.stage := rfl
@[simp] theorem withOut_out (out : Outbound) : (s.withOut out).out = out := rfl
@[simp] theorem goto_stage (stage : Stage) : (s.goto stage).stage = stage := rfl
@[simp] theorem made_stage (who : Identity) : (s.made who).stage = .registering := rfl
@[simp] theorem goto_out (stage : Stage) : (s.goto stage).out = s.out := rfl

/-- A guarded library call either is safe and the session goes on, or ends it with a panic. -/
theorem guarded_cases (instantMax : ℕ) (s : Session) (call : LibraryCall) (next : Session) :
    call.Safe instantMax ∧ guarded instantMax s call next = next ∨
      ¬ call.Safe instantMax ∧
        guarded instantMax s call next = s.goto (.panicked (.library call)) := by
  unfold guarded
  cases h : checked instantMax call with
  | ok u => exact .inl ⟨checked_eq_ok_iff.mp h, rfl⟩
  | error why =>
      obtain ⟨rfl, hsafe⟩ := checked_eq_error_iff.mp h
      exact .inr ⟨hsafe, rfl⟩

theorem guarded_eq {call : LibraryCall} {next : Session} (h : call.Safe instantMax) :
    guarded instantMax s call next = next := by
  obtain ⟨-, he⟩ | ⟨hnot, -⟩ := guarded_cases instantMax s call next
  · exact he
  · exact absurd h hnot

theorem safe_of_guarded {call : LibraryCall} {next : Session}
    (h : ∀ why, (guarded instantMax s call next).stage ≠ .panicked (.library why)) :
    call.Safe instantMax := by
  obtain ⟨hsafe, -⟩ | ⟨-, he⟩ := guarded_cases instantMax s call next
  · exact hsafe
  · rw [he] at h
    exact absurd rfl (h call)

/-- The head of the loop waits for the branches, or has panicked. -/
theorem loopHead_cases (config : WebSocketServerConfig) (instantMax : ℕ) (s : Session) :
    s.loopHead config instantMax = s.goto .selecting ∨
      ∃ call, s.loopHead config instantMax = s.goto (.panicked (.library call)) := by
  unfold loopHead
  obtain ⟨-, he⟩ | ⟨-, he⟩ := guarded_cases instantMax s _ (s.goto .selecting)
  · exact .inl he
  · exact .inr ⟨_, he⟩

/-- A session that entered the loop has reset its variables. -/
theorem enterLoop_eq {now : ℕ} (h : (s.enterLoop config instantMax now).stage = .selecting) :
    s.enterLoop config instantMax now = { s with vars := ⟨0, now⟩ }.goto .selecting := by
  have hinterval : (LibraryCall.interval config.heartbeatInterval).Safe instantMax :=
    safe_of_guarded fun why hwhy => by
      have hpanicked : (s.enterLoop config instantMax now).stage = .panicked (.library why) := hwhy
      rw [h] at hpanicked
      cases hpanicked
  have he : s.enterLoop config instantMax now =
      { s with vars := ⟨0, now⟩ }.loopHead config instantMax := guarded_eq hinterval
  rw [he] at h ⊢
  obtain hl | ⟨call, hl⟩ := loopHead_cases config instantMax { s with vars := ⟨0, now⟩ }
  · exact hl
  · rw [hl] at h
    cases h

/-! ### What the parts of a step leave alone -/

@[simp] theorem guarded_out {call : LibraryCall} {next : Session} (h : next.out = s.out) :
    (guarded instantMax s call next).out = s.out := by
  obtain ⟨-, he⟩ | ⟨-, he⟩ := guarded_cases instantMax s call next
  · rw [he, h]
  · rw [he, goto_out]

@[simp] theorem loopHead_out : (s.loopHead config instantMax).out = s.out := guarded_out rfl

theorem establish_out {who : Identity} :
    (s.establish config instantMax who).out = s.out := guarded_out rfl

@[simp] theorem handshakeEnd_out {outcome : WebSocketResult (Option Principal)}
    {id : ConnectionId} : (s.handshakeEnd config instantMax outcome id).out = s.out := by
  refine guarded_out ?_
  cases outcome with
  | error e => rfl
  | ok principal =>
      cases principal with
      | none => rfl
      | some principal => exact establish_out

@[simp] theorem enterLoop_out {now : ℕ} :
    (s.enterLoop config instantMax now).out = s.out := guarded_out loopHead_out

@[simp] theorem callReturned_out {failed : Bool} :
    (s.callReturned config instantMax failed).out = s.out := by
  unfold callReturned
  split
  · split_ifs
    · rfl
    · exact loopHead_out
  · exact loopHead_out
  · rfl
  · rfl
  · rfl

@[simp] theorem afterRead_out {now : ℕ} {result : ReadResult} :
    (s.afterRead now result).out = s.out := by
  unfold afterRead
  split <;> rfl

/-! ### What each label does -/

/-- How a call of the task begins. -/
theorem begin_some {call : ConnCall} {stage : Stage} (h : s.begin call stage = some s') :
    s.out.pool.threads.lookup .task = none ∧ s.out.step (.start .task call) = some s'.out ∧
      s' = (s.withOut { s.out with pool := s.out.pool.begun .task call }).goto stage := by
  obtain ⟨out, hout, rfl⟩ := Option.map_eq_some_iff.mp h
  obtain ⟨-, hwho, rfl⟩ := Outbound.start_some hout
  exact ⟨hwho, hout, rfl⟩

theorem outside_some {act : OutAct} (h : s.step config instantMax (.outside act) = some s') :
    s.Allows act = true ∧ s.out.step act = some s'.out ∧ s' = s.withOut s'.out := by
  simp only [step] at h
  split_ifs at h with hallows
  obtain ⟨out, hout, rfl⟩ := Option.map_eq_some_iff.mp h
  exact ⟨hallows, hout, rfl⟩

theorem handshaken_some {outcome : WebSocketResult (Option Principal)} {id : ConnectionId}
    (h : s.step config instantMax (.handshaken outcome id) = some s') :
    s.stage = .handshaking ∧ s' = s.handshakeEnd config instantMax outcome id := by
  simp only [step] at h
  split at h <;> cases h
  exact ⟨‹_›, rfl⟩

theorem registered_some (h : s.step config instantMax .registered = some s') :
    s.stage = .registering ∧ s' = s.registered := by
  simp only [step] at h
  split at h <;> cases h
  exact ⟨‹_›, rfl⟩

theorem connected_some {now : ℕ} (h : s.step config instantMax (.connected now) = some s') :
    ∃ out, s.stage = .connecting ∧ s.out.step .spawn = some out ∧
      s' = (s.withOut out).enterLoop config instantMax now := by
  simp only [step] at h
  split at h
  · obtain ⟨out, hout, rfl⟩ := Option.map_eq_some_iff.mp h
    exact ⟨out, ‹_›, hout, rfl⟩
  · cases h

theorem tick_some (h : s.step config instantMax .tick = some s') :
    s.stage = .selecting ∧
      ((∃ vars why, onTick s.vars = (vars, some why) ∧
          s' = { s with vars := vars }.goto (.ended why)) ∨
        ∃ vars, onTick s.vars = (vars, none) ∧
          { s with vars := vars }.begin (.send (.ping [])) .pinging = some s') := by
  simp only [step] at h
  split at h
  · refine ⟨‹_›, ?_⟩
    split at h
    · cases h
      exact .inl ⟨_, _, ‹_›, rfl⟩
    · exact .inr ⟨_, ‹_›, h⟩
  · cases h

theorem evicted_some (h : s.step config instantMax .evicted = some s') :
    ∃ out, s.stage = .selecting ∧ s.out.step .evicted = some out ∧
      s' = (s.withOut out).goto (.ended .evicted) := by
  simp only [step] at h
  split at h
  · obtain ⟨out, hout, rfl⟩ := Option.map_eq_some_iff.mp h
    exact ⟨out, ‹_›, hout, rfl⟩
  · cases h

theorem idle_some (h : s.step config instantMax .idle = some s') :
    s.stage = .selecting ∧ s' = s.goto (.ended .idleTimeout) := by
  simp only [step] at h
  split at h <;> cases h
  exact ⟨‹_›, rfl⟩

theorem read_some {now : ℕ} {result : ReadResult}
    (h : s.step config instantMax (.read now result) = some s') :
    s.stage = .selecting ∧ s' = s.afterRead now result := by
  simp only [step] at h
  split at h <;> cases h
  exact ⟨‹_›, rfl⟩

theorem callbackReturned_some {pong : Bytes}
    (h : s.step config instantMax (.callbackReturned pong) = some s') :
    ∃ cb, s.stage = .handling cb ∧
      (cb.resume = .select ∧ s' = s.loopHead config instantMax ∨
        cb.resume = .pong ∧
          (s.note fun _ => [.pong pong]).begin (.send (.pong pong)) .ponging = some s' ∨
        ∃ why, cb.resume = .exit why ∧ s' = s.goto (.ended why)) := by
  simp only [step] at h
  split at h
  · refine ⟨_, ‹_›, ?_⟩
    split at h
    · cases h
      exact .inl ⟨‹_›, rfl⟩
    · exact .inr (.inl ⟨‹_›, h⟩)
    · cases h
      exact .inr (.inr ⟨_, ‹_›, rfl⟩)
  · cases h

/-- A callback panics.  In `on_connect`, the writer has not been spawned, and is dropped. -/
theorem callbackPanicked_some (h : s.step config instantMax .callbackPanicked = some s') :
    (s.stage = .connecting ∧ ∃ out, s.out.step .abort = some out ∧
      s' = (s.withOut out).goto (.panicked .callback)) ∨
    ((∃ callback, s.stage = .handling callback) ∨ s.stage = .disconnecting) ∧
      s' = s.goto (.panicked .callback) := by
  simp only [step] at h
  split at h
  · obtain ⟨out, hout, rfl⟩ := Option.map_eq_some_iff.mp h
    exact .inl ⟨‹_›, out, hout, rfl⟩
  · cases h
    exact .inr ⟨.inl ⟨_, ‹_›⟩, rfl⟩
  · cases h
    exact .inr ⟨.inr ‹_›, rfl⟩
  · cases h

/-- The task's call goes on, or it returns and the session with it. -/
theorem taskStep_some (h : s.step config instantMax .taskStep = some s') :
    ∃ f out, s.out.pool.threads.lookup .task = some f ∧ s.out.step (.step .task) = some out ∧
      out = { s.out with
        pool := s.out.pool.moved .task f (connStep .task s.out.pool.shared f.pc).2 } ∧
      ((∃ pc, (connStep .task s.out.pool.shared f.pc).2 = .inl pc ∧ s' = s.withOut out) ∨
        ∃ reply, (connStep .task s.out.pool.shared f.pc).2 = .inr reply ∧
          s' = (s.withOut out).callReturned config instantMax reply.failed) := by
  obtain ⟨out, hout, rfl⟩ := Option.map_eq_some_iff.mp h
  obtain ⟨f, hf, he⟩ := Outbound.call_some hout
  refine ⟨f, out, hf, hout, he, ?_⟩
  subst he
  simp only
  rw [lookup_moved_self]
  cases hnext : (connStep .task s.out.pool.shared f.pc).2 with
  | inl pc => exact .inl ⟨pc, rfl, rfl⟩
  | inr reply =>
      have hlog : (s.out.pool.moved .task f (.inr reply)).log =
          s.out.pool.log ++ [⟨.task, f, reply⟩] := rfl
      refine .inr ⟨reply, rfl, ?_⟩
      show callReturned _ _ _
        (Option.any _ (s.out.pool.moved .task f (.inr reply)).log.getLast?) = _
      rw [hlog, List.getLast?_concat]
      rfl

theorem teardown_some (h : s.step config instantMax .teardown = some s') :
    (∃ why, s.stage = .ended why) ∧ s.begin .close .closing = some s' := by
  simp only [step] at h
  split at h
  · exact ⟨⟨_, ‹_›⟩, h⟩
  · cases h

theorem joined_some (h : s.step config instantMax .joined = some s') :
    s.stage = .flushing ∧ s.out.writer = .stopped ∧
      s.begin (.setState .closed) .marking = some s' := by
  simp only [step] at h
  split at h
  · exact ⟨‹_›, ‹_›, h⟩
  · cases h

theorem timedOut_some (h : s.step config instantMax .timedOut = some s') :
    s.stage = .flushing ∧
      { s with abortRequested := true }.begin (.setState .closed) .marking = some s' := by
  simp only [step] at h
  split at h
  · exact ⟨‹_›, h⟩
  · cases h

theorem disconnected_some (h : s.step config instantMax .disconnected = some s') :
    s.stage = .disconnecting ∧
      s' = (s.note fun who => [.unregister who.id]).goto .finished := by
  simp only [step] at h
  split at h <;> cases h
  exact ⟨‹_›, rfl⟩

/-- A step of a session is a step of its outbound side, or none of its; only the `evicted` branch
takes the eviction permit. -/
theorem step_out {act : SessionAct} (h : s.step config instantMax act = some s') :
    s'.out = s.out ∨ ∃ a, s.out.step a = some s'.out ∧ (a = .evicted → act = .evicted) := by
  have hbegun {call : ConnCall} {stage : Stage} {t : Session}
      (hbegin : t.begin call stage = some s') (ht : t.out = s.out) :
      s'.out = s.out ∨ ∃ a, s.out.step a = some s'.out ∧ (a = .evicted → act = .evicted) := by
    refine .inr ⟨.start .task call, ?_, by simp⟩
    rw [← ht]
    exact (begin_some hbegin).2.1
  cases act with
  | outside a =>
      obtain ⟨hallows, hout, -⟩ := outside_some h
      refine .inr ⟨a, hout, ?_⟩
      rintro rfl
      cases hallows
  | handshaken outcome id =>
      obtain ⟨-, rfl⟩ := handshaken_some h
      exact .inl handshakeEnd_out
  | registered =>
      obtain ⟨-, rfl⟩ := registered_some h
      exact .inl rfl
  | connected now =>
      obtain ⟨out, -, hout, rfl⟩ := connected_some h
      refine .inr ⟨.spawn, ?_, by simp⟩
      rw [hout, enterLoop_out, withOut_out]
  | tick =>
      obtain ⟨-, ⟨vars, why, -, rfl⟩ | ⟨vars, -, hbegin⟩⟩ := tick_some h
      · exact .inl rfl
      · exact hbegun hbegin rfl
  | evicted =>
      obtain ⟨out, -, hout, rfl⟩ := evicted_some h
      exact .inr ⟨.evicted, hout, fun _ => rfl⟩
  | idle =>
      obtain ⟨-, rfl⟩ := idle_some h
      exact .inl rfl
  | read now result =>
      obtain ⟨-, rfl⟩ := read_some h
      exact .inl afterRead_out
  | callbackReturned pong =>
      obtain ⟨cb, -, ⟨-, rfl⟩ | ⟨-, hbegin⟩ | ⟨why, -, rfl⟩⟩ := callbackReturned_some h
      · exact .inl loopHead_out
      · exact hbegun hbegin rfl
      · exact .inl rfl
  | callbackPanicked =>
      obtain ⟨-, out, hout, rfl⟩ | ⟨-, rfl⟩ := callbackPanicked_some h
      · exact .inr ⟨.abort, hout, by simp⟩
      · exact .inl rfl
  | taskStep =>
      obtain ⟨f, out, -, hout, -, ⟨pc, -, rfl⟩ | ⟨reply, -, rfl⟩⟩ := taskStep_some h
      · exact .inr ⟨_, hout, by simp⟩
      · refine .inr ⟨.step .task, ?_, by simp⟩
        rw [hout, callReturned_out, withOut_out]
  | teardown => exact hbegun (teardown_some h).2 rfl
  | joined => exact hbegun (joined_some h).2.2 rfl
  | timedOut => exact hbegun (timedOut_some h).2 rfl
  | disconnected =>
      obtain ⟨-, rfl⟩ := disconnected_some h
      exact .inl rfl

theorem begin_stage {call : ConnCall} {stage : Stage} {t : Session}
    (hbegin : t.begin call stage = some s') : s'.stage = stage := by
  obtain ⟨-, -, rfl⟩ := begin_some hbegin
  rfl

/-- A guarded library call leads where the session goes on, or to a panic. -/
theorem guarded_moves {call : LibraryCall} {next : Session} {act : SessionAct}
    (hdone : s.stage.done = false) (h : s.stage.Moves act next.stage) :
    s.stage.Moves act (guarded instantMax s call next).stage := by
  obtain ⟨-, he⟩ | ⟨-, he⟩ := guarded_cases instantMax s call next
  · rw [he]
    exact h
  · rw [he]
    exact .panicked _ _ _ hdone

theorem callReturned_moves (config : WebSocketServerConfig) (instantMax : ℕ) (s : Session)
    (failed : Bool) :
    (s.callReturned config instantMax failed).stage = s.stage ∨
      s.stage.Moves .taskStep (s.callReturned config instantMax failed).stage := by
  have hloop : s.stage.done = false → s.stage.Moves .taskStep .selecting →
      s.stage.Moves .taskStep (s.loopHead config instantMax).stage :=
    fun hdone hmoves => guarded_moves hdone hmoves
  unfold callReturned
  split
  · rename_i hstage
    split_ifs
    · rw [hstage]
      exact .inr .pingRefused
    · exact .inr (hloop (by rw [hstage]; rfl) (by rw [hstage]; exact .pingSent))
  · rename_i hstage
    exact .inr (hloop (by rw [hstage]; rfl) (by rw [hstage]; exact .pongSent))
  · rename_i hstage
    rw [hstage]
    exact .inr .closed
  · rename_i hstage
    rw [hstage]
    exact .inr .marked
  · exact .inl rfl

/-- A step of a session moves to a stage that follows its own; only a step of the others or an
access of a call can stay at it. -/
theorem stays_or_moves {act : SessionAct} (hstep : s.step config instantMax act = some s') :
    (s'.stage = s.stage ∧ (act = .taskStep ∨ ∃ a, act = .outside a)) ∨
      s.stage.Moves act s'.stage := by
  cases act with
  | outside a =>
      obtain ⟨-, -, he⟩ := outside_some hstep
      rw [he]
      exact .inl ⟨rfl, .inr ⟨a, rfl⟩⟩
  | handshaken outcome id =>
      obtain ⟨hstage, rfl⟩ := handshaken_some hstep
      have hdone : s.stage.done = false := by rw [hstage]; rfl
      refine .inr (guarded_moves hdone ?_)
      split
      · refine guarded_moves hdone ?_
        rw [hstage]
        exact .upgraded _ id
      · rw [hstage]
        exact .refused _ id
      · rw [hstage]
        exact .refused _ id
  | registered =>
      obtain ⟨hstage, rfl⟩ := registered_some hstep
      rw [hstage]
      exact .inr .registered
  | connected now =>
      obtain ⟨out, hstage, -, rfl⟩ := connected_some hstep
      have hdone : s.stage.done = false := by rw [hstage]; rfl
      have hmoves : s.stage.Moves (.connected now) .selecting := by
        rw [hstage]
        exact .connected now
      have hloop : s.stage.Moves (.connected now)
          (loopHead config instantMax { s.withOut out with vars := ⟨0, now⟩ }).stage :=
        guarded_moves (s := { s.withOut out with vars := ⟨0, now⟩ }) hdone hmoves
      exact .inr (guarded_moves (s := s.withOut out) hdone hloop)
  | tick =>
      obtain ⟨hstage, ⟨vars, why, -, rfl⟩ | ⟨vars, -, hbegin⟩⟩ := tick_some hstep
      · rw [hstage]
        exact .inr (.unanswered why)
      · rw [hstage, begin_stage hbegin]
        exact .inr .pinged
  | evicted =>
      obtain ⟨out, hstage, -, rfl⟩ := evicted_some hstep
      rw [hstage]
      exact .inr .evicted
  | idle =>
      obtain ⟨hstage, rfl⟩ := idle_some hstep
      rw [hstage]
      exact .inr .idle
  | read now result =>
      obtain ⟨hstage, rfl⟩ := read_some hstep
      rw [hstage]
      unfold Session.afterRead
      split
      · exact .inr (.exited now result _)
      · exact .inr (.called now result _)
  | callbackReturned pong =>
      obtain ⟨callback, hstage, ⟨-, rfl⟩ | ⟨-, hbegin⟩ | ⟨why, -, rfl⟩⟩ :=
        callbackReturned_some hstep
      · have hdone : s.stage.done = false := by rw [hstage]; rfl
        refine .inr (guarded_moves hdone ?_)
        rw [hstage]
        exact .resumed callback pong
      · rw [hstage, begin_stage hbegin]
        exact .inr (.answered callback pong)
      · rw [hstage]
        exact .inr (.failed callback pong why)
  | callbackPanicked =>
      obtain ⟨hstage, out, -, rfl⟩ | ⟨⟨callback, hstage⟩ | hstage, rfl⟩ :=
        callbackPanicked_some hstep
      · exact .inr (.panicked _ _ _ (by rw [hstage]; rfl))
      · exact .inr (.panicked _ _ _ (by rw [hstage]; rfl))
      · exact .inr (.panicked _ _ _ (by rw [hstage]; rfl))
  | taskStep =>
      obtain ⟨f, out, -, -, -, ⟨pc, -, rfl⟩ | ⟨reply, -, rfl⟩⟩ := taskStep_some hstep
      · exact .inl ⟨rfl, .inl rfl⟩
      · obtain hsame | hmoves := callReturned_moves config instantMax (s.withOut out) reply.failed
        · exact .inl ⟨hsame, .inl rfl⟩
        · exact .inr hmoves
  | teardown =>
      obtain ⟨⟨why, hstage⟩, hbegin⟩ := teardown_some hstep
      rw [hstage, begin_stage hbegin]
      exact .inr (.closing why)
  | joined =>
      obtain ⟨hstage, -, hbegin⟩ := joined_some hstep
      rw [hstage, begin_stage hbegin]
      exact .inr .joined
  | timedOut =>
      obtain ⟨hstage, hbegin⟩ := timedOut_some hstep
      rw [hstage, begin_stage hbegin]
      exact .inr .timedOut
  | disconnected =>
      obtain ⟨hstage, rfl⟩ := disconnected_some hstep
      rw [hstage]
      exact .inr .disconnected

theorem stage_moves {act : SessionAct} (hstep : s.step config instantMax act = some s') :
    s'.stage = s.stage ∨ s.stage.Moves act s'.stage :=
  (stays_or_moves hstep).imp_left And.left

/-- What holds of every run of the outbound side holds in every run of the session. -/
theorem out_invariant {P : Outbound → Prop}
    (hstep : ∀ o a o', P o → Outbound.step o a = some o' → P o') {acts : List SessionAct}
    (h : P s.out) (hrun : exec (step config instantMax) s acts = some s') : P s'.out := by
  refine exec_invariant (P := fun s => P s.out) ?_ h hrun
  intro s₁ act s₂ h₁ hs
  obtain he | ⟨a, ha, -⟩ := step_out hs
  · rw [he]
    exact h₁
  · exact hstep _ a _ h₁ ha

end Session
end ArmatureWebsocket
