import ArmatureWebsocket.Handshake
import ArmatureWebsocket.RoomSteps
import ArmatureWebsocket.Trace

/-! # The server: accepting connections into slots

`Serve` is the accept loop with all the tasks it has spawned, the semaphore of the connection slots
and the room manager, which the application calls as well.  A task does the handshake and then
lives the life of its connection; the accept loop, the tasks and the threads of the application take
turns in any order.

The room manager is a `RoomPool` in which every task is a thread, so that the calls of the tasks and
of the application interleave between their map operations.  A task calls it twice: it registers its
connection when the handshake has ended, and unregisters it when `on_disconnect` has returned; its
session goes on when the call has returned.

A task holds a slot from before its first step until after its last one, however it ends: the slot
is released when the task is dropped.

`registered` has the ids that the server registered and that nobody has unregistered since; a
`Connection` is made by the server only, and the application has clones. -/

namespace ArmatureWebsocket

open Execution CallPool

/-- Who calls the room manager: a task of the server, or a thread of the application. -/
inductive RoomThread where
  | task (i : ℕ)
  | app (t : ℕ)
deriving DecidableEq

/-- A spawned task: its handshake, its connection, and whether it still holds its slot. -/
structure ServerTask where
  handshake : Handshake
  session : Session
  holdsSlot : Bool

/-- What a task does.  `leave` is its call of `unregister_connection`, and `room` an operation of a
call of the room manager that goes on after it; the operation with which the call returns is the
`registered` or `disconnected` step of the session. -/
inductive TaskAct where
  | callback (request : HandshakeRequest)
  | upgraded (outcome : AcceptOutcome) (id : ConnectionId)
  | session (act : SessionAct)
  | leave
  | room
  | release

/-- The handshake is over: it is told to the session by the task's own handshake. -/
def SessionAct.isHandshaken : SessionAct → Bool
  | .handshaken _ _ => true
  | _ => false

/-- The accept loop, the tasks and what they share. -/
structure Serve where
  tasks : KeyMap ℕ ServerTask
  available : ℕ
  rooms : RoomPool RoomThread
  registered : Finset ConnectionId

/-- What happens next: a connection is accepted, turned away or lost, a task takes a step, or a
thread of the application begins a call of the room manager or goes on with one.  `order` is the
order in which a set taken out of the maps hands out its elements. -/
inductive ServeAct where
  | accept (task : ℕ)
  | limitReached
  | acceptFailed
  | task (task : ℕ) (act : TaskAct) (order : List String)
  | app (act : RoomAct)

section

variable (config : WebSocketServerConfig) (authorizer : HandshakeAuthorizer) (instantMax : ℕ)

namespace ServerTask

/-- A task that has just been spawned. -/
def new : ServerTask := ⟨.new, .new config, true⟩

/-- The steps of a task.  The library calls the callback at most once. -/
def step (t : ServerTask) : TaskAct → Option ServerTask
  | .callback request =>
      if t.session.stage = .handshaking ∧ t.handshake.request = none then
        some { t with handshake := t.handshake.callback config.originPolicy authorizer request }
      else none
  | .upgraded outcome id =>
      (t.session.step config instantMax (.handshaken (t.handshake.finish outcome).2 id)).map
        fun session => { t with
          handshake := (t.handshake.finish outcome).1
          session := session }
  | .session act =>
      if act.isHandshaken then none
      else (t.session.step config instantMax act).map fun session => { t with session := session }
  | .leave => if t.session.stage = .disconnecting then some t else none
  | .room => some t
  | .release =>
      if t.session.stage.done && t.holdsSlot then some { t with holdsSlot := false } else none

end ServerTask

/-- The connection is a clone of one that the server made. -/
def RoomStart.OfClones (tasks : KeyMap ℕ ServerTask) : RoomStart → Prop
  | .registerConnection connection =>
      ((tasks.lookup connection.cell).bind (·.session.identity)).map Identity.principal =
        some connection.principal
  | _ => True

instance (tasks : KeyMap ℕ ServerTask) (call : RoomStart) : Decidable (call.OfClones tasks) :=
  match call with
  | .registerConnection _ => inferInstanceAs (Decidable (_ = some _))
  | .unregisterConnection _ | .createRoom _ | .deleteRoom _ | .joinRoom _ _
  | .leaveRoom _ _ => .isTrue trivial

/-- What the operation of a thread does to the set of the ids that the server registered. -/
def RoomPc.noted (who : RoomThread) (registered : Finset ConnectionId) :
    RoomPc → Finset ConnectionId
  | .registerConnections connection =>
      match who with
      | .task _ => insert connection.id registered
      | .app _ => registered
  | .unregisterConnections c => registered.erase c
  | _ => registered

namespace Serve

/-- A server that has accepted nothing yet. -/
def new : Serve := ⟨∅, config.maxConnections, .new, ∅⟩

/-- Thread `who` begins a call of the room manager. -/
def call (s : Serve) (who : RoomThread) (start : RoomStart) : Option Serve :=
  (s.rooms.step (.start who start)).map fun rooms => { s with rooms := rooms }

/-- Thread `who` goes on with its call of the room manager. -/
def operate (s : Serve) (who : RoomThread) (order : List String) : Option Serve :=
  (s.rooms.step (.step who order)).map fun rooms =>
    { s with
      rooms := rooms
      registered := (s.rooms.threads.lookup who).elim s.registered (·.noted who s.registered) }

/-- Thread `who` is in a call of the room manager. -/
def calls (s : Serve) (who : RoomThread) : Bool := (s.rooms.threads.lookup who).isSome

/-- What a step of task `i`, from `t` to `t'`, does to what the tasks share. -/
def shared (s : Serve) (i : ℕ) (t t' : ServerTask) (order : List String) : TaskAct → Option Serve
  | .upgraded _ _ =>
      match t'.session.identity with
      | some who => s.call (.task i) (.registerConnection ⟨who.id, who.principal, i⟩)
      | none => some s
  | .leave =>
      match t.session.identity with
      | some who => s.call (.task i) (.unregisterConnection who.id)
      | none => none
  | .room => (s.operate (.task i) order).filter fun s' => s'.calls (.task i)
  | .session .registered => (s.operate (.task i) order).filter fun s' => !s'.calls (.task i)
  | .session .disconnected => (s.operate (.task i) order).filter fun s' => !s'.calls (.task i)
  | .session .callbackPanicked => if s.calls (.task i) then none else some s
  | .release => some { s with available := s.available + 1 }
  | _ => some s

/-- The steps of the server. -/
def step (s : Serve) : ServeAct → Option Serve
  | .accept i =>
      match s.tasks.lookup i with
      | some _ => none
      | none =>
          if 0 < s.available then
            some { s with
              tasks := s.tasks.insert i (.new config)
              available := s.available - 1 }
          else none
  | .limitReached => if s.available = 0 then some s else none
  | .acceptFailed => some s
  | .task i act order =>
      match s.tasks.lookup i with
      | none => none
      | some t =>
          (t.step config authorizer instantMax act).bind fun t' =>
            { s with tasks := s.tasks.insert i t' }.shared i t t' order act
  | .app (.start t start) => if start.OfClones s.tasks then s.call (.app t) start else none
  | .app (.step t order) => s.operate (.app t) order

end Serve

end

namespace ServerTask

variable {config : WebSocketServerConfig} {authorizer : HandshakeAuthorizer} {instantMax : ℕ}
  {t t' : ServerTask}

theorem callback_some {request : HandshakeRequest}
    (h : t.step config authorizer instantMax (.callback request) = some t') :
    t.session.stage = .handshaking ∧ t.handshake.request = none ∧
      t' = { t with handshake := t.handshake.callback config.originPolicy authorizer request } := by
  simp only [step] at h
  split_ifs at h with hif
  cases h
  exact ⟨hif.1, hif.2, rfl⟩

theorem upgraded_some {outcome : AcceptOutcome} {id : ConnectionId}
    (h : t.step config authorizer instantMax (.upgraded outcome id) = some t') :
    t.session.step config instantMax (.handshaken (t.handshake.finish outcome).2 id) =
        some t'.session ∧
      t'.handshake = (t.handshake.finish outcome).1 ∧ t'.holdsSlot = t.holdsSlot := by
  obtain ⟨session, hsession, rfl⟩ := Option.map_eq_some_iff.mp h
  exact ⟨hsession, rfl, rfl⟩

theorem session_some {act : SessionAct}
    (h : t.step config authorizer instantMax (.session act) = some t') :
    act.isHandshaken = false ∧ t.session.step config instantMax act = some t'.session ∧
      t'.handshake = t.handshake ∧ t'.holdsSlot = t.holdsSlot := by
  simp only [step] at h
  split_ifs at h with hact
  obtain ⟨session, hsession, rfl⟩ := Option.map_eq_some_iff.mp h
  exact ⟨by simpa using hact, hsession, rfl, rfl⟩

theorem leave_some (h : t.step config authorizer instantMax .leave = some t') :
    t.session.stage = .disconnecting ∧ t' = t := by
  simp only [step] at h
  split_ifs at h with hstage
  cases h
  exact ⟨hstage, rfl⟩

theorem room_some (h : t.step config authorizer instantMax .room = some t') : t' = t := by
  cases h
  rfl

theorem release_some (h : t.step config authorizer instantMax .release = some t') :
    t.session.stage.done = true ∧ t.holdsSlot = true ∧ t' = { t with holdsSlot := false } := by
  simp only [step] at h
  split_ifs at h with hif
  rw [Bool.and_eq_true] at hif
  cases h
  exact ⟨hif.1, hif.2, rfl⟩

end ServerTask

/-- The session goes on because the call of the room manager has returned. -/
def TaskAct.returns : TaskAct → Bool
  | .session .registered => true
  | .session .disconnected => true
  | _ => false

/-- The step is an operation of a call of the room manager. -/
def TaskAct.operates : TaskAct → Bool
  | .room => true
  | act => act.returns

/-- Whose call of the room manager goes on with the step. -/
def ServeAct.mover : ServeAct → Option RoomThread
  | .task i act _ => if act.operates then some (.task i) else none
  | .app (.step t _) => some (.app t)
  | _ => none

namespace Serve

variable {config : WebSocketServerConfig} {authorizer : HandshakeAuthorizer} {instantMax : ℕ}
  {s s' : Serve} {who : RoomThread} {start : RoomStart} {order : List String}

/-- A thread has begun a call. -/
def called (s : Serve) (who : RoomThread) (start : RoomStart) : Serve :=
  { s with rooms := s.rooms.begun who start }

/-- A thread has done the operation of its call at `pc`. -/
def operated (s : Serve) (who : RoomThread) (pc : RoomPc) (next : RoomPc ⊕ RoomReply) : Serve :=
  { s with
    rooms := s.rooms.moved who pc next
    registered := pc.noted who s.registered }

theorem call_some (h : s.call who start = some s') :
    s.rooms.threads.lookup who = none ∧ s' = s.called who start := by
  obtain ⟨rooms, hrooms, rfl⟩ := Option.map_eq_some_iff.mp h
  obtain ⟨t, call, hact, hwho, rfl⟩ | ⟨_, _, _, _, hact, -⟩ := RoomPool.step_cases hrooms
  · cases hact
    exact ⟨hwho, rfl⟩
  · cases hact

theorem operate_some (h : s.operate who order = some s') :
    ∃ pc next, s.rooms.threads.lookup who = some pc ∧
      roomStep order s.rooms.shared pc = some (pc.after s.rooms.shared, next) ∧
      s' = s.operated who pc next := by
  obtain ⟨rooms, hrooms, rfl⟩ := Option.map_eq_some_iff.mp h
  obtain ⟨_, _, hact, -⟩ | ⟨t, order', pc, next, hact, hpc, hstep, rfl⟩ :=
    RoomPool.step_cases hrooms
  · cases hact
  · cases hact
    refine ⟨pc, next, hpc, hstep, ?_⟩
    unfold operated
    rw [hpc]
    rfl

theorem calls_operated {pc : RoomPc} {next : RoomPc ⊕ RoomReply} :
    (s.operated who pc next).calls who = next.isLeft := by
  unfold calls
  show ((s.rooms.moved who pc next).threads.lookup who).isSome = _
  rw [lookup_moved_self]
  cases next <;> rfl

/-- What a step of the server is. -/
theorem step_cases {act : ServeAct} (h : s.step config authorizer instantMax act = some s') :
    (∃ i, act = .accept i ∧ s.tasks.lookup i = none ∧ 0 < s.available ∧
      s' = { s with
        tasks := s.tasks.insert i (.new config)
        available := s.available - 1 }) ∨
    ((act = .limitReached ∨ act = .acceptFailed) ∧ s' = s) ∨
    (∃ i a order t t', act = .task i a order ∧ s.tasks.lookup i = some t ∧
      t.step config authorizer instantMax a = some t' ∧
      { s with tasks := s.tasks.insert i t' }.shared i t t' order a = some s') ∨
    (∃ t start, act = .app (.start t start) ∧ start.OfClones s.tasks ∧
      s.rooms.threads.lookup (.app t) = none ∧ s' = s.called (.app t) start) ∨
    ∃ t order pc next, act = .app (.step t order) ∧
      s.rooms.threads.lookup (.app t) = some pc ∧
      roomStep order s.rooms.shared pc = some (pc.after s.rooms.shared, next) ∧
      s' = s.operated (.app t) pc next := by
  cases act with
  | accept i =>
      simp only [step] at h
      split at h
      · cases h
      · split_ifs at h with havailable
        cases h
        exact .inl ⟨i, rfl, ‹_›, havailable, rfl⟩
  | limitReached =>
      simp only [step] at h
      split_ifs at h
      cases h
      exact .inr (.inl ⟨.inl rfl, rfl⟩)
  | acceptFailed =>
      cases h
      exact .inr (.inl ⟨.inr rfl, rfl⟩)
  | task i a order =>
      simp only [step] at h
      split at h
      · cases h
      · obtain ⟨t', ht', hshared⟩ := Option.bind_eq_some_iff.mp h
        exact .inr (.inr (.inl ⟨i, a, order, _, t', rfl, ‹_›, ht', hshared⟩))
  | app act =>
      cases act with
      | start t start =>
          simp only [step] at h
          split_ifs at h with hclones
          obtain ⟨hidle, rfl⟩ := call_some h
          exact .inr (.inr (.inr (.inl ⟨t, start, rfl, hclones, hidle, rfl⟩)))
      | step t order =>
          obtain ⟨pc, next, hpc, hstep, rfl⟩ := operate_some h
          exact .inr (.inr (.inr (.inr ⟨t, order, pc, next, rfl, hpc, hstep, rfl⟩)))

/-- What a step of a task does to what the tasks share: it begins the registration of its connection
when the handshake has given it an identity, begins to unregister it when `on_disconnect` has
returned, goes on with the one or the other, gives its slot back, or leaves everything alone. -/
theorem shared_cases {i : ℕ} {t t' : ServerTask} {act : TaskAct}
    (h : s.shared i t t' order act = some s') :
    (∃ outcome id who, act = .upgraded outcome id ∧ t'.session.identity = some who ∧
      s.rooms.threads.lookup (.task i) = none ∧
      s' = s.called (.task i) (.registerConnection ⟨who.id, who.principal, i⟩)) ∨
    (∃ who, act = .leave ∧ t.session.identity = some who ∧
      s.rooms.threads.lookup (.task i) = none ∧
      s' = s.called (.task i) (.unregisterConnection who.id)) ∨
    (∃ pc next, s.rooms.threads.lookup (.task i) = some pc ∧
      roomStep order s.rooms.shared pc = some (pc.after s.rooms.shared, next) ∧
      s' = s.operated (.task i) pc next ∧
      ((act = .room ∧ ∃ pc', next = .inl pc') ∨
        act.returns = true ∧ ∃ reply, next = .inr reply)) ∨
    (act = .release ∧ s' = { s with available := s.available + 1 }) ∨
    (act ≠ .release ∧ act ≠ .leave ∧ act.operates = false ∧ s' = s ∧
      ((∃ outcome id, act = .upgraded outcome id) → t'.session.identity = none) ∧
      (act = .session .callbackPanicked → s.rooms.threads.lookup (.task i) = none)) := by
  have hreturns {act : TaskAct} (hact : act.returns = true)
      (hs : (s.operate (.task i) order).filter (fun s' => !s'.calls (.task i)) = some s') :
      ∃ pc next, s.rooms.threads.lookup (.task i) = some pc ∧
        roomStep order s.rooms.shared pc = some (pc.after s.rooms.shared, next) ∧
        s' = s.operated (.task i) pc next ∧
        ((act = .room ∧ ∃ pc', next = .inl pc') ∨
          act.returns = true ∧ ∃ reply, next = .inr reply) := by
    obtain ⟨hs, hcalls⟩ := Option.filter_eq_some_iff.mp hs
    obtain ⟨pc, next, hpc, hstep, rfl⟩ := operate_some hs
    rw [calls_operated] at hcalls
    refine ⟨pc, next, hpc, hstep, rfl, .inr ⟨hact, ?_⟩⟩
    cases next with
    | inl pc' => cases hcalls
    | inr reply => exact ⟨reply, rfl⟩
  unfold shared at h
  split at h
  · split at h
    · obtain ⟨hidle, rfl⟩ := call_some h
      exact .inl ⟨_, _, _, rfl, ‹_›, hidle, rfl⟩
    · cases h
      exact .inr (.inr (.inr (.inr ⟨nofun, nofun, rfl, rfl, fun _ => ‹_›, nofun⟩)))
  · split at h
    · obtain ⟨hidle, rfl⟩ := call_some h
      exact .inr (.inl ⟨_, rfl, ‹_›, hidle, rfl⟩)
    · cases h
  · obtain ⟨hs, hcalls⟩ := Option.filter_eq_some_iff.mp h
    obtain ⟨pc, next, hpc, hstep, rfl⟩ := operate_some hs
    rw [calls_operated] at hcalls
    refine .inr (.inr (.inl ⟨pc, next, hpc, hstep, rfl, .inl ⟨rfl, ?_⟩⟩))
    cases next with
    | inl pc' => exact ⟨pc', rfl⟩
    | inr reply => cases hcalls
  · exact .inr (.inr (.inl (hreturns rfl h)))
  · exact .inr (.inr (.inl (hreturns rfl h)))
  · split_ifs at h with hcalls
    cases h
    refine .inr (.inr (.inr (.inr ⟨nofun, nofun, rfl, rfl, nofun, fun _ => ?_⟩)))
    simpa [calls] using hcalls
  · cases h
    exact .inr (.inr (.inr (.inl ⟨rfl, rfl⟩)))
  · rename_i hupgraded hleave hroom hregistered hdisconnected hpanicked hrelease
    cases h
    refine .inr (.inr (.inr (.inr ⟨hrelease, hleave, ?_, rfl, ?_,
      fun he => absurd he hpanicked⟩)))
    · cases act with
      | room => exact absurd rfl hroom
      | session act =>
          cases act with
          | registered => exact absurd rfl hregistered
          | disconnected => exact absurd rfl hdisconnected
          | _ => rfl
      | _ => rfl
    · rintro ⟨outcome, id, rfl⟩
      exact absurd rfl (hupgraded outcome id)

theorem shared_tasks {i : ℕ} {t t' : ServerTask} {act : TaskAct}
    (h : s.shared i t t' order act = some s') : s'.tasks = s.tasks := by
  obtain ⟨_, _, who, -, -, -, rfl⟩ | ⟨who, -, -, -, rfl⟩ | ⟨pc, next, -, -, rfl, -⟩ | ⟨-, rfl⟩ |
    ⟨-, -, -, rfl, -⟩ := shared_cases h <;> rfl

/-- A task of the server after a step was there before, was just accepted, or has taken the step. -/
theorem task_cases {act : ServeAct} (h : s.step config authorizer instantMax act = some s') {j : ℕ}
    {t' : ServerTask} (ht' : s'.tasks.lookup j = some t') :
    s.tasks.lookup j = some t' ∨ (act = .accept j ∧ t' = .new config) ∨
      ∃ a order t, act = .task j a order ∧ s.tasks.lookup j = some t ∧
        t.step config authorizer instantMax a = some t' := by
  obtain ⟨i, rfl, -, -, rfl⟩ | ⟨-, rfl⟩ | ⟨i, a, order, t, t₁, rfl, hi, hstep, hshared⟩ |
    ⟨t, start, rfl, -, -, rfl⟩ | ⟨t, order, pc, next, rfl, -, -, rfl⟩ := step_cases h
  · rw [KeyMap.lookup_insert_ite] at ht'
    split_ifs at ht' with hj
    · cases ht'
      exact .inr (.inl ⟨by rw [hj], rfl⟩)
    · exact .inl ht'
  · exact .inl ht'
  · rw [shared_tasks hshared, KeyMap.lookup_insert_ite] at ht'
    split_ifs at ht' with hj
    · cases ht'
      subst hj
      exact .inr (.inr ⟨a, order, t, rfl, hi, hstep⟩)
    · exact .inl ht'
  · exact .inl ht'
  · exact .inl ht'

/-- Which call of the room manager begins with a step: one of the application, with a connection
that is a clone if there is one, or one of a task for its connection. -/
inductive Begins (s : Serve) : ServeAct → Serve → RoomThread → RoomStart → Prop where
  | app {t : ℕ} {start : RoomStart} {s' : Serve} (clones : start.OfClones s.tasks) :
      Begins s (.app (.start t start)) s' (.app t) start
  | register {i : ℕ} {outcome : AcceptOutcome} {id : ConnectionId} {order : List String}
      {s' : Serve} {t : ServerTask} {who : Identity} (ht : s'.tasks.lookup i = some t)
      (hwho : t.session.identity = some who) :
      Begins s (.task i (.upgraded outcome id) order) s' (.task i)
        (.registerConnection ⟨who.id, who.principal, i⟩)
  | unregister {i : ℕ} {order : List String} {s' : Serve} {t : ServerTask} {who : Identity}
      (ht : s.tasks.lookup i = some t) (hwho : t.session.identity = some who)
      (hstage : t.session.stage = .disconnecting) :
      Begins s (.task i .leave order) s' (.task i) (.unregisterConnection who.id)

/-- What a step of the server is for the room manager: nothing, the beginning of a call, or an
operation of one. -/
theorem rooms_cases {act : ServeAct} (h : s.step config authorizer instantMax act = some s') :
    (s'.rooms = s.rooms ∧ s'.registered = s.registered ∧ act.mover = none) ∨
    (∃ who start, s.Begins act s' who start ∧ s.rooms.threads.lookup who = none ∧
      s'.rooms = s.rooms.begun who start ∧ s'.registered = s.registered ∧ act.mover = none) ∨
    ∃ who order pc next, act.mover = some who ∧ s.rooms.threads.lookup who = some pc ∧
      roomStep order s.rooms.shared pc = some (pc.after s.rooms.shared, next) ∧
      s'.rooms = s.rooms.moved who pc next ∧ s'.registered = pc.noted who s.registered := by
  obtain ⟨i, rfl, -, -, rfl⟩ | ⟨rfl | rfl, rfl⟩ | ⟨i, a, order, t, t', rfl, hi, hstep, hshared⟩ |
    ⟨t, start, rfl, hclones, hidle, rfl⟩ | ⟨t, order, pc, next, rfl, hpc, hstep, rfl⟩ :=
    step_cases h
  · exact .inl ⟨rfl, rfl, rfl⟩
  · exact .inl ⟨rfl, rfl, rfl⟩
  · exact .inl ⟨rfl, rfl, rfl⟩
  · have htasks := shared_tasks hshared
    obtain ⟨outcome, id, who, rfl, hwho, hidle, rfl⟩ | ⟨who, rfl, hwho, hidle, rfl⟩ |
      ⟨pc, next, hpc, hop, rfl, hact⟩ | ⟨rfl, rfl⟩ | ⟨-, -, hact, rfl, -⟩ := shared_cases hshared
    · refine .inr (.inl ⟨_, _, .register (t := t') ?_ hwho, hidle, rfl, rfl, rfl⟩)
      rw [htasks, KeyMap.lookup_insert_ite, if_pos rfl]
    · obtain ⟨hstage, rfl⟩ := ServerTask.leave_some hstep
      exact .inr (.inl ⟨_, _, .unregister hi hwho hstage, hidle, rfl, rfl, rfl⟩)
    · refine .inr (.inr ⟨_, order, pc, next, ?_, hpc, hop, rfl, rfl⟩)
      obtain ⟨rfl, -⟩ | ⟨hreturns, -⟩ := hact
      · rfl
      · have hoperates : a.operates = true := by
          cases a with
          | room => rfl
          | _ => exact hreturns
        exact if_pos hoperates
    · exact .inl ⟨rfl, rfl, rfl⟩
    · refine .inl ⟨rfl, rfl, ?_⟩
      have hnot : ¬ a.operates = true := by simp [hact]
      exact if_neg hnot
  · exact .inr (.inl ⟨_, _, .app hclones, hidle, rfl, rfl, rfl⟩)
  · exact .inr (.inr ⟨_, order, pc, next, rfl, hpc, hstep, rfl, rfl⟩)

end Serve
end ArmatureWebsocket
