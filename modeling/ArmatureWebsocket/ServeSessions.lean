import ArmatureWebsocket.Authorization
import ArmatureWebsocket.Progress

/-! # The tasks of the server, their sessions and their calls

A task's connection is in a state that `Session` reaches by the steps that the server gives to the
task and the end of the task's handshake (`Serve.sessions`), so that what is proved of every session
holds of every connection of the server.

`ServerTask.CallsAt` says where the task's call of the room manager stands at each stage: it
registers its connection exactly as long as the session waits for that, and unregisters it only
after `on_disconnect` has returned.  This holds of every task in every state of a run
(`Serve.coupled_of_exec`). -/

namespace ArmatureWebsocket

open Execution CallPool

/-- The task registers or unregisters its connection. -/
def Stage.inRooms : Stage → Bool
  | .registering => true
  | .disconnecting => true
  | _ => false

namespace Session

variable {config : WebSocketServerConfig} {instantMax : ℕ} {s s' : Session} {act : SessionAct}

/-- The session is in a state that a run reaches. -/
def Reached (config : WebSocketServerConfig) (instantMax : ℕ) (s : Session) : Prop :=
  ∃ acts, exec (step config instantMax) (new config) acts = some s

theorem Reached.step (h : s.Reached config instantMax)
    (hstep : s.step config instantMax act = some s') : s'.Reached config instantMax := by
  obtain ⟨acts, hrun⟩ := h
  exact ⟨acts ++ [act], exec_trans hrun (exec_cons_iff.mpr ⟨s', hstep, rfl⟩)⟩

theorem Reached.engaged (h : s.Reached config instantMax) : s.Engaged := by
  obtain ⟨acts, hrun⟩ := h
  exact engaged_of_exec hrun

theorem registering_of_step (hact : act.isHandshaken = false)
    (hstep : s.step config instantMax act = some s') (h : s'.stage = .registering) :
    s.stage = .registering := by
  obtain hsame | hmoves := stage_moves hstep
  · rw [← hsame, h]
  · rw [h] at hmoves
    generalize s.stage = stage at hmoves
    cases hmoves with
    | upgraded => cases hact

/-- In the middle of a call of the room manager, nothing else happens to the task, unless
`on_disconnect` panics first. -/
theorem step_in_rooms (h : s.Engaged) (hstage : s.stage.inRooms = true)
    (hstep : s.step config instantMax act = some s') :
    (act.own = false ∧ s'.stage = s.stage) ∨ act = .registered ∨ act = .disconnected ∨
      act = .callbackPanicked := by
  have hnot {stage : Stage} (hs : s.stage = stage) (hrooms : stage.inRooms = false) : False := by
    rw [hs, hrooms] at hstage
    cases hstage
  cases act with
  | outside a =>
      obtain ⟨-, -, he⟩ := outside_some hstep
      exact .inl ⟨rfl, by rw [he]; rfl⟩
  | handshaken outcome id => exact (hnot (handshaken_some hstep).1 rfl).elim
  | registered => exact .inr (.inl rfl)
  | connected now =>
      obtain ⟨out, hs, -⟩ := connected_some hstep
      exact (hnot hs rfl).elim
  | tick => exact (hnot (tick_some hstep).1 rfl).elim
  | evicted =>
      obtain ⟨out, hs, -⟩ := evicted_some hstep
      exact (hnot hs rfl).elim
  | idle => exact (hnot (idle_some hstep).1 rfl).elim
  | read now result => exact (hnot (read_some hstep).1 rfl).elim
  | callbackReturned pong =>
      obtain ⟨callback, hs, -⟩ := callbackReturned_some hstep
      exact (hnot hs rfl).elim
  | callbackPanicked => exact .inr (.inr (.inr rfl))
  | taskStep =>
      have hcalling := h.calls hstep
      cases hs : s.stage with
      | registering => rw [hs] at hcalling; cases hcalling
      | disconnecting => rw [hs] at hcalling; cases hcalling
      | _ => exact (hnot hs rfl).elim
  | teardown =>
      obtain ⟨⟨why, hs⟩, -⟩ := teardown_some hstep
      exact (hnot hs rfl).elim
  | joined => exact (hnot (joined_some hstep).1 rfl).elim
  | timedOut => exact (hnot (timedOut_some hstep).1 rfl).elim
  | disconnected => exact .inr (.inr (.inl rfl))

end Session

/-! ### Every connection is a session -/

/-- What a step of the server is for the connection of task `i`, but for the end of its
handshake. -/
def ServeAct.sessionAct (i : ℕ) : ServeAct → Option SessionAct
  | .task j (.session act) _ => if j = i then some act else none
  | _ => none

namespace Serve

variable {config : WebSocketServerConfig} {authorizer : HandshakeAuthorizer} {instantMax : ℕ}
  {s s' : Serve}

theorem sessionAct_of_other {act : ServeAct} {i : ℕ} (h : ∀ a order, act ≠ .task i a order) :
    act.sessionAct i = none := by
  cases act with
  | task j a order =>
      cases a with
      | session a =>
          have hne : j ≠ i := by
            rintro rfl
            exact h _ _ rfl
          exact if_neg hne
      | _ => rfl
  | _ => rfl

/-- The connection of a task after the given steps of the server. -/
def IsSession (config : WebSocketServerConfig) (instantMax : ℕ) (acts : List ServeAct) (i : ℕ)
    (t : ServerTask) : Prop :=
  ∃ sacts, exec (Session.step config instantMax) (.new config) sacts = some t.session ∧
    (sacts.filter fun act => !act.isHandshaken) = acts.filterMap (ServeAct.sessionAct i)

theorem IsSession.step {acts : List ServeAct} {i : ℕ} {t t' : ServerTask} {act : TaskAct}
    (h : IsSession config instantMax acts i t)
    (hstep : t.step config authorizer instantMax act = some t') (order : List String) :
    IsSession config instantMax (acts ++ [.task i act order]) i t' := by
  obtain ⟨sacts, hrun, hfilter⟩ := h
  have hsame (hsession : t'.session = t.session)
      (hnone : ServeAct.sessionAct i (.task i act order) = none) :
      IsSession config instantMax (acts ++ [.task i act order]) i t' := by
    refine ⟨sacts, by rw [hsession]; exact hrun, ?_⟩
    rw [List.filterMap_append, List.filterMap_cons, hnone, hfilter]
    exact (List.append_nil _).symm
  have hnext (a : SessionAct) (ha : t.session.step config instantMax a = some t'.session) :
      exec (Session.step config instantMax) (.new config) (sacts ++ [a]) = some t'.session :=
    exec_trans hrun (exec_cons_iff.mpr ⟨t'.session, ha, rfl⟩)
  cases act with
  | callback request =>
      obtain ⟨-, -, rfl⟩ := ServerTask.callback_some hstep
      exact hsame rfl rfl
  | upgraded outcome id =>
      obtain ⟨ha, -, -⟩ := ServerTask.upgraded_some hstep
      refine ⟨_, hnext _ ha, ?_⟩
      rw [List.filter_append, List.filterMap_append, hfilter]
      rfl
  | session a =>
      obtain ⟨hact, ha, -, -⟩ := ServerTask.session_some hstep
      refine ⟨_, hnext a ha, ?_⟩
      rw [List.filter_append, List.filterMap_append, hfilter]
      simp [hact, ServeAct.sessionAct]
  | leave =>
      obtain ⟨-, rfl⟩ := ServerTask.leave_some hstep
      exact hsame rfl rfl
  | room =>
      obtain rfl := ServerTask.room_some hstep
      exact hsame rfl rfl
  | release =>
      obtain ⟨-, -, rfl⟩ := ServerTask.release_some hstep
      exact hsame rfl rfl

theorem isSession_of_other {acts : List ServeAct} {act : ServeAct} {i : ℕ} {t : ServerTask}
    (h : IsSession config instantMax acts i t) (hnone : act.sessionAct i = none) :
    IsSession config instantMax (acts ++ [act]) i t := by
  obtain ⟨sacts, hrun, hfilter⟩ := h
  refine ⟨sacts, hrun, ?_⟩
  rw [List.filterMap_append, List.filterMap_cons, hnone, hfilter]
  exact (List.append_nil _).symm

theorem task_of_step {act : ServeAct} (hstep : s.step config authorizer instantMax act = some s')
    (j : ℕ) :
    ((∀ a order, act ≠ .task j a order) ∧ s'.tasks.lookup j = s.tasks.lookup j ∧
      s'.rooms.threads.lookup (.task j) = s.rooms.threads.lookup (.task j)) ∨
    (act = .accept j ∧ s.tasks.lookup j = none ∧ s'.tasks.lookup j = some (.new config) ∧
      s'.rooms = s.rooms) ∨
    ∃ a order t t', act = .task j a order ∧ s.tasks.lookup j = some t ∧
      t.step config authorizer instantMax a = some t' ∧ s'.tasks.lookup j = some t' ∧
      { s with tasks := s.tasks.insert j t' }.shared j t t' order a = some s' := by
  obtain ⟨i, rfl, hi, -, rfl⟩ | ⟨rfl | rfl, rfl⟩ | ⟨i, a, order, t, t', rfl, hi, htask, hshared⟩ |
    ⟨t, start, rfl, -, -, rfl⟩ | ⟨t, order, pc, next, rfl, -, -, rfl⟩ := step_cases hstep
  · by_cases he : j = i
    · subst he
      exact .inr (.inl ⟨rfl, hi, Finmap.lookup_insert _, rfl⟩)
    · exact .inl ⟨nofun, Finmap.lookup_insert_of_ne _ he, rfl⟩
  · exact .inl ⟨nofun, rfl, rfl⟩
  · exact .inl ⟨nofun, rfl, rfl⟩
  · have htasks := shared_tasks hshared
    by_cases he : j = i
    · subst he
      refine .inr (.inr ⟨a, order, t, t', rfl, hi, htask, ?_, hshared⟩)
      rw [htasks]
      exact Finmap.lookup_insert _
    · refine .inl ⟨?_, ?_, ?_⟩
      · rintro a' order' hact
        cases hact
        exact he rfl
      · rw [htasks]
        exact Finmap.lookup_insert_of_ne _ he
      · have hne : (RoomThread.task j) ≠ .task i := fun hij => he (RoomThread.task.inj hij)
        obtain ⟨_, _, who, -, -, -, rfl⟩ | ⟨who, -, -, -, rfl⟩ | ⟨pc, next, -, -, rfl, -⟩ |
          ⟨-, rfl⟩ | ⟨-, -, -, rfl, -⟩ := shared_cases hshared
        · exact lookup_begun.trans (if_neg hne)
        · exact lookup_begun.trans (if_neg hne)
        · exact lookup_moved_of_ne hne
        · rfl
        · rfl
  · exact .inl ⟨nofun, rfl, lookup_begun.trans (if_neg nofun)⟩
  · exact .inl ⟨nofun, rfl, lookup_moved_of_ne nofun⟩

theorem isSession_of_exec {acts : List ServeAct}
    (hrun : exec (step config authorizer instantMax) (new config) acts = some s) {i : ℕ}
    {t : ServerTask} (ht : s.tasks.lookup i = some t) : IsSession config instantMax acts i t := by
  have h : (s.tasks.lookup i = none → acts.filterMap (ServeAct.sessionAct i) = []) ∧
      ∀ t, s.tasks.lookup i = some t → IsSession config instantMax acts i t := by
    refine exec_history (P := fun acts s =>
      (s.tasks.lookup i = none → acts.filterMap (ServeAct.sessionAct i) = []) ∧
        ∀ t, s.tasks.lookup i = some t → IsSession config instantMax acts i t) ?_ ?_ hrun
    · rintro acts s₁ act s₂ ⟨hnone, hsome⟩ hstep
      obtain ⟨hact, hsame, -⟩ | ⟨rfl, hi, hi', -⟩ | ⟨a, order, t₁, t₂, rfl, hi, htask, hi', -⟩ :=
        task_of_step hstep i
      · have hact := sessionAct_of_other hact
        rw [hsame]
        refine ⟨fun hi => ?_, fun t₁ hi => isSession_of_other (hsome t₁ hi) hact⟩
        rw [List.filterMap_append, hnone hi, List.filterMap_cons, hact]
        rfl
      · rw [hi']
        refine ⟨by simp, fun t₁ ht₁ => ?_⟩
        cases ht₁
        refine ⟨[], rfl, ?_⟩
        rw [List.filterMap_append, hnone hi]
        rfl
      · rw [hi']
        refine ⟨by simp, fun t₃ ht₃ => ?_⟩
        cases ht₃
        exact (hsome t₁ hi).step htask order
    · refine ⟨fun _ => rfl, fun t₁ ht₁ => ?_⟩
      simp [new] at ht₁
  exact h.2 t ht

/-- **Every connection is a session**: in every run of the server, the connection of every task is
in the state in which the steps that the run gives to that task, with the end of its handshake among
them, leave a session of its own. -/
theorem sessions (config : WebSocketServerConfig) (authorizer : HandshakeAuthorizer)
    (instantMax : ℕ) (acts : List ServeAct) (s : Serve)
    (hrun : exec (step config authorizer instantMax) (new config) acts = some s) (i : ℕ)
    (t : ServerTask) (ht : s.tasks.lookup i = some t) :
    ∃ sacts, exec (Session.step config instantMax) (.new config) sacts = some t.session ∧
      (sacts.filter fun act => !act.isHandshaken) = acts.filterMap (ServeAct.sessionAct i) :=
  isSession_of_exec hrun ht

/-- A connection is upgraded and read from while another one is still in its handshake. -/
def oneUpgraded : List ServeAct :=
  [.accept 0, .accept 1, .task 0 (.callback ⟨"GET", "/", []⟩) [],
    .task 0 (.upgraded .accepted "a") [], .task 0 .room [], .task 0 (.session .registered) [],
    .task 0 (.session (.connected 0)) [], .task 0 (.session (.read 1 (.message (.binary [])))) [],
    .task 0 (.session (.callbackReturned [])) []]

/-- The connection of the first of two tasks. -/
theorem sessions_oneUpgraded :
    ∃ s, exec (step .default AllowAnonymous (10 ^ 18)) (new .default) oneUpgraded = some s ∧
      ∃ t, s.tasks.lookup 0 = some t ∧
        ∃ sacts, exec (Session.step .default (10 ^ 18)) (.new .default) sacts = some t.session ∧
          sacts.countP (fun act => !act.isHandshaken) = 4 := by
  obtain ⟨s, hrun, hzero⟩ : ∃ s,
      exec (step .default AllowAnonymous (10 ^ 18)) (new .default) oneUpgraded = some s ∧
        (s.tasks.lookup 0).isSome = true := by decide
  obtain ⟨t, ht⟩ := Option.isSome_iff_exists.mp hzero
  obtain ⟨sacts, hsrun, hfilter⟩ := sessions _ _ _ _ s hrun 0 t ht
  refine ⟨s, hrun, t, ht, sacts, hsrun, ?_⟩
  rw [List.countP_eq_length_filter, hfilter]
  rfl

/-- Every connection is in a state that a session reaches. -/
def Sessions (config : WebSocketServerConfig) (instantMax : ℕ) (s : Serve) : Prop :=
  ∀ i t, s.tasks.lookup i = some t → t.session.Reached config instantMax

theorem sessions_new : (new config).Sessions config instantMax := by
  intro i t ht
  simp [new] at ht

theorem Sessions.step {act : ServeAct} (h : s.Sessions config instantMax)
    (hstep : s.step config authorizer instantMax act = some s') :
    s'.Sessions config instantMax := by
  intro i t' ht'
  obtain ⟨-, hsame, -⟩ | ⟨-, -, hi', -⟩ | ⟨a, order, t, t₁, -, hi, htask, hi', -⟩ :=
    task_of_step hstep i
  · rw [hsame] at ht'
    exact h i t' ht'
  · rw [hi'] at ht'
    cases ht'
    exact ⟨[], rfl⟩
  · rw [hi'] at ht'
    cases ht'
    have hreached := h i t hi
    cases a with
    | callback request =>
        obtain ⟨-, -, rfl⟩ := ServerTask.callback_some htask
        exact hreached
    | upgraded outcome id => exact hreached.step (ServerTask.upgraded_some htask).1
    | session b => exact hreached.step (ServerTask.session_some htask).2.1
    | leave =>
        obtain ⟨-, rfl⟩ := ServerTask.leave_some htask
        exact hreached
    | room =>
        obtain rfl := ServerTask.room_some htask
        exact hreached
    | release =>
        obtain ⟨-, -, rfl⟩ := ServerTask.release_some htask
        exact hreached

end Serve

/-! ### Where the calls of the room manager stand -/

namespace ServerTask

variable {config : WebSocketServerConfig} {authorizer : HandshakeAuthorizer} {instantMax i : ℕ}
  {t t' : ServerTask}

/-- Where the call of task `i` stands: it registers the task's connection while the session waits
for that, or unregisters it after `on_disconnect`. -/
def CallsAt (i : ℕ) (t : ServerTask) : Option RoomPc → Prop
  | none => t.session.stage ≠ .registering
  | some pc => ∃ who, t.session.identity = some who ∧
      (t.session.stage = .registering ∧
          (pc = .registerConnections ⟨who.id, who.principal, i⟩ ∨ pc = .registerIndex who.id) ∨
        t.session.stage = .disconnecting ∧ pc.op = .unregister who.id)

theorem callsAt_new : (new config).CallsAt i none := nofun

/-- A task that has not been upgraded is in no call. -/
theorem CallsAt.idle {call : Option RoomPc} (h : t.CallsAt i call)
    (hnone : t.session.stage.inRooms = false) : call = none := by
  cases call with
  | none => rfl
  | some pc =>
      obtain ⟨who, -, ⟨hs, -⟩ | ⟨hs, -⟩⟩ := h
      · rw [hs] at hnone
        cases hnone
      · rw [hs] at hnone
        cases hnone

theorem stage_of_upgraded {outcome : AcceptOutcome} {id : ConnectionId}
    (hauth : t.Authorized config authorizer)
    (hstep : t.step config authorizer instantMax (.upgraded outcome id) = some t') :
    (∃ principal, t'.session.identity = some ⟨id, principal⟩ ∧
      t'.session.stage = .registering) ∨
    t'.session.identity = none ∧ t'.session.stage.away = true := by
  obtain ⟨hsession, -⟩ := upgraded_some hstep
  obtain ⟨hstage, he⟩ := Session.handshaken_some hsession
  have hnone : t.session.identity = none := hauth.session.early (.inl hstage)
  rw [he]
  obtain ⟨principal, -, hmade⟩ | ⟨stage, haway, hgone⟩ :=
    Session.handshakeEnd_cases config instantMax t.session _ id
  · rw [hmade]
    exact .inl ⟨principal, rfl, rfl⟩
  · rw [hgone]
    exact .inr ⟨hnone, haway⟩

/-- An operation of the task's call leads to the next one. -/
theorem CallsAt.room {maps maps' : RoomMaps} {order : List String} {pc pc' : RoomPc}
    (h : t.CallsAt i (some pc)) (hop : roomStep order maps pc = some (maps', .inl pc')) :
    t.CallsAt i (some pc') := by
  obtain ⟨who, hwho, ⟨hstage, rfl | rfl⟩ | ⟨hstage, hpc⟩⟩ := h
  · cases hop
    exact ⟨who, hwho, .inl ⟨hstage, .inr rfl⟩⟩
  · cases hop
  · exact ⟨who, hwho, .inr ⟨hstage, (roomStep_op hop).trans hpc⟩⟩

/-- A step of the session that is none of the room manager. -/
theorem CallsAt.session {act : SessionAct} {call : Option RoomPc} (h : t.CallsAt i call)
    (hengaged : t.session.Engaged) (hauth : t.Authorized config authorizer)
    (hstep : t.step config authorizer instantMax (.session act) = some t')
    (hact : (TaskAct.session act).operates = false)
    (hpanicked : act = .callbackPanicked → call = none) : t'.CallsAt i call := by
  obtain ⟨hhandshaken, hsession, -⟩ := session_some hstep
  cases call with
  | none => exact fun hs => h (Session.registering_of_step hhandshaken hsession hs)
  | some pc =>
      obtain ⟨who, hwho, hat⟩ := h
      have hrooms : t.session.stage.inRooms = true := by
        obtain ⟨hs, -⟩ | ⟨hs, -⟩ := hat <;> rw [hs] <;> rfl
      obtain ⟨-, hsame⟩ | rfl | rfl | rfl := Session.step_in_rooms hengaged hrooms hsession
      · refine ⟨who, hauth.identity_step hstep hwho, ?_⟩
        rw [hsame]
        exact hat
      · cases hact
      · cases hact
      · cases hpanicked rfl

end ServerTask

namespace Serve

variable {config : WebSocketServerConfig} {authorizer : HandshakeAuthorizer} {instantMax : ℕ}
  {s s' : Serve}

/-- Every task is in the call of the room manager that its session waits for. -/
structure Coupled (config : WebSocketServerConfig) (authorizer : HandshakeAuthorizer)
    (instantMax : ℕ) (s : Serve) : Prop where
  authorized : s.Authorized config authorizer
  sessions : s.Sessions config instantMax
  callsAt : ∀ i t, s.tasks.lookup i = some t → t.CallsAt i (s.rooms.threads.lookup (.task i))

theorem coupled_new : (new config).Coupled config authorizer instantMax where
  authorized := authorized_new
  sessions := sessions_new
  callsAt := fun i t h => by simp [new] at h

theorem Coupled.task_step {i : ℕ} {t t' : ServerTask} {a : TaskAct} {order : List String}
    (h : s.Coupled config authorizer instantMax) (ht : s.tasks.lookup i = some t)
    (htask : t.step config authorizer instantMax a = some t')
    (hshared : { s with tasks := s.tasks.insert i t' }.shared i t t' order a = some s') :
    t'.CallsAt i (s'.rooms.threads.lookup (.task i)) := by
  have hat := h.callsAt i t ht
  have hauth := h.authorized.tasks i t ht
  obtain ⟨outcome, id, who, rfl, hwho, -, rfl⟩ | ⟨who, rfl, hwho, -, rfl⟩ |
    ⟨pc, next, hpc, hop, rfl, ⟨rfl, pc', rfl⟩ | ⟨hreturns, reply, rfl⟩⟩ | ⟨rfl, rfl⟩ |
    ⟨hrelease, hleave, hoperates, rfl, hnone, hpanicked⟩ := shared_cases hshared
  · obtain ⟨principal, hidentity, hstage⟩ | ⟨hgone, -⟩ := ServerTask.stage_of_upgraded hauth htask
    · show t'.CallsAt i ((s.rooms.begun (.task i) _).threads.lookup (.task i))
      rw [lookup_begun, if_pos rfl]
      exact ⟨who, hwho, .inl ⟨hstage, .inl rfl⟩⟩
    · rw [hgone] at hwho
      cases hwho
  · obtain ⟨hstage, rfl⟩ := ServerTask.leave_some htask
    show t'.CallsAt i ((s.rooms.begun (.task i) _).threads.lookup (.task i))
    rw [lookup_begun, if_pos rfl]
    exact ⟨who, hwho, .inr ⟨hstage, rfl⟩⟩
  · obtain rfl := ServerTask.room_some htask
    have hpc' : s.rooms.threads.lookup (.task i) = some pc := hpc
    rw [hpc'] at hat
    show t'.CallsAt i ((s.rooms.moved (.task i) pc (.inl pc')).threads.lookup (.task i))
    rw [lookup_moved_self]
    exact hat.room hop
  · show t'.CallsAt i ((s.rooms.moved (.task i) pc (.inr reply)).threads.lookup (.task i))
    rw [lookup_moved_self]
    cases a with
    | session act =>
        obtain ⟨-, hsession, -⟩ := ServerTask.session_some htask
        cases act with
        | registered =>
            obtain ⟨-, he⟩ := Session.registered_some hsession
            show t'.session.stage ≠ .registering
            rw [he]
            exact nofun
        | disconnected =>
            obtain ⟨-, he⟩ := Session.disconnected_some hsession
            show t'.session.stage ≠ .registering
            rw [he]
            exact nofun
        | _ => cases hreturns
    | _ => cases hreturns
  · obtain ⟨-, -, rfl⟩ := ServerTask.release_some htask
    exact hat
  · cases a with
    | callback request =>
        obtain ⟨-, -, rfl⟩ := ServerTask.callback_some htask
        exact hat
    | upgraded outcome id =>
        have hstage := (Session.handshaken_some (ServerTask.upgraded_some htask).1).1
        have hidle : s.rooms.threads.lookup (.task i) = none :=
          hat.idle (by rw [hstage]; rfl)
        show t'.CallsAt i (s.rooms.threads.lookup (.task i))
        rw [hidle]
        obtain ⟨principal, hwho, -⟩ | ⟨-, haway⟩ := ServerTask.stage_of_upgraded hauth htask
        · rw [hnone ⟨_, _, rfl⟩] at hwho
          cases hwho
        · intro hregistering
          rw [hregistering] at haway
          cases haway
    | session act =>
        refine hat.session (h.sessions i t ht).engaged hauth htask hoperates fun he => ?_
        exact hpanicked (by rw [he])
    | leave => exact absurd rfl hleave
    | room => cases hoperates
    | release => exact absurd rfl hrelease

theorem Coupled.step {act : ServeAct} (h : s.Coupled config authorizer instantMax)
    (hstep : s.step config authorizer instantMax act = some s') :
    s'.Coupled config authorizer instantMax where
  authorized := h.authorized.step hstep
  sessions := h.sessions.step hstep
  callsAt := by
    intro i t' ht'
    obtain ⟨-, hsame, hthread⟩ | ⟨rfl, hi, hi', hrooms⟩ |
      ⟨a, order, t, t₁, rfl, hi, htask, hi', hshared⟩ := task_of_step hstep i
    · rw [hsame] at ht'
      rw [hthread]
      exact h.callsAt i t' ht'
    · rw [hi'] at ht'
      cases ht'
      -- nobody has called in the name of a task that was not there
      have hidle : s.rooms.threads.lookup (.task i) = none := by
        cases hpc : s.rooms.threads.lookup (.task i) with
        | none => rfl
        | some pc =>
            obtain ⟨t, who, ht, -⟩ := h.authorized.caller i pc hpc
            rw [hi] at ht
            cases ht
      rw [hrooms, hidle]
      exact ServerTask.callsAt_new
    · rw [hi'] at ht'
      cases ht'
      exact h.task_step hi htask hshared

theorem coupled_of_exec {acts : List ServeAct}
    (hrun : exec (step config authorizer instantMax) (new config) acts = some s) :
    s.Coupled config authorizer instantMax :=
  exec_invariant (fun _ _ _ h hs => h.step hs) coupled_new hrun

end Serve
end ArmatureWebsocket
