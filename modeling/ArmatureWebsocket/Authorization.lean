import ArmatureWebsocket.Serve

/-! # Whose connection it is

A connection is registered and its callbacks are called in the name of the principal that the
authorizer returned for the request of the same handshake, which the origin policy has let pass.
`Session.Named` says that everything that is seen of a connection is under its identity, and
`ServerTask.Authorized` adds that the identity comes from the task's own handshake.

Both hold of every task in every run of the server, whatever the other tasks and the application do
and however the tasks end (`connections_authorized`). -/

namespace ArmatureWebsocket

open Execution CallPool

/-- The task has a connection, or has panicked. -/
def Stage.underway : Stage → Bool
  | .handshaking => false
  | .refused => false
  | .finished => false
  | _ => true

/-- A connection is refused only by its handshake and finished only when `on_disconnect` has
returned. -/
theorem Stage.Moves.underway {stage stage' : Stage} {act : SessionAct}
    (h : stage.Moves act stage') :
    stage'.underway = true ∨ (stage = .handshaking ∧ stage' = .refused) ∨
      act = .disconnected ∧ stage' = .finished := by
  cases h with
  | refused _ _ => exact .inr (.inl ⟨rfl, rfl⟩)
  | disconnected => exact .inr (.inr ⟨rfl, rfl⟩)
  | _ => exact .inl rfl

namespace Session

variable {config : WebSocketServerConfig} {instantMax : ℕ} {s s' : Session}

theorem stage_of_step {act : SessionAct} (hstep : s.step config instantMax act = some s') :
    s'.stage = s.stage ∨ s'.stage.underway = true ∨
      (s.stage = .handshaking ∧ s'.stage = .refused) ∨
        act = .disconnected ∧ s'.stage = .finished := by
  obtain hsame | hmoves := stage_moves hstep
  · exact .inl hsame
  · exact .inr hmoves.underway

/-! ### Everything seen of a connection is under its identity -/

/-- Only a connection shows anything, and all of it is under its identity. -/
structure Named (s : Session) : Prop where
  early : s.stage = .handshaking ∨ s.stage = .refused → s.identity = none
  late : s.identity = none → s.stage = .handshaking ∨ s.stage.done = true
  trace : ∀ e ∈ s.trace, ∃ who, s.identity = some who ∧ e.Concerns who

theorem named_new : (new config).Named := ⟨fun _ => rfl, fun _ => .inl rfl, nofun⟩

theorem concerns_note {events : Identity → List SessionEvent}
    (h : ∀ e ∈ s.trace, ∃ who, s.identity = some who ∧ e.Concerns who)
    (hevents : ∀ who, ∀ e ∈ events who, e.Concerns who) :
    ∀ e ∈ (s.note events).trace, ∃ who, s.identity = some who ∧ e.Concerns who := by
  intro e he
  obtain he | he := List.mem_append.mp he
  · exact h e he
  · cases hwho : s.identity with
    | none =>
        rw [hwho] at he
        cases he
    | some who =>
        rw [hwho] at he
        exact ⟨who, rfl, hevents who e he⟩

theorem Named.step {act : SessionAct} (h : s.Named)
    (hstep : s.step config instantMax act = some s') : s'.Named where
  early := fun hearly => by
    have hbefore : s.stage = .handshaking ∨ s.stage = .refused := by
      obtain hsame | hunderway | ⟨hstage, -⟩ | ⟨-, hfinished⟩ := stage_of_step hstep
      · rwa [hsame] at hearly
      · obtain he | he := hearly <;> rw [he] at hunderway <;> cases hunderway
      · exact .inl hstage
      · obtain he | he := hearly <;> rw [he] at hfinished <;> cases hfinished
    obtain hsame | ⟨principal, id, -, -, rfl⟩ := step_identity hstep
    · rw [hsame]
      exact h.early hbefore
    · obtain he | he := hearly <;> cases he
  late := fun hnone => by
    have hbefore : s.identity = none := by
      obtain hsame | ⟨principal, id, -, -, rfl⟩ := step_identity hstep
      · rw [← hsame, hnone]
      · cases hnone
    obtain hs | hdone := h.late hbefore
    · obtain hsame | hmoves := stage_moves hstep
      · exact .inl (hsame.trans hs)
      · rw [hs] at hmoves
        generalize hs' : s'.stage = stage at hmoves
        cases hmoves with
        | upgraded outcome id =>
            obtain ⟨-, rfl⟩ := handshaken_some hstep
            obtain ⟨principal, -, he⟩ | ⟨stage, haway, he⟩ :=
              handshakeEnd_cases config instantMax s outcome id
            · rw [he] at hnone
              cases hnone
            · rw [he] at hs'
              rw [show stage = .registering from hs'] at haway
              cases haway
        | refused outcome id => exact .inr rfl
        | panicked _ _ why _ => exact .inr rfl
    · exact .inr (by rw [(done_of_step hdone hstep).1, hdone])
  trace := by
    obtain hsame | ⟨principal, id, -, hstage, rfl⟩ |
      ⟨events, hnotes, hnoted⟩ := shown_of_step hstep
    · have hidentity : s'.identity = s.identity := congrArg Prod.fst hsame
      have htrace : s'.trace = s.trace := congrArg Prod.snd hsame
      rw [hidentity, htrace]
      exact h.trace
    · have hidentity : s.identity = none := h.early (.inl hstage)
      intro e he
      obtain ⟨who, hwho, -⟩ := h.trace e he
      rw [hidentity] at hwho
      cases hwho
    · have hidentity : s'.identity = s.identity := congrArg Prod.fst hnoted
      have htrace : s'.trace = (s.note events).trace := congrArg Prod.snd hnoted
      rw [hidentity, htrace]
      exact concerns_note h.trace hnotes.concerns

end Session

namespace ServerTask

variable {config : WebSocketServerConfig} {authorizer : HandshakeAuthorizer} {instantMax : ℕ}
  {t t' : ServerTask}

/-- Everything seen of the task's connection is under its identity, and its principal is what the
verdict on the task's request was. -/
structure Authorized (config : WebSocketServerConfig) (authorizer : HandshakeAuthorizer)
    (t : ServerTask) : Prop where
  handshake : t.handshake.Sound config.originPolicy authorizer
  session : t.session.Named
  granted : ∀ who, t.session.identity = some who → ∃ request, t.handshake.request = some request ∧
    verdict config.originPolicy authorizer request = .ok who.principal

theorem authorized_new : (new config).Authorized config authorizer where
  handshake := Handshake.sound_new
  session := Session.named_new
  granted := nofun

theorem identity_cases {act : TaskAct} (hstep : t.step config authorizer instantMax act = some t') :
    t'.session.identity = t.session.identity ∨
      ∃ outcome id principal, act = .upgraded outcome id ∧ t.session.stage = .handshaking ∧
        (t.handshake.finish outcome).2 = .ok (some principal) ∧
        t'.session = t.session.made ⟨id, principal⟩ := by
  cases act with
  | callback request =>
      obtain ⟨-, -, rfl⟩ := callback_some hstep
      exact .inl rfl
  | upgraded outcome id =>
      obtain ⟨hsession, -⟩ := upgraded_some hstep
      obtain hsame | ⟨principal, id', hact, hstage, he⟩ := Session.step_identity hsession
      · exact .inl hsame
      · injection hact with houtcome hid
        exact .inr ⟨outcome, id, principal, rfl, hstage, houtcome, hid ▸ he⟩
  | session act =>
      obtain ⟨hact, hsession, -⟩ := session_some hstep
      obtain hsame | ⟨principal, id', rfl, -⟩ := Session.step_identity hsession
      · exact .inl hsame
      · cases hact
  | leave =>
      obtain ⟨-, rfl⟩ := leave_some hstep
      exact .inl rfl
  | room =>
      obtain rfl := room_some hstep
      exact .inl rfl
  | release =>
      obtain ⟨-, -, rfl⟩ := release_some hstep
      exact .inl rfl

theorem Authorized.step {act : TaskAct} (h : t.Authorized config authorizer)
    (hstep : t.step config authorizer instantMax act = some t') :
    t'.Authorized config authorizer := by
  have hgranted : (∀ request, t.handshake.request = some request →
      t'.handshake.request = some request) → ∀ who, t'.session.identity = some who →
        ∃ request, t'.handshake.request = some request ∧
          verdict config.originPolicy authorizer request = .ok who.principal := by
    intro hkept who hwho
    obtain hsame | ⟨outcome, id, principal, -, -, houtcome, he⟩ := identity_cases hstep
    · rw [hsame] at hwho
      obtain ⟨request, hrequest, hverdict⟩ := h.granted who hwho
      exact ⟨request, hkept request hrequest, hverdict⟩
    · rw [he] at hwho
      cases hwho
      obtain ⟨request, hrequest, hverdict⟩ := h.handshake.principal houtcome
      exact ⟨request, hkept request hrequest, hverdict⟩
  cases act with
  | callback request =>
      obtain ⟨-, hnone, rfl⟩ := callback_some hstep
      refine ⟨h.handshake.callback hnone request, h.session, hgranted fun request' he => ?_⟩
      rw [hnone] at he
      cases he
  | upgraded outcome id =>
      obtain ⟨hsession, hhandshake, -⟩ := upgraded_some hstep
      refine ⟨hhandshake ▸ h.handshake.finish outcome, h.session.step hsession, hgranted ?_⟩
      rw [hhandshake, Handshake.finish_request]
      exact fun _ he => he
  | session act =>
      obtain ⟨-, hsession, hhandshake, -⟩ := session_some hstep
      refine ⟨hhandshake ▸ h.handshake, h.session.step hsession, hgranted ?_⟩
      rw [hhandshake]
      exact fun _ he => he
  | leave =>
      obtain ⟨-, rfl⟩ := leave_some hstep
      exact h
  | room =>
      obtain rfl := room_some hstep
      exact h
  | release =>
      obtain ⟨-, -, rfl⟩ := release_some hstep
      exact ⟨h.handshake, h.session, h.granted⟩

theorem Authorized.identity_step {act : TaskAct} (h : t.Authorized config authorizer)
    (hstep : t.step config authorizer instantMax act = some t') {who : Identity}
    (hwho : t.session.identity = some who) : t'.session.identity = some who := by
  obtain hsame | ⟨_, _, _, -, hstage, -, -⟩ := identity_cases hstep
  · rw [hsame, hwho]
  · rw [h.session.early (.inl hstage)] at hwho
    cases hwho

/-- Nothing is seen of a connection whose request is refused. -/
theorem Authorized.refused (h : t.Authorized config authorizer) {request : HandshakeRequest}
    {rejection : HandshakeRejection} (hrequest : t.handshake.request = some request)
    (hrefused : verdict config.originPolicy authorizer request = .error rejection) :
    t.handshake.answer = some (.error ⟨rejection.status, some rejection.reason⟩) ∧
      t.session.identity = none ∧ t.session.trace = [] := by
  have hidentity : t.session.identity = none := by
    cases hwho : t.session.identity with
    | none => rfl
    | some who =>
        obtain ⟨request', hrequest', hgranted⟩ := h.granted who hwho
        rw [hrequest] at hrequest'
        cases hrequest'
        rw [hrefused] at hgranted
        cases hgranted
  refine ⟨?_, hidentity, ?_⟩
  · rw [h.handshake.answer request hrequest, hrefused]
    rfl
  · refine List.eq_nil_iff_forall_not_mem.mpr fun e he => ?_
    obtain ⟨who, hwho, -⟩ := h.session.trace e he
    rw [hidentity] at hwho
    cases hwho

end ServerTask

namespace Serve

variable {config : WebSocketServerConfig} {authorizer : HandshakeAuthorizer} {instantMax : ℕ}
  {s s' : Serve}

/-- The connection has the principal of the task whose connection it is. -/
def Made (s : Serve) (connection : Connection) : Prop :=
  ∃ t who, s.tasks.lookup connection.cell = some t ∧ t.session.identity = some who ∧
    connection.principal = who.principal

/-- Every task is authorized, and every connection in the room manager, or about to be put there,
has the principal of the task whose connection it is.  Only a task with a connection calls the room
manager. -/
structure Authorized (config : WebSocketServerConfig) (authorizer : HandshakeAuthorizer)
    (s : Serve) : Prop where
  tasks : ∀ i t, s.tasks.lookup i = some t → t.Authorized config authorizer
  owned : ∀ c connection, s.rooms.shared.connections.lookup c = some connection →
    s.Made connection
  carried : ∀ who connection,
    s.rooms.threads.lookup who = some (.registerConnections connection) → s.Made connection
  caller : ∀ i pc, s.rooms.threads.lookup (.task i) = some pc →
    ∃ t who, s.tasks.lookup i = some t ∧ t.session.identity = some who

theorem authorized_new : (new config).Authorized config authorizer where
  tasks := fun i t h => by simp [new] at h
  owned := fun c connection h => by simp [new, RoomPool.new, CallPool.quiet, RoomMaps.new] at h
  carried := fun who connection h => by simp [new, RoomPool.new] at h
  caller := fun i pc h => by simp [new, RoomPool.new] at h

theorem Authorized.identity_step {act : ServeAct} (h : s.Authorized config authorizer)
    (hstep : s.step config authorizer instantMax act = some s') {i : ℕ} {who : Identity}
    (hwho : ∃ t, s.tasks.lookup i = some t ∧ t.session.identity = some who) :
    ∃ t, s'.tasks.lookup i = some t ∧ t.session.identity = some who := by
  obtain ⟨t, ht, hwho⟩ := hwho
  obtain ⟨j, rfl, hj, -, rfl⟩ | ⟨-, rfl⟩ | ⟨j, a, order, t₁, t₂, rfl, hj, htask, hshared⟩ |
    ⟨_, _, rfl, -, -, rfl⟩ | ⟨_, _, _, _, rfl, -, -, rfl⟩ := step_cases hstep
  · have hne : i ≠ j := by
      rintro rfl
      rw [hj] at ht
      cases ht
    exact ⟨t, by rw [KeyMap.lookup_insert_ite, if_neg hne, ht], hwho⟩
  · exact ⟨t, ht, hwho⟩
  · rw [shared_tasks hshared, KeyMap.lookup_insert_ite]
    split_ifs with he
    · rw [he, hj] at ht
      cases ht
      exact ⟨t₂, rfl, (h.tasks j t hj).identity_step htask hwho⟩
    · exact ⟨t, ht, hwho⟩
  · exact ⟨t, ht, hwho⟩
  · exact ⟨t, ht, hwho⟩

/-- The call that begins with a step registers no connection but one of a task. -/
theorem Begins.made {act : ServeAct} {who : RoomThread} {start : RoomStart}
    {connection : Connection} (h : s.Begins act s' who start)
    (hpc : start.pc = .registerConnections connection) :
    (∃ t who, s.tasks.lookup connection.cell = some t ∧ t.session.identity = some who ∧
      connection.principal = who.principal) ∨ s'.Made connection := by
  cases h with
  | app clones =>
      cases start with
      | registerConnection made =>
          cases hpc
          obtain ⟨who, hwho, hprincipal⟩ := Option.map_eq_some_iff.mp clones
          obtain ⟨t, ht, hidentity⟩ := Option.bind_eq_some_iff.mp hwho
          exact .inl ⟨t, who, ht, hidentity, hprincipal.symm⟩
      | _ => cases hpc
  | register ht hwho =>
      cases hpc
      exact .inr ⟨_, _, ht, hwho, rfl⟩
  | unregister ht hwho hstage => cases hpc

theorem Begins.caller {act : ServeAct} {i : ℕ} {start : RoomStart}
    (h : s.Begins act s' (.task i) start) :
    (∃ t who, s.tasks.lookup i = some t ∧ t.session.identity = some who) ∨
      ∃ t who, s'.tasks.lookup i = some t ∧ t.session.identity = some who := by
  cases h with
  | register ht hwho => exact .inr ⟨_, _, ht, hwho⟩
  | unregister ht hwho hstage => exact .inl ⟨_, _, ht, hwho⟩

theorem Authorized.step {act : ServeAct} (h : s.Authorized config authorizer)
    (hstep : s.step config authorizer instantMax act = some s') :
    s'.Authorized config authorizer := by
  -- a task keeps its connection
  have hkept {i : ℕ} (hhas : ∃ t who, s.tasks.lookup i = some t ∧ t.session.identity = some who) :
      ∃ t who, s'.tasks.lookup i = some t ∧ t.session.identity = some who := by
    obtain ⟨t, who, ht, hwho⟩ := hhas
    obtain ⟨t', ht', hwho'⟩ := h.identity_step hstep ⟨t, ht, hwho⟩
    exact ⟨t', who, ht', hwho'⟩
  have hmade {connection : Connection} (hmade : s.Made connection) : s'.Made connection := by
    obtain ⟨t, who, ht, hwho, hprincipal⟩ := hmade
    obtain ⟨t', ht', hwho'⟩ := h.identity_step hstep ⟨t, ht, hwho⟩
    exact ⟨t', who, ht', hwho', hprincipal⟩
  have htasks : ∀ i t, s'.tasks.lookup i = some t → t.Authorized config authorizer := by
    intro j t' ht'
    obtain hold | ⟨-, rfl⟩ | ⟨a, order, t, -, hj, htask⟩ := task_cases hstep ht'
    · exact h.tasks j t' hold
    · exact ServerTask.authorized_new
    · exact (h.tasks j t hj).step htask
  refine ⟨htasks, fun c connection hlookup => ?_, fun who connection hlookup => ?_,
    fun i pc hlookup => ?_⟩
  · obtain ⟨hrooms, -⟩ | ⟨_, _, -, -, hrooms, -⟩ | ⟨who, order, pc, next, -, hpc, hop, hrooms, -⟩ :=
      rooms_cases hstep
    · rw [hrooms] at hlookup
      exact hmade (h.owned c connection hlookup)
    · rw [hrooms] at hlookup
      exact hmade (h.owned c connection hlookup)
    · rw [hrooms, moved_shared] at hlookup
      obtain hold | ⟨rfl, -⟩ := lookup_connections_after hlookup
      · exact hmade (h.owned c connection hold)
      · exact hmade (h.carried who connection hpc)
  · obtain ⟨hrooms, -⟩ | ⟨_, _, hbegins, -, hrooms, -⟩ |
      ⟨_, order, pc, next, -, hpc, hop, hrooms, -⟩ := rooms_cases hstep
    · rw [hrooms] at hlookup
      exact hmade (h.carried who connection hlookup)
    · rw [hrooms, lookup_begun] at hlookup
      split_ifs at hlookup
      · obtain hbefore | hafter := hbegins.made (Option.some.inj hlookup)
        · exact hmade hbefore
        · exact hafter
      · exact hmade (h.carried who connection hlookup)
    · rw [hrooms] at hlookup
      obtain ⟨-, hold⟩ | ⟨-, rfl⟩ := lookup_moved hlookup
      · exact hmade (h.carried who connection hold)
      · exact absurd hop registerConnections_of_roomStep
  · obtain ⟨hrooms, -⟩ | ⟨who, _, hbegins, -, hrooms, -⟩ |
      ⟨who, order, pc', next, -, hpc, hop, hrooms, -⟩ := rooms_cases hstep
    · rw [hrooms] at hlookup
      exact hkept (h.caller i pc hlookup)
    · rw [hrooms, lookup_begun] at hlookup
      split_ifs at hlookup with he
      · subst he
        obtain hbefore | hafter := hbegins.caller
        · exact hkept hbefore
        · exact hafter
      · exact hkept (h.caller i pc hlookup)
    · rw [hrooms] at hlookup
      obtain ⟨-, hold⟩ | ⟨rfl, -⟩ := lookup_moved hlookup
      · exact hkept (h.caller i pc hold)
      · exact hkept (h.caller i pc' hpc)

theorem Authorized.refused_step (h : s.Authorized config authorizer) {i : ℕ} {act : TaskAct}
    {order : List String} {t' : ServerTask} {request : HandshakeRequest}
    {rejection : HandshakeRejection}
    (hstep : s.step config authorizer instantMax (.task i act order) = some s')
    (ht' : s'.tasks.lookup i = some t') (hrequest : t'.handshake.request = some request)
    (hrefused : verdict config.originPolicy authorizer request = .error rejection) :
    s'.rooms = s.rooms ∧ s'.registered = s.registered := by
  have hnone : t'.session.identity = none :=
    (((h.step hstep).tasks i t' ht').refused hrequest hrefused).2.1
  have hnever (hhas : ∃ t who, s.tasks.lookup i = some t ∧ t.session.identity = some who) :
      False := by
    obtain ⟨t, who, ht, hwho⟩ := hhas
    obtain ⟨t₁, ht₁, hwho₁⟩ := h.identity_step hstep ⟨t, ht, hwho⟩
    cases ht'.symm.trans ht₁
    rw [hnone] at hwho₁
    cases hwho₁
  obtain ⟨hrooms, hregistered, -⟩ | ⟨who, start, hbegins, -⟩ |
    ⟨who, _, pc, _, hmover, hpc, -⟩ := rooms_cases hstep
  · exact ⟨hrooms, hregistered⟩
  · cases hbegins with
    | register ht₁ hwho₁ =>
        cases ht'.symm.trans ht₁
        rw [hnone] at hwho₁
        cases hwho₁
    | unregister ht hwho hstage => exact (hnever ⟨_, _, ht, hwho⟩).elim
  · have hthread : who = .task i := by
      have hmover' : (if act.operates then some (RoomThread.task i) else none) = some who := hmover
      split_ifs at hmover'
      exact (Option.some.inj hmover').symm
    subst hthread
    exact (hnever (h.caller i pc hpc)).elim

/-- **Whose connection it is**: in every run of the server, a connection with an identity has the
principal that the authorizer returned for the request of its own handshake, which the origin
policy let pass; everything seen of it, from its registration to `on_disconnect`, is under that
identity, and so is every `Connection` in the room manager.  The authorizer is only asked about
requests that the policy let pass.  A refused request is answered with the status and the reason of
whoever refused it, nothing is ever seen of its connection, and none of its task's steps changes the
room manager. -/
theorem connections_authorized (config : WebSocketServerConfig) (authorizer : HandshakeAuthorizer)
    (instantMax : ℕ) (acts : List ServeAct) (s : Serve)
    (hrun : exec (step config authorizer instantMax) (new config) acts = some s) :
    (∀ i t, s.tasks.lookup i = some t →
      (∀ who, t.session.identity = some who → ∃ request, t.handshake.request = some request ∧
        config.originPolicy.check request = .ok () ∧ authorizer request = .ok who.principal) ∧
      (∀ e ∈ t.session.trace, ∃ who, t.session.identity = some who ∧ e.Concerns who) ∧
      (∀ request ∈ t.handshake.consulted,
        t.handshake.request = some request ∧ config.originPolicy.check request = .ok ()) ∧
      ∀ request rejection, t.handshake.request = some request →
        (config.originPolicy.check request = .error rejection ∨
          config.originPolicy.check request = .ok () ∧ authorizer request = .error rejection) →
        t.handshake.answer = some (.error ⟨rejection.status, some rejection.reason⟩) ∧
          t.session.identity = none ∧ t.session.trace = []) ∧
    (∀ c connection, s.rooms.shared.connections.lookup c = some connection →
      ∃ t who, s.tasks.lookup connection.cell = some t ∧ t.session.identity = some who ∧
        connection.principal = who.principal) ∧
    ∀ i act order s' t', s.step config authorizer instantMax (.task i act order) = some s' →
      s'.tasks.lookup i = some t' → ∀ request rejection, t'.handshake.request = some request →
        (config.originPolicy.check request = .error rejection ∨
          config.originPolicy.check request = .ok () ∧ authorizer request = .error rejection) →
        s'.rooms = s.rooms ∧ s'.registered = s.registered := by
  have h : s.Authorized config authorizer :=
    exec_invariant (P := Serve.Authorized config authorizer) (fun _ _ _ h hs => h.step hs)
      authorized_new hrun
  refine ⟨fun i t ht => ⟨?_, (h.tasks i t ht).session.trace,
    (h.tasks i t ht).handshake.consulted, ?_⟩, h.owned, ?_⟩
  · intro who hwho
    obtain ⟨request, hrequest, hgranted⟩ := (h.tasks i t ht).granted who hwho
    exact ⟨request, hrequest, verdict_eq_ok_iff.mp hgranted⟩
  · intro request rejection hrequest hrefused
    exact (h.tasks i t ht).refused hrequest (verdict_eq_error_iff.mpr hrefused)
  · intro i act order s' t' hstep ht' request rejection hrequest hrefused
    exact h.refused_step hstep ht' hrequest (verdict_eq_error_iff.mpr hrefused)

/-- Grants alice what comes in at her address. -/
def aliceOnly : HandshakeAuthorizer := fun request =>
  if request.uri == "/alice" then .ok (.new "alice") else .error .unauthorized

/-- A request without headers. -/
def bareRequest (uri : String) : HandshakeRequest := ⟨"GET", uri, []⟩

/-- A request with two origins. -/
def twoOrigins : HandshakeRequest :=
  ⟨"GET", "/alice", [("origin", ⟨[97], rfl⟩), ("origin", ⟨[98], rfl⟩)]⟩

/-- Three connections at once: one with two origins, one that the authorizer refuses, and alice's,
which the application puts into a room while it is being registered. -/
def threeAtOnce : List ServeAct :=
  [.accept 0, .accept 1, .accept 2, .task 2 (.callback (bareRequest "/alice")) [],
    .task 0 (.callback twoOrigins) [], .task 1 (.callback (bareRequest "/bob")) [],
    .task 1 (.upgraded (.http (rejectionResponse .unauthorized)) "x") [],
    .task 2 (.upgraded .accepted "a") [], .task 0 (.upgraded .timedOut "y") [],
    .task 2 .room [], .app (.start 0 (.joinRoom "a" "r")), .app (.step 0 []),
    .task 2 (.session .registered) [], .app (.step 0 []), .task 2 (.session (.connected 0)) [],
    .app (.step 0 []), .app (.step 0 [])]

theorem connections_authorized_threeAtOnce :
    ∃ s, exec (step .default aliceOnly (10 ^ 18)) (new .default) threeAtOnce = some s ∧
      (∀ t, s.tasks.lookup 0 = some t →
        t.handshake.answer = some (.error ⟨.FORBIDDEN, some "Multiple Origin headers"⟩)) ∧
      (∀ t, s.tasks.lookup 1 = some t →
        t.handshake.answer = some (.error ⟨.UNAUTHORIZED, some "Unauthorized"⟩)) ∧
      ∀ connection, s.rooms.shared.connections.lookup "a" = some connection →
        connection.principal = .new "alice" := by
  obtain ⟨s, hrun, hzero, hone, hcell, htwo⟩ : ∃ s,
      exec (step .default aliceOnly (10 ^ 18)) (new .default) threeAtOnce = some s ∧
        (s.tasks.lookup 0).map (·.handshake.request) = some (some twoOrigins) ∧
        (s.tasks.lookup 1).map (·.handshake.request) = some (some (bareRequest "/bob")) ∧
        (s.rooms.shared.connections.lookup "a").map Connection.cell = some 2 ∧
        (s.tasks.lookup 2).map (·.session.identity) = some (some ⟨"a", .new "alice"⟩) := by decide
  have h := connections_authorized .default aliceOnly (10 ^ 18) threeAtOnce s hrun
  refine ⟨s, hrun, fun t ht => ?_, fun t ht => ?_, fun connection hlookup => ?_⟩
  · rw [ht] at hzero
    exact ((h.1 0 t ht).2.2.2 twoOrigins _ (Option.some.inj hzero) (.inl rfl)).1
  · rw [ht] at hone
    exact ((h.1 1 t ht).2.2.2 (bareRequest "/bob") _ (Option.some.inj hone) (.inr ⟨rfl, rfl⟩)).1
  · obtain ⟨t, who, ht, hwho, hprincipal⟩ := h.2.1 "a" connection hlookup
    rw [hlookup] at hcell
    rw [Option.some.inj hcell] at ht
    rw [ht] at htwo
    have hidentity : t.session.identity = some ⟨"a", .new "alice"⟩ := Option.some.inj htwo
    rw [hidentity] at hwho
    cases hwho
    exact hprincipal

end Serve
end ArmatureWebsocket
