import ArmatureWebsocket.Admission
import ArmatureWebsocket.SilentPeer

/-! # The slots come back

A slot is not lost in any state that the server can reach.  Once nothing is accepted and nothing
more arrives, the tasks that hold slots have only so many steps of their own left, whatever the
schedule, the application, the writers and the sinks do; and as long as a slot is held, the task
that holds it can make one of them (`drains`).

The steps of a task's calls of the room manager are counted apart: how many operations it takes to
unregister a connection depends on how many rooms it is found to be in. -/

namespace ArmatureWebsocket

open Execution CallPool

namespace Session

variable {config : WebSocketServerConfig} {instantMax : ℕ} {s s' : Session} {act : SessionAct}

/-! ### What a connection's task has left to do -/

/-- How many steps of its own the task makes at most if nothing more is read. -/
def workLeft (s : Session) : ℕ :=
  match s.stage with
  | .handshaking => 26
  | .registering => 25
  | .connecting => 24
  | .selecting => 5 * s.pingsLeft + s.callLeft + 8
  | .pinging => 5 * s.pingsLeft + s.callLeft + 8
  | .handling _ => 5 * s.pingsLeft + 13
  | .ponging => 5 * s.pingsLeft + s.callLeft + 8
  | _ => s.rest

theorem pingsLeft_le : s.pingsLeft ≤ 3 := Nat.sub_le _ _

theorem workLeft_of_waiting (h : s.Waiting) : s.workLeft = 5 * s.pingsLeft + s.callLeft + 8 := by
  unfold workLeft
  obtain hs | hs := h
  · rw [hs]
  · rw [hs]

theorem workLeft_of_loopOver (h : s.stage.loopOver = true) : s.workLeft = s.rest := by
  unfold workLeft
  cases hs : s.stage with
  | handshaking => rw [hs] at h; cases h
  | registering => rw [hs] at h; cases h
  | connecting => rw [hs] at h; cases h
  | selecting => rw [hs] at h; cases h
  | pinging => rw [hs] at h; cases h
  | handling callback => rw [hs] at h; cases h
  | ponging => rw [hs] at h; cases h
  | _ => rfl

theorem workLeft_of_done (h : s.stage.done = true) : s.workLeft = 0 := by
  unfold workLeft rest
  cases hs : s.stage with
  | refused => rfl
  | finished => rfl
  | panicked why => rfl
  | _ =>
      rw [hs] at h
      cases h

theorem workLeft_of_loopLeft (h : s.LoopLeft) : s.workLeft ≤ 7 := by
  rw [workLeft_of_loopOver h.1]
  exact h.2

theorem workLeft_loopHead (hidle : s.Idle) :
    (s.loopHead config instantMax).workLeft ≤ 5 * s.pingsLeft + 8 := by
  obtain he | ⟨call, he⟩ := loopHead_cases config instantMax s
  · have hwaiting : (s.goto .selecting).Waiting := .inl rfl
    have hleft : (s.goto .selecting).callLeft = 0 := callLeft_of_idle hidle
    rw [he, workLeft_of_waiting hwaiting, hleft]
    exact Nat.le_refl _
  · rw [he, workLeft_of_done rfl]
    exact Nat.zero_le _

theorem workLeft_enterLoop {now : ℕ} (hidle : s.Idle) :
    (s.enterLoop config instantMax now).workLeft ≤ 23 := by
  unfold enterLoop
  obtain ⟨-, he⟩ | ⟨-, he⟩ := guarded_cases instantMax s (.interval config.heartbeatInterval)
    ({ s with vars := ⟨0, now⟩ }.loopHead config instantMax)
  · rw [he]
    exact workLeft_loopHead hidle
  · rw [he, workLeft_of_done rfl]
    exact Nat.zero_le _

theorem pingsLeft_of_vars (h : s'.vars = s.vars) : s'.pingsLeft = s.pingsLeft := by
  unfold pingsLeft
  rw [h]

theorem workLeft_of_waiting_step (h : s.Engaged) (hwaiting : s.Waiting)
    (hmissed : s.vars.missedHeartbeats ≤ MAX_MISSED_HEARTBEATS)
    (hstep : s.step config instantMax act = some s')
    (hread : ∀ now result, act ≠ .read now result) :
    s'.workLeft + (if act.own = true then 1 else 0) ≤ s.workLeft := by
  have hone : (if act.own = true then 1 else 0) ≤ 1 := by split_ifs <;> omega
  rw [workLeft_of_waiting hwaiting]
  obtain ⟨hown, hstage, hvars, hleft⟩ | ⟨-, hstage, hleft, hlt, hvars⟩ |
    ⟨-, hwaiting', hvars, hleft⟩ | hleft := step_waiting h hwaiting hmissed hstep hread
  · have hwaiting' : s'.Waiting := by
      unfold Waiting
      rw [hstage]
      exact hwaiting
    rw [workLeft_of_waiting hwaiting', hown, hleft, pingsLeft_of_vars hvars]
    exact Nat.le_refl _
  · have hwaiting' : s'.Waiting := .inr hstage
    have hping : s'.pingsLeft + 1 = s.pingsLeft := by
      unfold pingsLeft
      rw [hvars]
      show MAX_MISSED_HEARTBEATS - (s.vars.missedHeartbeats + 1) + 1 = _
      omega
    rw [workLeft_of_waiting hwaiting', hleft]
    omega
  · rw [workLeft_of_waiting hwaiting', pingsLeft_of_vars hvars]
    omega
  · have hle := workLeft_of_loopLeft hleft
    omega

theorem workLeft_of_outside {a : OutAct}
    (hstep : s.step config instantMax (.outside a) = some s') : s'.workLeft = s.workLeft := by
  have hleft := callLeft_of_outside hstep
  obtain ⟨-, -, he⟩ := outside_some hstep
  have hstage : s'.stage = s.stage := by rw [he]; rfl
  have hvars : s'.vars = s.vars := by rw [he]; rfl
  unfold workLeft rest
  rw [hstage, hleft, pingsLeft_of_vars hvars]

theorem workLeft_of_handshaken {outcome : WebSocketResult (Option Principal)} {id : ConnectionId}
    (hstep : s.step config instantMax (.handshaken outcome id) = some s') :
    s'.workLeft + 1 ≤ s.workLeft := by
  obtain ⟨hs, rfl⟩ := handshaken_some hstep
  have hwork : s.workLeft = 26 := by
    unfold workLeft
    rw [hs]
  rw [hwork]
  obtain ⟨principal, -, he⟩ | ⟨stage, haway, he⟩ :=
    handshakeEnd_cases config instantMax s outcome id
  · rw [he]
    exact Nat.le_refl 26
  · rw [he, workLeft_of_done (done_of_away haway)]
    omega

theorem workLeft_of_registered (hstep : s.step config instantMax .registered = some s') :
    s'.workLeft + 1 = s.workLeft := by
  obtain ⟨hs, rfl⟩ := registered_some hstep
  have hwork : s.workLeft = 25 := by
    unfold workLeft
    rw [hs]
  rw [hwork]
  rfl

theorem workLeft_of_connected {now : ℕ} (h : s.Engaged)
    (hstep : s.step config instantMax (.connected now) = some s') :
    s'.workLeft + 1 ≤ s.workLeft := by
  obtain ⟨out, hs, hout, rfl⟩ := connected_some hstep
  have hidle : (s.withOut out).Idle :=
    (Outbound.lookup_of_step hout (by simp [OutAct.caller])).trans (h.idle (by rw [hs]; rfl))
  have hwork : s.workLeft = 24 := by
    unfold workLeft
    rw [hs]
  have hle : ((s.withOut out).enterLoop config instantMax now).workLeft ≤ 23 :=
    workLeft_enterLoop hidle
  omega

theorem workLeft_of_callbackReturned {pong : Bytes} (h : s.Engaged)
    (hstep : s.step config instantMax (.callbackReturned pong) = some s') :
    s'.workLeft + 1 ≤ s.workLeft := by
  obtain ⟨callback, hs, hnext⟩ := callbackReturned_some hstep
  have hwork : s.workLeft = 5 * s.pingsLeft + 13 := by
    unfold workLeft
    rw [hs]
  obtain ⟨-, rfl⟩ | ⟨-, hbegin⟩ | ⟨why, -, rfl⟩ := hnext
  · have hle : (s.loopHead config instantMax).workLeft ≤ 5 * s.pingsLeft + 8 :=
      workLeft_loopHead (h.idle (by rw [hs]; rfl))
    omega
  · have hstage : s'.stage = .ponging := begin_stage hbegin
    have hleft : s'.callLeft = 4 := callLeft_of_begin hbegin
    have hvars : s'.vars = s.vars := by
      obtain ⟨-, -, rfl⟩ := begin_some hbegin
      rfl
    have hping := pingsLeft_of_vars hvars
    have hwork' : s'.workLeft = 5 * s'.pingsLeft + s'.callLeft + 8 := by
      unfold workLeft
      rw [hstage]
    omega
  · have hleft : (s.goto (.ended why)).LoopLeft := loopLeft_ended
    have hle := workLeft_of_loopLeft hleft
    omega

theorem workLeft_of_callbackPanicked (hover : s.stage.loopOver = false)
    (hstep : s.step config instantMax .callbackPanicked = some s') :
    s'.workLeft + 1 ≤ s.workLeft := by
  obtain ⟨hs, out, -, rfl⟩ | ⟨⟨callback, hs⟩ | hs, rfl⟩ := callbackPanicked_some hstep
  · rw [workLeft_of_done (s := (s.withOut out).goto (.panicked .callback)) rfl]
    unfold workLeft
    rw [hs]
    exact Nat.le_add_left 1 _
  · rw [workLeft_of_done (s := s.goto (.panicked .callback)) rfl]
    unfold workLeft
    rw [hs]
    exact Nat.le_add_left 1 _
  · rw [hs] at hover
    cases hover

theorem workLeft_of_ponging (h : s.Engaged) (hs : s.stage = .ponging)
    (hstep : s.step config instantMax .taskStep = some s') : s'.workLeft + 1 ≤ s.workLeft := by
  have hengaged := h.step hstep
  have hwork : s.workLeft = 5 * s.pingsLeft + s.callLeft + 8 := by
    unfold workLeft
    rw [hs]
  obtain ⟨hstage, hvars, hleft⟩ | ⟨out, failed, rfl, hleft⟩ := callLeft_of_taskStep hstep
  · have hwork' : s'.workLeft = 5 * s'.pingsLeft + s'.callLeft + 8 := by
      unfold workLeft
      rw [hstage, hs]
    have hping := pingsLeft_of_vars hvars
    omega
  · have he : (s.withOut out).callReturned config instantMax failed
        = (s.withOut out).loopHead config instantMax := by
      unfold callReturned
      rw [withOut_stage, hs]
    rw [he] at hengaged ⊢
    have hle : ((s.withOut out).loopHead config instantMax).workLeft ≤ 5 * s.pingsLeft + 8 := by
      obtain hl | ⟨call, hl⟩ := loopHead_cases config instantMax (s.withOut out)
      · rw [hl] at hengaged ⊢
        have hwaiting' : ((s.withOut out).goto .selecting).Waiting := .inl rfl
        rw [workLeft_of_waiting hwaiting', callLeft_of_idle (hengaged.idle rfl)]
        exact Nat.le_refl _
      · rw [hl, workLeft_of_done rfl]
        exact Nat.zero_le _
    omega

/-- The task's own steps use up what it has left to do, unless it reads. -/
theorem workLeft_of_step (h : s.Engaged)
    (hmissed : s.Waiting → s.vars.missedHeartbeats ≤ MAX_MISSED_HEARTBEATS)
    (hstep : s.step config instantMax act = some s')
    (hread : ∀ now result, act ≠ .read now result) :
    s'.workLeft + (if act.own = true then 1 else 0) ≤ s.workLeft := by
  by_cases hover : s.stage.loopOver = true
  · rw [workLeft_of_loopOver hover, workLeft_of_loopOver (loopOver_of_step hover hstep)]
    exact rest_of_step h hover hstep
  by_cases hwaiting : s.Waiting
  · exact workLeft_of_waiting_step h hwaiting (hmissed hwaiting) hstep hread
  have hnot {stage : Stage} (hs : s.stage = stage) (hloop : stage.loopOver = true) : False := by
    rw [hs] at hover
    exact hover hloop
  cases act with
  | outside a => exact Nat.le_of_eq (workLeft_of_outside hstep)
  | handshaken outcome id => exact workLeft_of_handshaken hstep
  | registered => exact Nat.le_of_eq (workLeft_of_registered hstep)
  | connected now => exact workLeft_of_connected h hstep
  | tick => exact absurd (.inl (tick_some hstep).1) hwaiting
  | evicted =>
      obtain ⟨out, hs, -, -⟩ := evicted_some hstep
      exact absurd (.inl hs) hwaiting
  | idle => exact absurd (.inl (idle_some hstep).1) hwaiting
  | read now result => exact absurd rfl (hread now result)
  | callbackReturned pong => exact workLeft_of_callbackReturned h hstep
  | callbackPanicked => exact workLeft_of_callbackPanicked (by simpa using hover) hstep
  | taskStep =>
      have hcalling := h.calls hstep
      cases hs : s.stage with
      | ponging => exact workLeft_of_ponging h hs hstep
      | pinging => exact absurd (.inr hs) hwaiting
      | closing => exact (hnot hs rfl).elim
      | marking => exact (hnot hs rfl).elim
      | _ =>
          rw [hs] at hcalling
          cases hcalling
  | teardown =>
      obtain ⟨⟨why, hs⟩, -⟩ := teardown_some hstep
      exact (hnot hs rfl).elim
  | joined => exact (hnot (joined_some hstep).1 rfl).elim
  | timedOut => exact (hnot (timedOut_some hstep).1 rfl).elim
  | disconnected => exact (hnot (disconnected_some hstep).1 rfl).elim

theorem Reached.missed_le (h : s.Reached config instantMax) (hwaiting : s.Waiting) :
    s.vars.missedHeartbeats ≤ MAX_MISSED_HEARTBEATS := by
  obtain ⟨acts, hrun⟩ := h
  have hbeats := beats_of_exec hrun
  unfold Beats at hbeats
  obtain hs | hs := hwaiting
  · rw [hs] at hbeats
    rw [hbeats.2.2.missed_eq]
    exact hbeats.2.2.missed_le
  · rw [hs] at hbeats
    rw [hbeats.2.2.missed_eq]
    exact hbeats.2.2.missed_le

theorem callLeft_le : s.callLeft ≤ 4 := by
  unfold callLeft
  cases s.out.pool.threads.lookup .task with
  | none => exact Nat.zero_le 4
  | some f =>
      have hleft : f.pc.left ≤ 4 := by
        cases f.pc with
        | sendCheck m => exact Nat.le_refl 4
        | sendTry m => exact Nat.le_succ 3
        | closeState => exact Nat.le_succ 3
        | evictState m => exact Nat.le_add_right 2 2
        | closeTry => exact Nat.le_add_right 2 2
        | _ => exact Nat.le_add_right 1 3
      exact hleft

theorem workLeft_le : s.workLeft ≤ 28 := by
  have hpings : s.pingsLeft ≤ 3 := pingsLeft_le
  have hcall : s.callLeft ≤ 4 := callLeft_le
  unfold workLeft rest
  split
  all_goals first
    | omega
    | (unfold Stage.rest; split <;> omega)

end Session

/-! ### What a task has left to do -/

/-- A step of the task itself, but for those of its calls of the room manager. -/
def TaskAct.own : TaskAct → Bool
  | .session act => act.own
  | .leave => false
  | .room => false
  | _ => true

/-- The task calls the room manager, or goes on with its call. -/
def TaskAct.calls : TaskAct → Bool
  | .leave => true
  | .room => true
  | _ => false

/-- The task reads. -/
def TaskAct.reads : TaskAct → Bool
  | .session (.read _ _) => true
  | _ => false

namespace ServerTask

variable {config : WebSocketServerConfig} {authorizer : HandshakeAuthorizer} {instantMax : ℕ}
  {t t' : ServerTask} {act : TaskAct}

/-- The callback of the handshake can still be called. -/
def Unasked (t : ServerTask) : Prop :=
  t.session.stage = .handshaking ∧ t.handshake.request = none

instance (t : ServerTask) : Decidable t.Unasked := inferInstanceAs (Decidable (_ ∧ _))

/-- How many steps of its own the task makes at most if nothing more is read: those of its
connection, the callback of its handshake, and the end of its slot. -/
def workLeft (t : ServerTask) : ℕ :=
  t.session.workLeft + (if t.Unasked then 1 else 0) + t.holdsSlot.toNat

theorem callback_request (policy : OriginPolicy) (h : Handshake) (request : HandshakeRequest) :
    (h.callback policy authorizer request).request = some request := by
  unfold Handshake.callback
  cases policy.check request with
  | error rejection => rfl
  | ok u =>
      cases authorizer request with
      | error rejection => rfl
      | ok principal => rfl

theorem handshaking_of_step {a : SessionAct} {s s' : Session}
    (hstep : s.step config instantMax a = some s') (h : s'.stage = .handshaking) :
    s.stage = .handshaking := by
  obtain hsame | hunderway | ⟨hs, -⟩ | ⟨-, hs'⟩ := Session.stage_of_step hstep
  · rw [← hsame, h]
  · rw [h] at hunderway
    cases hunderway
  · exact hs
  · rw [h] at hs'
    cases hs'

/-- The task's own steps use up what it has left to do, unless it reads. -/
theorem workLeft_of_step (h : t.session.Reached config instantMax)
    (hstep : t.step config authorizer instantMax act = some t') (hread : act.reads = false) :
    t'.workLeft + (if act.own = true then 1 else 0) ≤ t.workLeft := by
  have hsession {a : SessionAct} (ha : t.session.step config instantMax a = some t'.session)
      (hread' : ∀ now result, a ≠ .read now result)
      (hrequest : t'.handshake.request = t.handshake.request)
      (hholds : t'.holdsSlot = t.holdsSlot) :
      t'.workLeft + (if a.own = true then 1 else 0) ≤ t.workLeft := by
    have hwork := Session.workLeft_of_step h.engaged h.missed_le ha hread'
    have hunasked : (if t'.Unasked then 1 else 0) ≤ (if t.Unasked then 1 else 0) := by
      by_cases hu : t'.Unasked
      · have hu' : t.Unasked := ⟨handshaking_of_step ha hu.1, hrequest ▸ hu.2⟩
        rw [if_pos hu, if_pos hu']
      · rw [if_neg hu]
        exact Nat.zero_le _
    unfold workLeft
    rw [hholds]
    omega
  cases act with
  | callback request =>
      obtain ⟨hs, hnone, rfl⟩ := callback_some hstep
      have hunasked : t.Unasked := ⟨hs, hnone⟩
      have hasked : ¬ Unasked { t with
          handshake := t.handshake.callback config.originPolicy authorizer request } := by
        intro hu
        have hnone' := hu.2
        rw [callback_request] at hnone'
        cases hnone'
      unfold workLeft
      rw [if_pos hunasked, if_neg hasked]
      show t.session.workLeft + 0 + t.holdsSlot.toNat + 1 ≤ t.session.workLeft + 1 + _
      omega
  | upgraded outcome id =>
      obtain ⟨ha, hhandshake, hholds⟩ := upgraded_some hstep
      refine hsession ha (by simp) ?_ hholds
      rw [hhandshake, Handshake.finish_request]
  | session a =>
      obtain ⟨-, ha, hhandshake, hholds⟩ := session_some hstep
      refine hsession ha ?_ (by rw [hhandshake]) hholds
      rintro now result rfl
      cases hread
  | leave =>
      obtain ⟨-, rfl⟩ := leave_some hstep
      exact Nat.le_refl _
  | room =>
      obtain rfl := room_some hstep
      exact Nat.le_refl _
  | release =>
      obtain ⟨-, hholds, rfl⟩ := release_some hstep
      have hone : t.workLeft = t.session.workLeft + (if t.Unasked then 1 else 0) + 1 := by
        unfold workLeft
        rw [hholds]
        rfl
      rw [hone]
      exact Nat.le_refl _

/-- How many steps a call of the room manager has left until its last one. -/
def callSteps : RoomPc → ℕ
  | .registerConnections _ => 1
  | .unregisterIndex _ => 1
  | .unregisterGet _ _ rest => 3 * rest.length + 3
  | .unregisterLeave _ _ rest => 3 * rest.length + 2
  | .unregisterPrune _ _ rest => 3 * rest.length + 1
  | _ => 0

theorem callSteps_unregisterNext (c : ConnectionId) (rest : List RoomId) :
    callSteps (unregisterNext c rest) = 3 * rest.length := by
  cases rest with
  | nil => rfl
  | cons r rest => rfl

/-- An operation that does not end the call leaves one step less, or as many as it takes for the
rooms that are handed out. -/
theorem callSteps_of_roomStep {i : ℕ} {maps maps' : RoomMaps} {order : List String}
    {pc pc' : RoomPc} (h : t.CallsAt i (some pc))
    (hop : roomStep order maps pc = some (maps', .inl pc')) :
    callSteps pc' + 1 ≤ callSteps pc + 3 * order.length := by
  obtain ⟨who, -, ⟨-, rfl | rfl⟩ | ⟨-, hpc⟩⟩ := h
  · cases hop
    exact Nat.le_add_right 1 _
  · cases hop
  · cases pc with
    | unregisterIndex c =>
        simp only [roomStep] at hop
        split at hop
        · cases hop
          exact Nat.le_add_right 1 _
        · split_ifs at hop
          cases hop
          rw [callSteps_unregisterNext]
          exact Nat.le_of_eq (Nat.add_comm _ _)
    | unregisterGet c r rest =>
        simp only [roomStep] at hop
        split at hop
        · cases hop
          simp only [callSteps]
          omega
        · cases hop
          simp only [callSteps]
          omega
    | unregisterLeave c room rest =>
        cases hop
        simp only [callSteps]
        omega
    | unregisterPrune c r rest =>
        cases hop
        rw [callSteps_unregisterNext]
        simp only [callSteps]
        omega
    | unregisterConnections c => cases hop
    | _ => cases hpc

/-- How many steps of its calls of the room manager the task has left, but for the last one of each
and as long as no rooms are handed out to it: one of the registration, the beginning of the
unregistration, and one of that. -/
def callsLeft (t : ServerTask) (call : Option RoomPc) : ℕ :=
  match t.session.stage with
  | .handshaking => 3
  | .registering => call.elim 0 callSteps + 2
  | .disconnecting => call.elim 2 callSteps
  | stage => if stage.done = true then 0 else 2

theorem callsLeft_of_done {call : Option RoomPc} (h : t.session.stage.done = true) :
    t.callsLeft call = 0 := by
  unfold callsLeft
  cases hs : t.session.stage with
  | refused => rfl
  | finished => rfl
  | panicked why => rfl
  | _ =>
      rw [hs] at h
      cases h

theorem callsLeft_of_moves {a : SessionAct}
    (h : t'.session.stage = t.session.stage ∨ t.session.stage.Moves a t'.session.stage)
    (hrooms : t.session.stage.inRooms = false) (hhandshaken : a.isHandshaken = false) :
    t'.callsLeft none ≤ t.callsLeft none := by
  obtain hsame | hmoves := h
  · unfold callsLeft
    rw [hsame]
  · generalize hs : t.session.stage = stage at hmoves hrooms
    generalize hs' : t'.session.stage = stage' at hmoves
    unfold callsLeft
    rw [hs, hs']
    cases hmoves with
    | upgraded => cases hhandshaken
    | refused => cases hhandshaken
    | registered => cases hrooms
    | disconnected => cases hrooms
    | panicked => exact Nat.zero_le _
    | _ => exact Nat.le_refl _

end ServerTask

/-- A step of a task, but for those of its calls of the room manager. -/
def ServeAct.own : ServeAct → Bool
  | .task _ act _ => act.own
  | _ => false

/-- Nothing is accepted and nothing is read. -/
def ServeAct.quiet : ServeAct → Bool
  | .accept _ => false
  | .task _ act _ => !act.reads
  | _ => true

/-- Task `i` calls the room manager, or goes on with its call. -/
def ServeAct.calls (i : ℕ) : ServeAct → Bool
  | .task j act _ => decide (j = i) && act.calls
  | _ => false

/-- How many rooms are handed out to task `i` as those of its connection. -/
def ServeAct.handedOut (i : ℕ) : ServeAct → ℕ
  | .task j .room order => if j = i then order.length else 0
  | _ => 0

namespace Serve

variable {config : WebSocketServerConfig} {authorizer : HandshakeAuthorizer} {instantMax : ℕ}
  {s s' : Serve}

/-! ### What the server has left to do -/

/-- How many steps the tasks make at most if nothing more is accepted or read. -/
def workLeft (s : Serve) : ℕ := s.tasks.total ServerTask.workLeft

/-- How many steps of its calls of the room manager task `i` has left. -/
def callsLeft (i : ℕ) (s : Serve) : ℕ :=
  (s.tasks.lookup i).elim 0 fun t => t.callsLeft (s.rooms.threads.lookup (.task i))

/-- The steps of the tasks use up what they have left to do. -/
theorem workLeft_of_step {act : ServeAct} (h : s.Sessions config instantMax)
    (hstep : s.step config authorizer instantMax act = some s') (hquiet : act.quiet = true) :
    s'.workLeft + (if act.own = true then 1 else 0) ≤ s.workLeft := by
  unfold workLeft
  obtain ⟨i, rfl, -⟩ | ⟨rfl | rfl, rfl⟩ | ⟨i, a, order, t, t', rfl, hi, htask, hshared⟩ |
    ⟨_, _, rfl, -, -, rfl⟩ | ⟨_, _, _, _, rfl, -, -, rfl⟩ := step_cases hstep
  · cases hquiet
  · exact Nat.le_refl _
  · exact Nat.le_refl _
  · have hread : a.reads = false := by
      simpa [ServeAct.quiet] using hquiet
    have hwork := ServerTask.workLeft_of_step (h i t hi) htask hread
    rw [shared_tasks hshared, KeyMap.total_of_lookup hi, KeyMap.total_insert]
    show _ + (if a.own = true then 1 else 0) ≤ _
    omega
  · exact Nat.le_refl _
  · exact Nat.le_refl _

/-- Steps of the session that are none of the room manager leave the task's calls to it as they
are, or end it. -/
theorem callsLeft_of_session {i : ℕ} {t t' : ServerTask} {act : SessionAct} (order : List String)
    (h : s.Coupled config authorizer instantMax) (ht : s.tasks.lookup i = some t)
    (htask : t.step config authorizer instantMax (.session act) = some t')
    (hoperates : (TaskAct.session act).operates = false) :
    t'.callsLeft (s.rooms.threads.lookup (.task i)) +
        (if (TaskAct.session act).calls = true then 1 else 0) ≤
      t.callsLeft (s.rooms.threads.lookup (.task i)) +
        3 * ServeAct.handedOut i (.task i (.session act) order) := by
  obtain ⟨hhandshaken, hsession, -⟩ := ServerTask.session_some htask
  show t'.callsLeft _ ≤ t.callsLeft _
  cases hrooms : t.session.stage.inRooms with
  | true =>
      obtain ⟨-, hsame⟩ | rfl | rfl | rfl :=
        Session.step_in_rooms (h.sessions i t ht).engaged hrooms hsession
      · unfold ServerTask.callsLeft
        rw [hsame]
      · cases hoperates
      · cases hoperates
      · have hdone : t'.session.stage.done = true := by
          obtain ⟨-, out, -, he⟩ | ⟨-, he⟩ := Session.callbackPanicked_some hsession <;>
            rw [he] <;> rfl
        rw [ServerTask.callsLeft_of_done hdone]
        exact Nat.zero_le _
  | false =>
      rw [(h.callsAt i t ht).idle hrooms]
      exact ServerTask.callsLeft_of_moves (Session.stage_moves hsession) hrooms hhandshaken

/-- An operation of a call that goes on is one of those left, and each room handed out makes for
three more. -/
theorem ServerTask.callsLeft_of_continues {i : ℕ} {t : ServerTask} {pc pc' : RoomPc}
    {order : List String} {maps maps' : RoomMaps} (hat : t.CallsAt i (some pc))
    (hop : roomStep order maps pc = some (maps', .inl pc')) :
    t.callsLeft (some pc') + 1 ≤ t.callsLeft (some pc) + 3 * order.length := by
  have hsteps := ServerTask.callSteps_of_roomStep hat hop
  obtain ⟨who, -, ⟨hstage, -⟩ | ⟨hstage, -⟩⟩ := hat
  · unfold ServerTask.callsLeft
    rw [hstage]
    show ServerTask.callSteps pc' + 2 + 1 ≤ ServerTask.callSteps pc + 2 + _
    omega
  · unfold ServerTask.callsLeft
    rw [hstage]
    exact hsteps

/-- The operation at the end of a call is one of those left. -/
theorem ServerTask.callsLeft_of_returns {t t' : ServerTask} {a : TaskAct} {pc : RoomPc}
    (htask : t.step config authorizer instantMax a = some t') (hreturns : a.returns = true) :
    t'.callsLeft none + (if a.calls = true then 1 else 0) ≤ t.callsLeft (some pc) := by
  cases a with
  | session act =>
      obtain ⟨-, hsession, -⟩ := ServerTask.session_some htask
      cases act with
      | registered =>
          obtain ⟨hstage, he⟩ := Session.registered_some hsession
          have hstage' : t'.session.stage = .connecting := by rw [he]; rfl
          unfold ServerTask.callsLeft
          rw [hstage, hstage']
          exact Nat.le_add_left 2 _
      | disconnected =>
          obtain ⟨-, he⟩ := Session.disconnected_some hsession
          rw [ServerTask.callsLeft_of_done (by rw [he]; rfl)]
          exact Nat.zero_le _
      | _ => cases hreturns
  | _ => cases hreturns

/-- The steps of a task's calls of the room manager use up those that it has left, and the rooms
that are handed out to it make for three more each. -/
theorem callsLeft_of_task {i : ℕ} {t t' : ServerTask} {a : TaskAct} {order : List String}
    (h : s.Coupled config authorizer instantMax) (ht : s.tasks.lookup i = some t)
    (htask : t.step config authorizer instantMax a = some t')
    (hshared : { s with tasks := s.tasks.insert i t' }.shared i t t' order a = some s') :
    t'.callsLeft (s'.rooms.threads.lookup (.task i)) + (if a.calls = true then 1 else 0) ≤
      t.callsLeft (s.rooms.threads.lookup (.task i)) +
        3 * ServeAct.handedOut i (.task i a order) := by
  have hat := h.callsAt i t ht
  obtain ⟨outcome, id, who, rfl, hwho, -, rfl⟩ | ⟨who, rfl, -, hidle, rfl⟩ |
    ⟨pc, next, hpc, hop, rfl, ⟨rfl, pc', rfl⟩ | ⟨hreturns, reply, rfl⟩⟩ | ⟨rfl, rfl⟩ |
    ⟨hrelease, hleave, hoperates, rfl, -, -⟩ := shared_cases hshared
  · have hstage := (Session.handshaken_some (ServerTask.upgraded_some htask).1).1
    obtain ⟨principal, -, hstage'⟩ | ⟨hgone, -⟩ :=
      ServerTask.stage_of_upgraded (h.authorized.tasks i t ht) htask
    · show t'.callsLeft ((s.rooms.begun (.task i) _).threads.lookup (.task i)) + 0 ≤ _
      rw [lookup_begun, if_pos rfl]
      unfold ServerTask.callsLeft
      rw [hstage, hstage']
      exact Nat.le_refl 3
    · rw [hgone] at hwho
      cases hwho
  · obtain ⟨hstage, rfl⟩ := ServerTask.leave_some htask
    have hnone : s.rooms.threads.lookup (.task i) = none := hidle
    show t'.callsLeft ((s.rooms.begun (.task i) _).threads.lookup (.task i)) + 1 ≤ _
    rw [lookup_begun, if_pos rfl, hnone]
    unfold ServerTask.callsLeft
    rw [hstage]
    exact Nat.le_refl 2
  · obtain rfl := ServerTask.room_some htask
    have hpc' : s.rooms.threads.lookup (.task i) = some pc := hpc
    rw [hpc'] at hat
    have hhanded : ServeAct.handedOut i (.task i .room order) = order.length := if_pos rfl
    show t'.callsLeft ((s.rooms.moved (.task i) pc (.inl pc')).threads.lookup (.task i)) + 1 ≤ _
    rw [lookup_moved_self, hpc', hhanded]
    exact ServerTask.callsLeft_of_continues hat hop
  · have hpc' : s.rooms.threads.lookup (.task i) = some pc := hpc
    show t'.callsLeft ((s.rooms.moved (.task i) pc (.inr reply)).threads.lookup (.task i)) + _ ≤ _
    rw [lookup_moved_self, hpc']
    exact Nat.le_add_right_of_le (ServerTask.callsLeft_of_returns htask hreturns)
  · obtain ⟨hdone, -, rfl⟩ := ServerTask.release_some htask
    rw [ServerTask.callsLeft_of_done (t := { t with holdsSlot := false }) hdone]
    exact Nat.zero_le _
  · cases a with
    | callback request =>
        obtain ⟨-, -, rfl⟩ := ServerTask.callback_some htask
        exact Nat.le_refl _
    | upgraded outcome id =>
        obtain ⟨principal, hwho, hstage'⟩ | ⟨-, haway⟩ :=
          ServerTask.stage_of_upgraded (h.authorized.tasks i t ht) htask
        · have hstage := (Session.handshaken_some (ServerTask.upgraded_some htask).1).1
          have hidle := hat.idle (by rw [hstage]; rfl)
          show t'.callsLeft (s.rooms.threads.lookup (.task i)) + 0 ≤ _
          rw [hidle]
          unfold ServerTask.callsLeft
          rw [hstage, hstage']
          exact Nat.le_succ 2
        · rw [ServerTask.callsLeft_of_done (Session.done_of_away haway)]
          exact Nat.zero_le _
    | session act =>
        exact callsLeft_of_session (s := s) order h ht htask hoperates
    | leave => exact absurd rfl hleave
    | room => cases hoperates
    | release => exact absurd rfl hrelease

theorem callsLeft_of_step {act : ServeAct} (i : ℕ) (h : s.Coupled config authorizer instantMax)
    (hstep : s.step config authorizer instantMax act = some s') (hquiet : act.quiet = true) :
    callsLeft i s' + (if act.calls i = true then 1 else 0) ≤
      callsLeft i s + 3 * act.handedOut i := by
  obtain ⟨hact, hsame, hthread⟩ | ⟨rfl, -⟩ | ⟨a, order, t, t', rfl, ht, htask, ht', hshared⟩ :=
    task_of_step hstep i
  · have hcalls : act.calls i = false := by
      cases act with
      | task j a order =>
          have hne : j ≠ i := by
            rintro rfl
            exact hact _ _ rfl
          simp [ServeAct.calls, hne]
      | _ => rfl
    unfold callsLeft
    rw [hsame, hthread, hcalls]
    exact Nat.le_add_right _ _
  · cases hquiet
  · have hle := callsLeft_of_task h ht htask hshared
    have hcalls : ServeAct.calls i (.task i a order) = a.calls := by
      simp [ServeAct.calls]
    unfold callsLeft
    rw [ht, ht', hcalls]
    exact hle

theorem workLeft_le (h : s.Slots config) : s.workLeft ≤ 29 * s.held := by
  have htask (i : ℕ) (t : ServerTask) (ht : s.tasks.lookup i = some t) :
      t.workLeft ≤ if t.holdsSlot = true then 29 else 0 := by
    unfold ServerTask.workLeft
    cases hholds : t.holdsSlot with
    | true =>
        have hsession : t.session.workLeft ≤ 28 := Session.workLeft_le
        have hone : true.toNat = 1 := rfl
        by_cases hunasked : t.Unasked
        · have hwork : t.session.workLeft = 26 := by
            unfold Session.workLeft
            rw [hunasked.1]
          rw [if_pos hunasked, if_pos rfl]
          omega
        · rw [if_neg hunasked, if_pos rfl]
          omega
    | false =>
        have hdone := h.kept i t ht hholds
        have hunasked : ¬ t.Unasked := by
          intro hunasked
          rw [hunasked.1] at hdone
          cases hdone
        rw [if_neg hunasked, Session.workLeft_of_done hdone]
        exact Nat.zero_le _
  refine (KeyMap.total_le htask).trans (Nat.le_of_eq ?_)
  exact KeyMap.total_ite s.tasks (·.holdsSlot) 29

/-! ### What a task can do -/

/-- Task `i` can take a step that is not a read. -/
def CanStep (config : WebSocketServerConfig) (authorizer : HandshakeAuthorizer) (instantMax : ℕ)
    (i : ℕ) (s : Serve) : Prop :=
  ∃ a order s', (TaskAct.own a = true ∨ a.calls = true) ∧ a.reads = false ∧
    s.step config authorizer instantMax (.task i a order) = some s'

/-- A step of a task can be taken when the task can take it, and what it shares allows it. -/
theorem canStep_of_task {i : ℕ} {t t' : ServerTask} {a : TaskAct} (order : List String)
    (ht : s.tasks.lookup i = some t) (htask : t.step config authorizer instantMax a = some t')
    (hact : TaskAct.own a = true ∨ a.calls = true) (hread : a.reads = false)
    (hshared : ∃ s', { s with tasks := s.tasks.insert i t' }.shared i t t' order a = some s') :
    s.CanStep config authorizer instantMax i := by
  obtain ⟨s', hs'⟩ := hshared
  refine ⟨a, order, s', hact, hread, ?_⟩
  simp only [step, ht, htask]
  exact hs'

/-- A task in no call of the room manager can do what its session waits for, unless that is such a
call. -/
theorem canStep_of_awaits {i : ℕ} {t : ServerTask} {a : SessionAct}
    (h : s.Coupled config authorizer instantMax) (ht : s.tasks.lookup i = some t)
    (hawaits : t.session.stage.Awaits a) (hown : a.own = true)
    (hrooms : t.session.stage.inRooms = false) (hhandshaken : a.isHandshaken = false)
    (hread : TaskAct.reads (.session a) = false) (hevicted : a ≠ .evicted) (hjoined : a ≠ .joined) :
    s.CanStep config authorizer instantMax i := by
  obtain ⟨session, hsession⟩ : ∃ session, t.session.step config instantMax a = some session :=
    (h.sessions i t ht).engaged.step_of_awaits hawaits (fun he => absurd he hevicted) fun he =>
      absurd he hjoined
  have htask : t.step config authorizer instantMax (.session a)
      = some { t with session := session } := by
    simp only [ServerTask.step]
    rw [if_neg (by simp [hhandshaken]), hsession]
    rfl
  refine canStep_of_task [] ht htask (.inl hown) hread ?_
  generalize hstage : t.session.stage = stage at hawaits hrooms
  cases hawaits with
  | registered => cases hrooms
  | disconnected => cases hrooms
  | _ => exact ⟨_, rfl⟩

theorem canStep_of_operation {i : ℕ} {t : ServerTask} {pc : RoomPc} {order : List String}
    {next : RoomPc ⊕ RoomReply} (h : s.Coupled config authorizer instantMax)
    (ht : s.tasks.lookup i = some t) (hpc : s.rooms.threads.lookup (.task i) = some pc)
    (hop : roomStep order s.rooms.shared pc = some (pc.after s.rooms.shared, next)) :
    s.CanStep config authorizer instantMax i := by
  have hoperate (t' : ServerTask) : ∃ s', ({ s with tasks := s.tasks.insert i t' } : Serve).operate
      (.task i) order = some s' ∧ s'.calls (.task i) = next.isLeft := by
    have hmoved : s.rooms.step (.step (.task i) order) = some (s.rooms.moved (.task i) pc next) :=
      advance_eq_some_iff.mpr ⟨pc, _, next, hpc, hop, rfl⟩
    have hcalls : (({ s with tasks := s.tasks.insert i t' } : Serve).operated (.task i) pc
        next).calls (.task i) = next.isLeft := calls_operated
    refine ⟨_, ?_, hcalls⟩
    simp only [operate, hmoved, hpc]
    rfl
  have hat := h.callsAt i t ht
  rw [hpc] at hat
  cases next with
  | inl pc' =>
      obtain ⟨s', hs', hcalls⟩ := hoperate t
      refine canStep_of_task (a := .room) order ht rfl (.inr rfl) rfl ⟨s', ?_⟩
      exact Option.filter_eq_some_iff.mpr ⟨hs', hcalls⟩
  | inr reply =>
      have hreturned {a : SessionAct} {session : Session}
          (hsession : t.session.step config instantMax a = some session)
          (ha : a = .registered ∨ a = .disconnected) :
          s.CanStep config authorizer instantMax i := by
        obtain ⟨s', hs', hcalls⟩ := hoperate { t with session := session }
        have hfilter : Option.filter (fun s' : Serve => !s'.calls (.task i))
            (({ s with tasks := s.tasks.insert i { t with session := session } } : Serve).operate
              (.task i) order) = some s' :=
          Option.filter_eq_some_iff.mpr ⟨hs', by rw [hcalls]; rfl⟩
        have htask : t.step config authorizer instantMax (.session a)
            = some { t with session := session } := by
          simp only [ServerTask.step]
          rw [if_neg (by obtain rfl | rfl := ha <;> simp [SessionAct.isHandshaken]), hsession]
          rfl
        obtain rfl | rfl := ha
        · exact canStep_of_task order ht htask (.inl rfl) rfl ⟨s', hfilter⟩
        · exact canStep_of_task order ht htask (.inl rfl) rfl ⟨s', hfilter⟩
      obtain ⟨who, -, ⟨hs, -⟩ | ⟨hs, -⟩⟩ := hat
      · obtain ⟨session, hsession⟩ : ∃ session,
            t.session.step config instantMax .registered = some session := by
          simp only [Session.step, hs]
          exact ⟨_, rfl⟩
        exact hreturned hsession (.inl rfl)
      · obtain ⟨session, hsession⟩ : ∃ session,
            t.session.step config instantMax .disconnected = some session := by
          simp only [Session.step, hs]
          exact ⟨_, rfl⟩
        exact hreturned hsession (.inr rfl)

theorem operation_enabled {i : ℕ} {t : ServerTask} {pc : RoomPc} (maps : RoomMaps)
    (h : t.CallsAt i (some pc)) :
    ∃ order next, roomStep order maps pc = some (pc.after maps, next) := by
  have hstep {order : List String} {maps' : RoomMaps} {next : RoomPc ⊕ RoomReply}
      (hop : roomStep order maps pc = some (maps', next)) :
      ∃ order next, roomStep order maps pc = some (pc.after maps, next) := by
    obtain rfl := roomStep_maps hop
    exact ⟨order, next, hop⟩
  obtain ⟨who, -, ⟨-, rfl | rfl⟩ | ⟨-, hpc⟩⟩ := h
  · exact ⟨[], _, rfl⟩
  · exact ⟨[], _, rfl⟩
  · cases pc with
    | unregisterIndex c =>
        cases hrooms : maps.connectionRooms.lookup c with
        | none =>
            have hop : roomStep [] maps (.unregisterIndex c)
                = some (maps, .inl (.unregisterConnections c)) := by
              simp only [roomStep, hrooms]
            exact hstep hop
        | some rooms =>
            obtain ⟨order, horder⟩ := KeyMap.exists_enumerates rooms
            have hop : roomStep order maps (.unregisterIndex c)
                = some ({ maps with connectionRooms := maps.connectionRooms.erase c },
                  .inl (unregisterNext c order)) := by
              simp only [roomStep, hrooms]
              exact if_pos horder
            exact hstep hop
    | unregisterGet c r rest =>
        cases hr : maps.rooms.lookup r with
        | none =>
            have hop : roomStep [] maps (.unregisterGet c r rest)
                = some (maps, .inl (.unregisterPrune c r rest)) := by
              simp only [roomStep, hr]
            exact hstep hop
        | some a =>
            have hop : roomStep [] maps (.unregisterGet c r rest)
                = some (maps, .inl (.unregisterLeave c ⟨r, a⟩ rest)) := by
              simp only [roomStep, hr]
            exact hstep hop
    | unregisterLeave c room rest => exact ⟨[], _, rfl⟩
    | unregisterPrune c r rest => exact ⟨[], _, rfl⟩
    | unregisterConnections c => exact ⟨[], _, rfl⟩
    | _ => cases hpc

/-- A task that holds its slot has something to do. -/
theorem Coupled.goes_on {i : ℕ} {t : ServerTask} (h : s.Coupled config authorizer instantMax)
    (ht : s.tasks.lookup i = some t) (hholds : t.holdsSlot = true) :
    s.CanStep config authorizer instantMax i := by
  cases hpc : s.rooms.threads.lookup (.task i) with
  | some pc =>
      have hat := h.callsAt i t ht
      rw [hpc] at hat
      obtain ⟨order, next, hop⟩ := operation_enabled s.rooms.shared hat
      exact canStep_of_operation h ht hpc hop
  | none =>
      have hat := h.callsAt i t ht
      rw [hpc] at hat
      have hsession {stage : Stage} {a : SessionAct} (hs : t.session.stage = stage)
          (hawaits : stage.Awaits a) (hown : a.own = true) (hrooms : stage.inRooms = false)
          (hhandshaken : a.isHandshaken = false) (hread : TaskAct.reads (.session a) = false)
          (hevicted : a ≠ .evicted) (hjoined : a ≠ .joined) :
          s.CanStep config authorizer instantMax i := by
        subst hs
        exact canStep_of_awaits h ht hawaits hown hrooms hhandshaken hread hevicted hjoined
      have hreleased (hdone : t.session.stage.done = true) :
          s.CanStep config authorizer instantMax i := by
        have htask : t.step config authorizer instantMax .release
            = some { t with holdsSlot := false } := by
          simp only [ServerTask.step, hdone, hholds]
          rfl
        exact canStep_of_task [] ht htask (.inl rfl) rfl ⟨_, rfl⟩
      cases hs : t.session.stage with
      | registering => exact absurd hs hat
      | disconnecting =>
          obtain ⟨who, hwho⟩ : ∃ who, t.session.identity = some who := by
            cases hwho : t.session.identity with
            | some who => exact ⟨who, rfl⟩
            | none =>
                obtain he | hdone := (h.authorized.tasks i t ht).session.late hwho
                · rw [hs] at he
                  cases he
                · rw [hs] at hdone
                  cases hdone
          have htask : t.step config authorizer instantMax .leave = some t := by
            simp only [ServerTask.step, hs]
            rfl
          refine canStep_of_task [] ht htask (.inr rfl) rfl
            ⟨({ s with tasks := s.tasks.insert i t } : Serve).called (.task i)
              (.unregisterConnection who.id), ?_⟩
          have hstart : s.rooms.step (.start (.task i) (.unregisterConnection who.id))
              = some (s.rooms.begun (.task i) (.unregisterConnection who.id)) :=
            start_eq_some_iff.mpr ⟨hpc, rfl⟩
          simp only [shared, hwho, call, hstart]
          rfl
      | handshaking =>
          obtain ⟨t', ht'⟩ : ∃ t', t.step config authorizer instantMax (.upgraded .timedOut "")
              = some t' := by
            simp only [ServerTask.step, Session.step, hs]
            exact ⟨_, rfl⟩
          refine canStep_of_task [] ht ht' (.inl rfl) rfl ?_
          have hstart (who : Identity) :
              s.rooms.step (.start (.task i) (.registerConnection ⟨who.id, who.principal, i⟩))
                = some (s.rooms.begun (.task i) (.registerConnection ⟨who.id, who.principal, i⟩)) :=
            start_eq_some_iff.mpr ⟨hpc, rfl⟩
          simp only [shared]
          cases t'.session.identity with
          | none => exact ⟨_, rfl⟩
          | some who =>
              simp only [call, hstart]
              exact ⟨_, rfl⟩
      | connecting => exact hsession hs (.connected 0) rfl rfl rfl rfl (by simp) (by simp)
      | selecting => exact hsession hs .idle rfl rfl rfl rfl (by simp) (by simp)
      | pinging => exact hsession hs .pinging rfl rfl rfl rfl (by simp) (by simp)
      | handling callback =>
          exact hsession hs (.callback callback []) rfl rfl rfl rfl (by simp) (by simp)
      | ponging => exact hsession hs .ponging rfl rfl rfl rfl (by simp) (by simp)
      | ended why => exact hsession hs (.teardown why) rfl rfl rfl rfl (by simp) (by simp)
      | closing => exact hsession hs .closing rfl rfl rfl rfl (by simp) (by simp)
      | flushing => exact hsession hs .timedOut rfl rfl rfl rfl (by simp) (by simp)
      | marking => exact hsession hs .marking rfl rfl rfl rfl (by simp) (by simp)
      | refused => exact hreleased (hs ▸ rfl)
      | finished => exact hreleased (hs ▸ rfl)
      | panicked why => exact hreleased (hs ▸ rfl)

/-- **The slots come back**: from every state that the server reaches, in every run in which nothing
more is accepted and nothing is read, the tasks make at most 29 steps for each slot that was held,
but for those of their calls of the room manager, whatever the application, the writers and the
sinks do in between.  Of these a task makes as many as it had left, and at most three more for each
room that its connection is found to be in.  As long as not all slots are free, some task holds one,
and every task that does can make such a step. -/
theorem drains (config : WebSocketServerConfig) (authorizer : HandshakeAuthorizer)
    (instantMax : ℕ) (acts after : List ServeAct) (s s' : Serve)
    (hrun : exec (step config authorizer instantMax) (new config) acts = some s)
    (hafter : exec (step config authorizer instantMax) s after = some s')
    (hquiet : ∀ act ∈ after, act.quiet = true) :
    after.countP ServeAct.own ≤ 29 * s.held ∧ s'.held + s'.available = config.maxConnections ∧
      (∀ i, after.countP (ServeAct.calls i) ≤
        s.callsLeft i + 3 * (after.map (ServeAct.handedOut i)).sum) ∧
      (s'.available = config.maxConnections ∨
        ∃ i t, s'.tasks.lookup i = some t ∧ t.holdsSlot = true) ∧
      ∀ i t, s'.tasks.lookup i = some t → t.holdsSlot = true →
        s'.CanStep config authorizer instantMax i := by
  have hcoupled : s.Coupled config authorizer instantMax := coupled_of_exec hrun
  have hslots : s.Slots config :=
    exec_invariant (P := Slots config) (fun _ _ _ h hs => h.step hs) slots_new hrun
  have hcoupled' : s'.Coupled config authorizer instantMax :=
    exec_invariant (P := Coupled config authorizer instantMax) (fun _ _ _ h hs => h.step hs)
      hcoupled hafter
  have hslots' : s'.Slots config :=
    exec_invariant (P := Slots config) (fun _ _ _ h hs => h.step hs) hslots hafter
  have hquiet' : Along (step config authorizer instantMax) (fun _ act _ => act.quiet = true) s
      after := along_of_forall_mem hquiet
  have hcount : after.countP ServeAct.own + s'.workLeft ≤ s.workLeft :=
    countP_add_le_along (P := Coupled config authorizer instantMax) workLeft ServeAct.own
      (fun _ _ _ h hs hq => ⟨h.step hs, workLeft_of_step h.sessions hs hq⟩) hcoupled hafter hquiet'
  have hwork : s.workLeft ≤ 29 * s.held := workLeft_le hslots
  refine ⟨by omega, hslots'.count, fun i => ?_, ?_, fun i t ht => hcoupled'.goes_on ht⟩
  · have hcalls := countP_add_le_gain (P := Coupled config authorizer instantMax) (callsLeft i)
      (ServeAct.calls i) (fun act => 3 * act.handedOut i)
      (fun _ _ _ h hs hq => ⟨h.step hs, callsLeft_of_step i h hs hq⟩) hcoupled hafter hquiet'
    rw [List.sum_map_mul_left] at hcalls
    omega
  · by_cases hfree : s'.available = config.maxConnections
    · exact .inl hfree
    · have hpos : 0 < s'.held := by
        have hcount' := hslots'.count
        omega
      obtain ⟨i, hi⟩ := Finset.card_pos.mp hpos
      obtain ⟨t, ht, hholds⟩ := mem_holders_iff.mp hi
      exact .inr ⟨i, t, ht, hholds⟩

/-- The handshake of one of the two connections times out, and the other one is pinged once and then
idle for too long; the application puts it into a room while it is torn down. -/
def timedOutAndIdle : List ServeAct :=
  [.task 1 (.upgraded .timedOut "") [], .task 0 (.session .tick) [], .task 1 .release [],
    .task 0 (.session .taskStep) [], .task 0 (.session .taskStep) [], .task 0 (.session .idle) [],
    .task 0 (.session .teardown) [], .task 0 (.session .taskStep) [],
    .app (.start 0 (.joinRoom "a" "r")), .app (.step 0 []), .app (.step 0 []), .app (.step 0 []),
    .app (.step 0 []), .task 0 (.session .taskStep) [], .task 0 (.session .timedOut) [],
    .task 0 (.session .taskStep) [], .task 0 .leave [], .task 0 .room ["r"], .task 0 .room [],
    .task 0 .room [], .task 0 .room [], .task 0 (.session .disconnected) [], .task 0 .release []]

theorem drains_timedOutAndIdle :
    ∃ s, exec (step .default AllowAnonymous (10 ^ 18)) (new .default) oneUpgraded = some s ∧
      ∃ s', exec (step .default AllowAnonymous (10 ^ 18)) s timedOutAndIdle = some s' ∧
        timedOutAndIdle.countP ServeAct.own ≤ 29 * s.held ∧ s.held = 2 ∧
        s'.available = 10000 ∧ timedOutAndIdle.countP (ServeAct.calls 0) ≤ 5 := by
  obtain ⟨s, hrun, hheld, hleft, s', hafter, hfree⟩ : ∃ s,
      exec (step .default AllowAnonymous (10 ^ 18)) (new .default) oneUpgraded = some s ∧
        s.held = 2 ∧ s.callsLeft 0 = 2 ∧ ∃ s',
          exec (step .default AllowAnonymous (10 ^ 18)) s timedOutAndIdle = some s' ∧
            s'.available = 10000 := by decide
  have h := drains _ _ _ _ _ s s' hrun hafter (by decide)
  refine ⟨s, hrun, s', hafter, h.1, hheld, hfree, ?_⟩
  have hcalls := h.2.2.1 0
  rw [hleft] at hcalls
  exact hcalls

end Serve
end ArmatureWebsocket
