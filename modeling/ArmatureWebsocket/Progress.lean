import ArmatureWebsocket.Eviction
import ArmatureWebsocket.Heartbeat
import ArmatureWebsocket.Teardown
import ArmatureWebsocket.Trace

/-! # The server's task is never stuck, and its teardown ends

A task that has not come to its end waits for one thing, or for one of several in its loop: the
answer of the handshake, the end of the registration, a branch of the loop, the next access of a
call of its own, the return of a callback, the end of the writer or the close timeout.  Whichever it
waits for, the step that it then does is enabled (`step_of_awaits`): its own calls never find the
connection's handles gone or another call of the task in progress.

Once the loop has ended every step of its own brings the task nearer to its end, so that at most
seven are left, whatever the others do in between (`teardown_ends`). -/

namespace ArmatureWebsocket

open Execution CallPool

/-- What the task does next, at each stage. -/
inductive Stage.Awaits : Stage → SessionAct → Prop where
  | handshake (outcome id) : Awaits .handshaking (.handshaken outcome id)
  | registered : Awaits .registering .registered
  | connected (now) : Awaits .connecting (.connected now)
  | tick : Awaits .selecting .tick
  | evicted : Awaits .selecting .evicted
  | idle : Awaits .selecting .idle
  | read (now result) : Awaits .selecting (.read now result)
  | pinging : Awaits .pinging .taskStep
  | ponging : Awaits .ponging .taskStep
  | callback (callback pong) : Awaits (.handling callback) (.callbackReturned pong)
  | teardown (why) : Awaits (.ended why) .teardown
  | closing : Awaits .closing .taskStep
  | joined : Awaits .flushing .joined
  | timedOut : Awaits .flushing .timedOut
  | marking : Awaits .marking .taskStep
  | disconnected : Awaits .disconnecting .disconnected

/-- A step of the task itself. -/
def SessionAct.own : SessionAct → Bool
  | .outside _ => false
  | _ => true

/-- The task is in a call of its own. -/
def Stage.calling : Stage → Bool
  | .pinging => true
  | .ponging => true
  | .closing => true
  | .marking => true
  | _ => false

/-- The writer has not been started. -/
def Stage.beforeLoop : Stage → Bool
  | .handshaking => true
  | .registering => true
  | .connecting => true
  | _ => false

theorem Stage.beforeLoop_of_calling {stage : Stage} (h : stage.calling = true) :
    stage.beforeLoop = false := by
  cases stage <;> first | rfl | cases h

theorem Stage.over_of_calling {stage : Stage} (h : stage.calling = true) : stage.over = false := by
  cases stage <;> first | rfl | cases h

theorem Stage.not_calling_of_done {stage : Stage} (h : stage.done = true) :
    stage.calling = false ∧ stage.beforeLoop = false := by
  cases stage <;> first | exact ⟨rfl, rfl⟩ | cases h

/-- How many accesses a call makes at most, from a point on. -/
def ConnPc.left : ConnPc → ℕ
  | .sendCheck _ => 4
  | .sendTry _ => 3
  | .evictState _ => 2
  | .evictNotify _ => 1
  | .closeState => 3
  | .closeTry => 2
  | .closeNotify => 1
  | .setState _ => 1

theorem ConnPc.left_pos (pc : ConnPc) : 0 < pc.left := by
  cases pc <;> exact Nat.succ_pos _

theorem left_of_next {who : Caller} {c : ConnectionCell} {pc pc' : ConnPc}
    (h : (connStep who c pc).2 = .inl pc') : pc'.left < pc.left := by
  obtain ⟨m, rfl, rfl, -⟩ | ⟨m, rfl, rfl, -⟩ | ⟨m, rfl, rfl⟩ | ⟨rfl, rfl⟩ | ⟨rfl, rfl, -⟩ :=
    connStep_next h
  · exact Nat.lt_succ_self 3
  · exact Nat.lt_succ_self 2
  · exact Nat.lt_succ_self 1
  · exact Nat.lt_succ_self 2
  · exact Nat.lt_succ_self 1

/-- How many steps of its own the task makes at most from a stage past the loop on, if that many
accesses of its call are left. -/
def Stage.rest (call : ℕ) : Stage → ℕ
  | .ended _ => 7
  | .closing => call + 3
  | .flushing => 3
  | .marking => call + 1
  | .disconnecting => 1
  | _ => 0

namespace Outbound

variable {o o' : Outbound}

theorem start_enabled {who : Caller} {call : ConnCall} (hmade : call.made = true)
    (hs : o.senders = true) (hwho : o.pool.threads.lookup who = none) :
    o.step (.start who call) = some { o with pool := o.pool.begun who call } := by
  have hpool : o.pool.step (.start who call) = some (o.pool.begun who call) := by
    simp only [ConnPool.step]
    rw [if_pos hmade]
    exact start_eq_some_iff.mpr ⟨hwho, rfl⟩
  simp only [step]
  rw [if_pos hs, hpool]
  rfl

theorem call_enabled {who : Caller} {f : InFlight} (hf : o.pool.threads.lookup who = some f) :
    ∃ o', o.step (.step who) = some o' := by
  obtain ⟨pool, hpool⟩ : ∃ pool, o.pool.step (.step who) = some pool := by
    simp only [ConnPool.step, advance, hf]
    exact ⟨_, rfl⟩
  refine ⟨{ o with pool := pool }, ?_⟩
  simp only [step]
  rw [hpool]
  rfl

/-- Only the end of the last handle takes the senders away. -/
theorem senders_of_step {act : OutAct} (h : o.step act = some o') (hact : act ≠ .dropSenders) :
    o'.senders = o.senders := by
  obtain ⟨who, call, pool, -, -, -, rfl⟩ | ⟨who, pool, -, -, rfl⟩ | ⟨-, -, rfl⟩ |
    ⟨e, tx, -, -, -, rfl⟩ | ⟨-, -, -, -, rfl⟩ | ⟨e, -, -, rfl⟩ | ⟨e, -, -, rfl⟩ | ⟨-, -, rfl⟩ |
    ⟨-, -, -, rfl⟩ | ⟨rfl, -, -⟩ | ⟨-, -, rfl⟩ := step_cases h
  any_goals rfl
  exact absurd rfl hact

theorem unspawned_of_step {act : OutAct} (h : o.step act = some o') (hact : act ≠ .spawn)
    (habort : act ≠ .abort) (hw : o.writer = .unspawned) : o'.writer = .unspawned := by
  obtain ⟨who, call, pool, -, -, -, rfl⟩ | ⟨who, pool, -, -, rfl⟩ | ⟨rfl, -, -⟩ |
    ⟨e, tx, -, hw', -, -⟩ | ⟨-, hw', -, -, -⟩ | ⟨e, -, hw', -⟩ | ⟨e, -, hw', -⟩ | ⟨-, hw', -⟩ |
    ⟨rfl, -, -⟩ | ⟨-, -, rfl⟩ | ⟨-, -, rfl⟩ := step_cases h
  · exact hw
  · exact hw
  · exact absurd rfl hact
  · rw [hw] at hw'
    cases hw'
  · rw [hw] at hw'
    cases hw'
  · rw [hw] at hw'
    cases hw'
  · rw [hw] at hw'
    cases hw'
  · rw [hw] at hw'
    cases hw'
  · exact absurd rfl habort
  · exact hw
  · exact hw

end Outbound

namespace Session

variable {config : WebSocketServerConfig} {instantMax : ℕ} {s s' : Session} {act : SessionAct}

/-! ### What the task finds when it goes on -/

/-- The task is in a call of its own exactly when its stage says so, its handle is there until it is
gone, and the writer is there once the loop begins. -/
structure Engaged (s : Session) : Prop where
  calling : s.stage.calling = true → ∃ f, s.out.pool.threads.lookup .task = some f
  idle : s.stage.calling = false → s.Idle
  senders : s.stage.over = false → s.out.senders = true
  unspawned : s.stage.beforeLoop = true → s.out.writer = .unspawned ∧ s.abortRequested = false

theorem engaged_new : (new config).Engaged where
  calling := nofun
  idle := fun _ => lookup_quiet
  senders := fun _ => rfl
  unspawned := fun _ => ⟨rfl, rfl⟩

/-- At a stage of no call, past the start of the writer. -/
theorem engaged_of_idle (hidle : s.Idle) (hsenders : s.out.senders = true)
    (hcalling : s.stage.calling = false) (hbefore : s.stage.beforeLoop = false) : s.Engaged where
  calling := fun h => by rw [hcalling] at h; cases h
  idle := fun _ => hidle
  senders := fun _ => hsenders
  unspawned := fun h => by rw [hbefore] at h; cases h

/-- At the task's end. -/
theorem engaged_of_done (hidle : s.Idle) (hdone : s.stage.done = true)
    (hsenders : s.stage.over = false → s.out.senders = true) : s.Engaged where
  calling := fun h => by rw [(Stage.not_calling_of_done hdone).1] at h; cases h
  idle := fun _ => hidle
  senders := hsenders
  unspawned := fun h => by rw [(Stage.not_calling_of_done hdone).2] at h; cases h

theorem engaged_guarded {call : LibraryCall} {next : Session} (hidle : s.Idle)
    (h : next.Engaged) : (guarded instantMax s call next).Engaged := by
  obtain ⟨-, he⟩ | ⟨-, he⟩ := guarded_cases instantMax s call next
  · rw [he]
    exact h
  · rw [he]
    exact engaged_of_done hidle rfl nofun

theorem engaged_loopHead (hidle : s.Idle) (hsenders : s.out.senders = true) :
    (s.loopHead config instantMax).Engaged :=
  engaged_guarded hidle (engaged_of_idle hidle hsenders rfl rfl)

/-- A call of the task begins. -/
theorem engaged_begin {call : ConnCall} {stage : Stage} {t : Session}
    (hbegin : t.begin call stage = some s') (hsenders : t.out.senders = true)
    (hcalling : stage.calling = true) (hbefore : stage.beforeLoop = false) : s'.Engaged := by
  obtain ⟨-, -, rfl⟩ := begin_some hbegin
  refine ⟨fun _ => ⟨_, lookup_begun.trans (if_pos rfl)⟩, fun h => ?_, fun _ => hsenders,
    fun h => ?_⟩
  · rw [show ((t.withOut _).goto stage).stage = stage from rfl, hcalling] at h
    cases h
  · rw [show ((t.withOut _).goto stage).stage = stage from rfl, hbefore] at h
    cases h

theorem caller_of_allows {a : OutAct} (hallows : s.Allows a = true) : a.caller ≠ some .task := by
  intro hcaller
  cases a with
  | start who call =>
      cases hcaller
      cases hallows
  | step who =>
      cases hcaller
      cases hallows
  | _ => cases hcaller

/-- A step of the others. -/
theorem Engaged.outside {a : OutAct} (h : s.Engaged)
    (hstep : s.step config instantMax (.outside a) = some s') : s'.Engaged := by
  obtain ⟨hallows, hout, he⟩ := outside_some hstep
  have hlookup := Outbound.lookup_of_step hout (caller_of_allows hallows)
  have hstage : s'.stage = s.stage := by rw [he]; rfl
  refine ⟨?_, ?_, ?_, ?_⟩
  · rw [hstage, hlookup]
    exact h.calling
  · rw [hstage]
    unfold Idle
    rw [hlookup]
    exact h.idle
  · rw [hstage]
    intro hover
    rw [Outbound.senders_of_step hout, h.senders hover]
    rintro rfl
    have hallowed : s.stage.over = true := hallows
    rw [hover] at hallowed
    cases hallowed
  · rw [hstage]
    intro hbefore
    obtain ⟨hwriter, habort⟩ := h.unspawned hbefore
    refine ⟨Outbound.unspawned_of_step hout ?_ ?_ hwriter, by rw [he]; exact habort⟩
    · rintro rfl
      cases hallows
    · rintro rfl
      have hallowed : s.abortRequested = true := hallows
      rw [habort] at hallowed
      cases hallowed

theorem engaged_callReturned {failed : Bool} (hidle : s.Idle) (hsenders : s.out.senders = true)
    (hcalling : s.stage.calling = true) : (s.callReturned config instantMax failed).Engaged := by
  unfold callReturned
  cases hs : s.stage with
  | pinging =>
      simp only
      split_ifs
      · exact engaged_of_idle hidle hsenders rfl rfl
      · exact engaged_loopHead hidle hsenders
  | ponging => exact engaged_loopHead hidle hsenders
  | closing => exact engaged_of_idle hidle hsenders rfl rfl
  | marking => exact engaged_of_idle hidle hsenders rfl rfl
  | _ =>
      rw [hs] at hcalling
      cases hcalling

/-- Outside its calls, the task is in none, and its handle is there. -/
theorem Engaged.at {stage : Stage} (h : s.Engaged) (hs : s.stage = stage)
    (hcalling : stage.calling = false) (hover : stage.over = false) :
    s.Idle ∧ s.out.senders = true :=
  ⟨h.idle (by rw [hs, hcalling]), h.senders (by rw [hs, hover])⟩

theorem Engaged.handshaken {outcome : WebSocketResult (Option Principal)} {id : ConnectionId}
    (h : s.Engaged) (hstep : s.step config instantMax (.handshaken outcome id) = some s') :
    s'.Engaged := by
  obtain ⟨hs, rfl⟩ := handshaken_some hstep
  obtain ⟨hidle, hsenders⟩ := h.at hs rfl rfl
  obtain ⟨principal, -, he⟩ | ⟨stage, haway, he⟩ :=
    handshakeEnd_cases config instantMax s outcome id
  · rw [he]
    exact ⟨nofun, fun _ => hidle, fun _ => hsenders, fun _ => h.unspawned (by rw [hs]; rfl)⟩
  · rw [he]
    exact engaged_of_done hidle (done_of_away haway) fun _ => hsenders

theorem Engaged.registered (h : s.Engaged)
    (hstep : s.step config instantMax .registered = some s') : s'.Engaged := by
  obtain ⟨hs, rfl⟩ := registered_some hstep
  obtain ⟨hidle, hsenders⟩ := h.at hs rfl rfl
  exact ⟨nofun, fun _ => hidle, fun _ => hsenders, fun _ => h.unspawned (by rw [hs]; rfl)⟩

theorem Engaged.connected {now : ℕ} (h : s.Engaged)
    (hstep : s.step config instantMax (.connected now) = some s') : s'.Engaged := by
  obtain ⟨out, hs, hout, rfl⟩ := connected_some hstep
  obtain ⟨hidle, hsenders⟩ := h.at hs rfl rfl
  have hidle' : (s.withOut out).Idle :=
    (Outbound.lookup_of_step hout (by simp [OutAct.caller])).trans hidle
  have hsenders' : out.senders = true :=
    (Outbound.senders_of_step hout (by simp)).trans hsenders
  exact engaged_guarded hidle' (engaged_loopHead hidle' hsenders')

theorem Engaged.evicted (h : s.Engaged)
    (hstep : s.step config instantMax .evicted = some s') : s'.Engaged := by
  obtain ⟨out, hs, hout, rfl⟩ := evicted_some hstep
  obtain ⟨hidle, hsenders⟩ := h.at hs rfl rfl
  refine engaged_of_idle ?_ ?_ rfl rfl
  · exact (Outbound.lookup_of_step hout (by simp [OutAct.caller])).trans hidle
  · exact (Outbound.senders_of_step hout (by simp)).trans hsenders

theorem Engaged.callbackReturned {pong : Bytes} (h : s.Engaged)
    (hstep : s.step config instantMax (.callbackReturned pong) = some s') : s'.Engaged := by
  obtain ⟨callback, hs, ⟨-, rfl⟩ | ⟨-, hbegin⟩ | ⟨why, -, rfl⟩⟩ := callbackReturned_some hstep
  · obtain ⟨hidle, hsenders⟩ := h.at hs rfl rfl
    exact engaged_loopHead hidle hsenders
  · exact engaged_begin hbegin (h.at hs rfl rfl).2 rfl rfl
  · obtain ⟨hidle, hsenders⟩ := h.at hs rfl rfl
    exact engaged_of_idle hidle hsenders rfl rfl

theorem Engaged.callbackPanicked (h : s.Engaged)
    (hstep : s.step config instantMax .callbackPanicked = some s') : s'.Engaged := by
  obtain ⟨hs, out, hout, rfl⟩ | ⟨⟨callback, hs⟩ | hs, rfl⟩ := callbackPanicked_some hstep
  · have hidle : (s.withOut out).Idle :=
      (Outbound.lookup_of_step hout (by simp [OutAct.caller])).trans (h.at hs rfl rfl).1
    exact engaged_of_done hidle rfl (by simp [Stage.over])
  · exact engaged_of_done (h.at hs rfl rfl).1 rfl (by simp [Stage.over])
  · exact engaged_of_done (h.at hs rfl rfl).1 rfl (by simp [Stage.over])

theorem Engaged.calls (h : s.Engaged) (hstep : s.step config instantMax .taskStep = some s') :
    s.stage.calling = true := by
  obtain ⟨f, out, hf, -⟩ := taskStep_some hstep
  by_contra hcalling
  rw [h.idle (by simpa using hcalling)] at hf
  cases hf

theorem Engaged.taskStep (h : s.Engaged)
    (hstep : s.step config instantMax .taskStep = some s') : s'.Engaged := by
  have hcalling := h.calls hstep
  obtain ⟨f, out, hf, hout, he, hnext⟩ := taskStep_some hstep
  have hsame : out.senders = s.out.senders := Outbound.senders_of_step hout (by simp)
  have hsenders : out.senders = true :=
    hsame.trans (h.senders (Stage.over_of_calling hcalling))
  obtain ⟨pc, hpc, rfl⟩ | ⟨reply, hreply, rfl⟩ := hnext
  · refine ⟨fun _ => ⟨⟨pc, f.late⟩, ?_⟩, fun hc => ?_, fun _ => hsenders, fun hb => ?_⟩
    · show out.pool.threads.lookup .task = _
      rw [he, hpc]
      exact lookup_moved_self
    · have hc' : s.stage.calling = false := hc
      rw [hcalling] at hc'
      cases hc'
    · have hb' : s.stage.beforeLoop = true := hb
      rw [Stage.beforeLoop_of_calling hcalling] at hb'
      cases hb'
  · refine engaged_callReturned ?_ hsenders hcalling
    show out.pool.threads.lookup .task = none
    rw [he, hreply]
    exact lookup_moved_self

theorem Engaged.step (h : s.Engaged) (hstep : s.step config instantMax act = some s') :
    s'.Engaged := by
  cases act with
  | outside a => exact h.outside hstep
  | handshaken outcome id => exact h.handshaken hstep
  | registered => exact h.registered hstep
  | connected now => exact h.connected hstep
  | tick =>
      obtain ⟨hs, ⟨vars, why, -, rfl⟩ | ⟨vars, -, hbegin⟩⟩ := tick_some hstep
      · obtain ⟨hidle, hsenders⟩ := h.at hs rfl rfl
        exact engaged_of_idle hidle hsenders rfl rfl
      · exact engaged_begin hbegin (h.at hs rfl rfl).2 rfl rfl
  | evicted => exact h.evicted hstep
  | idle =>
      obtain ⟨hs, rfl⟩ := idle_some hstep
      obtain ⟨hidle, hsenders⟩ := h.at hs rfl rfl
      exact engaged_of_idle hidle hsenders rfl rfl
  | read now result =>
      obtain ⟨hs, rfl⟩ := read_some hstep
      obtain ⟨hidle, hsenders⟩ := h.at hs rfl rfl
      unfold Session.afterRead
      split <;> exact engaged_of_idle hidle hsenders rfl rfl
  | callbackReturned pong => exact h.callbackReturned hstep
  | callbackPanicked => exact h.callbackPanicked hstep
  | taskStep => exact h.taskStep hstep
  | teardown =>
      obtain ⟨⟨why, hs⟩, hbegin⟩ := teardown_some hstep
      exact engaged_begin hbegin (h.at hs rfl rfl).2 rfl rfl
  | joined =>
      obtain ⟨hs, -, hbegin⟩ := joined_some hstep
      exact engaged_begin hbegin (h.at hs rfl rfl).2 rfl rfl
  | timedOut =>
      obtain ⟨hs, hbegin⟩ := timedOut_some hstep
      exact engaged_begin hbegin (h.at hs rfl rfl).2 rfl rfl
  | disconnected =>
      obtain ⟨hs, rfl⟩ := disconnected_some hstep
      exact engaged_of_done (h.at hs rfl rfl).1 rfl (by simp [Stage.over])

theorem engaged_of_exec {acts : List SessionAct}
    (hrun : exec (step config instantMax) (new config) acts = some s) : s.Engaged :=
  exec_invariant (P := Engaged) (fun _ _ _ h hstep => h.step hstep) engaged_new hrun

/-- What the task waits for can happen, given the permit for an eviction and the writer's end for a
join. -/
theorem Engaged.step_of_awaits (h : s.Engaged) (hawaits : s.stage.Awaits act)
    (hevicted : act = .evicted → s.out.pool.shared.evict = true)
    (hjoined : act = .joined → s.out.writer = .stopped) :
    ∃ s', s.step config instantMax act = some s' := by
  have hbegin {t : Session} {call : ConnCall} {stage : Stage} (hmade : call.made = true)
      (hout : t.out = s.out) (hcalling : s.stage.calling = false) (hover : s.stage.over = false) :
      ∃ s', t.begin call stage = some s' := by
    have hstart := Outbound.start_enabled hmade (h.senders hover) (h.idle hcalling)
    rw [← hout] at hstart
    unfold begin
    rw [hstart]
    exact ⟨_, rfl⟩
  have htask (hcalling : s.stage.calling = true) :
      ∃ s', s.step config instantMax .taskStep = some s' := by
    obtain ⟨f, hf⟩ := h.calling hcalling
    obtain ⟨out, hout⟩ := Outbound.call_enabled hf
    simp only [Session.step, hout]
    exact ⟨_, rfl⟩
  generalize hs : s.stage = stage at hawaits
  cases hawaits with
  | handshake outcome id =>
      simp only [Session.step, hs]
      exact ⟨_, rfl⟩
  | registered =>
      simp only [Session.step, hs]
      exact ⟨_, rfl⟩
  | connected now =>
      have hw := (h.unspawned (by rw [hs]; rfl)).1
      simp only [Session.step, hs, Outbound.step, hw]
      exact ⟨_, rfl⟩
  | tick =>
      simp only [Session.step, hs]
      split
      · exact ⟨_, rfl⟩
      · exact hbegin rfl rfl (by rw [hs]; rfl) (by rw [hs]; rfl)
  | evicted =>
      simp only [Session.step, hs, Outbound.step, ConnPool.step, hevicted rfl]
      exact ⟨_, rfl⟩
  | idle =>
      simp only [Session.step, hs]
      exact ⟨_, rfl⟩
  | read now result =>
      simp only [Session.step, hs]
      exact ⟨_, rfl⟩
  | pinging => exact htask (by rw [hs]; rfl)
  | ponging => exact htask (by rw [hs]; rfl)
  | callback callback pong =>
      simp only [Session.step, hs]
      split
      · exact ⟨_, rfl⟩
      · exact hbegin rfl rfl (by rw [hs]; rfl) (by rw [hs]; rfl)
      · exact ⟨_, rfl⟩
  | teardown why =>
      simp only [Session.step, hs]
      exact hbegin rfl rfl (by rw [hs]; rfl) (by rw [hs]; rfl)
  | closing => exact htask (by rw [hs]; rfl)
  | joined =>
      simp only [Session.step, hs, hjoined rfl]
      exact hbegin rfl rfl (by rw [hs]; rfl) (by rw [hs]; rfl)
  | timedOut =>
      simp only [Session.step, hs]
      exact hbegin rfl rfl (by rw [hs]; rfl) (by rw [hs]; rfl)
  | marking => exact htask (by rw [hs]; rfl)
  | disconnected =>
      simp only [Session.step, hs]
      exact ⟨_, rfl⟩

/-- Until it is done, the task waits for something that can happen. -/
theorem Engaged.awaits (h : s.Engaged) (hdone : s.stage.done = false) :
    ∃ act s', s.stage.Awaits act ∧ act.own = true ∧ s.step config instantMax act = some s' := by
  have hother {act : SessionAct} (hawaits : s.stage.Awaits act) (hown : act.own = true)
      (hevicted : act ≠ .evicted) (hjoined : act ≠ .joined) :
      ∃ act s', s.stage.Awaits act ∧ act.own = true ∧ s.step config instantMax act = some s' := by
    obtain ⟨s', hs'⟩ := h.step_of_awaits hawaits (fun he => absurd he hevicted)
      fun he => absurd he hjoined
    exact ⟨act, s', hawaits, hown, hs'⟩
  generalize hs : s.stage = stage at hdone hother
  cases stage with
  | handshaking => exact hother (.handshake (.ok none) "") rfl nofun nofun
  | registering => exact hother .registered rfl nofun nofun
  | connecting => exact hother (.connected 0) rfl nofun nofun
  | selecting => exact hother .idle rfl nofun nofun
  | pinging => exact hother .pinging rfl nofun nofun
  | handling callback => exact hother (.callback callback []) rfl nofun nofun
  | ponging => exact hother .ponging rfl nofun nofun
  | ended why => exact hother (.teardown why) rfl nofun nofun
  | closing => exact hother .closing rfl nofun nofun
  | flushing => exact hother .timedOut rfl nofun nofun
  | marking => exact hother .marking rfl nofun nofun
  | disconnecting => exact hother .disconnected rfl nofun nofun
  | refused => cases hdone
  | finished => cases hdone
  | panicked why => cases hdone

/-- **The task is never stuck**: in every state that a run reaches and in which the task is not
done, whatever it then waits for can happen: any answer of the handshake, the end of the
registration, the return of `on_connect`, any branch of the loop (the eviction if its permit is
stored), the next access of its call, the return of the callback, and the writer's end (if it has
ended) or the close timeout. -/
theorem never_stuck (config : WebSocketServerConfig) (instantMax : ℕ) (acts : List SessionAct)
    (s : Session) (hrun : exec (step config instantMax) (new config) acts = some s) :
    (s.stage.done = false → ∃ act, s.stage.Awaits act ∧ act.own = true ∧
      ∃ s', s.step config instantMax act = some s') ∧
    ∀ act, s.stage.Awaits act → (act = .evicted → s.out.pool.shared.evict = true) →
      (act = .joined → s.out.writer = .stopped) →
        ∃ s', s.step config instantMax act = some s' := by
  have h := engaged_of_exec hrun
  refine ⟨fun hdone => ?_, fun act => h.step_of_awaits⟩
  obtain ⟨act, s', hawaits, hown, hs'⟩ := h.awaits hdone
  exact ⟨act, hawaits, hown, s', hs'⟩

/-- A connection with a full queue whose ping is refused. -/
def pingAtFullQueue : List SessionAct :=
  [.handshaken (.ok (some .anonymous)) "a", .registered, .connected 0,
    .outside (.start (.app 0) (.send (.binary [1]))), .outside (.step (.app 0)),
    .outside (.step (.app 0)), .tick, .taskStep, .taskStep]

theorem never_stuck_pingAtFullQueue :
    ∃ s, exec (step (withCapacity 1) (10 ^ 18)) (new (withCapacity 1)) pingAtFullQueue = some s ∧
      s.stage = .pinging ∧ ∃ s', s.step (withCapacity 1) (10 ^ 18) .taskStep = some s' := by
  obtain ⟨s, hrun, hs⟩ : ∃ s, exec (step (withCapacity 1) (10 ^ 18)) (new (withCapacity 1))
      pingAtFullQueue = some s ∧ s.stage = .pinging := by decide
  have hawaits : s.stage.Awaits .taskStep := by
    rw [hs]
    exact .pinging
  exact ⟨s, hrun, hs, (never_stuck _ _ _ s hrun).2 _ hawaits nofun nofun⟩

/-! ### The teardown -/

/-- How many accesses of its call the task still makes at most. -/
def callLeft (s : Session) : ℕ :=
  (s.out.pool.threads.lookup .task).elim 0 fun f => f.pc.left

/-- How many steps of its own it makes at most until it is done, once the loop has ended. -/
def rest (s : Session) : ℕ := s.stage.rest s.callLeft

theorem callLeft_of_begin {call : ConnCall} {stage : Stage} {t : Session}
    (hbegin : t.begin call stage = some s') : s'.callLeft = call.pc.left := by
  obtain ⟨-, -, rfl⟩ := begin_some hbegin
  have hlookup : ((t.withOut { t.out with
      pool := t.out.pool.begun .task call }).goto stage).out.pool.threads.lookup .task
        = some ⟨call.pc, decide t.out.pool.Failed⟩ := lookup_begun.trans (if_pos rfl)
  unfold callLeft
  rw [hlookup]
  rfl

theorem callLeft_of_outside {a : OutAct}
    (hstep : s.step config instantMax (.outside a) = some s') : s'.callLeft = s.callLeft := by
  obtain ⟨hallows, hout, -⟩ := outside_some hstep
  unfold callLeft
  rw [Outbound.lookup_of_step hout (caller_of_allows hallows)]

theorem callLeft_of_taskStep (hstep : s.step config instantMax .taskStep = some s') :
    s'.stage = s.stage ∧ s'.vars = s.vars ∧ s'.callLeft + 1 ≤ s.callLeft ∨
      ∃ out failed, s' = (s.withOut out).callReturned config instantMax failed ∧
        1 ≤ s.callLeft := by
  obtain ⟨f, out, hf, -, he, hnext⟩ := taskStep_some hstep
  have hleft : s.callLeft = f.pc.left := by
    unfold callLeft
    rw [hf]
    rfl
  obtain ⟨pc, hpc, rfl⟩ | ⟨reply, -, rfl⟩ := hnext
  · have hleft' : (s.withOut out).callLeft = pc.left := by
      have hlookup : out.pool.threads.lookup .task = some ⟨pc, f.late⟩ := by
        rw [he, hpc]
        exact lookup_moved_self
      unfold callLeft
      rw [withOut_out, hlookup]
      rfl
    have hlt := left_of_next hpc
    exact .inl ⟨rfl, rfl, by omega⟩
  · have hpos := f.pc.left_pos
    exact .inr ⟨out, reply.failed, rfl, by omega⟩

theorem step_past_loop (h : s.Engaged) (hover : s.stage.loopOver = true)
    (hstep : s.step config instantMax act = some s') :
    (act.own = false ∧ s'.stage = s.stage ∧ s'.callLeft = s.callLeft) ∨
    (s.stage.calling = true ∧ s'.stage = s.stage ∧ s'.callLeft + 1 ≤ s.callLeft) ∨
    (∃ why, s.stage = .ended why ∧ s'.stage = .closing ∧ s'.callLeft = 3) ∨
    (s.stage = .closing ∧ s'.stage = .flushing ∧ 1 ≤ s.callLeft) ∨
    (s.stage = .flushing ∧ s'.stage = .marking ∧ s'.callLeft = 1) ∨
    (s.stage = .marking ∧ s'.stage = .disconnecting ∧ 1 ≤ s.callLeft) ∨
    (s.stage = .disconnecting ∧ (s'.stage = .finished ∨ s'.stage = .panicked .callback)) := by
  have hnot {stage : Stage} (hs : s.stage = stage) (hloop : stage.loopOver = false) : False := by
    rw [hs, hloop] at hover
    cases hover
  cases act with
  | outside a =>
      have hleft := callLeft_of_outside hstep
      obtain ⟨-, -, he⟩ := outside_some hstep
      exact .inl ⟨rfl, by rw [he]; rfl, hleft⟩
  | handshaken outcome id => exact (hnot (handshaken_some hstep).1 rfl).elim
  | registered => exact (hnot (registered_some hstep).1 rfl).elim
  | connected now =>
      obtain ⟨out, hs, -, -⟩ := connected_some hstep
      exact (hnot hs rfl).elim
  | tick => exact (hnot (tick_some hstep).1 rfl).elim
  | evicted =>
      obtain ⟨out, hs, -, -⟩ := evicted_some hstep
      exact (hnot hs rfl).elim
  | idle => exact (hnot (idle_some hstep).1 rfl).elim
  | read now result => exact (hnot (read_some hstep).1 rfl).elim
  | callbackReturned pong =>
      obtain ⟨callback, hs, -⟩ := callbackReturned_some hstep
      exact (hnot hs rfl).elim
  | callbackPanicked =>
      obtain ⟨hs, -⟩ | ⟨⟨callback, hs⟩ | hs, rfl⟩ := callbackPanicked_some hstep
      · exact (hnot hs rfl).elim
      · exact (hnot hs rfl).elim
      · exact .inr (.inr (.inr (.inr (.inr (.inr ⟨hs, .inr rfl⟩)))))
  | taskStep =>
      have hcalling := h.calls hstep
      obtain ⟨hstage, -, hleft⟩ | ⟨out, failed, rfl, hleft⟩ := callLeft_of_taskStep hstep
      · exact .inr (.inl ⟨hcalling, hstage, hleft⟩)
      · cases hs : s.stage with
        | pinging => exact (hnot hs rfl).elim
        | ponging => exact (hnot hs rfl).elim
        | closing =>
            refine .inr (.inr (.inr (.inl ⟨rfl, ?_, hleft⟩)))
            unfold callReturned
            rw [withOut_stage, hs]
            rfl
        | marking =>
            refine .inr (.inr (.inr (.inr (.inr (.inl ⟨rfl, ?_, hleft⟩)))))
            unfold callReturned
            rw [withOut_stage, hs]
            rfl
        | _ =>
            rw [hs] at hcalling
            cases hcalling
  | teardown =>
      obtain ⟨⟨why, hs⟩, hbegin⟩ := teardown_some hstep
      exact .inr (.inr (.inl ⟨why, hs, begin_stage hbegin, callLeft_of_begin hbegin⟩))
  | joined =>
      obtain ⟨hs, -, hbegin⟩ := joined_some hstep
      exact .inr (.inr (.inr (.inr (.inl ⟨hs, begin_stage hbegin, callLeft_of_begin hbegin⟩))))
  | timedOut =>
      obtain ⟨hs, hbegin⟩ := timedOut_some hstep
      exact .inr (.inr (.inr (.inr (.inl ⟨hs, begin_stage hbegin, callLeft_of_begin hbegin⟩))))
  | disconnected =>
      obtain ⟨hs, rfl⟩ := disconnected_some hstep
      exact .inr (.inr (.inr (.inr (.inr (.inr ⟨hs, .inl rfl⟩)))))

theorem rest_of_step (h : s.Engaged) (hover : s.stage.loopOver = true)
    (hstep : s.step config instantMax act = some s') :
    s'.rest + (if act.own = true then 1 else 0) ≤ s.rest := by
  have hone : (if act.own = true then 1 else 0) ≤ 1 := by split_ifs <;> omega
  unfold rest
  obtain ⟨hown, hstage, hleft⟩ | ⟨hcalling, hstage, hleft⟩ | ⟨why, hs, hs', hleft⟩ |
    ⟨hs, hs', hleft⟩ | ⟨hs, hs', hleft⟩ | ⟨hs, hs', hleft⟩ | ⟨hs, hs' | hs'⟩ :=
    step_past_loop h hover hstep
  · rw [hown, hstage, hleft]
    exact Nat.le_refl _
  · rw [hstage]
    cases hs : s.stage with
    | closing =>
        simp only [Stage.rest]
        omega
    | marking =>
        simp only [Stage.rest]
        omega
    | pinging =>
        rw [hs] at hover
        cases hover
    | ponging =>
        rw [hs] at hover
        cases hover
    | _ =>
        rw [hs] at hcalling
        cases hcalling
  · rw [hs, hs', hleft]
    simp only [Stage.rest]
    omega
  · rw [hs, hs']
    simp only [Stage.rest]
    omega
  · rw [hs, hs', hleft]
    simp only [Stage.rest]
    omega
  · rw [hs, hs']
    simp only [Stage.rest]
    omega
  · rw [hs, hs']
    simp only [Stage.rest]
    omega
  · rw [hs, hs']
    simp only [Stage.rest]
    omega

/-- Past the loop, the task ends when it is finished or `on_disconnect` panics. -/
structure Ending (s : Session) : Prop extends s.Engaged where
  past : s.stage.loopOver = true
  ends : s.stage.done = true → s.stage = .finished ∨ s.stage = .panicked .callback

theorem Ending.step (h : s.Ending) (hstep : s.step config instantMax act = some s') :
    s'.Ending := by
  refine ⟨h.toEngaged.step hstep, loopOver_of_step h.past hstep, fun hdone => ?_⟩
  obtain ⟨-, hstage, -⟩ | ⟨-, hstage, -⟩ | ⟨why, -, hs', -⟩ | ⟨-, hs', -⟩ | ⟨-, hs', -⟩ |
    ⟨-, hs', -⟩ | ⟨-, hs'⟩ := step_past_loop h.toEngaged h.past hstep
  · rw [hstage] at hdone ⊢
    exact h.ends hdone
  · rw [hstage] at hdone ⊢
    exact h.ends hdone
  · rw [hs'] at hdone
    cases hdone
  · rw [hs'] at hdone
    cases hdone
  · rw [hs'] at hdone
    cases hdone
  · rw [hs'] at hdone
    cases hdone
  · exact hs'

/-- **The teardown ends**: from the end of the loop on, in every run and whatever the others do, the
task makes at most seven steps of its own; until it is finished or `on_disconnect` panics, it can
make the one that it waits for. -/
theorem teardown_ends (config : WebSocketServerConfig) (instantMax : ℕ)
    (acts after : List SessionAct) (s s' : Session) (why : LoopExit)
    (hrun : exec (step config instantMax) (new config) acts = some s)
    (hended : s.stage = .ended why)
    (hafter : exec (step config instantMax) s after = some s') :
    after.countP SessionAct.own ≤ 7 ∧
      (s'.stage = .finished ∨ s'.stage = .panicked .callback ∨
        ∃ act s'', s'.stage.Awaits act ∧ act.own = true ∧
          s'.step config instantMax act = some s'') := by
  have hending : s.Ending := by
    refine ⟨engaged_of_exec hrun, by rw [hended]; rfl, fun hdone => ?_⟩
    rw [hended] at hdone
    cases hdone
  have hrest : s.rest = 7 := by
    unfold rest
    rw [hended]
    rfl
  have hcount : after.countP SessionAct.own + s'.rest ≤ s.rest :=
    countP_add_le (P := Ending) rest SessionAct.own
      (fun _ _ _ h hstep => ⟨h.step hstep, rest_of_step h.toEngaged h.past hstep⟩) hending hafter
  have hend : s'.Ending := exec_invariant (P := Ending) (fun _ _ _ h hstep => h.step hstep)
    hending hafter
  refine ⟨by omega, ?_⟩
  cases hdone : s'.stage.done with
  | true =>
      obtain hfinished | hpanicked := hend.ends hdone
      · exact .inl hfinished
      · exact .inr (.inl hpanicked)
  | false => exact .inr (.inr (hend.toEngaged.awaits hdone))

/-- A connection whose peer closes, and whose writer does not end until it is aborted. -/
def closedByPeer : List SessionAct :=
  [.handshaken (.ok (some .anonymous)) "a", .registered, .connected 0,
    .read 1 (.message (.close none))]

/-- Its teardown, with the application closing it as well. -/
def timedOutTeardown : List SessionAct :=
  [.teardown, .outside (.start (.app 0) .close), .taskStep, .outside (.step (.app 0)), .taskStep,
    .outside (.step (.app 0)), .timedOut, .outside .abort, .taskStep, .disconnected]

theorem teardown_ends_closedByPeer :
    ∃ s, exec (step .default (10 ^ 18)) (new .default) closedByPeer = some s ∧
      ∃ s', exec (step .default (10 ^ 18)) s timedOutTeardown = some s' ∧
        timedOutTeardown.countP SessionAct.own ≤ 7 := by
  obtain ⟨s, hrun, hended, s', hafter, -⟩ : ∃ s,
      exec (step .default (10 ^ 18)) (new .default) closedByPeer = some s ∧
        s.stage = .ended .closeFrame ∧
          ∃ s', exec (step .default (10 ^ 18)) s timedOutTeardown = some s' ∧
            s'.stage = .finished := by decide
  exact ⟨s, hrun, s', hafter, (teardown_ends _ _ _ _ _ _ _ hrun hended hafter).1⟩

end Session
end ArmatureWebsocket
