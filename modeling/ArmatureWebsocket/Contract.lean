import ArmatureWebsocket.ServeSessions

/-! # What the trace of a connection stands for

`Session.trace` is a list of notes.  This module says what each note is a note of.

* At the step that notes an event, the event happens (`Session.Shows`): the call of the room manager
  has returned, the callback is being called, the task has just begun to send the pong, the state of
  the connection has become `Closed`.
* The pongs of the trace are the pongs that the task has tried to send, and the queue has taken the
  first of them (`Session.Contract`).
* The calls of the room manager in the trace are those that the task has made, and each does what it
  says to the manager's maps; a task without a connection makes none (`Serve.Managed`).

`contract` puts this beside the shape of the trace (`Trace`). -/

namespace ArmatureWebsocket

open Execution CallPool

/-! ### What a caller attempts to send -/

section sends

variable {who : Caller} {c : ConnectionCell} {pc pc' : ConnPc} {reply : ConnReply}

theorem sends_next (h : (connStep who c pc).2 = .inl pc') : pc'.sends = pc.sends := by
  obtain ⟨m, rfl, rfl, -⟩ | ⟨m, rfl, rfl, -⟩ | ⟨m, rfl, rfl⟩ | ⟨rfl, rfl⟩ | ⟨rfl, rfl, -⟩ :=
    connStep_next h
  · rfl
  · rfl
  · rfl
  · rfl
  · rfl

theorem tried_of_reply (h : (connStep who c pc).2 = .inr reply) : reply.tried = pc.sends := by
  cases pc with
  | sendCheck m =>
      simp only [connStep] at h
      split_ifs at h
      cases h
      rfl
  | sendTry m =>
      simp only [connStep] at h
      split at h <;> cases h <;> rfl
  | closeTry =>
      simp only [connStep] at h
      split at h <;> cases h
      rfl
  | evictState m => cases h
  | closeState => cases h
  | evictNotify m =>
      cases h
      rfl
  | closeNotify =>
      cases h
      rfl
  | setState st =>
      cases h
      rfl

end sends

namespace ConnPool

variable {p : ConnPool} {who who' : Caller} {f : InFlight}

/-- What a caller has sent or is sending, accepted or not. -/
def attemptedBy (p : ConnPool) (who : Caller) : List Message :=
  p.triedBy who ++ ((p.threads.lookup who).bind fun f => f.pc.sends).toList

theorem attemptedBy_of_idle (h : p.threads.lookup who = none) :
    p.attemptedBy who = p.triedBy who := by
  unfold attemptedBy
  rw [h]
  exact List.append_nil _

theorem attemptedBy_begun {call : ConnCall} (h : p.threads.lookup who = none) :
    (p.begun who call).attemptedBy who' =
      p.attemptedBy who' ++ (if who = who' then call.pc.sends else none).toList := by
  have htried : (p.begun who call).triedBy who' = p.triedBy who' := rfl
  unfold attemptedBy
  rw [htried, lookup_begun]
  by_cases hwho : who' = who
  · rw [if_pos hwho, if_pos hwho.symm, hwho, h]
    simp
  · rw [if_neg hwho, if_neg (Ne.symm hwho)]
    exact (List.append_nil _).symm

theorem attemptedBy_moved (h : p.threads.lookup who = some f) :
    (p.moved who f (connStep who p.shared f.pc).2).attemptedBy who' = p.attemptedBy who' := by
  unfold attemptedBy
  cases hnext : (connStep who p.shared f.pc).2 with
  | inl pc =>
      have htried : (p.moved who f (.inl pc)).triedBy who' = p.triedBy who' := rfl
      rw [htried]
      by_cases hwho : who' = who
      · rw [hwho, h, lookup_moved_self]
        show _ ++ pc.sends.toList = _
        rw [sends_next hnext]
        rfl
      · rw [lookup_moved_of_ne hwho]
  | inr reply =>
      have htried : (p.moved who f (.inr reply)).triedBy who' =
          p.triedBy who' ++ (if who = who' then reply.tried else none).toList := by
        have hlog : (p.moved who f (.inr reply)).log = p.log ++ [⟨who, f, reply⟩] := rfl
        unfold triedBy
        rw [hlog, List.filterMap_append]
        congr 1
      rw [htried]
      by_cases hwho : who' = who
      · rw [if_pos hwho.symm, hwho, h, lookup_moved_self, tried_of_reply hnext]
        exact List.append_nil _
      · rw [if_neg (Ne.symm hwho), lookup_moved_of_ne hwho]
        exact congrArg (· ++ _) (List.append_nil _)

/-- On a connection that is not shut nothing was refused. -/
theorem Sound.acceptedBy_eq {capacity : ℕ} (h : p.Sound capacity) (hshut : ¬ p.shared.Shut)
    (who : Caller) : p.acceptedBy who = p.triedBy who := by
  have hnone : ∀ e ∈ p.log, e.reply.failed = false := by
    intro e he
    by_contra hfailed
    exact hshut (h.shut ⟨e, he, by simpa using hfailed⟩)
  unfold acceptedBy triedBy
  apply List.filterMap_congr
  intro e he
  rw [ConnReply.tried_eq_accepted (hnone e he)]

end ConnPool

/-- The message that the caller begins to send. -/
def OutAct.begins (who : Caller) : OutAct → Option Message
  | .start who' call => if who' = who then call.pc.sends else none
  | _ => none

/-- A caller attempts what it begins to send. -/
theorem Outbound.attemptedBy_of_step {o o' : Outbound} {act : OutAct} (who : Caller)
    (h : o.step act = some o') :
    o'.pool.attemptedBy who = o.pool.attemptedBy who ++ (act.begins who).toList := by
  obtain ⟨who', call, pool, rfl, -, -, -⟩ | ⟨who', pool, rfl, -, -⟩ |
    ⟨rfl, -, rfl⟩ | ⟨e, tx, rfl, -, -, rfl⟩ | ⟨rfl, -, -, -, rfl⟩ | ⟨e, rfl, -, rfl⟩ |
    ⟨e, rfl, -, rfl⟩ | ⟨rfl, -, rfl⟩ | ⟨rfl, -, -, rfl⟩ | ⟨rfl, -, rfl⟩ | ⟨rfl, -, rfl⟩ :=
    step_cases h
  · obtain ⟨-, hwho, rfl⟩ := start_some h
    exact ConnPool.attemptedBy_begun hwho
  · obtain ⟨f, hf, rfl⟩ := call_some h
    rw [ConnPool.attemptedBy_moved hf]
    exact (List.append_nil _).symm
  · exact (List.append_nil _).symm
  · exact (List.append_nil _).symm
  · exact (List.append_nil _).symm
  · exact (List.append_nil _).symm
  · exact (List.append_nil _).symm
  · exact (List.append_nil _).symm
  · exact (List.append_nil _).symm
  · exact (List.append_nil _).symm
  · exact (List.append_nil _).symm

/-! ### The pongs of the task -/

/-- The message of a send of that caller. -/
def Envelope.sentBy (who : Caller) (e : Envelope) : Option Message :=
  if e.caller = who ∧ e.fromSend = true then some e.message else none

/-- The payloads of the messages of a kind. -/
def payloadsOf (kind : Message → Bool) (ms : List Message) : List Bytes :=
  (ms.filter kind).map Message.payload

theorem payloadsOf_isPrefix {kind : Message → Bool} {ms ms' : List Message} (h : ms <+: ms') :
    payloadsOf kind ms <+: payloadsOf kind ms' :=
  (h.filter _).map _

theorem payloadsOf_append (kind : Message → Bool) (ms ms' : List Message) :
    payloadsOf kind (ms ++ ms') = payloadsOf kind ms ++ payloadsOf kind ms' := by
  unfold payloadsOf
  rw [List.filter_append, List.map_append]

namespace Session

variable {config : WebSocketServerConfig} {instantMax : ℕ} {s s' : Session} {act : SessionAct}

/-- The pongs that the task has sent or is sending, accepted or not. -/
def pongsTried (s : Session) : List Bytes :=
  payloadsOf Message.isPong (s.out.pool.attemptedBy .task)

/-- A call of the task begins, which sends no pong. -/
theorem pongsTried_begin {call : ConnCall} {stage : Stage} {t : Session}
    (h : t.begin call stage = some s') :
    s'.pongsTried = t.pongsTried ++ payloadsOf Message.isPong call.pc.sends.toList := by
  obtain ⟨-, hout, -⟩ := begin_some h
  unfold pongsTried
  rw [Outbound.attemptedBy_of_step .task hout, payloadsOf_append]
  rfl

/-- Only what `on_ping` returned makes a pong. -/
theorem pongsTried_of_step (h : s.step config instantMax act = some s')
    (hanswer : act.answer = none) : s'.pongsTried = s.pongsTried := by
  have hnone {call : ConnCall} {stage : Stage} {t : Session} (hbegin : t.begin call stage = some s')
      (hcall : payloadsOf Message.isPong call.pc.sends.toList = []) (ht : t.out = s.out) :
      s'.pongsTried = s.pongsTried := by
    rw [pongsTried_begin hbegin, hcall, List.append_nil]
    unfold pongsTried
    rw [ht]
  have hsame (hout : s'.out = s.out) : s'.pongsTried = s.pongsTried := by
    unfold pongsTried
    rw [hout]
  have hstep {a : OutAct} (hout : s.out.step a = some s'.out) (ha : a.begins .task = none) :
      s'.pongsTried = s.pongsTried := by
    unfold pongsTried
    rw [Outbound.attemptedBy_of_step .task hout, ha]
    exact congrArg _ (List.append_nil _)
  cases act with
  | outside a =>
      obtain ⟨hallows, hout, -⟩ := outside_some h
      refine hstep hout ?_
      cases a with
      | start who call =>
          cases who with
          | task => cases hallows
          | app t => rfl
      | _ => rfl
  | handshaken outcome id =>
      obtain ⟨-, rfl⟩ := handshaken_some h
      exact hsame handshakeEnd_out
  | registered =>
      obtain ⟨-, rfl⟩ := registered_some h
      rfl
  | connected now =>
      obtain ⟨out, -, hout, rfl⟩ := connected_some h
      refine hstep (a := .spawn) ?_ rfl
      rw [hout, enterLoop_out, withOut_out]
  | tick =>
      obtain ⟨-, ⟨vars, why, -, rfl⟩ | ⟨vars, -, hbegin⟩⟩ := tick_some h
      · rfl
      · exact hnone hbegin rfl rfl
  | evicted =>
      obtain ⟨out, -, hout, rfl⟩ := evicted_some h
      exact hstep hout rfl
  | idle =>
      obtain ⟨-, rfl⟩ := idle_some h
      rfl
  | read now result =>
      obtain ⟨-, rfl⟩ := read_some h
      exact hsame afterRead_out
  | callbackReturned pong => cases hanswer
  | callbackPanicked =>
      obtain ⟨-, out, hout, rfl⟩ | ⟨-, rfl⟩ := callbackPanicked_some h
      · exact hstep (a := .abort) hout rfl
      · rfl
  | taskStep =>
      obtain ⟨f, out, -, hout, -, ⟨pc, -, rfl⟩ | ⟨reply, -, rfl⟩⟩ := taskStep_some h
      · exact hstep hout rfl
      · refine hstep (a := .step .task) ?_ rfl
        rw [hout, callReturned_out, withOut_out]
  | teardown => exact hnone (teardown_some h).2 rfl rfl
  | joined => exact hnone (joined_some h).2.2 rfl rfl
  | timedOut => exact hnone (timedOut_some h).2 rfl rfl
  | disconnected =>
      obtain ⟨-, rfl⟩ := disconnected_some h
      rfl

end Session

/-! ### The events of a step happen -/

/-- The callback that the task is in. -/
def Stage.Calls (who : Identity) (call : HandlerCall) : Stage → Prop
  | .connecting => call = .onConnect who.id who.principal
  | .handling callback => call = callback.handlerCall who
  | .disconnecting => call = .onDisconnect who.id who.principal
  | _ => False

/-- The event is what the step does. -/
def SessionEvent.Happens (s : Session) (act : SessionAct) (s' : Session) : SessionEvent → Prop
  | .register id principal => act = .registered ∧ s.identity = some ⟨id, principal⟩
  | .handler call => ∃ who, s.identity = some who ∧ s'.stage.Calls who call
  | .pong payload => act = .callbackReturned payload ∧ s.Idle ∧
      (s'.out.pool.threads.lookup .task).bind (·.pc.sends) = some (.pong payload)
  | .stateClosed => s.stage = .marking ∧ s'.Idle ∧ s'.out.pool.shared.state = .closed
  | .unregister id => act = .disconnected ∧ s.identity.map Identity.id = some id

/-- The payload of a pong. -/
def SessionEvent.ponged : SessionEvent → Option Bytes
  | .pong payload => some payload
  | _ => none

namespace Session

variable {config : WebSocketServerConfig} {instantMax : ℕ} {s s' : Session} {act : SessionAct}

/-- A step adds to the trace what happens in it. -/
def Shows (s : Session) (act : SessionAct) (s' : Session) : Prop :=
  ∃ events, s'.trace = s.trace ++ events ∧ ∀ e ∈ events, e.Happens s act s'

/-- While the connection is being marked, the task is in its call of `set_state(Closed)`. -/
def Marking (s : Session) : Prop :=
  s.stage = .marking → ∃ f, s.out.pool.threads.lookup .task = some f ∧ f.pc = .setState .closed

theorem marking_of_begin {stage : Stage} {t : Session}
    (hbegin : t.begin (.setState .closed) stage = some s') : s'.Marking := by
  intro _
  obtain ⟨-, -, rfl⟩ := begin_some hbegin
  exact ⟨_, lookup_begun.trans (if_pos rfl), rfl⟩

theorem Marking.step (h : s.Marking) (hstep : s.step config instantMax act = some s') :
    s'.Marking := by
  intro hs'
  obtain ⟨hsame, rfl | ⟨a, rfl⟩⟩ | hmoves := stays_or_moves hstep
  · have hs : s.stage = .marking := by rw [← hsame, hs']
    obtain ⟨f, hf, hpc⟩ := h hs
    obtain ⟨g, out, hg, -, -, ⟨pc, hnext, -⟩ | ⟨reply, -, rfl⟩⟩ := taskStep_some hstep
    · -- the call has one access
      rw [hf] at hg
      cases hg
      rw [hpc] at hnext
      cases hnext
    · unfold callReturned at hs'
      rw [withOut_stage, hs] at hs'
      cases hs'
  · obtain ⟨hallows, hout, he⟩ := outside_some hstep
    rw [Outbound.lookup_of_step hout (caller_of_allows hallows)]
    exact h (by rw [← hsame, hs'])
  · rw [hs'] at hmoves
    generalize s.stage = stage at hmoves
    cases hmoves with
    | joined => exact marking_of_begin (joined_some hstep).2.2 hs'
    | timedOut => exact marking_of_begin (timedOut_some hstep).2 hs'

/-- What a step notes happens in it. -/
theorem Notes.happens {events : Identity → List SessionEvent} (h : s.Notes s' act events)
    (hmarking : s.Marking) {who : Identity} (hwho : s.identity = some who) :
    ∀ e ∈ events who, e.Happens s act s' := by
  intro e he
  cases h with
  | registered hs hs' =>
      obtain rfl | he := List.mem_cons.mp he
      · exact ⟨rfl, hwho⟩
      · obtain rfl := List.mem_singleton.mp he
        exact ⟨who, hwho, by rw [hs']; rfl⟩
  | called hs hs' =>
      obtain rfl := List.mem_singleton.mp he
      exact ⟨who, hwho, by rw [hs']; rfl⟩
  | answered hs hout =>
      obtain rfl := List.mem_singleton.mp he
      obtain ⟨-, hidle, hbegun⟩ := Outbound.start_some hout
      refine ⟨rfl, hidle, ?_⟩
      rw [hbegun, lookup_begun, if_pos rfl]
      rfl
  | @closed f reply hs hs' hf hreply hout =>
      obtain rfl | he := List.mem_cons.mp he
      · obtain ⟨g, hg, hpc⟩ := hmarking hs
        rw [hf] at hg
        cases hg
        refine ⟨hs, ?_, ?_⟩
        · unfold Idle
          rw [hout]
          exact lookup_moved_self
        · rw [hout]
          show (f.pc.after .task s.out.pool.shared).state = .closed
          rw [hpc]
          rfl
      · obtain rfl := List.mem_singleton.mp he
        exact ⟨who, hwho, by rw [hs']; rfl⟩
  | unregistered hs =>
      obtain rfl := List.mem_singleton.mp he
      exact ⟨rfl, by rw [hwho]; rfl⟩

theorem shows_of_step (hmarking : s.Marking) (hstep : s.step config instantMax act = some s') :
    s.Shows act s' := by
  obtain hsame | ⟨principal, id, -, -, rfl⟩ | ⟨events, hnotes, hnoted⟩ := shown_of_step hstep
  · refine ⟨[], ?_, nofun⟩
    rw [List.append_nil]
    exact congrArg Prod.snd hsame
  · exact ⟨[], (List.append_nil s.trace).symm, nofun⟩
  · have htrace : s'.trace = (s.note events).trace := congrArg Prod.snd hnoted
    cases hwho : s.identity with
    | none =>
        refine ⟨[], ?_, nofun⟩
        rw [htrace]
        unfold note
        rw [hwho]
        rfl
    | some who =>
        refine ⟨events who, ?_, hnotes.happens hmarking hwho⟩
        rw [htrace]
        unfold note
        rw [hwho]
        rfl

/-- The pongs of the trace are those that the task has tried to send. -/
def PongsTold (s : Session) : Prop := s.pongsTried = s.trace.filterMap SessionEvent.ponged

theorem PongsTold.step (h : s.PongsTold) (hnamed : s.Named)
    (hstep : s.step config instantMax act = some s') : s'.PongsTold := by
  have hkept (hpongs : s'.pongsTried = s.pongsTried)
      (htrace : s'.trace.filterMap SessionEvent.ponged = s.trace.filterMap SessionEvent.ponged) :
      s'.PongsTold := by
    unfold PongsTold
    rw [hpongs, htrace]
    exact h
  cases hanswer : act.answer with
  | none =>
      refine hkept (pongsTried_of_step hstep hanswer) ?_
      obtain hsame | ⟨principal, id, -, -, rfl⟩ | ⟨events, hnotes, hnoted⟩ := shown_of_step hstep
      · rw [show s'.trace = s.trace from congrArg Prod.snd hsame]
      · rfl
      · rw [show s'.trace = (s.note events).trace from congrArg Prod.snd hnoted]
        unfold note
        rw [List.filterMap_append]
        have hnone : (s.identity.elim [] events).filterMap SessionEvent.ponged = [] := by
          cases s.identity with
          | none => rfl
          | some who =>
              cases hnotes with
              | answered => cases hanswer
              | _ => rfl
        rw [hnone, List.append_nil]
  | some pong =>
      cases act with
      | callbackReturned pong =>
          obtain ⟨callback, hs, ⟨-, rfl⟩ | ⟨-, hbegin⟩ | ⟨why, -, rfl⟩⟩ :=
            callbackReturned_some hstep
          · refine hkept ?_ ?_
            · unfold pongsTried
              rw [loopHead_out]
            · rw [show (s.loopHead config instantMax).trace = s.trace from
                congrArg Prod.snd loopHead_shown]
          · obtain ⟨who, hwho⟩ : ∃ who, s.identity = some who := by
              cases hwho : s.identity with
              | some who => exact ⟨who, rfl⟩
              | none =>
                  obtain hs₀ | hdone := hnamed.late hwho
                  · cases hs₀.symm.trans hs
                  · rw [hs] at hdone
                    cases hdone
            have htrace : s'.trace = s.trace ++ [.pong pong] := by
              rw [show s'.trace = (s.note fun _ => [.pong pong]).trace from
                congrArg Prod.snd (begin_shown hbegin)]
              unfold note
              rw [hwho]
              rfl
            have hpongs : s'.pongsTried = s.pongsTried ++ [pong] := pongsTried_begin hbegin
            unfold PongsTold
            rw [hpongs, htrace, List.filterMap_append, h]
            rfl
          · exact hkept rfl rfl
      | _ => cases hanswer

/-- What the trace of a connection is, and what it stands for: nothing without a connection, the
trace of its stage with one; what a step adds to it happens in the step; its pongs are those that
the task has tried to send, and the queue has taken the first of them, and all of them as long as
the connection is not shut and the task is in no call. -/
structure Contract (config : WebSocketServerConfig) (instantMax : ℕ) (acts : List SessionAct)
    (s : Session) : Prop where
  refused : ∀ outcome id, SessionAct.handshaken outcome id ∈ acts →
    (∀ p, outcome ≠ .ok (some p)) →
      s.identity = none ∧ s.trace = [] ∧ s.yielded = [] ∧ s.stage.away = true
  unmade : s.identity = none → s.trace = [] ∧ s.yielded = []
  tells : ∀ who, s.identity = some who →
    SessionAct.handshaken (.ok (some who.principal)) who.id ∈ acts ∧
      s.stage.Tells who s.yielded (answers acts) s.trace
  shows : Along (step config instantMax) Shows (new config) acts
  tried : s.pongsTried = s.trace.filterMap SessionEvent.ponged
  queued : payloadsOf Message.isPong (s.out.tx.sent.filterMap (Envelope.sentBy .task)) <+:
    s.trace.filterMap SessionEvent.ponged
  queuedAll : s.Idle → ¬ s.out.pool.shared.Shut →
    payloadsOf Message.isPong (s.out.tx.sent.filterMap (Envelope.sentBy .task)) =
      s.trace.filterMap SessionEvent.ponged

/-- What carries the contract from step to step. -/
structure Telling (capacity : ℕ) (s : Session) : Prop where
  marking : s.Marking
  named : s.Named
  told : s.PongsTold
  sound : s.out.pool.Sound capacity

theorem telling_new : (new config).Telling config.outboundQueueCapacity :=
  ⟨nofun, named_new, rfl, ConnPool.sound_new _⟩

theorem Telling.step {capacity : ℕ} (h : s.Telling capacity)
    (hstep : s.step config instantMax act = some s') : s'.Telling capacity := by
  refine ⟨h.marking.step hstep, h.named.step hstep, h.told.step h.named hstep, ?_⟩
  obtain he | ⟨a, ha, -⟩ := step_out hstep
  · rw [he]
    exact h.sound
  · exact Outbound.sound_of_step h.sound ha

theorem contract_of_exec {acts : List SessionAct}
    (hrun : exec (step config instantMax) (new config) acts = some s)
    (horderly : ∀ act ∈ acts, act.Orderly config instantMax) :
    s.Contract config instantMax acts := by
  obtain ⟨hrefused, hunmade, htells⟩ := trace_of_run hrun horderly
  have h : s.Telling config.outboundQueueCapacity :=
    exec_invariant (P := Telling config.outboundQueueCapacity) (fun _ _ _ h hs => h.step hs)
      telling_new hrun
  have hsent : s.out.tx.sent.filterMap (Envelope.sentBy .task) = s.out.pool.acceptedBy .task :=
    (h.sound.acceptedBy_eq_sent .task).symm
  have haccepted : payloadsOf Message.isPong (s.out.pool.acceptedBy .task) <+: s.pongsTried :=
    payloadsOf_isPrefix ((h.sound.initial .task).trans (List.prefix_append _ _))
  refine ⟨hrefused, hunmade, htells, ?_, h.told, ?_, fun hidle hshut => ?_⟩
  · exact along_of_invariant (P := Telling config.outboundQueueCapacity)
      (fun _ _ _ h hs => ⟨h.step hs, shows_of_step h.marking hs⟩) telling_new
  · rw [hsent, ← h.told]
    exact haccepted
  · rw [hsent, ← h.told, h.sound.acceptedBy_eq hshut]
    unfold pongsTried
    rw [ConnPool.attemptedBy_of_idle hidle]

end Session

/-! ### The calls of the room manager -/

/-- The call of the room manager whose end the event is. -/
def SessionEvent.roomOp : SessionEvent → Option RoomOp
  | .register id _ => some (.register id)
  | .unregister id => some (.unregister id)
  | _ => none

/-- The calls of a thread that have returned. -/
def RoomPool.returnedBy {τ : Type} [DecidableEq τ] (p : RoomPool τ) (who : τ) : List RoomOp :=
  p.log.filterMap fun e => if e.thread = who then some e.frame.op else none

/-- Only the registration and its end are calls of the room manager. -/
theorem Session.roomOps_of_step {config : WebSocketServerConfig} {instantMax : ℕ} {s s' : Session}
    {act : SessionAct} (hstep : s.step config instantMax act = some s')
    (hact : (TaskAct.session act).operates = false) :
    s'.trace.filterMap SessionEvent.roomOp = s.trace.filterMap SessionEvent.roomOp := by
  obtain hsame | ⟨principal, id, -, -, rfl⟩ | ⟨events, hnotes, hnoted⟩ := shown_of_step hstep
  · rw [show s'.trace = s.trace from congrArg Prod.snd hsame]
  · rfl
  · rw [show s'.trace = (s.note events).trace from congrArg Prod.snd hnoted]
    unfold note
    rw [List.filterMap_append]
    have hnone : (s.identity.elim [] events).filterMap SessionEvent.roomOp = [] := by
      cases s.identity with
      | none => rfl
      | some who =>
          cases hnotes with
          | registered => cases hact
          | unregistered => cases hact
          | _ => rfl
    rw [hnone, List.append_nil]

namespace Serve

variable {config : WebSocketServerConfig} {authorizer : HandshakeAuthorizer} {instantMax : ℕ}
  {s s' : Serve} {act : ServeAct} {i : ℕ}

/-- A step that is no operation on the room manager leaves its maps as they are, and an operation of
task `i` is one of the registration of its connection, under its id and with its principal, or of
the end of it: the manager has the connection, or has it no more. -/
def Operates (i : ℕ) (s : Serve) (act : ServeAct) (s' : Serve) : Prop :=
  (act.mover = none → s'.rooms.shared = s.rooms.shared) ∧
    (act.mover = some (.task i) → ∃ t who pc, s.tasks.lookup i = some t ∧
      t.session.identity = some who ∧ s.rooms.threads.lookup (.task i) = some pc ∧
      s'.rooms.shared = pc.after s.rooms.shared ∧
      (t.session.stage = .registering ∧
          (pc = .registerConnections ⟨who.id, who.principal, i⟩ ∧
              s'.rooms.shared.connections.lookup who.id = some ⟨who.id, who.principal, i⟩ ∨
            pc = .registerIndex who.id ∧
              s'.rooms.shared.connectionRooms.lookup who.id = some ∅) ∨
        t.session.stage = .disconnecting ∧ pc.op = .unregister who.id ∧
          (s'.rooms.threads.lookup (.task i) = none →
            s'.rooms.shared.connections.lookup who.id = none)))

/-- The calls of the room manager that task `i` makes: those of its trace have returned, each
operation of them is what they say, and without a connection there is none. -/
structure Managed (config : WebSocketServerConfig) (authorizer : HandshakeAuthorizer)
    (instantMax : ℕ) (acts : List ServeAct) (s : Serve) (i : ℕ) (t : ServerTask) : Prop where
  session : IsSession config instantMax acts i t
  returned : s.rooms.returnedBy (.task i) = t.session.trace.filterMap SessionEvent.roomOp
  callsAt : t.CallsAt i (s.rooms.threads.lookup (.task i))
  operates : Along (step config authorizer instantMax) (Operates i) (new config) acts
  untouched : t.session.identity = none → ∀ act ∈ acts, act.mover ≠ some (.task i)

theorem task_of_mover (h : act.mover = some (.task i)) :
    ∃ a order, act = .task i a order ∧ a.operates = true := by
  cases act with
  | task j a order =>
      simp only [ServeAct.mover] at h
      split_ifs at h with hoperates
      cases h
      exact ⟨a, order, rfl, hoperates⟩
  | app a => cases a <;> cases h
  | _ => cases h

theorem operates_of_step (h : s.Coupled config authorizer instantMax)
    (hstep : s.step config authorizer instantMax act = some s') : s.Operates i act s' := by
  obtain ⟨hrooms, -, hnone⟩ | ⟨_, _, -, -, hrooms, -, hnone⟩ |
    ⟨who', order, pc, next, hwho', hpc, hop, hrooms, -⟩ := rooms_cases hstep
  · refine ⟨fun _ => by rw [hrooms], fun hmover => ?_⟩
    rw [hnone] at hmover
    cases hmover
  · refine ⟨fun _ => by rw [hrooms]; rfl, fun hmover => ?_⟩
    rw [hnone] at hmover
    cases hmover
  · refine ⟨fun hmover => ?_, fun hmover => ?_⟩
    · rw [hwho'] at hmover
      cases hmover
    rw [hmover] at hwho'
    cases hwho'
    obtain ⟨t, -, ht, -⟩ := h.authorized.caller i pc hpc
    have hat := h.callsAt i t ht
    rw [hpc] at hat
    obtain ⟨who, hwho, hcall⟩ := hat
    have hshared : s'.rooms.shared = pc.after s.rooms.shared := by rw [hrooms, moved_shared]
    refine ⟨t, who, pc, ht, hwho, hpc, hshared, ?_⟩
    rw [hshared]
    obtain ⟨hs, rfl | rfl⟩ | ⟨hs, hunregister⟩ := hcall
    · exact .inl ⟨hs, .inl ⟨rfl, Finmap.lookup_insert _⟩⟩
    · exact .inl ⟨hs, .inr ⟨rfl, Finmap.lookup_insert _⟩⟩
    · refine .inr ⟨hs, hunregister, fun hreturned => ?_⟩
      rw [hrooms, lookup_moved_self] at hreturned
      cases next with
      | inl pc' => cases hreturned
      | inr reply =>
          obtain rfl := unregisterConnections_of_reply hop hunregister
          exact Finmap.lookup_erase _ _

/-- What each task has called has returned as its trace says. -/
def Logged (s : Serve) : Prop :=
  ∀ i, s.rooms.returnedBy (.task i) =
    (s.tasks.lookup i).elim [] fun t => t.session.trace.filterMap SessionEvent.roomOp

theorem logged_new : (new config).Logged := fun _ => rfl

theorem returnedBy_operated {who who' : RoomThread} {pc : RoomPc} {next : RoomPc ⊕ RoomReply} :
    (s.operated who' pc next).rooms.returnedBy who = s.rooms.returnedBy who ++
      if who' = who ∧ next.isRight = true then [pc.op] else [] := by
  cases next with
  | inl pc' => simp [operated, RoomPool.returnedBy, RoomPool.moved, CallPool.moved]
  | inr reply =>
      have hlog : (s.operated who' pc (.inr reply)).rooms.log =
          s.rooms.log ++ [⟨who', pc, reply⟩] := rfl
      unfold RoomPool.returnedBy
      rw [hlog, List.filterMap_append]
      by_cases he : who' = who <;> simp [he]

theorem roomOps_of_returns {t t' : ServerTask} {a : TaskAct} {pc : RoomPc}
    (hstep : t.step config authorizer instantMax a = some t') (hreturns : a.returns = true)
    (hat : t.CallsAt i (some pc)) :
    t'.session.trace.filterMap SessionEvent.roomOp =
      t.session.trace.filterMap SessionEvent.roomOp ++ [pc.op] := by
  obtain ⟨who, hwho, hcall⟩ := hat
  have hnote (events : Identity → List SessionEvent) :
      (t.session.note events).trace = t.session.trace ++ events who := by
    unfold Session.note
    rw [hwho]
    rfl
  cases a with
  | session act =>
      obtain ⟨-, hsession, -⟩ := ServerTask.session_some hstep
      cases act with
      | registered =>
          obtain ⟨hs, he⟩ := Session.registered_some hsession
          obtain ⟨-, hpc⟩ | ⟨hs', -⟩ := hcall
          · have hop : pc.op = .register who.id := by
              obtain rfl | rfl := hpc <;> rfl
            have htrace : t'.session.trace = t.session.trace ++ opening who := by
              rw [he]
              exact hnote opening
            rw [htrace, List.filterMap_append, hop]
            rfl
          · cases hs.symm.trans hs'
      | disconnected =>
          obtain ⟨hs, he⟩ := Session.disconnected_some hsession
          obtain ⟨hs', -⟩ | ⟨-, hop⟩ := hcall
          · cases hs.symm.trans hs'
          · have htrace : t'.session.trace = t.session.trace ++ [.unregister who.id] := by
              rw [he]
              exact hnote fun who => [.unregister who.id]
            rw [htrace, List.filterMap_append, hop]
            rfl
      | _ => cases hreturns
  | _ => cases hreturns

/-- A step of a task that returns from no call notes none. -/
theorem roomOps_of_task {t t' : ServerTask} {a : TaskAct}
    (hstep : t.step config authorizer instantMax a = some t') (hreturns : a.returns = false) :
    t'.session.trace.filterMap SessionEvent.roomOp =
      t.session.trace.filterMap SessionEvent.roomOp := by
  cases a with
  | callback request =>
      obtain ⟨-, -, rfl⟩ := ServerTask.callback_some hstep
      rfl
  | upgraded outcome id =>
      exact Session.roomOps_of_step (ServerTask.upgraded_some hstep).1 rfl
  | session act => exact Session.roomOps_of_step (ServerTask.session_some hstep).2.1 hreturns
  | leave =>
      obtain ⟨-, rfl⟩ := ServerTask.leave_some hstep
      rfl
  | room =>
      obtain rfl := ServerTask.room_some hstep
      rfl
  | release =>
      obtain ⟨-, -, rfl⟩ := ServerTask.release_some hstep
      rfl

theorem Logged.step (h : s.Logged) (hcoupled : s.Coupled config authorizer instantMax)
    (hstep : s.step config authorizer instantMax act = some s') : s'.Logged := by
  intro i
  obtain ⟨hact, hsame, -⟩ | ⟨-, hi, hi', hrooms⟩ |
    ⟨a, order, t, t', rfl, hi, htask, hi', hshared⟩ := task_of_step hstep i
  · rw [hsame, ← h i]
    obtain ⟨hrooms, -⟩ | ⟨_, _, -, -, hrooms, -⟩ |
      ⟨who, _, pc, next, hmover, -, -, hrooms, -⟩ := rooms_cases hstep
    · rw [hrooms]
    · rw [hrooms]
      rfl
    · have hne : who ≠ .task i := by
        rintro rfl
        obtain ⟨a, order, rfl, -⟩ := task_of_mover hmover
        exact hact a order rfl
      have hoperated : (s.operated who pc next).rooms.returnedBy (.task i) =
          s.rooms.returnedBy (.task i) ++
            if who = .task i ∧ next.isRight = true then [pc.op] else [] := returnedBy_operated
      rw [if_neg fun he => hne he.1, List.append_nil] at hoperated
      rw [hrooms]
      exact hoperated
  · rw [hi', hrooms, h i, hi]
    rfl
  · have hbefore : s.rooms.returnedBy (.task i) =
        t.session.trace.filterMap SessionEvent.roomOp := by
      rw [h i, hi]
      rfl
    rw [hi']
    show _ = t'.session.trace.filterMap SessionEvent.roomOp
    obtain ⟨outcome, id, who, rfl, -, -, rfl⟩ | ⟨who, rfl, -, -, rfl⟩ |
      ⟨pc, next, hpc, -, rfl, ⟨rfl, pc', rfl⟩ | ⟨hreturns, reply, rfl⟩⟩ | ⟨rfl, rfl⟩ |
      ⟨-, -, hoperates, rfl, -, -⟩ := shared_cases hshared
    · rw [roomOps_of_task htask rfl, ← hbefore]
      rfl
    · rw [roomOps_of_task htask rfl, ← hbefore]
      rfl
    · rw [roomOps_of_task htask rfl, ← hbefore]
      rfl
    · have hat := hcoupled.callsAt i t hi
      rw [show s.rooms.threads.lookup (.task i) = some pc from hpc] at hat
      rw [roomOps_of_returns htask hreturns hat, ← hbefore, returnedBy_operated,
        if_pos ⟨rfl, rfl⟩]
    · rw [roomOps_of_task htask rfl, ← hbefore]
    · have hreturns : a.returns = false := by
        cases a with
        | session act => exact hoperates
        | _ => rfl
      rw [roomOps_of_task htask hreturns, ← hbefore]

theorem identity_of_mover {acts : List ServeAct}
    (hrun : exec (step config authorizer instantMax) (new config) acts = some s)
    (hmover : ∃ act ∈ acts, act.mover = some (.task i)) :
    ∃ t who, s.tasks.lookup i = some t ∧ t.session.identity = some who := by
  have h : s.Coupled config authorizer instantMax ∧
      ((∃ act ∈ acts, act.mover = some (.task i)) →
        ∃ t who, s.tasks.lookup i = some t ∧ t.session.identity = some who) := by
    refine exec_history (P := fun acts s => s.Coupled config authorizer instantMax ∧
      ((∃ act ∈ acts, act.mover = some (.task i)) →
        ∃ t who, s.tasks.lookup i = some t ∧ t.session.identity = some who)) ?_ ?_ hrun
    · rintro acts s₁ act s₂ ⟨hcoupled, hhas⟩ hstep
      refine ⟨hcoupled.step hstep, ?_⟩
      rintro ⟨act', hmem, hmover'⟩
      have hbefore : ∃ t who, s₁.tasks.lookup i = some t ∧ t.session.identity = some who := by
        obtain hmem | hmem := List.mem_append.mp hmem
        · exact hhas ⟨act', hmem, hmover'⟩
        · obtain rfl := List.mem_singleton.mp hmem
          obtain ⟨t, who, -, ht, hwho, -⟩ := (operates_of_step hcoupled hstep).2 hmover'
          exact ⟨t, who, ht, hwho⟩
      obtain ⟨t, who, ht, hwho⟩ := hbefore
      obtain ⟨t', ht', hwho'⟩ := hcoupled.authorized.identity_step hstep ⟨t, ht, hwho⟩
      exact ⟨t', who, ht', hwho'⟩
    · exact ⟨coupled_new, fun ⟨_, hmem, _⟩ => by cases hmem⟩
  exact h.2 hmover

theorem managed_of_exec {acts : List ServeAct} {t : ServerTask}
    (hrun : exec (step config authorizer instantMax) (new config) acts = some s)
    (ht : s.tasks.lookup i = some t) :
    s.Managed config authorizer instantMax acts i t := by
  obtain ⟨hcoupled, hlogged⟩ : s.Coupled config authorizer instantMax ∧ s.Logged :=
    exec_invariant (P := fun s => s.Coupled config authorizer instantMax ∧ s.Logged)
      (fun _ _ _ h hs => ⟨h.1.step hs, h.2.step h.1 hs⟩) ⟨coupled_new, logged_new⟩ hrun
  refine ⟨isSession_of_exec hrun ht, ?_, hcoupled.callsAt i t ht, ?_, ?_⟩
  · rw [hlogged i, ht]
    rfl
  · exact along_of_invariant (P := Coupled config authorizer instantMax)
      (fun _ _ _ h hs => ⟨h.step hs, operates_of_step h hs⟩) coupled_new
  · intro hnone act hmem hmover
    obtain ⟨t', who, ht', hwho⟩ := identity_of_mover hrun ⟨act, hmem, hmover⟩
    cases ht.symm.trans ht'
    rw [hnone] at hwho
    cases hwho

/-- **The contract of a connection**: in every run of a connection whose callbacks return and whose
timers do not panic, its trace is that of its stage, and it stands for what the task does
(`Session.Contract`); and in every run of the server, whatever the other tasks and the application
do, the calls in the trace of a task are its calls of the room manager (`Managed`). -/
theorem contract (config : WebSocketServerConfig) (instantMax : ℕ) :
    (∀ acts s, exec (Session.step config instantMax) (.new config) acts = some s →
      (∀ act ∈ acts, act.Orderly config instantMax) → s.Contract config instantMax acts) ∧
    ∀ authorizer acts s, exec (step config authorizer instantMax) (new config) acts = some s →
      ∀ i t, s.tasks.lookup i = some t → s.Managed config authorizer instantMax acts i t :=
  ⟨fun _ _ hrun horderly => Session.contract_of_exec hrun horderly,
    fun _ _ _ hrun _ _ ht => managed_of_exec hrun ht⟩

/-- A connection that sends a message, is pinged by the server, pings it, and closes. -/
def pingedThenClosed : List SessionAct :=
  [.handshaken (.ok (some .anonymous)) "a", .registered, .connected 0,
    .read 1 (.message (.binary [1])), .callbackReturned [], .tick, .taskStep, .taskStep,
    .read 2 (.message (.ping [7])), .callbackReturned [8], .taskStep, .taskStep,
    .read 3 (.message (.close none)), .teardown, .taskStep, .taskStep, .outside .recv,
    .outside .accept, .outside .recv, .outside .accept, .outside .recv, .outside .accept,
    .outside .sinkClosed, .joined, .taskStep, .disconnected]

/-- One of two connections is upgraded, joins a room before its registration is done, closes and is
unregistered; the handshake of the other one times out. -/
def oneOfTwo : List ServeAct :=
  [.accept 0, .accept 1, .task 0 (.callback ⟨"GET", "/", []⟩) [],
    .task 0 (.upgraded .accepted "a") [], .task 1 (.upgraded .timedOut "b") [], .task 0 .room [],
    .app (.start 0 (.joinRoom "a" "r")), .task 0 (.session .registered) [], .app (.step 0 []),
    .app (.step 0 []), .app (.step 0 []), .app (.step 0 []), .task 0 (.session (.connected 0)) [],
    .task 0 (.session (.read 1 (.message (.close none)))) [], .task 0 (.session .teardown) [],
    .task 0 (.session .taskStep) [], .task 0 (.session .taskStep) [],
    .task 0 (.session .timedOut) [], .task 0 (.session .taskStep) [], .task 0 .leave [],
    .task 0 .room ["r"], .task 0 .room [], .task 0 .room [], .task 0 .room [],
    .task 0 (.session .disconnected) []]

theorem contract_pingedThenClosed :
    (∃ s, exec (Session.step .default (10 ^ 18)) (.new .default) pingedThenClosed = some s ∧
      s.stage = .finished ∧
      s.stage.Tells ⟨"a", .anonymous⟩ s.yielded (answers pingedThenClosed) s.trace ∧
      s.pongsTried = [[8]]) ∧
    ∃ s, exec (step .default AllowAnonymous (10 ^ 18)) (new .default) oneOfTwo = some s ∧
      s.rooms.returnedBy (.task 0) = [.register "a", .unregister "a"] ∧
      ∀ act ∈ oneOfTwo, act.mover ≠ some (.task 1) := by
  obtain ⟨hsession, hserve⟩ := contract .default (10 ^ 18)
  constructor
  · obtain ⟨s, hrun, hstage, hwho, htrace⟩ : ∃ s,
        exec (Session.step .default (10 ^ 18)) (.new .default) pingedThenClosed = some s ∧
          s.stage = .finished ∧ s.identity = some ⟨"a", .anonymous⟩ ∧
          s.trace.filterMap SessionEvent.ponged = [[8]] := by decide
    have h := hsession pingedThenClosed s hrun (by decide)
    exact ⟨s, hrun, hstage, (h.tells _ hwho).2, by rw [h.tried, htrace]⟩
  · obtain ⟨s, hrun, ⟨hzero, htrace⟩, hone, hnone⟩ : ∃ s,
        exec (step .default AllowAnonymous (10 ^ 18)) (new .default) oneOfTwo = some s ∧
          ((s.tasks.lookup 0).isSome = true ∧
            ((s.tasks.lookup 0).elim [] fun t =>
              t.session.trace.filterMap SessionEvent.roomOp) =
                [.register "a", .unregister "a"]) ∧
          (s.tasks.lookup 1).isSome = true ∧
            (s.tasks.lookup 1).bind (·.session.identity) = none := by decide
    obtain ⟨t, ht⟩ := Option.isSome_iff_exists.mp hzero
    obtain ⟨t', ht'⟩ := Option.isSome_iff_exists.mp hone
    rw [ht] at htrace
    rw [ht'] at hnone
    have h := hserve AllowAnonymous oneOfTwo s hrun 0 t ht
    have h' := hserve AllowAnonymous oneOfTwo s hrun 1 t' ht'
    exact ⟨s, hrun, h.returned.trans htrace, h'.untouched hnone⟩

end Serve
end ArmatureWebsocket
