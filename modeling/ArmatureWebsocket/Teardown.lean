import ArmatureWebsocket.Session

/-! # Teardown and the Close frame

When the read loop has ended, the task calls `close` and waits for the writer.  The writer ends at
a Close or when all handles are gone, and the room manager and the task itself keep handles.  So
everything depends on the Close: `close` offers it to the queue once, and if the queue is full at
that moment it asks for an eviction instead, which after the loop nobody takes.  The writer then
drains the queue and waits for a message that does not come (`Stranded`), until the task gives up
and aborts it.  `fullAtTeardown` is such a run.

If the queue has room for the task's Close, or already holds one, the session is never stranded,
and a writer whose sink takes every frame finishes by handing over a Close (`never_stranded`).  A
session that is stranded stays so whatever sends are made (`stranded_remains`). -/

namespace ArmatureWebsocket

open Execution CallPool

/-- The call is still going to offer a message to the queue. -/
def ConnPc.enqueues : ConnPc → Bool
  | .sendTry _ => true
  | .closeState => true
  | .closeTry => true
  | _ => false

/-- The task has made its `close`. -/
def Stage.pastClose : Stage → Bool
  | .flushing => true
  | .marking => true
  | .disconnecting => true
  | .finished => true
  | _ => false

/-- The task is in its `close` or past it. -/
def Stage.late (stage : Stage) : Bool := stage == .closing || stage.pastClose

theorem not_enqueues_of_connStep {who : Caller} {c : ConnectionCell} {pc pc' : ConnPc}
    (h : (connStep who c pc).2 = .inl pc') (hstate : c.state ≠ .«open»)
    (hpc : pc.enqueues = false) : pc'.enqueues = false := by
  obtain ⟨m, -, -, hopen⟩ | ⟨m, rfl, -⟩ | ⟨m, -, rfl⟩ | ⟨rfl, -⟩ | ⟨rfl, -⟩ := connStep_next h
  · exact absurd hopen hstate
  · cases hpc
  · rfl
  · cases hpc
  · cases hpc

/-- The step begins no `close`, does not abort the writer and does not drop the last handle. -/
def OutAct.Passive : OutAct → Prop
  | .start _ call => call.pc.enqueues = false
  | .abort => False
  | .dropSenders => False
  | _ => True

/-- Nobody begins a `close` from outside, aborts the writer or drops the last handle, and no
callback panics. -/
def SessionAct.Passive : SessionAct → Prop
  | .outside act => act.Passive
  | .callbackPanicked => False
  | _ => True

/-- A step of the writer or of the sink that takes messages. -/
def OutAct.Drains (act : OutAct) : Prop := act = .recv ∨ act = .accept

namespace Outbound

/-- A Close has been enqueued, or there is nobody who could take one. -/
def CloseQueued (o : Outbound) : Prop := ¬ NoClose o.tx.sent ∨ o.tx.rxOpen = false

instance (o : Outbound) : Decidable o.CloseQueued := inferInstanceAs (Decidable (_ ∨ _))

variable {o o' : Outbound}

theorem CloseQueued.step {act : OutAct} (h : o.CloseQueued) (hstep : o.step act = some o') :
    o'.CloseQueued := by
  obtain ⟨hsent, hrx⟩ := sent_prefix_of_step hstep
  obtain h | h := h
  · exact .inl fun hno => h (hno.of_prefix hsent)
  · exact .inr (hrx h)

theorem closeQueued_of_reply {who : Caller} {f : InFlight} {reply : ConnReply}
    (hat : f.pc = .closeTry) (hreply : (connStep who o.pool.shared f.pc).2 = .inr reply) :
    CloseQueued { o with
      pool := o.pool.moved who f (connStep who o.pool.shared f.pc).2 } := by
  rw [hat] at hreply
  have haccepts : o.tx.Accepts := accepts_of_closeTry hreply
  have hsent : (f.pc.after who o.pool.shared).tx.sent = o.tx.sent ++ [⟨who, .close, .close⟩] := by
    rw [hat]
    exact (BoundedQueue.offer_of_accepts _ haccepts).2
  refine .inl fun hno => ?_
  have hmem : (⟨who, .close, .close⟩ : Envelope) ∈ (f.pc.after who o.pool.shared).tx.sent := by
    rw [hsent]
    exact List.mem_append_right _ List.mem_cons_self
  unfold tx at hno
  rw [moved_shared] at hno
  cases hno _ hmem

/-- What the writer of an open queue has not received yet contains every Close. -/
theorem CloseQueued.queue (h : o.CloseQueued) (hrx : o.tx.rxOpen = true)
    (hreceived : NoClose o.tx.received) : ¬ NoClose o.tx.queue := by
  obtain h | h := h
  · intro hno
    apply h
    rw [o.tx.sent_eq hrx]
    intro e he
    obtain he | he := List.mem_append.mp he
    · exact hreceived e he
    · exact hno e he
  · rw [hrx] at h
    cases h

/-- The writer waits at an empty queue without having handed over a Close, new sends are refused,
and no call in progress is going to enqueue anything. -/
def Silent (o : Outbound) : Prop :=
  o.writer = .waiting ∧ o.tx.queue = [] ∧ NoClose o.handed ∧ o.pool.shared.state ≠ .«open» ∧
    ¬ o.pool.AnyAt fun f => f.pc.enqueues = true

instance (o : Outbound) : Decidable o.Silent :=
  inferInstanceAs (Decidable (_ ∧ _ ∧ NoClose _ ∧ _ ∧ ¬ CallPool.AnyAt _ _))

/-- Left alone with its sink, the writer comes to hand over a Close and closes the sink. -/
def FinishesWithClose (o : Outbound) : Prop :=
  ∃ acts o', (∀ act ∈ acts, act.Drains) ∧ exec Outbound.step o acts = some o' ∧
    o'.writer = .closing ∧ ∃ e ∈ o'.handed, e.message.isClose = true

theorem FinishesWithClose.of_step {act : OutAct} (h : o'.FinishesWithClose) (hact : act.Drains)
    (hstep : o.step act = some o') : o.FinishesWithClose := by
  obtain ⟨acts, o₁, hacts, hrun, hend⟩ := h
  refine ⟨act :: acts, o₁, ?_, exec_cons_iff.mpr ⟨o', hstep, hrun⟩, hend⟩
  intro act' hact'
  obtain rfl | hact' := List.mem_cons.mp hact'
  · exact hact
  · exact hacts act' hact'

theorem step_recv {e : Envelope} {rest : List Envelope} (h : o.Reading) (hw : o.writer = .waiting)
    (hq : o.tx.queue = e :: rest) :
    ∃ o', o.step .recv = some o' ∧ o'.tx.queue = rest ∧
      o'.writer = if e.message.sendable then .sending e else .waiting := by
  have hrx : o.tx.rxOpen = true := h.rx_open (by rw [hw]; decide)
  obtain ⟨tx, hrecv, htx⟩ := BoundedQueue.exists_recv?_some hrx hq
  refine ⟨{ o with
    pool := o.pool.withTx tx
    writer := if e.message.sendable then .sending e else .waiting }, ?_, htx, rfl⟩
  simp only [Outbound.step]
  rw [hw, hrecv]

theorem step_accept {e : Envelope} (hw : o.writer = .sending e) :
    o.step .accept = some { o with
      handed := o.handed ++ [e]
      writer := if e.message.isClose then .closing else .waiting } := by
  simp only [Outbound.step]
  rw [hw]

theorem finishesWithClose_of_sending {e : Envelope} (hw : o.writer = .sending e)
    (hclose : e.message.isClose = true) : o.FinishesWithClose := by
  have hstep := step_accept hw
  rw [if_pos hclose] at hstep
  refine FinishesWithClose.of_step ?_ (.inr rfl) hstep
  refine ⟨[], _, ?_, rfl, rfl, e, ?_, hclose⟩
  · intro act hact
    cases hact
  · exact List.mem_append_right _ List.mem_cons_self

theorem finishesWithClose_of_waiting (h : o.Reading) (hw : o.writer = .waiting)
    (hclose : ¬ NoClose o.tx.queue) : o.FinishesWithClose := by
  induction hq : o.tx.queue generalizing o with
  | nil =>
      rw [hq] at hclose
      exact absurd (fun e he => by cases he) hclose
  | cons e rest ih =>
      obtain ⟨o₁, hstep, hrest, hw₁⟩ := step_recv h hw hq
      have h₁ : o₁.Reading := h.step hstep
      refine FinishesWithClose.of_step ?_ (.inl rfl) hstep
      by_cases hec : e.message.isClose = true
      · rw [if_pos (Message.sendable_of_isClose hec)] at hw₁
        exact finishesWithClose_of_sending hw₁ hec
      · have hclose₁ : ¬ NoClose o₁.tx.queue := by
          rw [hrest]
          intro hno
          apply hclose
          rw [hq]
          intro e' he'
          obtain rfl | he' := List.mem_cons.mp he'
          · simpa using hec
          · exact hno e' he'
        split_ifs at hw₁ with hs
        · -- the message is handed over, and the writer waits again
          have hstep' := step_accept hw₁
          rw [if_neg hec] at hstep'
          exact (ih (h₁.step hstep') rfl hclose₁ hrest).of_step (.inr rfl) hstep'
        · exact ih h₁ hw₁ hclose₁ hrest

theorem CloseQueued.finishes (hclose : o.CloseQueued) (h : o.Reading)
    (hw : o.writer = .waiting ∨ ∃ e, o.writer = .sending e) : o.FinishesWithClose := by
  obtain hw | ⟨e, hw⟩ := hw
  · have hrx : o.tx.rxOpen = true := h.rx_open (by rw [hw]; decide)
    exact finishesWithClose_of_waiting h hw (hclose.queue hrx (h.no_close (.inr hw)))
  · by_cases hec : e.message.isClose = true
    · exact finishesWithClose_of_sending hw hec
    · have hrx : o.tx.rxOpen = true := h.rx_open (by rw [hw]; simp)
      have hstep := step_accept hw
      rw [if_neg hec] at hstep
      have h₁ := h.step hstep
      have hno := h₁.no_close (.inr rfl)
      exact (finishesWithClose_of_waiting h₁ rfl (hclose.queue hrx hno)).of_step (.inr rfl) hstep

/-- Nobody gives a silent outbound side a message, whatever sends are made: it takes a `close`, an
abort or the end of the last handle to change that. -/
theorem Silent.step {capacity : ℕ} {act : OutAct} (h : o.Silent) (hsenders : o.senders = true)
    (hsound : o.pool.Sound capacity) (hstep : o.step act = some o') (hact : act.Passive) :
    o'.Silent ∧ o'.senders = true := by
  obtain ⟨hw, hqueue, hhanded, hstate, hcalls⟩ := h
  obtain ⟨who, call, pool, rfl, -, -, -⟩ | ⟨who, pool, rfl, -, -⟩ |
    ⟨-, hw', -⟩ | ⟨e, tx, -, -, hrecv, -⟩ | ⟨-, -, hs, -, -⟩ | ⟨e, -, hw', -⟩ | ⟨e, -, hw', -⟩ |
    ⟨-, hw', -⟩ | ⟨rfl, -, -, -⟩ | ⟨rfl, -, -⟩ | ⟨-, -, rfl⟩ := step_cases hstep
  · obtain ⟨-, hwho, rfl⟩ := start_some hstep
    refine ⟨⟨hw, hqueue, hhanded, hstate, fun hany => ?_⟩, hsenders⟩
    obtain hany | hcall := (anyAt_begun hwho).mp hany
    · exact hcalls hany
    · rw [hact] at hcall
      cases hcall
  · obtain ⟨f, hf, rfl⟩ := call_some hstep
    have hpc : f.pc.enqueues = false := by
      by_contra hpc
      exact hcalls ⟨who, f, hf, by simpa using hpc⟩
    have htx : (f.pc.after who o.pool.shared).tx = o.tx := by
      obtain he | ⟨m, hat, -⟩ | ⟨hat, -⟩ := after_tx who o.pool.shared f.pc
      · exact he
      · rw [hat] at hpc
        cases hpc
      · rw [hat] at hpc
        cases hpc
    refine ⟨⟨hw, ?_, hhanded, ?_, fun hany => ?_⟩, hsenders⟩
    · unfold tx
      rw [moved_shared, htx]
      exact hqueue
    · rw [moved_shared]
      exact hsound.state_ne_open_after hf hstate
    · obtain ⟨who', f', -, hf', hpc'⟩ | ⟨f', hnext, hpc'⟩ := anyAt_moved.mp hany
      · exact hcalls ⟨who', f', hf', hpc'⟩
      · cases hpc₁ : (connStep who o.pool.shared f.pc).2 with
        | inl pc' =>
            rw [hpc₁] at hnext
            cases hnext
            rw [not_enqueues_of_connStep hpc₁ hstate hpc] at hpc'
            cases hpc'
        | inr reply =>
            rw [hpc₁] at hnext
            cases hnext
  · rw [hw] at hw'
    cases hw'
  · obtain ⟨-, hcons, -⟩ := BoundedQueue.recv?_some hrecv
    rw [hqueue] at hcons
    cases hcons
  · rw [hsenders] at hs
    cases hs
  · rw [hw] at hw'
    cases hw'
  · rw [hw] at hw'
    cases hw'
  · rw [hw] at hw'
    cases hw'
  · exact hact.elim
  · exact hact.elim
  · exact ⟨⟨hw, hqueue, hhanded, hstate, hcalls⟩, hsenders⟩

end Outbound

namespace Session

variable {config : WebSocketServerConfig} {instantMax : ℕ} {s s' : Session}

/-- Past the task's `close` the writer waits for a message that does not come. -/
def Stranded (s : Session) : Prop := s.stage.pastClose = true ∧ s.out.Silent

instance (s : Session) : Decidable s.Stranded := inferInstanceAs (Decidable (_ ∧ _))

/-- When the task offers its Close, the queue has room for it or one has been enqueued already (or
the writer is gone). -/
def ClosesWithRoom (s : Session) : SessionAct → Session → Prop
  | .taskStep, _ => s.stage = .closing → ∀ f ∈ s.out.pool.threads.lookup .task,
      f.pc = .closeTry → s.out.tx.Accepts ∨ s.out.CloseQueued
  | _, _ => True

instance (s : Session) (act : SessionAct) (s' : Session) : Decidable (ClosesWithRoom s act s') :=
  match act with
  | .taskStep => inferInstanceAs (Decidable (_ → ∀ f ∈ _, _ → _))
  | .outside _ | .handshaken _ _ | .registered | .connected _ | .tick | .evicted | .idle | .read _ _
  | .callbackReturned _ | .callbackPanicked | .teardown | .joined | .timedOut | .disconnected =>
      .isTrue trivial

/-! ### Before the teardown -/

theorem guarded_late {call : LibraryCall} {next : Session} (h : next.stage.late = false) :
    (guarded instantMax s call next).stage.late = false := by
  obtain ⟨-, he⟩ | ⟨-, he⟩ := guarded_cases instantMax s call next
  · rw [he]
    exact h
  · rw [he]
    rfl

theorem loopHead_late : (s.loopHead config instantMax).stage.late = false := guarded_late rfl

theorem handshakeEnd_late {outcome : WebSocketResult (Option Principal)} {id : ConnectionId} :
    (s.handshakeEnd config instantMax outcome id).stage.late = false := by
  refine guarded_late ?_
  cases outcome with
  | error e => rfl
  | ok principal =>
      cases principal with
      | none => rfl
      | some principal => exact guarded_late rfl

theorem enterLoop_late {now : ℕ} :
    (s.enterLoop config instantMax now).stage.late = false := guarded_late loopHead_late

theorem afterRead_late {now : ℕ} {result : ReadResult} :
    (s.afterRead now result).stage.late = false := by
  unfold afterRead
  split <;> rfl

/-! ### The task's `close` -/

/-- The task's `close` either is still going to offer its Close or has seen to one, and past it a
Close is enqueued. -/
structure SeesToClose (s : Session) : Prop where
  calling : s.stage = .closing → ∀ f ∈ s.out.pool.threads.lookup .task,
    f.pc = .closeState ∨ f.pc = .closeTry ∨ f.pc = .closeNotify ∧ s.out.CloseQueued
  past : s.stage.pastClose = true → s.out.CloseQueued

theorem SeesToClose.of_early (h : s.stage.late = false) : s.SeesToClose where
  calling := fun hstage => by rw [hstage] at h; cases h
  past := fun hstage => by
    unfold Stage.late at h
    rw [hstage, Bool.or_true] at h
    cases h

theorem SeesToClose.of_ne (h : s.stage ≠ .closing)
    (hpast : s.stage.pastClose = true → s.out.CloseQueued) : s.SeesToClose :=
  ⟨fun hs => absurd hs h, hpast⟩

theorem SeesToClose.of_out (h : s.SeesToClose) (hstage : s'.stage = s.stage)
    (hlookup : s'.out.pool.threads.lookup .task = s.out.pool.threads.lookup .task)
    (hclose : s.out.CloseQueued → s'.out.CloseQueued) : s'.SeesToClose where
  calling := fun hs f hf => by
    rw [hstage] at hs
    rw [hlookup] at hf
    exact (h.calling hs f hf).imp_right fun hpc => hpc.imp_right fun hn => ⟨hn.1, hclose hn.2⟩
  past := fun hs => hclose (h.past (hstage ▸ hs))

/-- An access of the task's call. -/
theorem SeesToClose.taskStep (h : s.SeesToClose)
    (hstep : s.step config instantMax .taskStep = some s') (hroom : ClosesWithRoom s .taskStep s') :
    s'.SeesToClose := by
  obtain ⟨f, out, hf, hout, he, hnext⟩ := taskStep_some hstep
  have hclose : s.out.CloseQueued → out.CloseQueued := fun hc => hc.step hout
  obtain ⟨pc, hpc, rfl⟩ | ⟨reply, hreply, rfl⟩ := hnext
  · refine ⟨fun hs f' hf' => ?_, fun hs => hclose (h.past hs)⟩
    have hpc' : f'.pc = pc := by
      rw [withOut_out, he, hpc, lookup_moved_self] at hf'
      cases hf'
      rfl
    rw [hpc', withOut_out]
    obtain hat | hat | ⟨hat, -⟩ := h.calling hs f hf
    · rw [hat] at hpc
      cases hpc
      exact .inr (.inl rfl)
    · obtain ⟨m, h', -⟩ | ⟨m, h', -⟩ | ⟨m, h', -⟩ | ⟨h', -⟩ | ⟨-, rfl, hfull⟩ := connStep_next hpc
      · rw [hat] at h'; cases h'
      · rw [hat] at h'; cases h'
      · rw [hat] at h'; cases h'
      · rw [hat] at h'; cases h'
      · -- the queue was full, so a Close had been enqueued before
        have hqueued : s.out.CloseQueued := (hroom hs f hf hat).resolve_left hfull
        exact .inr (.inr ⟨rfl, hclose hqueued⟩)
    · rw [hat] at hpc
      cases hpc
  · unfold callReturned
    split
    · split_ifs
      · exact .of_early rfl
      · exact .of_early loopHead_late
    · exact .of_early loopHead_late
    · rename_i hs
      rw [withOut_stage] at hs
      refine .of_ne (by simp) fun _ => ?_
      show out.CloseQueued
      obtain hat | hat | ⟨-, hqueued⟩ := h.calling hs f hf
      · rw [hat] at hreply
        cases hreply
      · rw [he]
        exact Outbound.closeQueued_of_reply hat hreply
      · exact hclose hqueued
    · rename_i hs
      rw [withOut_stage] at hs
      exact .of_ne (by simp) fun _ => hclose (h.past (by rw [hs]; rfl))
    · rename_i hpinging hponging hclosing hmarking
      exact .of_ne hclosing fun hs => hclose (h.past hs)

theorem SeesToClose.step {act : SessionAct} (h : s.SeesToClose)
    (hstep : s.step config instantMax act = some s') (hroom : ClosesWithRoom s act s') :
    s'.SeesToClose := by
  cases act with
  | outside a =>
      obtain ⟨hallows, hout, he⟩ := outside_some hstep
      refine h.of_out (by rw [he]; rfl) (Outbound.lookup_of_step hout ?_) fun hc => hc.step hout
      intro hcaller
      cases a with
      | start who call =>
          cases hcaller
          cases hallows
      | step who =>
          cases hcaller
          cases hallows
      | _ => cases hcaller
  | handshaken outcome id =>
      obtain ⟨-, rfl⟩ := handshaken_some hstep
      exact .of_early handshakeEnd_late
  | registered =>
      obtain ⟨-, rfl⟩ := registered_some hstep
      exact .of_early rfl
  | connected now =>
      obtain ⟨out, -, -, rfl⟩ := connected_some hstep
      exact .of_early enterLoop_late
  | tick =>
      obtain ⟨-, ⟨vars, why, -, rfl⟩ | ⟨vars, -, hbegin⟩⟩ := tick_some hstep
      · exact .of_early rfl
      · obtain ⟨-, -, rfl⟩ := begin_some hbegin
        exact .of_early rfl
  | evicted =>
      obtain ⟨out, -, -, rfl⟩ := evicted_some hstep
      exact .of_early rfl
  | idle =>
      obtain ⟨-, rfl⟩ := idle_some hstep
      exact .of_early rfl
  | read now result =>
      obtain ⟨-, rfl⟩ := read_some hstep
      exact .of_early afterRead_late
  | callbackReturned pong =>
      obtain ⟨cb, -, ⟨-, rfl⟩ | ⟨-, hbegin⟩ | ⟨why, -, rfl⟩⟩ := callbackReturned_some hstep
      · exact .of_early loopHead_late
      · obtain ⟨-, -, rfl⟩ := begin_some hbegin
        exact .of_early rfl
      · exact .of_early rfl
  | callbackPanicked =>
      obtain ⟨-, out, -, rfl⟩ | ⟨-, rfl⟩ := callbackPanicked_some hstep
      · exact .of_early rfl
      · exact .of_early rfl
  | taskStep => exact h.taskStep hstep hroom
  | teardown =>
      obtain ⟨-, hbegin⟩ := teardown_some hstep
      obtain ⟨-, -, rfl⟩ := begin_some hbegin
      refine ⟨fun _ f hf => ?_, fun hs => (by cases hs)⟩
      have hpc : f.pc = .closeState := by
        rw [goto_out, withOut_out, lookup_begun, if_pos rfl] at hf
        cases hf
        rfl
      exact .inl hpc
  | joined =>
      obtain ⟨hs, -, hbegin⟩ := joined_some hstep
      obtain ⟨-, hout, rfl⟩ := begin_some hbegin
      exact .of_ne (by simp) fun _ => (h.past (by rw [hs]; rfl)).step hout
  | timedOut =>
      obtain ⟨hs, hbegin⟩ := timedOut_some hstep
      obtain ⟨-, hout, rfl⟩ := begin_some hbegin
      exact .of_ne (by simp) fun _ => (h.past (by rw [hs]; rfl)).step hout
  | disconnected =>
      obtain ⟨hs, rfl⟩ := disconnected_some hstep
      exact .of_ne (by simp) fun _ => h.past (by rw [hs]; rfl)

theorem exec_outside {acts : List OutAct} {out : Outbound} (hacts : ∀ act ∈ acts, act.Drains)
    (hrun : exec Outbound.step s.out acts = some out) :
    exec (step config instantMax) s (acts.map .outside) = some (s.withOut out) := by
  induction acts generalizing s with
  | nil =>
      cases hrun
      rfl
  | cons act acts ih =>
      obtain ⟨out₁, h₁, h₂⟩ := exec_cons_iff.mp hrun
      have hallows : s.Allows act = true := by
        obtain rfl | rfl := hacts act List.mem_cons_self <;> rfl
      refine exec_cons_iff.mpr ⟨s.withOut out₁, ?_, ?_⟩
      · simp only [step]
        rw [if_pos hallows, h₁]
        rfl
      · exact ih (s := s.withOut out₁) (fun a ha => hacts a (List.mem_cons_of_mem act ha)) h₂

/-- **The Close is written**: along every run in which the task's Close finds room in the queue or
a Close already enqueued, the session is never stranded, and past the task's `close` a writer that
is not done finishes, left alone with its sink, by handing over a Close. -/
theorem never_stranded (config : WebSocketServerConfig) (instantMax : ℕ)
    (acts : List SessionAct) (s : Session)
    (hrun : exec (step config instantMax) (new config) acts = some s)
    (hroom : Along (step config instantMax) ClosesWithRoom (new config) acts) :
    ¬ s.Stranded ∧ (s.stage.pastClose = true →
      s.out.writer = .waiting ∨ (∃ e, s.out.writer = .sending e) →
      ∃ (rest : List OutAct) (s' : Session), (∀ act ∈ rest, act.Drains) ∧
        exec (step config instantMax) s (rest.map .outside) = some s' ∧
        s'.out.writer = .closing ∧ ∃ e ∈ s'.out.handed, e.message.isClose = true) := by
  have hreading : s.out.Reading :=
    out_invariant (P := Outbound.Reading) (fun _ _ _ h hs => h.step hs)
      (Outbound.reading_new _) hrun
  have hcloses : s.SeesToClose := by
    refine exec_invariant_along ?_ (SeesToClose.of_early (s := new config) rfl) hrun hroom
    intro s₁ act s₂ h₁ hstep hq
    exact h₁.step hstep hq
  constructor
  · rintro ⟨hpast, hw, hqueue, -⟩
    have hrx : s.out.tx.rxOpen = true := hreading.rx_open (by rw [hw]; decide)
    apply (hcloses.past hpast).queue hrx (hreading.no_close (.inr hw))
    rw [hqueue]
    intro e he
    cases he
  · intro hpast hw
    obtain ⟨rest, out, hrest, hdrain, hend⟩ := (hcloses.past hpast).finishes hreading hw
    exact ⟨rest, s.withOut out, hrest, exec_outside hrest hdrain, hend⟩

/-- A stranded session waits until somebody else begins a `close`, the writer is aborted or the last
handle is dropped. -/
theorem Stranded.step {capacity : ℕ} {act : SessionAct} (h : s.Stranded)
    (hsenders : s.out.senders = true) (hsound : s.out.pool.Sound capacity)
    (hstep : s.step config instantMax act = some s') (hact : act.Passive) :
    s'.Stranded ∧ s'.out.senders = true := by
  obtain ⟨hpast, hsilent⟩ := h
  have hstage {stage : Stage} (hs : s.stage = stage) : stage.pastClose = true := hs ▸ hpast
  cases act with
  | outside a =>
      obtain ⟨-, hout, he⟩ := outside_some hstep
      obtain ⟨hsilent', hsenders'⟩ := hsilent.step hsenders hsound hout hact
      refine ⟨⟨?_, hsilent'⟩, hsenders'⟩
      rw [he]
      exact hpast
  | handshaken outcome id => cases hstage (handshaken_some hstep).1
  | registered => cases hstage (registered_some hstep).1
  | connected now =>
      obtain ⟨out, hs, -⟩ := connected_some hstep
      cases hstage hs
  | tick => cases hstage (tick_some hstep).1
  | evicted =>
      obtain ⟨out, hs, -⟩ := evicted_some hstep
      cases hstage hs
  | idle => cases hstage (idle_some hstep).1
  | read now result => cases hstage (read_some hstep).1
  | callbackReturned pong =>
      obtain ⟨cb, hs, -⟩ := callbackReturned_some hstep
      cases hstage hs
  | callbackPanicked => exact hact.elim
  | taskStep =>
      obtain ⟨f, out, -, hout, -, hnext⟩ := taskStep_some hstep
      obtain ⟨hsilent', hsenders'⟩ := hsilent.step hsenders hsound hout trivial
      obtain ⟨pc, -, rfl⟩ | ⟨reply, -, rfl⟩ := hnext
      · exact ⟨⟨hpast, hsilent'⟩, hsenders'⟩
      · unfold Stranded
        rw [callReturned_out]
        refine ⟨⟨?_, hsilent'⟩, hsenders'⟩
        unfold callReturned
        split
        · cases hstage ‹_›
        · cases hstage ‹_›
        · rfl
        · rfl
        · exact hpast
  | teardown =>
      obtain ⟨⟨why, hs⟩, -⟩ := teardown_some hstep
      cases hstage hs
  | joined =>
      obtain ⟨-, hstopped, -⟩ := joined_some hstep
      rw [hsilent.1] at hstopped
      cases hstopped
  | timedOut =>
      obtain ⟨-, hbegin⟩ := timedOut_some hstep
      obtain ⟨-, hout, he⟩ := begin_some hbegin
      obtain ⟨hsilent', hsenders'⟩ := hsilent.step hsenders hsound hout rfl
      refine ⟨⟨?_, hsilent'⟩, hsenders'⟩
      rw [he]
      rfl
  | disconnected =>
      obtain ⟨-, rfl⟩ := disconnected_some hstep
      exact ⟨⟨rfl, hsilent⟩, hsenders⟩

/-- A session that a run has stranded stays so along every passive run. -/
theorem stranded_remains {acts rest : List SessionAct}
    (hrun : exec (step config instantMax) (new config) acts = some s) (h : s.Stranded)
    (hsenders : s.out.senders = true) (hrest : exec (step config instantMax) s rest = some s')
    (hpassive : ∀ act ∈ rest, act.Passive) : s'.Stranded := by
  have hsound : s.out.pool.Sound config.outboundQueueCapacity :=
    out_invariant (fun _ _ _ h hs => Outbound.sound_of_step h hs) (ConnPool.sound_new _) hrun
  have hend : (s'.Stranded ∧ s'.out.senders = true) ∧
      s'.out.pool.Sound config.outboundQueueCapacity := by
    refine exec_invariant_along
      (P := fun s => (s.Stranded ∧ s.out.senders = true) ∧
        s.out.pool.Sound config.outboundQueueCapacity)
      ?_ ⟨⟨h, hsenders⟩, hsound⟩ hrest (along_of_forall_mem hpassive)
    rintro s₁ act s₂ ⟨⟨h₁, hsenders₁⟩, hsound₁⟩ hstep hact
    refine ⟨h₁.step hsenders₁ hsound₁ hstep hact, ?_⟩
    obtain he | ⟨a, ha, -⟩ := step_out hstep
    · rw [he]
      exact hsound₁
    · exact Outbound.sound_of_step hsound₁ ha
  exact hend.1.1

/-- The default configuration with a queue of the given capacity. -/
def withCapacity (capacity : ℕ) : WebSocketServerConfig :=
  { WebSocketServerConfig.default with outboundQueueCapacity := capacity }

/-- The application fills the queue, its next send evicts the connection, the task's Close finds
the queue still full, and then the writer drains it. -/
def fullAtTeardown : List SessionAct :=
  [.handshaken (.ok (some .anonymous)) "a", .registered, .connected 0,
    .outside (.start (.app 0) (.send (.binary [1]))), .outside (.step (.app 0)),
    .outside (.step (.app 0)),
    .outside (.start (.app 0) (.send (.binary [2]))), .outside (.step (.app 0)),
    .outside (.step (.app 0)), .outside (.step (.app 0)), .outside (.step (.app 0)),
    .evicted, .teardown, .taskStep, .taskStep, .taskStep, .outside .recv, .outside .accept]

/-- The writer has handed the only queued message over and waits, and no Close will come. -/
theorem stranded_fullAtTeardown :
    (withCapacity 1).validate = .ok () ∧
      ∃ s, exec (step (withCapacity 1) (60 * 10 ^ 9)) (new (withCapacity 1)) fullAtTeardown =
        some s ∧ s.out.handed = [⟨.app 0, .send, .binary [1]⟩] ∧ s.Stranded := by
  decide

/-- The connection idles out with a message in the queue, which has room for the Close. -/
def roomAtTeardown : List SessionAct :=
  [.handshaken (.ok (some .anonymous)) "a", .registered, .connected 0,
    .outside (.start (.app 0) (.send (.binary [1]))), .outside (.step (.app 0)),
    .outside (.step (.app 0)), .idle, .teardown, .taskStep, .taskStep]

theorem never_stranded_roomAtTeardown :
    ∃ s, exec (step (withCapacity 2) (60 * 10 ^ 9)) (new (withCapacity 2)) roomAtTeardown =
      some s ∧ ¬ s.Stranded ∧ ∃ (rest : List OutAct) (s' : Session), (∀ act ∈ rest, act.Drains) ∧
        exec (step (withCapacity 2) (60 * 10 ^ 9)) s (rest.map .outside) = some s' ∧
        s'.out.writer = .closing ∧ ∃ e ∈ s'.out.handed, e.message.isClose = true := by
  have hend : ∃ s,
      exec (step (withCapacity 2) (60 * 10 ^ 9)) (new (withCapacity 2)) roomAtTeardown =
        some s ∧ s.stage.pastClose = true ∧ s.out.writer = .waiting := by decide
  obtain ⟨s, hrun, hpast, hw⟩ := hend
  obtain ⟨hno, hfinish⟩ := never_stranded _ _ _ s hrun (by decide)
  exact ⟨s, hrun, hno, hfinish hpast (.inl hw)⟩

end Session
end ArmatureWebsocket
