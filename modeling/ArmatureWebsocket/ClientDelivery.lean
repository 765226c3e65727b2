import ArmatureWebsocket.Client

/-! # Messages that a client accepts and does not write

The writer of a client stops at the first Close that it takes, like that of a server connection, so
a message enqueued behind a Close is not handed to the sink although its send returned `Ok`.  The
flag does not prevent it: `send` reads the flag before it enqueues, and another caller's `close` can
set it and enqueue its Close in between; and a Close that came through `send` leaves the flag alone
until the writer has ended.  `closeInBetween` is such a run.

`Writing` is what holds of the writer whatever the sink does.  With a sink that takes every frame,
everything accepted has been handed over when the writer has stopped if and only if no message was
accepted behind a Close (`handed_iff`). -/

namespace ArmatureWebsocket

open Execution CallPool

/-- The message that a send is about to enqueue. -/
def ClientPc.queues : ClientPc → Option Message
  | .sendQueue m => some m
  | _ => none

/-- The message of an accepted send. -/
def ClientReply.accepted : ClientReply → Option Message
  | .sent m (.ok ()) => some m
  | _ => none

@[simp] theorem ClientReply.accepted_ok (m : Message) :
    (ClientReply.sent m (.ok ())).accepted = some m := rfl
@[simp] theorem ClientReply.accepted_error (m : Message) (e : WebSocketError) :
    (ClientReply.sent m (.error e)).accepted = none := rfl
@[simp] theorem ClientReply.accepted_closed (won : Bool) :
    (ClientReply.closed won).accepted = none := rfl

/-- The message that the writer is handing to the sink. -/
def ClientWriterPc.pending : ClientWriterPc → List Envelope
  | .sending e => [e]
  | _ => []

/-- The writer has left its loop. -/
def ClientWriterPc.left : ClientWriterPc → Bool
  | .waiting => false
  | .sending _ => false
  | _ => true

/-- The sink takes every frame. -/
def ClientAct.SinkTakes (act : ClientAct) : Prop :=
  match act with
  | .writer .refuse => False
  | _ => True

instance (act : ClientAct) : Decidable act.SinkTakes :=
  match act with
  | .writer .refuse => .isFalse id
  | .writer .recv | .writer .recvNone | .writer .accept | .writer .sinkClosed | .writer .mark
  | .writer .finish | .start _ _ | .step _ | .drop | .dropped | .recv | .tryRecv | .reader _ =>
      .isTrue trivial

namespace Client

variable {c c' : Client}

/-- What the senders got accepted, in order. -/
def accepted (c : Client) : List Envelope :=
  c.pool.log.filterMap fun e => e.reply.accepted.map fun m => ⟨.app e.thread, .send, m⟩

/-- What was accepted and can be put on the wire has been handed to the sink, in order. -/
def Delivered (c : Client) : Prop :=
  (c.accepted.filter fun e => e.message.sendable).Sublist c.handed

instance (c : Client) : Decidable c.Delivered := inferInstanceAs (Decidable (List.Sublist _ _))

/-- The step does not accept a message of a send behind a Close. -/
def SendsBeforeClose (c : Client) : ClientAct → Client → Prop
  | .step thread, _ => ∀ pc ∈ c.pool.threads.lookup thread, ∀ m ∈ pc.queues,
      m.sendable = true → c.tx.rxOpen = true → NoClose c.tx.sent
  | _, _ => True

instance (c : Client) (act : ClientAct) (c' : Client) : Decidable (SendsBeforeClose c act c') :=
  match act with
  | .step _ => inferInstanceAs (Decidable (∀ pc ∈ _, ∀ m ∈ _, _ → _ → _))
  | .start _ _ | .drop | .dropped | .recv | .tryRecv | .reader _ | .writer _ => .isTrue trivial

/-! ### The writer reads the queue up to the first Close -/

/-- What holds of the writer and its receiver. -/
structure Writing (c : Client) : Prop where
  rx_open : c.writer ≠ .stopped → c.tx.rxOpen = true
  no_close : c.writer = .waiting → NoClose c.tx.received
  sending : ∀ e, c.writer = .sending e → ∃ es, c.tx.received = es ++ [e] ∧ NoClose es

theorem writing_new (capacity : ℕ) : (new capacity).Writing where
  rx_open := fun _ => rfl
  no_close := fun _ _ he => by cases he
  sending := nofun

theorem after_received {thread : ℕ} {cell : ClientCell} {pc : ClientPc} :
    (pc.after thread cell).tx.received = cell.tx.received ∧
      (pc.after thread cell).tx.rxOpen = cell.tx.rxOpen := by
  cases pc <;> simp [ClientPc.after]

/-- What a step of somebody else leaves alone of the writer's side. -/
theorem writer_side {act : ClientAct} (hstep : c.step act = some c')
    (hact : ∀ a, act ≠ .writer a) :
    c'.writer = c.writer ∧ c'.handed = c.handed ∧ c'.tx.received = c.tx.received ∧
      c'.tx.rxOpen = c.tx.rxOpen := by
  cases act with
  | start thread call =>
      obtain ⟨-, -, rfl⟩ := start_some hstep
      exact ⟨rfl, rfl, rfl, rfl⟩
  | step thread =>
      obtain ⟨pc, -, rfl⟩ := step_some hstep
      unfold tx
      rw [moved_shared]
      exact ⟨rfl, rfl, after_received.1, after_received.2⟩
  | drop =>
      obtain ⟨-, -, rfl⟩ := drop_some hstep
      exact ⟨rfl, rfl, rfl, rfl⟩
  | dropped =>
      obtain ⟨-, -, rfl⟩ := dropped_some hstep
      exact ⟨rfl, rfl, rfl, rfl⟩
  | recv =>
      obtain ⟨-, result, -, rfl⟩ := recv_some hstep
      exact ⟨rfl, rfl, rfl, rfl⟩
  | tryRecv =>
      obtain ⟨-, rfl⟩ := tryRecv_some hstep
      exact ⟨rfl, rfl, rfl, rfl⟩
  | reader act =>
      obtain ⟨inbound, -, ⟨-, rfl⟩ | ⟨-, rfl⟩⟩ := reader_some hstep
      · exact ⟨rfl, rfl, rfl, rfl⟩
      · exact ⟨rfl, rfl, rfl, rfl⟩
  | writer act => exact absurd rfl (hact act)

theorem Writing.step {act : ClientAct} (h : c.Writing) (hstep : c.step act = some c') :
    c'.Writing := by
  by_cases hact : ∃ a, act = .writer a
  · obtain ⟨act, rfl⟩ := hact
    obtain ⟨e, tx, -, hw, hrecv, rfl⟩ | ⟨-, hw, -, -, rfl⟩ | ⟨e, -, hw, rfl⟩ | ⟨e, -, hw, rfl⟩ |
      ⟨-, hw, rfl⟩ | ⟨-, hw, rfl⟩ | ⟨-, hw, rfl⟩ := writer_cases hstep
    · obtain ⟨-, hopen, -, hreceived⟩ := UnboundedQueue.recv?_some hrecv
      have hrx : c.tx.rxOpen = true := h.rx_open (by rw [hw]; simp)
      have hno := h.no_close hw
      refine ⟨fun _ => hopen.trans hrx, fun hwait => ?_, fun e' he' => ?_⟩
      · show NoClose tx.received
        rw [hreceived, noClose_append_singleton]
        refine ⟨hno, ?_⟩
        by_contra hclose
        have hs : e.message.sendable = true := Message.sendable_of_isClose (by simpa using hclose)
        simp [hs] at hwait
      · have he : e' = e := by
          simp only at he'
          split_ifs at he' with hs
          exact (ClientWriterPc.sending.inj he').symm
        subst he
        exact ⟨c.tx.received, hreceived, hno⟩
    · exact ⟨fun _ => h.rx_open (by rw [hw]; simp), nofun, nofun⟩
    · obtain ⟨es, hreceived, hes⟩ := h.sending e hw
      refine ⟨fun _ => h.rx_open (by rw [hw]; simp), fun hwait => ?_, fun e' he' => ?_⟩
      · show NoClose c.tx.received
        rw [hreceived, noClose_append_singleton]
        refine ⟨hes, ?_⟩
        by_contra hclose
        have hclose' : e.message.isClose = true := by simpa using hclose
        simp [hclose'] at hwait
      · simp only at he'
        split_ifs at he'
    · exact ⟨fun _ => h.rx_open (by rw [hw]; simp), nofun, nofun⟩
    · exact ⟨fun _ => h.rx_open (by rw [hw]; simp), nofun, nofun⟩
    · exact ⟨fun _ => h.rx_open (by rw [hw]; simp), nofun, nofun⟩
    · exact ⟨fun hne => absurd rfl hne, nofun, nofun⟩
  · obtain ⟨hw, -, hreceived, hopen⟩ := writer_side hstep fun a ha => hact ⟨a, ha⟩
    refine ⟨?_, ?_, ?_⟩
    · rw [hw, hopen]
      exact h.rx_open
    · rw [hw, hreceived]
      exact h.no_close
    · rw [hw, hreceived]
      exact h.sending

/-! ### What the writer hands over -/

/-- Besides, the writer has handed over what it received and could send, and it has left its loop
for one of two reasons. -/
structure Draining (c : Client) : Prop extends c.Writing where
  handed_eq : c.handed ++ c.writer.pending = c.tx.received.filter fun e => e.message.sendable
  ended : c.writer.left = true →
    (∃ es e, c.tx.received = es ++ [e] ∧ NoClose es ∧ e.message.isClose = true) ∨
      NoClose c.tx.received ∧ c.tx.sent = c.tx.received ∧ c.handle = .dropped
  quiet : c.handle = .dropped → c.pool.Quiet
  accepted_eq : c.accepted = c.tx.sent.filter Envelope.fromSend

theorem draining_new (capacity : ℕ) : (new capacity).Draining where
  toWriting := writing_new capacity
  handed_eq := rfl
  ended := nofun
  quiet := nofun
  accepted_eq := rfl

theorem accepted_moved {thread : ℕ} {pc : ClientPc} {cell : ClientCell}
    {next : ClientPc ⊕ ClientReply} :
    accepted { c with pool := c.pool.moved thread pc cell next } =
      c.accepted ++ (next.elim (fun _ => none) ClientReply.accepted).toList.map
        fun m => ⟨.app thread, .send, m⟩ := by
  cases next with
  | inl pc' => exact (List.append_nil _).symm
  | inr reply =>
      unfold accepted moved
      rw [List.filterMap_append]
      cases hreply : reply.accepted <;> simp [hreply]

theorem accepted_of_call {thread : ℕ} {pc : ClientPc}
    (h : c.accepted = c.tx.sent.filter Envelope.fromSend)
    (hc' : c' = { c with
      pool := c.pool.moved thread pc (pc.after thread c.pool.shared)
        (clientStep thread c.pool.shared pc).2 }) :
    c'.accepted = c'.tx.sent.filter Envelope.fromSend := by
  subst hc'
  rw [accepted_moved, h]
  unfold tx
  rw [moved_shared]
  cases pc with
  | sendCheck m =>
      simp only [clientStep, ClientPc.after]
      split_ifs <;> simp
  | sendQueue m =>
      simp only [clientStep, ClientPc.after, UnboundedQueue.send?_eq, UnboundedQueue.sent_offer]
      split_ifs <;> simp [Envelope.fromSend, List.filter_append]
  | closeSwap =>
      simp only [clientStep, ClientPc.after]
      split_ifs <;> simp
  | closeQueue =>
      simp only [clientStep, ClientPc.after, UnboundedQueue.sent_offer]
      split_ifs <;> simp [Envelope.fromSend, List.filter_append]

/-- What a step that is neither a call's nor the writer's leaves alone: the outgoing queue, the log,
and that no call is in progress once the client is dropped. -/
theorem calls_side {act : ClientAct} (hstep : c.step act = some c')
    (hcall : ∀ thread, act ≠ .step thread) (hwriter : ∀ a, act ≠ .writer a) :
    c'.tx = c.tx ∧ c'.pool.log = c.pool.log ∧ (c.handle = .dropped → c'.handle = .dropped) ∧
      ((c.handle = .dropped → c.pool.Quiet) → c'.handle = .dropped → c'.pool.Quiet) := by
  cases act with
  | start thread call =>
      obtain ⟨hheld, -, rfl⟩ := start_some hstep
      exact ⟨rfl, rfl, id, fun _ h => absurd (hheld.symm.trans h) (by simp)⟩
  | step thread => exact absurd rfl (hcall thread)
  | drop =>
      obtain ⟨hheld, -, rfl⟩ := drop_some hstep
      exact ⟨rfl, rfl, fun h => absurd (hheld.symm.trans h) (by simp), nofun⟩
  | dropped =>
      obtain ⟨-, hquiet, rfl⟩ := dropped_some hstep
      exact ⟨rfl, rfl, fun _ => rfl, fun _ _ => hquiet⟩
  | recv =>
      obtain ⟨-, result, -, rfl⟩ := recv_some hstep
      exact ⟨rfl, rfl, id, id⟩
  | tryRecv =>
      obtain ⟨-, rfl⟩ := tryRecv_some hstep
      exact ⟨rfl, rfl, id, id⟩
  | reader act =>
      obtain ⟨inbound, -, ⟨-, rfl⟩ | ⟨-, rfl⟩⟩ := reader_some hstep
      · exact ⟨rfl, rfl, id, id⟩
      · exact ⟨rfl, rfl, id, id⟩
  | writer act => exact absurd rfl (hwriter act)

/-- A step of the writer, with a sink that takes every frame. -/
theorem Draining.write {act : WriterAct} (h : c.Draining) (hstep : c.step (.writer act) = some c')
    (htakes : (ClientAct.writer act).SinkTakes) : c'.Draining := by
  have hwriting : c'.Writing := h.toWriting.step hstep
  have hhanded := h.handed_eq
  obtain ⟨e, tx, -, hw, hrecv, rfl⟩ | ⟨-, hw, hdropped, hqueue, rfl⟩ | ⟨e, -, hw, rfl⟩ |
    ⟨e, rfl, -, -⟩ | ⟨-, hw, rfl⟩ | ⟨-, hw, rfl⟩ | ⟨-, hw, rfl⟩ := writer_cases hstep
  · obtain ⟨-, -, hsent, hreceived⟩ := UnboundedQueue.recv?_some hrecv
    rw [hw] at hhanded
    refine ⟨hwriting, ?_, fun hleft => ?_, h.quiet, ?_⟩
    · show c.handed ++ _ = tx.received.filter _
      rw [hreceived, List.filter_append, ← hhanded]
      by_cases hs : e.message.sendable = true <;> simp [hs, ClientWriterPc.pending]
    · simp only at hleft
      split_ifs at hleft <;> cases hleft
    · show c.accepted = tx.sent.filter _
      rw [hsent]
      exact h.accepted_eq
  · have hno := h.no_close hw
    have hsent : c.tx.sent = c.tx.received := by
      have hq := c.tx.sent_eq (h.rx_open (by rw [hw]; simp))
      rw [hqueue, List.append_nil] at hq
      exact hq
    rw [hw] at hhanded
    exact ⟨hwriting, hhanded, fun _ => .inr ⟨hno, hsent, hdropped⟩, h.quiet, h.accepted_eq⟩
  · obtain ⟨es, hreceived, hes⟩ := h.sending e hw
    rw [hw] at hhanded
    refine ⟨hwriting, ?_, fun hleft => ?_, h.quiet, h.accepted_eq⟩
    · show (c.handed ++ [e]) ++ _ = _
      rw [← hhanded]
      by_cases hclose : e.message.isClose = true <;> simp [hclose, ClientWriterPc.pending]
    · simp only at hleft
      split_ifs at hleft with hclose
      · exact .inl ⟨es, e, hreceived, hes, hclose⟩
      · cases hleft
  · exact htakes.elim
  · rw [hw] at hhanded
    exact ⟨hwriting, hhanded, fun _ => h.ended (by rw [hw]; rfl), h.quiet, h.accepted_eq⟩
  · rw [hw] at hhanded
    exact ⟨hwriting, hhanded, fun _ => h.ended (by rw [hw]; rfl), h.quiet, h.accepted_eq⟩
  · rw [hw] at hhanded
    exact ⟨hwriting, hhanded, fun _ => h.ended (by rw [hw]; rfl), h.quiet, h.accepted_eq⟩

theorem Draining.step {act : ClientAct} (h : c.Draining) (hstep : c.step act = some c')
    (htakes : act.SinkTakes) : c'.Draining := by
  have hwriting : c'.Writing := h.toWriting.step hstep
  by_cases hwriter : ∃ a, act = .writer a
  · obtain ⟨act, rfl⟩ := hwriter
    exact h.write hstep htakes
  · obtain ⟨hw, hh, hreceived, -⟩ := writer_side hstep fun a ha => hwriter ⟨a, ha⟩
    have hhanded : c'.handed ++ c'.writer.pending =
        c'.tx.received.filter fun e => e.message.sendable := by
      rw [hw, hh, hreceived]
      exact h.handed_eq
    by_cases hcall : ∃ thread, act = .step thread
    · obtain ⟨thread, rfl⟩ := hcall
      obtain ⟨pc, hpc, hc'⟩ := step_some hstep
      have hheld : c.handle ≠ .dropped := by
        intro hdropped
        rw [(h.quiet hdropped).lookup_eq_none] at hpc
        cases hpc
      have hheld' : c'.handle = c.handle := by rw [hc']
      refine ⟨hwriting, hhanded, fun hleft => ?_, fun hdropped => ?_,
        accepted_of_call h.accepted_eq hc'⟩
      · rw [hw] at hleft
        rw [hreceived]
        obtain hclose | ⟨-, -, hdropped⟩ := h.ended hleft
        · exact .inl hclose
        · exact absurd hdropped hheld
      · rw [hheld'] at hdropped
        exact absurd hdropped hheld
    · obtain ⟨htx, hlog, hhandle, hquiet⟩ := calls_side hstep (fun t ht => hcall ⟨t, ht⟩)
        fun a ha => hwriter ⟨a, ha⟩
      refine ⟨hwriting, hhanded, fun hleft => ?_, hquiet h.quiet, ?_⟩
      · rw [hw] at hleft
        rw [htx]
        obtain hclose | ⟨hno, hsent, hdropped⟩ := h.ended hleft
        · exact .inl hclose
        · exact .inr ⟨hno, hsent, hhandle hdropped⟩
      · unfold accepted
        rw [hlog, htx]
        exact h.accepted_eq

/-! ### What is overtaken -/

theorem sent_of_step {act : ClientAct} (hstep : c.step act = some c')
    (hcall : ∀ thread, act ≠ .step thread) : c'.tx.sent = c.tx.sent := by
  by_cases hwriter : ∃ a, act = .writer a
  · obtain ⟨act, rfl⟩ := hwriter
    obtain ⟨e, tx, -, -, hrecv, rfl⟩ | ⟨-, -, -, -, rfl⟩ | ⟨e, -, -, rfl⟩ | ⟨e, -, -, rfl⟩ |
      ⟨-, -, rfl⟩ | ⟨-, -, rfl⟩ | ⟨-, -, rfl⟩ := writer_cases hstep
    · exact (UnboundedQueue.recv?_some hrecv).2.2.1
    · rfl
    · rfl
    · rfl
    · rfl
    · rfl
    · rfl
  · rw [(calls_side hstep hcall fun a ha => hwriter ⟨a, ha⟩).1]

theorem sent_of_call {thread : ℕ} {pc : ClientPc}
    (hc' : c' = { c with
      pool := c.pool.moved thread pc (pc.after thread c.pool.shared)
        (clientStep thread c.pool.shared pc).2 }) :
    c'.tx.sent = (pc.after thread c.pool.shared).tx.sent := by
  rw [hc']
  unfold tx
  rw [moved_shared]

theorem noneOvertaken_step {act : ClientAct} (hstep : c.step act = some c') :
    NoneOvertaken c'.tx.sent ↔ NoneOvertaken c.tx.sent ∧ SendsBeforeClose c act c' := by
  by_cases hcall : ∃ thread, act = .step thread
  · obtain ⟨thread, rfl⟩ := hcall
    obtain ⟨pc, hpc, hc'⟩ := step_some hstep
    have hcond : SendsBeforeClose c (.step thread) c' ↔ ∀ m ∈ pc.queues,
        m.sendable = true → c.tx.rxOpen = true → NoClose c.tx.sent := by
      unfold SendsBeforeClose
      simp [hpc]
    rw [hcond, sent_of_call hc']
    cases pc with
    | sendQueue m =>
        simp only [ClientPc.after, UnboundedQueue.sent_offer, ClientPc.queues, Option.mem_def,
          Option.some.injEq, forall_eq']
        split_ifs with hopen
        · rw [noneOvertaken_append_singleton]
          simp [Envelope.due, Envelope.fromSend, hopen]
        · simp [hopen]
    | closeQueue =>
        simp only [ClientPc.after, UnboundedQueue.sent_offer, ClientPc.queues]
        split_ifs with hopen
        · rw [noneOvertaken_append_singleton]
          simp [Envelope.due, Envelope.fromSend]
        · simp
    | sendCheck m => simp [ClientPc.after, ClientPc.queues]
    | closeSwap => simp [ClientPc.after, ClientPc.queues]
  · rw [sent_of_step hstep fun t ht => hcall ⟨t, ht⟩]
    cases act with
    | step thread => exact absurd ⟨thread, rfl⟩ hcall
    | _ => exact (and_iff_left trivial).symm

/-- **Accepted messages are written unless a Close overtakes them**: when the writer of a client has
stopped in a run whose sink takes every frame, everything accepted that can be put on the wire has
been handed to the sink if and only if no step accepted such a message behind a Close. -/
theorem handed_iff (capacity : ℕ) (acts : List ClientAct) (c : Client)
    (hrun : exec step (new capacity) acts = some c) (htakes : ∀ act ∈ acts, act.SinkTakes)
    (hstop : c.writer = .stopped) :
    c.Delivered ↔ Along step SendsBeforeClose (new capacity) acts := by
  have hdraining : c.Draining := by
    refine exec_invariant_along ?_ (draining_new capacity) hrun (along_of_forall_mem htakes)
    intro c₁ act c₂ h₁ hstep hact
    exact h₁.step hstep hact
  have hnew : NoneOvertaken (new capacity).tx.sent := fun e he => by cases he
  have hhanded := hdraining.handed_eq
  rw [hstop] at hhanded
  simp only [ClientWriterPc.pending, List.append_nil] at hhanded
  have hdue : (c.accepted.filter fun e => e.message.sendable) =
      c.tx.sent.filter Envelope.due := by
    rw [hdraining.accepted_eq, List.filter_filter]
    exact List.filter_congr fun e _ => Bool.and_comm _ _
  have hdelivered : c.Delivered ↔ NoneOvertaken c.tx.sent := by
    unfold Delivered
    rw [hdue, hhanded]
    apply sublist_iff_noneOvertaken c.tx.received_prefix
    obtain hclose | ⟨hno, hsent, -⟩ := hdraining.ended (by rw [hstop]; rfl)
    · exact .inl hclose
    · exact .inr ⟨hno, hsent⟩
  rw [hdelivered,
    exec_iff_along (P := fun c => NoneOvertaken c.tx.sent) (fun _ _ _ => noneOvertaken_step) hrun]
  exact and_iff_right hnew

/-- A send has found the flag unset; another thread's `close` runs to its end; then the send
enqueues. -/
def closeInBetween : List ClientAct :=
  [.start 0 (.send (.binary [1])), .step 0, .start 1 .close, .step 1, .step 1, .step 0,
    .writer .recv, .writer .accept, .writer .sinkClosed, .writer .mark, .writer .finish]

/-- The send was accepted, the writer has stopped, and the message was not handed over. -/
theorem not_handed_closeInBetween :
    (∀ act ∈ closeInBetween, act.SinkTakes) ∧
      ∃ c, exec step (new 1) closeInBetween = some c ∧ c.writer = .stopped ∧
        c.accepted = [⟨.app 0, .send, .binary [1]⟩] ∧
        c.handed = [⟨.app 1, .close, .close⟩] ∧ ¬ c.Delivered := by
  decide

/-- A message that cannot be put on the wire, one that can, and the close of the client. -/
def sendThenCloseClient : List ClientAct :=
  [.start 0 (.send ⟨.text, [0xff]⟩), .step 0, .step 0, .start 0 (.send (.binary [1])), .step 0,
    .writer .recv, .step 0, .start 1 .close, .step 1, .step 1, .writer .recv, .writer .accept,
    .writer .recv, .writer .accept, .writer .sinkClosed, .writer .mark, .writer .finish]

theorem handed_iff_sendThenCloseClient :
    ∃ c, exec step (new 1) sendThenCloseClient = some c ∧ c.writer = .stopped ∧ c.Delivered := by
  obtain ⟨c, hrun, hstop⟩ : ∃ c, exec step (new 1) sendThenCloseClient = some c ∧
      c.writer = .stopped := by decide
  exact ⟨c, hrun, hstop, (handed_iff 1 _ c hrun (by decide) hstop).mpr (by decide)⟩

end Client
end ArmatureWebsocket
