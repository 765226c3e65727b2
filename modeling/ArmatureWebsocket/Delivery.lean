import ArmatureWebsocket.Outbound

/-! # Accepted messages and the Close that overtakes them

`Ok` from a send is meant to say that the message will be written.  The writer stops at the first
Close it takes from the queue, so a message that was enqueued behind a Close is never handed to
the sink.  A send gets behind a Close when it has checked the state before `close` changed it and
enqueues afterwards, and whenever the Close itself came through `send`, which leaves the
connection open.  `sendOvertaken` is such a run.

Along a run with a sink that takes every frame and a writer that is not aborted, everything
accepted is handed over before the writer stops if and only if no message was accepted behind a
Close (`delivered_iff`). -/

namespace ArmatureWebsocket

open Execution CallPool

/-- The sink does not refuse a frame and the writer is not aborted. -/
def OutAct.Undisturbed (act : OutAct) : Prop := act ≠ .refuse ∧ act ≠ .abort

instance (act : OutAct) : Decidable act.Undisturbed := inferInstanceAs (Decidable (_ ∧ _))

/-- The message that the writer is handing to the sink. -/
def WriterPc.pending : WriterPc → List Envelope
  | .sending e => [e]
  | _ => []

namespace Outbound

/-- What was accepted and can be put on the wire has been handed to the sink, in order. -/
def Delivered (o : Outbound) : Prop :=
  (o.pool.accepted.filter fun e => e.message.sendable).Sublist o.handed

instance (o : Outbound) : Decidable o.Delivered :=
  inferInstanceAs (Decidable (List.Sublist _ _))

/-- The step does not accept a message of a send behind a Close. -/
def SendsBeforeClose (o : Outbound) : OutAct → Outbound → Prop
  | .step who, _ => ∀ f ∈ o.pool.threads.lookup who, ∀ m ∈ f.pc.offers,
      m.sendable = true → o.tx.Accepts → NoClose o.tx.sent
  | _, _ => True

instance (o : Outbound) (act : OutAct) (o' : Outbound) : Decidable (SendsBeforeClose o act o') :=
  match act with
  | .step _ => inferInstanceAs (Decidable (∀ f ∈ _, ∀ m ∈ _, _ → _ → _))
  | .start _ _ | .spawn | .recv | .recvNone | .accept | .refuse | .sinkClosed | .abort | .evicted
  | .dropSenders => .isTrue trivial

/-! ### The writer drains the queue up to the first Close -/

/-- The writer reads the queue up to the first Close. -/
structure Reading (o : Outbound) : Prop where
  rx_open : o.writer ≠ .stopped → o.tx.rxOpen = true
  no_close : o.writer = .unspawned ∨ o.writer = .waiting → NoClose o.tx.received
  sending : ∀ e, o.writer = .sending e → ∃ es, o.tx.received = es ++ [e] ∧ NoClose es

/-- Besides, the writer has handed over what it received and could send, and it ends for one of
two reasons. -/
structure Draining (o : Outbound) : Prop extends o.Reading where
  handed_eq : o.handed ++ o.writer.pending = o.tx.received.filter fun e => e.message.sendable
  ended : o.writer = .closing ∨ o.writer = .stopped →
    (∃ es e, o.tx.received = es ++ [e] ∧ NoClose es ∧ e.message.isClose = true) ∨
      NoClose o.tx.received ∧ o.tx.sent = o.tx.received ∧ o.senders = false
  quiet : o.senders = false → o.pool.Quiet

theorem reading_new (capacity : ℕ) : (new capacity).Reading where
  rx_open := fun _ => rfl
  no_close := fun _ _ he => by cases he
  sending := fun _ h => by cases h

theorem draining_new (capacity : ℕ) : (new capacity).Draining where
  toReading := reading_new capacity
  handed_eq := rfl
  ended := fun h => by rcases h with h | h <;> cases h
  quiet := fun h => by cases h

theorem received_of_call {o o' : Outbound} {act : OutAct} (hstep : o.step act = some o')
    (hact : (∃ who call, act = .start who call) ∨ (∃ who, act = .step who) ∨ act = .evicted) :
    o'.tx.received = o.tx.received ∧ o'.tx.rxOpen = o.tx.rxOpen ∧ o'.writer = o.writer ∧
      o'.handed = o.handed ∧ o'.senders = o.senders := by
  obtain ⟨who, call, rfl⟩ | ⟨who, rfl⟩ | rfl := hact
  · simp only [step] at hstep
    split_ifs at hstep
    obtain ⟨pool, hpool, rfl⟩ := Option.map_eq_some_iff.mp hstep
    have hshared := ConnPool.shared_of_start hpool
    simp only [tx, hshared, and_self]
  · obtain ⟨pool, hpool, rfl⟩ := Option.map_eq_some_iff.mp hstep
    obtain ⟨f, -, hshared⟩ := ConnPool.shared_of_step hpool
    simp only [tx, hshared, after_received, after_rxOpen, and_self]
  · obtain ⟨pool, hpool, rfl⟩ := Option.map_eq_some_iff.mp hstep
    simp only [ConnPool.step] at hpool
    split_ifs at hpool
    cases hpool
    exact ⟨rfl, rfl, rfl, rfl, rfl⟩

theorem reading_stop {o : Outbound} : o.stop.Reading where
  rx_open := fun hne => absurd rfl hne
  no_close := fun hw => by rcases hw with hw | hw <;> cases hw
  sending := fun _ hw => by cases hw

theorem Reading.step {o o' : Outbound} {act : OutAct} (h : o.Reading)
    (hstep : o.step act = some o') : o'.Reading := by
  have hcall (hact : (∃ who call, act = .start who call) ∨ (∃ who, act = .step who) ∨
      act = .evicted) : o'.Reading := by
    obtain ⟨hreceived, hrx, hw, -, -⟩ := received_of_call hstep hact
    refine ⟨?_, ?_, ?_⟩ <;> rw [hw]
    · rw [hrx]
      exact h.rx_open
    · rw [hreceived]
      exact h.no_close
    · rw [hreceived]
      exact h.sending
  obtain ⟨who, call, pool, rfl, -, -, -⟩ | ⟨who, pool, rfl, -, -⟩ |
    ⟨-, hw, rfl⟩ | ⟨e, tx, -, hw, hrecv, rfl⟩ | ⟨-, hw, -, -, rfl⟩ | ⟨e, -, hw, rfl⟩ |
    ⟨e, -, -, rfl⟩ | ⟨-, -, rfl⟩ | ⟨-, -, -, rfl⟩ | ⟨-, -, rfl⟩ | ⟨rfl, -, -⟩ := step_cases hstep
  · exact hcall (.inl ⟨who, call, rfl⟩)
  · exact hcall (.inr (.inl ⟨who, rfl⟩))
  · exact ⟨fun _ => h.rx_open (by rw [hw]; decide), fun _ => h.no_close (.inl hw),
      fun e he => by cases he⟩
  · obtain ⟨-, -, hrx, -, -, hreceived⟩ := BoundedQueue.recv?_some hrecv
    have hclose := h.no_close (.inr hw)
    refine ⟨fun _ => hrx, fun hw' => ?_, fun e' hw' => ?_⟩
    · split_ifs at hw' with hsendable
      · obtain hw' | hw' := hw' <;> cases hw'
      · -- what cannot be sent is not a Close
        have hnot : e.message.isClose = false := by
          by_contra hc
          exact hsendable (Message.sendable_of_isClose (by simpa using hc))
        have hno : NoClose (o.tx.received ++ [e]) := noClose_append_singleton.mpr ⟨hclose, hnot⟩
        rw [← hreceived] at hno
        exact hno
    · split_ifs at hw' with hsendable
      · cases hw'
        exact ⟨o.tx.received, hreceived, hclose⟩
  · refine ⟨fun _ => h.rx_open (by rw [hw]; decide), fun hw' => ?_, fun e he => by cases he⟩
    obtain hw' | hw' := hw' <;> cases hw'
  · obtain ⟨es, hreceived, hes⟩ := h.sending e hw
    refine ⟨fun _ => h.rx_open (by rw [hw]; simp), fun hw' => ?_, fun e' hw' => ?_⟩
    · split_ifs at hw' with hclose
      · obtain hw' | hw' := hw' <;> cases hw'
      · have hno : NoClose (es ++ [e]) :=
          noClose_append_singleton.mpr ⟨hes, by simpa using hclose⟩
        rw [← hreceived] at hno
        exact hno
    · split_ifs at hw'
  · exact reading_stop
  · exact reading_stop
  · exact reading_stop
  · exact ⟨h.rx_open, h.no_close, h.sending⟩
  · exact hcall (.inr (.inr rfl))

namespace Draining

variable {o : Outbound}

/-- The callers and the read loop do not touch what the writer handed over. -/
theorem call (h : o.Draining) {o' : Outbound} {act : OutAct} (hstep : o.step act = some o')
    (hact : (∃ who call, act = .start who call) ∨ (∃ who, act = .step who) ∨ act = .evicted)
    (hquiet : o.senders = false → o'.tx.sent = o.tx.sent ∧ o'.pool.Quiet) : o'.Draining := by
  obtain ⟨hreceived, -, hw, hhanded, hsenders⟩ := received_of_call hstep hact
  refine ⟨h.toReading.step hstep, ?_, ?_, ?_⟩
  · rw [hreceived, hhanded, hw]
    exact h.handed_eq
  · rw [hw, hreceived, hsenders]
    intro hend
    obtain hclose | ⟨hno, hsent, hs⟩ := h.ended hend
    · exact .inl hclose
    · exact .inr ⟨hno, (hquiet hs).1.trans hsent, hs⟩
  · rw [hsenders]
    exact fun hs => (hquiet hs).2

theorem recv_handed (h : o.Draining) {e : Envelope} {tx : BoundedQueue Envelope}
    (hw : o.writer = .waiting) (hrecv : o.tx.recv? = some (e, tx)) :
    o.handed ++ (if e.message.sendable then WriterPc.sending e else .waiting).pending =
      tx.received.filter fun e => e.message.sendable := by
  obtain ⟨-, -, -, -, -, hreceived⟩ := BoundedQueue.recv?_some hrecv
  have hhanded := h.handed_eq
  rw [hw] at hhanded
  simp only [WriterPc.pending, List.append_nil] at hhanded
  rw [hreceived, List.filter_append, ← hhanded]
  by_cases hsendable : e.message.sendable = true <;> simp [hsendable, WriterPc.pending]

theorem accept_handed (h : o.Draining) {e : Envelope} (hw : o.writer = .sending e) :
    (o.handed ++ [e]) ++ (if e.message.isClose then WriterPc.closing else .waiting).pending =
      o.tx.received.filter fun e => e.message.sendable := by
  have hhanded := h.handed_eq
  rw [hw] at hhanded
  rw [← hhanded]
  split_ifs <;> simp [WriterPc.pending]

theorem step {o' : Outbound} {act : OutAct} (h : o.Draining) (hstep : o.step act = some o')
    (hact : act.Undisturbed) : o'.Draining := by
  have hreading := h.toReading.step hstep
  obtain ⟨who, call, pool, rfl, hs, -, -⟩ | ⟨who, pool, rfl, hpool, rfl⟩ |
    ⟨-, hw, rfl⟩ | ⟨e, tx, -, hw, hrecv, rfl⟩ | ⟨-, hw, hs, hq, rfl⟩ | ⟨e, -, hw, rfl⟩ |
    ⟨e, rfl, -, -⟩ | ⟨-, hw, rfl⟩ | ⟨rfl, -, -, -⟩ | ⟨-, hq, rfl⟩ | ⟨rfl, -, rfl⟩ :=
    step_cases hstep
  · refine h.call hstep (.inl ⟨who, call, rfl⟩) fun hs' => ?_
    rw [hs] at hs'
    cases hs'
  · refine h.call hstep (.inr (.inl ⟨who, rfl⟩)) fun hs => ?_
    -- without senders nobody is in a call
    obtain ⟨f, hf, -⟩ := ConnPool.shared_of_step hpool
    rw [(h.quiet hs).lookup_eq_none who] at hf
    cases hf
  · refine ⟨hreading, ?_, fun hend => ?_, h.quiet⟩
    · have hhanded := h.handed_eq
      rw [hw] at hhanded
      exact hhanded
    · obtain hend | hend := hend <;> cases hend
  · refine ⟨hreading, h.recv_handed hw hrecv, fun hend => ?_, h.quiet⟩
    obtain hend | hend := hend <;> split_ifs at hend
  · refine ⟨hreading, ?_, fun _ => ?_, h.quiet⟩
    · have hhanded := h.handed_eq
      rw [hw] at hhanded
      exact hhanded
    · have hsent := o.tx.sent_eq (h.rx_open (by rw [hw]; decide))
      rw [hq, List.append_nil] at hsent
      exact .inr ⟨h.no_close (.inr hw), hsent, hs⟩
  · refine ⟨hreading, h.accept_handed hw, fun hend => ?_, h.quiet⟩
    obtain ⟨es, hreceived, hes⟩ := h.sending e hw
    obtain hend | hend := hend <;> split_ifs at hend with hclose
    exact .inl ⟨es, e, hreceived, hes, hclose⟩
  · exact absurd rfl hact.1
  · refine ⟨hreading, ?_, fun _ => h.ended (.inl hw), h.quiet⟩
    have hhanded := h.handed_eq
    rw [hw] at hhanded
    exact hhanded
  · exact absurd rfl hact.2
  · refine ⟨hreading, h.handed_eq, fun hend => ?_, fun _ => hq⟩
    obtain hclose | ⟨hno, hsent, -⟩ := h.ended hend
    · exact .inl hclose
    · exact .inr ⟨hno, hsent, rfl⟩
  · exact h.call hstep (.inr (.inr rfl)) fun hs => ⟨rfl, h.quiet hs⟩

end Draining

/-! ### What is overtaken -/

theorem noneOvertaken_step {o o' : Outbound} {act : OutAct} (hstep : o.step act = some o') :
    NoneOvertaken o'.tx.sent ↔ NoneOvertaken o.tx.sent ∧ SendsBeforeClose o act o' := by
  obtain ⟨who, call, pool, rfl, -, hpool, rfl⟩ |
    ⟨who, pool, rfl, hpool, rfl⟩ | ⟨rfl, -, rfl⟩ | ⟨e, tx, rfl, -, hrecv, rfl⟩ |
    ⟨rfl, -, -, -, rfl⟩ | ⟨e, rfl, -, rfl⟩ | ⟨e, rfl, -, rfl⟩ | ⟨rfl, -, rfl⟩ | ⟨rfl, -, -, rfl⟩ |
    ⟨rfl, -, rfl⟩ | ⟨rfl, -, rfl⟩ := step_cases hstep
  · have hsent : pool.shared.tx.sent = o.tx.sent := by rw [ConnPool.shared_of_start hpool]
    have hsent' : NoneOvertaken pool.shared.tx.sent ↔ NoneOvertaken o.tx.sent := by rw [hsent]
    exact hsent'.trans (and_iff_left trivial).symm
  · obtain ⟨f, hf, hshared⟩ := ConnPool.shared_of_step hpool
    have hcond : SendsBeforeClose o (.step who) { o with pool := pool } ↔
        ∀ m ∈ f.pc.offers, m.sendable = true → o.tx.Accepts → NoClose o.tx.sent := by
      unfold SendsBeforeClose
      simp [hf]
    rw [hcond]
    simp only [tx, hshared]
    cases hpc : f.pc with
    | sendTry m =>
        have hoffers : (ConnPc.sendTry m).offers = some m := rfl
        simp only [ConnPc.after, BoundedQueue.sent_offer, hoffers, Option.mem_def,
          Option.some.injEq, forall_eq']
        split_ifs with ha
        · rw [noneOvertaken_append_singleton]
          simp [Envelope.due, Envelope.fromSend, ha]
        · simp [ha]
    | closeTry =>
        simp only [ConnPc.after, BoundedQueue.sent_offer, ConnPc.offers]
        split_ifs with ha
        · rw [noneOvertaken_append_singleton]
          simp [Envelope.due, Envelope.fromSend]
        · simp
    | _ => simp [ConnPc.after, ConnPc.offers]
  · exact (and_iff_left trivial).symm
  · obtain ⟨-, -, -, -, hsent, -⟩ := BoundedQueue.recv?_some hrecv
    have hsent' : NoneOvertaken tx.sent ↔ NoneOvertaken o.tx.sent := by rw [hsent]
    exact hsent'.trans (and_iff_left trivial).symm
  · exact (and_iff_left trivial).symm
  · exact (and_iff_left trivial).symm
  · exact (and_iff_left trivial).symm
  · exact (and_iff_left trivial).symm
  · exact (and_iff_left trivial).symm
  · exact (and_iff_left trivial).symm
  · exact (and_iff_left trivial).symm

/-- Once the writer has stopped, everything due has been handed over if and only if nothing due
stands behind a Close. -/
theorem Draining.delivered_iff_noneOvertaken {capacity : ℕ} {o : Outbound} (h : o.Draining)
    (hsound : o.pool.Sound capacity) (hstop : o.writer = .stopped) :
    o.Delivered ↔ NoneOvertaken o.tx.sent := by
  have hhanded := h.handed_eq
  rw [hstop] at hhanded
  simp only [WriterPc.pending, List.append_nil] at hhanded
  have hdue : (o.pool.accepted.filter fun e => e.message.sendable) =
      o.tx.sent.filter Envelope.due := by
    rw [hsound.accepted_eq, List.filter_filter]
    exact List.filter_congr fun e _ => Bool.and_comm _ _
  unfold Delivered
  rw [hdue, hhanded]
  apply sublist_iff_noneOvertaken o.tx.received_prefix
  obtain hclose | ⟨hno, hsent, -⟩ := h.ended (.inr hstop)
  · exact .inl hclose
  · exact .inr ⟨hno, hsent⟩

/-- **Accepted messages are delivered unless a Close overtakes them**: when the writer of an
undisturbed run has stopped, everything accepted that can be put on the wire has been handed to the
sink if and only if no step accepted such a message behind a Close. -/
theorem delivered_iff (capacity : ℕ) (acts : List OutAct) (o : Outbound)
    (hrun : exec step (new capacity) acts = some o) (hacts : ∀ act ∈ acts, act.Undisturbed)
    (hstop : o.writer = .stopped) :
    o.Delivered ↔ Along step SendsBeforeClose (new capacity) acts := by
  have hdraining : o.Draining := by
    refine exec_invariant_along ?_ (draining_new capacity) hrun (along_of_forall_mem hacts)
    intro o₁ act o₂ h₁ hstep hact
    exact h₁.step hstep hact
  have hnew : NoneOvertaken (new capacity).tx.sent := fun e he => by cases he
  rw [hdraining.delivered_iff_noneOvertaken (sound_of_exec hrun) hstop,
    exec_iff_along (P := fun o => NoneOvertaken o.tx.sent) (fun _ _ _ => noneOvertaken_step) hrun]
  exact and_iff_right hnew

/-- A send has found the connection open; `close` runs to its end; then the send enqueues. -/
def sendOvertaken : List OutAct :=
  [.spawn, .start (.app 0) (.send (.binary [1])), .step (.app 0),
    .start .task .close, .step .task, .step .task, .step (.app 0),
    .recv, .accept, .sinkClosed]

/-- The send was accepted, the writer has stopped, and the message was not handed over. -/
theorem not_delivered_sendOvertaken :
    (∀ act ∈ sendOvertaken, act.Undisturbed) ∧
      ∃ o, exec step (new 2) sendOvertaken = some o ∧ o.writer = .stopped ∧
        o.pool.accepted = [⟨.app 0, .send, .binary [1]⟩] ∧
        o.handed = [⟨.task, .close, .close⟩] ∧ ¬ o.Delivered := by
  decide

/-- A message that cannot be put on the wire, one that can, and the close of the connection. -/
def sendThenClose : List OutAct :=
  [.start (.app 0) (.send ⟨.text, [0xff]⟩), .step (.app 0), .step (.app 0), .spawn,
    .start (.app 0) (.send (.binary [1])), .step (.app 0), .recv, .step (.app 0),
    .start .task .close, .step .task, .step .task, .recv, .accept, .recv, .accept, .sinkClosed]

theorem delivered_iff_sendThenClose :
    ∃ o, exec step (new 2) sendThenClose = some o ∧ o.writer = .stopped ∧ o.Delivered := by
  have hend : ∃ o, exec step (new 2) sendThenClose = some o ∧ o.writer = .stopped := by decide
  obtain ⟨o, hrun, hstop⟩ := hend
  exact ⟨o, hrun, hstop, (delivered_iff 2 _ o hrun (by decide) hstop).mpr (by decide)⟩

end Outbound
end ArmatureWebsocket
