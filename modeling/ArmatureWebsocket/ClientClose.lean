import ArmatureWebsocket.ClientDelivery

/-! # Whether `close` ends the writer of a client

`close` enqueues a Close only if it is the one that sets the flag, so that concurrent calls enqueue
one Close among them (`OneClose`).  But the reader sets the same flag when it ends.  After the peer
has closed, or after a read error, a `close` finds the flag set and enqueues nothing, and the writer
goes on waiting at an open queue: `closeAfterPeer` is such a run.

If every `close` that finds the flag set does so when the writer has left its loop, or a Close has
been enqueued, or another `close` is about to enqueue one, then a `close` that has returned ends the
writer (`close_ends_writer`). -/

namespace ArmatureWebsocket

open Execution CallPool

/-- The call is a `close`. -/
def ClientPc.closes : ClientPc → Bool
  | .closeSwap => true
  | .closeQueue => true
  | _ => false

/-- The reply of a `close`. -/
def ClientReply.isClosed : ClientReply → Bool
  | .closed _ => true
  | _ => false

namespace Client

variable {c c' : Client}

/-- How many Closes `close` has enqueued. -/
def closesQueued (c : Client) : ℕ := (c.tx.sent.filter fun e => !e.fromSend).length

/-- The writer has left its loop, or will leave it at a Close: the one it is handing to the sink or
one in the queue. -/
def WriterEnds (c : Client) : Prop :=
  c.writer.left = true ∨ (∃ e ∈ c.writer.pending, e.message.isClose = true) ∨ ¬ NoClose c.tx.queue

instance (c : Client) : Decidable c.WriterEnds :=
  inferInstanceAs (Decidable (_ ∨ (∃ e ∈ c.writer.pending, _) ∨ ¬ _))

/-- The writer has left its loop, a Close has been enqueued, or a `close` is about to enqueue its
own. -/
def CloseUnderway (c : Client) : Prop :=
  c.writer.left = true ∨ ¬ NoClose c.tx.sent ∨ c.pool.AnyAt fun pc => pc = .closeQueue

instance (c : Client) : Decidable c.CloseUnderway :=
  inferInstanceAs (Decidable (_ ∨ ¬ _ ∨ CallPool.AnyAt _ _))

/-- A `close` that finds the flag set does so when the end of the writer is underway. -/
def ClosesInTime (c : Client) : ClientAct → Client → Prop
  | .step thread, _ => ∀ pc ∈ c.pool.threads.lookup thread, pc = .closeSwap →
      c.isClosed = true → c.CloseUnderway
  | _, _ => True

instance (c : Client) (act : ClientAct) (c' : Client) : Decidable (ClosesInTime c act c') :=
  match act with
  | .step _ => inferInstanceAs (Decidable (∀ pc ∈ _, _ → _ → _))
  | .start _ _ | .drop | .dropped | .recv | .tryRecv | .reader _ | .writer _ => .isTrue trivial

/-! ### One Close -/

theorem atQueue_of_step {act : ClientAct} (hstep : c.step act = some c')
    (hcall : ∀ thread, act ≠ .step thread) (t : ℕ) :
    c'.pool.threads.lookup t = some .closeQueue ↔ c.pool.threads.lookup t = some .closeQueue := by
  have hbegun {thread : ℕ} {call : ClientCall} (hfree : c.pool.threads.lookup thread = none) :
      (c.pool.begun thread call.pc).threads.lookup t = some .closeQueue ↔
        c.pool.threads.lookup t = some .closeQueue := by
    rw [lookup_begun]
    split_ifs with ht
    · subst ht
      rw [hfree]
      cases call <;> simp [ClientCall.pc]
    · rfl
  cases act with
  | start thread call =>
      obtain ⟨-, hfree, rfl⟩ := start_some hstep
      exact hbegun hfree
  | step thread => exact absurd rfl (hcall thread)
  | drop =>
      obtain ⟨-, hquiet, rfl⟩ := drop_some hstep
      exact hbegun (hquiet.lookup_eq_none 0)
  | dropped =>
      obtain ⟨-, -, rfl⟩ := dropped_some hstep
      rfl
  | recv =>
      obtain ⟨-, result, -, rfl⟩ := recv_some hstep
      rfl
  | tryRecv =>
      obtain ⟨-, rfl⟩ := tryRecv_some hstep
      rfl
  | reader act =>
      obtain ⟨inbound, -, ⟨-, rfl⟩ | ⟨-, rfl⟩⟩ := reader_some hstep
      · rfl
      · rfl
  | writer act =>
      obtain ⟨e, tx, -, -, -, rfl⟩ | ⟨-, -, -, -, rfl⟩ | ⟨e, -, -, rfl⟩ | ⟨e, -, -, rfl⟩ |
        ⟨-, -, rfl⟩ | ⟨-, -, rfl⟩ | ⟨-, -, rfl⟩ := writer_cases hstep
      · rfl
      · rfl
      · rfl
      · rfl
      · rfl
      · rfl
      · rfl

/-- At most one `close` gets to enqueue its Close. -/
structure OneClose (c : Client) : Prop where
  fresh : c.isClosed = false →
    c.closesQueued = 0 ∧ ∀ t, c.pool.threads.lookup t ≠ some .closeQueue
  pending : ∀ t, c.pool.threads.lookup t = some .closeQueue →
    c.closesQueued = 0 ∧ ∀ t', c.pool.threads.lookup t' = some .closeQueue → t' = t
  le_one : c.closesQueued ≤ 1

theorem oneClose_new (capacity : ℕ) : (new capacity).OneClose where
  fresh := fun _ => ⟨rfl, fun t => by simp [new]⟩
  pending := fun t h => by simp [new] at h
  le_one := Nat.zero_le _

/-- An access of a call. -/
theorem OneClose.call {thread : ℕ} {pc : ClientPc} (h : c.OneClose)
    (hpc : c.pool.threads.lookup thread = some pc)
    (hc' : c' = { c with
      pool := c.pool.moved thread pc (pc.after thread c.pool.shared)
        (clientStep thread c.pool.shared pc).2 }) : c'.OneClose := by
  have hsent := sent_of_call hc'
  have hclosed : c'.isClosed = (pc.after thread c.pool.shared).closed := by
    rw [hc']
    unfold isClosed
    rw [moved_shared]
  have hat : ∀ t, c'.pool.threads.lookup t = some .closeQueue →
      t ≠ thread ∧ c.pool.threads.lookup t = some .closeQueue ∨
        t = thread ∧ (clientStep thread c.pool.shared pc).2 = .inl .closeQueue := by
    intro t ht
    rw [hc'] at ht
    exact lookup_moved ht
  by_cases hswap : pc = .closeSwap ∧ c.isClosed = false
  · -- the exchange is won: no other `close` has won it before
    obtain ⟨rfl, hopen⟩ := hswap
    obtain ⟨hzero, hnone⟩ := h.fresh hopen
    have hzero' : c'.closesQueued = 0 := by
      unfold closesQueued
      rw [hsent]
      exact hzero
    have hself : ∀ t, c'.pool.threads.lookup t = some .closeQueue → t = thread := by
      intro t ht
      obtain ⟨-, hbefore⟩ | ⟨hself, -⟩ := hat t ht
      · exact absurd hbefore (hnone t)
      · exact hself
    refine ⟨fun hfalse => ?_, fun t ht => ⟨hzero', fun t' ht' => ?_⟩, by omega⟩
    · rw [hclosed] at hfalse
      cases hfalse
    · rw [hself t ht, hself t' ht']
  · have hold : ∀ t, c'.pool.threads.lookup t = some .closeQueue →
        t ≠ thread ∧ c.pool.threads.lookup t = some .closeQueue := by
      intro t ht
      obtain hbefore | ⟨-, hnext⟩ := hat t ht
      · exact hbefore
      · obtain ⟨hopen, ⟨m, -, hm⟩ | ⟨rfl, -⟩⟩ := clientStep_next hnext
        · cases hm
        · exact absurd ⟨rfl, hopen⟩ hswap
    by_cases hqueue : pc = .closeQueue
    · -- the one `close` that won the exchange enqueues its Close
      subst hqueue
      obtain ⟨hzero, hunique⟩ := h.pending thread hpc
      have hnone : ∀ t, c'.pool.threads.lookup t ≠ some .closeQueue := by
        intro t ht
        obtain ⟨hne, hbefore⟩ := hold t ht
        exact hne (hunique t hbefore)
      refine ⟨fun hfalse => ?_, fun t ht => absurd ht (hnone t), ?_⟩
      · rw [hclosed] at hfalse
        exact absurd hpc ((h.fresh hfalse).2 thread)
      · unfold closesQueued at hzero ⊢
        rw [hsent]
        simp only [ClientPc.after, UnboundedQueue.sent_offer]
        split_ifs
        · rw [List.filter_append, List.length_append, hzero]
          simp [Envelope.fromSend]
        · show (c.tx.sent.filter _).length ≤ 1
          omega
    · have hcount : c'.closesQueued = c.closesQueued := by
        unfold closesQueued
        rw [hsent]
        cases pc with
        | sendQueue m =>
            simp only [ClientPc.after, UnboundedQueue.sent_offer]
            split_ifs
            · simp [List.filter_append, Envelope.fromSend]
            · rfl
        | closeQueue => exact absurd rfl hqueue
        | sendCheck m => rfl
        | closeSwap => rfl
      refine ⟨fun hfalse => ?_, fun t ht => ?_, by rw [hcount]; exact h.le_one⟩
      · have hbefore : c.isClosed = false := by
          by_contra hset
          have hshared : c.pool.shared.closed = true := by simpa [isClosed] using hset
          have hafter : (pc.after thread c.pool.shared).closed = true := closed_after hshared
          rw [hclosed, hafter] at hfalse
          cases hfalse
        obtain ⟨hzero, hnone⟩ := h.fresh hbefore
        exact ⟨hcount.trans hzero, fun t ht => hnone t (hold t ht).2⟩
      · obtain ⟨hzero, hunique⟩ := h.pending t (hold t ht).2
        exact ⟨hcount.trans hzero, fun t' ht' => hunique t' (hold t' ht').2⟩

theorem OneClose.step {act : ClientAct} (h : c.OneClose) (hstep : c.step act = some c') :
    c'.OneClose := by
  by_cases hcall : ∃ thread, act = .step thread
  · obtain ⟨thread, rfl⟩ := hcall
    obtain ⟨pc, hpc, hc'⟩ := step_some hstep
    exact h.call hpc hc'
  · have hcall' : ∀ thread, act ≠ .step thread := fun t ht => hcall ⟨t, ht⟩
    have hat := atQueue_of_step hstep hcall'
    have hcount : c'.closesQueued = c.closesQueued := by
      unfold closesQueued
      rw [sent_of_step hstep hcall']
    refine ⟨fun hfalse => ?_, fun t ht => ?_, by rw [hcount]; exact h.le_one⟩
    · have hbefore : c.isClosed = false := by
        by_contra hset
        rw [isClosed_of_step (by simpa using hset) hstep] at hfalse
        cases hfalse
      obtain ⟨hzero, hnone⟩ := h.fresh hbefore
      exact ⟨hcount.trans hzero, fun t ht => hnone t ((hat t).mp ht)⟩
    · obtain ⟨hzero, hunique⟩ := h.pending t ((hat t).mp ht)
      exact ⟨hcount.trans hzero, fun t' ht' => hunique t' ((hat t').mp ht')⟩

/-! ### The end of the writer -/

/-- What was enqueued stays enqueued. -/
theorem sent_prefix_of_step {act : ClientAct} (hstep : c.step act = some c') :
    c.tx.sent <+: c'.tx.sent := by
  by_cases hcall : ∃ thread, act = .step thread
  · obtain ⟨thread, rfl⟩ := hcall
    obtain ⟨pc, -, hc'⟩ := step_some hstep
    rw [sent_of_call hc']
    have happend (x : Envelope) : c.tx.sent <+: (c.tx.offer x).sent := by
      rw [UnboundedQueue.sent_offer]
      split_ifs
      · exact List.prefix_append _ _
      · exact List.prefix_rfl
    cases pc with
    | sendQueue m => exact happend _
    | closeQueue => exact happend _
    | sendCheck m => exact List.prefix_rfl
    | closeSwap => exact List.prefix_rfl
  · rw [sent_of_step hstep fun t ht => hcall ⟨t, ht⟩]

theorem left_of_step {act : ClientAct} (h : c.writer.left = true)
    (hstep : c.step act = some c') : c'.writer.left = true := by
  by_cases hwriter : ∃ a, act = .writer a
  · obtain ⟨act, rfl⟩ := hwriter
    obtain ⟨e, tx, -, hw, -, rfl⟩ | ⟨-, hw, -, -, rfl⟩ | ⟨e, -, hw, rfl⟩ | ⟨e, -, hw, rfl⟩ |
      ⟨-, -, rfl⟩ | ⟨-, -, rfl⟩ | ⟨-, -, rfl⟩ := writer_cases hstep
    · rw [hw] at h
      cases h
    · rfl
    · rw [hw] at h
      cases h
    · rfl
    · rfl
    · rfl
    · rfl
  · rw [(writer_side hstep fun a ha => hwriter ⟨a, ha⟩).1]
    exact h

theorem log_of_step {act : ClientAct} (hstep : c.step act = some c')
    (hcall : ∀ thread, act ≠ .step thread) : c'.pool.log = c.pool.log := by
  by_cases hwriter : ∃ a, act = .writer a
  · obtain ⟨act, rfl⟩ := hwriter
    obtain ⟨e, tx, -, -, -, rfl⟩ | ⟨-, -, -, -, rfl⟩ | ⟨e, -, -, rfl⟩ | ⟨e, -, -, rfl⟩ |
      ⟨-, -, rfl⟩ | ⟨-, -, rfl⟩ | ⟨-, -, rfl⟩ := writer_cases hstep <;> rfl
  · exact (calls_side hstep hcall fun a ha => hwriter ⟨a, ha⟩).2.1

theorem closeUnderway_of_closeQueue {thread : ℕ} (h : c.Writing)
    (hstep : c.step (.step thread) = some c')
    (hpc : c.pool.threads.lookup thread = some .closeQueue) : c'.CloseUnderway := by
  obtain ⟨pc, hpc', hc'⟩ := step_some hstep
  rw [hpc] at hpc'
  cases hpc'
  have hsent : c'.tx.sent = (c.tx.offer ⟨.app thread, .close, .close⟩).sent := sent_of_call hc'
  rw [UnboundedQueue.sent_offer] at hsent
  split_ifs at hsent with hopen
  · refine .inr (.inl fun hno => ?_)
    rw [hsent] at hno
    cases hno _ (List.mem_append_right _ List.mem_cons_self)
  · refine .inl (left_of_step ?_ hstep)
    have hstopped : c.writer = .stopped := by
      by_contra hne
      exact hopen (h.rx_open hne)
    rw [hstopped]
    rfl

theorem CloseUnderway.step {act : ClientAct} (h : c.CloseUnderway) (hwriting : c.Writing)
    (hstep : c.step act = some c') : c'.CloseUnderway := by
  obtain hleft | hsent | ⟨t, pc, ht, rfl⟩ := h
  · exact .inl (left_of_step hleft hstep)
  · exact .inr (.inl fun hno => hsent (hno.of_prefix (sent_prefix_of_step hstep)))
  · by_cases hcall : ∃ thread, act = .step thread
    · obtain ⟨thread, rfl⟩ := hcall
      by_cases hself : t = thread
      · subst hself
        exact closeUnderway_of_closeQueue hwriting hstep ht
      · obtain ⟨pc, -, rfl⟩ := step_some hstep
        exact .inr (.inr ⟨t, _, (lookup_moved_of_ne hself).trans ht, rfl⟩)
    · have hat := atQueue_of_step hstep (fun t ht => hcall ⟨t, ht⟩) t
      exact .inr (.inr ⟨t, _, hat.mpr ht, rfl⟩)

/-- Once a `close` has returned, the end of the writer is underway. -/
structure Closing (c : Client) : Prop extends c.Writing where
  underway : (∃ e ∈ c.pool.log, e.reply.isClosed = true) → c.CloseUnderway

theorem closing_new (capacity : ℕ) : (new capacity).Closing where
  toWriting := writing_new capacity
  underway := fun ⟨_, he, _⟩ => by cases he

theorem Closing.step {act : ClientAct} (h : c.Closing) (hstep : c.step act = some c')
    (hintime : ClosesInTime c act c') : c'.Closing := by
  have hkeep : c.CloseUnderway → c'.CloseUnderway := fun hc => hc.step h.toWriting hstep
  refine ⟨h.toWriting.step hstep, ?_⟩
  rintro ⟨e, he, hclosed⟩
  by_cases hcall : ∃ thread, act = .step thread
  · obtain ⟨thread, rfl⟩ := hcall
    obtain ⟨pc, hpc, hc'⟩ := step_some hstep
    rw [hc'] at he
    obtain he | ⟨reply, hreply, rfl⟩ := mem_log_moved.mp he
    · exact hkeep (h.underway ⟨e, he, hclosed⟩)
    · cases reply with
      | sent m result => cases hclosed
      | closed won =>
          obtain ⟨-, rfl, hset⟩ | ⟨-, rfl⟩ := clientStep_closed hreply
          · exact hkeep (hintime _ hpc rfl hset)
          · exact closeUnderway_of_closeQueue h.toWriting hstep hpc
  · rw [log_of_step hstep fun t ht => hcall ⟨t, ht⟩] at he
    exact hkeep (h.underway ⟨e, he, hclosed⟩)

theorem CloseUnderway.writerEnds (h : c.CloseUnderway) (hwriting : c.Writing)
    (hnone : ¬ c.pool.AnyAt fun pc => pc = .closeQueue) : c.WriterEnds := by
  obtain hleft | hsent | hany := h
  · exact .inl hleft
  · have hqueue (hopen : c.tx.rxOpen = true) (hreceived : NoClose c.tx.received) :
        ¬ NoClose c.tx.queue := by
      intro hno
      apply hsent
      rw [c.tx.sent_eq hopen]
      intro e he
      obtain he | he := List.mem_append.mp he
      · exact hreceived e he
      · exact hno e he
    cases hw : c.writer with
    | waiting =>
        have hopen := hwriting.rx_open (by rw [hw]; simp)
        exact .inr (.inr (hqueue hopen (hwriting.no_close hw)))
    | sending e =>
        by_cases hclose : e.message.isClose = true
        · refine .inr (.inl ⟨e, ?_, hclose⟩)
          rw [hw]
          exact List.mem_cons_self
        · have hopen := hwriting.rx_open (by rw [hw]; simp)
          obtain ⟨es, hreceived, hes⟩ := hwriting.sending e hw
          refine .inr (.inr (hqueue hopen ?_))
          rw [hreceived, noClose_append_singleton]
          exact ⟨hes, by simpa using hclose⟩
    | _ =>
        refine .inl ?_
        rw [hw]
        rfl
  · exact absurd hany hnone

/-- **When `close` ends the writer**: in a run in which every `close` that finds the flag set does
so when the writer has left its loop, a Close has been enqueued or another `close` is about to
enqueue one, once a `close` has returned and none is in progress, `close` has enqueued at most one
Close, and the writer has left its loop or comes to a Close. -/
theorem close_ends_writer (capacity : ℕ) (acts : List ClientAct) (c : Client)
    (hrun : exec step (new capacity) acts = some c)
    (hintime : Along step ClosesInTime (new capacity) acts)
    (hreturned : ∃ e ∈ c.pool.log, e.reply.isClosed = true)
    (hnone : ¬ c.pool.AnyAt fun pc => pc.closes = true) :
    c.closesQueued ≤ 1 ∧ c.WriterEnds := by
  have hone : c.OneClose := exec_invariant (P := OneClose) (fun _ _ _ h hs => h.step hs)
    (oneClose_new capacity) hrun
  have hclosing : c.Closing := by
    refine exec_invariant_along ?_ (closing_new capacity) hrun hintime
    intro c₁ act c₂ h₁ hstep hact
    exact h₁.step hstep hact
  refine ⟨hone.le_one, (hclosing.underway hreturned).writerEnds hclosing.toWriting fun hany => ?_⟩
  apply hnone
  apply hany.mono
  rintro pc rfl
  rfl

/-- The peer closes and the reader ends; then the application calls `close`. -/
def closeAfterPeer : List ClientAct :=
  [.reader (.read (.message (.close none))), .reader .enqueue, .reader .mark, .reader .finish,
    .start 0 .close, .step 0]

/-- The `close` has returned, no call is in progress, and the writer waits at an empty queue that
its receiver holds open. -/
theorem not_writerEnds_closeAfterPeer :
    ∃ c, exec step (new 1) closeAfterPeer = some c ∧ c.handle = .held ∧
      (∃ e ∈ c.pool.log, e.reply.isClosed = true) ∧ c.pool.Quiet ∧ c.writer = .waiting ∧
      c.tx.queue = [] ∧ c.tx.rxOpen = true ∧ ¬ c.WriterEnds := by
  decide

/-- Two threads call `close` at once, and then the peer closes. -/
def closeBeforePeer : List ClientAct :=
  [.start 0 .close, .start 1 .close, .step 0, .step 1, .step 0,
    .reader (.read (.message (.close none))), .reader .enqueue, .reader .mark]

theorem close_ends_writer_closeBeforePeer :
    ∃ c, exec step (new 1) closeBeforePeer = some c ∧ c.closesQueued ≤ 1 ∧ c.WriterEnds := by
  obtain ⟨c, hrun, hreturned, hnone⟩ : ∃ c, exec step (new 1) closeBeforePeer = some c ∧
      (∃ e ∈ c.pool.log, e.reply.isClosed = true) ∧
      ¬ c.pool.AnyAt fun pc => pc.closes = true := by decide
  exact ⟨c, hrun, close_ends_writer 1 _ c hrun (by decide) hreturned hnone⟩

end Client
end ArmatureWebsocket
