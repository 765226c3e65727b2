import ArmatureWebsocket.ClientDelivery
import ArmatureWebsocket.Delivery
import ArmatureWebsocket.WriterLoop

/-! # The writers while messages come in

The writer loops of the server's and the client's connection take their messages while others are
being enqueued.  Whatever the callers do in between, a writer stands as a relay over what has been
enqueued (`Outbound.Relaying`, `Client.Relaying`), so that what the sink has taken is a part in
front of what the loop over the whole queue would have it take, and all of it once the writer has
stopped (`Outbound.relayed`, `Client.relayed`). -/

namespace ArmatureWebsocket

open Execution CallPool

/-- The writers' relay, over queued messages. -/
def queueRelay : Relay Envelope := writerRelay.comap Envelope.message

/-- The wire form of a queued message. -/
def Envelope.wire (e : Envelope) : Option TungsteniteMessage := e.message.wire

theorem queueRelay_passes (e : Envelope) : queueRelay.passes e = e.message.sendable :=
  passes_eq_sendable e.message

theorem queueRelay_last (e : Envelope) : queueRelay.last e = e.message.isClose := rfl

theorem filterMap_wire_taken (failsAt : Option ℕ) (es : List Envelope) :
    (taken failsAt (queueRelay.due es)).filterMap Envelope.wire
      = taken failsAt (framesOf (es.map Envelope.message)) := by
  have hframes : framesOf (es.map Envelope.message)
      = (queueRelay.due es).filterMap Envelope.wire := by
    unfold framesOf
    rw [Relay.due_map, List.filterMap_map]
    rfl
  rw [hframes]
  apply filterMap_taken
  intro e he
  have hp : queueRelay.passes e = true := (List.mem_filter.mp he).2
  rw [queueRelay_passes] at hp
  exact (wire_isSome e.message).trans hp

theorem taken_run_given (failure : Option (ℕ × String)) (ms : List Message) :
    taken (Sink.new failure).failsAt (ConnectionWriter.run (.new failure) ms).1.given
      = taken (Sink.new failure).failsAt (framesOf ms) := by
  rw [run_given (.new failure) ms fun _ _ => Nat.zero_le _]
  exact taken_offered

namespace Outbound

/-- The sink fails at that frame or at none, and the writer is not aborted. -/
def SinkFails (failsAt : Option ℕ) (o : Outbound) : OutAct → Outbound → Prop
  | .accept, _ => failsAt ≠ some o.handed.length
  | .refuse, _ => failsAt = some o.handed.length
  | .abort, _ => False
  | _, _ => True

instance (failsAt : Option ℕ) (o : Outbound) (act : OutAct) (o' : Outbound) :
    Decidable (SinkFails failsAt o act o') :=
  match act with
  | .accept => inferInstanceAs (Decidable (failsAt ≠ _))
  | .refuse => inferInstanceAs (Decidable (failsAt = _))
  | .abort => .isFalse id
  | .start _ _ | .step _ | .spawn | .recv | .recvNone | .sinkClosed | .evicted | .dropSenders =>
      .isTrue trivial

/-- The writer stands as a relay over what has been enqueued. -/
structure Relaying (failsAt : Option ℕ) (o : Outbound) : Prop extends o.Reading where
  taking : o.writer = .unspawned ∨ o.writer = .waiting →
    queueRelay.Holds failsAt o.tx.received o.handed .taking
  giving : ∀ e, o.writer = .sending e →
    queueRelay.Holds failsAt o.tx.received o.handed (.giving e)
  left : o.writer = .closing ∨ o.writer = .stopped →
    queueRelay.Holds failsAt o.tx.received o.handed .ended ∨
      queueRelay.Holds failsAt o.tx.received o.handed .exhausted ∧
        o.tx.sent = o.tx.received ∧ o.senders = false
  quiet : o.senders = false → o.pool.Quiet

variable {failsAt : Option ℕ} {o o' : Outbound}

theorem relaying_new (capacity : ℕ) : (new capacity).Relaying failsAt where
  toReading := reading_new capacity
  taking := fun _ => Relay.holds_new
  giving := nofun
  left := fun h => by rcases h with h | h <;> cases h
  quiet := nofun

/-- The callers and the read loop do not touch where the writer stands. -/
theorem Relaying.call (h : o.Relaying failsAt) {act : OutAct} (hstep : o.step act = some o')
    (hact : (∃ who call, act = .start who call) ∨ (∃ who, act = .step who) ∨ act = .evicted)
    (hquiet : o.senders = false → o'.tx.sent = o.tx.sent ∧ o'.pool.Quiet) :
    o'.Relaying failsAt := by
  obtain ⟨hreceived, -, hw, hhanded, hsenders⟩ := received_of_call hstep hact
  refine ⟨h.toReading.step hstep, ?_, ?_, ?_, ?_⟩
  · rw [hw, hreceived, hhanded]
    exact h.taking
  · rw [hw, hreceived, hhanded]
    exact h.giving
  · rw [hw, hreceived, hhanded, hsenders]
    intro hleft
    obtain hended | ⟨hexhausted, hsent, hs⟩ := h.left hleft
    · exact .inl hended
    · exact .inr ⟨hexhausted, (hquiet hs).1.trans hsent, hs⟩
  · rw [hsenders]
    exact fun hs => (hquiet hs).2

theorem Relaying.step {act : OutAct} (h : o.Relaying failsAt) (hstep : o.step act = some o')
    (hsink : SinkFails failsAt o act o') : o'.Relaying failsAt := by
  have hreading := h.toReading.step hstep
  obtain ⟨who, call, pool, rfl, hs, -, -⟩ | ⟨who, pool, rfl, hpool, rfl⟩ |
    ⟨-, hw, rfl⟩ | ⟨e, tx, -, hw, hrecv, rfl⟩ | ⟨-, hw, hs, hq, rfl⟩ | ⟨e, rfl, hw, rfl⟩ |
    ⟨e, rfl, hw, rfl⟩ | ⟨-, hw, rfl⟩ | ⟨rfl, -, -, -⟩ | ⟨-, hq, rfl⟩ | ⟨rfl, -, rfl⟩ :=
    step_cases hstep
  · refine h.call hstep (.inl ⟨who, call, rfl⟩) fun hs' => ?_
    rw [hs] at hs'
    cases hs'
  · refine h.call hstep (.inr (.inl ⟨who, rfl⟩)) fun hs => ?_
    -- without senders nobody is in a call
    obtain ⟨f, hf, -⟩ := ConnPool.shared_of_step hpool
    rw [(h.quiet hs).lookup_eq_none who] at hf
    cases hf
  · refine ⟨hreading, fun _ => h.taking (.inl hw), nofun, fun hleft => ?_, h.quiet⟩
    obtain hleft | hleft := hleft <;> cases hleft
  · obtain ⟨-, -, -, -, -, hreceived⟩ := BoundedQueue.recv?_some hrecv
    have htake := (h.taking (.inr hw)).take e
    rw [queueRelay_passes, ← hreceived] at htake
    refine ⟨hreading, fun hwait => ?_, fun e' he' => ?_, fun hleft => ?_, h.quiet⟩
    · split_ifs at hwait htake with hp
      · obtain hwait | hwait := hwait <;> cases hwait
      · exact htake
    · split_ifs at he' htake with hp
      cases he'
      exact htake
    · obtain hleft | hleft := hleft <;> split_ifs at hleft
  · have hsent := o.tx.sent_eq (h.rx_open (by rw [hw]; decide))
    rw [hq, List.append_nil] at hsent
    refine ⟨hreading, fun hwait => ?_, nofun, fun _ => ?_, h.quiet⟩
    · obtain hwait | hwait := hwait <;> cases hwait
    · exact .inr ⟨(h.taking (.inr hw)).exhaust, hsent, hs⟩
  · have haccept := (h.giving e hw).accept hsink
    rw [queueRelay_last] at haccept
    refine ⟨hreading, fun hwait => ?_, fun e' he' => ?_, fun hleft => ?_, h.quiet⟩
    · split_ifs at hwait haccept with hclose
      · obtain hwait | hwait := hwait <;> cases hwait
      · exact haccept
    · split_ifs at he'
    · split_ifs at hleft haccept with hclose
      · exact .inl haccept
      · obtain hleft | hleft := hleft <;> cases hleft
  · refine ⟨hreading, fun hwait => ?_, nofun, fun _ => .inl ((h.giving e hw).refuse hsink),
      h.quiet⟩
    obtain hwait | hwait := hwait <;> cases hwait
  · refine ⟨hreading, fun hwait => ?_, nofun, fun _ => h.left (.inl hw), h.quiet⟩
    obtain hwait | hwait := hwait <;> cases hwait
  · exact hsink.elim
  · refine ⟨hreading, h.taking, h.giving, fun hleft => ?_, fun _ => hq⟩
    obtain hended | ⟨hexhausted, hsent, -⟩ := h.left hleft
    · exact .inl hended
    · exact .inr ⟨hexhausted, hsent, rfl⟩
  · exact h.call hstep (.inr (.inr rfl)) fun hs => ⟨rfl, h.quiet hs⟩

theorem Relaying.isPrefix (h : o.Relaying failsAt) :
    o.handed <+: taken failsAt (queueRelay.due o.tx.sent) := by
  have hsent := o.tx.received_prefix
  have hleft (hw : o.writer = .closing ∨ o.writer = .stopped) :
      o.handed <+: taken failsAt (queueRelay.due o.tx.sent) := by
    obtain hended | ⟨hexhausted, -, -⟩ := h.left hw
    · exact hended.isPrefix hsent
    · exact hexhausted.isPrefix hsent
  cases hw : o.writer with
  | unspawned => exact (h.taking (.inl hw)).isPrefix hsent
  | waiting => exact (h.taking (.inr hw)).isPrefix hsent
  | sending e => exact (h.giving e hw).isPrefix hsent
  | closing => exact hleft (.inl hw)
  | stopped => exact hleft (.inr hw)

theorem Relaying.handed_eq (h : o.Relaying failsAt) (hstop : o.writer = .stopped) :
    o.handed = taken failsAt (queueRelay.due o.tx.sent) := by
  obtain hended | ⟨hexhausted, hsent, -⟩ := h.left (.inr hstop)
  · exact (hended.ended o.tx.received_prefix).symm
  · rw [hsent]
    exact hexhausted.exhausted.symm

/-- **The server's writer while messages come in**: what the sink has taken is a part in front of
what the loop over everything enqueued has it take, and all of that when the writer has stopped. -/
theorem relayed {capacity : ℕ} {acts : List OutAct} {failure : Option (ℕ × String)}
    (hrun : exec step (new capacity) acts = some o)
    (hsink : Along step (SinkFails (Sink.new failure).failsAt) (new capacity) acts) :
    let loop := taken (Sink.new failure).failsAt
      (ConnectionWriter.run (.new failure) (o.tx.sent.map Envelope.message)).1.given
    o.handed.filterMap Envelope.wire <+: loop ∧
      (o.writer = .stopped → o.handed.filterMap Envelope.wire = loop) := by
  have hrelaying : o.Relaying (Sink.new failure).failsAt :=
    exec_invariant_along (fun _ _ _ h hstep hsink => h.step hstep hsink) (relaying_new capacity)
      hrun hsink
  simp only [taken_run_given, ← filterMap_wire_taken]
  refine ⟨hrelaying.isPrefix.filterMap _, fun hstop => ?_⟩
  rw [← hrelaying.handed_eq hstop]

end Outbound

namespace Client

/-- The sink fails at that frame or at none. -/
def SinkFails (failsAt : Option ℕ) (c : Client) : ClientAct → Client → Prop
  | .writer .accept, _ => failsAt ≠ some c.handed.length
  | .writer .refuse, _ => failsAt = some c.handed.length
  | _, _ => True

/-- The writer stands as a relay over what has been enqueued. -/
structure Relaying (failsAt : Option ℕ) (c : Client) : Prop extends c.Writing where
  taking : c.writer = .waiting → queueRelay.Holds failsAt c.tx.received c.handed .taking
  giving : ∀ e, c.writer = .sending e →
    queueRelay.Holds failsAt c.tx.received c.handed (.giving e)
  left : c.writer.left = true →
    queueRelay.Holds failsAt c.tx.received c.handed .ended ∨
      queueRelay.Holds failsAt c.tx.received c.handed .exhausted ∧
        c.tx.sent = c.tx.received ∧ c.handle = .dropped
  quiet : c.handle = .dropped → c.pool.Quiet

variable {failsAt : Option ℕ} {c c' : Client}

theorem relaying_new (capacity : ℕ) : (new capacity).Relaying failsAt where
  toWriting := writing_new capacity
  taking := fun _ => Relay.holds_new
  giving := nofun
  left := nofun
  quiet := nofun

theorem Relaying.write {act : WriterAct} (h : c.Relaying failsAt)
    (hstep : c.step (.writer act) = some c') (hsink : SinkFails failsAt c (.writer act) c') :
    c'.Relaying failsAt := by
  have hwriting : c'.Writing := h.toWriting.step hstep
  obtain ⟨e, tx, -, hw, hrecv, rfl⟩ | ⟨-, hw, hdropped, hqueue, rfl⟩ | ⟨e, rfl, hw, rfl⟩ |
    ⟨e, rfl, hw, rfl⟩ | ⟨-, hw, rfl⟩ | ⟨-, hw, rfl⟩ | ⟨-, hw, rfl⟩ := writer_cases hstep
  · obtain ⟨-, -, -, hreceived⟩ := UnboundedQueue.recv?_some hrecv
    have htake := (h.taking hw).take e
    rw [queueRelay_passes, ← hreceived] at htake
    refine ⟨hwriting, fun hwait => ?_, fun e' he' => ?_, fun hleft => ?_, h.quiet⟩
    · simp only at hwait
      split_ifs at hwait htake with hp
      exact htake
    · simp only at he'
      split_ifs at he' htake with hp
      cases he'
      exact htake
    · simp only at hleft
      split_ifs at hleft <;> cases hleft
  · have hsent : c.tx.sent = c.tx.received := by
      have hq := c.tx.sent_eq (h.rx_open (by rw [hw]; simp))
      rw [hqueue, List.append_nil] at hq
      exact hq
    exact ⟨hwriting, nofun, nofun, fun _ => .inr ⟨(h.taking hw).exhaust, hsent, hdropped⟩,
      h.quiet⟩
  · have haccept := (h.giving e hw).accept hsink
    rw [queueRelay_last] at haccept
    refine ⟨hwriting, fun hwait => ?_, fun e' he' => ?_, fun hleft => ?_, h.quiet⟩
    · simp only at hwait
      split_ifs at hwait haccept with hclose
      exact haccept
    · simp only at he'
      split_ifs at he'
    · simp only at hleft
      split_ifs at hleft haccept with hclose
      · exact .inl haccept
      · cases hleft
  · exact ⟨hwriting, nofun, nofun, fun _ => .inl ((h.giving e hw).refuse hsink), h.quiet⟩
  · exact ⟨hwriting, nofun, nofun, fun _ => h.left (by rw [hw]; rfl), h.quiet⟩
  · exact ⟨hwriting, nofun, nofun, fun _ => h.left (by rw [hw]; rfl), h.quiet⟩
  · exact ⟨hwriting, nofun, nofun, fun _ => h.left (by rw [hw]; rfl), h.quiet⟩

theorem Relaying.step {act : ClientAct} (h : c.Relaying failsAt) (hstep : c.step act = some c')
    (hsink : SinkFails failsAt c act c') : c'.Relaying failsAt := by
  by_cases hwriter : ∃ a, act = .writer a
  · obtain ⟨act, rfl⟩ := hwriter
    exact h.write hstep hsink
  · obtain ⟨hw, hhanded, hreceived, -⟩ := writer_side hstep fun a ha => hwriter ⟨a, ha⟩
    have hside : (c.handle = .dropped → c'.tx.sent = c.tx.sent ∧ c'.handle = .dropped) ∧
        (c'.handle = .dropped → c'.pool.Quiet) := by
      by_cases hcall : ∃ thread, act = .step thread
      · obtain ⟨thread, rfl⟩ := hcall
        obtain ⟨pc, hpc, hc'⟩ := step_some hstep
        have hheld : c.handle ≠ .dropped := by
          intro hdropped
          rw [(h.quiet hdropped).lookup_eq_none] at hpc
          cases hpc
        refine ⟨fun hdropped => absurd hdropped hheld, fun hdropped => ?_⟩
        rw [hc'] at hdropped
        exact absurd hdropped hheld
      · obtain ⟨htx, -, hhandle, hquiet⟩ := calls_side hstep (fun t ht => hcall ⟨t, ht⟩)
          fun a ha => hwriter ⟨a, ha⟩
        exact ⟨fun hdropped => ⟨by rw [htx], hhandle hdropped⟩, hquiet h.quiet⟩
    refine ⟨h.toWriting.step hstep, ?_, ?_, ?_, hside.2⟩
    · rw [hw, hreceived, hhanded]
      exact h.taking
    · rw [hw, hreceived, hhanded]
      exact h.giving
    · rw [hw, hreceived, hhanded]
      intro hleft
      obtain hended | ⟨hexhausted, hsent, hdropped⟩ := h.left hleft
      · exact .inl hended
      · exact .inr ⟨hexhausted, (hside.1 hdropped).1.trans hsent, (hside.1 hdropped).2⟩

theorem Relaying.isPrefix (h : c.Relaying failsAt) :
    c.handed <+: taken failsAt (queueRelay.due c.tx.sent) := by
  have hsent := c.tx.received_prefix
  have hleft (hw : c.writer.left = true) :
      c.handed <+: taken failsAt (queueRelay.due c.tx.sent) := by
    obtain hended | ⟨hexhausted, -, -⟩ := h.left hw
    · exact hended.isPrefix hsent
    · exact hexhausted.isPrefix hsent
  cases hw : c.writer with
  | waiting => exact (h.taking hw).isPrefix hsent
  | sending e => exact (h.giving e hw).isPrefix hsent
  | _ => exact hleft (by rw [hw]; rfl)

theorem Relaying.handed_eq (h : c.Relaying failsAt) (hleft : c.writer.left = true) :
    c.handed = taken failsAt (queueRelay.due c.tx.sent) := by
  obtain hended | ⟨hexhausted, hsent, -⟩ := h.left hleft
  · exact (hended.ended c.tx.received_prefix).symm
  · rw [hsent]
    exact hexhausted.exhausted.symm

/-- **The client's writer while messages come in**: what the sink has taken is a part in front of
what the loop over everything enqueued has it take, and all of that when the writer has left its
loop. -/
theorem relayed {capacity : ℕ} {acts : List ClientAct} {failure : Option (ℕ × String)}
    (hrun : exec step (new capacity) acts = some c)
    (hsink : Along step (SinkFails (Sink.new failure).failsAt) (new capacity) acts) :
    let loop := taken (Sink.new failure).failsAt
      (writerTask (.new failure) (c.tx.sent.map Envelope.message)).1.given
    c.handed.filterMap Envelope.wire <+: loop ∧
      (c.writer.left = true → c.handed.filterMap Envelope.wire = loop) := by
  have hrelaying : c.Relaying (Sink.new failure).failsAt :=
    exec_invariant_along (fun _ _ _ h hstep hsink => h.step hstep hsink) (relaying_new capacity)
      hrun hsink
  simp only [writerTask_given, taken_run_given, ← filterMap_wire_taken]
  refine ⟨hrelaying.isPrefix.filterMap _, fun hleft => ?_⟩
  rw [← hrelaying.handed_eq hleft]

end Client

/-- **The two writers write the same frames.**  Over any queue and with a sink that fails at any
frame or at none, both loops give the sink the frames of the queue in order, up to and including the
one at which it fails: those of the messages up to the first Close, without the texts that are not
UTF-8, which make no difference at all.  Before the last of them there is no close frame.  In every
run of a server's or a client's connection with such a sink, whatever is enqueued in the meantime,
the sink has taken what it takes from that loop when the writer has ended, and a part in front of it
before. -/
theorem writers_relay :
    (∀ failure ms,
      let given := offered (Sink.new failure).failsAt (framesOf ms)
      (ConnectionWriter.run (.new failure) ms).1.given = given ∧
        (Client.writerTask (.new failure) ms).1.given = given ∧
        (ConnectionWriter.run (.new failure) (ms.filter writerRelay.passes)).1.given = given ∧
        (Client.writerTask (.new failure) (ms.filter writerRelay.passes)).1.given = given ∧
        ∀ frame ∈ given.dropLast, frame.isClose = false) ∧
    (∀ failure capacity acts o, exec Outbound.step (.new capacity) acts = some o →
      Along Outbound.step (Outbound.SinkFails (Sink.new failure).failsAt) (.new capacity) acts →
        let loop := taken (Sink.new failure).failsAt
          (ConnectionWriter.run (.new failure) (o.tx.sent.map Envelope.message)).1.given
        o.handed.filterMap Envelope.wire <+: loop ∧
          (o.writer = .stopped → o.handed.filterMap Envelope.wire = loop)) ∧
    ∀ failure capacity acts c, exec Client.step (.new capacity) acts = some c →
      Along Client.step (Client.SinkFails (Sink.new failure).failsAt) (.new capacity) acts →
        let loop := taken (Sink.new failure).failsAt
          (Client.writerTask (.new failure) (c.tx.sent.map Envelope.message)).1.given
        c.handed.filterMap Envelope.wire <+: loop ∧
          (c.writer.left = true → c.handed.filterMap Envelope.wire = loop) := by
  have hloop (failure : Option (ℕ × String)) (ms : List Message) :
      (ConnectionWriter.run (.new failure) ms).1.given
        = offered (Sink.new failure).failsAt (framesOf ms) :=
    run_given (.new failure) ms fun _ _ => Nat.zero_le _
  refine ⟨fun failure ms => ⟨hloop failure ms, ?_, ?_, ?_, fun frame => isClose_of_mem_dropLast⟩,
    fun failure capacity acts o => Outbound.relayed, fun failure capacity acts c => Client.relayed⟩
  · rw [writerTask_given, hloop]
  · rw [hloop, framesOf_filter]
  · rw [writerTask_given, hloop, framesOf_filter]

/-- A text that is not UTF-8, a binary message that the sink takes, one that it refuses, and one
more. -/
def secondRefused : List OutAct :=
  [.start (.app 0) (.send ⟨.text, [0xff]⟩), .step (.app 0), .step (.app 0), .spawn, .recv,
    .start (.app 0) (.send (.binary [1])), .step (.app 0), .step (.app 0), .recv, .accept,
    .start (.app 0) (.send (.binary [2])), .step (.app 0), .step (.app 0),
    .start (.app 0) (.send (.binary [3])), .step (.app 0), .step (.app 0), .recv, .refuse]

theorem writers_relay_secondRefused :
    ∃ o, exec Outbound.step (.new 4) secondRefused = some o ∧
      o.handed.filterMap Envelope.wire = taken (some 1) (ConnectionWriter.run
        (.new (some (1, "reset"))) (o.tx.sent.map Envelope.message)).1.given := by
  obtain ⟨o, hrun, hstop⟩ : ∃ o, exec Outbound.step (.new 4) secondRefused = some o ∧
      o.writer = .stopped := by decide
  have hsink : Along Outbound.step (Outbound.SinkFails (some 1)) (.new 4) secondRefused := by
    decide
  exact ⟨o, hrun, (writers_relay.2.1 (some (1, "reset")) 4 _ o hrun hsink).2 hstop⟩

end ArmatureWebsocket
