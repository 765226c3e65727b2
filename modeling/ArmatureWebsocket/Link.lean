import ArmatureWebsocket.Authorization
import ArmatureWebsocket.ClientReader
import ArmatureWebsocket.Trace
import ArmatureWebsocket.WireLegality
import ArmatureWebsocket.WriterRuns

/-! # A server's connection and its client

`Link` is a server's session and a client with the two directions of the wire between them.  A frame
goes on the wire when a writer gives it to its sink, which is the last that the writer knows of it:
it may arrive before the sink has taken it, and also when the sink refuses it or the writer is
aborted.  The wire keeps the order.  It can end at any time, with an error or without one, and what
is still under way is lost then.

The protocol library puts frames of its own between those of the writer: it answers pings, and it
answers a Close that it has read.

A frame on the wire is either that of a queued message or one of the library (`WireFrame`).  What a
writer took from its queue is what was due of it, and all of that is on the wire (`due_of_step`). -/

namespace ArmatureWebsocket

open Execution CallPool

/-- The frames that the protocol library makes by itself: answers to a ping and to a Close. -/
def TungsteniteMessage.isReply : TungsteniteMessage → Bool
  | .pong _ => true
  | .close _ => true
  | _ => false

/-- Texts and binaries. -/
def Message.isData (m : Message) : Bool := m.isText || m.isBinary

/-- A frame on the wire, of a queued message or of the protocol library. -/
inductive WireFrame where
  | queued (e : Envelope) (frame : TungsteniteMessage) (made : e.wire = some frame)
  | reply (frame : TungsteniteMessage) (own : frame.isReply = true)

namespace WireFrame

/-- What is read. -/
def frame : WireFrame → TungsteniteMessage
  | queued _ frame _ => frame
  | reply frame _ => frame

/-- The queued message that the frame was made of. -/
def envelope : WireFrame → Option Envelope
  | queued e _ _ => some e
  | reply _ _ => none

/-- The frame of a queued message, if it has one. -/
def ofEnvelope (e : Envelope) : Option WireFrame :=
  match h : e.wire with
  | some frame => some (queued e frame h)
  | none => none

end WireFrame

/-- One direction of the wire. -/
abbrev Wire := UnboundedQueue WireFrame

namespace Wire

/-- The frame of the message that a writer gives to its sink goes on the wire. -/
def carry (w : Wire) (given : Option Envelope) : Wire :=
  match given.bind WireFrame.ofEnvelope with
  | some frame => w.offer frame
  | none => w

/-- A Close has been read. -/
def ClosedByPeer (w : Wire) : Prop := ∃ frame ∈ w.received, frame.frame.isClose = true

instance (w : Wire) : Decidable w.ClosedByPeer := inferInstanceAs (Decidable (∃ _ ∈ _, _))

end Wire

/-- The message that the writer gives to its sink. -/
def WriterPc.given : WriterPc → Option Envelope
  | .sending e => some e
  | _ => none

def ClientWriterPc.given : ClientWriterPc → Option Envelope
  | .sending e => some e
  | _ => none

/-- The message that is given to the server's sink in a step with that end. -/
def Session.given (act : SessionAct) (s : Session) : Option Envelope :=
  match act with
  | .outside .recv => s.out.writer.given
  | _ => none

/-- The message that is given to the client's sink. -/
def Client.given (act : ClientAct) (c : Client) : Option Envelope :=
  match act with
  | .writer .recv => c.writer.given
  | _ => none

/-- The message that is handed to `on_message`. -/
def SessionEvent.message : SessionEvent → Option Message
  | .handler (.onMessage _ _ message) => some message
  | _ => none

/-- The messages that were handed to `on_message`, in order. -/
def Session.handled (s : Session) : List Message := s.trace.filterMap SessionEvent.message

/-- The frame that was read. -/
def ReadResult.frame : ReadResult → Option TungsteniteMessage
  | .message msg => some msg
  | _ => none

/-- The data messages that the frames are converted to. -/
def dataOf (frames : List TungsteniteMessage) : List Message :=
  (frames.map Message.ofTungstenite).filter Message.isData

/-- What the server's task reads. -/
def SessionAct.result : SessionAct → Option ReadResult
  | .read _ result => some result
  | _ => none

/-- The frame that the server's task reads. -/
def SessionAct.frame (act : SessionAct) : Option TungsteniteMessage :=
  act.result.bind ReadResult.frame

/-- The two parties with the wire down to the client and the one up to the server. -/
structure Link where
  server : Session
  client : Client
  down : Wire
  up : Wire

/-- A party does a step of its own, reads what has arrived, or its library answers. -/
inductive LinkAct where
  | server (act : SessionAct)
  | client (act : ClientAct)
  | serverReads (now : ℕ)
  | clientReads
  | serverReplies (frame : TungsteniteMessage) (own : frame.isReply = true)
  | clientReplies (frame : TungsteniteMessage) (own : frame.isReply = true)

namespace Link

/-- Before the handshake. -/
def new (config : WebSocketServerConfig) (capacity : ℕ) : Link :=
  ⟨.new config, .new capacity, .new, .new⟩

section

variable (config : WebSocketServerConfig) (instantMax : ℕ)

/-- The steps of the two parties. -/
def step (l : Link) : LinkAct → Option Link
  | .server act =>
      match act.frame with
      | some _ => none
      | none =>
          (l.server.step config instantMax act).map fun server =>
            { l with server := server, down := Wire.carry l.down (server.given act) }
  | .client act =>
      match act.frame with
      | some _ => none
      | none =>
          (l.client.step act).map fun client =>
            { l with client := client, up := Wire.carry l.up (client.given act) }
  | .serverReads now =>
      match l.up.recv? with
      | some (frame, up) =>
          (l.server.step config instantMax (.read now (.message frame.frame))).map fun server =>
            { l with server := server, up := up }
      | none => none
  | .clientReads =>
      match l.down.recv? with
      | some (frame, down) =>
          (l.client.step (.reader (.read (.message frame.frame)))).map fun client =>
            { l with client := client, down := down }
      | none => none
  | .serverReplies frame own =>
      if frame.isClose = true → Wire.ClosedByPeer l.up then
        some { l with down := l.down.offer (.reply frame own) }
      else none
  | .clientReplies frame own =>
      if frame.isClose = true → Wire.ClosedByPeer l.down then
        some { l with up := l.up.offer (.reply frame own) }
      else none

end

end Link

/-! ### What a step takes from a queue and gives to a sink -/

/-- A read leads to a call of `on_message` exactly when it is a data message. -/
theorem afterRead_data (result : ReadResult) (who : Identity) :
    (match afterRead result with
      | .exit _ => []
      | .call callback => [SessionEvent.handler (callback.handlerCall who)]).filterMap
        SessionEvent.message = dataOf result.frame.toList := by
  cases result with
  | message msg => cases msg <;> rfl
  | error reason => rfl
  | endOfStream => rfl

namespace Outbound

/-- What is due of what the writer received grows by the message that it gives to its sink. -/
theorem due_of_step {o o' : Outbound} {act : OutAct} (h : o.Reading)
    (hstep : o.step act = some o') :
    queueRelay.due o'.tx.received = queueRelay.due o.tx.received ++
      (if act = .recv then o'.writer.given else none).toList := by
  have hsame (hreceived : o'.tx.received = o.tx.received) (hact : act ≠ .recv) :
      queueRelay.due o'.tx.received = queueRelay.due o.tx.received ++
        (if act = .recv then o'.writer.given else none).toList := by
    rw [hreceived, if_neg hact]
    exact (List.append_nil _).symm
  have hcall (hact : (∃ who call, act = .start who call) ∨ (∃ who, act = .step who) ∨
      act = .evicted) : o'.tx.received = o.tx.received := (received_of_call hstep hact).1
  obtain ⟨who, call, pool, rfl, -, -, -⟩ | ⟨who, pool, rfl, -, -⟩ |
    ⟨rfl, -, rfl⟩ | ⟨e, tx, rfl, hw, hrecv, rfl⟩ | ⟨rfl, -, -, -, rfl⟩ | ⟨e, rfl, -, rfl⟩ |
    ⟨e, rfl, -, rfl⟩ | ⟨rfl, -, rfl⟩ | ⟨rfl, -, -, rfl⟩ | ⟨rfl, -, rfl⟩ | ⟨rfl, -, -⟩ :=
    step_cases hstep
  · exact hsame (hcall (.inl ⟨who, call, rfl⟩)) (by simp)
  · exact hsame (hcall (.inr (.inl ⟨who, rfl⟩))) (by simp)
  · exact hsame rfl (by simp)
  · obtain ⟨-, -, -, -, -, hreceived⟩ := BoundedQueue.recv?_some hrecv
    have hno : queueRelay.NoLast o.tx.received := h.no_close (.inr hw)
    show queueRelay.due tx.received = _
    rw [hreceived, Relay.due_concat hno, queueRelay_passes, if_pos rfl]
    cases hsendable : e.message.sendable with
    | true => rfl
    | false => rfl
  · exact hsame rfl (by simp)
  · exact hsame rfl (by simp)
  · exact hsame rfl (by simp)
  · exact hsame rfl (by simp)
  · exact hsame rfl (by simp)
  · exact hsame rfl (by simp)
  · exact hsame (hcall (.inr (.inr rfl))) (by simp)

end Outbound

namespace Session

variable {config : WebSocketServerConfig} {instantMax : ℕ} {s s' : Session} {act : SessionAct}

theorem reading_step (h : s.out.Reading) (hstep : s.step config instantMax act = some s') :
    s'.out.Reading := by
  obtain he | ⟨a, ha, -⟩ := step_out hstep
  · rw [he]
    exact h
  · exact h.step ha

theorem due_of_step (h : s.out.Reading) (hstep : s.step config instantMax act = some s') :
    queueRelay.due s'.out.tx.received =
      queueRelay.due s.out.tx.received ++ (s'.given act).toList := by
  have hother (hact : ∀ a, act ≠ .outside a) : s'.given act = none := by
    unfold given
    split
    · exact absurd rfl (hact .recv)
    · rfl
  obtain ⟨a, rfl, hout⟩ | ⟨hact, he | ⟨a, hout, ha, -⟩⟩ := step_routes hstep
  · rw [Outbound.due_of_step h hout]
    cases a <;> rfl
  · rw [he, hother hact]
    exact (List.append_nil _).symm
  · rw [Outbound.due_of_step h hout, if_neg ha, hother hact]

/-! ### What the task has read and handed on -/

/-- What the task has read and handed to `on_message`. -/
def reading (s : Session) : List ReadResult × List Message := (s.yielded, s.handled)

theorem note_reading {events : Identity → List SessionEvent}
    (h : ∀ who, (events who).filterMap SessionEvent.message = []) :
    (s.note events).reading = s.reading := by
  have hhandled : (s.note events).handled = s.handled := by
    unfold handled note
    rw [List.filterMap_append]
    cases s.identity with
    | none => exact List.append_nil _
    | some who =>
        show _ ++ (events who).filterMap _ = _
        rw [h who, List.append_nil]
  unfold reading
  rw [hhandled]
  rfl

theorem goto_reading {stage : Stage} : (s.goto stage).reading = s.reading := rfl

theorem guarded_reading {call : LibraryCall} {next : Session} (h : next.reading = s.reading) :
    (guarded instantMax s call next).reading = s.reading := by
  obtain ⟨-, he⟩ | ⟨-, he⟩ := guarded_cases instantMax s call next
  · rw [he, h]
  · rw [he]
    rfl

theorem loopHead_reading : (s.loopHead config instantMax).reading = s.reading :=
  guarded_reading rfl

theorem handshakeEnd_reading {outcome : WebSocketResult (Option Principal)} {id : ConnectionId} :
    (s.handshakeEnd config instantMax outcome id).reading = s.reading := by
  obtain ⟨principal, -, he⟩ | ⟨stage, -, he⟩ := handshakeEnd_cases config instantMax s outcome id
  · rw [he]
    rfl
  · rw [he]
    rfl

theorem callReturned_reading {failed : Bool} :
    (s.callReturned config instantMax failed).reading = s.reading := by
  unfold callReturned
  split
  · split_ifs
    · rfl
    · exact loopHead_reading
  · exact loopHead_reading
  · rfl
  · rw [goto_reading]
    apply note_reading
    intro who
    rfl
  · rfl

theorem begin_reading {call : ConnCall} {stage : Stage} {t : Session}
    (hbegin : t.begin call stage = some s') : s'.reading = t.reading := by
  obtain ⟨-, -, rfl⟩ := begin_some hbegin
  rfl

/-- Only a read adds to them. -/
theorem reading_of_step (hstep : s.step config instantMax act = some s')
    (hact : act.result = none) : s'.reading = s.reading := by
  cases act with
  | outside a =>
      obtain ⟨-, -, he⟩ := outside_some hstep
      rw [he]
      rfl
  | handshaken outcome id =>
      obtain ⟨-, rfl⟩ := handshaken_some hstep
      exact handshakeEnd_reading
  | registered =>
      obtain ⟨-, rfl⟩ := registered_some hstep
      unfold registered
      rw [goto_reading]
      apply note_reading
      intro who
      rfl
  | connected now =>
      obtain ⟨out, -, -, rfl⟩ := connected_some hstep
      exact guarded_reading loopHead_reading
  | tick =>
      obtain ⟨-, ⟨vars, why, -, rfl⟩ | ⟨vars, -, hbegin⟩⟩ := tick_some hstep
      · rfl
      · exact (begin_reading hbegin).trans rfl
  | evicted =>
      obtain ⟨out, -, -, rfl⟩ := evicted_some hstep
      rfl
  | idle =>
      obtain ⟨-, rfl⟩ := idle_some hstep
      rfl
  | read now result => cases hact
  | callbackReturned pong =>
      obtain ⟨callback, -, ⟨-, rfl⟩ | ⟨-, hbegin⟩ | ⟨why, -, rfl⟩⟩ := callbackReturned_some hstep
      · exact loopHead_reading
      · exact (begin_reading hbegin).trans (note_reading fun _ => rfl)
      · rfl
  | callbackPanicked =>
      obtain ⟨-, out, -, rfl⟩ | ⟨-, rfl⟩ := callbackPanicked_some hstep
      · rfl
      · rfl
  | taskStep =>
      obtain ⟨f, out, -, -, -, ⟨pc, -, rfl⟩ | ⟨reply, -, rfl⟩⟩ := taskStep_some hstep
      · rfl
      · exact callReturned_reading
  | teardown => exact begin_reading (teardown_some hstep).2
  | joined => exact begin_reading (joined_some hstep).2.2
  | timedOut => exact (begin_reading (timedOut_some hstep).2).trans rfl
  | disconnected =>
      obtain ⟨-, rfl⟩ := disconnected_some hstep
      rw [goto_reading]
      apply note_reading
      intro who
      rfl

/-- A data message that was read is handed on. -/
theorem handled_of_read {now : ℕ} {result : ReadResult} (h : s.Named)
    (hstep : s.step config instantMax (.read now result) = some s') :
    s'.yielded = s.yielded ++ [result] ∧ s'.handled = s.handled ++ dataOf result.frame.toList := by
  obtain ⟨hstage, rfl⟩ := read_some hstep
  obtain ⟨who, hwho⟩ : ∃ who, s.identity = some who := by
    cases hwho : s.identity with
    | some who => exact ⟨who, rfl⟩
    | none =>
        obtain hs | hdone := h.late hwho
        · cases hs.symm.trans hstage
        · rw [hstage] at hdone
          cases hdone
  have hread := afterRead_data result who
  unfold Session.afterRead
  refine ⟨by split <;> rfl, ?_⟩
  split
  · rename_i why hexit
    rw [hexit] at hread
    rw [← hread]
    exact (List.append_nil _).symm
  · rename_i callback hcall
    rw [hcall] at hread
    rw [← hread]
    unfold handled goto note
    rw [hwho, List.filterMap_append]
    rfl

end Session

namespace Client

variable {c c' : Client} {act : ClientAct}

theorem due_of_step (h : c.Writing) (hstep : c.step act = some c') :
    queueRelay.due c'.tx.received = queueRelay.due c.tx.received ++ (c'.given act).toList := by
  by_cases hact : ∃ a, act = .writer a
  · obtain ⟨act, rfl⟩ := hact
    obtain ⟨e, tx, rfl, hw, hrecv, rfl⟩ | ⟨rfl, -, -, -, rfl⟩ | ⟨e, rfl, -, rfl⟩ |
      ⟨e, rfl, -, rfl⟩ | ⟨rfl, -, rfl⟩ | ⟨rfl, -, rfl⟩ | ⟨rfl, -, rfl⟩ := writer_cases hstep
    · obtain ⟨-, -, -, hreceived⟩ := UnboundedQueue.recv?_some hrecv
      have hno : queueRelay.NoLast c.tx.received := h.no_close hw
      show queueRelay.due tx.received = _
      rw [hreceived, Relay.due_concat hno, queueRelay_passes]
      cases hsendable : e.message.sendable with
      | true => simp [given, ClientWriterPc.given]
      | false => simp [given, ClientWriterPc.given]
    · exact (List.append_nil _).symm
    · exact (List.append_nil _).symm
    · exact (List.append_nil _).symm
    · exact (List.append_nil _).symm
    · exact (List.append_nil _).symm
    · exact (List.append_nil _).symm
  · obtain ⟨-, -, hreceived, -⟩ := writer_side hstep fun a ha => hact ⟨a, ha⟩
    have hnone : c'.given act = none := by
      unfold given
      split
      · exact absurd ⟨_, rfl⟩ hact
      · rfl
    rw [hreceived, hnone]
    exact (List.append_nil _).symm

end Client
end ArmatureWebsocket
