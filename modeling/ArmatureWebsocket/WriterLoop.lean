import ArmatureWebsocket.Client
import ArmatureWebsocket.Relay

/-! # The loops of the two writers

`ConnectionWriter.run` and `Client.writerTask` are the loops of the server's and the client's writer
over a queue that has been filled and has lost its senders, with a sink that fails at some frame or
at none.  Both are relays: texts that are not UTF-8 do not pass, and a Close is the last message
(`run_given`, `writerTask_given`).  They differ in how they end: the server's writer closes the sink
only if no frame failed (`run_closed`), the client's always (`writerTask_closed`). -/

namespace ArmatureWebsocket

/-- A sink: at which frame it fails and how, what it was given, and whether it was closed. -/
structure Sink where
  failure : Option (ℕ × String)
  given : List TungsteniteMessage
  closed : Bool

namespace Sink

/-- A sink that was given nothing yet. -/
def new (failure : Option (ℕ × String)) : Sink := ⟨failure, [], false⟩

/-- The index of the frame at which it fails. -/
def failsAt (s : Sink) : Option ℕ := s.failure.map Prod.fst

/-- Give it a frame. -/
def send (s : Sink) (frame : TungsteniteMessage) : Sink × Except String Unit :=
  let result : Except String Unit :=
    match s.failure with
    | some (k, e) => if k = s.given.length then .error e else .ok ()
    | none => .ok ()
  ({ s with given := s.given ++ [frame] }, result)

def close (s : Sink) : Sink := { s with closed := true }

/-- A sink takes a frame or fails at it. -/
theorem send_cases (s : Sink) (frame : TungsteniteMessage) :
    (∃ e, s.send frame = ({ s with given := s.given ++ [frame] }, .error e) ∧
      s.failsAt = some s.given.length) ∨
    s.send frame = ({ s with given := s.given ++ [frame] }, .ok ()) ∧
      s.failsAt ≠ some s.given.length := by
  unfold send failsAt
  cases s.failure with
  | none => exact .inr ⟨rfl, by simp⟩
  | some failure =>
      obtain ⟨k, e⟩ := failure
      by_cases hk : k = s.given.length
      · exact .inl ⟨e, by simp [hk], by simp [hk]⟩
      · exact .inr ⟨by simp [hk], by simp [hk]⟩

end Sink

/-- The writer loop, over the messages that it receives. -/
def ConnectionWriter.run (sink : Sink) : List Message → Sink × WebSocketResult Unit
  | [] => (sink.close, .ok ())
  | message :: rx =>
      let isClose := message.isClose
      match message.toTungstenite with
      | .error _ => ConnectionWriter.run sink rx
      | .ok rawMessage =>
          match sink.send rawMessage with
          | (sink, .error e) => (sink, .error (.protocol e))
          | (sink, .ok ()) =>
              if isClose then (sink.close, .ok ()) else ConnectionWriter.run sink rx

/-- The writer task, over the messages that it receives; it leaves the flag `closed` set. -/
def Client.writerTask (write : Sink) : List Message → Sink × Bool
  | [] => (write.close, true)
  | message :: rx =>
      let isClose := message.isClose
      match message.toTungstenite with
      | .error _ => Client.writerTask write rx
      | .ok rawMessage =>
          match write.send rawMessage with
          | (write, .error _) => (write.close, true)
          | (write, .ok ()) => if isClose then (write.close, true) else Client.writerTask write rx

/-! ### What is to be written -/

/-- The wire form of a message that has one. -/
def Message.wire (m : Message) : Option TungsteniteMessage := m.toTungstenite.toOption

/-- Texts that are not UTF-8 do not pass, and a Close is a last message. -/
def writerRelay : Relay Message where
  passes := fun m => !(m.isText && !Utf8.isUtf8 m.payload)
  last := Message.isClose
  passes_of_last := by
    intro m hclose
    unfold Message.isText
    rw [beq_iff_eq.mp hclose]
    rfl

/-- The frames of a queue: up to the first Close, without the texts that are not UTF-8. -/
def framesOf (ms : List Message) : List TungsteniteMessage :=
  (writerRelay.due ms).filterMap Message.wire

section frames

variable {m : Message} {raw : TungsteniteMessage} {ms : List Message}

theorem passes_eq_sendable (m : Message) : writerRelay.passes m = m.sendable := by
  rw [Bool.eq_iff_iff, ← not_iff_not, Bool.not_eq_true, Bool.not_eq_true,
    Message.sendable_eq_false_iff]
  simp [writerRelay, Message.isText]

theorem wire_isSome (m : Message) : m.wire.isSome = m.sendable := by
  unfold Message.wire Message.sendable
  cases m.toTungstenite <;> rfl

theorem framesOf_cons_error {e : InvalidTextPayload} (h : m.toTungstenite = .error e) :
    framesOf (m :: ms) = framesOf ms := by
  have hp : writerRelay.passes m = false := by
    rw [passes_eq_sendable, Message.sendable, h]
  unfold framesOf
  rw [Relay.due_cons_of_not_passes hp]

theorem passes_of_ok (h : m.toTungstenite = .ok raw) : writerRelay.passes m = true := by
  rw [passes_eq_sendable, Message.sendable, h]

theorem wire_of_ok (h : m.toTungstenite = .ok raw) : m.wire = some raw := by
  rw [Message.wire, h]
  rfl

theorem framesOf_cons_close (h : m.toTungstenite = .ok raw) (hclose : m.isClose = true) :
    framesOf (m :: ms) = [raw] := by
  unfold framesOf
  rw [Relay.due_cons_of_last hclose, List.filterMap_cons_some (wire_of_ok h), List.filterMap_nil]

theorem framesOf_cons_ok (h : m.toTungstenite = .ok raw) (hclose : m.isClose = false) :
    framesOf (m :: ms) = raw :: framesOf ms := by
  unfold framesOf
  rw [Relay.due_cons_of_passes hclose (passes_of_ok h), List.filterMap_cons_some (wire_of_ok h)]

/-- Messages that cannot be sent make no difference. -/
theorem framesOf_filter (ms : List Message) :
    framesOf (ms.filter writerRelay.passes) = framesOf ms := by
  unfold framesOf
  rw [Relay.due_filter]

theorem isClose_of_wire (h : m.wire = some raw) : raw.isClose = m.isClose := by
  unfold Message.wire Message.toTungstenite at h
  unfold Message.isClose
  cases hm : m.messageType with
  | text =>
      simp only [hm] at h
      split_ifs at h
      · cases h
        rfl
      · cases h
  | _ =>
      simp only [hm] at h
      cases h
      rfl

end frames

/-! ### The loops write it -/

/-- The server's writer gives the sink the frames of the queue, up to the one at which it fails. -/
theorem run_given (sink : Sink) (ms : List Message)
    (hfits : ∀ k ∈ sink.failsAt, sink.given.length ≤ k) :
    (ConnectionWriter.run sink ms).1.given = offered sink.failsAt (sink.given ++ framesOf ms) := by
  induction ms generalizing sink with
  | nil =>
      show sink.given = offered sink.failsAt (sink.given ++ [])
      rw [List.append_nil, offered_eq_self hfits]
  | cons m ms ih =>
      unfold ConnectionWriter.run
      cases hraw : m.toTungstenite with
      | error e =>
          rw [framesOf_cons_error hraw]
          exact ih sink hfits
      | ok raw =>
          obtain ⟨e, hsend, hfails⟩ | ⟨hsend, hfails⟩ := sink.send_cases raw
          · simp only [hsend]
            cases hclose : m.isClose with
            | true =>
                rw [framesOf_cons_close hraw hclose, offered_append_of_length hfails]
            | false =>
                rw [framesOf_cons_ok hraw hclose, offered_append_of_length hfails]
          · simp only [hsend]
            have hfits' := fits_append (a := raw) hfits hfails
            cases hclose : m.isClose with
            | true =>
                rw [framesOf_cons_close hraw hclose, offered_eq_self hfits']
                rfl
            | false =>
                have happend : sink.given ++ raw :: framesOf ms
                    = (sink.given ++ [raw]) ++ framesOf ms := List.append_cons _ _ _
                rw [framesOf_cons_ok hraw hclose, happend]
                exact ih { sink with given := sink.given ++ [raw] } hfits'

/-- The client's writer gives the sink the same frames. -/
theorem writerTask_given (sink : Sink) (ms : List Message) :
    (Client.writerTask sink ms).1.given = (ConnectionWriter.run sink ms).1.given := by
  induction ms generalizing sink with
  | nil => rfl
  | cons m ms ih =>
      unfold Client.writerTask ConnectionWriter.run
      cases m.toTungstenite with
      | error e => exact ih sink
      | ok raw =>
          obtain ⟨e, hsend, -⟩ | ⟨hsend, -⟩ := sink.send_cases raw
          · simp only [hsend]
            rfl
          · simp only [hsend]
            split_ifs
            · rfl
            · exact ih _

theorem writerTask_closed (sink : Sink) (ms : List Message) :
    (Client.writerTask sink ms).1.closed = true ∧ (Client.writerTask sink ms).2 = true := by
  induction ms generalizing sink with
  | nil => exact ⟨rfl, rfl⟩
  | cons m ms ih =>
      unfold Client.writerTask
      cases m.toTungstenite with
      | error e => exact ih sink
      | ok raw =>
          obtain ⟨e, hsend, -⟩ | ⟨hsend, -⟩ := sink.send_cases raw
          · simp only [hsend]
            exact ⟨rfl, trivial⟩
          · simp only [hsend]
            split_ifs
            · exact ⟨rfl, rfl⟩
            · exact ih _

theorem run_closed (sink : Sink) (ms : List Message) (hopen : sink.closed = false) :
    (ConnectionWriter.run sink ms).1.closed = (ConnectionWriter.run sink ms).2.isOk := by
  induction ms generalizing sink with
  | nil => rfl
  | cons m ms ih =>
      unfold ConnectionWriter.run
      cases m.toTungstenite with
      | error e => exact ih sink hopen
      | ok raw =>
          obtain ⟨e, hsend, -⟩ | ⟨hsend, -⟩ := sink.send_cases raw
          · simp only [hsend]
            exact hopen
          · simp only [hsend]
            split_ifs
            · rfl
            · exact ih _ hopen

theorem wire_isSome_of_due {ms : List Message} :
    ∀ m ∈ writerRelay.due ms, m.wire.isSome = true := by
  intro m hm
  rw [wire_isSome, ← passes_eq_sendable]
  exact (List.mem_filter.mp hm).2

theorem isClose_of_mem_dropLast {failsAt : Option ℕ} {ms : List Message}
    {frame : TungsteniteMessage} (h : frame ∈ (offered failsAt (framesOf ms)).dropLast) :
    frame.isClose = false := by
  have hmem : frame ∈ (framesOf ms).dropLast := dropLast_offered_subset h
  unfold framesOf at hmem
  rw [dropLast_filterMap wire_isSome_of_due] at hmem
  obtain ⟨m, hm, hwire⟩ := List.mem_filterMap.mp hmem
  rw [isClose_of_wire hwire]
  exact Relay.noLast_dropLast_due ms m hm

end ArmatureWebsocket
