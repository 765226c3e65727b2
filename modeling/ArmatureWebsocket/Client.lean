import ArmatureWebsocket.BoundedQueue
import ArmatureWebsocket.CallPool
import ArmatureWebsocket.Overtaking
import ArmatureWebsocket.ReadLoop
import ArmatureWebsocket.UnboundedQueue

/-! # The client

A client has a writer task and a reader task of its own and shares one flag, `closed`, with both:
`close` sets it with a compare-and-exchange and then enqueues a Close, each task sets it when it
ends, and `send` reads it before it enqueues.  The outgoing queue is unbounded.  The incoming one is
bounded, and the reader waits for room in it.

`ClientPc` is the point a call has reached and `clientStep` does its next access, so that any
interleaving of calls with the two tasks is an interleaving of steps.  Dropping the client is a
`close` made when no other call is in progress, after which both channels lose their ends here.

`ClientInbound` is the reader with the incoming queue; `frames` records what it read.  `handed`
records what the sink was given and took, and `answers` what `recv` and `try_recv` returned. -/

namespace ArmatureWebsocket

open Execution CallPool

/-- What the calls of a client share: the flag and the outgoing queue. -/
structure ClientCell where
  closed : Bool
  tx : UnboundedQueue Envelope

/-- The calls on a client. -/
inductive ClientCall where
  | send (message : Message)
  | close
deriving DecidableEq, Repr

/-- The points of the calls, each named after the access that comes next. -/
inductive ClientPc where
  | sendCheck (message : Message)
  | sendQueue (message : Message)
  | closeSwap
  | closeQueue
deriving DecidableEq, Repr

/-- How a call ended.  `close` returns nothing; whether it won the exchange is recorded. -/
inductive ClientReply where
  | sent (message : Message) (result : WebSocketResult Unit)
  | closed (won : Bool)
deriving DecidableEq

/-- The first point of a call. -/
def ClientCall.pc : ClientCall → ClientPc
  | .send m => .sendCheck m
  | .close => .closeSwap

/-- The error of a send that finds the writer gone. -/
def channelClosed : WebSocketError := .send "channel closed"

/-- The next access of a call: what is shared afterwards, and the next point or the reply. -/
def clientStep (thread : ℕ) (c : ClientCell) : ClientPc → ClientCell × (ClientPc ⊕ ClientReply)
  | .sendCheck m =>
      if c.closed then (c, .inr (.sent m (.error .connectionClosed))) else (c, .inl (.sendQueue m))
  | .sendQueue m =>
      match c.tx.send? ⟨.app thread, .send, m⟩ with
      | some tx => ({ c with tx := tx }, .inr (.sent m (.ok ())))
      | none => (c, .inr (.sent m (.error channelClosed)))
  | .closeSwap =>
      if c.closed then (c, .inr (.closed false)) else ({ c with closed := true }, .inl .closeQueue)
  | .closeQueue =>
      ({ c with tx := c.tx.offer ⟨.app thread, .close, .close⟩ }, .inr (.closed true))

/-- Where the writer task is: in its loop, closing the sink, setting the flag, or returning. -/
inductive ClientWriterPc where
  | waiting
  | sending (e : Envelope)
  | closing
  | marking
  | returning
  | stopped
deriving DecidableEq

/-- Where the reader task is; while it waits to enqueue a message, whether it is the last one. -/
inductive ClientReaderPc where
  | reading
  | sending (message : Message) (last : Bool)
  | marking
  | returning
  | stopped
deriving DecidableEq, Repr

/-- The client value: in use, in its `drop`, or gone. -/
inductive ClientHandle where
  | held
  | dropping
  | dropped
deriving DecidableEq, Repr

/-- The reader task with the incoming queue, and the frames it has read. -/
structure ClientInbound where
  reader : ClientReaderPc
  incoming : BoundedQueue Message
  frames : List TungsteniteMessage

/-- The steps of the reader task. -/
inductive ReaderAct where
  | read (result : ReadResult)
  | enqueue
  | mark
  | finish

/-- The steps of the writer task and of the sink. -/
inductive WriterAct where
  | recv
  | recvNone
  | accept
  | refuse
  | sinkClosed
  | mark
  | finish
deriving DecidableEq, Repr

abbrev ClientPool := CallPool ClientCell ℕ ClientPc ClientReply

/-- A client: its callers, its two tasks and their queues. -/
structure Client where
  pool : ClientPool
  writer : ClientWriterPc
  handed : List Envelope
  inbound : ClientInbound
  handle : ClientHandle
  answers : List (Option Message)

/-- A caller begins a call or does the next access of its call; the value is dropped; the
application receives; a task does a step. -/
inductive ClientAct where
  | start (thread : ℕ) (call : ClientCall)
  | step (thread : ℕ)
  | drop
  | dropped
  | recv
  | tryRecv
  | reader (act : ReaderAct)
  | writer (act : WriterAct)

namespace ClientInbound

def new (capacity : ℕ) : ClientInbound := ⟨.reading, .new capacity, []⟩

/-- The reader after a read: a message to enqueue, the last one after a Close, or the end. -/
def afterRead (s : ClientInbound) : ReadResult → ClientInbound
  | .message msg =>
      { s with
        frames := s.frames ++ [msg]
        reader :=
          if msg.isClose then .sending .close true else .sending (.ofTungstenite msg) false }
  | .error _ => { s with reader := .marking }
  | .endOfStream => { s with reader := .marking }

/-- The steps of the reader task; it waits while the incoming queue is full. -/
def step (s : ClientInbound) : ReaderAct → Option ClientInbound
  | .read result =>
      match s.reader with
      | .reading => some (s.afterRead result)
      | _ => none
  | .enqueue =>
      match s.reader with
      | .sending m last =>
          match s.incoming.trySend m with
          | .ok incoming =>
              some { s with
                incoming := incoming
                reader := if last then .marking else .reading }
          | .error .full => none
          | .error .closed => some { s with reader := .marking }
      | _ => none
  | .mark =>
      match s.reader with
      | .marking => some { s with reader := .returning }
      | _ => none
  | .finish =>
      match s.reader with
      | .returning => some { s with reader := .stopped }
      | _ => none

/-- Receive: the oldest message, nothing once the reader is gone and everything has been returned,
and otherwise wait. -/
def recv (s : ClientInbound) : Option (Option Message × ClientInbound) :=
  match s.incoming.recv? with
  | some (m, incoming) => some (some m, { s with incoming := incoming })
  | none =>
      match s.reader with
      | .stopped => some (none, s)
      | _ => none

/-- Receive without waiting. -/
def tryRecv (s : ClientInbound) : Option Message × ClientInbound :=
  match s.incoming.recv? with
  | some (m, incoming) => (some m, { s with incoming := incoming })
  | none => (none, s)

end ClientInbound

namespace Client

/-- A client whose connection has just been made. -/
def new (capacity : ℕ) : Client :=
  ⟨.quiet ⟨false, .new⟩, .waiting, [], .new capacity, .held, []⟩

/-- Connect; `upgrade` is how parsing the URL and the handshake end. -/
def connectWithConfig (inboundQueueCapacity : ℕ) (upgrade : WebSocketResult Unit) :
    WebSocketResult Client :=
  if inboundQueueCapacity = 0 then
    .error (.connection "inbound_queue_capacity must be non-zero")
  else upgrade.map fun _ => new inboundQueueCapacity

/-- The flag. -/
def isClosed (c : Client) : Bool := c.pool.shared.closed

/-- The outgoing queue. -/
abbrev tx (c : Client) : UnboundedQueue Envelope := c.pool.shared.tx

/-- The client with another shared state. -/
def withCell (c : Client) (cell : ClientCell) : Client :=
  { c with pool := { c.pool with shared := cell } }

/-- The client after `recv` or `try_recv`. -/
def answered (c : Client) (result : Option Message × ClientInbound) : Client :=
  { c with inbound := result.2, answers := c.answers ++ [result.1] }

/-- The messages that the application has been given, in order. -/
def returned (c : Client) : List Message := c.answers.filterMap id

/-- Set the flag. -/
def mark (c : Client) : Client := c.withCell { c.pool.shared with closed := true }

/-- The writer task with its receiver. -/
def writerStep (c : Client) : WriterAct → Option Client
  | .recv =>
      match c.writer, c.tx.recv? with
      | .waiting, some (e, tx) =>
          some { c.withCell { c.pool.shared with tx := tx } with
            writer := if e.message.sendable then .sending e else .waiting }
      | _, _ => none
  | .recvNone =>
      match c.writer with
      | .waiting =>
          if c.handle = .dropped ∧ c.tx.queue = [] then some { c with writer := .closing } else none
      | _ => none
  | .accept =>
      match c.writer with
      | .sending e =>
          some { c with
            handed := c.handed ++ [e]
            writer := if e.message.isClose then .closing else .waiting }
      | _ => none
  | .refuse =>
      match c.writer with
      | .sending _ => some { c with writer := .closing }
      | _ => none
  | .sinkClosed =>
      match c.writer with
      | .closing => some { c with writer := .marking }
      | _ => none
  | .mark =>
      match c.writer with
      | .marking => some { c.mark with writer := .returning }
      | _ => none
  | .finish =>
      match c.writer with
      | .returning =>
          some { c.withCell { c.pool.shared with tx := c.tx.closeRx } with writer := .stopped }
      | _ => none

/-- The reader task sets the flag when it has left its loop. -/
def readerStep (c : Client) (act : ReaderAct) : Option Client :=
  (c.inbound.step act).map fun inbound =>
    let c := { c with inbound := inbound }
    match act with
    | .mark => c.mark
    | _ => c

/-- The steps of a client. -/
def step (c : Client) : ClientAct → Option Client
  | .start thread call =>
      match c.handle with
      | .held => (c.pool.start thread call.pc).map fun pool => { c with pool := pool }
      | _ => none
  | .step thread =>
      (c.pool.advance (fun cell pc => some (clientStep thread cell pc)) thread).map fun pool =>
        { c with pool := pool }
  | .drop =>
      match c.handle with
      | .held =>
          if c.pool.Quiet then
            some { c with pool := c.pool.begun 0 ClientCall.close.pc, handle := .dropping }
          else none
      | _ => none
  | .dropped =>
      match c.handle with
      | .dropping =>
          if c.pool.Quiet then
            some { c with
              inbound := { c.inbound with incoming := c.inbound.incoming.closeRx }
              handle := .dropped }
          else none
      | _ => none
  | .recv =>
      match c.handle with
      | .held => c.inbound.recv.map c.answered
      | _ => none
  | .tryRecv =>
      match c.handle with
      | .held => some (c.answered c.inbound.tryRecv)
      | _ => none
  | .reader act => c.readerStep act
  | .writer act => c.writerStep act

end Client

/-! ### The accesses of a call -/

/-- What the access at a point does to what is shared. -/
def ClientPc.after (thread : ℕ) (c : ClientCell) : ClientPc → ClientCell
  | .sendCheck _ => c
  | .sendQueue m => { c with tx := c.tx.offer ⟨.app thread, .send, m⟩ }
  | .closeSwap => { c with closed := true }
  | .closeQueue => { c with tx := c.tx.offer ⟨.app thread, .close, .close⟩ }

section access

variable {thread : ℕ} {c : ClientCell} {pc : ClientPc}

theorem clientStep_fst : (clientStep thread c pc).1 = pc.after thread c := by
  cases pc with
  | sendCheck m =>
      simp only [clientStep]
      split_ifs <;> rfl
  | sendQueue m =>
      simp only [clientStep, ClientPc.after, UnboundedQueue.offer]
      cases c.tx.send? ⟨.app thread, .send, m⟩ <;> rfl
  | closeSwap =>
      simp only [clientStep, ClientPc.after]
      split_ifs with h
      · rw [← h]
      · rfl
  | closeQueue => rfl

theorem clientStep_next {pc' : ClientPc} (h : (clientStep thread c pc).2 = .inl pc') :
    c.closed = false ∧ ((∃ m, pc = .sendCheck m ∧ pc' = .sendQueue m) ∨
      pc = .closeSwap ∧ pc' = .closeQueue) := by
  cases pc with
  | sendCheck m =>
      simp only [clientStep] at h
      split_ifs at h with hclosed
      cases h
      exact ⟨by simpa using hclosed, .inl ⟨m, rfl, rfl⟩⟩
  | sendQueue m =>
      simp only [clientStep] at h
      cases hsend : c.tx.send? ⟨.app thread, .send, m⟩ <;> simp [hsend] at h
  | closeSwap =>
      simp only [clientStep] at h
      split_ifs at h with hclosed
      cases h
      exact ⟨by simpa using hclosed, .inr ⟨rfl, rfl⟩⟩
  | closeQueue => cases h

theorem clientStep_closed {won : Bool} (h : (clientStep thread c pc).2 = .inr (.closed won)) :
    won = false ∧ pc = .closeSwap ∧ c.closed = true ∨ won = true ∧ pc = .closeQueue := by
  cases pc with
  | sendCheck m =>
      simp only [clientStep] at h
      split_ifs at h
      cases h
  | sendQueue m =>
      simp only [clientStep] at h
      cases hsend : c.tx.send? ⟨.app thread, .send, m⟩ <;> simp [hsend] at h
  | closeSwap =>
      simp only [clientStep] at h
      split_ifs at h with hclosed
      cases h
      exact .inl ⟨rfl, rfl, hclosed⟩
  | closeQueue =>
      cases h
      exact .inr ⟨rfl, rfl⟩

end access

namespace Client

variable {c c' : Client}

/-! ### What each label does -/

theorem start_some {thread : ℕ} {call : ClientCall} (h : c.step (.start thread call) = some c') :
    c.handle = .held ∧ c.pool.threads.lookup thread = none ∧
      c' = { c with pool := c.pool.begun thread call.pc } := by
  simp only [step] at h
  split at h
  · obtain ⟨pool, hpool, rfl⟩ := Option.map_eq_some_iff.mp h
    obtain ⟨hthread, rfl⟩ := start_eq_some_iff.mp hpool
    exact ⟨‹_›, hthread, rfl⟩
  · cases h

theorem step_some {thread : ℕ} (h : c.step (.step thread) = some c') :
    ∃ pc, c.pool.threads.lookup thread = some pc ∧
      c' = { c with
        pool := c.pool.moved thread pc (pc.after thread c.pool.shared)
          (clientStep thread c.pool.shared pc).2 } := by
  obtain ⟨pool, hpool, rfl⟩ := Option.map_eq_some_iff.mp h
  obtain ⟨pc, cell, next, hpc, hrun, rfl⟩ := advance_eq_some_iff.mp hpool
  simp only [Option.some.injEq] at hrun
  refine ⟨pc, hpc, ?_⟩
  rw [← clientStep_fst, hrun]

theorem drop_some (h : c.step .drop = some c') :
    c.handle = .held ∧ c.pool.Quiet ∧
      c' = { c with pool := c.pool.begun 0 ClientCall.close.pc, handle := .dropping } := by
  simp only [step] at h
  split at h
  · split_ifs at h with hquiet
    cases h
    exact ⟨‹_›, hquiet, rfl⟩
  · cases h

theorem dropped_some (h : c.step .dropped = some c') :
    c.handle = .dropping ∧ c.pool.Quiet ∧
      c' = { c with
        inbound := { c.inbound with incoming := c.inbound.incoming.closeRx }
        handle := .dropped } := by
  simp only [step] at h
  split at h
  · split_ifs at h with hquiet
    cases h
    exact ⟨‹_›, hquiet, rfl⟩
  · cases h

theorem recv_some (h : c.step .recv = some c') :
    c.handle = .held ∧ ∃ result, c.inbound.recv = some result ∧ c' = c.answered result := by
  simp only [step] at h
  split at h
  · obtain ⟨result, hresult, rfl⟩ := Option.map_eq_some_iff.mp h
    exact ⟨‹_›, result, hresult, rfl⟩
  · cases h

theorem tryRecv_some (h : c.step .tryRecv = some c') :
    c.handle = .held ∧ c' = c.answered c.inbound.tryRecv := by
  simp only [step] at h
  split at h
  · cases h
    exact ⟨‹_›, rfl⟩
  · cases h

/-- A step of the reader; one of them sets the flag. -/
theorem reader_some {act : ReaderAct} (h : c.step (.reader act) = some c') :
    ∃ inbound, c.inbound.step act = some inbound ∧
      (act ≠ .mark ∧ c' = { c with inbound := inbound } ∨
        act = .mark ∧ c' = { c with inbound := inbound }.mark) := by
  obtain ⟨inbound, hinbound, rfl⟩ := Option.map_eq_some_iff.mp h
  refine ⟨inbound, hinbound, ?_⟩
  cases act with
  | mark => exact .inr ⟨rfl, rfl⟩
  | _ => exact .inl ⟨by simp, rfl⟩

/-- What a step of the writer is. -/
theorem writer_cases {act : WriterAct} (h : c.step (.writer act) = some c') :
    (∃ e tx, act = .recv ∧ c.writer = .waiting ∧ c.tx.recv? = some (e, tx) ∧
      c' = { c.withCell { c.pool.shared with tx := tx } with
        writer := if e.message.sendable then .sending e else .waiting }) ∨
    (act = .recvNone ∧ c.writer = .waiting ∧ c.handle = .dropped ∧ c.tx.queue = [] ∧
      c' = { c with writer := .closing }) ∨
    (∃ e, act = .accept ∧ c.writer = .sending e ∧
      c' = { c with
        handed := c.handed ++ [e]
        writer := if e.message.isClose then .closing else .waiting }) ∨
    (∃ e, act = .refuse ∧ c.writer = .sending e ∧ c' = { c with writer := .closing }) ∨
    (act = .sinkClosed ∧ c.writer = .closing ∧ c' = { c with writer := .marking }) ∨
    (act = .mark ∧ c.writer = .marking ∧ c' = { c.mark with writer := .returning }) ∨
    (act = .finish ∧ c.writer = .returning ∧
      c' = { c.withCell { c.pool.shared with tx := c.tx.closeRx } with writer := .stopped }) := by
  have hstep : c.writerStep act = some c' := h
  cases act with
  | recv =>
      simp only [writerStep] at hstep
      split at hstep <;> cases hstep
      rename_i e tx hw hr
      exact .inl ⟨e, tx, rfl, hw, hr, rfl⟩
  | recvNone =>
      simp only [writerStep] at hstep
      split at hstep
      · split_ifs at hstep with hq
        cases hstep
        exact .inr (.inl ⟨rfl, ‹_›, hq.1, hq.2, rfl⟩)
      · cases hstep
  | accept =>
      simp only [writerStep] at hstep
      split at hstep <;> cases hstep
      exact .inr (.inr (.inl ⟨_, rfl, ‹_›, rfl⟩))
  | refuse =>
      simp only [writerStep] at hstep
      split at hstep <;> cases hstep
      exact .inr (.inr (.inr (.inl ⟨_, rfl, ‹_›, rfl⟩)))
  | sinkClosed =>
      simp only [writerStep] at hstep
      split at hstep <;> cases hstep
      exact .inr (.inr (.inr (.inr (.inl ⟨rfl, ‹_›, rfl⟩))))
  | mark =>
      simp only [writerStep] at hstep
      split at hstep <;> cases hstep
      exact .inr (.inr (.inr (.inr (.inr (.inl ⟨rfl, ‹_›, rfl⟩)))))
  | finish =>
      simp only [writerStep] at hstep
      split at hstep <;> cases hstep
      exact .inr (.inr (.inr (.inr (.inr (.inr ⟨rfl, ‹_›, rfl⟩)))))

/-- A flag that is set stays set. -/
theorem closed_after {thread : ℕ} {cell : ClientCell} {pc : ClientPc} (h : cell.closed = true) :
    (pc.after thread cell).closed = true := by
  cases pc with
  | closeSwap => rfl
  | _ => exact h

theorem isClosed_of_step {act : ClientAct} (h : c.isClosed = true)
    (hstep : c.step act = some c') : c'.isClosed = true := by
  cases act with
  | start thread call =>
      obtain ⟨-, -, rfl⟩ := start_some hstep
      exact h
  | step thread =>
      obtain ⟨pc, -, rfl⟩ := step_some hstep
      unfold isClosed
      rw [moved_shared]
      exact closed_after h
  | drop =>
      obtain ⟨-, -, rfl⟩ := drop_some hstep
      exact h
  | dropped =>
      obtain ⟨-, -, rfl⟩ := dropped_some hstep
      exact h
  | recv =>
      obtain ⟨-, result, -, rfl⟩ := recv_some hstep
      exact h
  | tryRecv =>
      obtain ⟨-, rfl⟩ := tryRecv_some hstep
      exact h
  | reader act =>
      obtain ⟨inbound, -, ⟨-, rfl⟩ | ⟨-, rfl⟩⟩ := reader_some hstep
      · exact h
      · rfl
  | writer act =>
      obtain ⟨e, tx, -, -, -, rfl⟩ | ⟨-, -, -, -, rfl⟩ | ⟨e, -, -, rfl⟩ | ⟨e, -, -, rfl⟩ |
        ⟨-, -, rfl⟩ | ⟨-, -, rfl⟩ | ⟨-, -, rfl⟩ := writer_cases hstep
      · exact h
      · exact h
      · exact h
      · exact h
      · exact h
      · rfl
      · exact h

end Client
end ArmatureWebsocket
