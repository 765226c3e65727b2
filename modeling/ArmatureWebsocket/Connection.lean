import ArmatureWebsocket.Auth
import ArmatureWebsocket.BoundedQueue
import ArmatureWebsocket.CallPool
import ArmatureWebsocket.Error
import ArmatureWebsocket.Message

/-! # Connections: the shared cell and the steps of the calls on it

All clones of a `Connection` share three things: the state, the sending half of the bounded
outbound queue, and the eviction signal.  `ConnectionCell` holds them.  The eviction signal is a
stored permit: `notify_one` sets it and the read loop takes it.

`send`, `close` and `set_state` are not atomic: the state is a lock taken once for each access,
and the queue is a channel of its own.  `ConnPc` is the point a call has reached and `connStep`
does its next access, so that any interleaving of calls is an interleaving of `connStep`s.
`ConnectionCell.send` is the same call as `send` run with nothing in between (`send_runsAlone`).

Every queued message carries who enqueued it and by which call (`Envelope`); the code does not
see this, the theorems about what was accepted and delivered do. -/

namespace ArmatureWebsocket

/-- Connection state. -/
inductive ConnectionState where
  | connecting
  | «open»
  | closing
  | closed
deriving DecidableEq, Repr

/-- The place of a state in the order in which a connection is meant to go through them. -/
def ConnectionState.rank : ConnectionState → ℕ
  | .connecting => 0
  | .«open» => 1
  | .closing => 2
  | .closed => 3

theorem ConnectionState.rank_le_closed (st : ConnectionState) :
    st.rank ≤ ConnectionState.closed.rank := by
  cases st <;> decide

/-- A handle on a connection; clones have the same `cell`. -/
structure Connection where
  id : ConnectionId
  principal : Principal
  cell : ℕ
deriving DecidableEq

/-- Who makes a call: the connection's own server task or a thread of the application. -/
inductive Caller where
  | task
  | app (thread : ℕ)
deriving DecidableEq, Repr

/-- The call that enqueued a message. -/
inductive Origin where
  | send
  | close
deriving DecidableEq, Repr

/-- A queued message with the caller and the call it came from. -/
structure Envelope where
  caller : Caller
  origin : Origin
  message : Message
deriving DecidableEq, Repr

/-- What all clones of a connection share. -/
structure ConnectionCell where
  state : ConnectionState
  tx : BoundedQueue Envelope
  evict : Bool

/-- The calls on a connection. -/
inductive ConnCall where
  | send (message : Message)
  | close
  | setState (state : ConnectionState)
deriving DecidableEq, Repr

/-- The points of the calls, each named after the access that comes next. -/
inductive ConnPc where
  | sendCheck (message : Message)
  | sendTry (message : Message)
  | evictState (message : Message)
  | evictNotify (message : Message)
  | closeState
  | closeTry
  | closeNotify
  | setState (state : ConnectionState)
deriving DecidableEq, Repr

/-- How a call ended.  `close` returns nothing; whether it queued its Close is recorded. -/
inductive ConnReply where
  | sent (message : Message) (result : WebSocketResult Unit)
  | closed (queued : Bool)
  | stateSet
deriving DecidableEq

/-- The first point of a call. -/
def ConnCall.pc : ConnCall → ConnPc
  | .send m => .sendCheck m
  | .close => .closeState
  | .setState st => .setState st

namespace ConnectionCell

/-- The cell of a new connection. -/
def new (capacity : ℕ) : ConnectionCell := ⟨.«open», .new capacity, false⟩

def isOpen (c : ConnectionCell) : Bool := c.state == .«open»

def setState (c : ConnectionCell) (state : ConnectionState) : ConnectionCell :=
  { c with state := state }

/-- Store the eviction permit; several notifications store one permit. -/
def notifyOne (c : ConnectionCell) : ConnectionCell := { c with evict := true }

/-- The read loop takes the stored permit. -/
def evicted (c : ConnectionCell) : ConnectionCell := { c with evict := false }

/-- Mark the connection closing and wake the read loop. -/
def evictNow (c : ConnectionCell) : ConnectionCell := (c.setState .closing).notifyOne

/-- `send`, run with nothing in between. -/
def send (who : Caller) (c : ConnectionCell) (m : Message) :
    ConnectionCell × WebSocketResult Unit :=
  if c.isOpen then
    match c.tx.trySend ⟨who, .send, m⟩ with
    | .ok tx => ({ c with tx := tx }, .ok ())
    | .error .full => (c.evictNow, .error .slowConsumer)
    | .error .closed => (c, .error .connectionClosed)
  else (c, .error .connectionClosed)

@[simp] theorem setState_state (c : ConnectionCell) (st : ConnectionState) :
    (c.setState st).state = st := rfl
@[simp] theorem setState_tx (c : ConnectionCell) (st : ConnectionState) :
    (c.setState st).tx = c.tx := rfl
@[simp] theorem setState_evict (c : ConnectionCell) (st : ConnectionState) :
    (c.setState st).evict = c.evict := rfl
@[simp] theorem notifyOne_state (c : ConnectionCell) : c.notifyOne.state = c.state := rfl
@[simp] theorem notifyOne_tx (c : ConnectionCell) : c.notifyOne.tx = c.tx := rfl
@[simp] theorem notifyOne_evict (c : ConnectionCell) : c.notifyOne.evict = true := rfl

theorem isOpen_iff {c : ConnectionCell} : c.isOpen = true ↔ c.state = .«open» := beq_iff_eq

end ConnectionCell

/-- The next access of a call: the cell afterwards, and the next point or the reply. -/
def connStep (who : Caller) (c : ConnectionCell) : ConnPc → ConnectionCell × (ConnPc ⊕ ConnReply)
  | .sendCheck m =>
      if c.isOpen then (c, .inl (.sendTry m)) else (c, .inr (.sent m (.error .connectionClosed)))
  | .sendTry m =>
      match c.tx.trySend ⟨who, .send, m⟩ with
      | .ok tx => ({ c with tx := tx }, .inr (.sent m (.ok ())))
      | .error .full => (c, .inl (.evictState m))
      | .error .closed => (c, .inr (.sent m (.error .connectionClosed)))
  | .evictState m => (c.setState .closing, .inl (.evictNotify m))
  | .evictNotify m => (c.notifyOne, .inr (.sent m (.error .slowConsumer)))
  | .closeState => (c.setState .closing, .inl .closeTry)
  | .closeTry =>
      match c.tx.trySend ⟨who, .close, .close⟩ with
      | .ok tx => ({ c with tx := tx }, .inr (.closed true))
      | .error _ => (c, .inl .closeNotify)
  | .closeNotify => (c.notifyOne, .inr (.closed false))
  | .setState st => (c.setState st, .inr .stateSet)

/-- The message of a send whose next access offers it to the queue. -/
def ConnPc.offers : ConnPc → Option Message
  | .sendTry m => some m
  | _ => none

/-- What the access at a point does to the cell. -/
def ConnPc.after (who : Caller) (c : ConnectionCell) : ConnPc → ConnectionCell
  | .sendCheck _ => c
  | .sendTry m => { c with tx := c.tx.offer ⟨who, .send, m⟩ }
  | .evictState _ => c.setState .closing
  | .evictNotify _ => c.notifyOne
  | .closeState => c.setState .closing
  | .closeTry => { c with tx := c.tx.offer ⟨who, .close, .close⟩ }
  | .closeNotify => c.notifyOne
  | .setState st => c.setState st

section access

variable {who : Caller} {c : ConnectionCell} {pc : ConnPc}

theorem connStep_fst : (connStep who c pc).1 = pc.after who c := by
  cases pc with
  | sendCheck m =>
      simp only [connStep]
      split_ifs <;> rfl
  | sendTry m =>
      simp only [connStep, ConnPc.after, BoundedQueue.offer]
      cases c.tx.trySend ⟨who, .send, m⟩ with
      | ok tx => rfl
      | error e => cases e <;> rfl
  | closeTry =>
      simp only [connStep, ConnPc.after, BoundedQueue.offer]
      cases c.tx.trySend ⟨who, .close, .close⟩ <;> rfl
  | _ => rfl

theorem after_state (who : Caller) (c : ConnectionCell) (pc : ConnPc) :
    (pc.after who c).state = c.state ∨
      (pc.after who c).state = .closing ∧ ((∃ m, pc = .evictState m) ∨ pc = .closeState) ∨
      ∃ st, pc = .setState st ∧ (pc.after who c).state = st := by
  cases pc with
  | evictState m => exact .inr (.inl ⟨rfl, .inl ⟨m, rfl⟩⟩)
  | closeState => exact .inr (.inl ⟨rfl, .inr rfl⟩)
  | setState st => exact .inr (.inr ⟨st, rfl, rfl⟩)
  | _ => exact .inl rfl

/-- The accesses that offer a message to the queue. -/
theorem after_tx (who : Caller) (c : ConnectionCell) (pc : ConnPc) :
    (pc.after who c).tx = c.tx ∨
      (∃ m, pc = .sendTry m ∧ (pc.after who c).tx = c.tx.offer ⟨who, .send, m⟩) ∨
      pc = .closeTry ∧ (pc.after who c).tx = c.tx.offer ⟨who, .close, .close⟩ := by
  cases pc with
  | sendTry m => exact .inr (.inl ⟨m, rfl, rfl⟩)
  | closeTry => exact .inr (.inr ⟨rfl, rfl⟩)
  | _ => exact .inl rfl

theorem after_received : (pc.after who c).tx.received = c.tx.received := by
  cases pc <;> simp [ConnPc.after]

theorem after_rxOpen : (pc.after who c).tx.rxOpen = c.tx.rxOpen := by
  cases pc <;> simp [ConnPc.after]

/-- A send is accepted by its second access, when the queue takes the message. -/
theorem connStep_accepted {m : Message} :
    (connStep who c pc).2 = .inr (.sent m (.ok ())) ↔ pc = .sendTry m ∧ c.tx.Accepts := by
  constructor
  · intro h
    cases pc with
    | sendCheck m' =>
        simp only [connStep] at h
        split_ifs at h
        simp at h
    | sendTry m' =>
        simp only [connStep] at h
        cases htry : c.tx.trySend ⟨who, .send, m'⟩ with
        | ok tx =>
            simp only [htry, Sum.inr.injEq, ConnReply.sent.injEq] at h
            exact ⟨by rw [h.1], (BoundedQueue.accepts_of_trySend htry).1⟩
        | error e => cases e <;> simp [htry] at h
    | closeTry =>
        simp only [connStep] at h
        cases htry : c.tx.trySend ⟨who, .close, .close⟩ <;> simp [htry] at h
    | _ => cases h
  · rintro ⟨rfl, h⟩
    simp only [connStep, BoundedQueue.trySend_of_accepts _ h]

/-- A send fails for one of three reasons: it finds the connection not open, it finds the receiver
gone, or it has evicted the connection. -/
theorem connStep_failed {m : Message} {e : WebSocketError}
    (h : (connStep who c pc).2 = .inr (.sent m (.error e))) :
    pc = .sendCheck m ∧ c.state ≠ .«open» ∨ pc = .sendTry m ∧ c.tx.rxOpen = false ∨
      pc = .evictNotify m := by
  cases pc with
  | sendCheck m' =>
      simp only [connStep] at h
      split_ifs at h with hopen
      · cases h
        exact .inl ⟨rfl, fun hst => hopen (ConnectionCell.isOpen_iff.mpr hst)⟩
  | sendTry m' =>
      simp only [connStep] at h
      cases htry : c.tx.trySend ⟨who, .send, m'⟩ with
      | ok tx => simp [htry] at h
      | error e' =>
          cases e' with
          | full => simp [htry] at h
          | closed =>
              simp only [htry, Sum.inr.injEq, ConnReply.sent.injEq] at h
              exact .inr (.inl ⟨by rw [h.1], BoundedQueue.trySend_closed_iff.mp htry⟩)
  | evictNotify m' =>
      cases h
      exact .inr (.inr rfl)
  | closeTry =>
      simp only [connStep] at h
      cases htry : c.tx.trySend ⟨who, .close, .close⟩ <;> simp [htry] at h
  | _ => cases h

/-- How a call goes on. -/
theorem connStep_next {pc' : ConnPc} (h : (connStep who c pc).2 = .inl pc') :
    (∃ m, pc = .sendCheck m ∧ pc' = .sendTry m ∧ c.state = .«open») ∨
      (∃ m, pc = .sendTry m ∧ pc' = .evictState m ∧ ¬ c.tx.Accepts) ∨
      (∃ m, pc = .evictState m ∧ pc' = .evictNotify m) ∨
      (pc = .closeState ∧ pc' = .closeTry) ∨
      pc = .closeTry ∧ pc' = .closeNotify ∧ ¬ c.tx.Accepts := by
  cases pc with
  | sendCheck m =>
      simp only [connStep] at h
      split_ifs at h with hopen
      · cases h
        exact .inl ⟨m, rfl, rfl, ConnectionCell.isOpen_iff.mp hopen⟩
  | sendTry m =>
      simp only [connStep] at h
      by_cases hacc : c.tx.Accepts
      · simp [BoundedQueue.trySend_of_accepts _ hacc] at h
      · cases htry : c.tx.trySend ⟨who, .send, m⟩ with
        | ok tx => exact absurd (BoundedQueue.accepts_of_trySend htry).1 hacc
        | error e =>
            cases e with
            | full =>
                simp only [htry, Sum.inl.injEq] at h
                exact .inr (.inl ⟨m, rfl, h.symm, hacc⟩)
            | closed => simp [htry] at h
  | evictState m =>
      cases h
      exact .inr (.inr (.inl ⟨m, rfl, rfl⟩))
  | closeState =>
      cases h
      exact .inr (.inr (.inr (.inl ⟨rfl, rfl⟩)))
  | closeTry =>
      simp only [connStep] at h
      by_cases hacc : c.tx.Accepts
      · simp [BoundedQueue.trySend_of_accepts _ hacc] at h
      · cases htry : c.tx.trySend ⟨who, .close, .close⟩ with
        | ok tx => exact absurd (BoundedQueue.accepts_of_trySend htry).1 hacc
        | error e =>
            simp only [htry, Sum.inl.injEq] at h
            exact .inr (.inr (.inr (.inr ⟨rfl, h.symm, hacc⟩)))
  | _ => cases h

theorem accepts_of_closeTry {reply : ConnReply}
    (h : (connStep who c .closeTry).2 = .inr reply) : c.tx.Accepts := by
  simp only [connStep] at h
  cases htry : c.tx.trySend ⟨who, .close, .close⟩ with
  | ok tx => exact (BoundedQueue.accepts_of_trySend htry).1
  | error e => simp [htry] at h

end access

/-- The call at point `pc` runs to its reply with no other access in between. -/
abbrev ConnPc.RunsAlone (who : Caller) :
    ConnectionCell → ConnPc → ConnectionCell → ConnReply → Prop :=
  CallPool.RunsAlone fun c pc => some (connStep who c pc)

theorem send_runsAlone (who : Caller) (c : ConnectionCell) (m : Message) :
    ConnPc.RunsAlone who c (ConnCall.send m).pc (c.send who m).1 (.sent m (c.send who m).2) := by
  unfold ConnectionCell.send
  by_cases hopen : c.isOpen = true
  · rw [if_pos hopen]
    refine .goto (by rw [ConnCall.pc, connStep, if_pos hopen]) ?_
    cases htry : c.tx.trySend ⟨who, .send, m⟩ with
    | ok tx => exact .reply (by rw [connStep, htry])
    | error e =>
        cases e with
        | full => exact .goto (by rw [connStep, htry]) (.goto rfl (.reply rfl))
        | closed => exact .reply (by rw [connStep, htry])
  · rw [if_neg hopen]
    exact .reply (by rw [ConnCall.pc, connStep, if_neg hopen])

end ArmatureWebsocket
