import ArmatureWebsocket.Config
import ArmatureWebsocket.Message

/-! # The read loop of a connection, one turn at a time

The loop waits on four branches: the heartbeat ticker, the eviction signal, the idle deadline and
the socket.  This module has what a turn does once its branch is chosen; who chooses, and when,
is the business of the systems built on top (`Session` without time, `Timed` with a clock).

* `LoopVars` are the loop's two variables; `onTick` and `readVars` update them.
* `afterRead` says what follows a read: a callback to await, or the end of the loop.
* `Callback.resume` says what follows the callback. -/

namespace ArmatureWebsocket

/-- The number of consecutive unanswered pings after which a connection is dead. -/
def MAX_MISSED_HEARTBEATS : ℕ := 3

/-- The variables of the loop: a `u32` counter and the instant of the last read. -/
structure LoopVars where
  missedHeartbeats : ℕ
  lastRead : ℕ
deriving DecidableEq, Repr

/-- How the loop ends. -/
inductive LoopExit where
  | missedHeartbeats
  | pingRefused
  | evicted
  | idleTimeout
  | closeFrame
  | readError
  | endOfStream
deriving DecidableEq, Repr

/-- What the socket yields: a message, an error, or the end of the stream. -/
inductive ReadResult where
  | message (msg : TungsteniteMessage)
  | error (reason : String)
  | endOfStream

/-- The handler callbacks that the loop awaits. -/
inductive Callback where
  | onMessage (message : Message)
  | onPing (payload : Bytes)
  | onPong (payload : Bytes)
  | onError (reason : String)
deriving DecidableEq, Repr

/-- What follows a read. -/
inductive AfterRead where
  | call (callback : Callback)
  | exit (why : LoopExit)
deriving DecidableEq, Repr

/-- What follows a callback: the next turn, a pong with the callback's result, or the end. -/
inductive Resume where
  | select
  | pong
  | exit (why : LoopExit)
deriving DecidableEq, Repr

def TungsteniteMessage.isClose : TungsteniteMessage → Bool
  | .close _ => true
  | _ => false

/-- The heartbeat branch up to its ping: the counter goes up, and past the limit the loop ends. -/
def onTick (vars : LoopVars) : LoopVars × Option LoopExit :=
  let missed := (vars.missedHeartbeats + 1) % 2 ^ 32
  ({ vars with missedHeartbeats := missed },
    if missed > MAX_MISSED_HEARTBEATS then some .missedHeartbeats else none)

/-- The read branch's effect on the variables: every read is dated, every message resets the
counter. -/
def readVars (vars : LoopVars) (now : ℕ) : ReadResult → LoopVars
  | .message _ => ⟨0, now⟩
  | .error _ => { vars with lastRead := now }
  | .endOfStream => { vars with lastRead := now }

/-- What the loop does with what it read. -/
def afterRead : ReadResult → AfterRead
  | .message msg =>
      if msg.isClose then .exit .closeFrame
      else
        let message := Message.ofTungstenite msg
        if message.isPing then .call (.onPing message.payload)
        else if message.isPong then .call (.onPong message.payload)
        else .call (.onMessage message)
  | .error reason => .call (.onError reason)
  | .endOfStream => .exit .endOfStream

/-- What the loop does when a callback returns. -/
def Callback.resume : Callback → Resume
  | .onMessage _ => .select
  | .onPing _ => .pong
  | .onPong _ => .select
  | .onError _ => .exit .readError

@[simp] theorem onTick_lastRead (vars : LoopVars) : (onTick vars).1.lastRead = vars.lastRead := rfl

/-- Below the limit a tick only counts. -/
theorem onTick_of_lt {vars : LoopVars} (h : vars.missedHeartbeats < MAX_MISSED_HEARTBEATS) :
    onTick vars = ({ vars with missedHeartbeats := vars.missedHeartbeats + 1 }, none) := by
  unfold MAX_MISSED_HEARTBEATS at h
  have hmod : (vars.missedHeartbeats + 1) % 2 ^ 32 = vars.missedHeartbeats + 1 :=
    Nat.mod_eq_of_lt (by omega)
  have hle : ¬ vars.missedHeartbeats + 1 > MAX_MISSED_HEARTBEATS := by
    unfold MAX_MISSED_HEARTBEATS
    omega
  unfold onTick
  simp only [hmod, if_neg hle]

@[simp] theorem readVars_lastRead (vars : LoopVars) (now : ℕ) (result : ReadResult) :
    (readVars vars now result).lastRead = now := by
  cases result <;> rfl

theorem afterRead_message_exit_iff (msg : TungsteniteMessage) :
    (∃ why, afterRead (.message msg) = .exit why) ↔ msg.isClose = true := by
  cases msg <;> simp [afterRead, TungsteniteMessage.isClose, Message.ofTungstenite, Message.isPing,
    Message.isPong, Message.text, Message.binary, Message.ping, Message.pong]

theorem afterRead_exit_ne {r : ReadResult} {why : LoopExit} (h : afterRead r = .exit why) :
    why = .closeFrame ∨ why = .endOfStream := by
  cases r with
  | message msg => cases msg <;> simp_all [afterRead, TungsteniteMessage.isClose,
      Message.ofTungstenite, Message.isPing, Message.isPong, Message.text, Message.binary,
      Message.ping, Message.pong]
  | error reason => cases h
  | endOfStream => cases h; exact .inr rfl

end ArmatureWebsocket
