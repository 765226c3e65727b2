import Mathlib.Data.Finmap

/-! # Errors

The error type of every operation that can fail.  Errors that wrap another library's error
carry its text. -/

namespace ArmatureWebsocket

/-- Unique identifier for a connection. -/
abbrev ConnectionId := String

/-- Unique identifier for a room. -/
abbrev RoomId := String

/-- The ways a WebSocket operation fails. -/
inductive WebSocketError where
  | connection (reason : String)
  | protocol (reason : String)
  | io (reason : String)
  | serialization (reason : String)
  | connectionNotFound (id : ConnectionId)
  | roomNotFound (id : RoomId)
  | connectionClosed
  | send (reason : String)
  | slowConsumer
  | timeout
  | tls (reason : String)
  | invalidUrl (reason : String)
  | server (reason : String)
deriving DecidableEq, Repr

/-- Results of fallible operations. -/
abbrev WebSocketResult (α : Type) := Except WebSocketError α

/-- The result is an acceptance. -/
def WebSocketResult.isOk {α : Type} : WebSocketResult α → Bool
  | .ok _ => true
  | .error _ => false

example : DecidableEq (WebSocketResult Unit) := inferInstance

end ArmatureWebsocket
