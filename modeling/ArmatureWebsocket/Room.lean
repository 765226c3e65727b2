import ArmatureWebsocket.Connection

/-! # Rooms and the room manager, one call at a time

The room manager keeps three maps: the rooms with their members, the rooms of every connection
(the index), and the connections.  This module has its calls as they behave when nothing else
runs; `RoomSteps` has the same calls cut into the map operations they are made of.

Hash sets and hash maps hand out their elements in an unspecified order.  The calls that iterate
take that order as an argument, and `RoomCall.Ready` requires of it that it lists exactly the
elements iterated over; a statement about every call is a statement about every order.

Below the definitions stand the effects of every operation on the four things that can be read
off a manager: the members of a room (`membersOf`), the rooms of a connection (`roomsOf`), and
the keys of the two connection maps. -/

namespace ArmatureWebsocket

/-- A room for grouping connections. -/
structure Room where
  id : RoomId
  members : Finset ConnectionId
deriving DecidableEq

namespace Room

/-- A new room. -/
def new (id : RoomId) : Room := ⟨id, ∅⟩

/-- Add a connection to the room. -/
def join (room : Room) (c : ConnectionId) : Room := { room with members := insert c room.members }

/-- Remove a connection from the room; whether it was in it. -/
def leave (room : Room) (c : ConnectionId) : Room × Bool :=
  ({ room with members := room.members.erase c }, decide (c ∈ room.members))

def contains (room : Room) (c : ConnectionId) : Bool := decide (c ∈ room.members)
def len (room : Room) : ℕ := room.members.card
def isEmpty (room : Room) : Bool := decide (room.members = ∅)

end Room

/-- The room manager. -/
structure RoomManager where
  rooms : KeyMap RoomId Room
  connectionRooms : KeyMap ConnectionId (Finset RoomId)
  connections : KeyMap ConnectionId Connection

namespace RoomManager

/-- A new room manager. -/
def new : RoomManager := ⟨∅, ∅, ∅⟩

/-- Register a connection. -/
def registerConnection (m : RoomManager) (connection : Connection) : RoomManager :=
  { m with
    connections := m.connections.insert connection.id connection
    connectionRooms := m.connectionRooms.insert connection.id ∅ }

/-- `c` leaves the room stored under `r`, when there is one. -/
def leaveIfPresent (m : RoomManager) (r : RoomId) (c : ConnectionId) : RoomManager :=
  { m with rooms := m.rooms.modify r fun room => (room.leave c).1 }

/-- Remove the room stored under `r` if it is empty. -/
def removeIfEmpty (m : RoomManager) (r : RoomId) : RoomManager :=
  { m with rooms := m.rooms.removeIf r Room.isEmpty }

/-- The loop of `unregister_connection` over the rooms of the connection. -/
def leaveRooms (m : RoomManager) (c : ConnectionId) : List RoomId → RoomManager
  | [] => m
  | r :: rs => leaveRooms ((m.leaveIfPresent r c).removeIfEmpty r) c rs

/-- Unregister a connection and remove it from all rooms, visited in the given order. -/
def unregisterConnection (m : RoomManager) (c : ConnectionId) (order : List RoomId) :
    RoomManager :=
  let m := match m.connectionRooms.lookup c with
    | some _ => leaveRooms { m with connectionRooms := m.connectionRooms.erase c } c order
    | none => m
  { m with connections := m.connections.erase c }

/-- Get a connection by id. -/
def getConnection (m : RoomManager) (c : ConnectionId) : Option Connection :=
  m.connections.lookup c

/-- Create a room if it does not exist. -/
def createRoom (m : RoomManager) (r : RoomId) : RoomManager × Room :=
  ({ m with rooms := m.rooms.getOrInsert r (Room.new r) },
    (m.rooms.lookup r).getD (Room.new r))

/-- Get a room by id. -/
def getRoom (m : RoomManager) (r : RoomId) : Option Room := m.rooms.lookup r

/-- The loop of `delete_room` over the members of the removed room. -/
def unindexMembers (m : RoomManager) (r : RoomId) : List ConnectionId → RoomManager
  | [] => m
  | c :: cs =>
      unindexMembers { m with connectionRooms := m.connectionRooms.modify c (·.erase r) } r cs

/-- Delete a room, taking it out of its members' index in the given order. -/
def deleteRoom (m : RoomManager) (r : RoomId) (order : List ConnectionId) : RoomManager × Bool :=
  match m.rooms.lookup r with
  | some _ => (unindexMembers { m with rooms := m.rooms.erase r } r order, true)
  | none => (m, false)

/-- Join a connection to a room. -/
def joinRoom (m : RoomManager) (c : ConnectionId) (r : RoomId) :
    RoomManager × WebSocketResult Unit :=
  if c ∉ m.connections then (m, .error (.connectionNotFound c))
  else
    let m := (m.createRoom r).1
    ({ m with
        rooms := m.rooms.modify r (·.join c)
        connectionRooms := m.connectionRooms.modify c (insert r) }, .ok ())

/-- Remove a connection from a room. -/
def leaveRoom (m : RoomManager) (c : ConnectionId) (r : RoomId) :
    RoomManager × WebSocketResult Unit :=
  let m := m.leaveIfPresent r c
  let m := { m with connectionRooms := m.connectionRooms.modify c (·.erase r) }
  (m.removeIfEmpty r, .ok ())

/-- The members of the room stored under `r`; none when there is no such room. -/
def membersOf (m : RoomManager) (r : RoomId) : Finset ConnectionId :=
  ((m.rooms.lookup r).map Room.members).getD ∅

/-- The rooms the index lists for `c`; none when `c` has no entry. -/
def roomsOf (m : RoomManager) (c : ConnectionId) : Finset RoomId :=
  (m.connectionRooms.lookup c).getD ∅

end RoomManager

/-- The calls of the room manager that change it. -/
inductive RoomCall where
  | registerConnection (connection : Connection)
  | unregisterConnection (c : ConnectionId) (order : List RoomId)
  | createRoom (r : RoomId)
  | deleteRoom (r : RoomId) (order : List ConnectionId)
  | joinRoom (c : ConnectionId) (r : RoomId)
  | leaveRoom (c : ConnectionId) (r : RoomId)

/-- What the calls return. -/
inductive RoomReply where
  | done
  | room (room : Room)
  | existed (existed : Bool)
  | result (result : WebSocketResult Unit)
deriving DecidableEq

/-- The orders that the call iterates in are orders of what it iterates over. -/
def RoomCall.Ready (m : RoomManager) : RoomCall → Prop
  | .unregisterConnection c order => KeyMap.Enumerates order (m.roomsOf c)
  | .deleteRoom r order => KeyMap.Enumerates order (m.membersOf r)
  | _ => True

instance (m : RoomManager) (call : RoomCall) : Decidable (call.Ready m) :=
  match call with
  | .unregisterConnection c order => inferInstanceAs (Decidable (order.Nodup ∧ _ = m.roomsOf c))
  | .deleteRoom r order => inferInstanceAs (Decidable (order.Nodup ∧ _ = m.membersOf r))
  | .registerConnection _ | .createRoom _ | .joinRoom _ _ | .leaveRoom _ _ => .isTrue trivial

namespace RoomManager

/-- The effect and the reply of a call. -/
def run (m : RoomManager) : RoomCall → RoomManager × RoomReply
  | .registerConnection connection => (m.registerConnection connection, .done)
  | .unregisterConnection c order => (m.unregisterConnection c order, .done)
  | .createRoom r => ((m.createRoom r).1, .room (m.createRoom r).2)
  | .deleteRoom r order => ((m.deleteRoom r order).1, .existed (m.deleteRoom r order).2)
  | .joinRoom c r => ((m.joinRoom c r).1, .result (m.joinRoom c r).2)
  | .leaveRoom c r => ((m.leaveRoom c r).1, .result (m.leaveRoom c r).2)

/-- One call, as a labelled step. -/
def step (m : RoomManager) (call : RoomCall) : Option RoomManager :=
  if call.Ready m then some (m.run call).1 else none

theorem step_eq_some_iff {m m' : RoomManager} {call : RoomCall} :
    m.step call = some m' ↔ call.Ready m ∧ (m.run call).1 = m' := by
  unfold step
  split_ifs with h <;> simp [h]

theorem mem_membersOf_iff {m : RoomManager} {c : ConnectionId} {r : RoomId} :
    c ∈ m.membersOf r ↔ ∃ room, m.rooms.lookup r = some room ∧ c ∈ room.members := by
  unfold membersOf
  cases m.rooms.lookup r <;> simp

theorem mem_roomsOf_iff {m : RoomManager} {c : ConnectionId} {r : RoomId} :
    r ∈ m.roomsOf c ↔ ∃ rooms, m.connectionRooms.lookup c = some rooms ∧ r ∈ rooms := by
  unfold roomsOf
  cases m.connectionRooms.lookup c <;> simp

/-! ### The parts of the calls -/

section parts

variable (m : RoomManager) (c c' : ConnectionId) (r r' : RoomId)

theorem membersOf_leaveIfPresent :
    (m.leaveIfPresent r c).membersOf r' =
      if r' = r then (m.membersOf r').erase c else m.membersOf r' := by
  unfold membersOf leaveIfPresent
  rw [KeyMap.lookup_modify]
  split_ifs with h
  · subst h
    cases m.rooms.lookup r' <;> simp [Room.leave]
  · rfl

/-- Pruning an empty room does not change who is in which room. -/
theorem membersOf_removeIfEmpty : (m.removeIfEmpty r).membersOf r' = m.membersOf r' := by
  unfold membersOf removeIfEmpty
  rw [KeyMap.lookup_removeIf]
  split_ifs with h
  · subst h
    cases m.rooms.lookup r' with
    | none => rfl
    | some room => by_cases he : room.members = ∅ <;> simp [Room.isEmpty, Option.filter, he]
  · rfl

theorem membersOf_createRoom : (m.createRoom r).1.membersOf r' = m.membersOf r' := by
  unfold membersOf createRoom
  rw [KeyMap.lookup_getOrInsert]
  split_ifs with h
  · subst h
    cases m.rooms.lookup r' <;> simp [Room.new]
  · rfl

theorem lookup_createRoom_self :
    (m.createRoom r).1.rooms.lookup r = some ((m.rooms.lookup r).getD (Room.new r)) := by
  simp [createRoom]

theorem membersOf_leaveRooms (order : List RoomId) :
    (m.leaveRooms c order).membersOf r' =
      if r' ∈ order then (m.membersOf r').erase c else m.membersOf r' := by
  induction order generalizing m with
  | nil => simp [leaveRooms]
  | cons r rs ih =>
      rw [leaveRooms, ih, membersOf_removeIfEmpty, membersOf_leaveIfPresent]
      by_cases h : r' = r
      · subst h
        simp
      · simp [h]

@[simp] theorem leaveRooms_connections (order : List RoomId) :
    (m.leaveRooms c order).connections = m.connections := by
  induction order generalizing m with
  | nil => rfl
  | cons r rs ih => exact ih _

@[simp] theorem leaveRooms_connectionRooms (order : List RoomId) :
    (m.leaveRooms c order).connectionRooms = m.connectionRooms := by
  induction order generalizing m with
  | nil => rfl
  | cons r rs ih => exact ih _

@[simp] theorem unindexMembers_rooms (order : List ConnectionId) :
    (m.unindexMembers r order).rooms = m.rooms := by
  induction order generalizing m with
  | nil => rfl
  | cons c cs ih => exact ih _

@[simp] theorem unindexMembers_connections (order : List ConnectionId) :
    (m.unindexMembers r order).connections = m.connections := by
  induction order generalizing m with
  | nil => rfl
  | cons c cs ih => exact ih _

theorem mem_unindexMembers_connectionRooms (order : List ConnectionId) :
    c' ∈ (m.unindexMembers r order).connectionRooms ↔ c' ∈ m.connectionRooms := by
  induction order generalizing m with
  | nil => rfl
  | cons c cs ih =>
      rw [unindexMembers, ih]
      exact KeyMap.mem_modify

theorem roomsOf_unindexMembers (order : List ConnectionId) :
    (m.unindexMembers r order).roomsOf c' =
      if c' ∈ order then (m.roomsOf c').erase r else m.roomsOf c' := by
  induction order generalizing m with
  | nil => simp [unindexMembers]
  | cons c cs ih =>
      rw [unindexMembers, ih]
      unfold roomsOf
      rw [KeyMap.lookup_modify]
      by_cases h : c' = c
      · subst h
        cases m.connectionRooms.lookup c' <;> simp
      · simp [h]

end parts

/-! ### The effects of the calls -/

section effects

variable (m : RoomManager) (c c' : ConnectionId) (r r' : RoomId)

theorem membersOf_registerConnection (connection : Connection) :
    (m.registerConnection connection).membersOf r' = m.membersOf r' := rfl

theorem roomsOf_registerConnection (connection : Connection) :
    (m.registerConnection connection).roomsOf c' =
      if c' = connection.id then ∅ else m.roomsOf c' := by
  unfold roomsOf registerConnection
  rw [KeyMap.lookup_insert_ite]
  split_ifs <;> rfl

theorem membersOf_unregisterConnection {order : List RoomId}
    (h : KeyMap.Enumerates order (m.roomsOf c)) :
    (m.unregisterConnection c order).membersOf r' =
      if r' ∈ m.roomsOf c then (m.membersOf r').erase c else m.membersOf r' := by
  simp only [← h.mem_iff]
  unfold unregisterConnection
  cases hc : m.connectionRooms.lookup c with
  | none =>
      have hnil : ¬ r' ∈ order := by
        rw [h.mem_iff, mem_roomsOf_iff, hc]
        rintro ⟨rooms, hrooms, -⟩
        cases hrooms
      rw [if_neg hnil]
      rfl
  | some rooms => exact membersOf_leaveRooms { m with connectionRooms := _ } c r' order

theorem roomsOf_unregisterConnection (order : List RoomId) :
    (m.unregisterConnection c order).roomsOf c' = if c' = c then ∅ else m.roomsOf c' := by
  unfold unregisterConnection roomsOf
  cases hc : m.connectionRooms.lookup c with
  | none =>
      split_ifs with h
      · subst h
        simp [hc]
      · rfl
  | some rooms =>
      simp only [leaveRooms_connectionRooms, KeyMap.lookup_erase_ite]
      split_ifs <;> rfl

theorem mem_connections_unregisterConnection (order : List RoomId) :
    c' ∈ (m.unregisterConnection c order).connections ↔ c' ≠ c ∧ c' ∈ m.connections := by
  unfold unregisterConnection
  cases hc : m.connectionRooms.lookup c <;> simp [Finmap.mem_erase]

theorem mem_connectionRooms_unregisterConnection (order : List RoomId) :
    c' ∈ (m.unregisterConnection c order).connectionRooms ↔ c' ≠ c ∧ c' ∈ m.connectionRooms := by
  unfold unregisterConnection
  cases hc : m.connectionRooms.lookup c with
  | none =>
      refine ⟨fun h => ⟨?_, h⟩, fun h => h.2⟩
      rintro rfl
      exact Finmap.lookup_eq_none.mp hc h
  | some rooms => simp [Finmap.mem_erase]

theorem membersOf_deleteRoom (order : List ConnectionId) :
    (m.deleteRoom r order).1.membersOf r' = if r' = r then ∅ else m.membersOf r' := by
  unfold deleteRoom membersOf
  cases hr : m.rooms.lookup r with
  | none =>
      split_ifs with h
      · subst h
        simp [hr]
      · rfl
  | some room =>
      simp only [unindexMembers_rooms, KeyMap.lookup_erase_ite]
      split_ifs <;> rfl

theorem roomsOf_deleteRoom {order : List ConnectionId}
    (h : KeyMap.Enumerates order (m.membersOf r)) :
    (m.deleteRoom r order).1.roomsOf c' =
      if c' ∈ m.membersOf r then (m.roomsOf c').erase r else m.roomsOf c' := by
  simp only [← h.mem_iff]
  unfold deleteRoom
  cases hr : m.rooms.lookup r with
  | none =>
      have hnil : ¬ c' ∈ order := by
        rw [h.mem_iff, mem_membersOf_iff, hr]
        rintro ⟨room, hroom, -⟩
        cases hroom
      rw [if_neg hnil]
  | some room => exact roomsOf_unindexMembers { m with rooms := _ } c' r order

theorem mem_connections_deleteRoom (order : List ConnectionId) :
    c' ∈ (m.deleteRoom r order).1.connections ↔ c' ∈ m.connections := by
  unfold deleteRoom
  cases m.rooms.lookup r <;> simp

theorem mem_connectionRooms_deleteRoom (order : List ConnectionId) :
    c' ∈ (m.deleteRoom r order).1.connectionRooms ↔ c' ∈ m.connectionRooms := by
  unfold deleteRoom
  cases m.rooms.lookup r with
  | none => rfl
  | some room => exact mem_unindexMembers_connectionRooms _ c' r order

theorem membersOf_joinRoom :
    (m.joinRoom c r).1.membersOf r' =
      if c ∈ m.connections ∧ r' = r then insert c (m.membersOf r') else m.membersOf r' := by
  unfold joinRoom
  by_cases hc : c ∈ m.connections
  · rw [if_neg (not_not.mpr hc)]
    simp only [hc, true_and]
    rw [← membersOf_createRoom m r r']
    unfold membersOf
    rw [KeyMap.lookup_modify]
    split_ifs with h
    · subst h
      rw [lookup_createRoom_self]
      rfl
    · rfl
  · rw [if_pos hc, if_neg (fun h => hc h.1)]

theorem roomsOf_joinRoom :
    (m.joinRoom c r).1.roomsOf c' =
      if c ∈ m.connections ∧ c' = c ∧ c ∈ m.connectionRooms then insert r (m.roomsOf c')
      else m.roomsOf c' := by
  unfold joinRoom
  by_cases hc : c ∈ m.connections
  · rw [if_neg (not_not.mpr hc)]
    simp only [hc, true_and]
    unfold roomsOf createRoom
    rw [KeyMap.lookup_modify]
    by_cases h : c' = c
    · subst h
      simp only [← Finmap.lookup_isSome]
      cases m.connectionRooms.lookup c' <;> simp
    · simp [h]
  · rw [if_pos hc, if_neg (fun h => hc h.1)]

theorem mem_connections_joinRoom :
    c' ∈ (m.joinRoom c r).1.connections ↔ c' ∈ m.connections := by
  unfold joinRoom
  split_ifs <;> rfl

theorem mem_connectionRooms_joinRoom :
    c' ∈ (m.joinRoom c r).1.connectionRooms ↔ c' ∈ m.connectionRooms := by
  unfold joinRoom
  split_ifs
  · exact KeyMap.mem_modify
  · rfl

theorem membersOf_leaveRoom :
    (m.leaveRoom c r).1.membersOf r' =
      if r' = r then (m.membersOf r').erase c else m.membersOf r' := by
  rw [← membersOf_leaveIfPresent]
  exact membersOf_removeIfEmpty _ r r'

theorem roomsOf_leaveRoom :
    (m.leaveRoom c r).1.roomsOf c' =
      if c' = c then (m.roomsOf c').erase r else m.roomsOf c' := by
  unfold leaveRoom roomsOf
  simp only [leaveIfPresent, removeIfEmpty, KeyMap.lookup_modify]
  split_ifs with h
  · subst h
    cases m.connectionRooms.lookup c' <;> simp
  · rfl

theorem mem_connections_leaveRoom :
    c' ∈ (m.leaveRoom c r).1.connections ↔ c' ∈ m.connections := Iff.rfl

theorem mem_connectionRooms_leaveRoom :
    c' ∈ (m.leaveRoom c r).1.connectionRooms ↔ c' ∈ m.connectionRooms :=
  KeyMap.mem_modify

/-- The connections after a call: only registering and unregistering changes them. -/
theorem connections_run (call : RoomCall) :
    (m.run call).1.connections =
      match call with
      | .registerConnection connection => m.connections.insert connection.id connection
      | .unregisterConnection c _ => m.connections.erase c
      | _ => m.connections := by
  cases call with
  | registerConnection connection => rfl
  | unregisterConnection c order =>
      simp only [run, unregisterConnection]
      cases m.connectionRooms.lookup c with
      | none => rfl
      | some rooms => rw [leaveRooms_connections]
  | createRoom r => rfl
  | deleteRoom r order =>
      simp only [run, deleteRoom]
      cases m.rooms.lookup r with
      | none => rfl
      | some room => exact unindexMembers_connections _ r order
  | joinRoom c r =>
      simp only [run, joinRoom]
      split_ifs <;> rfl
  | leaveRoom c r => rfl

end effects

end RoomManager
end ArmatureWebsocket
