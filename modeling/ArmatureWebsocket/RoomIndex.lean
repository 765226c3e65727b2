import ArmatureWebsocket.Execution
import ArmatureWebsocket.Room

/-! # The membership index of the room manager

The manager records membership twice: in the rooms and in the index of every connection.
`unregister_connection` and `delete_room` clean one side by walking the other, so each is right
only as long as the two sides agree.  `Indexed` says that they do, and that the two maps keyed by
connections have the same keys.

Every call keeps `Indexed` (`Indexed.run`), provided that `register_connection` is given an id
that is not registered; hence it holds after every history of calls
(`indexed_after_calls`). -/

namespace ArmatureWebsocket

open Execution

/-- Rooms and index agree, and the two connection maps have the same keys. -/
structure RoomManager.Indexed (m : RoomManager) : Prop where
  member_iff : ∀ c r, c ∈ m.membersOf r ↔ r ∈ m.roomsOf c
  same_keys : ∀ c, c ∈ m.connections ↔ c ∈ m.connectionRooms

/-- A registration is made with an id that is not registered. -/
def RoomCall.FreshRegistration (m : RoomManager) : RoomCall → Prop
  | .registerConnection connection => connection.id ∉ m.connections
  | _ => True

instance (m : RoomManager) (call : RoomCall) : Decidable (call.FreshRegistration m) :=
  match call with
  | .registerConnection connection => inferInstanceAs (Decidable (connection.id ∉ m.connections))
  | .unregisterConnection _ _ | .createRoom _ | .deleteRoom _ _ | .joinRoom _ _
  | .leaveRoom _ _ => .isTrue trivial

namespace RoomManager

theorem roomsOf_eq_empty {m : RoomManager} {c : ConnectionId} (h : c ∉ m.connectionRooms) :
    m.roomsOf c = ∅ := by
  unfold roomsOf
  rw [Finmap.lookup_eq_none.mpr h]
  rfl

theorem indexed_new : Indexed new where
  member_iff := fun _ _ => by simp [new, membersOf, roomsOf]
  same_keys := fun _ => Iff.rfl

namespace Indexed

variable {m : RoomManager}

theorem mem_connections (h : m.Indexed) {c : ConnectionId} {r : RoomId}
    (hc : c ∈ m.membersOf r) : c ∈ m.connections := by
  rw [h.same_keys]
  by_contra hn
  rw [h.member_iff, roomsOf_eq_empty hn] at hc
  exact absurd hc (Finset.notMem_empty r)

theorem registerConnection (h : m.Indexed) (connection : Connection)
    (hfresh : connection.id ∉ m.connections) : (m.registerConnection connection).Indexed where
  member_iff := fun c r => by
    rw [membersOf_registerConnection, roomsOf_registerConnection, h.member_iff]
    split_ifs with hc
    · -- a fresh id had no rooms to forget
      rw [h.same_keys, ← hc] at hfresh
      rw [roomsOf_eq_empty hfresh]
    · rfl
  same_keys := fun c => by
    simp only [RoomManager.registerConnection, Finmap.mem_insert, h.same_keys c]

theorem unregisterConnection (h : m.Indexed) (c : ConnectionId) (order : List RoomId)
    (horder : KeyMap.Enumerates order (m.roomsOf c)) :
    (m.unregisterConnection c order).Indexed where
  member_iff := fun c' r => by
    rw [membersOf_unregisterConnection m c r horder, roomsOf_unregisterConnection]
    by_cases hc : c' = c
    · subst hc
      by_cases hr : r ∈ m.roomsOf c'
      · simp [hr]
      · have hn : c' ∉ m.membersOf r := fun hm => hr ((h.member_iff c' r).mp hm)
        simp [hr, hn]
    · by_cases hr : r ∈ m.roomsOf c <;> simp [hr, hc, h.member_iff]
  same_keys := fun c' => by
    rw [mem_connections_unregisterConnection, mem_connectionRooms_unregisterConnection,
      h.same_keys]

theorem createRoom (h : m.Indexed) (r : RoomId) : (m.createRoom r).1.Indexed where
  member_iff := fun c r' => by
    rw [membersOf_createRoom]
    exact h.member_iff c r'
  same_keys := h.same_keys

theorem deleteRoom (h : m.Indexed) (r : RoomId) (order : List ConnectionId)
    (horder : KeyMap.Enumerates order (m.membersOf r)) : (m.deleteRoom r order).1.Indexed where
  member_iff := fun c r' => by
    rw [membersOf_deleteRoom, roomsOf_deleteRoom m c r horder]
    by_cases hr : r' = r
    · subst hr
      by_cases hc : c ∈ m.membersOf r'
      · simp [hc]
      · have hn : r' ∉ m.roomsOf c := fun hm => hc ((h.member_iff c r').mpr hm)
        simp [hc, hn]
    · by_cases hc : c ∈ m.membersOf r <;> simp [hc, hr, h.member_iff]
  same_keys := fun c => by
    rw [mem_connections_deleteRoom, mem_connectionRooms_deleteRoom, h.same_keys]

theorem joinRoom (h : m.Indexed) (c : ConnectionId) (r : RoomId) :
    (m.joinRoom c r).1.Indexed where
  member_iff := fun c' r' => by
    rw [membersOf_joinRoom, roomsOf_joinRoom]
    by_cases hc : c ∈ m.connections
    · have hc₂ := (h.same_keys c).mp hc
      by_cases hr : r' = r <;> by_cases hc' : c' = c <;> simp [hc, hc₂, hr, hc', h.member_iff]
    · simp [hc, h.member_iff]
  same_keys := fun c' => by
    rw [mem_connections_joinRoom, mem_connectionRooms_joinRoom, h.same_keys]

theorem leaveRoom (h : m.Indexed) (c : ConnectionId) (r : RoomId) :
    (m.leaveRoom c r).1.Indexed where
  member_iff := fun c' r' => by
    rw [membersOf_leaveRoom, roomsOf_leaveRoom]
    by_cases hr : r' = r <;> by_cases hc' : c' = c <;> simp [hr, hc', h.member_iff]
  same_keys := fun c' => by
    rw [mem_connections_leaveRoom, mem_connectionRooms_leaveRoom, h.same_keys]

/-- Every call keeps the index. -/
theorem run (h : m.Indexed) {call : RoomCall} (hready : call.Ready m)
    (hfresh : call.FreshRegistration m) : (m.run call).1.Indexed := by
  cases call with
  | registerConnection connection => exact h.registerConnection connection hfresh
  | unregisterConnection c order => exact h.unregisterConnection c order hready
  | createRoom r => exact h.createRoom r
  | deleteRoom r order => exact h.deleteRoom r order hready
  | joinRoom c r => exact h.joinRoom c r
  | leaveRoom c r => exact h.leaveRoom c r

/-- After `unregister_connection` no room contains the connection. -/
theorem notMem_unregisterConnection (h : m.Indexed) (c : ConnectionId) {order : List RoomId}
    (horder : KeyMap.Enumerates order (m.roomsOf c)) (r : RoomId) :
    c ∉ (m.unregisterConnection c order).membersOf r := by
  rw [(h.unregisterConnection c order horder).member_iff, roomsOf_unregisterConnection, if_pos rfl]
  exact Finset.notMem_empty r

end Indexed

/-- The index holds after every history of calls whose registrations are fresh. -/
theorem indexed_of_exec {calls : List RoomCall} {m m' : RoomManager} (h : m.Indexed)
    (hrun : exec step m calls = some m')
    (hfresh : Along step (fun m call _ => call.FreshRegistration m) m calls) : m'.Indexed := by
  refine exec_invariant_along ?_ h hrun hfresh
  intro m₁ call m₂ hm₁ hstep hfresh₁
  obtain ⟨hready, rfl⟩ := step_eq_some_iff.mp hstep
  exact hm₁.run hready hfresh₁

/-- **The membership index**: after every history of calls on a new manager, with fresh
registrations and whatever other arguments, rooms and index agree, the two connection maps have
the same keys, every member of every room is registered, and unregistering a connection takes it
out of every room. -/
theorem indexed_after_calls (calls : List RoomCall) (m : RoomManager)
    (hrun : exec step new calls = some m)
    (hfresh : Along step (fun m call _ => call.FreshRegistration m) new calls) :
    (∀ c r, c ∈ m.membersOf r ↔ r ∈ m.roomsOf c) ∧
      m.connections.keys = m.connectionRooms.keys ∧
      (∀ r room, m.rooms.lookup r = some room → ∀ c ∈ room.members, c ∈ m.connections) ∧
      ∀ c order, KeyMap.Enumerates order (m.roomsOf c) →
        ∀ r, c ∉ (m.unregisterConnection c order).membersOf r := by
  have h : m.Indexed := indexed_of_exec indexed_new hrun hfresh
  refine ⟨h.member_iff, ?_, ?_, ?_⟩
  · ext c
    rw [Finmap.mem_keys, Finmap.mem_keys]
    exact h.same_keys c
  · intro r room hroom c hc
    exact h.mem_connections (mem_membersOf_iff.mpr ⟨room, hroom, hc⟩)
  · intro c order horder r
    exact h.notMem_unregisterConnection c horder r

/-- Two connections join a room and one of them leaves it again. -/
def joinedThenLeft : List RoomCall :=
  [.registerConnection ⟨"a", .anonymous, 0⟩, .registerConnection ⟨"b", .anonymous, 1⟩,
    .joinRoom "a" "r", .joinRoom "b" "r", .leaveRoom "a" "r"]

theorem indexed_after_joinedThenLeft :
    ∃ m, exec step new joinedThenLeft = some m ∧ "b" ∈ m.membersOf "r" ∧ "r" ∈ m.roomsOf "b" := by
  have hrun : exec step new joinedThenLeft = some _ := rfl
  refine ⟨_, hrun, by decide, ?_⟩
  exact ((indexed_after_calls _ _ hrun (by decide)).1 "b" "r").mp (by decide)

end RoomManager
end ArmatureWebsocket
