import ArmatureWebsocket.RoomIndex

/-! # Registering an id again

`register_connection` gives its id an empty entry in the index, whether or not the id has one.  The
rooms are not visited, so a connection that is in a room stays in it and its index forgets the room;
`unregister_connection`, which goes by the index, then leaves it behind.

Registering an id again therefore keeps rooms and index in agreement exactly when the connection is
in no room, and exactly then a later `unregister_connection` takes it out of all rooms
(`reregistered_iff`). -/

namespace ArmatureWebsocket

open Execution

/-- The call is a join or a leave. -/
def RoomCall.moves : RoomCall → Bool
  | .joinRoom _ _ => true
  | .leaveRoom _ _ => true
  | _ => false

theorem RoomCall.freshRegistration_of_moves {m : RoomManager} {call : RoomCall}
    (h : call.moves = true) : call.FreshRegistration m := by
  cases call with
  | registerConnection connection => cases h
  | _ => exact trivial

namespace RoomManager

/-- The connection is in no room, and no room has it as its only member. -/
def GoneFrom (m : RoomManager) (c : ConnectionId) : Prop :=
  (∀ r, c ∉ m.membersOf r) ∧ ∀ r room, m.rooms.lookup r = some room → room.members ≠ {c}

/-- The rooms a connection is in and the rooms its index lists are the same. -/
def AgreesOn (m : RoomManager) (c : ConnectionId) : Prop :=
  ∀ r, c ∈ m.membersOf r ↔ r ∈ m.roomsOf c

theorem goneFrom_of_notMem {m : RoomManager} {c : ConnectionId} (h : ∀ r, c ∉ m.membersOf r) :
    m.GoneFrom c := by
  refine ⟨h, fun r room hroom honly => h r (mem_membersOf_iff.mpr ⟨room, hroom, ?_⟩)⟩
  rw [honly]
  exact Finset.mem_singleton_self c

variable {m : RoomManager}

/-- After a registration the index lists no room for the connection. -/
theorem roomsOf_registerConnection_self (connection : Connection) :
    (m.registerConnection connection).roomsOf connection.id = ∅ := by
  rw [roomsOf_registerConnection, if_pos rfl]

theorem enumerates_registerConnection (connection : Connection) :
    KeyMap.Enumerates [] ((m.registerConnection connection).roomsOf connection.id) := by
  rw [roomsOf_registerConnection_self]
  exact ⟨List.nodup_nil, rfl⟩

theorem membersOf_unregisterConnection_registerConnection (connection : Connection) (r : RoomId) :
    ((m.registerConnection connection).unregisterConnection connection.id []).membersOf r =
      m.membersOf r := by
  rw [membersOf_unregisterConnection _ _ _ (enumerates_registerConnection connection),
    roomsOf_registerConnection_self, if_neg (Finset.notMem_empty r), membersOf_registerConnection]

theorem agreesOn_registerConnection_iff (connection : Connection) :
    (m.registerConnection connection).AgreesOn connection.id ↔
      ∀ r, connection.id ∉ m.membersOf r := by
  unfold AgreesOn
  simp only [roomsOf_registerConnection_self, Finset.notMem_empty, iff_false,
    membersOf_registerConnection]

theorem Indexed.registerConnection_again (h : m.Indexed) (connection : Connection)
    (hnone : ∀ r, connection.id ∉ m.membersOf r) : (m.registerConnection connection).Indexed where
  member_iff := fun c r => by
    by_cases hc : c = connection.id
    · rw [hc]
      exact (agreesOn_registerConnection_iff connection).mpr hnone r
    · rw [membersOf_registerConnection, roomsOf_registerConnection, if_neg hc]
      exact h.member_iff c r
  same_keys := fun c => by
    simp only [RoomManager.registerConnection, Finmap.mem_insert, h.same_keys c]

theorem Indexed.of_moves {m' : RoomManager} {calls : List RoomCall} (h : m.Indexed)
    (hmoves : ∀ call ∈ calls, call.moves = true) (hrun : exec step m calls = some m') :
    m'.Indexed := by
  refine exec_invariant_along ?_ h hrun (along_of_forall_mem hmoves)
  intro m₁ call m₂ h₁ hstep hmove
  obtain ⟨hready, rfl⟩ := step_eq_some_iff.mp hstep
  exact h₁.run hready (RoomCall.freshRegistration_of_moves hmove)

/-- **Registering an id again**: rooms and index agree on the connection afterwards if and only if
it was in no room, and if and only if it was in no room is it gone from all rooms whenever it is
unregistered after any joins and leaves. -/
theorem reregistered_iff (h : m.Indexed) (connection : Connection) :
    ((m.registerConnection connection).AgreesOn connection.id ↔
      ∀ r, connection.id ∉ m.membersOf r) ∧
    ((∀ calls m' order, (∀ call ∈ calls, call.moves = true) →
        exec step (m.registerConnection connection) calls = some m' →
        KeyMap.Enumerates order (m'.roomsOf connection.id) →
        (m'.unregisterConnection connection.id order).GoneFrom connection.id) ↔
      ∀ r, connection.id ∉ m.membersOf r) := by
  refine ⟨agreesOn_registerConnection_iff connection, ?_, ?_⟩
  · intro hgone r
    have hnotMem := (hgone [] _ [] (by simp) rfl (enumerates_registerConnection connection)).1 r
    rwa [membersOf_unregisterConnection_registerConnection] at hnotMem
  · intro hnone calls m' order hmoves hrun horder
    have hindexed : m'.Indexed := (h.registerConnection_again connection hnone).of_moves hmoves hrun
    exact goneFrom_of_notMem (hindexed.notMem_unregisterConnection connection.id horder)

/-- A connection joins a room and leaves it. -/
def joinedAndLeft : List RoomCall :=
  [.registerConnection ⟨"a", .anonymous, 0⟩, .joinRoom "a" "r", .leaveRoom "a" "r"]

theorem reregistered_iff_joinedAndLeft :
    ∃ m, exec step new joinedAndLeft = some m ∧
      (m.registerConnection ⟨"a", .anonymous, 0⟩).AgreesOn "a" := by
  obtain ⟨m, hrun, hrooms⟩ : ∃ m, exec step new joinedAndLeft = some m ∧ m.rooms.keys = ∅ := by
    decide
  have hindexed : m.Indexed := indexed_of_exec indexed_new hrun (by decide)
  refine ⟨m, hrun, (reregistered_iff hindexed ⟨"a", .anonymous, 0⟩).1.mpr fun r hr => ?_⟩
  obtain ⟨room, hroom, -⟩ := mem_membersOf_iff.mp hr
  have hkeys : r ∈ m.rooms.keys := Finmap.mem_keys.mpr (Finmap.mem_of_lookup_eq_some hroom)
  rw [hrooms] at hkeys
  exact Finset.notMem_empty r hkeys

/-- A connection in a room is registered again with the clone that `get_connection` returns, and
unregistered: its index has lost the room, and the room keeps it as its only member. -/
theorem not_goneFrom_registeredTwice :
    ∃ m, exec step new [.registerConnection ⟨"a", .anonymous, 0⟩, .joinRoom "a" "r"] = some m ∧
      m.getConnection "a" = some ⟨"a", .anonymous, 0⟩ ∧
      ∃ m', exec step m [.registerConnection ⟨"a", .anonymous, 0⟩] = some m' ∧
        ("a" ∈ m'.membersOf "r" ∧ "r" ∉ m'.roomsOf "a") ∧
        ∃ m'', exec step m' [.unregisterConnection "a" []] = some m'' ∧
          m''.rooms.lookup "r" = some ⟨"r", {"a"}⟩ ∧ m''.getConnection "a" = none := by
  decide

end RoomManager
end ArmatureWebsocket
