import ArmatureWebsocket.Grouping
import ArmatureWebsocket.RoomIndex

/-! # What the room manager is for

The room manager keeps members and rooms in three maps and prunes rooms as they become empty.  From
outside it is a `Grouping` of connections in rooms: `RoomManager.grouping` reads the registered
connections, the relation and the rooms without members off the maps.  As long as rooms and index
agree, every call acts on that reading as the operation of the same name (`grouping_run`), and
every query answers as it does (`matches_ask`), so the answers to a history of calls and queries are
those of the abstract machine (`answers_match`). -/

namespace ArmatureWebsocket

/-- The queries. -/
inductive RoomQuery where
  | getRoom (r : RoomId)
  | members (r : RoomId)
  | contains (r : RoomId) (c : ConnectionId)
  | len (r : RoomId)
  | roomIds
  | roomCount
  | connectionIds
  | connectionCount
deriving DecidableEq, Repr

/-- What calls and queries return; lists of ids are in no order. -/
inductive RoomAnswer where
  | reply (reply : RoomReply)
  | room (room : Option Room)
  | members (members : Option (Finset ConnectionId))
  | contains (contains : Option Bool)
  | len (len : Option ℕ)
  | ids (ids : Finset String)
  | count (count : ℕ)
deriving DecidableEq

/-- A call or a query. -/
inductive RoomRequest where
  | call (call : RoomCall)
  | query (query : RoomQuery)

namespace RoomManager

/-- Get all room ids. -/
def roomIds (m : RoomManager) : Finset RoomId := m.rooms.keys

/-- Get all connection ids. -/
def connectionIds (m : RoomManager) : Finset ConnectionId := m.connections.keys

/-- Get the total number of connections. -/
def connectionCount (m : RoomManager) : ℕ := m.connections.keys.card

/-- Get the total number of rooms. -/
def roomCount (m : RoomManager) : ℕ := m.rooms.keys.card

/-- What a query answers; the queries of a room are made on what `get_room` returns. -/
def ask (m : RoomManager) : RoomQuery → RoomAnswer
  | .getRoom r => .room (m.getRoom r)
  | .members r => .members ((m.getRoom r).map Room.members)
  | .contains r c => .contains ((m.getRoom r).map (·.contains c))
  | .len r => .len ((m.getRoom r).map Room.len)
  | .roomIds => .ids m.roomIds
  | .roomCount => .count m.roomCount
  | .connectionIds => .ids m.connectionIds
  | .connectionCount => .count m.connectionCount

/-- What a call or a query does and answers. -/
def serve (m : RoomManager) : RoomRequest → RoomManager × RoomAnswer
  | .call call => ((m.run call).1, .reply (m.run call).2)
  | .query query => (m, m.ask query)

/-- The answers to a history of calls and queries. -/
def answers (m : RoomManager) : List RoomRequest → List RoomAnswer
  | [] => []
  | request :: requests => (m.serve request).2 :: (m.serve request).1.answers requests

/-- Every call of the history is given orders of what it iterates over, and every registration an id
that is not registered. -/
def Proper (m : RoomManager) : List RoomRequest → Prop
  | [] => True
  | .call call :: requests =>
      call.Ready m ∧ call.FreshRegistration m ∧ (m.run call).1.Proper requests
  | .query _ :: requests => m.Proper requests

instance decidableProper (m : RoomManager) :
    (requests : List RoomRequest) → Decidable (m.Proper requests)
  | [] => .isTrue trivial
  | .call call :: requests =>
      have := decidableProper (m.run call).1 requests
      inferInstanceAs (Decidable (call.Ready m ∧ call.FreshRegistration m ∧ _))
  | .query _ :: requests => decidableProper m requests

/-- The registered connections, who is in which room, and the rooms without members. -/
def grouping (m : RoomManager) : Grouping ConnectionId RoomId where
  reg := {c | c ∈ m.connections}
  mem := {p | p.1 ∈ m.membersOf p.2}
  bare := {r | r ∈ m.rooms ∧ m.membersOf r = ∅}

end RoomManager

open Grouping (Op Answer)

/-- The operation that a call is. -/
def RoomCall.op : RoomCall → Op ConnectionId RoomId
  | .registerConnection connection => .register connection.id
  | .unregisterConnection c _ => .unregister c
  | .createRoom r => .create r
  | .deleteRoom r _ => .delete r
  | .joinRoom c r => .join c r
  | .leaveRoom c r => .leave c r

/-- The operation that a query is. -/
def RoomQuery.op : RoomQuery → Op ConnectionId RoomId
  | .getRoom r => .find r
  | .members r => .members r
  | .contains r c => .contains r c
  | .len r => .len r
  | .roomIds => .groups
  | .roomCount => .groupCount
  | .connectionIds => .registered
  | .connectionCount => .registeredCount

/-- The operation that a request is. -/
def RoomRequest.op : RoomRequest → Op ConnectionId RoomId
  | .call made => made.op
  | .query made => made.op

/-- What is returned is what the abstract machine answers; lists of ids are compared as sets, and
the error of a call on an unknown connection names it. -/
def RoomAnswer.Matches : RoomAnswer → Answer ConnectionId RoomId → Prop
  | .reply .done, .done => True
  | .reply (.room made), .group g => g = some (made.id, (made.members : Set ConnectionId))
  | .reply (.existed b), .holds p => b = true ↔ p
  | .reply (.result outcome), .result o => outcome = o.mapError WebSocketError.connectionNotFound
  | .room found, .group g => g = found.map fun x => (x.id, (x.members : Set ConnectionId))
  | .members found, .members s => s = found.map (↑· : Finset ConnectionId → Set ConnectionId)
  | .contains found, .holdsIn p => p = found.map fun b => b = true
  | .len found, .len n => found = n
  | .ids found, .groups rs => (found : Set RoomId) = rs
  | .ids found, .registered cs => (found : Set ConnectionId) = cs
  | .count found, .count n => found = n
  | _, _ => False

namespace RoomManager

/-- Every room is stored under its id. -/
def Keyed (m : RoomManager) : Prop := ∀ r room, m.rooms.lookup r = some room → room.id = r

/-! ### Which rooms there are -/

section rooms

variable (m : RoomManager) (c : ConnectionId) (r r' : RoomId)

theorem mem_rooms_iff : r ∈ m.rooms ↔ ∃ room, m.rooms.lookup r = some room := by
  rw [← Finmap.lookup_isSome, Option.isSome_iff_exists]

/-- A room with a member is there. -/
theorem mem_rooms_of_member {m : RoomManager} {c : ConnectionId} {r : RoomId}
    (h : c ∈ m.membersOf r) : r ∈ m.rooms := by
  obtain ⟨room, hroom, -⟩ := mem_membersOf_iff.mp h
  exact (mem_rooms_iff m r).mpr ⟨room, hroom⟩

theorem membersOf_of_lookup {m : RoomManager} {r : RoomId} {room : Room}
    (h : m.rooms.lookup r = some room) : m.membersOf r = room.members := by
  unfold membersOf
  rw [h]
  rfl

theorem mem_rooms_removeIfEmpty :
    r' ∈ (m.removeIfEmpty r).rooms ↔ r' ∈ m.rooms ∧ ¬ (r' = r ∧ m.membersOf r' = ∅) := by
  rw [mem_rooms_iff, mem_rooms_iff, membersOf, removeIfEmpty]
  simp only [KeyMap.lookup_removeIf]
  cases m.rooms.lookup r' with
  | none => simp
  | some room =>
      by_cases hr : r' = r
      · simp [hr, Room.isEmpty, Option.filter]
      · simp [hr]

theorem mem_rooms_leaveIfPresent : r' ∈ (m.leaveIfPresent r c).rooms ↔ r' ∈ m.rooms :=
  KeyMap.mem_modify

/-- A room that the connection leaves is pruned if nobody else is in it. -/
theorem mem_rooms_leaveRoom :
    r' ∈ (m.leaveRoom c r).1.rooms ↔
      r' ∈ m.rooms ∧ ¬ (r' = r ∧ (m.membersOf r').erase c = ∅) := by
  have hprune := mem_rooms_removeIfEmpty (m.leaveIfPresent r c) r r'
  rw [membersOf_leaveIfPresent, mem_rooms_leaveIfPresent] at hprune
  refine hprune.trans ?_
  by_cases hr : r' = r <;> simp [hr]

theorem mem_rooms_leaveRooms (order : List RoomId) :
    r' ∈ (m.leaveRooms c order).rooms ↔
      r' ∈ m.rooms ∧ ¬ (r' ∈ order ∧ (m.membersOf r').erase c = ∅) := by
  induction order generalizing m with
  | nil => simp [leaveRooms]
  | cons r rs ih =>
      rw [leaveRooms, ih, mem_rooms_removeIfEmpty, membersOf_removeIfEmpty,
        membersOf_leaveIfPresent, mem_rooms_leaveIfPresent]
      by_cases hr : r' = r
      · subst hr
        simp only [if_true, true_and, Finset.erase_idem, List.mem_cons_self]
        tauto
      · simp [hr]

theorem mem_rooms_unregisterConnection {order : List RoomId}
    (h : KeyMap.Enumerates order (m.roomsOf c)) :
    r' ∈ (m.unregisterConnection c order).rooms ↔
      r' ∈ m.rooms ∧ ¬ (r' ∈ m.roomsOf c ∧ (m.membersOf r').erase c = ∅) := by
  rw [← h.mem_iff]
  unfold unregisterConnection
  cases hc : m.connectionRooms.lookup c with
  | none =>
      have hnil : ¬ r' ∈ order := by
        rw [h.mem_iff, mem_roomsOf_iff, hc]
        rintro ⟨rooms, hrooms, -⟩
        cases hrooms
      simp [hnil]
  | some rooms => exact mem_rooms_leaveRooms { m with connectionRooms := _ } c r' order

theorem mem_rooms_createRoom : r' ∈ (m.createRoom r).1.rooms ↔ r' = r ∨ r' ∈ m.rooms := by
  rw [mem_rooms_iff, mem_rooms_iff, createRoom]
  simp only [KeyMap.lookup_getOrInsert]
  by_cases hr : r' = r <;> simp [hr]

theorem mem_rooms_deleteRoom (order : List ConnectionId) :
    r' ∈ (m.deleteRoom r order).1.rooms ↔ r' ≠ r ∧ r' ∈ m.rooms := by
  unfold deleteRoom
  cases hr : m.rooms.lookup r with
  | none =>
      refine ⟨fun h => ⟨?_, h⟩, fun h => h.2⟩
      rintro rfl
      exact Finmap.lookup_eq_none.mp hr h
  | some room => simp [Finmap.mem_erase]

theorem mem_rooms_joinRoom :
    r' ∈ (m.joinRoom c r).1.rooms ↔ (c ∈ m.connections ∧ r' = r) ∨ r' ∈ m.rooms := by
  unfold joinRoom
  by_cases hc : c ∈ m.connections
  · rw [if_neg (not_not.mpr hc)]
    refine KeyMap.mem_modify.trans ?_
    rw [mem_rooms_createRoom]
    simp [hc]
  · rw [if_pos hc]
    simp [hc]

end rooms

/-! ### Rooms are stored under their ids -/

namespace Keyed

variable {m : RoomManager}

theorem new : RoomManager.new.Keyed := by
  intro r room hroom
  simp [RoomManager.new] at hroom

theorem modify (h : m.Keyed) (r : RoomId) {f : Room → Room} (hf : ∀ room, (f room).id = room.id) :
    Keyed { m with rooms := m.rooms.modify r f } := by
  intro r' room hroom
  rw [KeyMap.lookup_modify] at hroom
  split_ifs at hroom
  · obtain ⟨old, hold, rfl⟩ := Option.map_eq_some_iff.mp hroom
    rw [hf]
    exact h r' old hold
  · exact h r' room hroom

theorem removeIfEmpty (h : m.Keyed) (r : RoomId) : (m.removeIfEmpty r).Keyed := by
  intro r' room hroom
  unfold RoomManager.removeIfEmpty at hroom
  rw [KeyMap.lookup_removeIf] at hroom
  split_ifs at hroom
  · exact h r' room (Option.filter_eq_some_iff.mp hroom).1
  · exact h r' room hroom

theorem leaveIfPresent (h : m.Keyed) (c : ConnectionId) (r : RoomId) :
    (m.leaveIfPresent r c).Keyed :=
  h.modify r (f := fun room => (room.leave c).1) fun _ => rfl

theorem leaveRooms (h : m.Keyed) (c : ConnectionId) (order : List RoomId) :
    (m.leaveRooms c order).Keyed := by
  induction order generalizing m with
  | nil => exact h
  | cons r rs ih => exact ih ((h.leaveIfPresent c r).removeIfEmpty r)

theorem createRoom (h : m.Keyed) (r : RoomId) : (m.createRoom r).1.Keyed := by
  intro r' room hroom
  unfold RoomManager.createRoom at hroom
  rw [KeyMap.lookup_getOrInsert] at hroom
  split_ifs at hroom with hr
  · subst hr
    cases hold : m.rooms.lookup r' with
    | none =>
        rw [hold] at hroom
        cases hroom
        rfl
    | some old =>
        rw [hold] at hroom
        cases hroom
        exact h r' old hold
  · exact h r' room hroom

theorem unregisterConnection (h : m.Keyed) (c : ConnectionId) (order : List RoomId) :
    (m.unregisterConnection c order).Keyed := by
  have hrooms : Keyed { m with connectionRooms := m.connectionRooms.erase c } := h
  unfold RoomManager.unregisterConnection
  cases m.connectionRooms.lookup c with
  | none => exact h
  | some rooms => exact hrooms.leaveRooms c order

theorem deleteRoom (h : m.Keyed) (r : RoomId) (order : List ConnectionId) :
    (m.deleteRoom r order).1.Keyed := by
  unfold RoomManager.deleteRoom
  cases m.rooms.lookup r with
  | none => exact h
  | some room =>
      intro r' room' hroom
      rw [unindexMembers_rooms, KeyMap.lookup_erase_ite] at hroom
      split_ifs at hroom
      exact h r' room' hroom

theorem joinRoom (h : m.Keyed) (c : ConnectionId) (r : RoomId) : (m.joinRoom c r).1.Keyed := by
  unfold RoomManager.joinRoom
  split_ifs
  · exact (h.createRoom r).modify r (f := fun room => room.join c) fun _ => rfl
  · exact h

theorem run (h : m.Keyed) (call : RoomCall) : (m.run call).1.Keyed := by
  cases call with
  | registerConnection connection => exact h
  | unregisterConnection c order => exact h.unregisterConnection c order
  | createRoom r => exact h.createRoom r
  | deleteRoom r order => exact h.deleteRoom r order
  | joinRoom c r => exact h.joinRoom c r
  | leaveRoom c r => exact (h.leaveIfPresent c r).removeIfEmpty r

end Keyed

/-! ### Every call is the operation of the same name -/

section refines

variable {m : RoomManager}

theorem exists_iff {r : RoomId} : m.grouping.Exists r ↔ r ∈ m.rooms := by
  constructor
  · rintro (⟨hr, -⟩ | ⟨c, hc⟩)
    · exact hr
    · exact mem_rooms_of_member hc
  · intro hr
    by_cases he : m.membersOf r = ∅
    · exact .inl ⟨hr, he⟩
    · exact .inr (Finset.nonempty_iff_ne_empty.mpr he)

theorem grouping_registerConnection (connection : Connection) :
    (m.registerConnection connection).grouping = m.grouping.register connection.id := by
  refine Grouping.ext ?_ rfl rfl
  ext c
  exact Finmap.mem_insert

theorem grouping_unregisterConnection (h : m.Indexed) (c : ConnectionId) {order : List RoomId}
    (horder : KeyMap.Enumerates order (m.roomsOf c)) :
    (m.unregisterConnection c order).grouping = m.grouping.unregister c := by
  refine Grouping.ext ?_ ?_ ?_
  · ext c'
    exact (mem_connections_unregisterConnection m c c' order).trans and_comm
  · ext ⟨c', r⟩
    show c' ∈ (m.unregisterConnection c order).membersOf r ↔ c' ∈ m.membersOf r ∧ c' ≠ c
    rw [membersOf_unregisterConnection m c r horder]
    split_ifs with hr
    · rw [Finset.mem_erase, and_comm]
    · -- the rooms the connection is not in are not visited
      refine ⟨fun hc' => ⟨hc', ?_⟩, fun hc' => hc'.1⟩
      rintro rfl
      exact hr ((h.member_iff c' r).mp hc')
  · ext r
    show _ ∧ _ ↔ r ∈ m.rooms ∧ m.membersOf r = ∅
    rw [mem_rooms_unregisterConnection m c r horder, membersOf_unregisterConnection m c r horder]
    split_ifs with hr
    · have hc : c ∈ m.membersOf r := (h.member_iff c r).mpr hr
      refine iff_of_false (fun hbare => hbare.1.2 ⟨hr, hbare.2⟩) fun hbare => ?_
      rw [hbare.2] at hc
      exact absurd hc (Finset.notMem_empty c)
    · simp [hr]

theorem grouping_createRoom (r : RoomId) : (m.createRoom r).1.grouping = m.grouping.create r := by
  refine Grouping.ext rfl ?_ ?_
  · ext ⟨c, r'⟩
    show c ∈ (m.createRoom r).1.membersOf r' ↔ c ∈ m.membersOf r'
    rw [membersOf_createRoom]
  · ext r'
    show _ ∧ _ ↔ (r' ∈ m.rooms ∧ m.membersOf r' = ∅) ∨ r' = r ∧ ¬ m.grouping.Exists r
    rw [mem_rooms_createRoom, membersOf_createRoom, exists_iff]
    by_cases hr : r ∈ m.rooms
    · by_cases he : r' = r <;> simp [he, hr]
    · have hempty : m.membersOf r = ∅ := by
        refine Finset.eq_empty_of_forall_notMem fun c hc => hr (mem_rooms_of_member hc)
      by_cases he : r' = r <;> simp [he, hr, hempty]

theorem grouping_deleteRoom (r : RoomId) (order : List ConnectionId) :
    (m.deleteRoom r order).1.grouping = m.grouping.delete r := by
  refine Grouping.ext ?_ ?_ ?_
  · ext c
    exact mem_connections_deleteRoom m c r order
  · ext ⟨c, r'⟩
    show c ∈ (m.deleteRoom r order).1.membersOf r' ↔ c ∈ m.membersOf r' ∧ r' ≠ r
    rw [membersOf_deleteRoom]
    split_ifs with hr <;> simp [hr]
  · ext r'
    show _ ∧ _ ↔ (r' ∈ m.rooms ∧ m.membersOf r' = ∅) ∧ r' ≠ r
    rw [mem_rooms_deleteRoom, membersOf_deleteRoom]
    by_cases hr : r' = r <;> simp [hr]

theorem grouping_joinRoom (c : ConnectionId) (r : RoomId) :
    (m.joinRoom c r).1.grouping = (m.grouping.join c r).1 := by
  have hreg : c ∈ m.grouping.reg ↔ c ∈ m.connections := Iff.rfl
  unfold Grouping.join
  by_cases hc : c ∈ m.connections
  · rw [if_pos (hreg.mpr hc)]
    refine Grouping.ext ?_ ?_ ?_
    · ext c'
      exact mem_connections_joinRoom m c c' r
    · ext ⟨c', r'⟩
      show c' ∈ (m.joinRoom c r).1.membersOf r' ↔ (c', r') = (c, r) ∨ c' ∈ m.membersOf r'
      rw [membersOf_joinRoom, Prod.mk.injEq]
      by_cases hr : r' = r <;> simp [hr, hc]
    · ext r'
      show _ ∧ _ ↔ (r' ∈ m.rooms ∧ m.membersOf r' = ∅) ∧ r' ≠ r
      rw [mem_rooms_joinRoom, membersOf_joinRoom]
      by_cases hr : r' = r <;> simp [hr, hc]
  · rw [if_neg (mt hreg.mp hc)]
    unfold joinRoom
    rw [if_pos hc]

theorem grouping_leaveRoom (c : ConnectionId) (r : RoomId) :
    (m.leaveRoom c r).1.grouping = m.grouping.leave c r := by
  refine Grouping.ext rfl ?_ ?_
  · ext ⟨c', r'⟩
    show c' ∈ (m.leaveRoom c r).1.membersOf r' ↔ c' ∈ m.membersOf r' ∧ (c', r') ∉ {(c, r)}
    rw [membersOf_leaveRoom, Set.mem_singleton_iff, Prod.mk.injEq]
    by_cases hr : r' = r <;> simp [hr, and_comm]
  · ext r'
    show _ ∧ _ ↔ (r' ∈ m.rooms ∧ m.membersOf r' = ∅) ∧
      (r' = r → ∃ c', c' ≠ c ∧ c' ∈ m.membersOf r)
    rw [mem_rooms_leaveRoom, membersOf_leaveRoom]
    by_cases hr : r' = r
    · subst hr
      refine iff_of_false (fun h => h.1.2 ⟨rfl, by simpa using h.2⟩) fun h => ?_
      obtain ⟨c', -, hc'⟩ := h.2 rfl
      rw [h.1.2] at hc'
      exact absurd hc' (Finset.notMem_empty c')
    · simp [hr]

/-- A call changes what the manager stands for as the operation of the same name does. -/
theorem grouping_run (h : m.Indexed) {call : RoomCall} (hready : call.Ready m) :
    (m.run call).1.grouping = (m.grouping.run call.op).1 := by
  cases call with
  | registerConnection connection => exact grouping_registerConnection connection
  | unregisterConnection c order => exact grouping_unregisterConnection h c hready
  | createRoom r => exact grouping_createRoom r
  | deleteRoom r order => exact grouping_deleteRoom r order
  | joinRoom c r => exact grouping_joinRoom c r
  | leaveRoom c r => exact grouping_leaveRoom c r

/-! ### The answers -/

theorem membersIn_eq (r : RoomId) :
    m.grouping.membersIn r = (m.membersOf r : Set ConnectionId) := rfl

theorem matches_createRoom (h : m.Keyed) (r : RoomId) :
    (RoomAnswer.reply (.room (m.createRoom r).2)).Matches
      (.group (some (r, m.grouping.membersIn r))) := by
  show some _ = some _
  rw [membersIn_eq]
  unfold createRoom membersOf
  cases hr : m.rooms.lookup r with
  | none => rfl
  | some room =>
      have hid : room.id = r := h r room hr
      simp [hid]

theorem matches_deleteRoom (r : RoomId) (order : List ConnectionId) :
    (RoomAnswer.reply (.existed (m.deleteRoom r order).2)).Matches
      (.holds (m.grouping.Exists r)) := by
  show (m.deleteRoom r order).2 = true ↔ m.grouping.Exists r
  rw [exists_iff, mem_rooms_iff]
  unfold deleteRoom
  cases m.rooms.lookup r <;> simp

theorem matches_joinRoom (c : ConnectionId) (r : RoomId) :
    (RoomAnswer.reply (.result (m.joinRoom c r).2)).Matches
      (.result (m.grouping.join c r).2) := by
  have hreg : c ∈ m.grouping.reg ↔ c ∈ m.connections := Iff.rfl
  show (m.joinRoom c r).2 = _
  unfold joinRoom Grouping.join
  by_cases hc : c ∈ m.connections
  · rw [if_neg (not_not.mpr hc), if_pos (hreg.mpr hc)]
    rfl
  · rw [if_pos hc, if_neg (mt hreg.mp hc)]
    rfl

/-- What a call returns is what the operation answers. -/
theorem matches_run (h : m.Keyed) (call : RoomCall) :
    (RoomAnswer.reply (m.run call).2).Matches (m.grouping.run call.op).2 := by
  cases call with
  | registerConnection connection => exact trivial
  | unregisterConnection c order => exact trivial
  | createRoom r => exact matches_createRoom h r
  | deleteRoom r order => exact matches_deleteRoom r order
  | joinRoom c r => exact matches_joinRoom c r
  | leaveRoom c r => exact rfl

/-- A room is found exactly when it exists, with its members. -/
theorem group_eq (r : RoomId) :
    m.grouping.group r = (m.getRoom r).map fun room => (room.members : Set ConnectionId) := by
  unfold Grouping.group getRoom
  cases hr : m.rooms.lookup r with
  | none =>
      have hnone : ¬ m.grouping.Exists r := by
        rw [exists_iff]
        exact Finmap.lookup_eq_none.mp hr
      rw [if_neg hnone]
      rfl
  | some room =>
      have hsome : m.grouping.Exists r := exists_iff.mpr ((mem_rooms_iff m r).mpr ⟨room, hr⟩)
      rw [if_pos hsome, membersIn_eq, membersOf_of_lookup hr]
      rfl

theorem setOf_exists_eq : {r | m.grouping.Exists r} = (m.rooms.keys : Set RoomId) := by
  ext r
  exact exists_iff.trans Finmap.mem_keys.symm

theorem reg_eq : m.grouping.reg = (m.connections.keys : Set ConnectionId) := by
  ext c
  exact Finmap.mem_keys.symm

/-- What a query returns is what the operation answers. -/
theorem matches_ask (h : m.Keyed) (query : RoomQuery) :
    (m.ask query).Matches (m.grouping.run query.op).2 := by
  cases query with
  | getRoom r =>
      show (m.grouping.group r).map _ = (m.getRoom r).map _
      rw [group_eq, Option.map_map]
      refine Option.map_congr fun room hroom => ?_
      have hid : room.id = r := h r room hroom
      simp [hid]
  | members r =>
      show m.grouping.group r =
        ((m.getRoom r).map Room.members).map (↑· : Finset ConnectionId → Set ConnectionId)
      rw [group_eq, Option.map_map]
      rfl
  | contains r c =>
      show (m.grouping.group r).map _ = ((m.getRoom r).map _).map _
      rw [group_eq, Option.map_map, Option.map_map]
      refine Option.map_congr fun room _ => ?_
      simp [Room.contains]
  | len r =>
      show (m.getRoom r).map Room.len = (m.grouping.group r).map Set.ncard
      rw [group_eq, Option.map_map]
      refine Option.map_congr fun room _ => ?_
      exact (Set.ncard_coe_finset room.members).symm
  | roomIds => exact setOf_exists_eq.symm
  | roomCount =>
      show m.roomCount = Set.ncard {r | m.grouping.Exists r}
      rw [setOf_exists_eq, Set.ncard_coe_finset]
      rfl
  | connectionIds => exact reg_eq.symm
  | connectionCount =>
      show m.connectionCount = Set.ncard m.grouping.reg
      rw [reg_eq, Set.ncard_coe_finset]
      rfl

/-- The answers to a history agree, from any manager whose rooms and index agree. -/
theorem matches_answers {requests : List RoomRequest} (hindexed : m.Indexed) (hkeyed : m.Keyed)
    (hproper : m.Proper requests) :
    List.Forall₂ RoomAnswer.Matches (m.answers requests)
      (m.grouping.answers (requests.map RoomRequest.op)) := by
  induction requests generalizing m with
  | nil => exact .nil
  | cons request requests ih =>
      cases request with
      | call made =>
          obtain ⟨hready, hfresh, hrest⟩ := hproper
          refine .cons (matches_run hkeyed made) ?_
          have hstep : (m.run made).1.grouping = (m.grouping.run made.op).1 :=
            grouping_run hindexed hready
          have htail := ih (hindexed.run hready hfresh) (hkeyed.run made) hrest
          rw [hstep] at htail
          exact htail
      | query made =>
          have hstep : (m.grouping.run made.op).1 = m.grouping := by cases made <;> rfl
          refine .cons (matches_ask hkeyed made) ?_
          have htail := ih hindexed hkeyed hproper
          rw [← hstep] at htail
          exact htail

theorem grouping_new : new.grouping = Grouping.empty := by
  refine Grouping.ext ?_ ?_ ?_
  · ext c
    exact iff_of_false Finmap.notMem_empty (Set.notMem_empty c)
  · ext p
    exact iff_of_false (Finset.notMem_empty p.1) (Set.notMem_empty p)
  · ext r
    exact iff_of_false (fun h => Finmap.notMem_empty h.1) (Set.notMem_empty r)

end refines

/-- **What the room manager is for**: over every history of calls and queries on a new manager, made
one after the other and with fresh registrations, everything that is returned is what the abstract
machine of registered connections, memberships and bare rooms answers. -/
theorem answers_match (requests : List RoomRequest) (hproper : new.Proper requests) :
    List.Forall₂ RoomAnswer.Matches (new.answers requests)
      (Grouping.empty.answers (requests.map RoomRequest.op)) := by
  rw [← grouping_new]
  exact matches_answers indexed_new Keyed.new hproper

/-- A room is created bare, joined, and gone when its only member is unregistered. -/
def emptiedByUnregister : List RoomRequest :=
  [.call (.registerConnection ⟨"a", .anonymous, 0⟩), .call (.createRoom "r"),
    .call (.joinRoom "b" "s"), .call (.joinRoom "a" "r"), .query (.len "r"),
    .call (.unregisterConnection "a" ["r"]), .query (.getRoom "r"), .query .roomCount]

theorem answers_match_emptiedByUnregister :
    List.Forall₂ RoomAnswer.Matches
      [.reply .done, .reply (.room ⟨"r", ∅⟩), .reply (.result (.error (.connectionNotFound "b"))),
        .reply (.result (.ok ())), .len (some 1), .reply .done, .room none, .count 0]
      (Grouping.empty.answers (emptiedByUnregister.map RoomRequest.op)) := by
  have hanswers : new.answers emptiedByUnregister =
      [.reply .done, .reply (.room ⟨"r", ∅⟩), .reply (.result (.error (.connectionNotFound "b"))),
        .reply (.result (.ok ())), .len (some 1), .reply .done, .room none, .count 0] := by
    decide
  have hmatch := answers_match emptiedByUnregister (by decide)
  rwa [hanswers] at hmatch

end RoomManager
end ArmatureWebsocket
