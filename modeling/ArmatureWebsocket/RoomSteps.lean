import ArmatureWebsocket.CallPool
import ArmatureWebsocket.Room

/-! # The room manager, one map operation at a time

Calls of several threads interleave between their map operations.  This module cuts every call of
`Room` into those operations, each atomic: a per-key operation of a map, a `remove_if`, the
snapshot of a room's members.

* A room is shared by reference, so it can outlive its entry in the room map: `RoomArc` names an
  allocation, `RoomMaps.members` holds the members of every room ever allocated, and
  `RoomMaps.rooms` says which allocation is stored under an id.
* `RoomPc` is the point a call has reached, named after the operation that comes next, and
  `roomStep` performs that operation.  The read guard that `rooms.get` returns is not modelled:
  other calls may move between `rooms.get` and `room.leave`, which only adds interleavings.
* `RoomPool` is the manager with any number of threads in the middle of calls.

The threads are of any type.  An operation that takes a set out of the maps is given the order in
which the set hands out its elements. -/

namespace ArmatureWebsocket

/-- A reference to a room: the id it was created for and its allocation. -/
@[ext]
structure RoomArc where
  id : RoomId
  alloc : ℕ
deriving DecidableEq, Repr

/-- The state shared by all threads: the three maps and the rooms they refer to.  Allocations are
numbered in order, and only allocated rooms are stored. -/
structure RoomMaps where
  rooms : KeyMap RoomId ℕ
  members : RoomArc → Finset ConnectionId
  allocs : ℕ
  connectionRooms : KeyMap ConnectionId (Finset RoomId)
  connections : KeyMap ConnectionId Connection
  alloc_lt : ∀ r a, rooms.lookup r = some a → a < allocs

namespace RoomMaps

/-- The maps of a new manager. -/
def new : RoomMaps := ⟨∅, fun _ => ∅, 0, ∅, ∅, fun r a h => by simp at h⟩

/-- `rooms.entry(r).or_insert_with(..)`: the stored room, or a new one. -/
def entry (s : RoomMaps) (r : RoomId) : RoomMaps × RoomArc :=
  match s.rooms.lookup r with
  | some a => (s, ⟨r, a⟩)
  | none =>
      ({ s with
          rooms := s.rooms.insert r s.allocs
          members := Function.update s.members ⟨r, s.allocs⟩ ∅
          allocs := s.allocs + 1
          alloc_lt := fun r' a h => by
            rw [KeyMap.lookup_insert_ite] at h
            split_ifs at h
            · cases h
              exact Nat.lt_succ_self _
            · exact (s.alloc_lt r' a h).trans (Nat.lt_succ_self _) }, ⟨r, s.allocs⟩)

/-- `room.join(c)`, through a reference. -/
def join (s : RoomMaps) (room : RoomArc) (c : ConnectionId) : RoomMaps :=
  { s with members := Function.update s.members room (insert c (s.members room)) }

/-- `room.leave(c)`, through a reference. -/
def leave (s : RoomMaps) (room : RoomArc) (c : ConnectionId) : RoomMaps :=
  { s with members := Function.update s.members room ((s.members room).erase c) }

/-- `rooms.remove_if(r, |_, room| room.is_empty())`. -/
def prune (s : RoomMaps) (r : RoomId) : RoomMaps :=
  { s with
    rooms := s.rooms.removeIf r fun a => decide (s.members ⟨r, a⟩ = ∅)
    alloc_lt := fun r' a h => by
      rw [KeyMap.lookup_removeIf] at h
      split_ifs at h
      · exact s.alloc_lt r' a (Option.filter_eq_some_iff.mp h).1
      · exact s.alloc_lt r' a h }

/-- `rooms.remove(r)`. -/
def remove (s : RoomMaps) (r : RoomId) : RoomMaps :=
  { s with
    rooms := s.rooms.erase r
    alloc_lt := fun r' a h => by
      rw [KeyMap.lookup_erase_ite] at h
      split_ifs at h
      exact s.alloc_lt r' a h }

/-- The members of the room stored under `r`; none when there is no such room. -/
def liveMembers (s : RoomMaps) (r : RoomId) : Finset ConnectionId :=
  match s.rooms.lookup r with
  | some a => s.members ⟨r, a⟩
  | none => ∅

/-- The connections that `broadcast_to_room` sends to. -/
def broadcastTargets (s : RoomMaps) (r : RoomId) : WebSocketResult (Finset ConnectionId) :=
  match s.rooms.lookup r with
  | some a => .ok ((s.members ⟨r, a⟩).filter (· ∈ s.connections))
  | none => .error (.roomNotFound r)

/-- The rooms the index lists for `c`; none when `c` has no entry. -/
def index (s : RoomMaps) (c : ConnectionId) : Finset RoomId :=
  (s.connectionRooms.lookup c).getD ∅

/-- Rooms and index agree, and the two connection maps have the same keys. -/
structure Indexed (s : RoomMaps) : Prop where
  member_iff : ∀ c r, c ∈ s.liveMembers r ↔ r ∈ s.index c
  same_keys : ∀ c, c ∈ s.connections ↔ c ∈ s.connectionRooms

end RoomMaps

/-- What a call is about, without its order of iteration. -/
inductive RoomOp where
  | register (c : ConnectionId)
  | unregister (c : ConnectionId)
  | create (r : RoomId)
  | delete (r : RoomId)
  | join (c : ConnectionId) (r : RoomId)
  | leave (c : ConnectionId) (r : RoomId)
deriving DecidableEq, Repr

/-- The points of the calls, each named after the map operation that comes next. -/
inductive RoomPc where
  | registerConnections (connection : Connection)
  | registerIndex (c : ConnectionId)
  | unregisterIndex (c : ConnectionId)
  | unregisterGet (c : ConnectionId) (r : RoomId) (rest : List RoomId)
  | unregisterLeave (c : ConnectionId) (room : RoomArc) (rest : List RoomId)
  | unregisterPrune (c : ConnectionId) (r : RoomId) (rest : List RoomId)
  | unregisterConnections (c : ConnectionId)
  | createEntry (r : RoomId)
  | deleteRooms (r : RoomId)
  | deleteMembers (room : RoomArc)
  | deleteIndex (r : RoomId) (c : ConnectionId) (rest : List ConnectionId)
  | joinConnections (c : ConnectionId) (r : RoomId)
  | joinEntry (c : ConnectionId) (r : RoomId)
  | joinMembers (c : ConnectionId) (room : RoomArc)
  | joinIndex (c : ConnectionId) (r : RoomId)
  | leaveGet (c : ConnectionId) (r : RoomId)
  | leaveMembers (c : ConnectionId) (room : RoomArc)
  | leaveIndex (c : ConnectionId) (r : RoomId)
  | leavePrune (c : ConnectionId) (r : RoomId)
deriving DecidableEq

/-- The call that a point belongs to. -/
def RoomPc.op : RoomPc → RoomOp
  | .registerConnections connection => .register connection.id
  | .registerIndex c => .register c
  | .unregisterIndex c => .unregister c
  | .unregisterGet c _ _ => .unregister c
  | .unregisterLeave c _ _ => .unregister c
  | .unregisterPrune c _ _ => .unregister c
  | .unregisterConnections c => .unregister c
  | .createEntry r => .create r
  | .deleteRooms r => .delete r
  | .deleteMembers room => .delete room.id
  | .deleteIndex r _ _ => .delete r
  | .joinConnections c r => .join c r
  | .joinEntry c r => .join c r
  | .joinMembers c room => .join c room.id
  | .joinIndex c r => .join c r
  | .leaveGet c r => .leave c r
  | .leaveMembers c room => .leave c room.id
  | .leaveIndex c r => .leave c r
  | .leavePrune c r => .leave c r

/-- A call as a thread begins it. -/
inductive RoomStart where
  | registerConnection (connection : Connection)
  | unregisterConnection (c : ConnectionId)
  | createRoom (r : RoomId)
  | deleteRoom (r : RoomId)
  | joinRoom (c : ConnectionId) (r : RoomId)
  | leaveRoom (c : ConnectionId) (r : RoomId)

/-- The first point of a call. -/
def RoomStart.pc : RoomStart → RoomPc
  | .registerConnection connection => .registerConnections connection
  | .unregisterConnection c => .unregisterIndex c
  | .createRoom r => .createEntry r
  | .deleteRoom r => .deleteRooms r
  | .joinRoom c r => .joinConnections c r
  | .leaveRoom c r => .leaveGet c r

/-- The loop head of `unregister_connection`. -/
def unregisterNext (c : ConnectionId) : List RoomId → RoomPc
  | [] => .unregisterConnections c
  | r :: rest => .unregisterGet c r rest

/-- The loop head of `delete_room`. -/
def deleteNext (r : RoomId) : List ConnectionId → RoomPc ⊕ RoomReply
  | [] => .inr (.existed true)
  | c :: rest => .inl (.deleteIndex r c rest)

/-- The next operation of a call: the maps afterwards, and the next point or the reply.  `order` is
the order in which a set taken out of the maps hands out its elements. -/
def roomStep (order : List String) (s : RoomMaps) :
    RoomPc → Option (RoomMaps × (RoomPc ⊕ RoomReply))
  | .registerConnections connection =>
      some ({ s with connections := s.connections.insert connection.id connection },
        .inl (.registerIndex connection.id))
  | .registerIndex c =>
      some ({ s with connectionRooms := s.connectionRooms.insert c ∅ }, .inr .done)
  | .unregisterIndex c =>
      match s.connectionRooms.lookup c with
      | none => some (s, .inl (.unregisterConnections c))
      | some rooms =>
          if KeyMap.Enumerates order rooms then
            some ({ s with connectionRooms := s.connectionRooms.erase c },
              .inl (unregisterNext c order))
          else none
  | .unregisterGet c r rest =>
      match s.rooms.lookup r with
      | some a => some (s, .inl (.unregisterLeave c ⟨r, a⟩ rest))
      | none => some (s, .inl (.unregisterPrune c r rest))
  | .unregisterLeave c room rest => some (s.leave room c, .inl (.unregisterPrune c room.id rest))
  | .unregisterPrune c r rest => some (s.prune r, .inl (unregisterNext c rest))
  | .unregisterConnections c =>
      some ({ s with connections := s.connections.erase c }, .inr .done)
  | .createEntry r =>
      some ((s.entry r).1, .inr (.room ⟨r, (s.entry r).1.members (s.entry r).2⟩))
  | .deleteRooms r =>
      match s.rooms.lookup r with
      | some a => some (s.remove r, .inl (.deleteMembers ⟨r, a⟩))
      | none => some (s, .inr (.existed false))
  | .deleteMembers room =>
      if KeyMap.Enumerates order (s.members room) then some (s, deleteNext room.id order) else none
  | .deleteIndex r c rest =>
      some ({ s with connectionRooms := s.connectionRooms.modify c (·.erase r) },
        deleteNext r rest)
  | .joinConnections c r =>
      if c ∈ s.connections then some (s, .inl (.joinEntry c r))
      else some (s, .inr (.result (.error (.connectionNotFound c))))
  | .joinEntry c r => some ((s.entry r).1, .inl (.joinMembers c (s.entry r).2))
  | .joinMembers c room => some (s.join room c, .inl (.joinIndex c room.id))
  | .joinIndex c r =>
      some ({ s with connectionRooms := s.connectionRooms.modify c (insert r) },
        .inr (.result (.ok ())))
  | .leaveGet c r =>
      match s.rooms.lookup r with
      | some a => some (s, .inl (.leaveMembers c ⟨r, a⟩))
      | none => some (s, .inl (.leaveIndex c r))
  | .leaveMembers c room => some (s.leave room c, .inl (.leaveIndex c room.id))
  | .leaveIndex c r =>
      some ({ s with connectionRooms := s.connectionRooms.modify c (·.erase r) },
        .inl (.leavePrune c r))
  | .leavePrune _ r => some (s.prune r, .inr (.result (.ok ())))

/-- The manager with threads in the middle of calls. -/
abbrev RoomPool (τ : Type := ℕ) := CallPool RoomMaps τ RoomPc RoomReply

/-- A thread that is not in a call begins one, or a thread does its call's next operation. -/
inductive RoomAct (τ : Type := ℕ) where
  | start (t : τ) (call : RoomStart)
  | step (t : τ) (order : List String)

namespace RoomPool

variable {τ : Type} [DecidableEq τ]

/-- A manager in the given state, with no call in progress. -/
abbrev quiet (maps : RoomMaps) : RoomPool τ := CallPool.quiet maps

/-- A new manager. -/
def new : RoomPool τ := quiet .new

/-- Some thread is in a call about `op`. -/
def Runs (p : RoomPool τ) (op : RoomOp) : Prop := p.AnyAt fun pc => pc.op = op

/-- A call about `op` has returned. -/
def Returned (p : RoomPool τ) (op : RoomOp) : Prop := ∃ e ∈ p.log, e.frame.op = op

/-- A join of `c` and `r` has returned successfully. -/
def Joined (p : RoomPool τ) (c : ConnectionId) (r : RoomId) : Prop :=
  ∃ e ∈ p.log, e.frame.op = .join c r ∧ e.reply = .result (.ok ())

instance (p : RoomPool τ) (op : RoomOp) : Decidable (p.Runs op) :=
  inferInstanceAs (Decidable (p.AnyAt _))

instance (p : RoomPool τ) (op : RoomOp) : Decidable (p.Returned op) :=
  inferInstanceAs (Decidable (∃ e ∈ p.log, e.frame.op = op))

instance (p : RoomPool τ) (c : ConnectionId) (r : RoomId) : Decidable (p.Joined c r) :=
  inferInstanceAs (Decidable (∃ e ∈ p.log, e.frame.op = .join c r ∧ e.reply = .result (.ok ())))

/-- The threads' steps. -/
def step (p : RoomPool τ) : RoomAct τ → Option (RoomPool τ)
  | .start t call => p.start t call.pc
  | .step t order => p.advance (roomStep order) t

end RoomPool

/-! ### What an operation does -/

namespace RoomMaps

section parts

variable {s : RoomMaps} {c d : ConnectionId} {r r' : RoomId} {a : ℕ} {room : RoomArc}

theorem mem_liveMembers_iff :
    c ∈ s.liveMembers r ↔ ∃ a, s.rooms.lookup r = some a ∧ c ∈ s.members ⟨r, a⟩ := by
  unfold liveMembers
  cases s.rooms.lookup r <;> simp

theorem index_eq_empty (h : c ∉ s.connectionRooms) : s.index c = ∅ := by
  unfold index
  rw [Finmap.lookup_eq_none.mpr h]
  rfl

theorem lookup_remove :
    (s.remove r).rooms.lookup r' = if r' = r then none else s.rooms.lookup r' :=
  KeyMap.lookup_erase_ite _ _ _

theorem remove_eq_self (h : s.rooms.lookup r = none) : s.remove r = s := by
  unfold remove
  simp only [KeyMap.erase_eq_self h]

theorem mem_index_unindex :
    r ∈ RoomMaps.index { s with connectionRooms := s.connectionRooms.modify d (·.erase r') } c ↔
      r ∈ s.index c ∧ ¬ (c = d ∧ r = r') := by
  simp only [index, KeyMap.lookup_modify]
  split_ifs with h
  · cases s.connectionRooms.lookup c <;> simp [h, and_comm]
  · simp [h]

theorem mem_index_insert :
    r ∈ RoomMaps.index { s with connectionRooms := s.connectionRooms.modify d (insert r') } c ↔
      r ∈ s.index c ∨ c = d ∧ r = r' ∧ c ∈ s.connectionRooms := by
  simp only [index, KeyMap.lookup_modify, ← Finmap.lookup_isSome]
  split_ifs with h
  · cases s.connectionRooms.lookup c <;> simp [h, or_comm]
  · simp [h]

@[simp] theorem entry_connectionRooms : (s.entry r).1.connectionRooms = s.connectionRooms := by
  unfold entry
  cases s.rooms.lookup r <;> rfl

@[simp] theorem entry_connections : (s.entry r).1.connections = s.connections := by
  unfold entry
  cases s.rooms.lookup r <;> rfl

@[simp] theorem entry_id : (s.entry r).2.id = r := by
  unfold entry
  cases s.rooms.lookup r <;> rfl

/-- The room that `entry` answers is the one stored under the id afterwards. -/
theorem lookup_entry_self : (s.entry r).1.rooms.lookup r = some (s.entry r).2.alloc := by
  unfold entry
  cases h : s.rooms.lookup r <;> simp [h]

theorem lookup_entry_of_some (h : s.rooms.lookup r' = some a) :
    (s.entry r).1.rooms.lookup r' = some a := by
  unfold entry
  cases hr : s.rooms.lookup r with
  | some b => exact h
  | none =>
      have hne : r' ≠ r := by rintro rfl; rw [hr] at h; cases h
      simp [hne, h]

/-- Creating a room leaves the rooms allocated before as they are. -/
theorem members_entry (h : room.alloc < s.allocs) :
    (s.entry r).1.members room = s.members room := by
  have hne : room ≠ ⟨r, s.allocs⟩ := by
    rintro rfl
    exact lt_irrefl _ h
  unfold entry
  cases s.rooms.lookup r with
  | some a => rfl
  | none => exact Function.update_of_ne hne _ _

@[simp] theorem liveMembers_entry : (s.entry r).1.liveMembers r' = s.liveMembers r' := by
  unfold liveMembers entry
  cases hr : s.rooms.lookup r with
  | some b => rfl
  | none =>
      by_cases h : r' = r
      · subst h
        simp [hr]
      · cases hr' : s.rooms.lookup r' <;> simp [h, hr', Function.update_of_ne]

theorem mem_liveMembers_join :
    c ∈ (s.join room d).liveMembers r ↔
      c ∈ s.liveMembers r ∨ c = d ∧ room.id = r ∧ s.rooms.lookup r = some room.alloc := by
  simp only [mem_liveMembers_iff, join]
  obtain ⟨i, b⟩ := room
  constructor
  · rintro ⟨a, ha, hm⟩
    by_cases he : (⟨r, a⟩ : RoomArc) = ⟨i, b⟩
    · obtain ⟨rfl, rfl⟩ := RoomArc.mk.inj he
      rw [Function.update_self] at hm
      obtain hc | hc := Finset.mem_insert.mp hm
      · exact .inr ⟨hc, rfl, ha⟩
      · exact .inl ⟨a, ha, hc⟩
    · rw [Function.update_of_ne he] at hm
      exact .inl ⟨a, ha, hm⟩
  · rintro (⟨a, ha, hm⟩ | ⟨rfl, rfl, ha⟩)
    · refine ⟨a, ha, ?_⟩
      by_cases he : (⟨r, a⟩ : RoomArc) = ⟨i, b⟩
      · rw [← he, Function.update_self]
        exact Finset.mem_insert_of_mem hm
      · rw [Function.update_of_ne he]
        exact hm
    · exact ⟨b, ha, by simp⟩

theorem mem_liveMembers_leave :
    c ∈ (s.leave room d).liveMembers r ↔
      c ∈ s.liveMembers r ∧ ¬ (c = d ∧ room.id = r ∧ s.rooms.lookup r = some room.alloc) := by
  simp only [mem_liveMembers_iff, leave]
  obtain ⟨i, b⟩ := room
  constructor
  · rintro ⟨a, ha, hm⟩
    by_cases he : (⟨r, a⟩ : RoomArc) = ⟨i, b⟩
    · obtain ⟨rfl, rfl⟩ := RoomArc.mk.inj he
      rw [Function.update_self, Finset.mem_erase] at hm
      exact ⟨⟨a, ha, hm.2⟩, fun h => hm.1 h.1⟩
    · rw [Function.update_of_ne he] at hm
      refine ⟨⟨a, ha, hm⟩, ?_⟩
      rintro ⟨-, rfl, hb⟩
      rw [ha] at hb
      exact he (by rw [Option.some.inj hb])
  · rintro ⟨⟨a, ha, hm⟩, hn⟩
    refine ⟨a, ha, ?_⟩
    by_cases he : (⟨r, a⟩ : RoomArc) = ⟨i, b⟩
    · obtain ⟨rfl, rfl⟩ := RoomArc.mk.inj he
      rw [Function.update_self, Finset.mem_erase]
      exact ⟨fun h => hn ⟨h, rfl, ha⟩, hm⟩
    · rw [Function.update_of_ne he]
      exact hm

@[simp] theorem liveMembers_prune : (s.prune r).liveMembers r' = s.liveMembers r' := by
  unfold liveMembers prune
  rw [KeyMap.lookup_removeIf]
  by_cases h : r' = r
  · subst h
    cases s.rooms.lookup r' with
    | none => simp
    | some a => by_cases he : s.members ⟨r', a⟩ = ∅ <;> simp [Option.filter, he]
  · simp only [h, if_false]

theorem lookup_prune_eq (h : (s.prune r).rooms.lookup r' = some a) :
    s.rooms.lookup r' = some a := by
  unfold prune at h
  rw [KeyMap.lookup_removeIf] at h
  split_ifs at h with hr
  · exact (Option.filter_eq_some_iff.mp h).1
  · exact h

end parts

end RoomMaps

/-- What the operation at a point does to the maps. -/
def RoomPc.after (s : RoomMaps) : RoomPc → RoomMaps
  | .registerConnections connection =>
      { s with connections := s.connections.insert connection.id connection }
  | .registerIndex c => { s with connectionRooms := s.connectionRooms.insert c ∅ }
  | .unregisterIndex c => { s with connectionRooms := s.connectionRooms.erase c }
  | .unregisterGet _ _ _ => s
  | .unregisterLeave c room _ => s.leave room c
  | .unregisterPrune _ r _ => s.prune r
  | .unregisterConnections c => { s with connections := s.connections.erase c }
  | .createEntry r => (s.entry r).1
  | .deleteRooms r => s.remove r
  | .deleteMembers _ => s
  | .deleteIndex r c _ => { s with connectionRooms := s.connectionRooms.modify c (·.erase r) }
  | .joinConnections _ _ => s
  | .joinEntry _ r => (s.entry r).1
  | .joinMembers c room => s.join room c
  | .joinIndex c r => { s with connectionRooms := s.connectionRooms.modify c (insert r) }
  | .leaveGet _ _ => s
  | .leaveMembers c room => s.leave room c
  | .leaveIndex c r => { s with connectionRooms := s.connectionRooms.modify c (·.erase r) }
  | .leavePrune _ r => s.prune r

section steps

variable {order : List String} {s s' : RoomMaps} {pc pc' : RoomPc} {next : RoomPc ⊕ RoomReply}
  {c : ConnectionId} {r : RoomId} {a : ℕ}

theorem unregisterNext_op (c : ConnectionId) (rest : List RoomId) :
    (unregisterNext c rest).op = .unregister c := by
  cases rest <;> rfl

/-- The maps after an operation. -/
theorem roomStep_maps (h : roomStep order s pc = some (s', next)) : s' = pc.after s := by
  cases pc with
  | unregisterIndex c =>
      simp only [roomStep] at h
      cases hc : s.connectionRooms.lookup c with
      | none =>
          rw [hc] at h
          cases h
          rw [RoomPc.after, KeyMap.erase_eq_self hc]
      | some rooms =>
          simp only [hc] at h
          split_ifs at h
          cases h
          rfl
  | unregisterGet c r rest =>
      simp only [roomStep] at h
      split at h <;> cases h <;> rfl
  | deleteRooms r =>
      simp only [roomStep] at h
      cases hr : s.rooms.lookup r with
      | none =>
          rw [hr] at h
          cases h
          rw [RoomPc.after, RoomMaps.remove_eq_self hr]
      | some a =>
          rw [hr] at h
          cases h
          rfl
  | deleteMembers room =>
      simp only [roomStep] at h
      split_ifs at h
      cases h
      rfl
  | joinConnections c r =>
      simp only [roomStep] at h
      split_ifs at h <;> cases h <;> rfl
  | leaveGet c r =>
      simp only [roomStep] at h
      split at h <;> cases h <;> rfl
  | _ =>
      cases h
      rfl

/-- A call goes on with points of its own. -/
theorem roomStep_op (h : roomStep order s pc = some (s', .inl pc')) : pc'.op = pc.op := by
  cases pc with
  | unregisterIndex c =>
      simp only [roomStep] at h
      split at h
      · cases h
        rfl
      · split_ifs at h
        cases h
        exact unregisterNext_op c order
  | unregisterGet c r rest =>
      simp only [roomStep] at h
      split at h <;> cases h <;> rfl
  | unregisterPrune c r rest =>
      cases h
      exact unregisterNext_op c rest
  | deleteRooms r =>
      simp only [roomStep] at h
      split at h <;> cases h
      rfl
  | deleteMembers room =>
      simp only [roomStep] at h
      split_ifs at h
      cases order with
      | nil => cases h
      | cons c rest =>
          cases h
          rfl
  | deleteIndex r c rest =>
      simp only [roomStep] at h
      cases rest with
      | nil => cases h
      | cons c rest =>
          cases h
          rfl
  | joinConnections c r =>
      simp only [roomStep] at h
      split_ifs at h
      · cases h
        rfl
      · cases h
  | joinEntry c r =>
      cases h
      simp [RoomPc.op]
  | leaveGet c r =>
      simp only [roomStep] at h
      split at h <;> cases h <;> rfl
  | registerIndex c => cases h
  | unregisterConnections c => cases h
  | createEntry r => cases h
  | joinIndex c r => cases h
  | leavePrune c r => cases h
  | _ =>
      cases h
      rfl

/-- The points of a registration. -/
theorem register_cases (h : pc.op = .register c) :
    (∃ connection, pc = .registerConnections connection ∧ connection.id = c) ∨
      pc = .registerIndex c := by
  cases pc with
  | registerConnections connection => cases h; exact .inl ⟨connection, rfl, rfl⟩
  | registerIndex d => cases h; exact .inr rfl
  | _ => cases h

theorem registerConnections_of_roomStep {connection : Connection} :
    roomStep order s pc ≠ some (s', .inl (.registerConnections connection)) := by
  intro h
  obtain ⟨made, rfl, -⟩ | rfl := register_cases (roomStep_op h).symm
  · cases h
  · cases h

/-- An unregistration that returns has done its last operation. -/
theorem unregisterConnections_of_reply {reply : RoomReply}
    (h : roomStep order s pc = some (s', .inr reply)) (ho : pc.op = .unregister c) :
    pc = .unregisterConnections c := by
  cases pc with
  | unregisterConnections d => cases ho; rfl
  | unregisterIndex d =>
      simp only [roomStep] at h
      split at h
      · cases h
      · split_ifs at h
        cases h
  | unregisterGet d r rest =>
      simp only [roomStep] at h
      split at h <;> cases h
  | unregisterLeave d room rest => cases h
  | unregisterPrune d r rest => cases h
  | _ => cases ho

/-- The points of a join. -/
theorem join_cases (h : pc.op = .join c r) :
    pc = .joinConnections c r ∨ pc = .joinEntry c r ∨ (∃ a, pc = .joinMembers c ⟨r, a⟩) ∨
      pc = .joinIndex c r := by
  cases pc with
  | joinConnections d r' => cases h; exact .inl rfl
  | joinEntry d r' => cases h; exact .inr (.inl rfl)
  | joinMembers d room => cases h; exact .inr (.inr (.inl ⟨room.alloc, rfl⟩))
  | joinIndex d r' => cases h; exact .inr (.inr (.inr rfl))
  | _ => cases h

/-- The points of a deletion. -/
theorem delete_cases (h : pc.op = .delete r) :
    pc = .deleteRooms r ∨ (∃ a, pc = .deleteMembers ⟨r, a⟩) ∨
      ∃ c rest, pc = .deleteIndex r c rest := by
  cases pc with
  | deleteRooms r' => cases h; exact .inl rfl
  | deleteMembers room => cases h; exact .inr (.inl ⟨room.alloc, rfl⟩)
  | deleteIndex r' c rest => cases h; exact .inr (.inr ⟨c, rest, rfl⟩)
  | _ => cases h

theorem joinMembers_of_roomStep
    (h : roomStep order s pc = some (s', .inl (.joinMembers c ⟨r, a⟩))) :
    s'.rooms.lookup r = some a := by
  obtain rfl | rfl | ⟨b, rfl⟩ | rfl := join_cases (roomStep_op h).symm
  · simp only [roomStep] at h
    split_ifs at h <;> simp at h
  · simp only [roomStep, Option.some.injEq, Prod.mk.injEq, Sum.inl.injEq,
      RoomPc.joinMembers.injEq, true_and] at h
    obtain ⟨rfl, harc⟩ := h
    rw [RoomMaps.lookup_entry_self, harc]
  · cases h
  · cases h

theorem joinIndex_of_roomStep (h : roomStep order s pc = some (s', .inl (.joinIndex c r))) :
    ∃ a, pc = .joinMembers c ⟨r, a⟩ := by
  obtain rfl | rfl | ⟨b, rfl⟩ | rfl := join_cases (roomStep_op h).symm
  · simp only [roomStep] at h
    split_ifs at h <;> simp at h
  · cases h
  · exact ⟨b, rfl⟩
  · cases h

theorem joined_of_roomStep (h : roomStep order s pc = some (s', .inr (.result (.ok ()))))
    (ho : pc.op = .join c r) : pc = .joinIndex c r := by
  obtain rfl | rfl | ⟨b, rfl⟩ | rfl := join_cases ho
  · simp only [roomStep] at h
    split_ifs at h <;> simp at h
  · cases h
  · cases h
  · rfl

theorem lookup_rooms_after (pc : RoomPc) (h : s.rooms.lookup r = some a) :
    (pc.after s).rooms.lookup r = some a ∨ (pc.after s).rooms.lookup r = none := by
  have hprune (r' : RoomId) :
      (s.prune r').rooms.lookup r = some a ∨ (s.prune r').rooms.lookup r = none := by
    cases hr : (s.prune r').rooms.lookup r with
    | none => exact .inr rfl
    | some b => rw [RoomMaps.lookup_prune_eq hr] at h; exact .inl h
  cases pc with
  | unregisterPrune c r' rest => exact hprune r'
  | leavePrune c r' => exact hprune r'
  | createEntry r' => exact .inl (RoomMaps.lookup_entry_of_some h)
  | joinEntry c r' => exact .inl (RoomMaps.lookup_entry_of_some h)
  | deleteRooms r' =>
      rw [RoomPc.after, RoomMaps.lookup_remove]
      split_ifs
      · exact .inr rfl
      · exact .inl h
  | _ => exact .inl h

theorem mem_liveMembers_after (h : c ∈ (pc.after s).liveMembers r) :
    c ∈ s.liveMembers r ∨
      ∃ a, pc = .joinMembers c ⟨r, a⟩ ∧ s.rooms.lookup r = some a := by
  cases pc with
  | unregisterLeave d room rest => exact .inl (RoomMaps.mem_liveMembers_leave.mp h).1
  | leaveMembers d room => exact .inl (RoomMaps.mem_liveMembers_leave.mp h).1
  | unregisterPrune d r' rest => exact .inl (by simpa [RoomPc.after] using h)
  | leavePrune d r' => exact .inl (by simpa [RoomPc.after] using h)
  | createEntry r' => exact .inl (by simpa [RoomPc.after] using h)
  | joinEntry d r' => exact .inl (by simpa [RoomPc.after] using h)
  | deleteRooms r' =>
      obtain ⟨a, ha, hm⟩ := RoomMaps.mem_liveMembers_iff.mp h
      rw [RoomPc.after, RoomMaps.lookup_remove] at ha
      split_ifs at ha
      exact .inl (RoomMaps.mem_liveMembers_iff.mpr ⟨a, ha, hm⟩)
  | joinMembers d room =>
      obtain h | ⟨rfl, rfl, ha⟩ := RoomMaps.mem_liveMembers_join.mp h
      · exact .inl h
      · exact .inr ⟨room.alloc, rfl, ha⟩
  | _ => exact .inl h

theorem mem_liveMembers_of_after (pc : RoomPc) (h : c ∈ s.liveMembers r) :
    c ∈ (pc.after s).liveMembers r ∨
      (∃ a rest, pc = .unregisterLeave c ⟨r, a⟩ rest) ∨ (∃ a, pc = .leaveMembers c ⟨r, a⟩) ∨
      pc = .deleteRooms r := by
  cases pc with
  | unregisterLeave d room rest =>
      by_cases hd : c = d ∧ room.id = r ∧ s.rooms.lookup r = some room.alloc
      · obtain ⟨rfl, rfl, -⟩ := hd
        exact .inr (.inl ⟨room.alloc, rest, rfl⟩)
      · exact .inl (RoomMaps.mem_liveMembers_leave.mpr ⟨h, hd⟩)
  | leaveMembers d room =>
      by_cases hd : c = d ∧ room.id = r ∧ s.rooms.lookup r = some room.alloc
      · obtain ⟨rfl, rfl, -⟩ := hd
        exact .inr (.inr (.inl ⟨room.alloc, rfl⟩))
      · exact .inl (RoomMaps.mem_liveMembers_leave.mpr ⟨h, hd⟩)
  | unregisterPrune d r' rest => exact .inl (by simpa [RoomPc.after] using h)
  | leavePrune d r' => exact .inl (by simpa [RoomPc.after] using h)
  | createEntry r' => exact .inl (by simpa [RoomPc.after] using h)
  | joinEntry d r' => exact .inl (by simpa [RoomPc.after] using h)
  | deleteRooms r' =>
      by_cases hr : r = r'
      · subst hr
        exact .inr (.inr (.inr rfl))
      · obtain ⟨a, ha, hm⟩ := RoomMaps.mem_liveMembers_iff.mp h
        refine .inl (RoomMaps.mem_liveMembers_iff.mpr ⟨a, ?_, hm⟩)
        rw [RoomPc.after, RoomMaps.lookup_remove, if_neg hr]
        exact ha
  | joinMembers d room => exact .inl (RoomMaps.mem_liveMembers_join.mpr (.inl h))
  | _ => exact .inl h

theorem mem_index_after (h : r ∈ (pc.after s).index c) :
    r ∈ s.index c ∨ pc = .joinIndex c r ∧ c ∈ s.connectionRooms := by
  cases pc with
  | registerIndex d =>
      simp only [RoomPc.after, RoomMaps.index, KeyMap.lookup_insert_ite] at h
      split_ifs at h with hd
      · cases h
      · exact .inl h
  | unregisterIndex d =>
      simp only [RoomPc.after, RoomMaps.index, KeyMap.lookup_erase_ite] at h
      split_ifs at h with hd
      · cases h
      · exact .inl h
  | deleteIndex r' d rest => exact .inl (RoomMaps.mem_index_unindex.mp h).1
  | leaveIndex d r' => exact .inl (RoomMaps.mem_index_unindex.mp h).1
  | joinIndex d r' =>
      obtain h | ⟨rfl, rfl, hc⟩ := RoomMaps.mem_index_insert.mp h
      · exact .inl h
      · exact .inr ⟨rfl, hc⟩
  | createEntry r' => exact .inl (by simpa [RoomMaps.index, RoomPc.after] using h)
  | joinEntry d r' => exact .inl (by simpa [RoomMaps.index, RoomPc.after] using h)
  | _ => exact .inl h

theorem mem_index_of_after (pc : RoomPc) (h : r ∈ s.index c) :
    r ∈ (pc.after s).index c ∨ pc = .registerIndex c ∨ pc = .unregisterIndex c ∨
      pc = .leaveIndex c r ∨ ∃ rest, pc = .deleteIndex r c rest := by
  cases pc with
  | registerIndex d =>
      by_cases hd : c = d
      · subst hd
        exact .inr (.inl rfl)
      · exact .inl (by simpa [RoomMaps.index, RoomPc.after, hd] using h)
  | unregisterIndex d =>
      by_cases hd : c = d
      · subst hd
        exact .inr (.inr (.inl rfl))
      · exact .inl (by simpa [RoomMaps.index, RoomPc.after, hd] using h)
  | deleteIndex r' d rest =>
      by_cases hd : c = d ∧ r = r'
      · obtain ⟨rfl, rfl⟩ := hd
        exact .inr (.inr (.inr (.inr ⟨rest, rfl⟩)))
      · exact .inl (RoomMaps.mem_index_unindex.mpr ⟨h, hd⟩)
  | leaveIndex d r' =>
      by_cases hd : c = d ∧ r = r'
      · obtain ⟨rfl, rfl⟩ := hd
        exact .inr (.inr (.inr (.inl rfl)))
      · exact .inl (RoomMaps.mem_index_unindex.mpr ⟨h, hd⟩)
  | joinIndex d r' => exact .inl (RoomMaps.mem_index_insert.mpr (.inl h))
  | createEntry r' => exact .inl (by simpa [RoomMaps.index, RoomPc.after] using h)
  | joinEntry d r' => exact .inl (by simpa [RoomMaps.index, RoomPc.after] using h)
  | _ => exact .inl h

/-- Index entries appear only by a registration. -/
theorem mem_connectionRooms_after (h : c ∈ (pc.after s).connectionRooms) :
    c ∈ s.connectionRooms ∨ pc = .registerIndex c := by
  cases pc with
  | registerIndex d =>
      obtain rfl | h := Finmap.mem_insert.mp h
      · exact .inr rfl
      · exact .inl h
  | unregisterIndex d => exact .inl (Finmap.mem_erase.mp h).2
  | deleteIndex r' d rest => exact .inl (KeyMap.mem_modify.mp h)
  | leaveIndex d r' => exact .inl (KeyMap.mem_modify.mp h)
  | joinIndex d r' => exact .inl (KeyMap.mem_modify.mp h)
  | createEntry r' => exact .inl (RoomMaps.entry_connectionRooms ▸ h)
  | joinEntry d r' => exact .inl (RoomMaps.entry_connectionRooms ▸ h)
  | _ => exact .inl h

theorem mem_connectionRooms_of_after (pc : RoomPc) (h : c ∈ s.connectionRooms) :
    c ∈ (pc.after s).connectionRooms ∨ pc = .unregisterIndex c := by
  cases pc with
  | registerIndex d => exact .inl (Finmap.mem_insert.mpr (.inr h))
  | unregisterIndex d =>
      by_cases hd : c = d
      · subst hd
        exact .inr rfl
      · exact .inl (Finmap.mem_erase.mpr ⟨hd, h⟩)
  | deleteIndex r' d rest => exact .inl (KeyMap.mem_modify.mpr h)
  | leaveIndex d r' => exact .inl (KeyMap.mem_modify.mpr h)
  | joinIndex d r' => exact .inl (KeyMap.mem_modify.mpr h)
  | createEntry r' => exact .inl (RoomMaps.entry_connectionRooms.symm ▸ h)
  | joinEntry d r' => exact .inl (RoomMaps.entry_connectionRooms.symm ▸ h)
  | _ => exact .inl h

theorem lookup_connections_after {connection : Connection}
    (h : (pc.after s).connections.lookup c = some connection) :
    s.connections.lookup c = some connection ∨
      pc = .registerConnections connection ∧ connection.id = c := by
  cases pc with
  | registerConnections made =>
      change Finmap.lookup c (Finmap.insert _ _ _) = _ at h
      rw [KeyMap.lookup_insert_ite] at h
      split_ifs at h with hc
      · cases h
        exact .inr ⟨rfl, hc.symm⟩
      · exact .inl h
  | unregisterConnections d =>
      change Finmap.lookup c (Finmap.erase _ _) = _ at h
      rw [KeyMap.lookup_erase_ite] at h
      split_ifs at h
      exact .inl h
  | createEntry r' => exact .inl (RoomMaps.entry_connections ▸ h)
  | joinEntry d r' => exact .inl (RoomMaps.entry_connections ▸ h)
  | _ => exact .inl h

theorem mem_connections_of_after (pc : RoomPc) (h : c ∈ s.connections) :
    c ∈ (pc.after s).connections ∨ pc = .unregisterConnections c := by
  cases pc with
  | registerConnections connection => exact .inl (Finmap.mem_insert.mpr (.inr h))
  | unregisterConnections d =>
      by_cases hd : c = d
      · subst hd
        exact .inr rfl
      · exact .inl (Finmap.mem_erase.mpr ⟨hd, h⟩)
  | createEntry r' => exact .inl (RoomMaps.entry_connections.symm ▸ h)
  | joinEntry d r' => exact .inl (RoomMaps.entry_connections.symm ▸ h)
  | _ => exact .inl h

end steps

/-! ### The steps of the pool -/

open CallPool

namespace RoomPool

variable {τ : Type} [DecidableEq τ]

/-- The pool after thread `t` began a call. -/
abbrev begun (p : RoomPool τ) (t : τ) (call : RoomStart) : RoomPool τ :=
  CallPool.begun p t call.pc

/-- The pool after the operation of thread `t` at `pc`: in the middle of the call, or past it. -/
abbrev moved (p : RoomPool τ) (t : τ) (pc : RoomPc) (next : RoomPc ⊕ RoomReply) : RoomPool τ :=
  CallPool.moved p t pc (pc.after p.shared) next

/-- What a step of the pool is: a start, or an operation of a call. -/
theorem step_cases {p p' : RoomPool τ} {act : RoomAct τ} (h : p.step act = some p') :
    (∃ t call, act = .start t call ∧ p.threads.lookup t = none ∧ p' = p.begun t call) ∨
    (∃ t order pc next, act = .step t order ∧ p.threads.lookup t = some pc ∧
      roomStep order p.shared pc = some (pc.after p.shared, next) ∧ p' = p.moved t pc next) := by
  cases act with
  | start t call =>
      obtain ⟨ht, rfl⟩ := start_eq_some_iff.mp h
      exact .inl ⟨t, call, rfl, ht, rfl⟩
  | step t order =>
      obtain ⟨pc, maps, next, hpc, hs, rfl⟩ := advance_eq_some_iff.mp h
      obtain rfl := roomStep_maps hs
      exact .inr ⟨t, order, pc, next, rfl, hpc, hs, rfl⟩

section log

variable {p : RoomPool τ} {t : τ} {pc : RoomPc} {next : RoomPc ⊕ RoomReply}

theorem returned_moved {op : RoomOp} :
    (p.moved t pc next).Returned op ↔
      p.Returned op ∨ pc.op = op ∧ ∃ reply, next = .inr reply := by
  unfold Returned
  simp only [mem_log_moved]
  constructor
  · rintro ⟨e, he | ⟨reply, hn, rfl⟩, rfl⟩
    · exact .inl ⟨e, he, rfl⟩
    · exact .inr ⟨rfl, reply, hn⟩
  · rintro (⟨e, he, rfl⟩ | ⟨rfl, reply, hn⟩)
    · exact ⟨e, .inl he, rfl⟩
    · exact ⟨⟨t, pc, reply⟩, .inr ⟨reply, hn, rfl⟩, rfl⟩

theorem joined_of_moved {c : ConnectionId} {r : RoomId}
    (h : (p.moved t pc next).Joined c r) :
    p.Joined c r ∨ pc.op = .join c r ∧ next = .inr (.result (.ok ())) := by
  obtain ⟨e, he, hop, hreply⟩ := h
  obtain he | ⟨reply, rfl, rfl⟩ := mem_log_moved.mp he
  · exact .inl ⟨e, he, hop, hreply⟩
  · exact .inr ⟨hop, by rw [← hreply]⟩

end log

end RoomPool
end ArmatureWebsocket
