import ArmatureWebsocket.Broadcast
import ArmatureWebsocket.Guards
import ArmatureWebsocket.RoomSteps

/-! # Broadcasts and the guards of the room manager

Here the broadcasts run interleaved with the other calls of the room manager, with the calls on the
connections and with what becomes of their queues.  `HubShared` is the maps together with the cells
of all connections; a thread is in a call of the room manager, in a call on a connection, or in a
broadcast.

A broadcast is not alone, but it is not unprotected either.  A concurrent map is divided into
shards, and a reference into a shard keeps others from changing that shard:

* `rooms.get` gives a broadcast such a reference to its room, and it keeps it to its end; a leave
  and an unregistration keep theirs over `room.leave`;
* the iteration over the members goes through the shards of the room's map in order and keeps a
  reference to the one it has reached until it has a reference to the next one;
* `connections.get` gives one for the time of the `send`.

`hubGuards` says so for each point of the calls.  The division into shards is a parameter
(`Shards`), and so is the order within a shard. -/

namespace ArmatureWebsocket

open Execution CallPool

/-- How the maps are divided: the shard of each key.  Each room's map of members has a division of
its own. -/
structure Shards where
  count : ℕ
  room : RoomId → ℕ
  member : RoomArc → ConnectionId → ℕ
  connection : ConnectionId → ℕ
  member_lt : ∀ room c, member room c < count
  connection_lt : ∀ c, connection c < count

/-- The locks: the shards of the maps to which references are kept. -/
inductive HubLock where
  | rooms (shard : ℕ)
  | members (room : RoomArc) (shard : ℕ)
  | connections (shard : ℕ)
deriving DecidableEq

/-- The order in which the calls take them. -/
def HubLock.rank : HubLock → ℕ
  | .rooms _ => 0
  | .members _ _ => 1
  | .connections _ => 2

/-- The state shared by all threads. -/
structure HubShared where
  maps : RoomMaps
  cells : ℕ → ConnectionCell

/-- Those over whom a broadcast goes. -/
def BroadcastCall.reached (maps : RoomMaps) : BroadcastCall → Finset ConnectionId
  | .toRoom r => maps.liveMembers r
  | .toRoomExcept r _ => maps.liveMembers r
  | .all => maps.connections.keys

/-- A broadcast in progress: the room it found, how many shards it has reached, what is left of the
last one, and how many sends succeeded.  The code counts those whose queue took a copy; `accepted`
records them and their queues. -/
structure Broadcasting where
  call : BroadcastCall
  message : Message
  room : Option RoomArc
  shard : ℕ
  pending : List ConnectionId
  count : ℕ
  accepted : List (ConnectionId × ℕ)
deriving DecidableEq

/-- The points of the calls, each named after what comes next. -/
inductive HubPc where
  | room (pc : RoomPc)
  | connection (k : ℕ) (pc : ConnPc)
  | broadcastRooms (call : BroadcastCall) (r : RoomId) (message : Message)
  | broadcastShard (b : Broadcasting)
  | broadcastMember (b : Broadcasting) (c : ConnectionId)
  | broadcastSend (b : Broadcasting) (c : ConnectionId) (connection : Connection) (pc : ConnPc)
deriving DecidableEq

/-- How a call ended. -/
inductive HubReply where
  | room (reply : RoomReply)
  | connection (reply : ConnReply)
  | broadcast (result : WebSocketResult ℕ)
deriving DecidableEq

/-- The calls. -/
inductive HubCall where
  | room (call : RoomStart)
  | connection (k : ℕ) (call : ConnCall)
  | broadcast (call : BroadcastCall) (message : Message)

namespace Broadcasting

/-- A broadcast that has its room, if it needs one. -/
def start (call : BroadcastCall) (message : Message) (room : Option RoomArc) : Broadcasting :=
  ⟨call, message, room, 0, [], 0, []⟩

/-- The keys of the map that it iterates over. -/
def iterated (b : Broadcasting) (maps : RoomMaps) : Finset ConnectionId :=
  match b.room with
  | some room => maps.members room
  | none => maps.connections.keys

/-- The shard of a key of that map. -/
def shardOf (b : Broadcasting) (sh : Shards) (c : ConnectionId) : ℕ :=
  match b.room with
  | some room => sh.member room c
  | none => sh.connection c

/-- The keys of the next shard. -/
def entries (b : Broadcasting) (sh : Shards) (maps : RoomMaps) : Finset ConnectionId :=
  (b.iterated maps).filter fun c => b.shardOf sh c = b.shard

/-- The iteration goes on with the rest of the shard, or with the next one. -/
def next (b : Broadcasting) : HubPc :=
  match b.pending with
  | [] => .broadcastShard b
  | c :: rest => .broadcastMember { b with pending := rest } c

/-- The broadcast after a `send` on the connection of `c`. -/
def told (b : Broadcasting) (c : ConnectionId) (connection : Connection) : ConnReply → Broadcasting
  | .sent _ (.ok ()) =>
      { b with count := b.count + 1, accepted := b.accepted ++ [(c, connection.cell)] }
  | _ => b

/-- The references that a broadcast keeps between its operations. -/
def holds (b : Broadcasting) (sh : Shards) : List HubLock :=
  match b.room with
  | some room =>
      .rooms (sh.room room.id) ::
        if b.shard = 0 then [] else [.members room (b.shard - 1)]
  | none => if b.shard = 0 then [] else [.connections (b.shard - 1)]

end Broadcasting

/-- The first point of a call. -/
def HubCall.pc : HubCall → HubPc
  | .room call => .room call.pc
  | .connection k call => .connection k call.pc
  | .broadcast call message =>
      match call.room with
      | some r => .broadcastRooms call r message
      | none => .broadcastShard (.start call message none)

/-- The next operation of a call of thread `t`: the state afterwards, and the next point or the
reply.  `order` is the order in which a shard hands out its keys or a set its elements. -/
def hubStep (sh : Shards) (t : ℕ) (order : List String) (s : HubShared) :
    HubPc → Option (HubShared × (HubPc ⊕ HubReply))
  | .room pc =>
      (roomStep order s.maps pc).map fun (maps, next) =>
        ({ s with maps := maps }, next.map .room .room)
  | .connection k pc =>
      let (cell, next) := connStep (.app t) (s.cells k) pc
      some ({ s with cells := Function.update s.cells k cell },
        next.map (.connection k) .connection)
  | .broadcastRooms call r message =>
      match s.maps.rooms.lookup r with
      | none => some (s, .inr (.broadcast (.error (.roomNotFound r))))
      | some a => some (s, .inl (.broadcastShard (.start call message (some ⟨r, a⟩))))
  | .broadcastShard b =>
      if b.shard < sh.count then
        if KeyMap.Enumerates order (b.entries sh s.maps) then
          some (s, .inl { b with shard := b.shard + 1, pending := order }.next)
        else none
      else some (s, .inr (.broadcast (.ok b.count)))
  | .broadcastMember b c =>
      if b.call.except = some c then some (s, .inl b.next)
      else
        match s.maps.connections.lookup c with
        | none => some (s, .inl b.next)
        | some connection =>
            some (s, .inl (.broadcastSend b c connection (.sendCheck b.message)))
  | .broadcastSend b c connection pc =>
      let (cell, next) := connStep (.app t) (s.cells connection.cell) pc
      some ({ s with cells := Function.update s.cells connection.cell cell },
        .inl (match next with
          | .inl pc' => .broadcastSend b c connection pc'
          | .inr reply => (b.told c connection reply).next))

/-- The reference that a call of the room manager keeps at a point. -/
def RoomPc.holds (sh : Shards) : RoomPc → List HubLock
  | .unregisterLeave _ room _ => [.rooms (sh.room room.id)]
  | .leaveMembers _ room => [.rooms (sh.room room.id)]
  | _ => []

/-- The shard that an operation of the room manager changes, of the maps to which references are
kept. -/
def RoomPc.takes (sh : Shards) : RoomPc → Option HubLock
  | .registerConnections connection => some (.connections (sh.connection connection.id))
  | .unregisterLeave c room _ => some (.members room (sh.member room c))
  | .unregisterPrune _ r _ => some (.rooms (sh.room r))
  | .unregisterConnections c => some (.connections (sh.connection c))
  | .createEntry r => some (.rooms (sh.room r))
  | .deleteRooms r => some (.rooms (sh.room r))
  | .joinEntry _ r => some (.rooms (sh.room r))
  | .joinMembers c room => some (.members room (sh.member room c))
  | .leaveMembers c room => some (.members room (sh.member room c))
  | .leavePrune _ r => some (.rooms (sh.room r))
  | _ => none

/-- The references that are kept at each point, and the shard that the next operation changes. -/
def hubGuards (sh : Shards) : Guards HubPc HubLock where
  holds
    | .room pc => pc.holds sh
    | .broadcastShard b => b.holds sh
    | .broadcastMember b _ => b.holds sh
    | .broadcastSend b c _ _ => .connections (sh.connection c) :: b.holds sh
    | _ => []
  takes
    | .room pc => pc.takes sh
    | _ => none

/-- The hub with threads in the middle of calls. -/
abbrev HubPool := CallPool HubShared ℕ HubPc HubReply

/-- A thread begins a call or does its call's next operation, the writer of a connection takes a
message or is gone, and a connection's task takes its permit. -/
inductive HubAct where
  | start (t : ℕ) (call : HubCall)
  | step (t : ℕ) (order : List String)
  | recv (k : ℕ)
  | closeRx (k : ℕ)
  | evicted (k : ℕ)

namespace HubPool

/-- A new manager, with connections in any states. -/
def new (cells : ℕ → ConnectionCell) : HubPool := CallPool.quiet ⟨.new, cells⟩

/-- A pool in which a connection's cell is another one. -/
def withCell (p : HubPool) (k : ℕ) (cell : ConnectionCell) : HubPool :=
  { p with shared := { p.shared with cells := Function.update p.shared.cells k cell } }

/-- The steps of the threads, the writers and the connections' tasks. -/
def step (sh : Shards) (p : HubPool) : HubAct → Option HubPool
  | .start t call => CallPool.start p t call.pc
  | .step t order => p.advanceFree (hubGuards sh) (hubStep sh t order) t
  | .recv k =>
      (p.shared.cells k).tx.recv?.map fun (_, tx) =>
        p.withCell k { p.shared.cells k with tx := tx }
  | .closeRx k =>
      some (p.withCell k { p.shared.cells k with tx := (p.shared.cells k).tx.closeRx })
  | .evicted k =>
      if (p.shared.cells k).evict then some (p.withCell k (p.shared.cells k).evicted) else none

end HubPool

/-! ### What an operation leaves in place -/

section free

variable {sh : Shards} {s : RoomMaps} {pc : RoomPc} {r r' : RoomId} {room : RoomArc}
  {c : ConnectionId} {a : ℕ}

theorem RoomMaps.lookup_entry_of_ne (h : r ≠ r') :
    (s.entry r').1.rooms.lookup r = s.rooms.lookup r := by
  unfold RoomMaps.entry
  cases s.rooms.lookup r' with
  | some a => rfl
  | none => exact (KeyMap.lookup_insert_ite _ _ _ _).trans (if_neg h)

theorem RoomMaps.lookup_prune_of_ne (h : r ≠ r') :
    (s.prune r').rooms.lookup r = s.rooms.lookup r :=
  (KeyMap.lookup_removeIf _ _ _ _).trans (if_neg h)

theorem RoomPc.lookup_rooms_of_free (h : some (.rooms (sh.room r)) ≠ pc.takes sh) :
    (pc.after s).rooms.lookup r = s.rooms.lookup r := by
  have hne {r' : RoomId} (h' : some (HubLock.rooms (sh.room r)) ≠ some (.rooms (sh.room r'))) :
      r ≠ r' := fun he => h' (by rw [he])
  cases pc with
  | unregisterPrune c r' rest => exact RoomMaps.lookup_prune_of_ne (hne h)
  | leavePrune c r' => exact RoomMaps.lookup_prune_of_ne (hne h)
  | createEntry r' => exact RoomMaps.lookup_entry_of_ne (hne h)
  | joinEntry c r' => exact RoomMaps.lookup_entry_of_ne (hne h)
  | deleteRooms r' => exact RoomMaps.lookup_remove.trans (if_neg (hne h))
  | _ => rfl

theorem RoomMaps.mem_join_of_ne {room' : RoomArc} {d : ConnectionId}
    (h : ¬ (room = room' ∧ c = d)) : c ∈ (s.join room' d).members room ↔ c ∈ s.members room := by
  unfold RoomMaps.join
  by_cases he : room = room'
  · rw [← he]
    have hcd : c ≠ d := fun hcd => h ⟨he, hcd⟩
    simp [hcd]
  · exact iff_of_eq (congrArg (c ∈ ·) (Function.update_of_ne he _ _))

theorem RoomMaps.mem_leave_of_ne {room' : RoomArc} {d : ConnectionId}
    (h : ¬ (room = room' ∧ c = d)) : c ∈ (s.leave room' d).members room ↔ c ∈ s.members room := by
  unfold RoomMaps.leave
  by_cases he : room = room'
  · rw [← he]
    have hcd : c ≠ d := fun hcd => h ⟨he, hcd⟩
    simp [hcd]
  · exact iff_of_eq (congrArg (c ∈ ·) (Function.update_of_ne he _ _))

theorem RoomPc.mem_members_of_free (hlt : room.alloc < s.allocs)
    (h : some (.members room (sh.member room c)) ≠ pc.takes sh) :
    c ∈ (pc.after s).members room ↔ c ∈ s.members room := by
  have hne {room' : RoomArc} {d : ConnectionId}
      (h' : some (HubLock.members room (sh.member room c)) ≠
        some (.members room' (sh.member room' d))) : ¬ (room = room' ∧ c = d) := by
    rintro ⟨rfl, rfl⟩
    exact h' rfl
  cases pc with
  | unregisterLeave d room' rest => exact RoomMaps.mem_leave_of_ne (hne h)
  | leaveMembers d room' => exact RoomMaps.mem_leave_of_ne (hne h)
  | joinMembers d room' => exact RoomMaps.mem_join_of_ne (hne h)
  | createEntry r' => exact iff_of_eq (congrArg (c ∈ ·) (RoomMaps.members_entry hlt))
  | joinEntry d r' => exact iff_of_eq (congrArg (c ∈ ·) (RoomMaps.members_entry hlt))
  | _ => exact Iff.rfl

/-- Which connection is registered under an id is changed only by an operation that takes its
shard. -/
theorem RoomPc.lookup_connections_of_free
    (h : some (.connections (sh.connection c)) ≠ pc.takes sh) :
    (pc.after s).connections.lookup c = s.connections.lookup c := by
  cases pc with
  | registerConnections connection =>
      have hne : c ≠ connection.id := fun he => h (by rw [he]; rfl)
      exact (KeyMap.lookup_insert_ite _ _ _ _).trans (if_neg hne)
  | unregisterConnections d =>
      have hne : c ≠ d := fun he => h (by rw [he]; rfl)
      exact (KeyMap.lookup_erase_ite _ _ _).trans (if_neg hne)
  | createEntry r' => exact congrArg (Finmap.lookup c) RoomMaps.entry_connections
  | joinEntry d r' => exact congrArg (Finmap.lookup c) RoomMaps.entry_connections
  | _ => rfl

end free

/-! ### What a broadcast's references protect -/

/-- The place that a broadcast has reached is as it found it: its room is still stored, and what is
left of the shard are keys of that shard. -/
structure Broadcasting.Kept (b : Broadcasting) (sh : Shards) (maps : RoomMaps) : Prop where
  room_eq : b.call.room = b.room.map RoomArc.id
  stored : ∀ room ∈ b.room, maps.rooms.lookup room.id = some room.alloc
  pending : ∀ c ∈ b.pending, c ∈ b.iterated maps ∧ b.shardOf sh c + 1 = b.shard

/-- What the references that are kept at a point protect. -/
def HubPc.Kept (sh : Shards) (s : HubShared) : HubPc → Prop
  | .room _ => True
  | .connection _ _ => True
  | .broadcastRooms call r _ => call.room = some r
  | .broadcastShard b => b.Kept sh s.maps
  | .broadcastMember b c => b.Kept sh s.maps ∧ c ∈ b.iterated s.maps ∧ b.shardOf sh c + 1 = b.shard
  | .broadcastSend b c conn _ =>
      b.Kept sh s.maps ∧ (c ∈ b.iterated s.maps ∧ b.shardOf sh c + 1 = b.shard) ∧
        b.call.except ≠ some c ∧ s.maps.connections.lookup c = some conn

section kept

variable {sh : Shards} {s s' : HubShared} {maps maps' : RoomMaps} {b : Broadcasting}
  {f g f' : HubPc} {next : HubPc ⊕ HubReply} {t : ℕ} {order : List ConnectionId} {c : ConnectionId}

theorem Broadcasting.Kept.iterated_eq (h : b.Kept sh maps) :
    b.iterated maps = b.call.reached maps := by
  have hroom := h.room_eq
  unfold Broadcasting.iterated
  cases hb : b.room with
  | none =>
      rw [hb] at hroom
      cases hcall : b.call with
      | all => rfl
      | toRoom r => rw [hcall] at hroom; cases hroom
      | toRoomExcept r except => rw [hcall] at hroom; cases hroom
  | some room =>
      rw [hb] at hroom
      have hlive : maps.liveMembers room.id = maps.members room := by
        unfold RoomMaps.liveMembers
        rw [h.stored room hb]
      cases hcall : b.call with
      | all => rw [hcall] at hroom; cases hroom
      | toRoom r =>
          rw [hcall] at hroom
          obtain rfl : r = room.id := Option.some.inj hroom
          exact hlive.symm
      | toRoomExcept r except =>
          rw [hcall] at hroom
          obtain rfl : r = room.id := Option.some.inj hroom
          exact hlive.symm

/-- The operations of the room manager that change none of the shards to which a broadcast keeps
references change nothing that it relies on. -/
theorem Broadcasting.Kept.of_free {pc : RoomPc} (h : b.Kept sh maps)
    (hfree : ∀ l ∈ pc.takes sh, l ∉ b.holds sh) :
    b.Kept sh (pc.after maps) ∧
      ∀ c, c ∈ b.iterated maps ∧ b.shardOf sh c + 1 = b.shard →
        c ∈ b.iterated (pc.after maps) ∧ b.shardOf sh c + 1 = b.shard := by
  have hmem (c : ConnectionId) (hc : c ∈ b.iterated maps ∧ b.shardOf sh c + 1 = b.shard) :
      c ∈ b.iterated (pc.after maps) ∧ b.shardOf sh c + 1 = b.shard := by
    obtain ⟨hc, hshard⟩ := hc
    refine ⟨?_, hshard⟩
    have hpos : b.shard ≠ 0 := by omega
    have hbefore : b.shard - 1 = b.shardOf sh c := by omega
    unfold Broadcasting.iterated at hc ⊢
    unfold Broadcasting.holds at hfree
    unfold Broadcasting.shardOf at hbefore
    cases hb : b.room with
    | none =>
        simp only [hb] at hc hfree hbefore ⊢
        rw [if_neg hpos, hbefore] at hfree
        rw [Finmap.mem_keys, ← Finmap.lookup_isSome] at hc ⊢
        rw [RoomPc.lookup_connections_of_free]
        · exact hc
        · intro he
          exact hfree _ he.symm (List.mem_singleton_self _)
    | some room =>
        simp only [hb] at hc hfree hbefore ⊢
        rw [if_neg hpos, hbefore] at hfree
        rw [RoomPc.mem_members_of_free (maps.alloc_lt _ _ (h.stored room hb))]
        · exact hc
        · intro he
          exact hfree _ he.symm (by simp)
  refine ⟨⟨h.room_eq, fun room hroom => ?_, fun c hc => hmem c (h.pending c hc)⟩, hmem⟩
  rw [RoomPc.lookup_rooms_of_free]
  · exact h.stored room hroom
  · intro he
    refine hfree _ he.symm ?_
    unfold Broadcasting.holds
    rw [hroom]
    exact List.mem_cons_self

theorem HubPc.Kept.of_free {pc : RoomPc} (h : g.Kept sh s) (hmaps : s'.maps = pc.after s.maps)
    (hfree : ∀ l ∈ pc.takes sh, l ∉ (hubGuards sh).holds g) : g.Kept sh s' := by
  cases g with
  | room pc' => trivial
  | connection k pc' => trivial
  | broadcastRooms call r m => exact h
  | broadcastShard b =>
      show b.Kept sh s'.maps
      rw [hmaps]
      exact (Broadcasting.Kept.of_free h hfree).1
  | broadcastMember b c =>
      obtain ⟨hkept, hc⟩ := h
      obtain ⟨hkept', hall⟩ := hkept.of_free hfree
      show b.Kept sh s'.maps ∧ _
      rw [hmaps]
      exact ⟨hkept', hall c hc⟩
  | broadcastSend b c conn pc' =>
      obtain ⟨hkept, hc, hexcept, hlookup⟩ := h
      have hb : ∀ l ∈ pc.takes sh, l ∉ b.holds sh := by
        intro l hl hheld
        exact hfree l hl (List.mem_cons_of_mem _ hheld)
      obtain ⟨hkept', hall⟩ := hkept.of_free hb
      show b.Kept sh s'.maps ∧ _
      rw [hmaps]
      refine ⟨hkept', hall c hc, hexcept, ?_⟩
      rw [RoomPc.lookup_connections_of_free]
      · exact hlookup
      · intro he
        exact hfree _ he.symm List.mem_cons_self

theorem HubPc.Kept.congr (h : g.Kept sh s) (hmaps : s'.maps = s.maps) : g.Kept sh s' := by
  unfold HubPc.Kept at h ⊢
  rw [hmaps]
  exact h

theorem Broadcasting.Kept.kept_next (h : b.Kept sh s.maps) : b.next.Kept sh s := by
  have hpending := h.pending
  unfold Broadcasting.next
  cases hb : b.pending with
  | nil => exact h
  | cons c rest =>
      rw [hb] at hpending
      have hrest : ∀ d ∈ rest, d ∈ b.iterated s.maps ∧ b.shardOf sh d + 1 = b.shard := by
        intro d hd
        exact hpending d (List.mem_cons_of_mem c hd)
      exact ⟨⟨h.room_eq, h.stored, hrest⟩, hpending c List.mem_cons_self⟩

theorem Broadcasting.Kept.told {connection : Connection} {reply : ConnReply}
    (h : b.Kept sh maps) : (b.told c connection reply).Kept sh maps := by
  unfold Broadcasting.told
  split
  · exact ⟨h.room_eq, h.stored, h.pending⟩
  · exact h

theorem Broadcasting.kept_start {call : BroadcastCall} {m : Message} {room : Option RoomArc} {i : ℕ}
    (hroom : call.room = room.map RoomArc.id)
    (hstored : ∀ r ∈ room, maps.rooms.lookup r.id = some r.alloc) :
    { Broadcasting.start call m room with shard := i }.Kept sh maps where
  room_eq := hroom
  stored := hstored
  pending := fun _ hc => absurd hc List.not_mem_nil

theorem hubStep_maps (h : hubStep sh t order s f = some (s', next)) :
    s'.maps = s.maps ∨ ∃ pc, f = .room pc ∧ s'.maps = pc.after s.maps := by
  cases f with
  | room pc =>
      obtain ⟨⟨maps, next'⟩, hrun, he⟩ := Option.map_eq_some_iff.mp h
      cases he
      exact .inr ⟨pc, rfl, roomStep_maps hrun⟩
  | connection k pc =>
      cases h
      exact .inl rfl
  | broadcastRooms call r m =>
      simp only [hubStep] at h
      split at h <;> cases h <;> exact .inl rfl
  | broadcastShard b =>
      simp only [hubStep] at h
      split_ifs at h <;> cases h <;> exact .inl rfl
  | broadcastMember b c =>
      simp only [hubStep] at h
      split_ifs at h
      · cases h
        exact .inl rfl
      · split at h <;> cases h <;> exact .inl rfl
  | broadcastSend b c connection pc =>
      cases h
      exact .inl rfl

/-- The shards are taken in order. -/
theorem hubStep_broadcastShard
    (h : hubStep sh t order s (.broadcastShard b) = some (s', next)) :
    s' = s ∧ (b.shard < sh.count ∧ KeyMap.Enumerates order (b.entries sh s.maps) ∧
        next = .inl { b with shard := b.shard + 1, pending := order }.next ∨
      ¬ b.shard < sh.count ∧ next = .inr (.broadcast (.ok b.count))) := by
  simp only [hubStep] at h
  split_ifs at h with hshard horder
  · cases h
    exact ⟨rfl, .inl ⟨hshard, horder, rfl⟩⟩
  · cases h
    exact ⟨rfl, .inr ⟨hshard, rfl⟩⟩

theorem hubStep_broadcastMember
    (h : hubStep sh t order s (.broadcastMember b c) = some (s', next)) :
    s' = s ∧ ((b.call.except = some c ∨ s.maps.connections.lookup c = none) ∧ next = .inl b.next ∨
      b.call.except ≠ some c ∧ ∃ connection, s.maps.connections.lookup c = some connection ∧
        next = .inl (.broadcastSend b c connection (.sendCheck b.message))) := by
  simp only [hubStep] at h
  split_ifs at h with hexcept
  · cases h
    exact ⟨rfl, .inl ⟨.inl hexcept, rfl⟩⟩
  · cases hlookup : s.maps.connections.lookup c with
    | none =>
        rw [hlookup] at h
        cases h
        exact ⟨rfl, .inl ⟨.inr rfl, rfl⟩⟩
    | some connection =>
        rw [hlookup] at h
        cases h
        exact ⟨rfl, .inr ⟨hexcept, connection, rfl, rfl⟩⟩

theorem hubStep_broadcastSend {connection : Connection} {pc : ConnPc}
    (h : hubStep sh t order s (.broadcastSend b c connection pc) = some (s', next)) :
    s' = { s with
        cells := Function.update s.cells connection.cell
          (pc.after (.app t) (s.cells connection.cell)) } ∧
      ((∃ pc', (connStep (.app t) (s.cells connection.cell) pc).2 = .inl pc' ∧
          next = .inl (.broadcastSend b c connection pc')) ∨
        ∃ reply, (connStep (.app t) (s.cells connection.cell) pc).2 = .inr reply ∧
          next = .inl (b.told c connection reply).next) := by
  simp only [hubStep] at h
  rw [connStep_fst] at h
  cases hnext : (connStep (.app t) (s.cells connection.cell) pc).2 with
  | inl pc' =>
      rw [hnext] at h
      cases h
      exact ⟨rfl, .inl ⟨pc', rfl, rfl⟩⟩
  | inr reply =>
      rw [hnext] at h
      cases h
      exact ⟨rfl, .inr ⟨reply, rfl, rfl⟩⟩

/-- A call's own operations keep what its references protect. -/
theorem HubPc.Kept.own (h : f.Kept sh s) (hrun : hubStep sh t order s f = some (s', .inl f')) :
    f'.Kept sh s' := by
  cases f with
  | room pc =>
      obtain ⟨⟨maps, next'⟩, -, he⟩ := Option.map_eq_some_iff.mp hrun
      cases next' with
      | inl pc' => cases he; trivial
      | inr reply => cases he
  | connection k pc =>
      simp only [hubStep] at hrun
      cases hnext : (connStep (.app t) (s.cells k) pc).2 with
      | inl pc' => rw [hnext] at hrun; cases hrun; trivial
      | inr reply => rw [hnext] at hrun; cases hrun
  | broadcastRooms call r m =>
      simp only [hubStep] at hrun
      cases hlookup : s.maps.rooms.lookup r with
      | none => rw [hlookup] at hrun; cases hrun
      | some a =>
          rw [hlookup] at hrun
          cases hrun
          refine Broadcasting.kept_start h fun room hroom => ?_
          cases hroom
          exact hlookup
  | broadcastShard b =>
      obtain ⟨rfl, ⟨hshard, horder, hnext⟩ | ⟨-, hnext⟩⟩ := hubStep_broadcastShard hrun
      · cases hnext
        refine Broadcasting.Kept.kept_next ⟨h.room_eq, h.stored, fun c hc => ?_⟩
        obtain ⟨hc, he⟩ := Finset.mem_filter.mp (horder.mem_iff.mp hc)
        exact ⟨hc, congrArg (· + 1) he⟩
      · cases hnext
  | broadcastMember b c =>
      obtain ⟨hkept, hc⟩ := h
      obtain ⟨rfl, ⟨-, hnext⟩ | ⟨hexcept, connection, hlookup, hnext⟩⟩ :=
        hubStep_broadcastMember hrun
      · cases hnext
        exact hkept.kept_next
      · cases hnext
        exact ⟨hkept, hc, hexcept, hlookup⟩
  | broadcastSend b c connection pc =>
      obtain ⟨hkept, hc, hexcept, hlookup⟩ := h
      obtain ⟨rfl, ⟨pc', -, hnext⟩ | ⟨reply, -, hnext⟩⟩ := hubStep_broadcastSend hrun
      · cases hnext
        exact ⟨hkept, hc, hexcept, hlookup⟩
      · cases hnext
        have htold : (b.told c connection reply).Kept sh s.maps := hkept.told
        exact htold.kept_next

/-- An operation that waits for no reference keeps what the references of the others protect. -/
theorem HubPc.Kept.other (h : g.Kept sh s) (hrun : hubStep sh t order s f = some (s', next))
    (hfree : ∀ l ∈ (hubGuards sh).takes f, l ∉ (hubGuards sh).holds g) : g.Kept sh s' := by
  obtain hmaps | ⟨pc, rfl, hmaps⟩ := hubStep_maps hrun
  · exact h.congr hmaps
  · exact h.of_free hmaps hfree

theorem HubCall.kept_pc (call : HubCall) : call.pc.Kept sh s := by
  cases call with
  | room call => trivial
  | connection k call => trivial
  | broadcast call m =>
      cases hroom : call.room with
      | none =>
          have hpc : (HubCall.broadcast call m).pc = .broadcastShard (.start call m none) := by
            simp only [HubCall.pc, hroom]
          rw [hpc]
          exact Broadcasting.kept_start hroom fun _ hroom => by cases hroom
      | some r =>
          have hpc : (HubCall.broadcast call m).pc = .broadcastRooms call r m := by
            simp only [HubCall.pc, hroom]
          rw [hpc]
          exact hroom

end kept

namespace HubPool

variable {sh : Shards} {p p' : HubPool} {act : HubAct} {acts : List HubAct} {t : ℕ} {f : HubPc}
  {cells : ℕ → ConnectionCell}

theorem step_of_cell (hstep : p.step sh act = some p')
    (hact : ∀ t call order, act ≠ .start t call ∧ act ≠ .step t order) :
    ∃ k cell, p' = p.withCell k cell ∧ cell.tx.sent = (p.shared.cells k).tx.sent := by
  cases act with
  | start t call => exact absurd rfl (hact t call []).1
  | step t order => exact absurd rfl (hact t (.connection 0 .close) order).2
  | recv k =>
      obtain ⟨⟨x, tx⟩, hrecv, rfl⟩ := Option.map_eq_some_iff.mp hstep
      exact ⟨k, _, rfl, (BoundedQueue.recv?_some hrecv).2.2.2.2.1⟩
  | closeRx k =>
      cases hstep
      exact ⟨k, _, rfl, rfl⟩
  | evicted k =>
      simp only [HubPool.step] at hstep
      split_ifs at hstep
      cases hstep
      exact ⟨k, _, rfl, rfl⟩

theorem kept_of_exec (hrun : exec (step sh) (new cells) acts = some p)
    (hf : p.threads.lookup t = some f) : f.Kept sh p.shared := by
  have hstep (p : HubPool) (act : HubAct) (p' : HubPool)
      (h : ∀ t f, p.threads.lookup t = some f → f.Kept sh p.shared)
      (hs : p.step sh act = some p') :
      ∀ t f, p'.threads.lookup t = some f → f.Kept sh p'.shared := by
    cases act with
    | start t call =>
        obtain ⟨-, rfl⟩ := start_eq_some_iff.mp hs
        intro u g hg
        rw [lookup_begun] at hg
        split_ifs at hg with hu
        · cases hg
          exact call.kept_pc
        · exact h u g hg
    | step t order =>
        exact kept_of_advance (fun _ _ _ _ _ hrun hfree hkept => hkept.other hrun hfree)
          (fun _ _ _ _ hrun hkept => hkept.own hrun) h hs
    | recv k =>
        obtain ⟨k, cell, rfl, -⟩ := step_of_cell hs (by simp)
        exact fun u g hg => (h u g hg).congr rfl
    | closeRx k =>
        obtain ⟨k, cell, rfl, -⟩ := step_of_cell hs (by simp)
        exact fun u g hg => (h u g hg).congr rfl
    | evicted k =>
        obtain ⟨k, cell, rfl, -⟩ := step_of_cell hs (by simp)
        exact fun u g hg => (h u g hg).congr rfl
  have hnew : ∀ t f, (new cells).threads.lookup t = some f → f.Kept sh (new cells).shared := by
    intro t f hf
    rw [new, lookup_quiet] at hf
    cases hf
  exact exec_invariant (P := fun p => ∀ t f, p.threads.lookup t = some f → f.Kept sh p.shared)
    hstep hnew hrun t f hf

end HubPool

/-! ### To whom a broadcast sends -/

/-- The broadcast that a point belongs to. -/
def HubPc.broadcast : HubPc → Option BroadcastCall
  | .room _ => none
  | .connection _ _ => none
  | .broadcastRooms call _ _ => some call
  | .broadcastShard b => some b.call
  | .broadcastMember b _ => some b.call
  | .broadcastSend b _ _ _ => some b.call

namespace HubPool

/-- One shard for each map. -/
def oneShard : Shards where
  count := 1
  room := fun _ => 0
  member := fun _ _ => 0
  connection := fun _ => 0
  member_lt := fun _ _ => Nat.one_pos
  connection_lt := fun _ => Nat.one_pos

/-- **A broadcast sends to its recipients only**: in every run, whatever joins, leaves,
unregistrations and deletions go on beside it, a message that a broadcast puts into a queue goes to
the queue of a connection that at that moment is registered and in the room, and not excepted. -/
theorem broadcast_sends_to_recipients (sh : Shards) (cells : ℕ → ConnectionCell)
    (acts : List HubAct) (p p' : HubPool) (t k : ℕ) (order : List ConnectionId) (f : HubPc)
    (call : BroadcastCall) (hrun : exec (step sh) (new cells) acts = some p)
    (hf : p.threads.lookup t = some f) (hcall : f.broadcast = some call)
    (hstep : p.step sh (.step t order) = some p')
    (hsent : (p'.shared.cells k).tx.sent ≠ (p.shared.cells k).tx.sent) :
    ∃ c ∈ call.reached p.shared.maps, call.except ≠ some c ∧ ∃ connection,
      p.shared.maps.connections.lookup c = some connection ∧ connection.cell = k := by
  have hkept := kept_of_exec hrun hf
  obtain ⟨f', s, next, hf', -, hrun', rfl⟩ := advanceFree_eq_some_iff.mp hstep
  rw [hf] at hf'
  cases hf'
  rw [moved_shared] at hsent
  have hsame (he : s = p.shared) : False := hsent (by rw [he])
  cases f with
  | room pc => cases hcall
  | connection k' pc => cases hcall
  | broadcastRooms call' r m =>
      simp only [hubStep] at hrun'
      split at hrun' <;> cases hrun' <;> exact (hsame rfl).elim
  | broadcastShard b => exact (hsame (hubStep_broadcastShard hrun').1).elim
  | broadcastMember b c => exact (hsame (hubStep_broadcastMember hrun').1).elim
  | broadcastSend b c connection pc =>
      cases hcall
      obtain ⟨hb, ⟨hc, -⟩, hexcept, hlookup⟩ := hkept
      rw [hb.iterated_eq] at hc
      refine ⟨c, hc, hexcept, connection, hlookup, ?_⟩
      by_contra hne
      obtain ⟨rfl, -⟩ := hubStep_broadcastSend hrun'
      apply hsent
      exact congrArg (fun cell : ConnectionCell => cell.tx.sent)
        (Function.update_of_ne (Ne.symm hne) _ _)

/-- A room with one member, and a broadcast to it that is about to offer its message. -/
def broadcastToOne : List HubAct :=
  [.start 0 (.room (.registerConnection ⟨"a", .anonymous, 0⟩)), .step 0 [], .step 0 [],
    .start 0 (.room (.joinRoom "a" "r")), .step 0 [], .step 0 [], .step 0 [], .step 0 [],
    .start 1 (.broadcast (.toRoom "r") (.binary [1])), .step 1 [], .step 1 ["a"], .step 1 [],
    .step 1 []]

theorem broadcast_sends_to_recipients_broadcastToOne :
    ∃ p, exec (step oneShard) (new fun _ => .new 1) broadcastToOne = some p ∧
      ∃ c ∈ p.shared.maps.liveMembers "r", ∃ connection,
        p.shared.maps.connections.lookup c = some connection ∧ connection.cell = 0 := by
  obtain ⟨p, hrun, hf, p', hstep, hsent⟩ :
      ∃ p, exec (step oneShard) (new fun _ => .new 1) broadcastToOne = some p ∧
        ((p.threads.lookup 1).bind HubPc.broadcast = some (.toRoom "r") ∧
          ∃ p', p.step oneShard (.step 1 []) = some p' ∧
            (p'.shared.cells 0).tx.sent ≠ (p.shared.cells 0).tx.sent) := by decide
  obtain ⟨f, hf, hcall⟩ := Option.bind_eq_some_iff.mp hf
  obtain ⟨c, hc, -, hregistered⟩ :=
    broadcast_sends_to_recipients oneShard _ _ p p' 1 0 [] f _ hrun hf hcall hstep hsent
  exact ⟨p, hrun, c, hc, hregistered⟩

end HubPool

/-! ### No deadlock -/

section progress

variable {sh : Shards}

theorem roomStep_isSome (maps : RoomMaps) (pc : RoomPc) :
    ∃ order maps' next, roomStep order maps pc = some (maps', next) := by
  cases pc with
  | unregisterIndex c =>
      simp only [roomStep]
      cases maps.connectionRooms.lookup c with
      | none => exact ⟨[], _, _, rfl⟩
      | some rooms =>
          obtain ⟨order, horder⟩ := KeyMap.exists_enumerates rooms
          exact ⟨order, _, _, if_pos horder⟩
  | unregisterGet c r rest =>
      simp only [roomStep]
      cases maps.rooms.lookup r <;> exact ⟨[], _, _, rfl⟩
  | deleteRooms r =>
      simp only [roomStep]
      cases maps.rooms.lookup r <;> exact ⟨[], _, _, rfl⟩
  | deleteMembers room =>
      obtain ⟨order, horder⟩ := KeyMap.exists_enumerates (maps.members room)
      exact ⟨order, _, _, if_pos horder⟩
  | joinConnections c r =>
      simp only [roomStep]
      split_ifs <;> exact ⟨[], _, _, rfl⟩
  | leaveGet c r =>
      simp only [roomStep]
      cases maps.rooms.lookup r <;> exact ⟨[], _, _, rfl⟩
  | _ => exact ⟨[], _, _, rfl⟩

theorem hubStep_isSome (sh : Shards) (t : ℕ) (s : HubShared) (f : HubPc) :
    ∃ order s' next, hubStep sh t order s f = some (s', next) := by
  cases f with
  | room pc =>
      obtain ⟨order, maps, next, hrun⟩ := roomStep_isSome s.maps pc
      refine ⟨order, { s with maps := maps }, next.map .room .room, ?_⟩
      simp only [hubStep, hrun, Option.map_some]
  | connection k pc => exact ⟨[], _, _, rfl⟩
  | broadcastRooms call r m =>
      simp only [hubStep]
      cases s.maps.rooms.lookup r <;> exact ⟨[], _, _, rfl⟩
  | broadcastShard b =>
      obtain ⟨order, horder⟩ := KeyMap.exists_enumerates (b.entries sh s.maps)
      refine ⟨order, ?_⟩
      simp only [hubStep]
      rw [if_pos horder]
      split_ifs <;> exact ⟨_, _, rfl⟩
  | broadcastMember b c =>
      simp only [hubStep]
      split_ifs
      · exact ⟨[], _, _, rfl⟩
      · cases s.maps.connections.lookup c <;> exact ⟨[], _, _, rfl⟩
  | broadcastSend b c connection pc => exact ⟨[], _, _, rfl⟩

/-- References into the rooms are taken before those into a room's members, and these before those
into the connections. -/
theorem hubGuards_ordered : (hubGuards sh).Ordered HubLock.rank := by
  intro f l hl l' hl'
  cases f with
  | room pc =>
      cases pc with
      | unregisterLeave c room rest =>
          cases hl
          obtain rfl := List.mem_singleton.mp hl'
          exact Nat.zero_lt_one
      | leaveMembers c room =>
          cases hl
          obtain rfl := List.mem_singleton.mp hl'
          exact Nat.zero_lt_one
      | _ => cases hl'
  | connection k pc => cases hl
  | broadcastRooms call r m => cases hl
  | broadcastShard b => cases hl
  | broadcastMember b c => cases hl
  | broadcastSend b c connection pc => cases hl

end progress

namespace HubPool

/-- **No deadlock**: whenever some thread is in a call, there is one whose next operation waits for
nobody's reference, and that operation can be done. -/
theorem never_deadlocked (sh : Shards) (p : HubPool) (hcall : ∃ t f, p.threads.lookup t = some f) :
    ∃ t f, p.threads.lookup t = some f ∧ ¬ p.Blocked (hubGuards sh) f ∧
      ∃ order p', p.step sh (.step t order) = some p' := by
  obtain ⟨t, f, hf, hfree⟩ := exists_not_blocked hubGuards_ordered hcall
  obtain ⟨order, s, next, hrun⟩ := hubStep_isSome sh t p.shared f
  exact ⟨t, f, hf, hfree, order, _, advanceFree_eq_some_iff.mpr ⟨f, s, next, hf, hfree, hrun, rfl⟩⟩

/-- The same, with a leave that waits for the broadcast. -/
def leaveDuringBroadcast : List HubAct :=
  broadcastToOne ++ [.start 2 (.room (.leaveRoom "a" "r")), .step 2 []]

theorem never_deadlocked_leaveDuringBroadcast :
    ∃ p, exec (step oneShard) (new fun _ => .new 1) leaveDuringBroadcast = some p ∧
      p.Blocked (hubGuards oneShard) (.room (.leaveMembers "a" ⟨"r", 0⟩)) ∧
        ∃ t order p', p.step oneShard (.step t order) = some p' := by
  obtain ⟨p, hrun, hleave, hblocked⟩ :
      ∃ p, exec (step oneShard) (new fun _ => .new 1) leaveDuringBroadcast = some p ∧
        p.threads.lookup 2 = some (.room (.leaveMembers "a" ⟨"r", 0⟩)) ∧
          p.Blocked (hubGuards oneShard) (.room (.leaveMembers "a" ⟨"r", 0⟩)) := by decide
  obtain ⟨t, -, -, -, order, p', hstep⟩ := never_deadlocked oneShard p ⟨2, _, hleave⟩
  exact ⟨p, hrun, hblocked, t, order, p', hstep⟩

end HubPool
end ArmatureWebsocket
