import ArmatureWebsocket.Room
import ArmatureWebsocket.Visit

/-! # Broadcasts

`Hub` is the room manager together with the cells that its connections refer to.  The three
broadcasts go over the members of a room, the members of a room except one, or all connections, in
the order in which the map hands them out, and make a `send` on each connection they find; the count
they return is that of the sends that succeeded.

A recipient may be gone from the connections, not open, accepted, full, or without a receiver.  When
no two registered connections have the same queue, the sends do not see each other, and the
outcome is the same for every order (`broadcast_delivers`). -/

namespace ArmatureWebsocket

/-- No two registered connections have the same queue. -/
def RoomManager.DistinctQueues (m : RoomManager) : Prop :=
  ∀ c ∈ m.connections.keys, ∀ c' ∈ m.connections.keys,
    (m.connections.lookup c).map Connection.cell = (m.connections.lookup c').map Connection.cell →
      c = c'

instance (m : RoomManager) : Decidable m.DistinctQueues :=
  inferInstanceAs (Decidable (∀ c ∈ m.connections.keys, ∀ c' ∈ m.connections.keys, _ → c = c'))

/-- The room manager with the cells that its connections refer to. -/
structure Hub where
  manager : RoomManager
  cells : ℕ → ConnectionCell

/-- The broadcasts. -/
inductive BroadcastCall where
  | toRoom (r : RoomId)
  | toRoomExcept (r : RoomId) (except : ConnectionId)
  | all
deriving DecidableEq, Repr

namespace Hub

/-- A send on the connection registered under `c`, when there is one; whether it succeeded. -/
def sendTo (h : Hub) (who : Caller) (m : Message) (c : ConnectionId) : Hub × Bool :=
  match h.manager.connections.lookup c with
  | some connection =>
      let (cell, result) := (h.cells connection.cell).send who m
      ({ h with cells := Function.update h.cells connection.cell cell }, result.isOk)
  | none => (h, false)

/-- The loop of the broadcasts: send to each in turn but the excepted one, and count. -/
def sendEach (who : Caller) (m : Message) (except : Option ConnectionId) :
    Hub → List ConnectionId → Hub × ℕ
  | h, [] => (h, 0)
  | h, c :: cs =>
      if except = some c then sendEach who m except h cs
      else
        let (h', sent) := h.sendTo who m c
        let (h'', count) := sendEach who m except h' cs
        (h'', count + sent.toNat)

/-- Broadcast a message to all connections in a room. -/
def broadcastToRoom (h : Hub) (who : Caller) (r : RoomId) (m : Message)
    (order : List ConnectionId) : Hub × WebSocketResult ℕ :=
  match h.manager.rooms.lookup r with
  | none => (h, .error (.roomNotFound r))
  | some _ =>
      let (h', count) := sendEach who m none h order
      (h', .ok count)

/-- Broadcast a message to all connections in a room except one. -/
def broadcastToRoomExcept (h : Hub) (who : Caller) (r : RoomId) (m : Message)
    (except : ConnectionId) (order : List ConnectionId) : Hub × WebSocketResult ℕ :=
  match h.manager.rooms.lookup r with
  | none => (h, .error (.roomNotFound r))
  | some _ =>
      let (h', count) := sendEach who m (some except) h order
      (h', .ok count)

/-- Broadcast a message to all connections. -/
def broadcastAll (h : Hub) (who : Caller) (m : Message) (order : List ConnectionId) : Hub × ℕ :=
  sendEach who m none h order

/-- What a broadcast does and returns. -/
def broadcast (h : Hub) (who : Caller) (m : Message) :
    BroadcastCall → List ConnectionId → Hub × WebSocketResult ℕ
  | .toRoom r, order => h.broadcastToRoom who r m order
  | .toRoomExcept r except, order => h.broadcastToRoomExcept who r m except order
  | .all, order => ((h.broadcastAll who m order).1, .ok (h.broadcastAll who m order).2)

end Hub

namespace BroadcastCall

/-- The room a broadcast needs. -/
def room : BroadcastCall → Option RoomId
  | .toRoom r => some r
  | .toRoomExcept r _ => some r
  | .all => none

/-- The connection a broadcast skips. -/
def except : BroadcastCall → Option ConnectionId
  | .toRoomExcept _ except => some except
  | _ => none

/-- What a broadcast iterates over. -/
def iterated (m : RoomManager) : BroadcastCall → Finset ConnectionId
  | .toRoom r => m.membersOf r
  | .toRoomExcept r _ => m.membersOf r
  | .all => m.connections.keys

/-- Those whom a broadcast is for. -/
def recipients (m : RoomManager) : BroadcastCall → Finset ConnectionId
  | .toRoom r => m.membersOf r
  | .toRoomExcept r except => (m.membersOf r).erase except
  | .all => m.connections.keys

end BroadcastCall

/-- What a broadcast to `R` is to do: `h` is the hub before it, `h'` the one after it, and `count`
what it returns. -/
structure Hub.Delivered (h : Hub) (who : Caller) (m : Message) (R : Finset ConnectionId) (h' : Hub)
    (count : ℕ) : Prop where
  appended : ∀ c ∈ R, ∀ connection, h.manager.connections.lookup c = some connection →
    (h.cells connection.cell).state = .«open» →
    ∀ (hlen : (h.cells connection.cell).tx.queue.length < (h.cells connection.cell).tx.capacity)
      (hrx : (h.cells connection.cell).tx.rxOpen = true),
      h'.cells connection.cell =
        { h.cells connection.cell with
          tx := (h.cells connection.cell).tx.push ⟨who, .send, m⟩ hlen hrx }
  evicted : ∀ c ∈ R, ∀ connection, h.manager.connections.lookup c = some connection →
    (h.cells connection.cell).state = .«open» → (h.cells connection.cell).tx.rxOpen = true →
    (h.cells connection.cell).tx.queue.length = (h.cells connection.cell).tx.capacity →
      h'.cells connection.cell = { h.cells connection.cell with state := .closing, evict := true }
  unchanged : ∀ c connection, h.manager.connections.lookup c = some connection →
    (c ∉ R ∨ (h.cells connection.cell).state ≠ .«open» ∨
      (h.cells connection.cell).tx.rxOpen = false) →
      h'.cells connection.cell = h.cells connection.cell
  unregistered : ∀ k, (∀ c connection, h.manager.connections.lookup c = some connection →
    connection.cell ≠ k) → h'.cells k = h.cells k
  manager : h'.manager = h.manager
  count_eq : count =
    Set.ncard {k | (h.cells k).tx.queue.length < (h'.cells k).tx.queue.length}

namespace ConnectionCell

variable {who : Caller} {c : ConnectionCell} {m : Message}

theorem send_of_room (hopen : c.state = .«open») (hlen : c.tx.queue.length < c.tx.capacity)
    (hrx : c.tx.rxOpen = true) :
    c.send who m = ({ c with tx := c.tx.push ⟨who, .send, m⟩ hlen hrx }, .ok ()) := by
  have htry : c.tx.trySend ⟨who, .send, m⟩ = .ok (c.tx.push ⟨who, .send, m⟩ hlen hrx) := by
    unfold BoundedQueue.trySend
    rw [dif_pos hrx, dif_pos hlen]
  unfold send
  rw [if_pos (isOpen_iff.mpr hopen), htry]

theorem send_of_full (hopen : c.state = .«open») (hrx : c.tx.rxOpen = true)
    (hfull : c.tx.queue.length = c.tx.capacity) :
    c.send who m = (c.evictNow, .error .slowConsumer) := by
  have hlen : ¬ c.tx.queue.length < c.tx.capacity := by omega
  have htry : c.tx.trySend ⟨who, .send, m⟩ = .error .full := by
    unfold BoundedQueue.trySend
    rw [dif_pos hrx, dif_neg hlen]
  unfold send
  rw [if_pos (isOpen_iff.mpr hopen), htry]

theorem send_of_not_live (h : c.state ≠ .«open» ∨ c.tx.rxOpen = false) :
    c.send who m = (c, .error .connectionClosed) := by
  unfold send
  by_cases hopen : c.isOpen = true
  · have hrx : c.tx.rxOpen = false := h.resolve_left (not_not.mpr (isOpen_iff.mp hopen))
    have htry : c.tx.trySend ⟨who, .send, m⟩ = .error .closed :=
      BoundedQueue.trySend_closed_iff.mpr hrx
    rw [if_pos hopen, htry]
  · rw [if_neg hopen]

theorem send_isOk_iff : (c.send who m).2.isOk = true ↔
    c.tx.queue.length < (c.send who m).1.tx.queue.length := by
  by_cases hlive : c.state = .«open» ∧ c.tx.rxOpen = true
  · obtain ⟨hopen, hrx⟩ := hlive
    by_cases hlen : c.tx.queue.length < c.tx.capacity
    · rw [send_of_room hopen hlen hrx]
      simp [WebSocketResult.isOk, BoundedQueue.push]
    · have hfull : c.tx.queue.length = c.tx.capacity := by
        have hle := c.tx.length_le
        omega
      rw [send_of_full hopen hrx hfull]
      simp [WebSocketResult.isOk, evictNow]
  · have hdead : c.state ≠ .«open» ∨ c.tx.rxOpen = false := by
      rw [not_and_or, Bool.not_eq_true] at hlive
      exact hlive
    rw [send_of_not_live hdead]
    simp [WebSocketResult.isOk]

end ConnectionCell

namespace Hub

/-- The cells of those of the list that are registered and not excepted. -/
def targets (m : RoomManager) (except : Option ConnectionId) (order : List ConnectionId) : List ℕ :=
  (order.filter fun c => except ≠ some c).filterMap fun c =>
    (m.connections.lookup c).map Connection.cell

theorem mem_targets_iff {m : RoomManager} {except : Option ConnectionId} {order : List ConnectionId}
    {k : ℕ} : k ∈ targets m except order ↔ ∃ c ∈ order, except ≠ some c ∧
      ∃ connection, m.connections.lookup c = some connection ∧ connection.cell = k := by
  simp [targets, and_assoc]

/-- Nobody's queue is visited twice. -/
theorem nodup_targets {m : RoomManager} (hm : m.DistinctQueues) {except : Option ConnectionId}
    {order : List ConnectionId} (hnodup : order.Nodup) : (targets m except order).Nodup := by
  refine (hnodup.filter _).filterMap fun c c' k hk hk' => ?_
  have hmem : ∀ {c}, k ∈ (m.connections.lookup c).map Connection.cell → c ∈ m.connections.keys := by
    intro c hc
    obtain ⟨connection, hlookup, -⟩ := Option.map_eq_some_iff.mp hc
    exact Finmap.mem_keys.mpr (Finmap.mem_of_lookup_eq_some hlookup)
  exact hm c (hmem hk) c' (hmem hk') (hk.trans hk'.symm)

/-- The loop of the broadcasts visits the cells of the targets. -/
theorem sendEach_eq (who : Caller) (m : Message) (except : Option ConnectionId) (h : Hub)
    (order : List ConnectionId) :
    sendEach who m except h order =
      ({ h with
          cells := (visit (fun cell => ((cell.send who m).1, (cell.send who m).2.isOk)) h.cells
            (targets h.manager except order)).1 },
        (visit (fun cell => ((cell.send who m).1, (cell.send who m).2.isOk)) h.cells
          (targets h.manager except order)).2) := by
  induction order generalizing h with
  | nil => rfl
  | cons c cs ih =>
      rw [sendEach]
      by_cases hc : except = some c
      · rw [if_pos hc, ih]
        simp [targets, hc]
      · rw [if_neg hc]
        unfold sendTo
        cases hlookup : h.manager.connections.lookup c with
        | none =>
            have htargets : targets h.manager except (c :: cs) = targets h.manager except cs := by
              simp [targets, hc, hlookup]
            simp only [ih, htargets, Bool.toNat_false, Nat.add_zero]
        | some connection =>
            have htargets : targets h.manager except (c :: cs) =
                connection.cell :: targets h.manager except cs := by
              simp [targets, hc, hlookup]
            simp only [ih, htargets, visit]

theorem broadcast_of_no_room {h : Hub} {call : BroadcastCall} {r : RoomId} (hr : call.room = some r)
    (hnone : r ∉ h.manager.rooms) (who : Caller) (m : Message) (order : List ConnectionId) :
    h.broadcast who m call order = (h, .error (.roomNotFound r)) := by
  have hlookup : h.manager.rooms.lookup r = none := Finmap.lookup_eq_none.mpr hnone
  cases call with
  | toRoom r' =>
      obtain rfl : r' = r := Option.some.inj hr
      rw [broadcast, broadcastToRoom, hlookup]
  | toRoomExcept r' except =>
      obtain rfl : r' = r := Option.some.inj hr
      rw [broadcast, broadcastToRoomExcept, hlookup]
  | all => cases hr

theorem broadcast_of_room {h : Hub} {call : BroadcastCall}
    (hroom : ∀ r ∈ call.room, r ∈ h.manager.rooms) (who : Caller) (m : Message)
    (order : List ConnectionId) :
    h.broadcast who m call order =
      ((sendEach who m call.except h order).1, .ok (sendEach who m call.except h order).2) := by
  cases call with
  | toRoom r =>
      obtain ⟨room, hlookup⟩ := Finmap.mem_iff.mp (hroom r rfl)
      rw [broadcast, broadcastToRoom, hlookup]
      rfl
  | toRoomExcept r except =>
      obtain ⟨room, hlookup⟩ := Finmap.mem_iff.mp (hroom r rfl)
      rw [broadcast, broadcastToRoomExcept, hlookup]
      rfl
  | all => rfl

theorem mem_recipients_iff {m : RoomManager} {call : BroadcastCall} {c : ConnectionId} :
    c ∈ call.recipients m ↔ c ∈ call.iterated m ∧ call.except ≠ some c := by
  cases call with
  | toRoom r => simp [BroadcastCall.recipients, BroadcastCall.iterated, BroadcastCall.except]
  | toRoomExcept r except =>
      simp only [BroadcastCall.recipients, BroadcastCall.iterated, BroadcastCall.except,
        Finset.mem_erase, ne_eq, Option.some.injEq]
      rw [and_comm, eq_comm]
  | all => simp [BroadcastCall.recipients, BroadcastCall.iterated, BroadcastCall.except]

/-- The targets of a broadcast are the cells of its recipients. -/
theorem mem_targets_of_enumerates {m : RoomManager} {call : BroadcastCall}
    {order : List ConnectionId} (horder : KeyMap.Enumerates order (call.iterated m)) {k : ℕ} :
    k ∈ targets m call.except order ↔ ∃ c ∈ call.recipients m,
      ∃ connection, m.connections.lookup c = some connection ∧ connection.cell = k := by
  rw [mem_targets_iff]
  simp only [mem_recipients_iff, horder.mem_iff, and_assoc]

theorem eq_of_cell_eq {m : RoomManager} (hm : m.DistinctQueues) {c c' : ConnectionId}
    {connection connection' : Connection} (h : m.connections.lookup c = some connection)
    (h' : m.connections.lookup c' = some connection') (hcell : connection.cell = connection'.cell) :
    c = c' := by
  refine hm c ?_ c' ?_ ?_
  · exact Finmap.mem_keys.mpr (Finmap.mem_of_lookup_eq_some h)
  · exact Finmap.mem_keys.mpr (Finmap.mem_of_lookup_eq_some h')
  · rw [h, h', Option.map_some, Option.map_some, hcell]

theorem delivered_of_visits {h h' : Hub} {who : Caller} {m : Message} {R : Finset ConnectionId}
    {T : Set ℕ} {count : ℕ} (hd : h.manager.DistinctQueues)
    (hT : ∀ k, k ∈ T ↔ ∃ c ∈ R, ∃ connection,
      h.manager.connections.lookup c = some connection ∧ connection.cell = k)
    (hmanager : h'.manager = h.manager)
    (hsent : ∀ k ∈ T, h'.cells k = ((h.cells k).send who m).1)
    (hrest : ∀ k ∉ T, h'.cells k = h.cells k)
    (hcount : count = Set.ncard {k | k ∈ T ∧ ((h.cells k).send who m).2.isOk = true}) :
    h.Delivered who m R h' count where
  appended := fun c hc connection hlookup hopen hlen hrx => by
    rw [hsent _ ((hT _).mpr ⟨c, hc, connection, hlookup, rfl⟩),
      ConnectionCell.send_of_room hopen hlen hrx]
  evicted := fun c hc connection hlookup hopen hrx hfull => by
    rw [hsent _ ((hT _).mpr ⟨c, hc, connection, hlookup, rfl⟩),
      ConnectionCell.send_of_full hopen hrx hfull]
    rfl
  unchanged := fun c connection hlookup hcase => by
    by_cases hmem : connection.cell ∈ T
    · rw [hsent _ hmem]
      obtain ⟨c', hc', connection', hlookup', hcell⟩ := (hT _).mp hmem
      have hsame : c = c' := eq_of_cell_eq hd hlookup hlookup' hcell.symm
      rw [ConnectionCell.send_of_not_live (hcase.resolve_left (not_not.mpr (hsame ▸ hc')))]
    · exact hrest _ hmem
  unregistered := fun k hk => by
    refine hrest k fun hmem => ?_
    obtain ⟨c, -, connection, hlookup, hcell⟩ := (hT k).mp hmem
    exact hk c connection hlookup hcell
  manager := hmanager
  count_eq := by
    rw [hcount]
    congr 1
    ext k
    simp only [Set.mem_ofPred_eq]
    by_cases hmem : k ∈ T
    · rw [hsent k hmem, ← ConnectionCell.send_isOk_iff]
      simp [hmem]
    · rw [hrest k hmem]
      simp [hmem]

/-- **Broadcasts**: a broadcast to a room that is not there returns `RoomNotFound` and changes
nothing; any other does and returns the same in every order, and that is what `Delivered` says:
those of the recipients that are open with a live receiver get a copy or, when the queue is full,
are evicted, nothing else changes, and the count is the number of queues that grew. -/
theorem broadcast_delivers (h : Hub) (hd : h.manager.DistinctQueues) (who : Caller) (m : Message)
    (call : BroadcastCall) :
    (∀ r, call.room = some r → r ∉ h.manager.rooms →
      ∀ order, h.broadcast who m call order = (h, .error (.roomNotFound r))) ∧
    ((∀ r ∈ call.room, r ∈ h.manager.rooms) →
      ∃ h' count, h.Delivered who m (call.recipients h.manager) h' count ∧
        ∀ order, KeyMap.Enumerates order (call.iterated h.manager) →
          h.broadcast who m call order = (h', .ok count)) := by
  refine ⟨fun r hr hnone => broadcast_of_no_room hr hnone who m, fun hroom => ?_⟩
  obtain ⟨order₀, horder₀⟩ := KeyMap.exists_enumerates (call.iterated h.manager)
  have hnodup : (targets h.manager call.except order₀).Nodup := nodup_targets hd horder₀.1
  refine ⟨(sendEach who m call.except h order₀).1, (sendEach who m call.except h order₀).2, ?_, ?_⟩
  · rw [sendEach_eq]
    refine delivered_of_visits (T := {k | k ∈ targets h.manager call.except order₀}) hd
      (fun k => mem_targets_of_enumerates horder₀) rfl ?_ ?_ (visit_count hnodup)
    · intro k hk
      exact visit_of_mem hnodup hk
    · intro k hk
      exact visit_of_notMem hk
  · intro order horder
    have hsame : ∀ k, k ∈ targets h.manager call.except order ↔
        k ∈ targets h.manager call.except order₀ := by
      intro k
      rw [mem_targets_of_enumerates horder, mem_targets_of_enumerates horder₀]
    rw [broadcast_of_room hroom, sendEach_eq, sendEach_eq,
      visit_congr (nodup_targets hd horder.1) hnodup hsame]

/-- A room with one member whose queue has room and one whose queue is full. -/
def roomWithSlowMember : Hub where
  manager := ((((RoomManager.new.registerConnection ⟨"a", .anonymous, 0⟩).registerConnection
    ⟨"b", .anonymous, 1⟩).joinRoom "a" "r").1.joinRoom "b" "r").1
  cells := fun k => if k = 0 then .new 1 else ((ConnectionCell.new 1).send .task (.binary [])).1

theorem broadcast_delivers_roomWithSlowMember :
    ∃ h' count, roomWithSlowMember.broadcast .task .close (.toRoom "r") ["a", "b"] =
        (h', .ok count) ∧
      (h'.cells 0).tx.queue = [⟨.task, .send, .close⟩] ∧ (h'.cells 1).state = .closing := by
  obtain ⟨h', count, hdelivered, hall⟩ :=
    (broadcast_delivers roomWithSlowMember (by decide) .task .close (.toRoom "r")).2 (by decide)
  refine ⟨h', count, hall ["a", "b"] (by decide), ?_, ?_⟩
  · have happended := hdelivered.appended "a" (by decide) ⟨"a", .anonymous, 0⟩ (by decide)
      (by decide) (by decide) (by decide)
    exact congrArg (fun cell : ConnectionCell => cell.tx.queue) happended
  · have hevicted := hdelivered.evicted "b" (by decide) ⟨"b", .anonymous, 1⟩ (by decide)
      (by decide) (by decide) (by decide)
    exact congrArg (fun cell : ConnectionCell => cell.state) hevicted

end Hub
end ArmatureWebsocket
