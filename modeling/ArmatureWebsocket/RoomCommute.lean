import ArmatureWebsocket.Interleaving
import ArmatureWebsocket.RoomRefinement

/-! # Connections do not get in each other's way

Registering, unregistering, joining and leaving are done in the name of one connection.  Different
connections share rooms: one creates the room that the other empties, and a room that was created
without members goes when anybody leaves it.  Still their operations commute.

What an operation does is determined by the part of its connection: whether it is registered, and
the rooms that the index lists for it.  As to the rest, the rooms without members, it can only take
rooms out of it, whatever that rest is (`view_run`).  Rooms and index agree, so the parts and the
rest are all there is (`alike_of_view`).

So two operations of different connections have the same results and effects in either order, and
the end of a history of operations depends only on each connection's own order of operations
(`operations_commute`). -/

namespace ArmatureWebsocket

open Interleaving

/-- What is done in the name of one connection. -/
inductive ConnectionOp where
  | register (connection : Connection)
  | unregister (c : ConnectionId)
  | join (c : ConnectionId) (r : RoomId)
  | leave (c : ConnectionId) (r : RoomId)
deriving DecidableEq

/-- The connection in whose name it is done. -/
def ConnectionOp.owner : ConnectionOp → ConnectionId
  | .register connection => connection.id
  | .unregister c => c
  | .join c _ => c
  | .leave c _ => c

/-- The operation that a call is; the calls about a room alone are in nobody's name. -/
def RoomCall.connectionOp : RoomCall → Option ConnectionOp
  | .registerConnection connection => some (.register connection)
  | .unregisterConnection c _ => some (.unregister c)
  | .createRoom _ => none
  | .deleteRoom _ _ => none
  | .joinRoom c r => some (.join c r)
  | .leaveRoom c r => some (.leave c r)

/-- The operation is no registration of a registered connection. -/
def ConnectionOp.Allowed (m : RoomManager) : ConnectionOp → Prop
  | .register connection => connection.id ∉ m.connections
  | _ => True

/-- What the manager holds of a connection: the connection, if it is registered, and the rooms it
is in. -/
abbrev ConnectionPart := Option Connection × Finset RoomId

/-- What an operation makes of the part of its connection and what it returns, and the rooms that
have a member or are gone afterwards. -/
def ConnectionOp.act : ConnectionOp → ConnectionPart →
    Option (ConnectionPart × RoomReply × Set RoomId)
  | .register connection, (none, _) => some ((some connection, ∅), .done, ∅)
  | .register _, (some _, _) => none
  | .unregister _, _ => some ((none, ∅), .done, ∅)
  | .join c _, (none, rooms) =>
      some ((none, rooms), .result (.error (.connectionNotFound c)), ∅)
  | .join _ r, (some connection, rooms) =>
      some ((some connection, insert r rooms), .result (.ok ()), {r})
  | .leave _ r, (registered, rooms) =>
      some ((registered, rooms.erase r), .result (.ok ()), {r})

namespace RoomManager

/-- The operations in order, each by a call that is ready, with what they return. -/
inductive Performs : RoomManager → List ConnectionOp → RoomManager →
    List (ConnectionOp × RoomReply) → Prop where
  | nil (m : RoomManager) : Performs m [] m []
  | cons {m m' : RoomManager} {call : RoomCall} {op : ConnectionOp} {ops : List ConnectionOp}
      {replies : List (ConnectionOp × RoomReply)} (hop : call.connectionOp = some op)
      (hready : call.Ready m) (hallowed : op.Allowed m)
      (hrest : Performs (m.run call).1 ops m' replies) :
      Performs m (op :: ops) m' ((op, (m.run call).2) :: replies)

/-- The same rooms with the same members, the same index and the same connections. -/
structure Alike (m m' : RoomManager) : Prop where
  rooms : ∀ r, (m.rooms.lookup r).map Room.members = (m'.rooms.lookup r).map Room.members
  connectionRooms : m.connectionRooms = m'.connectionRooms
  connections : m.connections = m'.connections

/-- What the manager holds of a connection. -/
def part (m : RoomManager) (c : ConnectionId) : ConnectionPart :=
  (m.connections.lookup c, m.roomsOf c)

/-- The rooms without members. -/
def bare (m : RoomManager) : Set RoomId := {r | r ∈ m.rooms ∧ m.membersOf r = ∅}

/-- What the manager holds of each connection, and the rooms without members. -/
def view (m : RoomManager) : (ConnectionId → ConnectionPart) × Set RoomId := (m.part, m.bare)

/-- The operations on what the manager holds. -/
noncomputable def viewStep :=
  partStep ConnectionOp.owner ConnectionOp.act fun (bare touched : Set RoomId) => bare \ touched

theorem commutes_viewStep : Commutes viewStep ConnectionOp.owner :=
  commutes_partStep fun bare t t' => sdiff_right_comm bare t t'

theorem viewStep_view {m m' : RoomManager} {op : ConnectionOp} {reply : RoomReply}
    (p : ConnectionPart) (touched : Set RoomId)
    (hact : op.act (m.part op.owner) = some (p, reply, touched))
    (hpart : ∀ c, m'.part c = if c = op.owner then p else m.part c)
    (hbare : ∀ r, r ∈ m'.bare ↔ r ∈ m.bare ∧ r ∉ touched) :
    viewStep m.view op = some (m'.view, reply) := by
  apply partStep_eq_some_iff.mpr
  refine ⟨p, touched, hact, Prod.ext ?_ (Set.ext hbare)⟩
  funext c
  show m'.part c = Function.update m.part op.owner p c
  rw [hpart, Function.update_apply]

/-! ### A call is the operation on what the manager holds -/

section run

variable {m : RoomManager}

theorem view_registerConnection {connection : Connection} (hfresh : connection.id ∉ m.connections) :
    viewStep m.view (.register connection) =
      some ((m.registerConnection connection).view, .done) := by
  refine viewStep_view (some connection, ∅) ∅ ?_ ?_ ?_
  · show ConnectionOp.act _ (m.connections.lookup connection.id, _) = _
    rw [Finmap.lookup_eq_none.mpr hfresh]
    rfl
  · intro c
    show ((m.connections.insert connection.id connection).lookup c,
      (m.registerConnection connection).roomsOf c) = if c = connection.id then _ else _
    rw [roomsOf_registerConnection, KeyMap.lookup_insert_ite]
    split_ifs <;> rfl
  · intro r
    exact (and_iff_left (Set.notMem_empty r)).symm

theorem view_unregisterConnection (h : m.Indexed) (c : ConnectionId) {order : List RoomId}
    (horder : KeyMap.Enumerates order (m.roomsOf c)) :
    viewStep m.view (.unregister c) = some ((m.unregisterConnection c order).view, .done) := by
  refine viewStep_view (none, ∅) ∅ rfl ?_ ?_
  · intro c'
    have hconnections : (m.unregisterConnection c order).connections = m.connections.erase c :=
      m.connections_run (.unregisterConnection c order)
    show (_, _) = if c' = c then _ else _
    rw [roomsOf_unregisterConnection, hconnections, KeyMap.lookup_erase_ite]
    split_ifs <;> rfl
  · intro r
    refine Iff.trans ?_ (and_iff_left (Set.notMem_empty r)).symm
    exact Set.ext_iff.mp (congrArg Grouping.bare (grouping_unregisterConnection h c horder)) r

theorem view_joinRoom (h : m.Indexed) (c : ConnectionId) (r : RoomId) :
    viewStep m.view (.join c r) = some ((m.joinRoom c r).1.view, .result (m.joinRoom c r).2) := by
  have hconnections : (m.joinRoom c r).1.connections = m.connections :=
    m.connections_run (.joinRoom c r)
  by_cases hc : c ∈ m.connections
  · obtain ⟨connection, hlookup⟩ := Option.isSome_iff_exists.mp (Finmap.lookup_isSome.mpr hc)
    have hreply : (m.joinRoom c r).2 = .ok () := by
      unfold joinRoom
      rw [if_neg (not_not.mpr hc)]
    rw [hreply]
    refine viewStep_view (some connection, insert r (m.roomsOf c)) {r} ?_ ?_ ?_
    · show ConnectionOp.act _ (m.connections.lookup c, _) = _
      rw [hlookup]
      rfl
    · intro c'
      show (_, _) = if c' = c then _ else _
      rw [roomsOf_joinRoom, hconnections]
      by_cases he : c' = c
      · subst he
        rw [if_pos ⟨hc, rfl, (h.same_keys c').mp hc⟩, if_pos rfl, hlookup]
      · rw [if_neg (fun hand => he hand.2.1), if_neg he]
        rfl
    · intro r'
      show r' ∈ (m.joinRoom c r).1.rooms ∧ _ ↔ (r' ∈ m.rooms ∧ _) ∧ r' ≠ r
      rw [mem_rooms_joinRoom, membersOf_joinRoom]
      by_cases hr : r' = r <;> simp [hr, hc]
  · have hjoin : m.joinRoom c r = (m, .error (.connectionNotFound c)) := by
      unfold joinRoom
      rw [if_pos hc]
    rw [hjoin]
    refine viewStep_view (m.part c) ∅ ?_ ?_ ?_
    · show ConnectionOp.act _ (m.connections.lookup c, _) = some ((m.connections.lookup c, _), _)
      rw [Finmap.lookup_eq_none.mpr hc]
      rfl
    · intro c'
      show m.part c' = if c' = c then _ else _
      split_ifs with he
      · rw [he]
      · rfl
    · intro r'
      exact (and_iff_left (Set.notMem_empty r')).symm

theorem view_leaveRoom (c : ConnectionId) (r : RoomId) :
    viewStep m.view (.leave c r) = some ((m.leaveRoom c r).1.view, .result (.ok ())) := by
  refine viewStep_view (m.connections.lookup c, (m.roomsOf c).erase r) {r} rfl ?_ ?_
  · intro c'
    show (m.connections.lookup c', _) = if c' = c then _ else _
    rw [roomsOf_leaveRoom]
    split_ifs with he
    · rw [he]
    · rfl
  · intro r'
    show r' ∈ (m.leaveRoom c r).1.rooms ∧ _ ↔ (r' ∈ m.rooms ∧ _) ∧ r' ≠ r
    rw [mem_rooms_leaveRoom, membersOf_leaveRoom]
    by_cases hr : r' = r
    · subst hr
      refine iff_of_false (fun hbare => hbare.1.2 ⟨rfl, by simpa using hbare.2⟩) fun hne => ?_
      exact hne.2 rfl
    · simp [hr]

theorem view_run (h : m.Indexed) {call : RoomCall} {op : ConnectionOp}
    (hop : call.connectionOp = some op) (hready : call.Ready m) (hallowed : op.Allowed m) :
    viewStep m.view op = some ((m.run call).1.view, (m.run call).2) := by
  cases call with
  | registerConnection connection =>
      cases hop
      exact view_registerConnection hallowed
  | unregisterConnection c order =>
      cases hop
      exact view_unregisterConnection h c hready
  | createRoom r => cases hop
  | deleteRoom r order => cases hop
  | joinRoom c r =>
      cases hop
      exact view_joinRoom h c r
  | leaveRoom c r =>
      cases hop
      exact view_leaveRoom c r

theorem exists_call (m : RoomManager) (op : ConnectionOp) :
    ∃ call : RoomCall, call.connectionOp = some op ∧ call.Ready m := by
  cases op with
  | register connection => exact ⟨.registerConnection connection, rfl, trivial⟩
  | unregister c =>
      obtain ⟨order, horder⟩ := KeyMap.exists_enumerates (m.roomsOf c)
      exact ⟨.unregisterConnection c order, rfl, horder⟩
  | join c r => exact ⟨.joinRoom c r, rfl, trivial⟩
  | leave c r => exact ⟨.leaveRoom c r, rfl, trivial⟩

theorem allowed_iff (h : m.Indexed) {op : ConnectionOp} :
    op.Allowed m ↔ ∃ v x, viewStep m.view op = some (v, x) := by
  constructor
  · intro hallowed
    obtain ⟨call, hop, hready⟩ := exists_call m op
    exact ⟨_, _, view_run h hop hready hallowed⟩
  · rintro ⟨v, x, hstep⟩
    obtain ⟨p, t, hact, -⟩ := partStep_eq_some_iff.mp hstep
    cases op with
    | register connection =>
        apply Finmap.lookup_eq_none.mp
        have hact' : ConnectionOp.act (.register connection)
            (m.connections.lookup connection.id, m.roomsOf connection.id) = some (p, x, t) := hact
        cases hlookup : m.connections.lookup connection.id with
        | none => rfl
        | some old =>
            rw [hlookup] at hact'
            cases hact'
    | _ => trivial

theorem freshRegistration_of_allowed {call : RoomCall} {op : ConnectionOp}
    (hop : call.connectionOp = some op) (hallowed : op.Allowed m) : call.FreshRegistration m := by
  cases call with
  | registerConnection connection =>
      cases hop
      exact hallowed
  | _ => trivial

end run

/-! ### Histories of operations -/

section histories

variable {m m' : RoomManager}

/-- Performing operations replays them on what the manager holds. -/
theorem Performs.replay {ops : List ConnectionOp} {xs : List (ConnectionOp × RoomReply)}
    (hperforms : m.Performs ops m' xs) (h : m.Indexed) :
    Interleaving.replay viewStep m.view ops = some (m'.view, xs) ∧ m'.Indexed ∧
      (m.Keyed → m'.Keyed) := by
  induction hperforms with
  | nil m => exact ⟨rfl, h, id⟩
  | cons hop hready hallowed _ ih =>
      have hfresh := freshRegistration_of_allowed hop hallowed
      obtain ⟨hreplay, hindexed, hkeyed⟩ := ih (h.run hready hfresh)
      refine ⟨?_, hindexed, fun hk => hkeyed (hk.run _)⟩
      exact replay_cons_iff.mpr ⟨_, _, _, view_run h hop hready hallowed, hreplay, rfl⟩

theorem exists_performs (h : m.Indexed) {ops : List ConnectionOp}
    {v : (ConnectionId → ConnectionPart) × Set RoomId} {xs : List (ConnectionOp × RoomReply)}
    (hreplay : replay viewStep m.view ops = some (v, xs)) : ∃ m', m.Performs ops m' xs := by
  induction ops generalizing m xs with
  | nil =>
      cases hreplay
      exact ⟨m, .nil m⟩
  | cons op ops ih =>
      obtain ⟨v₁, x, ys, hstep, hrest, rfl⟩ := replay_cons_iff.mp hreplay
      have hallowed : op.Allowed m := (allowed_iff h).mpr ⟨v₁, x, hstep⟩
      obtain ⟨call, hop, hready⟩ := exists_call m op
      rw [view_run h hop hready hallowed] at hstep
      obtain ⟨rfl, rfl⟩ := Prod.mk.inj (Option.some.inj hstep)
      obtain ⟨m', hperforms⟩ :=
        ih (h.run hready (freshRegistration_of_allowed hop hallowed)) hrest
      exact ⟨m', .cons hop hready hallowed hperforms⟩

/-- Which rooms there are, and with which members, can be read off who is where and which rooms are
bare. -/
theorem members_lookup_iff (m : RoomManager) (r : RoomId) (members : Finset ConnectionId) :
    (m.rooms.lookup r).map Room.members = some members ↔
      m.membersOf r = members ∧ (members = ∅ → r ∈ m.bare) := by
  have hbare : r ∈ m.bare ↔ r ∈ m.rooms ∧ m.membersOf r = ∅ := Iff.rfl
  rw [hbare, mem_rooms_iff]
  unfold membersOf
  cases m.rooms.lookup r with
  | none => simp [eq_comm]
  | some room =>
      simp only [Option.map_some, Option.getD_some, Option.some.injEq, exists_eq', true_and]
      refine ⟨fun he => ⟨he, fun hempty => he.trans hempty⟩, And.left⟩

theorem alike_of_view (h : m.Indexed) (h' : m'.Indexed) (hview : m.view = m'.view) :
    m.Alike m' := by
  have hpart : ∀ c, m.part c = m'.part c := fun c => congrFun (congrArg Prod.fst hview) c
  have hrooms : ∀ c, m.roomsOf c = m'.roomsOf c := fun c => congrArg Prod.snd (hpart c)
  have hconnections : m.connections = m'.connections :=
    Finmap.ext_lookup fun c => congrArg Prod.fst (hpart c)
  have hmembers : ∀ r, m.membersOf r = m'.membersOf r := by
    intro r
    ext c
    rw [h.member_iff, h'.member_iff, hrooms]
  have hbare : m.bare = m'.bare := congrArg Prod.snd hview
  refine ⟨fun r => ?_, Finmap.ext_lookup fun c => ?_, hconnections⟩
  · ext members
    rw [members_lookup_iff, members_lookup_iff, hmembers, hbare]
  · have hkeys : c ∈ m.connectionRooms ↔ c ∈ m'.connectionRooms := by
      rw [← h.same_keys, ← h'.same_keys, hconnections]
    have hroomsOf := hrooms c
    rw [← Finmap.lookup_isSome, ← Finmap.lookup_isSome] at hkeys
    unfold roomsOf at hroomsOf
    cases hlookup : m.connectionRooms.lookup c with
    | none =>
        cases hlookup' : m'.connectionRooms.lookup c with
        | none => rfl
        | some rooms => simp [hlookup, hlookup'] at hkeys
    | some rooms =>
        cases hlookup' : m'.connectionRooms.lookup c with
        | none => simp [hlookup, hlookup'] at hkeys
        | some rooms' =>
            rw [hlookup, hlookup'] at hroomsOf
            exact congrArg some hroomsOf

theorem Alike.eq (halike : m.Alike m') (hkeyed : m.Keyed) (hkeyed' : m'.Keyed) : m = m' := by
  have hrooms : m.rooms = m'.rooms := by
    refine Finmap.ext_lookup fun r => ?_
    have hr := halike.rooms r
    cases hlookup : m.rooms.lookup r with
    | none =>
        rw [hlookup] at hr
        exact (Option.map_eq_none_iff.mp hr.symm).symm
    | some room =>
        rw [hlookup] at hr
        obtain ⟨room', hlookup', hmembers⟩ := Option.map_eq_some_iff.mp hr.symm
        have hid : room.id = r := hkeyed r room hlookup
        have hid' : room'.id = r := hkeyed' r room' hlookup'
        rw [hlookup']
        cases room
        cases room'
        simp_all
  have hindex := halike.connectionRooms
  have hconnections := halike.connections
  cases m
  cases m'
  simp only at hrooms hindex hconnections
  rw [hrooms, hindex, hconnections]

/-- Two histories in which every connection's operations stand in the same order: the second can be
performed when the first can, with the same results for every connection and the same end. -/
theorem Performs.reordered (h : m.Indexed) {as bs : List ConnectionOp}
    (hsame : ∀ c, as.filter (fun a => a.owner = c) = bs.filter fun b => b.owner = c)
    {xs : List (ConnectionOp × RoomReply)} (hperforms : m.Performs as m' xs) :
    (∃ m₂ ys, m.Performs bs m₂ ys) ∧ ∀ m₂ ys, m.Performs bs m₂ ys →
      (∀ c, answersOf ConnectionOp.owner c ys = answersOf ConnectionOp.owner c xs) ∧
        m'.Alike m₂ ∧ (m.Keyed → m' = m₂) := by
  obtain ⟨hreplay, hindexed, hkeyed⟩ := hperforms.replay h
  obtain ⟨ys, hreordered, hanswers⟩ := replay_of_same_orders commutes_viewStep hsame hreplay
  refine ⟨?_, fun m₂ zs hperforms₂ => ?_⟩
  · obtain ⟨m₂, hperforms₂⟩ := exists_performs h hreordered
    exact ⟨m₂, ys, hperforms₂⟩
  · obtain ⟨hreplay₂, hindexed₂, hkeyed₂⟩ := hperforms₂.replay h
    rw [hreordered] at hreplay₂
    obtain ⟨hview, rfl⟩ := Prod.mk.inj (Option.some.inj hreplay₂)
    have halike : m'.Alike m₂ := alike_of_view hindexed hindexed₂ hview
    exact ⟨hanswers, halike, fun hk => halike.eq (hkeyed hk) (hkeyed₂ hk)⟩

theorem exists_performs_pair (h : m.Indexed) {a b : ConnectionOp} (hne : a.owner ≠ b.owner)
    (ha : a.Allowed m) (hb : b.Allowed m) : ∃ m₁ x y, m.Performs [a, b] m₁ [(a, x), (b, y)] := by
  obtain ⟨v₁, x, hstep⟩ := (allowed_iff h).mp ha
  obtain ⟨v₂, y, hstep'⟩ := exists_partStep_of_ne hne hstep ((allowed_iff h).mp hb)
  have hlast : replay viewStep v₁ [b] = some (v₂, [(b, y)]) :=
    replay_cons_iff.mpr ⟨v₂, y, [], hstep', rfl, rfl⟩
  have hreplay : replay viewStep m.view [a, b] = some (v₂, [(a, x), (b, y)]) :=
    replay_cons_iff.mpr ⟨v₁, x, _, hstep, hlast, rfl⟩
  obtain ⟨m₁, hperforms⟩ := exists_performs h hreplay
  exact ⟨m₁, x, y, hperforms⟩

end histories

/-- **Different connections' operations commute**: from every manager whose rooms and index agree,
two operations of different connections can be performed in either order, and either order returns
the same to both and leaves the same rooms with the same members, the same index and the same
connections.  So the end of a history of operations, and what every connection is returned, depend
only on each connection's own order of operations. -/
theorem operations_commute (m : RoomManager) (h : m.Indexed) :
    (∀ a b : ConnectionOp, a.owner ≠ b.owner → a.Allowed m → b.Allowed m →
      (∃ m₁ x y, m.Performs [a, b] m₁ [(a, x), (b, y)]) ∧
      ∀ m₁ x y m₂ x' y', m.Performs [a, b] m₁ [(a, x), (b, y)] →
        m.Performs [b, a] m₂ [(b, y'), (a, x')] →
        x' = x ∧ y' = y ∧ m₁.Alike m₂ ∧ (m.Keyed → m₁ = m₂)) ∧
    ∀ as bs : List ConnectionOp,
      (∀ c, as.filter (fun a => a.owner = c) = bs.filter fun b => b.owner = c) →
      ∀ m₁ xs, m.Performs as m₁ xs →
        (∃ m₂ ys, m.Performs bs m₂ ys) ∧ ∀ m₂ ys, m.Performs bs m₂ ys →
          (∀ c, answersOf ConnectionOp.owner c ys = answersOf ConnectionOp.owner c xs) ∧
            m₁.Alike m₂ ∧ (m.Keyed → m₁ = m₂) := by
  refine ⟨fun a b hne ha hb => ⟨exists_performs_pair h hne ha hb, ?_⟩,
    fun as bs hsame m₁ xs hperforms => hperforms.reordered h hsame⟩
  intro m₁ x y m₂ x' y' hperforms hperforms'
  have hsame : ∀ c, [a, b].filter (fun a' => a'.owner = c) =
      [b, a].filter fun b' => b'.owner = c := by
    intro c
    by_cases hac : a.owner = c
    · have hbc : b.owner ≠ c := fun hbc => hne (hac.trans hbc.symm)
      simp [hac, hbc]
    · by_cases hbc : b.owner = c <;> simp [hac, hbc]
  obtain ⟨hanswers, hend⟩ := (hperforms.reordered h hsame).2 m₂ _ hperforms'
  have hx := hanswers a.owner
  have hy := hanswers b.owner
  unfold answersOf at hx hy
  simp only [List.filter_cons, List.filter_nil, hne, hne.symm, decide_true, decide_false, if_true,
    Bool.false_eq_true, if_false, List.cons.injEq, Prod.mk.injEq, true_and, and_true] at hx hy
  exact ⟨hx, hy, hend⟩

/-- `a` is in a room, and `b` is registered. -/
def aAlone : RoomManager :=
  (((new.registerConnection ⟨"a", .anonymous, 0⟩).registerConnection ⟨"b", .anonymous, 1⟩).joinRoom
    "a" "r").1

/-- `a` leaves the room, which is gone then, and `b` joins it, or the other way round. -/
theorem operations_commute_aAlone :
    ∃ m₁ m₂, aAlone.Performs [.leave "a" "r", .join "b" "r"] m₁
        [(.leave "a" "r", .result (.ok ())), (.join "b" "r", .result (.ok ()))] ∧
      aAlone.Performs [.join "b" "r", .leave "a" "r"] m₂
        [(.join "b" "r", .result (.ok ())), (.leave "a" "r", .result (.ok ()))] ∧
      m₁.Alike m₂ := by
  have hindexed : aAlone.Indexed :=
    ((indexed_new.registerConnection _ (by decide)).registerConnection _ (by decide)).joinRoom "a"
      "r"
  have hop : RoomCall.connectionOp (.leaveRoom "a" "r") = some (.leave "a" "r") := rfl
  have hop' : RoomCall.connectionOp (.joinRoom "b" "r") = some (.join "b" "r") := rfl
  have hleave : aAlone.Performs _ _ _ :=
    .cons hop trivial trivial (.cons hop' trivial trivial (.nil _))
  have hjoin : aAlone.Performs _ _ _ :=
    .cons hop' trivial trivial (.cons hop trivial trivial (.nil _))
  have hcommute := (operations_commute aAlone hindexed).1 (.leave "a" "r") (.join "b" "r")
    (by decide) trivial trivial
  exact ⟨_, _, hleave, hjoin, (hcommute.2 _ _ _ _ _ _ hleave hjoin).2.2.1⟩

end RoomManager
end ArmatureWebsocket
