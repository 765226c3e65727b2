import ArmatureWebsocket.HubBroadcast
import ArmatureWebsocket.RoomAlone

/-! # The hub and the room manager

The hub runs the calls of the room manager with references kept between their operations, beside
broadcasts and calls on connections.  To the room manager all this is invisible: the references only
keep some operations waiting, and nothing else touches its maps.  So what the hub's threads do with
the room manager is a run of `RoomPool` (`rooms_of_exec`), and what holds in every run of that holds
in the hub.

And a broadcast that is left alone is the broadcast of `Hub`, in the order in which the shards hand
out their keys, one after another (`broadcast_runsAlone`). -/

namespace ArmatureWebsocket

open Execution CallPool

/-- The room manager's part of a return. -/
def HubPool.roomReturn (e : Return ℕ HubPc HubReply) : Option (Return ℕ RoomPc RoomReply) :=
  match e.frame, e.reply with
  | .room pc, .room reply => some ⟨e.thread, pc, reply⟩
  | _, _ => none

/-- The pool of the room manager has the maps, the threads that are in calls of the room manager,
and their returns. -/
structure HubPool.Rooms (p : HubPool) (q : RoomPool) : Prop where
  shared : q.shared = p.shared.maps
  threads : ∀ t pc, q.threads.lookup t = some pc ↔ p.threads.lookup t = some (.room pc)
  log : q.log = p.log.filterMap roomReturn

namespace HubPool

variable {sh : Shards} {p p' : HubPool} {q : RoomPool} {act : HubAct} {acts : List HubAct} {t : ℕ}
  {f : HubPc} {s s' : HubShared} {next : HubPc ⊕ HubReply} {order : List String}
  {cells : ℕ → ConnectionCell}

theorem Rooms.lookup_eq_none (h : p.Rooms q) (hnone : ∀ pc, p.threads.lookup t ≠ some (.room pc)) :
    q.threads.lookup t = none := by
  cases hq : q.threads.lookup t with
  | none => rfl
  | some pc => exact absurd ((h.threads t pc).mp hq) (hnone pc)

/-- An operation of another call leaves the maps, and leads to no call of the room manager. -/
theorem hubStep_apart (hrun : hubStep sh t order s f = some (s', next))
    (hf : ∀ pc, f ≠ .room pc) :
    s'.maps = s.maps ∧ (∀ pc, next ≠ .inl (.room pc)) ∧
      ∀ reply, next = .inr reply → roomReturn ⟨t, f, reply⟩ = none := by
  have hmaps : s'.maps = s.maps := by
    obtain hmaps | ⟨pc, rfl, -⟩ := hubStep_maps hrun
    · exact hmaps
    · exact absurd rfl (hf pc)
  have hnext (b : Broadcasting) (pc : RoomPc) : b.next ≠ .room pc := by
    unfold Broadcasting.next
    cases b.pending <;> simp
  refine ⟨hmaps, fun pc => ?_, fun reply _ => ?_⟩
  · cases f with
    | room pc' => exact absurd rfl (hf pc')
    | connection k pc' =>
        have hconn (x : ConnPc ⊕ ConnReply) :
            x.map (HubPc.connection k) HubReply.connection ≠ .inl (.room pc) := by
          cases x <;> simp
        cases hrun
        exact hconn _
    | broadcastRooms call r m =>
        simp only [hubStep] at hrun
        split at hrun <;> cases hrun <;> simp
    | broadcastShard b =>
        obtain ⟨-, ⟨-, -, rfl⟩ | ⟨-, rfl⟩⟩ := hubStep_broadcastShard hrun
        · simpa using hnext _ pc
        · simp
    | broadcastMember b c =>
        obtain ⟨-, ⟨-, rfl⟩ | ⟨-, connection, -, rfl⟩⟩ := hubStep_broadcastMember hrun
        · simpa using hnext _ pc
        · simp
    | broadcastSend b c connection pc' =>
        obtain ⟨-, ⟨pc₁, -, rfl⟩ | ⟨reply, -, rfl⟩⟩ := hubStep_broadcastSend hrun
        · simp
        · simpa using hnext _ pc
  · cases f with
    | room pc => exact absurd rfl (hf pc)
    | _ => rfl

/-- A call begins. -/
theorem Rooms.start {call : HubCall} (h : p.Rooms q)
    (hstep : p.step sh (.start t call) = some p') :
    p'.Rooms q ∨ ∃ call' q', q.step (.start t call') = some q' ∧ p'.Rooms q' := by
  obtain ⟨hnone, rfl⟩ := start_eq_some_iff.mp hstep
  have hq : q.threads.lookup t = none := h.lookup_eq_none fun pc => by simp [hnone]
  have happart (hpc : ∀ pc, call.pc ≠ .room pc) : Rooms (p.begun t call.pc) q := by
    refine ⟨h.shared, fun u pc => ?_, h.log⟩
    rw [lookup_begun]
    split_ifs with hu
    · rw [hu, hq]
      simpa using hpc pc
    · exact h.threads u pc
  cases call with
  | room call =>
      refine .inr ⟨call, CallPool.begun q t call.pc, start_eq_some_iff.mpr ⟨hq, rfl⟩, h.shared, ?_,
        h.log⟩
      intro u pc
      rw [lookup_begun, lookup_begun]
      split_ifs with hu
      · simp [HubCall.pc]
      · exact h.threads u pc
  | connection k call => exact .inl (happart fun pc => by simp [HubCall.pc])
  | broadcast call m =>
      refine .inl (happart fun pc => ?_)
      cases hroom : call.room <;> simp [HubCall.pc, hroom]

theorem Rooms.step (h : p.Rooms q) (hstep : p.step sh (.step t order) = some p') :
    p'.Rooms q ∨ ∃ q', q.step (.step t order) = some q' ∧ p'.Rooms q' := by
  obtain ⟨f, s, next, hf, -, hrun, rfl⟩ := advanceFree_eq_some_iff.mp hstep
  by_cases hroom : ∃ pc, f = .room pc
  · obtain ⟨pc, rfl⟩ := hroom
    obtain ⟨⟨maps, next'⟩, hrun', he⟩ := Option.map_eq_some_iff.mp hrun
    cases he
    refine .inr ⟨CallPool.moved q t pc maps next', ?_, ?_, fun u pc' => ?_, ?_⟩
    · refine advance_eq_some_iff.mpr ⟨pc, maps, next', (h.threads t pc).mpr hf, ?_, rfl⟩
      rw [h.shared]
      exact hrun'
    · rw [moved_shared, moved_shared]
    · by_cases hu : u = t
      · rw [hu, lookup_moved_self, lookup_moved_self]
        cases next' <;> simp
      · rw [lookup_moved_of_ne hu, lookup_moved_of_ne hu]
        exact h.threads u pc'
    · cases next' with
      | inl pc' => exact h.log
      | inr reply =>
          show q.log ++ [_] = (p.log ++ [_]).filterMap roomReturn
          rw [List.filterMap_append, h.log]
          rfl
  · have hroom : ∀ pc, f ≠ .room pc := fun pc he => hroom ⟨pc, he⟩
    obtain ⟨hmaps, hnext, hreply⟩ := hubStep_apart hrun hroom
    have hq : q.threads.lookup t = none := h.lookup_eq_none fun pc => by
      rw [hf]
      simpa using hroom pc
    refine .inl ⟨?_, fun u pc => ?_, ?_⟩
    · rw [moved_shared, hmaps]
      exact h.shared
    · by_cases hu : u = t
      · rw [hu, hq, lookup_moved_self]
        cases next with
        | inl f' => simpa using fun he => hnext pc (by rw [he])
        | inr reply => simp
      · rw [lookup_moved_of_ne hu]
        exact h.threads u pc
    · cases next with
      | inl f' => exact h.log
      | inr reply =>
          show q.log = (p.log ++ [_]).filterMap roomReturn
          rw [List.filterMap_append, h.log]
          simp [hreply reply rfl]

/-- **The hub runs the room manager**: in every run, under every schedule of calls, broadcasts and
sends, what happens to the maps and to the calls of the room manager is a run of the room manager
alone. -/
theorem rooms_of_exec (sh : Shards) (cells : ℕ → ConnectionCell) (acts : List HubAct) (p : HubPool)
    (hrun : exec (step sh) (new cells) acts = some p) :
    ∃ (racts : List RoomAct) (q : RoomPool),
      exec RoomPool.step RoomPool.new racts = some q ∧ p.Rooms q := by
  have hstep (act : HubAct) (_ : act ∈ acts) (p p' : HubPool) (q : RoomPool) (h : p.Rooms q)
      (hs : p.step sh act = some p') : p'.Rooms q ∨ ∃ a q', q.step a = some q' ∧ p'.Rooms q' := by
    have hmore {a : RoomAct} (hnext : ∃ q', q.step a = some q' ∧ p'.Rooms q') :
        ∃ a q', q.step a = some q' ∧ p'.Rooms q' := ⟨a, hnext⟩
    cases act with
    | start t call =>
        obtain hrooms | ⟨call', hnext⟩ := h.start hs
        · exact .inl hrooms
        · exact .inr (hmore hnext)
    | step t order =>
        obtain hrooms | hnext := h.step hs
        · exact .inl hrooms
        · exact .inr (hmore hnext)
    | recv k =>
        obtain ⟨k, cell, rfl, -⟩ := step_of_cell hs (by simp)
        exact .inl ⟨h.shared, h.threads, h.log⟩
    | closeRx k =>
        obtain ⟨k, cell, rfl, -⟩ := step_of_cell hs (by simp)
        exact .inl ⟨h.shared, h.threads, h.log⟩
    | evicted k =>
        obtain ⟨k, cell, rfl, -⟩ := step_of_cell hs (by simp)
        exact .inl ⟨h.shared, h.threads, h.log⟩
  have hnew : (new cells).Rooms RoomPool.new := by
    refine ⟨rfl, fun t pc => ?_, rfl⟩
    rw [RoomPool.new, new, lookup_quiet, lookup_quiet]
    simp
  exact exec_simulation hstep hnew hrun

theorem rooms_of_exec_leaveDuringBroadcast :
    ∃ p, exec (step oneShard) (new fun _ => .new 1) leaveDuringBroadcast = some p ∧
      ∃ (racts : List RoomAct) (q : RoomPool), exec RoomPool.step RoomPool.new racts = some q ∧
        q.threads.lookup 2 = some (.leaveMembers "a" ⟨"r", 0⟩) := by
  obtain ⟨p, hrun, hleave⟩ :
      ∃ p, exec (step oneShard) (new fun _ => .new 1) leaveDuringBroadcast = some p ∧
        p.threads.lookup 2 = some (.room (.leaveMembers "a" ⟨"r", 0⟩)) := by decide
  obtain ⟨racts, q, hq, hrooms⟩ := rooms_of_exec oneShard _ _ p hrun
  exact ⟨p, hrun, racts, q, hq, (hrooms.threads 2 _).mpr hleave⟩

end HubPool

/-! ### A broadcast left alone -/

/-- The shard of a key of the map that a broadcast goes over. -/
def BroadcastCall.shardIn (sh : Shards) (maps : RoomMaps) (call : BroadcastCall)
    (c : ConnectionId) : ℕ :=
  match call.room.bind fun r => (maps.rooms.lookup r).map (RoomArc.mk r) with
  | some room => sh.member room c
  | none => sh.connection c

/-- The keys that a shard hands out to a broadcast. -/
def BroadcastCall.keysOf (sh : Shards) (maps : RoomMaps) (call : BroadcastCall) (shard : ℕ) :
    Finset ConnectionId :=
  (call.reached maps).filter fun c => call.shardIn sh maps c = shard

/-- The operations of thread `t` when the shards hand out their keys in the given orders. -/
def hubStepIn (sh : Shards) (t : ℕ) (orders : ℕ → List ConnectionId) (s : HubShared) (f : HubPc) :
    Option (HubShared × (HubPc ⊕ HubReply)) :=
  match f with
  | .broadcastShard b => hubStep sh t (orders b.shard) s (.broadcastShard b)
  | f => hubStep sh t [] s f

section alone

variable {sh : Shards} {t : ℕ} {orders : ℕ → List ConnectionId} {s s' : HubShared}
  {m : RoomManager} {b : Broadcasting} {c : ConnectionId} {reply : HubReply}

theorem Hub.sendEach_append (who : Caller) (message : Message) (except : Option ConnectionId)
    (h : Hub) (xs ys : List ConnectionId) :
    Hub.sendEach who message except h (xs ++ ys) =
      ((Hub.sendEach who message except (Hub.sendEach who message except h xs).1 ys).1,
        (Hub.sendEach who message except h xs).2 +
          (Hub.sendEach who message except (Hub.sendEach who message except h xs).1 ys).2) := by
  induction xs generalizing h with
  | nil => simp [Hub.sendEach]
  | cons x xs ih =>
      simp only [List.cons_append, Hub.sendEach]
      split_ifs
      · exact ih h
      · rw [ih]
        simp only [Prod.mk.injEq, true_and]
        omega

theorem Hub.sendEach_manager (who : Caller) (message : Message) (except : Option ConnectionId)
    (h : Hub) (xs : List ConnectionId) :
    (Hub.sendEach who message except h xs).1.manager = h.manager := by
  rw [Hub.sendEach_eq]

theorem send_alone {connection : Connection} {pc : ConnPc} {cell cell' : ConnectionCell}
    {answer : ConnReply} (hsend : ConnPc.RunsAlone (.app t) cell pc cell' answer)
    (hs : s.cells connection.cell = cell)
    (hrest : RunsAlone (hubStepIn sh t orders)
      { s with cells := Function.update s.cells connection.cell cell' }
      (b.told c connection answer).next s' reply) :
    RunsAlone (hubStepIn sh t orders) s (.broadcastSend b c connection pc) s' reply := by
  induction hsend generalizing s with
  | @reply cell cell' pc answer hrun =>
      refine .goto ?_ hrest
      simp only [hubStepIn, hubStep, hs, Option.some.inj hrun]
  | @goto cell cell₁ cell' pc pc' answer hrun _ ih =>
      have hstep : hubStepIn sh t orders s (.broadcastSend b c connection pc) =
          some ({ s with cells := Function.update s.cells connection.cell cell₁ },
            .inl (.broadcastSend b c connection pc')) := by
        simp only [hubStepIn, hubStep, hs, Option.some.inj hrun]
      refine .goto hstep (ih (Function.update_self _ _ _) ?_)
      show RunsAlone _ { s with cells := Function.update (Function.update _ _ _) _ _ } _ _ _
      rw [Function.update_idem]
      exact hrest

theorem members_alone (hconnections : s.maps.connections = m.connections)
    (hrest : ∀ accepted, RunsAlone (hubStepIn sh t orders)
      { s with
        cells := (Hub.sendEach (.app t) b.message b.call.except ⟨m, s.cells⟩ b.pending).1.cells }
      (.broadcastShard
        { b with
          pending := []
          count := b.count +
            (Hub.sendEach (.app t) b.message b.call.except ⟨m, s.cells⟩ b.pending).2
          accepted := accepted }) s' reply) :
    RunsAlone (hubStepIn sh t orders) s b.next s' reply := by
  obtain ⟨call, message, room, shard, pending, count, accepted⟩ := b
  induction pending generalizing s count accepted with
  | nil => exact hrest accepted
  | cons c rest ih =>
      show RunsAlone _ s
        (HubPc.broadcastMember ⟨call, message, room, shard, rest, count, accepted⟩ c) _ _
      simp only [Hub.sendEach] at hrest
      by_cases hexcept : call.except = some c
      · simp only [if_pos hexcept] at hrest
        refine .goto ?_ (ih hconnections count accepted hrest)
        simp only [hubStepIn, hubStep, if_pos hexcept]
      · simp only [if_neg hexcept, Hub.sendTo] at hrest
        cases hlookup : m.connections.lookup c with
        | none =>
            simp only [hlookup, Bool.toNat_false, Nat.add_zero] at hrest
            refine .goto ?_ (ih hconnections count accepted hrest)
            simp only [hubStepIn, hubStep, if_neg hexcept, hconnections, hlookup]
        | some connection =>
            simp only [hlookup] at hrest
            have hstep : hubStepIn sh t orders s
                (.broadcastMember ⟨call, message, room, shard, rest, count, accepted⟩ c) =
                  some (s, .inl (.broadcastSend ⟨call, message, room, shard, rest, count, accepted⟩
                    c connection (.sendCheck message))) := by
              simp only [hubStepIn, hubStep, if_neg hexcept, hconnections, hlookup]
            refine .goto hstep (send_alone (send_runsAlone (.app t) _ message) rfl ?_)
            -- The loop goes on from the cells after the `send`.
            let s₁ : HubShared := { s with
              cells := Function.update s.cells connection.cell
                (ConnectionCell.send (.app t) (s.cells connection.cell) message).1 }
            have hconnections₁ : s₁.maps.connections = m.connections := hconnections
            cases hsent : (ConnectionCell.send (.app t) (s.cells connection.cell) message).2 with
            | ok u =>
                simp only [hsent, WebSocketResult.isOk, Bool.toNat_true] at hrest
                refine ih hconnections₁ (count + 1) (accepted ++ [(c, connection.cell)]) ?_
                intro accepted'
                have hcount := hrest accepted'
                rw [← Nat.add_assoc, Nat.add_right_comm] at hcount
                exact hcount
            | error e =>
                simp only [hsent, WebSocketResult.isOk, Bool.toNat_false, Nat.add_zero] at hrest
                exact ih hconnections₁ count accepted hrest

theorem shards_alone (hconnections : s.maps.connections = m.connections)
    (horders : ∀ i, i < sh.count → KeyMap.Enumerates (orders i)
      ({ b with shard := i }.entries sh s.maps)) {n : ℕ} (hn : b.shard + n = sh.count) :
    RunsAlone (hubStepIn sh t orders) s (.broadcastShard b)
      { s with
        cells := (Hub.sendEach (.app t) b.message b.call.except ⟨m, s.cells⟩
          ((List.range' b.shard n).flatMap orders)).1.cells }
      (.broadcast (.ok (b.count + (Hub.sendEach (.app t) b.message b.call.except ⟨m, s.cells⟩
        ((List.range' b.shard n).flatMap orders)).2))) := by
  induction n generalizing s b with
  | zero =>
      refine .reply ?_
      have hlast : ¬ b.shard < sh.count := by omega
      simp only [hubStepIn, hubStep, if_neg hlast]
      rfl
  | succ n ih =>
      have hshard : b.shard < sh.count := by omega
      have hstep : hubStepIn sh t orders s (.broadcastShard b) =
          some (s, .inl { b with shard := b.shard + 1, pending := orders b.shard }.next) := by
        simp only [hubStepIn, hubStep, if_pos hshard]
        rw [if_pos (horders b.shard hshard)]
      refine .goto hstep (members_alone hconnections fun accepted => ?_)
      let sent := Hub.sendEach (.app t) b.message b.call.except ⟨m, s.cells⟩ (orders b.shard)
      have hsent : sent.1 = ⟨m, sent.1.cells⟩ := by
        have hmanager : sent.1.manager = m := Hub.sendEach_manager _ _ _ _ _
        rw [← hmanager]
      have hn₁ : b.shard + 1 + n = sh.count := by omega
      have hrest := ih (s := { s with cells := sent.1.cells })
        (b := ⟨b.call, b.message, b.room, b.shard + 1, [], b.count + sent.2, accepted⟩)
        hconnections horders hn₁
      rw [List.range'_succ, List.flatMap_cons, Hub.sendEach_append, ← Nat.add_assoc]
      show RunsAlone _ { s with cells := sent.1.cells } _
        { s with
          cells := (Hub.sendEach (.app t) b.message b.call.except sent.1
            ((List.range' (b.shard + 1) n).flatMap orders)).1.cells }
        (HubReply.broadcast (.ok (b.count + sent.2 +
          (Hub.sendEach (.app t) b.message b.call.except sent.1
            ((List.range' (b.shard + 1) n).flatMap orders)).2)))
      rw [hsent]
      exact hrest

theorem BroadcastCall.shardIn_lt {call : BroadcastCall} : call.shardIn sh s.maps c < sh.count := by
  unfold BroadcastCall.shardIn
  split
  · exact sh.member_lt _ _
  · exact sh.connection_lt _

theorem Broadcasting.Kept.entries_eq (h : b.Kept sh s.maps) :
    b.entries sh s.maps = b.call.keysOf sh s.maps b.shard := by
  have hshard (c : ConnectionId) : b.shardOf sh c = b.call.shardIn sh s.maps c := by
    unfold Broadcasting.shardOf BroadcastCall.shardIn
    rw [h.room_eq]
    cases hroom : b.room with
    | none => rfl
    | some room =>
        rw [Option.map_some, Option.bind_some, h.stored room hroom]
        rfl
  unfold Broadcasting.entries BroadcastCall.keysOf
  rw [h.iterated_eq]
  simp only [hshard]

theorem BroadcastCall.enumerates {call : BroadcastCall}
    (horders : ∀ i < sh.count, KeyMap.Enumerates (orders i) (call.keysOf sh s.maps i)) :
    KeyMap.Enumerates ((List.range sh.count).flatMap orders) (call.reached s.maps) := by
  have hmem {i : ℕ} (hi : i < sh.count) {c : ConnectionId} :
      c ∈ orders i ↔ c ∈ call.reached s.maps ∧ call.shardIn sh s.maps c = i :=
    (horders i hi).mem_iff.trans Finset.mem_filter
  constructor
  · refine List.nodup_flatMap.mpr ⟨fun i hi => (horders i (List.mem_range.mp hi)).1, ?_⟩
    refine List.nodup_range.imp_of_mem ?_
    intro i j hi hj hij c hc hc'
    have hi' := ((hmem (List.mem_range.mp hi)).mp hc).2
    have hj' := ((hmem (List.mem_range.mp hj)).mp hc').2
    exact hij (hi'.symm.trans hj')
  · ext c
    rw [List.mem_toFinset, List.mem_flatMap]
    constructor
    · rintro ⟨i, hi, hc⟩
      exact ((hmem (List.mem_range.mp hi)).mp hc).1
    · intro hc
      exact ⟨call.shardIn sh s.maps c, List.mem_range.mpr BroadcastCall.shardIn_lt,
        (hmem BroadcastCall.shardIn_lt).mpr ⟨hc, rfl⟩⟩

end alone

/-- **A broadcast left alone** comes to its return, and does and returns what the broadcast of `Hub`
does in the order in which the shards hand out their keys, the keys of the first shard first, which
lists each of those it goes over once. -/
theorem HubPool.broadcast_runsAlone (sh : Shards) (t : ℕ) (s : HubShared) (m : RoomManager)
    (h : s.maps.Represents m) (call : BroadcastCall) (message : Message)
    (orders : ℕ → List ConnectionId)
    (horders : ∀ i < sh.count, KeyMap.Enumerates (orders i) (call.keysOf sh s.maps i)) :
    KeyMap.Enumerates ((List.range sh.count).flatMap orders) (call.iterated m) ∧
      RunsAlone (hubStepIn sh t orders) s (HubCall.broadcast call message).pc
        { s with cells := (Hub.broadcast ⟨m, s.cells⟩ (.app t) message call
          ((List.range sh.count).flatMap orders)).1.cells }
        (.broadcast (Hub.broadcast ⟨m, s.cells⟩ (.app t) message call
          ((List.range sh.count).flatMap orders)).2) := by
  have hiterated : call.iterated m = call.reached s.maps := by
    cases call with
    | toRoom r => exact h.membersOf_eq r
    | toRoomExcept r except => exact h.membersOf_eq r
    | all => exact congrArg Finmap.keys h.connections.symm
  have hfound {room : Option RoomArc}
      (hkept : (Broadcasting.start call message room).Kept sh s.maps)
      (hroom : ∀ r ∈ call.room, r ∈ m.rooms) :
      RunsAlone (hubStepIn sh t orders) s (.broadcastShard (.start call message room))
        { s with cells := (Hub.broadcast ⟨m, s.cells⟩ (.app t) message call
          ((List.range sh.count).flatMap orders)).1.cells }
        (.broadcast (Hub.broadcast ⟨m, s.cells⟩ (.app t) message call
          ((List.range sh.count).flatMap orders)).2) := by
    have hentries (i : ℕ) (hi : i < sh.count) : KeyMap.Enumerates (orders i)
        ({ Broadcasting.start call message room with shard := i }.entries sh s.maps) := by
      have hkept' : { Broadcasting.start call message room with shard := i }.Kept sh s.maps :=
        Broadcasting.kept_start hkept.room_eq hkept.stored
      rw [hkept'.entries_eq]
      exact horders i hi
    have hrun := shards_alone (t := t) h.connections hentries (Nat.zero_add sh.count)
    rw [Hub.broadcast_of_room hroom, List.range_eq_range']
    simpa [Broadcasting.start] using hrun
  refine ⟨by rw [hiterated]; exact BroadcastCall.enumerates horders, ?_⟩
  cases hroom : call.room with
  | none =>
      have hpc :
          (HubCall.broadcast call message).pc = .broadcastShard (.start call message none) := by
        simp only [HubCall.pc, hroom]
      rw [hpc]
      exact hfound (Broadcasting.kept_start hroom fun _ hroom => by cases hroom) (by simp [hroom])
  | some r =>
      have hpc : (HubCall.broadcast call message).pc = .broadcastRooms call r message := by
        simp only [HubCall.pc, hroom]
      rw [hpc]
      cases hlookup : s.maps.rooms.lookup r with
      | none =>
          have hnot : r ∉ m.rooms := Finmap.lookup_eq_none.mp (h.lookup_of_none hlookup)
          rw [Hub.broadcast_of_no_room hroom hnot]
          refine .reply ?_
          simp only [hubStepIn, hubStep, hlookup]
      | some a =>
          have hkept : (Broadcasting.start call message (some ⟨r, a⟩)).Kept sh s.maps := by
            refine Broadcasting.kept_start hroom fun room hroom => ?_
            cases hroom
            exact hlookup
          have hmem : ∀ r' ∈ call.room, r' ∈ m.rooms := by
            rw [hroom]
            rintro r' ⟨⟩
            exact Finmap.mem_of_lookup_eq_some (h.lookup_of_some hlookup)
          refine .goto ?_ (hfound hkept hmem)
          simp only [hubStepIn, hubStep, hlookup]

/-- Two shards, with `b` in the second one of each map and all other keys in the first. -/
def twoShards : Shards where
  count := 2
  room := fun _ => 0
  member := fun _ c => if c = "b" then 1 else 0
  connection := fun c => if c = "b" then 1 else 0
  member_lt := fun _ c => by split_ifs <;> omega
  connection_lt := fun c => by split_ifs <;> omega

/-- A room of three. -/
def threeInRoom : RoomManager where
  rooms := Finmap.insert "r" ⟨"r", {"a", "b", "c"}⟩ ∅
  connectionRooms := ∅
  connections := Finmap.insert "a" ⟨"a", .anonymous, 0⟩ (Finmap.insert "b" ⟨"b", .anonymous, 1⟩
    (Finmap.insert "c" ⟨"c", .anonymous, 2⟩ ∅))

/-- The same as maps. -/
def threeInRoomMaps : RoomMaps :=
  { (RoomMaps.new.entry "r").1 with
    members := Function.update (fun _ => ∅) ⟨"r", 0⟩ {"a", "b", "c"}
    connections := threeInRoom.connections }

theorem represents_threeInRoom : threeInRoomMaps.Represents threeInRoom where
  rooms := fun r => by
    by_cases hr : r = "r" <;>
      simp [threeInRoom, threeInRoomMaps, RoomMaps.entry, RoomMaps.new, hr]
  connectionRooms := rfl
  connections := rfl

theorem HubPool.broadcast_runsAlone_threeInRoom :
    ∃ cells : ℕ → ConnectionCell,
      RunsAlone (hubStepIn twoShards 0 fun i => if i = 0 then ["c", "a"] else ["b"])
        ⟨threeInRoomMaps, fun _ => .new 1⟩
        (HubCall.broadcast (.toRoomExcept "r" "a") (.binary [1])).pc ⟨threeInRoomMaps, cells⟩
        (.broadcast (.ok 2)) ∧
      (cells 0).tx.sent = [] ∧ (cells 1).tx.sent = [⟨.app 0, .send, .binary [1]⟩] ∧
      (cells 2).tx.sent = [⟨.app 0, .send, .binary [1]⟩] := by
  obtain ⟨-, hrun⟩ := HubPool.broadcast_runsAlone twoShards 0 ⟨threeInRoomMaps, fun _ => .new 1⟩
    threeInRoom represents_threeInRoom (.toRoomExcept "r" "a") (.binary [1])
    (fun i => if i = 0 then ["c", "a"] else ["b"]) (by decide)
  have hcount : (Hub.broadcast ⟨threeInRoom, fun _ => .new 1⟩ (.app 0) (.binary [1])
      (.toRoomExcept "r" "a") ["c", "a", "b"]).2 = .ok 2 := by decide
  have horder : (List.range 2).flatMap (fun i => if i = 0 then ["c", "a"] else ["b"]) =
      ["c", "a", "b"] := by decide
  rw [show twoShards.count = 2 from rfl, horder, hcount] at hrun
  exact ⟨_, hrun, by decide, by decide, by decide⟩

end ArmatureWebsocket
