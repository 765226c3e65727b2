import ArmatureWebsocket.HubSteps

/-! # What a broadcast does while others run

While a broadcast goes over the shards, others join, leave, register and unregister, other
broadcasts go on, connections are closed and evicted, and writers take messages.  Still, nobody is
visited twice, since a key stays in its shard and every shard is taken once (`Orderly`); and a
member that stays throughout is not missed, since its shard is reached (`Reaches`).

`broadcast_once` puts these together: the number that the broadcast returns is the number of copies
it put into queues, each connection got at most one, each of them was at its moment a registered
recipient, and a connection that stays a recipient, open and with room in its queue got one. -/

namespace ArmatureWebsocket

open Execution CallPool

/-- What a caller put into a connection's queue, in order. -/
def ConnectionCell.sentBy (who : Caller) (c : ConnectionCell) : List Envelope :=
  c.tx.sent.filter fun e => e.caller = who

/-- A point of a `send` of the message. -/
def ConnPc.Sends (m : Message) (pc : ConnPc) : Prop :=
  pc = .sendCheck m ∨ pc = .sendTry m ∨ pc = .evictState m ∨ pc = .evictNotify m

section send

variable {who who' : Caller} {c : ConnectionCell} {pc pc' : ConnPc} {m : Message}

/-- While a `send` goes on, its message is not in the queue. -/
theorem ConnPc.Sends.next (h : pc.Sends m) (hnext : (connStep who c pc).2 = .inl pc') :
    pc'.Sends m ∧ (pc.after who c).tx.sent = c.tx.sent := by
  obtain ⟨m', rfl, rfl, -⟩ | ⟨m', rfl, rfl, hfull⟩ | ⟨m', rfl, rfl⟩ | ⟨rfl, -⟩ | ⟨rfl, -⟩ :=
    connStep_next hnext
  · obtain rfl : m' = m := by simpa [ConnPc.Sends] using h
    exact ⟨.inr (.inl rfl), rfl⟩
  · obtain rfl : m' = m := by simpa [ConnPc.Sends] using h
    refine ⟨.inr (.inr (.inl rfl)), ?_⟩
    show (c.tx.offer _).sent = _
    rw [BoundedQueue.offer_of_not_accepts _ hfull]
  · obtain rfl : m' = m := by simpa [ConnPc.Sends] using h
    exact ⟨.inr (.inr (.inr rfl)), rfl⟩
  · simp [ConnPc.Sends] at h
  · simp [ConnPc.Sends] at h

/-- A `send` ends with its message in the queue, or fails and leaves the queue as it is. -/
theorem ConnPc.Sends.reply {reply : ConnReply} (h : pc.Sends m)
    (hreply : (connStep who c pc).2 = .inr reply) :
    reply = .sent m (.ok ()) ∧ (pc.after who c).tx.sent = c.tx.sent ++ [⟨who, .send, m⟩] ∨
      (∃ e, reply = .sent m (.error e)) ∧ (pc.after who c).tx.sent = c.tx.sent := by
  obtain rfl | rfl | rfl | rfl := h
  · simp only [connStep] at hreply
    split_ifs at hreply
    cases hreply
    exact .inr ⟨⟨_, rfl⟩, rfl⟩
  · by_cases haccepts : c.tx.Accepts
    · have hok : (connStep who c (.sendTry m)).2 = .inr (.sent m (.ok ())) :=
        connStep_accepted.mpr ⟨rfl, haccepts⟩
      rw [hok] at hreply
      cases hreply
      exact .inl ⟨rfl, (BoundedQueue.offer_of_accepts _ haccepts).2⟩
    · have hsent : (ConnPc.after who c (.sendTry m)).tx.sent = c.tx.sent := by
        show (c.tx.offer _).sent = _
        rw [BoundedQueue.offer_of_not_accepts _ haccepts]
      simp only [connStep] at hreply
      cases htry : c.tx.trySend ⟨who, .send, m⟩ with
      | ok tx => exact absurd (BoundedQueue.accepts_of_trySend htry).1 haccepts
      | error e =>
          rw [htry] at hreply
          cases e with
          | full => cases hreply
          | closed =>
              cases hreply
              exact .inr ⟨⟨_, rfl⟩, hsent⟩
  · cases hreply
  · cases hreply
    exact .inr ⟨⟨_, rfl⟩, rfl⟩

theorem sentBy_after (h : who' ≠ who) : (pc.after who' c).sentBy who = c.sentBy who := by
  have hoffer (origin : Origin) (m : Message) :
      (c.tx.offer ⟨who', origin, m⟩).sent.filter (fun e => e.caller = who) =
        c.tx.sent.filter fun e => e.caller = who := by
    rw [BoundedQueue.sent_offer]
    split_ifs
    · rw [List.filter_append]
      simp [h]
    · rfl
  unfold ConnectionCell.sentBy
  obtain htx | ⟨m, -, htx⟩ | ⟨-, htx⟩ := after_tx who' c pc
  · rw [htx]
  · rw [htx, hoffer]
  · rw [htx, hoffer]

end send

/-! ### The order of the visits -/

/-- A broadcast of `m` after some visits, with those of its shard that are `ahead`. -/
structure Broadcasting.Orderly (b : Broadcasting) (sh : Shards) (call : BroadcastCall) (m : Message)
    (ahead : List ConnectionId) : Prop where
  call_eq : b.call = call
  message_eq : b.message = m
  nodup : (b.accepted.map Prod.fst ++ ahead).Nodup
  reached : ∀ e ∈ b.accepted, b.shardOf sh e.1 < b.shard
  here : ∀ c ∈ ahead, b.shardOf sh c + 1 = b.shard
  count_eq : b.count = b.accepted.length
  allowed : ∀ e ∈ b.accepted, call.except ≠ some e.1

/-- The point is one of a broadcast of `m`. -/
def HubPc.Orderly (sh : Shards) (call : BroadcastCall) (m : Message) : HubPc → Prop
  | .broadcastRooms call' _ m' => call' = call ∧ m' = m
  | .broadcastShard b => b.Orderly sh call m []
  | .broadcastMember b c => b.Orderly sh call m (c :: b.pending)
  | .broadcastSend b c _ pc =>
      b.Orderly sh call m (c :: b.pending) ∧ call.except ≠ some c ∧ pc.Sends m
  | _ => False

/-- Those to whose queues the broadcast at a point has put a copy. -/
def HubPc.accepted : HubPc → List (ConnectionId × ℕ)
  | .broadcastShard b => b.accepted
  | .broadcastMember b _ => b.accepted
  | .broadcastSend b _ _ _ => b.accepted
  | _ => []

section orderly

variable {sh : Shards} {s s' : HubShared} {b : Broadcasting} {call : BroadcastCall} {m : Message}
  {f f' : HubPc} {next : HubPc ⊕ HubReply} {t : ℕ} {order : List ConnectionId} {c : ConnectionId}
  {connection : Connection}

theorem Broadcasting.accepted_next : b.next.accepted = b.accepted := by
  unfold Broadcasting.next
  cases b.pending <;> rfl

theorem Broadcasting.Orderly.orderly_next (h : b.Orderly sh call m b.pending) :
    b.next.Orderly sh call m := by
  unfold Broadcasting.next
  cases hb : b.pending with
  | nil =>
      rw [hb] at h
      exact h
  | cons c rest =>
      rw [hb] at h
      exact ⟨h.call_eq, h.message_eq, h.nodup, h.reached, h.here, h.count_eq, h.allowed⟩

theorem Broadcasting.Orderly.shard (h : b.Orderly sh call m [])
    (horder : KeyMap.Enumerates order (b.entries sh s.maps)) :
    { b with shard := b.shard + 1, pending := order }.Orderly sh call m order where
  call_eq := h.call_eq
  message_eq := h.message_eq
  nodup := by
    have hnodup := h.nodup
    rw [List.append_nil] at hnodup
    rw [List.nodup_append]
    refine ⟨hnodup, horder.1, fun c hc d hd hcd => ?_⟩
    obtain ⟨e, he, rfl⟩ := List.mem_map.mp hc
    have hbefore := h.reached e he
    have hhere : b.shardOf sh d = b.shard := (Finset.mem_filter.mp (horder.mem_iff.mp hd)).2
    rw [hcd] at hbefore
    omega
  reached := fun e he => Nat.lt_succ_of_lt (h.reached e he)
  here := fun d hd => congrArg (· + 1) (Finset.mem_filter.mp (horder.mem_iff.mp hd)).2
  count_eq := h.count_eq
  allowed := h.allowed

theorem Broadcasting.Orderly.skip (h : b.Orderly sh call m (c :: b.pending)) :
    b.Orderly sh call m b.pending where
  call_eq := h.call_eq
  message_eq := h.message_eq
  nodup := h.nodup.sublist (List.Sublist.append_left (List.sublist_cons_self _ _) _)
  reached := h.reached
  here := fun d hd => h.here d (List.mem_cons_of_mem c hd)
  count_eq := h.count_eq
  allowed := h.allowed

/-- One got its copy. -/
theorem Broadcasting.Orderly.sent (h : b.Orderly sh call m (c :: b.pending))
    (hexcept : call.except ≠ some c) :
    (b.told c connection (.sent m (.ok ()))).Orderly sh call m b.pending where
  call_eq := h.call_eq
  message_eq := h.message_eq
  nodup := by
    show ((b.accepted ++ [(c, connection.cell)]).map Prod.fst ++ b.pending).Nodup
    rw [List.map_append, List.append_assoc]
    exact h.nodup
  reached := by
    intro e he
    obtain he | he := List.mem_append.mp he
    · exact h.reached e he
    · obtain rfl := List.mem_singleton.mp he
      have hhere := h.here c List.mem_cons_self
      show b.shardOf sh c < b.shard
      omega
  here := fun d hd => h.here d (List.mem_cons_of_mem c hd)
  count_eq := by
    show b.count + 1 = (b.accepted ++ [(c, connection.cell)]).length
    rw [h.count_eq, List.length_append, List.length_singleton]
  allowed := by
    intro e he
    obtain he | he := List.mem_append.mp he
    · exact h.allowed e he
    · obtain rfl := List.mem_singleton.mp he
      exact hexcept

theorem Broadcasting.orderly_start {room : Option RoomArc} :
    (Broadcasting.start call m room).Orderly sh call m [] where
  call_eq := rfl
  message_eq := rfl
  nodup := List.nodup_nil
  reached := fun _ he => absurd he List.not_mem_nil
  here := fun _ hc => absurd hc List.not_mem_nil
  count_eq := rfl
  allowed := fun _ he => absurd he List.not_mem_nil

theorem HubCall.orderly_pc (call : BroadcastCall) (m : Message) :
    (HubCall.broadcast call m).pc.Orderly sh call m ∧
      (HubCall.broadcast call m).pc.accepted = [] := by
  cases hroom : call.room with
  | none =>
      simp only [HubCall.pc, hroom]
      exact ⟨Broadcasting.orderly_start, rfl⟩
  | some r =>
      simp only [HubCall.pc, hroom]
      exact ⟨⟨rfl, rfl⟩, rfl⟩

/-- **One operation of a broadcast**: it stays orderly, and either it changes no queue and counts
nothing, or it puts one copy into one queue and counts it. -/
theorem HubPc.Orderly.step (h : f.Orderly sh call m)
    (hrun : hubStep sh t order s f = some (s', .inl f')) :
    f'.Orderly sh call m ∧
      (f'.accepted = f.accepted ∧ (∀ k, (s'.cells k).tx.sent = (s.cells k).tx.sent) ∨
        ∃ b c connection pc, f = .broadcastSend b c connection pc ∧
          f'.accepted = f.accepted ++ [(c, connection.cell)] ∧
          ∀ k, (s'.cells k).tx.sent = (s.cells k).tx.sent ++
            if k = connection.cell then [⟨.app t, .send, m⟩] else []) := by
  cases f with
  | room pc => exact h.elim
  | connection k pc => exact h.elim
  | broadcastRooms call' r m' =>
      obtain ⟨rfl, rfl⟩ := h
      simp only [hubStep] at hrun
      cases hlookup : s.maps.rooms.lookup r with
      | none => rw [hlookup] at hrun; cases hrun
      | some a =>
          rw [hlookup] at hrun
          cases hrun
          exact ⟨Broadcasting.orderly_start, .inl ⟨rfl, fun _ => rfl⟩⟩
  | broadcastShard b =>
      obtain ⟨rfl, ⟨hshard, horder, hnext⟩ | ⟨-, hnext⟩⟩ := hubStep_broadcastShard hrun
      · cases hnext
        have h' := Broadcasting.Orderly.shard h horder
        exact ⟨h'.orderly_next, .inl ⟨Broadcasting.accepted_next, fun _ => rfl⟩⟩
      · cases hnext
  | broadcastMember b c =>
      have hb : b.Orderly sh call m (c :: b.pending) := h
      obtain ⟨rfl, ⟨-, hnext⟩ | ⟨hexcept, connection, hlookup, hnext⟩⟩ :=
        hubStep_broadcastMember hrun
      · cases hnext
        exact ⟨hb.skip.orderly_next, .inl ⟨Broadcasting.accepted_next, fun _ => rfl⟩⟩
      · cases hnext
        rw [hb.call_eq] at hexcept
        exact ⟨⟨h, hexcept, .inl (by rw [hb.message_eq])⟩, .inl ⟨rfl, fun _ => rfl⟩⟩
  | broadcastSend b c connection pc =>
      obtain ⟨hb, hexcept, hsends⟩ := h
      obtain ⟨rfl, hnext⟩ := hubStep_broadcastSend hrun
      -- The queue at hand is the only one that can change.
      have hcells (added : List Envelope)
          (hadded : (pc.after (.app t) (s.cells connection.cell)).tx.sent =
            (s.cells connection.cell).tx.sent ++ added) (k : ℕ) :
          (Function.update s.cells connection.cell
            (pc.after (.app t) (s.cells connection.cell)) k).tx.sent =
              (s.cells k).tx.sent ++ if k = connection.cell then added else [] := by
        by_cases hk : k = connection.cell
        · rw [hk, Function.update_self, if_pos rfl, hadded]
        · rw [Function.update_of_ne hk, if_neg hk, List.append_nil]
      have hsame (hsent : (pc.after (.app t) (s.cells connection.cell)).tx.sent =
          (s.cells connection.cell).tx.sent) (k : ℕ) :
          (Function.update s.cells connection.cell
            (pc.after (.app t) (s.cells connection.cell)) k).tx.sent = (s.cells k).tx.sent := by
        rw [hcells [] (by rw [hsent, List.append_nil]) k, ite_self, List.append_nil]
      obtain ⟨pc', hpc, hnext⟩ | ⟨reply, hreply, hnext⟩ := hnext
      · cases hnext
        obtain ⟨hsends', hsent⟩ := hsends.next hpc
        exact ⟨⟨hb, hexcept, hsends'⟩, .inl ⟨rfl, hsame hsent⟩⟩
      · cases hnext
        obtain ⟨rfl, hsent⟩ | ⟨⟨e, rfl⟩, hsent⟩ := hsends.reply hreply
        · have hb' : (b.told c connection (.sent m (.ok ()))).Orderly sh call m b.pending :=
            hb.sent hexcept
          refine ⟨Broadcasting.Orderly.orderly_next hb', .inr ⟨b, c, connection, pc, rfl, ?_, ?_⟩⟩
          · exact Broadcasting.accepted_next
          · exact hcells _ hsent
        · exact ⟨hb.skip.orderly_next, .inl ⟨Broadcasting.accepted_next, hsame hsent⟩⟩

/-- A broadcast returns a number when it has taken every shard. -/
theorem HubPc.Orderly.reply {n : ℕ} (h : f.Orderly sh call m)
    (hrun : hubStep sh t order s f = some (s', .inr (.broadcast (.ok n)))) :
    ∃ b, f = .broadcastShard b ∧ ¬ b.shard < sh.count ∧ b.count = n ∧ s' = s := by
  cases f with
  | room pc => exact h.elim
  | connection k pc => exact h.elim
  | broadcastRooms call' r m' =>
      simp only [hubStep] at hrun
      split at hrun <;> cases hrun
  | broadcastShard b =>
      obtain ⟨hs, ⟨-, -, hnext⟩ | ⟨hshard, hnext⟩⟩ := hubStep_broadcastShard hrun
      · cases hnext
      · cases hnext
        exact ⟨b, rfl, hshard, rfl, hs⟩
  | broadcastMember b c =>
      obtain ⟨-, ⟨-, hnext⟩ | ⟨-, connection, -, hnext⟩⟩ := hubStep_broadcastMember hrun
      · cases hnext
      · cases hnext
  | broadcastSend b c connection pc =>
      obtain ⟨-, ⟨pc', -, hnext⟩ | ⟨reply, -, hnext⟩⟩ := hubStep_broadcastSend hrun
      · cases hnext
      · cases hnext

theorem hubStep_cells (h : hubStep sh t order s f = some (s', next)) :
    s'.cells = s.cells ∨ ∃ (k : ℕ) (pc : ConnPc),
      s'.cells = Function.update s.cells k (pc.after (.app t) (s.cells k)) := by
  cases f with
  | room pc =>
      obtain ⟨⟨maps, next'⟩, -, he⟩ := Option.map_eq_some_iff.mp h
      cases he
      exact .inl rfl
  | connection k pc =>
      simp only [hubStep, connStep_fst] at h
      cases h
      exact .inr ⟨k, pc, rfl⟩
  | broadcastRooms call r m =>
      simp only [hubStep] at h
      split at h <;> cases h <;> exact .inl rfl
  | broadcastShard b => exact .inl (by rw [(hubStep_broadcastShard h).1])
  | broadcastMember b c => exact .inl (by rw [(hubStep_broadcastMember h).1])
  | broadcastSend b c connection pc =>
      exact .inr ⟨connection.cell, pc, by rw [(hubStep_broadcastSend h).1]⟩

end orderly

/-! ### A member that stays -/

/-- The connection registered under `c` is one that the broadcast is to reach, it is open, and its
queue has room. -/
structure HubShared.Steady (s : HubShared) (call : BroadcastCall) (c : ConnectionId)
    (connection : Connection) : Prop where
  reached : c ∈ call.reached s.maps
  registered : s.maps.connections.lookup c = some connection
  isOpen : (s.cells connection.cell).state = .«open»
  accepts : (s.cells connection.cell).tx.Accepts

instance (s : HubShared) (call : BroadcastCall) (c : ConnectionId) (connection : Connection) :
    Decidable (s.Steady call c connection) :=
  decidable_of_iff (c ∈ call.reached s.maps ∧ s.maps.connections.lookup c = some connection ∧
      (s.cells connection.cell).state = .«open» ∧ (s.cells connection.cell).tx.Accepts)
    ⟨fun h => ⟨h.1, h.2.1, h.2.2.1, h.2.2.2⟩, fun h => ⟨h.1, h.2, h.3, h.4⟩⟩

/-- Once its shard is reached, the member is ahead, or at hand and about to get its copy, or it has
got it. -/
def HubPc.Reaches (sh : Shards) (c : ConnectionId) (k : ℕ) : HubPc → Prop
  | .broadcastShard b => b.shardOf sh c < b.shard → (c, k) ∈ b.accepted
  | .broadcastMember b d =>
      b.shardOf sh c < b.shard → d = c ∨ c ∈ b.pending ∨ (c, k) ∈ b.accepted
  | .broadcastSend b d _ pc =>
      b.shardOf sh c < b.shard →
        d = c ∧ (pc = .sendCheck b.message ∨ pc = .sendTry b.message) ∨
          c ∈ b.pending ∨ (c, k) ∈ b.accepted
  | _ => True

section steady

variable {sh : Shards} {s s' : HubShared} {b : Broadcasting} {call : BroadcastCall} {m : Message}
  {f f' : HubPc} {t k : ℕ} {order : List ConnectionId} {c d : ConnectionId}
  {connection : Connection}

theorem Broadcasting.shardOf_lt (b : Broadcasting) : b.shardOf sh c < sh.count := by
  unfold Broadcasting.shardOf
  cases b.room with
  | none => exact sh.connection_lt c
  | some room => exact sh.member_lt room c

theorem Broadcasting.reaches_next
    (h : b.shardOf sh c < b.shard → c ∈ b.pending ∨ (c, k) ∈ b.accepted) :
    b.next.Reaches sh c k := by
  unfold Broadcasting.next
  cases hb : b.pending with
  | nil =>
      intro hshard
      exact (h hshard).resolve_left (by rw [hb]; exact List.not_mem_nil)
  | cons d rest =>
      intro hshard
      obtain hc | hc := h hshard
      · rw [hb] at hc
        obtain rfl | hc := List.mem_cons.mp hc
        · exact .inl rfl
        · exact .inr (.inl hc)
      · exact .inr (.inr hc)

theorem Broadcasting.reaches_start {room : Option RoomArc} :
    (HubPc.broadcastShard (.start call m room)).Reaches sh c k :=
  fun hreached => absurd hreached (Nat.not_lt_zero _)

theorem Broadcasting.mem_told {reply : ConnReply} (h : (c, k) ∈ b.accepted) :
    (c, k) ∈ (b.told d connection reply).accepted := by
  unfold Broadcasting.told
  split
  · exact List.mem_append_left _ h
  · exact h

theorem Broadcasting.told_pending {reply : ConnReply} :
    (b.told d connection reply).pending = b.pending := by
  unfold Broadcasting.told
  split <;> rfl

theorem Broadcasting.told_shard {reply : ConnReply} :
    (b.told d connection reply).shard = b.shard := by
  unfold Broadcasting.told
  split <;> rfl

theorem Broadcasting.told_shardOf {reply : ConnReply} :
    (b.told d connection reply).shardOf sh c = b.shardOf sh c := by
  unfold Broadcasting.told
  split <;> rfl

/-- **A steady member is not missed**: the broadcast's operations keep it reached. -/
theorem HubPc.Reaches.step (h : f.Reaches sh c connection.cell) (hkept : f.Kept sh s)
    (horderly : f.Orderly sh call m) (hsteady : s.Steady call c connection)
    (hexcept : call.except ≠ some c) (hrun : hubStep sh t order s f = some (s', .inl f')) :
    f'.Reaches sh c connection.cell := by
  cases f with
  | room pc => exact horderly.elim
  | connection k pc => exact horderly.elim
  | broadcastRooms call' r m' =>
      simp only [hubStep] at hrun
      cases hlookup : s.maps.rooms.lookup r with
      | none => rw [hlookup] at hrun; cases hrun
      | some a =>
          rw [hlookup] at hrun
          cases hrun
          exact Broadcasting.reaches_start
  | broadcastShard b =>
      obtain ⟨rfl, ⟨hshard, horder, hnext⟩ | ⟨-, hnext⟩⟩ := hubStep_broadcastShard hrun
      · cases hnext
        apply Broadcasting.reaches_next
        intro hreached
        have hreached : b.shardOf sh c < b.shard + 1 := hreached
        by_cases hbefore : b.shardOf sh c < b.shard
        · exact .inr (h hbefore)
        · -- The member is in the shard that is taken now.
          refine .inl (horder.mem_iff.mpr (Finset.mem_filter.mpr ⟨?_, by omega⟩))
          have hb : b.Kept sh s'.maps := hkept
          have hcall : b.call = call := Broadcasting.Orderly.call_eq horderly
          rw [hb.iterated_eq, hcall]
          exact hsteady.reached
      · cases hnext
  | broadcastMember b d =>
      have hb : b.Orderly sh call m (d :: b.pending) := horderly
      obtain ⟨rfl, ⟨hskip, hnext⟩ | ⟨-, conn, hlookup, hnext⟩⟩ := hubStep_broadcastMember hrun
      · cases hnext
        apply Broadcasting.reaches_next
        intro hreached
        refine (h hreached).resolve_left fun hd => ?_
        rw [hd, hb.call_eq, hsteady.registered] at hskip
        obtain hskip | hskip := hskip
        · exact hexcept hskip
        · cases hskip
      · cases hnext
        intro hreached
        obtain hd | hc := h hreached
        · exact .inl ⟨hd, .inl rfl⟩
        · exact .inr hc
  | broadcastSend b d conn pc =>
      obtain ⟨hb, -, hsends⟩ := horderly
      obtain ⟨-, -, -, hlookup⟩ := hkept
      -- The connection at hand is the member's, when it is its turn.
      have hsame (hd : d = c) : conn = connection := by
        rw [hd, hsteady.registered] at hlookup
        exact (Option.some.inj hlookup).symm
      obtain ⟨rfl, ⟨pc', hpc, hnext⟩ | ⟨reply, hreply, hnext⟩⟩ := hubStep_broadcastSend hrun
      · cases hnext
        intro hreached
        obtain ⟨hd, hturn⟩ | hc := h hreached
        · refine .inl ⟨hd, ?_⟩
          rw [hsame hd] at hpc
          obtain rfl | rfl := hturn
          · obtain ⟨m', hm, rfl, -⟩ | ⟨m', hm, -⟩ | ⟨m', hm, -⟩ | ⟨hm, -⟩ | ⟨hm, -⟩ :=
              connStep_next hpc
            · cases hm
              exact .inr rfl
            all_goals cases hm
          · obtain ⟨m', hm, -⟩ | ⟨m', hm, -, hfull⟩ | ⟨m', hm, -⟩ | ⟨hm, -⟩ | ⟨hm, -⟩ :=
              connStep_next hpc
            · cases hm
            · exact absurd hsteady.accepts hfull
            all_goals cases hm
        · exact .inr hc
      · cases hnext
        apply Broadcasting.reaches_next
        rw [Broadcasting.told_shard, Broadcasting.told_shardOf, Broadcasting.told_pending]
        intro hreached
        obtain ⟨hd, hturn⟩ | hc | hc := h hreached
        · right
          rw [hsame hd] at hreply ⊢
          have hok : reply = .sent b.message (.ok ()) := by
            obtain rfl | rfl := hturn
            · simp only [connStep] at hreply
              rw [if_pos (ConnectionCell.isOpen_iff.mpr hsteady.isOpen)] at hreply
              cases hreply
            · have hok : (connStep (.app t) (s.cells connection.cell) (.sendTry b.message)).2 =
                  .inr (.sent b.message (.ok ())) := connStep_accepted.mpr ⟨rfl, hsteady.accepts⟩
              rw [hok] at hreply
              cases hreply
              rfl
          rw [hok, hd]
          exact List.mem_append_right _ (List.mem_singleton_self _)
        · exact .inl hc
        · exact .inr (Broadcasting.mem_told hc)

end steady

/-! ### The whole broadcast -/

namespace HubPool

variable {sh : Shards} {p p' q q' : HubPool} {act : HubAct} {acts as : List HubAct} {t k : ℕ}
  {call : BroadcastCall} {m : Message} {f f' : HubPc} {cells : ℕ → ConnectionCell}
  {order : List ConnectionId}

theorem step_other (hstep : p.step sh act = some p')
    (hact : ∀ call order, act ≠ .start t call ∧ act ≠ .step t order) :
    p'.threads.lookup t = p.threads.lookup t ∧
      ∀ k, (p'.shared.cells k).sentBy (.app t) = (p.shared.cells k).sentBy (.app t) := by
  have hcell (henv : ∀ u call order, act ≠ .start u call ∧ act ≠ .step u order) :
      p'.threads.lookup t = p.threads.lookup t ∧
        ∀ k, (p'.shared.cells k).sentBy (.app t) = (p.shared.cells k).sentBy (.app t) := by
    obtain ⟨k', cell, rfl, hsent⟩ := step_of_cell hstep henv
    refine ⟨rfl, fun k => ?_⟩
    show (Function.update p.shared.cells k' cell k).sentBy _ = _
    by_cases hk : k = k'
    · rw [hk, Function.update_self]
      unfold ConnectionCell.sentBy
      rw [hsent]
    · rw [Function.update_of_ne hk]
  cases act with
  | start u call =>
      have hu : t ≠ u := fun hu => (hact call []).1 (by rw [hu])
      obtain ⟨-, rfl⟩ := start_eq_some_iff.mp hstep
      exact ⟨lookup_begun.trans (if_neg hu), fun _ => rfl⟩
  | step u order =>
      have hu : t ≠ u := fun hu => (hact (.connection 0 .close) order).2 (by rw [hu])
      obtain ⟨f, s, next, -, -, hrun, rfl⟩ := advanceFree_eq_some_iff.mp hstep
      refine ⟨lookup_moved_of_ne hu, fun k => ?_⟩
      rw [moved_shared]
      obtain hcells | ⟨k', pc, hcells⟩ := hubStep_cells hrun
      · rw [hcells]
      · rw [hcells]
        by_cases hk : k = k'
        · rw [hk, Function.update_self]
          exact sentBy_after fun he => hu (Caller.app.inj he).symm
        · rw [Function.update_of_ne hk]
  | recv k' => exact hcell (by simp)
  | closeRx k' => exact hcell (by simp)
  | evicted k' => exact hcell (by simp)

theorem step_own (hstep : p.step sh (.step t order) = some p')
    (hf' : p'.threads.lookup t = some f') :
    ∃ f, p.threads.lookup t = some f ∧
      hubStep sh t order p.shared f = some (p'.shared, .inl f') := by
  obtain ⟨f, s, next, hf, -, hrun, rfl⟩ := advanceFree_eq_some_iff.mp hstep
  refine ⟨f, hf, ?_⟩
  rw [moved_shared]
  rw [lookup_moved_self] at hf'
  cases next with
  | inl f₁ =>
      cases hf'
      exact hrun
  | inr reply => cases hf'

/-- In some step of the run, thread `t` puts its copy of `m` into the queue `e.2`; before that step
`e.1` is a recipient, and the connection registered under it has that queue. -/
def TellsRecipient (sh : Shards) (p : HubPool) (acts : List HubAct) (t : ℕ) (call : BroadcastCall)
    (m : Message) (e : ConnectionId × ℕ) : Prop :=
  ∃ before order after q q', acts = before ++ .step t order :: after ∧
    exec (step sh) p before = some q ∧ q.step sh (.step t order) = some q' ∧
    (q'.shared.cells e.2).sentBy (.app t) =
      (q.shared.cells e.2).sentBy (.app t) ++ [⟨.app t, .send, m⟩] ∧
    e.1 ∈ call.reached q.shared.maps ∧
    ∃ b connection pc, q.threads.lookup t = some (.broadcastSend b e.1 connection pc) ∧
      q.shared.maps.connections.lookup e.1 = some connection ∧ connection.cell = e.2

theorem TellsRecipient.mono {bs : List HubAct} {e : ConnectionId × ℕ}
    (h : TellsRecipient sh p as t call m e) : TellsRecipient sh p (as ++ bs) t call m e := by
  obtain ⟨before, order, after, q, q', rfl, hrest⟩ := h
  exact ⟨before, order, after ++ bs, q, q', by simp, hrest⟩

/-- What thread `t` has done with its broadcast of `m`, which it began in `p`, when it is at `f` in
`q`. -/
structure Told (sh : Shards) (p : HubPool) (acts : List HubAct) (q : HubPool) (t : ℕ)
    (call : BroadcastCall) (m : Message) (f : HubPc) : Prop where
  orderly : f.Orderly sh call m
  queues : ∀ k, (q.shared.cells k).sentBy (.app t) = (p.shared.cells k).sentBy (.app t) ++
    List.replicate (f.accepted.countP fun e => e.2 = k) ⟨.app t, .send, m⟩
  recipients : ∀ e ∈ f.accepted, TellsRecipient sh p acts t call m e

/-- An operation of the thread tells its message to one more, or to nobody. -/
theorem Told.own (h : Told sh p as q t call m f) (hq : exec (step sh) p as = some q)
    (hkept : f.Kept sh q.shared) (hf : q.threads.lookup t = some f)
    (hstep : q.step sh (.step t order) = some q')
    (hrun : hubStep sh t order q.shared f = some (q'.shared, .inl f')) :
    Told sh p (as ++ [.step t order]) q' t call m f' := by
  obtain ⟨horderly, ⟨haccepted, hsent⟩ | ⟨b, c, connection, pc, rfl, haccepted, hsent⟩⟩ :=
    h.orderly.step hrun
  · refine ⟨horderly, fun k => ?_, fun e he => ?_⟩
    · rw [haccepted, ← h.queues k]
      unfold ConnectionCell.sentBy
      rw [hsent k]
    · rw [haccepted] at he
      exact (h.recipients e he).mono
  · obtain ⟨hb, ⟨hc, -⟩, -, hlookup⟩ := hkept
    have hcall : b.call = call := h.orderly.1.call_eq
    have hadded (k : ℕ) : (q'.shared.cells k).sentBy (.app t) =
        (q.shared.cells k).sentBy (.app t) ++
          if k = connection.cell then [⟨.app t, .send, m⟩] else [] := by
      unfold ConnectionCell.sentBy
      rw [hsent k, List.filter_append]
      split_ifs <;> simp
    refine ⟨horderly, fun k => ?_, fun e he => ?_⟩
    · rw [hadded, h.queues k, haccepted, List.countP_append, List.append_assoc]
      by_cases hk : k = connection.cell
      · rw [if_pos hk]
        have hone :
            List.countP (fun e : ConnectionId × ℕ => e.2 = k) [(c, connection.cell)] = 1 := by
          simp [hk]
        rw [hone, List.replicate_succ']
      · rw [if_neg hk, List.append_nil]
        have hnone :
            List.countP (fun e : ConnectionId × ℕ => e.2 = k) [(c, connection.cell)] = 0 := by
          simp [Ne.symm hk]
        rw [hnone, Nat.add_zero]
    · rw [haccepted] at he
      obtain he | he := List.mem_append.mp he
      · exact (h.recipients e he).mono
      · obtain rfl := List.mem_singleton.mp he
        refine ⟨as, order, [], q, q', rfl, hq, hstep, ?_, ?_, b, connection, pc, hf, hlookup, rfl⟩
        · rw [hadded, if_pos rfl]
        · rw [← hcall, ← hb.iterated_eq]
          exact hc

theorem Told.other (h : Told sh p as q t call m f)
    (hsent : ∀ k, (q'.shared.cells k).sentBy (.app t) = (q.shared.cells k).sentBy (.app t)) :
    Told sh p (as ++ [act]) q' t call m f := by
  refine ⟨h.orderly, fun k => ?_, fun e he => (h.recipients e he).mono⟩
  rw [hsent k, h.queues k]

theorem told_of_exec (hrun : exec (step sh) (new cells) acts = some p)
    (hstart : p.threads.lookup t = some (HubCall.broadcast call m).pc)
    (hbetween : exec (step sh) p as = some q) (hsame : ∀ act ∈ as, ∀ call', act ≠ .start t call')
    (hf : q.threads.lookup t = some f) : Told sh p as q t call m f := by
  let Telling (as : List HubAct) (q : HubPool) : Prop :=
    exec (step sh) p as = some q ∧
      ((∀ act ∈ as, ∀ call', act ≠ .start t call') →
        ∀ f, q.threads.lookup t = some f → Told sh p as q t call m f)
  have hstep (as : List HubAct) (q : HubPool) (act : HubAct) (q' : HubPool) (h : Telling as q)
      (hs : q.step sh act = some q') : Telling (as ++ [act]) q' := by
    obtain ⟨hq, htelling⟩ := h
    refine ⟨exec_trans hq (exec_cons_iff.mpr ⟨q', hs, rfl⟩), fun hsame f' hf' => ?_⟩
    have hsame' : ∀ a ∈ as, ∀ call', a ≠ .start t call' :=
      fun a ha => hsame a (List.mem_append_left _ ha)
    have hnot := hsame act (List.mem_append_right _ (List.mem_singleton_self _))
    by_cases hown : ∃ order, act = .step t order
    · obtain ⟨order, rfl⟩ := hown
      obtain ⟨f, hf, hown⟩ := step_own hs hf'
      exact (htelling hsame' f hf).own hq (kept_of_exec (exec_trans hrun hq) hf) hf hs hown
    · obtain ⟨hlookup, hsent⟩ := step_other hs fun call order =>
        ⟨hnot call, fun he => hown ⟨order, he⟩⟩
      rw [hlookup] at hf'
      exact (htelling hsame' f' hf').other hsent
  have hnew : Telling [] p := by
    refine ⟨rfl, fun _ f hf => ?_⟩
    rw [hstart] at hf
    cases hf
    have hpc : (HubCall.broadcast call m).pc.Orderly sh call m ∧
        (HubCall.broadcast call m).pc.accepted = [] := HubCall.orderly_pc call m
    obtain ⟨horderly, haccepted⟩ := hpc
    refine ⟨horderly, fun k => ?_, ?_⟩
    · rw [haccepted]
      exact (List.append_nil _).symm
    · rw [haccepted]
      exact fun _ he => absurd he List.not_mem_nil
  exact (exec_history (P := Telling) hstep hnew hbetween).2 hsame f hf

theorem reaches_of_exec {c : ConnectionId} {connection : Connection}
    (hrun : exec (step sh) (new cells) acts = some p)
    (hstart : p.threads.lookup t = some (HubCall.broadcast call m).pc)
    (hbetween : exec (step sh) p as = some q) (hsame : ∀ act ∈ as, ∀ call', act ≠ .start t call')
    (hexcept : call.except ≠ some c)
    (hsteady : Along (step sh) (fun q _ _ => q.shared.Steady call c connection) p as)
    (hf : q.threads.lookup t = some f) : f.Reaches sh c connection.cell := by
  let Reaching (q : HubPool) : Prop :=
    (∃ acts, exec (step sh) (new cells) acts = some q) ∧
      ∀ f, q.threads.lookup t = some f → f.Orderly sh call m ∧ f.Reaches sh c connection.cell
  have hstep (q : HubPool) (act : HubAct) (q' : HubPool) (h : Reaching q)
      (hs : q.step sh act = some q')
      (hQ : q.shared.Steady call c connection ∧ ∀ call', act ≠ .start t call') : Reaching q' := by
    obtain ⟨⟨acts, hq⟩, hreaching⟩ := h
    obtain ⟨hsteady, hnot⟩ := hQ
    refine ⟨⟨acts ++ [act], exec_trans hq (exec_cons_iff.mpr ⟨q', hs, rfl⟩)⟩, fun f' hf' => ?_⟩
    by_cases hown : ∃ order, act = .step t order
    · obtain ⟨order, rfl⟩ := hown
      obtain ⟨f, hf, hown⟩ := step_own hs hf'
      obtain ⟨horderly, hreaches⟩ := hreaching f hf
      exact ⟨(horderly.step hown).1,
        hreaches.step (kept_of_exec hq hf) horderly hsteady hexcept hown⟩
    · obtain ⟨hlookup, -⟩ := step_other hs fun call order =>
        ⟨hnot call, fun he => hown ⟨order, he⟩⟩
      rw [hlookup] at hf'
      exact hreaching f' hf'
  have hnew : Reaching p := by
    refine ⟨⟨acts, hrun⟩, fun f hf => ?_⟩
    rw [hstart] at hf
    cases hf
    refine ⟨(HubCall.orderly_pc call m).1, ?_⟩
    cases hroom : call.room with
    | none =>
        simp only [HubCall.pc, hroom]
        exact Broadcasting.reaches_start
    | some r =>
        simp only [HubCall.pc, hroom]
        trivial
  have halong := hsteady.and (along_of_forall_mem hsame)
  exact ((exec_invariant_along (P := Reaching) hstep hnew hbetween halong).2 f hf).2

/-- **Broadcasts, whatever goes on beside them**: a thread begins a broadcast of `m` in `p`, and
returns the number `n` from `q`.  Then `n` is the number of copies that it put into queues; no
connection was told twice; each of those told was a registered recipient, and not the excepted one,
when the copy was put into its queue; and whoever stayed a registered recipient throughout, open and
with room in its queue, was told. -/
theorem broadcast_once (sh : Shards) (cells : ℕ → ConnectionCell) (acts as : List HubAct)
    (p q q' : HubPool) (t n : ℕ) (order : List ConnectionId) (call : BroadcastCall) (m : Message)
    (f : HubPc) (hrun : exec (step sh) (new cells) acts = some p)
    (hstart : p.threads.lookup t = some (HubCall.broadcast call m).pc)
    (hbetween : exec (step sh) p as = some q) (hsame : ∀ act ∈ as, ∀ call', act ≠ .start t call')
    (hlast : q.step sh (.step t order) = some q')
    (hreturned : q'.log = q.log ++ [⟨t, f, .broadcast (.ok n)⟩]) :
    ∃ told : List (ConnectionId × ℕ), told.length = n ∧ (told.map Prod.fst).Nodup ∧
      (∀ k, (q'.shared.cells k).sentBy (.app t) = (p.shared.cells k).sentBy (.app t) ++
        List.replicate (told.countP fun e => e.2 = k) ⟨.app t, .send, m⟩) ∧
      (∀ e ∈ told, call.except ≠ some e.1 ∧ TellsRecipient sh p as t call m e) ∧
      ∀ c connection, call.except ≠ some c →
        Along (step sh) (fun q _ _ => q.shared.Steady call c connection) p as →
          (c, connection.cell) ∈ told := by
  obtain ⟨f', s, next, hf', -, hown, rfl⟩ := advanceFree_eq_some_iff.mp hlast
  have htold := told_of_exec hrun hstart hbetween hsame hf'
  obtain rfl : next = .inr (.broadcast (.ok n)) := by
    cases next with
    | inl f₁ => simp [moved] at hreturned
    | inr reply =>
        simp only [moved, List.append_cancel_left_eq, List.cons.injEq, Return.mk.injEq] at hreturned
        rw [hreturned.1.2.2]
  obtain ⟨b, rfl, hshard, hcount, rfl⟩ := htold.orderly.reply hown
  have horderly : b.Orderly sh call m [] := htold.orderly
  refine ⟨b.accepted, ?_, ?_, ?_, fun e he => ⟨horderly.allowed e he, htold.recipients e he⟩, ?_⟩
  · rw [← horderly.count_eq, hcount]
  · have hnodup := horderly.nodup
    rw [List.append_nil] at hnodup
    exact hnodup
  · intro k
    rw [moved_shared]
    exact htold.queues k
  · intro c connection hexcept hsteady
    have hreaches : (HubPc.broadcastShard b).Reaches sh c connection.cell :=
      reaches_of_exec hrun hstart hbetween hsame hexcept hsteady hf'
    exact hreaches (lt_of_lt_of_le b.shardOf_lt (not_lt.mp hshard))

/-- A room with two members, and a broadcast to it that begins. -/
def twoMembers : List HubAct :=
  [.start 0 (.room (.registerConnection ⟨"a", .anonymous, 0⟩)), .step 0 [], .step 0 [],
    .start 0 (.room (.registerConnection ⟨"b", .anonymous, 1⟩)), .step 0 [], .step 0 [],
    .start 0 (.room (.joinRoom "a" "r")), .step 0 [], .step 0 [], .step 0 [], .step 0 [],
    .start 0 (.room (.joinRoom "b" "r")), .step 0 [], .step 0 [], .step 0 [], .step 0 [],
    .start 1 (.broadcast (.toRoom "r") (.binary [1]))]

/-- Its course: while it goes on, the first member's writer takes the copy, and that member is
about to leave. -/
def broadcastToTwo : List HubAct :=
  [.step 1 [], .step 1 ["a", "b"], .step 1 [], .step 1 [], .step 1 [], .recv 0,
    .start 2 (.room (.leaveRoom "a" "r")), .step 2 [], .step 1 [], .step 1 [], .step 1 []]

theorem broadcast_once_broadcastToTwo :
    ∃ p, exec (step oneShard) (new fun _ => .new 1) twoMembers = some p ∧
      ∃ q, exec (step oneShard) p broadcastToTwo = some q ∧
        ∃ told : List (ConnectionId × ℕ), told.length = 2 ∧ ("b", 1) ∈ told := by
  obtain ⟨p, hrun, hstart, hsteady, q, hbetween, q', hlast, hreturned⟩ :
      ∃ p, exec (step oneShard) (new fun _ => .new 1) twoMembers = some p ∧
        p.threads.lookup 1 = some (HubCall.broadcast (.toRoom "r") (.binary [1])).pc ∧
        Along (step oneShard) (fun q _ _ =>
          q.shared.Steady (.toRoom "r") "b" ⟨"b", .anonymous, 1⟩) p broadcastToTwo ∧
        ∃ q, exec (step oneShard) p broadcastToTwo = some q ∧
          ∃ q', q.step oneShard (.step 1 []) = some q' ∧
            q'.log = q.log ++ [⟨1, .broadcastShard ⟨.toRoom "r", .binary [1], some ⟨"r", 0⟩, 1, [],
              2, [("a", 0), ("b", 1)]⟩, .broadcast (.ok 2)⟩] := by decide
  obtain ⟨told, hlength, -, -, -, hall⟩ := broadcast_once oneShard _ _ _ p q q' 1 2 [] _ _ _ hrun
    hstart hbetween (by simp [broadcastToTwo]) hlast hreturned
  exact ⟨p, hrun, q, hbetween, told, hlength, hall "b" _ (by decide) hsteady⟩

end HubPool
end ArmatureWebsocket
