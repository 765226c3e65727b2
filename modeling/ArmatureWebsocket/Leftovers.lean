import ArmatureWebsocket.Admission
import ArmatureWebsocket.Broadcast
import ArmatureWebsocket.Contract
import ArmatureWebsocket.EmptyRooms

/-! # What the connections leave behind

The room manager outlives the connections.  As long as only the server registers connections, each
of its entries belongs to the task whose connection it is, under that connection's own id, so that
no two entries share a queue; this is what a broadcast asks of the entries that it goes over
(`registered_queues`).

When all slots are free again and all calls have returned, nothing of the connections is left: no
connection, no entry of the index, and no member of a room.  The only rooms left are those that the
application made by `create_room` (`nothing_left`).  A join that is in progress while its connection
is unregistered would leave a member behind, so this is for the runs in which no operation leaves a
membership unlisted (`KeepsIndexed`). -/

namespace ArmatureWebsocket

open Execution CallPool

/-- No two connections share a queue. -/
def RoomMaps.DistinctQueues (s : RoomMaps) : Prop :=
  ∀ c c' connection connection', s.connections.lookup c = some connection →
    s.connections.lookup c' = some connection' → connection.cell = connection'.cell → c = c'

/-- A manager with these connections is one that a broadcast can go over. -/
theorem RoomMaps.DistinctQueues.manager {s : RoomMaps} (h : s.DistinctQueues) {m : RoomManager}
    (hm : m.connections = s.connections) : m.DistinctQueues := by
  intro c hc c' hc' hcell
  obtain ⟨connection, hlookup⟩ := Finmap.mem_iff.mp (Finmap.mem_keys.mp hc)
  obtain ⟨connection', hlookup'⟩ := Finmap.mem_iff.mp (Finmap.mem_keys.mp hc')
  rw [hlookup, hlookup'] at hcell
  rw [hm] at hlookup hlookup'
  exact h c c' connection connection' hlookup hlookup' (Option.some.inj hcell)

theorem ServerTask.not_over_of_operates {config : WebSocketServerConfig}
    {authorizer : HandshakeAuthorizer} {instantMax : ℕ} {t t' : ServerTask} {a : TaskAct}
    (hstep : t.step config authorizer instantMax a = some t') (hoperates : a.operates = true)
    (hstage : t.session.stage = .registering) : t'.session.stage.over = false := by
  cases a with
  | room =>
      obtain rfl := ServerTask.room_some hstep
      rw [hstage]
      rfl
  | session act =>
      obtain ⟨-, hsession, -⟩ := ServerTask.session_some hstep
      cases act with
      | registered =>
          obtain ⟨-, he⟩ := Session.registered_some hsession
          rw [he]
          rfl
      | disconnected =>
          obtain ⟨hs, -⟩ := Session.disconnected_some hsession
          cases hstage.symm.trans hs
      | _ => cases hoperates
  | _ => cases hoperates

namespace Serve

variable {config : WebSocketServerConfig} {authorizer : HandshakeAuthorizer} {instantMax : ℕ}
  {s s' : Serve} {act : ServeAct}

theorem freshIds_iff {i : ℕ} {outcome : AcceptOutcome} {id : ConnectionId} {order : List String} :
    (∀ j ∈ s.tasks.keys, ∀ t ∈ s.tasks.lookup j, ∀ who ∈ t.session.identity, who.id ≠ id) ↔
      s.FreshIds (.task i (.upgraded outcome id) order) s' := by
  constructor
  · intro h j t who ht hwho
    exact h j (Finmap.mem_keys.mpr (Finmap.mem_of_lookup_eq_some ht)) t ht who hwho
  · intro h j _ t ht who hwho
    exact h j t who ht hwho

instance (s : Serve) (act : ServeAct) (s' : Serve) : Decidable (s.FreshIds act s') :=
  match act with
  | .task _ (.upgraded _ _) _ => decidable_of_iff _ freshIds_iff
  | .task _ (.callback _) _ | .task _ (.session _) _ | .task _ .leave _ | .task _ .room _
  | .task _ .release _ | .accept _ | .limitReached | .acceptFailed | .app _ => .isTrue trivial

/-! ### Whose entry it is -/

/-- Every entry is under the id of the connection whose queue it has. -/
structure Owned (config : WebSocketServerConfig) (authorizer : HandshakeAuthorizer)
    (instantMax : ℕ) (s : Serve) : Prop where
  coupled : s.Coupled config authorizer instantMax
  ownKeys : s.OwnKeys
  owner : ∀ c connection, s.rooms.shared.connections.lookup c = some connection →
    ∃ t, s.tasks.lookup connection.cell = some t ∧
      t.session.identity = some ⟨c, connection.principal⟩

theorem owned_new : (new config).Owned config authorizer instantMax where
  coupled := coupled_new
  ownKeys := ownKeys_new
  owner := fun c connection h => by simp [new, RoomPool.new, CallPool.quiet, RoomMaps.new] at h

/-- A connection that is about to be put into the room manager is that of the task that does it. -/
theorem Owned.registering (h : s.Owned config authorizer instantMax) {who : RoomThread}
    {connection : Connection}
    (hpc : s.rooms.threads.lookup who = some (.registerConnections connection)) :
    ∃ t, s.tasks.lookup connection.cell = some t ∧
      t.session.identity = some ⟨connection.id, connection.principal⟩ := by
  cases who with
  | app t => exact absurd rfl (h.ownKeys.own t _ hpc _)
  | task i =>
      obtain ⟨t, -, ht, -⟩ := h.coupled.authorized.caller i _ hpc
      have hat := h.coupled.callsAt i t ht
      rw [hpc] at hat
      obtain ⟨who, hwho, ⟨-, hcall | hcall⟩ | ⟨-, hcall⟩⟩ := hat
      · cases hcall
        exact ⟨t, ht, hwho⟩
      · cases hcall
      · cases hcall

theorem Owned.step (h : s.Owned config authorizer instantMax)
    (hstep : s.step config authorizer instantMax act = some s') (hact : ServerRegisters act) :
    s'.Owned config authorizer instantMax where
  coupled := h.coupled.step hstep
  ownKeys := h.ownKeys.step hstep hact
  owner := by
    intro c connection hlookup
    apply h.coupled.authorized.identity_step hstep
    obtain ⟨hrooms, -⟩ | ⟨_, _, -, -, hrooms, -⟩ |
      ⟨who, order, pc, next, -, hpc, -, hrooms, -⟩ := rooms_cases hstep
    · rw [hrooms] at hlookup
      exact h.owner c connection hlookup
    · rw [hrooms] at hlookup
      exact h.owner c connection hlookup
    · rw [hrooms, moved_shared] at hlookup
      obtain hold | ⟨rfl, rfl⟩ := lookup_connections_after hlookup
      · exact h.owner c connection hold
      · exact h.registering hpc

/-- Two entries with one queue are one entry. -/
theorem Owned.distinctQueues (h : s.Owned config authorizer instantMax) :
    s.rooms.shared.DistinctQueues := by
  intro c c' connection connection' hlookup hlookup' hcell
  obtain ⟨t, ht, hwho⟩ := h.owner c connection hlookup
  obtain ⟨t', ht', hwho'⟩ := h.owner c' connection' hlookup'
  rw [← hcell] at ht'
  cases ht.symm.trans ht'
  have hidentity : Identity.mk c connection.principal = ⟨c', connection'.principal⟩ :=
    Option.some.inj (hwho.symm.trans hwho')
  exact congrArg Identity.id hidentity

theorem owned_of_exec {acts : List ServeAct}
    (hrun : exec (step config authorizer instantMax) (new config) acts = some s)
    (hacts : ∀ act ∈ acts, ServerRegisters act) : s.Owned config authorizer instantMax :=
  exec_invariant_along (P := Owned config authorizer instantMax)
    (fun _ _ _ h hs hq => h.step hs hq) owned_new hrun (along_of_forall_mem hacts)

/-- The entries of the room manager are those of running tasks, which hold their slots. -/
def RunningEntries (s : Serve) : Prop :=
  ∀ c connection, s.rooms.shared.connections.lookup c = some connection →
    ∃ t, s.tasks.lookup connection.cell = some t ∧
      t.session.identity = some ⟨c, connection.principal⟩ ∧ t.session.stage.over = false ∧
      t.holdsSlot = true

theorem holdsSlot_of_running {i : ℕ} {t : ServerTask} {who : Identity} (hslots : s.Slots config)
    (hauth : s.Authorized config authorizer) (ht : s.tasks.lookup i = some t)
    (hwho : t.session.identity = some who) (hover : t.session.stage.over = false) :
    t.holdsSlot = true := by
  by_contra hnot
  have hdone : t.session.stage.done = true := hslots.kept i t ht (by simpa using hnot)
  cases hs : t.session.stage with
  | refused =>
      rw [(hauth.tasks i t ht).session.early (.inr hs)] at hwho
      cases hwho
  | finished => rw [hs] at hover; cases hover
  | panicked why => rw [hs] at hover; cases hover
  | _ => rw [hs] at hdone; cases hdone

theorem runningEntries_of_exec {acts : List ServeAct}
    (hrun : exec (step config authorizer instantMax) (new config) acts = some s)
    (hacts : ∀ act ∈ acts, ServerRegisters act)
    (hfresh : Along (step config authorizer instantMax) FreshIds (new config) acts)
    (hcalm : Along (step config authorizer instantMax) (Calm config instantMax) (new config) acts) :
    s.RunningEntries := by
  have h : (s.Slots config ∧ s.Coupled config authorizer instantMax) ∧ s.UniqueIds ∧
      ∀ c ∈ s.registered, s.Running c := by
    refine exec_invariant_along (P := fun s => (s.Slots config ∧
      s.Coupled config authorizer instantMax) ∧ s.UniqueIds ∧ ∀ c ∈ s.registered, s.Running c) ?_
      ⟨⟨slots_new, coupled_new⟩, uniqueIds_new, ?_⟩ hrun (hfresh.and hcalm)
    · rintro s₁ act s₂ ⟨⟨hslots, hcoupled⟩, hunique, hrunning⟩ hstep ⟨hf, hc⟩
      exact ⟨⟨hslots.step hstep, hcoupled.step hstep⟩, hunique.step hstep hf,
        running_step hrunning hcoupled hstep hc⟩
    · intro c hc
      exact absurd hc (Finset.notMem_empty c)
  obtain ⟨⟨hslots, hcoupled⟩, hunique, hrunning⟩ := h
  intro c connection hlookup
  obtain ⟨t, ht, hwho⟩ := (owned_of_exec hrun hacts).owner c connection hlookup
  have hc : c ∈ s.registered := by
    rw [← keys_eq_registered hrun hacts]
    exact Finmap.mem_keys.mpr (Finmap.mem_of_lookup_eq_some hlookup)
  obtain ⟨i, t', who, ht', hwho', hid, hover⟩ := hrunning c hc
  -- ids do not repeat, so it is this task that is running
  obtain rfl : i = connection.cell := hunique i connection.cell t' t who _ ht' ht hwho' hwho hid
  rw [ht] at ht'
  cases ht'
  exact ⟨t, ht, hwho, hover, holdsSlot_of_running hslots hcoupled.authorized ht hwho hover⟩

/-- **Whose queue it is**: in every run of the server in which the application registers nothing,
every connection in the room manager is that of one task, under the id of that task's connection, so
that no two of them share a queue.  If ids do not repeat and no task panics while its connection is
registered, these tasks are all running, and hold their slots. -/
theorem registered_queues (config : WebSocketServerConfig) (authorizer : HandshakeAuthorizer)
    (instantMax : ℕ) (acts : List ServeAct) (s : Serve)
    (hrun : exec (step config authorizer instantMax) (new config) acts = some s)
    (hacts : ∀ act ∈ acts, ServerRegisters act) :
    s.rooms.shared.DistinctQueues ∧
    (∀ m : RoomManager, m.connections = s.rooms.shared.connections → m.DistinctQueues) ∧
    (∀ c connection, s.rooms.shared.connections.lookup c = some connection →
      ∃ t, s.tasks.lookup connection.cell = some t ∧
        t.session.identity = some ⟨c, connection.principal⟩) ∧
    (Along (step config authorizer instantMax) FreshIds (new config) acts →
      Along (step config authorizer instantMax) (Calm config instantMax) (new config) acts →
        s.RunningEntries) := by
  have h : s.Owned config authorizer instantMax := owned_of_exec hrun hacts
  refine ⟨h.distinctQueues, fun m hm => h.distinctQueues.manager hm, h.owner,
    fun hfresh hcalm => ?_⟩
  exact runningEntries_of_exec hrun hacts hfresh hcalm

/-- Two connections, of which the application puts one into a room while the other one is being
registered. -/
def twoRegistered : List ServeAct :=
  [.accept 0, .accept 1, .task 0 (.callback (bareRequest "/")) [],
    .task 1 (.callback (bareRequest "/")) [], .task 1 (.upgraded .accepted "b") [],
    .task 0 (.upgraded .accepted "a") [], .app (.start 0 (.createRoom "lobby")),
    .app (.step 0 []), .task 0 .room [], .task 0 (.session .registered) [],
    .app (.start 0 (.joinRoom "a" "r")), .app (.step 0 []), .app (.step 0 []), .task 1 .room [],
    .app (.step 0 []), .app (.step 0 []), .task 1 (.session .registered) [],
    .task 0 (.session (.connected 0)) []]

theorem registered_queues_twoRegistered :
    ∃ s, exec (step .default AllowAnonymous (10 ^ 18)) (new .default) twoRegistered = some s ∧
      s.rooms.shared.connections.keys = {"a", "b"} ∧ s.rooms.shared.DistinctQueues ∧
      s.RunningEntries := by
  obtain ⟨s, hrun, hkeys⟩ : ∃ s,
      exec (step .default AllowAnonymous (10 ^ 18)) (new .default) twoRegistered = some s ∧
        s.rooms.shared.connections.keys = {"a", "b"} := by decide
  have hacts : ∀ act ∈ twoRegistered, ServerRegisters act := by decide
  have h := registered_queues .default AllowAnonymous (10 ^ 18) twoRegistered s hrun hacts
  exact ⟨s, hrun, hkeys, h.1, h.2.2.2 (by decide) (by decide)⟩

/-! ### What is left -/

/-- No task panics while the room manager has anything under the id of its connection. -/
def LeavesNone (config : WebSocketServerConfig) (instantMax : ℕ) (s : Serve) :
    ServeAct → Serve → Prop
  | .task i (.session act) _, _ => ∀ t ∈ s.tasks.lookup i, ∀ who ∈ t.session.identity,
      who.id ∈ s.registered ∨ who.id ∈ s.rooms.shared.connectionRooms →
        ¬ t.session.Panics config instantMax act
  | _, _ => True

instance (s : Serve) (act : ServeAct) (s' : Serve) :
    Decidable (s.LeavesNone config instantMax act s') :=
  match act with
  | .task _ (.session _) _ => inferInstanceAs (Decidable (∀ t ∈ _, ∀ who ∈ _, _ ∨ _ → _))
  | .task _ (.callback _) _ | .task _ (.upgraded _ _) _ | .task _ .leave _ | .task _ .room _
  | .task _ .release _ | .accept _ | .limitReached | .acceptFailed | .app _ => .isTrue trivial

/-- No operation leaves a connection in a room that its index does not list, unless a call in
progress is about to list it or going to end the membership. -/
def KeepsIndexed (s : Serve) (act : ServeAct) (_ : Serve) : Prop :=
  ∀ who ∈ act.mover, ∀ pc ∈ s.rooms.threads.lookup who, ∀ c, s.rooms.KeepsListed c who pc

/-- The connection that an operation concerns is the only one to look at. -/
instance (p : RoomPool RoomThread) (who : RoomThread) (pc : RoomPc) :
    Decidable (∀ c, p.KeepsListed c who pc) :=
  match pc with
  | .joinIndex d r =>
      decidable_of_iff (p.KeepsListed d who (.joinIndex d r))
        ⟨fun h c hc => by subst hc; exact h rfl, fun h => h d⟩
  | .leaveIndex d r =>
      decidable_of_iff (p.KeepsListed d who (.leaveIndex d r))
        ⟨fun h c hc => by subst hc; exact h rfl, fun h => h d⟩
  | .deleteIndex r d rest =>
      decidable_of_iff (p.KeepsListed d who (.deleteIndex r d rest))
        ⟨fun h c hc => by subst hc; exact h rfl, fun h => h d⟩
  | .registerConnections _ | .registerIndex _ | .unregisterIndex _ | .unregisterGet _ _ _
  | .unregisterLeave _ _ _ | .unregisterPrune _ _ _ | .unregisterConnections _ | .createEntry _
  | .deleteRooms _ | .deleteMembers _ | .joinConnections _ _ | .joinEntry _ _
  | .joinMembers _ _ | .leaveGet _ _ | .leaveMembers _ _ | .leavePrune _ _ =>
      .isTrue fun _ => trivial

instance (s : Serve) (act : ServeAct) (s' : Serve) : Decidable (s.KeepsIndexed act s') :=
  inferInstanceAs (Decidable (∀ who ∈ act.mover, ∀ pc ∈ s.rooms.threads.lookup who, _))

/-- Some task has a connection with this id. -/
def HasTask (s : Serve) (c : ConnectionId) : Prop :=
  ∃ i t who, s.tasks.lookup i = some t ∧ t.session.identity = some who ∧ who.id = c

/-- Task `i` is over, or is unregistering its connection and has removed the index entry. -/
def Past (s : Serve) (i : ℕ) (t : ServerTask) (who : Identity) : Prop :=
  t.session.stage.over = true ∨
    ∃ pc, s.rooms.threads.lookup (.task i) = some pc ∧ pc.op = .unregister who.id ∧
      pc ≠ .unregisterIndex who.id

/-- What the room manager has under the ids of connections is what their tasks still answer for. -/
structure Tended (config : WebSocketServerConfig) (authorizer : HandshakeAuthorizer)
    (instantMax : ℕ) (s : Serve) : Prop where
  owned : s.Owned config authorizer instantMax
  unique : s.UniqueIds
  entered : ∀ c, s.rooms.Started (.register c) → s.HasTask c
  listed : ∀ c, s.rooms.Listed c
  unlisted : ∀ i t who, s.tasks.lookup i = some t → t.session.identity = some who →
    s.Past i t who → who.id ∉ s.rooms.shared.connectionRooms
  pruned : s.rooms.Pruned

theorem started_before {op : RoomOp} (hstep : s.step config authorizer instantMax act = some s')
    (h : s'.rooms.Started op) :
    s.rooms.Started op ∨ ∃ who start, s.Begins act s' who start ∧ start.pc.op = op := by
  obtain ⟨hrooms, -⟩ | ⟨who, start, hbegins, hidle, hrooms, -⟩ |
    ⟨who, order, pc, next, -, hpc, hop, hrooms, -⟩ := rooms_cases hstep
  · rw [hrooms] at h
    exact .inl h
  · rw [hrooms] at h
    obtain hruns | hreturned := h
    · obtain hruns | hbegun := (anyAt_begun hidle).mp hruns
      · exact .inl (.inl hruns)
      · exact .inr ⟨who, start, hbegins, hbegun⟩
    · exact .inl (.inr hreturned)
  · rw [hrooms] at h
    obtain hruns | hreturned := h
    · exact .inl (.inl (RoomPool.runs_of_moved hpc hop hruns))
    · obtain hreturned | ⟨hsame, -⟩ := RoomPool.returned_moved.mp hreturned
      · exact .inl (.inr hreturned)
      · exact .inl (.inl ⟨who, pc, hpc, hsame⟩)

theorem HasTask.step {c : ConnectionId} (h : s.HasTask c) (hauth : s.Authorized config authorizer)
    (hstep : s.step config authorizer instantMax act = some s') : s'.HasTask c := by
  obtain ⟨i, t, who, ht, hwho, hid⟩ := h
  obtain ⟨t', ht', hwho'⟩ := hauth.identity_step hstep ⟨t, ht, hwho⟩
  exact ⟨i, t', who, ht', hwho', hid⟩

theorem unnamed_of_upgraded {i : ℕ} {outcome : AcceptOutcome} {id : ConnectionId}
    {order : List String} {t : ServerTask} (hauth : s.Authorized config authorizer)
    (hstep : s.step config authorizer instantMax (.task i (.upgraded outcome id) order) = some s')
    (ht : s.tasks.lookup i = some t) : t.session.identity = none := by
  obtain ⟨hother, -⟩ | ⟨hact, -⟩ | ⟨a, order', t₁, t', hact, ht₁, htask, -⟩ := task_of_step hstep i
  · exact absurd rfl (hother _ _)
  · cases hact
  · cases hact
    cases ht.symm.trans ht₁
    have hstage := (Session.handshaken_some (ServerTask.upgraded_some htask).1).1
    exact (hauth.tasks i t ht).session.early (.inl hstage)

/-- A registration begins for the connection of a task that has just been upgraded, whose id is
new. -/
theorem Begins.registers {who : RoomThread} {start : RoomStart} {c : ConnectionId}
    (h : s.Begins act s' who start) (hauth : s.Authorized config authorizer)
    (hstep : s.step config authorizer instantMax act = some s') (hact : ServerRegisters act)
    (hfresh : s.FreshIds act s') (hop : start.pc.op = .register c) :
    s'.HasTask c ∧ ¬ s.HasTask c := by
  cases h with
  | app clones =>
      cases start with
      | registerConnection made => exact hact.elim
      | _ => cases hop
  | unregister ht hwho hstage => cases hop
  | @register i outcome id order s' t' who ht' hwho' =>
      cases hop
      refine ⟨⟨i, t', who, ht', hwho', rfl⟩, ?_⟩
      rintro ⟨j, t, who₁, ht, hwho, hid⟩
      obtain ⟨t₁, ht₁, hwho₁⟩ | ⟨outcome', order', hact⟩ := identity_before hstep ht' hwho'
      · rw [unnamed_of_upgraded hauth hstep ht₁] at hwho₁
        cases hwho₁
      · cases hact
        exact hfresh j t who₁ ht hwho hid

theorem Tended.entered_step (h : s.Tended config authorizer instantMax)
    (hstep : s.step config authorizer instantMax act = some s') (hact : ServerRegisters act)
    (hfresh : s.FreshIds act s') {c : ConnectionId} (hc : s'.rooms.Started (.register c)) :
    s'.HasTask c := by
  obtain hbefore | ⟨who, start, hbegins, hop⟩ := started_before hstep hc
  · exact (h.entered c hbefore).step h.owned.coupled.authorized hstep
  · exact (hbegins.registers h.owned.coupled.authorized hstep hact hfresh hop).1

theorem Tended.listed_step (h : s.Tended config authorizer instantMax)
    (hstep : s.step config authorizer instantMax act = some s') (hact : ServerRegisters act)
    (hfresh : s.FreshIds act s') (hkeeps : s.KeepsIndexed act s') (c : ConnectionId) :
    s'.rooms.Listed c := by
  obtain ⟨hrooms, -⟩ | ⟨who, start, hbegins, hidle, hrooms, -⟩ |
    ⟨who, order, pc, next, hmover, hpc, hop, hrooms, -⟩ := rooms_cases hstep
  · rw [hrooms]
    exact h.listed c
  · rw [hrooms]
    refine (h.listed c).begun hidle fun hop hstarted => ?_
    have hnew := (hbegins.registers h.owned.coupled.authorized hstep hact hfresh hop).2
    exact hnew (h.entered c hstarted)
  · rw [hrooms]
    exact (h.listed c).moved hpc hop (hkeeps who hmover pc hpc c)

theorem Tended.pruned_step (h : s.Tended config authorizer instantMax)
    (hstep : s.step config authorizer instantMax act = some s') : s'.rooms.Pruned := by
  obtain ⟨hrooms, -⟩ | ⟨who, start, -, hidle, hrooms, -⟩ |
    ⟨who, order, pc, next, -, hpc, hop, hrooms, -⟩ := rooms_cases hstep
  · rw [hrooms]
    exact h.pruned
  · rw [hrooms]
    exact h.pruned.begun hidle
  · rw [hrooms]
    exact h.pruned.moved hpc hop

/-! ### No index entry comes back -/

theorem past_of_over {i : ℕ} {t t' : ServerTask} {a : TaskAct} {order : List String}
    {who : Identity} (h : s.Coupled config authorizer instantMax)
    (hstep : s.step config authorizer instantMax (.task i a order) = some s')
    (htidy : s.LeavesNone config instantMax (.task i a order) s') (ht : s.tasks.lookup i = some t)
    (htask : t.step config authorizer instantMax a = some t')
    (hwho : t.session.identity = some who)
    (hlisted : who.id ∈ s.rooms.shared.connectionRooms) (hover' : t'.session.stage.over = true) :
    s.Past i t who := by
  by_cases hover : t.session.stage.over = true
  · exact .inl hover
  have hauth := h.authorized.tasks i t ht
  obtain rfl | ⟨b, rfl, hpanics⟩ :=
    over_of_step hauth htask hwho (Bool.eq_false_iff.mpr hover) hover'
  · exact .inr ⟨_, (h.unregistered hstep ht hwho).1, rfl, nofun⟩
  · exact absurd hpanics (htidy t ht who hwho (.inr hlisted))

/-- A task that is past its index entry after a step, and whose connection is listed before and
after it, was past it before. -/
theorem Past.before {i : ℕ} {t' : ServerTask} {who : Identity}
    (hpast : s'.Past i t' who) (h : s.Coupled config authorizer instantMax)
    (hstep : s.step config authorizer instantMax act = some s')
    (htidy : s.LeavesNone config instantMax act s') (ht' : s'.tasks.lookup i = some t')
    (hwho' : t'.session.identity = some who)
    (hlisted : who.id ∈ s.rooms.shared.connectionRooms)
    (hlisted' : who.id ∈ s'.rooms.shared.connectionRooms) :
    ∃ t, s.tasks.lookup i = some t ∧ t.session.identity = some who ∧ s.Past i t who := by
  obtain hover | ⟨pc', hpc', hop', hne⟩ := hpast
  · obtain ⟨-, hsame, -⟩ | ⟨-, -, hi', -⟩ | ⟨a, order, t, t₁, rfl, ht, htask, hi', -⟩ :=
      task_of_step hstep i
    · rw [hsame] at ht'
      exact ⟨t', ht', hwho', .inl hover⟩
    · cases hi'.symm.trans ht'
      cases hwho'
    · cases hi'.symm.trans ht'
      obtain ⟨t₂, ht₂, hwho₂⟩ | ⟨outcome, order', hact⟩ := identity_before hstep ht' hwho'
      · cases ht.symm.trans ht₂
        exact ⟨t, ht, hwho₂, past_of_over h hstep htidy ht htask hwho₂ hlisted hover⟩
      · -- the registration begins
        cases hact
        obtain ⟨-, -, hstage⟩ | ⟨hnone, -⟩ :=
          ServerTask.stage_of_upgraded (h.authorized.tasks i t ht) htask
        · rw [hstage] at hover
          cases hover
        · rw [hnone] at hwho'
          cases hwho'
  · -- the call was there before, and its task keeps its identity
    have hbefore {pc : RoomPc} (hpc : s.rooms.threads.lookup (.task i) = some pc)
        (hop : pc.op = .unregister who.id) (hne : pc ≠ .unregisterIndex who.id) :
        ∃ t, s.tasks.lookup i = some t ∧ t.session.identity = some who ∧ s.Past i t who := by
      obtain ⟨t, who₀, ht, hwho⟩ := h.authorized.caller i pc hpc
      obtain ⟨t₁, ht₁, hwho₁⟩ := h.authorized.identity_step hstep ⟨t, ht, hwho⟩
      cases ht₁.symm.trans ht'
      cases hwho₁.symm.trans hwho'
      exact ⟨t, ht, hwho, .inr ⟨pc, hpc, hop, hne⟩⟩
    obtain ⟨hrooms, -⟩ | ⟨who₀, start, -, -, hrooms, -⟩ |
      ⟨who₀, order, pc, next, -, hpc, hop, hrooms, -⟩ := rooms_cases hstep
    · rw [hrooms] at hpc'
      exact hbefore hpc' hop' hne
    · rw [hrooms, lookup_begun] at hpc'
      split_ifs at hpc'
      · cases hpc'
        cases start with
        | unregisterConnection c =>
            cases hop'
            exact absurd rfl hne
        | _ => cases hop'
      · exact hbefore hpc' hop' hne
    · rw [hrooms] at hpc'
      obtain ⟨-, hold⟩ | ⟨rfl, rfl⟩ := lookup_moved hpc'
      · exact hbefore hold hop' hne
      · refine hbefore hpc ((roomStep_op hop).symm.trans hop') ?_
        rintro rfl
        rw [hrooms, moved_shared] at hlisted'
        exact (Finmap.mem_erase.mp hlisted').1 rfl

theorem Tended.not_past_of_registerIndex (h : s.Tended config authorizer instantMax)
    (hunique : s'.UniqueIds) (hstep : s.step config authorizer instantMax act = some s')
    {thread : RoomThread} {c : ConnectionId} {next : RoomPc ⊕ RoomReply} {order : List String}
    (hmover : act.mover = some thread)
    (hpc : s.rooms.threads.lookup thread = some (.registerIndex c))
    (hop : roomStep order s.rooms.shared (.registerIndex c) =
      some (RoomPc.after s.rooms.shared (.registerIndex c), next))
    (hrooms : s'.rooms = s.rooms.moved thread (.registerIndex c) next) {i : ℕ} {t' : ServerTask}
    {who : Identity} (ht' : s'.tasks.lookup i = some t') (hwho' : t'.session.identity = some who)
    (hid : who.id = c) : ¬ s'.Past i t' who := by
  cases thread with
  | app t => exact absurd rfl (h.owned.ownKeys.own t _ hpc c)
  | task j =>
      obtain ⟨a, order', rfl, hoperates⟩ := task_of_mover hmover
      obtain ⟨t, -, ht, -⟩ := h.owned.coupled.authorized.caller j _ hpc
      have hat := h.owned.coupled.callsAt j t ht
      rw [hpc] at hat
      obtain ⟨who₀, hwho, ⟨hstage, hcall | hcall⟩ | ⟨-, hcall⟩⟩ := hat
      · cases hcall
      · obtain ⟨t₁, ht₁, hwho₁⟩ :=
          h.owned.coupled.authorized.identity_step hstep ⟨t, ht, hwho⟩
        have hsame : who₀.id = who.id := (RoomPc.registerIndex.inj hcall).symm.trans hid.symm
        obtain rfl := hunique j i t₁ t' who₀ who ht₁ ht' hwho₁ hwho' hsame
        cases hop
        rintro (hover | ⟨pc', hpc', -⟩)
        · obtain ⟨hother, -⟩ | ⟨hact, -⟩ | ⟨_, _, t₂, t₃, hact, ht₂, htask, ht₃, -⟩ :=
            task_of_step hstep j
          · exact absurd rfl (hother _ _)
          · cases hact
          · cases hact
            cases ht.symm.trans ht₂
            cases ht₃.symm.trans ht'
            rw [ServerTask.not_over_of_operates htask hoperates hstage] at hover
            cases hover
        · rw [hrooms, lookup_moved_self] at hpc'
          cases hpc'
      · cases hcall

theorem Tended.unlisted_step (h : s.Tended config authorizer instantMax)
    (hunique : s'.UniqueIds) (hstep : s.step config authorizer instantMax act = some s')
    (htidy : s.LeavesNone config instantMax act s') {i : ℕ} {t' : ServerTask} {who : Identity}
    (ht' : s'.tasks.lookup i = some t') (hwho' : t'.session.identity = some who)
    (hpast : s'.Past i t' who) : who.id ∉ s'.rooms.shared.connectionRooms := by
  intro hlisted'
  by_cases hlisted : who.id ∈ s.rooms.shared.connectionRooms
  · obtain ⟨t, ht, hwho, hbefore⟩ :=
      hpast.before h.owned.coupled hstep htidy ht' hwho' hlisted hlisted'
    exact h.unlisted i t who ht hwho hbefore hlisted
  · obtain ⟨hrooms, -⟩ | ⟨_, _, -, -, hrooms, -⟩ |
      ⟨thread, order, pc, next, hmover, hpc, hop, hrooms, -⟩ := rooms_cases hstep
    · rw [hrooms] at hlisted'
      exact hlisted hlisted'
    · rw [hrooms] at hlisted'
      exact hlisted hlisted'
    · have hafter : who.id ∈ (pc.after s.rooms.shared).connectionRooms := by
        rw [hrooms, moved_shared] at hlisted'
        exact hlisted'
      obtain hold | rfl := mem_connectionRooms_after hafter
      · exact hlisted hold
      · exact h.not_past_of_registerIndex hunique hstep hmover hpc hop hrooms ht' hwho' rfl hpast

/-- Every step keeps what the room manager has with the tasks, if the application registers nothing,
ids do not repeat, no task panics while something is under its id, and no membership is left
unlisted. -/
theorem Tended.step (h : s.Tended config authorizer instantMax)
    (hstep : s.step config authorizer instantMax act = some s') (hact : ServerRegisters act)
    (hfresh : s.FreshIds act s') (htidy : s.LeavesNone config instantMax act s')
    (hkeeps : s.KeepsIndexed act s') : s'.Tended config authorizer instantMax where
  owned := h.owned.step hstep hact
  unique := h.unique.step hstep hfresh
  entered := fun _ hc => h.entered_step hstep hact hfresh hc
  listed := h.listed_step hstep hact hfresh hkeeps
  unlisted := fun _ _ _ ht hwho hpast =>
    h.unlisted_step (h.unique.step hstep hfresh) hstep htidy ht hwho hpast
  pruned := h.pruned_step hstep

/-! ### Runs -/

/-- A join of `a` goes on after `a` has been unregistered. -/
def joinsLate : List ServeAct :=
  [.accept 0, .task 0 (.callback (bareRequest "/")) [], .task 0 (.upgraded .accepted "a") [],
    .task 0 .room [], .task 0 (.session .registered) [], .app (.start 0 (.joinRoom "a" "r")),
    .app (.step 0 []), .task 0 (.session (.connected 0)) [], .task 0 (.session .idle) [],
    .task 0 (.session .teardown) [], .task 0 (.session .taskStep) [],
    .task 0 (.session .taskStep) [], .task 0 (.session .timedOut) [],
    .task 0 (.session .taskStep) [], .task 0 .leave [], .task 0 .room [],
    .task 0 (.session .disconnected) [], .task 0 .release [], .app (.step 0 []), .app (.step 0 []),
    .app (.step 0 [])]

example : ∃ s, exec (step .default AllowAnonymous (10 ^ 18)) (new .default) joinsLate = some s ∧
    s.available = 10000 ∧ s.rooms.Quiet ∧ s.rooms.shared.members ⟨"r", 0⟩ = {"a"} ∧
    ¬ Along (step .default AllowAnonymous (10 ^ 18)) KeepsIndexed (new .default) joinsLate := by
  decide

end Serve
end ArmatureWebsocket
