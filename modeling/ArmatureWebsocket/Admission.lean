import ArmatureWebsocket.ServeSessions

/-! # Registered connections and connection slots

A slot is held by its task and released when the task is dropped, however it ended; the registration
is undone by the last lines of `handle_connection`.  So a task that panics while its connection is
registered, because a callback panics or a timer is out of range, gives its slot back and leaves
the registration behind.

`Session.Panics` says which steps of a task panic.  In every run in which no task panics while its
connection is registered, the registered connections are at most as many as the slots held, and
all of them belong to tasks that are still running (`registered_le_held`). -/

namespace ArmatureWebsocket

open Execution CallPool

/-- The task has panicked. -/
def Stage.isPanic : Stage → Bool
  | .panicked _ => true
  | _ => false

theorem Stage.over_iff {stage : Stage} :
    stage.over = true ↔ stage = .finished ∨ stage.isPanic = true := by
  cases stage <;> simp [Stage.over, Stage.isPanic]

/-- The callback that is running is the last thing before the head of the loop. -/
def Stage.resumesLoop : Stage → Bool
  | .handling callback => callback.resume == .select
  | _ => false

namespace Session

section

variable (config : WebSocketServerConfig) (instantMax : ℕ)

/-- The task's call returns with its next access, and the loop goes back to its head. -/
def loopsBack (s : Session) : Bool :=
  match s.out.pool.threads.lookup .task with
  | none => false
  | some f =>
      match (connStep .task s.out.pool.shared f.pc).2 with
      | .inl _ => false
      | .inr reply => s.stage == .ponging || (s.stage == .pinging && !reply.failed)

/-- A step of a connection's task panics: a callback does, the heartbeat interval is zero, or the
idle deadline, computed at the head of the loop, is out of range. -/
def Panics (s : Session) : SessionAct → Prop
  | .callbackPanicked => True
  | .connected now => config.heartbeatInterval = 0 ∨ instantMax < now + config.connectionTimeout
  | .callbackReturned _ =>
      s.stage.resumesLoop = true ∧ instantMax < s.vars.lastRead + config.connectionTimeout
  | .taskStep => s.loopsBack = true ∧ instantMax < s.vars.lastRead + config.connectionTimeout
  | _ => False

instance (s : Session) (act : SessionAct) : Decidable (s.Panics config instantMax act) :=
  match act with
  | .callbackPanicked => .isTrue trivial
  | .connected _ => inferInstanceAs (Decidable (_ ∨ _))
  | .callbackReturned _ => inferInstanceAs (Decidable (_ ∧ _))
  | .taskStep => inferInstanceAs (Decidable (_ ∧ _))
  | .outside _ | .handshaken _ _ | .registered | .tick | .evicted | .idle | .read _ _
  | .teardown | .joined | .timedOut | .disconnected => .isFalse id

end

variable {config : WebSocketServerConfig} {instantMax : ℕ} {s s' : Session}

theorem loopHead_isPanic_iff : (s.loopHead config instantMax).stage.isPanic = true ↔
    instantMax < s.vars.lastRead + config.connectionTimeout := by
  unfold loopHead
  obtain ⟨hsafe, he⟩ | ⟨hsafe, he⟩ := guarded_cases instantMax s
    (.instantAdd s.vars.lastRead config.connectionTimeout) (s.goto .selecting)
  · have hle : s.vars.lastRead + config.connectionTimeout ≤ instantMax := hsafe
    rw [he]
    exact iff_of_false nofun (by omega)
  · have hlt : ¬ s.vars.lastRead + config.connectionTimeout ≤ instantMax := hsafe
    rw [he]
    exact iff_of_true rfl (by omega)

theorem enterLoop_isPanic_iff {now : ℕ} :
    (s.enterLoop config instantMax now).stage.isPanic = true ↔
      config.heartbeatInterval = 0 ∨ instantMax < now + config.connectionTimeout := by
  unfold enterLoop
  obtain ⟨hsafe, he⟩ | ⟨hsafe, he⟩ := guarded_cases instantMax s
    (.interval config.heartbeatInterval) ({ s with vars := ⟨0, now⟩ }.loopHead config instantMax)
  · have hpos : 0 < config.heartbeatInterval := hsafe
    rw [he, loopHead_isPanic_iff]
    exact (or_iff_right (by omega)).symm
  · have hzero : ¬ 0 < config.heartbeatInterval := hsafe
    rw [he]
    exact iff_of_true rfl (.inl (by omega))

theorem callReturned_isPanic_iff {failed : Bool} :
    (s.callReturned config instantMax failed).stage.isPanic = true ↔
      s.stage.isPanic = true ∨
        (s.stage == .ponging || (s.stage == .pinging && !failed)) = true ∧
          instantMax < s.vars.lastRead + config.connectionTimeout := by
  unfold Session.callReturned
  cases hstage : s.stage with
  | pinging =>
      cases failed with
      | false =>
          refine (loopHead_isPanic_iff (s := s)).trans ?_
          simp [Stage.isPanic]
      | true => simp [Stage.isPanic]
  | ponging =>
      refine (loopHead_isPanic_iff (s := s)).trans ?_
      simp [Stage.isPanic]
  | closing => simp [Stage.isPanic]
  | marking => simp [Stage.isPanic]
  | _ => simp [hstage, Stage.isPanic]

theorem isPanic_iff {act : SessionAct} (hact : act.isHandshaken = false)
    (hstep : s.step config instantMax act = some s') :
    s'.stage.isPanic = true ↔ s.stage.isPanic = true ∨ s.Panics config instantMax act := by
  have hneither : ∀ {stage stage' : Stage}, s.stage = stage → s'.stage = stage' →
      stage.isPanic = false → stage'.isPanic = false → ¬ s.Panics config instantMax act →
      (s'.stage.isPanic = true ↔ s.stage.isPanic = true ∨ s.Panics config instantMax act) := by
    intro stage stage' hs hs' hpanic hpanic' hnot
    rw [hs, hs', hpanic, hpanic']
    exact iff_of_false nofun (not_or.mpr ⟨nofun, hnot⟩)
  cases act with
  | outside a =>
      obtain ⟨-, -, he⟩ := outside_some hstep
      rw [he]
      exact (or_iff_left id).symm
  | handshaken outcome id => cases hact
  | registered =>
      obtain ⟨hstage, he⟩ := registered_some hstep
      have hconnecting : s'.stage = .connecting := by rw [he]; rfl
      exact hneither hstage hconnecting rfl rfl id
  | connected now =>
      obtain ⟨out, hstage, -, rfl⟩ := connected_some hstep
      rw [enterLoop_isPanic_iff, hstage]
      exact (or_iff_right nofun).symm
  | tick =>
      obtain ⟨hstage, ⟨vars, why, -, he⟩ | ⟨vars, -, hbegin⟩⟩ := tick_some hstep
      · have hended : s'.stage = .ended why := by rw [he]; rfl
        exact hneither hstage hended rfl rfl id
      · exact hneither hstage (begin_stage hbegin) rfl rfl id
  | evicted =>
      obtain ⟨out, hstage, -, he⟩ := evicted_some hstep
      have hended : s'.stage = .ended .evicted := by rw [he]; rfl
      exact hneither hstage hended rfl rfl id
  | idle =>
      obtain ⟨hstage, he⟩ := idle_some hstep
      have hended : s'.stage = .ended .idleTimeout := by rw [he]; rfl
      exact hneither hstage hended rfl rfl id
  | read now result =>
      obtain ⟨hstage, rfl⟩ := read_some hstep
      refine hneither hstage rfl rfl ?_ id
      unfold Session.afterRead
      split <;> rfl
  | callbackReturned pong =>
      obtain ⟨callback, hstage, ⟨hresume, rfl⟩ | ⟨hresume, hbegin⟩ | ⟨why, hresume, he⟩⟩ :=
        callbackReturned_some hstep
      · rw [loopHead_isPanic_iff, hstage]
        have hresumes : s.stage.resumesLoop = true := by
          rw [hstage]
          exact beq_iff_eq.mpr hresume
        exact ⟨fun hlt => .inr ⟨hresumes, hlt⟩, fun h => (h.resolve_left nofun).2⟩
      · refine hneither hstage (begin_stage hbegin) rfl rfl fun h => ?_
        have hresumes := h.1
        rw [hstage, Stage.resumesLoop, hresume] at hresumes
        cases hresumes
      · have hended : s'.stage = .ended why := by rw [he]; rfl
        refine hneither hstage hended rfl rfl fun h => ?_
        have hresumes := h.1
        rw [hstage, Stage.resumesLoop, hresume] at hresumes
        cases hresumes
  | callbackPanicked =>
      obtain ⟨-, out, -, rfl⟩ | ⟨-, rfl⟩ := callbackPanicked_some hstep <;>
        exact iff_of_true rfl (.inr trivial)
  | taskStep =>
      obtain ⟨f, out, hf, -, -, ⟨pc, hnext, rfl⟩ | ⟨reply, hnext, rfl⟩⟩ := taskStep_some hstep
      · have hnot : s.loopsBack = false := by
          unfold loopsBack
          rw [hf]
          simp only [hnext]
        refine (or_iff_left fun h => ?_).symm
        rw [h.1] at hnot
        cases hnot
      · have hback :
            s.loopsBack = (s.stage == .ponging || (s.stage == .pinging && !reply.failed)) := by
          unfold loopsBack
          rw [hf]
          simp only [hnext]
        rw [callReturned_isPanic_iff]
        show _ ↔ _ ∨ s.loopsBack = true ∧ _
        rw [hback]
        rfl
  | teardown =>
      obtain ⟨⟨why, hstage⟩, hbegin⟩ := teardown_some hstep
      exact hneither hstage (begin_stage hbegin) rfl rfl id
  | joined =>
      obtain ⟨hstage, -, hbegin⟩ := joined_some hstep
      exact hneither hstage (begin_stage hbegin) rfl rfl id
  | timedOut =>
      obtain ⟨hstage, hbegin⟩ := timedOut_some hstep
      exact hneither hstage (begin_stage hbegin) rfl rfl id
  | disconnected =>
      obtain ⟨hstage, he⟩ := disconnected_some hstep
      have hfinished : s'.stage = .finished := by rw [he]; rfl
      exact hneither hstage hfinished rfl rfl id

end Session
namespace Serve

variable {config : WebSocketServerConfig} {authorizer : HandshakeAuthorizer} {instantMax : ℕ}
  {s s' : Serve}

/-! ### The slots -/

/-- The tasks that hold a slot. -/
def holders (tasks : KeyMap ℕ ServerTask) : Finset ℕ :=
  tasks.keys.filter fun i => (tasks.lookup i).any (·.holdsSlot)

/-- The number of slots held. -/
def held (s : Serve) : ℕ := (holders s.tasks).card

theorem mem_holders_iff {tasks : KeyMap ℕ ServerTask} {i : ℕ} :
    i ∈ holders tasks ↔ ∃ t, tasks.lookup i = some t ∧ t.holdsSlot = true := by
  unfold holders
  rw [Finset.mem_filter, Finmap.mem_keys, Option.any_eq_true]
  constructor
  · rintro ⟨-, t, ht, hholds⟩
    exact ⟨t, ht, hholds⟩
  · rintro ⟨t, ht, hholds⟩
    exact ⟨Finmap.mem_of_lookup_eq_some ht, t, ht, hholds⟩

theorem holders_insert (tasks : KeyMap ℕ ServerTask) (i : ℕ) (t : ServerTask) :
    holders (tasks.insert i t) =
      if t.holdsSlot then insert i (holders tasks) else (holders tasks).erase i := by
  ext j
  rw [mem_holders_iff, KeyMap.lookup_insert_ite]
  by_cases hj : j = i
  · subst hj
    cases ht : t.holdsSlot <;> simp [ht]
  · rw [if_neg hj, ← mem_holders_iff]
    cases t.holdsSlot <;> simp [hj]

/-- Every slot is available or held by a task, and a task that has given its slot back is done. -/
structure Slots (config : WebSocketServerConfig) (s : Serve) : Prop where
  count : s.held + s.available = config.maxConnections
  kept : ∀ i t, s.tasks.lookup i = some t → t.holdsSlot = false → t.session.stage.done = true

theorem slots_new : (new config).Slots config where
  count := by
    show (holders ∅).card + config.maxConnections = _
    simp [holders]
  kept := fun i t h => by simp [new] at h

theorem kept_step {t t' : ServerTask} {act : TaskAct}
    (h : t.holdsSlot = false → t.session.stage.done = true)
    (hstep : t.step config authorizer instantMax act = some t') :
    t'.holdsSlot = false → t'.session.stage.done = true := by
  have hsession : ∀ {a}, t.session.step config instantMax a = some t'.session →
      t'.holdsSlot = t.holdsSlot → t'.holdsSlot = false → t'.session.stage.done = true := by
    intro a ha hsame hnot
    have hdone : t.session.stage.done = true := h (hsame ▸ hnot)
    rw [(Session.done_of_step hdone ha).1]
    exact hdone
  cases act with
  | callback request =>
      obtain ⟨-, -, rfl⟩ := ServerTask.callback_some hstep
      exact h
  | upgraded outcome id =>
      obtain ⟨hstep, -, hsame⟩ := ServerTask.upgraded_some hstep
      exact hsession hstep hsame
  | session act =>
      obtain ⟨-, hstep, -, hsame⟩ := ServerTask.session_some hstep
      exact hsession hstep hsame
  | leave =>
      obtain ⟨-, rfl⟩ := ServerTask.leave_some hstep
      exact h
  | room =>
      obtain rfl := ServerTask.room_some hstep
      exact h
  | release =>
      obtain ⟨hdone, -, rfl⟩ := ServerTask.release_some hstep
      exact fun _ => hdone

theorem holdsSlot_step {t t' : ServerTask} {act : TaskAct} (hact : act ≠ .release)
    (hstep : t.step config authorizer instantMax act = some t') : t'.holdsSlot = t.holdsSlot := by
  cases act with
  | callback request =>
      obtain ⟨-, -, rfl⟩ := ServerTask.callback_some hstep
      rfl
  | upgraded outcome id => exact (ServerTask.upgraded_some hstep).2.2
  | session act => exact (ServerTask.session_some hstep).2.2.2
  | leave =>
      obtain ⟨-, rfl⟩ := ServerTask.leave_some hstep
      rfl
  | room =>
      obtain rfl := ServerTask.room_some hstep
      rfl
  | release => exact absurd rfl hact

theorem holders_of_same {tasks : KeyMap ℕ ServerTask} {i : ℕ} {t t' : ServerTask}
    (ht : tasks.lookup i = some t) (hsame : t'.holdsSlot = t.holdsSlot) :
    holders (tasks.insert i t') = holders tasks := by
  rw [holders_insert, hsame]
  split_ifs with hholds
  · exact Finset.insert_eq_self.mpr (mem_holders_iff.mpr ⟨t, ht, hholds⟩)
  · refine Finset.erase_eq_of_notMem fun hmem => ?_
    obtain ⟨t₁, ht₁, hholds₁⟩ := mem_holders_iff.mp hmem
    rw [ht] at ht₁
    cases ht₁
    exact hholds hholds₁

theorem shared_available {i : ℕ} {t t' : ServerTask} {order : List String} {a : TaskAct}
    (hrelease : a ≠ .release) (h : s.shared i t t' order a = some s') :
    s'.available = s.available := by
  obtain ⟨_, _, who, -, -, -, rfl⟩ | ⟨who, -, -, -, rfl⟩ | ⟨pc, next, -, -, rfl, -⟩ | ⟨rfl, -⟩ |
    ⟨-, -, -, rfl, -⟩ := shared_cases h
  · rfl
  · rfl
  · rfl
  · exact absurd rfl hrelease
  · rfl

theorem Slots.step {act : ServeAct} (h : s.Slots config)
    (hstep : s.step config authorizer instantMax act = some s') : s'.Slots config where
  count := by
    have hcount : (holders s.tasks).card + s.available = config.maxConnections := h.count
    obtain ⟨i, rfl, hi, havailable, rfl⟩ | ⟨-, rfl⟩ |
      ⟨i, a, order, t, t', rfl, hi, htask, hshared⟩ | ⟨_, _, rfl, -, -, rfl⟩ |
      ⟨_, _, _, _, rfl, -, -, rfl⟩ := step_cases hstep
    · have hnew : i ∉ holders s.tasks := by
        intro hmem
        obtain ⟨t, ht, -⟩ := mem_holders_iff.mp hmem
        rw [hi] at ht
        cases ht
      show (holders (s.tasks.insert i (.new config))).card + (s.available - 1) = _
      have hholds : (ServerTask.new config).holdsSlot = true := rfl
      rw [holders_insert, if_pos hholds, Finset.card_insert_of_notMem hnew]
      omega
    · exact hcount
    · show (holders s'.tasks).card + s'.available = _
      rw [shared_tasks hshared]
      show (holders (s.tasks.insert i t')).card + s'.available = _
      by_cases hrelease : a = .release
      · subst hrelease
        cases hshared
        obtain ⟨-, hholds, rfl⟩ := ServerTask.release_some htask
        have hmem : i ∈ holders s.tasks := mem_holders_iff.mpr ⟨t, hi, hholds⟩
        have hpos : 0 < (holders s.tasks).card := Finset.card_pos.mpr ⟨i, hmem⟩
        rw [holders_insert, if_neg nofun, Finset.card_erase_of_mem hmem]
        show _ + (s.available + 1) = _
        omega
      · rw [holders_of_same hi (holdsSlot_step hrelease htask), shared_available hrelease hshared]
        exact hcount
    · exact hcount
    · exact hcount
  kept := by
    intro j t' ht'
    obtain hold | ⟨-, rfl⟩ | ⟨a, order, t, -, hj, htask⟩ := task_cases hstep ht'
    · exact h.kept j t' hold
    · intro hnot
      cases hnot
    · exact kept_step (h.kept j t hj) htask

/-! ### Who is registered -/

/-- The application does not register anything. -/
def ServerRegisters : ServeAct → Prop
  | .app (.start _ (.registerConnection _)) => False
  | _ => True

instance : DecidablePred ServerRegisters := fun act =>
  match act with
  | .app (.start _ (.registerConnection _)) => .isFalse id
  | .app (.start _ (.unregisterConnection _)) | .app (.start _ (.createRoom _))
  | .app (.start _ (.deleteRoom _)) | .app (.start _ (.joinRoom _ _))
  | .app (.start _ (.leaveRoom _ _)) | .app (.step _ _) | .accept _ | .limitReached
  | .acceptFailed | .task _ _ _ => .isTrue trivial

/-- The registered connections are those in the room manager, and no thread of the application is
registering one. -/
structure OwnKeys (s : Serve) : Prop where
  keys : s.rooms.shared.connections.keys = s.registered
  own : ∀ t pc, s.rooms.threads.lookup (.app t) = some pc → ∀ c, pc.op ≠ .register c

theorem ownKeys_new : (new config).OwnKeys where
  keys := rfl
  own := fun t pc h => by simp [new, RoomPool.new] at h

theorem keys_after {maps : RoomMaps} {registered : Finset ConnectionId} {who : RoomThread}
    {pc : RoomPc} (hkeys : maps.connections.keys = registered)
    (hown : ∀ t connection, who = .app t → pc ≠ .registerConnections connection) :
    (pc.after maps).connections.keys = pc.noted who registered := by
  subst hkeys
  cases pc with
  | registerConnections connection =>
      cases who with
      | app t => exact absurd rfl (hown t connection rfl)
      | task i =>
          ext c
          simp [RoomPc.after, RoomPc.noted, Finmap.mem_keys, Finmap.mem_insert]
  | unregisterConnections c =>
      ext c'
      simp [RoomPc.after, RoomPc.noted]
  | createEntry r => simp [RoomPc.after, RoomPc.noted]
  | joinEntry c r => simp [RoomPc.after, RoomPc.noted]
  | _ => rfl

theorem OwnKeys.step {act : ServeAct} (h : s.OwnKeys)
    (hstep : s.step config authorizer instantMax act = some s') (hact : ServerRegisters act) :
    s'.OwnKeys := by
  obtain ⟨hrooms, hregistered, -⟩ | ⟨who, start, hbegins, -, hrooms, hregistered, -⟩ |
    ⟨who, order, pc, next, -, hpc, hop, hrooms, hregistered⟩ := rooms_cases hstep
  · refine ⟨?_, ?_⟩
    · rw [hrooms, hregistered]
      exact h.keys
    · rw [hrooms]
      exact h.own
  · refine ⟨?_, fun t pc hlookup => ?_⟩
    · rw [hrooms, hregistered]
      exact h.keys
    · rw [hrooms, lookup_begun] at hlookup
      split_ifs at hlookup with hthread
      · subst hthread
        cases hlookup
        intro c hop
        cases hbegins with
        | app clones =>
            cases start with
            | registerConnection made => exact hact
            | _ => cases hop
      · exact h.own t pc hlookup
  · refine ⟨?_, fun t pc' hlookup => ?_⟩
    · rw [hrooms, hregistered, moved_shared]
      refine keys_after h.keys ?_
      rintro t connection rfl rfl
      exact h.own t _ hpc _ rfl
    · rw [hrooms] at hlookup
      obtain ⟨-, hold⟩ | ⟨rfl, rfl⟩ := lookup_moved hlookup
      · exact h.own t pc' hold
      · rw [roomStep_op hop]
        exact h.own t pc hpc

/-- As long as only the server registers connections, the registered connections are those in the
room manager. -/
theorem keys_eq_registered {acts : List ServeAct}
    (hrun : exec (step config authorizer instantMax) (new config) acts = some s)
    (hacts : ∀ act ∈ acts, ServerRegisters act) :
    s.rooms.shared.connections.keys = s.registered :=
  (exec_invariant_along (P := OwnKeys) (fun _ _ _ h hs hq => h.step hs hq) ownKeys_new hrun
    (along_of_forall_mem hacts)).keys

/-- The connection belongs to a task that is still running. -/
def Running (s : Serve) (c : ConnectionId) : Prop :=
  ∃ i t who, s.tasks.lookup i = some t ∧ t.session.identity = some who ∧ who.id = c ∧
    t.session.stage.over = false

/-- The registered connections are at most as many as the slots held, these at most as many as there
are, and every registered connection belongs to a task that is still running. -/
structure Bounded (config : WebSocketServerConfig) (s : Serve) : Prop where
  registered_le : s.registered.card ≤ s.held
  held_le : s.held ≤ config.maxConnections
  running : ∀ c ∈ s.registered, s.Running c

/-- No task panics while its connection is registered. -/
def Calm (config : WebSocketServerConfig) (instantMax : ℕ) (s : Serve) : ServeAct → Serve → Prop
  | .task i (.session act) _, _ => ∀ t ∈ s.tasks.lookup i, ∀ who ∈ t.session.identity,
      who.id ∈ s.registered → ¬ t.session.Panics config instantMax act
  | _, _ => True

instance (s : Serve) (act : ServeAct) (s' : Serve) : Decidable (s.Calm config instantMax act s') :=
  match act with
  | .task _ (.session _) _ => inferInstanceAs (Decidable (∀ t ∈ _, ∀ who ∈ _, _ → _))
  | .task _ (.callback _) _ | .task _ (.upgraded _ _) _ | .task _ .leave _ | .task _ .room _
  | .task _ .release _ | .accept _ | .limitReached | .acceptFailed | .app _ => .isTrue trivial

/-- The id of a new connection is not that of another one. -/
def FreshIds (s : Serve) : ServeAct → Serve → Prop
  | .task _ (.upgraded _ id) _, _ => ∀ j t who, s.tasks.lookup j = some t →
      t.session.identity = some who → who.id ≠ id
  | _, _ => True

theorem bounded_of_running (hslots : s.Slots config) (hauth : s.Authorized config authorizer)
    (hrunning : ∀ c ∈ s.registered, s.Running c) : s.Bounded config where
  registered_le := by
    let idOf : ℕ → ConnectionId := fun i =>
      (((s.tasks.lookup i).bind (·.session.identity)).map Identity.id).getD ""
    have hsubset : s.registered ⊆ (holders s.tasks).image idOf := by
      intro c hc
      obtain ⟨i, t, who, ht, hwho, hid, hover⟩ := hrunning c hc
      refine Finset.mem_image.mpr ⟨i, mem_holders_iff.mpr ⟨t, ht, ?_⟩, ?_⟩
      · -- a task that is running has not come to its end
        by_contra hnot
        have hdone := hslots.kept i t ht (by simpa using hnot)
        cases hstage : t.session.stage with
        | refused =>
            rw [(hauth.tasks i t ht).session.early (.inr hstage)] at hwho
            cases hwho
        | finished => rw [hstage] at hover; cases hover
        | panicked why => rw [hstage] at hover; cases hover
        | _ => rw [hstage] at hdone; cases hdone
      · simp [idOf, ht, hwho, hid]
    exact (Finset.card_le_card hsubset).trans Finset.card_image_le
  held_le := by
    have hcount := hslots.count
    omega
  running := hrunning

/-- A running task with an identity is over after a step only if its connection is unregistered or
it panics. -/
theorem over_of_step {t t' : ServerTask} {act : TaskAct} {who : Identity}
    (hauth : t.Authorized config authorizer)
    (hstep : t.step config authorizer instantMax act = some t')
    (hwho : t.session.identity = some who) (hover : t.session.stage.over = false)
    (hover' : t'.session.stage.over = true) :
    act = .session .disconnected ∨
      ∃ a, act = .session a ∧ t.session.Panics config instantMax a := by
  have hfinished : t.session.stage ≠ .finished := by
    intro he
    rw [he] at hover
    cases hover
  have hpanic : t.session.stage.isPanic = false := by
    cases hp : t.session.stage.isPanic with
    | false => rfl
    | true =>
        rw [Stage.over_iff.mpr (.inr hp)] at hover
        cases hover
  cases act with
  | callback request =>
      obtain ⟨-, -, rfl⟩ := ServerTask.callback_some hstep
      rw [hover] at hover'
      cases hover'
  | upgraded outcome id =>
      have hstage := (Session.handshaken_some (ServerTask.upgraded_some hstep).1).1
      rw [hauth.session.early (.inl hstage)] at hwho
      cases hwho
  | session a =>
      obtain ⟨hact, hsession, -⟩ := ServerTask.session_some hstep
      obtain he | hp := Stage.over_iff.mp hover'
      · obtain hsame | hunderway | ⟨-, hrefused⟩ | ⟨rfl, -⟩ := Session.stage_of_step hsession
        · rw [hsame] at he
          exact absurd he hfinished
        · rw [he] at hunderway
          cases hunderway
        · rw [he] at hrefused
          cases hrefused
        · exact .inl rfl
      · obtain hbefore | hpanics := (Session.isPanic_iff hact hsession).mp hp
        · rw [hpanic] at hbefore
          cases hbefore
        · exact .inr ⟨a, rfl, hpanics⟩
  | leave =>
      obtain ⟨-, rfl⟩ := ServerTask.leave_some hstep
      rw [hover] at hover'
      cases hover'
  | room =>
      obtain rfl := ServerTask.room_some hstep
      rw [hover] at hover'
      cases hover'
  | release =>
      obtain ⟨-, -, rfl⟩ := ServerTask.release_some hstep
      rw [hover] at hover'
      cases hover'

/-- `handle_connection` ends with the last operation of the call that unregisters its connection. -/
theorem Coupled.unregistered {i : ℕ} {t : ServerTask} {who : Identity} {order : List String}
    (h : s.Coupled config authorizer instantMax)
    (hstep : s.step config authorizer instantMax (.task i (.session .disconnected) order) = some s')
    (ht : s.tasks.lookup i = some t) (hwho : t.session.identity = some who) :
    s.rooms.threads.lookup (.task i) = some (.unregisterConnections who.id) ∧
      s'.registered = s.registered.erase who.id := by
  obtain ⟨hother, -⟩ | ⟨hact, -⟩ | ⟨a, order', t₁, t', hact, ht₁, htask, -, hshared⟩ :=
    task_of_step hstep i
  · exact absurd rfl (hother _ _)
  · cases hact
  cases hact
  cases ht.symm.trans ht₁
  obtain ⟨_, _, _, hact, -⟩ | ⟨_, hact, -⟩ |
    ⟨pc, next, hpc, hop, rfl, ⟨hact, -⟩ | ⟨-, reply, rfl⟩⟩ | ⟨hact, -⟩ | ⟨-, -, hact, -⟩ :=
    shared_cases hshared
  · cases hact
  · cases hact
  · cases hact
  · have hpc' : s.rooms.threads.lookup (.task i) = some pc := hpc
    have hat := h.callsAt i t ht
    rw [hpc'] at hat
    obtain ⟨who', hwho', ⟨hs, -⟩ | ⟨-, hunregister⟩⟩ := hat
    · rw [(Session.disconnected_some (ServerTask.session_some htask).2.1).1] at hs
      cases hs
    · rw [hwho] at hwho'
      cases hwho'
      obtain rfl := unregisterConnections_of_reply hop hunregister
      exact ⟨hpc', rfl⟩
  · cases hact
  · cases hact

/-- A registered connection of a running task stays so in a step that keeps it registered, unless
its task panics. -/
theorem Running.step {act : ServeAct} {c : ConnectionId} (hrunning : s.Running c)
    (h : s.Coupled config authorizer instantMax)
    (hstep : s.step config authorizer instantMax act = some s')
    (hcalm : s.Calm config instantMax act s') (hc : c ∈ s.registered)
    (hc' : c ∈ s'.registered) : s'.Running c := by
  obtain ⟨i, t, who, ht, hwho, rfl, hover⟩ := hrunning
  obtain ⟨-, hsame, -⟩ | ⟨-, hnone, -⟩ | ⟨a, order, t₁, t', rfl, ht₁, htask, hi', -⟩ :=
    task_of_step hstep i
  · exact ⟨i, t, who, by rw [hsame, ht], hwho, rfl, hover⟩
  · rw [hnone] at ht
    cases ht
  · cases ht.symm.trans ht₁
    have hauth := h.authorized.tasks i t ht
    refine ⟨i, t', who, hi', hauth.identity_step htask hwho, rfl,
      Bool.eq_false_iff.mpr fun hover' => ?_⟩
    obtain rfl | ⟨a, rfl, hpanics⟩ := over_of_step hauth htask hwho hover hover'
    · rw [(h.unregistered hstep ht hwho).2] at hc'
      exact Finset.notMem_erase who.id s.registered hc'
    · exact hcalm t ht who hwho hc hpanics

theorem running_of_registered {act : ServeAct} {c : ConnectionId}
    (h : s.Coupled config authorizer instantMax)
    (hstep : s.step config authorizer instantMax act = some s') (hc : c ∉ s.registered)
    (hc' : c ∈ s'.registered) : s'.Running c := by
  have h' := h.step hstep
  obtain ⟨-, hregistered, -⟩ | ⟨_, _, -, -, -, hregistered, -⟩ |
    ⟨who, order, pc, next, -, hpc, hop, hrooms, hregistered⟩ := rooms_cases hstep
  · rw [hregistered] at hc'
    exact absurd hc' hc
  · rw [hregistered] at hc'
    exact absurd hc' hc
  rw [hregistered] at hc'
  cases pc with
  | registerConnections connection =>
      cases who with
      | app t => exact absurd hc' hc
      | task i =>
          obtain rfl := (Finset.mem_insert.mp hc').resolve_right hc
          cases hop
          have hthread :
              s'.rooms.threads.lookup (.task i) = some (.registerIndex connection.id) := by
            rw [hrooms, lookup_moved_self]
            rfl
          obtain ⟨t', who, ht', hwho⟩ := h'.authorized.caller i _ hthread
          have hat := h'.callsAt i t' ht'
          rw [hthread] at hat
          obtain ⟨who', hwho', ⟨hs, hcall | hcall⟩ | ⟨-, hcall⟩⟩ := hat
          · cases hcall
          · refine ⟨i, t', who', ht', hwho', (RoomPc.registerIndex.inj hcall).symm, ?_⟩
            rw [hs]
            rfl
          · cases hcall
  | unregisterConnections d => exact absurd (Finset.mem_of_mem_erase hc') hc
  | _ => exact absurd hc' hc

/-- A step in which no task panics while its connection is registered keeps the registered
connections with running tasks. -/
theorem running_step {act : ServeAct} (hrunning : ∀ c ∈ s.registered, s.Running c)
    (h : s.Coupled config authorizer instantMax)
    (hstep : s.step config authorizer instantMax act = some s')
    (hcalm : s.Calm config instantMax act s') : ∀ c ∈ s'.registered, s'.Running c := by
  intro c hc'
  by_cases hc : c ∈ s.registered
  · exact (hrunning c hc).step h hstep hcalm hc hc'
  · exact running_of_registered h hstep hc hc'

/-! ### The exact condition, when ids do not repeat -/

/-- No two connections have the same id. -/
def UniqueIds (s : Serve) : Prop :=
  ∀ i j t t' who who', s.tasks.lookup i = some t → s.tasks.lookup j = some t' →
    t.session.identity = some who → t'.session.identity = some who' → who.id = who'.id → i = j

theorem uniqueIds_new : (new config).UniqueIds := by
  intro i j t t' who who' ht
  simp [new] at ht

theorem identity_before {act : ServeAct} (hstep : s.step config authorizer instantMax act = some s')
    {i : ℕ} {t' : ServerTask} {who : Identity} (ht' : s'.tasks.lookup i = some t')
    (hwho : t'.session.identity = some who) :
    (∃ t, s.tasks.lookup i = some t ∧ t.session.identity = some who) ∨
      ∃ outcome order, act = .task i (.upgraded outcome who.id) order := by
  obtain hold | ⟨-, rfl⟩ | ⟨a, order, t, rfl, hi, htask⟩ := task_cases hstep ht'
  · exact .inl ⟨t', hold, hwho⟩
  · cases hwho
  · obtain hsame | ⟨outcome, id, principal, rfl, -, -, he⟩ := ServerTask.identity_cases htask
    · rw [hsame] at hwho
      exact .inl ⟨t, hi, hwho⟩
    · rw [he] at hwho
      cases hwho
      exact .inr ⟨outcome, order, rfl⟩

theorem UniqueIds.step {act : ServeAct} (h : s.UniqueIds)
    (hstep : s.step config authorizer instantMax act = some s') (hfresh : s.FreshIds act s') :
    s'.UniqueIds := by
  intro i j t t' who who' ht ht' hwho hwho' hid
  obtain ⟨t₁, ht₁, hwho₁⟩ | ⟨outcome, order, rfl⟩ := identity_before hstep ht hwho
  · obtain ⟨t₂, ht₂, hwho₂⟩ | ⟨outcome, order, rfl⟩ := identity_before hstep ht' hwho'
    · exact h i j t₁ t₂ who who' ht₁ ht₂ hwho₁ hwho₂ hid
    · exact absurd hid (hfresh i t₁ who ht₁ hwho₁)
  · obtain ⟨t₂, ht₂, hwho₂⟩ | ⟨outcome', order', hact⟩ := identity_before hstep ht' hwho'
    · exact absurd hid.symm (hfresh j t₂ who' ht₂ hwho₂)
    · injection hact

/-- A step after which every registered connection has a running task is one in which no task panics
while its connection is registered. -/
theorem calm_of_running {act : ServeAct} (hauth : s.Authorized config authorizer)
    (hstep : s.step config authorizer instantMax act = some s') (hunique : s'.UniqueIds)
    (hrunning : ∀ c ∈ s'.registered, s'.Running c) : s.Calm config instantMax act s' := by
  obtain ⟨j, rfl, -⟩ | ⟨rfl | rfl, -⟩ | ⟨j, a, order, t, t', rfl, hj, htask, hshared⟩ |
    ⟨_, _, rfl, -⟩ | ⟨_, _, _, _, rfl, -⟩ := step_cases hstep
  · exact trivial
  · exact trivial
  · exact trivial
  · cases a with
    | session act =>
        intro t₁ ht₁ who hwho hc hpanics
        cases hj.symm.trans ht₁
        obtain ⟨hact, hsession, -⟩ := ServerTask.session_some htask
        have hsame : s' = { s with tasks := s.tasks.insert j t' } := by
          obtain ⟨_, _, _, hact, -⟩ | ⟨_, hact, -⟩ | ⟨_, _, -, -, -, ⟨hact, -⟩ | ⟨hreturns, -⟩⟩ |
            ⟨hact, -⟩ | ⟨-, -, -, he, -⟩ := shared_cases hshared
          · cases hact
          · cases hact
          · cases hact
          · cases act with
            | registered => exact hpanics.elim
            | disconnected => exact hpanics.elim
            | _ => cases hreturns
          · cases hact
          · exact he
        have htasks : s'.tasks.lookup j = some t' := by
          rw [hsame, KeyMap.lookup_insert_ite, if_pos rfl]
        have hc' : who.id ∈ s'.registered := by
          rw [hsame]
          exact hc
        obtain ⟨i, t₂, who₂, ht₂, hwho₂, hid, hover⟩ := hrunning who.id hc'
        have hwho' : t'.session.identity = some who :=
          (hauth.tasks j t hj).identity_step htask hwho
        obtain rfl : i = j := hunique i j t₂ t' who₂ who ht₂ htasks hwho₂ hwho' hid
        rw [htasks] at ht₂
        cases ht₂
        have hpanic : t'.session.stage.isPanic = true :=
          (Session.isPanic_iff hact hsession).mpr (.inr hpanics)
        rw [Stage.over_iff.mpr (.inr hpanic)] at hover
        cases hover
    | _ => exact trivial
  · exact trivial
  · exact trivial

/-- **Registered connections and slots**: in every run of the server in which no task panics while
its connection is registered, the registered connections are at all times at most as many as the
slots held, these at most `max_connections`, and every registered connection belongs to a task that
is still running.  If ids do not repeat, this is so in every state of a run only if no task panics
while its connection is registered.  As long as the application registers none, the registered
connections are the connections in the room manager. -/
theorem registered_le_held (config : WebSocketServerConfig) (authorizer : HandshakeAuthorizer)
    (instantMax : ℕ) (acts : List ServeAct) :
    (∀ s, exec (step config authorizer instantMax) (new config) acts = some s →
      Along (step config authorizer instantMax) (Calm config instantMax) (new config) acts →
        s.Bounded config) ∧
    (Along (step config authorizer instantMax) FreshIds (new config) acts →
      (Along (step config authorizer instantMax) (fun _ _ s' => s'.Bounded config) (new config)
          acts ↔
        Along (step config authorizer instantMax) (Calm config instantMax) (new config) acts)) ∧
    ∀ s, exec (step config authorizer instantMax) (new config) acts = some s →
      (∀ act ∈ acts, ServerRegisters act) → s.rooms.shared.connections.keys = s.registered := by
  have hnew : ∀ c ∈ (new config).registered, (new config).Running c := by
    intro c hc
    exact absurd hc (Finset.notMem_empty c)
  have hauthorized : (new config).Authorized config authorizer := authorized_new
  have hcoupled : (new config).Coupled config authorizer instantMax := coupled_new
  have hbounded : (new config).Bounded config := bounded_of_running slots_new hauthorized hnew
  refine ⟨?_, ?_, fun s hrun hacts => keys_eq_registered hrun hacts⟩
  · intro s hrun hcalm
    have h : (s.Slots config ∧ s.Coupled config authorizer instantMax) ∧ s.Bounded config := by
      refine exec_invariant_along (P := fun s => (s.Slots config ∧
        s.Coupled config authorizer instantMax) ∧ s.Bounded config) ?_
        ⟨⟨slots_new, hcoupled⟩, hbounded⟩ hrun hcalm
      rintro s₁ act s₂ ⟨⟨hslots, h₁⟩, hb⟩ hstep hc
      have h₂ := h₁.step hstep
      exact ⟨⟨hslots.step hstep, h₂⟩, bounded_of_running (hslots.step hstep) h₂.authorized
        (running_step hb.running h₁ hstep hc)⟩
    exact h.2
  · intro hfresh
    refine along_iff_of_kept (I := fun s => s.Slots config ∧
      s.Coupled config authorizer instantMax ∧ s.UniqueIds) ?_
      ⟨slots_new, hcoupled, uniqueIds_new⟩ hbounded hfresh
    rintro s₁ act s₂ ⟨hslots, h₁, hunique⟩ hb hstep hf
    have h₂ := h₁.step hstep
    have hunique' : s₂.UniqueIds := hunique.step hstep hf
    refine ⟨⟨hslots.step hstep, h₂, hunique'⟩, ?_, ?_⟩
    · intro hb'
      exact calm_of_running h₁.authorized hstep hunique' hb'.running
    · intro hc
      exact bounded_of_running (hslots.step hstep) h₂.authorized
        (running_step hb.running h₁ hstep hc)

theorem registered_le_held_oneUpgraded :
    ∃ s, exec (step .default AllowAnonymous (10 ^ 18)) (new .default) oneUpgraded = some s ∧
      s.registered = {"a"} ∧ s.Running "a" := by
  obtain ⟨s, hrun, hregistered⟩ : ∃ s,
      exec (step .default AllowAnonymous (10 ^ 18)) (new .default) oneUpgraded = some s ∧
        s.registered = {"a"} := by decide
  have hbounded : s.Bounded .default :=
    (registered_le_held .default AllowAnonymous (10 ^ 18) oneUpgraded).1 s hrun (by decide)
  refine ⟨s, hrun, hregistered, hbounded.running "a" ?_⟩
  rw [hregistered]
  exact Finset.mem_singleton_self "a"

/-- A connection is upgraded, and `on_connect` panics. -/
def panicsInOnConnect : List ServeAct :=
  [.accept 0, .task 0 (.callback ⟨"GET", "/", []⟩) [], .task 0 (.upgraded .accepted "a") [],
    .task 0 .room [], .task 0 (.session .registered) [], .task 0 (.session .callbackPanicked) [],
    .task 0 .release []]

/-- The connection is still registered and no slot is held. -/
theorem registered_of_panicsInOnConnect :
    ∃ s, exec (step .default AllowAnonymous (10 ^ 18)) (new .default) panicsInOnConnect = some s ∧
      s.registered.card = 1 ∧ "a" ∈ s.rooms.shared.connections ∧ s.held = 0 ∧
      (s.tasks.lookup 0).map (·.session.stage) = some (.panicked .callback) := by
  decide

end Serve
end ArmatureWebsocket
