import ArmatureWebsocket.Session

/-! # A session with a clock, a ticker and a socket

`TimedSession` puts a session on a clock.  The ticker is due at `nextTick`; a tick that is taken
moves it on by one interval, from when it was due and not from when it was taken, so ticks that
were not taken in time stay due one after the other.  The socket yields its frames in order, each
from its arrival on.

Time passes in the handshake, in the callbacks and in the waits of the teardown for as long as they
take.  In the loop it passes only until one of the four branches is ready, and the rest of the task
is code that does not wait.  When several branches are ready, any of them is taken.

The steps of a timed session other than the passing of time are steps of the session
(`step_session`), and its runs are runs of the session that read the clock at the same instants
(`session_run`). -/

namespace ArmatureWebsocket

open Execution

/-- What a socket yields, and from which instant on. -/
structure Socket where
  arrival : ℕ → ℕ
  yields : ℕ → ReadResult
  ordered : Monotone arrival

/-- A session with the clock, the instant at which the ticker is due, and the number of frames read
from the socket. -/
structure TimedSession where
  session : Session
  now : ℕ
  nextTick : ℕ
  taken : ℕ

/-- The steps of a session, those that depend on the clock or the socket named, and the passing of
time. -/
inductive TimedAct where
  | elapse (d : ℕ)
  | connected
  | tick
  | idle
  | read
  | other (act : SessionAct)

/-- The task is in the middle of code that does not wait. -/
def Stage.busy : Stage → Bool
  | .registering => true
  | .pinging => true
  | .ponging => true
  | .ended _ => true
  | .closing => true
  | .marking => true
  | _ => false

/-- The step depends on neither the clock nor the socket. -/
def SessionAct.untimed : SessionAct → Bool
  | .connected _ => false
  | .tick => false
  | .idle => false
  | .read _ _ => false
  | _ => true

namespace TimedSession

section

variable (config : WebSocketServerConfig) (instantMax : ℕ) (socket : Socket)

/-- A task about to do the handshake. -/
def new (now : ℕ) : TimedSession := ⟨.new config, now, 0, 0⟩

/-- The instant at which the idle branch is ready. -/
def idleDeadline (t : TimedSession) : ℕ := t.session.vars.lastRead + config.connectionTimeout

/-- The instant from which on the next frame can be read. -/
def nextFrame (t : TimedSession) : ℕ := socket.arrival t.taken

/-- The time that can pass before the task moves: none in code that does not wait, and in the loop
none past the first moment at which a branch is ready. -/
def MayElapse (t : TimedSession) (d : ℕ) : Prop :=
  (t.session.stage.busy = true → d = 0) ∧
    (t.session.stage = .selecting → d = 0 ∨ t.session.out.pool.shared.evict = false ∧
      t.now + d ≤ t.nextTick ∧ t.now + d ≤ t.idleDeadline config ∧
      t.now + d ≤ t.nextFrame socket)

instance (t : TimedSession) (d : ℕ) : Decidable (t.MayElapse config socket d) :=
  inferInstanceAs (Decidable ((_ → _) ∧ (_ → _)))

/-- The instant of a step that enters the loop or reads. -/
def reading (t : TimedSession) : TimedAct → Option ℕ
  | .connected => some t.now
  | .read => some t.now
  | _ => none

/-- The steps of a timed session. -/
def step (t : TimedSession) : TimedAct → Option TimedSession
  | .elapse d => if t.MayElapse config socket d then some { t with now := t.now + d } else none
  | .connected =>
      (t.session.step config instantMax (.connected t.now)).map fun s =>
        { t with session := s, nextTick := t.now + config.heartbeatInterval }
  | .tick =>
      if t.nextTick ≤ t.now then
        (t.session.step config instantMax .tick).map fun s =>
          { t with session := s, nextTick := t.nextTick + config.heartbeatInterval }
      else none
  | .idle =>
      if t.idleDeadline config ≤ t.now then
        (t.session.step config instantMax .idle).map fun s => { t with session := s }
      else none
  | .read =>
      if t.nextFrame socket ≤ t.now then
        (t.session.step config instantMax (.read t.now (socket.yields t.taken))).map fun s =>
          { t with session := s, taken := t.taken + 1 }
      else none
  | .other act =>
      if act.untimed then
        (t.session.step config instantMax act).map fun s => { t with session := s }
      else none

/-- The instants at which a run enters the loop and reads. -/
def readings : TimedSession → List TimedAct → List ℕ
  | _, [] => []
  | t, act :: acts =>
      (t.reading act).toList ++ (t.step config instantMax socket act).elim [] fun t' =>
        readings t' acts

end

variable {config : WebSocketServerConfig} {instantMax : ℕ} {socket : Socket} {t t' : TimedSession}

theorem step_cases {act : TimedAct} (h : t.step config instantMax socket act = some t') :
    (∃ d, act = .elapse d ∧ t.MayElapse config socket d ∧ t' = { t with now := t.now + d }) ∨
    (∃ s, act = .connected ∧ t.session.step config instantMax (.connected t.now) = some s ∧
      t' = { t with session := s, nextTick := t.now + config.heartbeatInterval }) ∨
    (∃ s, act = .tick ∧ t.nextTick ≤ t.now ∧ t.session.step config instantMax .tick = some s ∧
      t' = { t with session := s, nextTick := t.nextTick + config.heartbeatInterval }) ∨
    (∃ s, act = .idle ∧ t.idleDeadline config ≤ t.now ∧
      t.session.step config instantMax .idle = some s ∧ t' = { t with session := s }) ∨
    (∃ s, act = .read ∧ t.nextFrame socket ≤ t.now ∧
      t.session.step config instantMax (.read t.now (socket.yields t.taken)) = some s ∧
      t' = { t with session := s, taken := t.taken + 1 }) ∨
    (∃ a s, act = .other a ∧ a.untimed = true ∧ t.session.step config instantMax a = some s ∧
      t' = { t with session := s }) := by
  cases act with
  | elapse d =>
      simp only [step] at h
      split_ifs at h with hd
      cases h
      exact .inl ⟨d, rfl, hd, rfl⟩
  | connected =>
      obtain ⟨s, hs, rfl⟩ := Option.map_eq_some_iff.mp h
      exact .inr (.inl ⟨s, rfl, hs, rfl⟩)
  | tick =>
      simp only [step] at h
      split_ifs at h with hdue
      obtain ⟨s, hs, rfl⟩ := Option.map_eq_some_iff.mp h
      exact .inr (.inr (.inl ⟨s, rfl, hdue, hs, rfl⟩))
  | idle =>
      simp only [step] at h
      split_ifs at h with hdue
      obtain ⟨s, hs, rfl⟩ := Option.map_eq_some_iff.mp h
      exact .inr (.inr (.inr (.inl ⟨s, rfl, hdue, hs, rfl⟩)))
  | read =>
      simp only [step] at h
      split_ifs at h with hdue
      obtain ⟨s, hs, rfl⟩ := Option.map_eq_some_iff.mp h
      exact .inr (.inr (.inr (.inr (.inl ⟨s, rfl, hdue, hs, rfl⟩))))
  | other a =>
      simp only [step] at h
      split_ifs at h with huntimed
      obtain ⟨s, hs, rfl⟩ := Option.map_eq_some_iff.mp h
      exact .inr (.inr (.inr (.inr (.inr ⟨a, s, rfl, huntimed, hs, rfl⟩))))

/-- A step of a timed session is a step of the session that reads the clock at the same instant, or
time passes. -/
theorem step_session {act : TimedAct} (h : t.step config instantMax socket act = some t') :
    t'.session = t.session ∧ t.reading act = none ∨
      ∃ a, t.session.step config instantMax a = some t'.session ∧ a.instant = t.reading act := by
  obtain ⟨d, rfl, -, rfl⟩ | ⟨s, rfl, hs, rfl⟩ | ⟨s, rfl, -, hs, rfl⟩ |
    ⟨s, rfl, -, hs, rfl⟩ | ⟨s, rfl, -, hs, rfl⟩ | ⟨a, s, rfl, huntimed, hs, rfl⟩ := step_cases h
  · exact .inl ⟨rfl, rfl⟩
  · exact .inr ⟨_, hs, rfl⟩
  · exact .inr ⟨_, hs, rfl⟩
  · exact .inr ⟨_, hs, rfl⟩
  · exact .inr ⟨_, hs, rfl⟩
  · have hinstant : a.instant = none := by cases a <;> first | rfl | cases huntimed
    exact .inr ⟨a, hs, hinstant⟩

theorem session_run {acts : List TimedAct}
    (hrun : exec (step config instantMax socket) t acts = some t') :
    ∃ sacts, exec (Session.step config instantMax) t.session sacts = some t'.session ∧
      sacts.filterMap SessionAct.instant = readings config instantMax socket t acts := by
  induction acts generalizing t with
  | nil =>
      cases hrun
      exact ⟨[], rfl, rfl⟩
  | cons act acts ih =>
      obtain ⟨t₁, hstep, hrest⟩ := exec_cons_iff.mp hrun
      obtain ⟨sacts, hsrun, hinstants⟩ := ih hrest
      have hreadings : readings config instantMax socket t (act :: acts)
          = (t.reading act).toList ++ sacts.filterMap SessionAct.instant := by
        rw [readings, hstep, hinstants]
        rfl
      obtain ⟨hsame, hnone⟩ | ⟨a, ha, hinstant⟩ := step_session hstep
      · refine ⟨sacts, ?_, ?_⟩
        · rw [← hsame]
          exact hsrun
        · rw [hreadings, hnone]
          rfl
      · refine ⟨a :: sacts, exec_cons_iff.mpr ⟨_, ha, hsrun⟩, ?_⟩
        rw [hreadings, ← hinstant, List.filterMap_cons]
        cases a.instant <;> rfl

end TimedSession
end ArmatureWebsocket
