import ArmatureWebsocket.Drain

/-! # How long a silent peer keeps its slot

`Lifetime` puts the two timeouts that `TimedSession` leaves open around its waits: the handshake is
given `handshake_timeout`, and in the teardown the writer is given `close_timeout`.  With them the
task never waits for its peer without a limit.

The authorizer is a synchronous call in the middle of the handshake.  It takes as long as it takes,
and no timeout is looked at before it has answered; the handshake then still ends well if nothing is
left to wait for.

`heard` is the instant at which the handshake began, the loop was entered, or the last frame was
read, whichever was last, and `attending` the time that the authorizer and the handler's callbacks
have taken since then.  That time apart, the task is past its handshake by `handshake_timeout`, past
its loop by `connection_timeout`, and by another `close_timeout` at its end
(`slot_time_limited`). -/

namespace ArmatureWebsocket

open Execution

/-- A frame of the peer. -/
def ReadResult.isFrame : ReadResult → Bool
  | .message _ => true
  | _ => false

/-- A callback of the handler is running. -/
def Stage.attends : Stage → Bool
  | .connecting => true
  | .handling _ => true
  | .disconnecting => true
  | _ => false

/-- How far the handshake is with the authorizer. -/
inductive Consulted where
  | notAsked
  | asked
  | answered
deriving DecidableEq

/-- The steps of a timed session, and the two ends of the authorizer's call. -/
inductive LifetimeAct where
  | authorize
  | authorized
  | timed (act : TimedAct)

/-- A read. -/
def LifetimeAct.isRead : LifetimeAct → Bool
  | .timed .read => true
  | _ => false

/-- A step of the task itself. -/
def LifetimeAct.own : LifetimeAct → Bool
  | .authorize => true
  | .authorized => true
  | .timed act => act.own

/-- The handshake can end like this: not in the middle of the authorizer's call, and well only after
it. -/
def TimedAct.follows (consulted : Consulted) : TimedAct → Bool
  | .other (.handshaken (.ok (some _)) _) => consulted = .answered
  | .other (.handshaken _ _) => consulted ≠ .asked
  | _ => true

/-- The calls of the authorizer, its beginning and its end, that a handshake has before it. -/
def Consulted.left : Consulted → ℕ
  | .notAsked => 2
  | .asked => 1
  | .answered => 0

/-- The task is told that the writer has taken too long. -/
def TimedAct.isTimedOut : TimedAct → Bool
  | .other .timedOut => true
  | _ => false

theorem TimedAct.eq_of_isTimedOut {act : TimedAct} (h : act.isTimedOut = true) :
    act = .other .timedOut := by
  cases act with
  | other a => cases a <;> first | rfl | cases h
  | _ => cases h

namespace Session

variable {config : WebSocketServerConfig} {instantMax : ℕ} {s s' : Session}

theorem guarded_lastRead {call : LibraryCall} {next : Session}
    (h : next.vars.lastRead = s.vars.lastRead) :
    (guarded instantMax s call next).vars.lastRead = s.vars.lastRead := by
  obtain ⟨-, he⟩ | ⟨-, he⟩ := guarded_cases instantMax s call next
  · rw [he, h]
  · rw [he]
    rfl

theorem callReturned_lastRead {failed : Bool} :
    (s.callReturned config instantMax failed).vars.lastRead = s.vars.lastRead := by
  unfold callReturned
  split
  · split_ifs
    · rfl
    · exact guarded_lastRead rfl
  · exact guarded_lastRead rfl
  · rfl
  · rfl
  · rfl

/-- The loop is entered with the last read dated, or the task has panicked. -/
theorem enterLoop_cases (config : WebSocketServerConfig) (instantMax : ℕ) (s : Session)
    (now : ℕ) :
    s.enterLoop config instantMax now = { s with vars := ⟨0, now⟩ }.goto .selecting ∨
      ∃ call, (s.enterLoop config instantMax now).stage = .panicked (.library call) := by
  unfold enterLoop
  obtain ⟨-, he⟩ | ⟨-, he⟩ := guarded_cases instantMax s (.interval config.heartbeatInterval)
    ({ s with vars := ⟨0, now⟩ }.loopHead config instantMax)
  · rw [he]
    obtain hl | ⟨call, hl⟩ := loopHead_cases config instantMax { s with vars := ⟨0, now⟩ }
    · exact .inl hl
    · rw [hl]
      exact .inr ⟨call, rfl⟩
  · rw [he]
    exact .inr ⟨_, rfl⟩

theorem lastRead_of_step {act : SessionAct} (hinstant : act.instant = none)
    (hstep : s.step config instantMax act = some s') : s'.vars.lastRead = s.vars.lastRead := by
  have hbegin {t : Session} {call : ConnCall} {stage : Stage} (h : t.begin call stage = some s') :
      s'.vars = t.vars := by
    obtain ⟨-, -, rfl⟩ := begin_some h
    rfl
  cases act with
  | outside a =>
      obtain ⟨-, -, he⟩ := outside_some hstep
      rw [he]
      rfl
  | handshaken outcome id =>
      obtain ⟨-, rfl⟩ := handshaken_some hstep
      obtain ⟨principal, -, he⟩ | ⟨stage, -, he⟩ :=
        handshakeEnd_cases config instantMax s outcome id
      · rw [he]
        rfl
      · rw [he]
        rfl
  | registered =>
      obtain ⟨-, rfl⟩ := registered_some hstep
      rfl
  | connected now => cases hinstant
  | tick =>
      obtain ⟨-, ⟨vars, why, hvars, rfl⟩ | ⟨vars, hvars, h⟩⟩ := tick_some hstep
      · rw [← onTick_lastRead s.vars, hvars]
        rfl
      · rw [hbegin h, ← onTick_lastRead s.vars, hvars]
  | evicted =>
      obtain ⟨out, -, -, rfl⟩ := evicted_some hstep
      rfl
  | idle =>
      obtain ⟨-, rfl⟩ := idle_some hstep
      rfl
  | read now result => cases hinstant
  | callbackReturned pong =>
      obtain ⟨callback, -, ⟨-, rfl⟩ | ⟨-, h⟩ | ⟨why, -, rfl⟩⟩ := callbackReturned_some hstep
      · exact guarded_lastRead rfl
      · rw [hbegin h]
        rfl
      · rfl
  | callbackPanicked =>
      obtain ⟨-, out, -, rfl⟩ | ⟨-, rfl⟩ := callbackPanicked_some hstep
      · rfl
      · rfl
  | taskStep =>
      obtain ⟨f, out, -, -, -, ⟨pc, -, rfl⟩ | ⟨reply, -, rfl⟩⟩ := taskStep_some hstep
      · rfl
      · exact callReturned_lastRead
  | teardown => rw [hbegin (teardown_some hstep).2]
  | joined => rw [hbegin (joined_some hstep).2.2]
  | timedOut =>
      rw [hbegin (timedOut_some hstep).2]
  | disconnected =>
      obtain ⟨-, rfl⟩ := disconnected_some hstep
      rfl

end Session

/-- A timed session with how far it is with the authorizer, the instant at which the timeout around
its wait began, the instant at which the peer was last heard of, and the time spent in the
authorizer and in callbacks since then. -/
structure Lifetime where
  timed : TimedSession
  consulted : Consulted
  began : ℕ
  heard : ℕ
  attending : ℕ

namespace Lifetime

/-- What the task waits for or is in the middle of. -/
def stage (l : Lifetime) : Stage := l.timed.session.stage

/-- The clock. -/
def now (l : Lifetime) : ℕ := l.timed.now

/-- The authorizer or a callback of the handler is running. -/
def attends (l : Lifetime) : Bool :=
  match l.stage with
  | .handshaking => l.consulted = .asked
  | stage => stage.attends

section

variable (config : WebSocketServerConfig) (instantMax : ℕ) (socket : Socket)

/-- A connection has been accepted. -/
def new (start : ℕ) : Lifetime := ⟨.new config start, .notAsked, start, start, 0⟩

/-- The time that can pass before the task moves: in the handshake, the authorizer's call apart, and
while the writer is given time, none past the timeout. -/
def MayElapse (l : Lifetime) (d : ℕ) : Prop :=
  l.timed.MayElapse config socket d ∧
    (l.stage = .handshaking → l.consulted = .asked ∨ d = 0 ∨
      l.now + d ≤ l.began + config.handshakeTimeout) ∧
    (l.stage = .flushing → d = 0 ∨ l.timed.session.out.writer ≠ .stopped ∧
      l.now + d ≤ l.began + config.closeTimeout)

instance (l : Lifetime) (d : ℕ) : Decidable (l.MayElapse config socket d) :=
  inferInstanceAs (Decidable (_ ∧ (_ → _) ∧ (_ → _)))

/-- Time passes. -/
def elapse (l : Lifetime) (d : ℕ) : Lifetime :=
  { l with
    timed := { l.timed with now := l.timed.now + d }
    attending := if l.attends then l.attending + d else l.attending }

/-- The task has moved; the timeout of the writer begins when the task turns to it. -/
def moved (l : Lifetime) (t : TimedSession) : Lifetime :=
  { l with
    timed := t
    began := if t.session.stage = .flushing ∧ l.stage ≠ .flushing then t.now else l.began }

/-- The task has entered its loop or read a frame. -/
def hear (l : Lifetime) (t : TimedSession) : Lifetime :=
  { l with timed := t, heard := t.now, attending := 0 }

/-- The close timeout has run out, if that is what the task is told. -/
def Due (l : Lifetime) (act : TimedAct) : Prop :=
  act.isTimedOut = true → l.began + config.closeTimeout ≤ l.now

instance (l : Lifetime) (act : TimedAct) : Decidable (l.Due config act) :=
  inferInstanceAs (Decidable (_ → _))

/-- The steps of a connection's task with all its timeouts. -/
def step (l : Lifetime) : LifetimeAct → Option Lifetime
  | .authorize =>
      if l.stage = .handshaking ∧ l.consulted = .notAsked then some { l with consulted := .asked }
      else none
  | .authorized =>
      if l.stage = .handshaking ∧ l.consulted = .asked then some { l with consulted := .answered }
      else none
  | .timed (.elapse d) => if l.MayElapse config socket d then some (l.elapse d) else none
  | .timed .connected => (l.timed.step config instantMax socket .connected).map l.hear
  | .timed .read =>
      (l.timed.step config instantMax socket .read).map fun t =>
        if (socket.yields l.timed.taken).isFrame then l.hear t else { l with timed := t }
  | .timed act =>
      if l.Due config act ∧ act.follows l.consulted = true then
        (l.timed.step config instantMax socket act).map l.moved
      else none

/-- What the task has left to do before it reads again. -/
def workLeft (l : Lifetime) : ℕ :=
  l.timed.session.workLeft + (if l.stage = .handshaking then l.consulted.left else 0)

end

variable {config : WebSocketServerConfig} {instantMax : ℕ} {socket : Socket} {l l' : Lifetime}
  {act : LifetimeAct}

/-- What a step is. -/
theorem step_cases (h : l.step config instantMax socket act = some l') :
    (∃ consulted, (act = .authorize ∧ l.consulted = .notAsked ∧ consulted = .asked ∨
        act = .authorized ∧ l.consulted = .asked ∧ consulted = .answered) ∧
      l.stage = .handshaking ∧ l' = { l with consulted := consulted }) ∨
    (∃ d, act = .timed (.elapse d) ∧ l.MayElapse config socket d ∧ l' = l.elapse d) ∨
    (∃ t, act = .timed .connected ∧ l.timed.step config instantMax socket .connected = some t ∧
      l' = l.hear t) ∨
    (∃ t, act = .timed .read ∧ l.timed.step config instantMax socket .read = some t ∧
      ((socket.yields l.timed.taken).isFrame = true ∧ l' = l.hear t ∨
        (socket.yields l.timed.taken).isFrame = false ∧ l' = { l with timed := t })) ∨
    (∃ a t, act = .timed a ∧ (a = .tick ∨ a = .idle ∨ ∃ a', a = .other a') ∧ l.Due config a ∧
      a.follows l.consulted = true ∧ l.timed.step config instantMax socket a = some t ∧
      l' = l.moved t) := by
  have hmoved {a : TimedAct} (ha : a = .tick ∨ a = .idle ∨ ∃ a', a = .other a')
      (h : (if l.Due config a ∧ a.follows l.consulted = true then
        (l.timed.step config instantMax socket a).map l.moved else none) = some l') :
      ∃ a' t, LifetimeAct.timed a = .timed a' ∧ (a' = .tick ∨ a' = .idle ∨ ∃ a'', a' = .other a'') ∧
        l.Due config a' ∧ a'.follows l.consulted = true ∧
        l.timed.step config instantMax socket a' = some t ∧ l' = l.moved t := by
    split_ifs at h with hdue
    obtain ⟨t, ht, rfl⟩ := Option.map_eq_some_iff.mp h
    exact ⟨a, t, rfl, ha, hdue.1, hdue.2, ht, rfl⟩
  cases act with
  | authorize =>
      simp only [step] at h
      split_ifs at h with hasked
      cases h
      exact .inl ⟨_, .inl ⟨rfl, hasked.2, rfl⟩, hasked.1, rfl⟩
  | authorized =>
      simp only [step] at h
      split_ifs at h with hasked
      cases h
      exact .inl ⟨_, .inr ⟨rfl, hasked.2, rfl⟩, hasked.1, rfl⟩
  | timed a =>
      refine .inr ?_
      cases a with
      | elapse d =>
          simp only [step] at h
          split_ifs at h with hd
          cases h
          exact .inl ⟨d, rfl, hd, rfl⟩
      | connected =>
          obtain ⟨t, ht, rfl⟩ := Option.map_eq_some_iff.mp h
          exact .inr (.inl ⟨t, rfl, ht, rfl⟩)
      | read =>
          obtain ⟨t, ht, rfl⟩ := Option.map_eq_some_iff.mp h
          refine .inr (.inr (.inl ⟨t, rfl, ht, ?_⟩))
          cases hframe : (socket.yields l.timed.taken).isFrame with
          | true => exact .inl ⟨rfl, by simp⟩
          | false => exact .inr ⟨rfl, by simp⟩
      | tick => exact .inr (.inr (.inr (hmoved (.inl rfl) h)))
      | idle => exact .inr (.inr (.inr (hmoved (.inr (.inl rfl)) h)))
      | other a => exact .inr (.inr (.inr (hmoved (.inr (.inr ⟨a, rfl⟩)) h)))

/-! ### What holds at each stage -/

/-- The limits of the stages, for a clock, the beginning of the timeout, the instant at which the
peer was last heard of, the time spent in callbacks since, and the loop's last read. -/
def WithinAt (config : WebSocketServerConfig) (now began heard attending lastRead : ℕ) :
    Stage → Prop
  | .handshaking =>
      began ≤ heard + attending ∧ now ≤ heard + attending + config.handshakeTimeout
  | .registering => now ≤ heard + attending + config.handshakeTimeout
  | .connecting => now ≤ heard + attending + config.handshakeTimeout
  | .selecting =>
      lastRead ≤ heard + attending ∧ now ≤ heard + attending + config.connectionTimeout
  | .pinging => lastRead ≤ heard + attending ∧ now ≤ heard + attending + config.connectionTimeout
  | .ponging => lastRead ≤ heard + attending ∧ now ≤ heard + attending + config.connectionTimeout
  | .handling callback => (callback.isError = false → lastRead ≤ heard + attending) ∧
      now ≤ heard + attending + config.connectionTimeout
  | .ended _ => now ≤ heard + attending + config.connectionTimeout
  | .closing => now ≤ heard + attending + config.connectionTimeout
  | .flushing => began ≤ heard + attending + config.connectionTimeout ∧
      now ≤ began + config.closeTimeout
  | .marking => now ≤ heard + attending + config.connectionTimeout + config.closeTimeout
  | .disconnecting => now ≤ heard + attending + config.connectionTimeout + config.closeTimeout
  | .refused => True
  | .finished => True
  | .panicked _ => True

/-- The task is within the limits of its stage. -/
def Within (config : WebSocketServerConfig) (l : Lifetime) : Prop :=
  WithinAt config l.now l.began l.heard l.attending l.timed.session.vars.lastRead l.stage

theorem within_new (start : ℕ) : (new config start).Within config :=
  ⟨Nat.le_add_right start 0, Nat.le_add_right (start + 0) _⟩

theorem isError_of_step {a : SessionAct} {s s' : Session} {callback : Callback}
    (hstep : s.step config instantMax a = some s') (hs : s.stage = .handling callback)
    (hs' : s'.stage = .selecting ∨ s'.stage = .ponging) : callback.isError = false := by
  have hmoves : s.stage.Moves a s'.stage := by
    refine (Session.stage_moves hstep).resolve_left fun hsame => ?_
    rw [hsame, hs] at hs'
    obtain h | h := hs' <;> cases h
  obtain ⟨pong, rfl⟩ : ∃ pong, a = .callbackReturned pong := by
    rw [hs] at hmoves
    obtain h | h := hs'
    · rw [h] at hmoves
      cases hmoves with
      | resumed _ pong => exact ⟨pong, rfl⟩
    · rw [h] at hmoves
      cases hmoves with
      | answered _ pong => exact ⟨pong, rfl⟩
  obtain ⟨callback', hstage, ⟨hresume, -⟩ | ⟨hresume, -⟩ | ⟨why, -, he⟩⟩ :=
    Session.callbackReturned_some hstep
  · cases hs.symm.trans hstage
    exact Callback.isError_of_resume (by simp [hresume])
  · cases hs.symm.trans hstage
    exact Callback.isError_of_resume (by simp [hresume])
  · rw [he] at hs'
    obtain h | h := hs' <;> cases h

theorem WithinAt.moves {now began heard attending lastRead : ℕ} {stage stage' : Stage}
    {a : SessionAct} (h : WithinAt config now began heard attending lastRead stage)
    (hmoves : stage.Moves a stage') (hinstant : a.instant = none)
    (hresumes : ∀ callback, stage = .handling callback →
      stage' = .selecting ∨ stage' = .ponging → callback.isError = false) :
    WithinAt config now (if stage' = .flushing ∧ stage ≠ .flushing then now else began) heard
      attending lastRead stage' := by
  cases hmoves with
  | upgraded outcome id => exact h.2
  | refused outcome id => trivial
  | registered => exact h
  | connected now => cases hinstant
  | pinged => exact h
  | unanswered why => exact h.2
  | evicted => exact h.2
  | idle => exact h.2
  | called now result callback => cases hinstant
  | exited now result why => cases hinstant
  | resumed callback pong => exact ⟨h.1 (hresumes callback rfl (.inl rfl)), h.2⟩
  | answered callback pong => exact ⟨h.1 (hresumes callback rfl (.inr rfl)), h.2⟩
  | failed callback pong why => exact h.2
  | pingSent => exact h
  | pingRefused => exact h.2
  | pongSent => exact h
  | closing why => exact h
  | closed =>
      rw [if_pos ⟨rfl, by simp⟩]
      exact ⟨h, Nat.le_add_right now _⟩
  | joined =>
      obtain ⟨hbegan, hnow⟩ := h
      show now ≤ heard + attending + config.connectionTimeout + config.closeTimeout
      omega
  | timedOut =>
      obtain ⟨hbegan, hnow⟩ := h
      show now ≤ heard + attending + config.connectionTimeout + config.closeTimeout
      omega
  | marked => exact h
  | disconnected => trivial
  | panicked _ _ why _ => trivial

theorem Within.moved {a : SessionAct} {t : TimedSession} (h : l.Within config)
    (hinstant : a.instant = none)
    (hs : l.timed.session.step config instantMax a = some t.session) (hnow : t.now = l.timed.now) :
    (l.moved t).Within config := by
  have hlast := Session.lastRead_of_step hinstant hs
  unfold Within Lifetime.now at h ⊢
  show WithinAt config t.now _ l.heard l.attending t.session.vars.lastRead t.session.stage
  rw [hlast, hnow]
  obtain hsame | hmoves := Session.stage_moves hs
  · have hbegan : (l.moved t).began = l.began := by
      refine if_neg fun ⟨hflushing, hnot⟩ => hnot ?_
      exact hsame.symm.trans hflushing
    rw [hbegan, hsame]
    exact h
  · have hbegan : (l.moved t).began
        = if t.session.stage = .flushing ∧ l.stage ≠ .flushing then l.timed.now else l.began := by
      rw [← hnow]
      rfl
    rw [hbegan]
    exact h.moves hmoves hinstant fun callback hs₀ hs' => isError_of_step hs hs₀ hs'

theorem Within.elapse {d : ℕ} (h : l.Within config) (hd : l.MayElapse config socket d) :
    (l.elapse d).Within config := by
  obtain ⟨htimed, hhandshake, hflush⟩ := hd
  have hbusy := htimed.1
  have hselect := htimed.2
  unfold Within at h ⊢
  have hstage : (l.elapse d).stage = l.stage := rfl
  have hnow : (l.elapse d).now = l.now + d := rfl
  have hattending : (l.elapse d).attending
      = if l.attends then l.attending + d else l.attending := rfl
  rw [hstage, hnow, hattending]
  unfold attends
  show WithinAt config (l.now + d) l.began l.heard _ l.timed.session.vars.lastRead l.stage
  have hidle : l.timed.idleDeadline config
      = l.timed.session.vars.lastRead + config.connectionTimeout := rfl
  have hclock : l.timed.now = l.now := rfl
  have hsession : l.timed.session.stage = l.stage := rfl
  rw [hsession] at hbusy hselect
  cases hs : l.stage with
  | handshaking =>
      rw [hs] at h
      obtain ⟨hbegan, hle⟩ := h
      by_cases hasked : l.consulted = .asked
      · rw [if_pos (by simp only [hasked, decide_true])]
        refine ⟨?_, ?_⟩ <;> omega
      · rw [if_neg (by simp only [hasked, decide_false, Bool.false_eq_true, not_false_eq_true])]
        refine ⟨hbegan, ?_⟩
        obtain hasked' | rfl | hlimit := hhandshake hs
        · exact absurd hasked' hasked
        · exact hle
        · omega
  | connecting =>
      rw [hs] at h
      have hle : l.now ≤ l.heard + l.attending + config.handshakeTimeout := h
      show l.now + d ≤ l.heard + (l.attending + d) + config.handshakeTimeout
      omega
  | selecting =>
      rw [hs] at h
      refine ⟨h.1, ?_⟩
      have hread := h.1
      have hle := h.2
      show l.now + d ≤ l.heard + l.attending + config.connectionTimeout
      obtain rfl | ⟨-, -, hdeadline, -⟩ := hselect hs
      · exact hle
      · omega
  | handling callback =>
      rw [hs] at h
      have hle := h.2
      refine ⟨fun herror => ?_, ?_⟩
      · have hread := h.1 herror
        show l.timed.session.vars.lastRead ≤ l.heard + (l.attending + d)
        omega
      · show l.now + d ≤ l.heard + (l.attending + d) + config.connectionTimeout
        omega
  | flushing =>
      rw [hs] at h
      refine ⟨h.1, ?_⟩
      obtain rfl | ⟨-, hlimit⟩ := hflush hs
      · exact h.2
      · exact hlimit
  | disconnecting =>
      rw [hs] at h
      have hle : l.now ≤ l.heard + l.attending + config.connectionTimeout + config.closeTimeout := h
      show l.now + d
        ≤ l.heard + (l.attending + d) + config.connectionTimeout + config.closeTimeout
      omega
  | refused => trivial
  | finished => trivial
  | panicked why => trivial
  | _ =>
      rw [hs] at h
      obtain rfl := hbusy (by rw [hs]; rfl)
      exact h

theorem within_connected {t : TimedSession}
    (ht : l.timed.step config instantMax socket .connected = some t) :
    (l.hear t).Within config := by
  obtain ⟨s, hs, rfl⟩ := Option.map_eq_some_iff.mp ht
  obtain ⟨out, -, -, rfl⟩ := Session.connected_some hs
  unfold Within
  obtain he | ⟨call, he⟩ :=
    Session.enterLoop_cases config instantMax (l.timed.session.withOut out) l.timed.now
  · show WithinAt config l.timed.now _ l.timed.now 0 (Session.enterLoop _ _ _ _).vars.lastRead
      (Session.enterLoop _ _ _ _).stage
    rw [he]
    exact ⟨Nat.le_refl _, Nat.le_add_right _ _⟩
  · show WithinAt config l.timed.now _ l.timed.now 0 _ (Session.enterLoop _ _ _ _).stage
    rw [he]
    trivial

/-- A read, of a frame or of anything else. -/
theorem Within.read {t : TimedSession} (h : l.Within config)
    (ht : l.timed.step config instantMax socket .read = some t) :
    (l.hear t).Within config ∧
      ((socket.yields l.timed.taken).isFrame = false → Within config { l with timed := t }) := by
  simp only [TimedSession.step] at ht
  split_ifs at ht with hready
  obtain ⟨s, hs, rfl⟩ := Option.map_eq_some_iff.mp ht
  obtain ⟨hstage, rfl⟩ := Session.read_some hs
  have hle : l.now ≤ l.heard + l.attending + config.connectionTimeout := by
    unfold Within stage at h
    rw [hstage] at h
    exact h.2
  generalize hresult : socket.yields l.timed.taken = result
  unfold Within stage Lifetime.now hear
  simp only
  unfold Session.afterRead
  cases hafter : afterRead result with
  | exit why => exact ⟨Nat.le_add_right _ _, fun _ => hle⟩
  | call callback =>
      refine ⟨⟨fun _ => ?_, Nat.le_add_right _ _⟩, fun hframe => ⟨fun herror => ?_, hle⟩⟩
      · show (readVars _ _ result).lastRead ≤ l.timed.now + 0
        rw [readVars_lastRead]
        exact Nat.le_refl _
      · -- what is not a frame and has a callback is an error
        cases result with
        | message msg => cases hframe
        | error reason =>
            cases hafter
            cases herror
        | endOfStream => cases hafter

theorem Within.step (h : l.Within config)
    (hstep : l.step config instantMax socket act = some l') : l'.Within config := by
  obtain ⟨consulted, -, -, rfl⟩ | ⟨d, rfl, hd, rfl⟩ | ⟨t, rfl, ht, rfl⟩ |
    ⟨t, rfl, ht, ⟨-, rfl⟩ | ⟨hframe, rfl⟩⟩ | ⟨a, t, rfl, hact, -, -, ht, rfl⟩ := step_cases hstep
  · exact h
  · exact h.elapse hd
  · exact within_connected ht
  · exact (h.read ht).1
  · exact (h.read ht).2 hframe
  · obtain ⟨d, rfl, -, rfl⟩ | ⟨s, rfl, hs, rfl⟩ | ⟨s, rfl, -, hs, rfl⟩ |
      ⟨s, rfl, -, hs, rfl⟩ | ⟨s, rfl, -, hs, rfl⟩ | ⟨a, s, rfl, huntimed, hs, rfl⟩ :=
      TimedSession.step_cases ht
    · obtain hact | hact | ⟨a, hact⟩ := hact <;> cases hact
    · obtain hact | hact | ⟨a, hact⟩ := hact <;> cases hact
    · exact h.moved rfl hs rfl
    · exact h.moved rfl hs rfl
    · obtain hact | hact | ⟨a, hact⟩ := hact <;> cases hact
    · have hinstant : a.instant = none := by
        cases a with
        | connected now => cases huntimed
        | read now result => cases huntimed
        | _ => rfl
      exact h.moved hinstant hs rfl

/-! ### The sessions that the task has -/

theorem timed_step (h : l.step config instantMax socket act = some l') :
    l'.timed = l.timed ∨
      ∃ a, act = .timed a ∧ l.timed.step config instantMax socket a = some l'.timed := by
  obtain ⟨consulted, -, -, rfl⟩ | ⟨d, rfl, hd, rfl⟩ | ⟨t, rfl, ht, rfl⟩ |
    ⟨t, rfl, ht, ⟨-, rfl⟩ | ⟨-, rfl⟩⟩ | ⟨a, t, rfl, -, -, -, ht, rfl⟩ := step_cases h
  · exact .inl rfl
  · refine .inr ⟨_, rfl, ?_⟩
    simp only [TimedSession.step]
    exact if_pos hd.1
  · exact .inr ⟨_, rfl, ht⟩
  · exact .inr ⟨_, rfl, ht⟩
  · exact .inr ⟨_, rfl, ht⟩
  · exact .inr ⟨_, rfl, ht⟩

theorem reached_step (h : l.timed.session.Reached config instantMax)
    (hstep : l.step config instantMax socket act = some l') :
    l'.timed.session.Reached config instantMax := by
  obtain hsame | ⟨a, -, ht⟩ := timed_step hstep
  · rw [hsame]
    exact h
  · obtain ⟨hsame, -⟩ | ⟨b, hb, -⟩ := TimedSession.step_session ht
    · rw [hsame]
      exact h
    · exact h.step hb

theorem workLeft_le : l.workLeft ≤ 28 := by
  unfold workLeft
  by_cases hstage : l.stage = .handshaking
  · have hsession : l.timed.session.workLeft = 26 := by
      unfold Session.workLeft
      rw [show l.timed.session.stage = .handshaking from hstage]
    have hleft : l.consulted.left ≤ 2 := by
      cases l.consulted with
      | notAsked => exact Nat.le_refl 2
      | asked => exact Nat.le_succ 1
      | answered => exact Nat.zero_le 2
    rw [if_pos hstage]
    omega
  · rw [if_neg hstage]
    exact Session.workLeft_le

theorem workLeft_of_step (h : l.timed.session.Reached config instantMax)
    (hstep : l.step config instantMax socket act = some l') (hread : act.isRead = false) :
    l'.workLeft + (if act.own = true then 1 else 0) ≤ l.workLeft := by
  have hmoved {a : SessionAct} {l' : Lifetime}
      (hs : l.timed.session.step config instantMax a = some l'.timed.session)
      (hnot : ∀ now result, a ≠ .read now result) (hconsulted : l'.consulted = l.consulted) :
      l'.workLeft + (if a.own = true then 1 else 0) ≤ l.workLeft := by
    have hwork := Session.workLeft_of_step h.engaged h.missed_le hs hnot
    have hleft : (if l'.stage = .handshaking then l'.consulted.left else 0)
        ≤ if l.stage = .handshaking then l.consulted.left else 0 := by
      by_cases hstage' : l'.stage = .handshaking
      · have hstage : l.stage = .handshaking := ServerTask.handshaking_of_step hs hstage'
        rw [if_pos hstage', if_pos hstage, hconsulted]
      · rw [if_neg hstage']
        exact Nat.zero_le _
    unfold workLeft
    omega
  obtain ⟨consulted, hact, hstage, rfl⟩ | ⟨d, rfl, hd, rfl⟩ | ⟨t, rfl, ht, rfl⟩ | ⟨t, rfl, -, -⟩ |
    ⟨a, t, rfl, ha, -, -, ht, rfl⟩ := step_cases hstep
  · unfold workLeft
    show l.timed.session.workLeft + (if l.stage = .handshaking then consulted.left else 0) + _ ≤ _
    rw [if_pos hstage, if_pos hstage]
    obtain ⟨rfl, hconsulted, rfl⟩ | ⟨rfl, hconsulted, rfl⟩ := hact
    · rw [hconsulted]
      exact Nat.le_refl _
    · rw [hconsulted]
      exact Nat.le_refl _
  · exact Nat.le_refl _
  · obtain ⟨s, hs, rfl⟩ := Option.map_eq_some_iff.mp ht
    exact hmoved (a := .connected l.timed.now) hs (by simp) rfl
  · cases hread
  · obtain ⟨d, rfl, -, rfl⟩ | ⟨s, rfl, hs, rfl⟩ | ⟨s, rfl, -, hs, rfl⟩ |
      ⟨s, rfl, -, hs, rfl⟩ | ⟨s, rfl, -, hs, rfl⟩ | ⟨b, s, rfl, huntimed, hs, rfl⟩ :=
      TimedSession.step_cases ht
    · obtain ha | ha | ⟨b, ha⟩ := ha <;> cases ha
    · obtain ha | ha | ⟨b, ha⟩ := ha <;> cases ha
    · exact hmoved (a := .tick) hs (by simp) rfl
    · exact hmoved (a := .idle) hs (by simp) rfl
    · obtain ha | ha | ⟨b, ha⟩ := ha <;> cases ha
    · refine hmoved (a := b) hs ?_ rfl
      rintro now result rfl
      cases huntimed

theorem follows_of_step {a : TimedAct} {t : TimedSession}
    (ht : l.timed.step config instantMax socket a = some t) (hstage : l.stage ≠ .handshaking) :
    a.follows l.consulted = true := by
  cases a with
  | other b =>
      cases b with
      | handshaken outcome id =>
          obtain ⟨s, hs, -⟩ := Option.map_eq_some_iff.mp ht
          exact absurd (Session.handshaken_some hs).1 hstage
      | _ => rfl
  | _ => rfl

/-- What the timed session can do the task can, once the close timeout has run out and the
authorizer has answered. -/
theorem step_of_timed {a : TimedAct} {t : TimedSession} (hown : a.own = true)
    (ht : l.timed.step config instantMax socket a = some t) (hdue : l.Due config a)
    (hfollows : a.follows l.consulted = true) :
    ∃ l', l.step config instantMax socket (.timed a) = some l' := by
  have hmay : l.Due config a ∧ a.follows l.consulted = true := ⟨hdue, hfollows⟩
  cases a with
  | elapse d => cases hown
  | connected => exact ⟨l.hear t, by simp only [step, ht]; rfl⟩
  | read => exact ⟨_, by simp only [step, ht]; rfl⟩
  | tick => exact ⟨l.moved t, by simp only [step]; rw [if_pos hmay, ht]; rfl⟩
  | idle => exact ⟨l.moved t, by simp only [step]; rw [if_pos hmay, ht]; rfl⟩
  | other a => exact ⟨l.moved t, by simp only [step]; rw [if_pos hmay, ht]; rfl⟩

theorem passes (hmay : l.MayElapse config socket 1) :
    ∃ d l', 0 < d ∧ l.step config instantMax socket (.timed (.elapse d)) = some l' := by
  refine ⟨1, l.elapse 1, Nat.one_pos, ?_⟩
  simp only [step]
  exact if_pos hmay

/-- What the stage awaits of the task itself, and needs no clock, the task can do. -/
theorem step_of_awaits {a : SessionAct} {stage : Stage} (h : l.timed.session.Engaged)
    (hs : l.stage = stage) (hawaits : stage.Awaits a) (hown : a.own = true)
    (huntimed : a.untimed = true) (hevicted : a ≠ .evicted)
    (hjoined : a = .joined → l.timed.session.out.writer = .stopped)
    (hdue : l.Due config (.other a)) (hfollows : (TimedAct.other a).follows l.consulted = true) :
    ∃ act l', act.own = true ∧ l.step config instantMax socket act = some l' := by
  have hawaits' : l.timed.session.stage.Awaits a := by
    rw [← hs] at hawaits
    exact hawaits
  obtain ⟨s, hsession⟩ : ∃ s, l.timed.session.step config instantMax a = some s :=
    h.step_of_awaits hawaits' (fun he => absurd he hevicted) hjoined
  have ht : l.timed.step config instantMax socket (.other a)
      = some { l.timed with session := s } := by
    simp only [TimedSession.step]
    rw [if_pos huntimed, hsession]
    rfl
  have hown' : (TimedAct.other a).own = true := hown
  obtain ⟨l', hl'⟩ := step_of_timed hown' ht hdue hfollows
  exact ⟨.timed (.other a), l', hown, hl'⟩

theorem goes_on (h : l.timed.session.Engaged) (hdone : l.stage.done = false) :
    (∃ act l', act.own = true ∧ l.step config instantMax socket act = some l') ∨
      ∃ d l', 0 < d ∧ l.step config instantMax socket (.timed (.elapse d)) = some l' := by
  have hnot {a : SessionAct} (ha : (TimedAct.other a).isTimedOut = false) :
      l.Due config (.other a) := by
    intro htimedOut
    rw [ha] at htimedOut
    cases htimedOut
  have hstage : l.stage = l.timed.session.stage := rfl
  generalize hs : l.stage = stage at hdone hstage
  cases stage with
  | handshaking =>
      by_cases hasked : l.consulted = .asked
      · refine .inl ⟨.authorized, { l with consulted := .answered }, rfl, ?_⟩
        simp only [step]
        exact if_pos ⟨hs, hasked⟩
      · exact .inl (step_of_awaits h hs (.handshake (.ok none) "") rfl rfl (by simp) (by simp)
          (hnot rfl) (decide_eq_true hasked))
  | registering =>
      exact .inl (step_of_awaits h hs .registered rfl rfl (by simp) (by simp) (hnot rfl) rfl)
  | connecting =>
      obtain ⟨s, hs'⟩ : ∃ s, l.timed.session.step config instantMax (.connected l.timed.now)
          = some s :=
        h.step_of_awaits (by rw [← hstage]; exact .connected _) (by simp) (by simp)
      have ht : l.timed.step config instantMax socket .connected = some { l.timed with
          session := s, nextTick := l.timed.now + config.heartbeatInterval } := by
        simp only [TimedSession.step]
        rw [hs']
        rfl
      exact .inl ⟨.timed .connected, l.hear _, rfl, by simp only [step]; rw [ht]; rfl⟩
  | selecting =>
      obtain ⟨act, t, hown, hact, ht⟩ | hmay := TimedSession.selecting_goes_on h hstage.symm
      · have hdue : l.Due config act := fun htimedOut =>
          absurd (TimedAct.eq_of_isTimedOut htimedOut) hact
        have hfollows : act.follows l.consulted = true :=
          follows_of_step ht (by rw [hs]; simp)
        obtain ⟨l', hl'⟩ := step_of_timed hown ht hdue hfollows
        exact .inl ⟨.timed act, l', hown, hl'⟩
      · refine .inr (passes ⟨hmay, fun hs' => ?_, fun hs' => ?_⟩)
        · rw [hs] at hs'
          cases hs'
        · rw [hs] at hs'
          cases hs'
  | flushing =>
      by_cases hwriter : l.timed.session.out.writer = .stopped
      · exact .inl (step_of_awaits h hs .joined rfl rfl (by simp) (fun _ => hwriter) (hnot rfl) rfl)
      by_cases hdue : l.began + config.closeTimeout ≤ l.now
      · exact .inl (step_of_awaits h hs .timedOut rfl rfl (by simp) (by simp) (fun _ => hdue) rfl)
      · refine .inr (passes ⟨⟨fun hbusy => ?_, fun hs' => ?_⟩, fun hs' => ?_, fun _ => .inr ?_⟩)
        · rw [← hstage] at hbusy
          cases hbusy
        · rw [← hstage] at hs'
          cases hs'
        · rw [hs] at hs'
          cases hs'
        · exact ⟨hwriter, by omega⟩
  | pinging =>
      exact .inl (step_of_awaits h hs .pinging rfl rfl (by simp) (by simp) (hnot rfl) rfl)
  | handling callback =>
      exact .inl (step_of_awaits h hs (.callback callback []) rfl rfl (by simp) (by simp)
        (hnot rfl) rfl)
  | ponging =>
      exact .inl (step_of_awaits h hs .ponging rfl rfl (by simp) (by simp) (hnot rfl) rfl)
  | ended why =>
      exact .inl (step_of_awaits h hs (.teardown why) rfl rfl (by simp) (by simp) (hnot rfl) rfl)
  | closing =>
      exact .inl (step_of_awaits h hs .closing rfl rfl (by simp) (by simp) (hnot rfl) rfl)
  | marking =>
      exact .inl (step_of_awaits h hs .marking rfl rfl (by simp) (by simp) (hnot rfl) rfl)
  | disconnecting =>
      exact .inl (step_of_awaits h hs .disconnected rfl rfl (by simp) (by simp) (hnot rfl) rfl)
  | refused => cases hdone
  | finished => cases hdone
  | panicked why => cases hdone

theorem Within.before_loop (h : l.Within config) (hbefore : l.stage.beforeLoop = true) :
    l.now ≤ l.heard + l.attending + config.handshakeTimeout := by
  unfold Within at h
  cases hs : l.stage with
  | handshaking =>
      rw [hs] at h
      exact h.2
  | registering =>
      rw [hs] at h
      exact h
  | connecting =>
      rw [hs] at h
      exact h
  | _ =>
      rw [hs] at hbefore
      cases hbefore

theorem Within.in_loop (h : l.Within config) (hbefore : l.stage.beforeLoop = false)
    (hover : l.stage.loopOver = false) :
    l.now ≤ l.heard + l.attending + config.connectionTimeout := by
  unfold Within at h
  cases hs : l.stage with
  | selecting =>
      rw [hs] at h
      exact h.2
  | pinging =>
      rw [hs] at h
      exact h.2
  | ponging =>
      rw [hs] at h
      exact h.2
  | handling callback =>
      rw [hs] at h
      exact h.2
  | handshaking =>
      rw [hs] at hbefore
      cases hbefore
  | registering =>
      rw [hs] at hbefore
      cases hbefore
  | connecting =>
      rw [hs] at hbefore
      cases hbefore
  | _ =>
      rw [hs] at hover
      cases hover

theorem Within.after_loop (h : l.Within config) (hover : l.stage.loopOver = true)
    (hdone : l.stage.done = false) :
    l.now ≤ l.heard + l.attending + config.connectionTimeout + config.closeTimeout := by
  unfold Within at h
  cases hs : l.stage with
  | ended why =>
      rw [hs] at h
      exact Nat.le_add_right_of_le h
  | closing =>
      rw [hs] at h
      exact Nat.le_add_right_of_le h
  | flushing =>
      rw [hs] at h
      obtain ⟨hbegan, hnow⟩ := h
      omega
  | marking =>
      rw [hs] at h
      exact h
  | disconnecting =>
      rw [hs] at h
      exact h
  | refused =>
      rw [hs] at hdone
      cases hdone
  | finished =>
      rw [hs] at hdone
      cases hdone
  | panicked why =>
      rw [hs] at hdone
      cases hdone
  | _ =>
      rw [hs] at hover
      cases hover

/-- **A silent peer keeps its slot for so long**: in every run, the time in the authorizer and in
callbacks apart, the handshake is over `handshake_timeout` after it began, the loop is left
`connection_timeout` after it was entered or the last frame was read, and the task is at its end
`close_timeout` after that.  Until then it can do a step or time passes, and it does at most 28
steps of its own before it reads again. -/
theorem slot_time_limited (config : WebSocketServerConfig) (instantMax start : ℕ)
    (socket : Socket) (acts : List LifetimeAct) (l : Lifetime)
    (hrun : exec (step config instantMax socket) (new config start) acts = some l) :
    (l.stage.beforeLoop = true → l.now ≤ l.heard + l.attending + config.handshakeTimeout) ∧
    (l.stage.beforeLoop = false → l.stage.loopOver = false →
      l.now ≤ l.heard + l.attending + config.connectionTimeout) ∧
    (l.stage.loopOver = true → l.stage.done = false →
      l.now ≤ l.heard + l.attending + config.connectionTimeout + config.closeTimeout) ∧
    (l.stage.done = false →
      (∃ act l', act.own = true ∧ l.step config instantMax socket act = some l') ∨
        ∃ d l', 0 < d ∧ l.step config instantMax socket (.timed (.elapse d)) = some l') ∧
    ∀ after l', exec (step config instantMax socket) l after = some l' →
      (∀ act ∈ after, act.isRead = false) → after.countP LifetimeAct.own ≤ 28 := by
  have h : l.Within config :=
    exec_invariant (P := Within config) (fun _ _ _ h hs => h.step hs) (within_new start) hrun
  have hreached : l.timed.session.Reached config instantMax :=
    exec_invariant (P := fun l => l.timed.session.Reached config instantMax)
      (fun _ _ _ h hs => reached_step h hs) ⟨[], rfl⟩ hrun
  refine ⟨h.before_loop, h.in_loop, h.after_loop, goes_on hreached.engaged, ?_⟩
  intro after l' hafter hread
  have hcount : after.countP LifetimeAct.own + l'.workLeft ≤ l.workLeft :=
    countP_add_le_along (P := fun l => l.timed.session.Reached config instantMax) workLeft
      LifetimeAct.own (fun _ _ _ h hs hq => ⟨reached_step h hs, workLeft_of_step h hs hq⟩)
      hreached hafter (along_of_forall_mem hread)
  have hwork : l.workLeft ≤ 28 := workLeft_le
  omega

/-- The peer does the handshake, in which the authorizer takes 20 s, and is never heard of again,
and the writer does not end. -/
def unheardOf : List LifetimeAct :=
  let acts : List TimedAct :=
    [.other (.handshaken (.ok (some .anonymous)) "a"), .other .registered, .elapse (10 ^ 9),
      .connected, .elapse (30 * 10 ^ 9)] ++ TimedSession.pinging ++
      [.elapse (30 * 10 ^ 9), .idle, .other .teardown, .other .taskStep, .other .taskStep,
        .elapse (5 * 10 ^ 9), .other .timedOut]
  [.timed (.elapse (9 * 10 ^ 9)), .authorize, .timed (.elapse (20 * 10 ^ 9)), .authorized] ++
    acts.map .timed

/-- The limit is reached. -/
theorem slot_time_limited_unheardOf :
    ∃ l, exec (step .default (10 ^ 18) (.steady (10 ^ 12))) (new .default 0) unheardOf = some l ∧
      l.now = 95 * 10 ^ 9 ∧ l.heard + l.attending = 30 * 10 ^ 9 ∧
      l.now ≤ l.heard + l.attending + 60 * 10 ^ 9 + 5 * 10 ^ 9 := by
  obtain ⟨l, hrun, hover, hdone, hnow, hheard⟩ : ∃ l,
      exec (step .default (10 ^ 18) (.steady (10 ^ 12))) (new .default 0) unheardOf = some l ∧
        l.stage.loopOver = true ∧ l.stage.done = false ∧ l.now = 95 * 10 ^ 9 ∧
        l.heard + l.attending = 30 * 10 ^ 9 := by decide
  have hlimit := (slot_time_limited _ _ 0 _ _ l hrun).2.2.1 hover hdone
  exact ⟨l, hrun, hnow, hheard, hlimit⟩

end Lifetime
end ArmatureWebsocket
