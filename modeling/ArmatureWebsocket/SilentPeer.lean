import ArmatureWebsocket.Progress

/-! # A peer that falls silent is given up

A peer that stays live is not given up (`TimedSession.live_peer_stays`).  Here is the other half: a
peer from which nothing arrives any more does not keep its connection.  While nothing is read, the
loop waits no longer than until the idle deadline, or until the tick that is one more than
`MAX_MISSED_HEARTBEATS`, whichever comes first; a callback that came back later than both leaves it
no time at all.  And it does not go on without an end at that instant: each of its steps uses up a
ping, and the teardown is finite (`silent_peer_given_up`). -/

namespace ArmatureWebsocket

open Execution CallPool

namespace Session

variable {config : WebSocketServerConfig} {instantMax : ℕ} {s s' : Session} {act : SessionAct}

/-- The loop waits for its branches or pings the peer. -/
def Waiting (s : Session) : Prop := s.stage = .selecting ∨ s.stage = .pinging

/-- The pings that are left before the peer is given up. -/
def pingsLeft (s : Session) : ℕ := MAX_MISSED_HEARTBEATS - s.vars.missedHeartbeats

theorem callLeft_of_idle (h : s.Idle) : s.callLeft = 0 := by
  unfold callLeft
  rw [h]
  rfl

/-- The session is past its loop, with all of its teardown ahead at most. -/
def LoopLeft (s : Session) : Prop := s.stage.loopOver = true ∧ s.rest ≤ 7

theorem loopLeft_ended {why : LoopExit} : (s.goto (.ended why)).LoopLeft :=
  ⟨rfl, Nat.le_refl 7⟩

theorem loopLeft_panicked {why : Panic} : (s.goto (.panicked why)).LoopLeft :=
  ⟨rfl, Nat.zero_le 7⟩

theorem step_waiting (h : s.Engaged) (hwaiting : s.Waiting)
    (hmissed : s.vars.missedHeartbeats ≤ MAX_MISSED_HEARTBEATS)
    (hstep : s.step config instantMax act = some s')
    (hread : ∀ now result, act ≠ .read now result) :
    (act.own = false ∧ s'.stage = s.stage ∧ s'.vars = s.vars ∧ s'.callLeft = s.callLeft) ∨
    (act = .tick ∧ s'.stage = .pinging ∧ s'.callLeft = 4 ∧
      s.vars.missedHeartbeats < MAX_MISSED_HEARTBEATS ∧
      s'.vars = { s.vars with missedHeartbeats := s.vars.missedHeartbeats + 1 }) ∨
    (act = .taskStep ∧ s'.Waiting ∧ s'.vars = s.vars ∧ s'.callLeft + 1 ≤ s.callLeft) ∨
    s'.LoopLeft := by
  have hnot {stage : Stage} (hs : s.stage = stage) (hselecting : stage ≠ .selecting)
      (hpinging : stage ≠ .pinging) : False := by
    obtain hw | hw := hwaiting
    · exact hselecting (hs.symm.trans hw)
    · exact hpinging (hs.symm.trans hw)
  cases act with
  | outside a =>
      have hleft := callLeft_of_outside hstep
      obtain ⟨-, -, he⟩ := outside_some hstep
      refine .inl ⟨rfl, ?_, ?_, hleft⟩
      · rw [he]
        rfl
      · rw [he]
        rfl
  | handshaken outcome id => exact (hnot (handshaken_some hstep).1 nofun nofun).elim
  | registered => exact (hnot (registered_some hstep).1 nofun nofun).elim
  | connected now =>
      obtain ⟨out, hs, -, -⟩ := connected_some hstep
      exact (hnot hs nofun nofun).elim
  | tick =>
      obtain ⟨-, ⟨vars, why, -, rfl⟩ | ⟨vars, hvars, hbegin⟩⟩ := tick_some hstep
      · exact .inr (.inr (.inr loopLeft_ended))
      · have hlt : s.vars.missedHeartbeats < MAX_MISSED_HEARTBEATS := by
          by_contra hnlt
          have heq : s.vars.missedHeartbeats = MAX_MISSED_HEARTBEATS := by omega
          rw [onTick_of_eq heq] at hvars
          cases hvars
        rw [onTick_of_lt hlt] at hvars
        cases hvars
        refine .inr (.inl ⟨rfl, begin_stage hbegin, callLeft_of_begin hbegin, hlt, ?_⟩)
        obtain ⟨-, -, rfl⟩ := begin_some hbegin
        rfl
  | evicted =>
      obtain ⟨out, -, -, rfl⟩ := evicted_some hstep
      exact .inr (.inr (.inr loopLeft_ended))
  | idle =>
      obtain ⟨-, rfl⟩ := idle_some hstep
      exact .inr (.inr (.inr loopLeft_ended))
  | read now result => exact absurd rfl (hread now result)
  | callbackReturned pong =>
      obtain ⟨callback, hs, -⟩ := callbackReturned_some hstep
      exact (hnot hs nofun nofun).elim
  | callbackPanicked =>
      obtain ⟨-, out, -, rfl⟩ | ⟨-, rfl⟩ := callbackPanicked_some hstep <;>
        exact .inr (.inr (.inr loopLeft_panicked))
  | taskStep =>
      have hengaged := h.step hstep
      have hpinging : s.stage = .pinging := by
        obtain hs | hs := hwaiting
        · obtain ⟨f, out, hf, -⟩ := taskStep_some hstep
          rw [h.idle (by rw [hs]; rfl)] at hf
          cases hf
        · exact hs
      obtain ⟨hstage, hvars, hleft⟩ | ⟨out, failed, rfl, hleft⟩ := callLeft_of_taskStep hstep
      · exact .inr (.inr (.inl ⟨rfl, .inr (hstage.trans hpinging), hvars, hleft⟩))
      · have hreturned : (s.withOut out).callReturned config instantMax failed
            = if failed then (s.withOut out).goto (.ended .pingRefused)
              else (s.withOut out).loopHead config instantMax := by
          unfold callReturned
          rw [withOut_stage, hpinging]
        rw [hreturned] at hengaged ⊢
        split_ifs at hengaged ⊢ with hfailed
        · exact .inr (.inr (.inr loopLeft_ended))
        · obtain he | ⟨call, he⟩ := loopHead_cases config instantMax (s.withOut out)
          · rw [he] at hengaged ⊢
            refine .inr (.inr (.inl ⟨rfl, .inl rfl, rfl, ?_⟩))
            rw [callLeft_of_idle (hengaged.idle rfl)]
            exact hleft
          · rw [he]
            exact .inr (.inr (.inr loopLeft_panicked))
  | teardown =>
      obtain ⟨⟨why, hs⟩, -⟩ := teardown_some hstep
      exact (hnot hs nofun nofun).elim
  | joined => exact (hnot (joined_some hstep).1 nofun nofun).elim
  | timedOut => exact (hnot (timedOut_some hstep).1 nofun nofun).elim
  | disconnected => exact (hnot (disconnected_some hstep).1 nofun nofun).elim

end Session

/-- A step of the task itself, as opposed to one of the others or to the passing of time. -/
def TimedAct.own : TimedAct → Bool
  | .elapse _ => false
  | .other act => act.own
  | _ => true

namespace TimedSession

section

variable (config : WebSocketServerConfig) (socket : Socket)

/-- When the tick after the last ping that is left is due. -/
def fourthTick (t : TimedSession) : ℕ :=
  t.nextTick + t.session.pingsLeft * config.heartbeatInterval

/-- When the loop is left at the latest if nothing is read. -/
def giveUp (t : TimedSession) : ℕ :=
  max t.now (min (t.idleDeadline config) (t.fourthTick config))

/-- The loop waits, with this idle deadline and this fourth tick; the limit has not passed, and
before that nothing can be read. -/
structure WaitsUntil (deadline fourth limit : ℕ) (t : TimedSession) : Prop where
  waiting : t.session.Waiting
  missed_le : t.session.vars.missedHeartbeats ≤ MAX_MISSED_HEARTBEATS
  deadline_eq : t.idleDeadline config = deadline
  fourth_eq : t.fourthTick config = fourth
  now_le : t.now ≤ limit
  silent : limit < t.nextFrame socket

/-- The loop waits for a peer that is silent, or it has been left. -/
def Unheard (deadline fourth limit : ℕ) (t : TimedSession) : Prop :=
  t.session.Engaged ∧
    (WaitsUntil config socket deadline fourth limit t ∨ t.session.stage.loopOver = true)

end

/-- How many steps of its own the task makes at most. -/
def work (t : TimedSession) : ℕ :=
  match t.session.stage with
  | .selecting => 5 * t.session.pingsLeft + t.session.callLeft + 8
  | .pinging => 5 * t.session.pingsLeft + t.session.callLeft + 8
  | _ => t.session.rest

variable {config : WebSocketServerConfig} {instantMax : ℕ} {socket : Socket} {t t' : TimedSession}
  {deadline fourth limit : ℕ}

theorem work_of_waiting (h : t.session.Waiting) :
    t.work = 5 * t.session.pingsLeft + t.session.callLeft + 8 := by
  unfold work
  obtain hs | hs := h
  · rw [hs]
  · rw [hs]

theorem work_of_loopOver (h : t.session.stage.loopOver = true) : t.work = t.session.rest := by
  unfold work
  cases hs : t.session.stage with
  | selecting =>
      rw [hs] at h
      cases h
  | pinging =>
      rw [hs] at h
      cases h
  | _ => rfl

theorem work_le_of_loopLeft (h : t'.session.LoopLeft) (hwaiting : t.session.Waiting) :
    t'.work + 1 ≤ t.work := by
  rw [work_of_loopOver h.1, work_of_waiting hwaiting]
  have hrest := h.2
  omega

/-- A step of the session past its loop. -/
theorem Unheard.past (t' : TimedSession) (act : SessionAct) (hengaged : t.session.Engaged)
    (hover : t.session.stage.loopOver = true)
    (hstep : t.session.step config instantMax act = some t'.session) :
    Unheard config socket deadline fourth limit t' ∧
      t'.work + (if act.own = true then 1 else 0) ≤ t.work := by
  have hover' := Session.loopOver_of_step hover hstep
  refine ⟨⟨hengaged.step hstep, .inr hover'⟩, ?_⟩
  rw [work_of_loopOver hover, work_of_loopOver hover']
  exact Session.rest_of_step hengaged hover hstep

theorem WaitsUntil.step (t' : TimedSession) (act : SessionAct)
    (h : WaitsUntil config socket deadline fourth limit t) (hengaged : t.session.Engaged)
    (hstep : t.session.step config instantMax act = some t'.session)
    (hread : ∀ now result, act ≠ .read now result) (htick : act ≠ .tick)
    (hsame : t'.now = t.now ∧ t'.nextTick = t.nextTick ∧ t'.taken = t.taken) :
    Unheard config socket deadline fourth limit t' ∧
      t'.work + (if act.own = true then 1 else 0) ≤ t.work := by
  obtain ⟨hnow, hnext, htaken⟩ := hsame
  have hkept (hvars : t'.session.vars = t.session.vars) (hwaiting : t'.session.Waiting) :
      Unheard config socket deadline fourth limit t' := by
    refine ⟨hengaged.step hstep, .inl ⟨hwaiting, ?_, ?_, ?_, ?_, ?_⟩⟩
    · rw [hvars]
      exact h.missed_le
    · rw [← h.deadline_eq]
      unfold idleDeadline
      rw [hvars]
    · rw [← h.fourth_eq]
      unfold fourthTick Session.pingsLeft
      rw [hvars, hnext]
    · rw [hnow]
      exact h.now_le
    · unfold nextFrame
      rw [htaken]
      exact h.silent
  obtain ⟨hown, hstage, hvars, hleft⟩ | ⟨ht, -⟩ | ⟨rfl, hwaiting, hvars, hleft⟩ | hover :=
    Session.step_waiting hengaged h.waiting h.missed_le hstep hread
  · have hwaiting : t'.session.Waiting := by
      unfold Session.Waiting
      rw [hstage]
      exact h.waiting
    refine ⟨hkept hvars hwaiting, ?_⟩
    rw [work_of_waiting h.waiting, work_of_waiting hwaiting, hown, hleft]
    unfold Session.pingsLeft
    rw [hvars]
    exact Nat.le_refl _
  · exact absurd ht htick
  · refine ⟨hkept hvars hwaiting, ?_⟩
    rw [work_of_waiting h.waiting, work_of_waiting hwaiting]
    unfold Session.pingsLeft
    rw [hvars]
    split_ifs <;> omega
  · refine ⟨⟨hengaged.step hstep, .inr hover.1⟩, ?_⟩
    have hwork : t'.work + 1 ≤ t.work := work_le_of_loopLeft hover h.waiting
    split_ifs <;> omega

/-- A tick uses up a ping, and the fourth tick stays when it is. -/
theorem WaitsUntil.tick (h : WaitsUntil config socket deadline fourth limit t)
    (hengaged : t.session.Engaged) {s : Session}
    (hstep : t.session.step config instantMax .tick = some s) :
    let t' := { t with session := s, nextTick := t.nextTick + config.heartbeatInterval }
    Unheard config socket deadline fourth limit t' ∧ work t' + 1 ≤ t.work := by
  intro t'
  obtain ⟨hown, -⟩ | ⟨-, hstage, hleft, hlt, hvars⟩ | ⟨ht, -⟩ | hover :=
    Session.step_waiting hengaged h.waiting h.missed_le hstep nofun
  · cases hown
  · have hwaiting : t'.session.Waiting := .inr hstage
    have hvars' : t'.session.vars = _ := hvars
    have hpings : t'.session.pingsLeft + 1 = t.session.pingsLeft := by
      unfold Session.pingsLeft
      rw [hvars']
      show MAX_MISSED_HEARTBEATS - (t.session.vars.missedHeartbeats + 1) + 1 = _
      omega
    refine ⟨⟨hengaged.step hstep, .inl ⟨hwaiting, ?_, ?_, ?_, h.now_le, h.silent⟩⟩, ?_⟩
    · rw [hvars']
      exact hlt
    · rw [← h.deadline_eq]
      unfold idleDeadline
      rw [hvars']
    · rw [← h.fourth_eq]
      unfold fourthTick
      rw [← hpings, Nat.add_mul, Nat.one_mul]
      show t.nextTick + config.heartbeatInterval + _ = _
      omega
    · rw [work_of_waiting h.waiting, work_of_waiting hwaiting, ← hpings]
      show 5 * t'.session.pingsLeft + s.callLeft + 8 + 1 ≤ _
      omega
  · cases ht
  · exact ⟨⟨hengaged.step hstep, .inr hover.1⟩, work_le_of_loopLeft hover h.waiting⟩

/-- Time passes. -/
theorem WaitsUntil.elapse (h : WaitsUntil config socket deadline fourth limit t)
    (hlimit : min deadline fourth ≤ limit) {d : ℕ} (hd : t.MayElapse config socket d) :
    WaitsUntil config socket deadline fourth limit { t with now := t.now + d } := by
  refine ⟨h.waiting, h.missed_le, h.deadline_eq, h.fourth_eq, ?_, h.silent⟩
  show t.now + d ≤ limit
  have hnow := h.now_le
  obtain hs | hs := h.waiting
  · obtain rfl | ⟨-, htick, hidle, -⟩ := hd.2 hs
    · exact hnow
    · have hle : t.nextTick ≤ t.fourthTick config := Nat.le_add_right _ _
      have hdeadline := h.deadline_eq
      have hfourth := h.fourth_eq
      omega
  · obtain rfl := hd.1 (by rw [hs]; rfl)
    exact hnow

theorem Unheard.step {act : TimedAct} (h : Unheard config socket deadline fourth limit t)
    (hlimit : min deadline fourth ≤ limit)
    (hstep : t.step config instantMax socket act = some t') :
    Unheard config socket deadline fourth limit t' ∧
      t'.work + (if act.own = true then 1 else 0) ≤ t.work := by
  obtain ⟨hengaged, hwaits | hover⟩ := h
  · obtain ⟨d, rfl, hd, rfl⟩ | ⟨s, rfl, hs, rfl⟩ | ⟨s, rfl, -, hs, rfl⟩ |
      ⟨s, rfl, -, hs, rfl⟩ | ⟨s, rfl, hready, hs, rfl⟩ | ⟨a, s, rfl, huntimed, hs, rfl⟩ :=
      step_cases hstep
    · exact ⟨⟨hengaged, .inl (hwaits.elapse hlimit hd)⟩, Nat.le_refl _⟩
    · obtain ⟨out, hconnecting, -, -⟩ := Session.connected_some hs
      obtain hw | hw := hwaits.waiting
      · rw [hw] at hconnecting
        cases hconnecting
      · rw [hw] at hconnecting
        cases hconnecting
    · exact hwaits.tick hengaged hs
    · exact hwaits.step _ .idle hengaged hs (by simp) (by simp) ⟨rfl, rfl, rfl⟩
    · -- the peer is silent
      have hnow := hwaits.now_le
      have hsilent := hwaits.silent
      omega
    · refine hwaits.step _ a hengaged hs ?_ ?_ ⟨rfl, rfl, rfl⟩
      · rintro now result rfl
        cases huntimed
      · rintro rfl
        cases huntimed
  · obtain ⟨d, rfl, -, rfl⟩ | ⟨s, rfl, hs, rfl⟩ | ⟨s, rfl, -, hs, rfl⟩ |
      ⟨s, rfl, -, hs, rfl⟩ | ⟨s, rfl, -, hs, rfl⟩ | ⟨a, s, rfl, -, hs, rfl⟩ := step_cases hstep
    · exact ⟨⟨hengaged, .inr hover⟩, Nat.le_refl _⟩
    · exact Unheard.past _ (.connected t.now) hengaged hover hs
    · exact Unheard.past _ .tick hengaged hover hs
    · exact Unheard.past _ .idle hengaged hover hs
    · exact Unheard.past _ (.read t.now _) hengaged hover hs
    · exact Unheard.past _ a hengaged hover hs

theorem untimed_of_awaits {stage : Stage} {act : SessionAct} (h : stage.Awaits act)
    (hover : stage.loopOver = true) : act.untimed = true := by
  cases h <;> first | rfl | cases hover

theorem selecting_goes_on (h : t.session.Engaged) (hs : t.session.stage = .selecting) :
    (∃ act t', act.own = true ∧ act ≠ .other .timedOut ∧
      t.step config instantMax socket act = some t') ∨ t.MayElapse config socket 1 := by
  have hstep {act : SessionAct} (hawaits : Stage.selecting.Awaits act)
      (hevict : act = .evicted → t.session.out.pool.shared.evict = true)
      (hjoined : act ≠ .joined) : ∃ s, t.session.step config instantMax act = some s :=
    h.step_of_awaits (by rw [hs]; exact hawaits) hevict fun he => absurd he hjoined
  by_cases htick : t.nextTick ≤ t.now
  · obtain ⟨s, hs'⟩ := hstep .tick (by simp) (by simp)
    refine .inl ⟨.tick, { t with
      session := s, nextTick := t.nextTick + config.heartbeatInterval }, rfl, by simp, ?_⟩
    simp only [TimedSession.step]
    rw [if_pos htick, hs']
    rfl
  by_cases hidle : t.idleDeadline config ≤ t.now
  · obtain ⟨s, hs'⟩ := hstep .idle (by simp) (by simp)
    refine .inl ⟨.idle, { t with session := s }, rfl, by simp, ?_⟩
    simp only [TimedSession.step]
    rw [if_pos hidle, hs']
    rfl
  by_cases hframe : t.nextFrame socket ≤ t.now
  · obtain ⟨s, hs'⟩ := hstep (.read t.now (socket.yields t.taken)) (by simp) (by simp)
    refine .inl ⟨.read, { t with session := s, taken := t.taken + 1 }, rfl, by simp, ?_⟩
    simp only [TimedSession.step]
    rw [if_pos hframe, hs']
    rfl
  cases hevict : t.session.out.pool.shared.evict with
  | true =>
      obtain ⟨s, hs'⟩ := hstep .evicted (fun _ => hevict) (by simp)
      refine .inl ⟨.other .evicted, { t with session := s }, rfl, by simp, ?_⟩
      have huntimed : SessionAct.evicted.untimed = true := rfl
      simp only [TimedSession.step]
      rw [if_pos huntimed, hs']
      rfl
  | false =>
      refine .inr ⟨fun hbusy => ?_, fun _ => .inr ⟨hevict, ?_, ?_, ?_⟩⟩
      · rw [hs] at hbusy
        cases hbusy
      · omega
      · omega
      · omega

theorem Unheard.goes_on (h : Unheard config socket deadline fourth limit t)
    (hdone : t.session.stage.done = false) :
    (∃ act t', act.own = true ∧ t.step config instantMax socket act = some t') ∨
      ∃ d t', 0 < d ∧ t.step config instantMax socket (.elapse d) = some t' := by
  have hother {act : SessionAct} {s : Session} (hown : act.own = true)
      (huntimed : act.untimed = true) (hs : t.session.step config instantMax act = some s) :
      ∃ act t', act.own = true ∧ t.step config instantMax socket act = some t' := by
    refine ⟨.other act, { t with session := s }, hown, ?_⟩
    simp only [TimedSession.step]
    rw [if_pos huntimed, hs]
    rfl
  obtain ⟨hengaged, hwaits | hover⟩ := h
  · obtain hs | hs := hwaits.waiting
    · obtain ⟨act, t', hown, -, ht'⟩ | hmay := selecting_goes_on hengaged hs
      · exact .inl ⟨act, t', hown, ht'⟩
      · refine .inr ⟨1, { t with now := t.now + 1 }, Nat.one_pos, ?_⟩
        simp only [TimedSession.step]
        exact if_pos hmay
    · obtain ⟨s, hs'⟩ : ∃ s, t.session.step config instantMax .taskStep = some s :=
        hengaged.step_of_awaits (by rw [hs]; exact .pinging) (by simp) (by simp)
      exact .inl (hother rfl rfl hs')
  · obtain ⟨act, s, hawaits, hown, hs⟩ := hengaged.awaits hdone
    exact .inl (hother hown (untimed_of_awaits hawaits hover) hs)

/-- **A silent peer is given up**: from a point at which the loop waits, if no frame arrives until
the idle deadline or the tick after the last ping that is left, whichever comes first, then in every
run the loop is left by that instant (or at once, if it has passed); the task makes at most 23 steps
of its own until it is done; and until then one of them can be made or time passes. -/
theorem silent_peer_given_up (config : WebSocketServerConfig) (instantMax start : ℕ)
    (socket : Socket) (acts after : List TimedAct) (t t' : TimedSession)
    (hrun : exec (step config instantMax socket) (new config start) acts = some t)
    (hs : t.session.stage = .selecting) (hsilent : t.giveUp config < t.nextFrame socket)
    (hafter : exec (step config instantMax socket) t after = some t') :
    (t'.session.stage.loopOver = false → t'.now ≤ t.giveUp config) ∧
      after.countP TimedAct.own ≤ 23 ∧
      (t'.session.stage.done = false →
        (∃ act t'', act.own = true ∧ t'.step config instantMax socket act = some t'') ∨
          ∃ d t'', 0 < d ∧ t'.step config instantMax socket (.elapse d) = some t'') := by
  obtain ⟨sacts, hsrun, -⟩ := session_run hrun
  have hengaged : t.session.Engaged := Session.engaged_of_exec hsrun
  have hmissed : t.session.vars.missedHeartbeats ≤ MAX_MISSED_HEARTBEATS := by
    have hbeats := Session.beats_of_exec hsrun
    unfold Session.Beats at hbeats
    rw [hs] at hbeats
    have hcounts := hbeats.2.2
    rw [hcounts.missed_eq]
    exact hcounts.missed_le
  have hlimit : min (t.idleDeadline config) (t.fourthTick config) ≤ t.giveUp config :=
    Nat.le_max_right _ _
  have hstart : Unheard config socket (t.idleDeadline config) (t.fourthTick config)
      (t.giveUp config) t :=
    ⟨hengaged, .inl ⟨.inl hs, hmissed, rfl, rfl, Nat.le_max_left _ _, hsilent⟩⟩
  have hstep (t₁ : TimedSession) (act : TimedAct) (t₂ : TimedSession)
      (h : Unheard config socket (t.idleDeadline config) (t.fourthTick config) (t.giveUp config) t₁)
      (ht : t₁.step config instantMax socket act = some t₂) := h.step hlimit ht
  have hend := exec_invariant (fun t₁ act t₂ h ht => (hstep t₁ act t₂ h ht).1) hstart hafter
  have hcount : after.countP TimedAct.own + t'.work ≤ t.work :=
    countP_add_le work TimedAct.own hstep hstart hafter
  refine ⟨fun hover => ?_, ?_, hend.goes_on⟩
  · obtain ⟨-, hwaits | hover'⟩ := hend
    · exact hwaits.now_le
    · rw [hover] at hover'
      cases hover'
  · have hwork : t.work = 5 * t.session.pingsLeft + 8 := by
      rw [work_of_waiting (.inl hs), Session.callLeft_of_idle (hengaged.idle (by rw [hs]; rfl))]
    have hpings : t.session.pingsLeft ≤ 3 := Nat.sub_le _ _
    omega

/-- Nothing arrives; the peer is pinged once, and then the idle deadline has come. -/
def unheard : List TimedAct :=
  [.elapse (30 * 10 ^ 9)] ++ pinging ++ [.elapse (30 * 10 ^ 9), .idle, .other .teardown]

theorem silent_peer_given_up_unheard :
    ∃ t, exec (step .default (10 ^ 18) (.steady (10 ^ 12))) (new .default 0) entering = some t ∧
      ∃ t', exec (step .default (10 ^ 18) (.steady (10 ^ 12))) t unheard = some t' ∧
        unheard.countP TimedAct.own ≤ 23 := by
  obtain ⟨t, hrun, hs, hsilent, t', hafter, -⟩ : ∃ t,
      exec (step .default (10 ^ 18) (.steady (10 ^ 12))) (new .default 0) entering = some t ∧
        t.session.stage = .selecting ∧ t.giveUp .default < t.nextFrame (.steady (10 ^ 12)) ∧
          ∃ t', exec (step .default (10 ^ 18) (.steady (10 ^ 12))) t unheard = some t' ∧
            t'.session.stage = .closing := by decide
  exact ⟨t, hrun, t', hafter,
    (silent_peer_given_up _ _ 0 _ _ _ t t' hrun hs hsilent hafter).2.1⟩

end TimedSession
end ArmatureWebsocket
