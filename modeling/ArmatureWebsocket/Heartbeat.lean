import ArmatureWebsocket.LivePeer
import Mathlib.Data.List.DropRight

/-! # The two clocks of the read loop

The loop has two ways to find that its peer is gone.  It counts the ticks since a message was last
read, pings the peer at each, and gives up at the one after `MAX_MISSED_HEARTBEATS`.  And it waits
for a read no longer than the connection timeout, counted from the last one, whatever the ticker
does.

`Session.Beats` is what holds of both at every stage, as a function of the steps taken so far: what
was counted, how many pings the queue accepted, and when the last read was.  A timed session is one
of its runs with the instants of its reads (`TimedSession.session_run`), so its idle branch is ready
at an instant that its reads alone determine.  `liveness_clocks` has both. -/

namespace ArmatureWebsocket

open Execution CallPool

/-! ### Counting since a reset -/

section since

variable {α : Type*} {resets counted : α → Bool} {xs ys : List α} {a : α}

/-- How many items were counted since the last reset. -/
def countSince (resets counted : α → Bool) (xs : List α) : ℕ :=
  (xs.rtakeWhile fun a => !resets a).countP counted

theorem countSince_reset (h : resets a = true) : countSince resets counted (xs ++ [a]) = 0 := by
  unfold countSince
  rw [List.rtakeWhile_concat_neg _ _ _ (by simp [h])]
  rfl

theorem countSince_append (h : ∀ a ∈ ys, resets a = false) :
    countSince resets counted (xs ++ ys) = countSince resets counted xs + ys.countP counted := by
  induction ys using List.reverseRecOn with
  | nil => rw [List.append_nil, List.countP_nil, Nat.add_zero]
  | append_singleton ys a ih =>
      have ha : resets a = false := h a (by simp)
      have hys : ∀ b ∈ ys, resets b = false := fun b hb => h b (List.mem_append_left _ hb)
      have hlast : countSince resets counted (xs ++ ys ++ [a])
          = countSince resets counted (xs ++ ys) + [a].countP counted := by
        unfold countSince
        rw [List.rtakeWhile_concat_pos _ _ _ (by simp [ha]), List.countP_append]
      rw [← List.append_assoc, hlast, ih hys, List.countP_append, Nat.add_assoc]

theorem exists_last_reset (h : ∃ a ∈ xs, resets a = true) :
    ∃ before r gap, xs = before ++ r :: gap ∧ resets r = true ∧ ∀ a ∈ gap, resets a = false := by
  obtain ⟨a, ha, hresets⟩ := h
  have hfind : (xs.reverse.find? resets).isSome = true :=
    List.find?_isSome.mpr ⟨a, List.mem_reverse.mpr ha, hresets⟩
  obtain ⟨r, hr⟩ := Option.isSome_iff_exists.mp hfind
  obtain ⟨hr, after, before, hxs, hafter⟩ := List.find?_eq_some_iff_append.mp hr
  refine ⟨before.reverse, r, after.reverse, ?_, hr, fun b hb => ?_⟩
  · rw [← List.reverse_reverse xs, hxs]
    simp
  · simpa using hafter b (List.mem_reverse.mp hb)

end since

/-! ### The pings of a connection -/

/-- The message of a send in progress. -/
def ConnPc.sends : ConnPc → Option Message
  | .sendCheck m => some m
  | .sendTry m => some m
  | .evictState m => some m
  | .evictNotify m => some m
  | _ => none

section sends

variable {who : Caller} {c : ConnectionCell} {pc pc' : ConnPc} {m : Message}

theorem sends_of_next (h : (connStep who c pc).2 = .inl pc') (hm : pc.sends = some m) :
    pc'.sends = some m := by
  obtain ⟨m', rfl, rfl, -⟩ | ⟨m', rfl, rfl, -⟩ | ⟨m', rfl, rfl⟩ | ⟨rfl, rfl⟩ | ⟨rfl, rfl, -⟩ :=
    connStep_next h
  · exact hm
  · exact hm
  · exact hm
  · cases hm
  · cases hm

theorem sent_of_reply {reply : ConnReply} (h : (connStep who c pc).2 = .inr reply)
    (hm : pc.sends = some m) :
    (pc.after who c).tx.sent
      = if reply.failed then c.tx.sent else c.tx.sent ++ [⟨who, .send, m⟩] := by
  have hfailed (hsent : (pc.after who c).tx.sent = c.tx.sent) (he : reply.failed = true) :
      (pc.after who c).tx.sent
        = if reply.failed then c.tx.sent else c.tx.sent ++ [⟨who, .send, m⟩] := by
    rw [he]
    exact hsent
  cases pc with
  | sendCheck m' =>
      simp only [connStep] at h
      split_ifs at h
      cases h
      exact hfailed rfl rfl
  | sendTry m' =>
      cases hm
      by_cases hacc : c.tx.Accepts
      · have hok : (connStep who c (.sendTry m)).2 = .inr (.sent m (.ok ())) :=
          connStep_accepted.mpr ⟨rfl, hacc⟩
        obtain rfl := Sum.inr.inj (hok.symm.trans h)
        show (c.tx.offer _).sent = _
        rw [BoundedQueue.sent_offer, if_pos hacc]
        rfl
      · have hsent : ((ConnPc.sendTry m).after who c).tx.sent = c.tx.sent := by
          show (c.tx.offer _).sent = _
          rw [BoundedQueue.sent_offer, if_neg hacc]
        refine hfailed hsent ?_
        simp only [connStep] at h
        cases htry : c.tx.trySend ⟨who, .send, m⟩ with
        | ok tx => exact absurd (BoundedQueue.accepts_of_trySend htry).1 hacc
        | error e =>
            cases e with
            | full => simp [htry] at h
            | closed =>
                simp only [htry, Sum.inr.injEq] at h
                rw [← h]
                rfl
  | evictNotify m' =>
      cases h
      exact hfailed rfl rfl
  | _ => cases hm <;> cases h

theorem sent_of_next (h : (connStep who c pc).2 = .inl pc') :
    (pc.after who c).tx.sent = c.tx.sent := by
  obtain ⟨m', rfl, -, -⟩ | ⟨m', rfl, -, hfull⟩ | ⟨m', rfl, -⟩ | ⟨rfl, -⟩ | ⟨rfl, -, hfull⟩ :=
    connStep_next h
  · rfl
  · show (c.tx.offer _).sent = _
    rw [BoundedQueue.sent_offer, if_neg hfull]
  · rfl
  · rfl
  · show (c.tx.offer _).sent = _
    rw [BoundedQueue.sent_offer, if_neg hfull]

end sends

/-- The message is a heartbeat's ping. -/
def Envelope.isHeartbeat (e : Envelope) : Bool := e == ⟨.task, .send, .ping []⟩

namespace Outbound

/-- The heartbeat's pings that the queue accepted. -/
def pings (o : Outbound) : ℕ := o.tx.sent.countP Envelope.isHeartbeat

variable {o o' : Outbound} {act : OutAct}

/-- Only the task's own accesses enqueue the heartbeat's pings. -/
theorem pings_of_step (h : o.step act = some o') (hact : act ≠ .step .task) :
    o'.pings = o.pings := by
  obtain ⟨who, call, pool, rfl, -, -, -⟩ | ⟨who, pool, rfl, -, -⟩ |
    ⟨-, -, rfl⟩ | ⟨e, tx, -, -, hrecv, rfl⟩ | ⟨-, -, -, -, rfl⟩ | ⟨e, -, -, rfl⟩ |
    ⟨e, -, -, rfl⟩ | ⟨-, -, rfl⟩ | ⟨-, -, -, rfl⟩ | ⟨-, -, rfl⟩ | ⟨-, -, rfl⟩ := step_cases h
  · obtain ⟨-, -, rfl⟩ := start_some h
    rfl
  · obtain ⟨f, -, rfl⟩ := call_some h
    have hwho : who ≠ .task := fun he => hact (by rw [he])
    have hother (origin : Origin) (m : Message) :
        Envelope.isHeartbeat ⟨who, origin, m⟩ = false := by
      simp [Envelope.isHeartbeat, hwho]
    unfold pings tx
    rw [moved_shared]
    obtain htx | ⟨m, -, htx⟩ | ⟨-, htx⟩ := after_tx who o.pool.shared f.pc
    · rw [htx]
    · rw [htx, BoundedQueue.sent_offer]
      split_ifs
      · simp [hother]
      · rfl
    · rw [htx, BoundedQueue.sent_offer]
      split_ifs
      · simp [hother]
      · rfl
  · rfl
  · obtain ⟨-, -, -, -, hsent, -⟩ := BoundedQueue.recv?_some hrecv
    show tx.sent.countP _ = _
    rw [hsent]
    rfl
  · rfl
  · rfl
  · rfl
  · rfl
  · rfl
  · rfl
  · rfl

end Outbound

/-! ### The counters as functions of the steps taken -/

namespace SessionAct

/-- The step enters the loop or reads a message. -/
def resets : SessionAct → Bool
  | .connected _ => true
  | .read _ (.message _) => true
  | _ => false

/-- The step is a tick of the loop. -/
def isTick : SessionAct → Bool
  | .tick => true
  | _ => false

/-- The step is no tick and does not read the clock. -/
def plain : SessionAct → Bool
  | .connected _ => false
  | .read _ _ => false
  | .tick => false
  | _ => true

end SessionAct

/-- The ticks of a run. -/
def ticks (acts : List SessionAct) : ℕ := acts.countP SessionAct.isTick

/-- The ticks since the loop was entered or a message was last read. -/
def unanswered (acts : List SessionAct) : ℕ :=
  countSince SessionAct.resets SessionAct.isTick acts

/-- The instant of the last read, or of the start of the loop. -/
def lastReading (acts : List SessionAct) : Option ℕ :=
  (acts.filterMap SessionAct.instant).getLast?

/-- The loop was entered. -/
def entered (acts : List SessionAct) : Bool := acts.any SessionAct.resets

section counters

variable {acts : List SessionAct} {act : SessionAct}

theorem ticks_concat (h : act.isTick = false) : ticks (acts ++ [act]) = ticks acts := by
  unfold ticks
  rw [List.countP_append, List.countP_singleton, h]
  rfl

theorem ticks_tick : ticks (acts ++ [.tick]) = ticks acts + 1 := by
  unfold ticks
  rw [List.countP_append]
  rfl

theorem unanswered_concat (hresets : act.resets = false) (htick : act.isTick = false) :
    unanswered (acts ++ [act]) = unanswered acts := by
  unfold unanswered
  rw [countSince_append (by simp [hresets]), List.countP_singleton, htick]
  rfl

theorem unanswered_tick : unanswered (acts ++ [.tick]) = unanswered acts + 1 := by
  unfold unanswered
  rw [countSince_append (by simp [SessionAct.resets])]
  rfl

theorem unanswered_le (h : act ≠ .tick) : unanswered (acts ++ [act]) ≤ unanswered acts := by
  cases hresets : act.resets with
  | true =>
      have hzero : unanswered (acts ++ [act]) = 0 := countSince_reset hresets
      rw [hzero]
      exact Nat.zero_le _
  | false =>
      have htick : act.isTick = false := by cases act <;> first | rfl | exact absurd rfl h
      exact (unanswered_concat hresets htick).le

theorem lastReading_concat (h : act.instant = none) :
    lastReading (acts ++ [act]) = lastReading acts := by
  unfold lastReading
  rw [List.filterMap_append, List.filterMap_cons_none h, List.filterMap_nil, List.append_nil]

theorem lastReading_instant {now : ℕ} (h : act.instant = some now) :
    lastReading (acts ++ [act]) = some now := by
  unfold lastReading
  rw [List.filterMap_append, List.filterMap_cons_some h, List.filterMap_nil,
    List.getLast?_concat]

theorem entered_concat (h : act.resets = false) : entered (acts ++ [act]) = entered acts := by
  unfold entered
  rw [List.any_append, List.any_cons, h]
  exact Bool.or_false _

theorem entered_append (h : entered acts = true) : entered (acts ++ [act]) = true := by
  unfold entered at h ⊢
  rw [List.any_append, h, Bool.true_or]

/-- A plain step changes none of the four. -/
theorem counters_plain (acts : List SessionAct) (h : act.plain = true) :
    ticks (acts ++ [act]) = ticks acts ∧ unanswered (acts ++ [act]) = unanswered acts ∧
      lastReading (acts ++ [act]) = lastReading acts ∧ entered (acts ++ [act]) = entered acts := by
  have htick : act.isTick = false := by cases act <;> first | rfl | cases h
  have hresets : act.resets = false := by cases act <;> first | rfl | cases h
  have hinstant : act.instant = none := by cases act <;> first | rfl | cases h
  exact ⟨ticks_concat htick, unanswered_concat hresets htick, lastReading_concat hinstant,
    entered_concat hresets⟩

end counters

/-! ### What holds of the clocks at every stage -/

/-- The loop's variables are what the steps taken so far say, and the counter is not over its
limit. -/
structure Counts (acts : List SessionAct) (vars : LoopVars) : Prop where
  missed_eq : vars.missedHeartbeats = unanswered acts
  missed_le : unanswered acts ≤ MAX_MISSED_HEARTBEATS
  read_eq : lastReading acts = some vars.lastRead
  entered_eq : entered acts = true

/-- At the limit a tick ends the loop. -/
theorem onTick_of_eq {vars : LoopVars} (h : vars.missedHeartbeats = MAX_MISSED_HEARTBEATS) :
    onTick vars
      = ({ vars with missedHeartbeats := MAX_MISSED_HEARTBEATS + 1 }, some .missedHeartbeats) := by
  unfold onTick
  rw [h]
  rfl

theorem counts_plain {acts : List SessionAct} {act : SessionAct} {vars : LoopVars}
    (h : act.plain = true) : Counts (acts ++ [act]) vars ↔ Counts acts vars := by
  obtain ⟨-, hunanswered, hread, hentered⟩ := counters_plain acts h
  constructor
  · rintro ⟨hmissed, hle, hlast, henter⟩
    rw [hunanswered] at hmissed hle
    rw [hread] at hlast
    rw [hentered] at henter
    exact ⟨hmissed, hle, hlast, henter⟩
  · rintro ⟨hmissed, hle, hlast, henter⟩
    rw [← hunanswered] at hmissed hle
    rw [← hread] at hlast
    rw [← hentered] at henter
    exact ⟨hmissed, hle, hlast, henter⟩

/-- A step that enters the loop or reads a message starts the count again. -/
theorem Counts.of_reset {acts : List SessionAct} {act : SessionAct} {now : ℕ}
    (hresets : act.resets = true) (hnow : act.instant = some now) :
    Counts (acts ++ [act]) ⟨0, now⟩ := by
  have hzero : unanswered (acts ++ [act]) = 0 := countSince_reset hresets
  refine ⟨hzero.symm, ?_, lastReading_instant hnow, ?_⟩
  · rw [hzero]
    exact Nat.zero_le _
  · exact List.any_eq_true.mpr ⟨act, by simp, hresets⟩

/-- A tick below the limit is counted. -/
theorem Counts.tick {acts : List SessionAct} {vars : LoopVars} (h : Counts acts vars)
    (hlt : unanswered acts < MAX_MISSED_HEARTBEATS) :
    Counts (acts ++ [.tick]) { vars with missedHeartbeats := vars.missedHeartbeats + 1 } := by
  refine ⟨?_, ?_, ?_, entered_append h.entered_eq⟩
  · rw [unanswered_tick, ← h.missed_eq]
  · rw [unanswered_tick]
    exact hlt
  · rw [lastReading_concat rfl]
    exact h.read_eq

/-- A read that yields no message is dated. -/
theorem Counts.date {acts : List SessionAct} {act : SessionAct} {vars : LoopVars}
    (h : Counts acts vars) (now : ℕ) (hresets : act.resets = false) (htick : act.isTick = false)
    (hnow : act.instant = some now) : Counts (acts ++ [act]) { vars with lastRead := now } := by
  have hunanswered : unanswered (acts ++ [act]) = unanswered acts := unanswered_concat hresets htick
  refine ⟨?_, ?_, lastReading_instant hnow, entered_append h.entered_eq⟩
  · rw [hunanswered]
    exact h.missed_eq
  · rw [hunanswered]
    exact h.missed_le

/-- Nothing is said of the clocks here, nor later on. -/
def Stage.past : Stage → Bool
  | .handshaking => false
  | .registering => false
  | .connecting => false
  | .selecting => false
  | .handling _ => false
  | .pinging => false
  | .ponging => false
  | .ended why => why != .missedHeartbeats
  | _ => true

theorem Stage.Moves.past {stage stage' : Stage} {act : SessionAct} (h : stage.Moves act stage')
    (hpast : stage.past = true) : stage'.past = true := by
  cases h <;> first | rfl | cases hpast

namespace Session

variable {config : WebSocketServerConfig} {instantMax : ℕ} {s s' : Session}
  {acts : List SessionAct}

/-- The task is in no call. -/
def Idle (s : Session) : Prop := s.out.pool.threads.lookup .task = none

/-- The task is sending the message. -/
def Sending (s : Session) (m : Message) : Prop :=
  ∃ f, s.out.pool.threads.lookup .task = some f ∧ f.pc.sends = some m

/-- What holds of the clocks at each stage, after the given steps: every tick but the last was
answered by a ping that the queue accepted, and the last one is at its ping or was one too many. -/
def Beats (acts : List SessionAct) (s : Session) : Prop :=
  match s.stage with
  | .handshaking => s.Idle ∧ s.out.pings = ticks acts
  | .registering => s.Idle ∧ s.out.pings = ticks acts
  | .connecting => s.Idle ∧ s.out.pings = ticks acts
  | .selecting => s.Idle ∧ s.out.pings = ticks acts ∧ Counts acts s.vars
  | .handling _ => s.Idle ∧ s.out.pings = ticks acts ∧ Counts acts s.vars
  | .pinging => s.Sending (.ping []) ∧ s.out.pings + 1 = ticks acts ∧ Counts acts s.vars
  | .ponging => (∃ payload, s.Sending (.pong payload)) ∧ s.out.pings = ticks acts ∧
      Counts acts s.vars
  | .ended .missedHeartbeats => s.Idle ∧ s.out.pings + 1 = ticks acts ∧
      unanswered acts = MAX_MISSED_HEARTBEATS + 1 ∧ entered acts = true
  | _ => True

theorem beats_of_past (h : s.stage.past = true) : Beats acts s := by
  unfold Beats
  split
  any_goals
    rename_i hs
    rw [hs] at h
    cases h
  trivial

theorem past_of_step {act : SessionAct} (hstep : s.step config instantMax act = some s')
    (hpast : s.stage.past = true) : s'.stage.past = true := by
  obtain hsame | hmoves := stage_moves hstep
  · rw [hsame]
    exact hpast
  · exact hmoves.past hpast

theorem beats_new (config : WebSocketServerConfig) : Beats [] (new config) :=
  ⟨lookup_quiet, rfl⟩

theorem Beats.of_plain {act : SessionAct} (h : Beats acts s) (hplain : act.plain = true)
    (hstage : s'.stage = s.stage) (hvars : s'.vars = s.vars) (hpings : s'.out.pings = s.out.pings)
    (hlookup : s'.out.pool.threads.lookup .task = s.out.pool.threads.lookup .task) :
    Beats (acts ++ [act]) s' := by
  obtain ⟨hticks, hunanswered, -, hentered⟩ := counters_plain acts hplain
  unfold Beats Idle Sending at h ⊢
  rw [hstage, hvars, hpings, hlookup, hticks, hunanswered, hentered]
  simp only [counts_plain hplain]
  exact h

/-- The loop goes on with the task in no call and every tick answered by a ping. -/
theorem Beats.loopHead (hidle : s.Idle) (hpings : s.out.pings = ticks acts)
    (hcounts : Counts acts s.vars) : Beats acts (s.loopHead config instantMax) := by
  obtain he | ⟨call, he⟩ := loopHead_cases config instantMax s
  · rw [he]
    exact ⟨hidle, hpings, hcounts⟩
  · rw [he]
    trivial

theorem Beats.outside {act : OutAct} (h : Beats acts s)
    (hstep : s.step config instantMax (.outside act) = some s') :
    Beats (acts ++ [.outside act]) s' := by
  obtain ⟨hallows, hout, he⟩ := outside_some hstep
  have hcaller : act.caller ≠ some .task := by
    intro hcaller
    cases act with
    | start who call =>
        cases hcaller
        cases hallows
    | step who =>
        cases hcaller
        cases hallows
    | _ => cases hcaller
  have hstage : s'.stage = s.stage := by rw [he]; rfl
  have hvars : s'.vars = s.vars := by rw [he]; rfl
  refine h.of_plain rfl hstage hvars (Outbound.pings_of_step hout ?_)
    (Outbound.lookup_of_step hout hcaller)
  rintro rfl
  exact hcaller rfl

theorem Beats.handshaken {outcome : WebSocketResult (Option Principal)} {id : ConnectionId}
    (h : Beats acts s) (hstep : s.step config instantMax (.handshaken outcome id) = some s') :
    Beats (acts ++ [.handshaken outcome id]) s' := by
  have hmoves := stage_moves hstep
  obtain ⟨hstage, he⟩ := handshaken_some hstep
  have hout : s'.out = s.out := by rw [he, handshakeEnd_out]
  unfold Beats Idle at h ⊢
  rw [hstage] at h hmoves
  rw [hout, ticks_concat rfl]
  obtain hsame | hmoves := hmoves
  · rw [hsame]
    exact h
  · generalize s'.stage = stage at hmoves
    cases hmoves with
    | upgraded => exact h
    | refused => trivial
    | panicked => trivial

theorem Beats.registered (h : Beats acts s)
    (hstep : s.step config instantMax .registered = some s') :
    Beats (acts ++ [.registered]) s' := by
  obtain ⟨hstage, rfl⟩ := registered_some hstep
  unfold Beats at h
  rw [hstage] at h
  show Idle s ∧ s.out.pings = ticks (acts ++ [.registered])
  rw [ticks_concat rfl]
  exact h

theorem Beats.connected {now : ℕ} (h : Beats acts s)
    (hstep : s.step config instantMax (.connected now) = some s') :
    Beats (acts ++ [.connected now]) s' := by
  have hmoves := stage_moves hstep
  obtain ⟨out, hstage, hout, he⟩ := connected_some hstep
  have hout' : s'.out = out := by rw [he, enterLoop_out, withOut_out]
  have hpings : out.pings = s.out.pings := Outbound.pings_of_step hout nofun
  have hlookup : out.pool.threads.lookup .task = s.out.pool.threads.lookup .task :=
    Outbound.lookup_of_step hout nofun
  unfold Beats Idle at h ⊢
  rw [hstage] at h hmoves
  rw [hout', hpings, hlookup, ticks_concat rfl]
  obtain hsame | hmoves := hmoves
  · rw [hsame]
    exact h
  · cases hs : s'.stage with
    | selecting =>
        rw [he] at hs
        rw [he, enterLoop_eq hs]
        exact ⟨h.1, h.2, Counts.of_reset rfl rfl⟩
    | panicked => trivial
    | _ =>
        rw [hs] at hmoves
        cases hmoves

theorem Beats.tick (h : Beats acts s) (hstep : s.step config instantMax .tick = some s') :
    Beats (acts ++ [.tick]) s' := by
  obtain ⟨hstage, hnext⟩ := tick_some hstep
  unfold Beats at h
  rw [hstage] at h
  obtain ⟨hidle, hpings, hcounts⟩ := h
  obtain hlt | heq := hcounts.missed_le.lt_or_eq
  · -- the tick is answered with a ping
    rw [onTick_of_lt (by rw [hcounts.missed_eq]; exact hlt)] at hnext
    obtain ⟨vars, why, hvars, -⟩ | ⟨vars, hvars, hbegin⟩ := hnext
    · cases hvars
    · cases hvars
      obtain ⟨-, -, rfl⟩ := begin_some hbegin
      refine ⟨⟨_, lookup_begun.trans (if_pos rfl), rfl⟩, ?_, hcounts.tick hlt⟩
      rw [ticks_tick, ← hpings]
      rfl
  · rw [onTick_of_eq (by rw [hcounts.missed_eq, heq])] at hnext
    obtain ⟨vars, why, hvars, rfl⟩ | ⟨vars, hvars, -⟩ := hnext
    · cases hvars
      refine ⟨hidle, ?_, ?_, entered_append hcounts.entered_eq⟩
      · rw [ticks_tick, ← hpings]
        rfl
      · rw [unanswered_tick, heq]
    · cases hvars

theorem Beats.read {now : ℕ} {result : ReadResult} (h : Beats acts s)
    (hstep : s.step config instantMax (.read now result) = some s') :
    Beats (acts ++ [.read now result]) s' := by
  obtain ⟨hstage, rfl⟩ := read_some hstep
  unfold Beats at h
  rw [hstage] at h
  obtain ⟨hidle, hpings, hcounts⟩ := h
  have hvars : Counts (acts ++ [.read now result]) (readVars s.vars now result) := by
    cases result with
    | message msg => exact Counts.of_reset rfl rfl
    | error reason => exact hcounts.date now rfl rfl rfl
    | endOfStream => exact hcounts.date now rfl rfl rfl
  cases hafter : ArmatureWebsocket.afterRead result with
  | exit why =>
      unfold Session.afterRead
      rw [hafter]
      obtain rfl | rfl := afterRead_exit_ne hafter
      · trivial
      · trivial
  | call cb =>
      unfold Session.afterRead
      rw [hafter]
      refine ⟨hidle, ?_, hvars⟩
      rw [ticks_concat rfl]
      exact hpings

/-- A send of the task goes on, or returns and has enqueued its message if it did not fail. -/
theorem Sending.taskStep {m : Message} (h : s.Sending m)
    (hstep : s.step config instantMax .taskStep = some s') :
    (s'.stage = s.stage ∧ s'.vars = s.vars ∧ s'.Sending m ∧ s'.out.pings = s.out.pings) ∨
      ∃ out failed, s' = (s.withOut out).callReturned config instantMax failed ∧
        (s.withOut out).Idle ∧ out.pings = s.out.pings + if failed then 0 else
          [(⟨.task, .send, m⟩ : Envelope)].countP Envelope.isHeartbeat := by
  obtain ⟨f, hf, hm⟩ := h
  obtain ⟨g, out, hg, -, hout, hnext⟩ := taskStep_some hstep
  rw [hf] at hg
  cases hg
  have hsent : out.tx.sent = (f.pc.after .task s.out.pool.shared).tx.sent := by
    rw [hout]
    unfold Outbound.tx
    rw [moved_shared]
  obtain ⟨pc, hpc, rfl⟩ | ⟨reply, hreply, rfl⟩ := hnext
  · refine .inl ⟨rfl, rfl, ⟨⟨pc, f.late⟩, ?_, sends_of_next hpc hm⟩, ?_⟩
    · show out.pool.threads.lookup .task = _
      rw [hout, hpc]
      exact lookup_moved_self
    · show out.tx.sent.countP _ = _
      rw [hsent, sent_of_next hpc]
      rfl
  · refine .inr ⟨out, reply.failed, rfl, ?_, ?_⟩
    · show out.pool.threads.lookup .task = _
      rw [hout, hreply]
      exact lookup_moved_self
    · unfold Outbound.pings
      rw [hsent, sent_of_reply hreply hm]
      split_ifs
      · rfl
      · exact List.countP_append

theorem Beats.taskStep (h : Beats acts s)
    (hstep : s.step config instantMax .taskStep = some s') : Beats (acts ++ [.taskStep]) s' := by
  have hidle (hidle : s.Idle) : False := by
    obtain ⟨f, -, hf, -⟩ := taskStep_some hstep
    rw [hidle] at hf
    cases hf
  unfold Beats at h
  cases hs : s.stage with
  | handshaking =>
      rw [hs] at h
      exact (hidle h.1).elim
  | registering =>
      rw [hs] at h
      exact (hidle h.1).elim
  | connecting =>
      rw [hs] at h
      exact (hidle h.1).elim
  | selecting =>
      rw [hs] at h
      exact (hidle h.1).elim
  | handling cb =>
      rw [hs] at h
      exact (hidle h.1).elim
  | pinging =>
      rw [hs] at h
      obtain ⟨hsending, hpings, hcounts⟩ := h
      have hplain : SessionAct.plain .taskStep = true := rfl
      have hcounts := (counts_plain hplain).mpr hcounts
      rw [← (counters_plain acts hplain).1] at hpings
      obtain ⟨hstage, hvars, hsending, hsame⟩ | ⟨out, failed, rfl, hidle, hsame⟩ :=
        hsending.taskStep hstep
      · unfold Beats
        rw [hstage, hs, hvars, hsame]
        exact ⟨hsending, hpings, hcounts⟩
      · unfold callReturned
        simp only [withOut_stage, hs]
        split_ifs with hfailed
        · trivial
        · rw [if_neg hfailed] at hsame
          exact loopHead hidle (hsame.trans hpings) hcounts
  | ponging =>
      rw [hs] at h
      obtain ⟨⟨payload, hsending⟩, hpings, hcounts⟩ := h
      have hplain : SessionAct.plain .taskStep = true := rfl
      have hcounts := (counts_plain hplain).mpr hcounts
      rw [← (counters_plain acts hplain).1] at hpings
      obtain ⟨hstage, hvars, hsending, hsame⟩ | ⟨out, failed, rfl, hidle, hsame⟩ :=
        hsending.taskStep hstep
      · unfold Beats
        rw [hstage, hs, hvars, hsame]
        exact ⟨⟨payload, hsending⟩, hpings, hcounts⟩
      · unfold callReturned
        simp only [withOut_stage, hs]
        have hpong : Envelope.isHeartbeat ⟨.task, .send, .pong payload⟩ = false := by
          simp [Envelope.isHeartbeat, Message.ping, Message.pong]
        rw [List.countP_singleton, hpong, if_neg Bool.false_ne_true, ite_self] at hsame
        exact loopHead hidle (hsame.trans hpings) hcounts
  | ended why =>
      cases why with
      | missedHeartbeats =>
          rw [hs] at h
          exact (hidle h.1).elim
      | _ => exact beats_of_past (past_of_step hstep (by rw [hs]; rfl))
  | _ => exact beats_of_past (past_of_step hstep (by rw [hs]; rfl))

theorem Beats.callbackReturned {pong : Bytes} (h : Beats acts s)
    (hstep : s.step config instantMax (.callbackReturned pong) = some s') :
    Beats (acts ++ [.callbackReturned pong]) s' := by
  obtain ⟨cb, hs, hnext⟩ := callbackReturned_some hstep
  unfold Beats at h
  rw [hs] at h
  obtain ⟨hidle, hpings, hcounts⟩ := h
  have hplain : SessionAct.plain (.callbackReturned pong) = true := rfl
  have hcounts := (counts_plain hplain).mpr hcounts
  rw [← (counters_plain acts hplain).1] at hpings
  obtain ⟨-, rfl⟩ | ⟨-, hbegin⟩ | ⟨why, hresume, rfl⟩ := hnext
  · exact loopHead hidle hpings hcounts
  · obtain ⟨-, -, rfl⟩ := begin_some hbegin
    exact ⟨⟨pong, _, lookup_begun.trans (if_pos rfl), rfl⟩, hpings, hcounts⟩
  · obtain ⟨-, rfl⟩ := Callback.resume_exit_iff.mp hresume
    trivial

theorem Beats.step {act : SessionAct} (h : Beats acts s)
    (hstep : s.step config instantMax act = some s') : Beats (acts ++ [act]) s' := by
  cases act with
  | outside a => exact h.outside hstep
  | handshaken outcome id => exact h.handshaken hstep
  | registered => exact h.registered hstep
  | connected now => exact h.connected hstep
  | tick => exact h.tick hstep
  | evicted =>
      obtain ⟨out, -, -, rfl⟩ := evicted_some hstep
      trivial
  | idle =>
      obtain ⟨-, rfl⟩ := idle_some hstep
      trivial
  | read now result => exact h.read hstep
  | callbackReturned pong => exact h.callbackReturned hstep
  | callbackPanicked =>
      obtain ⟨-, out, -, rfl⟩ | ⟨-, rfl⟩ := callbackPanicked_some hstep <;> trivial
  | taskStep => exact h.taskStep hstep
  | teardown => exact beats_of_past (by rw [begin_stage (teardown_some hstep).2]; rfl)
  | joined => exact beats_of_past (by rw [begin_stage (joined_some hstep).2.2]; rfl)
  | timedOut => exact beats_of_past (by rw [begin_stage (timedOut_some hstep).2]; rfl)
  | disconnected =>
      obtain ⟨-, rfl⟩ := disconnected_some hstep
      trivial

/-- The clocks of every run. -/
theorem beats_of_exec (hrun : exec (step config instantMax) (new config) acts = some s) :
    Beats acts s :=
  exec_history (fun _ _ _ _ h hstep => h.step hstep) (beats_new config) hrun

theorem missed_exit_iff {act : SessionAct} (h : Beats acts s)
    (hstep : s.step config instantMax act = some s') (hs : s.stage ≠ .ended .missedHeartbeats) :
    s'.stage = .ended .missedHeartbeats ↔
      act = .tick ∧ unanswered (acts ++ [act]) = MAX_MISSED_HEARTBEATS + 1 := by
  have h' := h.step hstep
  constructor
  · intro hs'
    unfold Beats at h h'
    rw [hs'] at h'
    obtain ⟨-, -, hover, -⟩ := h'
    refine ⟨?_, hover⟩
    by_contra hact
    have hle : unanswered (acts ++ [act]) ≤ unanswered acts := unanswered_le hact
    have hnot (hcounts : Counts acts s.vars) : False := by
      have hmax := hcounts.missed_le
      omega
    obtain hsame | hmoves := stage_moves hstep
    · exact hs (hsame.symm.trans hs')
    · rw [hs'] at hmoves
      generalize s.stage = stage at hmoves h
      cases hmoves with
      | unanswered => exact hact rfl
      | exited => exact hnot h.2.2
      | failed => exact hnot h.2.2
  · rintro ⟨rfl, hover⟩
    obtain ⟨hst, hnext⟩ := tick_some hstep
    unfold Beats at h
    rw [hst] at h
    rw [unanswered_tick] at hover
    rw [onTick_of_eq (by rw [h.2.2.missed_eq]; omega)] at hnext
    obtain ⟨vars, why, hvars, rfl⟩ | ⟨vars, hvars, -⟩ := hnext
    · cases hvars
      rfl
    · cases hvars

theorem pings_of_reset {r : SessionAct} (h : Beats acts s) (hr : r.resets = true)
    (hstep : s.step config instantMax r = some s') : s'.out.pings = ticks (acts ++ [r]) := by
  cases r with
  | connected now =>
      obtain ⟨out, hs, hout, rfl⟩ := connected_some hstep
      unfold Beats at h
      rw [hs] at h
      rw [enterLoop_out, withOut_out, ticks_concat rfl, Outbound.pings_of_step hout nofun]
      exact h.2
  | read now result =>
      obtain ⟨hs, rfl⟩ := read_some hstep
      unfold Beats at h
      rw [hs] at h
      rw [afterRead_out, ticks_concat rfl]
      exact h.2.1
  | _ => cases hr

/-- A loop that was given up had taken one tick more than the limit since it was entered or read a
message, and every tick but the last had put a ping in the queue. -/
theorem gap_of_missed_exit (hrun : exec (step config instantMax) (new config) acts = some s)
    (hs : s.stage = .ended .missedHeartbeats) :
    ∃ before r gap s₀, acts = before ++ r :: gap ∧ r.resets = true ∧
      (∀ a ∈ gap, a.resets = false) ∧
      exec (step config instantMax) (new config) (before ++ [r]) = some s₀ ∧
      ticks gap = MAX_MISSED_HEARTBEATS + 1 ∧
      s.out.pings = s₀.out.pings + MAX_MISSED_HEARTBEATS := by
  have h := beats_of_exec hrun
  unfold Beats at h
  rw [hs] at h
  obtain ⟨-, hpings, hover, hentered⟩ := h
  obtain ⟨before, r, gap, rfl, hr, hgap⟩ := exists_last_reset (List.any_eq_true.mp hentered)
  rw [List.append_cons] at hrun hpings hover
  have hcount : unanswered (before ++ [r] ++ gap) = ticks gap := by
    unfold unanswered
    rw [countSince_append hgap, countSince_reset hr, Nat.zero_add]
    rfl
  have hticks : ticks (before ++ [r] ++ gap) = ticks (before ++ [r]) + ticks gap :=
    List.countP_append
  rw [exec_append] at hrun
  obtain ⟨s₀, hrun₀, -⟩ := Option.bind_eq_some_iff.mp hrun
  have hpings₀ : s₀.out.pings = ticks (before ++ [r]) := by
    have hrun₁ := hrun₀
    rw [exec_append] at hrun₁
    obtain ⟨s₁, hbefore, hlast⟩ := Option.bind_eq_some_iff.mp hrun₁
    obtain ⟨s₂, hstep, hnil⟩ := exec_cons_iff.mp hlast
    cases hnil
    exact pings_of_reset (beats_of_exec hbefore) hr hstep
  refine ⟨before, r, gap, s₀, rfl, hr, hgap, hrun₀, ?_, ?_⟩
  · rw [← hcount]
    exact hover
  · omega

end Session

/-! ### The idle deadline -/

namespace TimedSession

section

variable (config : WebSocketServerConfig) (instantMax : ℕ) (socket : Socket)

/-- The idle branch can be taken when the clock shows `now`. -/
def IdleReady (t : TimedSession) (now : ℕ) : Prop :=
  ({ t with now := now }.step config instantMax socket .idle).isSome = true

end

variable {config : WebSocketServerConfig} {instantMax start : ℕ} {socket : Socket}
  {t t' : TimedSession} {acts : List TimedAct}

theorem idleReady_iff (hs : t.session.stage = .selecting) {now : ℕ} :
    t.IdleReady config instantMax socket now ↔ t.idleDeadline config ≤ now := by
  have hstep : t.session.step config instantMax .idle =
      some (t.session.goto (.ended .idleTimeout)) := by
    simp only [Session.step, hs]
  unfold IdleReady step
  simp only [hstep]
  show (if t.idleDeadline config ≤ now then _ else none).isSome = true ↔ _
  split_ifs with hdue
  · exact iff_of_true rfl hdue
  · exact iff_of_false Bool.false_ne_true hdue

/-- The idle deadline is the last read's, or the loop's start's, instant plus the timeout. -/
theorem idleReady_of_exec
    (hrun : exec (step config instantMax socket) (new config start) acts = some t)
    (hs : t.session.stage = .selecting) :
    ∃ last, (readings config instantMax socket (new config start) acts).getLast? = some last ∧
      ∀ now, t.IdleReady config instantMax socket now ↔ last + config.connectionTimeout ≤ now := by
  obtain ⟨sacts, hsrun, hinstants⟩ := session_run hrun
  have hbeats := Session.beats_of_exec hsrun
  unfold Session.Beats at hbeats
  rw [hs] at hbeats
  have hread := hbeats.2.2.read_eq
  unfold lastReading at hread
  rw [hinstants] at hread
  exact ⟨_, hread, fun now => idleReady_iff hs⟩

end TimedSession

/-- **The two clocks**: at every head of the loop the counter is the number of ticks since the loop
was entered or a message was last read, and is at most the limit; the loop is given up exactly at
the tick that is one more than the limit, after as many pings as the limit were put in the queue;
and the idle branch is ready from the connection timeout after the last read on, so at the same
instants in two runs that read at the same instants, whatever ticks they take. -/
theorem liveness_clocks (config : WebSocketServerConfig) (instantMax : ℕ) :
    (∀ (acts : List SessionAct) (s : Session),
      exec (Session.step config instantMax) (.new config) acts = some s →
      (s.stage = .selecting →
        s.vars.missedHeartbeats = unanswered acts ∧
          s.vars.missedHeartbeats ≤ MAX_MISSED_HEARTBEATS ∧
          s.vars.missedHeartbeats + 1 < 2 ^ 32 ∧ lastReading acts = some s.vars.lastRead) ∧
      (∀ act s', s.step config instantMax act = some s' → s.stage ≠ .ended .missedHeartbeats →
        (s'.stage = .ended .missedHeartbeats ↔
          act = .tick ∧ unanswered (acts ++ [act]) = MAX_MISSED_HEARTBEATS + 1)) ∧
      (s.stage = .ended .missedHeartbeats →
        ∃ before r gap s₀, acts = before ++ r :: gap ∧ r.resets = true ∧
          (∀ a ∈ gap, a.resets = false) ∧
          exec (Session.step config instantMax) (.new config) (before ++ [r]) = some s₀ ∧
          ticks gap = MAX_MISSED_HEARTBEATS + 1 ∧
          s.out.pings = s₀.out.pings + MAX_MISSED_HEARTBEATS)) ∧
    (∀ (socket : Socket) (start : ℕ) (acts : List TimedAct) (t : TimedSession),
      exec (TimedSession.step config instantMax socket) (.new config start) acts = some t →
      t.session.stage = .selecting →
      ∃ last, (TimedSession.readings config instantMax socket (.new config start) acts).getLast? =
          some last ∧
        ∀ now, t.IdleReady config instantMax socket now ↔ last + config.connectionTimeout ≤ now) ∧
    ∀ (socket socket' : Socket) (start start' : ℕ) (acts acts' : List TimedAct)
      (t t' : TimedSession),
      exec (TimedSession.step config instantMax socket) (.new config start) acts = some t →
      exec (TimedSession.step config instantMax socket') (.new config start') acts' = some t' →
      t.session.stage = .selecting → t'.session.stage = .selecting →
      TimedSession.readings config instantMax socket (.new config start) acts =
        TimedSession.readings config instantMax socket' (.new config start') acts' →
      ∀ now, t.IdleReady config instantMax socket now ↔
        t'.IdleReady config instantMax socket' now := by
  refine ⟨fun acts s hrun => ⟨fun hs => ?_, fun act s' hstep hs => ?_, fun hs => ?_⟩, ?_, ?_⟩
  · have h := Session.beats_of_exec hrun
    unfold Session.Beats at h
    rw [hs] at h
    obtain ⟨-, -, hcounts⟩ := h
    have hle : s.vars.missedHeartbeats ≤ MAX_MISSED_HEARTBEATS := by
      rw [hcounts.missed_eq]
      exact hcounts.missed_le
    refine ⟨hcounts.missed_eq, hle, ?_, hcounts.read_eq⟩
    unfold MAX_MISSED_HEARTBEATS at hle
    omega
  · exact Session.missed_exit_iff (Session.beats_of_exec hrun) hstep hs
  · exact Session.gap_of_missed_exit hrun hs
  · intro socket start acts t hrun hs
    exact TimedSession.idleReady_of_exec hrun hs
  · intro socket socket' start start' acts acts' t t' hrun hrun' hs hs' hreadings now
    obtain ⟨last, hlast, hready⟩ := TimedSession.idleReady_of_exec hrun hs
    obtain ⟨last', hlast', hready'⟩ := TimedSession.idleReady_of_exec hrun' hs'
    rw [hreadings, hlast'] at hlast
    cases hlast
    rw [hready, hready']

/-- The loop is entered, three ticks are answered with pings, and a fourth comes. -/
def fourTicks : List SessionAct :=
  [.handshaken (.ok (some .anonymous)) "a", .registered, .connected 0, .tick, .taskStep, .taskStep,
    .tick, .taskStep, .taskStep, .tick, .taskStep, .taskStep, .tick]

theorem liveness_clocks_fourTicks :
    (∃ s, exec (Session.step .default (10 ^ 18)) (.new .default) fourTicks = some s ∧
      s.stage = .ended .missedHeartbeats ∧
      ∃ before r gap s₀, fourTicks = before ++ r :: gap ∧ r.resets = true ∧
        (∀ a ∈ gap, a.resets = false) ∧
        exec (Session.step .default (10 ^ 18)) (.new .default) (before ++ [r]) = some s₀ ∧
        ticks gap = MAX_MISSED_HEARTBEATS + 1 ∧
        s.out.pings = s₀.out.pings + MAX_MISSED_HEARTBEATS) ∧
    ∃ t t', exec (TimedSession.step .default (10 ^ 18) (.steady (10 ^ 12))) (.new .default 0)
        TimedSession.entering = some t ∧
      exec (TimedSession.step .default (10 ^ 18) (.steady (10 ^ 12))) (.new .default 0)
        (TimedSession.entering ++ [.elapse (30 * 10 ^ 9)] ++ TimedSession.pinging) = some t' ∧
      t.session.vars.missedHeartbeats ≠ t'.session.vars.missedHeartbeats ∧
      ∀ now, t.IdleReady .default (10 ^ 18) (.steady (10 ^ 12)) now ↔
        t'.IdleReady .default (10 ^ 18) (.steady (10 ^ 12)) now := by
  obtain ⟨hsession, -, htimed⟩ := liveness_clocks .default (10 ^ 18)
  constructor
  · obtain ⟨s, hrun, hs⟩ : ∃ s, exec (Session.step .default (10 ^ 18)) (.new .default) fourTicks =
        some s ∧ s.stage = .ended .missedHeartbeats := by decide
    exact ⟨s, hrun, hs, (hsession fourTicks s hrun).2.2 hs⟩
  · obtain ⟨t, hrun, hs, hzero⟩ : ∃ t, exec (TimedSession.step .default (10 ^ 18)
        (.steady (10 ^ 12))) (.new .default 0) TimedSession.entering = some t ∧
        t.session.stage = .selecting ∧ t.session.vars.missedHeartbeats = 0 := by decide
    obtain ⟨t', hrun', hs', hone⟩ : ∃ t, exec (TimedSession.step .default (10 ^ 18)
        (.steady (10 ^ 12))) (.new .default 0)
        (TimedSession.entering ++ [.elapse (30 * 10 ^ 9)] ++ TimedSession.pinging) = some t ∧
        t.session.stage = .selecting ∧ t.session.vars.missedHeartbeats = 1 := by decide
    refine ⟨t, t', hrun, hrun', by omega, ?_⟩
    exact htimed _ _ 0 0 _ _ t t' hrun hrun' hs hs' (by decide)

end ArmatureWebsocket
