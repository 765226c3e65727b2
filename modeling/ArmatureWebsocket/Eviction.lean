import ArmatureWebsocket.Session

/-! # Eviction requests are not lost

A send that finds the queue full and a `close` that cannot enqueue its Close ask the read loop to
end the connection: they store the eviction permit.  The loop takes the permit only in its
`evicted` branch, which ends it, and it looks for the permit at every turn.  So a request stays
until the loop ends, whether it was made before the loop began, while a callback was running, or
together with others (`evict_stored`). -/

namespace ArmatureWebsocket

open Execution CallPool

/-- The call has asked for an eviction: a send found the queue full, or a `close` could not enqueue
its Close. -/
def ConnReply.evicts : ConnReply → Bool
  | .sent _ (.error .slowConsumer) => true
  | .closed false => true
  | _ => false

/-- The read loop has ended, or the task never came to it. -/
def Stage.loopOver : Stage → Bool
  | .handshaking | .registering | .connecting | .selecting | .pinging | .handling _
  | .ponging => false
  | _ => true

theorem evict_of_evicts {who : Caller} {c : ConnectionCell} {pc : ConnPc} {reply : ConnReply}
    (h : (connStep who c pc).2 = .inr reply) (hreply : reply.evicts = true) :
    (pc.after who c).evict = true := by
  cases pc with
  | sendCheck m =>
      simp only [connStep] at h
      split_ifs at h
      cases h
      cases hreply
  | sendTry m =>
      simp only [connStep] at h
      split at h <;> cases h <;> cases hreply
  | closeTry =>
      simp only [connStep] at h
      split at h <;> cases h
      cases hreply
  | evictNotify m => rfl
  | closeNotify => rfl
  | setState st =>
      cases h
      cases hreply
  | evictState m => cases h
  | closeState => cases h

theorem evict_after {who : Caller} {c : ConnectionCell} {pc : ConnPc} (h : c.evict = true) :
    (pc.after who c).evict = true := by
  cases pc with
  | evictNotify m => rfl
  | closeNotify => rfl
  | _ => exact h

namespace ConnPool

/-- Whoever asked for an eviction, the permit is stored. -/
def KeepsPermit (p : ConnPool) : Prop :=
  ∀ e ∈ p.log, e.reply.evicts = true → p.shared.evict = true

theorem KeepsPermit.step {p p' : ConnPool} {act : ConnAct} (h : p.KeepsPermit)
    (hstep : p.step act = some p') (hact : act ≠ .evicted) : p'.KeepsPermit := by
  obtain ⟨who, call, -, -, -, rfl⟩ | ⟨who, f, next, -, hf, hnext, rfl⟩ |
    ⟨e, tx, -, -, rfl⟩ | ⟨-, rfl⟩ | ⟨rfl, -, -⟩ := step_cases hstep
  · exact h
  · intro e he hevicts
    rw [moved_shared]
    obtain he | ⟨reply, hreply, rfl⟩ := mem_log_moved.mp he
    · exact evict_after (h e he hevicts)
    · cases next with
      | inl pc => cases hreply
      | inr reply' =>
          cases hreply
          exact evict_of_evicts hnext hevicts
  · exact h
  · exact h
  · exact absurd rfl hact

end ConnPool

/-- The end of the loop is final. -/
theorem Stage.Moves.loopOver {stage stage' : Stage} {act : SessionAct} (h : stage.Moves act stage')
    (hover : stage.loopOver = true) : stage'.loopOver = true := by
  cases h with
  | closing why => rfl
  | closed => rfl
  | joined => rfl
  | timedOut => rfl
  | marked => rfl
  | disconnected => rfl
  | panicked stage act why hdone => rfl
  | _ => cases hover

namespace Session

variable {config : WebSocketServerConfig} {instantMax : ℕ} {s s' : Session}

/-- Either the loop is over, or nobody's request for an eviction has been lost. -/
def KeepsPermit (s : Session) : Prop := s.stage.loopOver = true ∨ s.out.pool.KeepsPermit

theorem loopOver_of_step {act : SessionAct} (h : s.stage.loopOver = true)
    (hstep : s.step config instantMax act = some s') : s'.stage.loopOver = true := by
  obtain hsame | hmoves := stage_moves hstep
  · rw [hsame, h]
  · exact hmoves.loopOver h

theorem KeepsPermit.step {act : SessionAct} (h : s.KeepsPermit)
    (hstep : s.step config instantMax act = some s') : s'.KeepsPermit := by
  obtain hover | hkeeps := h
  · exact .inl (loopOver_of_step hover hstep)
  · by_cases hact : act = .evicted
    · -- the loop takes the permit, and ends
      subst hact
      obtain ⟨out, -, -, rfl⟩ := evicted_some hstep
      exact .inl rfl
    · refine .inr ?_
      obtain he | ⟨a, ha, hevicted⟩ := step_out hstep
      · rw [he]
        exact hkeeps
      · obtain he | ⟨b, hb, hevicted'⟩ := Outbound.step_pool ha
        · rw [he]
          exact hkeeps
        · exact hkeeps.step hb fun hb => hact (hevicted (hevicted' hb))

/-- **Eviction requests are not lost**: in every run, once a send has answered `SlowConsumer` or a
`close` could not enqueue its Close, the eviction permit is stored until the loop has ended, and a
loop that waits for its branches can take the `evicted` branch. -/
theorem evict_stored (config : WebSocketServerConfig) (instantMax : ℕ) (acts : List SessionAct)
    (s : Session) (hrun : exec (step config instantMax) (new config) acts = some s)
    (hrequested : ∃ e ∈ s.out.pool.log, e.reply.evicts = true) (hloop : s.stage.loopOver = false) :
    s.out.pool.shared.evict = true ∧
      (s.stage = .selecting → ∃ s', s.step config instantMax .evicted = some s' ∧
        s'.stage = .ended .evicted) := by
  have hkeeps : s.KeepsPermit := by
    refine exec_invariant (fun _ _ _ h hs => KeepsPermit.step h hs) (.inr ?_) hrun
    intro e he
    cases he
  obtain ⟨e, he, hevicts⟩ := hrequested
  have hevict : s.out.pool.shared.evict = true := by
    obtain hover | hpool := hkeeps
    · rw [hloop] at hover
      cases hover
    · exact hpool e he hevicts
  refine ⟨hevict, fun hstage => ?_⟩
  let out : Outbound := { s.out with pool := s.out.pool.withCell s.out.pool.shared.evicted }
  have hout : s.out.step .evicted = some out := by
    simp only [Outbound.step, ConnPool.step]
    rw [if_pos hevict]
    rfl
  refine ⟨(s.withOut out).goto (.ended .evicted), ?_, rfl⟩
  simp only [Session.step]
  rw [hstage, hout]
  rfl

/-- The default configuration with a queue of one message. -/
def oneMessage : WebSocketServerConfig :=
  { WebSocketServerConfig.default with outboundQueueCapacity := 1 }

/-- Two sends while `on_connect` is running; the second finds the queue full. -/
def slowBeforeTheLoop : List SessionAct :=
  [.handshaken (.ok (some .anonymous)) "a", .registered,
    .outside (.start (.app 0) (.send (.binary [1]))), .outside (.step (.app 0)),
    .outside (.step (.app 0)), .outside (.start (.app 0) (.send (.binary [2]))),
    .outside (.step (.app 0)), .outside (.step (.app 0)), .outside (.step (.app 0)),
    .outside (.step (.app 0)), .connected 0]

theorem evict_stored_slowBeforeTheLoop :
    ∃ s, exec (step oneMessage (10 ^ 18)) (new oneMessage) slowBeforeTheLoop = some s ∧
      s.out.pool.shared.evict = true ∧
      ∃ s', s.step oneMessage (10 ^ 18) .evicted = some s' ∧ s'.stage = .ended .evicted := by
  obtain ⟨s, hrun, hstage, hrequested⟩ : ∃ s,
      exec (step oneMessage (10 ^ 18)) (new oneMessage) slowBeforeTheLoop = some s ∧
        s.stage = .selecting ∧ ∃ e ∈ s.out.pool.log, e.reply.evicts = true := by decide
  obtain ⟨hevict, hready⟩ := evict_stored _ _ _ _ hrun hrequested (by rw [hstage]; rfl)
  exact ⟨s, hrun, hevict, hready hstage⟩

end Session
end ArmatureWebsocket
