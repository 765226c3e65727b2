import ArmatureWebsocket.NoHoles

/-! # The outbound side of a connection: callers, queue, writer and sink

`Outbound` adds to the callers of a connection the task that runs `ConnectionWriter::run`: it waits
for a message, drops it if it cannot be put on the wire, hands it to the sink otherwise, and stops
after a Close, after a refusal by the sink, or when the queue is empty and all senders are gone.
Before it returns it closes the sink; the receiver lives until then.  The task can be aborted
wherever it waits; a writer that is dropped before it is spawned drops the receiver as well.

The read loop, which takes the eviction permit, is a party of its own.

`handed` records what the sink was given and took.  A step of the whole is a step of the callers
and the receiver, or does not touch them (`step_pool`). -/

namespace ArmatureWebsocket

open Execution CallPool

/-- Where the writer task is. -/
inductive WriterPc where
  | unspawned
  | waiting
  | sending (e : Envelope)
  | closing
  | stopped
deriving DecidableEq

/-- A connection's callers, its queue and its writer. -/
structure Outbound where
  pool : ConnPool
  writer : WriterPc
  handed : List Envelope
  senders : Bool

/-- The steps of the callers, of the writer task and of the sink; `dropSenders` is the end of the
last clone. -/
inductive OutAct where
  | start (who : Caller) (call : ConnCall)
  | step (who : Caller)
  | spawn
  | recv
  | recvNone
  | accept
  | refuse
  | sinkClosed
  | abort
  | evicted
  | dropSenders
deriving DecidableEq

/-- The caller that does the step, if a caller does it. -/
def OutAct.caller : OutAct → Option Caller
  | .start who _ => some who
  | .step who => some who
  | _ => none

namespace Outbound

/-- A new connection, whose writer is not running yet. -/
def new (capacity : ℕ) : Outbound := ⟨.new capacity, .unspawned, [], true⟩

/-- The queue. -/
abbrev tx (o : Outbound) : BoundedQueue Envelope := o.pool.shared.tx

/-- The writer task ends, and drops the receiver. -/
def stop (o : Outbound) : Outbound :=
  { o with pool := o.pool.withTx o.tx.closeRx, writer := .stopped }

/-- The steps of the outbound side. -/
def step (o : Outbound) : OutAct → Option Outbound
  | .start who call =>
      if o.senders then (o.pool.step (.start who call)).map fun pool => { o with pool := pool }
      else none
  | .step who => (o.pool.step (.step who)).map fun pool => { o with pool := pool }
  | .spawn =>
      match o.writer with
      | .unspawned => some { o with writer := .waiting }
      | _ => none
  | .recv =>
      match o.writer, o.tx.recv? with
      | .waiting, some (e, tx) =>
          some { o with
            pool := o.pool.withTx tx
            writer := if e.message.sendable then .sending e else .waiting }
      | _, _ => none
  | .recvNone =>
      match o.writer with
      | .waiting =>
          if o.senders = false ∧ o.tx.queue = [] then some { o with writer := .closing } else none
      | _ => none
  | .accept =>
      match o.writer with
      | .sending e =>
          some { o with
            handed := o.handed ++ [e]
            writer := if e.message.isClose then .closing else .waiting }
      | _ => none
  | .refuse =>
      match o.writer with
      | .sending _ => some o.stop
      | _ => none
  | .sinkClosed =>
      match o.writer with
      | .closing => some o.stop
      | _ => none
  | .abort =>
      match o.writer with
      | .stopped => none
      | _ => some o.stop
  | .evicted => (o.pool.step .evicted).map fun pool => { o with pool := pool }
  | .dropSenders => if o.pool.Quiet then some { o with senders := false } else none

/-- What a step of the outbound side is. -/
theorem step_cases {o o' : Outbound} {act : OutAct} (h : o.step act = some o') :
    (∃ who call pool, act = .start who call ∧ o.senders = true ∧
      o.pool.step (.start who call) = some pool ∧ o' = { o with pool := pool }) ∨
    (∃ who pool, act = .step who ∧ o.pool.step (.step who) = some pool ∧
      o' = { o with pool := pool }) ∨
    (act = .spawn ∧ o.writer = .unspawned ∧ o' = { o with writer := .waiting }) ∨
    (∃ e tx, act = .recv ∧ o.writer = .waiting ∧ o.tx.recv? = some (e, tx) ∧
      o' = { o with
        pool := o.pool.withTx tx
        writer := if e.message.sendable then .sending e else .waiting }) ∨
    (act = .recvNone ∧ o.writer = .waiting ∧ o.senders = false ∧ o.tx.queue = [] ∧
      o' = { o with writer := .closing }) ∨
    (∃ e, act = .accept ∧ o.writer = .sending e ∧
      o' = { o with
        handed := o.handed ++ [e]
        writer := if e.message.isClose then .closing else .waiting }) ∨
    (∃ e, act = .refuse ∧ o.writer = .sending e ∧ o' = o.stop) ∨
    (act = .sinkClosed ∧ o.writer = .closing ∧ o' = o.stop) ∨
    (act = .abort ∧ o.writer ≠ .stopped ∧ o' = o.stop) ∨
    (act = .dropSenders ∧ o.pool.Quiet ∧ o' = { o with senders := false }) ∨
    (act = .evicted ∧ o.pool.shared.evict = true ∧
      o' = { o with pool := o.pool.withCell o.pool.shared.evicted }) := by
  cases act with
  | start who call =>
      simp only [step] at h
      split_ifs at h with hs
      obtain ⟨pool, hpool, rfl⟩ := Option.map_eq_some_iff.mp h
      exact .inl ⟨who, call, pool, rfl, hs, hpool, rfl⟩
  | step who =>
      obtain ⟨pool, hpool, rfl⟩ := Option.map_eq_some_iff.mp h
      exact .inr (.inl ⟨who, pool, rfl, hpool, rfl⟩)
  | spawn =>
      simp only [step] at h
      split at h <;> cases h
      rename_i hw
      exact .inr (.inr (.inl ⟨rfl, hw, rfl⟩))
  | recv =>
      simp only [step] at h
      split at h <;> cases h
      rename_i e tx hw hr
      exact .inr (.inr (.inr (.inl ⟨e, tx, rfl, hw, hr, rfl⟩)))
  | recvNone =>
      simp only [step] at h
      split at h
      · split_ifs at h with hq
        cases h
        rename_i hw
        exact .inr (.inr (.inr (.inr (.inl ⟨rfl, hw, hq.1, hq.2, rfl⟩))))
      · cases h
  | accept =>
      simp only [step] at h
      split at h <;> cases h
      rename_i e hw
      exact .inr (.inr (.inr (.inr (.inr (.inl ⟨e, rfl, hw, rfl⟩)))))
  | refuse =>
      simp only [step] at h
      split at h <;> cases h
      rename_i e hw
      exact .inr (.inr (.inr (.inr (.inr (.inr (.inl ⟨e, rfl, hw, rfl⟩))))))
  | sinkClosed =>
      simp only [step] at h
      split at h <;> cases h
      rename_i hw
      exact .inr (.inr (.inr (.inr (.inr (.inr (.inr (.inl ⟨rfl, hw, rfl⟩)))))))
  | abort =>
      simp only [step] at h
      split at h
      · cases h
      · rename_i hs
        cases h
        exact .inr (.inr (.inr (.inr (.inr (.inr (.inr (.inr (.inl
          ⟨rfl, fun hw => hs hw, rfl⟩))))))))
  | dropSenders =>
      simp only [step] at h
      split_ifs at h with hq
      cases h
      exact .inr (.inr (.inr (.inr (.inr (.inr (.inr (.inr (.inr (.inl ⟨rfl, hq, rfl⟩)))))))))
  | evicted =>
      simp only [step, ConnPool.step] at h
      split_ifs at h with hevict
      · cases h
        exact .inr (.inr (.inr (.inr (.inr (.inr (.inr (.inr (.inr (.inr
          ⟨rfl, hevict, rfl⟩)))))))))
      · cases h

/-- A step of the outbound side is a step of the callers and the receiver, or none of theirs; only
the read loop takes the eviction permit. -/
theorem step_pool {o o' : Outbound} {act : OutAct} (h : o.step act = some o') :
    o'.pool = o.pool ∨ ∃ a, o.pool.step a = some o'.pool ∧ (a = .evicted → act = .evicted) := by
  obtain ⟨who, call, pool, -, -, hpool, rfl⟩ | ⟨who, pool, -, hpool, rfl⟩ |
    ⟨-, -, rfl⟩ | ⟨e, tx, -, -, hrecv, rfl⟩ | ⟨-, -, -, -, rfl⟩ | ⟨e, -, -, rfl⟩ | ⟨e, -, -, rfl⟩ |
    ⟨-, -, rfl⟩ | ⟨-, -, rfl⟩ | ⟨-, -, rfl⟩ | ⟨hact, hevict, rfl⟩ := step_cases h
  · exact .inr ⟨_, hpool, by simp⟩
  · exact .inr ⟨_, hpool, by simp⟩
  · exact .inl rfl
  · refine .inr ⟨.recv, ?_, by simp⟩
    simp only [ConnPool.step]
    rw [hrecv]
  · exact .inl rfl
  · exact .inl rfl
  · exact .inr ⟨.closeRx, rfl, by simp⟩
  · exact .inr ⟨.closeRx, rfl, by simp⟩
  · exact .inr ⟨.closeRx, rfl, by simp⟩
  · exact .inl rfl
  · exact .inr ⟨.evicted, by simp only [ConnPool.step]; rw [if_pos hevict], fun _ => hact⟩

theorem start_some {o o' : Outbound} {who : Caller} {call : ConnCall}
    (h : o.step (.start who call) = some o') :
    o.senders = true ∧ o.pool.threads.lookup who = none ∧
      o' = { o with pool := o.pool.begun who call } := by
  simp only [step, ConnPool.step] at h
  split_ifs at h with hs hmade
  · obtain ⟨pool, hpool, rfl⟩ := Option.map_eq_some_iff.mp h
    obtain ⟨hwho, rfl⟩ := start_eq_some_iff.mp hpool
    exact ⟨hs, hwho, rfl⟩
  · cases h

theorem call_some {o o' : Outbound} {who : Caller} (h : o.step (.step who) = some o') :
    ∃ f, o.pool.threads.lookup who = some f ∧
      o' = { o with pool := o.pool.moved who f (connStep who o.pool.shared f.pc).2 } := by
  obtain ⟨pool, hpool, rfl⟩ := Option.map_eq_some_iff.mp h
  obtain ⟨_, _, ha, -⟩ | ⟨_, f, next, ha, hf, rfl, rfl⟩ |
    ⟨_, _, ha, -⟩ | ⟨ha, -⟩ | ⟨ha, -⟩ := ConnPool.step_cases hpool
  · cases ha
  · cases ha
    exact ⟨f, hf, rfl⟩
  · cases ha
  · cases ha
  · cases ha

theorem lookup_of_step {o o' : Outbound} {act : OutAct} {who : Caller} (h : o.step act = some o')
    (hact : act.caller ≠ some who) :
    o'.pool.threads.lookup who = o.pool.threads.lookup who := by
  obtain ⟨t, call, pool, rfl, -, hpool, rfl⟩ | ⟨t, pool, rfl, hpool, rfl⟩ |
    ⟨-, -, rfl⟩ | ⟨e, tx, -, -, hrecv, rfl⟩ | ⟨-, -, -, -, rfl⟩ | ⟨e, -, -, rfl⟩ | ⟨e, -, -, rfl⟩ |
    ⟨-, -, rfl⟩ | ⟨-, -, rfl⟩ | ⟨-, -, rfl⟩ | ⟨-, -, rfl⟩ := step_cases h
  · have hne : who ≠ t := fun he => hact (by rw [he]; rfl)
    obtain ⟨-, -, he⟩ := start_some h
    rw [he]
    exact lookup_begun.trans (if_neg hne)
  · have hne : who ≠ t := fun he => hact (by rw [he]; rfl)
    obtain ⟨f, -, he⟩ := call_some h
    rw [he]
    exact lookup_moved_of_ne hne
  · rfl
  · rfl
  · rfl
  · rfl
  · rfl
  · rfl
  · rfl
  · rfl
  · rfl

theorem sent_prefix_of_step {o o' : Outbound} {act : OutAct} (h : o.step act = some o') :
    o.tx.sent <+: o'.tx.sent ∧ (o.tx.rxOpen = false → o'.tx.rxOpen = false) := by
  obtain he | ⟨a, ha, -⟩ := step_pool h
  · unfold tx
    rw [he]
    exact ⟨List.prefix_rfl, id⟩
  · exact ConnPool.sent_prefix_of_step ha

theorem pool_invariant {P : ConnPool → Prop}
    (hstep : ∀ p a p', P p → ConnPool.step p a = some p' → P p') {o o' : Outbound} {act : OutAct}
    (h : P o.pool) (hs : o.step act = some o') : P o'.pool := by
  obtain he | ⟨a, ha, -⟩ := step_pool hs
  · rw [he]
    exact h
  · exact hstep _ a _ h ha

theorem sound_of_step {capacity : ℕ} {o o' : Outbound} {act : OutAct} (h : o.pool.Sound capacity)
    (hs : o.step act = some o') : o'.pool.Sound capacity :=
  pool_invariant (fun _ _ _ h hs => h.step hs) h hs

theorem sound_of_exec {capacity : ℕ} {acts : List OutAct} {o : Outbound}
    (hrun : exec step (new capacity) acts = some o) : o.pool.Sound capacity :=
  exec_invariant (P := fun o => o.pool.Sound capacity) (fun _ _ _ h hs => sound_of_step h hs)
    (ConnPool.sound_new capacity) hrun

end Outbound
end ArmatureWebsocket
