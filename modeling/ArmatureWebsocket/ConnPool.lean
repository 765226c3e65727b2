import ArmatureWebsocket.CallPool
import ArmatureWebsocket.Connection

/-! # The clones of a connection, used at once

`ConnPool` is the cell of one connection with any number of callers in the middle of `send`,
`close` and `set_state`, a receiver that takes messages from the queue or drops it, and a read
loop that takes the eviction permit, all in any order.  `set_state` is internal to the server, whose
only call of it is with `Closed`.

A call that was begun after some send had failed is marked `late`; the code does not see the mark.

The state of the cell is meant to go through `Open`, `Closing` and `Closed` in this order.  It goes
back exactly when a call writes `Closing` over `Closed`, which `close` and the eviction by a send
do without looking (`state_order`); `closeAfterTeardown` is such a run. -/

namespace ArmatureWebsocket

open Execution CallPool

/-- A call in progress: its next access, and whether it was begun after a send had failed. -/
structure InFlight where
  pc : ConnPc
  late : Bool
deriving DecidableEq

/-- The next access of a call in progress. -/
def InFlight.run (who : Caller) (c : ConnectionCell) (f : InFlight) :
    Option (ConnectionCell × (InFlight ⊕ ConnReply)) :=
  let (c', next) := connStep who c f.pc
  some (c', next.map (⟨·, f.late⟩) id)

/-- The reply is a failed send. -/
def ConnReply.failed : ConnReply → Bool
  | .sent _ (.error _) => true
  | _ => false

/-- The message of a send. -/
def ConnReply.tried : ConnReply → Option Message
  | .sent m _ => some m
  | _ => none

/-- The message of an accepted send. -/
def ConnReply.accepted : ConnReply → Option Message
  | .sent m (.ok ()) => some m
  | _ => none

/-- The server marks a connection closed; it has no other use of `set_state`. -/
def ConnCall.made : ConnCall → Bool
  | .setState st => st == .closed
  | _ => true

/-- The access writes `Closing`. -/
def ConnPc.writesClosing : ConnPc → Bool
  | .evictState _ => true
  | .closeState => true
  | _ => false

/-- The cell of a connection with callers in the middle of calls. -/
abbrev ConnPool := CallPool ConnectionCell Caller InFlight ConnReply

/-- A caller begins a call or does the next access of its call; the receiver takes a message or
is dropped; the read loop takes the eviction permit. -/
inductive ConnAct where
  | start (who : Caller) (call : ConnCall)
  | step (who : Caller)
  | recv
  | closeRx
  | evicted
deriving DecidableEq

namespace ConnPool

/-- A new connection. -/
def new (capacity : ℕ) : ConnPool := .quiet (.new capacity)

/-- Some send has returned an error. -/
def Failed (p : ConnPool) : Prop := ∃ e ∈ p.log, e.reply.failed = true

instance (p : ConnPool) : Decidable p.Failed :=
  inferInstanceAs (Decidable (∃ e ∈ p.log, e.reply.failed = true))

/-- The pool with another cell. -/
def withCell (p : ConnPool) (c : ConnectionCell) : ConnPool := { p with shared := c }

/-- The pool with another queue. -/
def withTx (p : ConnPool) (tx : BoundedQueue Envelope) : ConnPool :=
  p.withCell { p.shared with tx := tx }

/-- The steps of the callers, of the receiver and of the read loop. -/
def step (p : ConnPool) : ConnAct → Option ConnPool
  | .start who call =>
      if call.made then p.start who ⟨call.pc, decide p.Failed⟩ else none
  | .step who => p.advance (InFlight.run who) who
  | .recv =>
      match p.shared.tx.recv? with
      | some (_, tx) => some (p.withTx tx)
      | none => none
  | .closeRx => some (p.withTx p.shared.tx.closeRx)
  | .evicted => if p.shared.evict then some (p.withCell p.shared.evicted) else none

/-- The pool after a call began. -/
abbrev begun (p : ConnPool) (who : Caller) (call : ConnCall) : ConnPool :=
  CallPool.begun p who ⟨call.pc, decide p.Failed⟩

/-- The pool after an access of a call in progress. -/
abbrev moved (p : ConnPool) (who : Caller) (f : InFlight) (next : ConnPc ⊕ ConnReply) : ConnPool :=
  CallPool.moved p who f (f.pc.after who p.shared) (next.map (⟨·, f.late⟩) id)

/-- What a step of the pool is. -/
theorem step_cases {p p' : ConnPool} {act : ConnAct} (h : p.step act = some p') :
    (∃ who call, act = .start who call ∧ call.made = true ∧ p.threads.lookup who = none ∧
      p' = p.begun who call) ∨
    (∃ who f next, act = .step who ∧ p.threads.lookup who = some f ∧
      (connStep who p.shared f.pc).2 = next ∧ p' = p.moved who f next) ∨
    (∃ e tx, act = .recv ∧ p.shared.tx.recv? = some (e, tx) ∧ p' = p.withTx tx) ∨
    (act = .closeRx ∧ p' = p.withTx p.shared.tx.closeRx) ∨
    (act = .evicted ∧ p.shared.evict = true ∧ p' = p.withCell p.shared.evicted) := by
  cases act with
  | start who call =>
      simp only [step] at h
      split_ifs at h with hmade
      obtain ⟨hwho, rfl⟩ := start_eq_some_iff.mp h
      exact .inl ⟨who, call, rfl, hmade, hwho, rfl⟩
  | step who =>
      simp only [step] at h
      obtain ⟨f, c, next, hf, hrun, rfl⟩ := advance_eq_some_iff.mp h
      simp only [InFlight.run, connStep_fst, Option.some.injEq, Prod.mk.injEq] at hrun
      obtain ⟨rfl, rfl⟩ := hrun
      exact .inr (.inl ⟨who, f, _, rfl, hf, rfl, rfl⟩)
  | recv =>
      simp only [step] at h
      cases hr : p.shared.tx.recv? with
      | none => simp [hr] at h
      | some res =>
          simp only [hr, Option.some.injEq] at h
          exact .inr (.inr (.inl ⟨res.1, res.2, rfl, rfl, h.symm⟩))
  | closeRx =>
      cases h
      exact .inr (.inr (.inr (.inl ⟨rfl, rfl⟩)))
  | evicted =>
      simp only [step] at h
      split_ifs at h with hevict
      cases h
      exact .inr (.inr (.inr (.inr ⟨rfl, hevict, rfl⟩)))

theorem shared_of_start {p p' : ConnPool} {who : Caller} {call : ConnCall}
    (h : p.step (.start who call) = some p') : p'.shared = p.shared := by
  obtain ⟨_, _, -, -, -, rfl⟩ | ⟨_, _, _, ha, -⟩ | ⟨_, _, ha, -⟩ | ⟨ha, -⟩ |
    ⟨ha, -⟩ := step_cases h
  · rfl
  · cases ha
  · cases ha
  · cases ha
  · cases ha

theorem shared_of_step {p p' : ConnPool} {who : Caller} (h : p.step (.step who) = some p') :
    ∃ f, p.threads.lookup who = some f ∧ p'.shared = f.pc.after who p.shared := by
  obtain ⟨_, _, ha, -⟩ | ⟨_, f, next, ha, hf, -, rfl⟩ | ⟨_, _, ha, -⟩ | ⟨ha, -⟩ |
    ⟨ha, -⟩ := step_cases h
  · cases ha
  · cases ha
    exact ⟨f, hf, moved_shared⟩
  · cases ha
  · cases ha
  · cases ha

theorem sent_prefix_of_step {p p' : ConnPool} {act : ConnAct} (h : p.step act = some p') :
    p.shared.tx.sent <+: p'.shared.tx.sent ∧
      (p.shared.tx.rxOpen = false → p'.shared.tx.rxOpen = false) := by
  obtain ⟨who, call, -, -, -, rfl⟩ | ⟨who, f, next, -, -, -, rfl⟩ |
    ⟨e, tx, -, hrecv, rfl⟩ | ⟨-, rfl⟩ | ⟨-, -, rfl⟩ := step_cases h
  · exact ⟨List.prefix_rfl, id⟩
  · rw [moved_shared]
    refine ⟨?_, fun hrx => after_rxOpen.trans hrx⟩
    obtain he | ⟨m, -, he⟩ | ⟨-, he⟩ := after_tx who p.shared f.pc
    · rw [he]
    · rw [he]
      exact BoundedQueue.sent_prefix_offer _ _
    · rw [he]
      exact BoundedQueue.sent_prefix_offer _ _
  · obtain ⟨hrx, -, -, -, hsent, -⟩ := BoundedQueue.recv?_some hrecv
    refine ⟨?_, fun hclosed => ?_⟩
    · show p.shared.tx.sent <+: tx.sent
      rw [hsent]
    · rw [hrx] at hclosed
      cases hclosed
  · exact ⟨List.prefix_rfl, fun _ => rfl⟩
  · exact ⟨List.prefix_rfl, id⟩

/-! ### The order of the states -/

/-- The state does not go back in this step. -/
def Forward (p : ConnPool) (_ : ConnAct) (p' : ConnPool) : Prop :=
  p.shared.state.rank ≤ p'.shared.state.rank

/-- The step does not write `Closing` over `Closed`. -/
def KeepsClosed (p : ConnPool) : ConnAct → ConnPool → Prop
  | .step who, _ => ∀ f ∈ p.threads.lookup who, f.pc.writesClosing = true →
      p.shared.state ≠ .closed
  | _, _ => True

instance (p : ConnPool) (act : ConnAct) (p' : ConnPool) : Decidable (Forward p act p') :=
  inferInstanceAs (Decidable (_ ≤ _))

instance (p : ConnPool) (act : ConnAct) (p' : ConnPool) : Decidable (KeepsClosed p act p') :=
  match act with
  | .step _ => inferInstanceAs (Decidable (∀ f ∈ _, _ → _))
  | .start _ _ | .recv | .closeRx | .evicted => .isTrue trivial

/-- `set_state` calls in progress write `Closed`. -/
def Marks (p : ConnPool) : Prop :=
  ∀ who f st, p.threads.lookup who = some f → f.pc = .setState st → st = .closed

theorem marks_new (capacity : ℕ) : (new capacity).Marks := by
  intro who f st hf
  simp [new] at hf

theorem Marks.step {p p' : ConnPool} {act : ConnAct} (h : p.Marks) (hstep : p.step act = some p') :
    p'.Marks := by
  intro who' f' st hf' hpc'
  obtain ⟨who, call, -, hmade, -, rfl⟩ | ⟨who, f, next, -, hf, hs, rfl⟩ |
    ⟨e, tx, -, -, rfl⟩ | ⟨-, rfl⟩ | ⟨-, -, rfl⟩ := step_cases hstep
  · rw [lookup_begun] at hf'
    split_ifs at hf'
    · cases hf'
      cases call <;> cases hpc'
      exact beq_iff_eq.mp hmade
    · exact h who' f' st hf' hpc'
  · obtain ⟨-, hf'⟩ | ⟨rfl, hn⟩ := lookup_moved hf'
    · exact h who' f' st hf' hpc'
    · -- no call goes on to a `set_state`
      cases next with
      | inr reply => cases hn
      | inl pc =>
          cases hn
          obtain rfl : pc = .setState st := hpc'
          obtain ⟨m, -, h, -⟩ | ⟨m, -, h, -⟩ | ⟨m, -, h⟩ | ⟨-, h⟩ |
            ⟨-, h, -⟩ := connStep_next hs <;> cases h
  · exact h who' f' st hf' hpc'
  · exact h who' f' st hf' hpc'
  · exact h who' f' st hf' hpc'

theorem forward_iff {p p' : ConnPool} {act : ConnAct} (h : p.Marks)
    (hstep : p.step act = some p') : Forward p act p' ↔ KeepsClosed p act p' := by
  unfold Forward
  obtain ⟨who, call, rfl, -, -, rfl⟩ | ⟨who, f, next, rfl, hf, -, rfl⟩ |
    ⟨e, tx, rfl, -, rfl⟩ | ⟨rfl, rfl⟩ | ⟨rfl, -, rfl⟩ := step_cases hstep
  · exact iff_of_true le_rfl trivial
  · rw [moved_shared]
    have hkeeps : KeepsClosed p (.step who) (p.moved who f next) ↔
        (f.pc.writesClosing = true → p.shared.state ≠ .closed) := by
      unfold KeepsClosed
      simp [hf]
    rw [hkeeps]
    cases hpc : f.pc with
    | evictState m => cases hst : p.shared.state <;> simp [ConnPc.after, ConnPc.writesClosing,
        ConnectionState.rank]
    | closeState => cases hst : p.shared.state <;> simp [ConnPc.after, ConnPc.writesClosing,
        ConnectionState.rank]
    | setState st =>
        obtain rfl := h who f st hf hpc
        have hle := p.shared.state.rank_le_closed
        simp [ConnPc.after, ConnPc.writesClosing, hle]
    | _ => simp [ConnPc.after, ConnPc.writesClosing]
  · exact iff_of_true le_rfl trivial
  · exact iff_of_true le_rfl trivial
  · exact iff_of_true le_rfl trivial

theorem closed_of_keepsClosed {p p' : ConnPool} {acts : List ConnAct} (hmarks : p.Marks)
    (hclosed : p.shared.state = .closed) (hrun : exec step p acts = some p')
    (hkeeps : Along step KeepsClosed p acts) : p'.shared.state = .closed := by
  have hinv : p'.Marks ∧ p'.shared.state.rank = 3 := by
    refine exec_invariant_along (P := fun q => q.Marks ∧ q.shared.state.rank = 3) ?_
      ⟨hmarks, by rw [hclosed]; rfl⟩ hrun hkeeps
    rintro p₁ act p₂ ⟨hm, hrank⟩ hstep hk
    have hforward : p₁.shared.state.rank ≤ p₂.shared.state.rank := (forward_iff hm hstep).mpr hk
    have hle : p₂.shared.state.rank ≤ 3 := p₂.shared.state.rank_le_closed
    exact ⟨hm.step hstep, by omega⟩
  have hrank := hinv.2
  cases hst : p'.shared.state with
  | closed => rfl
  | connecting => rw [hst] at hrank; cases hrank
  | «open» => rw [hst] at hrank; cases hrank
  | closing => rw [hst] at hrank; cases hrank

/-- **The order of the states**: along a run the state never goes back if and only if no step writes
`Closing` over `Closed`; in such a run a connection that is closed at some moment stays closed. -/
theorem state_order (capacity : ℕ) (acts : List ConnAct) :
    (Along step Forward (new capacity) acts ↔ Along step KeepsClosed (new capacity) acts) ∧
      (Along step KeepsClosed (new capacity) acts →
        ∀ as bs p p', acts = as ++ bs → exec step (new capacity) as = some p →
          p.shared.state = .closed → exec step p bs = some p' → p'.shared.state = .closed) := by
  constructor
  · exact along_congr (P := Marks) (fun _ _ _ h hs => h.step hs)
      (fun _ _ _ h hs => forward_iff h hs) (marks_new capacity)
  · rintro hkeeps as bs p p' rfl has hclosed hbs
    have hmarks : p.Marks :=
      exec_invariant (P := Marks) (fun _ _ _ h hs => h.step hs) (marks_new capacity) has
    exact closed_of_keepsClosed hmarks hclosed hbs (along_append hkeeps has)

/-- The application closes a clone, then the server tears the connection down, then a send of the
application is refused. -/
def closeBeforeTeardown : List ConnAct :=
  [.start (.app 0) .close, .step (.app 0), .step (.app 0), .start .task .close, .step .task,
    .step .task, .recv, .recv, .closeRx, .start .task (.setState .closed), .step .task,
    .start (.app 0) (.send (.binary [])), .step (.app 0)]

theorem state_order_closeBeforeTeardown :
    Along step Forward (new 2) closeBeforeTeardown ∧
      ∃ p, exec step (new 2) closeBeforeTeardown = some p ∧ p.shared.state = .closed := by
  have hkeeps : Along step KeepsClosed (new 2) closeBeforeTeardown := by decide
  have hend : ∃ p, exec step (new 2) (closeBeforeTeardown.take 11) = some p ∧
      p.shared.state = .closed ∧
      ∃ p', exec step p (closeBeforeTeardown.drop 11) = some p' ∧ p'.Quiet := by decide
  obtain ⟨p, hrun, hclosed, p', hrest, -⟩ := hend
  have hall : exec step (new 2) closeBeforeTeardown = some p' := exec_trans hrun hrest
  have horder := state_order 2 closeBeforeTeardown
  exact ⟨horder.1.mpr hkeeps, p', hall, horder.2 hkeeps _ _ p p' rfl hrun hclosed hrest⟩

/-- The server tears the connection down, and the application closes a clone afterwards. -/
def closeAfterTeardown : List ConnAct :=
  [.start .task .close, .step .task, .step .task, .recv, .closeRx,
    .start .task (.setState .closed), .step .task,
    .start (.app 0) .close, .step (.app 0), .step (.app 0), .step (.app 0)]

/-- The connection was `Closed` after the teardown and is `Closing` in the end. -/
theorem closing_after_closeAfterTeardown :
    (∃ p, exec step (new 1) (closeAfterTeardown.take 7) = some p ∧ p.shared.state = .closed) ∧
      (∃ p, exec step (new 1) closeAfterTeardown = some p ∧ p.shared.state = .closing) ∧
      ¬ Along step Forward (new 1) closeAfterTeardown := by
  decide

end ConnPool
end ArmatureWebsocket
