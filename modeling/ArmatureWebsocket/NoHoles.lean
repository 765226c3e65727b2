import ArmatureWebsocket.ConnPool
import ArmatureWebsocket.Overtaking

/-! # A recipient that misses a message gets nothing newer

A slow consumer is evicted rather than skipped: once a send on a connection has failed, every send
begun later fails as well, whatever the callers and the receiver do.  So what a sender got
accepted is an initial segment of what it tried to send, and what the receiver takes of it is an
initial segment of that, in order and each message once (`no_holes`).

The reason is that a failed send leaves the cell `Shut`, not open or without a receiver, and that
no access makes it open again. -/

namespace ArmatureWebsocket

open Execution CallPool

/-- No send that starts now can be accepted. -/
def ConnectionCell.Shut (c : ConnectionCell) : Prop := c.state ≠ .«open» ∨ c.tx.rxOpen = false

theorem ConnReply.accepted_eq_some_iff {reply : ConnReply} {m : Message} :
    reply.accepted = some m ↔ reply = .sent m (.ok ()) := by
  unfold accepted
  split <;> simp_all

theorem ConnReply.failed_iff {reply : ConnReply} :
    reply.failed = true ↔ ∃ m e, reply = .sent m (.error e) := by
  unfold failed
  split
  · rename_i m e
    simp
  · rename_i h
    simp only [Bool.false_eq_true, false_iff]
    rintro ⟨m, e, rfl⟩
    exact h m e rfl

/-- A send is accepted or failed. -/
theorem ConnReply.tried_eq_accepted {reply : ConnReply} (h : reply.failed = false) :
    reply.tried = reply.accepted := by
  unfold tried accepted failed at *
  cases reply with
  | sent m result =>
      cases result with
      | ok u => rfl
      | error e => cases h
  | closed queued => rfl
  | stateSet => rfl

namespace ConnPool

/-- The messages that `who` tried to send, in order. -/
def triedBy (p : ConnPool) (who : Caller) : List Message :=
  p.log.filterMap fun e => if e.thread = who then e.reply.tried else none

/-- The messages of `who` that were accepted, in order. -/
def acceptedBy (p : ConnPool) (who : Caller) : List Message :=
  p.log.filterMap fun e => if e.thread = who then e.reply.accepted else none

/-- What the senders got accepted, in order. -/
def accepted (p : ConnPool) : List Envelope :=
  p.log.filterMap fun e => e.reply.accepted.map fun m => ⟨e.thread, .send, m⟩

/-- The messages of `who` that the receiver took, in order. -/
def receivedFrom (p : ConnPool) (who : Caller) : List Message :=
  p.shared.tx.received.filterMap fun e =>
    if e.caller = who ∧ e.fromSend = true then some e.message else none

/-- A failed send leaves the cell shut, and calls begun later know of it. -/
structure Sound (capacity : ℕ) (p : ConnPool) : Prop where
  marks : p.Marks
  capacity_eq : p.shared.tx.capacity = capacity
  shut : p.Failed → p.shared.Shut
  evicting : (p.AnyAt fun f => ∃ m, f.pc = .evictNotify m) → p.shared.state ≠ .«open»
  failed_of_late : (p.AnyAt fun f => f.late = true) → p.Failed
  trying : (p.AnyAt fun f => f.late = true ∧ ∃ m, f.pc = .sendTry m) → p.shared.tx.rxOpen = false
  late_of_failed : ∀ who f, p.threads.lookup who = some f →
    (∃ e ∈ p.log, e.thread = who ∧ e.reply.failed = true) → f.late = true
  late_log : ∀ e ∈ p.log, e.frame.late = true → e.reply.accepted = none
  initial : ∀ who, p.acceptedBy who <+: p.triedBy who
  accepted_eq : p.accepted = p.shared.tx.sent.filter Envelope.fromSend

theorem sound_new (capacity : ℕ) : (new capacity).Sound capacity where
  marks := marks_new capacity
  capacity_eq := rfl
  shut := by rintro ⟨e, he, -⟩; cases he
  evicting := fun h => absurd h not_anyAt_quiet
  failed_of_late := fun h => absurd h not_anyAt_quiet
  trying := fun h => absurd h not_anyAt_quiet
  late_of_failed := by intro who f hf; simp [new] at hf
  late_log := by intro e he; cases he
  initial := fun _ => List.prefix_rfl
  accepted_eq := rfl

namespace Sound

variable {capacity : ℕ} {p : ConnPool} {who : Caller} {f : InFlight} {next : ConnPc ⊕ ConnReply}

theorem begun (h : p.Sound capacity) {call : ConnCall} (hwho : p.threads.lookup who = none)
    (hmarks : (p.begun who call).Marks) : (p.begun who call).Sound capacity where
  marks := hmarks
  capacity_eq := h.capacity_eq
  shut := h.shut
  evicting := fun hany => by
    obtain hany | ⟨m, hpc⟩ := (anyAt_begun hwho).mp hany
    · exact h.evicting hany
    · cases call <;> cases hpc
  failed_of_late := fun hany => by
    obtain hany | hlate := (anyAt_begun hwho).mp hany
    · exact h.failed_of_late hany
    · exact of_decide_eq_true hlate
  trying := fun hany => by
    obtain hany | ⟨-, m, hpc⟩ := (anyAt_begun hwho).mp hany
    · exact h.trying hany
    · cases call <;> cases hpc
  late_of_failed := fun who' f' hf' hlog => by
    rw [lookup_begun] at hf'
    split_ifs at hf'
    · cases hf'
      obtain ⟨e, he, -, hfail⟩ := hlog
      exact decide_eq_true ⟨e, he, hfail⟩
    · exact h.late_of_failed who' f' hf' hlog
  late_log := h.late_log
  initial := h.initial
  accepted_eq := h.accepted_eq

/-- The steps of the receiver and of the read loop. -/
theorem withCell (h : p.Sound capacity) {c : ConnectionCell} (hstate : c.state = p.shared.state)
    (hcapacity : c.tx.capacity = p.shared.tx.capacity) (hsent : c.tx.sent = p.shared.tx.sent)
    (hrx : p.shared.tx.rxOpen = false → c.tx.rxOpen = false) : (p.withCell c).Sound capacity where
  marks := h.marks
  capacity_eq := hcapacity.trans h.capacity_eq
  shut := fun hfailed => (h.shut hfailed).imp (fun hst => by rw [← hstate] at hst; exact hst) hrx
  evicting := fun hany => by
    have hst := h.evicting hany
    rw [← hstate] at hst
    exact hst
  failed_of_late := h.failed_of_late
  trying := fun hany => hrx (h.trying hany)
  late_of_failed := h.late_of_failed
  late_log := h.late_log
  initial := h.initial
  accepted_eq := by
    have hlog : (p.withCell c).accepted = p.accepted := rfl
    have htx : (p.withCell c).shared.tx.sent = p.shared.tx.sent := hsent
    rw [hlog, htx, h.accepted_eq]

/-- No access opens the connection again. -/
theorem state_ne_open_after (h : p.Sound capacity) (hf : p.threads.lookup who = some f)
    (hst : p.shared.state ≠ .«open») : (f.pc.after who p.shared).state ≠ .«open» := by
  obtain he | ⟨he, -⟩ | ⟨st, hpc, he⟩ := after_state who p.shared f.pc
  · rw [he]
    exact hst
  · rw [he]
    decide
  · rw [he, h.marks who f st hf hpc]
    decide

theorem shut_moved (h : p.Sound capacity) (hf : p.threads.lookup who = some f)
    (hs : (connStep who p.shared f.pc).2 = next) (hfailed : (p.moved who f next).Failed) :
    (p.moved who f next).shared.Shut := by
  rw [moved_shared]
  have hshut : p.shared.Shut := by
    obtain ⟨e, he, hfail⟩ := hfailed
    obtain he | ⟨reply, hn, rfl⟩ := mem_log_moved.mp he
    · exact h.shut ⟨e, he, hfail⟩
    · obtain ⟨m, err, rfl⟩ := ConnReply.failed_iff.mp hfail
      cases next with
      | inl pc => cases hn
      | inr reply =>
          cases hn
          obtain ⟨-, hst⟩ | ⟨-, hrx⟩ | hpc := connStep_failed hs
          · exact .inl hst
          · exact .inr hrx
          · exact .inl (h.evicting ⟨who, f, hf, m, hpc⟩)
  obtain hst | hrx := hshut
  · exact .inl (h.state_ne_open_after hf hst)
  · exact .inr (by rw [after_rxOpen]; exact hrx)

theorem evicting_moved (h : p.Sound capacity) (hf : p.threads.lookup who = some f)
    (hs : (connStep who p.shared f.pc).2 = next)
    (hany : (p.moved who f next).AnyAt fun f => ∃ m, f.pc = .evictNotify m) :
    (p.moved who f next).shared.state ≠ .«open» := by
  rw [moved_shared]
  obtain hany | ⟨f', hn, m, hpc'⟩ := anyAt_moved.mp hany
  · exact h.state_ne_open_after hf (h.evicting ((anyAt_iff hf).mpr (.inl hany)))
  · -- the call has just written `Closing`
    cases next with
    | inr reply => cases hn
    | inl pc =>
        cases hn
        obtain rfl : pc = .evictNotify m := hpc'
        obtain ⟨m', -, he, -⟩ | ⟨m', -, he, -⟩ | ⟨m', hpc, -⟩ | ⟨-, he⟩ |
          ⟨-, he, -⟩ := connStep_next hs
        · cases he
        · cases he
        · rw [hpc]
          exact (by decide : ConnectionState.closing ≠ .«open»)
        · cases he
        · cases he

theorem trying_moved (h : p.Sound capacity) (hf : p.threads.lookup who = some f)
    (hs : (connStep who p.shared f.pc).2 = next)
    (hany : (p.moved who f next).AnyAt fun f => f.late = true ∧ ∃ m, f.pc = .sendTry m) :
    (p.moved who f next).shared.tx.rxOpen = false := by
  rw [moved_shared, after_rxOpen]
  obtain hany | ⟨f', hn, hlate, m, hpc'⟩ := anyAt_moved.mp hany
  · exact h.trying ((anyAt_iff hf).mpr (.inl hany))
  · -- the call has just found the connection open, so it is the receiver that is gone
    cases next with
    | inr reply => cases hn
    | inl pc =>
        cases hn
        obtain rfl : pc = .sendTry m := hpc'
        have hshut := h.shut (h.failed_of_late ⟨who, f, hf, hlate⟩)
        obtain ⟨m', -, -, hopen⟩ | ⟨m', -, he, -⟩ | ⟨m', -, he⟩ | ⟨-, he⟩ |
          ⟨-, he, -⟩ := connStep_next hs
        · exact hshut.resolve_left (fun hst => hst hopen)
        · cases he
        · cases he
        · cases he
        · cases he

theorem late_log_moved (h : p.Sound capacity) (hf : p.threads.lookup who = some f)
    (hs : (connStep who p.shared f.pc).2 = next) {e : Return Caller InFlight ConnReply}
    (he : e ∈ (p.moved who f next).log) (hlate : e.frame.late = true) :
    e.reply.accepted = none := by
  obtain he | ⟨reply, hn, rfl⟩ := mem_log_moved.mp he
  · exact h.late_log e he hlate
  · cases next with
    | inl pc => cases hn
    | inr reply =>
        cases hn
        by_contra hacc
        obtain ⟨m, hm⟩ := Option.ne_none_iff_exists'.mp hacc
        have hreply := ConnReply.accepted_eq_some_iff.mp hm
        simp only [id_eq] at hreply
        rw [hreply] at hs
        obtain ⟨hpc, haccepts⟩ := connStep_accepted.mp hs
        have hrx := h.trying ⟨who, f, hf, hlate, m, hpc⟩
        rw [haccepts.1] at hrx
        cases hrx

theorem initial_moved (h : p.Sound capacity) (hf : p.threads.lookup who = some f)
    (hlate : ∀ e ∈ (p.moved who f next).log, e.frame.late = true → e.reply.accepted = none)
    (who' : Caller) :
    (p.moved who f next).acceptedBy who' <+: (p.moved who f next).triedBy who' := by
  cases next with
  | inl pc => exact h.initial who'
  | inr reply =>
      have hlog : (p.moved who f (.inr reply)).log = p.log ++ [⟨who, f, reply⟩] := rfl
      unfold acceptedBy triedBy
      rw [hlog, List.filterMap_append, List.filterMap_append]
      by_cases hwho : who = who'
      · subst hwho
        cases hacc : reply.accepted with
        | none =>
            simp only [List.filterMap_cons, List.filterMap_nil, if_true, hacc, List.append_nil]
            exact (h.initial who).trans (List.prefix_append _ _)
        | some m =>
            have hnew : f.late = false := by
              by_contra hl
              have hnone := hlate ⟨who, f, reply⟩ (by rw [hlog]; simp) (by simpa using hl)
              rw [hacc] at hnone
              cases hnone
            have hsame : p.acceptedBy who = p.triedBy who := by
              refine List.filterMap_congr fun e he => ?_
              split_ifs with hw
              · refine (ConnReply.tried_eq_accepted ?_).symm
                by_contra hfail
                have hfl := h.late_of_failed who f hf ⟨e, he, hw, by simpa using hfail⟩
                rw [hnew] at hfl
                cases hfl
              · rfl
            have htried : reply.tried = some m := by
              rw [ConnReply.accepted_eq_some_iff.mp hacc]
              rfl
            have hsame' :
                p.log.filterMap (fun e => if e.thread = who then e.reply.accepted else none) =
                  p.log.filterMap (fun e => if e.thread = who then e.reply.tried else none) := hsame
            simp only [List.filterMap_cons, List.filterMap_nil, if_true, hacc, htried, hsame']
            exact List.prefix_rfl
      · simp only [List.filterMap_cons, List.filterMap_nil, hwho, if_false, List.append_nil]
        exact h.initial who'

/-- The queue accepts what the senders are told it accepts. -/
theorem accepted_moved (h : p.Sound capacity) (hs : (connStep who p.shared f.pc).2 = next) :
    (p.moved who f next).accepted =
      (f.pc.after who p.shared).tx.sent.filter Envelope.fromSend := by
  -- only an accepted send adds an envelope of a send
  have hsent (hno : ∀ m, f.pc = .sendTry m → ¬ p.shared.tx.Accepts) :
      (f.pc.after who p.shared).tx.sent.filter Envelope.fromSend = p.accepted := by
    rw [h.accepted_eq]
    obtain htx | ⟨m, hpc, htx⟩ | ⟨-, htx⟩ := after_tx who p.shared f.pc
    · rw [htx]
    · rw [htx, BoundedQueue.sent_offer, if_neg (hno m hpc)]
    · rw [htx, BoundedQueue.sent_offer]
      split_ifs
      · rw [List.filter_append]
        simp [Envelope.fromSend]
      · rfl
  cases next with
  | inl pc =>
      have hlog : (p.moved who f (.inl pc)).accepted = p.accepted := rfl
      rw [hlog, hsent]
      intro m hpc ha
      rw [connStep_accepted.mpr ⟨hpc, ha⟩] at hs
      cases hs
  | inr reply =>
      have hlog : (p.moved who f (.inr reply)).accepted =
          p.accepted ++ (reply.accepted.map fun m => (⟨who, .send, m⟩ : Envelope)).toList := by
        have hl : (p.moved who f (.inr reply)).log = p.log ++ [⟨who, f, reply⟩] := rfl
        unfold accepted
        rw [hl, List.filterMap_append]
        cases hacc : reply.accepted <;> simp [hacc]
      rw [hlog]
      cases hacc : reply.accepted with
      | none =>
          rw [hsent]
          · simp
          · intro m hpc ha
            rw [connStep_accepted.mpr ⟨hpc, ha⟩] at hs
            cases hs
            cases hacc
      | some m =>
          rw [ConnReply.accepted_eq_some_iff.mp hacc] at hs
          obtain ⟨hpc, ha⟩ := connStep_accepted.mp hs
          have htx : (f.pc.after who p.shared).tx = p.shared.tx.offer ⟨who, .send, m⟩ := by
            rw [hpc]
            rfl
          rw [htx, BoundedQueue.sent_offer, if_pos ha, List.filter_append, h.accepted_eq]
          rfl

theorem moved (h : p.Sound capacity) (hf : p.threads.lookup who = some f)
    (hs : (connStep who p.shared f.pc).2 = next) (hmarks : (p.moved who f next).Marks) :
    (p.moved who f next).Sound capacity where
  marks := hmarks
  capacity_eq := by
    rw [moved_shared]
    obtain htx | ⟨m, -, htx⟩ | ⟨-, htx⟩ := after_tx who p.shared f.pc <;>
      simp [htx, h.capacity_eq]
  shut := h.shut_moved hf hs
  evicting := h.evicting_moved hf hs
  failed_of_late := fun hany => by
    have hfailed : p.Failed := by
      obtain hany | ⟨f', hn, hlate⟩ := anyAt_moved.mp hany
      · exact h.failed_of_late ((anyAt_iff hf).mpr (.inl hany))
      · cases next with
        | inr reply => cases hn
        | inl pc =>
            cases hn
            exact h.failed_of_late ⟨who, f, hf, hlate⟩
    obtain ⟨e, he, hfail⟩ := hfailed
    exact ⟨e, mem_log_moved.mpr (.inl he), hfail⟩
  trying := h.trying_moved hf hs
  late_of_failed := fun who' f' hf' ⟨e, he, hwho, hfail⟩ => by
    obtain ⟨hne, hf'⟩ | ⟨rfl, hn⟩ := lookup_moved hf'
    · obtain he | ⟨reply, -, rfl⟩ := mem_log_moved.mp he
      · exact h.late_of_failed who' f' hf' ⟨e, he, hwho, hfail⟩
      · exact absurd hwho.symm hne
    · cases next with
      | inr reply => cases hn
      | inl pc =>
          cases hn
          exact h.late_of_failed who' f hf ⟨e, he, hwho, hfail⟩
  late_log := fun _ => h.late_log_moved hf hs
  initial := h.initial_moved hf fun _ => h.late_log_moved hf hs
  accepted_eq := by
    rw [moved_shared]
    exact h.accepted_moved hs

theorem step {p' : ConnPool} {act : ConnAct} (h : p.Sound capacity)
    (hstep : p.step act = some p') : p'.Sound capacity := by
  have hmarks := h.marks.step hstep
  obtain ⟨who, call, -, -, hwho, rfl⟩ | ⟨who, f, next, -, hf, hs, rfl⟩ |
    ⟨e, tx, -, hrecv, rfl⟩ | ⟨-, rfl⟩ | ⟨-, -, rfl⟩ := step_cases hstep
  · exact h.begun hwho hmarks
  · exact h.moved hf hs hmarks
  · obtain ⟨hrx, -, -, hcapacity, hsent, -⟩ := BoundedQueue.recv?_some hrecv
    exact h.withCell rfl hcapacity hsent fun hclosed => by rw [hrx] at hclosed; cases hclosed
  · exact h.withCell rfl rfl rfl fun _ => rfl
  · exact h.withCell rfl rfl rfl id

end Sound

theorem sound_of_exec {capacity : ℕ} {acts : List ConnAct} {p : ConnPool}
    (hrun : exec step (new capacity) acts = some p) : p.Sound capacity :=
  exec_invariant (P := Sound capacity) (fun _ _ _ h hs => h.step hs) (sound_new capacity) hrun

theorem Sound.acceptedBy_eq_sent {capacity : ℕ} {p : ConnPool} (h : p.Sound capacity)
    (who : Caller) :
    p.acceptedBy who = p.shared.tx.sent.filterMap fun e =>
      if e.caller = who ∧ e.fromSend = true then some e.message else none := by
  have hby : p.acceptedBy who =
      p.accepted.filterMap fun e =>
        if e.caller = who ∧ e.fromSend = true then some e.message else none := by
    unfold acceptedBy accepted
    rw [List.filterMap_filterMap]
    refine List.filterMap_congr fun e _ => ?_
    cases e.reply.accepted with
    | none => simp
    | some m => by_cases hw : e.thread = who <;> simp [hw, Envelope.fromSend]
  rw [hby, h.accepted_eq, List.filterMap_filter]
  refine List.filterMap_congr fun e _ => ?_
  by_cases hs : e.fromSend = true <;> simp [hs]

theorem Sound.receivedFrom_prefix {capacity : ℕ} {p : ConnPool} (h : p.Sound capacity)
    (who : Caller) : p.receivedFrom who <+: p.acceptedBy who := by
  rw [h.acceptedBy_eq_sent who]
  exact p.shared.tx.received_prefix.filterMap _

/-- **No holes**: in every interleaving of sends, closes and receptions on a connection, sends begun
after a send has failed fail; what a sender got accepted is an initial segment of what it tried,
and what the receiver took of it an initial segment of that; the queue never holds more than its
capacity; and the receiver takes the messages in the order they were enqueued, each once. -/
theorem no_holes (capacity : ℕ) (acts : List ConnAct) (p : ConnPool)
    (hrun : exec step (new capacity) acts = some p) :
    (∀ e ∈ p.log, e.frame.late = true → ∀ m result, e.reply = .sent m result →
        result.isOk = false) ∧
      (∀ who, p.acceptedBy who <+: p.triedBy who ∧ p.receivedFrom who <+: p.acceptedBy who) ∧
      p.shared.tx.queue.length ≤ capacity ∧
      p.shared.tx.received <+: p.shared.tx.sent ∧
      (p.shared.tx.rxOpen = true →
        p.shared.tx.sent = p.shared.tx.received ++ p.shared.tx.queue) := by
  have h := sound_of_exec hrun
  refine ⟨?_, fun who => ⟨h.initial who, h.receivedFrom_prefix who⟩, ?_,
    p.shared.tx.received_prefix, p.shared.tx.sent_eq⟩
  · intro e he hlate m result hreply
    have hnone := h.late_log e he hlate
    rw [hreply] at hnone
    cases result with
    | ok u => cases hnone
    | error err => rfl
  · rw [← h.capacity_eq]
    exact p.shared.tx.length_le

/-- Two senders fill the queue; one is refused, the writer drains, and a later send is refused. -/
def refusedThenDrained : List ConnAct :=
  [.start (.app 0) (.send (.binary [1])), .step (.app 0), .step (.app 0),
    .start (.app 1) (.send (.binary [2])), .step (.app 1),
    .step (.app 1), .step (.app 1), .step (.app 1), .recv,
    .start (.app 0) (.send (.binary [3])), .step (.app 0)]

theorem no_holes_refusedThenDrained :
    ∃ p, exec step (new 1) refusedThenDrained = some p ∧
      p.acceptedBy (.app 0) = [.binary [1]] ∧ p.triedBy (.app 0) = [.binary [1], .binary [3]] ∧
      p.acceptedBy (.app 0) <+: p.triedBy (.app 0) := by
  have hend : ∃ p, exec step (new 1) refusedThenDrained = some p ∧
      p.acceptedBy (.app 0) = [.binary [1]] ∧
      p.triedBy (.app 0) = [.binary [1], .binary [3]] := by decide
  obtain ⟨p, hrun, hacc, htried⟩ := hend
  exact ⟨p, hrun, hacc, htried, ((no_holes 1 _ p hrun).2.1 (.app 0)).1⟩

end ConnPool
end ArmatureWebsocket
