import ArmatureWebsocket.HubSteps
import ArmatureWebsocket.NoHoles

/-! # The hub and its connections

To a connection the hub is nothing but its callers: some threads send to it or close it, others come
to it in the course of a broadcast.  What happens in the hub to one connection, its cell and the
calls in progress on it, is a run of `ConnPool` (`cells_of_exec`), and what holds in every run of
that holds of every connection of the hub: what a thread sends and what it broadcasts is queued
without holes and in order. -/

namespace ArmatureWebsocket

open Execution CallPool

/-- The point of the call on connection `k` that a thread is in the middle of. -/
def HubPc.onCell (k : ℕ) : HubPc → Option ConnPc
  | .connection k' pc => if k' = k then some pc else none
  | .broadcastSend _ _ conn pc => if conn.cell = k then some pc else none
  | _ => none

/-- The point of the call on connection `k` that comes next. -/
def HubPc.nextOnCell (k : ℕ) (next : HubPc ⊕ HubReply) : Option ConnPc :=
  next.elim (HubPc.onCell k) fun _ => none

/-- A connection is only marked closed, never given another state from outside. -/
def HubAct.Made : HubAct → Prop
  | .start _ (.connection _ call) => call.made = true
  | _ => True

instance (act : HubAct) : Decidable act.Made :=
  match act with
  | .start _ (.connection _ _) => inferInstanceAs (Decidable (_ = _))
  | .start _ (.room _) | .start _ (.broadcast _ _) | .step _ _ | .recv _ | .closeRx _
  | .evicted _ => .isTrue trivial

/-- The pool of a connection has its cell and the threads that are in a call on it. -/
structure HubPool.Cell (k : ℕ) (p : HubPool) (q : ConnPool) : Prop where
  shared : q.shared = p.shared.cells k
  callers : ∀ t, (q.threads.lookup (.app t)).map InFlight.pc =
    (p.threads.lookup t).bind (HubPc.onCell k)
  task : q.threads.lookup .task = none

section

variable {sh : Shards} {s s' : HubShared} {t k : ℕ} {f : HubPc} {next : HubPc ⊕ HubReply}
  {order : List ConnectionId}

theorem Broadcasting.onCell_next (b : Broadcasting) : b.next.onCell k = none := by
  unfold Broadcasting.next
  cases b.pending <;> rfl

theorem HubCall.onCell_pc {call : HubCall} : call.pc.onCell k = none ∨
    ∃ call', call = .connection k call' ∧ call.pc.onCell k = some call'.pc := by
  cases call with
  | room call => exact .inl rfl
  | connection k' call =>
      by_cases hk : k' = k
      · subst hk
        exact .inr ⟨call, rfl, if_pos rfl⟩
      · exact .inl (if_neg hk)
  | broadcast call m =>
      left
      cases call <;> rfl

/-- What an operation of a thread is to a connection: nothing, the beginning of a `send`, or the
next access of the thread's call on it. -/
theorem hubStep_onCell (h : hubStep sh t order s f = some (s', next)) :
    (f.onCell k = none ∧ s'.cells k = s.cells k ∧
      (HubPc.nextOnCell k next = none ∨
        ∃ m, HubPc.nextOnCell k next = some (ConnCall.send m).pc)) ∨
    ∃ pc, f.onCell k = some pc ∧ s'.cells k = pc.after (.app t) (s.cells k) ∧
      HubPc.nextOnCell k next = (connStep (.app t) (s.cells k) pc).2.elim some fun _ => none := by
  cases f with
  | room pc =>
      left
      obtain ⟨⟨maps, next'⟩, -, he⟩ := Option.map_eq_some_iff.mp h
      cases he
      refine ⟨rfl, rfl, .inl ?_⟩
      cases next' <;> rfl
  | connection k' pc =>
      simp only [hubStep] at h
      rw [connStep_fst] at h
      cases h
      by_cases hk : k' = k
      · subst hk
        refine .inr ⟨pc, if_pos rfl, Function.update_self _ _ _, ?_⟩
        cases (connStep (.app t) (s.cells k') pc).2 with
        | inl pc' => exact if_pos rfl
        | inr reply => rfl
      · refine .inl ⟨if_neg hk, Function.update_of_ne (Ne.symm hk) _ _, .inl ?_⟩
        cases (connStep (.app t) (s.cells k') pc).2 with
        | inl pc' => exact if_neg hk
        | inr reply => rfl
  | broadcastRooms call r m =>
      left
      simp only [hubStep] at h
      split at h
      · cases h
        exact ⟨rfl, rfl, .inl rfl⟩
      · cases h
        exact ⟨rfl, rfl, .inl rfl⟩
  | broadcastShard b =>
      left
      obtain ⟨rfl, ⟨-, -, rfl⟩ | ⟨-, rfl⟩⟩ := hubStep_broadcastShard h
      · exact ⟨rfl, rfl, .inl (Broadcasting.onCell_next _)⟩
      · exact ⟨rfl, rfl, .inl rfl⟩
  | broadcastMember b c =>
      left
      obtain ⟨rfl, ⟨-, rfl⟩ | ⟨-, connection, -, rfl⟩⟩ := hubStep_broadcastMember h
      · exact ⟨rfl, rfl, .inl b.onCell_next⟩
      · refine ⟨rfl, rfl, ?_⟩
        by_cases hk : connection.cell = k
        · exact .inr ⟨b.message, if_pos hk⟩
        · exact .inl (if_neg hk)
  | broadcastSend b c connection pc =>
      obtain ⟨rfl, hnext⟩ := hubStep_broadcastSend h
      by_cases hk : connection.cell = k
      · subst hk
        refine .inr ⟨pc, if_pos rfl, Function.update_self _ _ _, ?_⟩
        obtain ⟨pc', hpc', rfl⟩ | ⟨reply, hreply, rfl⟩ := hnext
        · rw [hpc']
          exact if_pos rfl
        · rw [hreply]
          exact Broadcasting.onCell_next _
      · refine .inl ⟨if_neg hk, Function.update_of_ne (Ne.symm hk) _ _, .inl ?_⟩
        obtain ⟨pc', -, rfl⟩ | ⟨reply, -, rfl⟩ := hnext
        · exact if_neg hk
        · exact Broadcasting.onCell_next _

end

namespace HubPool

variable {sh : Shards} {p p' : HubPool} {q : ConnPool} {act : HubAct} {k t : ℕ}
  {order : List ConnectionId}

theorem Cell.lookup_eq_none (h : Cell k p q)
    (hnone : (p.threads.lookup t).bind (HubPc.onCell k) = none) :
    q.threads.lookup (.app t) = none := by
  have hcaller := h.callers t
  rw [hnone] at hcaller
  exact Option.map_eq_none_iff.mp hcaller

theorem Cell.start {call : HubCall} (h : Cell k p q) (hmade : (HubAct.start t call).Made)
    (hstep : p.step sh (.start t call) = some p') :
    Cell k p' q ∨ ∃ a q', q.step a = some q' ∧ Cell k p' q' := by
  obtain ⟨hnone, rfl⟩ := start_eq_some_iff.mp hstep
  have hq : q.threads.lookup (.app t) = none := h.lookup_eq_none (by rw [hnone]; rfl)
  obtain hpc | ⟨call', rfl, hpc⟩ := call.onCell_pc (k := k)
  · refine .inl ⟨h.shared, fun u => ?_, h.task⟩
    rw [lookup_begun]
    split_ifs with hu
    · rw [hu, hq]
      exact hpc.symm
    · exact h.callers u
  · have hbegin : q.step (.start (.app t) call') = some (q.begun (.app t) call') := by
      have hmade' : call'.made = true := hmade
      simp only [ConnPool.step, if_pos hmade']
      exact start_eq_some_iff.mpr ⟨hq, rfl⟩
    refine .inr ⟨_, _, hbegin, h.shared, fun u => ?_, ?_⟩
    · rw [lookup_begun, lookup_begun]
      by_cases hu : u = t
      · rw [if_pos hu, if_pos (by rw [hu])]
        exact hpc.symm
      · rw [if_neg hu, if_neg (by simpa using hu)]
        exact h.callers u
    · rw [lookup_begun, if_neg (by simp)]
      exact h.task

theorem Cell.step (h : Cell k p q) (hstep : p.step sh (.step t order) = some p') :
    Cell k p' q ∨ ∃ a q', q.step a = some q' ∧ Cell k p' q' := by
  obtain ⟨f, s, next, hf, -, hrun, rfl⟩ := advanceFree_eq_some_iff.mp hstep
  have hself : ((p.moved t f s next).threads.lookup t).bind (HubPc.onCell k) =
      HubPc.nextOnCell k next := by
    rw [lookup_moved_self]
    cases next <;> rfl
  have hother {u : ℕ} (hu : u ≠ t) :
      (p.moved t f s next).threads.lookup u = p.threads.lookup u := lookup_moved_of_ne hu
  obtain ⟨hnone, hcell, hnext | ⟨m, hnext⟩⟩ | ⟨pc, hpc, hcell, hnext⟩ :=
    hubStep_onCell (k := k) hrun
  · have hq : q.threads.lookup (.app t) = none := h.lookup_eq_none (by rw [hf]; exact hnone)
    refine .inl ⟨?_, fun u => ?_, h.task⟩
    · rw [moved_shared, hcell]
      exact h.shared
    · by_cases hu : u = t
      · rw [hu, hq, hself, hnext]
        rfl
      · rw [hother hu]
        exact h.callers u
  · have hq : q.threads.lookup (.app t) = none := h.lookup_eq_none (by rw [hf]; exact hnone)
    have hbegin : q.step (.start (.app t) (.send m)) = some (q.begun (.app t) (.send m)) :=
      start_eq_some_iff.mpr ⟨hq, rfl⟩
    refine .inr ⟨_, _, hbegin, ?_, fun u => ?_, ?_⟩
    · rw [moved_shared, hcell]
      exact h.shared
    · rw [lookup_begun]
      by_cases hu : u = t
      · rw [hu, if_pos rfl, hself, hnext]
        rfl
      · rw [if_neg (by simpa using hu), hother hu]
        exact h.callers u
    · rw [lookup_begun, if_neg (by simp)]
      exact h.task
  · have hcaller := h.callers t
    rw [hf] at hcaller
    obtain ⟨g, hg, hgpc⟩ := Option.map_eq_some_iff.mp (hcaller.trans hpc)
    have hmove : q.step (.step (.app t)) =
        some (q.moved (.app t) g (connStep (.app t) q.shared g.pc).2) := by
      have hrun' : InFlight.run (.app t) q.shared g = some (g.pc.after (.app t) q.shared,
          (connStep (.app t) q.shared g.pc).2.map (⟨·, g.late⟩) id) := by
        simp only [InFlight.run, connStep_fst]
      exact advance_eq_some_iff.mpr ⟨g, _, _, hg, hrun', rfl⟩
    refine .inr ⟨_, _, hmove, ?_, fun u => ?_, ?_⟩
    · rw [moved_shared, moved_shared, hcell, h.shared, hgpc]
    · by_cases hu : u = t
      · rw [hu, lookup_moved_self, hself, hnext, h.shared, hgpc]
        cases (connStep (.app t) (p.shared.cells k) pc).2 <;> rfl
      · rw [hother hu, lookup_moved_of_ne (by simpa using hu)]
        exact h.callers u
    · rw [lookup_moved_of_ne (by simp)]
      exact h.task

theorem Cell.other (h : Cell k p q)
    (hact : ∀ t call order, act ≠ .start t call ∧ act ≠ .step t order)
    (hstep : p.step sh act = some p') :
    Cell k p' q ∨ ∃ a q', q.step a = some q' ∧ Cell k p' q' := by
  have hcell (k' : ℕ) (cell : ConnectionCell) (a : ConnAct)
      (hq : k' = k → q.step a = some (q.withCell cell)) :
      Cell k (p.withCell k' cell) q ∨
        ∃ a q', q.step a = some q' ∧ Cell k (p.withCell k' cell) q' := by
    by_cases hk : k' = k
    · subst hk
      have hself : (p.withCell k' cell).shared.cells k' = cell := by
        unfold withCell
        simp
      exact .inr ⟨a, _, hq rfl, hself.symm, h.callers, h.task⟩
    · have hsame : (p.withCell k' cell).shared.cells k = p.shared.cells k :=
        Function.update_of_ne (Ne.symm hk) _ _
      exact .inl ⟨h.shared.trans hsame.symm, h.callers, h.task⟩
  cases act with
  | start t call => exact absurd rfl (hact t call []).1
  | step t order => exact absurd rfl (hact t (.connection 0 .close) order).2
  | recv k' =>
      obtain ⟨⟨x, tx⟩, hrecv, rfl⟩ := Option.map_eq_some_iff.mp hstep
      refine hcell k' _ .recv ?_
      rintro rfl
      simp only [ConnPool.step, h.shared, hrecv]
      rw [ConnPool.withTx, h.shared]
  | closeRx k' =>
      cases hstep
      refine hcell k' _ .closeRx ?_
      rintro rfl
      simp only [ConnPool.step, ConnPool.withTx, h.shared]
  | evicted k' =>
      simp only [HubPool.step] at hstep
      split_ifs at hstep with hevict
      cases hstep
      refine hcell k' _ .evicted ?_
      rintro rfl
      simp only [ConnPool.step, h.shared, if_pos hevict]

/-- **The hub runs each connection**: in every run in which connections are only marked closed,
under every schedule of calls, broadcasts and sends, what happens to the cell of a new connection
and to the calls on it is a run of that connection alone. -/
theorem cells_of_exec (sh : Shards) (cells : ℕ → ConnectionCell) (acts : List HubAct) (p : HubPool)
    (k capacity : ℕ) (hnew : cells k = .new capacity) (hmade : ∀ act ∈ acts, act.Made)
    (hrun : exec (step sh) (new cells) acts = some p) :
    ∃ (cacts : List ConnAct) (q : ConnPool),
      exec ConnPool.step (.new capacity) cacts = some q ∧ Cell k p q := by
  have hstep (act : HubAct) (hact : act ∈ acts) (p p' : HubPool) (q : ConnPool) (h : Cell k p q)
      (hs : p.step sh act = some p') : Cell k p' q ∨ ∃ a q', q.step a = some q' ∧ Cell k p' q' := by
    cases act with
    | start t call => exact h.start (hmade _ hact) hs
    | step t order => exact h.step hs
    | recv k' => exact h.other (by simp) hs
    | closeRx k' => exact h.other (by simp) hs
    | evicted k' => exact h.other (by simp) hs
  have hcell : Cell k (new cells) (.new capacity) := by
    refine ⟨hnew.symm, fun t => ?_, lookup_quiet⟩
    rw [ConnPool.new, new, lookup_quiet, lookup_quiet]
    rfl
  exact exec_simulation hstep hcell hrun

theorem cells_of_exec_broadcastToOne :
    ∃ p, exec (step oneShard) (new fun _ => .new 1) broadcastToOne = some p ∧
      ∃ (cacts : List ConnAct) (q : ConnPool), exec ConnPool.step (.new 1) cacts = some q ∧
        (q.threads.lookup (.app 1)).map InFlight.pc = some (.sendTry (.binary [1])) := by
  obtain ⟨p, hrun, hsending⟩ :
      ∃ p, exec (step oneShard) (new fun _ => .new 1) broadcastToOne = some p ∧
        (p.threads.lookup 1).bind (HubPc.onCell 0) = some (.sendTry (.binary [1])) := by decide
  obtain ⟨cacts, q, hq, hcell⟩ :=
    cells_of_exec oneShard _ broadcastToOne p 0 1 rfl (by decide) hrun
  exact ⟨p, hrun, cacts, q, hq, (hcell.callers 1).trans hsending⟩

end HubPool
end ArmatureWebsocket
