import ArmatureWebsocket.Execution
import ArmatureWebsocket.RoomSteps

/-! # Joins that race with an unregistration

A connection is registered, joined to rooms, made to leave them, and unregistered, by calls of
any number of threads.  Unregistering takes the connection out of the rooms that its index lists,
so a membership that the index does not list stays behind: `join_room` checks that the connection
exists long before it inserts the member, and updates the index only if the entry still exists.

`joinDuringUnregister` is such a run.  `KeepsIndexed` says of a step that it leaves no membership
unlisted, unless a call in progress is still going to list it or to end it; in the runs whose
steps all do, the connection is in no room once it is unregistered and its calls have returned
(`left_all_rooms`).  The invariant is `Listed`: every membership of the connection is listed, or
about to be listed or ended. -/

namespace ArmatureWebsocket

open Execution CallPool

variable {τ : Type} [DecidableEq τ]

/-- The call at this point is still going to take `c` out of the room stored under `r`. -/
def RoomPc.takesOut (s : RoomMaps) (c : ConnectionId) (r : RoomId) : RoomPc → Prop
  | .unregisterGet d r' rest => d = c ∧ (r' = r ∨ r ∈ rest)
  | .unregisterLeave d room rest =>
      d = c ∧ (room.id = r ∧ s.rooms.lookup r = some room.alloc ∨ r ∈ rest)
  | .unregisterPrune d _ rest => d = c ∧ r ∈ rest
  | .leaveGet d r' => d = c ∧ r' = r
  | .leaveMembers d room => d = c ∧ room.id = r ∧ s.rooms.lookup r = some room.alloc
  | _ => False

instance (s : RoomMaps) (c : ConnectionId) (r : RoomId) (pc : RoomPc) :
    Decidable (pc.takesOut s c r) :=
  match pc with
  | .unregisterGet d r' rest => inferInstanceAs (Decidable (d = c ∧ (r' = r ∨ r ∈ rest)))
  | .unregisterLeave d room rest =>
      inferInstanceAs (Decidable
        (d = c ∧ (room.id = r ∧ s.rooms.lookup r = some room.alloc ∨ r ∈ rest)))
  | .unregisterPrune d _ rest => inferInstanceAs (Decidable (d = c ∧ r ∈ rest))
  | .leaveGet d r' => inferInstanceAs (Decidable (d = c ∧ r' = r))
  | .leaveMembers d room =>
      inferInstanceAs (Decidable (d = c ∧ room.id = r ∧ s.rooms.lookup r = some room.alloc))
  | .registerConnections _ | .registerIndex _ | .unregisterIndex _ | .unregisterConnections _
  | .createEntry _ | .deleteRooms _ | .deleteMembers _ | .deleteIndex _ _ _
  | .joinConnections _ _ | .joinEntry _ _ | .joinMembers _ _ | .joinIndex _ _
  | .leaveIndex _ _ | .leavePrune _ _ => .isFalse id

/-- The call at this point is about to list the membership of `c` in `r`, or going to end it. -/
def RoomPc.settles (s : RoomMaps) (c : ConnectionId) (r : RoomId) (pc : RoomPc) : Prop :=
  pc = .joinIndex c r ∨ pc.takesOut s c r

instance (s : RoomMaps) (c : ConnectionId) (r : RoomId) (pc : RoomPc) :
    Decidable (pc.settles s c r) :=
  inferInstanceAs (Decidable (_ ∨ _))

namespace RoomPool

/-- A call about `op` is in progress or has returned. -/
def Started (p : RoomPool τ) (op : RoomOp) : Prop := p.Runs op ∨ p.Returned op

instance (p : RoomPool τ) (op : RoomOp) : Decidable (p.Started op) :=
  inferInstanceAs (Decidable (_ ∨ _))

/-- `c` is registered once, and unregistered once after that. -/
def RegisteredOnce (c : ConnectionId) (p : RoomPool τ) : RoomAct τ → RoomPool τ → Prop
  | .start _ call, _ =>
      (call.pc.op = .register c → ¬ p.Started (.register c)) ∧
        (call.pc.op = .unregister c → p.Returned (.register c) ∧ ¬ p.Started (.unregister c))
  | .step _ _, _ => True

/-- The operation at `pc` of thread `t` does not leave `c` in a room that its index does not
list, unless a call in progress is about to list it or going to end the membership. -/
def KeepsListed (c : ConnectionId) (p : RoomPool τ) (t : τ) : RoomPc → Prop
  | .joinIndex d r =>
      d = c → c ∈ p.shared.liveMembers r →
        c ∈ p.shared.connectionRooms ∨ p.OtherAt t (RoomPc.settles p.shared c r)
  | .leaveIndex d r =>
      d = c → c ∈ p.shared.liveMembers r → p.OtherAt t (RoomPc.settles p.shared c r)
  | .deleteIndex r d _ =>
      d = c → c ∈ p.shared.liveMembers r → p.OtherAt t (RoomPc.settles p.shared c r)
  | _ => True

/-- The step leaves no membership of `c` unlisted. -/
def KeepsIndexed (c : ConnectionId) (p : RoomPool τ) : RoomAct τ → RoomPool τ → Prop
  | .start _ _, _ => True
  | .step t _, _ => ∀ pc ∈ p.threads.lookup t, p.KeepsListed c t pc

instance (c : ConnectionId) (p : RoomPool τ) (t : τ) (pc : RoomPc) :
    Decidable (p.KeepsListed c t pc) :=
  match pc with
  | .joinIndex d r =>
      inferInstanceAs (Decidable (d = c → c ∈ p.shared.liveMembers r →
        c ∈ p.shared.connectionRooms ∨ p.OtherAt t (RoomPc.settles p.shared c r)))
  | .leaveIndex d r | .deleteIndex r d _ =>
      inferInstanceAs (Decidable (d = c → c ∈ p.shared.liveMembers r →
        p.OtherAt t (RoomPc.settles p.shared c r)))
  | .registerConnections _ | .registerIndex _ | .unregisterIndex _ | .unregisterGet _ _ _
  | .unregisterLeave _ _ _ | .unregisterPrune _ _ _ | .unregisterConnections _ | .createEntry _
  | .deleteRooms _ | .deleteMembers _ | .joinConnections _ _ | .joinEntry _ _
  | .joinMembers _ _ | .leaveGet _ _ | .leaveMembers _ _ | .leavePrune _ _ => .isTrue trivial

instance (c : ConnectionId) (p : RoomPool τ) (act : RoomAct τ) (p' : RoomPool τ) :
    Decidable (RegisteredOnce c p act p') :=
  match act with
  | .start _ _ => inferInstanceAs (Decidable ((_ → _) ∧ (_ → _)))
  | .step _ _ => .isTrue trivial

instance (c : ConnectionId) (p : RoomPool τ) (act : RoomAct τ) (p' : RoomPool τ) :
    Decidable (KeepsIndexed c p act p') :=
  match act with
  | .start _ _ => .isTrue trivial
  | .step _ _ => inferInstanceAs (Decidable (∀ pc ∈ _, _))

/-! ### Calls that are made once -/

/-- At most one call about `op` was ever begun. -/
structure Once (op : RoomOp) (p : RoomPool τ) : Prop where
  unique : ∀ t pc, p.threads.lookup t = some pc → pc.op = op → ¬ p.OtherAt t fun pc => pc.op = op
  not_both : p.Runs op → ¬ p.Returned op

theorem not_runs_new (op : RoomOp) : ¬ (new : RoomPool τ).Runs op := not_anyAt_quiet

omit [DecidableEq τ] in
theorem not_returned_new (op : RoomOp) : ¬ (new : RoomPool τ).Returned op := by
  rintro ⟨e, he, -⟩
  cases he

theorem once_new (op : RoomOp) : (new : RoomPool τ).Once op where
  unique := by intro t pc h; simp [new] at h
  not_both := fun h => absurd h (not_runs_new op)

section once

variable {op : RoomOp} {p : RoomPool τ} {t : τ} {pc : RoomPc} {next : RoomPc ⊕ RoomReply}
  {order : List String}

/-- A call that is in progress after a step inside calls was in progress before it. -/
theorem runs_of_moved (hpc : p.threads.lookup t = some pc)
    (hs : roomStep order p.shared pc = some (pc.after p.shared, next))
    (h : (p.moved t pc next).Runs op) : p.Runs op := by
  obtain h | ⟨pc', rfl, ho⟩ := anyAt_moved.mp h
  · exact (anyAt_iff hpc).mpr (.inl h)
  · exact ⟨t, pc, hpc, (roomStep_op hs).symm.trans ho⟩

theorem Once.begun (h : p.Once op) {call : RoomStart} (ht : p.threads.lookup t = none)
    (hfresh : call.pc.op = op → ¬ p.Started op) : (p.begun t call).Once op where
  unique := by
    rintro t₁ pc₁ hpc₁ ho₁ ⟨t₂, pc₂, hne, hpc₂, ho₂⟩
    rw [lookup_begun] at hpc₁ hpc₂
    split_ifs at hpc₁ hpc₂ with h₁ h₂ h₂
    · exact hne (h₂.trans h₁.symm)
    · cases hpc₁
      exact hfresh ho₁ (.inl ⟨t₂, pc₂, hpc₂, ho₂⟩)
    · cases hpc₂
      exact hfresh ho₂ (.inl ⟨t₁, pc₁, hpc₁, ho₁⟩)
    · exact h.unique t₁ pc₁ hpc₁ ho₁ ⟨t₂, pc₂, hne, hpc₂, ho₂⟩
  not_both := by
    intro hr hret
    obtain hr | ho := (anyAt_begun ht).mp hr
    · exact h.not_both hr hret
    · exact hfresh ho (.inr hret)

theorem Once.moved (h : p.Once op) (hpc : p.threads.lookup t = some pc)
    (hs : roomStep order p.shared pc = some (pc.after p.shared, next)) :
    (p.moved t pc next).Once op where
  unique := by
    rintro t₁ pc₁ hpc₁ ho₁ ⟨t₂, pc₂, hne, hpc₂, ho₂⟩
    -- each of the two was already in its call before the step
    have back {t' : τ} {pc' : RoomPc}
        (hl : (p.moved t pc next).threads.lookup t' = some pc') (ho : pc'.op = op) :
        ∃ pc₀, p.threads.lookup t' = some pc₀ ∧ pc₀.op = op := by
      obtain ⟨-, hl⟩ | ⟨rfl, rfl⟩ := lookup_moved hl
      · exact ⟨pc', hl, ho⟩
      · exact ⟨pc, hpc, (roomStep_op hs).symm.trans ho⟩
    obtain ⟨q₁, hq₁, hqo₁⟩ := back hpc₁ ho₁
    obtain ⟨q₂, hq₂, hqo₂⟩ := back hpc₂ ho₂
    exact h.unique t₁ q₁ hq₁ hqo₁ ⟨t₂, q₂, hne, hq₂, hqo₂⟩
  not_both := by
    intro hr hret
    obtain hret | ⟨ho, reply, rfl⟩ := returned_moved.mp hret
    · exact h.not_both (runs_of_moved hpc hs hr) hret
    · -- the only call about `op` is the one that returns
      obtain hr | ⟨pc', hn, -⟩ := anyAt_moved.mp hr
      · exact h.unique t pc hpc ho hr
      · cases hn

end once

/-! ### The invariant -/

/-- The unregistration of `c` is past its removal of the index entry. -/
def PastIndex (c : ConnectionId) (p : RoomPool τ) : Prop :=
  p.Returned (.unregister c) ∨
    p.AnyAt fun pc => pc.op = .unregister c ∧ pc ≠ .unregisterIndex c

/-- Every membership of `c` is listed in its index, or a call in progress is about to list it or
going to end it.  This needs no more than that `c` is registered once. -/
structure Listed (c : ConnectionId) (p : RoomPool τ) : Prop where
  register_once : p.Once (.register c)
  entry_after : c ∈ p.shared.connectionRooms → p.Returned (.register c)
  covered : ∀ r, c ∈ p.shared.liveMembers r →
    r ∈ p.shared.index c ∨ p.AnyAt (RoomPc.settles p.shared c r)

/-- The memberships of `c` are listed, and its unregistration removes the index entry for good. -/
structure Tracked (c : ConnectionId) (p : RoomPool τ) : Prop extends Listed c p where
  unregister_once : p.Once (.unregister c)
  register_first : p.Started (.unregister c) → p.Returned (.register c)
  entry_removed : p.PastIndex c → c ∉ p.shared.connectionRooms

theorem listed_new (c : ConnectionId) : (new : RoomPool τ).Listed c where
  register_once := once_new _
  entry_after := fun h => absurd h Finmap.notMem_empty
  covered := by
    intro r h
    obtain ⟨a, ha, -⟩ := RoomMaps.mem_liveMembers_iff.mp h
    cases ha

theorem tracked_new (c : ConnectionId) : (new : RoomPool τ).Tracked c where
  toListed := listed_new c
  unregister_once := once_new _
  register_first := by
    rintro (h | h)
    · exact absurd h (not_runs_new _)
    · exact absurd h (not_returned_new _)
  entry_removed := fun _ => Finmap.notMem_empty

section settles

variable {s : RoomMaps} {pc pc' : RoomPc} {next : RoomPc ⊕ RoomReply} {c : ConnectionId}
  {r : RoomId} {order : List String}

/-- As long as `c` is a member of the stored room, that room is the same one. -/
theorem lookup_after_of_mem {a : ℕ} (h : c ∈ (pc.after s).liveMembers r)
    (ha : s.rooms.lookup r = some a) : (pc.after s).rooms.lookup r = some a := by
  obtain h' | h' := lookup_rooms_after pc ha
  · exact h'
  · obtain ⟨b, hb, -⟩ := RoomMaps.mem_liveMembers_iff.mp h
    rw [h'] at hb
    cases hb

/-- A call that settles a membership is not put off by the operations of others. -/
theorem settles_after (h : c ∈ (pc.after s).liveMembers r) (hset : pc'.settles s c r) :
    pc'.settles (pc.after s) c r := by
  obtain hset | hset := hset
  · exact .inl hset
  · refine .inr ?_
    cases pc' with
    | unregisterLeave d room rest =>
        obtain ⟨hd, ⟨hid, ha⟩ | hr⟩ := hset
        · exact ⟨hd, .inl ⟨hid, lookup_after_of_mem h ha⟩⟩
        · exact ⟨hd, .inr hr⟩
    | leaveMembers d room =>
        obtain ⟨hd, hid, ha⟩ := hset
        exact ⟨hd, hid, lookup_after_of_mem h ha⟩
    | _ => exact hset

theorem takesOut_unregisterNext {rest : List RoomId} (hr : r ∈ rest) :
    (unregisterNext c rest).takesOut s c r := by
  cases rest with
  | nil => cases hr
  | cons r' rest =>
      refine ⟨rfl, ?_⟩
      obtain rfl | hr := List.mem_cons.mp hr
      · exact .inl rfl
      · exact .inr hr

/-- A call that is going to take `c` out has done so after its operation, or still is. -/
theorem takesOut_next (hstep : roomStep order s pc = some (pc.after s, next))
    (hset : pc.takesOut s c r) (hmem : c ∈ s.liveMembers r)
    (hmem' : c ∈ (pc.after s).liveMembers r) :
    ∃ pc', next = .inl pc' ∧ pc'.takesOut (pc.after s) c r := by
  obtain ⟨a, ha, -⟩ := RoomMaps.mem_liveMembers_iff.mp hmem
  cases pc with
  | unregisterGet d r' rest =>
      obtain ⟨rfl, rfl | hr⟩ := hset
      · simp only [roomStep, ha] at hstep
        cases hstep
        exact ⟨_, rfl, rfl, .inl ⟨rfl, ha⟩⟩
      · simp only [roomStep] at hstep
        split at hstep <;> cases hstep
        · exact ⟨_, rfl, rfl, .inr hr⟩
        · exact ⟨_, rfl, rfl, hr⟩
  | unregisterLeave d room rest =>
      cases hstep
      obtain ⟨rfl, ⟨rfl, hroom⟩ | hr⟩ := hset
      · exact absurd ⟨rfl, rfl, hroom⟩ (RoomMaps.mem_liveMembers_leave.mp hmem').2
      · exact ⟨_, rfl, rfl, hr⟩
  | unregisterPrune d r' rest =>
      cases hstep
      obtain ⟨rfl, hr⟩ := hset
      exact ⟨_, rfl, takesOut_unregisterNext hr⟩
  | leaveGet d r' =>
      obtain ⟨rfl, rfl⟩ := hset
      simp only [roomStep, ha] at hstep
      cases hstep
      exact ⟨_, rfl, rfl, rfl, ha⟩
  | leaveMembers d room =>
      obtain ⟨rfl, rfl, hroom⟩ := hset
      exact absurd ⟨rfl, rfl, hroom⟩ (RoomMaps.mem_liveMembers_leave.mp hmem').2
  | _ => exact absurd hset id

end settles

section

variable {c : ConnectionId} {p : RoomPool τ} {t : τ} {pc : RoomPc} {next : RoomPc ⊕ RoomReply}
  {order : List String}

namespace Listed

theorem begun (h : p.Listed c) {call : RoomStart} (ht : p.threads.lookup t = none)
    (honce : call.pc.op = .register c → ¬ p.Started (.register c)) :
    (p.begun t call).Listed c where
  register_once := h.register_once.begun ht honce
  entry_after := h.entry_after
  covered := fun r hmem => by
    obtain hr | hset := h.covered r hmem
    · exact .inl hr
    · exact .inr ((anyAt_begun ht).mpr (.inl hset))

theorem not_registering (h : p.Listed c) (hreg : p.Runs (.register c)) :
    c ∉ p.shared.connectionRooms :=
  fun hmem => h.register_once.not_both hreg (h.entry_after hmem)

theorem covered_moved (h : p.Listed c) (hpc : p.threads.lookup t = some pc)
    (hs : roomStep order p.shared pc = some (pc.after p.shared, next))
    (hkeeps : p.KeepsListed c t pc) {r : RoomId} (hmem' : c ∈ (pc.after p.shared).liveMembers r) :
    r ∈ (pc.after p.shared).index c ∨
      (p.moved t pc next).AnyAt (RoomPc.settles (pc.after p.shared) c r) := by
  have others (ho : p.OtherAt t (RoomPc.settles p.shared c r)) :
      (p.moved t pc next).AnyAt (RoomPc.settles (pc.after p.shared) c r) :=
    anyAt_moved.mpr (.inl (ho.mono fun _ => settles_after hmem'))
  obtain hmem | ⟨a, rfl, -⟩ := mem_liveMembers_after hmem'
  · obtain hr | hset := h.covered r hmem
    · -- the membership was listed; the operations that unlist it are the ones below
      obtain hr | rfl | rfl | rfl | ⟨rest, rfl⟩ := mem_index_of_after pc hr
      · exact .inl hr
      · have := h.not_registering ⟨t, _, hpc, rfl⟩
        rw [RoomMaps.index_eq_empty this] at hr
        cases hr
      · refine .inr (anyAt_moved.mpr (.inr ?_))
        simp only [RoomMaps.index] at hr
        simp only [roomStep] at hs
        cases hc : p.shared.connectionRooms.lookup c with
        | none => simp [hc] at hr
        | some rooms =>
            simp only [hc, Option.getD_some] at hr hs
            split_ifs at hs with horder
            cases hs
            exact ⟨_, rfl, .inr (takesOut_unregisterNext (horder.mem_iff.mpr hr))⟩
      · exact .inr (others (hkeeps rfl hmem))
      · exact .inr (others (hkeeps rfl hmem))
    · obtain hset | rfl | hset := (anyAt_iff hpc).mp hset
      · exact .inr (others hset)
      · obtain hc | ho := hkeeps rfl hmem
        · exact .inl (RoomMaps.mem_index_insert.mpr (.inr ⟨rfl, rfl, hc⟩))
        · exact .inr (others ho)
      · obtain ⟨pc', hn, htake⟩ := takesOut_next hs hset hmem hmem'
        exact .inr (anyAt_moved.mpr (.inr ⟨pc', hn, .inr htake⟩))
  · cases hs
    exact .inr (anyAt_moved.mpr (.inr ⟨_, rfl, .inl rfl⟩))

theorem moved (h : p.Listed c) (hpc : p.threads.lookup t = some pc)
    (hs : roomStep order p.shared pc = some (pc.after p.shared, next))
    (hkeeps : p.KeepsListed c t pc) : (p.moved t pc next).Listed c where
  register_once := h.register_once.moved hpc hs
  entry_after := fun hmem => by
    rw [moved_shared] at hmem
    obtain hmem | rfl := mem_connectionRooms_after hmem
    · exact returned_moved.mpr (.inl (h.entry_after hmem))
    · cases hs
      exact returned_moved.mpr (.inr ⟨rfl, _, rfl⟩)
  covered := fun r hmem => by
    rw [moved_shared] at hmem ⊢
    exact h.covered_moved hpc hs hkeeps hmem

end Listed

namespace Tracked

theorem begun (h : p.Tracked c) {call : RoomStart} (ht : p.threads.lookup t = none)
    (honce : RegisteredOnce c p (.start t call) (p.begun t call)) :
    (p.begun t call).Tracked c where
  toListed := h.toListed.begun ht honce.1
  unregister_once := h.unregister_once.begun ht fun ho => (honce.2 ho).2
  register_first := fun hs => by
    obtain hr | hret := hs
    · obtain hr | ho := (anyAt_begun ht).mp hr
      · exact h.register_first (.inl hr)
      · exact (honce.2 ho).1
    · exact h.register_first (.inr hret)
  entry_removed := fun hpast => by
    refine h.entry_removed ?_
    obtain hret | hrun := hpast
    · exact .inl hret
    · obtain hrun | ⟨ho, hne⟩ := (anyAt_begun ht).mp hrun
      · exact .inr hrun
      · cases call <;> cases ho
        exact absurd rfl hne

theorem not_unregistering (h : p.Tracked c) (hreg : p.Runs (.register c)) :
    ¬ p.Started (.unregister c) :=
  fun hs => h.register_once.not_both hreg (h.register_first hs)

theorem PastIndex.started (hpast : p.PastIndex c) : p.Started (.unregister c) := by
  obtain hret | hrun := hpast
  · exact .inr hret
  · exact .inl (hrun.mono fun _ hq => hq.1)

theorem entry_removed_moved (h : p.Tracked c) (hpc : p.threads.lookup t = some pc)
    (hs : roomStep order p.shared pc = some (pc.after p.shared, next))
    (hpast : (p.moved t pc next).PastIndex c) :
    c ∉ (p.moved t pc next).shared.connectionRooms := by
  rw [moved_shared]
  intro hmem
  -- the unregistration was past its first operation before this step, or has just done it
  by_cases hfirst : pc = .unregisterIndex c
  · obtain rfl := hfirst
    exact (Finmap.mem_erase.mp hmem).1 rfl
  have hpast₀ : p.PastIndex c := by
    obtain hret | hrun := hpast
    · obtain hret | ⟨ho, -⟩ := returned_moved.mp hret
      · exact .inl hret
      · exact .inr ⟨t, pc, hpc, ho, hfirst⟩
    · obtain hrun | ⟨pc', rfl, ho, -⟩ := anyAt_moved.mp hrun
      · exact .inr ((anyAt_iff hpc).mpr (.inl hrun))
      · exact .inr ⟨t, pc, hpc, (roomStep_op hs).symm.trans ho,
          hfirst⟩
  obtain hmem | rfl := mem_connectionRooms_after hmem
  · exact h.entry_removed hpast₀ hmem
  · exact h.not_unregistering ⟨t, _, hpc, rfl⟩ (PastIndex.started hpast₀)

theorem moved (h : p.Tracked c) (hpc : p.threads.lookup t = some pc)
    (hs : roomStep order p.shared pc = some (pc.after p.shared, next))
    (hkeeps : p.KeepsListed c t pc) : (p.moved t pc next).Tracked c where
  toListed := h.toListed.moved hpc hs hkeeps
  unregister_once := h.unregister_once.moved hpc hs
  register_first := fun hst => by
    refine returned_moved.mpr (.inl (h.register_first ?_))
    obtain hr | hret := hst
    · exact .inl (runs_of_moved hpc hs hr)
    · obtain hret | ⟨ho, -⟩ := returned_moved.mp hret
      · exact .inr hret
      · exact .inl ⟨t, pc, hpc, ho⟩
  entry_removed := h.entry_removed_moved hpc hs

theorem step {p' : RoomPool τ} {act : RoomAct τ} (h : p.Tracked c) (hstep : p.step act = some p')
    (honce : RegisteredOnce c p act p') (hkeeps : KeepsIndexed c p act p') : p'.Tracked c := by
  obtain ⟨t, call, rfl, ht, rfl⟩ | ⟨t, order, pc, next, rfl, hpc, hs, rfl⟩ := step_cases hstep
  · exact h.begun ht honce
  · exact h.moved hpc hs (hkeeps pc hpc)

end Tracked

end

/-- **Unregistration empties the memberships**: along every run in which `c` is registered once
and then unregistered once and no step leaves a membership of `c` unlisted, once the
unregistration and all joins and leaves of `c` have returned, `c` is in no room. -/
theorem left_all_rooms (c : ConnectionId) (acts : List (RoomAct τ)) (p : RoomPool τ)
    (hrun : exec step new acts = some p) (honce : Along step (RegisteredOnce c) new acts)
    (hkeeps : Along step (KeepsIndexed c) new acts) (hret : p.Returned (.unregister c))
    (hidle : ∀ r, ¬ p.Runs (.join c r) ∧ ¬ p.Runs (.leave c r)) :
    ∀ r a, p.shared.rooms.lookup r = some a →
      c ∉ p.shared.members ⟨r, a⟩ ∧ p.shared.members ⟨r, a⟩ ≠ {c} := by
  have htracked : p.Tracked c := by
    refine exec_invariant_along ?_ (tracked_new c) hrun (honce.and hkeeps)
    intro p₁ act p₂ h₁ hstep ⟨ho, hk⟩
    exact h₁.step hstep ho hk
  intro r a ha
  have hout : c ∉ p.shared.members ⟨r, a⟩ := by
    intro hmem
    obtain hr | hset := htracked.covered r (RoomMaps.mem_liveMembers_iff.mpr ⟨a, ha, hmem⟩)
    · rw [RoomMaps.index_eq_empty (htracked.entry_removed (.inl hret))] at hr
      cases hr
    · obtain ⟨t, pc, hpc, rfl | hset⟩ := hset
      · exact (hidle r).1 ⟨t, _, hpc, rfl⟩
      · have hnot : ¬ p.Runs (.unregister c) := fun h =>
          htracked.unregister_once.not_both h hret
        cases pc with
        | unregisterGet d r' rest => exact hnot ⟨t, _, hpc, by rw [← hset.1]; rfl⟩
        | unregisterLeave d room rest => exact hnot ⟨t, _, hpc, by rw [← hset.1]; rfl⟩
        | unregisterPrune d r' rest => exact hnot ⟨t, _, hpc, by rw [← hset.1]; rfl⟩
        | leaveGet d r' =>
            obtain ⟨rfl, rfl⟩ := hset
            exact (hidle _).2 ⟨t, _, hpc, rfl⟩
        | leaveMembers d room =>
            obtain ⟨rfl, rfl, -⟩ := hset
            exact (hidle _).2 ⟨t, _, hpc, rfl⟩
        | _ => exact hset
  refine ⟨hout, ?_⟩
  intro he
  exact hout (by rw [he]; exact Finset.mem_singleton_self c)

/-- A join passes its check, then the connection is unregistered, then the join goes on. -/
def joinDuringUnregister : List RoomAct :=
  [.start 0 (.registerConnection ⟨"a", .anonymous, 0⟩), .step 0 [], .step 0 [],
    .start 1 (.joinRoom "a" "r"), .step 1 [],
    .start 2 (.unregisterConnection "a"), .step 2 [], .step 2 [],
    .step 1 [], .step 1 [], .step 1 []]

/-- The run registers and unregisters `a` once, all calls return, and `a` remains the only member
of a room. -/
theorem member_left_after_joinDuringUnregister :
    ∃ p, exec step new joinDuringUnregister = some p ∧
      Along step (RegisteredOnce "a") new joinDuringUnregister ∧
      p.Returned (.unregister "a") ∧ p.Quiet ∧
      p.shared.rooms.lookup "r" = some 0 ∧ p.shared.members ⟨"r", 0⟩ = {"a"} := by
  decide

/-- Two joins of `a`, the second of which ends while `a` is being unregistered: the
unregistration has read the index already and still takes `a` out. -/
def joinedThenUnregistered : List RoomAct :=
  [.start 0 (.registerConnection ⟨"a", .anonymous, 0⟩), .step 0 [], .step 0 [],
    .start 1 (.joinRoom "a" "r"), .step 1 [], .step 1 [], .step 1 [], .step 1 [],
    .start 1 (.joinRoom "a" "r"), .step 1 [], .step 1 [], .step 1 [],
    .start 2 (.unregisterConnection "a"), .step 2 ["r"], .step 1 [], .step 2 [], .step 2 [],
    .step 2 [], .step 2 []]

theorem left_all_rooms_joinedThenUnregistered :
    ∃ p, exec step new joinedThenUnregistered = some p ∧
      ∀ r a, p.shared.rooms.lookup r = some a →
        "a" ∉ p.shared.members ⟨r, a⟩ ∧ p.shared.members ⟨r, a⟩ ≠ {"a"} := by
  have hend : ∃ p, exec step new joinedThenUnregistered = some p ∧
      p.Returned (.unregister "a") ∧ p.Quiet := by decide
  obtain ⟨p, hrun, hret, hquiet⟩ := hend
  exact ⟨p, hrun, left_all_rooms "a" _ p hrun (by decide) (by decide) hret
    fun r => ⟨hquiet.not_anyAt _, hquiet.not_anyAt _⟩⟩

end RoomPool
end ArmatureWebsocket
