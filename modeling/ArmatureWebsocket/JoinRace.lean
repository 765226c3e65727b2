import ArmatureWebsocket.Execution
import ArmatureWebsocket.RoomSteps

/-! # Joins that race with departures

`join_room` takes a reference to the room from the map, creating the room if need be, and inserts
the member in a later operation.  In between, a departing member of the same room may prune it:
the room is empty and leaves the map, and the join inserts into a room that nobody finds any
more.  `joinDuringLeave` is such a run.

`KeepsRoom` says of a step that it prunes no room that a join of the connection is about to
insert into.  In the runs whose steps all do, a join that has returned is a membership that
broadcasts reach, whatever the other connections do (`join_lands`).  The invariant is `Held`. -/

namespace ArmatureWebsocket

open Execution CallPool

variable {τ : Type} [DecidableEq τ]

/-- The call deletes no room `r` and does not take `c` out of it. -/
def RoomAct.Spares (c : ConnectionId) (r : RoomId) : RoomAct τ → Prop
  | .start _ call =>
      call.pc.op ≠ .delete r ∧ call.pc.op ≠ .leave c r ∧ call.pc.op ≠ .unregister c
  | .step _ _ => True

instance (c : ConnectionId) (r : RoomId) (act : RoomAct τ) : Decidable (act.Spares c r) :=
  match act with
  | .start _ _ => inferInstanceAs (Decidable (_ ∧ _ ∧ _))
  | .step _ _ => .isTrue trivial

/-- The operation at this point prunes the room stored under `r`, if that is empty. -/
def RoomPc.prunes (r : RoomId) : RoomPc → Bool
  | .unregisterPrune _ r' _ => r' == r
  | .leavePrune _ r' => r' == r
  | _ => false

namespace RoomPool

/-- The step does not prune the room that a join of `c` is about to insert into. -/
def KeepsRoom (c : ConnectionId) (r : RoomId) (p : RoomPool τ) : RoomAct τ → RoomPool τ → Prop
  | .start _ _, _ => True
  | .step t _, _ => ∀ pc ∈ p.threads.lookup t, pc.prunes r = true →
      ∀ a ∈ p.shared.rooms.lookup r, p.shared.members ⟨r, a⟩ = ∅ →
        ¬ p.OtherAt t fun pc' => pc' = .joinMembers c ⟨r, a⟩

instance (c : ConnectionId) (r : RoomId) (p : RoomPool τ) (act : RoomAct τ) (p' : RoomPool τ) :
    Decidable (KeepsRoom c r p act p') :=
  match act with
  | .start _ _ => .isTrue trivial
  | .step _ _ => inferInstanceAs (Decidable (∀ pc ∈ _, _ → ∀ a ∈ _, _ → ¬ _))

end RoomPool

/-- A room leaves the map only when it is deleted or pruned. -/
theorem lookup_rooms_lost {s : RoomMaps} {pc : RoomPc} {r : RoomId} {a : ℕ}
    (h : s.rooms.lookup r = some a) (h' : (pc.after s).rooms.lookup r = none) :
    pc.prunes r = true ∧ s.members ⟨r, a⟩ = ∅ ∨ pc = .deleteRooms r := by
  have hprune {r' : RoomId} (hp : (s.prune r').rooms.lookup r = none) :
      (r' == r) = true ∧ s.members ⟨r, a⟩ = ∅ := by
    by_contra hcon
    refine absurd hp ?_
    unfold RoomMaps.prune
    rw [KeyMap.lookup_removeIf, h]
    split_ifs with hr
    · simp only [hr, beq_self_eq_true, true_and] at hcon
      simp [Option.filter, hcon]
    · simp
  cases pc with
  | unregisterPrune d r' rest => exact .inl (hprune h')
  | leavePrune d r' => exact .inl (hprune h')
  | createEntry r' => rw [RoomPc.after, RoomMaps.lookup_entry_of_some h] at h'; cases h'
  | joinEntry d r' => rw [RoomPc.after, RoomMaps.lookup_entry_of_some h] at h'; cases h'
  | deleteRooms r' =>
      rw [RoomPc.after, RoomMaps.lookup_remove] at h'
      split_ifs at h' with hr
      · subst hr
        exact .inr rfl
      · rw [h] at h'
        cases h'
  | _ => exact absurd (h.symm.trans h') (Option.some_ne_none a)

namespace RoomPool

/-- A join of `c` and `r` is past its check, or has returned successfully. -/
def PastCheck (c : ConnectionId) (r : RoomId) (p : RoomPool τ) : Prop :=
  p.Joined c r ∨
    p.AnyAt fun pc => pc.op = .join c r ∧ pc ≠ .joinConnections c r

/-- A join of `c` and `r` is past its insertion, or has returned successfully. -/
def PastInsert (c : ConnectionId) (r : RoomId) (p : RoomPool τ) : Prop :=
  p.Joined c r ∨ p.AnyAt fun pc => pc = .joinIndex c r

/-- Joins of `c` hold the stored room, and those that inserted are memberships. -/
structure Held (c : ConnectionId) (r : RoomId) (p : RoomPool τ) : Prop where
  spared : ∀ t pc, p.threads.lookup t = some pc →
    pc.op ≠ .delete r ∧ pc.op ≠ .leave c r ∧ pc.op ≠ .unregister c
  stored : ∀ t a, p.threads.lookup t = some (.joinMembers c ⟨r, a⟩) →
    p.shared.rooms.lookup r = some a
  registered : p.PastCheck c r → c ∈ p.shared.connections
  joined : p.PastInsert c r → c ∈ p.shared.liveMembers r

theorem held_quiet (c : ConnectionId) (r : RoomId) (maps : RoomMaps) :
    (quiet maps : RoomPool τ).Held c r where
  spared := by intro t pc h; simp at h
  stored := by intro t a h; simp at h
  registered := by
    rintro (⟨e, he, -⟩ | h)
    · cases he
    · exact absurd h not_anyAt_quiet
  joined := by
    rintro (⟨e, he, -⟩ | h)
    · cases he
    · exact absurd h not_anyAt_quiet

namespace Held

variable {c : ConnectionId} {r : RoomId} {p : RoomPool τ} {t : τ} {pc : RoomPc}
  {next : RoomPc ⊕ RoomReply} {order : List String}

theorem begun (h : p.Held c r) {call : RoomStart} (ht : p.threads.lookup t = none)
    (hcall : (RoomAct.start t call).Spares c r) : (p.begun t call).Held c r where
  spared := fun t' pc hpc => by
    simp only [lookup_begun] at hpc
    split_ifs at hpc
    · cases hpc
      exact hcall
    · exact h.spared t' pc hpc
  stored := fun t' a hpc => by
    simp only [lookup_begun] at hpc
    split_ifs at hpc
    · cases call <;> cases hpc
    · exact h.stored t' a hpc
  registered := fun hpast => by
    refine h.registered ?_
    obtain hlog | hrun := hpast
    · exact .inl hlog
    · obtain hrun | ⟨ho, hne⟩ := (anyAt_begun ht).mp hrun
      · exact .inr hrun
      · cases call <;> cases ho
        exact absurd rfl hne
  joined := fun hpast => by
    refine h.joined ?_
    obtain hlog | hrun := hpast
    · exact .inl hlog
    · obtain hrun | he := (anyAt_begun ht).mp hrun
      · exact .inr hrun
      · cases call <;> cases he

theorem spared_moved (h : p.Held c r) (hpc : p.threads.lookup t = some pc)
    (hs : roomStep order p.shared pc = some (pc.after p.shared, next)) {t' : τ} {pc' : RoomPc}
    (hpc' : (p.moved t pc next).threads.lookup t' = some pc') :
    pc'.op ≠ .delete r ∧ pc'.op ≠ .leave c r ∧ pc'.op ≠ .unregister c := by
  obtain ⟨-, hpc'⟩ | ⟨rfl, rfl⟩ := lookup_moved hpc'
  · exact h.spared t' pc' hpc'
  · rw [roomStep_op hs]
    exact h.spared t' pc hpc

theorem stored_moved (h : p.Held c r) (hpc : p.threads.lookup t = some pc)
    (hs : roomStep order p.shared pc = some (pc.after p.shared, next))
    (hkeeps : KeepsRoom c r p (.step t order) (p.moved t pc next)) {t' : τ} {a : ℕ}
    (hpc' : (p.moved t pc next).threads.lookup t' = some (.joinMembers c ⟨r, a⟩)) :
    (p.moved t pc next).shared.rooms.lookup r = some a := by
  rw [moved_shared]
  obtain ⟨hne, hpc'⟩ | ⟨rfl, rfl⟩ := lookup_moved hpc'
  · have ha := h.stored t' a hpc'
    obtain ha' | ha' := lookup_rooms_after pc ha
    · exact ha'
    · obtain ⟨hprune, hempty⟩ | rfl := lookup_rooms_lost ha ha'
      · exact absurd ⟨t', _, hne, hpc', rfl⟩
          (hkeeps pc hpc hprune a ha hempty)
      · exact absurd rfl (h.spared t _ hpc).1
  · exact joinMembers_of_roomStep hs

theorem registered_moved (h : p.Held c r) (hpc : p.threads.lookup t = some pc)
    (hs : roomStep order p.shared pc = some (pc.after p.shared, next))
    (hpast : (p.moved t pc next).PastCheck c r) :
    c ∈ (p.moved t pc next).shared.connections := by
  rw [moved_shared]
  have hmem : c ∈ p.shared.connections := by
    by_cases hcheck : pc = .joinConnections c r
    · subst hcheck
      simp only [roomStep] at hs
      split_ifs at hs with hc
      · exact hc
      · cases hs
        refine h.registered ?_
        obtain hlog | hrun := hpast
        · obtain hlog | ⟨-, hn⟩ := joined_of_moved hlog
          · exact .inl hlog
          · cases hn
        · obtain hrun | ⟨pc', hn, -⟩ := anyAt_moved.mp hrun
          · exact .inr ((anyAt_iff hpc).mpr (.inl hrun))
          · cases hn
    · refine h.registered ?_
      obtain hlog | hrun := hpast
      · obtain hlog | ⟨ho, rfl⟩ := joined_of_moved hlog
        · exact .inl hlog
        · exact .inr ⟨t, pc, hpc, ho, hcheck⟩
      · obtain hrun | ⟨pc', rfl, ho, -⟩ := anyAt_moved.mp hrun
        · exact .inr ((anyAt_iff hpc).mpr (.inl hrun))
        · exact .inr ⟨t, pc, hpc, (roomStep_op hs).symm.trans ho, hcheck⟩
  obtain hmem | rfl := mem_connections_of_after pc hmem
  · exact hmem
  · exact absurd rfl (h.spared t _ hpc).2.2

theorem joined_moved (h : p.Held c r) (hpc : p.threads.lookup t = some pc)
    (hs : roomStep order p.shared pc = some (pc.after p.shared, next))
    (hpast : (p.moved t pc next).PastInsert c r) :
    c ∈ (p.moved t pc next).shared.liveMembers r := by
  rw [moved_shared]
  by_cases hins : ∃ a, pc = .joinMembers c ⟨r, a⟩
  · obtain ⟨a, rfl⟩ := hins
    exact RoomMaps.mem_liveMembers_join.mpr (.inr ⟨rfl, rfl, h.stored t a hpc⟩)
  have hmem : c ∈ p.shared.liveMembers r := by
    refine h.joined ?_
    obtain hlog | hrun := hpast
    · obtain hlog | ⟨ho, rfl⟩ := joined_of_moved hlog
      · exact .inl hlog
      · exact .inr ⟨t, pc, hpc, joined_of_roomStep hs ho⟩
    · obtain hrun | ⟨pc', rfl, rfl⟩ := anyAt_moved.mp hrun
      · exact .inr ((anyAt_iff hpc).mpr (.inl hrun))
      · exact absurd (joinIndex_of_roomStep hs) hins
  obtain hmem | ⟨a, rest, rfl⟩ | ⟨a, rfl⟩ | rfl := mem_liveMembers_of_after pc hmem
  · exact hmem
  · exact absurd rfl (h.spared t _ hpc).2.2
  · exact absurd rfl (h.spared t _ hpc).2.1
  · exact absurd rfl (h.spared t _ hpc).1

theorem step {p' : RoomPool τ} {act : RoomAct τ} (h : p.Held c r) (hstep : p.step act = some p')
    (hact : act.Spares c r) (hkeeps : KeepsRoom c r p act p') : p'.Held c r := by
  obtain ⟨t, call, rfl, ht, rfl⟩ | ⟨t, order, pc, next, rfl, hpc, hs, rfl⟩ := step_cases hstep
  · exact h.begun ht hact
  · exact {
      spared := fun _ _ => h.spared_moved hpc hs
      stored := fun _ _ => h.stored_moved hpc hs hkeeps
      registered := h.registered_moved hpc hs
      joined := h.joined_moved hpc hs }

end Held

/-- **Joins land**: along every run that neither deletes `r` nor takes `c` out of it, and prunes no
room that a join of `c` is about to insert into, a successful join of `c` and `r` is a membership
of the stored room, and broadcasts to `r` are sent to `c`. -/
theorem join_lands (c : ConnectionId) (r : RoomId) (maps : RoomMaps) (acts : List (RoomAct τ))
    (p : RoomPool τ) (hrun : exec step (quiet maps) acts = some p)
    (hcalls : ∀ act ∈ acts, act.Spares c r)
    (hkeeps : Along step (KeepsRoom c r) (quiet maps) acts)
    (hjoined : p.Joined c r) :
    c ∈ p.shared.liveMembers r ∧
      ∃ targets, p.shared.broadcastTargets r = .ok targets ∧ c ∈ targets := by
  have hheld : p.Held c r := by
    refine exec_invariant_along ?_ (held_quiet c r maps) hrun
      ((along_of_forall_mem hcalls).and hkeeps)
    intro p₁ act p₂ h₁ hstep ⟨hact, hk⟩
    exact h₁.step hstep hact hk
  have hmem := hheld.joined (.inl hjoined)
  obtain ⟨a, ha, hm⟩ := RoomMaps.mem_liveMembers_iff.mp hmem
  refine ⟨hmem, (p.shared.members ⟨r, a⟩).filter (· ∈ p.shared.connections), ?_, ?_⟩
  · unfold RoomMaps.broadcastTargets
    rw [ha]
  · exact Finset.mem_filter.mpr ⟨hm, hheld.registered (.inl hjoined)⟩

/-- Two registered connections, the second of them in room `r`. -/
def bInRoom : RoomMaps where
  rooms := Finmap.insert "r" 0 ∅
  members := Function.update (fun _ => ∅) ⟨"r", 0⟩ {"b"}
  allocs := 1
  connectionRooms := Finmap.insert "b" {"r"} (Finmap.insert "a" ∅ ∅)
  connections := Finmap.insert "b" ⟨"b", .anonymous, 1⟩ (Finmap.insert "a" ⟨"a", .anonymous, 0⟩ ∅)
  alloc_lt := fun r a h => by
    rw [KeyMap.lookup_insert_ite] at h
    split_ifs at h
    · cases h
      exact Nat.zero_lt_one
    · simp at h

theorem indexed_bInRoom : bInRoom.Indexed where
  member_iff := fun c r => by
    by_cases hr : r = "r" <;> by_cases hb : c = "b" <;> by_cases ha : c = "a" <;>
      simp [bInRoom, RoomMaps.liveMembers, RoomMaps.index, hr, hb, ha]
  same_keys := fun c => by simp only [bInRoom, Finmap.mem_insert, Finmap.notMem_empty]

/-- While `a` joins, `b` leaves the room and prunes it. -/
def joinDuringLeave : List RoomAct :=
  [.start 0 (.joinRoom "a" "r"), .step 0 [], .step 0 [],
    .start 1 (.leaveRoom "b" "r"), .step 1 [], .step 1 [], .step 1 [], .step 1 [],
    .step 0 [], .step 0 []]

/-- The join of the registered `a` succeeds, all calls return, and there is no room. -/
theorem room_missing_after_joinDuringLeave :
    bInRoom.Indexed ∧ "a" ∈ bInRoom.connections ∧ (∀ act ∈ joinDuringLeave, act.Spares "a" "r") ∧
      ∃ p, exec step (quiet bInRoom) joinDuringLeave = some p ∧
        p.Joined "a" "r" ∧ p.Quiet ∧
        p.shared.broadcastTargets "r" = .error (.roomNotFound "r") :=
  ⟨indexed_bInRoom, by decide, by decide, by decide⟩

/-- The departure is over before `a` joins, up to its pruning. -/
def joinAfterLeave : List RoomAct :=
  [.start 1 (.leaveRoom "b" "r"), .step 1 [], .step 1 [], .step 1 [],
    .start 0 (.joinRoom "a" "r"), .step 0 [], .step 0 [], .step 0 [], .step 1 [], .step 0 []]

theorem join_lands_joinAfterLeave :
    ∃ p, exec step (quiet bInRoom) joinAfterLeave = some p ∧ "a" ∈ p.shared.liveMembers "r" ∧
      ∃ targets, p.shared.broadcastTargets "r" = .ok targets ∧ "a" ∈ targets := by
  have hend : ∃ p, exec step (quiet bInRoom) joinAfterLeave = some p ∧
      p.Joined "a" "r" := by decide
  obtain ⟨p, hrun, hjoined⟩ := hend
  exact ⟨p, hrun, join_lands "a" "r" bInRoom _ p hrun (by decide) (by decide) hjoined⟩

end RoomPool
end ArmatureWebsocket
