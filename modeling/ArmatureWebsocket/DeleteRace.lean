import ArmatureWebsocket.Execution
import ArmatureWebsocket.RoomSteps

/-! # Joins that race with the deletion of their room

`delete_room` takes the room out of the map, then takes a snapshot of its members, then takes the
room out of their indexes one at a time.  A join may hold the detached room and insert too late
for the snapshot, or store the room anew and lose its index entry to a deletion that comes late.
`joinDuringDelete` and `rejoinDuringDelete` are such runs.

`KeepsAgreement` says of a step that it lists no membership that is gone and unlists none that is
there, unless a call in progress is about to make up for it.  In the runs of joins and deletions
whose steps all do, rooms and index agree once all calls have returned (`index_agrees`).  The
invariant is `Agreeing`. -/

namespace ArmatureWebsocket

open Execution CallPool

variable {τ : Type} [DecidableEq τ]

/-- The call joins or deletes `r`. -/
def RoomAct.JoinsOrDeletes (r : RoomId) : RoomAct τ → Prop
  | .start _ (.joinRoom _ r') => r' = r
  | .start _ (.deleteRoom r') => r' = r
  | .start _ _ => False
  | .step _ _ => True

instance (r : RoomId) (act : RoomAct τ) : Decidable (act.JoinsOrDeletes r) :=
  match act with
  | .start _ (.joinRoom _ r') | .start _ (.deleteRoom r') => inferInstanceAs (Decidable (r' = r))
  | .start _ (.registerConnection _) | .start _ (.unregisterConnection _)
  | .start _ (.createRoom _) | .start _ (.leaveRoom _ _) => .isFalse id
  | .step _ _ => .isTrue trivial

/-- The call at this point joins or deletes `r`. -/
def RoomPc.JoinsOrDeletes (r : RoomId) (pc : RoomPc) : Prop :=
  pc.op = .delete r ∨ ∃ c, pc.op = .join c r

/-- The call at this point is still going to take `r` out of the index of `c`. -/
def RoomPc.unlists (s : RoomMaps) (c : ConnectionId) (r : RoomId) : RoomPc → Prop
  | .deleteMembers room => room.id = r ∧ c ∈ s.members room
  | .deleteIndex r' d rest => r' = r ∧ (d = c ∨ c ∈ rest)
  | _ => False

instance (s : RoomMaps) (c : ConnectionId) (r : RoomId) (pc : RoomPc) :
    Decidable (pc.unlists s c r) :=
  match pc with
  | .deleteMembers room => inferInstanceAs (Decidable (room.id = r ∧ c ∈ s.members room))
  | .deleteIndex r' d rest => inferInstanceAs (Decidable (r' = r ∧ (d = c ∨ c ∈ rest)))
  | .registerConnections _ | .registerIndex _ | .unregisterIndex _ | .unregisterGet _ _ _
  | .unregisterLeave _ _ _ | .unregisterPrune _ _ _ | .unregisterConnections _ | .createEntry _
  | .deleteRooms _ | .joinConnections _ _ | .joinEntry _ _ | .joinMembers _ _ | .joinIndex _ _
  | .leaveGet _ _ | .leaveMembers _ _ | .leaveIndex _ _ | .leavePrune _ _ => .isFalse id

namespace RoomPool

/-- The operation at `pc` of thread `t` lists no membership in `r` that is gone, and unlists none
that is there, unless a call in progress is about to make up for it. -/
def KeepsAgreeing (r : RoomId) (p : RoomPool τ) (t : τ) : RoomPc → Prop
  | .joinIndex c r' =>
      r' = r → c ∈ p.shared.liveMembers r ∨ p.OtherAt t (RoomPc.unlists p.shared c r)
  | .deleteIndex r' c _ =>
      r' = r → c ∈ p.shared.liveMembers r → p.OtherAt t fun pc => pc = .joinIndex c r
  | _ => True

instance (r : RoomId) (p : RoomPool τ) (t : τ) (pc : RoomPc) : Decidable (p.KeepsAgreeing r t pc) :=
  match pc with
  | .joinIndex c r' =>
      inferInstanceAs (Decidable (r' = r →
        c ∈ p.shared.liveMembers r ∨ p.OtherAt t (RoomPc.unlists p.shared c r)))
  | .deleteIndex r' c _ =>
      inferInstanceAs (Decidable (r' = r → c ∈ p.shared.liveMembers r →
        p.OtherAt t fun pc => pc = .joinIndex c r))
  | .registerConnections _ | .registerIndex _ | .unregisterIndex _ | .unregisterGet _ _ _
  | .unregisterLeave _ _ _ | .unregisterPrune _ _ _ | .unregisterConnections _ | .createEntry _
  | .deleteRooms _ | .deleteMembers _ | .joinConnections _ _ | .joinEntry _ _
  | .joinMembers _ _ | .leaveGet _ _ | .leaveMembers _ _ | .leaveIndex _ _ | .leavePrune _ _ =>
      .isTrue trivial

/-- The step keeps rooms and index of `r` in agreement, up to what calls in progress make up
for. -/
def KeepsAgreement (r : RoomId) (p : RoomPool τ) : RoomAct τ → RoomPool τ → Prop
  | .start _ _, _ => True
  | .step t _, _ => ∀ pc ∈ p.threads.lookup t, p.KeepsAgreeing r t pc

instance (r : RoomId) (p : RoomPool τ) (act : RoomAct τ) (p' : RoomPool τ) :
    Decidable (KeepsAgreement r p act p') :=
  match act with
  | .start _ _ => .isTrue trivial
  | .step _ _ => inferInstanceAs (Decidable (∀ pc ∈ _, _))

/-- Rooms and index of `r` agree up to what calls in progress make up for. -/
structure Agreeing (r : RoomId) (p : RoomPool τ) : Prop where
  ops : ∀ t pc, p.threads.lookup t = some pc → pc.JoinsOrDeletes r
  entries : ∀ c, c ∈ p.shared.connections → c ∈ p.shared.connectionRooms
  checked : ∀ c, p.AnyAt (fun pc => pc.op = .join c r ∧ pc ≠ .joinConnections c r) →
    c ∈ p.shared.connections
  detached : ∀ t room, p.threads.lookup t = some (.deleteMembers room) →
    room.alloc < p.shared.allocs
  listed : ∀ c, c ∈ p.shared.liveMembers r →
    r ∈ p.shared.index c ∨ p.AnyAt fun pc => pc = .joinIndex c r
  present : ∀ c, r ∈ p.shared.index c →
    c ∈ p.shared.liveMembers r ∨ p.AnyAt (RoomPc.unlists p.shared c r)

end RoomPool

section unlists

variable {s : RoomMaps} {pc pc' : RoomPc} {next : RoomPc ⊕ RoomReply} {c : ConnectionId}
  {r : RoomId} {room : RoomArc} {order : List String}

/-- Joins and deletions do not take members out of allocated rooms. -/
theorem members_after (hop : pc.JoinsOrDeletes r) (halloc : room.alloc < s.allocs)
    (hmem : c ∈ s.members room) : c ∈ (pc.after s).members room := by
  obtain ho | ⟨d, ho⟩ := hop
  · obtain rfl | ⟨a, rfl⟩ | ⟨d, rest, rfl⟩ := delete_cases ho
    · exact hmem
    · exact hmem
    · exact hmem
  · obtain rfl | rfl | ⟨a, rfl⟩ | rfl := join_cases ho
    · exact hmem
    · rw [RoomPc.after, RoomMaps.members_entry halloc]
      exact hmem
    · by_cases he : room = ⟨r, a⟩
      · subst he
        simp [RoomPc.after, RoomMaps.join, hmem]
      · simpa [RoomPc.after, RoomMaps.join, Function.update_of_ne he] using hmem
    · exact hmem

theorem allocs_le_after : s.allocs ≤ (pc.after s).allocs := by
  have hentry (r' : RoomId) : s.allocs ≤ (s.entry r').1.allocs := by
    unfold RoomMaps.entry
    cases s.rooms.lookup r' with
    | some a => exact le_rfl
    | none => exact Nat.le_succ _
  cases pc with
  | createEntry r' => exact hentry r'
  | joinEntry d r' => exact hentry r'
  | _ => exact le_rfl

/-- A deletion that is going to unlist a membership is not put off by the operations of others. -/
theorem unlists_after (hop : pc.JoinsOrDeletes r)
    (halloc : ∀ room, pc' = .deleteMembers room → room.alloc < s.allocs)
    (h : pc'.unlists s c r) : pc'.unlists (pc.after s) c r := by
  cases pc' with
  | deleteMembers room =>
      exact ⟨h.1, members_after hop (halloc room rfl) h.2⟩
  | _ => exact h

theorem unlists_deleteNext {rest : List ConnectionId} (h : c ∈ rest) :
    ∃ pc', deleteNext r rest = .inl pc' ∧ pc'.unlists s c r := by
  cases rest with
  | nil => cases h
  | cons d rest =>
      refine ⟨_, rfl, rfl, ?_⟩
      obtain rfl | h := List.mem_cons.mp h
      · exact .inl rfl
      · exact .inr h

/-- A deletion that is going to unlist a membership has done so after its operation, or still
is. -/
theorem unlists_next (hstep : roomStep order s pc = some (pc.after s, next)) (h : pc.unlists s c r)
    (hidx : r ∈ (pc.after s).index c) :
    ∃ pc', next = .inl pc' ∧ pc'.unlists (pc.after s) c r := by
  cases pc with
  | deleteMembers room =>
      obtain ⟨rfl, hc⟩ := h
      simp only [roomStep] at hstep
      split_ifs at hstep with horder
      cases hstep
      exact unlists_deleteNext (horder.mem_iff.mpr hc)
  | deleteIndex r' d rest =>
      obtain ⟨rfl, rfl | hc⟩ := h
      · exact absurd ⟨rfl, rfl⟩ (RoomMaps.mem_index_unindex.mp hidx).2
      · cases hstep
        exact unlists_deleteNext hc
  | _ => exact absurd h id

end unlists

namespace RoomPool

theorem agreeing_quiet {r : RoomId} {maps : RoomMaps} (h : maps.Indexed) :
    (quiet maps : RoomPool τ).Agreeing r where
  ops := by intro t pc h; simp at h
  entries := fun c => (h.same_keys c).mp
  checked := by rintro c ⟨t, pc, h, -⟩; simp at h
  detached := by intro t room h; simp at h
  listed := fun c hc => .inl ((h.member_iff c r).mp hc)
  present := fun c hc => .inl ((h.member_iff c r).mpr hc)

namespace Agreeing

variable {r : RoomId} {p : RoomPool τ} {t : τ} {pc : RoomPc} {next : RoomPc ⊕ RoomReply}
  {order : List String}

theorem begun (h : p.Agreeing r) {call : RoomStart} (ht : p.threads.lookup t = none)
    (hcall : (RoomAct.start t call).JoinsOrDeletes r) : (p.begun t call).Agreeing r where
  ops := fun t' pc hpc => by
    simp only [lookup_begun] at hpc
    split_ifs at hpc
    · cases hpc
      cases call with
      | joinRoom c r' => cases hcall; exact .inr ⟨c, rfl⟩
      | deleteRoom r' => cases hcall; exact .inl rfl
      | _ => exact absurd hcall id
    · exact h.ops t' pc hpc
  entries := h.entries
  checked := fun c hrun => by
    obtain hrun | ⟨ho, hne⟩ := (anyAt_begun ht).mp hrun
    · exact h.checked c hrun
    · cases call <;> cases ho
      exact absurd rfl hne
  detached := fun t' room hpc => by
    simp only [lookup_begun] at hpc
    split_ifs at hpc
    · cases call <;> cases hpc
    · exact h.detached t' room hpc
  listed := fun c hc => by
    obtain hr | hrun := h.listed c hc
    · exact .inl hr
    · exact .inr ((anyAt_begun ht).mpr (.inl hrun))
  present := fun c hc => by
    obtain hr | hrun := h.present c hc
    · exact .inl hr
    · exact .inr ((anyAt_begun ht).mpr (.inl hrun))

theorem ops_moved (h : p.Agreeing r) (hpc : p.threads.lookup t = some pc)
    (hs : roomStep order p.shared pc = some (pc.after p.shared, next)) {t' : τ} {pc' : RoomPc}
    (hpc' : (p.moved t pc next).threads.lookup t' = some pc') : pc'.JoinsOrDeletes r := by
  obtain ⟨-, hpc'⟩ | ⟨rfl, rfl⟩ := lookup_moved hpc'
  · exact h.ops t' pc' hpc'
  · unfold RoomPc.JoinsOrDeletes
    rw [roomStep_op hs]
    exact h.ops t' pc hpc

theorem connections_moved (h : p.Agreeing r) (hpc : p.threads.lookup t = some pc) :
    (pc.after p.shared).connections = p.shared.connections := by
  obtain ho | ⟨d, ho⟩ := h.ops t pc hpc
  · obtain rfl | ⟨a, rfl⟩ | ⟨d, rest, rfl⟩ := delete_cases ho <;> rfl
  · obtain rfl | rfl | ⟨a, rfl⟩ | rfl := join_cases ho
    · rfl
    · exact RoomMaps.entry_connections
    · rfl
    · rfl

theorem entries_moved (h : p.Agreeing r) (hpc : p.threads.lookup t = some pc) {c : ConnectionId}
    (hc : c ∈ (pc.after p.shared).connections) : c ∈ (pc.after p.shared).connectionRooms := by
  rw [h.connections_moved hpc] at hc
  obtain hmem | rfl := mem_connectionRooms_of_after pc (h.entries c hc)
  · exact hmem
  · obtain ho | ⟨d, ho⟩ := h.ops t _ hpc <;> cases ho

theorem checked_moved (h : p.Agreeing r) (hpc : p.threads.lookup t = some pc)
    (hs : roomStep order p.shared pc = some (pc.after p.shared, next)) {c : ConnectionId}
    (hrun : (p.moved t pc next).AnyAt fun pc => pc.op = .join c r ∧ pc ≠ .joinConnections c r) :
    c ∈ (pc.after p.shared).connections := by
  rw [h.connections_moved hpc]
  obtain hrun | ⟨pc', rfl, ho, -⟩ := anyAt_moved.mp hrun
  · exact h.checked c ((anyAt_iff hpc).mpr (.inl hrun))
  · by_cases hcheck : pc = .joinConnections c r
    · subst hcheck
      simp only [roomStep] at hs
      split_ifs at hs with hc
      · exact hc
      · cases hs
    · exact h.checked c ⟨t, pc, hpc, (roomStep_op hs).symm.trans ho, hcheck⟩

theorem detached_moved (h : p.Agreeing r) (hpc : p.threads.lookup t = some pc)
    (hs : roomStep order p.shared pc = some (pc.after p.shared, next)) {t' : τ} {room : RoomArc}
    (hpc' : (p.moved t pc next).threads.lookup t' = some (.deleteMembers room)) :
    room.alloc < (pc.after p.shared).allocs := by
  refine lt_of_lt_of_le ?_ allocs_le_after
  obtain ⟨-, hpc'⟩ | ⟨rfl, rfl⟩ := lookup_moved hpc'
  · exact h.detached t' room hpc'
  · obtain ⟨i, b⟩ := room
    obtain rfl | ⟨a, rfl⟩ | ⟨d, rest, rfl⟩ := delete_cases (roomStep_op hs).symm
    · cases hr : p.shared.rooms.lookup i with
      | none => simp [roomStep, hr] at hs
      | some a =>
          simp only [roomStep, hr, Option.some.injEq, Prod.mk.injEq, Sum.inl.injEq,
            RoomPc.deleteMembers.injEq, RoomArc.mk.injEq, true_and] at hs
          obtain ⟨-, rfl⟩ := hs
          exact p.shared.alloc_lt i a hr
    · simp only [roomStep] at hs
      split_ifs at hs
      cases order <;> simp [deleteNext] at hs
    · cases rest <;> simp [roomStep, deleteNext] at hs

theorem listed_moved (h : p.Agreeing r) (hpc : p.threads.lookup t = some pc)
    (hs : roomStep order p.shared pc = some (pc.after p.shared, next))
    (hkeeps : p.KeepsAgreeing r t pc) {c : ConnectionId}
    (hmem' : c ∈ (pc.after p.shared).liveMembers r) :
    r ∈ (pc.after p.shared).index c ∨
      (p.moved t pc next).AnyAt fun pc => pc = .joinIndex c r := by
  obtain hmem | ⟨a, rfl, -⟩ := mem_liveMembers_after hmem'
  · obtain hr | hrun := h.listed c hmem
    · obtain hr | rfl | rfl | rfl | ⟨rest, rfl⟩ := mem_index_of_after pc hr
      · exact .inl hr
      · obtain ho | ⟨d, ho⟩ := h.ops t _ hpc <;> cases ho
      · obtain ho | ⟨d, ho⟩ := h.ops t _ hpc <;> cases ho
      · obtain ho | ⟨d, ho⟩ := h.ops t _ hpc <;> cases ho
      · exact .inr (anyAt_moved.mpr (.inl (hkeeps rfl hmem)))
    · obtain hrun | rfl := (anyAt_iff hpc).mp hrun
      · exact .inr (anyAt_moved.mpr (.inl hrun))
      · have hc := h.entries c (h.checked c ⟨t, _, hpc, rfl, by simp⟩)
        exact .inl (RoomMaps.mem_index_insert.mpr (.inr ⟨rfl, rfl, hc⟩))
  · cases hs
    exact .inr (anyAt_moved.mpr (.inr ⟨_, rfl, rfl⟩))

theorem present_moved (h : p.Agreeing r) (hpc : p.threads.lookup t = some pc)
    (hs : roomStep order p.shared pc = some (pc.after p.shared, next))
    (hkeeps : p.KeepsAgreeing r t pc) {c : ConnectionId} (hidx' : r ∈ (pc.after p.shared).index c) :
    c ∈ (pc.after p.shared).liveMembers r ∨
      (p.moved t pc next).AnyAt (RoomPc.unlists (pc.after p.shared) c r) := by
  have others (ho : p.OtherAt t (RoomPc.unlists p.shared c r)) :
      (p.moved t pc next).AnyAt (RoomPc.unlists (pc.after p.shared) c r) := by
    obtain ⟨t', pc', hne, hpc', hun⟩ := ho
    refine anyAt_moved.mpr (.inl ⟨t', pc', hne, hpc', unlists_after (h.ops t pc hpc) ?_ hun⟩)
    rintro room rfl
    exact h.detached t' room hpc'
  have live (hmem : c ∈ p.shared.liveMembers r) :
      c ∈ (pc.after p.shared).liveMembers r ∨
        (p.moved t pc next).AnyAt (RoomPc.unlists (pc.after p.shared) c r) := by
    obtain hmem' | ⟨a, rest, rfl⟩ | ⟨a, rfl⟩ | rfl := mem_liveMembers_of_after pc hmem
    · exact .inl hmem'
    · obtain ho | ⟨d, ho⟩ := h.ops t _ hpc <;> cases ho
    · obtain ho | ⟨d, ho⟩ := h.ops t _ hpc <;> cases ho
    · -- the room is detached with `c` in it, before the snapshot of its members
      obtain ⟨a, ha, hm⟩ := RoomMaps.mem_liveMembers_iff.mp hmem
      simp only [roomStep, ha] at hs
      cases hs
      exact .inr (anyAt_moved.mpr (.inr ⟨_, rfl, rfl, hm⟩))
  obtain hidx | ⟨rfl, -⟩ := mem_index_after hidx'
  · obtain hmem | hrun := h.present c hidx
    · exact live hmem
    · obtain hrun | hun := (anyAt_iff hpc).mp hrun
      · exact .inr (others hrun)
      · obtain ⟨pc', hn, hun'⟩ := unlists_next hs hun hidx'
        exact .inr (anyAt_moved.mpr (.inr ⟨pc', hn, hun'⟩))
  · obtain hmem | ho := hkeeps rfl
    · exact live hmem
    · exact .inr (others ho)

theorem step {p' : RoomPool τ} {act : RoomAct τ} (h : p.Agreeing r) (hstep : p.step act = some p')
    (hact : act.JoinsOrDeletes r) (hkeeps : KeepsAgreement r p act p') : p'.Agreeing r := by
  obtain ⟨t, call, rfl, ht, rfl⟩ | ⟨t, order, pc, next, rfl, hpc, hs, rfl⟩ := step_cases hstep
  · exact h.begun ht hact
  · refine ⟨fun _ _ => h.ops_moved hpc hs, ?_, ?_, ?_, ?_, ?_⟩ <;> rw [moved_shared]
    · exact fun c => h.entries_moved hpc
    · exact fun c => h.checked_moved hpc hs
    · exact fun _ _ => h.detached_moved hpc hs
    · exact fun c => h.listed_moved hpc hs (hkeeps pc hpc)
    · exact fun c => h.present_moved hpc hs (hkeeps pc hpc)

end Agreeing

/-- **Rooms and index agree**: after every run of joins and deletions of `r`, from a state in which
they agree, whose steps list no membership that is gone and unlist none that is there, once all
calls have returned, a connection is in `r` exactly when its index lists `r`. -/
theorem index_agrees (r : RoomId) (maps : RoomMaps) (hindex : maps.Indexed)
    (acts : List (RoomAct τ)) (p : RoomPool τ) (hrun : exec step (quiet maps) acts = some p)
    (hcalls : ∀ act ∈ acts, act.JoinsOrDeletes r)
    (hkeeps : Along step (KeepsAgreement r) (quiet maps) acts) (hquiet : p.Quiet)
    (c : ConnectionId) : c ∈ p.shared.liveMembers r ↔ r ∈ p.shared.index c := by
  have hagree : p.Agreeing r := by
    refine exec_invariant_along ?_ (agreeing_quiet hindex) hrun
      ((along_of_forall_mem hcalls).and hkeeps)
    intro p₁ act p₂ h₁ hstep ⟨hact, hk⟩
    exact h₁.step hstep hact hk
  constructor
  · intro hc
    obtain hr | hrun := hagree.listed c hc
    · exact hr
    · exact absurd hrun (hquiet.not_anyAt _)
  · intro hr
    obtain hc | hrun := hagree.present c hr
    · exact hc
    · exact absurd hrun (hquiet.not_anyAt _)

/-- One registered connection, in no room. -/
def aRegistered : RoomMaps where
  rooms := ∅
  members := fun _ => ∅
  allocs := 0
  connectionRooms := Finmap.insert "a" ∅ ∅
  connections := Finmap.insert "a" ⟨"a", .anonymous, 0⟩ ∅
  alloc_lt := RoomMaps.new.alloc_lt

theorem indexed_aRegistered : aRegistered.Indexed where
  member_iff := fun c r => by
    by_cases hc : c = "a" <;> simp [aRegistered, RoomMaps.liveMembers, RoomMaps.index, hc]
  same_keys := fun c => by simp only [aRegistered, Finmap.mem_insert, Finmap.notMem_empty]

/-- The room that `a` is joining is deleted before `a` is inserted. -/
def joinDuringDelete : List RoomAct :=
  [.start 0 (.joinRoom "a" "r"), .step 0 [], .step 0 [],
    .start 1 (.deleteRoom "r"), .step 1 [], .step 1 [],
    .step 0 [], .step 0 []]

/-- The room that `a` is in is deleted, and `a` joins again before its index is cleaned. -/
def rejoinDuringDelete : List RoomAct :=
  [.start 0 (.joinRoom "a" "r"), .step 0 [], .step 0 [], .step 0 [], .step 0 [],
    .start 1 (.deleteRoom "r"), .step 1 [], .step 1 ["a"],
    .start 0 (.joinRoom "a" "r"), .step 0 [], .step 0 [], .step 0 [], .step 0 [],
    .step 1 []]

/-- After the first run `a` is listed in a room that is gone; after the second it is in a room that
is not listed. -/
theorem index_disagrees_after_races :
    aRegistered.Indexed ∧ "a" ∈ aRegistered.connections ∧
      (∀ act ∈ joinDuringDelete ++ rejoinDuringDelete, act.JoinsOrDeletes "r") ∧
      (∃ p, exec step (quiet aRegistered) joinDuringDelete = some p ∧ p.Quiet ∧
        "a" ∉ p.shared.liveMembers "r" ∧ "r" ∈ p.shared.index "a") ∧
      ∃ p, exec step (quiet aRegistered) rejoinDuringDelete = some p ∧ p.Quiet ∧
        "a" ∈ p.shared.liveMembers "r" ∧ "r" ∉ p.shared.index "a" :=
  ⟨indexed_aRegistered, by decide, by decide, by decide, by decide⟩

/-- A join that holds the detached room and inserts before the snapshot. -/
def joinBeforeSnapshot : List RoomAct :=
  [.start 0 (.joinRoom "a" "r"), .step 0 [], .step 0 [],
    .start 1 (.deleteRoom "r"), .step 1 [], .step 0 [], .step 0 [], .step 1 ["a"], .step 1 []]

theorem index_agrees_joinBeforeSnapshot :
    ∃ p, exec step (quiet aRegistered) joinBeforeSnapshot = some p ∧
      ("a" ∈ p.shared.liveMembers "r" ↔ "r" ∈ p.shared.index "a") := by
  have hend : ∃ p, exec step (quiet aRegistered) joinBeforeSnapshot = some p ∧ p.Quiet := by
    decide
  obtain ⟨p, hrun, hquiet⟩ := hend
  exact ⟨p, hrun, index_agrees "r" aRegistered indexed_aRegistered _ p hrun (by decide) (by decide)
    hquiet "a"⟩

end RoomPool
end ArmatureWebsocket
