import ArmatureWebsocket.CallPool
import Mathlib.Data.Finset.Max

/-! # Guards that calls hold between their operations

A call may hold guards while it is between two of its operations: shared locks that keep others from
changing what they protect.  `Guards` says of each frame which locks it holds, and which lock its
next operation needs for itself alone.  The operation waits (`Blocked`) while any thread, itself
included, holds that lock.

Two rules follow.  What a frame's guards protect stays as it is until the frame's own next operation
(`kept_of_advance`).  And if every call takes its locks in the order of some rank, there is always a
thread in a call that does not wait (`exists_not_blocked`): of those that wait, one that waits for a
lock of the highest rank waits for a thread which does not. -/

namespace ArmatureWebsocket

/-- The locks that a frame holds, and the one that its next operation needs for itself alone. -/
structure Guards (φ κ : Type) where
  holds : φ → List κ
  takes : φ → Option κ

/-- Every call takes its locks in the order of their ranks. -/
def Guards.Ordered {φ κ ι : Type} [LT ι] (G : Guards φ κ) (rank : κ → ι) : Prop :=
  ∀ f, ∀ l ∈ G.takes f, ∀ l' ∈ G.holds f, rank l' < rank l

namespace CallPool

variable {σ τ φ ρ κ : Type} [DecidableEq τ]

/-- Some thread holds the lock. -/
def Held (p : CallPool σ τ φ ρ) (G : Guards φ κ) (l : κ) : Prop := p.AnyAt fun f => l ∈ G.holds f

/-- The next operation of the frame waits for a lock. -/
def Blocked (p : CallPool σ τ φ ρ) (G : Guards φ κ) (f : φ) : Prop := ∃ l ∈ G.takes f, p.Held G l

section

variable {p : CallPool σ τ φ ρ} {G : Guards φ κ} {f g : φ} {u : τ}

theorem notMem_holds (hfree : ¬ p.Blocked G f) (hg : p.threads.lookup u = some g) :
    ∀ l ∈ G.takes f, l ∉ G.holds g := by
  intro l hl hheld
  exact hfree ⟨l, hl, u, g, hg, hheld⟩

end

variable [DecidableEq κ]

instance (p : CallPool σ τ φ ρ) (G : Guards φ κ) (l : κ) : Decidable (p.Held G l) :=
  inferInstanceAs (Decidable (p.AnyAt _))

instance (p : CallPool σ τ φ ρ) (G : Guards φ κ) (f : φ) : Decidable (p.Blocked G f) :=
  match h : G.takes f with
  | none => .isFalse fun ⟨l, hl, _⟩ => by rw [h] at hl; cases hl
  | some l => decidable_of_iff (p.Held G l)
      ⟨fun hheld => ⟨l, h, hheld⟩, fun ⟨l', hl', hheld⟩ => by rw [h] at hl'; cases hl'; exact hheld⟩

/-- Do the next operation of a thread's call, unless it waits. -/
def advanceFree (p : CallPool σ τ φ ρ) (G : Guards φ κ) (run : σ → φ → Option (σ × (φ ⊕ ρ)))
    (t : τ) : Option (CallPool σ τ φ ρ) :=
  match p.threads.lookup t with
  | none => none
  | some f => if p.Blocked G f then none else p.advance run t

variable {p p' : CallPool σ τ φ ρ} {G : Guards φ κ} {run : σ → φ → Option (σ × (φ ⊕ ρ))} {t : τ}
  {f : φ}

theorem advanceFree_eq_some_iff :
    p.advanceFree G run t = some p' ↔
      ∃ f s next, p.threads.lookup t = some f ∧ ¬ p.Blocked G f ∧
        run p.shared f = some (s, next) ∧ p' = p.moved t f s next := by
  unfold advanceFree
  cases hf : p.threads.lookup t with
  | none => simp
  | some f =>
      show (if p.Blocked G f then none else p.advance run t) = some p' ↔ _
      split_ifs with hblocked
      · simp [hblocked]
      · rw [advance_eq_some_iff, hf]
        simp [hblocked]

/-- **What guards protect**: if a property of frames is kept by the operations that need no lock
which the frame holds, and by the frame's own operations, then an operation keeps it of all. -/
theorem kept_of_advance {Kept : σ → φ → Prop}
    (hother : ∀ s s' f g next, run s f = some (s', next) → (∀ l ∈ G.takes f, l ∉ G.holds g) →
      Kept s g → Kept s' g)
    (hself : ∀ s s' f f', run s f = some (s', .inl f') → Kept s f → Kept s' f')
    (h : ∀ u g, p.threads.lookup u = some g → Kept p.shared g)
    (hstep : p.advanceFree G run t = some p') :
    ∀ u g, p'.threads.lookup u = some g → Kept p'.shared g := by
  obtain ⟨f, s, next, hf, hfree, hrun, rfl⟩ := advanceFree_eq_some_iff.mp hstep
  intro u g hg
  rw [moved_shared]
  obtain ⟨-, hg⟩ | ⟨-, rfl⟩ := lookup_moved hg
  · exact hother _ _ _ _ _ hrun (notMem_holds hfree hg) (h u g hg)
  · exact hself _ _ _ _ hrun (h t f hf)

/-- **No deadlock**: when locks are taken in the order of a rank, some thread that is in a call does
not wait. -/
theorem exists_not_blocked {ι : Type} [LinearOrder ι] {rank : κ → ι} (hrank : G.Ordered rank)
    (hsome : ∃ t f, p.threads.lookup t = some f) :
    ∃ t f, p.threads.lookup t = some f ∧ ¬ p.Blocked G f := by
  -- The highest rank a thread waits for; a thread that needs no lock comes before all of them.
  let weight (t : τ) : WithBot ι := ((p.threads.lookup t).bind G.takes).map rank
  have hweight {t : τ} {f : φ} (hf : p.threads.lookup t = some f) :
      weight t = (G.takes f).map rank := by
    show ((p.threads.lookup t).bind G.takes).map rank = _
    rw [hf, Option.bind_some]
  have hne : p.threads.keys.Nonempty := by
    obtain ⟨t, f, hf⟩ := hsome
    exact ⟨t, Finmap.mem_keys.mpr (Finmap.mem_of_lookup_eq_some hf)⟩
  obtain ⟨t, ht, hmax⟩ := Finset.exists_max_image p.threads.keys weight hne
  obtain ⟨f, hf⟩ := Finmap.mem_iff.mp (Finmap.mem_keys.mp ht)
  by_cases hblocked : p.Blocked G f
  · obtain ⟨l, hl, u, g, hg, hheld⟩ := hblocked
    refine ⟨u, g, hg, ?_⟩
    rintro ⟨l', hl', -⟩
    have hle := hmax u (Finmap.mem_keys.mpr (Finmap.mem_of_lookup_eq_some hg))
    rw [hweight hf, hweight hg, hl, hl'] at hle
    have hlt : rank l < rank l' := hrank g l' hl' l hheld
    exact absurd (WithBot.coe_le_coe.mp hle) (not_le.mpr hlt)
  · exact ⟨t, f, hf, hblocked⟩

end CallPool
end ArmatureWebsocket
