import Mathlib.Algebra.Ring.Nat
import Mathlib.Data.List.Basic

/-! # Runs of labelled step functions

A system is a partial step function `step : σ → α → Option σ`: the label carries every choice
the system makes (which party moves, what it was asked to do, in which order an unordered
collection is visited), so one label determines at most one next state.

* `exec step s as` runs the labels `as` from `s`; `none` when a label is not enabled.
* `Along step Q s as` says that `Q s₁ a s₂` holds of every step `s₁ -a-> s₂` of that run.

The rules are the usual ones: an invariant of the steps is an invariant of the runs
(`exec_invariant`), possibly under a condition on every step taken (`exec_invariant_along`), two
step conditions that agree under an invariant agree along runs (`along_congr`), and a simulation of
the steps is one of the runs (`exec_simulation`). -/

namespace ArmatureWebsocket.Execution

variable {σ α : Type*} {step : σ → α → Option σ}

/-- Runs the labels in order; `none` when one of them is not enabled in its turn. -/
def exec (step : σ → α → Option σ) : σ → List α → Option σ
  | s, [] => some s
  | s, a :: as => (step s a).bind fun s' => exec step s' as

/-- `Q` holds of every step of the run of `as` from `s`. -/
def Along (step : σ → α → Option σ) (Q : σ → α → σ → Prop) : σ → List α → Prop
  | _, [] => True
  | s, a :: as => ∀ s', step s a = some s' → Q s a s' ∧ Along step Q s' as

instance decidableAlong {Q : σ → α → σ → Prop} [∀ s a s', Decidable (Q s a s')] :
    ∀ (s : σ) (as : List α), Decidable (Along step Q s as)
  | _, [] => .isTrue trivial
  | s, a :: as =>
      match hs : step s a with
      | none => .isTrue fun s' h => by rw [hs] at h; cases h
      | some s' =>
          have : Decidable (Along step Q s' as) := decidableAlong s' as
          decidable_of_iff (Q s a s' ∧ Along step Q s' as)
            ⟨fun h s₁ h₁ => by rw [hs] at h₁; cases h₁; exact h, fun h => h s' hs⟩

/-- A condition on the value of an option can be evaluated. -/
instance decidableForallMem {α : Type} (o : Option α) (P : α → Prop) [DecidablePred P] :
    Decidable (∀ a ∈ o, P a) :=
  match o with
  | none => .isTrue fun _ h => by cases h
  | some a => decidable_of_iff (P a) ⟨fun h _ ha => by cases ha; exact h, fun h => h a rfl⟩

/-- What the end of a run satisfies can be evaluated. -/
instance decidableEnd (last : Option σ) (P : σ → Prop) [DecidablePred P] :
    Decidable (∃ s, last = some s ∧ P s) :=
  match last with
  | none => .isFalse fun ⟨_, h, _⟩ => by cases h
  | some s => decidable_of_iff (P s) ⟨fun h => ⟨s, rfl, h⟩, fun ⟨_, h, hP⟩ => by cases h; exact hP⟩

theorem exec_cons (s : σ) (a : α) (as : List α) :
    exec step s (a :: as) = (step s a).bind fun s' => exec step s' as := rfl

theorem exec_cons_iff {s s'' : σ} {a : α} {as : List α} :
    exec step s (a :: as) = some s'' ↔ ∃ s', step s a = some s' ∧ exec step s' as = some s'' := by
  rw [exec_cons, Option.bind_eq_some_iff]

theorem exec_append (s : σ) (as bs : List α) :
    exec step s (as ++ bs) = (exec step s as).bind fun s' => exec step s' bs := by
  induction as generalizing s with
  | nil => rfl
  | cons a as ih =>
      rw [List.cons_append, exec_cons, exec_cons]
      cases step s a with
      | none => rfl
      | some s' => exact ih s'

theorem exec_trans {s s' s'' : σ} {as bs : List α} (h₁ : exec step s as = some s')
    (h₂ : exec step s' bs = some s'') : exec step s (as ++ bs) = some s'' := by
  rw [exec_append, h₁]
  exact h₂

theorem along_cons_iff {Q : σ → α → σ → Prop} {s s' : σ} {a : α} {as : List α}
    (hs : step s a = some s') : Along step Q s (a :: as) ↔ Q s a s' ∧ Along step Q s' as := by
  constructor
  · intro h
    exact h s' hs
  · intro h s₂ hs₂
    rw [hs] at hs₂
    cases hs₂
    exact h

theorem along_append {Q : σ → α → σ → Prop} {s s' : σ} {as bs : List α}
    (h : Along step Q s (as ++ bs)) (hrun : exec step s as = some s') : Along step Q s' bs := by
  induction as generalizing s with
  | nil =>
      cases hrun
      exact h
  | cons a as ih =>
      obtain ⟨s₁, h₁, h₂⟩ := exec_cons_iff.mp hrun
      exact ih (h s₁ h₁).2 h₂

theorem along_of_forall_mem {L : α → Prop} {s : σ} {as : List α} (h : ∀ a ∈ as, L a) :
    Along step (fun _ a _ => L a) s as := by
  induction as generalizing s with
  | nil => trivial
  | cons a as ih =>
      intro s' _
      exact ⟨h a List.mem_cons_self, ih fun b hb => h b (List.mem_cons_of_mem a hb)⟩

theorem Along.and {Q Q' : σ → α → σ → Prop} {s : σ} {as : List α} (h : Along step Q s as)
    (h' : Along step Q' s as) : Along step (fun s a s' => Q s a s' ∧ Q' s a s') s as := by
  induction as generalizing s with
  | nil => trivial
  | cons a as ih =>
      intro s' hs
      obtain ⟨hq, hr⟩ := h s' hs
      obtain ⟨hq', hr'⟩ := h' s' hs
      exact ⟨⟨hq, hq'⟩, ih hr hr'⟩

/-- **Conditional invariants**: what every step taken under the condition `Q` preserves holds at
the end of every run all of whose steps satisfy `Q`. -/
theorem exec_invariant_along {P : σ → Prop} {Q : σ → α → σ → Prop}
    (hstep : ∀ s a s', P s → step s a = some s' → Q s a s' → P s') {s s' : σ} {as : List α}
    (hs : P s) (hrun : exec step s as = some s') (hQ : Along step Q s as) : P s' := by
  induction as generalizing s with
  | nil =>
      cases hrun
      exact hs
  | cons a as ih =>
      obtain ⟨s₁, h₁, h₂⟩ := exec_cons_iff.mp hrun
      obtain ⟨hq, hrest⟩ := hQ s₁ h₁
      exact ih (hstep s a s₁ hs h₁ hq) h₂ hrest

/-- **Invariants**: what every step preserves holds at the end of every run. -/
theorem exec_invariant {P : σ → Prop} (hstep : ∀ s a s', P s → step s a = some s' → P s')
    {s s' : σ} {as : List α} (hs : P s) (hrun : exec step s as = some s') : P s' := by
  induction as generalizing s with
  | nil =>
      cases hrun
      exact hs
  | cons a as ih =>
      obtain ⟨s₁, h₁, h₂⟩ := exec_cons_iff.mp hrun
      exact ih (hstep s a s₁ hs h₁) h₂

/-- **Invariants with a history**: what every step preserves of the state together with the labels
taken so far holds at the end of every run. -/
theorem exec_history {P : List α → σ → Prop}
    (hstep : ∀ as s a s', P as s → step s a = some s' → P (as ++ [a]) s') {s s' : σ} {as : List α}
    (hs : P [] s) (hrun : exec step s as = some s') : P as s' := by
  have h : ∀ bs s, P bs s → exec step s as = some s' → P (bs ++ as) s' := by
    clear hs hrun
    intro bs s₁ h₁ hrun₁
    induction as generalizing bs s₁ with
    | nil =>
        cases hrun₁
        rw [List.append_nil]
        exact h₁
    | cons a as ih =>
        obtain ⟨s₂, h₂, hrest⟩ := exec_cons_iff.mp hrun₁
        have h := ih (bs ++ [a]) s₂ (hstep bs s₁ a s₂ h₁ h₂) hrest
        rwa [List.append_assoc] at h
  exact h [] s hs hrun

theorem along_of_invariant {P : σ → Prop} {Q : σ → α → σ → Prop}
    (hstep : ∀ s a s', P s → step s a = some s' → P s' ∧ Q s a s') {s : σ} {as : List α}
    (hs : P s) : Along step Q s as := by
  induction as generalizing s with
  | nil => trivial
  | cons a as ih =>
      intro s' h
      obtain ⟨hs', hq⟩ := hstep s a s' hs h
      exact ⟨hq, ih hs'⟩

theorem along_congr {P : σ → Prop} {Q Q' : σ → α → σ → Prop}
    (hinv : ∀ s a s', P s → step s a = some s' → P s')
    (hQ : ∀ s a s', P s → step s a = some s' → (Q s a s' ↔ Q' s a s')) {s : σ} {as : List α}
    (hs : P s) : Along step Q s as ↔ Along step Q' s as := by
  induction as generalizing s with
  | nil => exact Iff.rfl
  | cons a as ih =>
      refine forall_congr' fun s' => forall_congr' fun h => ?_
      exact and_congr (hQ s a s' hs h) (ih (hinv s a s' hs h))

theorem exec_iff_along {P : σ → Prop} {Q : σ → α → σ → Prop}
    (hstep : ∀ s a s', step s a = some s' → (P s' ↔ P s ∧ Q s a s')) {s s' : σ} {as : List α}
    (hrun : exec step s as = some s') : P s' ↔ P s ∧ Along step Q s as := by
  induction as generalizing s with
  | nil =>
      cases hrun
      exact (and_iff_left trivial).symm
  | cons a as ih =>
      obtain ⟨s₁, h₁, h₂⟩ := exec_cons_iff.mp hrun
      rw [ih h₂, hstep s a s₁ h₁, along_cons_iff h₁, and_assoc]

theorem along_iff_of_kept {I B : σ → Prop} {Q R : σ → α → σ → Prop}
    (hstep : ∀ s a s', I s → B s → step s a = some s' → R s a s' → I s' ∧ (B s' ↔ Q s a s'))
    {s : σ} {as : List α} (hI : I s) (hB : B s) (hR : Along step R s as) :
    Along step (fun _ _ s' => B s') s as ↔ Along step Q s as := by
  induction as generalizing s with
  | nil => exact Iff.rfl
  | cons a as ih =>
      refine forall_congr' fun s' => forall_congr' fun hs => ?_
      obtain ⟨hr, hrest⟩ := hR s' hs
      obtain ⟨hI', hiff⟩ := hstep s a s' hI hB hs hr
      constructor
      · rintro ⟨hB', hall⟩
        exact ⟨hiff.mp hB', (ih hI' hB' hrest).mp hall⟩
      · rintro ⟨hQ, hall⟩
        exact ⟨hiff.mpr hQ, (ih hI' (hiff.mpr hQ) hrest).mpr hall⟩

/-- **Simulation**: if each step can be followed by another system with a step of its own or with
none, so that the two stay related, then every run is followed by a run. -/
theorem exec_simulation {τ β : Type*} {step' : τ → β → Option τ} {R : σ → τ → Prop} {as : List α}
    (hstep : ∀ a ∈ as, ∀ s s' t, R s t → step s a = some s' →
      R s' t ∨ ∃ b t', step' t b = some t' ∧ R s' t') {s s' : σ} {t : τ} (hs : R s t)
    (hrun : exec step s as = some s') : ∃ bs t', exec step' t bs = some t' ∧ R s' t' := by
  induction as generalizing s t with
  | nil =>
      cases hrun
      exact ⟨[], t, rfl, hs⟩
  | cons a as ih =>
      obtain ⟨s₁, h₁, h₂⟩ := exec_cons_iff.mp hrun
      have hrest := fun a ha => hstep a (List.mem_cons_of_mem _ ha)
      obtain hs₁ | ⟨b, t₁, hb, hs₁⟩ := hstep a List.mem_cons_self s s₁ t hs h₁
      · exact ih hrest hs₁ h₂
      · obtain ⟨bs, t', hbs, ht'⟩ := ih hrest hs₁ h₂
        exact ⟨b :: bs, t', exec_cons_iff.mpr ⟨t₁, hb, hbs⟩, ht'⟩

/-- **Potentials with gains**: if, under the condition `Q`, a step raises a potential by its gain at
most, and a counted one by one less, a run of such steps has at most as many counted ones as the
potential has lost and the steps have gained. -/
theorem countP_add_le_gain {P : σ → Prop} {Q : σ → α → σ → Prop} (φ : σ → ℕ) (counted : α → Bool)
    (gain : α → ℕ)
    (hstep : ∀ s a s', P s → step s a = some s' → Q s a s' →
      P s' ∧ φ s' + (if counted a = true then 1 else 0) ≤ φ s + gain a) {s s' : σ} {as : List α}
    (hs : P s) (hrun : exec step s as = some s') (hQ : Along step Q s as) :
    as.countP counted + φ s' ≤ φ s + (as.map gain).sum := by
  induction as generalizing s with
  | nil =>
      cases hrun
      exact Nat.le_of_eq (Nat.add_comm _ _)
  | cons a as ih =>
      obtain ⟨s₁, h₁, h₂⟩ := exec_cons_iff.mp hrun
      obtain ⟨hq, hrest⟩ := hQ s₁ h₁
      obtain ⟨hs₁, hφ⟩ := hstep s a s₁ hs h₁ hq
      have hle := ih hs₁ h₂ hrest
      rw [List.countP_cons, List.map_cons, List.sum_cons]
      omega

/-- **Potentials**: if, under the condition `Q`, the counted steps lower a potential and the others
do not raise it, a run of such steps has at most as many of the counted ones as the potential has
lost. -/
theorem countP_add_le_along {P : σ → Prop} {Q : σ → α → σ → Prop} (φ : σ → ℕ) (counted : α → Bool)
    (hstep : ∀ s a s', P s → step s a = some s' → Q s a s' →
      P s' ∧ φ s' + (if counted a = true then 1 else 0) ≤ φ s) {s s' : σ} {as : List α}
    (hs : P s) (hrun : exec step s as = some s') (hQ : Along step Q s as) :
    as.countP counted + φ s' ≤ φ s := by
  have hle := countP_add_le_gain φ counted (fun _ => 0) hstep hs hrun hQ
  simpa using hle

theorem countP_add_le {P : σ → Prop} (φ : σ → ℕ) (counted : α → Bool)
    (hstep : ∀ s a s', P s → step s a = some s' →
      P s' ∧ φ s' + (if counted a = true then 1 else 0) ≤ φ s) {s s' : σ} {as : List α}
    (hs : P s) (hrun : exec step s as = some s') : as.countP counted + φ s' ≤ φ s := by
  have hall : Along step (fun _ _ _ => True) s as :=
    along_of_forall_mem (L := fun _ => True) fun _ _ => trivial
  exact countP_add_le_along φ counted (fun s a s' h hs _ => hstep s a s' h hs) hs hrun hall

end ArmatureWebsocket.Execution
