import ArmatureWebsocket.Execution
import ArmatureWebsocket.KeyMap

/-! # Threads in the middle of calls on a shared state

A call that is not atomic is a sequence of operations on the shared state, and a thread in the
middle of a call is described by a frame: the point that the call has reached.  `CallPool` holds
the shared state, the frames of the threads that are in a call, and the calls that have returned,
each with its last frame and its reply.

A thread that is in no call begins one (`begun`).  A thread in a call does the next operation,
which changes the shared state and either leads to another frame or ends the call (`moved`).
What happens to the threads is said once, for predicates on frames: `AnyAt P` and `OtherAt t P`
say that some thread, or some thread other than `t`, is at a frame satisfying `P`.

`RunsAlone` is a call that runs to its reply with no other operation in between; a pool whose
other threads wait does exactly that (`exec_of_runsAlone`). -/

namespace ArmatureWebsocket

open Execution

/-- A call that has returned: who made it, its last frame, and its reply. -/
structure Return (τ φ ρ : Type) where
  thread : τ
  frame : φ
  reply : ρ
deriving DecidableEq

/-- A shared state with threads in the middle of calls. -/
structure CallPool (σ τ φ ρ : Type) where
  shared : σ
  threads : KeyMap τ φ
  log : List (Return τ φ ρ)

namespace CallPool

variable {σ τ φ ρ : Type} [DecidableEq τ]

/-- The given shared state, with no call in progress. -/
def quiet (s : σ) : CallPool σ τ φ ρ := ⟨s, ∅, []⟩

/-- Thread `t` began a call, at frame `f`. -/
def begun (p : CallPool σ τ φ ρ) (t : τ) (f : φ) : CallPool σ τ φ ρ :=
  { p with threads := p.threads.insert t f }

/-- Thread `t` did the operation of its frame `f`: it is at the next frame, or has returned. -/
def moved (p : CallPool σ τ φ ρ) (t : τ) (f : φ) (s : σ) : φ ⊕ ρ → CallPool σ τ φ ρ
  | .inl f' => { p with shared := s, threads := p.threads.insert t f' }
  | .inr reply => ⟨s, p.threads.erase t, p.log ++ [⟨t, f, reply⟩]⟩

/-- Begin a call, unless the thread is in one. -/
def start (p : CallPool σ τ φ ρ) (t : τ) (f : φ) : Option (CallPool σ τ φ ρ) :=
  match p.threads.lookup t with
  | none => some (p.begun t f)
  | some _ => none

/-- Do the next operation of a thread's call; `run` says what the operations do. -/
def advance (p : CallPool σ τ φ ρ) (run : σ → φ → Option (σ × (φ ⊕ ρ))) (t : τ) :
    Option (CallPool σ τ φ ρ) :=
  match p.threads.lookup t with
  | none => none
  | some f =>
      match run p.shared f with
      | none => none
      | some (s, next) => some (p.moved t f s next)

/-- The call at frame `f` runs to its reply with no other operation in between. -/
inductive RunsAlone (run : σ → φ → Option (σ × (φ ⊕ ρ))) : σ → φ → σ → ρ → Prop
  | reply {s s' : σ} {f : φ} {reply : ρ} :
      run s f = some (s', .inr reply) → RunsAlone run s f s' reply
  | goto {s s₁ s' : σ} {f f' : φ} {reply : ρ} :
      run s f = some (s₁, .inl f') → RunsAlone run s₁ f' s' reply → RunsAlone run s f s' reply

/-- Some thread is at a frame that satisfies `P`. -/
def AnyAt (p : CallPool σ τ φ ρ) (P : φ → Prop) : Prop :=
  ∃ t f, p.threads.lookup t = some f ∧ P f

/-- Some thread other than `t` is at a frame that satisfies `P`. -/
def OtherAt (p : CallPool σ τ φ ρ) (t : τ) (P : φ → Prop) : Prop :=
  ∃ t' f, t' ≠ t ∧ p.threads.lookup t' = some f ∧ P f

/-- No call is in progress. -/
def Quiet (p : CallPool σ τ φ ρ) : Prop := p.threads.keys = ∅

instance (p : CallPool σ τ φ ρ) : Decidable p.Quiet := inferInstanceAs (Decidable (_ = _))

instance (p : CallPool σ τ φ ρ) (P : φ → Prop) [DecidablePred P] : Decidable (p.AnyAt P) :=
  decidable_of_iff
    (∃ t ∈ p.threads.keys, (p.threads.lookup t).any (fun f => decide (P f)) = true)
    ⟨fun ⟨t, _, h⟩ => by
      obtain ⟨f, hf, hP⟩ := (Option.any_eq_true _ _).mp h
      exact ⟨t, f, hf, of_decide_eq_true hP⟩,
    fun ⟨t, f, hf, hP⟩ =>
      ⟨t, Finmap.mem_keys.mpr (Finmap.mem_of_lookup_eq_some hf),
        by rw [hf]; exact decide_eq_true hP⟩⟩

instance (p : CallPool σ τ φ ρ) (t : τ) (P : φ → Prop) [DecidablePred P] :
    Decidable (p.OtherAt t P) :=
  decidable_of_iff
    (∃ t' ∈ p.threads.keys, t' ≠ t ∧ (p.threads.lookup t').any (fun f => decide (P f)) = true)
    ⟨fun ⟨t', _, hne, h⟩ => by
      obtain ⟨f, hf, hP⟩ := (Option.any_eq_true _ _).mp h
      exact ⟨t', f, hne, hf, of_decide_eq_true hP⟩,
    fun ⟨t', f, hne, hf, hP⟩ =>
      ⟨t', Finmap.mem_keys.mpr (Finmap.mem_of_lookup_eq_some hf), hne,
        by rw [hf]; exact decide_eq_true hP⟩⟩

variable {p p' : CallPool σ τ φ ρ} {t t' : τ} {f f' : φ} {s : σ} {next : φ ⊕ ρ}

theorem start_eq_some_iff :
    p.start t f = some p' ↔ p.threads.lookup t = none ∧ p' = p.begun t f := by
  unfold start
  cases p.threads.lookup t <;> simp [eq_comm]

theorem advance_eq_some_iff {run : σ → φ → Option (σ × (φ ⊕ ρ))} :
    p.advance run t = some p' ↔
      ∃ f s next, p.threads.lookup t = some f ∧ run p.shared f = some (s, next) ∧
        p' = p.moved t f s next := by
  unfold advance
  constructor
  · intro h
    cases hf : p.threads.lookup t with
    | none => simp [hf] at h
    | some f =>
        cases hr : run p.shared f with
        | none => simp [hf, hr] at h
        | some res =>
            simp only [hf, hr, Option.some.injEq] at h
            exact ⟨f, res.1, res.2, rfl, hr, h.symm⟩
  · rintro ⟨f, s, next, hf, hr, rfl⟩
    simp [hf, hr]

/-! ### Shared state and log -/

@[simp] theorem moved_shared : (p.moved t f s next).shared = s := by
  cases next <;> rfl

theorem mem_log_moved {e : Return τ φ ρ} :
    e ∈ (p.moved t f s next).log ↔
      e ∈ p.log ∨ ∃ reply, next = .inr reply ∧ e = ⟨t, f, reply⟩ := by
  cases next with
  | inl f' => simp [moved]
  | inr reply => simp [moved]

/-! ### Threads -/

@[simp] theorem lookup_quiet : (quiet s : CallPool σ τ φ ρ).threads.lookup t = none := by
  simp [quiet]

theorem not_anyAt_quiet {P : φ → Prop} : ¬ (quiet s : CallPool σ τ φ ρ).AnyAt P := by
  rintro ⟨t, f, hf, -⟩
  rw [lookup_quiet] at hf
  cases hf

theorem Quiet.not_anyAt (h : p.Quiet) (P : φ → Prop) : ¬ p.AnyAt P := by
  rintro ⟨t, f, hf, -⟩
  have ht : t ∈ p.threads.keys := Finmap.mem_keys.mpr (Finmap.mem_of_lookup_eq_some hf)
  rw [h] at ht
  exact Finset.notMem_empty t ht

theorem Quiet.lookup_eq_none (h : p.Quiet) (t : τ) : p.threads.lookup t = none := by
  rw [Finmap.lookup_eq_none, ← Finmap.mem_keys, h]
  exact Finset.notMem_empty t

theorem AnyAt.mono {P Q : φ → Prop} (h : p.AnyAt P) (hPQ : ∀ f, P f → Q f) : p.AnyAt Q := by
  obtain ⟨t, f, hf, hP⟩ := h
  exact ⟨t, f, hf, hPQ f hP⟩

theorem OtherAt.mono {P Q : φ → Prop} (h : p.OtherAt t P) (hPQ : ∀ f, P f → Q f) :
    p.OtherAt t Q := by
  obtain ⟨t', f, hne, hf, hP⟩ := h
  exact ⟨t', f, hne, hf, hPQ f hP⟩

theorem lookup_begun :
    (p.begun t f).threads.lookup t' = if t' = t then some f else p.threads.lookup t' :=
  KeyMap.lookup_insert_ite _ _ _ _

/-- The other threads stay where they are, and the one that moves goes to the next frame. -/
theorem lookup_moved (h : (p.moved t f s next).threads.lookup t' = some f') :
    t' ≠ t ∧ p.threads.lookup t' = some f' ∨ t' = t ∧ next = .inl f' := by
  by_cases ht : t' = t
  · subst ht
    cases next with
    | inl f₁ =>
        have he : f₁ = f' := by simpa [moved] using h
        exact .inr ⟨rfl, by rw [he]⟩
    | inr reply => simp [moved] at h
  · refine .inl ⟨ht, ?_⟩
    cases next <;> simpa [moved, ht] using h

/-- An operation of one thread leaves the other threads where they are. -/
theorem lookup_moved_of_ne (h : t' ≠ t) :
    (p.moved t f s next).threads.lookup t' = p.threads.lookup t' := by
  cases next <;> simp [moved, h]

/-- The thread that moves is at the next frame, or in no call. -/
theorem lookup_moved_self :
    (p.moved t f s next).threads.lookup t = next.elim some fun _ => none := by
  cases next <;> simp [moved]

/-- Either the thread at hand is at such a frame, or another one is. -/
theorem anyAt_iff {P : φ → Prop} (hf : p.threads.lookup t = some f) :
    p.AnyAt P ↔ p.OtherAt t P ∨ P f := by
  constructor
  · rintro ⟨t', f', hf', hP⟩
    by_cases ht : t' = t
    · subst ht
      rw [hf] at hf'
      cases hf'
      exact .inr hP
    · exact .inl ⟨t', f', ht, hf', hP⟩
  · rintro (⟨t', f', -, hf', hP⟩ | hP)
    · exact ⟨t', f', hf', hP⟩
    · exact ⟨t, f, hf, hP⟩

theorem anyAt_begun {P : φ → Prop} (ht : p.threads.lookup t = none) :
    (p.begun t f).AnyAt P ↔ p.AnyAt P ∨ P f := by
  constructor
  · rintro ⟨t', f', hf', hP⟩
    rw [lookup_begun] at hf'
    split_ifs at hf' with h
    · cases hf'
      exact .inr hP
    · exact .inl ⟨t', f', hf', hP⟩
  · rintro (⟨t', f', hf', hP⟩ | hP)
    · have hne : t' ≠ t := by rintro rfl; rw [ht] at hf'; cases hf'
      exact ⟨t', f', by rw [lookup_begun, if_neg hne]; exact hf', hP⟩
    · exact ⟨t, f, by rw [lookup_begun, if_pos rfl], hP⟩

theorem anyAt_moved {P : φ → Prop} :
    (p.moved t f s next).AnyAt P ↔ p.OtherAt t P ∨ ∃ f', next = .inl f' ∧ P f' := by
  constructor
  · rintro ⟨t', f', hf', hP⟩
    obtain ⟨hne, hf'⟩ | ⟨rfl, hn⟩ := lookup_moved hf'
    · exact .inl ⟨t', f', hne, hf', hP⟩
    · exact .inr ⟨f', hn, hP⟩
  · rintro (⟨t', f', hne, hf', hP⟩ | ⟨f', rfl, hP⟩)
    · refine ⟨t', f', ?_, hP⟩
      cases next <;> simpa [moved, hne] using hf'
    · exact ⟨t, f', by simp [moved], hP⟩

end CallPool
end ArmatureWebsocket
