import Mathlib.Data.List.Basic
import Mathlib.Logic.Function.Basic

/-! # Steps of different owners in any order

`step : σ → α → Option (σ × ρ)` is a partial step function whose steps answer something, and
`owner : α → κ` says in whose name a label is.  `replay` runs labels in order and notes every label
with its answer.

When steps of different owners commute (`Commutes`), the end of a run and what every owner is
answered depend only on each owner's own order of labels (`replay_of_same_orders`).

`partStep` is the step function of a system in which every owner has a part of its own, a step reads
and changes the part of its owner, and what it does to the rest depends on that part alone.  If the
effects on the rest commute, the steps do (`commutes_partStep`). -/

namespace ArmatureWebsocket.Interleaving

variable {σ α κ ρ : Type*}

/-- Run the labels in order; every label is noted with its answer. -/
def replay (step : σ → α → Option (σ × ρ)) : σ → List α → Option (σ × List (α × ρ))
  | s, [] => some (s, [])
  | s, a :: as =>
      (step s a).bind fun next =>
        (replay step next.1 as).map fun last => (last.1, (a, next.2) :: last.2)

/-- Steps of different owners can be taken in either order, with the same answers. -/
def Commutes (step : σ → α → Option (σ × ρ)) (owner : α → κ) : Prop :=
  ∀ s a b s₁ x s₂ y, owner a ≠ owner b → step s a = some (s₁, x) → step s₁ b = some (s₂, y) →
    ∃ s₁', step s b = some (s₁', y) ∧ step s₁' a = some (s₂, x)

/-- What an owner's labels were answered. -/
def answersOf [DecidableEq κ] (owner : α → κ) (k : κ) (xs : List (α × ρ)) : List (α × ρ) :=
  xs.filter fun x => owner x.1 = k

section

variable {step : σ → α → Option (σ × ρ)} {owner : α → κ}

theorem replay_cons_iff {s s' : σ} {a : α} {as : List α} {xs : List (α × ρ)} :
    replay step s (a :: as) = some (s', xs) ↔
      ∃ s₁ x ys, step s a = some (s₁, x) ∧ replay step s₁ as = some (s', ys) ∧
        xs = (a, x) :: ys := by
  constructor
  · intro h
    obtain ⟨⟨s₁, x⟩, hstep, hrest⟩ := Option.bind_eq_some_iff.mp h
    obtain ⟨⟨s₂, ys⟩, hreplay, he⟩ := Option.map_eq_some_iff.mp hrest
    cases he
    exact ⟨s₁, x, ys, hstep, hreplay, rfl⟩
  · rintro ⟨s₁, x, ys, hstep, hreplay, rfl⟩
    apply Option.bind_eq_some_iff.mpr
    refine ⟨(s₁, x), hstep, ?_⟩
    rw [hreplay]
    rfl

variable [DecidableEq κ]

theorem replay_front (hcomm : Commutes step owner) {before after : List α} {b : α} {s s' : σ}
    {xs : List (α × ρ)} (hother : ∀ a ∈ before, owner a ≠ owner b)
    (hrun : replay step s (before ++ b :: after) = some (s', xs)) :
    ∃ ys, replay step s (b :: (before ++ after)) = some (s', ys) ∧
      ∀ k, answersOf owner k ys = answersOf owner k xs := by
  induction before generalizing s xs with
  | nil => exact ⟨xs, hrun, fun _ => rfl⟩
  | cons a before ih =>
      obtain ⟨s₁, x, xs₁, ha, hrest, rfl⟩ := replay_cons_iff.mp hrun
      have hne : owner a ≠ owner b := hother a List.mem_cons_self
      obtain ⟨ys₁, hfront, hanswers⟩ := ih (fun a' ha' => hother a' (.tail a ha')) hrest
      obtain ⟨s₂, y, zs, hb, hlast, rfl⟩ := replay_cons_iff.mp hfront
      obtain ⟨s₁', hb', ha'⟩ := hcomm s a b s₁ x s₂ y hne ha hb
      refine ⟨(b, y) :: (a, x) :: zs, ?_, fun k => ?_⟩
      · have htail : replay step s₁' (a :: (before ++ after)) = some (s', (a, x) :: zs) :=
          replay_cons_iff.mpr ⟨s₂, x, zs, ha', hlast, rfl⟩
        exact replay_cons_iff.mpr ⟨s₁', y, _, hb', htail, rfl⟩
      · have hk := hanswers k
        unfold answersOf at hk ⊢
        by_cases hak : owner a = k
        · have hbk : owner b ≠ k := fun hbk => hne (hak.trans hbk.symm)
          simp only [List.filter_cons, hak, hbk, decide_true, decide_false, if_true] at hk ⊢
          rw [← hk]
          rfl
        · simp only [List.filter_cons, hak, decide_false] at hk ⊢
          exact hk

/-- **Only each owner's own order matters**: two lists of labels in which every owner's labels stand
in the same order lead to the same state, and every owner is answered the same. -/
theorem replay_of_same_orders (hcomm : Commutes step owner) {as bs : List α}
    (hsame : ∀ k, as.filter (fun a => owner a = k) = bs.filter fun b => owner b = k) {s s' : σ}
    {xs : List (α × ρ)} (hrun : replay step s as = some (s', xs)) :
    ∃ ys, replay step s bs = some (s', ys) ∧ ∀ k, answersOf owner k ys = answersOf owner k xs := by
  induction bs generalizing as s xs with
  | nil =>
      have hnil : as = [] := by
        refine List.eq_nil_iff_forall_not_mem.mpr fun a ha => ?_
        have hmem : a ∈ as.filter fun a' => owner a' = owner a :=
          List.mem_filter.mpr ⟨ha, decide_eq_true rfl⟩
        rw [hsame] at hmem
        cases hmem
      subst hnil
      exact ⟨xs, hrun, fun _ => rfl⟩
  | cons b bs ih =>
      have hb : as.filter (fun a => owner a = owner b) =
          b :: bs.filter fun b' => owner b' = owner b := by
        rw [hsame, List.filter_cons, if_pos (decide_eq_true rfl)]
      obtain ⟨before, after, rfl, hother, -, -⟩ := List.filter_eq_cons_iff.mp hb
      have hbefore : ∀ a ∈ before, owner a ≠ owner b := fun a ha he =>
        hother a ha (decide_eq_true he)
      obtain ⟨ys, hfront, hanswers⟩ := replay_front hcomm hbefore hrun
      obtain ⟨s₁, y, ys₁, hstep, hrest, rfl⟩ := replay_cons_iff.mp hfront
      have htail : ∀ k, (before ++ after).filter (fun a => owner a = k) =
          bs.filter fun b' => owner b' = k := by
        intro k
        have hk := hsame k
        rw [List.filter_append, List.filter_cons, List.filter_cons] at hk
        rw [List.filter_append]
        by_cases hbk : owner b = k
        · have hnone : before.filter (fun a => owner a = k) = [] := by
            refine List.filter_eq_nil_iff.mpr fun a ha => ?_
            rw [← hbk]
            simpa using hbefore a ha
          rw [hnone, if_pos (decide_eq_true hbk), if_pos (decide_eq_true hbk)] at hk
          rw [hnone]
          exact (List.cons.inj hk).2
        · rwa [if_neg (by simpa using hbk), if_neg (by simpa using hbk)] at hk
      obtain ⟨zs, hreplay, hzs⟩ := ih htail hrest
      refine ⟨(b, y) :: zs, replay_cons_iff.mpr ⟨s₁, y, zs, hstep, hreplay, rfl⟩, fun k => ?_⟩
      rw [← hanswers k]
      unfold answersOf at hzs ⊢
      rw [List.filter_cons, List.filter_cons, hzs]

end

section parts

variable {π θ τ : Type*} [DecidableEq κ]

/-- The step of a system of parts: `act` reads and changes the part of the label's owner and says
what is to be done to the rest. -/
def partStep (owner : α → κ) (act : α → π → Option (π × ρ × τ)) (touch : θ → τ → θ)
    (s : (κ → π) × θ) (a : α) : Option (((κ → π) × θ) × ρ) :=
  (act a (s.1 (owner a))).map fun done =>
    ((Function.update s.1 (owner a) done.1, touch s.2 done.2.2), done.2.1)

variable {owner : α → κ} {act : α → π → Option (π × ρ × τ)} {touch : θ → τ → θ}

theorem partStep_eq_some_iff {s s' : (κ → π) × θ} {a : α} {x : ρ} :
    partStep owner act touch s a = some (s', x) ↔
      ∃ p t, act a (s.1 (owner a)) = some (p, x, t) ∧
        s' = (Function.update s.1 (owner a) p, touch s.2 t) := by
  constructor
  · intro h
    obtain ⟨⟨p, x', t⟩, hact, he⟩ := Option.map_eq_some_iff.mp h
    obtain ⟨rfl, rfl⟩ := Prod.mk.inj he
    exact ⟨p, t, hact, rfl⟩
  · rintro ⟨p, t, hact, rfl⟩
    exact Option.map_eq_some_iff.mpr ⟨(p, x, t), hact, rfl⟩

theorem exists_partStep_of_ne {s s₁ : (κ → π) × θ} {a b : α} {x : ρ} (hne : owner a ≠ owner b)
    (ha : partStep owner act touch s a = some (s₁, x))
    (hb : ∃ s' y, partStep owner act touch s b = some (s', y)) :
    ∃ s₂ y, partStep owner act touch s₁ b = some (s₂, y) := by
  obtain ⟨p, t, -, rfl⟩ := partStep_eq_some_iff.mp ha
  obtain ⟨s', y, hb⟩ := hb
  obtain ⟨q, u, hact, -⟩ := partStep_eq_some_iff.mp hb
  have hact' : act b (Function.update s.1 (owner a) p (owner b)) = some (q, y, u) := by
    rw [Function.update_of_ne hne.symm, hact]
  exact ⟨_, y, partStep_eq_some_iff.mpr ⟨q, u, hact', rfl⟩⟩

/-- Steps on different parts commute when what they do to the rest does. -/
theorem commutes_partStep
    (htouch : ∀ rest t t', touch (touch rest t) t' = touch (touch rest t') t) :
    Commutes (partStep owner act touch) owner := by
  intro s a b s₁ x s₂ y hne ha hb
  obtain ⟨p, t, hact, rfl⟩ := partStep_eq_some_iff.mp ha
  obtain ⟨q, u, hact', rfl⟩ := partStep_eq_some_iff.mp hb
  have hb' : act b (s.1 (owner b)) = some (q, y, u) := by
    rw [← hact']
    exact congrArg (act b) (Function.update_of_ne hne.symm p s.1).symm
  have ha' : act a (Function.update s.1 (owner b) q (owner a)) = some (p, x, t) := by
    rw [Function.update_of_ne hne, hact]
  refine ⟨_, partStep_eq_some_iff.mpr ⟨q, u, hb', rfl⟩,
    partStep_eq_some_iff.mpr ⟨p, t, ha', ?_⟩⟩
  rw [Function.update_comm hne, htouch]

end parts

end ArmatureWebsocket.Interleaving
