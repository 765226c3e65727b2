import Mathlib.Data.Set.Card
import Mathlib.Data.List.Basic

/-! # Visiting places one after another

A family of values `f : K → V` is visited at some places in turn: `visit g f ks` replaces the value
at each place of `ks` by the first component of `g`, and counts the places where the second is true.

When no place is visited twice, the visits do not see each other: every visited value is `g` of the
value at the start, every other one stays (`visit_apply`), the count is the number of visited places
where `g` says true at the start (`visit_count`), and so the outcome depends on the places alone and
not on their order (`visit_congr`). -/

namespace ArmatureWebsocket

variable {K V : Type} [DecidableEq K]

/-- Visit the places in turn: the values afterwards, and how many visits succeeded. -/
def visit (g : V → V × Bool) (f : K → V) : List K → (K → V) × ℕ
  | [] => (f, 0)
  | k :: ks =>
      let rest := visit g (Function.update f k (g (f k)).1) ks
      (rest.1, rest.2 + (g (f k)).2.toNat)

variable {g : V → V × Bool} {f : K → V}

theorem visit_of_notMem {k : K} {ks : List K} (h : k ∉ ks) : (visit g f ks).1 k = f k := by
  induction ks generalizing f with
  | nil => rfl
  | cons k' ks ih =>
      rw [List.mem_cons, not_or] at h
      rw [visit, ih h.2, Function.update_of_ne h.1]

theorem visit_of_mem {k : K} {ks : List K} (hnodup : ks.Nodup) (h : k ∈ ks) :
    (visit g f ks).1 k = (g (f k)).1 := by
  induction ks generalizing f with
  | nil => cases h
  | cons k' ks ih =>
      obtain ⟨hk', hks⟩ := List.nodup_cons.mp hnodup
      rw [visit]
      by_cases he : k = k'
      · rw [he]
        show (visit g _ ks).1 k' = _
        rw [visit_of_notMem hk', Function.update_self]
      · have hmem : k ∈ ks := (List.mem_cons.mp h).resolve_left he
        show (visit g _ ks).1 k = _
        rw [ih hks hmem, Function.update_of_ne he]

theorem visit_apply {ks : List K} (hnodup : ks.Nodup) (k : K) :
    (visit g f ks).1 k = if k ∈ ks then (g (f k)).1 else f k := by
  split_ifs with h
  · exact visit_of_mem hnodup h
  · exact visit_of_notMem h

theorem visit_snd {ks : List K} (hnodup : ks.Nodup) :
    (visit g f ks).2 = ks.countP fun k => (g (f k)).2 := by
  induction ks generalizing f with
  | nil => rfl
  | cons k ks ih =>
      obtain ⟨hk, hks⟩ := List.nodup_cons.mp hnodup
      have hsame : ks.countP (fun k' => (g (Function.update f k (g (f k)).1 k')).2) =
          ks.countP fun k' => (g (f k')).2 := by
        refine List.countP_congr fun k' hk' => ?_
        have hne : k' ≠ k := fun he => hk (he ▸ hk')
        rw [Function.update_of_ne hne]
      show (visit g _ ks).2 + _ = _
      rw [ih hks, hsame, List.countP_cons]
      cases (g (f k)).2 <;> rfl

/-- The number of successes is the number of places that were visited with success. -/
theorem visit_count {ks : List K} (hnodup : ks.Nodup) :
    (visit g f ks).2 = Set.ncard {k | k ∈ ks ∧ (g (f k)).2 = true} := by
  have hset : {k | k ∈ ks ∧ (g (f k)).2 = true} =
      ((ks.filter fun k => (g (f k)).2).toFinset : Set K) := by
    ext k
    simp
  rw [visit_snd hnodup, hset, Set.ncard_coe_finset,
    List.toFinset_card_of_nodup (hnodup.filter _), List.countP_eq_length_filter]

/-- **Order does not matter**: visiting the same places once each, in any order, has one outcome. -/
theorem visit_congr {ks ks' : List K} (h : ks.Nodup) (h' : ks'.Nodup)
    (hmem : ∀ k, k ∈ ks ↔ k ∈ ks') : visit g f ks = visit g f ks' := by
  refine Prod.ext (funext fun k => ?_) ?_
  · rw [visit_apply h, visit_apply h']
    simp only [hmem]
  · rw [visit_count h, visit_count h']
    simp only [hmem]

end ArmatureWebsocket
