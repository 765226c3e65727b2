import Mathlib.Algebra.BigOperators.Ring.Finset
import Mathlib.Algebra.Order.BigOperators.Group.Finset
import Mathlib.Data.Finmap

/-! # Finite maps with the operations of a concurrent hash map

`KeyMap K V` is Mathlib's `Finmap` at a constant family.  On top of `lookup`, `insert` and
`erase` come the compound operations that a concurrent map offers as one atomic step:

* `modify m k f`: update the value stored under `k`, when there is one (a locked `get_mut`);
* `getOrInsert m k v`: store `v` under `k` unless the key is present (`entry(k).or_insert(v)`);
* `removeIf m k p`: remove the entry of `k` when there is one and its value satisfies `p`.

Each has one lemma that says what `lookup` answers afterwards, stated for an arbitrary key.

`total` adds up a quantity of the values, so that what one entry gains or loses the map does. -/

namespace ArmatureWebsocket

/-- Finite maps from `K` to `V`. -/
abbrev KeyMap (K V : Type) := Finmap fun _ : K => V

namespace KeyMap

variable {K V : Type} [DecidableEq K]

/-- Update the value stored under `k`, when there is one. -/
def modify (m : KeyMap K V) (k : K) (f : V → V) : KeyMap K V :=
  match m.lookup k with
  | none => m
  | some v => m.insert k (f v)

/-- Store `v` under `k` unless the key is present. -/
def getOrInsert (m : KeyMap K V) (k : K) (v : V) : KeyMap K V :=
  match m.lookup k with
  | none => m.insert k v
  | some _ => m

/-- Remove the entry of `k` when there is one and its value satisfies `p`. -/
def removeIf (m : KeyMap K V) (k : K) (p : V → Bool) : KeyMap K V :=
  match m.lookup k with
  | none => m
  | some v => if p v then m.erase k else m

@[simp] theorem lookup_insert_ite (m : KeyMap K V) (k k' : K) (v : V) :
    (m.insert k v).lookup k' = if k' = k then some v else m.lookup k' := by
  by_cases h : k' = k
  · rw [if_pos h, h, Finmap.lookup_insert]
  · rw [if_neg h, Finmap.lookup_insert_of_ne m h]

@[simp] theorem lookup_erase_ite (m : KeyMap K V) (k k' : K) :
    (m.erase k).lookup k' = if k' = k then none else m.lookup k' := by
  by_cases h : k' = k
  · rw [if_pos h, h, Finmap.lookup_erase]
  · rw [if_neg h, Finmap.lookup_erase_ne h]

@[simp] theorem lookup_modify (m : KeyMap K V) (k k' : K) (f : V → V) :
    (m.modify k f).lookup k' = if k' = k then (m.lookup k').map f else m.lookup k' := by
  unfold modify
  by_cases h : k' = k
  · subst h
    cases hk : m.lookup k' <;> simp [hk]
  · cases hk : m.lookup k <;> simp [h]

@[simp] theorem lookup_getOrInsert (m : KeyMap K V) (k k' : K) (v : V) :
    (m.getOrInsert k v).lookup k' =
      if k' = k then some ((m.lookup k').getD v) else m.lookup k' := by
  unfold getOrInsert
  by_cases h : k' = k
  · subst h
    cases hk : m.lookup k' <;> simp [hk]
  · cases hk : m.lookup k <;> simp [h]

@[simp] theorem lookup_removeIf (m : KeyMap K V) (k k' : K) (p : V → Bool) :
    (m.removeIf k p).lookup k' =
      if k' = k then (m.lookup k').filter (fun v => !p v) else m.lookup k' := by
  unfold removeIf
  by_cases h : k' = k
  · subst h
    cases hk : m.lookup k' with
    | none => simp [hk]
    | some v => cases hp : p v <;> simp [hk, hp, Option.filter]
  · cases hk : m.lookup k with
    | none => simp [h]
    | some v => cases hp : p v <;> simp [h, hp]

theorem erase_eq_self {m : KeyMap K V} {k : K} (h : m.lookup k = none) : m.erase k = m := by
  refine Finmap.ext_lookup fun k' => ?_
  rw [lookup_erase_ite]
  split_ifs with hk
  · rw [hk, h]
  · rfl

theorem mem_modify {m : KeyMap K V} {k k' : K} {f : V → V} :
    k' ∈ m.modify k f ↔ k' ∈ m := by
  rw [← Finmap.lookup_isSome, ← Finmap.lookup_isSome, lookup_modify]
  split_ifs <;> simp

/-- `xs` lists the elements of the finite set `s`, each once: an order in which an unordered
collection may hand them out. -/
def Enumerates {α : Type} [DecidableEq α] (xs : List α) (s : Finset α) : Prop :=
  xs.Nodup ∧ xs.toFinset = s

instance {α : Type} [DecidableEq α] (xs : List α) (s : Finset α) : Decidable (Enumerates xs s) :=
  inferInstanceAs (Decidable (_ ∧ _))

theorem Enumerates.mem_iff {α : Type} [DecidableEq α] {xs : List α} {s : Finset α}
    (h : Enumerates xs s) {a : α} : a ∈ xs ↔ a ∈ s := by
  rw [← h.2, List.mem_toFinset]

/-- Every finite set has an enumeration. -/
theorem exists_enumerates {α : Type} [DecidableEq α] (s : Finset α) :
    ∃ xs : List α, Enumerates xs s :=
  ⟨s.toList, s.nodup_toList, s.toList_toFinset⟩

/-- The sum of a quantity over the values of a map. -/
def total (m : KeyMap K V) (f : V → ℕ) : ℕ := ∑ k ∈ m.keys, (m.lookup k).elim 0 f

/-- One value apart, the sum is that over the others. -/
theorem total_of_lookup {m : KeyMap K V} {k : K} {v : V} (h : m.lookup k = some v) (f : V → ℕ) :
    m.total f = f v + total (m.erase k) f := by
  have hk : k ∈ m.keys := Finmap.mem_keys.mpr (Finmap.mem_of_lookup_eq_some h)
  have hrest : total (m.erase k) f = ∑ k' ∈ m.keys.erase k, (m.lookup k').elim 0 f := by
    unfold total
    rw [Finmap.keys_erase]
    refine Finset.sum_congr rfl fun k' hk' => ?_
    rw [lookup_erase_ite, if_neg (Finset.ne_of_mem_erase hk')]
  have hself : (m.lookup k).elim 0 f = f v := by
    rw [h]
    rfl
  rw [hrest, ← hself]
  exact (Finset.add_sum_erase _ _ hk).symm

theorem total_insert (m : KeyMap K V) (k : K) (v : V) (f : V → ℕ) :
    total (m.insert k v) f = f v + total (m.erase k) f := by
  have herase : (m.insert k v).erase k = m.erase k := by
    refine Finmap.ext_lookup fun k' => ?_
    rw [lookup_erase_ite, lookup_erase_ite, lookup_insert_ite]
    split_ifs <;> rfl
  rw [total_of_lookup (Finmap.lookup_insert m), herase]

/-- A quantity that is small for every value is small in total. -/
theorem total_le {m : KeyMap K V} {f g : V → ℕ} (h : ∀ k v, m.lookup k = some v → f v ≤ g v) :
    m.total f ≤ m.total g := by
  refine Finset.sum_le_sum fun k _ => ?_
  cases hk : m.lookup k with
  | none => exact Nat.le_refl 0
  | some v => exact h k v hk

theorem total_ite (m : KeyMap K V) (p : V → Bool) (n : ℕ) :
    m.total (fun v => if p v = true then n else 0)
      = n * (m.keys.filter fun k => (m.lookup k).any p).card := by
  unfold total
  rw [Finset.card_filter, Finset.mul_sum]
  refine Finset.sum_congr rfl fun k _ => ?_
  cases m.lookup k with
  | none => simp
  | some v => simp

end KeyMap
end ArmatureWebsocket
