import Mathlib.Data.List.TakeDrop
import Mathlib.Data.List.Basic

/-! # Relays

A relay takes items from a queue in order and gives them to a sink.  It drops the items that do not
pass, and it stops after an item that is a last one, after a refusal of the sink, or when the queue
has come to its end.

`Relay.due` is what a relay gives to a sink that refuses nothing, as a function of the queue, and
`taken` and `offered` cut it where the sink refuses.  `Relay.Holds` says where a relay stands that
works item by item; it is kept by each thing a relay does, and what was handed over is a part of
`taken` in front, and all of it in the end (`Holds.isPrefix`, `Holds.ended`, `Holds.exhausted`). -/

namespace ArmatureWebsocket

/-- What a sink takes of the items it is given one after the other, if it refuses the one with that
index. -/
def taken {α : Type*} (failsAt : Option ℕ) (xs : List α) : List α :=
  match failsAt with
  | none => xs
  | some k => xs.take k

/-- What it is given: also the one that it refuses. -/
def offered {α : Type*} (failsAt : Option ℕ) (xs : List α) : List α :=
  match failsAt with
  | none => xs
  | some k => xs.take (k + 1)

section sink

variable {α β : Type*} {failsAt : Option ℕ} {xs ys : List α}

theorem taken_eq_self (h : ∀ k ∈ failsAt, xs.length ≤ k) : taken failsAt xs = xs := by
  cases failsAt with
  | none => rfl
  | some k => exact List.take_of_length_le (h k rfl)

theorem offered_eq_self (h : ∀ k ∈ failsAt, xs.length ≤ k) : offered failsAt xs = xs := by
  cases failsAt with
  | none => rfl
  | some k => exact List.take_of_length_le (Nat.le_succ_of_le (h k rfl))

theorem isPrefix_taken_append (h : ∀ k ∈ failsAt, xs.length ≤ k) :
    xs <+: taken failsAt (xs ++ ys) := by
  cases failsAt with
  | none => exact List.prefix_append xs ys
  | some k =>
      have hle : xs.length ≤ k := h k rfl
      rw [taken, List.take_append, List.take_of_length_le hle]
      exact List.prefix_append xs _

theorem taken_append_of_length (h : failsAt = some xs.length) : taken failsAt (xs ++ ys) = xs := by
  rw [h]
  exact List.take_left

theorem offered_append_of_length {a : α} (h : failsAt = some xs.length) :
    offered failsAt (xs ++ a :: ys) = xs ++ [a] := by
  rw [h, List.append_cons]
  show (xs ++ [a] ++ ys).take (xs.length + 1) = xs ++ [a]
  have hlength : xs.length + 1 = (xs ++ [a]).length := by simp
  rw [hlength]
  exact List.take_left

theorem taken_offered : taken failsAt (offered failsAt xs) = taken failsAt xs := by
  cases failsAt with
  | none => rfl
  | some k =>
      show (xs.take (k + 1)).take k = xs.take k
      rw [List.take_take, Nat.min_eq_left (Nat.le_succ k)]

/-- One more item fits if it is not the refused one. -/
theorem fits_append {a : α} (h : ∀ k ∈ failsAt, xs.length ≤ k) (hne : failsAt ≠ some xs.length) :
    ∀ k ∈ failsAt, (xs ++ [a]).length ≤ k := by
  intro k hk
  have hle := h k hk
  have hk' : k ≠ xs.length := by
    rintro rfl
    exact hne hk
  rw [List.length_append, List.length_singleton]
  omega

theorem filterMap_take {f : α → Option β} (h : ∀ a ∈ xs, (f a).isSome = true) (k : ℕ) :
    (xs.take k).filterMap f = (xs.filterMap f).take k := by
  induction xs generalizing k with
  | nil => simp
  | cons a xs ih =>
      obtain ⟨b, hb⟩ := Option.isSome_iff_exists.mp (h a List.mem_cons_self)
      cases k with
      | zero => rfl
      | succ k =>
          rw [List.take_succ_cons, List.filterMap_cons_some hb, List.filterMap_cons_some hb,
            List.take_succ_cons, ih (fun a ha => h a (List.mem_cons_of_mem _ ha)) k]

theorem filterMap_taken {f : α → Option β} (h : ∀ a ∈ xs, (f a).isSome = true) :
    (taken failsAt xs).filterMap f = taken failsAt (xs.filterMap f) := by
  cases failsAt with
  | none => rfl
  | some k => exact filterMap_take h k

theorem filterMap_offered {f : α → Option β} (h : ∀ a ∈ xs, (f a).isSome = true) :
    (offered failsAt xs).filterMap f = offered failsAt (xs.filterMap f) := by
  cases failsAt with
  | none => rfl
  | some k => exact filterMap_take h (k + 1)

theorem offered_subset : offered failsAt xs ⊆ xs := by
  cases failsAt with
  | none => exact List.Subset.refl _
  | some k => exact List.take_subset _ _

theorem dropLast_filterMap {f : α → Option β} (h : ∀ a ∈ xs, (f a).isSome = true) :
    (xs.filterMap f).dropLast = xs.dropLast.filterMap f := by
  obtain rfl | ⟨ys, a, rfl⟩ := List.eq_nil_or_concat' xs
  · rfl
  · obtain ⟨b, hb⟩ := Option.isSome_iff_exists.mp (h a (by simp))
    rw [List.filterMap_append, List.filterMap_cons_some hb, List.filterMap_nil,
      List.dropLast_concat, List.dropLast_concat]

theorem dropLast_offered_subset : (offered failsAt xs).dropLast ⊆ xs.dropLast := by
  cases failsAt with
  | none => exact List.Subset.refl _
  | some k =>
      show (xs.take (k + 1)).dropLast ⊆ xs.dropLast
      rw [List.dropLast_take_eq_take_dropLast]
      exact List.take_subset _ _

end sink

/-- Which items pass and which are last ones; a last one passes. -/
structure Relay (α : Type*) where
  passes : α → Bool
  last : α → Bool
  passes_of_last : ∀ a, last a = true → passes a = true

/-- Where a relay is: waiting for an item, giving one to the sink, at its end after a last item or a
refusal, or at its end because the queue is. -/
inductive RelayPhase (α : Type*) where
  | taking
  | giving (a : α)
  | ended
  | exhausted

namespace Relay

variable {α β : Type*} (R : Relay α)

/-- The queue up to the first item that is a last one. -/
def upTo : List α → List α
  | [] => []
  | x :: xs => if R.last x then [x] else x :: upTo xs

/-- What is given to a sink that refuses nothing. -/
def due (xs : List α) : List α := (R.upTo xs).filter R.passes

/-- The relay that looks at the images of the items. -/
def comap (f : β → α) : Relay β where
  passes := R.passes ∘ f
  last := R.last ∘ f
  passes_of_last := fun b => R.passes_of_last (f b)

/-- No item is a last one. -/
def NoLast (xs : List α) : Prop := ∀ x ∈ xs, R.last x = false

/-- What holds of a relay that has received and handed over these items. -/
def Holds (failsAt : Option ℕ) (received handed : List α) : RelayPhase α → Prop
  | .taking => R.NoLast received ∧ handed = received.filter R.passes ∧
      ∀ k ∈ failsAt, handed.length ≤ k
  | .giving a => R.passes a = true ∧ ∃ xs, received = xs ++ [a] ∧ R.NoLast xs ∧
      handed = xs.filter R.passes ∧ ∀ k ∈ failsAt, handed.length ≤ k
  | .ended => ∀ rest, taken failsAt (R.due (received ++ rest)) = handed
  | .exhausted => R.NoLast received ∧ handed = received.filter R.passes ∧
      ∀ k ∈ failsAt, handed.length ≤ k

variable {R} {failsAt : Option ℕ} {received handed sent xs ys : List α} {a : α}
  {phase : RelayPhase α}

/-! ### What is due -/

theorem upTo_append_of_noLast (h : R.NoLast xs) : R.upTo (xs ++ ys) = xs ++ R.upTo ys := by
  induction xs with
  | nil => rfl
  | cons x xs ih =>
      have hx : R.last x = false := h x List.mem_cons_self
      have hxs : R.NoLast xs := fun y hy => h y (List.mem_cons_of_mem x hy)
      rw [List.cons_append, upTo, hx, ih hxs]
      rfl

theorem due_append_of_noLast (h : R.NoLast xs) :
    R.due (xs ++ ys) = xs.filter R.passes ++ R.due ys := by
  unfold due
  rw [upTo_append_of_noLast h, List.filter_append]

theorem due_of_noLast (h : R.NoLast xs) : R.due xs = xs.filter R.passes := by
  have happ : R.due (xs ++ []) = xs.filter R.passes ++ R.due [] := due_append_of_noLast h
  rw [List.append_nil] at happ
  exact happ.trans (List.append_nil _)

theorem due_cons_of_last (h : R.last a = true) : R.due (a :: xs) = [a] := by
  unfold due upTo
  rw [if_pos h, List.filter_cons_of_pos (R.passes_of_last a h), List.filter_nil]

theorem due_cons_of_passes (h : R.last a = false) (hp : R.passes a = true) :
    R.due (a :: xs) = a :: R.due xs := by
  unfold due
  rw [upTo, h, if_neg Bool.false_ne_true, List.filter_cons_of_pos hp]

theorem last_of_not_passes (h : R.passes a = false) : R.last a = false := by
  cases hlast : R.last a with
  | false => rfl
  | true =>
      rw [R.passes_of_last a hlast] at h
      cases h

theorem due_cons_of_not_passes (h : R.passes a = false) : R.due (a :: xs) = R.due xs := by
  unfold due
  rw [upTo, last_of_not_passes h, if_neg Bool.false_ne_true, List.filter_cons_of_neg (by simp [h])]

theorem due_filter (xs : List α) : R.due (xs.filter R.passes) = R.due xs := by
  induction xs with
  | nil => rfl
  | cons x xs ih =>
      cases hp : R.passes x with
      | false => rw [List.filter_cons_of_neg (by simp [hp]), due_cons_of_not_passes hp, ih]
      | true =>
          rw [List.filter_cons_of_pos hp]
          cases hlast : R.last x with
          | true => rw [due_cons_of_last hlast, due_cons_of_last hlast]
          | false => rw [due_cons_of_passes hlast hp, due_cons_of_passes hlast hp, ih]

/-- What is due is at most one last item, at the end. -/
theorem noLast_dropLast_due (xs : List α) : R.NoLast (R.due xs).dropLast := by
  induction xs with
  | nil => exact fun x hx => by cases hx
  | cons x xs ih =>
      cases hp : R.passes x with
      | false =>
          rw [due_cons_of_not_passes hp]
          exact ih
      | true =>
          cases hlast : R.last x with
          | true =>
              rw [due_cons_of_last hlast]
              exact fun y hy => by cases hy
          | false =>
              rw [due_cons_of_passes hlast hp]
              intro y hy
              cases hdue : R.due xs with
              | nil =>
                  rw [hdue] at hy
                  cases hy
              | cons z zs =>
                  rw [hdue, List.dropLast_cons_cons] at hy
                  obtain rfl | hy := List.mem_cons.mp hy
                  · exact hlast
                  · rw [hdue] at ih
                    exact ih y hy

theorem due_isPrefix (h : xs <+: ys) : R.due xs <+: R.due ys := by
  obtain ⟨zs, rfl⟩ := h
  induction xs with
  | nil => exact List.nil_prefix
  | cons x xs ih =>
      cases hlast : R.last x with
      | true =>
          have hsame : R.due (x :: xs) = R.due (x :: xs ++ zs) := by
            rw [List.cons_append, due_cons_of_last hlast, due_cons_of_last hlast]
          exact hsame ▸ List.prefix_rfl
      | false =>
          cases hp : R.passes x with
          | true =>
              rw [List.cons_append, due_cons_of_passes hlast hp, due_cons_of_passes hlast hp]
              exact List.cons_prefix_cons.mpr ⟨rfl, ih⟩
          | false =>
              rw [List.cons_append, due_cons_of_not_passes hp, due_cons_of_not_passes hp]
              exact ih

theorem upTo_isPrefix (xs : List α) : R.upTo xs <+: xs := by
  induction xs with
  | nil => exact List.prefix_rfl
  | cons x xs ih =>
      unfold upTo
      split_ifs
      · exact List.prefix_append [x] xs
      · exact List.cons_prefix_cons.mpr ⟨rfl, ih⟩

/-- What is picked out of what is due comes first of what is picked out of the queue, if nothing is
picked that does not pass. -/
theorem filterMap_due_isPrefix {f : α → Option β} (h : ∀ a, (f a).isSome = true → R.passes a = true)
    (xs : List α) : (R.due xs).filterMap f <+: xs.filterMap f := by
  have hdue : (R.due xs).filterMap f = (R.upTo xs).filterMap f := by
    unfold due
    rw [List.filterMap_filter]
    apply List.filterMap_congr
    intro a _
    split_ifs with hp
    · rfl
    · cases hf : f a with
      | none => rfl
      | some b => exact absurd (h a (by rw [hf]; rfl)) hp
  rw [hdue]
  exact (upTo_isPrefix xs).filterMap f

theorem eq_due_of_isPrefix (h : ys <+: R.due xs) (ha : a ∈ ys) (hlast : R.last a = true) :
    ys = R.due xs := by
  obtain ⟨zs, hzs⟩ := h
  cases zs with
  | nil => rw [← hzs, List.append_nil]
  | cons z zs =>
      have hmem : a ∈ (R.due xs).dropLast := by
        rw [← hzs, List.dropLast_append_of_ne_nil (List.cons_ne_nil z zs)]
        exact List.mem_append_left _ ha
      have hnot := R.noLast_dropLast_due xs a hmem
      rw [hlast] at hnot
      cases hnot

theorem due_concat (h : R.NoLast xs) (a : α) :
    R.due (xs ++ [a]) = R.due xs ++ if R.passes a then [a] else [] := by
  rw [due_append_of_noLast h, due_of_noLast h]
  cases hp : R.passes a with
  | false =>
      rw [due_cons_of_not_passes hp]
      rfl
  | true =>
      cases hlast : R.last a with
      | true =>
          rw [due_cons_of_last hlast]
          rfl
      | false =>
          rw [due_cons_of_passes hlast hp]
          rfl

theorem due_map (f : β → α) (zs : List β) : R.due (zs.map f) = ((R.comap f).due zs).map f := by
  have hupTo : R.upTo (zs.map f) = ((R.comap f).upTo zs).map f := by
    induction zs with
    | nil => rfl
    | cons z zs ih =>
        rw [List.map_cons, upTo, upTo, ih]
        show _ = List.map f (if R.last (f z) = true then [z] else z :: (R.comap f).upTo zs)
        split_ifs <;> rfl
  unfold due
  rw [hupTo, List.filter_map]
  rfl

/-! ### Item by item -/

theorem holds_new : R.Holds failsAt [] [] .taking :=
  ⟨nofun, rfl, fun _ _ => Nat.zero_le _⟩

/-- An item is taken from the queue, and dropped if it does not pass. -/
theorem Holds.take (h : R.Holds failsAt received handed .taking) (a : α) :
    R.Holds failsAt (received ++ [a]) handed (if R.passes a then .giving a else .taking) := by
  obtain ⟨hlast, hhanded, hfits⟩ := h
  split_ifs with hp
  · exact ⟨hp, received, rfl, hlast, hhanded, hfits⟩
  · have hp' : R.passes a = false := by simpa using hp
    refine ⟨?_, ?_, hfits⟩
    · intro x hx
      obtain hx | hx := List.mem_append.mp hx
      · exact hlast x hx
      · obtain rfl := List.mem_singleton.mp hx
        exact last_of_not_passes hp'
    · rw [List.filter_append, ← hhanded, List.filter_cons_of_neg (by simp [hp'])]
      simp

/-- The sink takes the item. -/
theorem Holds.accept (h : R.Holds failsAt received handed (.giving a))
    (hne : failsAt ≠ some handed.length) :
    R.Holds failsAt received (handed ++ [a]) (if R.last a then .ended else .taking) := by
  obtain ⟨hp, xs, rfl, hlast, rfl, hfits⟩ := h
  have hfits' := fits_append (a := a) hfits hne
  split_ifs with ha
  · intro rest
    rw [List.append_assoc, due_append_of_noLast hlast, List.singleton_append,
      due_cons_of_last ha, taken_eq_self hfits']
  · refine ⟨?_, ?_, hfits'⟩
    · intro x hx
      obtain hx | hx := List.mem_append.mp hx
      · exact hlast x hx
      · obtain rfl := List.mem_singleton.mp hx
        simpa using ha
    · rw [List.filter_append, List.filter_cons_of_pos hp]
      simp

/-- The sink refuses the item. -/
theorem Holds.refuse (h : R.Holds failsAt received handed (.giving a))
    (he : failsAt = some handed.length) : R.Holds failsAt received handed .ended := by
  obtain ⟨hp, xs, rfl, hlast, rfl, hfits⟩ := h
  intro rest
  rw [List.append_assoc, due_append_of_noLast hlast]
  exact taken_append_of_length he

theorem Holds.exhaust (h : R.Holds failsAt received handed .taking) :
    R.Holds failsAt received handed .exhausted := h

/-- When the queue has come to its end, what is due has been handed over. -/
theorem Holds.exhausted (h : R.Holds failsAt received handed .exhausted) :
    taken failsAt (R.due received) = handed := by
  obtain ⟨hlast, rfl, hfits⟩ := h
  rw [due_of_noLast hlast]
  exact taken_eq_self hfits

/-- At its end for another reason, what is due has been handed over, whatever else is queued. -/
theorem Holds.ended (h : R.Holds failsAt received handed .ended) (hsent : received <+: sent) :
    taken failsAt (R.due sent) = handed := by
  obtain ⟨rest, rfl⟩ := hsent
  exact h rest

/-- Nothing else has been handed over at any time. -/
theorem Holds.isPrefix (h : R.Holds failsAt received handed phase) (hsent : received <+: sent) :
    handed <+: taken failsAt (R.due sent) := by
  obtain ⟨rest, rfl⟩ := hsent
  have hopen (xs ys : List α) (hlast : R.NoLast xs) (hhanded : handed = xs.filter R.passes)
      (hfits : ∀ k ∈ failsAt, handed.length ≤ k) :
      handed <+: taken failsAt (R.due (xs ++ ys)) := by
    rw [due_append_of_noLast hlast, ← hhanded]
    exact isPrefix_taken_append hfits
  cases phase with
  | taking => exact hopen received rest h.1 h.2.1 h.2.2
  | exhausted => exact hopen received rest h.1 h.2.1 h.2.2
  | ended => exact ⟨[], (List.append_nil handed).trans (h rest).symm⟩
  | giving a =>
      obtain ⟨-, xs, rfl, hlast, hhanded, hfits⟩ := h
      rw [List.append_assoc]
      exact hopen xs _ hlast hhanded hfits

end Relay
end ArmatureWebsocket
