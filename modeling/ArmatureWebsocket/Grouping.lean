import Mathlib.Data.Set.Card

/-! # Membership in groups that exist as long as they are wanted

`Grouping C R` is what a registry of members and groups is for: a set of registered members, the
relation between members and groups, and the groups that were created and have no member.  A group
exists when it was created and is still without members, or has a member (`Exists`); a group that
loses its last member is gone.

The types are arbitrary and the sets need not be finite.  `run` says what each operation does and
answers; answers that are yes or no are propositions. -/

namespace ArmatureWebsocket

/-- Registered members, who is in which group, and the created groups without members. -/
@[ext] structure Grouping (C R : Type) where
  reg : Set C
  mem : Set (C × R)
  bare : Set R

namespace Grouping

/-- The operations. -/
inductive Op (C R : Type) where
  | register (c : C)
  | unregister (c : C)
  | create (r : R)
  | delete (r : R)
  | join (c : C) (r : R)
  | leave (c : C) (r : R)
  | find (r : R)
  | members (r : R)
  | contains (r : R) (c : C)
  | len (r : R)
  | groups
  | groupCount
  | registered
  | registeredCount

/-- What the operations answer.  What is asked of a group has no answer when there is no group. -/
inductive Answer (C R : Type) where
  | done
  | group (group : Option (R × Set C))
  | holds (p : Prop)
  | result (result : Except C Unit)
  | members (members : Option (Set C))
  | holdsIn (p : Option Prop)
  | len (len : Option ℕ)
  | groups (groups : Set R)
  | registered (registered : Set C)
  | count (count : ℕ)

variable {C R : Type}

/-- Nobody is registered and there is no group. -/
def empty : Grouping C R := ⟨∅, ∅, ∅⟩

/-- There is such a group. -/
def Exists (a : Grouping C R) (r : R) : Prop := r ∈ a.bare ∨ ∃ c, (c, r) ∈ a.mem

/-- The members of a group. -/
def membersIn (a : Grouping C R) (r : R) : Set C := {c | (c, r) ∈ a.mem}

/-- The members of a group, when there is one. -/
noncomputable def group (a : Grouping C R) (r : R) : Option (Set C) :=
  open Classical in if a.Exists r then some (a.membersIn r) else none

/-- Register a member. -/
def register (a : Grouping C R) (c : C) : Grouping C R := { a with reg := insert c a.reg }

/-- Unregister a member and take it out of all groups. -/
def unregister (a : Grouping C R) (c : C) : Grouping C R :=
  { a with reg := a.reg \ {c}, mem := {p ∈ a.mem | p.1 ≠ c} }

/-- Create a group, unless there is one. -/
def create (a : Grouping C R) (r : R) : Grouping C R :=
  { a with bare := {r' | r' ∈ a.bare ∨ r' = r ∧ ¬ a.Exists r} }

/-- Delete a group. -/
def delete (a : Grouping C R) (r : R) : Grouping C R :=
  { a with mem := {p ∈ a.mem | p.2 ≠ r}, bare := a.bare \ {r} }

/-- A registered member joins a group, which then is not bare. -/
def enter (a : Grouping C R) (c : C) (r : R) : Grouping C R :=
  { a with mem := insert (c, r) a.mem, bare := a.bare \ {r} }

/-- Join, if registered. -/
noncomputable def join (a : Grouping C R) (c : C) (r : R) : Grouping C R × Except C Unit :=
  open Classical in if c ∈ a.reg then (a.enter c r, .ok ()) else (a, .error c)

/-- Leave a group, which is gone if it has no member then. -/
def leave (a : Grouping C R) (c : C) (r : R) : Grouping C R :=
  { a with
    mem := a.mem \ {(c, r)}
    bare := {r' ∈ a.bare | r' = r → ∃ c', c' ≠ c ∧ (c', r) ∈ a.mem} }

/-- What an operation does and answers. -/
noncomputable def run (a : Grouping C R) : Op C R → Grouping C R × Answer C R
  | .register c => (a.register c, .done)
  | .unregister c => (a.unregister c, .done)
  | .create r => (a.create r, .group (some (r, a.membersIn r)))
  | .delete r => (a.delete r, .holds (a.Exists r))
  | .join c r => ((a.join c r).1, .result (a.join c r).2)
  | .leave c r => (a.leave c r, .result (.ok ()))
  | .find r => (a, .group ((a.group r).map fun s => (r, s)))
  | .members r => (a, .members (a.group r))
  | .contains r c => (a, .holdsIn ((a.group r).map fun s => c ∈ s))
  | .len r => (a, .len ((a.group r).map Set.ncard))
  | .groups => (a, .groups {r | a.Exists r})
  | .groupCount => (a, .count {r | a.Exists r}.ncard)
  | .registered => (a, .registered a.reg)
  | .registeredCount => (a, .count a.reg.ncard)

/-- The answers to a history of operations. -/
noncomputable def answers (a : Grouping C R) : List (Op C R) → List (Answer C R)
  | [] => []
  | op :: ops => (a.run op).2 :: (a.run op).1.answers ops

end Grouping
end ArmatureWebsocket
