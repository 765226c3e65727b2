import Mathlib.Data.List.Induction

/-! # Settings made by a chain of calls

A builder is set up by a chain of calls.  Each gives values to some of the settings and leaves the
others alone, or fails, whatever the builder is, which ends the chain.

`lastGiven gives calls` is the last value that the calls give to a setting; a setting that is given
none keeps the value it had.  A chain fails with the first call that does (`foldlM_eq`). -/

namespace ArmatureWebsocket
namespace Settings

variable {σ γ β ε : Type}

/-- The last value that the calls give to a setting. -/
def lastGiven (gives : γ → Option β) (calls : List γ) : Option β :=
  calls.reverse.findSome? gives

section

variable {gives : γ → Option β} {call : γ} {calls : List γ}

/-- A later call gives its value or leaves the one given before. -/
theorem lastGiven_concat :
    lastGiven gives (calls ++ [call]) = (gives call).or (lastGiven gives calls) := by
  unfold lastGiven
  rw [List.reverse_concat, List.findSome?_cons]
  cases gives call with
  | none => rfl
  | some b => rfl

theorem lastGiven_eq_none_iff : lastGiven gives calls = none ↔ ∀ c ∈ calls, gives c = none := by
  unfold lastGiven
  rw [List.findSome?_eq_none_iff]
  simp only [List.mem_reverse]

end

theorem foldl_eq {set : σ → γ → σ} {s : σ} {left : List γ → σ} (hnil : left [] = s)
    (hconcat : ∀ calls call, left (calls ++ [call]) = set (left calls) call) (calls : List γ) :
    calls.foldl set s = left calls := by
  induction calls using List.reverseRecOn with
  | nil => exact hnil.symm
  | append_singleton calls call ih =>
      rw [List.foldl_append, ih, hconcat]
      rfl

theorem foldlM_eq {set : σ → γ → Except ε σ} {fails : γ → Option ε} {done : σ → γ → σ}
    (hset : ∀ s call, set s call = (fails call).elim (.ok (done s call)) .error) (calls : List γ)
    (s : σ) :
    calls.foldlM set s = (calls.findSome? fails).elim (.ok (calls.foldl done s)) .error := by
  induction calls generalizing s with
  | nil => rfl
  | cons call calls ih =>
      rw [List.foldlM_cons, hset, List.findSome?_cons]
      cases fails call with
      | none => exact ih (done s call)
      | some e => rfl

end Settings
end ArmatureWebsocket
