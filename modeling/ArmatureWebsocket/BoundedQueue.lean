import Mathlib.Data.List.Basic

/-! # A bounded FIFO channel with its history

`BoundedQueue α` is a bounded multi-producer single-consumer channel.  Besides its content it
records every message it ever accepted (`sent`) and every message the receiver took
(`received`), and it carries the channel's contract as fields, so that no value of the type
breaks it: the content never exceeds the capacity, what was received is an initial segment of
what was sent, and while the receiver is alive nothing is missing in between.

* `trySend` never waits: it appends, or answers `full`, or answers `closed` once the receiver is
  gone.
* `recv?` takes the oldest message.
* `closeRx` drops the receiver together with the content. -/

namespace ArmatureWebsocket

/-- Why a message was not accepted. -/
inductive TrySendError where
  | full
  | closed
deriving DecidableEq, Repr

/-- A bounded FIFO channel together with everything it accepted and everything it delivered. -/
structure BoundedQueue (α : Type) where
  capacity : ℕ
  queue : List α
  sent : List α
  received : List α
  rxOpen : Bool
  length_le : queue.length ≤ capacity
  received_prefix : received <+: sent
  sent_eq : rxOpen = true → sent = received ++ queue

namespace BoundedQueue

variable {α : Type}

/-- An empty channel of the given capacity. -/
def new (capacity : ℕ) : BoundedQueue α where
  capacity := capacity
  queue := []
  sent := []
  received := []
  rxOpen := true
  length_le := Nat.zero_le _
  received_prefix := List.prefix_rfl
  sent_eq := fun _ => rfl

/-- Append a message to a channel that has room and a receiver. -/
def push (q : BoundedQueue α) (x : α) (hlen : q.queue.length < q.capacity)
    (hopen : q.rxOpen = true) : BoundedQueue α where
  capacity := q.capacity
  queue := q.queue ++ [x]
  sent := q.sent ++ [x]
  received := q.received
  rxOpen := q.rxOpen
  length_le := by rw [List.length_append]; exact hlen
  received_prefix := q.received_prefix.trans (List.prefix_append _ _)
  sent_eq := fun _ => by rw [q.sent_eq hopen, List.append_assoc]

/-- Offer a message without waiting. -/
def trySend (q : BoundedQueue α) (x : α) : Except TrySendError (BoundedQueue α) :=
  if hopen : q.rxOpen = true then
    if hlen : q.queue.length < q.capacity then .ok (q.push x hlen hopen) else .error .full
  else .error .closed

/-- The channel has a receiver and room. -/
def Accepts (q : BoundedQueue α) : Prop := q.rxOpen = true ∧ q.queue.length < q.capacity

instance (q : BoundedQueue α) : Decidable q.Accepts := inferInstanceAs (Decidable (_ ∧ _))

/-- The channel after an offer, accepted or not. -/
def offer (q : BoundedQueue α) (x : α) : BoundedQueue α :=
  match q.trySend x with
  | .ok q' => q'
  | .error _ => q

/-- The channel after its oldest message was taken. -/
def pop (q : BoundedQueue α) (x : α) (rest : List α) (hq : q.queue = x :: rest)
    (hopen : q.rxOpen = true) : BoundedQueue α where
  capacity := q.capacity
  queue := rest
  sent := q.sent
  received := q.received ++ [x]
  rxOpen := q.rxOpen
  length_le := by
    have := q.length_le
    rw [hq, List.length_cons] at this
    omega
  received_prefix := by
    rw [q.sent_eq hopen, hq]
    exact ⟨rest, by simp⟩
  sent_eq := fun _ => by rw [q.sent_eq hopen, hq]; simp

/-- Take the oldest message; `none` when there is none or the receiver is gone. -/
def recv? (q : BoundedQueue α) : Option (α × BoundedQueue α) :=
  if hopen : q.rxOpen = true then
    match hq : q.queue with
    | [] => none
    | x :: rest => some (x, q.pop x rest hq hopen)
  else none

/-- Drop the receiver; what is still queued is lost. -/
def closeRx (q : BoundedQueue α) : BoundedQueue α where
  capacity := q.capacity
  queue := []
  sent := q.sent
  received := q.received
  rxOpen := false
  length_le := Nat.zero_le _
  received_prefix := q.received_prefix
  sent_eq := fun h => by cases h

/-- What an accepted offer does. -/
theorem trySend_ok {q q' : BoundedQueue α} {x : α} (h : q.trySend x = .ok q') :
    q.rxOpen = true ∧ q.queue.length < q.capacity ∧ q'.rxOpen = true ∧
      q'.capacity = q.capacity ∧ q'.queue = q.queue ++ [x] ∧ q'.sent = q.sent ++ [x] ∧
      q'.received = q.received := by
  unfold trySend at h
  split_ifs at h with hopen hlen
  cases h
  exact ⟨hopen, hlen, hopen, rfl, rfl, rfl, rfl⟩

theorem trySend_closed_iff {q : BoundedQueue α} {x : α} :
    q.trySend x = .error .closed ↔ q.rxOpen = false := by
  unfold trySend
  split_ifs with hopen hlen <;> simp [hopen]

/-- A channel accepts exactly what it has a receiver and room for. -/
theorem trySend_of_accepts {q : BoundedQueue α} (x : α) (h : q.Accepts) :
    q.trySend x = .ok (q.offer x) := by
  have hpush : q.trySend x = .ok (q.push x h.2 h.1) := by
    unfold trySend
    rw [dif_pos h.1, dif_pos h.2]
  unfold offer
  rw [hpush]

theorem accepts_of_trySend {q q' : BoundedQueue α} {x : α} (h : q.trySend x = .ok q') :
    q.Accepts ∧ q' = q.offer x := by
  have haccepts : q.Accepts := ⟨(trySend_ok h).1, (trySend_ok h).2.1⟩
  refine ⟨haccepts, ?_⟩
  rw [trySend_of_accepts x haccepts] at h
  exact (Except.ok.inj h).symm

theorem offer_of_not_accepts {q : BoundedQueue α} (x : α) (h : ¬ q.Accepts) : q.offer x = q := by
  unfold offer
  cases htry : q.trySend x with
  | ok q' => exact absurd (accepts_of_trySend htry).1 h
  | error e => rfl

theorem offer_of_accepts {q : BoundedQueue α} (x : α) (h : q.Accepts) :
    (q.offer x).queue = q.queue ++ [x] ∧ (q.offer x).sent = q.sent ++ [x] := by
  obtain ⟨-, -, -, -, hqueue, hsent, -⟩ := trySend_ok (trySend_of_accepts x h)
  exact ⟨hqueue, hsent⟩

section offer

variable (q : BoundedQueue α) (x : α)

@[simp] theorem offer_rxOpen : (q.offer x).rxOpen = q.rxOpen := by
  by_cases h : q.Accepts
  · obtain ⟨hrx, -, hrx', -⟩ := trySend_ok (trySend_of_accepts x h)
    rw [hrx, hrx']
  · rw [offer_of_not_accepts x h]

@[simp] theorem offer_capacity : (q.offer x).capacity = q.capacity := by
  by_cases h : q.Accepts
  · exact (trySend_ok (trySend_of_accepts x h)).2.2.2.1
  · rw [offer_of_not_accepts x h]

@[simp] theorem offer_received : (q.offer x).received = q.received := by
  by_cases h : q.Accepts
  · exact (trySend_ok (trySend_of_accepts x h)).2.2.2.2.2.2
  · rw [offer_of_not_accepts x h]

theorem sent_offer : (q.offer x).sent = if q.Accepts then q.sent ++ [x] else q.sent := by
  split_ifs with h
  · exact (offer_of_accepts x h).2
  · rw [offer_of_not_accepts x h]

theorem sent_prefix_offer : q.sent <+: (q.offer x).sent := by
  rw [sent_offer]
  split_ifs
  · exact List.prefix_append _ _
  · exact List.prefix_rfl

end offer

/-- What a reception does. -/
theorem recv?_some {q q' : BoundedQueue α} {x : α} (h : q.recv? = some (x, q')) :
    q.rxOpen = true ∧ q.queue = x :: q'.queue ∧ q'.rxOpen = true ∧ q'.capacity = q.capacity ∧
      q'.sent = q.sent ∧ q'.received = q.received ++ [x] := by
  unfold recv? at h
  split_ifs at h with hopen
  split at h
  · cases h
  · rename_i y rest hq
    cases h
    exact ⟨hopen, hq, hopen, rfl, rfl, rfl⟩

theorem recv?_eq_none_iff {q : BoundedQueue α} :
    q.recv? = none ↔ q.rxOpen = false ∨ q.queue = [] := by
  unfold recv?
  split_ifs with hopen
  · split
    · rename_i hq
      simp [hq]
    · rename_i y rest hq
      simp [hq, hopen]
  · simp [hopen]

/-- A nonempty open channel delivers its head. -/
theorem exists_recv?_some {q : BoundedQueue α} {x : α} {rest : List α} (hopen : q.rxOpen = true)
    (hq : q.queue = x :: rest) : ∃ q', q.recv? = some (x, q') ∧ q'.queue = rest := by
  cases h : q.recv? with
  | none =>
      obtain h | h := recv?_eq_none_iff.mp h
      · rw [hopen] at h; cases h
      · rw [hq] at h; cases h
  | some p =>
      obtain ⟨y, q'⟩ := p
      obtain ⟨-, hq', -⟩ := recv?_some h
      rw [hq] at hq'
      obtain ⟨rfl, rfl⟩ := List.cons.inj hq'
      exact ⟨q', rfl, rfl⟩

end BoundedQueue
end ArmatureWebsocket
