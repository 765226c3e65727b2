import Mathlib.Data.List.Basic

/-! # An unbounded FIFO channel with its history

`UnboundedQueue α` is an unbounded multi-producer single-consumer channel with the history of what
it accepted and what was taken from it, like `BoundedQueue` without a capacity: a message is
accepted exactly as long as there is a receiver. -/

namespace ArmatureWebsocket

/-- An unbounded FIFO channel together with everything it accepted and everything it delivered. -/
structure UnboundedQueue (α : Type) where
  queue : List α
  sent : List α
  received : List α
  rxOpen : Bool
  received_prefix : received <+: sent
  sent_eq : rxOpen = true → sent = received ++ queue

namespace UnboundedQueue

variable {α : Type}

/-- An empty channel. -/
def new : UnboundedQueue α := ⟨[], [], [], true, ⟨[], rfl⟩, fun _ => (List.append_nil []).symm⟩

/-- Append a message to a channel that has a receiver. -/
def push (q : UnboundedQueue α) (x : α) (hopen : q.rxOpen = true) : UnboundedQueue α where
  queue := q.queue ++ [x]
  sent := q.sent ++ [x]
  received := q.received
  rxOpen := q.rxOpen
  received_prefix := q.received_prefix.trans (List.prefix_append _ _)
  sent_eq := fun _ => by rw [q.sent_eq hopen, List.append_assoc]

/-- Send a message; `none` once the receiver is gone. -/
def send? (q : UnboundedQueue α) (x : α) : Option (UnboundedQueue α) :=
  if hopen : q.rxOpen = true then some (q.push x hopen) else none

/-- The channel after a send, accepted or not. -/
def offer (q : UnboundedQueue α) (x : α) : UnboundedQueue α := (q.send? x).getD q

/-- The channel after its oldest message was taken. -/
def pop (q : UnboundedQueue α) (x : α) (rest : List α) (hq : q.queue = x :: rest)
    (hopen : q.rxOpen = true) : UnboundedQueue α where
  queue := rest
  sent := q.sent
  received := q.received ++ [x]
  rxOpen := q.rxOpen
  received_prefix := by
    rw [q.sent_eq hopen, hq]
    exact ⟨rest, by simp⟩
  sent_eq := fun _ => by rw [q.sent_eq hopen, hq]; simp

/-- Take the oldest message; `none` when there is none or the receiver is gone. -/
def recv? (q : UnboundedQueue α) : Option (α × UnboundedQueue α) :=
  if hopen : q.rxOpen = true then
    match hq : q.queue with
    | [] => none
    | x :: rest => some (x, q.pop x rest hq hopen)
  else none

/-- Drop the receiver; what is still queued is lost. -/
def closeRx (q : UnboundedQueue α) : UnboundedQueue α where
  queue := []
  sent := q.sent
  received := q.received
  rxOpen := false
  received_prefix := q.received_prefix
  sent_eq := fun h => by cases h

theorem send?_eq {q : UnboundedQueue α} {x : α} :
    q.send? x = if q.rxOpen = true then some (q.offer x) else none := by
  unfold offer send?
  split_ifs with hopen
  · rfl
  · rfl

section offer

variable (q : UnboundedQueue α) (x : α)

@[simp] theorem offer_rxOpen : (q.offer x).rxOpen = q.rxOpen := by
  unfold offer send?
  split_ifs <;> rfl

@[simp] theorem offer_received : (q.offer x).received = q.received := by
  unfold offer send?
  split_ifs <;> rfl

theorem sent_offer : (q.offer x).sent = if q.rxOpen = true then q.sent ++ [x] else q.sent := by
  unfold offer send?
  split_ifs <;> rfl

end offer

/-- What a reception does. -/
theorem recv?_some {q q' : UnboundedQueue α} {x : α} (h : q.recv? = some (x, q')) :
    q.queue = x :: q'.queue ∧ q'.rxOpen = q.rxOpen ∧ q'.sent = q.sent ∧
      q'.received = q.received ++ [x] := by
  unfold recv? at h
  split_ifs at h with hopen
  split at h
  · cases h
  · rename_i y rest hq
    cases h
    exact ⟨hq, rfl, rfl, rfl⟩

end UnboundedQueue
end ArmatureWebsocket
