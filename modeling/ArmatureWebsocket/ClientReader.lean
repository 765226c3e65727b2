import ArmatureWebsocket.Client

/-! # The client reads without losing anything

The reader waits for room in the incoming queue, so nothing that it read is dropped: what was taken
from the queue, what is queued and what the reader is waiting to enqueue are together the
conversions of the frames read, in order (`Lossless`).  What was taken from the queue is what `recv`
and `try_recv` returned (`Reads.returned_eq`).  The reader reads up to the first Close and sets the
flag before it gives up its end of the queue, so the application is told that there is nothing more
only when it has everything and the flag is set (`recv_lossless`). -/

namespace ArmatureWebsocket

open Execution CallPool

/-- What the reader is waiting to enqueue. -/
def ClientReaderPc.pending : ClientReaderPc → List Message
  | .sending m _ => [m]
  | _ => []

/-- The reader has not come to the end of its loop. -/
def ClientReaderPc.goesOn : ClientReaderPc → Bool
  | .reading => true
  | .sending _ last => !last
  | _ => false

/-- The reader has set the flag. -/
def ClientReaderPc.marked : ClientReaderPc → Bool
  | .returning => true
  | .stopped => true
  | _ => false

/-- No frame is a Close. -/
def NoCloseFrame (frames : List TungsteniteMessage) : Prop :=
  ∀ frame ∈ frames, frame.isClose = false

/-- Only the last frame can be a Close. -/
def ClosesLast (frames : List TungsteniteMessage) : Prop :=
  ∃ before, NoCloseFrame before ∧ (frames = before ∨ ∃ frame, frames = before ++ [.close frame])

/-- The frame that a step reads. -/
def ClientAct.frame : ClientAct → Option TungsteniteMessage
  | .reader (.read (.message msg)) => some msg
  | _ => none

/-- The frames read in a run, in order. -/
def framesRead (acts : List ClientAct) : List TungsteniteMessage := acts.filterMap ClientAct.frame

theorem isClose_ofTungstenite (frame : TungsteniteMessage) :
    (Message.ofTungstenite frame).isClose = frame.isClose := by
  cases frame <;> rfl

theorem TungsteniteMessage.exists_of_isClose {frame : TungsteniteMessage}
    (h : frame.isClose = true) : ∃ f, frame = .close f := by
  cases frame with
  | close f => exact ⟨f, rfl⟩
  | _ => cases h

theorem NoCloseFrame.append {frames : List TungsteniteMessage} {frame : TungsteniteMessage}
    (h : NoCloseFrame frames) (hframe : frame.isClose = false) :
    NoCloseFrame (frames ++ [frame]) := by
  intro f hf
  obtain hf | hf := List.mem_append.mp hf
  · exact h f hf
  · rw [List.mem_singleton.mp hf]
    exact hframe

namespace ClientInbound

/-- Everything read has been accepted by the queue, apart from what the reader is waiting to
enqueue, and reading goes up to the first Close. -/
structure Lossless (s : ClientInbound) : Prop where
  flow : s.incoming.sent ++ s.reader.pending = s.frames.map .ofTungstenite
  rx_open : s.incoming.rxOpen = true
  goes_on : s.reader.goesOn = true → NoCloseFrame s.frames
  closes_last : ClosesLast s.frames

variable {s s' : ClientInbound}

theorem lossless_new (capacity : ℕ) : (new capacity).Lossless where
  flow := rfl
  rx_open := rfl
  goes_on := nofun
  closes_last := ⟨[], nofun, .inl rfl⟩

theorem Lossless.afterRead (h : s.Lossless) (hreading : s.reader = .reading)
    (result : ReadResult) : (s.afterRead result).Lossless := by
  have hflow := h.flow
  rw [hreading] at hflow
  have hno := h.goes_on (by rw [hreading]; rfl)
  cases result with
  | message msg =>
      have hsent : s.incoming.sent = s.frames.map .ofTungstenite := by
        rw [← hflow]
        exact (List.append_nil _).symm
      by_cases hclose : msg.isClose = true
      · obtain ⟨frame, rfl⟩ := TungsteniteMessage.exists_of_isClose hclose
        refine ⟨?_, h.rx_open, nofun, s.frames, hno, .inr ⟨frame, rfl⟩⟩
        show s.incoming.sent ++ [_] = (s.frames ++ [_]).map _
        rw [hsent, List.map_append]
        rfl
      · have hnot : msg.isClose = false := by simpa using hclose
        have hno' := hno.append hnot
        refine ⟨?_, h.rx_open, fun _ => hno', s.frames ++ [msg], hno', .inl rfl⟩
        simp only [ClientInbound.afterRead, hnot, Bool.false_eq_true, if_false,
          ClientReaderPc.pending, List.map_append, hsent]
        rfl
  | error reason => exact ⟨hflow, h.rx_open, nofun, h.closes_last⟩
  | endOfStream => exact ⟨hflow, h.rx_open, nofun, h.closes_last⟩

theorem Lossless.step {act : ReaderAct} (h : s.Lossless) (hstep : s.step act = some s') :
    s'.Lossless := by
  have hflow := h.flow
  cases act with
  | read result =>
      simp only [ClientInbound.step] at hstep
      split at hstep <;> cases hstep
      exact h.afterRead ‹_› result
  | enqueue =>
      simp only [ClientInbound.step] at hstep
      split at hstep
      · rename_i m last hsending
        rw [hsending] at hflow
        split at hstep
        · rename_i incoming htry
          cases hstep
          obtain ⟨-, -, hopen, -, -, hsent, -⟩ := BoundedQueue.trySend_ok htry
          have hdone : incoming.sent = s.frames.map .ofTungstenite := by
            rw [hsent]
            exact hflow
          cases last with
          | true =>
              refine ⟨?_, hopen, nofun, h.closes_last⟩
              show incoming.sent ++ [] = _
              rw [List.append_nil, hdone]
          | false =>
              refine ⟨?_, hopen, fun _ => h.goes_on (by rw [hsending]; rfl), h.closes_last⟩
              show incoming.sent ++ [] = _
              rw [List.append_nil, hdone]
        · cases hstep
        · rename_i htry
          have hrx := h.rx_open
          rw [BoundedQueue.trySend_closed_iff.mp htry] at hrx
          cases hrx
      · cases hstep
  | mark =>
      simp only [ClientInbound.step] at hstep
      split at hstep <;> cases hstep
      rename_i hreader
      rw [hreader] at hflow
      exact ⟨hflow, h.rx_open, nofun, h.closes_last⟩
  | finish =>
      simp only [ClientInbound.step] at hstep
      split at hstep <;> cases hstep
      rename_i hreader
      rw [hreader] at hflow
      exact ⟨hflow, h.rx_open, nofun, h.closes_last⟩

theorem Lossless.take (h : s.Lossless) {m : Message} {incoming : BoundedQueue Message}
    (hrecv : s.incoming.recv? = some (m, incoming)) :
    Lossless { s with incoming := incoming } := by
  obtain ⟨-, -, hopen, -, hsent, -⟩ := BoundedQueue.recv?_some hrecv
  refine ⟨?_, hopen, h.goes_on, h.closes_last⟩
  rw [hsent]
  exact h.flow

/-- What `recv` answers: the oldest message, or nothing when the reader has stopped and the queue is
empty. -/
theorem recv_cases {answer : Option Message} (h : s.recv = some (answer, s')) :
    (∃ m incoming, answer = some m ∧ s.incoming.recv? = some (m, incoming) ∧
      s' = { s with incoming := incoming }) ∨
    answer = none ∧ s' = s ∧ s.reader = .stopped ∧ s.incoming.recv? = none := by
  unfold recv at h
  split at h
  · rename_i m incoming hrecv
    cases h
    exact .inl ⟨m, incoming, rfl, hrecv, rfl⟩
  · rename_i hrecv
    split at h
    · cases h
      exact .inr ⟨rfl, rfl, ‹_›, hrecv⟩
    · cases h

/-- `try_recv` takes the oldest message, or does nothing. -/
theorem tryRecv_cases (s : ClientInbound) :
    (∃ m incoming, s.tryRecv = (some m, { s with incoming := incoming }) ∧
      s.incoming.recv? = some (m, incoming)) ∨
    s.tryRecv = (none, s) ∧ s.incoming.recv? = none := by
  unfold tryRecv
  cases h : s.incoming.recv? with
  | none => exact .inr ⟨rfl, rfl⟩
  | some result => exact .inl ⟨result.1, result.2, rfl, rfl⟩

/-- A step of the reader adds the frame it reads, keeps the capacity, takes nothing from the queue,
and comes past the setting of the flag only by setting it. -/
theorem step_frames {act : ReaderAct} (hstep : s.step act = some s') :
    s'.frames = s.frames ++ (ClientAct.frame (.reader act)).toList ∧
      s'.incoming.capacity = s.incoming.capacity ∧
      s'.incoming.received = s.incoming.received ∧
      (s'.reader.marked = true → act = .mark ∨ s.reader.marked = true) := by
  cases act with
  | read result =>
      simp only [ClientInbound.step] at hstep
      split at hstep <;> cases hstep
      cases result with
      | message msg =>
          refine ⟨rfl, rfl, rfl, fun h => ?_⟩
          simp only [ClientInbound.afterRead] at h
          split_ifs at h <;> cases h
      | error reason => exact ⟨(List.append_nil _).symm, rfl, rfl, nofun⟩
      | endOfStream => exact ⟨(List.append_nil _).symm, rfl, rfl, nofun⟩
  | enqueue =>
      simp only [ClientInbound.step] at hstep
      split at hstep
      · rename_i m last hsending
        split at hstep
        · rename_i incoming htry
          cases hstep
          obtain ⟨-, -, -, hcapacity, -, -, hreceived⟩ := BoundedQueue.trySend_ok htry
          refine ⟨(List.append_nil _).symm, hcapacity, hreceived, fun h => ?_⟩
          cases last <;> cases h
        · cases hstep
        · cases hstep
          exact ⟨(List.append_nil _).symm, rfl, rfl, nofun⟩
      · cases hstep
  | mark =>
      simp only [ClientInbound.step] at hstep
      split at hstep <;> cases hstep
      exact ⟨(List.append_nil _).symm, rfl, rfl, fun _ => .inl rfl⟩
  | finish =>
      simp only [ClientInbound.step] at hstep
      split at hstep <;> cases hstep
      rename_i hreader
      exact ⟨(List.append_nil _).symm, rfl, rfl, fun _ => .inr (by rw [hreader]; rfl)⟩

end ClientInbound

namespace Client

variable {c c' : Client}

/-- The reader's side of a client; the queue is whole as long as the client is not dropped. -/
structure Reads (capacity : ℕ) (read : List TungsteniteMessage) (c : Client) : Prop where
  frames_eq : c.inbound.frames = read
  capacity_eq : c.inbound.incoming.capacity = capacity
  returned_eq : c.returned = c.inbound.incoming.received
  lossless : c.handle ≠ .dropped → c.inbound.Lossless
  marked : c.inbound.reader.marked = true → c.isClosed = true

theorem reads_new (capacity : ℕ) : (new capacity).Reads capacity [] where
  frames_eq := rfl
  capacity_eq := rfl
  returned_eq := rfl
  lossless := fun _ => ClientInbound.lossless_new capacity
  marked := nofun

theorem returned_answered (result : Option Message × ClientInbound) :
    (c.answered result).returned = c.returned ++ result.1.toList := by
  unfold returned answered
  rw [List.filterMap_append]
  cases result.1 <;> rfl

theorem Reads.take {capacity : ℕ} {read : List TungsteniteMessage} (h : c.Reads capacity read)
    {m : Message} {incoming : BoundedQueue Message}
    (hrecv : c.inbound.incoming.recv? = some (m, incoming)) :
    Reads capacity read (c.answered (some m, { c.inbound with incoming := incoming })) := by
  obtain ⟨-, -, -, hcapacity, -, hreceived⟩ := BoundedQueue.recv?_some hrecv
  refine ⟨h.frames_eq, hcapacity.trans h.capacity_eq, ?_, fun hheld => ?_, h.marked⟩
  · rw [returned_answered, h.returned_eq]
    exact hreceived.symm
  · exact (h.lossless hheld).take hrecv

theorem Reads.takeNone {capacity : ℕ} {read : List TungsteniteMessage} (h : c.Reads capacity read) :
    Reads capacity read (c.answered (none, c.inbound)) where
  frames_eq := h.frames_eq
  capacity_eq := h.capacity_eq
  returned_eq := by
    rw [returned_answered, h.returned_eq]
    exact List.append_nil _
  lossless := h.lossless
  marked := h.marked

theorem Reads.apart {capacity : ℕ} {read : List TungsteniteMessage} (h : c.Reads capacity read)
    (hinbound : c'.inbound = c.inbound) (hanswers : c'.answers = c.answers)
    (hhandle : c'.handle ≠ .dropped → c.handle ≠ .dropped)
    (hclosed : c.isClosed = true → c'.isClosed = true) : c'.Reads capacity read where
  frames_eq := by rw [hinbound, h.frames_eq]
  capacity_eq := by rw [hinbound, h.capacity_eq]
  returned_eq := by
    unfold returned
    rw [hanswers, hinbound]
    exact h.returned_eq
  lossless := fun hheld => by
    rw [hinbound]
    exact h.lossless (hhandle hheld)
  marked := fun hmarked => by
    rw [hinbound] at hmarked
    exact hclosed (h.marked hmarked)

/-- A step of the reader. -/
theorem Reads.reader {capacity : ℕ} {read : List TungsteniteMessage} {act : ReaderAct}
    (h : c.Reads capacity read) (hstep : c.step (.reader act) = some c') :
    c'.Reads capacity (read ++ (ClientAct.frame (.reader act)).toList) := by
  obtain ⟨inbound, hinbound, hc'⟩ := reader_some hstep
  obtain ⟨hframes, hcapacity, hreceived, hmarked⟩ := ClientInbound.step_frames hinbound
  have hsame : c'.inbound = inbound ∧ c'.handle = c.handle ∧ c'.answers = c.answers ∧
      (act = .mark → c'.isClosed = true) := by
    obtain ⟨hact, rfl⟩ | ⟨-, rfl⟩ := hc'
    · exact ⟨rfl, rfl, rfl, fun hmark => absurd hmark hact⟩
    · exact ⟨rfl, rfl, rfl, fun _ => rfl⟩
  obtain ⟨hin, hhandle, hanswers, hmark⟩ := hsame
  refine ⟨?_, ?_, ?_, fun hheld => ?_, fun hm => ?_⟩
  · rw [hin, hframes, h.frames_eq]
  · rw [hin, hcapacity, h.capacity_eq]
  · unfold returned
    rw [hanswers, hin, hreceived]
    exact h.returned_eq
  · rw [hin]
    rw [hhandle] at hheld
    exact (h.lossless hheld).step hinbound
  · rw [hin] at hm
    obtain hact | hbefore := hmarked hm
    · exact hmark hact
    · exact isClosed_of_step (h.marked hbefore) hstep

theorem Reads.step {capacity : ℕ} {read : List TungsteniteMessage} {act : ClientAct}
    (h : c.Reads capacity read) (hstep : c.step act = some c') :
    c'.Reads capacity (read ++ act.frame.toList) := by
  have hclosed : c.isClosed = true → c'.isClosed = true := fun hc => isClosed_of_step hc hstep
  cases act with
  | reader act => exact h.reader hstep
  | recv =>
      obtain ⟨-, ⟨answer, inbound⟩, hresult, rfl⟩ := recv_some hstep
      rw [show (ClientAct.frame .recv).toList = [] from rfl, List.append_nil]
      obtain ⟨m, incoming, rfl, hrecv, rfl⟩ | ⟨rfl, rfl, -⟩ := ClientInbound.recv_cases hresult
      · exact h.take hrecv
      · exact h.takeNone
  | tryRecv =>
      obtain ⟨-, rfl⟩ := tryRecv_some hstep
      rw [show (ClientAct.frame .tryRecv).toList = [] from rfl, List.append_nil]
      obtain ⟨m, incoming, htry, hrecv⟩ | ⟨htry, -⟩ := c.inbound.tryRecv_cases
      · rw [htry]
        exact h.take hrecv
      · rw [htry]
        exact h.takeNone
  | start thread call =>
      rw [show (ClientAct.frame (.start thread call)).toList = [] from rfl, List.append_nil]
      obtain ⟨-, -, rfl⟩ := start_some hstep
      exact h.apart rfl rfl id hclosed
  | step thread =>
      rw [show (ClientAct.frame (.step thread)).toList = [] from rfl, List.append_nil]
      obtain ⟨pc, -, rfl⟩ := step_some hstep
      exact h.apart rfl rfl id hclosed
  | drop =>
      rw [show (ClientAct.frame .drop).toList = [] from rfl, List.append_nil]
      obtain ⟨hheld, -, rfl⟩ := drop_some hstep
      exact h.apart rfl rfl (fun _ => by rw [hheld]; simp) hclosed
  | dropped =>
      obtain ⟨-, -, rfl⟩ := dropped_some hstep
      exact ⟨h.frames_eq.trans (List.append_nil _).symm, h.capacity_eq, h.returned_eq,
        fun hheld => absurd rfl hheld, h.marked⟩
  | writer act =>
      rw [show (ClientAct.frame (.writer act)).toList = [] from rfl, List.append_nil]
      have hin : c'.inbound = c.inbound ∧ c'.answers = c.answers ∧ c'.handle = c.handle := by
        obtain ⟨e, tx, -, -, -, rfl⟩ | ⟨-, -, -, -, rfl⟩ | ⟨e, -, -, rfl⟩ | ⟨e, -, -, rfl⟩ |
          ⟨-, -, rfl⟩ | ⟨-, -, rfl⟩ | ⟨-, -, rfl⟩ := writer_cases hstep <;> exact ⟨rfl, rfl, rfl⟩
      exact h.apart hin.1 hin.2.1 (by rw [hin.2.2]; exact id) hclosed

theorem connectWithConfig_ok {capacity : ℕ} {upgrade : WebSocketResult Unit}
    (h : connectWithConfig capacity upgrade = .ok c) : 0 < capacity ∧ c = new capacity := by
  unfold connectWithConfig at h
  split_ifs at h with hzero
  cases upgrade with
  | error e => cases h
  | ok u =>
      cases h
      exact ⟨Nat.pos_of_ne_zero hzero, rfl⟩

theorem reads_of_exec {capacity : ℕ} {acts : List ClientAct}
    (hrun : exec step (new capacity) acts = some c) : c.Reads capacity (framesRead acts) := by
  refine exec_history (P := fun acts c => c.Reads capacity (framesRead acts)) ?_
    (reads_new capacity) hrun
  intro acts c₁ act c₂ h₁ hstep
  have h := h₁.step hstep
  unfold framesRead at h ⊢
  rw [List.filterMap_append]
  cases hframe : act.frame with
  | none => simpa [hframe] using h
  | some frame => simpa [hframe] using h

/-- **Nothing read is lost**: in every run of a client that is not dropped, what `recv` and
`try_recv` have returned, what is queued and what the reader is waiting to enqueue are together the
conversions of the frames read, in order; the queue is within its capacity; at most the last frame
read is a Close, it is converted to the message that `Message::close` makes, and no other frame is
converted to a Close.  Here `try_recv` returns the oldest
message that is queued, if there is one, and `recv` returns that or, if it returns nothing,
everything read has been returned and the flag is set. -/
theorem recv_lossless (capacity : ℕ) (upgrade : WebSocketResult Unit) (c₀ c : Client)
    (acts : List ClientAct) (hconnect : connectWithConfig capacity upgrade = .ok c₀)
    (hrun : exec step c₀ acts = some c) (hheld : c.handle = .held) :
    c.returned ++ c.inbound.incoming.queue ++ c.inbound.reader.pending =
        (framesRead acts).map Message.ofTungstenite ∧
      c.inbound.incoming.queue.length ≤ capacity ∧
      (∃ before, (∀ m ∈ before.map Message.ofTungstenite, m.isClose = false) ∧
        (framesRead acts = before ∨ ∃ frame, framesRead acts = before ++ [.close frame] ∧
          Message.ofTungstenite (.close frame) = .close)) ∧
      (∀ c', c.step .tryRecv = some c' →
        c'.answers = c.answers ++ [c.inbound.incoming.queue.head?]) ∧
      ∀ c', c.step .recv = some c' →
        c'.answers = c.answers ++ [c.inbound.incoming.queue.head?] ∧
          (c'.answers = c.answers ++ [none] →
            c.returned = (framesRead acts).map Message.ofTungstenite ∧ c.isClosed = true) := by
  obtain ⟨-, rfl⟩ := connectWithConfig_ok hconnect
  have h := reads_of_exec hrun
  have hlossless := h.lossless (by rw [hheld]; simp)
  have hsent := c.inbound.incoming.sent_eq hlossless.rx_open
  have hflow := hlossless.flow
  rw [hsent, h.frames_eq, ← h.returned_eq] at hflow
  have hsome {m : Message} {incoming : BoundedQueue Message}
      (hrecv : c.inbound.incoming.recv? = some (m, incoming)) :
      c.inbound.incoming.queue.head? = some m := by
    rw [(BoundedQueue.recv?_some hrecv).2.1]
    rfl
  have hempty (hrecv : c.inbound.incoming.recv? = none) : c.inbound.incoming.queue = [] := by
    obtain hclosed | hqueue := BoundedQueue.recv?_eq_none_iff.mp hrecv
    · rw [hlossless.rx_open] at hclosed
      cases hclosed
    · exact hqueue
  refine ⟨hflow, ?_, ?_, ?_, ?_⟩
  · rw [← h.capacity_eq]
    exact c.inbound.incoming.length_le
  · obtain ⟨before, hno, hshape⟩ := hlossless.closes_last
    rw [h.frames_eq] at hshape
    refine ⟨before, fun m hm => ?_, hshape.imp_right fun ⟨frame, he⟩ => ⟨frame, he, rfl⟩⟩
    obtain ⟨frame, hframe, rfl⟩ := List.mem_map.mp hm
    rw [isClose_ofTungstenite]
    exact hno frame hframe
  · intro c' hstep
    obtain ⟨-, rfl⟩ := tryRecv_some hstep
    obtain ⟨m, incoming, htry, hrecv⟩ | ⟨htry, hrecv⟩ := c.inbound.tryRecv_cases
    · rw [htry, hsome hrecv]
      rfl
    · rw [htry, hempty hrecv]
      rfl
  · intro c' hstep
    obtain ⟨-, ⟨answer, inbound⟩, hresult, rfl⟩ := recv_some hstep
    obtain ⟨m, incoming, rfl, hrecv, -⟩ | ⟨rfl, -, hstopped, hrecv⟩ :=
      ClientInbound.recv_cases hresult
    · refine ⟨by rw [hsome hrecv]; rfl, fun hnone => ?_⟩
      have hmessage : [some m] = [none] := List.append_cancel_left hnone
      cases hmessage
    · refine ⟨by rw [hempty hrecv]; rfl, fun _ => ⟨?_, h.marked (by rw [hstopped]; rfl)⟩⟩
      rw [hempty hrecv, hstopped] at hflow
      simpa [ClientReaderPc.pending] using hflow

/-- Two frames through a queue of one message; the reader waits until the first one is received. -/
def closeBehindData : List ClientAct :=
  [.reader (.read (.message (.binary [1]))), .reader .enqueue,
    .reader (.read (.message (.close none))), .tryRecv, .reader .enqueue, .reader .mark, .recv,
    .tryRecv, .reader .finish]

theorem recv_lossless_closeBehindData :
    ∃ c, exec step (new 1) closeBehindData = some c ∧
      c.returned = [.binary [1], .close] ∧ c.isClosed = true := by
  obtain ⟨c, hrun, hheld, c', hstep, hnone⟩ : ∃ c, exec step (new 1) closeBehindData = some c ∧
      c.handle = .held ∧ ∃ c', c.step .recv = some c' ∧ c'.answers = c.answers ++ [none] := by
    decide
  have hconnect : connectWithConfig 1 (.ok ()) = .ok (new 1) := rfl
  obtain ⟨-, -, -, -, hlast⟩ := recv_lossless 1 (.ok ()) _ c _ hconnect hrun hheld
  obtain ⟨hreturned, hclosed⟩ := (hlast c' hstep).2 hnone
  exact ⟨c, hrun, hreturned, hclosed⟩

end Client
end ArmatureWebsocket
