import ArmatureWebsocket.Session
import ArmatureWebsocket.WriterRuns

/-! # What may be put on the wire

A control frame may carry 125 bytes.  The conversion to the wire form looks at texts only, so a ping
or a pong with a longer payload passes it, and the writer hands the frame to the sink.  Such a
message comes from a send of the application or from what `on_ping` returned for an inbound ping;
`pongWith longPong` is a run of the second kind.

What the conversion yields may be put on the wire exactly when the message fits (`legal_iff`), and
in a session exactly when every message fits that the writer takes from the queue, which is so when
everything fits that the application sends and `on_ping` returns (`frames_legal`). -/

namespace ArmatureWebsocket

open Execution CallPool

/-- The most bytes that a control frame carries. -/
def maxControlPayload : ℕ := 125

/-- The frame may be put on the wire; a status code takes two bytes, and a raw frame is nobody's
business here. -/
def TungsteniteMessage.Legal : TungsteniteMessage → Prop
  | .text payload => Utf8.isUtf8 payload.val = true
  | .binary _ => True
  | .ping data => data.length ≤ maxControlPayload
  | .pong data => data.length ≤ maxControlPayload
  | .close none => True
  | .close (some closing) => 2 + closing.reason.val.length ≤ maxControlPayload
  | .frame _ => False

/-- A ping or a pong fits in a control frame. -/
def Message.Fits (m : Message) : Prop :=
  m.messageType = .ping ∨ m.messageType = .pong → m.payload.length ≤ maxControlPayload

instance (m : Message) : Decidable m.Fits := inferInstanceAs (Decidable (_ → _))

/-- The queued message's frame, if it has one, may be put on the wire. -/
def Envelope.Legal (e : Envelope) : Prop := ∀ frame, e.wire = some frame → frame.Legal

section conversion

variable {m : Message} {raw : TungsteniteMessage}

theorem legal_iff (h : m.wire = some raw) : raw.Legal ↔ m.Fits := by
  unfold Message.wire Message.toTungstenite at h
  unfold Message.Fits
  cases hm : m.messageType with
  | text =>
      simp only [hm] at h
      split_ifs at h with hutf8
      · cases h
        have hlegal : (TungsteniteMessage.text ⟨m.payload, hutf8⟩).Legal := hutf8
        exact iff_of_true hlegal (by simp)
      · cases h
  | binary =>
      simp only [hm] at h
      cases h
      have hlegal : (TungsteniteMessage.binary m.payload).Legal := trivial
      exact iff_of_true hlegal (by simp)
  | ping =>
      simp only [hm] at h
      cases h
      exact ⟨fun hle _ => hle, fun hfits => hfits (.inl rfl)⟩
  | pong =>
      simp only [hm] at h
      cases h
      exact ⟨fun hle _ => hle, fun hfits => hfits (.inr rfl)⟩
  | close =>
      simp only [hm] at h
      cases h
      have hlegal : (TungsteniteMessage.close none).Legal := trivial
      exact iff_of_true hlegal (by simp)

theorem envelope_legal_iff {e : Envelope} (h : e.message.sendable = true) :
    e.Legal ↔ e.message.Fits := by
  obtain ⟨raw, hraw⟩ := Option.isSome_iff_exists.mp ((wire_isSome e.message).trans h)
  rw [← legal_iff hraw]
  refine ⟨fun hall => hall raw hraw, fun hlegal frame hframe => ?_⟩
  rw [show e.wire = some raw from hraw] at hframe
  cases hframe
  exact hlegal

theorem fits_close : Message.close.Fits := fun h => by rcases h with h | h <;> cases h

theorem fits_of_not_sendable (h : m.sendable = false) : m.Fits := by
  rw [Message.sendable_eq_false_iff] at h
  intro hcontrol
  rw [h.1] at hcontrol
  simp at hcontrol

/-- The frames that the writer loop gives the sink are legal exactly when the messages fit that it
comes to. -/
theorem run_legal_iff (failure : Option (ℕ × String)) (ms : List Message) :
    (∀ frame ∈ (ConnectionWriter.run (.new failure) ms).1.given, frame.Legal) ↔
      ∀ m ∈ offered (Sink.new failure).failsAt (writerRelay.due ms), m.Fits := by
  have hgiven : (ConnectionWriter.run (.new failure) ms).1.given
      = (offered (Sink.new failure).failsAt (writerRelay.due ms)).filterMap Message.wire := by
    rw [filterMap_offered wire_isSome_of_due]
    exact run_given (.new failure) ms fun _ _ => Nat.zero_le _
  rw [hgiven]
  refine ⟨fun hlegal m hm => ?_, fun hfits frame hframe => ?_⟩
  · have hdue : m ∈ writerRelay.due ms := offered_subset hm
    obtain ⟨raw, hraw⟩ := Option.isSome_iff_exists.mp (wire_isSome_of_due m hdue)
    exact (legal_iff hraw).mp (hlegal raw (List.mem_filterMap.mpr ⟨m, hm, hraw⟩))
  · obtain ⟨m, hm, hraw⟩ := List.mem_filterMap.mp hframe
    exact (legal_iff hraw).mpr (hfits m hm)

end conversion

/-- The message of a send that has not been enqueued yet. -/
def ConnPc.carries : ConnPc → Option Message
  | .sendCheck m => some m
  | .sendTry m => some m
  | _ => none

namespace Outbound

/-- Every frame that the sink was given, or is being given, may be put on the wire. -/
def GivesLegal (o : Outbound) : Prop :=
  (∀ e ∈ o.handed, e.Legal) ∧ ∀ e, o.writer = .sending e → e.Legal

/-- If the writer takes a message from the queue, the message fits. -/
def TakesFitting (o : Outbound) (act : OutAct) : Prop :=
  act = .recv → ∀ e ∈ o.tx.queue.head?, e.message.Fits

variable {o o' : Outbound} {act : OutAct} {P : Message → Prop}

theorem recv_some (h : o.step .recv = some o') : ∃ e tx, o.tx.recv? = some (e, tx) := by
  simp only [step] at h
  split at h
  · exact ⟨_, _, ‹_›⟩
  · cases h

theorem givesLegal_step (h : o.GivesLegal) (hstep : o.step act = some o') :
    o'.GivesLegal ↔ o.TakesFitting act := by
  have hkeep (hact : act ≠ .recv) (h' : o'.GivesLegal) : o'.GivesLegal ↔ o.TakesFitting act :=
    iff_of_true h' fun he => absurd he hact
  obtain ⟨who, call, pool, rfl, -, -, rfl⟩ | ⟨who, pool, rfl, -, rfl⟩ |
    ⟨rfl, -, rfl⟩ | ⟨e, tx, rfl, hw, hrecv, rfl⟩ | ⟨rfl, -, -, -, rfl⟩ | ⟨e, rfl, hw, rfl⟩ |
    ⟨e, rfl, -, rfl⟩ | ⟨rfl, -, rfl⟩ | ⟨rfl, -, -, rfl⟩ | ⟨rfl, -, rfl⟩ | ⟨rfl, -, rfl⟩ :=
    step_cases hstep
  · exact hkeep (by simp) h
  · exact hkeep (by simp) h
  · exact hkeep (by simp) ⟨h.1, nofun⟩
  · obtain ⟨-, hqueue, -⟩ := BoundedQueue.recv?_some hrecv
    have htakes : o.TakesFitting .recv ↔ e.message.Fits := by
      unfold TakesFitting
      simp [hqueue]
    rw [htakes]
    by_cases hs : e.message.sendable = true
    · rw [← envelope_legal_iff hs]
      refine ⟨fun h' => h'.2 e (if_pos hs), fun he => ⟨h.1, fun e' he' => ?_⟩⟩
      simp only [hs, if_true] at he'
      cases he'
      exact he
    · refine iff_of_true ⟨h.1, fun e' he' => ?_⟩ (fits_of_not_sendable (by simpa using hs))
      simp [hs] at he'
  · exact hkeep (by simp) ⟨h.1, nofun⟩
  · refine hkeep (by simp) ⟨fun e' he' => ?_, fun e' he' => ?_⟩
    · obtain he' | he' := List.mem_append.mp he'
      · exact h.1 e' he'
      · obtain rfl := List.mem_singleton.mp he'
        exact h.2 e' hw
    · simp only at he'
      split_ifs at he'
  · exact hkeep (by simp) ⟨h.1, nofun⟩
  · exact hkeep (by simp) ⟨h.1, nofun⟩
  · exact hkeep (by simp) ⟨h.1, nofun⟩
  · exact hkeep (by simp) h
  · exact hkeep (by simp) h

/-- All messages in the queue and on their way into it satisfy `P`. -/
structure Carries (P : Message → Prop) (o : Outbound) : Prop where
  sent : ∀ e ∈ o.tx.sent, P e.message
  calls : ∀ who f m, o.pool.threads.lookup who = some f → f.pc.carries = some m → P m

theorem carries_new (capacity : ℕ) : (new capacity).Carries P where
  sent := nofun
  calls := by
    intro who f m hf
    simp [new, ConnPool.new] at hf

theorem Carries.step (h : o.Carries P) (hclose : P .close) (hstep : o.step act = some o')
    (hstart : ∀ who m, act = .start who (.send m) → P m) : o'.Carries P := by
  obtain ⟨who, call, pool, rfl, -, -, -⟩ | ⟨who, pool, rfl, -, -⟩ |
    ⟨rfl, -, rfl⟩ | ⟨e, tx, rfl, -, hrecv, rfl⟩ | ⟨rfl, -, -, -, rfl⟩ | ⟨e, rfl, -, rfl⟩ |
    ⟨e, rfl, -, rfl⟩ | ⟨rfl, -, rfl⟩ | ⟨rfl, -, -, rfl⟩ | ⟨rfl, -, rfl⟩ | ⟨rfl, -, rfl⟩ :=
    step_cases hstep
  · obtain ⟨-, -, rfl⟩ := start_some hstep
    refine ⟨h.sent, fun who' f m hf hm => ?_⟩
    have hbegun : (o.pool.begun who call).threads.lookup who' = some f := hf
    rw [lookup_begun] at hbegun
    split_ifs at hbegun with he
    · cases hbegun
      cases call with
      | send m' =>
          cases hm
          exact hstart who m rfl
      | close => cases hm
      | setState st => cases hm
    · exact h.calls who' f m hbegun hm
  · obtain ⟨f, hf, rfl⟩ := call_some hstep
    refine ⟨?_, fun who' f' m hf' hm => ?_⟩
    · intro e he
      have hsent : e ∈ (f.pc.after who o.pool.shared).tx.sent := by
        simpa [tx, ConnPool.moved] using he
      obtain htx | ⟨m, hpc, htx⟩ | ⟨-, htx⟩ := after_tx who o.pool.shared f.pc
      · rw [htx] at hsent
        exact h.sent e hsent
      · rw [htx, BoundedQueue.sent_offer] at hsent
        split_ifs at hsent
        · obtain hsent | hsent := List.mem_append.mp hsent
          · exact h.sent e hsent
          · obtain rfl := List.mem_singleton.mp hsent
            exact h.calls who f m hf (by rw [hpc]; rfl)
        · exact h.sent e hsent
      · rw [htx, BoundedQueue.sent_offer] at hsent
        split_ifs at hsent
        · obtain hsent | hsent := List.mem_append.mp hsent
          · exact h.sent e hsent
          · obtain rfl := List.mem_singleton.mp hsent
            exact hclose
        · exact h.sent e hsent
    · obtain ⟨-, hf'⟩ | ⟨rfl, hnext⟩ := lookup_moved hf'
      · exact h.calls who' f' m hf' hm
      · cases hconn : (connStep who' o.pool.shared f.pc).2 with
        | inr reply =>
            rw [hconn] at hnext
            cases hnext
        | inl pc =>
            rw [hconn] at hnext
            cases hnext
            obtain ⟨m', hpc, rfl, -⟩ | ⟨m', -, rfl, -⟩ | ⟨m', -, rfl⟩ | ⟨-, rfl⟩ | ⟨-, rfl, -⟩ :=
              connStep_next hconn
            · cases hm
              exact h.calls who' f m hf (by rw [hpc]; rfl)
            · cases hm
            · cases hm
            · cases hm
            · cases hm
  · exact ⟨h.sent, h.calls⟩
  · obtain ⟨-, -, -, -, hsent, -⟩ := BoundedQueue.recv?_some hrecv
    refine ⟨fun e' he' => ?_, h.calls⟩
    have hmem : e' ∈ tx.sent := he'
    rw [hsent] at hmem
    exact h.sent e' hmem
  · exact ⟨h.sent, h.calls⟩
  · exact ⟨h.sent, h.calls⟩
  · exact ⟨h.sent, h.calls⟩
  · exact ⟨h.sent, h.calls⟩
  · exact ⟨h.sent, h.calls⟩
  · exact ⟨h.sent, h.calls⟩
  · exact ⟨h.sent, h.calls⟩

end Outbound

/-- The task is in a call of `on_ping`. -/
def Stage.awaitsOnPing : Stage → Bool
  | .handling (.onPing _) => true
  | _ => false

namespace Session

/-- If the writer takes a message from the queue, the message fits. -/
def TakesFitting (s : Session) (act : SessionAct) (_ : Session) : Prop :=
  act = .outside .recv → ∀ e ∈ s.out.tx.queue.head?, e.message.Fits

/-- What the application sends fits, and so does what `on_ping` returns. -/
def SendsFitting (s : Session) : SessionAct → Session → Prop
  | .outside (.start _ (.send m)), _ => m.Fits
  | .callbackReturned pong, _ => s.stage.awaitsOnPing = true → pong.length ≤ maxControlPayload
  | _, _ => True

instance (s : Session) (act : SessionAct) (s' : Session) : Decidable (SendsFitting s act s') :=
  match act with
  | .outside (.start _ (.send m)) => inferInstanceAs (Decidable m.Fits)
  | .callbackReturned _ => inferInstanceAs (Decidable (_ → _))
  | .outside (.start _ .close) | .outside (.start _ (.setState _)) | .outside (.step _)
  | .outside .spawn | .outside .recv | .outside .recvNone | .outside .accept | .outside .refuse
  | .outside .sinkClosed | .outside .abort | .outside .evicted | .outside .dropSenders
  | .handshaken _ _ | .registered | .connected _ | .tick | .evicted | .idle | .read _ _
  | .callbackPanicked | .taskStep | .teardown | .joined | .timedOut | .disconnected =>
      .isTrue trivial

variable {config : WebSocketServerConfig} {instantMax : ℕ} {s s' : Session} {act : SessionAct}

/-- The routes into the queue: a step of others, or a step of the task, which sends a heartbeat's
ping or a pong with what `on_ping` returned. -/
theorem step_routes (h : s.step config instantMax act = some s') :
    (∃ a, act = .outside a ∧ s.out.step a = some s'.out) ∨
      (∀ a, act ≠ .outside a) ∧ (s'.out = s.out ∨ ∃ a, s.out.step a = some s'.out ∧ a ≠ .recv ∧
        ∀ who m, a = .start who (.send m) → m = .ping [] ∨
          ∃ pong payload, act = .callbackReturned pong ∧ s.stage = .handling (.onPing payload) ∧
            m = .pong pong) := by
  have hother {call : ConnCall} {stage : Stage} {t : Session}
      (hbegin : t.begin call stage = some s') (ht : t.out = s.out) (hcall : ∀ m, call ≠ .send m) :
      s'.out = s.out ∨ ∃ a, s.out.step a = some s'.out ∧ a ≠ .recv ∧
        ∀ who m, a = .start who (.send m) → m = .ping [] ∨
          ∃ pong payload, act = .callbackReturned pong ∧ s.stage = .handling (.onPing payload) ∧
            m = .pong pong := by
    refine .inr ⟨.start .task call, ?_, by simp, fun who m ha => ?_⟩
    · rw [← ht]
      exact (begin_some hbegin).2.1
    · cases ha
      exact absurd rfl (hcall m)
  cases act with
  | outside a => exact .inl ⟨a, rfl, (outside_some h).2.1⟩
  | handshaken outcome id =>
      obtain ⟨-, rfl⟩ := handshaken_some h
      exact .inr ⟨by simp, .inl handshakeEnd_out⟩
  | registered =>
      obtain ⟨-, rfl⟩ := registered_some h
      exact .inr ⟨by simp, .inl rfl⟩
  | connected now =>
      obtain ⟨out, -, hout, rfl⟩ := connected_some h
      refine .inr ⟨by simp, .inr ⟨.spawn, ?_, by simp, by simp⟩⟩
      rw [hout, enterLoop_out, withOut_out]
  | tick =>
      obtain ⟨-, ⟨vars, why, -, rfl⟩ | ⟨vars, -, hbegin⟩⟩ := tick_some h
      · exact .inr ⟨by simp, .inl rfl⟩
      · refine .inr ⟨by simp, .inr ⟨_, (begin_some hbegin).2.1, by simp, fun who m ha => ?_⟩⟩
        cases ha
        exact .inl rfl
  | evicted =>
      obtain ⟨out, -, hout, rfl⟩ := evicted_some h
      exact .inr ⟨by simp, .inr ⟨.evicted, hout, by simp, by simp⟩⟩
  | idle =>
      obtain ⟨-, rfl⟩ := idle_some h
      exact .inr ⟨by simp, .inl rfl⟩
  | read now result =>
      obtain ⟨-, rfl⟩ := read_some h
      exact .inr ⟨by simp, .inl afterRead_out⟩
  | callbackReturned pong =>
      obtain ⟨cb, hstage, ⟨-, rfl⟩ | ⟨hresume, hbegin⟩ | ⟨why, -, rfl⟩⟩ := callbackReturned_some h
      · exact .inr ⟨by simp, .inl loopHead_out⟩
      · refine .inr ⟨by simp, .inr ⟨_, (begin_some hbegin).2.1, by simp, fun who m ha => ?_⟩⟩
        cases ha
        cases cb with
        | onPing payload => exact .inr ⟨pong, payload, rfl, hstage, rfl⟩
        | onMessage message => cases hresume
        | onPong payload => cases hresume
        | onError reason => cases hresume
      · exact .inr ⟨by simp, .inl rfl⟩
  | callbackPanicked =>
      obtain ⟨-, out, hout, rfl⟩ | ⟨-, rfl⟩ := callbackPanicked_some h
      · exact .inr ⟨by simp, .inr ⟨.abort, hout, by simp, by simp⟩⟩
      · exact .inr ⟨by simp, .inl rfl⟩
  | taskStep =>
      obtain ⟨f, out, -, hout, -, ⟨pc, -, rfl⟩ | ⟨reply, -, rfl⟩⟩ := taskStep_some h
      · exact .inr ⟨by simp, .inr ⟨_, hout, by simp, by simp⟩⟩
      · refine .inr ⟨by simp, .inr ⟨.step .task, ?_, by simp, by simp⟩⟩
        rw [hout, callReturned_out, withOut_out]
  | teardown => exact .inr ⟨by simp, hother (teardown_some h).2 rfl (by simp)⟩
  | joined => exact .inr ⟨by simp, hother (joined_some h).2.2 rfl (by simp)⟩
  | timedOut => exact .inr ⟨by simp, hother (timedOut_some h).2 rfl (by simp)⟩
  | disconnected =>
      obtain ⟨-, rfl⟩ := disconnected_some h
      exact .inr ⟨by simp, .inl rfl⟩

theorem givesLegal_step (hlegal : s.out.GivesLegal) (h : s.step config instantMax act = some s') :
    s'.out.GivesLegal ↔ TakesFitting s act s' := by
  obtain ⟨a, rfl, hout⟩ | ⟨hact, he | ⟨a, hout, hrecv, -⟩⟩ := step_routes h
  · rw [Outbound.givesLegal_step hlegal hout]
    unfold Outbound.TakesFitting TakesFitting
    simp
  · rw [he]
    exact iff_of_true hlegal fun hrecv => absurd hrecv (hact _)
  · rw [Outbound.givesLegal_step hlegal hout]
    exact iff_of_true (fun ha => absurd ha hrecv) fun ha => absurd ha (hact _)

theorem carries_step (hcarries : s.out.Carries Message.Fits)
    (h : s.step config instantMax act = some s') (hsends : SendsFitting s act s') :
    s'.out.Carries Message.Fits := by
  obtain ⟨a, rfl, hout⟩ | ⟨-, he | ⟨a, hout, -, hstart⟩⟩ := step_routes h
  · refine hcarries.step fits_close hout fun who m ha => ?_
    subst ha
    exact hsends
  · rw [he]
    exact hcarries
  · refine hcarries.step fits_close hout fun who m ha => ?_
    obtain rfl | ⟨pong, payload, rfl, hstage, rfl⟩ := hstart who m ha
    · exact fun _ => Nat.zero_le _
    · exact fun _ => hsends (by rw [hstage]; rfl)

theorem takesFitting_of_carries (hcarries : s.out.Carries Message.Fits)
    (h : s.step config instantMax act = some s') : TakesFitting s act s' := by
  rintro rfl e he
  obtain ⟨x, tx, hrecv⟩ := Outbound.recv_some (outside_some h).2.1
  apply hcarries.sent
  rw [s.out.tx.sent_eq (BoundedQueue.recv?_some hrecv).1]
  exact List.mem_append_right _ (List.mem_of_mem_head? he)

end Session

/-- **Which frames may be put on the wire**: what the conversion yields may exactly when the message
fits in its frame, and what the writer loop gives the sink exactly when the messages fit that it
comes to.  In a session every frame that the sink is given may be put on the wire if and only if
every message fits that the writer takes from the queue; this is so if everything fits that the
application sends and that `on_ping` returns. -/
theorem frames_legal (config : WebSocketServerConfig) (instantMax : ℕ) (acts : List SessionAct) :
    (∀ (m : Message) raw, m.toTungstenite = .ok raw → (raw.Legal ↔ m.Fits)) ∧
    (∀ failure ms, (∀ frame ∈ (ConnectionWriter.run (.new failure) ms).1.given, frame.Legal) ↔
      ∀ m ∈ offered (Sink.new failure).failsAt (writerRelay.due ms), m.Fits) ∧
    (Along (Session.step config instantMax) (fun _ _ s' => s'.out.GivesLegal) (.new config) acts ↔
      Along (Session.step config instantMax) Session.TakesFitting (.new config) acts) ∧
    (Along (Session.step config instantMax) Session.SendsFitting (.new config) acts →
      Along (Session.step config instantMax) (fun _ _ s' => s'.out.GivesLegal) (.new config)
        acts) := by
  have hnew : (Session.new config).out.GivesLegal := ⟨nofun, nofun⟩
  have htakes : Along (Session.step config instantMax) (fun _ _ s' => s'.out.GivesLegal)
      (.new config) acts ↔
        Along (Session.step config instantMax) Session.TakesFitting (.new config) acts := by
    refine along_iff_of_kept (I := fun _ => True) (B := fun s : Session => s.out.GivesLegal)
      (R := fun _ _ _ => True) ?_ trivial hnew (along_of_forall_mem fun _ _ => trivial)
    intro s act s' _ hlegal hstep _
    exact ⟨trivial, Session.givesLegal_step hlegal hstep⟩
  refine ⟨fun m raw h => legal_iff (wire_of_ok h), run_legal_iff, htakes, fun hsends => ?_⟩
  apply htakes.mpr
  refine (along_iff_of_kept (I := fun s : Session => s.out.Carries Message.Fits)
    (B := fun _ => True) ?_ (Outbound.carries_new _) trivial hsends).mp
    (along_of_forall_mem fun _ _ => trivial)
  intro s act s' hcarries _ hstep hsends'
  exact ⟨Session.carries_step hcarries hstep hsends',
    iff_of_true trivial (Session.takesFitting_of_carries hcarries hstep)⟩

/-- An inbound ping, for which `on_ping` returns these bytes; the pong is handed to the sink. -/
def pongWith (pong : Bytes) : List SessionAct :=
  [.handshaken (.ok (some .anonymous)) "a", .registered, .connected 0,
    .read 1 (.message (.ping [])), .callbackReturned pong, .taskStep, .taskStep, .outside .recv,
    .outside .accept]

theorem frames_legal_pongWith :
    Along (Session.step .default (10 ^ 18)) (fun _ _ s' => s'.out.GivesLegal) (.new .default)
      (pongWith [8]) :=
  (frames_legal .default (10 ^ 18) (pongWith [8])).2.2.2 (by decide)

/-- A payload of one byte more than a control frame carries. -/
def longPong : Bytes := List.replicate 126 0

/-- The conversion lets it pass, and the sink is given a frame that must not be put on the wire. -/
theorem illegal_longPong :
    (Message.pong longPong).toTungstenite = .ok (.pong longPong) ∧
      ∃ s, exec (Session.step .default (10 ^ 18)) (.new .default) (pongWith longPong) = some s ∧
        ∃ e ∈ s.out.handed, ∃ frame, e.wire = some frame ∧ ¬ frame.Legal := by
  obtain ⟨s, hrun, hhanded⟩ : ∃ s, exec (Session.step .default (10 ^ 18)) (.new .default)
      (pongWith longPong) = some s ∧ s.out.handed = [⟨.task, .send, .pong longPong⟩] := by
    decide +kernel
  refine ⟨rfl, s, hrun, ⟨.task, .send, .pong longPong⟩, ?_, .pong longPong, rfl, ?_⟩
  · rw [hhanded]
    exact List.mem_singleton_self _
  · intro hle
    have hlong : longPong.length = 126 := rfl
    have hmost : longPong.length ≤ 125 := hle
    omega

end ArmatureWebsocket
