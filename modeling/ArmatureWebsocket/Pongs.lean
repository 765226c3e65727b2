import ArmatureWebsocket.Contract
import ArmatureWebsocket.EndToEnd

/-! # Pings are answered

The read loop answers a ping with a pong that has what `on_ping` returned, by a `send` of its own
whose result it does not look at, and reads on when that has returned.  What the handler returns for
a ping is in a relation `R` to the ping's payload; for the handler that does not override `on_ping`
it is equality.

A failed send leaves the connection shut (`NoHoles`), so the pongs that the queue accepted answer
the pings that were read first, in order and one each (`Session.Answering`), and while the loop
waits and the connection is open they answer all of them.  Pings travel up and pongs down the wire
of `Link`, between frames that the protocol library makes by itself: what the client has read of the
task's pongs answers what its application pinged first (`pings_answered`). -/

namespace ArmatureWebsocket

open Execution CallPool

/-! ### Answers in order -/

section answers

variable {α β : Type*} {R : α → β → Prop} {asked asked' : List α} {answers answers' : List β}

/-- The answers are those to what was asked first, in order. -/
def AnswersFirst (R : α → β → Prop) (asked : List α) (answers : List β) : Prop :=
  ∃ first, first <+: asked ∧ List.Forall₂ R first answers

theorem AnswersFirst.mono (h : AnswersFirst R asked answers) (hasked : asked <+: asked')
    (hanswers : answers' <+: answers) : AnswersFirst R asked' answers' := by
  obtain ⟨first, hfirst, hall⟩ := h
  obtain ⟨rest, rfl⟩ := hanswers
  refine ⟨first.take answers'.length, ?_, List.forall₂_take_append _ _ _ hall⟩
  exact ((List.take_prefix _ _).trans hfirst).trans hasked

end answers

/-! ### The pings read and the pongs sent -/

/-- The ping that `on_ping` is being called for. -/
def Stage.asked : Stage → List Bytes
  | .handling (.onPing payload) => [payload]
  | _ => []

/-- The ping that a read yields. -/
def ReadResult.pinged (result : ReadResult) : List Bytes :=
  payloadsOf Message.isPing (result.frame.toList.map Message.ofTungstenite)

theorem asked_of_afterRead {result : ReadResult} {callback : Callback}
    (h : afterRead result = .call callback) : result.pinged = (Stage.handling callback).asked := by
  cases result with
  | message msg =>
      cases msg <;> cases h <;> rfl
  | error reason =>
      cases h
      rfl
  | endOfStream => cases h

theorem asked_of_resume {callback : Callback} (h : callback.resume = .pong) :
    ∃ payload, (Stage.handling callback).asked = [payload] := by
  cases callback with
  | onPing payload => exact ⟨payload, rfl⟩
  | _ => cases h

theorem asked_of_select {callback : Callback} (h : callback.resume = .select) :
    (Stage.handling callback).asked = [] := by
  cases callback with
  | onPing payload => cases h
  | _ => rfl

theorem Stage.Moves.asked_eq {stage stage' : Stage} {act : SessionAct}
    (h : stage.Moves act stage') (hread : act.result = none) (hanswer : act.answer = none)
    (hover : stage'.loopOver = false) : stage'.asked = stage.asked := by
  cases h with
  | called now result callback => cases hread
  | resumed callback pong => cases hanswer
  | answered callback pong => cases hanswer
  | failed callback pong why => cases hover
  | panicked stage act why hdone => cases hover
  | _ => rfl

namespace Session

variable {config : WebSocketServerConfig} {instantMax : ℕ} {R : Bytes → Bytes → Prop}
  {s s' : Session} {act : SessionAct}

/-- The pings read. -/
def pingsRead (s : Session) : List Bytes :=
  payloadsOf Message.isPing ((s.yielded.filterMap ReadResult.frame).map Message.ofTungstenite)

/-- The task's pongs that the queue accepted. -/
def pongsQueued (s : Session) : List Bytes :=
  payloadsOf Message.isPong (s.out.pool.acceptedBy .task)

/-- What `on_ping` returns is in the relation to what it was called with. -/
def AnswersPings (R : Bytes → Bytes → Prop) (s : Session) : SessionAct → Session → Prop
  | .callbackReturned pong, _ => ∀ payload ∈ s.stage.asked, R payload pong
  | _, _ => True

instance [DecidableRel R] (s : Session) (act : SessionAct) (s' : Session) :
    Decidable (AnswersPings R s act s') :=
  match act with
  | .callbackReturned _ => inferInstanceAs (Decidable (∀ _ ∈ _, _))
  | .outside _ | .handshaken _ _ | .registered | .connected _ | .tick | .evicted | .idle | .read _ _
  | .callbackPanicked | .taskStep | .teardown | .joined | .timedOut | .disconnected =>
      .isTrue trivial

/-- The pongs answer the pings read first, and in the loop all but the one that `on_ping` is being
called for. -/
structure Answering (R : Bytes → Bytes → Prop) (s : Session) : Prop where
  first : AnswersFirst R s.pingsRead s.pongsTried
  all : s.stage.loopOver = false →
    ∃ asked, s.pingsRead = asked ++ s.stage.asked ∧ List.Forall₂ R asked s.pongsTried

theorem answering_new : (new config).Answering R where
  first := ⟨[], List.prefix_rfl, .nil⟩
  all := fun _ => ⟨[], rfl, .nil⟩

theorem Answering.kept (h : s.Answering R) (hpings : s'.pingsRead = s.pingsRead)
    (hpongs : s'.pongsTried = s.pongsTried)
    (hstage : s'.stage.loopOver = false →
      s.stage.loopOver = false ∧ s'.stage.asked = s.stage.asked) : s'.Answering R := by
  refine ⟨?_, fun hover => ?_⟩
  · rw [hpings, hpongs]
    exact h.first
  · obtain ⟨hover, hasked⟩ := hstage hover
    rw [hpings, hpongs, hasked]
    exact h.all hover

theorem pingsRead_of_reading (h : s'.reading = s.reading) : s'.pingsRead = s.pingsRead := by
  have hyielded : s'.yielded = s.yielded := congrArg Prod.fst h
  unfold pingsRead
  rw [hyielded]

/-- A frame is read. -/
theorem Answering.read {now : ℕ} {result : ReadResult} (h : s.Answering R)
    (hstep : s.step config instantMax (.read now result) = some s') : s'.Answering R := by
  have hpongs : s'.pongsTried = s.pongsTried := pongsTried_of_step hstep rfl
  obtain ⟨hs, rfl⟩ := read_some hstep
  obtain ⟨asked, hasked, hall⟩ := h.all (by rw [hs]; rfl)
  rw [hs] at hasked
  have hpings : (s.afterRead now result).pingsRead = asked ++ result.pinged := by
    have hyielded : (s.afterRead now result).yielded = s.yielded ++ [result] := by
      unfold Session.afterRead
      split <;> rfl
    have hpings : asked = s.pingsRead := by
      rw [hasked]
      exact (List.append_nil _).symm
    unfold pingsRead at hpings ⊢
    rw [hyielded, List.filterMap_append, List.map_append, payloadsOf_append, ← hpings]
    unfold ReadResult.pinged
    cases hframe : result.frame <;> simp [hframe]
  have hasks (hover : (s.afterRead now result).stage.loopOver = false) :
      (s.afterRead now result).stage.asked = result.pinged := by
    unfold Session.afterRead at hover ⊢
    split at hover
    · cases hover
    · rename_i callback hcall
      rw [asked_of_afterRead hcall]
      rfl
  refine ⟨⟨asked, ?_, ?_⟩, fun hover => ⟨asked, ?_, ?_⟩⟩
  · rw [hpings]
    exact List.prefix_append _ _
  · rw [hpongs]
    exact hall
  · rw [hpings, hasks hover]
  · rw [hpongs]
    exact hall

/-- A callback returns. -/
theorem Answering.callbackReturned {pong : Bytes} (h : s.Answering R)
    (hstep : s.step config instantMax (.callbackReturned pong) = some s')
    (hanswers : AnswersPings R s (.callbackReturned pong) s') : s'.Answering R := by
  have hpings : s'.pingsRead = s.pingsRead :=
    pingsRead_of_reading (reading_of_step hstep rfl)
  obtain ⟨callback, hs, ⟨hresume, rfl⟩ | ⟨hresume, hbegin⟩ | ⟨why, -, rfl⟩⟩ :=
    callbackReturned_some hstep
  · have hpongs : (s.loopHead config instantMax).pongsTried = s.pongsTried := by
      unfold pongsTried
      rw [loopHead_out]
    refine h.kept hpings hpongs fun hover => ⟨by rw [hs]; rfl, ?_⟩
    rw [hs, asked_of_select hresume]
    obtain he | ⟨call, he⟩ := loopHead_cases config instantMax s
    · rw [he]
      rfl
    · rw [he] at hover
      cases hover
  · obtain ⟨payload, hpayload⟩ := asked_of_resume hresume
    obtain ⟨asked, hasked, hall⟩ := h.all (by rw [hs]; rfl)
    have hanswer : R payload pong := hanswers payload (by rw [hs, hpayload]; simp)
    have hpongs : s'.pongsTried = s.pongsTried ++ [pong] := pongsTried_begin hbegin
    have hall' : List.Forall₂ R s'.pingsRead s'.pongsTried := by
      rw [hpings, hasked, hs, hpayload, hpongs]
      exact List.rel_append hall (.cons hanswer .nil)
    refine ⟨⟨s'.pingsRead, List.prefix_rfl, hall'⟩, fun _ => ⟨s'.pingsRead, ?_, hall'⟩⟩
    rw [begin_stage hbegin]
    exact (List.append_nil _).symm
  · exact h.kept hpings rfl fun hover => by cases hover

theorem Answering.step (h : s.Answering R) (hstep : s.step config instantMax act = some s')
    (hanswers : AnswersPings R s act s') : s'.Answering R := by
  cases hresult : act.result with
  | some result =>
      cases act with
      | read now result => exact h.read hstep
      | _ => cases hresult
  | none =>
      cases hanswer : act.answer with
      | some pong =>
          cases act with
          | callbackReturned pong => exact h.callbackReturned hstep hanswers
          | _ => cases hanswer
      | none =>
          refine h.kept (pingsRead_of_reading (reading_of_step hstep hresult))
            (pongsTried_of_step hstep hanswer) fun hover => ?_
          obtain hstage | hmoves := stage_moves hstep
          · rw [hstage] at hover ⊢
            exact ⟨hover, rfl⟩
          · refine ⟨?_, hmoves.asked_eq hresult hanswer hover⟩
            by_contra hnot
            rw [hmoves.loopOver (by simpa using hnot)] at hover
            cases hover

/-- What holds of the pongs of a task that has made none since it was last asked: those accepted
answer the pings read first, and while the loop waits on an open connection all of them. -/
theorem Answering.queued {capacity : ℕ} (h : s.Answering R) (hsound : s.out.pool.Sound capacity)
    (hengaged : s.Engaged) :
    AnswersFirst R s.pingsRead s.pongsQueued ∧
      (s.stage = .selecting → ¬ s.out.pool.shared.Shut →
        List.Forall₂ R s.pingsRead s.pongsQueued) := by
  have haccepted : s.pongsQueued <+: s.pongsTried :=
    payloadsOf_isPrefix ((hsound.initial .task).trans (List.prefix_append _ _))
  refine ⟨h.first.mono List.prefix_rfl haccepted, fun hs hshut => ?_⟩
  obtain ⟨asked, hasked, hall⟩ := h.all (by rw [hs]; rfl)
  have hidle : s.Idle := hengaged.idle (by rw [hs]; rfl)
  have hqueued : s.pongsQueued = s.pongsTried := by
    unfold pongsQueued pongsTried
    rw [hsound.acceptedBy_eq hshut, ConnPool.attemptedBy_of_idle hidle]
  rw [hs] at hasked
  rw [hqueued, hasked]
  exact (List.append_nil asked).symm ▸ hall

end Session

/-! ### From the client's application and back -/

theorem neverReplied_isPing : NeverReplied Message.isPing := by
  intro m hm
  unfold Message.isPing at hm
  unfold Message.isPong Message.isClose
  cases h : m.messageType <;> simp_all

namespace Link

variable {config : WebSocketServerConfig} {instantMax capacity : ℕ} {R : Bytes → Bytes → Prop}
  {l l' : Link} {act : LinkAct}

/-- What `on_ping` returns is in the relation to what it was called with. -/
def AnswersPings (R : Bytes → Bytes → Prop) (l : Link) : LinkAct → Link → Prop
  | .server act, l' => l.server.AnswersPings R act l'.server
  | _, _ => True

instance [DecidableRel R] (l : Link) (act : LinkAct) (l' : Link) :
    Decidable (AnswersPings R l act l') :=
  match act with
  | .server act => inferInstanceAs (Decidable (l.server.AnswersPings R act l'.server))
  | .client _ | .serverReads _ | .clientReads | .serverReplies _ _ | .clientReplies _ _ =>
      .isTrue trivial

/-- The pings that are due of what the client's queue accepted. -/
def pingsDue (l : Link) : List Bytes :=
  (dueOf Message.isPing l.client.tx.sent).map Message.payload

/-- The pongs of the server's task that the client has read. -/
def pongsRead (l : Link) : List Bytes :=
  payloadsOf Message.isPong
    ((l.down.received.filterMap WireFrame.envelope).filterMap (Envelope.sentBy .task))

theorem server_of_step (h : l.step config instantMax act = some l') :
    l'.server = l.server ∨ ∃ a, l.server.step config instantMax a = some l'.server ∧
      (AnswersPings R l act l' → l.server.AnswersPings R a l'.server) := by
  cases act with
  | server a =>
      simp only [Link.step] at h
      split at h
      · cases h
      · obtain ⟨server, hserver, rfl⟩ := Option.map_eq_some_iff.mp h
        exact .inr ⟨a, hserver, id⟩
  | client a =>
      simp only [Link.step] at h
      split at h
      · cases h
      · obtain ⟨client, -, rfl⟩ := Option.map_eq_some_iff.mp h
        exact .inl rfl
  | serverReads now =>
      simp only [Link.step] at h
      split at h
      · obtain ⟨server, hserver, rfl⟩ := Option.map_eq_some_iff.mp h
        exact .inr ⟨_, hserver, fun _ => trivial⟩
      · cases h
  | clientReads =>
      simp only [Link.step] at h
      split at h
      · obtain ⟨client, -, rfl⟩ := Option.map_eq_some_iff.mp h
        exact .inl rfl
      · cases h
  | serverReplies frame own =>
      simp only [Link.step] at h
      split_ifs at h
      cases h
      exact .inl rfl
  | clientReplies frame own =>
      simp only [Link.step] at h
      split_ifs at h
      cases h
      exact .inl rfl

theorem answering_of_exec {acts : List LinkAct}
    (hrun : exec (step config instantMax) (new config capacity) acts = some l)
    (hanswers : Along (step config instantMax) (AnswersPings R) (new config capacity) acts) :
    l.server.Answering R ∧ l.server.out.pool.Sound config.outboundQueueCapacity ∧
      l.server.Engaged := by
  refine exec_invariant_along (P := fun l => l.server.Answering R ∧
    l.server.out.pool.Sound config.outboundQueueCapacity ∧ l.server.Engaged) ?_ ?_ hrun hanswers
  · rintro l act l' ⟨hanswering, hsound, hengaged⟩ hstep hanswer
    obtain he | ⟨a, ha, himp⟩ := server_of_step hstep
    · rw [he]
      exact ⟨hanswering, hsound, hengaged⟩
    · refine ⟨hanswering.step ha (himp hanswer), ?_, hengaged.step ha⟩
      obtain he | ⟨b, hb, -⟩ := Session.step_out ha
      · rw [he]
        exact hsound
      · exact Outbound.sound_of_step hsound hb
  · exact ⟨Session.answering_new, ConnPool.sound_new _, Session.engaged_new⟩

/-- The pings that the server has read were due. -/
theorem Connected.pings (h : l.Connected capacity) : l.server.pingsRead <+: l.pingsDue := by
  have hpings := h.up.arrived neverReplied_isPing l.client.tx.received_prefix List.prefix_rfl
  exact hpings.map Message.payload

theorem Connected.pongs {c : ℕ} (h : l.Connected capacity) (hsound : l.server.out.pool.Sound c) :
    l.pongsRead <+: l.server.pongsQueued := by
  have hread : l.down.received.filterMap WireFrame.envelope <+:
      queueRelay.due l.server.out.tx.received := by
    rw [← h.down.put]
    exact l.down.received_prefix.filterMap _
  have hpassed (es : List Envelope) :
      (queueRelay.due es).filterMap (fun e => (e.sentBy .task).filter Message.isPong) <+:
        es.filterMap fun e => (e.sentBy .task).filter Message.isPong := by
    apply Relay.filterMap_due_isPrefix
    intro e he
    rw [queueRelay_passes]
    unfold Envelope.sentBy at he
    split_ifs at he
    · cases hpong : e.message.isPong with
      | true => exact Message.sendable_of_isPong hpong
      | false => simp [hpong] at he
    · cases he
  have hfrom :
      (l.server.out.tx.received.filterMap (Envelope.sentBy .task)).filter Message.isPong <+:
        (l.server.out.pool.acceptedBy .task).filter Message.isPong :=
    (hsound.receivedFrom_prefix .task).filter _
  have htaken : ((l.down.received.filterMap WireFrame.envelope).filterMap
      (Envelope.sentBy .task)).filter Message.isPong <+:
        (l.server.out.tx.received.filterMap (Envelope.sentBy .task)).filter Message.isPong := by
    rw [List.filter_filterMap, List.filter_filterMap]
    exact (hread.filterMap _).trans (hpassed _)
  exact (htaken.trans hfrom).map _

/-- **Pings are answered**: in every run in which `on_ping` returns as `R` says, the pongs of the
server's task that the client has read answer the pings that its application sent first, in their
order and one each, whatever else goes either way; and whenever the server's loop waits on an open
connection, the queue has accepted a pong for each ping read. -/
theorem pings_answered (config : WebSocketServerConfig) (instantMax capacity : ℕ)
    (R : Bytes → Bytes → Prop) (acts : List LinkAct) (l : Link)
    (hrun : exec (step config instantMax) (new config capacity) acts = some l)
    (hanswers : Along (step config instantMax) (AnswersPings R) (new config capacity) acts) :
    AnswersFirst R l.pingsDue l.pongsRead ∧
      (l.server.stage = .selecting → ¬ l.server.out.pool.shared.Shut →
        List.Forall₂ R l.server.pingsRead l.server.pongsQueued) := by
  obtain ⟨hanswering, hsound, hengaged⟩ := answering_of_exec hrun hanswers
  have hconnected := connected_of_exec hrun
  obtain ⟨hfirst, hall⟩ := hanswering.queued hsound hengaged
  exact ⟨hfirst.mono hconnected.pings (hconnected.pongs hsound), hall⟩

/-- The client pings, the server answers, and the client reads the pong behind one of the
library's. -/
def pingedOnce : List LinkAct :=
  [.server (.handshaken (.ok (some .anonymous)) "a"), .server .registered, .server (.connected 0),
    .client (.start 0 (.send (.ping [7]))), .client (.step 0), .client (.step 0),
    .client (.writer .recv), .serverReads 1, .serverReplies (.pong [7]) rfl,
    .server (.callbackReturned [7]), .server .taskStep, .server .taskStep,
    .server (.outside .recv), .clientReads, .client (.reader .enqueue), .clientReads]

theorem pings_answered_pingedOnce :
    ∃ l, exec (step .default (10 ^ 18)) (new .default 3) pingedOnce = some l ∧
      AnswersFirst Eq l.pingsDue [[7]] ∧ List.Forall₂ Eq l.server.pingsRead [[7]] := by
  obtain ⟨l, hrun, hread, hqueued, hs, hshut⟩ :
      ∃ l, exec (step .default (10 ^ 18)) (new .default 3) pingedOnce = some l ∧
        l.pongsRead = [[7]] ∧ l.server.pongsQueued = [[7]] ∧ l.server.stage = .selecting ∧
          ¬ (l.server.out.pool.shared.state ≠ .«open» ∨
            l.server.out.pool.shared.tx.rxOpen = false) := by decide
  obtain ⟨hfirst, hall⟩ :=
    pings_answered .default (10 ^ 18) 3 Eq pingedOnce l hrun (by decide)
  rw [hread] at hfirst
  rw [hqueued] at hall
  exact ⟨l, hrun, hfirst, hall hs hshut⟩

end Link
end ArmatureWebsocket
