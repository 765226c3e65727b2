import ArmatureWebsocket.Codec
import ArmatureWebsocket.Link

/-! # From one application to the other

What one party's queue accepts reaches the other party's application over the wire.  In every run,
the data messages that the application has received are a part in front of those due: what was
accepted, up to the first Close, without the texts that cannot be put on the wire
(`client_receives`, `server_handles`).  So they come in order, none comes twice, none that was not
accepted comes, and none is missing between two that came; only the end can be missing.

Nothing is missing once the Close of a queued message has come.  A Close of the library comes only
after one that went the other way. -/

namespace ArmatureWebsocket

open Execution CallPool

/-- The data messages that are due of a queue. -/
def dueData (es : List Envelope) : List Message :=
  ((queueRelay.due es).map Envelope.message).filter Message.isData

/-- The messages of a kind that the frames are converted to. -/
def kindOf (kind : Message → Bool) (frames : List TungsteniteMessage) : List Message :=
  (frames.map Message.ofTungstenite).filter kind

/-- The messages of a kind that are due of a queue. -/
def dueOf (kind : Message → Bool) (es : List Envelope) : List Message :=
  ((queueRelay.due es).map Envelope.message).filter kind

/-- The library makes no frames of that kind by itself. -/
def NeverReplied (kind : Message → Bool) : Prop :=
  ∀ m, kind m = true → m.isPong = false ∧ m.isClose = false

theorem neverReplied_isData : NeverReplied Message.isData := by
  intro m hm
  unfold Message.isData Message.isText Message.isBinary at hm
  unfold Message.isPong Message.isClose
  cases h : m.messageType <;> simp_all

/-! ### One direction of the wire -/

variable {kind : Message → Bool}

namespace WireFrame

theorem ofEnvelope_of_passes {e : Envelope} (h : queueRelay.passes e = true) :
    ∃ frame, ofEnvelope e = some frame ∧ frame.envelope = some e := by
  rw [queueRelay_passes, ← wire_isSome] at h
  unfold ofEnvelope
  split
  · exact ⟨_, rfl, rfl⟩
  · rename_i hnone
    have hwire : e.message.wire = none := hnone
    rw [hwire] at h
    cases h

theorem isClose_of_envelope {f : WireFrame} {e : Envelope} (h : f.envelope = some e) :
    f.frame.isClose = e.message.isClose := by
  cases f with
  | queued e' frame made =>
      cases h
      exact isClose_of_wire made
  | reply frame own => cases h

theorem kind_frame (hkind : NeverReplied kind) (f : WireFrame) :
    kindOf kind [f.frame] = (f.envelope.toList.map Envelope.message).filter kind := by
  have hnone {m : Message} (hm : m.isPong = true ∨ m.isClose = true) : [m].filter kind = [] := by
    apply List.filter_eq_nil_iff.mpr
    intro m' hm' hk
    obtain ⟨hpong, hclose⟩ := hkind m' hk
    rw [List.mem_singleton.mp hm'] at hpong hclose
    rw [hpong, hclose] at hm
    simp at hm
  cases f with
  | queued e frame made =>
      have hraw : e.message.toTungstenite = .ok frame := by
        unfold Envelope.wire Message.wire at made
        cases h : e.message.toTungstenite with
        | error err =>
            rw [h] at made
            cases made
        | ok raw =>
            rw [h] at made
            cases made
            rfl
      show [Message.ofTungstenite frame].filter _ = [e.message].filter _
      rw [Message.ofTungstenite_of_toTungstenite hraw]
      split_ifs with hclose
      · rw [hnone (.inr (beq_iff_eq.mpr hclose)), hnone (.inr rfl)]
      · rfl
  | reply frame own =>
      cases frame with
      | pong data => exact hnone (.inl rfl)
      | close why => exact hnone (.inr rfl)
      | _ => cases own

theorem kind_frames (hkind : NeverReplied kind) (fs : List WireFrame) :
    kindOf kind (fs.map frame) =
      ((fs.filterMap envelope).map Envelope.message).filter kind := by
  induction fs with
  | nil => rfl
  | cons f fs ih =>
      have hsplit : kindOf kind ((f :: fs).map frame) =
          kindOf kind [f.frame] ++ kindOf kind (fs.map frame) := by
        unfold kindOf
        rw [List.map_cons, List.map_cons, ← List.singleton_append, List.filter_append]
        rfl
      rw [hsplit, kind_frame hkind, ih, ← List.filter_append, ← List.map_append]
      cases h : f.envelope with
      | none => rw [List.filterMap_cons_none h]; rfl
      | some e => rw [List.filterMap_cons_some h]; rfl

end WireFrame

namespace Wire

/-- A direction of the wire carries what the writer took from its queue to the reader; a Close of
the library's own answers one that went the other way. -/
structure Carries (w : Wire) (taken : List Envelope) (read : List TungsteniteMessage)
    (answers : Prop) : Prop where
  rx_open : w.rxOpen = true
  put : w.sent.filterMap WireFrame.envelope = queueRelay.due taken
  read_eq : w.received.map WireFrame.frame = read
  replies : ∀ f ∈ w.sent, f.envelope = none → f.frame.isClose = true → answers

variable {w w' : Wire} {taken taken' sent : List Envelope} {read : List TungsteniteMessage}
  {answers answers' : Prop}

theorem carries_new : Carries .new [] [] answers where
  rx_open := rfl
  put := rfl
  read_eq := rfl
  replies := nofun

theorem Carries.mono (h : w.Carries taken read answers) (himp : answers → answers') :
    w.Carries taken read answers' :=
  { h with replies := fun f hf hown hclose => himp (h.replies f hf hown hclose) }

theorem Carries.offer (h : w.Carries taken read answers) {f : WireFrame}
    (hput : queueRelay.due taken' = queueRelay.due taken ++ f.envelope.toList)
    (hreplies : f.envelope = none → f.frame.isClose = true → answers) :
    Carries (w.offer f) taken' read answers where
  rx_open := by rw [UnboundedQueue.offer_rxOpen, h.rx_open]
  put := by
    rw [UnboundedQueue.sent_offer, if_pos h.rx_open, List.filterMap_append, h.put, hput]
    cases hf : f.envelope <;> simp [hf]
  read_eq := by rw [UnboundedQueue.offer_received, h.read_eq]
  replies := by
    rw [UnboundedQueue.sent_offer, if_pos h.rx_open]
    intro g hg
    obtain hg | hg := List.mem_append.mp hg
    · exact h.replies g hg
    · rw [List.mem_singleton.mp hg]
      exact hreplies

/-- The writer gives a message to its sink. -/
theorem Carries.carry (h : w.Carries taken read answers) {given : Option Envelope}
    (hgiven : queueRelay.due taken' = queueRelay.due taken ++ given.toList) :
    Carries (w.carry given) taken' read answers := by
  cases given with
  | none =>
      refine ⟨h.rx_open, ?_, h.read_eq, h.replies⟩
      rw [hgiven, ← h.put]
      exact (List.append_nil _).symm
  | some e =>
      have hmem : e ∈ queueRelay.due taken' := by
        rw [hgiven]
        exact List.mem_append_right _ (List.mem_singleton.mpr rfl)
      obtain ⟨f, hf, henvelope⟩ := WireFrame.ofEnvelope_of_passes (List.mem_filter.mp hmem).2
      have hcarry : w.carry (some e) = w.offer f := by
        unfold Wire.carry
        rw [Option.bind_some, hf]
      rw [hcarry]
      apply h.offer
      · rw [hgiven, henvelope]
      · intro hnone
        rw [henvelope] at hnone
        cases hnone

/-- A frame arrives. -/
theorem Carries.arrive (h : w.Carries taken read answers) {f : WireFrame}
    (hrecv : w.recv? = some (f, w')) : w'.Carries taken (read ++ [f.frame]) answers := by
  obtain ⟨-, hopen, hsent, hreceived⟩ := UnboundedQueue.recv?_some hrecv
  refine ⟨hopen.trans h.rx_open, ?_, ?_, ?_⟩
  · rw [hsent, h.put]
  · rw [hreceived, List.map_append, h.read_eq]
    rfl
  · rw [hsent]
    exact h.replies

/-- The messages that arrive are a part in front of those due. -/
theorem Carries.arrived (h : w.Carries taken read answers) (hkind : NeverReplied kind)
    (htaken : taken <+: sent) {frames : List TungsteniteMessage} (hframes : frames <+: read) :
    kindOf kind frames <+: dueOf kind sent := by
  rw [← h.read_eq] at hframes
  obtain ⟨fs, hfs, rfl⟩ := List.prefix_map_iff.mp hframes
  rw [WireFrame.kind_frames hkind]
  have hdue : fs.filterMap WireFrame.envelope <+: queueRelay.due taken := by
    rw [← h.put]
    exact (hfs.trans w.received_prefix).filterMap _
  exact ((hdue.trans (Relay.due_isPrefix htaken)).map _).filter _

theorem Carries.complete (h : w.Carries taken read answers) (hkind : NeverReplied kind)
    (htaken : taken <+: sent) {fs : List WireFrame} (hfs : fs <+: w.received)
    (hclose : ∃ f ∈ fs, f.frame.isClose = true ∧ f.envelope.isSome = true) :
    kindOf kind (fs.map WireFrame.frame) = dueOf kind sent := by
  have hsent : fs <+: w.sent := hfs.trans w.received_prefix
  have hdue : fs.filterMap WireFrame.envelope <+: queueRelay.due sent := by
    have hput := hsent.filterMap WireFrame.envelope
    rw [h.put] at hput
    exact hput.trans (Relay.due_isPrefix htaken)
  obtain ⟨f, hf, hclose, hsome⟩ := hclose
  obtain ⟨e, he⟩ := Option.isSome_iff_exists.mp hsome
  have hlast : queueRelay.last e = true := by
    rw [queueRelay_last, ← WireFrame.isClose_of_envelope he]
    exact hclose
  have hall : fs.filterMap WireFrame.envelope = queueRelay.due sent :=
    Relay.eq_due_of_isPrefix hdue (List.mem_filterMap.mpr ⟨f, hf, he⟩) hlast
  rw [WireFrame.kind_frames hkind, hall]
  rfl

end Wire

/-! ### What the client's application has received -/

namespace Client

variable {c c' : Client}

/-- The application receives nothing that was not read, whether the client is dropped or not. -/
structure Receives (capacity : ℕ) (read : List TungsteniteMessage) (c : Client) : Prop extends
    c.Reads capacity read where
  received : c.inbound.incoming.received <+: read.map .ofTungstenite

theorem receives_new (capacity : ℕ) : (new capacity).Receives capacity [] where
  toReads := reads_new capacity
  received := List.prefix_rfl

theorem received_of_dropped {act : ClientAct} (hstep : c.step act = some c')
    (hdropped : c'.handle = .dropped) :
    c'.inbound.incoming.received = c.inbound.incoming.received := by
  cases act with
  | start thread call =>
      obtain ⟨-, -, rfl⟩ := start_some hstep
      rfl
  | step thread =>
      obtain ⟨pc, -, rfl⟩ := step_some hstep
      rfl
  | drop =>
      obtain ⟨-, -, rfl⟩ := drop_some hstep
      rfl
  | dropped =>
      obtain ⟨-, -, rfl⟩ := dropped_some hstep
      rfl
  | recv =>
      obtain ⟨hheld, result, -, rfl⟩ := recv_some hstep
      rw [show c.handle = .dropped from hdropped] at hheld
      cases hheld
  | tryRecv =>
      obtain ⟨hheld, rfl⟩ := tryRecv_some hstep
      rw [show c.handle = .dropped from hdropped] at hheld
      cases hheld
  | reader act =>
      obtain ⟨inbound, hinbound, ⟨-, rfl⟩ | ⟨-, rfl⟩⟩ := reader_some hstep
      · exact (ClientInbound.step_frames hinbound).2.2.1
      · exact (ClientInbound.step_frames hinbound).2.2.1
  | writer act =>
      obtain ⟨e, tx, -, -, -, rfl⟩ | ⟨-, -, -, -, rfl⟩ | ⟨e, -, -, rfl⟩ | ⟨e, -, -, rfl⟩ |
        ⟨-, -, rfl⟩ | ⟨-, -, rfl⟩ | ⟨-, -, rfl⟩ := writer_cases hstep <;> rfl

theorem Receives.step {capacity : ℕ} {read : List TungsteniteMessage} {act : ClientAct}
    (h : c.Receives capacity read) (hstep : c.step act = some c') :
    c'.Receives capacity (read ++ act.frame.toList) := by
  have hreads := h.toReads.step hstep
  refine ⟨hreads, ?_⟩
  by_cases hdropped : c'.handle = .dropped
  · rw [received_of_dropped hstep hdropped, List.map_append]
    exact h.received.trans (List.prefix_append _ _)
  · rw [← hreads.frames_eq, ← (hreads.lossless hdropped).flow]
    exact c'.inbound.incoming.received_prefix.trans (List.prefix_append _ _)

end Client

/-! ### Both directions -/

namespace Link

variable {config : WebSocketServerConfig} {instantMax capacity : ℕ} {l l' : Link}

/-- The wire carries what each writer took to the other party, which has handed on what it read. -/
structure Connected (capacity : ℕ) (l : Link) : Prop where
  reading : l.server.out.Reading
  named : l.server.Named
  writing : l.client.Writing
  receives : l.client.Receives capacity l.client.inbound.frames
  handled : l.server.handled = dataOf (l.server.yielded.filterMap ReadResult.frame)
  down : Wire.Carries l.down l.server.out.tx.received l.client.inbound.frames
    (Wire.ClosedByPeer l.up)
  up : Wire.Carries l.up l.client.tx.received (l.server.yielded.filterMap ReadResult.frame)
    (Wire.ClosedByPeer l.down)

theorem connected_new : (new config capacity).Connected capacity where
  reading := Outbound.reading_new _
  named := Session.named_new
  writing := Client.writing_new capacity
  receives := Client.receives_new capacity
  handled := rfl
  down := Wire.carries_new
  up := Wire.carries_new

theorem dataOf_append (frames frames' : List TungsteniteMessage) :
    dataOf (frames ++ frames') = dataOf frames ++ dataOf frames' := by
  unfold dataOf
  rw [List.map_append, List.filter_append]

theorem closedByPeer_carry {w : Wire} (given : Option Envelope) (h : w.ClosedByPeer) :
    Wire.ClosedByPeer (Wire.carry w given) := by
  have hreceived : (Wire.carry w given).received = w.received := by
    unfold Wire.carry
    split
    · exact UnboundedQueue.offer_received _ _
    · rfl
  unfold Wire.ClosedByPeer
  rw [hreceived]
  exact h

theorem closedByPeer_offer {w : Wire} (f : WireFrame) (h : w.ClosedByPeer) :
    Wire.ClosedByPeer (w.offer f) := by
  unfold Wire.ClosedByPeer
  rw [UnboundedQueue.offer_received]
  exact h

theorem closedByPeer_recv {w w' : Wire} {f : WireFrame} (hrecv : w.recv? = some (f, w'))
    (h : w.ClosedByPeer) : w'.ClosedByPeer := by
  obtain ⟨-, -, -, hreceived⟩ := UnboundedQueue.recv?_some hrecv
  obtain ⟨g, hg, hclose⟩ := h
  refine ⟨g, ?_, hclose⟩
  rw [hreceived]
  exact List.mem_append_left _ hg

theorem Connected.serverStep {act : SessionAct} {server : Session} (h : l.Connected capacity)
    (hstep : l.server.step config instantMax act = some server) (hframe : act.frame = none) :
    Connected capacity
      { l with server := server, down := Wire.carry l.down (server.given act) } := by
  have hread : server.yielded.filterMap ReadResult.frame
        = l.server.yielded.filterMap ReadResult.frame ∧ server.handled = l.server.handled := by
    cases hresult : act.result with
    | none =>
        have hsame := Session.reading_of_step hstep hresult
        have hyielded : server.yielded = l.server.yielded := congrArg Prod.fst hsame
        rw [hyielded]
        exact ⟨rfl, congrArg Prod.snd hsame⟩
    | some result =>
        have hnone : result.frame = none := by
          unfold SessionAct.frame at hframe
          rw [hresult] at hframe
          exact hframe
        cases act with
        | read now result' =>
            cases hresult
            obtain ⟨hyielded, hhandled⟩ := Session.handled_of_read h.named hstep
            rw [hyielded, hhandled, List.filterMap_append, hnone]
            simp [hnone, dataOf]
        | _ => cases hresult
  refine ⟨Session.reading_step h.reading hstep, h.named.step hstep, h.writing, h.receives,
    ?_, ?_, ?_⟩
  · rw [hread.1, hread.2, h.handled]
  · exact h.down.carry (Session.due_of_step h.reading hstep)
  · rw [hread.1]
    exact h.up.mono (closedByPeer_carry _)

/-- A step of the client other than reading a frame. -/
theorem Connected.clientStep {act : ClientAct} {client : Client} (h : l.Connected capacity)
    (hstep : l.client.step act = some client) (hframe : act.frame = none) :
    Connected capacity { l with client := client, up := Wire.carry l.up (client.given act) } := by
  have hreceives := h.receives.step hstep
  rw [hframe, Option.toList_none, List.append_nil] at hreceives
  have hframes : client.inbound.frames = l.client.inbound.frames := hreceives.frames_eq
  refine ⟨h.reading, h.named, h.writing.step hstep, ?_, h.handled, ?_, ?_⟩
  · rw [hframes]
    exact hreceives
  · rw [hframes]
    exact h.down.mono (closedByPeer_carry _)
  · exact h.up.carry (Client.due_of_step h.writing hstep)

/-- The server's task reads a frame. -/
theorem Connected.serverReads {now : ℕ} {f : WireFrame} {up : Wire} {server : Session}
    (h : l.Connected capacity) (hrecv : l.up.recv? = some (f, up))
    (hstep : l.server.step config instantMax (.read now (.message f.frame)) = some server) :
    Connected capacity { l with server := server, up := up } := by
  obtain ⟨hyielded, hhandled⟩ := Session.handled_of_read h.named hstep
  have hframes : server.yielded.filterMap ReadResult.frame
      = l.server.yielded.filterMap ReadResult.frame ++ [f.frame] := by
    rw [hyielded, List.filterMap_append]
    rfl
  have hdue : queueRelay.due server.out.tx.received
      = queueRelay.due l.server.out.tx.received ++ (none : Option Envelope).toList :=
    Session.due_of_step h.reading hstep
  refine ⟨Session.reading_step h.reading hstep, h.named.step hstep, h.writing, h.receives,
    ?_, ?_, ?_⟩
  · rw [hframes, dataOf_append, ← h.handled]
    exact hhandled
  · exact (h.down.carry hdue).mono (closedByPeer_recv hrecv)
  · rw [hframes]
    exact h.up.arrive hrecv

/-- The client's reader reads a frame. -/
theorem Connected.clientReads {f : WireFrame} {down : Wire} {client : Client}
    (h : l.Connected capacity) (hrecv : l.down.recv? = some (f, down))
    (hstep : l.client.step (.reader (.read (.message f.frame))) = some client) :
    Connected capacity { l with client := client, down := down } := by
  have hreceives := h.receives.step hstep
  have hframes : client.inbound.frames = l.client.inbound.frames ++ [f.frame] :=
    hreceives.frames_eq
  have hdue : queueRelay.due client.tx.received
      = queueRelay.due l.client.tx.received ++ (none : Option Envelope).toList :=
    Client.due_of_step h.writing hstep
  refine ⟨h.reading, h.named, h.writing.step hstep, ?_, h.handled, ?_, ?_⟩
  · rw [hframes]
    exact hreceives
  · rw [hframes]
    exact h.down.arrive hrecv
  · exact (h.up.carry hdue).mono (closedByPeer_recv hrecv)

theorem Connected.step {act : LinkAct} (h : l.Connected capacity)
    (hstep : l.step config instantMax act = some l') : l'.Connected capacity := by
  cases act with
  | server act =>
      simp only [Link.step] at hstep
      split at hstep
      · cases hstep
      · obtain ⟨server, hserver, rfl⟩ := Option.map_eq_some_iff.mp hstep
        exact h.serverStep hserver ‹_›
  | client act =>
      simp only [Link.step] at hstep
      split at hstep
      · cases hstep
      · obtain ⟨client, hclient, rfl⟩ := Option.map_eq_some_iff.mp hstep
        exact h.clientStep hclient ‹_›
  | serverReads now =>
      simp only [Link.step] at hstep
      split at hstep
      · obtain ⟨server, hserver, rfl⟩ := Option.map_eq_some_iff.mp hstep
        exact h.serverReads ‹_› hserver
      · cases hstep
  | clientReads =>
      simp only [Link.step] at hstep
      split at hstep
      · obtain ⟨client, hclient, rfl⟩ := Option.map_eq_some_iff.mp hstep
        exact h.clientReads ‹_› hclient
      · cases hstep
  | serverReplies frame own =>
      simp only [Link.step] at hstep
      split_ifs at hstep with hclosed
      cases hstep
      exact ⟨h.reading, h.named, h.writing, h.receives, h.handled,
        h.down.offer (List.append_nil _).symm fun _ => hclosed,
        h.up.mono (closedByPeer_offer _)⟩
  | clientReplies frame own =>
      simp only [Link.step] at hstep
      split_ifs at hstep with hclosed
      cases hstep
      exact ⟨h.reading, h.named, h.writing, h.receives, h.handled,
        h.down.mono (closedByPeer_offer _),
        h.up.offer (List.append_nil _).symm fun _ => hclosed⟩

theorem connected_of_exec {acts : List LinkAct}
    (hrun : exec (step config instantMax) (new config capacity) acts = some l) :
    l.Connected capacity :=
  exec_invariant (P := Connected capacity) (fun _ _ _ h hstep => h.step hstep) connected_new hrun

/-- The frames of what the client's application has been given. -/
def arrivals (l : Link) : List WireFrame := l.down.received.take l.client.returned.length

theorem Connected.returned (h : l.Connected capacity) :
    l.client.returned = (l.arrivals.map WireFrame.frame).map Message.ofTungstenite := by
  have hprefix :
      l.client.returned <+: (l.down.received.map WireFrame.frame).map .ofTungstenite := by
    rw [h.receives.returned_eq, h.down.read_eq]
    exact h.receives.received
  have htake := List.prefix_iff_eq_take.mp hprefix
  rw [← List.map_take, ← List.map_take] at htake
  exact htake

/-- **From the server's queue to the client's application**: in every run, what `recv` and
`try_recv` have given to the client's application came over the wire.  The data messages of it are a
part in front of those due of what the server's queue accepted, from whatever callers, and they are
all of them once there is a Close among it that is not the library's answer to a Close of the
client. -/
theorem client_receives (config : WebSocketServerConfig) (instantMax capacity : ℕ)
    (acts : List LinkAct) (l : Link)
    (hrun : exec (step config instantMax) (new config capacity) acts = some l) :
    l.client.returned = (l.arrivals.map WireFrame.frame).map Message.ofTungstenite ∧
      l.client.returned.filter Message.isData <+: dueData l.server.out.tx.sent ∧
      ((∃ f ∈ l.arrivals, f.frame.isClose = true ∧ f.envelope.isSome = true) →
        l.client.returned.filter Message.isData = dueData l.server.out.tx.sent) ∧
      ∀ f ∈ l.arrivals, f.frame.isClose = true → f.envelope = none → Wire.ClosedByPeer l.up := by
  have h := connected_of_exec hrun
  have htaken := l.server.out.tx.received_prefix
  have harrivals : l.arrivals <+: l.down.received := List.take_prefix _ _
  have hframes : l.arrivals.map WireFrame.frame <+: l.client.inbound.frames := by
    rw [← h.down.read_eq]
    exact harrivals.map _
  refine ⟨h.returned, ?_, fun hclose => ?_, fun f hf hclose hnone => ?_⟩
  · rw [h.returned]
    exact h.down.arrived neverReplied_isData htaken hframes
  · rw [h.returned]
    exact h.down.complete neverReplied_isData htaken harrivals hclose
  · exact h.down.replies f ((harrivals.trans l.down.received_prefix).subset hf) hnone hclose

/-- A message, a pong of the library in between, and the server's Close, which the client's library
answers. -/
def serverCloses : List LinkAct :=
  [.server (.handshaken (.ok (some .anonymous)) "a"), .server .registered, .server (.connected 0),
    .server (.outside (.start (.app 0) (.send (.binary [1])))), .server (.outside (.step (.app 0))),
    .server (.outside (.step (.app 0))), .server (.outside .recv), .serverReplies (.pong []) rfl,
    .clientReads, .client (.reader .enqueue), .clientReads, .client (.reader .enqueue),
    .server (.outside (.start (.app 1) .close)), .server (.outside (.step (.app 1))),
    .server (.outside (.step (.app 1))), .server (.outside .accept), .server (.outside .recv),
    .clientReads, .clientReplies (.close none) rfl, .serverReads 1, .client (.reader .enqueue),
    .client .recv, .client .recv, .client .tryRecv]

theorem client_receives_serverCloses :
    ∃ l, exec (step .default (10 ^ 18)) (new .default 3) serverCloses = some l ∧
      Wire.ClosedByPeer l.up ∧ dueData l.server.out.tx.sent = [.binary [1]] := by
  obtain ⟨l, hrun, hclose, hanswered, hdata⟩ :
      ∃ l, exec (step .default (10 ^ 18)) (new .default 3) serverCloses = some l ∧
        (∃ f ∈ l.arrivals, f.frame.isClose = true ∧ f.envelope.isSome = true) ∧
          Wire.ClosedByPeer l.up ∧ l.client.returned.filter Message.isData = [.binary [1]] := by
    decide
  have hall := (client_receives .default (10 ^ 18) 3 _ l hrun).2.2.1 hclose
  exact ⟨l, hrun, hanswered, by rw [← hall, hdata]⟩

/-- **From the client's queue to the server's handler**: in every run, the data messages that the
server's handler was called with are a part in front of those due of what the client's queue
accepted, and they are all of them once the server has read a Close and the client has read none. -/
theorem server_handles (config : WebSocketServerConfig) (instantMax capacity : ℕ)
    (acts : List LinkAct) (l : Link)
    (hrun : exec (step config instantMax) (new config capacity) acts = some l) :
    l.server.handled <+: dueData l.client.tx.sent ∧
      (Wire.ClosedByPeer l.up → ¬ Wire.ClosedByPeer l.down →
        l.server.handled = dueData l.client.tx.sent) := by
  have h := connected_of_exec hrun
  have htaken := l.client.tx.received_prefix
  rw [h.handled]
  refine ⟨h.up.arrived neverReplied_isData htaken List.prefix_rfl, fun hclose hanswers => ?_⟩
  rw [← h.up.read_eq]
  refine h.up.complete neverReplied_isData htaken List.prefix_rfl ?_
  obtain ⟨f, hf, hclose⟩ := hclose
  refine ⟨f, hf, hclose, ?_⟩
  by_contra hown
  have hsent := l.up.received_prefix.subset hf
  exact hanswers (h.up.replies f hsent (Option.not_isSome_iff_eq_none.mp hown) hclose)

/-- A message and the client's Close. -/
def clientCloses : List LinkAct :=
  [.server (.handshaken (.ok (some .anonymous)) "a"), .server .registered, .server (.connected 0),
    .client (.start 0 (.send (.binary [2]))), .client (.step 0), .client (.step 0),
    .client (.writer .recv), .serverReads 1, .client (.writer .accept),
    .server (.callbackReturned []), .client (.start 0 .close), .client (.step 0),
    .client (.step 0), .client (.writer .recv), .serverReads 2]

theorem server_handles_clientCloses :
    ∃ l, exec (step .default (10 ^ 18)) (new .default 3) clientCloses = some l ∧
      dueData l.client.tx.sent = [.binary [2]] := by
  obtain ⟨l, hrun, hclose, hanswers, hdata⟩ :
      ∃ l, exec (step .default (10 ^ 18)) (new .default 3) clientCloses = some l ∧
        Wire.ClosedByPeer l.up ∧ ¬ Wire.ClosedByPeer l.down ∧
          l.server.handled = [.binary [2]] := by decide
  have hall := (server_handles .default (10 ^ 18) 3 _ l hrun).2 hclose hanswers
  exact ⟨l, hrun, by rw [← hall, hdata]⟩

end Link
end ArmatureWebsocket
