import ArmatureWebsocket.ClientReader
import ArmatureWebsocket.Config
import ArmatureWebsocket.Settings

/-! # Connecting a client

`WebSocketClientBuilder` is set up by a chain of calls and then connected.  `Connecting` is what
comes of it: the attempts made to connect to a server, and the client, an error or a panic.

`parse` reads a URL, and `attempt` is what an attempt with given limits within a given time comes
to.  A chain makes at most one attempt, with the values given last; the client it leads to is never
further ahead of the application than its queue is long (`chain_connects`). -/

namespace ArmatureWebsocket

open Execution Settings

/-- The default capacity of the client's inbound queue. -/
def DEFAULT_INBOUND_QUEUE_CAPACITY : ℕ := 1024

/-- A builder of clients. -/
structure WebSocketClientBuilder where
  url : Option String
  connectTimeout : ℕ
  maxMessageSize : Option ℕ
  inboundQueueCapacity : ℕ
deriving DecidableEq, Repr

/-- The setters with their arguments. -/
inductive ClientBuilderCall where
  | url (url : String)
  | connectTimeout (timeout : ℕ)
  | maxMessageSize (size : ℕ)
  | inboundQueueCapacity (capacity : ℕ)

/-- An attempt to connect to a server. -/
structure Attempt (Url : Type) where
  url : Url
  wsConfig : Option WebSocketConfig
  timeout : ℕ

/-- How an attempt ends. -/
inductive AttemptOutcome where
  | timedOut
  | failed (reason : String)
  | upgraded

/-- The attempts made, and what comes of them. -/
structure Connecting (Url : Type) where
  attempts : List (Attempt Url)
  result : Except LibraryCall (WebSocketResult Client)

/-- The protocol library's configuration with both limits at that size. -/
def clientConfig (size : ℕ) : WebSocketConfig where
  maxMessageSize := some size
  maxFrameSize := some size
  writeBufferSize := WRITE_BUFFER_SIZE
  maxWriteBufferSize := USIZE_MAX

section

variable {Url : Type} (parse : String → Except String Url) (attempt : Attempt Url → AttemptOutcome)
  (instantMax : ℕ)

namespace Client

/-- Make an attempt; the configuration is checked and the queue is made once it has succeeded. -/
def connectBy (made : Attempt Url) (inboundQueueCapacity : ℕ) :
    Except LibraryCall (WebSocketResult Client) :=
  match attempt made with
  | .timedOut => .ok (.error .timeout)
  | .failed reason => .ok (.error (.protocol reason))
  | .upgraded =>
      (made.wsConfig.elim (.ok ()) fun config => checked instantMax (.acceptWith config)).bind
        fun _ => (checked instantMax (.mpscChannel inboundQueueCapacity)).map
          fun _ => .ok (.new inboundQueueCapacity)

/-- Connect to a server, with a timeout and an optional maximum message size. -/
def connectWith (url : String) (timeout : ℕ) (maxMessageSize : Option ℕ)
    (inboundQueueCapacity : ℕ) : Connecting Url :=
  if inboundQueueCapacity = 0 then
    ⟨[], .ok (.error (.connection "inbound_queue_capacity must be non-zero"))⟩
  else
    match parse url with
    | .error e => ⟨[], .ok (.error (.invalidUrl e))⟩
    | .ok url =>
        let made : Attempt Url := ⟨url, maxMessageSize.map clientConfig, timeout⟩
        ⟨[made], connectBy attempt instantMax made inboundQueueCapacity⟩

/-- Connect to a server with a timeout. -/
def connectWithTimeout (url : String) (timeout : ℕ) : Connecting Url :=
  connectWith parse attempt instantMax url timeout none DEFAULT_INBOUND_QUEUE_CAPACITY

/-- Connect to a server. -/
def connect (url : String) : Connecting Url :=
  connectWithTimeout parse attempt instantMax url (30 * 10 ^ 9)

end Client

namespace WebSocketClientBuilder

/-- A builder with the default values. -/
def new : WebSocketClientBuilder := ⟨none, 30 * 10 ^ 9, none, DEFAULT_INBOUND_QUEUE_CAPACITY⟩

/-- The setters. -/
def set (b : WebSocketClientBuilder) : ClientBuilderCall → WebSocketClientBuilder
  | .url url => { b with url := some url }
  | .connectTimeout timeout => { b with connectTimeout := timeout }
  | .maxMessageSize size => { b with maxMessageSize := some size }
  | .inboundQueueCapacity capacity => { b with inboundQueueCapacity := capacity }

/-- Connect to the server. -/
def connect (b : WebSocketClientBuilder) : Connecting Url :=
  match b.url with
  | none => ⟨[], .ok (.error (.invalidUrl "URL not provided"))⟩
  | some url =>
      Client.connectWith parse attempt instantMax url b.connectTimeout b.maxMessageSize
        b.inboundQueueCapacity

/-- A chain of setters on a new builder, with `connect` at its end. -/
def chain (calls : List ClientBuilderCall) : Connecting Url :=
  (calls.foldl set new).connect parse attempt instantMax

end WebSocketClientBuilder

end

namespace Client

variable {Url : Type} {parse : String → Except String Url} {attempt : Attempt Url → AttemptOutcome}
  {instantMax : ℕ}

theorem clientConfig_safe (size : Option ℕ) : (size.map clientConfig).elim (.ok ())
    (fun config => checked instantMax (.acceptWith config)) = .ok () := by
  cases size with
  | none => rfl
  | some size =>
      show checked instantMax (.acceptWith (clientConfig size)) = .ok ()
      rw [checked_eq_ok_iff]
      show WRITE_BUFFER_SIZE < USIZE_MAX
      decide

/-- The attempt with these values. -/
def attemptTo (url : Url) (timeout : ℕ) (maxMessageSize : Option ℕ) : Attempt Url :=
  ⟨url, maxMessageSize.map clientConfig, timeout⟩

variable {url : Url} {timeout capacity : ℕ} {size : Option ℕ}

/-- An attempt that succeeds leads to a client, or to a panic when its queue is too long. -/
theorem connectBy_upgraded (hpos : 0 < capacity)
    (hup : attempt (attemptTo url timeout size) = .upgraded) :
    connectBy attempt instantMax (attemptTo url timeout size) capacity =
      if capacity ≤ MAX_PERMITS then .ok (.ok (.new capacity))
      else .error (.mpscChannel capacity) := by
  have hconfig : (attemptTo url timeout size).wsConfig = size.map clientConfig := rfl
  unfold connectBy
  simp only [hup, hconfig, clientConfig_safe]
  split_ifs with hle
  · have hsafe : checked instantMax (.mpscChannel capacity) = .ok () :=
      checked_eq_ok_iff.mpr ⟨hpos, hle⟩
    rw [hsafe]
    rfl
  · have hpanic : checked instantMax (.mpscChannel capacity) = .error (.mpscChannel capacity) :=
      checked_eq_error_iff.mpr ⟨rfl, fun h => hle h.2⟩
    rw [hpanic]
    rfl

/-- An attempt that does not succeed ends with an error. -/
theorem connectBy_failed {made : Attempt Url} (hup : attempt made ≠ .upgraded) :
    ∃ e, connectBy attempt instantMax made capacity = .ok (.error e) := by
  unfold connectBy
  cases h : attempt made with
  | timedOut => exact ⟨_, rfl⟩
  | failed reason => exact ⟨_, rfl⟩
  | upgraded => exact absurd h hup

theorem connectBy_eq_error_iff (hpos : 0 < capacity) {why : LibraryCall} :
    connectBy attempt instantMax (attemptTo url timeout size) capacity = .error why ↔
      why = .mpscChannel capacity ∧ MAX_PERMITS < capacity ∧
        attempt (attemptTo url timeout size) = .upgraded := by
  by_cases hup : attempt (attemptTo url timeout size) = .upgraded
  · rw [connectBy_upgraded hpos hup]
    split_ifs with hle
    · exact iff_of_false (by simp) fun h => by omega
    · have hlt : MAX_PERMITS < capacity := by omega
      simp [hup, hlt, eq_comm]
  · obtain ⟨e, he⟩ : ∃ e, connectBy attempt instantMax (attemptTo url timeout size) capacity =
        .ok (.error e) := connectBy_failed hup
    rw [he]
    exact iff_of_false (by simp) fun h => hup h.2.2

theorem connectBy_eq_ok_iff (hpos : 0 < capacity) {c : Client} :
    connectBy attempt instantMax (attemptTo url timeout size) capacity = .ok (.ok c) ↔
      c = .new capacity ∧ capacity ≤ MAX_PERMITS ∧
        attempt (attemptTo url timeout size) = .upgraded := by
  by_cases hup : attempt (attemptTo url timeout size) = .upgraded
  · rw [connectBy_upgraded hpos hup]
    split_ifs with hle
    · simp [hup, hle, eq_comm]
    · exact iff_of_false (by simp) fun h => hle h.2.1
  · obtain ⟨e, he⟩ : ∃ e, connectBy attempt instantMax (attemptTo url timeout size) capacity =
        .ok (.error e) := connectBy_failed hup
    rw [he]
    exact iff_of_false (by simp) fun h => hup h.2.2

/-- Reading the URL and the attempt. -/
def upgrade (parse : String → Except String Url) (attempt : Attempt Url → AttemptOutcome)
    (url : String) (timeout : ℕ) (maxMessageSize : Option ℕ) : WebSocketResult Unit :=
  match parse url with
  | .error e => .error (.invalidUrl e)
  | .ok url =>
      match attempt (attemptTo url timeout maxMessageSize) with
      | .timedOut => .error .timeout
      | .failed reason => .error (.protocol reason)
      | .upgraded => .ok ()

theorem connectWith_result {url : String} (hle : capacity ≤ MAX_PERMITS) :
    (connectWith parse attempt instantMax url timeout size capacity).result =
      .ok (connectWithConfig capacity (upgrade parse attempt url timeout size)) := by
  unfold connectWith connectWithConfig
  split_ifs with hzero
  · rfl
  · unfold upgrade
    cases parse url with
    | error e => rfl
    | ok url =>
        show connectBy attempt instantMax (attemptTo url timeout size) capacity = _
        cases hup : attempt (attemptTo url timeout size) with
        | upgraded =>
            rw [connectBy_upgraded (Nat.pos_of_ne_zero hzero) hup, if_pos hle]
            simp only [hup]
            rfl
        | timedOut =>
            unfold connectBy
            simp only [hup]
            rfl
        | failed reason =>
            unfold connectBy
            simp only [hup]
            rfl

end Client

namespace WebSocketClientBuilder

variable {Url : Type} {parse : String → Except String Url} {attempt : Attempt Url → AttemptOutcome}
  {instantMax : ℕ} {calls : List ClientBuilderCall}

/-- What a chain leaves: each value is the last one given for it. -/
def left (calls : List ClientBuilderCall) : WebSocketClientBuilder where
  url := lastGiven (fun
    | .url url => some url
    | _ => none) calls
  connectTimeout := (lastGiven (fun
    | .connectTimeout timeout => some timeout
    | _ => none) calls).getD new.connectTimeout
  maxMessageSize := lastGiven (fun
    | .maxMessageSize size => some size
    | _ => none) calls
  inboundQueueCapacity := (lastGiven (fun
    | .inboundQueueCapacity capacity => some capacity
    | _ => none) calls).getD new.inboundQueueCapacity

theorem left_concat (calls : List ClientBuilderCall) (call : ClientBuilderCall) :
    left (calls ++ [call]) = (left calls).set call := by
  unfold left
  simp only [lastGiven_concat]
  cases call with
  | _ => rfl

theorem foldl_set : calls.foldl set new = left calls := foldl_eq rfl left_concat calls

theorem connectWithTimeout_eq_chain (url : String) (timeout : ℕ) :
    Client.connectWithTimeout parse attempt instantMax url timeout =
      chain parse attempt instantMax [.url url, .connectTimeout timeout] := rfl

theorem connect_eq_chain (url : String) :
    Client.connect parse attempt instantMax url = chain parse attempt instantMax [.url url] := rfl

/-- The attempt that a builder makes. -/
abbrev attemptTo (b : WebSocketClientBuilder) (url : Url) : Attempt Url :=
  Client.attemptTo url b.connectTimeout b.maxMessageSize

/-- A chain fails before an attempt, or makes one with the values given last. -/
theorem chain_cases (parse : String → Except String Url)
    (attempt : Attempt Url → AttemptOutcome) (instantMax : ℕ) (calls : List ClientBuilderCall) :
    (∃ e, chain parse attempt instantMax calls = ⟨[], .ok (.error e)⟩) ∨
    ∃ text url, (left calls).url = some text ∧ parse text = .ok url ∧
      0 < (left calls).inboundQueueCapacity ∧
      chain parse attempt instantMax calls =
        ⟨[(left calls).attemptTo url], Client.connectBy attempt instantMax
          ((left calls).attemptTo url) (left calls).inboundQueueCapacity⟩ := by
  unfold chain connect
  rw [foldl_set]
  cases hurl : (left calls).url with
  | none => exact .inl ⟨_, rfl⟩
  | some text =>
      simp only [Client.connectWith]
      split_ifs with hzero
      · exact .inl ⟨_, rfl⟩
      · cases hparse : parse text with
        | error e => exact .inl ⟨_, rfl⟩
        | ok url => exact .inr ⟨text, url, rfl, hparse, Nat.pos_of_ne_zero hzero, rfl⟩

theorem ahead_of_exec {capacity : ℕ} {acts : List ClientAct} {c : Client}
    (hrun : exec Client.step (.new capacity) acts = some c) (hheld : c.handle = .held) :
    (framesRead acts).length ≤ c.inbound.incoming.received.length + capacity + 1 := by
  have h := Client.reads_of_exec hrun
  have hlossless := h.lossless (by rw [hheld]; simp)
  have hsent := c.inbound.incoming.sent_eq hlossless.rx_open
  have hflow := congrArg List.length hlossless.flow
  rw [hsent, h.frames_eq, List.length_append, List.length_append, List.length_map] at hflow
  have hqueue : c.inbound.incoming.queue.length ≤ capacity := by
    rw [← h.capacity_eq]
    exact c.inbound.incoming.length_le
  have hpending : c.inbound.reader.pending.length ≤ 1 := by
    cases c.inbound.reader <;> simp [ClientReaderPc.pending]
  omega

/-- **What comes of a chain**: at most one attempt is made, to the last URL given, with both limits
at the last maximum message size given, or the library's own, and within the last timeout given;
none is made without a URL that can be read or with a queue of capacity zero.  There is a client
exactly when that attempt succeeds and its queue is not too long, a panic exactly when the attempt
succeeds and the queue is too long, and in every run of the client, as long as it is not dropped, at
most one more message than its queue can hold has been read and not received.  With a queue that is
not too long the chain is `connectWithConfig`, and the ways to connect without a builder are
chains. -/
theorem chain_connects (parse : String → Except String Url)
    (attempt : Attempt Url → AttemptOutcome) (instantMax : ℕ) (calls : List ClientBuilderCall) :
    (chain parse attempt instantMax calls).attempts.length ≤ 1 ∧
    (∀ made ∈ (chain parse attempt instantMax calls).attempts,
      (∃ text, (left calls).url = some text ∧ parse text = .ok made.url) ∧
      made.wsConfig = (left calls).maxMessageSize.map clientConfig ∧
      made.timeout = (left calls).connectTimeout ∧ 0 < (left calls).inboundQueueCapacity) ∧
    (∀ why, (chain parse attempt instantMax calls).result = .error why ↔
      why = .mpscChannel (left calls).inboundQueueCapacity ∧
        MAX_PERMITS < (left calls).inboundQueueCapacity ∧
        ∃ made ∈ (chain parse attempt instantMax calls).attempts, attempt made = .upgraded) ∧
    (∀ c₀, (chain parse attempt instantMax calls).result = .ok (.ok c₀) ↔
      c₀ = .new (left calls).inboundQueueCapacity ∧
        (left calls).inboundQueueCapacity ≤ MAX_PERMITS ∧
        ∃ made ∈ (chain parse attempt instantMax calls).attempts, attempt made = .upgraded) ∧
    (∀ c₀ acts c, (chain parse attempt instantMax calls).result = .ok (.ok c₀) →
      exec Client.step c₀ acts = some c → c.handle = .held →
        (framesRead acts).length ≤
          c.inbound.incoming.received.length + (left calls).inboundQueueCapacity + 1) ∧
    (∀ text, (left calls).url = some text → (left calls).inboundQueueCapacity ≤ MAX_PERMITS →
      (chain parse attempt instantMax calls).result =
        .ok (Client.connectWithConfig (left calls).inboundQueueCapacity (Client.upgrade parse
          attempt text (left calls).connectTimeout (left calls).maxMessageSize))) ∧
    (∀ url timeout, Client.connectWithTimeout parse attempt instantMax url timeout =
      chain parse attempt instantMax [.url url, .connectTimeout timeout]) ∧
    ∀ url, Client.connect parse attempt instantMax url =
      chain parse attempt instantMax [.url url] := by
  have hresult : ∀ text, (left calls).url = some text →
      (left calls).inboundQueueCapacity ≤ MAX_PERMITS →
        (chain parse attempt instantMax calls).result =
          .ok (Client.connectWithConfig (left calls).inboundQueueCapacity (Client.upgrade parse
            attempt text (left calls).connectTimeout (left calls).maxMessageSize)) := by
    intro text hurl hle
    unfold chain connect
    rw [foldl_set, hurl]
    exact Client.connectWith_result hle
  obtain ⟨e, he⟩ | ⟨text, url, hurl, hparse, hpos, he⟩ :=
    chain_cases parse attempt instantMax calls
  · rw [he] at hresult ⊢
    refine ⟨Nat.zero_le 1, ?_, ?_, ?_, ?_, hresult, connectWithTimeout_eq_chain, connect_eq_chain⟩
    all_goals simp
  · rw [he] at hresult ⊢
    refine ⟨le_refl 1, ?_, ?_, ?_, ?_, hresult, connectWithTimeout_eq_chain, connect_eq_chain⟩
    · intro made hmade
      obtain rfl := List.mem_singleton.mp hmade
      exact ⟨⟨text, hurl, hparse⟩, rfl, rfl, hpos⟩
    · intro why
      simp only [Client.connectBy_eq_error_iff hpos, List.mem_singleton, exists_eq_left]
    · intro c₀
      simp only [Client.connectBy_eq_ok_iff hpos, List.mem_singleton, exists_eq_left]
    · intro c₀ acts c hc hrun hheld
      obtain ⟨rfl, -, -⟩ := (Client.connectBy_eq_ok_iff hpos).mp hc
      exact ahead_of_exec hrun hheld

/-- Another URL and another queue on second thoughts. -/
def secondThoughts : List ClientBuilderCall :=
  [.url "ws://127.0.0.1:9001", .inboundQueueCapacity 0, .maxMessageSize 64,
    .url "ws://127.0.0.1:9002", .inboundQueueCapacity 1]

/-- One message in the queue and one that waits for room in it. -/
def twoAhead : List ClientAct :=
  [.reader (.read (.message (.binary [1]))), .reader .enqueue,
    .reader (.read (.message (.binary [2])))]

theorem chain_connects_secondThoughts :
    ∃ c₀ c, (chain Except.ok (fun _ => .upgraded) (10 ^ 18) secondThoughts).result = .ok (.ok c₀) ∧
      exec Client.step c₀ twoAhead = some c ∧ (framesRead twoAhead).length = 2 ∧
      (framesRead twoAhead).length ≤ c.inbound.incoming.received.length + 1 + 1 := by
  obtain ⟨-, -, -, hclient, hahead, -⟩ :=
    chain_connects Except.ok (fun _ => .upgraded) (10 ^ 18) secondThoughts
  have hresult : (chain Except.ok (fun _ => .upgraded) (10 ^ 18) secondThoughts).result =
      .ok (.ok (.new 1)) := (hclient _).mpr ⟨rfl, by decide, _, List.mem_singleton_self _, rfl⟩
  obtain ⟨c, hrun, hheld⟩ : ∃ c, exec Client.step (.new 1) twoAhead = some c ∧
      c.handle = .held := by decide
  exact ⟨_, c, hresult, hrun, rfl, hahead _ _ c hresult hrun hheld⟩

end WebSocketClientBuilder
end ArmatureWebsocket
