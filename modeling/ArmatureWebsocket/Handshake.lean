import ArmatureWebsocket.Auth
import ArmatureWebsocket.Error
import ArmatureWebsocket.Utf8
import Mathlib.Data.List.DropRight

/-! # The upgrade handshake

The protocol library reads the upgrade request and calls the server back with it once.  The
callback asks the origin policy and then the authorizer; a principal leaves it through a slot, a
rejection becomes the error response that the library sends.  When the library is done, or has been
given up on, the handshake ends with the principal in the slot or with none.

`Handshake` is the state of one handshake.  Beside the slot it records what the callback was
called with, what the authorizer was asked and what the callback returned.  `verdict` is what the
two parties say of a request, and `Handshake.Sound` says that the recorded values are what the
verdict on the recorded request makes them. -/

namespace ArmatureWebsocket

/-- An HTTP status code. -/
abbrev StatusCode := { code : ℕ // 100 ≤ code ∧ code < 1000 }

namespace StatusCode

def OK : StatusCode := ⟨200, by decide⟩
def UNAUTHORIZED : StatusCode := ⟨401, by decide⟩
def FORBIDDEN : StatusCode := ⟨403, by decide⟩

end StatusCode

/-- A byte that a header value may contain: no control character but the tab. -/
def isHeaderByte (b : UInt8) : Bool := 32 ≤ b && b != 127 || b == 9

/-- The value of a header. -/
structure HeaderValue where
  bytes : Bytes
  valid : bytes.all isHeaderByte = true
deriving DecidableEq

/-- A byte of text that a header value can be read as. -/
def isVisibleAscii (b : UInt8) : Bool := 32 ≤ b && b < 127 || b == 9

/-- The value as text, if it is visible ASCII. -/
def HeaderValue.toStr (value : HeaderValue) : Option String :=
  if value.bytes.all isVisibleAscii then
    some (String.ofList (value.bytes.map fun b => Char.ofNat b.toNat))
  else none

/-- The HTTP upgrade request; the names of headers are in lower case. -/
structure HandshakeRequest where
  method : String
  uri : String
  headers : List (String × HeaderValue)
deriving DecidableEq

/-- The values of all headers of that name. -/
def HandshakeRequest.getAll (request : HandshakeRequest) (name : String) : List HeaderValue :=
  (request.headers.filter fun header => header.1 == name).map Prod.snd

/-- Why an upgrade request was refused. -/
structure HandshakeRejection where
  status : StatusCode
  reason : String
deriving DecidableEq

namespace HandshakeRejection

/-- `401 Unauthorized`: credentials missing or invalid. -/
def unauthorized : HandshakeRejection := ⟨.UNAUTHORIZED, "Unauthorized"⟩

end HandshakeRejection

/-- Decides whether an upgrade request may become a connection. -/
abbrev HandshakeAuthorizer := HandshakeRequest → Except HandshakeRejection Principal

/-- Explicit opt-out of upgrade authentication. -/
def AllowAnonymous : HandshakeAuthorizer := fun _ => .ok .anonymous

/-- The Unicode white space characters. -/
def isWhitespace (c : Char) : Bool :=
  let n := c.toNat
  (9 ≤ n && n ≤ 13) || n == 0x20 || n == 0x85 || n == 0xA0 || n == 0x1680 ||
    (0x2000 ≤ n && n ≤ 0x200A) || n == 0x2028 || n == 0x2029 || n == 0x202F || n == 0x205F ||
    n == 0x3000

/-- Without white space at either end. -/
def trim (text : List Char) : List Char := (text.dropWhile isWhitespace).rdropWhile isWhitespace

/-- Without that character at the end, however often it is repeated. -/
def trimEndMatches (c : Char) (text : List Char) : List Char := text.rdropWhile (· == c)

/-- The form in which origins are compared. -/
def normalizeOrigin (origin : String) : String :=
  String.ofList ((trimEndMatches '/' (trim origin.toList)).map Char.toLower)

/-- Apply the policy to an upgrade request. -/
def OriginPolicy.check (policy : OriginPolicy) (request : HandshakeRequest) :
    Except HandshakeRejection Unit :=
  match request.getAll "origin" with
  | [] => .ok ()
  | _ :: _ :: _ => .error ⟨.FORBIDDEN, "Multiple Origin headers"⟩
  | [origin] =>
      let rejected : HandshakeRejection := ⟨.FORBIDDEN, "Origin not allowed"⟩
      match policy with
      | .any => .ok ()
      | .allowList allowed =>
          match origin.toStr with
          | none => .error rejected
          | some origin =>
              if allowed.any fun a => normalizeOrigin a == normalizeOrigin origin then .ok ()
              else .error rejected

/-- The HTTP error response to a refused upgrade. -/
structure ErrorResponse where
  status : StatusCode
  body : Option String
deriving DecidableEq

/-- A response with that body. -/
def ErrorResponse.new (body : Option String) : ErrorResponse := ⟨.OK, body⟩

/-- The HTTP error response sent for a refused upgrade. -/
def rejectionResponse (rejection : HandshakeRejection) : ErrorResponse :=
  { ErrorResponse.new (some rejection.reason) with status := rejection.status }

/-- What origin policy and authorizer say of a request; the policy is asked first. -/
def verdict (policy : OriginPolicy) (authorizer : HandshakeAuthorizer)
    (request : HandshakeRequest) : Except HandshakeRejection Principal :=
  (policy.check request).bind fun _ => authorizer request

/-- A handshake: the slot, what the callback was called with and returned, and the requests the
authorizer was asked about. -/
structure Handshake where
  slot : Option Principal
  request : Option HandshakeRequest
  consulted : List HandshakeRequest
  answer : Option (Except ErrorResponse Unit)
deriving DecidableEq

/-- How the library's part of the handshake ended, or that it was given up on. -/
inductive AcceptOutcome where
  | timedOut
  | http (response : ErrorResponse)
  | failed (reason : String)
  | accepted
deriving DecidableEq

namespace Handshake

/-- A handshake before the callback is called. -/
def new : Handshake := ⟨none, none, [], none⟩

/-- The callback. -/
def callback (policy : OriginPolicy) (authorizer : HandshakeAuthorizer) (h : Handshake)
    (request : HandshakeRequest) : Handshake :=
  let h := { h with request := some request }
  match policy.check request with
  | .error rejection => { h with answer := some (.error (rejectionResponse rejection)) }
  | .ok () =>
      let h := { h with consulted := h.consulted ++ [request] }
      match authorizer request with
      | .error rejection => { h with answer := some (.error (rejectionResponse rejection)) }
      | .ok principal => { h with slot := some principal, answer := some (.ok ()) }

/-- The end of the handshake: what is left of it, and what `handshake` returns. -/
def finish (h : Handshake) : AcceptOutcome → Handshake × WebSocketResult (Option Principal)
  | .timedOut => (h, .ok none)
  | .http _ => (h, .ok none)
  | .failed reason => (h, .error (.protocol reason))
  | .accepted =>
      ({ h with slot := none },
        match h.slot with
        | some principal => .ok (some principal)
        | none => .error (.server "handshake completed without authorization"))

/-- What the handshake holds is what the verdict on its request makes it. -/
structure Sound (policy : OriginPolicy) (authorizer : HandshakeAuthorizer) (h : Handshake) :
    Prop where
  slot : ∀ principal, h.slot = some principal →
    ∃ request, h.request = some request ∧ verdict policy authorizer request = .ok principal
  consulted : ∀ request ∈ h.consulted,
    h.request = some request ∧ policy.check request = .ok ()
  answer : ∀ request, h.request = some request →
    h.answer =
      some ((verdict policy authorizer request).map (fun _ => ()) |>.mapError rejectionResponse)
  unasked : h.request = none → h = new

variable {policy : OriginPolicy} {authorizer : HandshakeAuthorizer} {h : Handshake}

theorem sound_new : new.Sound policy authorizer where
  slot := nofun
  consulted := nofun
  answer := nofun
  unasked := fun _ => rfl

/-- The callback, called once, leaves what the verdict says. -/
theorem Sound.callback (hsound : h.Sound policy authorizer) (hnone : h.request = none)
    (request : HandshakeRequest) :
    (h.callback policy authorizer request).Sound policy authorizer := by
  obtain rfl := hsound.unasked hnone
  unfold Handshake.callback
  cases hcheck : policy.check request with
  | error rejection =>
      have hverdict : verdict policy authorizer request = .error rejection := by
        rw [verdict, hcheck]
        rfl
      refine ⟨nofun, nofun, ?_, nofun⟩
      intro request' he
      cases he
      rw [hverdict]
      rfl
  | ok u =>
      have hverdict : verdict policy authorizer request = authorizer request := by
        rw [verdict, hcheck]
        rfl
      have hconsulted : ∀ request' ∈ [request],
          some request = some request' ∧ policy.check request' = .ok () := by
        intro request' hmem
        obtain rfl := List.mem_singleton.mp hmem
        exact ⟨rfl, hcheck⟩
      cases hauth : authorizer request with
      | error rejection =>
          refine ⟨nofun, hconsulted, ?_, nofun⟩
          intro request' he
          cases he
          rw [hverdict, hauth]
          rfl
      | ok principal =>
          refine ⟨?_, hconsulted, ?_, nofun⟩
          · intro principal' he
            cases he
            exact ⟨request, rfl, hverdict.trans hauth⟩
          · intro request' he
            cases he
            rw [hverdict, hauth]
            rfl

theorem Sound.finish (hsound : h.Sound policy authorizer) (outcome : AcceptOutcome) :
    (h.finish outcome).1.Sound policy authorizer := by
  cases outcome with
  | accepted =>
      refine ⟨nofun, hsound.consulted, hsound.answer, fun hnone => ?_⟩
      obtain rfl := hsound.unasked hnone
      rfl
  | _ => exact hsound

@[simp] theorem finish_request (outcome : AcceptOutcome) :
    (h.finish outcome).1.request = h.request := by
  cases outcome <;> rfl

theorem Sound.principal (hsound : h.Sound policy authorizer) {outcome : AcceptOutcome}
    {principal : Principal} (hfinish : (h.finish outcome).2 = .ok (some principal)) :
    ∃ request, h.request = some request ∧ verdict policy authorizer request = .ok principal := by
  cases outcome with
  | accepted =>
      apply hsound.slot
      cases hslot : h.slot with
      | none =>
          rw [Handshake.finish, hslot] at hfinish
          cases hfinish
      | some principal' =>
          rw [Handshake.finish, hslot] at hfinish
          cases hfinish
          rfl
  | timedOut => cases hfinish
  | http response => cases hfinish
  | failed reason => cases hfinish

end Handshake

/-- A principal was granted exactly when the policy let the request pass and the authorizer granted
it. -/
theorem verdict_eq_ok_iff {policy : OriginPolicy} {authorizer : HandshakeAuthorizer}
    {request : HandshakeRequest} {principal : Principal} :
    verdict policy authorizer request = .ok principal ↔
      policy.check request = .ok () ∧ authorizer request = .ok principal := by
  unfold verdict
  cases policy.check request with
  | error rejection => simp [Except.bind]
  | ok u => simp [Except.bind]

theorem verdict_eq_error_iff {policy : OriginPolicy} {authorizer : HandshakeAuthorizer}
    {request : HandshakeRequest} {rejection : HandshakeRejection} :
    verdict policy authorizer request = .error rejection ↔
      policy.check request = .error rejection ∨
        policy.check request = .ok () ∧ authorizer request = .error rejection := by
  unfold verdict
  cases policy.check request with
  | error rejection' => simp [Except.bind]
  | ok u => simp [Except.bind]

end ArmatureWebsocket
