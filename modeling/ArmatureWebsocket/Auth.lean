import ArmatureWebsocket.KeyMap

/-! # Identities and origin policies

The identity an upgrade request was given, and the two origin policies a server can run with. -/

namespace ArmatureWebsocket

/-- The authenticated identity of a connection; without a subject it is anonymous. -/
structure Principal where
  subject : Option String
  attributes : KeyMap String String
deriving DecidableEq

namespace Principal

/-- A principal for an authenticated subject. -/
def new (subject : String) : Principal := ⟨some subject, ∅⟩

/-- The unauthenticated principal. -/
def anonymous : Principal := ⟨none, ∅⟩

end Principal

/-- Which browser origins may open a connection. -/
inductive OriginPolicy where
  | allowList (allowed : List String)
  | any
deriving DecidableEq, Repr

/-- The default rejects every browser origin. -/
def OriginPolicy.default : OriginPolicy := .allowList []

end ArmatureWebsocket
