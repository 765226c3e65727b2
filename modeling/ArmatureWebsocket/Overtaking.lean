import ArmatureWebsocket.Connection

/-! # Messages behind a Close

A writer stops at the first Close that it takes from its queue, so what stands behind a Close is
not handed over.  `afterClose` is that part of a list of queued messages, `due` says which of them
somebody was promised, and `NoneOvertaken` says that there is none of these behind a Close.  It is
what a server connection and a client have in common. -/

namespace ArmatureWebsocket

/-- The envelope comes from a send. -/
def Envelope.fromSend (e : Envelope) : Bool := e.origin == .send

/-- No message of the list is a Close. -/
def NoClose (es : List Envelope) : Prop := ∀ e ∈ es, e.message.isClose = false

instance (es : List Envelope) : Decidable (NoClose es) :=
  inferInstanceAs (Decidable (∀ e ∈ es, _))

/-- What stands behind the first Close of the list. -/
def afterClose : List Envelope → List Envelope
  | [] => []
  | e :: es => if e.message.isClose then es else afterClose es

/-- The envelope carries an accepted message that can be put on the wire. -/
def Envelope.due (e : Envelope) : Bool := e.fromSend && e.message.sendable

/-- Nothing due stands behind a Close. -/
def NoneOvertaken (es : List Envelope) : Prop := ∀ e ∈ afterClose es, e.due = false

section lists

variable {es fs : List Envelope} {e : Envelope}

theorem afterClose_append_of_noClose (h : NoClose es) : afterClose (es ++ fs) = afterClose fs := by
  induction es with
  | nil => rfl
  | cons e es ih =>
      have he : e.message.isClose = false := h e List.mem_cons_self
      have hes : NoClose es := fun e' he' => h e' (List.mem_cons_of_mem e he')
      rw [List.cons_append, afterClose, he, ih hes]
      rfl

theorem afterClose_append_of_not_noClose (h : ¬ NoClose es) :
    afterClose (es ++ fs) = afterClose es ++ fs := by
  induction es with
  | nil => exact absurd (fun e he => by cases he) h
  | cons e es ih =>
      rw [List.cons_append, afterClose, afterClose]
      split_ifs with he
      · rfl
      · refine ih fun hes => h ?_
        intro e' he'
        obtain rfl | he' := List.mem_cons.mp he'
        · simpa using he
        · exact hes e' he'

theorem afterClose_of_noClose (h : NoClose es) : afterClose es = [] := by
  have happ : afterClose (es ++ []) = afterClose [] := afterClose_append_of_noClose h
  rw [List.append_nil] at happ
  exact happ

theorem noneOvertaken_append_singleton :
    NoneOvertaken (es ++ [e]) ↔ NoneOvertaken es ∧ (e.due = true → NoClose es) := by
  unfold NoneOvertaken
  by_cases h : NoClose es
  · rw [afterClose_append_of_noClose h, afterClose_of_noClose h]
    have hnil : afterClose [e] = [] := by
      unfold afterClose
      split_ifs <;> rfl
    rw [hnil]
    simp [h]
  · rw [afterClose_append_of_not_noClose h]
    simp only [List.mem_append, List.mem_singleton, h, imp_false, Bool.not_eq_true]
    constructor
    · intro hall
      exact ⟨fun e' he' => hall e' (.inl he'), hall e (.inr rfl)⟩
    · rintro ⟨hes, he⟩ e' (he' | rfl)
      · exact hes e' he'
      · exact he

theorem noClose_append_singleton :
    NoClose (es ++ [e]) ↔ NoClose es ∧ e.message.isClose = false := by
  unfold NoClose
  simp [or_imp, forall_and]

theorem NoClose.of_prefix (h : NoClose fs) (hp : es <+: fs) : NoClose es :=
  fun e he => h e (hp.subset he)

theorem filter_due (es : List Envelope) :
    es.filter Envelope.due = (es.filter fun e => e.message.sendable).filter Envelope.fromSend := by
  rw [List.filter_filter]
  rfl

/-- What the sendable messages of a first part contain of the due messages of the whole: all of them
exactly when the rest has none. -/
theorem due_sublist_iff {rest : List Envelope} :
    ((es ++ rest).filter Envelope.due).Sublist (es.filter fun e => e.message.sendable) ↔
      ∀ e ∈ rest, e.due = false := by
  rw [List.filter_append]
  constructor
  · intro hsub
    -- the due messages of the first part already use up the messages of sends
    have hsends := (hsub.filter Envelope.fromSend).length_le
    have hsame : (es.filter Envelope.due).filter Envelope.fromSend =
        (es.filter fun e => e.message.sendable).filter Envelope.fromSend := by
      rw [filter_due, List.filter_filter]
      simp only [Bool.and_self]
    rw [List.filter_append, List.length_append, hsame] at hsends
    have hempty : ((rest.filter Envelope.due).filter Envelope.fromSend).length = 0 := by omega
    intro e he
    by_contra hd
    have hdue : e.due = true := by simpa using hd
    have hfrom : e.fromSend = true := (Bool.and_eq_true_iff.mp hdue).1
    have hmem : e ∈ (rest.filter Envelope.due).filter Envelope.fromSend :=
      List.mem_filter.mpr ⟨List.mem_filter.mpr ⟨he, hdue⟩, hfrom⟩
    rw [List.length_eq_zero_iff.mp hempty] at hmem
    cases hmem
  · intro hnone
    have hempty : rest.filter Envelope.due = [] := by
      rw [List.filter_eq_nil_iff]
      intro e he
      simpa using hnone e he
    rw [hempty, List.append_nil, filter_due]
    exact List.filter_sublist

/-- A reader that ends at the first Close, or with everything, hands over what is due if and only if
nothing due stands behind a Close. -/
theorem sublist_iff_noneOvertaken {sent received : List Envelope} (hinitial : received <+: sent)
    (hended : (∃ es c, received = es ++ [c] ∧ NoClose es ∧ c.message.isClose = true) ∨
      NoClose received ∧ sent = received) :
    (sent.filter Envelope.due).Sublist (received.filter fun e => e.message.sendable) ↔
      NoneOvertaken sent := by
  unfold NoneOvertaken
  obtain ⟨rest, rfl⟩ := hinitial
  have hafter : afterClose (received ++ rest) = rest := by
    obtain ⟨es, c, rfl, hes, hclose⟩ | ⟨hno, hsent⟩ := hended
    · rw [List.append_assoc, afterClose_append_of_noClose hes]
      simp [afterClose, hclose]
    · have hrest : rest = [] := by simpa using hsent
      rw [hrest, List.append_nil]
      exact afterClose_of_noClose hno
  rw [hafter]
  exact due_sublist_iff

end lists

end ArmatureWebsocket
