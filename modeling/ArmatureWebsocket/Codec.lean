import ArmatureWebsocket.Message
import ArmatureWebsocket.Utf8Text

/-! # Converting messages to the wire form and back

A message is refused exactly when it is a text whose payload is not the encoding of one, and the
error says how far the payload is.  Every other message comes back from the wire form as it was, but
for the payload of a close message: the library's close frames have none in either direction, so
`Close` is converted to the empty close frame and comes back empty (`codec`). -/

namespace ArmatureWebsocket
namespace Message

variable {m : Message}

theorem toTungstenite_eq_error_iff {e : InvalidTextPayload} :
    m.toTungstenite = .error e ↔
      m.messageType = .text ∧ Utf8.isUtf8 m.payload = false ∧
        e.validUpTo = Utf8.validUpTo m.payload := by
  obtain ⟨n⟩ := e
  unfold toTungstenite
  cases m.messageType with
  | text => by_cases h : Utf8.isUtf8 m.payload = true <;> simp [h, eq_comm]
  | _ => simp

theorem ofTungstenite_of_toTungstenite {raw : TungsteniteMessage} (h : m.toTungstenite = .ok raw) :
    ofTungstenite raw = if m.messageType = .close then .close else m := by
  obtain ⟨messageType, payload⟩ := m
  unfold toTungstenite at h
  cases messageType with
  | text =>
      simp only at h
      split_ifs at h with hutf8
      cases h
      rfl
  | _ =>
      cases h
      rfl

/-- **Conversion to the wire form and back**: a message is refused exactly when it is a text whose
payload is not UTF-8, with the length of the longest part in front that is.  What is converted comes
back with the same type, and with the same payload unless it is a close message with a payload,
which comes back empty.  Texts, binaries, pings and pongs of the wire come back unchanged. -/
theorem codec :
    (∀ m : Message,
      (∀ e, m.toTungstenite = .error e ↔ m.messageType = .text ∧
        (¬ ∃ text, m.payload = Utf8.encode text) ∧
          IsGreatest {n | ∃ text rest, m.payload = Utf8.encode text ++ rest ∧
            (Utf8.encode text).length = n} e.validUpTo) ∧
      ∀ raw, m.toTungstenite = .ok raw →
        (ofTungstenite raw).messageType = m.messageType ∧
          (m.messageType ≠ .close → ofTungstenite raw = m) ∧
          (m.messageType = .close → raw = .close none ∧ ofTungstenite raw = .close)) ∧
    (∀ text, (ofTungstenite (.text text)).toTungstenite = .ok (.text text)) ∧
    (∀ data, (ofTungstenite (.binary data)).toTungstenite = .ok (.binary data)) ∧
    (∀ data, (ofTungstenite (.ping data)).toTungstenite = .ok (.ping data)) ∧
    ∀ data, (ofTungstenite (.pong data)).toTungstenite = .ok (.pong data) := by
  refine ⟨fun m => ⟨fun e => ?_, fun raw hraw => ?_⟩, fun text => ?_, fun _ => rfl, fun _ => rfl,
    fun _ => rfl⟩
  · rw [toTungstenite_eq_error_iff, ← Utf8.isUtf8_iff, Bool.not_eq_true]
    have hgreatest := Utf8.validUpTo_isGreatest m.payload
    refine and_congr_right fun _ => and_congr_right fun _ => ⟨fun he => ?_, fun he => ?_⟩
    · rw [he]
      exact hgreatest
    · exact he.unique hgreatest
  · have hback := ofTungstenite_of_toTungstenite hraw
    by_cases hclose : m.messageType = .close
    · rw [if_pos hclose] at hback
      refine ⟨by rw [hback, hclose]; rfl, fun hne => absurd hclose hne, fun _ => ⟨?_, hback⟩⟩
      unfold toTungstenite at hraw
      rw [hclose] at hraw
      cases hraw
      rfl
    · rw [if_neg hclose] at hback
      exact ⟨by rw [hback], fun _ => hback, fun he => absurd he hclose⟩
  · unfold toTungstenite
    exact dif_pos text.property

/-- A close message with the bytes of a status code. -/
def closeWithCode : Message := ⟨.close, [0x03, 0xE8]⟩

/-- It is converted, and comes back without the status code. -/
theorem payload_lost_closeWithCode :
    ∃ raw, closeWithCode.toTungstenite = .ok raw ∧
      (ofTungstenite raw).payload ≠ closeWithCode.payload :=
  ⟨.close none, rfl, by decide⟩

end Message
end ArmatureWebsocket
