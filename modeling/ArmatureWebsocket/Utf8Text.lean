import ArmatureWebsocket.Utf8
import Mathlib.Order.Bounds.Basic

/-! # The validator accepts the encodings of texts

A text is a list of Unicode scalar values and `encode` is its UTF-8 encoding, one character after
another.  One well-formed sequence is the encoding of one character, in both directions
(`validUpTo_encodeChar_append`, `exists_encodeChar_one` and its siblings).

So `isUtf8` holds of exactly the encodings of texts (`isUtf8_iff`), and `validUpTo` is the length of
the longest front part that is one (`validUpTo_isGreatest`). -/

namespace ArmatureWebsocket.Utf8

/-- The UTF-8 encoding of a text, a sequence of Unicode scalar values. -/
def encode (text : List Char) : Bytes := text.flatMap String.utf8EncodeChar

/-! ### The byte ranges -/

theorem toNat_ofNat_of_lt {n : ℕ} (h : n < 256) : (UInt8.ofNat n).toNat = n := by
  rw [UInt8.toNat_ofNat']
  omega

/-- Such a byte is not a character of its own. -/
theorem not_lt_of_le {b : UInt8} (h : 0x80 ≤ b.toNat) : ¬ b < 0x80 := by
  intro hlt
  have : b.toNat < 0x80 := hlt
  omega

theorem isContinuation_iff {b : UInt8} :
    isContinuation b = true ↔ 0x80 ≤ b.toNat ∧ b.toNat ≤ 0xBF := by
  simp [isContinuation, UInt8.le_iff_toNat_le]

theorem isLead2_iff {b : UInt8} : isLead2 b = true ↔ 0xC2 ≤ b.toNat ∧ b.toNat ≤ 0xDF := by
  simp [isLead2, UInt8.le_iff_toNat_le]

theorem isLead3_iff {b₀ b₁ : UInt8} :
    isLead3 b₀ b₁ = true ↔ 0xE0 ≤ b₀.toNat ∧ b₀.toNat ≤ 0xEF ∧ 0x80 ≤ b₁.toNat ∧ b₁.toNat ≤ 0xBF ∧
      (b₀.toNat = 0xE0 → 0xA0 ≤ b₁.toNat) ∧ (b₀.toNat = 0xED → b₁.toNat ≤ 0x9F) := by
  simp only [isLead3, isContinuation, Bool.or_eq_true, Bool.and_eq_true, decide_eq_true_eq,
    beq_iff_eq, UInt8.le_iff_toNat_le, ← UInt8.toNat_inj, UInt8.reduceToNat]
  omega

theorem isLead4_iff {b₀ b₁ : UInt8} :
    isLead4 b₀ b₁ = true ↔ 0xF0 ≤ b₀.toNat ∧ b₀.toNat ≤ 0xF4 ∧ 0x80 ≤ b₁.toNat ∧ b₁.toNat ≤ 0xBF ∧
      (b₀.toNat = 0xF0 → 0x90 ≤ b₁.toNat) ∧ (b₀.toNat = 0xF4 → b₁.toNat ≤ 0x8F) := by
  simp only [isLead4, isContinuation, Bool.or_eq_true, Bool.and_eq_true, decide_eq_true_eq,
    beq_iff_eq, UInt8.le_iff_toNat_le, ← UInt8.toNat_inj, UInt8.reduceToNat]
  omega

/-! ### One sequence at a time -/

section rules

variable {b₀ b₁ b₂ b₃ : UInt8} (rest : Bytes)

theorem validUpTo_one (h : b₀.toNat < 0x80) : validUpTo (b₀ :: rest) = 1 + validUpTo rest := by
  have h₀ : b₀ < 0x80 := h
  rw [validUpTo.eq_def]
  simp only [if_pos h₀]

theorem validUpTo_two (h₂ : isLead2 b₀ = true) (h₁ : isContinuation b₁ = true) :
    validUpTo (b₀ :: b₁ :: rest) = 2 + validUpTo rest := by
  have hlead := isLead2_iff.mp h₂
  have h₀ : ¬ b₀ < 0x80 := not_lt_of_le (by omega)
  rw [validUpTo.eq_def]
  simp only [if_neg h₀, h₂, h₁, Bool.and_self, if_true]

theorem validUpTo_three (h₃ : isLead3 b₀ b₁ = true) (h₂ : isContinuation b₂ = true) :
    validUpTo (b₀ :: b₁ :: b₂ :: rest) = 3 + validUpTo rest := by
  have hlead := isLead3_iff.mp h₃
  have h₀ : ¬ b₀ < 0x80 := not_lt_of_le (by omega)
  have hnot : isLead2 b₀ = false := by
    rw [← Bool.not_eq_true, isLead2_iff]
    omega
  rw [validUpTo.eq_def]
  simp only [if_neg h₀, hnot, Bool.false_and, Bool.false_eq_true, if_false, h₃, h₂, Bool.and_self,
    if_true]

theorem validUpTo_four (h₄ : isLead4 b₀ b₁ = true) (h₂ : isContinuation b₂ = true)
    (h₃ : isContinuation b₃ = true) :
    validUpTo (b₀ :: b₁ :: b₂ :: b₃ :: rest) = 4 + validUpTo rest := by
  have hlead := isLead4_iff.mp h₄
  have h₀ : ¬ b₀ < 0x80 := not_lt_of_le (by omega)
  have hnot₂ : isLead2 b₀ = false := by
    rw [← Bool.not_eq_true, isLead2_iff]
    omega
  have hnot₃ : isLead3 b₀ b₁ = false := by
    rw [← Bool.not_eq_true, isLead3_iff]
    omega
  rw [validUpTo.eq_def]
  simp only [if_neg h₀, hnot₂, hnot₃, Bool.false_and, Bool.false_eq_true, if_false, h₄, h₂, h₃,
    Bool.and_self, if_true]

end rules

/-! ### One sequence is one character -/

/-- A character's bytes are read as one well-formed sequence. -/
theorem validUpTo_encodeChar_append (c : Char) (rest : Bytes) :
    validUpTo (String.utf8EncodeChar c ++ rest) =
      (String.utf8EncodeChar c).length + validUpTo rest := by
  have hvalid : c.val.toNat < 0xD800 ∨ 0xDFFF < c.val.toNat ∧ c.val.toNat < 0x110000 := c.valid
  have hbyte : ∀ n, n < 256 → (UInt8.ofNat n).toNat = n := fun _ => toNat_ofNat_of_lt
  have htail : ∀ n, isContinuation (UInt8.ofNat (n % 0x40 + 0x80)) = true := by
    intro n
    rw [isContinuation_iff, hbyte _ (by omega)]
    omega
  unfold String.utf8EncodeChar
  simp only
  split_ifs with h₁ h₂ h₃
  · apply validUpTo_one
    rw [hbyte _ (by omega)]
    omega
  · apply validUpTo_two _ _ (htail _)
    rw [isLead2_iff, hbyte _ (by omega)]
    omega
  · apply validUpTo_three _ _ (htail _)
    rw [isLead3_iff, hbyte _ (by omega), hbyte _ (by omega)]
    omega
  · apply validUpTo_four _ _ (htail _) (htail _)
    rw [isLead4_iff, hbyte _ (by omega), hbyte _ (by omega)]
    omega

/-- A scalar value is some character's. -/
theorem exists_char {n : ℕ} (h : n < 0xD800 ∨ 0xDFFF < n ∧ n < 0x110000) :
    ∃ c : Char, c.val.toNat = n :=
  ⟨Char.ofNatAux n h, rfl⟩

theorem ofNat_eq {n : ℕ} {b : UInt8} (h : n = b.toNat) : UInt8.ofNat n = b := by
  rw [h]
  exact UInt8.ofNat_toNat

theorem exists_encodeChar_one {b₀ : UInt8} (h : b₀ < 0x80) :
    ∃ c, String.utf8EncodeChar c = [b₀] := by
  have h₀ : b₀.toNat < 0x80 := h
  obtain ⟨c, hc⟩ := exists_char (n := b₀.toNat) (by omega)
  refine ⟨c, ?_⟩
  unfold String.utf8EncodeChar
  simp only [hc]
  rw [if_pos (by omega), ofNat_eq rfl]

theorem exists_encodeChar_two {b₀ b₁ : UInt8} (h₀ : isLead2 b₀ = true)
    (h₁ : isContinuation b₁ = true) : ∃ c, String.utf8EncodeChar c = [b₀, b₁] := by
  rw [isLead2_iff] at h₀
  rw [isContinuation_iff] at h₁
  obtain ⟨c, hc⟩ := exists_char (n := (b₀.toNat - 0xC0) * 64 + (b₁.toNat - 0x80)) (by omega)
  refine ⟨c, ?_⟩
  unfold String.utf8EncodeChar
  simp only [hc]
  rw [if_neg (by omega), if_pos (by omega), ofNat_eq (b := b₀) (by omega),
    ofNat_eq (b := b₁) (by omega)]

theorem exists_encodeChar_three {b₀ b₁ b₂ : UInt8} (h₀ : isLead3 b₀ b₁ = true)
    (h₂ : isContinuation b₂ = true) : ∃ c, String.utf8EncodeChar c = [b₀, b₁, b₂] := by
  rw [isLead3_iff] at h₀
  rw [isContinuation_iff] at h₂
  obtain ⟨c, hc⟩ := exists_char
    (n := (b₀.toNat - 0xE0) * 4096 + (b₁.toNat - 0x80) * 64 + (b₂.toNat - 0x80)) (by omega)
  refine ⟨c, ?_⟩
  unfold String.utf8EncodeChar
  simp only [hc]
  rw [if_neg (by omega), if_neg (by omega), if_pos (by omega), ofNat_eq (b := b₀) (by omega),
    ofNat_eq (b := b₁) (by omega), ofNat_eq (b := b₂) (by omega)]

theorem exists_encodeChar_four {b₀ b₁ b₂ b₃ : UInt8} (h₀ : isLead4 b₀ b₁ = true)
    (h₂ : isContinuation b₂ = true) (h₃ : isContinuation b₃ = true) :
    ∃ c, String.utf8EncodeChar c = [b₀, b₁, b₂, b₃] := by
  rw [isLead4_iff] at h₀
  rw [isContinuation_iff] at h₂ h₃
  obtain ⟨c, hc⟩ := exists_char
    (n := (b₀.toNat - 0xF0) * 262144 + (b₁.toNat - 0x80) * 4096 + (b₂.toNat - 0x80) * 64 +
      (b₃.toNat - 0x80)) (by omega)
  refine ⟨c, ?_⟩
  unfold String.utf8EncodeChar
  simp only [hc]
  rw [if_neg (by omega), if_neg (by omega), if_neg (by omega), ofNat_eq (b := b₀) (by omega),
    ofNat_eq (b := b₁) (by omega), ofNat_eq (b := b₂) (by omega), ofNat_eq (b := b₃) (by omega)]

/-! ### Texts -/

theorem exists_text (bs : Bytes) :
    ∃ text rest, bs = encode text ++ rest ∧ (encode text).length = validUpTo bs := by
  have hmore : ∀ {seq tail : Bytes} {n : ℕ}, (∃ c, String.utf8EncodeChar c = seq) →
      (∃ text rest, tail = encode text ++ rest ∧ (encode text).length = n) →
        ∃ text rest, seq ++ tail = encode text ++ rest ∧ (encode text).length = seq.length + n := by
    rintro seq tail n ⟨c, rfl⟩ ⟨text, rest, rfl, rfl⟩
    refine ⟨c :: text, rest, ?_, ?_⟩
    · rw [encode, encode, List.flatMap_cons, List.append_assoc]
    · rw [encode, encode, List.flatMap_cons, List.length_append]
  fun_induction validUpTo bs with
  | case2 b₀ rest h ih => exact hmore (exists_encodeChar_one h) ih
  | case4 b₀ h b₁ rest h₁ ih =>
      rw [Bool.and_eq_true] at h₁
      exact hmore (exists_encodeChar_two h₁.1 h₁.2) ih
  | case6 b₀ h b₁ h₁ b₂ rest h₂ ih =>
      rw [Bool.and_eq_true] at h₂
      exact hmore (exists_encodeChar_three h₂.1 h₂.2) ih
  | case8 b₀ h b₁ h₁ b₂ h₂ b₃ rest h₃ ih =>
      rw [Bool.and_eq_true, Bool.and_eq_true] at h₃
      exact hmore (exists_encodeChar_four h₃.1.1 h₃.1.2 h₃.2) ih
  | _ => exact ⟨[], _, rfl, rfl⟩

theorem validUpTo_encode_append (text : List Char) (rest : Bytes) :
    validUpTo (encode text ++ rest) = (encode text).length + validUpTo rest := by
  induction text with
  | nil => simp [encode]
  | cons c text ih =>
      have hcons : encode (c :: text) = String.utf8EncodeChar c ++ encode text := rfl
      rw [hcons, List.append_assoc, validUpTo_encodeChar_append, ih, List.length_append,
        Nat.add_assoc]

/-- **The validator accepts exactly UTF-8**: a byte string is accepted if and only if it is the
encoding of a text. -/
theorem isUtf8_iff (bs : Bytes) : isUtf8 bs = true ↔ ∃ text, bs = encode text := by
  constructor
  · intro h
    obtain ⟨text, rest, hbs, hlength⟩ := exists_text bs
    have hfull : validUpTo bs = bs.length := beq_iff_eq.mp h
    have hrest : rest = [] := by
      have := congrArg List.length hbs
      rw [List.length_append] at this
      exact List.length_eq_zero_iff.mp (by omega)
    rw [hrest, List.append_nil] at hbs
    exact ⟨text, hbs⟩
  · rintro ⟨text, rfl⟩
    have h := validUpTo_encode_append text []
    rw [List.append_nil] at h
    exact beq_iff_eq.mpr h

/-- **Where decoding fails** is the length of the longest front part that is the encoding of a
text. -/
theorem validUpTo_isGreatest (bs : Bytes) :
    IsGreatest {n | ∃ text rest, bs = encode text ++ rest ∧ (encode text).length = n}
      (validUpTo bs) := by
  refine ⟨exists_text bs, ?_⟩
  rintro n ⟨text, rest, rfl, rfl⟩
  rw [validUpTo_encode_append]
  exact Nat.le_add_right _ _

end ArmatureWebsocket.Utf8
