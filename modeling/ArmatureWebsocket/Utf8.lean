import Mathlib.Data.List.Basic

/-! # UTF-8 validation

A left-to-right validator for byte strings, one well-formed sequence at a time, with the byte
ranges of the Unicode standard (Table 3-7): no overlong forms, no surrogates, nothing above
U+10FFFF.

* `validUpTo bs` is the length of the well-formed sequences at the front of `bs`, the position
  at which decoding fails when it does.
* `isUtf8 bs` says that the whole of `bs` is well formed; `Utf8Bytes` are such byte strings. -/

namespace ArmatureWebsocket

/-- Byte strings. -/
abbrev Bytes := List UInt8

namespace Utf8

/-- A trailing byte of a multi-byte sequence. -/
def isContinuation (b : UInt8) : Bool := 0x80 ≤ b && b ≤ 0xBF

/-- The first byte of a two-byte sequence. -/
def isLead2 (b : UInt8) : Bool := 0xC2 ≤ b && b ≤ 0xDF

/-- The first two bytes of a three-byte sequence. -/
def isLead3 (b₀ b₁ : UInt8) : Bool :=
  (b₀ == 0xE0 && 0xA0 ≤ b₁ && b₁ ≤ 0xBF) ||
  (0xE1 ≤ b₀ && b₀ ≤ 0xEC && isContinuation b₁) ||
  (b₀ == 0xED && 0x80 ≤ b₁ && b₁ ≤ 0x9F) ||
  (0xEE ≤ b₀ && b₀ ≤ 0xEF && isContinuation b₁)

/-- The first two bytes of a four-byte sequence. -/
def isLead4 (b₀ b₁ : UInt8) : Bool :=
  (b₀ == 0xF0 && 0x90 ≤ b₁ && b₁ ≤ 0xBF) ||
  (0xF1 ≤ b₀ && b₀ ≤ 0xF3 && isContinuation b₁) ||
  (b₀ == 0xF4 && 0x80 ≤ b₁ && b₁ ≤ 0x8F)

/-- The length of the well-formed sequences at the front of a byte string. -/
def validUpTo : Bytes → ℕ
  | [] => 0
  | b₀ :: rest =>
      if b₀ < 0x80 then 1 + validUpTo rest
      else match rest with
        | [] => 0
        | b₁ :: rest =>
            if isLead2 b₀ && isContinuation b₁ then 2 + validUpTo rest
            else match rest with
              | [] => 0
              | b₂ :: rest =>
                  if isLead3 b₀ b₁ && isContinuation b₂ then 3 + validUpTo rest
                  else match rest with
                    | [] => 0
                    | b₃ :: rest =>
                        if isLead4 b₀ b₁ && isContinuation b₂ && isContinuation b₃ then
                          4 + validUpTo rest
                        else 0

/-- The whole byte string is well formed. -/
def isUtf8 (bs : Bytes) : Bool := validUpTo bs == bs.length

example : isUtf8 [0x68, 0xC3, 0xA9, 0xE2, 0x82, 0xAC] = true := by decide
example : validUpTo [0x68, 0xED, 0xA0, 0x80] = 1 := by decide

end Utf8

/-- Byte strings that are valid UTF-8. -/
abbrev Utf8Bytes := {bs : Bytes // Utf8.isUtf8 bs = true}

end ArmatureWebsocket
