import Cvcn.Bytes

/-! # Validator, with the limits of `AppConfig.h` -/

namespace Cvcn

namespace config

def MAX_USERNAME_LENGTH : Nat := 64
def MAX_PASSWORD_LENGTH : Nat := 127
def MAX_MESSAGE_LENGTH : Nat := 4096
def MAX_REASONABLE_PACKET_BODY : Nat := MAX_MESSAGE_LENGTH + 1024

/-- The bytes of `"hash_"`. -/
def PASSWORD_HASH_PREFIX : Bytes := [104, 97, 115, 104, 95]

end config

namespace Validator

/-- Latin letters, digits and `- _ ! @ ^ ?`. -/
def isCredentialChar (symbol : UInt8) : Bool :=
  (97 ≤ symbol && symbol ≤ 122) || (65 ≤ symbol && symbol ≤ 90) ||
  (48 ≤ symbol && symbol ≤ 57) || [45, 95, 33, 64, 94, 63].contains symbol

/-- A line feed, or neither a control character nor DEL; bytes of UTF-8 pass. -/
def isMessageChar (symbol : UInt8) : Bool :=
  symbol == 10 || !(symbol < 0x20 || symbol == 0x7F)

/-- Not empty, at most `limit` bytes, and every byte allowed. -/
def bounded (limit : Nat) (allowed : UInt8 → Bool) (s : Bytes) : Bool :=
  !(s.isEmpty || s.length > limit) && s.all allowed

def validateUsername (username : Bytes) : Bool :=
  bounded config.MAX_USERNAME_LENGTH isCredentialChar username

def validatePassword (password : Bytes) : Bool :=
  bounded config.MAX_PASSWORD_LENGTH isCredentialChar password

def validateMessage (message : Bytes) : Bool :=
  bounded config.MAX_MESSAGE_LENGTH isMessageChar message

def validateChatID (chatID : UInt32) : Bool := chatID > 0

/-- From 1 to `limit` bytes, each of them allowed. -/
def Within (limit : Nat) (allowed : UInt8 → Bool) (s : Bytes) : Prop :=
  1 ≤ s.length ∧ s.length ≤ limit ∧ ∀ c ∈ s, allowed c = true

theorem bounded_iff {limit : Nat} {allowed : UInt8 → Bool} {s : Bytes} :
    bounded limit allowed s = true ↔ Within limit allowed s := by
  cases s with
  | nil => simp [bounded, Within]
  | cons c s => simp [bounded, Within]

theorem Within.nonempty {limit : Nat} {allowed : UInt8 → Bool} {s : Bytes}
    (h : Within limit allowed s) : s ≠ [] :=
  List.length_pos_iff.mp h.1

/-- A string that passes holds no NUL, so `c_str()` is all of it. -/
theorem cStr_of_bounded {limit : Nat} {allowed : UInt8 → Bool} {s : Bytes}
    (h : bounded limit allowed s = true) (nul : allowed 0 = false) : cStr s = s := by
  simp only [bounded, Bool.and_eq_true, List.all_eq_true] at h
  apply cStr_eq_self
  intro zero
  have pass := h.2 0 zero
  rw [nul] at pass
  cases pass

end Validator

end Cvcn
