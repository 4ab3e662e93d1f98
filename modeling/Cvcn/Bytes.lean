import Mathlib.Data.List.TakeWhile

/-!
# Byte buffers

`ByteReader` and `ByteWriter`, which client and server share. A `std::string` is its
bytes. The reader's cursor and remaining count are the bytes that are left.
-/

namespace Cvcn

abbrev Bytes := List UInt8

/-- What a C function reads of a string passed as `c_str()`: it ends at the first NUL. -/
def cStr (s : Bytes) : Bytes := s.takeWhile (· ≠ 0)

theorem cStr_eq_self {s : Bytes} (none : 0 ∉ s) : cStr s = s := by
  apply List.takeWhile_eq_self_iff.mpr
  intro b hb
  have nonzero : b ≠ 0 := fun zero => none (zero ▸ hb)
  simpa using nonzero

namespace ByteReader

def readUint8 : Bytes → UInt8 × Bytes
  | b :: rest => (b, rest)
  | [] => (0, [])

/-- Too few bytes read as 0 and are not consumed. -/
def readUint16BE : Bytes → UInt16 × Bytes
  | b0 :: b1 :: rest => (UInt16.ofNat (b0.toNat * 256 + b1.toNat), rest)
  | short => (0, short)

def readUint32BE : Bytes → UInt32 × Bytes
  | b0 :: b1 :: b2 :: b3 :: rest =>
    (UInt32.ofNat (((b0.toNat * 256 + b1.toNat) * 256 + b2.toNat) * 256 + b3.toNat), rest)
  | short => (0, short)

/-- A string shorter than its announced length reads as empty; only the length is consumed. -/
def readString (bytes : Bytes) : Bytes × Bytes :=
  let (length, rest) := readUint16BE bytes
  if rest.length < length.toNat then ([], rest)
  else (rest.take length.toNat, rest.drop length.toNat)

end ByteReader

namespace ByteWriter

def writeUint8 (buffer : Bytes) (value : UInt8) : Bytes := buffer ++ [value]

def writeUint16BE (buffer : Bytes) (value : UInt16) : Bytes :=
  buffer ++ [UInt8.ofNat (value.toNat / 256), UInt8.ofNat value.toNat]

def writeUint32BE (buffer : Bytes) (value : UInt32) : Bytes :=
  buffer ++ [UInt8.ofNat (value.toNat / 0x1000000), UInt8.ofNat (value.toNat / 0x10000),
    UInt8.ofNat (value.toNat / 256), UInt8.ofNat value.toNat]

/-- The length is cast to 16 bits, and so many bytes of the string follow. -/
def writeString (buffer str : Bytes) : Bytes :=
  let length := UInt16.ofNat str.length
  writeUint16BE buffer length ++ str.take length.toNat

end ByteWriter

end Cvcn
