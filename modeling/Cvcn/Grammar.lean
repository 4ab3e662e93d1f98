import Cvcn.Codec

/-!
# What the parser accepts

Each payload type with data has a format: its fields in order, or a count with so many
groups of fields. The readers answer 0 or an empty string where a field is not complete, and
the only test is that nothing remains. So a body with gaps can be accepted, and these are all
the bodies on which the parser and the grammar disagree.
-/

namespace Cvcn

open Cursor

inductive Field where
  | uint8 | uint16 | uint32 | string
  deriving DecidableEq, Repr

namespace Field

/-- The bytes that the reader demands before it consumes any. -/
def width : Field → Nat
  | uint8 => 1
  | uint16 | string => 2
  | uint32 => 4

/-- A complete field. A Boolean may be any byte. -/
inductive Whole : Field → Bytes → Prop
  | uint8 (b : UInt8) : Whole .uint8 [b]
  | uint16 (b0 b1 : UInt8) : Whole .uint16 [b0, b1]
  | uint32 (b0 b1 b2 b3 : UInt8) : Whole .uint32 [b0, b1, b2, b3]
  | string (b0 b1 : UInt8) (text : Bytes) (announced : text.length = b0.toNat * 256 + b1.toNat) :
      Whole .string (b0 :: b1 :: text)

/-- A field that is not there: too few bytes are left and none is consumed, or a string is
shorter than announced and only its length is consumed. -/
inductive Gap : Field → Bytes → Bytes → Prop
  | short (f : Field) (bytes : Bytes) (few : bytes.length < f.width) : Gap f bytes bytes
  | cut (b0 b1 : UInt8) (text : Bytes) (few : text.length < b0.toNat * 256 + b1.toNat) :
      Gap .string (b0 :: b1 :: text) text

/-- What the field's reader leaves. -/
def after : Field → Bytes → Bytes
  | uint8, bytes => (ByteReader.readUint8 bytes).2
  | uint16, bytes => (ByteReader.readUint16BE bytes).2
  | uint32, bytes => (ByteReader.readUint32BE bytes).2
  | string, bytes => (ByteReader.readString bytes).2

theorem toNat_length (b0 b1 : UInt8) :
    (UInt16.ofNat (b0.toNat * 256 + b1.toNat)).toNat = b0.toNat * 256 + b1.toNat := by
  have h0 := b0.toNat_lt
  have h1 := b1.toNat_lt
  exact Encoding.toNat_ofNat (by omega)

theorem after_whole {f : Field} {code : Bytes} (rest : Bytes) (h : Whole f code) :
    after f (code ++ rest) = rest := by
  cases h with
  | uint8 | uint16 | uint32 => rfl
  | string b0 b1 text announced =>
    have enough : ¬ (text ++ rest).length < text.length := by
      rw [List.length_append]
      omega
    have size := (toNat_length b0 b1).trans announced.symm
    simp only [after, ByteReader.readString, ByteReader.readUint16BE, List.cons_append, size,
      if_neg enough, List.drop_left]

theorem after_gap {f : Field} {bytes rest : Bytes} (h : Gap f bytes rest) :
    after f bytes = rest := by
  cases h with
  | short _ _ few =>
    match f, bytes, few with
    | .uint8, [], _ => rfl
    | .uint16, [], _ | .uint16, [_], _ => rfl
    | .string, [], _ | .string, [_], _ => rfl
    | .uint32, [], _ | .uint32, [_], _ | .uint32, [_, _], _ | .uint32, [_, _, _], _ => rfl
  | cut b0 b1 text few =>
    simp only [after, ByteReader.readString, ByteReader.readUint16BE, toNat_length, if_pos few]

/-- At any bytes a field is complete or a gap. -/
theorem whole_or_gap (f : Field) (bytes : Bytes) :
    (∃ code rest, Whole f code ∧ bytes = code ++ rest) ∨ ∃ rest, Gap f bytes rest := by
  match f, bytes with
  | .uint8, [] => exact .inr ⟨[], .short _ _ (by simp [width])⟩
  | .uint16, [] | .string, [] | .uint32, [] => exact .inr ⟨[], .short _ _ (by simp [width])⟩
  | .uint16, [b] | .string, [b] | .uint32, [b] => exact .inr ⟨[b], .short _ _ (by simp [width])⟩
  | .uint32, [b, c] => exact .inr ⟨[b, c], .short _ _ (by simp [width])⟩
  | .uint32, [b, c, d] => exact .inr ⟨[b, c, d], .short _ _ (by simp [width])⟩
  | .uint8, b :: rest => exact .inl ⟨[b], rest, .uint8 b, rfl⟩
  | .uint16, b0 :: b1 :: rest => exact .inl ⟨[b0, b1], rest, .uint16 b0 b1, rfl⟩
  | .uint32, b0 :: b1 :: b2 :: b3 :: rest =>
    exact .inl ⟨[b0, b1, b2, b3], rest, .uint32 b0 b1 b2 b3, rfl⟩
  | .string, b0 :: b1 :: text =>
    by_cases cut : text.length < b0.toNat * 256 + b1.toNat
    · exact .inr ⟨text, .cut b0 b1 text cut⟩
    · have taken : (text.take (b0.toNat * 256 + b1.toNat)).length =
          b0.toNat * 256 + b1.toNat := by
        rw [List.length_take]
        omega
      exact .inl ⟨_, _, .string b0 b1 _ taken, by
        rw [List.cons_append, List.cons_append, List.take_append_drop]⟩

theorem Whole.length {f : Field} {code : Bytes} (h : Whole f code) : f.width ≤ code.length := by
  cases h with
  | uint8 | uint16 | uint32 => exact Nat.le_refl _
  | string => simp [width]

theorem whole_apart {f : Field} {code rest rest' : Bytes} (h : Whole f code) :
    ¬ Gap f (code ++ rest) rest' := by
  intro gap
  have long := h.length
  generalize same : code ++ rest = bytes at gap
  cases gap with
  | short _ _ few =>
    rw [← same, List.length_append] at few
    omega
  | cut b0 b1 text few =>
    cases h with
    | string c0 c1 str announced =>
      obtain ⟨rfl, rfl, rfl⟩ : c0 = b0 ∧ c1 = b1 ∧ str ++ rest = rest' := by simpa using same
      rw [List.length_append] at few
      omega

/-- `ByteReader` as a reader of fields. -/
def reader : Lenient Field UInt8 where
  Whole := Whole
  Gap := Gap
  after := after
  after_whole := after_whole
  after_gap := after_gap
  cases := whole_or_gap
  apart := whole_apart

end Field

/-- A row of fields, or a count and so many groups of the fields of an element. -/
inductive Format where
  | fixed (fields : List Field)
  | counted (element : List Field)

def PacketType.format : PacketType → Option Format
  | connectRequest | connectResponse | disconnectRequest | chatListRequest => none
  | registerRequest | authRequest | deleteRequest => some (.fixed [.string, .string])
  | registerResponse | authResponse | deleteResponse => some (.fixed [.uint8])
  | messageSend => some (.fixed [.uint32, .string])
  | messageReceive => some (.fixed [.string, .uint32, .string])
  | findUserRequest | createChatRequest => some (.fixed [.string])
  | createChatResponse => some (.fixed [.uint8, .uint32, .string])
  | findUserResponse => some (.counted [.string])
  | chatListResponse => some (.counted [.uint32, .string])

namespace Format

/-- The body is a complete encoding with a list of `n` elements, and nothing is left over. -/
def Holds : Format → (n : Nat) → Bytes → Prop
  | fixed fields, n, body => n = 0 ∧ Field.reader.Exact fields body
  | counted element, n, body => ∃ b0 b1 rest, body = b0 :: b1 :: rest ∧
      n = b0.toNat * 256 + b1.toNat ∧ Field.reader.Exact (List.replicate n element).flatten rest

/-- The count at the front of the body; a body without one announces nothing. -/
def announced : Bytes → Nat
  | b0 :: b1 :: _ => b0.toNat * 256 + b1.toNat
  | _ => 0

def count : Format → Bytes → Nat
  | fixed _, _ => 0
  | counted _, body => announced body

/-- All the fields that the body should have. -/
def fields : Format → Bytes → List Field
  | fixed fields, _ => fields
  | counted element, body => .uint16 :: (List.replicate (announced body) element).flatten

/-- Field by field the body is used up, but at least one of the fields is a gap. -/
def Gapped (f : Format) (body : Bytes) : Prop :=
  ∃ gaps, Field.reader.Fills (f.fields body) body (gaps + 1)

theorem holds_iff {f : Format} {n : Nat} {body : Bytes} :
    f.Holds n body ↔ n = f.count body ∧ Field.reader.Exact (f.fields body) body := by
  cases f with
  | fixed fields => exact Iff.rfl
  | counted element =>
    constructor
    · rintro ⟨b0, b1, rest, rfl, rfl, codes, matched, rfl⟩
      exact ⟨rfl, [b0, b1] :: codes, .cons (.uint16 b0 b1) matched, rfl⟩
    · rintro ⟨rfl, codes, matched, e⟩
      cases matched with
      | cons first others =>
        cases first with
        | uint16 b0 b1 =>
          subst e
          exact ⟨b0, b1, _, rfl, rfl, _, others, rfl⟩

end Format

namespace PacketParser

theorem finish_isSome {α : Type} {data : α} {rest : Bytes} :
    (finish data rest).isSome ↔ rest = [] := by
  cases rest <;> simp [finish]

/-- The loop reads as many elements as the body announces. -/
theorem findUserResponse_eq (body : Bytes) :
    findUserResponse body =
      let names := readMany ByteReader.readString (Format.announced body) (Field.uint16.after body)
      finish ⟨names.1⟩ names.2 := by
  match body with
  | [] | [_] => rfl
  | b0 :: b1 :: rest =>
    simp only [findUserResponse, ByteReader.readUint16BE, Field.toNat_length]
    rfl

theorem chatListResponse_eq (body : Bytes) :
    chatListResponse body =
      let chats := readMany readEntry (Format.announced body) (Field.uint16.after body)
      finish ⟨chats.1⟩ chats.2 := by
  match body with
  | [] | [_] => rfl
  | b0 :: b1 :: rest =>
    simp only [chatListResponse, ByteReader.readUint16BE, Field.toNat_length]
    rfl

/-- The parser only tests that the readers of the fields leave nothing. -/
theorem parseData_isSome {t : PacketType} {f : Format} (format : t.format = some f)
    (body : Bytes) :
    (parseData t body).isSome ↔ Field.reader.left (f.fields body) body = [] := by
  cases t with
  | connectRequest | connectResponse | disconnectRequest | chatListRequest => cases format
  | findUserResponse =>
    cases format
    have loop (bytes : Bytes) : (ByteReader.readString bytes).2 =
      Field.reader.left [.string] bytes := rfl
    simp only [parseData, Option.isSome_map, findUserResponse_eq, finish_isSome,
      Field.reader.left_readMany loop]
    rfl
  | chatListResponse =>
    cases format
    have loop (bytes : Bytes) : (readEntry bytes).2 =
      Field.reader.left [.uint32, .string] bytes := rfl
    simp only [parseData, Option.isSome_map, chatListResponse_eq, finish_isSome,
      Field.reader.left_readMany loop]
    rfl
  | _ =>
    cases format
    rw [parseData, Option.isSome_map]
    exact finish_isSome

theorem elements_parseData {t : PacketType} {f : Format} (format : t.format = some f)
    {body : Bytes} {d : Payload} (h : parseData t body = some d) : d.elements = f.count body := by
  cases t with
  | connectRequest | connectResponse | disconnectRequest | chatListRequest => cases format
  | findUserResponse =>
    cases format
    obtain ⟨data, read, rfl⟩ := Option.map_eq_some_iff.mp h
    rw [findUserResponse_eq] at read
    rw [← (finish_eq_some.mp read).1]
    exact length_readMany _ _ _
  | chatListResponse =>
    cases format
    obtain ⟨data, read, rfl⟩ := Option.map_eq_some_iff.mp h
    rw [chatListResponse_eq] at read
    rw [← (finish_eq_some.mp read).1]
    exact length_readMany _ _ _
  | _ =>
    cases format
    obtain ⟨data, _, rfl⟩ := Option.map_eq_some_iff.mp h
    rfl

/-- The parser keeps to the grammar, in what it accepts, in what it refuses and in the number
of elements it produces, exactly on the bodies that cannot be used up with gaps. -/
theorem parser_exact_iff_no_gap {t : PacketType} {f : Format} (format : t.format = some f)
    (body : Bytes) :
    ((∀ d, parseData t body = some d → f.Holds d.elements body) ∧
      (∀ n, f.Holds n body → (parseData t body).isSome)) ↔ ¬ f.Gapped body := by
  rw [Format.Gapped, ← Field.reader.exact_iff_no_gap, ← parseData_isSome format]
  simp only [Format.holds_iff]
  constructor
  · rintro ⟨sound, complete⟩
    refine ⟨fun accepted => ?_, fun exact => complete _ ⟨rfl, exact⟩⟩
    obtain ⟨d, hd⟩ := Option.isSome_iff_exists.mp accepted
    exact (sound d hd).2
  · intro same
    refine ⟨fun d hd => ?_, fun n holds => same.mpr holds.2⟩
    exact ⟨elements_parseData format hd, same.mp (Option.isSome_iff_exists.mpr ⟨d, hd⟩)⟩

theorem parser_exact_iff_no_gap_names :
    ((∀ d, parseData .findUserResponse [0, 1, 0, 1, 97] = some d →
        (Format.counted [.string]).Holds d.elements [0, 1, 0, 1, 97]) ∧
      (∀ n, (Format.counted [.string]).Holds n [0, 1, 0, 1, 97] →
        (parseData .findUserResponse [0, 1, 0, 1, 97]).isSome)) ↔
      ¬ (Format.counted [.string]).Gapped [0, 1, 0, 1, 97] :=
  parser_exact_iff_no_gap rfl [0, 1, 0, 1, 97]

/-- Two bytes announce five names and bring none: five empty names are produced. -/
theorem names_out_of_nothing :
    parseData .findUserResponse [0, 5] = some (.findUserResponse ⟨[[], [], [], [], []]⟩) ∧
      ∀ n, ¬ (Format.counted [.string]).Holds n [0, 5] := by
  refine ⟨by decide, ?_⟩
  rintro n ⟨b0, b1, rest, body, rfl, codes, matched, e⟩
  cases body
  cases matched with
  | cons first _ =>
    cases first
    cases e

end PacketParser

end Cvcn
