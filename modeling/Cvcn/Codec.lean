import Cvcn.Packet

/-!
# The codec's round trip

What each writer appends, that the reader of the same kind takes it back, and from both that
every packet that `PacketBuilder` builds is read by `PacketParser` as it was.
-/

namespace Cvcn

open Cursor

/-! What a writer appends to any buffer. -/

namespace Encoding

def uint16BE (value : UInt16) : Bytes := ByteWriter.writeUint16BE [] value
def uint32BE (value : UInt32) : Bytes := ByteWriter.writeUint32BE [] value
def bool (value : Bool) : Bytes := PacketBuilder.writeBool [] value
def string (str : Bytes) : Bytes := ByteWriter.writeString [] str
def entry (e : ChatListEntry) : Bytes := uint32BE e.chatID ++ string e.peerUsername

section

variable (buffer : Bytes)

@[simp] theorem writeUint16BE_eq (value : UInt16) :
    ByteWriter.writeUint16BE buffer value = buffer ++ uint16BE value := rfl

@[simp] theorem writeUint32BE_eq (value : UInt32) :
    ByteWriter.writeUint32BE buffer value = buffer ++ uint32BE value := rfl

@[simp] theorem writeBool_eq (value : Bool) :
    PacketBuilder.writeBool buffer value = buffer ++ bool value := rfl

@[simp] theorem writeString_eq (str : Bytes) :
    ByteWriter.writeString buffer str = buffer ++ string str := by
  simp [ByteWriter.writeString, string]

end

@[simp] theorem length_uint16BE (value : UInt16) : (uint16BE value).length = 2 := rfl

@[simp] theorem length_uint32BE (value : UInt32) : (uint32BE value).length = 4 := rfl

theorem toNat_ofNat {n : Nat} (h : n ≤ 65535) : (UInt16.ofNat n).toNat = n := by
  rw [UInt16.toNat_ofNat']
  exact Nat.mod_eq_of_lt (by omega)

theorem string_eq {str : Bytes} (short : str.length ≤ 65535) :
    string str = uint16BE (UInt16.ofNat str.length) ++ str := by
  simp only [string, ByteWriter.writeString, toNat_ofNat short, List.take_length]
  rfl

theorem length_string {str : Bytes} (short : str.length ≤ 65535) :
    (string str).length = 2 + str.length := by
  rw [string_eq short, List.length_append, length_uint16BE]

theorem takes_uint16BE (value : UInt16) :
    Takes ByteReader.readUint16BE (uint16BE value) value := by
  intro rest
  have bound := value.toNat_lt
  have parts : value.toNat / 256 % 256 * 256 + value.toNat % 256 = value.toNat := by omega
  simp [uint16BE, ByteWriter.writeUint16BE, ByteReader.readUint16BE, parts]

theorem takes_uint32BE (value : UInt32) :
    Takes ByteReader.readUint32BE (uint32BE value) value := by
  intro rest
  have bound := value.toNat_lt
  have parts : ((value.toNat / 0x1000000 % 256 * 256 + value.toNat / 0x10000 % 256) * 256 +
      value.toNat / 256 % 256) * 256 + value.toNat % 256 = value.toNat := by omega
  simp [uint32BE, ByteWriter.writeUint32BE, ByteReader.readUint32BE, parts]

theorem takes_bool (value : Bool) : Takes PacketParser.readBool (bool value) value := by
  intro rest
  cases value <;> rfl

theorem takes_string {str : Bytes} (short : str.length ≤ 65535) :
    Takes ByteReader.readString (string str) str := by
  intro rest
  have enough : ¬ (str ++ rest).length < str.length := by
    rw [List.length_append]
    omega
  rw [string_eq short, List.append_assoc]
  simp only [ByteReader.readString, takes_uint16BE _ (str ++ rest), toNat_ofNat short,
    if_neg enough, List.take_left, List.drop_left]

theorem takes_entry {e : ChatListEntry} (short : e.peerUsername.length ≤ 65535) :
    Takes PacketParser.readEntry (entry e) e := by
  intro rest
  simp only [PacketParser.readEntry, entry, List.append_assoc, takes_uint32BE e.chatID _,
    takes_string short _]

theorem uint16BE_ofNat (b0 b1 : UInt8) :
    uint16BE (UInt16.ofNat (b0.toNat * 256 + b1.toNat)) = [b0, b1] := by
  have h0 := b0.toNat_lt
  have h1 := b1.toNat_lt
  simp only [uint16BE, ByteWriter.writeUint16BE, toNat_ofNat (by omega : b0.toNat * 256 +
    b1.toNat ≤ 65535), List.nil_append, List.cons.injEq, and_true]
  constructor <;>
  · apply UInt8.toNat_inj.mp
    rw [UInt8.toNat_ofNat']
    omega

theorem uint32BE_ofNat (b0 b1 b2 b3 : UInt8) :
    uint32BE (UInt32.ofNat (((b0.toNat * 256 + b1.toNat) * 256 + b2.toNat) * 256 + b3.toNat)) =
      [b0, b1, b2, b3] := by
  have h0 := b0.toNat_lt
  have h1 := b1.toNat_lt
  have h2 := b2.toNat_lt
  have h3 := b3.toNat_lt
  have size : (UInt32.ofNat (((b0.toNat * 256 + b1.toNat) * 256 + b2.toNat) * 256 +
      b3.toNat)).toNat = ((b0.toNat * 256 + b1.toNat) * 256 + b2.toNat) * 256 + b3.toNat := by
    rw [UInt32.toNat_ofNat']
    exact Nat.mod_eq_of_lt (by omega)
  simp only [uint32BE, ByteWriter.writeUint32BE, size, List.nil_append, List.cons.injEq, and_true]
  refine ⟨?_, ?_, ?_, ?_⟩ <;>
  · apply UInt8.toNat_inj.mp
    rw [UInt8.toNat_ofNat']
    omega

/-! A reader that found enough bytes took the encoding of its value. -/

theorem eq_of_readUint16BE {bytes rest : Bytes} {value : UInt16} (long : 2 ≤ bytes.length)
    (h : ByteReader.readUint16BE bytes = (value, rest)) : bytes = uint16BE value ++ rest := by
  match bytes, long with
  | b0 :: b1 :: rest', _ =>
    cases h
    rw [uint16BE_ofNat]
    rfl

theorem eq_of_readUint32BE {bytes rest : Bytes} {value : UInt32} (long : 4 ≤ bytes.length)
    (h : ByteReader.readUint32BE bytes = (value, rest)) : bytes = uint32BE value ++ rest := by
  match bytes with
  | [] | [_] | [_, _] | [_, _, _] => exact absurd long (by simp)
  | b0 :: b1 :: b2 :: b3 :: rest' =>
    cases h
    rw [uint32BE_ofNat]
    rfl

/-! A value other than the one that stands for a failure was found. -/

theorem long_of_readUint32BE {bytes rest : Bytes} {value : UInt32}
    (h : ByteReader.readUint32BE bytes = (value, rest)) (nonzero : value ≠ 0) :
    4 ≤ bytes.length := by
  match bytes with
  | [] | [_] | [_, _] | [_, _, _] => cases h; exact absurd rfl nonzero
  | b0 :: b1 :: b2 :: b3 :: rest' => simp

theorem eq_of_readString {bytes str rest : Bytes}
    (h : ByteReader.readString bytes = (str, rest)) (nonempty : str ≠ []) :
    bytes = string str ++ rest ∧ str.length ≤ 65535 := by
  match bytes with
  | [] | [_] => cases h; exact absurd rfl nonempty
  | b0 :: b1 :: text =>
    have h0 := b0.toNat_lt
    have h1 := b1.toNat_lt
    have announced : b0.toNat * 256 + b1.toNat ≤ 65535 := by omega
    simp only [ByteReader.readString, ByteReader.readUint16BE, toNat_ofNat announced] at h
    split at h
    · cases h; exact absurd rfl nonempty
    · simp only [Prod.mk.injEq] at h
      obtain ⟨rfl, rfl⟩ := h
      have size : (text.take (b0.toNat * 256 + b1.toNat)).length = b0.toNat * 256 + b1.toNat := by
        rw [List.length_take]
        omega
      refine ⟨?_, by omega⟩
      rw [string_eq (by omega), size, uint16BE_ofNat, List.append_assoc, List.take_append_drop]
      rfl

/-- The header as `buildPacket` lays it out. -/
def header (h : PacketHeaderRaw) : Bytes :=
  uint16BE h.type ++ (uint32BE h.messageID ++ (uint32BE h.sessionID ++ uint16BE h.messageLen))

@[simp] theorem length_header (h : PacketHeaderRaw) : (header h).length = 12 := rfl

/-- A header is parsed from exactly the bytes that encode it, whatever follows. -/
theorem parseHeader_eq_some {s : Bytes} {h : PacketHeaderRaw} :
    PacketParser.parseHeader s = some h ↔ ∃ rest, s = header h ++ rest := by
  constructor
  · intro parsed
    unfold PacketParser.parseHeader at parsed
    split at parsed
    · cases parsed
    · rename_i long
      rw [PacketHeaderRaw.size] at long
      rcases h1 : ByteReader.readUint16BE s with ⟨type, rest1⟩
      have e1 := eq_of_readUint16BE (by omega) h1
      rcases h2 : ByteReader.readUint32BE rest1 with ⟨messageID, rest2⟩
      have e2 := eq_of_readUint32BE (by rw [e1] at long; simp at long; omega) h2
      rcases h3 : ByteReader.readUint32BE rest2 with ⟨sessionID, rest3⟩
      have e3 := eq_of_readUint32BE (by rw [e1, e2] at long; simp at long; omega) h3
      rcases h4 : ByteReader.readUint16BE rest3 with ⟨messageLen, rest4⟩
      have e4 := eq_of_readUint16BE (by rw [e1, e2, e3] at long; simp at long; omega) h4
      simp only [h1, h2, h3, h4, Option.some.injEq] at parsed
      subst parsed
      exact ⟨rest4, by simp [header, e1, e2, e3, e4]⟩
  · rintro ⟨rest, rfl⟩
    have long : ¬ (header h ++ rest).length < PacketHeaderRaw.size := by
      simp [PacketHeaderRaw.size]
    rw [PacketParser.parseHeader, if_neg long]
    simp only [header, List.append_assoc, takes_uint16BE _ _, takes_uint32BE _ _]

/-- The loops of the builder that write a list. -/
theorem foldl_write {α : Type} {write : Bytes → α → Bytes} {encode : α → Bytes}
    (appends : ∀ buffer a, write buffer a = buffer ++ encode a) (values : List α)
    (buffer : Bytes) : values.foldl write buffer = buffer ++ values.flatMap encode := by
  induction values generalizing buffer with
  | nil => exact (List.append_nil buffer).symm
  | cons a values ih =>
    rw [List.foldl_cons, ih, appends, List.append_assoc, List.flatMap_cons]

end Encoding

namespace Payload

open Encoding

def strings : Payload → List Bytes
  | connectRequest | connectResponse | disconnectRequest | chatListRequest => []
  | registerResponse _ | authResponse _ | deleteResponse _ => []
  | registerRequest data => [data.username, data.password]
  | authRequest data => [data.username, data.password]
  | deleteRequest data => [data.username, data.password]
  | messageSend data => [data.text]
  | findUserRequest data => [data.query]
  | findUserResponse data => data.usernames
  | createChatRequest data => [data.peerUsername]
  | createChatResponse data => [data.peerUsername]
  | chatListResponse data => data.chats.map (·.peerUsername)
  | messageReceive data => [data.senderUsername, data.text]

/-- The elements of a payload's list. -/
def elements : Payload → Nat
  | findUserResponse data => data.usernames.length
  | chatListResponse data => data.chats.length
  | _ => 0

/-- The bytes that the builder writes behind the header. -/
def body : Payload → Bytes
  | connectRequest | connectResponse | disconnectRequest | chatListRequest => []
  | registerResponse data => bool data.success
  | authResponse data => bool data.success
  | deleteResponse data => bool data.success
  | registerRequest data => string data.username ++ string data.password
  | authRequest data => string data.username ++ string data.password
  | deleteRequest data => string data.username ++ string data.password
  | messageSend data => uint32BE data.chatID ++ string data.text
  | findUserRequest data => string data.query
  | findUserResponse data =>
    uint16BE (UInt16.ofNat data.usernames.length) ++ data.usernames.flatMap string
  | createChatRequest data => string data.peerUsername
  | createChatResponse data =>
    bool data.success ++ (uint32BE data.chatID ++ string data.peerUsername)
  | chatListResponse data =>
    uint16BE (UInt16.ofNat data.chats.length) ++ data.chats.flatMap entry
  | messageReceive data =>
    string data.senderUsername ++ (uint32BE data.chatID ++ string data.text)

end Payload

namespace PacketBuilder

open Encoding

theorem ofPayload_eq (messageID sessionID : UInt32) (d : Payload) :
    ofPayload messageID sessionID d = buildPacket d.type messageID sessionID d.body := by
  cases d with
  | findUserResponse data =>
    have written := foldl_write writeString_eq data.usernames
      (uint16BE (UInt16.ofNat data.usernames.length))
    simp [ofPayload, findUserResponse, Payload.type, Payload.body, written]
  | chatListResponse data =>
    have appends (buffer : Bytes) (e : ChatListEntry) : ByteWriter.writeString
        (ByteWriter.writeUint32BE buffer e.chatID) e.peerUsername = buffer ++ entry e := by
      simp [entry]
    have written := foldl_write appends data.chats (uint16BE (UInt16.ofNat data.chats.length))
    exact congrArg (buildPacket .chatListResponse messageID sessionID ·) written
  | _ => simp [ofPayload, Payload.type, Payload.body, connectRequest, connectResponse,
      registerRequest, registerResponse, authRequest, authResponse, messageSend,
      disconnectRequest, deleteRequest, deleteResponse, findUserRequest, createChatRequest,
      createChatResponse, chatListRequest, messageReceive, credentials]

theorem buildPacket_eq (type : PacketType) (messageID sessionID : UInt32) (body : Bytes) :
    buildPacket type messageID sessionID body =
      uint16BE type.code ++ (uint32BE messageID ++ (uint32BE sessionID ++
        (uint16BE (UInt16.ofNat body.length) ++ body))) := by
  simp [buildPacket]

theorem length_buildPacket (type : PacketType) (messageID sessionID : UInt32) (body : Bytes) :
    (buildPacket type messageID sessionID body).length = PacketHeaderRaw.size + body.length := by
  simp [buildPacket_eq, PacketHeaderRaw.size]
  omega

theorem drop_buildPacket (type : PacketType) (messageID sessionID : UInt32) (body : Bytes) :
    (buildPacket type messageID sessionID body).drop PacketHeaderRaw.size = body := rfl

theorem parseHeader_buildPacket (type : PacketType) (messageID sessionID : UInt32)
    (body rest : Bytes) :
    PacketParser.parseHeader (buildPacket type messageID sessionID body ++ rest) =
      some ⟨type.code, messageID, sessionID, UInt16.ofNat body.length⟩ := by
  refine parseHeader_eq_some.mpr ⟨body ++ rest, ?_⟩
  simp only [buildPacket_eq, header, List.append_assoc]

end PacketBuilder

namespace PacketParser

open Encoding

theorem finish_nil {α : Type} (data : α) : finish data [] = some data := rfl

/-- A parser accepts what it has read if nothing is left. -/
theorem finish_eq_some {α : Type} {data d : α} {rest : Bytes} :
    finish data rest = some d ↔ data = d ∧ rest = [] := by
  cases rest <;> simp [finish]

/-- The parser reads back what the builder wrote behind the header. -/
theorem parseData_body (d : Payload) (strings : ∀ s ∈ d.strings, s.length ≤ 65535)
    (elements : d.elements ≤ 65535) : parseData d.type d.body = some d := by
  cases d with
  | connectRequest | connectResponse | disconnectRequest | chatListRequest => rfl
  | registerResponse data | authResponse data | deleteResponse data =>
    obtain ⟨success⟩ := data
    cases success <;> rfl
  | registerRequest data | authRequest data | deleteRequest data =>
    obtain ⟨username, password⟩ := data
    have first := takes_string (strings username (by simp [Payload.strings]))
    have second := (takes_string (strings password (by simp [Payload.strings]))).all
    simp [Payload.type, Payload.body, parseData, registerRequest, authRequest, deleteRequest,
      credentials, first _, second, finish_nil]
  | messageSend data =>
    obtain ⟨chatID, text⟩ := data
    have second := (takes_string (strings text (by simp [Payload.strings]))).all
    simp [Payload.type, Payload.body, parseData, messageSend, takes_uint32BE chatID _, second,
      finish_nil]
  | findUserRequest data =>
    obtain ⟨query⟩ := data
    have only := (takes_string (strings query (by simp [Payload.strings]))).all
    simp [Payload.type, Payload.body, parseData, findUserRequest, only, finish_nil]
  | createChatRequest data =>
    obtain ⟨peerUsername⟩ := data
    have only := (takes_string (strings peerUsername (by simp [Payload.strings]))).all
    simp [Payload.type, Payload.body, parseData, createChatRequest, only, finish_nil]
  | createChatResponse data =>
    obtain ⟨success, chatID, peerUsername⟩ := data
    have last := (takes_string (strings peerUsername (by simp [Payload.strings]))).all
    simp [Payload.type, Payload.body, parseData, createChatResponse, takes_bool success _,
      takes_uint32BE chatID _, last, finish_nil]
  | messageReceive data =>
    obtain ⟨senderUsername, chatID, text⟩ := data
    have first := takes_string (strings senderUsername (by simp [Payload.strings]))
    have last := (takes_string (strings text (by simp [Payload.strings]))).all
    simp [Payload.type, Payload.body, parseData, messageReceive, first _,
      takes_uint32BE chatID _, last, finish_nil]
  | findUserResponse data =>
    obtain ⟨usernames⟩ := data
    have every : Takes (readMany ByteReader.readString usernames.length)
        (usernames.flatMap string) usernames :=
      .many fun s hs => takes_string (strings s hs)
    have count : (UInt16.ofNat usernames.length).toNat = usernames.length := toNat_ofNat elements
    simp only [Payload.type, Payload.body, parseData, findUserResponse, takes_uint16BE _ _, count,
      every.all, finish_nil, Option.map_some]
  | chatListResponse data =>
    obtain ⟨chats⟩ := data
    have every : Takes (readMany readEntry chats.length) (chats.flatMap entry) chats :=
      .many fun e he => takes_entry (strings e.peerUsername (List.mem_map_of_mem he))
    have count : (UInt16.ofNat chats.length).toNat = chats.length := toNat_ofNat elements
    simp only [Payload.type, Payload.body, parseData, chatListResponse, takes_uint16BE _ _, count,
      every.all, finish_nil, Option.map_some]

/-- A packet is read back as it was built: its header with the type's code, both ids and the
exact size of the body, and its body as the same data. -/
theorem packet_round_trip (d : Payload) (messageID sessionID : UInt32)
    (strings : ∀ s ∈ d.strings, s.length ≤ 65535) (elements : d.elements ≤ 65535)
    (size : ((PacketBuilder.ofPayload messageID sessionID d).drop 12).length ≤ 65535) :
    ∃ header, parseHeader (PacketBuilder.ofPayload messageID sessionID d) = some header ∧
      header.type = d.type.code ∧ header.messageID = messageID ∧ header.sessionID = sessionID ∧
      header.messageLen.toNat = (PacketBuilder.ofPayload messageID sessionID d).length - 12 ∧
      parseData d.type ((PacketBuilder.ofPayload messageID sessionID d).drop 12) = some d := by
  have header := PacketBuilder.parseHeader_buildPacket d.type messageID sessionID d.body []
  rw [List.append_nil] at header
  have length := PacketBuilder.length_buildPacket d.type messageID sessionID d.body
  have behind := PacketBuilder.drop_buildPacket d.type messageID sessionID d.body
  rw [PacketHeaderRaw.size] at length behind
  rw [PacketBuilder.ofPayload_eq] at size ⊢
  rw [behind] at size ⊢
  refine ⟨_, header, rfl, rfl, rfl, ?_, parseData_body d strings elements⟩
  rw [length, toNat_ofNat size]
  omega

theorem packet_round_trip_chats :
    ∃ header, parseHeader (PacketBuilder.ofPayload 7 9 (.chatListResponse
        ⟨[⟨1, [97]⟩, ⟨2, []⟩]⟩)) = some header ∧
      header.type = 0x10 ∧ header.messageID = 7 ∧ header.sessionID = 9 ∧
      header.messageLen.toNat = 15 ∧
      parseData .chatListResponse ((PacketBuilder.ofPayload 7 9 (.chatListResponse
        ⟨[⟨1, [97]⟩, ⟨2, []⟩]⟩)).drop 12) = some (.chatListResponse ⟨[⟨1, [97]⟩, ⟨2, []⟩]⟩) :=
  packet_round_trip (.chatListResponse ⟨[⟨1, [97]⟩, ⟨2, []⟩]⟩) 7 9 (by decide) (by decide)
    (by decide)

end PacketParser

end Cvcn
