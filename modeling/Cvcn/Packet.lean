import Cvcn.Bytes
import Cvcn.Lib.Cursor

/-!
# Packets

`PacketData.h` with `PacketBuilder` and `PacketParser`, which client and server share.
Each payload type has its own `buildPacket` and `parseData`, as the overloads have. A
parser answers with the data when it returns true.
-/

namespace Cvcn

inductive PacketType where
  | connectRequest | connectResponse
  | registerRequest | registerResponse
  | authRequest | authResponse
  | messageSend
  | disconnectRequest
  | deleteRequest | deleteResponse
  | findUserRequest | findUserResponse
  | createChatRequest | createChatResponse
  | chatListRequest | chatListResponse
  | messageReceive
  deriving DecidableEq, Repr

def PacketType.code : PacketType → UInt16
  | connectRequest => 0x1
  | connectResponse => 0x2
  | registerRequest => 0x3
  | registerResponse => 0x4
  | authRequest => 0x5
  | authResponse => 0x6
  | messageSend => 0x7
  | disconnectRequest => 0x8
  | deleteRequest => 0x9
  | deleteResponse => 0xA
  | findUserRequest => 0xB
  | findUserResponse => 0xC
  | createChatRequest => 0xD
  | createChatResponse => 0xE
  | chatListRequest => 0xF
  | chatListResponse => 0x10
  | messageReceive => 0x11

/-- `static_cast<PacketType>`, for a code that names a type. -/
def PacketType.ofCode (code : UInt16) : Option PacketType :=
  [connectRequest, connectResponse, registerRequest, registerResponse, authRequest, authResponse,
    messageSend, disconnectRequest, deleteRequest, deleteResponse, findUserRequest,
    findUserResponse, createChatRequest, createChatResponse, chatListRequest, chatListResponse,
    messageReceive].find? (·.code == code)

theorem PacketType.ofCode_code (t : PacketType) : ofCode t.code = some t := by
  cases t <;> rfl

theorem PacketType.code_of_ofCode {code : UInt16} {t : PacketType} (h : ofCode code = some t) :
    code = t.code := by
  have found := List.find?_some h
  exact (beq_iff_eq.mp found).symm

theorem PacketType.code_injective {t t' : PacketType} (same : t.code = t'.code) : t = t' := by
  have found := t.ofCode_code
  rw [same, t'.ofCode_code] at found
  exact (Option.some.inj found).symm

structure PacketHeaderRaw where
  type : UInt16
  messageID : UInt32
  sessionID : UInt32
  messageLen : UInt16
  deriving DecidableEq, Repr

/-- `sizeof(PacketHeaderRaw)`, packed. -/
def PacketHeaderRaw.size : Nat := 12

structure RegisterRequestData where
  username : Bytes
  password : Bytes
  deriving DecidableEq, Repr

structure RegisterResponseData where
  success : Bool
  deriving DecidableEq, Repr

structure AuthRequestData where
  username : Bytes
  password : Bytes
  deriving DecidableEq, Repr

structure AuthResponseData where
  success : Bool
  deriving DecidableEq, Repr

structure MessageSendData where
  chatID : UInt32
  text : Bytes
  deriving DecidableEq, Repr

structure MessageReceiveData where
  senderUsername : Bytes
  chatID : UInt32
  text : Bytes
  deriving DecidableEq, Repr

structure DeleteRequestData where
  username : Bytes
  password : Bytes
  deriving DecidableEq, Repr

structure DeleteResponseData where
  success : Bool
  deriving DecidableEq, Repr

structure FindUserRequestData where
  query : Bytes
  deriving DecidableEq, Repr

structure FindUserResponseData where
  usernames : List Bytes := []
  deriving DecidableEq, Repr

structure CreateChatRequestData where
  peerUsername : Bytes
  deriving DecidableEq, Repr

structure CreateChatResponseData where
  success : Bool := false
  chatID : UInt32 := 0
  peerUsername : Bytes := []
  deriving DecidableEq, Repr

structure ChatListEntry where
  chatID : UInt32
  peerUsername : Bytes
  deriving DecidableEq, Repr

structure ChatListResponseData where
  chats : List ChatListEntry := []
  deriving DecidableEq, Repr

namespace PacketParser
open ByteReader

def parseHeader (rawData : Bytes) : Option PacketHeaderRaw :=
  if rawData.length < PacketHeaderRaw.size then none
  else
    let (type, rest) := readUint16BE rawData
    let (messageID, rest) := readUint32BE rest
    let (sessionID, rest) := readUint32BE rest
    let (messageLen, _) := readUint16BE rest
    some ⟨type, messageID, sessionID, messageLen⟩

/-- The data, if nothing remains of the body: `return remaining == 0`. -/
def finish {α : Type} (data : α) (remaining : Bytes) : Option α :=
  if remaining.isEmpty then some data else none

/-- The two strings of a register, auth or delete request. -/
def credentials (body : Bytes) : (Bytes × Bytes) × Bytes :=
  let (username, rest) := readString body
  let (password, rest) := readString rest
  ((username, password), rest)

def registerRequest (body : Bytes) : Option RegisterRequestData :=
  let ((username, password), rest) := credentials body
  finish ⟨username, password⟩ rest

def authRequest (body : Bytes) : Option AuthRequestData :=
  let ((username, password), rest) := credentials body
  finish ⟨username, password⟩ rest

def deleteRequest (body : Bytes) : Option DeleteRequestData :=
  let ((username, password), rest) := credentials body
  finish ⟨username, password⟩ rest

def messageSend (body : Bytes) : Option MessageSendData :=
  let (chatID, rest) := readUint32BE body
  let (text, rest) := readString rest
  finish ⟨chatID, text⟩ rest

def findUserRequest (body : Bytes) : Option FindUserRequestData :=
  let (query, rest) := readString body
  finish ⟨query⟩ rest

def createChatRequest (body : Bytes) : Option CreateChatRequestData :=
  let (peerUsername, rest) := readString body
  finish ⟨peerUsername⟩ rest

/-- Any byte other than 0 reads as true. -/
def readBool (bytes : Bytes) : Bool × Bytes :=
  let (value, rest) := readUint8 bytes
  (value != 0, rest)

def registerResponse (body : Bytes) : Option RegisterResponseData :=
  let (success, rest) := readBool body
  finish ⟨success⟩ rest

def authResponse (body : Bytes) : Option AuthResponseData :=
  let (success, rest) := readBool body
  finish ⟨success⟩ rest

def deleteResponse (body : Bytes) : Option DeleteResponseData :=
  let (success, rest) := readBool body
  finish ⟨success⟩ rest

def messageReceive (body : Bytes) : Option MessageReceiveData :=
  let (senderUsername, rest) := readString body
  let (chatID, rest) := readUint32BE rest
  let (text, rest) := readString rest
  finish ⟨senderUsername, chatID, text⟩ rest

def findUserResponse (body : Bytes) : Option FindUserResponseData :=
  let (count, rest) := readUint16BE body
  let (usernames, rest) := Cursor.readMany readString count.toNat rest
  finish ⟨usernames⟩ rest

def createChatResponse (body : Bytes) : Option CreateChatResponseData :=
  let (success, rest) := readBool body
  let (chatID, rest) := readUint32BE rest
  let (peerUsername, rest) := readString rest
  finish ⟨success, chatID, peerUsername⟩ rest

/-- One pass of the loop over the chats. -/
def readEntry (bytes : Bytes) : ChatListEntry × Bytes :=
  let (chatID, rest) := readUint32BE bytes
  let (peerUsername, rest) := readString rest
  (⟨chatID, peerUsername⟩, rest)

def chatListResponse (body : Bytes) : Option ChatListResponseData :=
  let (count, rest) := readUint16BE body
  let (chats, rest) := Cursor.readMany readEntry count.toNat rest
  finish ⟨chats⟩ rest

end PacketParser

namespace PacketBuilder
open ByteWriter

/-- The header, with the body's length cast to 16 bits, and the body. -/
def buildPacket (type : PacketType) (messageID sessionID : UInt32) (body : Bytes := []) : Bytes :=
  let header := writeUint16BE [] type.code
  let header := writeUint32BE header messageID
  let header := writeUint32BE header sessionID
  let header := writeUint16BE header (UInt16.ofNat body.length)
  header ++ body

def writeBool (buffer : Bytes) (value : Bool) : Bytes := writeUint8 buffer (if value then 1 else 0)

/-- The two strings of a register, auth or delete request. -/
def credentials (username password : Bytes) : Bytes :=
  writeString (writeString [] username) password

def registerRequest (messageID sessionID : UInt32) (data : RegisterRequestData) : Bytes :=
  buildPacket .registerRequest messageID sessionID (credentials data.username data.password)

def authRequest (messageID sessionID : UInt32) (data : AuthRequestData) : Bytes :=
  buildPacket .authRequest messageID sessionID (credentials data.username data.password)

def deleteRequest (messageID sessionID : UInt32) (data : DeleteRequestData) : Bytes :=
  buildPacket .deleteRequest messageID sessionID (credentials data.username data.password)

def messageSend (messageID sessionID : UInt32) (data : MessageSendData) : Bytes :=
  buildPacket .messageSend messageID sessionID
    (writeString (writeUint32BE [] data.chatID) data.text)

def findUserRequest (messageID sessionID : UInt32) (data : FindUserRequestData) : Bytes :=
  buildPacket .findUserRequest messageID sessionID (writeString [] data.query)

def createChatRequest (messageID sessionID : UInt32) (data : CreateChatRequestData) : Bytes :=
  buildPacket .createChatRequest messageID sessionID (writeString [] data.peerUsername)

def connectRequest (messageID sessionID : UInt32) : Bytes :=
  buildPacket .connectRequest messageID sessionID

def disconnectRequest (messageID sessionID : UInt32) : Bytes :=
  buildPacket .disconnectRequest messageID sessionID

def chatListRequest (messageID sessionID : UInt32) : Bytes :=
  buildPacket .chatListRequest messageID sessionID

def connectResponse (messageID sessionID : UInt32) : Bytes :=
  buildPacket .connectResponse messageID sessionID

def registerResponse (messageID sessionID : UInt32) (data : RegisterResponseData) : Bytes :=
  buildPacket .registerResponse messageID sessionID (writeBool [] data.success)

def authResponse (messageID sessionID : UInt32) (data : AuthResponseData) : Bytes :=
  buildPacket .authResponse messageID sessionID (writeBool [] data.success)

def deleteResponse (messageID sessionID : UInt32) (data : DeleteResponseData) : Bytes :=
  buildPacket .deleteResponse messageID sessionID (writeBool [] data.success)

def messageReceive (messageID sessionID : UInt32) (data : MessageReceiveData) : Bytes :=
  let body := writeString [] data.senderUsername
  let body := writeUint32BE body data.chatID
  let body := writeString body data.text
  buildPacket .messageReceive messageID sessionID body

def findUserResponse (messageID sessionID : UInt32) (data : FindUserResponseData) : Bytes :=
  let body := writeUint16BE [] (UInt16.ofNat data.usernames.length)
  let body := data.usernames.foldl writeString body
  buildPacket .findUserResponse messageID sessionID body

def createChatResponse (messageID sessionID : UInt32) (data : CreateChatResponseData) : Bytes :=
  let body := writeBool [] data.success
  let body := writeUint32BE body data.chatID
  let body := writeString body data.peerUsername
  buildPacket .createChatResponse messageID sessionID body

def chatListResponse (messageID sessionID : UInt32) (data : ChatListResponseData) : Bytes :=
  let body := writeUint16BE [] (UInt16.ofNat data.chats.length)
  let body := data.chats.foldl
    (fun body entry => writeString (writeUint32BE body entry.chatID) entry.peerUsername) body
  buildPacket .chatListResponse messageID sessionID body

end PacketBuilder

/-- The data of a packet of any type. The types without data have no body. -/
inductive Payload where
  | connectRequest
  | connectResponse
  | registerRequest (data : RegisterRequestData)
  | registerResponse (data : RegisterResponseData)
  | authRequest (data : AuthRequestData)
  | authResponse (data : AuthResponseData)
  | messageSend (data : MessageSendData)
  | disconnectRequest
  | deleteRequest (data : DeleteRequestData)
  | deleteResponse (data : DeleteResponseData)
  | findUserRequest (data : FindUserRequestData)
  | findUserResponse (data : FindUserResponseData)
  | createChatRequest (data : CreateChatRequestData)
  | createChatResponse (data : CreateChatResponseData)
  | chatListRequest
  | chatListResponse (data : ChatListResponseData)
  | messageReceive (data : MessageReceiveData)
  deriving DecidableEq, Repr

def Payload.type : Payload → PacketType
  | connectRequest => .connectRequest
  | connectResponse => .connectResponse
  | registerRequest _ => .registerRequest
  | registerResponse _ => .registerResponse
  | authRequest _ => .authRequest
  | authResponse _ => .authResponse
  | messageSend _ => .messageSend
  | disconnectRequest => .disconnectRequest
  | deleteRequest _ => .deleteRequest
  | deleteResponse _ => .deleteResponse
  | findUserRequest _ => .findUserRequest
  | findUserResponse _ => .findUserResponse
  | createChatRequest _ => .createChatRequest
  | createChatResponse _ => .createChatResponse
  | chatListRequest => .chatListRequest
  | chatListResponse _ => .chatListResponse
  | messageReceive _ => .messageReceive

/-- The overloads of `PacketBuilder::buildPacket` for the payload types. -/
def PacketBuilder.ofPayload (messageID sessionID : UInt32) : Payload → Bytes
  | .connectRequest => connectRequest messageID sessionID
  | .connectResponse => connectResponse messageID sessionID
  | .registerRequest data => registerRequest messageID sessionID data
  | .registerResponse data => registerResponse messageID sessionID data
  | .authRequest data => authRequest messageID sessionID data
  | .authResponse data => authResponse messageID sessionID data
  | .messageSend data => messageSend messageID sessionID data
  | .disconnectRequest => disconnectRequest messageID sessionID
  | .deleteRequest data => deleteRequest messageID sessionID data
  | .deleteResponse data => deleteResponse messageID sessionID data
  | .findUserRequest data => findUserRequest messageID sessionID data
  | .findUserResponse data => findUserResponse messageID sessionID data
  | .createChatRequest data => createChatRequest messageID sessionID data
  | .createChatResponse data => createChatResponse messageID sessionID data
  | .chatListRequest => chatListRequest messageID sessionID
  | .chatListResponse data => chatListResponse messageID sessionID data
  | .messageReceive data => messageReceive messageID sessionID data

/-- The overloads of `PacketParser::parseData`; those without data accept any body. -/
def PacketParser.parseData : PacketType → Bytes → Option Payload
  | .connectRequest, _ => some .connectRequest
  | .connectResponse, _ => some .connectResponse
  | .registerRequest, body => (registerRequest body).map .registerRequest
  | .registerResponse, body => (registerResponse body).map .registerResponse
  | .authRequest, body => (authRequest body).map .authRequest
  | .authResponse, body => (authResponse body).map .authResponse
  | .messageSend, body => (messageSend body).map .messageSend
  | .disconnectRequest, _ => some .disconnectRequest
  | .deleteRequest, body => (deleteRequest body).map .deleteRequest
  | .deleteResponse, body => (deleteResponse body).map .deleteResponse
  | .findUserRequest, body => (findUserRequest body).map .findUserRequest
  | .findUserResponse, body => (findUserResponse body).map .findUserResponse
  | .createChatRequest, body => (createChatRequest body).map .createChatRequest
  | .createChatResponse, body => (createChatResponse body).map .createChatResponse
  | .chatListRequest, _ => some .chatListRequest
  | .chatListResponse, body => (chatListResponse body).map .chatListResponse
  | .messageReceive, body => (messageReceive body).map .messageReceive

end Cvcn
