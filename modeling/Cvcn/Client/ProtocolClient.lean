import Cvcn.Client.Connection

/-!
# The client's side of the protocol

`ProtocolClient` numbers the requests that it sends and turns each packet of the connection into
one signal. A `QString` is the bytes of its UTF-8, and the socket is connected.
-/

namespace Cvcn

open Framing

inductive ErrorKind where
  | transport
  | protocol
  | business
  deriving DecidableEq, Repr

/-- The signals of `ProtocolClient` that a packet can cause. -/
inductive Signal where
  | signalRegistrationFinished (success : Bool)
  | signalAuthFinished (success : Bool) (sessionID : UInt32)
  | signalDeleteFinished (success : Bool)
  | signalUsersFound (usernames : List Bytes)
  | signalChatCreated (success : Bool) (chatID : UInt32) (peerUsername : Bytes)
  | signalChatListReceived (chats : List ChatListEntry)
  | signalMessageReceived (senderUsername : Bytes) (chatID : UInt32) (text : Bytes)
  | signalErrorOccurred (kind : ErrorKind) (errorString : String)
  deriving DecidableEq, Repr

structure ProtocolClient where
  messageID : UInt32 := 0
  sessionID : UInt32 := 0
  deriving DecidableEq, Repr

namespace ProtocolClient

def increaseMessageID (p : ProtocolClient) : ProtocolClient :=
  { p with messageID := p.messageID + 1 }

/-- Each `send…` hands one packet to the connection and goes on to the next number. -/
def sendPacket (p : ProtocolClient) (build : UInt32 → UInt32 → Bytes) : ProtocolClient × Bytes :=
  (p.increaseMessageID, build p.messageID p.sessionID)

section

variable (p : ProtocolClient)

def sendRegRequest (username password : Bytes) : ProtocolClient × Bytes :=
  p.sendPacket (PacketBuilder.registerRequest · · ⟨username, password⟩)

def sendAuthRequest (username password : Bytes) : ProtocolClient × Bytes :=
  p.sendPacket (PacketBuilder.authRequest · · ⟨username, password⟩)

def sendDeleteRequest (username password : Bytes) : ProtocolClient × Bytes :=
  p.sendPacket (PacketBuilder.deleteRequest · · ⟨username, password⟩)

def sendMessage (chatID : UInt32) (text : Bytes) : ProtocolClient × Bytes :=
  p.sendPacket (PacketBuilder.messageSend · · ⟨chatID, text⟩)

def sendFindUserRequest (query : Bytes) : ProtocolClient × Bytes :=
  p.sendPacket (PacketBuilder.findUserRequest · · ⟨query⟩)

def sendCreateChatRequest (peerUsername : Bytes) : ProtocolClient × Bytes :=
  p.sendPacket (PacketBuilder.createChatRequest · · ⟨peerUsername⟩)

def sendChatListRequest : ProtocolClient × Bytes := p.sendPacket PacketBuilder.chatListRequest

def sendDisconnectRequest : ProtocolClient × Bytes := p.sendPacket PacketBuilder.disconnectRequest

/-- The signal for a response, or an error that names its type. -/
def parsed {α : Type} (resp : Option α) (type : String) (signal : α → Signal) : Signal :=
  match resp with
  | some resp => signal resp
  | none => .signalErrorOccurred .protocol ("Bad " ++ type)

/-- A successful login gives the client its session's number. -/
def processAuthResponse (header : PacketHeaderRaw) (body : Bytes) : ProtocolClient × Signal :=
  match PacketParser.authResponse body with
  | some resp =>
    let p := if resp.success then { p with sessionID := header.sessionID } else p
    (p, .signalAuthFinished resp.success p.sessionID)
  | none => (p, .signalErrorOccurred .protocol "Bad AuthResponse")

def processIncomingPacket (header : PacketHeaderRaw) (body : Bytes) : ProtocolClient × Signal :=
  match PacketType.ofCode header.type with
  | some .registerResponse =>
    (p, parsed (PacketParser.registerResponse body) "RegisterResponse" fun resp =>
      .signalRegistrationFinished resp.success)
  | some .authResponse => p.processAuthResponse header body
  | some .deleteResponse =>
    (p, parsed (PacketParser.deleteResponse body) "DeleteResponse" fun resp =>
      .signalDeleteFinished resp.success)
  | some .findUserResponse =>
    (p, parsed (PacketParser.findUserResponse body) "FindUserResponse" fun resp =>
      .signalUsersFound resp.usernames)
  | some .createChatResponse =>
    (p, parsed (PacketParser.createChatResponse body) "CreateChatResponse" fun resp =>
      .signalChatCreated resp.success resp.chatID resp.peerUsername)
  | some .chatListResponse =>
    (p, parsed (PacketParser.chatListResponse body) "ChatListResponse" fun resp =>
      .signalChatListReceived resp.chats)
  | some .messageReceive =>
    (p, parsed (PacketParser.messageReceive body) "MessageReceive" fun recv =>
      .signalMessageReceived recv.senderUsername recv.chatID recv.text)
  | _ =>
    (p, .signalErrorOccurred .protocol ("Unknown packet type " ++ toString header.type.toNat))

/-- The slots that the signals of the connection are connected to. -/
def slot : Connection.Event → ProtocolClient × List Signal
  | .parseHeader _ => (p, [])
  | .signalRawPacketReceived _ (header, body) =>
    let (p, signal) := p.processIncomingPacket header body
    (p, [signal])
  | .signalErrorOccurred messageLen =>
    (p, [.signalErrorOccurred .protocol
      ("Packet too large: " ++ toString messageLen.toNat ++ " bytes")])

end

def slots : List Connection.Event → ProtocolClient → ProtocolClient × List Signal
  | [], p => (p, [])
  | event :: events, p =>
    let (p, signals) := p.slot event
    let (p, more) := slots events p
    (p, signals ++ more)

/-- The signals for packets that arrive one after another. -/
def receive : List RawPacket → ProtocolClient → ProtocolClient × List Signal
  | [], p => (p, [])
  | (header, body) :: packets, p =>
    let (p, signal) := p.processIncomingPacket header body
    let (p, more) := receive packets p
    (p, signal :: more)

theorem receive_append (packets more : List RawPacket) (p : ProtocolClient) :
    receive (packets ++ more) p =
      ((receive more (receive packets p).1).1,
        (receive packets p).2 ++ (receive more (receive packets p).1).2) := by
  induction packets generalizing p with
  | nil => rfl
  | cons packet packets ih =>
    simp only [List.cons_append, receive, ih]

/-- With no packet refused the slots do what the packets say. -/
theorem slots_eq_receive {events : List Connection.Event}
    (none : ∀ e ∈ events, ∀ messageLen, e ≠ .signalErrorOccurred messageLen)
    (p : ProtocolClient) : slots events p = receive (Connection.packetsIn events) p := by
  induction events generalizing p with
  | nil => rfl
  | cons event events ih =>
    have rest := ih fun e he => none e (List.mem_cons_of_mem _ he)
    cases event with
    | parseHeader start =>
      simp only [slots, slot, rest, List.nil_append]
      rfl
    | signalRawPacketReceived start packet =>
      simp only [slots, slot, rest, List.singleton_append]
      rfl
    | signalErrorOccurred messageLen =>
      exact absurd rfl (none _ List.mem_cons_self messageLen)

/-- A message is signalled as it was built. -/
theorem processIncomingPacket_messageReceive (p : ProtocolClient) {header : PacketHeaderRaw}
    {data : MessageReceiveData} (type : header.type = PacketType.messageReceive.code)
    (name : data.senderUsername.length ≤ 65535) (text : data.text.length ≤ 65535) :
    p.processIncomingPacket header (Payload.messageReceive data).body =
      (p, .signalMessageReceived data.senderUsername data.chatID data.text) := by
  have strings : ∀ s ∈ (Payload.messageReceive data).strings, s.length ≤ 65535 := by
    simp only [Payload.strings, List.mem_cons, List.not_mem_nil, or_false]
    rintro s (rfl | rfl)
    · exact name
    · exact text
  have read := PacketParser.parseData_body (.messageReceive data) strings (Nat.zero_le _)
  simp only [Payload.type, PacketParser.parseData, Option.map_eq_some_iff] at read
  obtain ⟨_, read, same⟩ := read
  cases same
  have code : PacketType.ofCode header.type = some .messageReceive := by
    rw [type]
    rfl
  simp only [processIncomingPacket, code, read, parsed]

end ProtocolClient

/-- The two objects at a client's end of a connection. -/
structure Client where
  connection : Connection := {}
  protocol : ProtocolClient := {}
  deriving DecidableEq, Repr

namespace Connection

/-- On a stream of whole packets none of which is refused the slot signals the packets that are
complete and keeps the rest. -/
theorem Reads.serves {c c' : Connection} {events : List Event} (reads : Reads c c' events)
    {ahead : Bytes} (whole : (packets.split (c.receiveBuffer ++ ahead)).2 = [])
    (none : packets.refuses tooLarge (c.receiveBuffer ++ ahead) = false) :
    c'.receiveBuffer = (packets.split c.receiveBuffer).2 ∧
      packetsIn events = (packets.split c.receiveBuffer).1 ∧
      ∀ e ∈ events, ∀ messageLen, e ≠ .signalErrorOccurred messageLen := by
  induction reads with
  | @wait c short =>
    have idle : frontPacket c.receiveBuffer = .none := by simp only [frontPacket, short]
    rw [Cutter.split_of_none idle]
    exact ⟨rfl, rfl, by simp⟩
  | @refuse c header parsed large =>
    -- the refused packet is among those of the stream
    have all := parseHeader_append parsed ahead
    cases front : frontPacket (c.receiveBuffer ++ ahead) with
    | none =>
      rw [Cutter.split_of_none front] at whole
      have empty : c.receiveBuffer ++ ahead = [] := whole
      rw [empty] at all
      cases all
    | some found =>
      obtain ⟨⟨header', body⟩, rest⟩ := found
      obtain rfl := Option.some.inj (all.symm.trans (parsed_of_front front))
      rw [Cutter.refuses_of_some front, refused_iff.mp large] at none
      cases none
  | @incomplete c header parsed fits idle =>
    rw [Cutter.split_of_none idle]
    refine ⟨rfl, rfl, ?_⟩
    simp only [List.mem_cons, List.not_mem_nil, or_false]
    rintro e rfl messageLen same
    cases same
  | @packet c next events header body rest front fits _ ih =>
    have all := packets.stable ahead front
    rw [Cutter.split_of_some all] at whole
    rw [Cutter.refuses_of_some all, Bool.or_eq_false_iff] at none
    obtain ⟨buffer, found, quiet⟩ := ih whole none.2
    rw [Cutter.split_of_some front]
    refine ⟨buffer, congrArg ((header, body) :: ·) found, ?_⟩
    simp only [List.mem_cons]
    rintro e (rfl | rfl | he) messageLen same
    · cases same
    · cases same
    · exact quiet e he messageLen same

end Connection

namespace Client

/-- `readyRead` with the slots that follow it. -/
def readyRead (c : Client) (chunk : Bytes) : Client × List Signal :=
  let (connection, events) := c.connection.slotReadyRead chunk
  let (protocol, signals) := c.protocol.slots events
  (⟨connection, protocol⟩, signals)

/-- The chunks of a stream, one after another. -/
def reads : List Bytes → Client → Client × List Signal
  | [], c => (c, [])
  | chunk :: chunks, c =>
    let (c, signals) := c.readyRead chunk
    let (c, more) := reads chunks c
    (c, signals ++ more)

theorem reads_append (chunks more : List Bytes) (c : Client) :
    reads (chunks ++ more) c =
      ((reads more (reads chunks c).1).1,
        (reads chunks c).2 ++ (reads more (reads chunks c).1).2) := by
  induction chunks generalizing c with
  | nil => rfl
  | cons chunk chunks ih => simp only [List.cons_append, reads, ih, List.append_assoc]

/-- The bytes are what was in the client's buffer and what has come since: it keeps the last packet
as far as it has arrived, and it has signalled the others. -/
structure Received (c₀ c : Client) (bytes : Bytes) (signals : List Signal) : Prop where
  buffer : c.connection.receiveBuffer = (packets.split bytes).2
  slots : (c.protocol, signals) = c₀.protocol.receive (packets.split bytes).1

theorem Received.start {c : Client} (part : packets.cut c.connection.receiveBuffer = none) :
    Received c c c.connection.receiveBuffer [] := by
  constructor <;> rw [Cutter.split_of_none part]
  rfl

/-- A stream of whole packets that the client takes, in whatever chunks. -/
theorem Received.readyRead {c₀ c : Client} {bytes chunk ahead : Bytes} {signals : List Signal}
    (h : Received c₀ c bytes signals) (whole : (packets.split (bytes ++ chunk ++ ahead)).2 = [])
    (none : packets.refuses tooLarge (bytes ++ chunk ++ ahead) = false) :
    Received c₀ (c.readyRead chunk).1 (bytes ++ chunk) (signals ++ (c.readyRead chunk).2) := by
  have reads := c.connection.slotReadyRead_reads chunk
  rw [List.append_assoc, Cutter.split_append, ← List.append_assoc, ← h.buffer] at whole
  rw [List.append_assoc, Cutter.refuses_append_eq_false, ← List.append_assoc, ← h.buffer] at none
  obtain ⟨buffer, found, quiet⟩ := reads.serves whole none.2
  have run := ProtocolClient.slots_eq_receive quiet c.protocol
  have before := h.slots
  constructor
  · rw [Cutter.split_append, ← h.buffer]
    exact buffer
  · rw [Cutter.split_append bytes chunk, ProtocolClient.receive_append, ← before, ← h.buffer]
    simp only [Client.readyRead, run, found]

theorem Received.reads {c₀ c : Client} {bytes : Bytes} {signals : List Signal}
    (h : Received c₀ c bytes signals) (chunks : List Bytes)
    (whole : (packets.split (bytes ++ chunks.flatten)).2 = [])
    (none : packets.refuses tooLarge (bytes ++ chunks.flatten) = false) :
    Received c₀ (c.reads chunks).1 (bytes ++ chunks.flatten) (signals ++ (c.reads chunks).2) := by
  induction chunks generalizing c bytes signals with
  | nil => simpa [Client.reads] using h
  | cons chunk chunks ih =>
    rw [List.flatten_cons, ← List.append_assoc] at whole none ⊢
    have next := ih (h.readyRead whole none) whole none
    simp only [Client.reads, ← List.append_assoc]
    exact next

end Client

end Cvcn
