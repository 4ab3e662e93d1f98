import Cvcn.Services.Arrival
import Cvcn.Services.Authorisation
import Cvcn.Services.Recipients
import Cvcn.Services.Requests
import Cvcn.Storage.DirectChat

/-!
# A message from client to clients

Requests are handled one at a time. A message that a user sends is stored, and goes to the online
members of its chat: each one's client signals what was on its way to it already, and then the
message, once, with the bytes that were typed. No other session gets a byte more. A chat is meant
by its id as a C++ `int`, to which the server casts what the packet says.
-/

namespace Cvcn

open Framing Machine

/-- Every session that a user is registered with is open and authenticated as that user. -/
structure Server.Online (s : Server) : Prop where
  opened : ∀ userID x, s.shared.byUserID userID = some x →
    s.sessions (s.fdOf x) = some x ∧ (s.obj x).closed = false
  user : ∀ userID x, s.shared.byUserID userID = some x → (s.obj x).userID = userID

theorem Validator.length_of_message {text : Bytes} (valid : validateMessage text = true) :
    text.length ≤ 4096 := by
  have within : Within config.MAX_MESSAGE_LENGTH isMessageChar text := bounded_iff.mp valid
  exact within.2.1

theorem Validator.length_of_username {username : Bytes}
    (valid : validateUsername username = true) : username.length ≤ 64 := by
  have within : Within config.MAX_USERNAME_LENGTH isCredentialChar username :=
    bounded_iff.mp valid
  exact within.2.1

namespace Network

variable {n m : Network} {x : SessionId} {c messageID sessionID : UInt32} {text : Bytes}

/-- The sessions that get a message of the session's user. -/
def recipients (n : Network) (x : SessionId) (c : UInt32) : List SessionId :=
  n.server.shared.recipients (ChatRepository.toInt c) (n.server.obj x).userID

section

variable (ints : ∀ r ∈ n.server.shared.conn.tables.chatMembers, IsInt r.userID)
include ints

/-- The query returns the ids as they are stored. -/
theorem membersOf_toInt32 (chatID : Int) :
    (n.server.shared.conn.tables.membersOf chatID).map toInt32 =
      n.server.shared.conn.tables.membersOf chatID := by
  apply List.map_congr_left (g := id) _ |>.trans (List.map_id _)
  intro v hv
  exact (ints _ (Tables.mem_membersOf.mp hv)).toInt32_eq

theorem mem_recipients {y : SessionId} : y ∈ n.recipients x c ↔
    ∃ v, ⟨ChatRepository.toInt c, v⟩ ∈ n.server.shared.conn.tables.chatMembers ∧
      v ≠ (n.server.obj x).userID ∧ n.server.shared.byUserID v = some y := by
  simp only [recipients, Shared.recipients, membersOf_toInt32 ints, List.mem_filterMap,
    List.mem_filter, Tables.mem_membersOf, bne_iff_ne, and_assoc]

/-- No user is a member twice, and no session is registered for two users. -/
theorem nodup_recipients (online : n.server.Online)
    (keyed : n.server.shared.conn.tables.chatMembers.Nodup) : (n.recipients x c).Nodup := by
  have members : (n.server.shared.conn.tables.membersOf (ChatRepository.toInt c)).Nodup := by
    apply (Tables.membersOf_perm _ _).nodup_iff.mpr
    apply List.Nodup.map_on _ (keyed.filter _)
    rintro ⟨chatID, userID⟩ ha ⟨chatID', userID'⟩ hb same
    simp only [List.mem_filter, beq_iff_eq] at ha hb
    rw [MemberRow.mk.injEq]
    exact ⟨ha.2.trans hb.2.symm, same⟩
  rw [recipients, Shared.recipients, membersOf_toInt32 ints]
  apply List.Nodup.filterMap _ (members.filter _)
  intro v w y hv hw
  rw [← online.user v y hv, online.user w y hw]

end

/-- The packet that the client sends. -/
def request (messageID sessionID c : UInt32) (text : Bytes) : RawPacket :=
  PacketBuilder.packetOf messageID sessionID (.messageSend ⟨c, text⟩)

/-- The packet that the recipients get. -/
def notice (n : Network) (x : SessionId) (c : UInt32) (text : Bytes) : RawPacket :=
  PacketBuilder.packetOf 0 0 (.messageReceive ⟨(n.server.obj x).username, c, text⟩)

theorem acceptable_request (valid : Validator.validateMessage text = true) :
    Acceptable (request messageID sessionID c text) := by
  apply PacketBuilder.acceptable_packetOf
  have limit : config.MAX_REASONABLE_PACKET_BODY = 5120 := rfl
  have short := Validator.length_of_message valid
  simp only [Payload.body, List.length_append, Encoding.length_uint32BE,
    Encoding.length_string (by omega : text.length ≤ 65535), limit]
  omega

theorem acceptable_notice (name : Validator.validateUsername (n.server.obj x).username = true)
    (valid : Validator.validateMessage text = true) : Acceptable (n.notice x c text) := by
  apply PacketBuilder.acceptable_packetOf
  have limit : config.MAX_REASONABLE_PACKET_BODY = 5120 := rfl
  have short := Validator.length_of_message valid
  have shortName := Validator.length_of_username name
  simp only [Payload.body, List.length_append, Encoding.length_uint32BE,
    Encoding.length_string (by omega : text.length ≤ 65535),
    Encoding.length_string (by omega : (n.server.obj x).username.length ≤ 65535), limit]
  omega

theorem receive_notice (name : Validator.validateUsername (n.server.obj x).username = true)
    (valid : Validator.validateMessage text = true) (p : ProtocolClient) :
    (p.receive [n.notice x c text]).2 =
      [.signalMessageReceived (n.server.obj x).username c text] := by
  have short := Validator.length_of_message valid
  have shortName := Validator.length_of_username name
  have read : p.processIncomingPacket (n.notice x c text).1 (n.notice x c text).2 =
      (p, .signalMessageReceived (n.server.obj x).username c text) :=
    p.processIncomingPacket_messageReceive rfl (by simp only; omega) (by simp only; omega)
  simp only [ProtocolClient.receive, read]

/-- It is the turn of the session, and its user may send the text to the chat. -/
structure Speaks (n : Network) (x : SessionId) (c : UInt32) (text : Bytes) : Prop where
  idle : n.Idle x
  online : n.server.Online
  keyed : n.server.shared.conn.tables.chatMembers.Nodup
  ints : ∀ r ∈ n.server.shared.conn.tables.chatMembers, IsInt r.userID
  user : (n.server.obj x).userID ≠ -1
  name : Validator.validateUsername (n.server.obj x).username = true
  chat : 0 < c
  text : Validator.validateMessage text = true
  takes : ∀ y ∈ n.recipients x c, n.Takes y

/-- The commands that the handled task leaves. -/
def pushes (n : Network) (x : SessionId) (c : UInt32) (text : Bytes) : List Queued :=
  (n.recipients x c).map (fun y =>
      ⟨⟨.sendRaw, n.server.fdOf y, frame (n.notice x c text)⟩, y⟩) ++
    [⟨⟨.taskDone, n.server.fdOf x, []⟩, x⟩]

/-- The message stored. -/
def tablesAfter (n : Network) (x : SessionId) (c : UInt32) (text : Bytes) : Tables :=
  n.server.shared.stored (ChatRepository.toInt c) (n.server.obj x).userID text

/-- What the handled task leaves: the message is stored, and its packet pushed to each recipient. -/
theorem Waiting.handle (w : Waiting n x (request messageID sessionID c text) m)
    (h : n.Speaks x c text) :
    (m.server.shared.handle (toTask x (request messageID sessionID c text))).push
        ⟨.taskDone, m.server.fdOf x, []⟩ x =
      { m.server.shared with
        conn := n.server.shared.conn.inserted (n.tablesAfter x c text)
          (n.server.shared.conn.tables.messageSeq + 1)
        queue := n.pushes x c text } := by
  have short := Validator.length_of_message h.text
  have strings : ∀ s ∈ (Payload.messageSend ⟨c, text⟩).strings, s.length ≤ 65535 := by
    simp only [Payload.strings, List.mem_singleton]
    rintro _ rfl
    omega
  have read := PacketParser.parseData_body (.messageSend ⟨c, text⟩) strings (Nat.zero_le _)
  simp only [Payload.type, PacketParser.parseData, Option.map_eq_some_iff] at read
  obtain ⟨data, read, same⟩ := read
  cases same
  have bytes : frame (n.notice x c text) =
      PacketBuilder.messageReceive 0 0 ⟨(n.server.obj x).username, c, text⟩ :=
    PacketBuilder.frame_packetOf 0 0 _
  have good : (Validator.validateChatID c && Validator.validateMessage text) = true := by
    rw [h.text, Bool.and_true]
    exact decide_eq_true h.chat
  have run := m.server.shared.handle_messageSend
    (t := toTask x (request messageID sessionID c text)) rfl read good (w.opened h.idle)
  have conn : m.server.shared.conn = n.server.shared.conn := by rw [w.shared]
  have registry : m.server.shared.byUserID = n.server.shared.byUserID := by rw [w.shared]
  have user : (m.server.shared.objects x).userID = (n.server.obj x).userID :=
    (congrArg ClientSession.userID (w.obj x) :)
  have name : (m.server.shared.objects x).username = (n.server.obj x).username :=
    (congrArg ClientSession.username (w.obj x) :)
  have number : ∀ y, (m.server.shared.objects y).fileDescriptor = n.server.fdOf y := w.fdOf
  have recipients : m.server.shared.recipients (ChatRepository.toInt c) (n.server.obj x).userID =
      n.recipients x c := by
    rw [Network.recipients, Shared.recipients, Shared.recipients, conn, registry]
  have stored : m.server.shared.stored (ChatRepository.toInt c) (n.server.obj x).userID text =
      n.tablesAfter x c text := by
    rw [tablesAfter, Shared.stored, Shared.stored, conn]
  simp only [toTask] at run ⊢
  simp only [user, name, if_neg h.user, recipients, stored, conn] at run
  rw [run, w.fdOf]
  simp only [Shared.push, Shared.pushEach, w.queue h.idle, List.nil_append, number, pushes, bytes]

/-- When the task has been handled, the packets are in the queue, and nothing else has changed for
the clients. -/
theorem Waiting.carrying (w : Waiting n x (request messageID sessionID c text) m)
    (h : n.Speaks x c text) :
    let m' := handled m x (request messageID sessionID c text)
    Carrying n x (n.server.fdOf x) (n.recipients x c) (n.notice x c text)
        (n.tablesAfter x c text) m' ∧
      work m' = work m + ((n.pushes x c text).map fun q => 2 * q.cmd.data.length + 3).sum := by
  have after := w.handle h
  obtain ⟨flow, more⟩ := w.flow.queued w.commands (w.queue h.idle)
    { m.server.pool with
      tasks := []
      started := m.server.pool.started ++
        [⟨m.server.fdOf x, toTask x (request messageID sessionID c text)⟩] }
    (n.server.shared.conn.inserted (n.tablesAfter x c text)
      (n.server.shared.conn.tables.messageSeq + 1)) rfl (n.pushes x c text)
  have pushed : (pending · (n.pushes x c text)) =
      fun y => if y ∈ n.recipients x c then frame (n.notice x c text) else [] := by
    funext y
    exact pending_pushed (nodup_recipients h.ints h.online h.keyed) y _ rfl
  have mapped {y : SessionId} (hy : y ∈ n.recipients x c) :
      n.server.sessions (n.server.fdOf y) = some y ∧ (n.server.obj y).closed = false := by
    obtain ⟨v, _, _, found⟩ := (mem_recipients h.ints).mp hy
    exact h.online.opened v y found
  simp only [handled, after]
  refine ⟨⟨pushed ▸ flow, rfl, w.toServer, rfl, fun q hq => ?_, fun y hy => ?_, fun y hy => ?_⟩,
    more⟩
  · have here : q ∈ n.pushes x c text := by
      rw [w.commands] at hq
      exact hq
    simp only [pushes, List.mem_append, List.mem_map, List.mem_singleton] at here
    rcases here with ⟨y, hy, rfl⟩ | rfl
    · exact .inr ⟨y, hy, by rw [← w.fdOf]; rfl⟩
    · exact .inl rfl
  · refine ⟨?_, ?_⟩
    · have here := (mapped hy).1
      rw [← w.fdOf, ← w.sessions] at here
      exact here
    · exact (congrArg ClientSession.closed (w.obj y)).trans (mapped hy).2
  · have ne : y ≠ x := by
      rintro rfl
      obtain ⟨v, _, other, found⟩ := (mem_recipients h.ints).mp hy
      exact other (h.online.user v y found).symm
    intro same
    exact fdOf_ne h.idle.here (mapped hy).1 ne ((w.fdOf y).symm.trans same)

/-- Where a run is after the message has been sent: `k` bounds the steps that are left. -/
inductive Underway (n : Network) (x : SessionId) (messageID sessionID c : UInt32) (text : Bytes) :
    Nat → Network → Prop
  | arriving (buffer ahead : Bytes) (m : Network)
    (arrives : Arriving n x (request messageID sessionID c text) buffer ahead m) :
    Underway n x messageID sessionID c text
      (work m + ((n.pushes x c text).map fun q => 2 * q.cmd.data.length + 3).sum + 1) m
  | waiting (m : Network) (waits : Waiting n x (request messageID sessionID c text) m) :
    Underway n x messageID sessionID c text
      (work m + ((n.pushes x c text).map fun q => 2 * q.cmd.data.length + 3).sum + 1) m
  | carrying (m : Network)
    (carries : Carrying n x (n.server.fdOf x) (n.recipients x c) (n.notice x c text)
      (n.tablesAfter x c text) m) :
    Underway n x messageID sessionID c text (work m) m

theorem step_underway (h : n.Speaks x c text) {k : Nat} {e : Transfer} {m' : Network}
    (under : Underway n x messageID sessionID c text k m) (step : m.transfer e = some m') :
    ∃ j < k, Underway n x messageID sessionID c text j m' := by
  cases under with
  | arriving buffer ahead m arrives =>
    obtain ⟨next, less⟩ := step_arriving arrives h.idle (acceptable_request h.text) step
    rcases next with waits | ⟨buffer', ahead', arrives'⟩
    · exact ⟨_, by omega, .waiting m' waits⟩
    · exact ⟨_, by omega, .arriving buffer' ahead' m' arrives'⟩
  | waiting m waits =>
    rcases step_waiting waits h.idle step with ⟨waits', less⟩ | rfl
    · exact ⟨_, by omega, .waiting m' waits'⟩
    · obtain ⟨carries, more⟩ := waits.carrying h
      exact ⟨_, by omega, .carrying _ carries⟩
  | carrying m carries =>
    obtain ⟨carries', less⟩ := step_carrying carries step
    exact ⟨_, less, .carrying _ carries'⟩

theorem Underway.loops {k : Nat} (under : Underway n x messageID sessionID c text k m) :
    Loops n.server → Loops m.server := by
  cases under with
  | arriving _ _ _ arrives => exact arrives.flow.loops
  | waiting _ waits => exact waits.flow.loops
  | carrying _ carries => exact carries.flow.loops

/-- The client has read of what was on its way to it in `n`, and of nothing else. -/
def ReadsEarlier (n m : Network) (y : SessionId) : Prop :=
  ∃ chunks, m.clients y = ((n.clients y).reads chunks).1 ∧
    m.signals y = n.signals y ++ ((n.clients y).reads chunks).2 ∧
    chunks.flatten ++ m.outgoing y = n.outgoing y

theorem Asking.readsEarlier (h : Asking n x m) (idle : n.Idle x) (y : SessionId) :
    ReadsEarlier n m y := by
  obtain ⟨chunks, client, told, bytes⟩ := h.flow.carried y
  rw [h.commands, h.queue idle] at bytes
  exact ⟨chunks, client, told, by simpa [pending] using bytes⟩

/-- Nobody but the recipients gets a byte. -/
theorem Underway.silent (h : n.Speaks x c text) {k : Nat}
    (under : Underway n x messageID sessionID c text k m) {y : SessionId}
    (other : y ∉ n.recipients x c) : ReadsEarlier n m y := by
  cases under with
  | arriving _ _ _ arrives => exact arrives.readsEarlier h.idle y
  | waiting _ waits => exact waits.readsEarlier h.idle y
  | carrying _ carries =>
    obtain ⟨chunks, client, told, bytes⟩ := carries.flow.carried y
    have none : pending y (m.server.commands ++ m.server.shared.queue) = [] := by
      rw [pending, List.flatMap_eq_nil_iff]
      intro q hq
      simp only [List.mem_filter, Bool.and_eq_true, beq_iff_eq] at hq
      rcases carries.commands q hq.1 with done | ⟨z, hz, rfl⟩
      · rw [done]
      · exact absurd (hq.2.2 ▸ hz) other
    simp only [none, List.append_nil, if_neg other] at bytes
    exact ⟨chunks, client, told, bytes⟩

/-- The run ends when every recipient's client has signalled the message. -/
theorem Underway.last (h : n.Speaks x c text) {k : Nat}
    (under : Underway n x messageID sessionID c text k m) (stuck : ∀ e, m.transfer e = none) :
    m.server.shared.conn.tables = n.tablesAfter x c text ∧
      ∀ y ∈ n.recipients x c, m.signals y =
        n.signals y ++ ((n.clients y).protocol.receive (n.earlier y)).2 ++
          [.signalMessageReceived (n.server.obj x).username c text] := by
  cases under with
  | arriving _ _ _ arrives => exact absurd stuck (arrives.goes_on h.idle)
  | waiting _ waits => exact absurd stuck waits.goes_on
  | carrying _ carries =>
    refine ⟨carries.tables, fun y hy => ?_⟩
    rw [carries.last (acceptable_notice h.name h.text) stuck hy (h.takes y hy),
      ProtocolClient.receive_append, receive_notice h.name h.text, List.append_assoc]

/-- A session that has no bytes on their way may send a message. -/
structure Sendable (n : Network) (x : SessionId) (c : UInt32) (text : Bytes) : Prop
    extends Speaks n x c text where
  toServer : n.toServer x = []

theorem Sendable.sent (h : n.Sendable x c text) : (n.sendMessage x c text).Speaks x c text := by
  have connection : ∀ y, ((n.sendMessage x c text).clients y).connection =
      (n.clients y).connection := by
    intro y
    simp only [sendMessage, Function.update_apply]
    split
    · rename_i e
      rw [e]
    · rfl
  have stream : ∀ y, (n.sendMessage x c text).stream y = n.stream y :=
    fun y => congrArg (fun c : Connection => c.receiveBuffer ++ n.outgoing y) (connection y)
  have idle := h.idle
  refine ⟨⟨idle.going, idle.tasks, idle.queue, idle.commands, idle.mapped, idle.beyond,
    idle.watched, fun y hy => ?_, idle.here, idle.opened, idle.assembler⟩, h.online, h.keyed,
    h.ints, h.user, h.name, h.chat, h.text, fun y hy => ?_⟩
  · have same : (n.sendMessage x c text).toServer y = n.toServer y :=
      Function.update_of_ne hy _ _
    rw [same]
    exact idle.parts y hy
  · have takes := h.takes y hy
    exact ⟨connection y ▸ takes.part, stream y ▸ takes.whole, stream y ▸ takes.small⟩

/-- The first state of the run. -/
theorem Sendable.underway (h : n.Sendable x c text) :
    ∃ k, Underway (n.sendMessage x c text) x (n.clients x).protocol.messageID
      (n.clients x).protocol.sessionID c text k (n.sendMessage x c text) := by
  have idle := h.idle
  have bytes : (n.sendMessage x c text).toServer x = frame (request
      (n.clients x).protocol.messageID (n.clients x).protocol.sessionID c text) := by
    have packet : frame (request (n.clients x).protocol.messageID
        (n.clients x).protocol.sessionID c text) = PacketBuilder.messageSend
          (n.clients x).protocol.messageID (n.clients x).protocol.sessionID ⟨c, text⟩ :=
      PacketBuilder.frame_packetOf _ _ _
    rw [packet]
    simp only [sendMessage, Function.update_self, h.toServer, List.nil_append]
    rfl
  have flow : Flow (n.sendMessage x c text) x (fun _ => []) (n.sendMessage x c text) := by
    have idle := h.sent.idle
    refine ⟨idle.mapped, idle.beyond, idle.watched, idle.parts, fun y => ⟨[], rfl, ?_, ?_⟩, id⟩
    · exact (List.append_nil _).symm
    · simp [idle.commands, idle.queue, pending]
  exact ⟨_, .arriving [] _ _ ⟨⟨flow, rfl, fun _ => rfl, rfl, idle.commands⟩, rfl, idle.assembler,
    bytes, frame_ne_nil _, rfl⟩⟩

/-- The run ends, and then the message is stored and each online member of the chat but its sender
has been told of it once, behind what was on its way to it. At no time has anyone else been sent a
byte, and what the server does is a run of the event loop and a worker. -/
def Reaches (n : Network) (x : SessionId) (c : UInt32) (text : Bytes) (chatID : Int) : Prop :=
  let start := n.sendMessage x c text
  let s := n.server
  let userID := (s.obj x).userID
  let message := Signal.signalMessageReceived (s.obj x).username c text
  let member := fun v => ⟨chatID, v⟩ ∈ s.shared.conn.tables.chatMembers ∧ v ≠ userID
  Inevitable transfer
    (fun m => m.server.shared.conn.tables =
        s.shared.stored (ChatRepository.toInt c) userID text ∧
      ∀ v y, member v → s.shared.byUserID v = some y → m.signals y =
        start.signals y ++ ((start.clients y).protocol.receive (start.earlier y)).2 ++ [message])
    start ∧
  ∀ es m, exec transfer start es = some m →
    (∀ y, (∀ v, member v → s.shared.byUserID v ≠ some y) → ReadsEarlier start m y) ∧
    (Loops s → ∃ as, exec Server.step s as = some m.server)

/-- **A message delivered.** Requests are handled one at a time, and a client sends a valid message
on a session that is authenticated under a valid name: it reaches the chat whose id is the packet's,
as a C++ `int`. The clients may still have earlier packets to read, whole ones. -/
theorem message_delivered (n : Network) (x : SessionId) (c : UInt32) (text : Bytes)
    (h : n.Sendable x c text) : n.Reaches x c text (ChatRepository.toInt c) := by
  have speaks := h.sent
  obtain ⟨k, under⟩ := h.underway
  constructor
  · apply Inevitable.of_rank (fun k s e t => step_underway speaks) ?_ under
    intro k m under stuck
    obtain ⟨tables, told⟩ := under.last speaks stuck
    refine ⟨tables, fun v y member found => ?_⟩
    exact told y ((mem_recipients speaks.ints).mpr ⟨v, member.1, member.2, found⟩)
  · intro es m run
    have keep : ∀ s e t,
        ((∃ k, Underway (n.sendMessage x c text) x (n.clients x).protocol.messageID
            (n.clients x).protocol.sessionID c text k s) ∧
          (Loops n.server → ∃ as, exec Server.step n.server as = some s.server)) →
        s.transfer e = some t →
        (∃ k, Underway (n.sendMessage x c text) x (n.clients x).protocol.messageID
            (n.clients x).protocol.sessionID c text k t) ∧
          (Loops n.server → ∃ as, exec Server.step n.server as = some t.server) := by
      rintro s e t ⟨⟨k, here⟩, before⟩ step
      obtain ⟨j, _, next⟩ := step_underway speaks here step
      refine ⟨⟨j, next⟩, fun loops => ?_⟩
      obtain ⟨as, ran⟩ := before loops
      obtain ⟨bs, more⟩ := transfer_steps (here.loops loops) step
      exact ⟨as ++ bs, exec_append.mpr ⟨_, ran, more⟩⟩
    obtain ⟨⟨j, there⟩, runs⟩ := invariant keep ⟨⟨k, under⟩, fun _ => ⟨[], rfl⟩⟩ run
    refine ⟨fun y none => there.silent speaks fun recipient => ?_, runs⟩
    obtain ⟨v, member, other, found⟩ := (mem_recipients speaks.ints).mp recipient
    exact none v ⟨member, other⟩ found

/-- A packet of 22 bytes: the message "h" of the user "a" in the chat 1. -/
def unread : Bytes := PacketBuilder.messageReceive 0 0 ⟨[97], 1, [104]⟩

/-- Two users online in one chat. The second has an earlier message to read: its client has the
first bytes of the packet, others are on the wire, and the last ones are not sent yet. -/
def twoOnline (chatID : Int) : Network where
  server :=
    let s := Server.start { chatMembers := [⟨chatID, 1⟩, ⟨chatID, 2⟩] } 1 3 4
    { s with
      shared :=
        { s.shared with
          objects := fun x =>
            if x = 0 then { fileDescriptor := 5, userID := 1, username := [97] }
            else
              { fileDescriptor := 6, userID := 2, username := [98],
                sender := { sendQueue := [unread.drop 11], writePending := true } }
          next := 2
          byUserID := fun v => if v = 1 then some 0 else if v = 2 then some 1 else none }
      sessions := fun fd => if fd = 5 then some 0 else if fd = 6 then some 1 else none
      inFlight := fun fd => if fd = 5 ∨ fd = 6 then some 0 else none
      openFds := fun fd => [3, 4, 5, 6].contains fd
      epoll := fun fd =>
        if fd = 6 then some .write else if [3, 4, 5].contains fd then some .read else none }
  clients := fun y => if y = 1 then { connection := { receiveBuffer := unread.take 5 } } else {}
  toServer := fun _ => []
  toClient := fun y => if y = 1 then (unread.drop 5).take 6 else []
  signals := fun _ => []

theorem sessions_twoOnline {chatID : Int} {fd : Fd}
    (hx : (twoOnline chatID).server.sessions fd = some x) : fd = 5 ∧ x = 0 ∨ fd = 6 ∧ x = 1 := by
  simp only [twoOnline] at hx
  split at hx
  · exact .inl ⟨‹_›, (Option.some.inj hx).symm⟩
  · split at hx
    · exact .inr ⟨‹_›, (Option.some.inj hx).symm⟩
    · cases hx

theorem sendable_twoOnline {chatID : Int} (chat : 0 < c)
    (text_ : Validator.validateMessage text = true) : (twoOnline chatID).Sendable 0 c text := by
  have users : ∀ v x, (twoOnline chatID).server.shared.byUserID v = some x →
      v = 1 ∧ x = 0 ∨ v = 2 ∧ x = 1 := by
    intro v x hx
    simp only [twoOnline] at hx
    split at hx
    · exact .inl ⟨‹_›, (Option.some.inj hx).symm⟩
    · split at hx
      · exact .inr ⟨‹_›, (Option.some.inj hx).symm⟩
      · cases hx
  have ints : ∀ r ∈ (twoOnline chatID).server.shared.conn.tables.chatMembers,
      IsInt r.userID := by
    simp [twoOnline, Server.start, IsInt]
  have idle : (twoOnline chatID).Idle 0 := by
    refine ⟨rfl, rfl, rfl, rfl, fun g y hy => ?_, fun y hy => ?_, fun y hy => ?_, fun y hy => ?_,
      rfl, rfl, rfl⟩
    · rcases sessions_twoOnline hy with ⟨rfl, rfl⟩ | ⟨rfl, rfl⟩ <;>
        exact ⟨rfl, of_decide_eq_true rfl⟩
    · refine if_neg ?_
      rintro rfl
      exact absurd hy (of_decide_eq_false rfl)
    · rcases sessions_twoOnline hy with ⟨_, rfl⟩ | ⟨_, rfl⟩ <;> exact ⟨rfl, rfl⟩
    · have obj : (twoOnline chatID).server.obj y = _ := if_neg hy
      rw [obj]
      rfl
  refine ⟨⟨idle, ⟨fun v x hx => ?_, fun v x hx => ?_⟩, ?_, ints, ?_, rfl, chat, text_,
    fun y hy => ?_⟩, rfl⟩
  · rcases users v x hx with ⟨rfl, rfl⟩ | ⟨rfl, rfl⟩ <;> exact ⟨rfl, rfl⟩
  · rcases users v x hx with ⟨rfl, rfl⟩ | ⟨rfl, rfl⟩ <;> rfl
  · simp [twoOnline, Server.start]
  · exact of_decide_eq_true rfl
  · obtain ⟨v, _, _, found⟩ := (mem_recipients ints).mp hy
    rcases users v y found with ⟨rfl, rfl⟩ | ⟨rfl, rfl⟩ <;> exact ⟨rfl, rfl, rfl⟩

/-- The second user's client signals the earlier message and then the new one. -/
theorem message_delivered_in_chat :
    (twoOnline 1).Reaches 0 1 [120] 1 ∧ Loops (twoOnline 1).server := by
  refine ⟨message_delivered (twoOnline 1) 0 1 [120] (sendable_twoOnline (by decide) rfl),
    rfl, rfl, ⟨0, rfl⟩, by decide, by decide, fun fd x hx => ?_⟩
  rcases sessions_twoOnline hx with ⟨rfl, _⟩ | ⟨rfl, _⟩ <;> decide

/-- The chat with id -1 gets the messages to the chat 4294967295. -/
theorem foreign_chat_reached : (twoOnline (-1)).Sendable 0 4294967295 [120] ∧
    ¬ (twoOnline (-1)).Reaches 0 4294967295 [120] 4294967295 := by
  refine ⟨sendable_twoOnline (by decide) rfl, fun h => ?_⟩
  have run : ∃ m, exec transfer ((twoOnline (-1)).sendMessage 0 4294967295 [120])
      [.read 0 [PacketBuilder.messageSend 0 0 ⟨4294967295, [120]⟩], .handle, .drain,
        .command []] = some m ∧
      ((twoOnline (-1)).sendMessage 0 4294967295 [120]).outgoing 1 = unread.drop 5 ∧
      (m.outgoing 1).length = 39 :=
    ⟨_, rfl, by decide, by decide⟩
  obtain ⟨m, run, before, after⟩ := run
  obtain ⟨chunks, _, _, bytes⟩ := (h.2 _ m run).1 1 (by
    rintro v ⟨member, _⟩
    simp [twoOnline, Server.start] at member)
  have size := congrArg List.length (bytes.trans before)
  rw [List.length_append, after] at size
  have few : (unread.drop 5).length = 17 := by decide
  omega

end Network

end Cvcn
