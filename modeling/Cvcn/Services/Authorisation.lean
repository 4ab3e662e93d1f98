import Cvcn.Services.Sequential

/-!
# Who a message is stored and pushed for

`handleMessageSend` asks whether the session is authenticated, and for nothing else: a message
is stored under the id of the session's user, and goes to the members of the chat that are
registered, whether or not the sender is a member.
-/

namespace Cvcn

open Atomic Machine

namespace Shared

/-- The packet pushed by each of the sessions, in this order. -/
def pushEach (sh : Shared) (packet : Bytes) (recipients : List SessionId) : Shared :=
  { sh with queue := sh.queue ++ recipients.map fun x =>
      ⟨⟨.sendRaw, (sh.objects x).fileDescriptor, packet⟩, x⟩ }

/-- The sessions registered for the members of a chat other than one user, with the ids as the
query returns them. -/
def recipients (sh : Shared) (chatID userID : Int) : List SessionId :=
  (((sh.conn.tables.membersOf chatID).map toInt32).filter (· != userID)).filterMap sh.byUserID

/-- A message of the user stored, with the next id. -/
def stored (sh : Shared) (chatID userID : Int) (text : Bytes) : Tables :=
  { sh.conn.tables with
    messages := sh.conn.tables.messages ++ [⟨sh.conn.tables.messageSeq + 1, chatID, userID, text⟩]
    messageSeq := sh.conn.tables.messageSeq + 1 }

variable (sh : Shared) (packet : Bytes)

@[simp] theorem pushEach_nil : sh.pushEach packet [] = sh := by
  simp [pushEach]

@[simp] theorem pushEach_cons (x : SessionId) (rest : List SessionId) :
    sh.pushEach packet (x :: rest) =
      (sh.push ⟨.sendRaw, (sh.objects x).fileDescriptor, packet⟩ x).pushEach packet rest := by
  simp [pushEach, push]

theorem broadcastLoop_run (excludeUserID : Int) (memberIDs : List Int) :
    ((MessageService.broadcastLoop excludeUserID packet memberIDs).run exec sh).2 =
      sh.pushEach packet ((memberIDs.filter (· != excludeUserID)).filterMap sh.byUserID) := by
  induction memberIDs generalizing sh with
  | nil => simp [MessageService.broadcastLoop]
  | cons userID memberIDs ih =>
    unfold MessageService.broadcastLoop
    by_cases self : userID = excludeUserID
    · subst self
      simp [ih]
    · simp only [beq_iff_eq, self, if_false, ISessionRegistry.findByUserID_eq, Prog.op_bind,
        Prog.done_bind, Prog.run_op]
      cases found : sh.byUserID userID with
      | none => simp [exec, found, self, ih]
      | some x =>
        -- the name of the recipient is only logged
        simp only [exec, found, IClientSession.sendRaw_eq, IClientSession.getUsername_eq,
          Prog.op_bind, Prog.done_bind, Prog.run_op, sessionOp, ih]
        simp only [List.filter_cons, bne_iff_ne, ne_eq, self, not_false_eq_true, if_true,
          List.filterMap_cons, found, pushEach_cons]
        rfl

/-- A message that passes the dispatcher: it is stored, and pushed, if the session is
authenticated. -/
theorem handle_messageSend {t : Task} {data : MessageSendData}
    (type : PacketType.ofCode t.header.type = some .messageSend)
    (parsed : PacketParser.messageSend t.body = some data)
    (valid : (Validator.validateChatID data.chatID && Validator.validateMessage data.text) = true)
    (opened : (sh.objects t.session).closed = false) :
    let c := ChatRepository.toInt data.chatID
    let session := sh.objects t.session
    sh.handle t =
      if session.userID = -1 then sh
      else
        { sh with conn := sh.conn.inserted (sh.stored c session.userID data.text)
                            (sh.conn.tables.messageSeq + 1) }.pushEach
          (PacketBuilder.messageReceive 0 0 ⟨session.username, data.chatID, data.text⟩)
          (sh.recipients c session.userID) := by
  have text : cStr data.text = data.text := by
    rw [Bool.and_eq_true] at valid
    exact Validator.cStr_of_bounded valid.2 rfl
  have dispatch : PacketDispatcher.dispatch t.header t.body t.session =
      MessageService.handleMessageSend data t.session := by
    simp only [PacketDispatcher.dispatch, type, PacketDispatcher.validated, parsed, valid, if_true]
  simp only [handle_eq, opened, Bool.false_eq_true, if_false, dispatch,
    MessageService.handleMessageSend, IClientSession.getUserID_eq, Prog.op_bind, Prog.done_bind,
    Prog.run_op, exec, sessionOp, beq_iff_eq]
  by_cases none : (sh.objects t.session).userID = -1
  · simp only [none, ↓reduceIte]
    rfl
  · simp only [none, ↓reduceIte, Repo.saveMessage_eq, IClientSession.getUsername_eq,
      Repo.getChatMemberIDs_eq, Prog.op_bind, Prog.done_bind, Prog.run_op, exec, sessionOp,
      MessageService.broadcastToChat, RepoOp.saveMessage_exec, RepoOp.getChatMemberIDs_exec,
      broadcastLoop_run, text]
    rfl

end Shared

namespace Server

/-- Three clients register and log in; the first opens a chat with the second. -/
def threeUsers : List ClientEvent :=
  [.connect 5, .connect 6, .connect 7,
    .received 0 (PacketBuilder.registerRequest 1 5 ⟨[97], [112]⟩),
    .received 0 (PacketBuilder.registerRequest 2 5 ⟨[98], [113]⟩),
    .received 0 (PacketBuilder.registerRequest 3 5 ⟨[99], [114]⟩),
    .received 0 (PacketBuilder.authRequest 4 5 ⟨[97], [112]⟩),
    .received 1 (PacketBuilder.authRequest 1 6 ⟨[98], [113]⟩),
    .received 2 (PacketBuilder.authRequest 1 7 ⟨[99], [114]⟩),
    .received 0 (PacketBuilder.createChatRequest 5 5 ⟨[98]⟩)]

end Server

end Cvcn
