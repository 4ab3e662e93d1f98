import Cvcn.Services.Operations

/-!
# The services

`AuthService`, `ChatService`, `MessageService` and `PacketDispatcher` as programs of
operations. Log lines are left out, except that the one in the broadcast calls a method of
the recipient.
-/

namespace Cvcn

open Atomic

namespace AuthService

def handleRegisterRequest (header : PacketHeaderRaw) (data : RegisterRequestData)
    (session : SessionId) : ServerProg Unit := do
  if ← Repo.userExists data.username then
    IClientSession.sendRaw session
      (PacketBuilder.registerResponse header.messageID header.sessionID ⟨false⟩)
  else
    let hash := config.PASSWORD_HASH_PREFIX ++ data.password
    let success ← Repo.addUser data.username hash
    IClientSession.sendRaw session
      (PacketBuilder.registerResponse header.messageID header.sessionID ⟨success⟩)

/-- The password is right: the id is fetched by a query of its own. -/
def authenticate (header : PacketHeaderRaw) (data : AuthRequestData) (session : SessionId) :
    ServerProg Unit := do
  let userID ← Repo.getUserID data.username
  IClientSession.setAuthenticated session userID data.username
  ISessionRegistry.registerUser userID session
  IClientSession.sendRaw session
    (PacketBuilder.authResponse header.messageID header.sessionID ⟨true⟩)

def handleAuthRequest (header : PacketHeaderRaw) (data : AuthRequestData)
    (session : SessionId) : ServerProg Unit := do
  let storedHash ← Repo.getUserPasswordHash data.username
  if !storedHash.isEmpty && storedHash == config.PASSWORD_HASH_PREFIX ++ data.password then
    authenticate header data session
  else
    IClientSession.sendRaw session
      (PacketBuilder.authResponse header.messageID header.sessionID ⟨false⟩)

def handleDeleteRequest (header : PacketHeaderRaw) (data : DeleteRequestData)
    (session : SessionId) : ServerProg Unit := do
  let hash := config.PASSWORD_HASH_PREFIX ++ data.password
  let success ← Repo.deleteUser data.username hash
  IClientSession.sendRaw session
    (PacketBuilder.deleteResponse header.messageID header.sessionID ⟨success⟩)

end AuthService

namespace ChatService

def handleFindUserRequest (header : PacketHeaderRaw) (data : FindUserRequestData)
    (session : SessionId) : ServerProg Unit := do
  let userID ← IClientSession.getUserID session
  if userID == -1 then
    IClientSession.sendRaw session
      (PacketBuilder.findUserResponse header.messageID header.sessionID {})
  else
    let usernames ← Repo.findUsers data.query userID
    IClientSession.sendRaw session
      (PacketBuilder.findUserResponse header.messageID header.sessionID ⟨usernames⟩)

/-- The response data of `handleCreateChatRequest`. -/
def createChat (data : CreateChatRequestData) (userID : Int) :
    ServerProg CreateChatResponseData := do
  if userID == -1 then return {}
  else
    let peerID ← Repo.getUserID data.peerUsername
    if peerID == -1 || peerID == userID then return {}
    else
      let chatID ← Repo.findOrCreateDirectChat userID peerID
      if chatID > 0 then return ⟨true, UInt32.ofInt chatID, data.peerUsername⟩
      else return {}

def handleCreateChatRequest (header : PacketHeaderRaw) (data : CreateChatRequestData)
    (session : SessionId) : ServerProg Unit := do
  let userID ← IClientSession.getUserID session
  let resp ← createChat data userID
  IClientSession.sendRaw session
    (PacketBuilder.createChatResponse header.messageID header.sessionID resp)

def handleChatListRequest (header : PacketHeaderRaw) (session : SessionId) : ServerProg Unit := do
  let userID ← IClientSession.getUserID session
  if userID != -1 then
    let chats ← Repo.getUserChats userID
    IClientSession.sendRaw session
      (PacketBuilder.chatListResponse header.messageID header.sessionID ⟨chats⟩)
  else
    IClientSession.sendRaw session
      (PacketBuilder.chatListResponse header.messageID header.sessionID {})

end ChatService

namespace MessageService

/-- The loop of `broadcastToChat` over the members: each recipient is looked up and then
used through the pointer found. -/
def broadcastLoop (excludeUserID : Int) (packet : Bytes) : List Int → ServerProg Unit
  | [] => return ()
  | userID :: memberIDs => do
    if userID == excludeUserID then broadcastLoop excludeUserID packet memberIDs
    else
      match ← ISessionRegistry.findByUserID userID with
      | none => broadcastLoop excludeUserID packet memberIDs
      | some recipient =>
        IClientSession.sendRaw recipient packet
        let _ ← IClientSession.getUsername recipient
        broadcastLoop excludeUserID packet memberIDs

def broadcastToChat (memberIDs : List Int) (excludeUserID : Int) (payload : MessageReceiveData) :
    ServerProg Unit :=
  broadcastLoop excludeUserID (PacketBuilder.messageReceive 0 0 payload) memberIDs

/-- The result of `saveMessage` is only logged. -/
def handleMessageSend (data : MessageSendData) (session : SessionId) : ServerProg Unit := do
  let senderID ← IClientSession.getUserID session
  if senderID == -1 then return ()
  else
    let _ ← Repo.saveMessage data.chatID senderID data.text
    let senderUsername ← IClientSession.getUsername session
    let members ← Repo.getChatMemberIDs data.chatID
    broadcastToChat members senderID ⟨senderUsername, data.chatID, data.text⟩

end MessageService

namespace PacketDispatcher

def handleConnectRequest (header : PacketHeaderRaw) (session : SessionId) : ServerProg Unit := do
  if header.sessionID != 0 then
    IClientSession.sendRaw session (PacketBuilder.connectResponse header.messageID header.sessionID)
  else
    let fd ← IClientSession.getFileDescriptor session
    IClientSession.sendRaw session
      (PacketBuilder.connectResponse header.messageID (UInt32.ofNat fd))

def handleDisconnectRequest (session : SessionId) : ServerProg Unit :=
  IClientSession.requestClose session

/-- A body that is not parsed or not valid is logged and dropped. -/
def validated {α : Type} (parsed : Option α) (valid : α → Bool) (handle : α → ServerProg Unit) :
    ServerProg Unit :=
  match parsed with
  | some data => if valid data then handle data else return ()
  | none => return ()

def dispatch (header : PacketHeaderRaw) (body : Bytes) (session : SessionId) : ServerProg Unit :=
  match PacketType.ofCode header.type with
  | some .connectRequest => handleConnectRequest header session
  | some .disconnectRequest => handleDisconnectRequest session
  | some .registerRequest =>
    validated (PacketParser.registerRequest body)
      (fun data =>
        Validator.validateUsername data.username && Validator.validatePassword data.password)
      fun data => AuthService.handleRegisterRequest header data session
  | some .authRequest =>
    validated (PacketParser.authRequest body)
      (fun data =>
        Validator.validateUsername data.username && Validator.validatePassword data.password)
      fun data => AuthService.handleAuthRequest header data session
  | some .deleteRequest =>
    validated (PacketParser.deleteRequest body)
      (fun data =>
        Validator.validateUsername data.username && Validator.validatePassword data.password)
      fun data => AuthService.handleDeleteRequest header data session
  | some .findUserRequest =>
    validated (PacketParser.findUserRequest body)
      (fun data => !(data.query.isEmpty || data.query.length > config.MAX_USERNAME_LENGTH))
      fun data => ChatService.handleFindUserRequest header data session
  | some .createChatRequest =>
    validated (PacketParser.createChatRequest body)
      (fun data => Validator.validateUsername data.peerUsername)
      fun data => ChatService.handleCreateChatRequest header data session
  | some .chatListRequest => ChatService.handleChatListRequest header session
  | some .messageSend =>
    validated (PacketParser.messageSend body)
      (fun data => Validator.validateChatID data.chatID && Validator.validateMessage data.text)
      fun data => MessageService.handleMessageSend data session
  | _ => return ()

end PacketDispatcher

/-- What a worker runs for a task, up to the `TaskDone` it pushes at the end: a closed
session's packets are not dispatched. -/
def taskBody (t : Task) : ServerProg Unit := do
  if ← IClientSession.isClosed t.session then return ()
  else PacketDispatcher.dispatch t.header t.body t.session

end Cvcn
