import Cvcn.Services.Dispatcher

/-!
# What a task may do to the sessions

A worker's task calls the methods of its own session as it likes. Another session it reaches
in one way only: `findByUserID` answers with a recipient, whose methods it calls next. It
registers a session in one place only, right after `setAuthenticated`, and it is its own.
-/

namespace Cvcn

open Atomic

/-- Where a task is between two operations. -/
inductive Stage where
  | free
  /-- `setAuthenticated` was the last operation. -/
  | authenticated (userID : Int)
  | holding (recipient : SessionId)
  deriving DecidableEq, Repr

/-- The next operation of a task for session `own`; `auth` tells whether it may log in. -/
def allowed (own : SessionId) (auth : Bool) : Stage → Op → Prop
  | .free, .repo _ => True
  | .free, .findByUserID _ => True
  | .free, .session x (.setAuthenticated _ _) => x = own ∧ auth = true
  | .free, .session x _ => x = own
  | .authenticated userID, .registerUser u x => u = userID ∧ x = own
  | .holding recipient, .session x (.sendRaw _) => x = recipient
  | .holding recipient, .session x .getUsername => x = recipient
  | _, _ => False

def after : Stage → (o : Op) → o.Res → Stage
  | .free, .session _ (.setAuthenticated userID _), _ => .authenticated userID
  | .free, .findByUserID _, some recipient => .holding recipient
  | .holding recipient, .session _ (.sendRaw _), _ => .holding recipient
  | _, _, _ => .free

/-- From `free` back to `free`. -/
def Follows (own : SessionId) (auth : Bool) (p : ServerProg Unit) : Prop :=
  p.Keeps (allowed own auth) after .free fun _ stage => stage = .free

variable {own : SessionId} {auth : Bool} (header : PacketHeaderRaw)

/-- The answer that most handlers end with. -/
theorem sendRaw_follows (data : Bytes) : Follows own auth (IClientSession.sendRaw own data) := by
  simp [Follows, allowed, after]

theorem handleRegisterRequest_follows (data : RegisterRequestData) :
    Follows own auth (AuthService.handleRegisterRequest header data own) := by
  simp only [Follows, AuthService.handleRegisterRequest, Repo.userExists_eq, Prog.op_bind,
    Prog.keeps_op]
  refine ⟨trivial, fun found => ?_⟩
  cases found with
  | true => exact sendRaw_follows _
  | false =>
    simp only [Prog.done_bind, Repo.addUser_eq, Prog.op_bind]
    exact ⟨trivial, fun success => sendRaw_follows _⟩

theorem handleAuthRequest_follows (data : AuthRequestData) :
    Follows own true (AuthService.handleAuthRequest header data own) := by
  simp only [Follows, AuthService.handleAuthRequest, Repo.getUserPasswordHash_eq, Prog.op_bind,
    Prog.done_bind, Prog.keeps_op]
  refine ⟨trivial, fun storedHash => ?_⟩
  split
  · simp [AuthService.authenticate, allowed, after]
  · exact sendRaw_follows _

theorem handleDeleteRequest_follows (data : DeleteRequestData) :
    Follows own auth (AuthService.handleDeleteRequest header data own) := by
  simp [Follows, AuthService.handleDeleteRequest, allowed, after]

theorem handleFindUserRequest_follows (data : FindUserRequestData) :
    Follows own auth (ChatService.handleFindUserRequest header data own) := by
  simp only [Follows, ChatService.handleFindUserRequest, IClientSession.getUserID_eq,
    Prog.op_bind, Prog.done_bind, Prog.keeps_op]
  refine ⟨rfl, fun userID => ?_⟩
  split
  · exact sendRaw_follows _
  · simp [allowed, after]

/-- Only the repositories are asked. -/
theorem createChat_keeps (data : CreateChatRequestData) (userID : Int) :
    (ChatService.createChat data userID).Keeps (allowed own auth) after .free
      fun _ stage => stage = .free := by
  unfold ChatService.createChat
  split
  · rfl
  · simp only [Repo.getUserID_eq, Prog.op_bind, Prog.done_bind, Prog.keeps_op]
    refine ⟨trivial, fun peerID => ?_⟩
    split
    · rfl
    · simp only [Repo.findOrCreateDirectChat_eq, Prog.op_bind, Prog.done_bind, Prog.keeps_op]
      refine ⟨trivial, fun chatID => ?_⟩
      split <;> rfl

theorem handleCreateChatRequest_follows (data : CreateChatRequestData) :
    Follows own auth (ChatService.handleCreateChatRequest header data own) := by
  simp only [Follows, ChatService.handleCreateChatRequest, IClientSession.getUserID_eq,
    Prog.op_bind, Prog.done_bind, Prog.keeps_op]
  refine ⟨rfl, fun userID => Prog.Keeps.bind ?_⟩
  apply (createChat_keeps data userID).mono
  intro resp stage free
  subst free
  exact sendRaw_follows _

theorem handleChatListRequest_follows :
    Follows own auth (ChatService.handleChatListRequest header own) := by
  simp only [Follows, ChatService.handleChatListRequest, IClientSession.getUserID_eq,
    Prog.op_bind, Prog.done_bind, Prog.keeps_op]
  refine ⟨rfl, fun userID => ?_⟩
  split
  · simp [allowed, after]
  · exact sendRaw_follows _

/-- Each round returns to `free`: a recipient is used twice and then dropped. -/
theorem broadcastLoop_follows (excludeUserID : Int) (packet : Bytes) (memberIDs : List Int) :
    Follows own auth (MessageService.broadcastLoop excludeUserID packet memberIDs) := by
  induction memberIDs with
  | nil => rfl
  | cons userID memberIDs ih =>
    unfold MessageService.broadcastLoop
    split
    · exact ih
    · simp only [Follows, ISessionRegistry.findByUserID_eq, Prog.op_bind, Prog.done_bind,
        Prog.keeps_op]
      refine ⟨trivial, fun found => ?_⟩
      cases found with
      | none => exact ih
      | some recipient =>
        simp only [IClientSession.sendRaw_eq, IClientSession.getUsername_eq, Prog.op_bind,
          Prog.done_bind, Prog.keeps_op]
        exact ⟨rfl, fun _ => ⟨rfl, fun _ => ih⟩⟩

theorem handleMessageSend_follows (data : MessageSendData) :
    Follows own auth (MessageService.handleMessageSend data own) := by
  simp only [Follows, MessageService.handleMessageSend, IClientSession.getUserID_eq,
    Prog.op_bind, Prog.done_bind, Prog.keeps_op]
  refine ⟨rfl, fun senderID => ?_⟩
  split
  · rfl
  · simp only [Repo.saveMessage_eq, IClientSession.getUsername_eq, Repo.getChatMemberIDs_eq,
      Prog.op_bind, Prog.done_bind, Prog.keeps_op]
    exact ⟨trivial, fun _ => ⟨rfl, fun _ => ⟨trivial, fun _ => broadcastLoop_follows _ _ _⟩⟩⟩

theorem handleConnectRequest_follows :
    Follows own auth (PacketDispatcher.handleConnectRequest header own) := by
  unfold PacketDispatcher.handleConnectRequest
  split
  · exact sendRaw_follows _
  · simp [Follows, allowed, after]

theorem validated_keeps {q α : Type} {ok : q → Op → Prop} {next : q → (o : Op) → o.Res → q} {s : q}
    {Q : Unit → q → Prop} {parsed : Option α} {valid : α → Bool} {handle : α → ServerProg Unit}
    (h : ∀ data, parsed = some data → valid data = true → (handle data).Keeps ok next s Q)
    (dropped : Q () s) : (PacketDispatcher.validated parsed valid handle).Keeps ok next s Q := by
  unfold PacketDispatcher.validated
  split
  · split
    · rename_i data valid
      exact h data rfl valid
    · exact dropped
  · exact dropped

theorem validated_follows {α : Type} {parsed : Option α} {valid : α → Bool}
    {handle : α → ServerProg Unit} (h : ∀ data, Follows own auth (handle data)) :
    Follows own auth (PacketDispatcher.validated parsed valid handle) :=
  validated_keeps (fun data _ _ => h data) rfl

theorem dispatch_follows (body : Bytes)
    (login : auth = true ∨ PacketType.ofCode header.type ≠ some .authRequest) :
    Follows own auth (PacketDispatcher.dispatch header body own) := by
  unfold PacketDispatcher.dispatch
  split
  · exact handleConnectRequest_follows header
  · simp [PacketDispatcher.handleDisconnectRequest, Follows, allowed, after]
  · exact validated_follows fun data => handleRegisterRequest_follows header data
  · rename_i type
    rcases login with rfl | login
    · exact validated_follows fun data => handleAuthRequest_follows header data
    · exact absurd type login
  · exact validated_follows fun data => handleDeleteRequest_follows header data
  · exact validated_follows fun data => handleFindUserRequest_follows header data
  · exact validated_follows fun data => handleCreateChatRequest_follows header data
  · exact handleChatListRequest_follows header
  · exact validated_follows fun data => handleMessageSend_follows data
  · rfl

/-- **The protocol.** Every task follows it from its first operation to its last. -/
theorem taskBody_follows (t : Task)
    (login : auth = true ∨ PacketType.ofCode t.header.type ≠ some .authRequest) :
    Follows t.session auth (taskBody t) := by
  simp only [Follows, taskBody, IClientSession.isClosed_eq, Prog.op_bind, Prog.done_bind,
    Prog.keeps_op]
  refine ⟨rfl, fun closed => ?_⟩
  cases closed with
  | true => rfl
  | false => exact dispatch_follows t.header t.body login

end Cvcn
