import Mathlib.Logic.Function.Basic
import Cvcn.Net.ClientSession
import Cvcn.Storage.Repositories

/-!
# What the workers share

The state behind the interfaces that the services are given: the repositories' connection,
the session objects, `SessionRegistry` and the commands in `ResultQueue`. Each method of an
interface is one atomic operation; a service is a program of them.
-/

namespace Cvcn

open Atomic

/-- A command in the queue. The code sees `cmd` alone; `origin` records the session object
that pushed it, or whose task it reports done. -/
structure Queued where
  cmd : SessionCommand
  origin : SessionId
  deriving DecidableEq, Repr

structure Shared where
  conn : Conn
  /-- Objects `0 … next - 1` have been created. -/
  objects : SessionId → ClientSession
  next : SessionId
  byUserID : Int → Option SessionId
  queue : List Queued

/-- The methods of `IClientSession`. -/
inductive SessionOp where
  | sendRaw (data : Bytes)
  | requestClose
  | getFileDescriptor
  | getUserID
  | getUsername
  | setAuthenticated (userID : Int) (username : Bytes)
  | isClosed
  deriving DecidableEq, Repr

@[reducible] def SessionOp.Res : SessionOp → Type
  | sendRaw _ | requestClose | setAuthenticated _ _ => Unit
  | getFileDescriptor => Fd
  | getUserID => Int
  | getUsername => Bytes
  | isClosed => Bool

inductive Op where
  | repo (o : RepoOp)
  | session (s : SessionId) (o : SessionOp)
  | registerUser (userID : Int) (session : SessionId)
  | findByUserID (userID : Int)
  deriving DecidableEq, Repr

@[reducible] def Op.Res : Op → Type
  | repo o => o.Res
  | session _ o => o.Res
  | registerUser _ _ => Unit
  | findByUserID _ => Option SessionId

abbrev ServerProg := Prog Op Op.Res

namespace Shared

def setSession (sh : Shared) (s : SessionId) (c : ClientSession) : Shared :=
  { sh with objects := Function.update sh.objects s c }

/-- `ResultQueue::push`. -/
def push (sh : Shared) (cmd : SessionCommand) (origin : SessionId) : Shared :=
  { sh with queue := sh.queue ++ [⟨cmd, origin⟩] }

def sessionOp (s : SessionId) : (o : SessionOp) → Shared → o.Res × Shared
  | .sendRaw data, sh => ((), sh.push ⟨.sendRaw, (sh.objects s).fileDescriptor, data⟩ s)
  | .requestClose, sh => ((), sh.push ⟨.close, (sh.objects s).fileDescriptor, []⟩ s)
  | .getFileDescriptor, sh => ((sh.objects s).fileDescriptor, sh)
  | .getUserID, sh => ((sh.objects s).userID, sh)
  | .getUsername, sh => ((sh.objects s).username, sh)
  | .setAuthenticated userID username, sh =>
    ((), sh.setSession s { sh.objects s with userID := userID, username := username })
  | .isClosed, sh => ((sh.objects s).closed, sh)

def registerUser (sh : Shared) (userID : Int) (session : SessionId) : Shared :=
  if userID ≤ 0 then sh
  else { sh with byUserID := Function.update sh.byUserID userID (some session) }

/-- The entry goes only if it is this session's. -/
def unregisterUser (sh : Shared) (userID : Int) (session : SessionId) : Shared :=
  if sh.byUserID userID = some session then
    { sh with byUserID := Function.update sh.byUserID userID none }
  else sh

/-- One operation of a service, executed at once. -/
def exec : (o : Op) → Shared → o.Res × Shared
  | .repo o, sh => ((o.exec sh.conn).1, { sh with conn := (o.exec sh.conn).2 })
  | .session s o, sh => sessionOp s o sh
  | .registerUser userID session, sh => ((), sh.registerUser userID session)
  | .findByUserID userID, sh => (sh.byUserID userID, sh)

end Shared

/-! The calls of the interfaces, each with its normal form. -/

namespace IClientSession

def sendRaw (s : SessionId) (data : Bytes) : ServerProg Unit :=
  Prog.call (Op.session s (.sendRaw data))
def requestClose (s : SessionId) : ServerProg Unit := Prog.call (Op.session s .requestClose)
def getFileDescriptor (s : SessionId) : ServerProg Fd := Prog.call (Op.session s .getFileDescriptor)
def getUserID (s : SessionId) : ServerProg Int := Prog.call (Op.session s .getUserID)
def getUsername (s : SessionId) : ServerProg Bytes := Prog.call (Op.session s .getUsername)
def setAuthenticated (s : SessionId) (userID : Int) (username : Bytes) : ServerProg Unit :=
  Prog.call (Op.session s (.setAuthenticated userID username))
def isClosed (s : SessionId) : ServerProg Bool := Prog.call (Op.session s .isClosed)

section

variable (s : SessionId)

@[simp] theorem sendRaw_eq (data : Bytes) :
    sendRaw s data = .op (.session s (.sendRaw data)) .done := rfl

@[simp] theorem requestClose_eq :
    requestClose s = .op (.session s .requestClose) .done := rfl

@[simp] theorem getFileDescriptor_eq :
    getFileDescriptor s = .op (.session s .getFileDescriptor) .done := rfl

@[simp] theorem getUserID_eq :
    getUserID s = .op (.session s .getUserID) .done := rfl

@[simp] theorem getUsername_eq :
    getUsername s = .op (.session s .getUsername) .done := rfl

@[simp] theorem setAuthenticated_eq (userID : Int) (username : Bytes) :
    setAuthenticated s userID username =
      .op (.session s (.setAuthenticated userID username)) .done := rfl

@[simp] theorem isClosed_eq :
    isClosed s = .op (.session s .isClosed) .done := rfl

end

end IClientSession

namespace ISessionRegistry

def registerUser (userID : Int) (session : SessionId) : ServerProg Unit :=
  Prog.call (Op.registerUser userID session)
def findByUserID (userID : Int) : ServerProg (Option SessionId) :=
  Prog.call (Op.findByUserID userID)

@[simp] theorem registerUser_eq (userID : Int) (session : SessionId) :
    registerUser userID session = .op (.registerUser userID session) .done := rfl

@[simp] theorem findByUserID_eq (userID : Int) :
    findByUserID userID = .op (.findByUserID userID) .done := rfl

end ISessionRegistry

namespace Repo

def userExists (username : Bytes) : ServerProg Bool := Prog.call (Op.repo (.userExists username))
def addUser (username passwordHash : Bytes) : ServerProg Bool :=
  Prog.call (Op.repo (.addUser username passwordHash))
def deleteUser (username passwordHash : Bytes) : ServerProg Bool :=
  Prog.call (Op.repo (.deleteUser username passwordHash))
def getUserPasswordHash (username : Bytes) : ServerProg Bytes :=
  Prog.call (Op.repo (.getUserPasswordHash username))
def getUserID (username : Bytes) : ServerProg Int := Prog.call (Op.repo (.getUserID username))
def findUsers (query : Bytes) (excludeUserID : Int) : ServerProg (List Bytes) :=
  Prog.call (Op.repo (.findUsers query excludeUserID))
def findOrCreateDirectChat (user1ID user2ID : Int) : ServerProg Int :=
  Prog.call (Op.repo (.findOrCreateDirectChat user1ID user2ID))
def getUserChats (userID : Int) : ServerProg (List ChatListEntry) :=
  Prog.call (Op.repo (.getUserChats userID))
def getChatMemberIDs (chatID : UInt32) : ServerProg (List Int) :=
  Prog.call (Op.repo (.getChatMemberIDs chatID))
def saveMessage (chatID : UInt32) (senderID : Int) (text : Bytes) : ServerProg Bool :=
  Prog.call (Op.repo (.saveMessage chatID senderID text))

@[simp] theorem userExists_eq (username : Bytes) :
    userExists username = .op (.repo (.userExists username)) .done := rfl

@[simp] theorem addUser_eq (username passwordHash : Bytes) :
    addUser username passwordHash = .op (.repo (.addUser username passwordHash)) .done := rfl

@[simp] theorem deleteUser_eq (username passwordHash : Bytes) :
    deleteUser username passwordHash = .op (.repo (.deleteUser username passwordHash)) .done := rfl

@[simp] theorem getUserPasswordHash_eq (username : Bytes) :
    getUserPasswordHash username = .op (.repo (.getUserPasswordHash username)) .done := rfl

@[simp] theorem getUserID_eq (username : Bytes) :
    getUserID username = .op (.repo (.getUserID username)) .done := rfl

@[simp] theorem findUsers_eq (query : Bytes) (excludeUserID : Int) :
    findUsers query excludeUserID = .op (.repo (.findUsers query excludeUserID)) .done := rfl

@[simp] theorem findOrCreateDirectChat_eq (user1ID user2ID : Int) :
    findOrCreateDirectChat user1ID user2ID =
      .op (.repo (.findOrCreateDirectChat user1ID user2ID)) .done := rfl

@[simp] theorem getUserChats_eq (userID : Int) :
    getUserChats userID = .op (.repo (.getUserChats userID)) .done := rfl

@[simp] theorem getChatMemberIDs_eq (chatID : UInt32) :
    getChatMemberIDs chatID = .op (.repo (.getChatMemberIDs chatID)) .done := rfl

@[simp] theorem saveMessage_eq (chatID : UInt32) (senderID : Int) (text : Bytes) :
    saveMessage chatID senderID text = .op (.repo (.saveMessage chatID senderID text)) .done := rfl

end Repo

end Cvcn
