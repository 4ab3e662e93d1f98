import Cvcn.Storage.Database
import Cvcn.Packet

/-!
# The repositories

Each method is the program of sqlite3 calls it makes on the shared connection. Binding and
finalizing a statement change nothing and are left out.
-/

namespace Cvcn

open Atomic Sqlite3

namespace UserRepository

def addUser (username passwordHash : Bytes) : SqlProg Bool := do
  let sql := Stmt.insertUser (cStr username) (cStr passwordHash)
  if !(← prepare sql) then return false
  else
    let rc ← step sql
    return rc == .done

/-- Whether a row was deleted is asked of the connection after the statement is over. -/
def deleteUser (username passwordHash : Bytes) : SqlProg Bool := do
  let sql := Stmt.deleteUser (cStr username) (cStr passwordHash)
  if !(← prepare sql) then return false
  else if (← step sql) != .done then return false
  else
    let changed ← changes
    return decide (changed > 0)

def getUserPasswordHash (username : Bytes) : SqlProg Bytes := do
  let sql := Stmt.selectPasswordHash (cStr username)
  if !(← prepare sql) then return []
  else
    match ← step sql with
    | .row r => return cStr (r.columnText 0)
    | _ => return []

def userExists (username : Bytes) : SqlProg Bool := do
  let hash ← getUserPasswordHash username
  return !hash.isEmpty

def getUserID (username : Bytes) : SqlProg Int := do
  let sql := Stmt.selectUserID (cStr username)
  if !(← prepare sql) then return -1
  else
    match ← step sql with
    | .row r => return r.columnInt 0
    | _ => return -1

end UserRepository

namespace ChatRepository

def findUsers (query : Bytes) (excludeUserID : Int) : SqlProg (List Bytes) := do
  let sql := Stmt.findUsers (cStr (query ++ [37])) excludeUserID
  if !(← prepare sql) then return []
  else
    let found ← rows sql
    return found.map fun r => cStr (r.columnText 0)

/-- The loop over the two members; a failure rolls the transaction back. -/
def insertMembers (chatID : Int) : List Int → SqlProg Bool
  | [] => return true
  | userID :: rest => do
    let sql := Stmt.insertMember chatID userID
    if !(← prepare sql) then
      let _ ← exec .rollback
      return false
    else if (← step sql) != .done then
      let _ ← exec .rollback
      return false
    else insertMembers chatID rest

/-- `findOrCreateDirectChat` once the lookup has found nothing. -/
def createDirectChat (user1ID user2ID : Int) : SqlProg Int := do
  if !(← exec .begin) then return -1
  else if !(← exec .insertChat) then
    let _ ← exec .rollback
    return -1
  else
    let chatID := toInt32 (← lastInsertRowid)
    if !(← insertMembers chatID [user1ID, user2ID]) then return -1
    else if !(← exec .commit) then
      let _ ← exec .rollback
      return -1
    else return chatID

def findOrCreateDirectChat (user1ID user2ID : Int) : SqlProg Int := do
  let findSql := Stmt.findDirectChat user1ID user2ID
  if !(← prepare findSql) then return -1
  else
    let chatID := match ← step findSql with
      | .row r => r.columnInt 0
      | _ => -1
    if chatID != -1 then return chatID
    else createDirectChat user1ID user2ID

def getUserChats (userID : Int) : SqlProg (List ChatListEntry) := do
  let sql := Stmt.userChats userID
  if !(← prepare sql) then return []
  else
    let found ← rows sql
    return found.map fun r => ⟨UInt32.ofInt (r.columnInt 0), cStr (r.columnText 1)⟩

/-- `static_cast<int>` of a 32-bit chat id. -/
def toInt (chatID : UInt32) : Int := chatID.toBitVec.toInt

def getChatMemberIDs (chatID : UInt32) : SqlProg (List Int) := do
  let sql := Stmt.chatMemberIDs (toInt chatID)
  if !(← prepare sql) then return []
  else
    let found ← rows sql
    return found.map (·.columnInt 0)

end ChatRepository

namespace MessageRepository

def saveMessage (chatID : UInt32) (senderID : Int) (text : Bytes) : SqlProg Bool := do
  let sql := Stmt.insertMessage (ChatRepository.toInt chatID) senderID (cStr text)
  if !(← prepare sql) then return false
  else
    let rc ← step sql
    return rc == .done

end MessageRepository

/-- The methods of the repository interfaces that the services call. -/
inductive RepoOp where
  | userExists (username : Bytes)
  | addUser (username passwordHash : Bytes)
  | deleteUser (username passwordHash : Bytes)
  | getUserPasswordHash (username : Bytes)
  | getUserID (username : Bytes)
  | findUsers (query : Bytes) (excludeUserID : Int)
  | findOrCreateDirectChat (user1ID user2ID : Int)
  | getUserChats (userID : Int)
  | getChatMemberIDs (chatID : UInt32)
  | saveMessage (chatID : UInt32) (senderID : Int) (text : Bytes)
  deriving DecidableEq, Repr

@[reducible] def RepoOp.Res : RepoOp → Type
  | userExists _ | addUser _ _ | deleteUser _ _ | saveMessage _ _ _ => Bool
  | getUserPasswordHash _ => Bytes
  | getUserID _ | findOrCreateDirectChat _ _ => Int
  | findUsers _ _ => List Bytes
  | getUserChats _ => List ChatListEntry
  | getChatMemberIDs _ => List Int

def RepoOp.writesUsers : RepoOp → Bool
  | addUser _ _ | deleteUser _ _ => true
  | _ => false

def RepoOp.prog : (o : RepoOp) → SqlProg o.Res
  | userExists username => UserRepository.userExists username
  | addUser username passwordHash => UserRepository.addUser username passwordHash
  | deleteUser username passwordHash => UserRepository.deleteUser username passwordHash
  | getUserPasswordHash username => UserRepository.getUserPasswordHash username
  | getUserID username => UserRepository.getUserID username
  | findUsers query excludeUserID => ChatRepository.findUsers query excludeUserID
  | findOrCreateDirectChat user1ID user2ID => ChatRepository.findOrCreateDirectChat user1ID user2ID
  | getUserChats userID => ChatRepository.getUserChats userID
  | getChatMemberIDs chatID => ChatRepository.getChatMemberIDs chatID
  | saveMessage chatID senderID text => MessageRepository.saveMessage chatID senderID text

/-- A repository method as one atomic step: its calls executed one after another. -/
def RepoOp.exec (o : RepoOp) (c : Conn) : o.Res × Conn := o.prog.run Conn.call c

/-! The sqlite3 calls of a method that runs alone. -/

namespace Conn

variable {α : Type} (sql : Stmt) (c : Conn)

@[simp] theorem prepare_run (f : Bool → SqlProg α) :
    (Sqlite3.prepare sql >>= f).run Conn.call c = (f true).run Conn.call c := rfl

@[simp] theorem step_run (f : StepResult → SqlProg α) :
    (Sqlite3.step sql >>= f).run Conn.call c =
      (f (c.stepStmt sql).1).run Conn.call (c.stepStmt sql).2 := rfl

@[simp] theorem rows_run (f : List Row → SqlProg α) :
    (Sqlite3.rows sql >>= f).run Conn.call c = (f (c.tables.query sql)).run Conn.call c := rfl

end Conn

namespace RepoOp

variable (c : Conn)

/-- The id of the first row with the name, as an `int`. -/
theorem getUserID_exec (username : Bytes) :
    (getUserID username).exec c =
      (((c.tables.users.find? (·.username == cStr username)).map fun u =>
        toInt32 u.id).getD (-1), c) := by
  simp only [exec, prog, UserRepository.getUserID, Conn.prepare_run, Bool.not_true,
    Bool.false_eq_true, if_false, Conn.step_run, Conn.stepStmt, Stmt.isQuery, if_true, Tables.query,
    ← List.head?_filter]
  cases c.tables.users.filter (·.username == cStr username) with
  | nil => rfl
  | cons u rest => rfl

/-- The hash of the first row with the name. -/
theorem getUserPasswordHash_exec (username : Bytes) :
    (getUserPasswordHash username).exec c =
      (((c.tables.users.find? (·.username == cStr username)).map
        fun u => cStr u.passwordHash).getD [], c) := by
  simp only [exec, prog, UserRepository.getUserPasswordHash, Conn.prepare_run, Bool.not_true,
    Bool.false_eq_true, if_false, Conn.step_run, Conn.stepStmt, Stmt.isQuery, if_true, Tables.query,
    ← List.head?_filter]
  cases c.tables.users.filter (·.username == cStr username) with
  | nil => rfl
  | cons u rest => rfl

theorem userExists_exec (username : Bytes) :
    (userExists username).exec c =
      (!((getUserPasswordHash username).exec c).1.isEmpty,
        ((getUserPasswordHash username).exec c).2) := by
  simp only [exec, prog, UserRepository.userExists, Prog.run_bind]
  rfl

/-- A row is added unless there is one with the name. -/
theorem addUser_exec (username passwordHash : Bytes) :
    (addUser username passwordHash).exec c =
      if c.tables.users.any (·.username == cStr username) then (false, { c with changes := 0 })
      else (true, c.inserted { c.tables with
        users := c.tables.users ++ [⟨c.tables.userSeq + 1, cStr username, cStr passwordHash⟩]
        userSeq := c.tables.userSeq + 1 } (c.tables.userSeq + 1)) := by
  simp only [exec, prog, UserRepository.addUser, Conn.prepare_run, Bool.not_true,
    Bool.false_eq_true, if_false, Conn.step_run, Conn.stepStmt, Stmt.isQuery, Conn.write]
  by_cases taken : c.tables.users.any (·.username == cStr username) = true
  · simp only [taken, if_true]
    rfl
  · simp only [taken]
    rfl

theorem getChatMemberIDs_exec (chatID : UInt32) :
    (getChatMemberIDs chatID).exec c =
      ((c.tables.membersOf (ChatRepository.toInt chatID)).map toInt32, c) := by
  simp only [exec, prog, ChatRepository.getChatMemberIDs, Conn.prepare_run, Bool.not_true,
    Bool.false_eq_true, if_false, Conn.rows_run, Tables.query]
  simp [Row.columnInt, Function.comp_def]

theorem getUserChats_exec (userID : Int) :
    ((getUserChats userID).exec c).1 = (c.tables.query (.userChats userID)).map fun r =>
      ⟨UInt32.ofInt (r.columnInt 0), cStr (r.columnText 1)⟩ := by
  simp only [exec, prog, ChatRepository.getUserChats, Conn.prepare_run, Bool.not_true,
    Bool.false_eq_true, if_false, Conn.rows_run, Prog.pure_eq, Prog.run_done]

theorem saveMessage_exec (chatID : UInt32) (senderID : Int) (text : Bytes) :
    (saveMessage chatID senderID text).exec c =
      (true, c.inserted { c.tables with
        messages := c.tables.messages ++
          [⟨c.tables.messageSeq + 1, ChatRepository.toInt chatID, senderID, cStr text⟩]
        messageSeq := c.tables.messageSeq + 1 } (c.tables.messageSeq + 1)) := rfl

end RepoOp

end Cvcn
