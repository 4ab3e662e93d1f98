import Mathlib.Algebra.Group.Int.Defs
import Mathlib.Data.List.Sort
import Cvcn.Bytes
import Cvcn.Lib.Prog

/-!
# The database connection

The tables of `Database::createTables`, the statements the repositories prepare or
execute, and the sqlite3 calls they make on the one connection they all share. Ids come
from `AUTOINCREMENT` and are never used twice; the columns `created_at` and `chats.name`,
which nothing reads, are left out. A query answers in the order of the rowids, and the members of
a chat come in the order of the primary key that they are looked up by. Row ids have 64 bits in
the tables and 32 in the code.
-/

namespace Cvcn

open Atomic

structure UserRow where
  id : Int
  username : Bytes
  passwordHash : Bytes
  deriving DecidableEq, Repr

structure ChatRow where
  id : Int
  isGroup : Bool
  deriving DecidableEq, Repr

structure MemberRow where
  chatID : Int
  userID : Int
  deriving DecidableEq, Repr

structure MessageRow where
  id : Int
  chatID : Int
  senderID : Int
  text : Bytes
  deriving DecidableEq, Repr

/-- The four tables, and for three of them the last id given out (`sqlite_sequence`). -/
structure Tables where
  users : List UserRow := []
  chats : List ChatRow := []
  chatMembers : List MemberRow := []
  messages : List MessageRow := []
  userSeq : Int := 0
  chatSeq : Int := 0
  messageSeq : Int := 0
  deriving DecidableEq, Repr

/-- The SQL texts of the repositories with their bound parameters. -/
inductive Stmt where
  | insertUser (username passwordHash : Bytes)
  | deleteUser (username passwordHash : Bytes)
  | selectPasswordHash (username : Bytes)
  | selectUserID (username : Bytes)
  | findUsers (pattern : Bytes) (excludeUserID : Int)
  | findDirectChat (user1ID user2ID : Int)
  | insertChat
  | insertMember (chatID userID : Int)
  | userChats (userID : Int)
  | chatMemberIDs (chatID : Int)
  | insertMessage (chatID senderID : Int) (text : Bytes)
  | begin
  | commit
  | rollback
  deriving DecidableEq, Repr

inductive Value where
  | int (v : Int)
  | text (v : Bytes)
  deriving DecidableEq, Repr

abbrev Row := List Value

/-- The low 32 bits: `static_cast<int>` of a rowid. -/
def toInt32 (v : Int) : Int := (BitVec.ofInt 32 v).toInt

theorem toInt32_of_range {v : Int} (low : -2 ^ 31 ≤ v) (high : v < 2 ^ 31) : toInt32 v = v := by
  rw [toInt32, BitVec.toInt_ofInt]
  apply Int.bmod_eq_of_le <;> omega

/-- A value of the type `int`. -/
def IsInt (v : Int) : Prop := -2 ^ 31 ≤ v ∧ v < 2 ^ 31

instance (v : Int) : Decidable (IsInt v) := inferInstanceAs (Decidable (_ ∧ _))

theorem IsInt.toInt32_eq {v : Int} (h : IsInt v) : toInt32 v = v := toInt32_of_range h.1 h.2

/-- `sqlite3_column_int`. -/
def Row.columnInt (r : Row) (i : Nat) : Int :=
  match r[i]? with
  | some (.int v) => toInt32 v
  | _ => 0

def Row.columnText (r : Row) (i : Nat) : Bytes :=
  match r[i]? with
  | some (.text v) => v
  | _ => []

/-- Letters of ASCII in lower case, other bytes unchanged. -/
def foldCase (b : UInt8) : UInt8 := if 65 ≤ b ∧ b ≤ 90 then b + 32 else b

/-- `LIKE` on bytes: `%` (37) stands for any string, `_` (95) for any one character. -/
def like : Bytes → Bytes → Bool
  | [], s => s.isEmpty
  | c :: pattern, s =>
    if c = 37 then s.tails.any (like pattern)
    else match s with
      | [] => false
      | d :: s => (c == 95 || foldCase c == foldCase d) && like pattern s

namespace Tables

/-- `SELECT user_id FROM chat_members WHERE chat_id = ?`, as the primary key orders them. -/
def membersOf (t : Tables) (chatID : Int) : List Int :=
  ((t.chatMembers.filter (·.chatID == chatID)).map (·.userID)).insertionSort (· ≤ ·)

/-- `is_group = 0`, exactly two members, and both users among them. -/
def isDirectChat (t : Tables) (user1ID user2ID : Int) (c : ChatRow) : Bool :=
  t.chatMembers.contains ⟨c.id, user1ID⟩ && t.chatMembers.contains ⟨c.id, user2ID⟩ &&
  !c.isGroup && (t.membersOf c.id).length == 2

/-- The direct chats of a pair of users: the joins of the find query, without its limit. -/
def directChats (t : Tables) (user1ID user2ID : Int) : List ChatRow :=
  t.chats.filter (t.isDirectChat user1ID user2ID)

/-- The rows of a query, in order. -/
def query (t : Tables) : Stmt → List Row
  | .selectPasswordHash username =>
    (t.users.filter (·.username == username)).map fun u => [.text u.passwordHash]
  | .selectUserID username => (t.users.filter (·.username == username)).map fun u => [.int u.id]
  | .findUsers pattern excludeUserID =>
    let found := t.users.filter fun u => like pattern u.username && u.id != excludeUserID
    (((found.map (·.username)).insertionSort (· ≤ ·)).take 20).map fun name => [.text name]
  | .findDirectChat user1ID user2ID =>
    ((t.directChats user1ID user2ID).take 1).map fun c => [.int c.id]
  | .userChats userID =>
    let joined := t.chats.flatMap fun c =>
      ((t.membersOf c.id).filter (· != userID)).flatMap
        fun other => (t.users.filter (·.id == other)).filterMap fun u =>
          if t.chatMembers.contains ⟨c.id, userID⟩ && !c.isGroup then some (c.id, u.username)
          else none
    (joined.insertionSort (fun x y => x.1 ≥ y.1)).map fun x => [.int x.1, .text x.2]
  | .chatMemberIDs chatID => (t.membersOf chatID).map fun u => [.int u]
  | _ => []

end Tables

/-- The connection: what its statements see, the tables at `BEGIN` while a transaction is
open, and the two values that the last statement of anyone leaves behind. -/
structure Conn where
  tables : Tables := {}
  saved : Option Tables := none
  lastInsertRowid : Int := 0
  changes : Nat := 0
  deriving DecidableEq, Repr

namespace Conn

def inserted (c : Conn) (t : Tables) (rowid : Int) : Conn :=
  { c with tables := t, lastInsertRowid := rowid, changes := 1 }

/-- A statement that is not a query; `none` when a constraint or the state of the
transaction rejects it. -/
def write (c : Conn) : Stmt → Option Conn
  | .insertUser username passwordHash =>
    let t := c.tables
    if t.users.any (·.username == username) then none
    else
      let id := t.userSeq + 1
      some (c.inserted
        { t with users := t.users ++ [⟨id, username, passwordHash⟩], userSeq := id } id)
  | .deleteUser username passwordHash =>
    let t := c.tables
    let hit := fun u : UserRow => u.username == username && u.passwordHash == passwordHash
    some { c with
      tables := { t with users := t.users.filter (!hit ·) }
      changes := t.users.countP hit }
  | .insertChat =>
    let t := c.tables
    let id := t.chatSeq + 1
    some (c.inserted { t with chats := t.chats ++ [⟨id, false⟩], chatSeq := id } id)
  | .insertMember chatID userID =>
    let t := c.tables
    if t.chatMembers.contains ⟨chatID, userID⟩ then none
    else
      let members := t.chatMembers ++ [⟨chatID, userID⟩]
      some (c.inserted { t with chatMembers := members } members.length)
  | .insertMessage chatID senderID text =>
    let t := c.tables
    let id := t.messageSeq + 1
    some (c.inserted { t with messages := t.messages ++ [⟨id, chatID, senderID, text⟩],
                              messageSeq := id } id)
  | .begin => if c.saved.isSome then none else some { c with saved := some c.tables }
  | .commit => if c.saved.isSome then some { c with saved := none } else none
  | .rollback =>
    match c.saved with
    | some t => some { c with tables := t, saved := none }
    | none => none
  | _ => some c

end Conn

/-- The statement leaves a row count behind. -/
def Stmt.counts : Stmt → Bool
  | insertUser _ _ | deleteUser _ _ | insertChat | insertMember _ _ | insertMessage _ _ _ => true
  | _ => false

/-- A statement that fails has changed no row, and says so. -/
def Conn.failed (c : Conn) (sql : Stmt) : Conn := if sql.counts then { c with changes := 0 } else c

@[simp] theorem Conn.failed_tables (c : Conn) (sql : Stmt) :
    (c.failed sql).tables = c.tables := by
  unfold failed
  split <;> rfl

@[simp] theorem Conn.failed_saved (c : Conn) (sql : Stmt) : (c.failed sql).saved = c.saved := by
  unfold failed
  split <;> rfl

inductive StepResult where
  | row (r : Row)
  | done
  | error
  deriving DecidableEq, Repr

/-- The sqlite3 calls: `prepare` and `exec` say whether they returned `SQLITE_OK`; `step` is
the first `sqlite3_step` of a prepared and bound statement, and `rows` is the loop that
steps a query as long as it answers `SQLITE_ROW`. -/
inductive SqlOp where
  | prepare (sql : Stmt)
  | step (sql : Stmt)
  | rows (sql : Stmt)
  | exec (sql : Stmt)
  | lastInsertRowid
  | changes
  deriving DecidableEq, Repr

@[reducible] def SqlOp.Res : SqlOp → Type
  | prepare _ => Bool
  | step _ => StepResult
  | rows _ => List Row
  | exec _ => Bool
  | lastInsertRowid => Int
  | changes => Nat

abbrev SqlProg := Prog SqlOp SqlOp.Res

namespace Sqlite3

def prepare (sql : Stmt) : SqlProg Bool := Prog.call (SqlOp.prepare sql)
def step (sql : Stmt) : SqlProg StepResult := Prog.call (SqlOp.step sql)
def rows (sql : Stmt) : SqlProg (List Row) := Prog.call (SqlOp.rows sql)
def exec (sql : Stmt) : SqlProg Bool := Prog.call (SqlOp.exec sql)
def lastInsertRowid : SqlProg Int := Prog.call SqlOp.lastInsertRowid
def changes : SqlProg Nat := Prog.call SqlOp.changes

end Sqlite3

def Stmt.isQuery : Stmt → Bool
  | selectPasswordHash _ | selectUserID _ | findUsers _ _ | findDirectChat _ _ | userChats _
  | chatMemberIDs _ => true
  | _ => false

namespace Conn

/-- One step of a statement: the first row of a query, or the whole effect of a write. -/
def stepStmt (c : Conn) (sql : Stmt) : StepResult × Conn :=
  if sql.isQuery then
    match c.tables.query sql with
    | r :: _ => (.row r, c)
    | [] => (.done, c)
  else match c.write sql with
    | some c' => (.done, c')
    | none => (.error, c.failed sql)

/-- A sqlite3 call, executed at once; nothing fails but what a constraint or the state of
the transaction rejects. -/
def call : (o : SqlOp) → Conn → o.Res × Conn
  | .prepare _, c => (true, c)
  | .step sql, c => c.stepStmt sql
  | .rows sql, c => (c.tables.query sql, c)
  | .exec sql, c =>
    match c.write sql with
    | some c' => (true, c')
    | none => (false, c.failed sql)
  | .lastInsertRowid, c => (c.lastInsertRowid, c)
  | .changes, c => (c.changes, c)

end Conn

end Cvcn
