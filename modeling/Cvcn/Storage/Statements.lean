import Cvcn.Storage.Repositories

/-!
# The statements of the repositories

Which statements each method may execute, whatever the database answers it. What a kind of
statement keeps, the methods that execute only such statements keep.
-/

namespace Cvcn

open Atomic Sqlite3

/-- The statements that a method may execute. -/
def RepoOp.Executes : RepoOp → Stmt → Prop
  | addUser username passwordHash, sql => sql = .insertUser (cStr username) (cStr passwordHash)
  | deleteUser username passwordHash, sql => sql = .deleteUser (cStr username) (cStr passwordHash)
  | saveMessage chatID senderID text, sql =>
    sql = .insertMessage (ChatRepository.toInt chatID) senderID (cStr text)
  | findOrCreateDirectChat user1ID user2ID, sql =>
    match sql with
    | .begin | .insertChat | .commit | .rollback => True
    | .insertMember _ userID => userID = user1ID ∨ userID = user2ID
    | sql => sql.isQuery = true
  | _, sql => sql.isQuery = true

/-- The statement that a sqlite3 call executes. -/
def SqlOp.statement : SqlOp → Option Stmt
  | step sql | exec sql => some sql
  | _ => none

/-- Only the method that makes chats asks for the rowid of the last insert. -/
def RepoOp.Performs (o : RepoOp) : SqlOp → Prop
  | .prepare _ | .rows _ | .changes => True
  | .step sql | .exec sql => o.Executes sql
  | .lastInsertRowid => ∃ user1ID user2ID, o = findOrCreateDirectChat user1ID user2ID

theorem RepoOp.Performs.executes {o : RepoOp} {op : SqlOp} (h : o.Performs op) {sql : Stmt}
    (hs : op.statement = some sql) : o.Executes sql := by
  cases op with
  | step | exec =>
    cases hs
    exact h
  | _ => cases hs

namespace RepoOp.Executes

variable {o : RepoOp}

theorem saveMessage {chatID senderID : Int} {text : Bytes}
    (h : o.Executes (.insertMessage chatID senderID text)) :
    ∃ id sender words, o = .saveMessage id sender words := by
  cases o with
  | saveMessage id sender words => exact ⟨id, sender, words, rfl⟩
  | _ => cases h

theorem addUser {username passwordHash : Bytes}
    (h : o.Executes (.insertUser username passwordHash)) :
    ∃ name hash, o = .addUser name hash := by
  cases o with
  | addUser name hash => exact ⟨name, hash, rfl⟩
  | _ => cases h

theorem insertMember {chatID userID : Int} (h : o.Executes (.insertMember chatID userID)) :
    ∃ a b, o = .findOrCreateDirectChat a b ∧ (userID = a ∨ userID = b) := by
  cases o with
  | findOrCreateDirectChat a b => exact ⟨a, b, rfl, h⟩
  | _ => cases h

theorem deleteUser {username passwordHash : Bytes}
    (h : o.Executes (.deleteUser username passwordHash)) :
    ∃ name hash, o = .deleteUser name hash := by
  cases o with
  | deleteUser name hash => exact ⟨name, hash, rfl⟩
  | _ => cases h

end RepoOp.Executes

namespace SqlProg

variable {α : Type} {ok : SqlOp → Prop}

theorem only_prepare {sql : Stmt} {failed : α} {p : SqlProg α} (may : ok (.prepare sql))
    (h : p.Only ok) : (do if !(← prepare sql) then return failed else p : SqlProg α).Only ok := by
  apply Prog.Only.call_bind may
  intro prepared
  split
  · exact Prog.only_done _
  · exact h

theorem getUserPasswordHash_only {username : Bytes} (prepares : ∀ sql, ok (.prepare sql))
    (queries : ∀ sql, sql.isQuery = true → ok (.step sql)) :
    (UserRepository.getUserPasswordHash username).Only ok := by
  apply only_prepare (prepares _)
  apply Prog.Only.call_bind (queries _ rfl)
  intro r
  split <;> exact Prog.only_done _

section Chats

variable {user1ID user2ID : Int}

/-- A result after a rollback. -/
theorem undo_only (result : α) :
    (do let _ ← exec .rollback; return result : SqlProg α).Only
      (RepoOp.findOrCreateDirectChat user1ID user2ID).Performs :=
  Prog.Only.call_bind trivial fun _ => Prog.only_done _

theorem insertMembers_only (chatID : Int) {userIDs : List Int}
    (both : ∀ userID ∈ userIDs, userID = user1ID ∨ userID = user2ID) :
    (ChatRepository.insertMembers chatID userIDs).Only
      (RepoOp.findOrCreateDirectChat user1ID user2ID).Performs := by
  induction userIDs with
  | nil => exact Prog.only_done true
  | cons userID rest ih =>
    unfold ChatRepository.insertMembers
    apply Prog.Only.call_bind trivial
    intro prepared
    split
    · exact undo_only false
    · refine Prog.Only.call_bind (both userID List.mem_cons_self) fun rc => ?_
      split
      · exact undo_only false
      · exact ih fun u hu => both u (List.mem_cons_of_mem userID hu)

theorem createDirectChat_only :
    (ChatRepository.createDirectChat user1ID user2ID).Only
      (RepoOp.findOrCreateDirectChat user1ID user2ID).Performs := by
  unfold ChatRepository.createDirectChat
  apply Prog.Only.call_bind trivial
  intro began
  split
  · exact Prog.only_done _
  · apply Prog.Only.call_bind trivial
    intro inserted
    split
    · exact undo_only _
    · apply Prog.Only.call_bind ⟨user1ID, user2ID, rfl⟩
      intro rowid
      apply Prog.Only.bind (insertMembers_only (toInt32 rowid) (by simp))
      intro joined
      split
      · exact Prog.only_done _
      · apply Prog.Only.call_bind trivial
        intro committed
        split
        · exact undo_only _
        · exact Prog.only_done _

end Chats

end SqlProg

open SqlProg in
/-- A method performs its own calls only. -/
theorem RepoOp.prog_only (o : RepoOp) : o.prog.Only o.Performs := by
  cases o with
  | userExists username =>
    apply Prog.Only.bind (getUserPasswordHash_only (fun _ => trivial) fun _ query => query)
    exact fun _ => Prog.only_done _
  | addUser | saveMessage =>
    apply only_prepare trivial
    exact Prog.Only.call_bind rfl fun _ => Prog.only_done _
  | deleteUser username passwordHash =>
    apply only_prepare trivial
    refine Prog.Only.call_bind rfl fun rc => ?_
    split
    · exact Prog.only_done _
    · exact Prog.Only.call_bind trivial fun _ => Prog.only_done _
  | getUserPasswordHash username =>
    exact getUserPasswordHash_only (fun _ => trivial) fun _ query => query
  | getUserID username =>
    apply only_prepare trivial
    refine Prog.Only.call_bind rfl fun r => ?_
    split <;> exact Prog.only_done _
  | findUsers | getUserChats | getChatMemberIDs =>
    apply only_prepare trivial
    exact Prog.Only.call_bind trivial fun _ => Prog.only_done _
  | findOrCreateDirectChat user1ID user2ID =>
    apply only_prepare trivial
    refine Prog.Only.call_bind rfl fun r => ?_
    dsimp only
    split
    · split
      · exact Prog.only_done _
      · exact createDirectChat_only
    · exact createDirectChat_only

/-! ## The users, as long as a method runs alone -/

/-- The rows of the users are the same, and no transaction is open. -/
structure Conn.SameRows (c c' : Conn) : Prop where
  users : c'.tables.users = c.tables.users
  userSeq : c'.tables.userSeq = c.tables.userSeq
  closed : c'.saved = none

theorem Conn.SameRows.refl {c : Conn} (closed : c.saved = none) : c.SameRows c := ⟨rfl, rfl, closed⟩

theorem Conn.SameRows.trans {c c' c'' : Conn} (h : c.SameRows c') (h' : c'.SameRows c'') :
    c.SameRows c'' :=
  ⟨h'.users.trans h.users, h'.userSeq.trans h.userSeq, h'.closed⟩

section

variable {c : Conn} (closed : c.saved = none)
include closed

/-- The transaction ends with a commit, or with the rollback after a member that is there. -/
theorem ChatRepository.createDirectChat_sameRows (a b : Int) :
    c.SameRows ((createDirectChat a b).run Conn.call c).2 := by
  by_cases first : (⟨toInt32 (c.tables.chatSeq + 1), a⟩ : MemberRow) ∈ c.tables.chatMembers
  · constructor <;>
      simp [createDirectChat, insertMembers, Sqlite3.prepare, Sqlite3.step, Sqlite3.exec,
        Sqlite3.lastInsertRowid, Prog.call, Conn.call, Conn.stepStmt, Stmt.isQuery, Conn.write,
        Conn.inserted, Conn.failed, Stmt.counts, closed, first]
  · by_cases second :
        (⟨toInt32 (c.tables.chatSeq + 1), b⟩ : MemberRow) ∈ c.tables.chatMembers ∨ b = a
    · constructor <;>
        simp [createDirectChat, insertMembers, Sqlite3.prepare, Sqlite3.step, Sqlite3.exec,
          Sqlite3.lastInsertRowid, Prog.call, Conn.call, Conn.stepStmt, Stmt.isQuery, Conn.write,
          Conn.inserted, Conn.failed, Stmt.counts, closed, first, second]
    · constructor <;>
        simp [createDirectChat, insertMembers, Sqlite3.prepare, Sqlite3.step, Sqlite3.exec,
          Sqlite3.lastInsertRowid, Prog.call, Conn.call, Conn.stepStmt, Stmt.isQuery, Conn.write,
          Conn.inserted, closed, first, second]

theorem ChatRepository.findOrCreateDirectChat_sameRows (a b : Int) :
    c.SameRows ((findOrCreateDirectChat a b).run Conn.call c).2 := by
  have lookup : (c.stepStmt (.findDirectChat a b)).2 = c := by
    simp only [Conn.stepStmt, Stmt.isQuery, if_true]
    split <;> rfl
  simp only [findOrCreateDirectChat, Conn.prepare_run, Conn.step_run, lookup, Bool.not_true,
    Bool.false_eq_true, if_false]
  split
  · split
    · exact .refl closed
    · exact createDirectChat_sameRows closed a b
  · exact createDirectChat_sameRows closed a b

theorem RepoOp.exec_sameRows {o : RepoOp} (reads : o.writesUsers = false) :
    c.SameRows (o.exec c).2 := by
  cases o with
  | addUser | deleteUser => cases reads
  | userExists username =>
    rw [userExists_exec, getUserPasswordHash_exec]
    exact .refl closed
  | getUserPasswordHash username =>
    rw [getUserPasswordHash_exec]
    exact .refl closed
  | getUserID username =>
    rw [getUserID_exec]
    exact .refl closed
  | findUsers | getUserChats | getChatMemberIDs => exact .refl closed
  | findOrCreateDirectChat a b => exact ChatRepository.findOrCreateDirectChat_sameRows closed a b
  | saveMessage => exact ⟨rfl, rfl, closed⟩

end

end Cvcn
