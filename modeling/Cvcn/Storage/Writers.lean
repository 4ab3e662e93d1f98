import Cvcn.Storage.DirectChat
import Cvcn.Storage.Statements

/-!
# Repository calls beside each other

Any number of repository calls on the one connection, each sqlite3 call an atomic step that
may also fail. A failure changes no row, and leaves a transaction open that is open: that sqlite
may roll one back by itself is left to `Transactions`. Three things are observed of a run: the row
of `chats` that each call has inserted, and the rows of `messages` and of `users` whose insert has
been acknowledged, a user's until a matching delete.
-/

namespace Cvcn

open Atomic Machine

/-- What a sqlite3 call answers that fails; the two that ask the connection cannot. -/
def SqlOp.failure : (o : SqlOp) → Conn → o.Res
  | prepare _, _ => false
  | step _, _ => .error
  | rows _, _ => []
  | exec _, _ => false
  | lastInsertRowid, c => c.lastInsertRowid
  | changes, c => c.changes

/-- The connection after a call that fails. -/
def SqlOp.failed (o : SqlOp) (c : Conn) : Conn := (o.statement.map c.failed).getD c

section

variable (o : SqlOp) (c : Conn)

@[simp] theorem SqlOp.failed_tables : (o.failed c).tables = c.tables := by
  unfold failed
  cases o.statement with
  | none => rfl
  | some sql => exact c.failed_tables sql

@[simp] theorem SqlOp.failed_saved : (o.failed c).saved = c.saved := by
  unfold failed
  cases o.statement with
  | none => rfl
  | some sql => exact c.failed_saved sql

end

def Conn.attempt (fails : Bool) (o : SqlOp) (c : Conn) : o.Res × Conn :=
  if fails then (o.failure c, o.failed c) else Conn.call o c

/-- A sqlite3 call executes its statement, or fails. -/
theorem Conn.attempt_cases (fails : Bool) (o : SqlOp) (c : Conn) :
    ((c.attempt fails o).2 = o.failed c ∧
      (fails = false → ∀ sql, o.statement = some sql → c.write sql = none)) ∨
    (fails = false ∧ ∃ sql, o.statement = some sql ∧
      c.write sql = some (c.attempt fails o).2) := by
  cases fails with
  | true =>
    left
    exact ⟨rfl, by simp⟩
  | false =>
    cases o with
    | step sql =>
      simp only [attempt, call, stepStmt, Bool.false_eq_true, if_false]
      split
      · rename_i query
        have reads : c.write sql = some c := by cases sql <;> first | rfl | cases query
        refine .inr ⟨trivial, sql, rfl, ?_⟩
        split <;> exact reads
      · split
        · rename_i hw
          exact .inr ⟨trivial, sql, rfl, hw⟩
        · rename_i rejected
          refine .inl ⟨rfl, fun _ stmt executed => ?_⟩
          cases executed
          exact rejected
    | exec sql =>
      simp only [attempt, call, Bool.false_eq_true, if_false]
      split
      · rename_i hw
        exact .inr ⟨trivial, sql, rfl, hw⟩
      · rename_i rejected
        refine .inl ⟨rfl, fun _ stmt executed => ?_⟩
        cases executed
        exact rejected
    | _ =>
      left
      exact ⟨rfl, by simp [SqlOp.statement]⟩

namespace Writers

/-- A call, what is left of its program, and the row of `chats` that it has inserted. -/
structure Call where
  op : RepoOp
  rest : SqlProg op.Res
  chatRow : Option Int := none

structure State where
  conn : Conn
  calls : List Call := []
  savedMessages : List MessageRow := []
  addedUsers : List UserRow := []

inductive Action where
  | call (o : RepoOp)
  | step (i : Nat) (fails : Bool)

/-- The message that a call has just confirmed. -/
def Call.saves (c : Conn) : Call → List MessageRow
  | ⟨.saveMessage chatID senderID text, .done true, _⟩ =>
    [⟨c.lastInsertRowid, ChatRepository.toInt chatID, senderID, cStr text⟩]
  | _ => []

/-- The user that a call has just confirmed. -/
def Call.adds (c : Conn) : Call → List UserRow
  | ⟨.addUser username passwordHash, .done true, _⟩ =>
    [⟨c.lastInsertRowid, cStr username, cStr passwordHash⟩]
  | _ => []

def deletes (o : SqlOp) (u : UserRow) : Bool :=
  match o.statement with
  | some (.deleteUser username passwordHash) =>
    u.username == username && u.passwordHash == passwordHash
  | _ => false

/-- The row of `chats` that a call has inserted once it has executed `sql`. -/
def madeRow (fails : Bool) (sql : SqlOp) (c : Conn) (chatRow : Option Int) : Option Int :=
  if !fails && sql == .exec .insertChat then some c.lastInsertRowid else chatRow

/-- The users who are confirmed still when a call has executed `sql`. -/
def State.remaining (s : State) (fails : Bool) (sql : SqlOp) : List UserRow :=
  if fails then s.addedUsers else s.addedUsers.filter fun u => !deletes sql u

/-- Call `i` has executed `sql` and is now `k`. -/
def State.after (s : State) (i : Nat) (fails : Bool) (sql : SqlOp) (k : Call) (conn : Conn) :
    State where
  conn := conn
  calls := s.calls.set i k
  savedMessages := s.savedMessages ++ k.saves conn
  addedUsers := s.remaining fails sql ++ k.adds conn

def step (s : State) : Action → Option State
  | .call o => some { s with calls := s.calls ++ [⟨o, o.prog, none⟩] }
  | .step i fails =>
    match s.calls[i]? with
    | some ⟨o, .op sql rest, chatRow⟩ =>
      let (answer, conn) := s.conn.attempt fails sql
      some (s.after i fails sql ⟨o, rest answer, madeRow fails sql conn chatRow⟩ conn)
    | _ => none

/-- All that a step can do. -/
inductive Next (s : State) : Action → State → Prop where
  | call (o : RepoOp) : Next s (.call o) { s with calls := s.calls ++ [⟨o, o.prog, none⟩] }
  | step (i : Nat) (fails : Bool) (k : Call) (sql : SqlOp) (rest : SqlProg k.op.Res) (conn : Conn)
    (here : s.calls[i]? = some k) (first : k.rest.first = some sql)
    (left : (s.conn.attempt fails sql).2 = conn)
    (moves : k.rest.next (Conn.attempt fails) s.conn = some (rest, conn)) :
    Next s (.step i fails)
      (s.after i fails sql ⟨k.op, rest, madeRow fails sql conn k.chatRow⟩ conn)

theorem next_cases {s t : State} {a : Action} (h : step s a = some t) : Next s a t := by
  cases a with
  | call o =>
    cases h
    exact .call o
  | step i fails =>
    simp only [step] at h
    split at h
    · rename_i o sql rest chatRow here
      cases h
      exact .step i fails ⟨o, .op sql rest, chatRow⟩ sql _ _ here rfl rfl rfl
    · cases h

/-- The server opens its connection to the tables that it finds. -/
def start (t : Tables) : State := ⟨{ tables := t }, [], [], []⟩

/-- Every call performs the operations of its method only. -/
def Performing (s : State) : Prop := ∀ k ∈ s.calls, k.rest.Only k.op.Performs

theorem step_performing {s t : State} {a : Action} (h : Performing s) (hs : step s a = some t) :
    Performing t := by
  intro k hk
  cases next_cases hs with
  | call o =>
    cases List.mem_append.mp hk with
    | inl old => exact h k old
    | inr new =>
      obtain rfl := List.mem_singleton.mp new
      exact o.prog_only
  | step i fails l sql rest conn here first left moves =>
    rcases mem_set_cases hk with rfl | ⟨j, _, hj⟩
    · exact (h l (List.mem_of_getElem? here)).next moves
    · exact h k (List.mem_of_getElem? hj)

/-! ## The points of a call that makes a chat, when a step fails -/

section Fails

open DirectChat

variable (c : Conn) (p : Pair)

theorem fails_prog : (prog p).next (Conn.attempt true) c = some (.done (-1), c) := rfl

theorem fails_lookup : (lookup p).next (Conn.attempt true) c = some (createThen p, c) := rfl

theorem fails_createThen : (createThen p).next (Conn.attempt true) c = some (.done (-1), c) := rfl

theorem fails_insertThen :
    (insertThen p).next (Conn.attempt true) c = some (rollbackThen, { c with changes := 0 }) := rfl

theorem fails_membersThen (chatID u : Int) (us : List Int) :
    (membersThen chatID (u :: us)).next (Conn.attempt true) c = some (rollbackThen, c) := rfl

theorem fails_memberThen (chatID u : Int) (us : List Int) :
    (memberThen chatID u us).next (Conn.attempt true) c =
      some (rollbackThen, { c with changes := 0 }) := rfl

theorem fails_commit (chatID : Int) :
    (membersThen chatID []).next (Conn.attempt true) c = some (rollbackThen, c) := rfl

theorem fails_rollbackThen :
    rollbackThen.next (Conn.attempt true) c = some (.done (-1), c) := rfl

end Fails

end Writers

end Cvcn
