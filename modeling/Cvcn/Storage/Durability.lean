import Cvcn.Storage.Writers

/-!
# What has been confirmed stays

A statement that runs while another call's transaction is open belongs to that transaction,
and is undone with it; a failure undoes nothing. A row that a call has confirmed is in the tables
whenever no transaction is open, exactly as long as no rollback undoes the insert of a user or a
message.
-/

namespace Cvcn

open Atomic Machine

namespace Writers

/-- Every row that was confirmed is there, when no transaction is open. -/
def Durable (s : State) : Prop :=
  s.conn.saved = none →
    s.savedMessages ⊆ s.conn.tables.messages ∧ s.addedUsers ⊆ s.conn.tables.users

def Call.rollsBack (k : Call) : Bool := k.rest.first.bind SqlOp.statement == some .rollback

/-- A rollback that succeeds finds only users and messages that were there at `BEGIN`. -/
def undoesNothing (s : State) : Action → Bool
  | .step i false =>
    match s.calls[i]?, s.conn.saved with
    | some k, some base => !k.rollsBack ||
        (s.conn.tables.messages.all (base.messages.contains ·) &&
          s.conn.tables.users.all (base.users.contains ·))
    | _, _ => true
  | _ => true

/-! ## The confirmed rows -/

/-- The statement itself adds and removes no user and no message. -/
def keepsRows : Stmt → Bool
  | .insertMessage _ _ _ | .insertUser _ _ | .deleteUser _ _ | .rollback => false
  | _ => true

/-- Confirmed rows are in the tables, and the rows added since `BEGIN` are confirmed. -/
structure Holds (c : Conn) (ms : List MessageRow) (us : List UserRow) : Prop where
  messages : ms ⊆ c.tables.messages
  users : us ⊆ c.tables.users
  newMessages : ∀ base, c.saved = some base →
    ∀ m ∈ c.tables.messages, m ∈ base.messages ∨ m ∈ ms
  newUsers : ∀ base, c.saved = some base → ∀ u ∈ c.tables.users, u ∈ base.users ∨ u ∈ us

namespace Holds

variable {c c' : Conn} {ms : List MessageRow} {us : List UserRow}

/-- Without a transaction nothing has been added since `BEGIN`. -/
theorem of_closed (closed : c.saved = none) (messages : ms ⊆ c.tables.messages)
    (users : us ⊆ c.tables.users) : Holds c ms us := by
  constructor
  · exact messages
  · exact users
  · intro base saved
    rw [closed] at saved
    cases saved
  · intro base saved
    rw [closed] at saved
    cases saved

/-- A statement that fails leaves the rows as they are. -/
theorem same (h : Holds c ms us) (tables : c'.tables = c.tables) (saved : c'.saved = c.saved) :
    Holds c' ms us := by
  obtain ⟨messages, users, newMessages, newUsers⟩ := h
  constructor
  · rwa [tables]
  · rwa [tables]
  · rwa [tables, saved]
  · rwa [tables, saved]

theorem insertMessage {chatID senderID : Int} {text : Bytes} (h : Holds c ms us)
    (hw : c.write (.insertMessage chatID senderID text) = some c') :
    Holds c' (ms ++ [⟨c'.lastInsertRowid, chatID, senderID, text⟩]) us := by
  cases hw
  constructor
  · exact List.append_subset.mpr ⟨fun m hm => List.mem_append_left _ (h.messages hm),
      List.subset_append_right _ _⟩
  · exact h.users
  · intro base saved m hm
    cases List.mem_append.mp hm with
    | inl old =>
      cases h.newMessages base saved m old with
      | inl before => exact .inl before
      | inr confirmed => exact .inr (List.mem_append_left _ confirmed)
    | inr new => exact .inr (List.mem_append_right _ new)
  · exact h.newUsers

theorem insertUser {username passwordHash : Bytes} (h : Holds c ms us)
    (hw : c.write (.insertUser username passwordHash) = some c') :
    Holds c' ms (us ++ [⟨c'.lastInsertRowid, username, passwordHash⟩]) := by
  simp only [Conn.write] at hw
  split at hw
  · cases hw
  · cases hw
    constructor
    · exact h.messages
    · exact List.append_subset.mpr ⟨fun u hu => List.mem_append_left _ (h.users hu),
        List.subset_append_right _ _⟩
    · exact h.newMessages
    · intro base saved u hu
      cases List.mem_append.mp hu with
      | inl old =>
        cases h.newUsers base saved u old with
        | inl before => exact .inl before
        | inr confirmed => exact .inr (List.mem_append_left _ confirmed)
      | inr new => exact .inr (List.mem_append_right _ new)

/-- A user that is deleted is confirmed no longer. -/
theorem deleteUser {username passwordHash : Bytes} (h : Holds c ms us)
    (hw : c.write (.deleteUser username passwordHash) = some c') :
    Holds c' ms
      (us.filter fun u => !(u.username == username && u.passwordHash == passwordHash)) := by
  cases hw
  constructor
  · exact h.messages
  · intro u hu
    obtain ⟨confirmed, stays⟩ := List.mem_filter.mp hu
    exact List.mem_filter.mpr ⟨h.users confirmed, stays⟩
  · exact h.newMessages
  · intro base saved u hu
    obtain ⟨old, stays⟩ := List.mem_filter.mp hu
    cases h.newUsers base saved u old with
    | inl before => exact .inl before
    | inr confirmed => exact .inr (List.mem_filter.mpr ⟨confirmed, stays⟩)

theorem rollback (h : Holds c ms us) {base : Tables} (saved : c.saved = some base)
    (messages : c.tables.messages ⊆ base.messages) (users : c.tables.users ⊆ base.users)
    (hw : c.write .rollback = some c') : Holds c' ms us := by
  simp only [Conn.write, saved] at hw
  cases hw
  exact .of_closed rfl (List.Subset.trans h.messages messages) (List.Subset.trans h.users users)

/-- The other statements add and remove no user and no message. -/
theorem other {sql : Stmt} (h : Holds c ms us) (keeps : keepsRows sql = true)
    (hw : c.write sql = some c') : Holds c' ms us := by
  cases sql with
  | insertMessage | insertUser | deleteUser | rollback => cases keeps
  | insertMember =>
    simp only [Conn.write] at hw
    split at hw
    · cases hw
    · cases hw
      exact ⟨h.messages, h.users, h.newMessages, h.newUsers⟩
  | begin =>
    simp only [Conn.write] at hw
    split at hw
    · cases hw
    · cases hw
      refine ⟨h.messages, h.users, fun base saved m hm => ?_, fun base saved u hu => ?_⟩
      · cases saved
        exact .inl hm
      · cases saved
        exact .inl hu
  | commit =>
    simp only [Conn.write] at hw
    split at hw
    · cases hw
      exact .of_closed rfl h.messages h.users
    · cases hw
  | _ =>
    cases hw
    exact ⟨h.messages, h.users, h.newMessages, h.newUsers⟩

end Holds

/-! ## The calls that confirm -/

/-- The points of `addUser` and of `saveMessage`: after its insert the call is over. -/
inductive Inserting (sql : Stmt) : SqlProg Bool → Prop where
  | prepare : Inserting sql (do
      if !(← Sqlite3.prepare sql) then return false
      else
        let rc ← Sqlite3.step sql
        return rc == .done)
  | step : Inserting sql (.op (.step sql) fun rc => .done (rc == .done))
  | ended (result : Bool) : Inserting sql (.done result)

/-- It says that it has inserted its row exactly when it has. -/
theorem Inserting.next {sql : Stmt} (writes : sql.isQuery = false) {p p' : SqlProg Bool}
    (h : Inserting sql p) {fails : Bool} {c c' : Conn}
    (moves : p.next (Conn.attempt fails) c = some (p', c')) :
    Inserting sql p' ∧ ((c'.tables = c.tables ∧ c'.saved = c.saved ∧ p' ≠ .done true) ∨
      (p' = .done true ∧ c.write sql = some c')) := by
  have undone : (.done false : SqlProg Bool) ≠ .done true := by simp
  cases h with
  | prepare =>
    cases fails <;> cases moves
    · refine ⟨.step, .inl ⟨rfl, rfl, ?_⟩⟩
      intro same
      cases same
    · exact ⟨.ended false, .inl ⟨rfl, rfl, undone⟩⟩
  | step =>
    cases fails with
    | true =>
      cases moves
      exact ⟨.ended false, .inl ⟨c.failed_tables sql, c.failed_saved sql, undone⟩⟩
    | false =>
      cases hw : c.write sql with
      | none =>
        have answer : c.attempt false (.step sql) = (.error, c.failed sql) := by
          simp [Conn.attempt, Conn.call, Conn.stepStmt, writes, hw]
        rw [Prog.next, answer] at moves
        cases moves
        exact ⟨.ended false, .inl ⟨c.failed_tables sql, c.failed_saved sql, undone⟩⟩
      | some d =>
        have answer : c.attempt false (.step sql) = (.done, d) := by
          simp [Conn.attempt, Conn.call, Conn.stepStmt, writes, hw]
        rw [Prog.next, answer] at moves
        cases moves
        exact ⟨.ended true, .inr ⟨rfl, rfl⟩⟩
  | ended result => cases moves

inductive Confirming : Call → Prop where
  | saveMessage (chatID : UInt32) (senderID : Int) (text : Bytes) (rest : SqlProg Bool)
    (chatRow : Option Int)
    (points : Inserting (.insertMessage (ChatRepository.toInt chatID) senderID (cStr text)) rest) :
    Confirming ⟨.saveMessage chatID senderID text, rest, chatRow⟩
  | addUser (username passwordHash : Bytes) (rest : SqlProg Bool) (chatRow : Option Int)
    (points : Inserting (.insertUser (cStr username) (cStr passwordHash)) rest) :
    Confirming ⟨.addUser username passwordHash, rest, chatRow⟩
  | other (k : Call) (noMessage : ∀ chatID senderID text, k.op ≠ .saveMessage chatID senderID text)
    (noUser : ∀ username passwordHash, k.op ≠ .addUser username passwordHash) : Confirming k

theorem confirming_start (o : RepoOp) : Confirming ⟨o, o.prog, none⟩ := by
  cases o with
  | saveMessage chatID senderID text => exact .saveMessage _ _ _ _ _ .prepare
  | addUser username passwordHash => exact .addUser _ _ _ _ .prepare
  | _ => exact .other _ nofun nofun

theorem saves_other {k : Call} (c : Conn)
    (noMessage : ∀ chatID senderID text, k.op ≠ .saveMessage chatID senderID text) :
    k.saves c = [] := by
  obtain ⟨o, rest, chatRow⟩ := k
  cases o with
  | saveMessage => exact absurd rfl (noMessage _ _ _)
  | _ => rfl

theorem adds_other {k : Call} (c : Conn)
    (noUser : ∀ username passwordHash, k.op ≠ .addUser username passwordHash) :
    k.adds c = [] := by
  obtain ⟨o, rest, chatRow⟩ := k
  cases o with
  | addUser => exact absurd rfl (noUser _ _)
  | _ => rfl

theorem saves_undone {chatID : UInt32} {senderID : Int} {text : Bytes} {rest : SqlProg Bool}
    {chatRow : Option Int} (c : Conn) (undone : rest ≠ .done true) :
    Call.saves c ⟨.saveMessage chatID senderID text, rest, chatRow⟩ = [] := by
  cases rest with
  | done result =>
    cases result with
    | true => exact absurd rfl undone
    | false => rfl
  | op => rfl

theorem adds_undone {username passwordHash : Bytes} {rest : SqlProg Bool}
    {chatRow : Option Int} (c : Conn) (undone : rest ≠ .done true) :
    Call.adds c ⟨.addUser username passwordHash, rest, chatRow⟩ = [] := by
  cases rest with
  | done result =>
    cases result with
    | true => exact absurd rfl undone
    | false => rfl
  | op => rfl

/-! ## Every run -/

structure DurableInv (s : State) : Prop where
  performing : Performing s
  confirming : ∀ k ∈ s.calls, Confirming k
  holds : Holds s.conn s.savedMessages s.addedUsers

theorem DurableInv.durable {s : State} (h : DurableInv s) : Durable s :=
  fun _ => ⟨h.holds.messages, h.holds.users⟩

theorem remaining_of {s : State} {fails : Bool} {sql : SqlOp}
    (noDelete : fails = false → ∀ n h, sql.statement ≠ some (.deleteUser n h)) :
    s.remaining fails sql = s.addedUsers := by
  cases fails with
  | true => rfl
  | false =>
    have none : ∀ u, deletes sql u = false := by
      intro u
      unfold deletes
      split
      · rename_i h
        exact absurd h (noDelete rfl _ _)
      · rfl
    simp [State.remaining, none]

theorem remaining_of_executed {s : State} {fails : Bool} {sql : SqlOp} {stmt : Stmt}
    (executed : sql.statement = some stmt) (noDelete : ∀ n h, stmt ≠ .deleteUser n h) :
    s.remaining fails sql = s.addedUsers := by
  apply remaining_of
  intro _ n h e
  exact noDelete n h (Option.some.inj (executed.symm.trans e))

theorem undoesNothing_iff {s : State} {i : Nat} {k : Call} {base : Tables}
    (here : s.calls[i]? = some k) (saved : s.conn.saved = some base) :
    undoesNothing s (.step i false) = true ↔
      (k.rest.first.bind SqlOp.statement = some .rollback →
        s.conn.tables.messages ⊆ base.messages ∧ s.conn.tables.users ⊆ base.users) := by
  simp only [undoesNothing, here, saved, Call.rollsBack, Bool.or_eq_true, Bool.not_eq_true',
    beq_eq_false_iff_ne, Bool.and_eq_true, List.all_eq_true, List.contains_iff_mem,
    ← imp_iff_not_or]
  exact Iff.rfl

/-- The rows after a step of one call. -/
theorem DurableInv.next {s : State} (h : DurableInv s) {i : Nat} {fails : Bool} {k : Call}
    {sql : SqlOp} {rest : SqlProg k.op.Res} {c' : Conn} (here : s.calls[i]? = some k)
    (first : k.rest.first = some sql) (left : (s.conn.attempt fails sql).2 = c')
    (moves : k.rest.next (Conn.attempt fails) s.conn = some (rest, c'))
    (keeps : undoesNothing s (.step i fails) = true) (chatRow : Option Int) :
    Confirming ⟨k.op, rest, chatRow⟩ ∧
      Holds c' (s.savedMessages ++ Call.saves c' ⟨k.op, rest, chatRow⟩)
        (s.remaining fails sql ++ Call.adds c' ⟨k.op, rest, chatRow⟩) := by
  have executes {stmt : Stmt} (executed : sql.statement = some stmt) : k.op.Executes stmt :=
    ((h.performing k (List.mem_of_getElem? here)).first first).executes executed
  have notDeleting (other : ∀ n w, k.op ≠ .deleteUser n w) :
      s.remaining fails sql = s.addedUsers := by
    apply remaining_of
    intro _ n w executed
    obtain ⟨name, hash, e⟩ := (executes executed).deleteUser
    exact other name hash e
  cases h.confirming k (List.mem_of_getElem? here) with
  | saveMessage chatID senderID text rest' row points =>
    obtain ⟨points', result⟩ := points.next rfl moves
    have noUser : Call.adds c' ⟨.saveMessage chatID senderID text, rest, chatRow⟩ = [] := rfl
    rw [notDeleting (by simp), noUser, List.append_nil]
    refine ⟨.saveMessage _ _ _ _ _ points', ?_⟩
    rcases result with ⟨tables, saved, undone⟩ | ⟨rfl, written⟩
    · rw [saves_undone _ undone, List.append_nil]
      exact h.holds.same tables saved
    · exact h.holds.insertMessage written
  | addUser username passwordHash rest' row points =>
    obtain ⟨points', result⟩ := points.next rfl moves
    have noMessage : Call.saves c' ⟨.addUser username passwordHash, rest, chatRow⟩ = [] := rfl
    rw [notDeleting (by simp), noMessage, List.append_nil]
    refine ⟨.addUser _ _ _ _ points', ?_⟩
    rcases result with ⟨tables, saved, undone⟩ | ⟨rfl, written⟩
    · rw [adds_undone _ undone, List.append_nil]
      exact h.holds.same tables saved
    · exact h.holds.insertUser written
  | other _ noMessage noUser =>
    have saves : Call.saves c' ⟨k.op, rest, chatRow⟩ = [] := saves_other c' noMessage
    have adds : Call.adds c' ⟨k.op, rest, chatRow⟩ = [] := adds_other c' noUser
    rw [saves, adds, List.append_nil, List.append_nil]
    refine ⟨.other _ noMessage noUser, ?_⟩
    rcases Conn.attempt_cases fails sql s.conn with
      ⟨same, rejected⟩ | ⟨works, stmt, executed, written⟩
    · have kept : s.remaining fails sql = s.addedUsers := by
        apply remaining_of
        intro works n w executed
        cases rejected works _ executed
      rw [← left, same, kept]
      exact h.holds.same (by simp) (by simp)
    · subst works
      rw [left] at written
      cases stmt with
      | insertMessage =>
        obtain ⟨_, _, _, e⟩ := (executes executed).saveMessage
        exact absurd e (noMessage _ _ _)
      | insertUser =>
        obtain ⟨_, _, e⟩ := (executes executed).addUser
        exact absurd e (noUser _ _)
      | deleteUser username passwordHash =>
        have hit : s.remaining false sql = s.addedUsers.filter fun u =>
            !(u.username == username && u.passwordHash == passwordHash) := by
          simp [State.remaining, deletes, executed]
        rw [hit]
        exact h.holds.deleteUser written
      | rollback =>
        rw [remaining_of_executed executed (by simp)]
        cases saved : s.conn.saved with
        | none =>
          rw [Conn.write, saved] at written
          cases written
        | some base =>
          have rolls : k.rest.first.bind SqlOp.statement = some .rollback := first ▸ executed
          obtain ⟨messages, users⟩ := (undoesNothing_iff here saved).mp keeps rolls
          exact h.holds.rollback saved messages users written
      | _ =>
        rw [remaining_of_executed executed (by simp)]
        exact h.holds.other rfl written

theorem DurableInv.step {s t : State} {a : Action} (h : DurableInv s)
    (keeps : undoesNothing s a = true) (hs : step s a = some t) : DurableInv t := by
  have performing := step_performing h.performing hs
  cases next_cases hs with
  | call o =>
    refine ⟨performing, fun k hk => ?_, h.holds⟩
    cases List.mem_append.mp hk with
    | inl old => exact h.confirming k old
    | inr new =>
      obtain rfl := List.mem_singleton.mp new
      exact confirming_start o
  | step i fails k sql rest c' here first left moves =>
    obtain ⟨confirming, holds⟩ :=
      h.next here first left moves keeps (madeRow fails sql c' k.chatRow)
    refine ⟨performing, fun l hl => ?_, holds⟩
    rcases mem_set_cases hl with rfl | ⟨j, _, hj⟩
    · exact confirming
    · exact h.confirming l (List.mem_of_getElem? hj)

/-- A rollback that undoes an insert undoes a confirmed row. -/
theorem step_loses {s t : State} {a : Action} (h : DurableInv s)
    (undoes : ¬ undoesNothing s a = true) (hs : step s a = some t) : ¬ Durable t := by
  cases next_cases hs with
  | call o => exact absurd rfl undoes
  | step i fails k sql rest c' here first left moves =>
    cases fails with
    | true => exact absurd rfl undoes
    | false =>
      cases saved : s.conn.saved with
      | none => exact absurd (by simp [undoesNothing, here, saved]) undoes
      | some base =>
        obtain ⟨rolls, loses⟩ := Classical.not_imp.mp (mt (undoesNothing_iff here saved).mpr undoes)
        have executed : sql.statement = some .rollback := by
          rw [first] at rolls
          exact rolls
        have written : s.conn.write .rollback =
            some { s.conn with tables := base, saved := none } := by rw [Conn.write, saved]
        have conn : c' = { s.conn with tables := base, saved := none } := by
          rcases Conn.attempt_cases false sql s.conn with ⟨_, rejected⟩ | ⟨_, stmt, e, w⟩
          · cases (rejected rfl _ executed).symm.trans written
          · cases executed.symm.trans e
            rw [left, written] at w
            exact (Option.some.inj w).symm
        intro durable
        obtain ⟨messages, users⟩ := durable (by rw [State.after, conn])
        simp only [State.after, conn] at messages users
        rw [remaining_of_executed executed (by simp)] at users
        apply loses
        constructor
        · intro m hm
          cases h.holds.newMessages base saved m hm with
          | inl before => exact before
          | inr confirmed => exact messages (List.mem_append_left _ confirmed)
        · intro u hu
          cases h.holds.newUsers base saved u hu with
          | inl before => exact before
          | inr confirmed => exact users (List.mem_append_left _ confirmed)

/-- **What has been confirmed stays.** In all states of a run in which no transaction is open
every row that was confirmed, a user's until a matching delete, is in the tables, exactly when
every rollback of the run that succeeds finds only users and messages that were there at its
`BEGIN`. -/
theorem durable_iff (t : Tables) {as : List Action} {s : State}
    (run : Machine.exec step (start t) as = some s) :
    Throughout step Durable (start t) as ↔ Along step (undoesNothing · · = true) (start t) as :=
  throughout_iff_along (fun _ => DurableInv.durable) (fun _ _ _ h keeps => h.step keeps)
    (fun _ _ _ => step_loses)
    ⟨nofun, nofun, .of_closed rfl (List.nil_subset _) (List.nil_subset _)⟩ run

/-- Users 1 and 2 have chat 1. A call for users 1 and 3 has inserted chat 2 when a message is
saved as message 1. -/
def failingMember : List Action :=
  [Action.call (.findOrCreateDirectChat 1 2)] ++ List.replicate 10 (Action.step 0 false) ++
    [Action.call (.findOrCreateDirectChat 1 3)] ++ List.replicate 4 (Action.step 1 false) ++
    [Action.call (.saveMessage 1 2 [104, 105]), .step 2 false, .step 2 false] ++
    List.replicate 4 (Action.step 1 false)

/-- The call tries to add user 1 to chat 1 again, and its rollback undoes the message. -/
theorem confirmed_message_lost :
    ∃ s, Machine.exec step (start {}) failingMember = some s ∧ s.conn.saved = none ∧
      s.savedMessages = [⟨1, 1, 2, [104, 105]⟩] ∧ s.conn.tables.messages = [] ∧ ¬ Durable s := by
  refine ⟨_, rfl, rfl, rfl, rfl, fun h => ?_⟩
  have kept : (⟨1, 1, 2, [104, 105]⟩ : MessageRow) ∈ [] := (h rfl).1 (List.mem_singleton_self _)
  cases kept

/-- A user is added. A call that cannot add the second member of a chat rolls its transaction back,
and a message is saved. -/
def rolledBack : List Action :=
  [Action.call (.addUser [97] [112]), .step 0 false, .step 0 false,
    .call (.findOrCreateDirectChat 1 2)] ++ List.replicate 6 (.step 1 false) ++
    [.step 1 true, .step 1 false, .call (.saveMessage 1 1 [104, 105]), .step 2 false,
      .step 2 false]

theorem durable_in_turn :
    Throughout step Durable (start {}) rolledBack ∧
      ∃ s, Machine.exec step (start {}) rolledBack = some s ∧ s.conn.saved = none ∧
        s.conn.tables.chats = [] ∧ s.addedUsers = [⟨1, [97], [112]⟩] ∧
        s.savedMessages = [⟨1, 1, 1, [104, 105]⟩] :=
  ⟨(durable_iff {} rfl).mpr (by decide +kernel), _, rfl, rfl, rfl, rfl, rfl⟩

end Writers

end Cvcn
