import Cvcn.Storage.Writers

/-!
# Who has the transaction

Only `findOrCreateDirectChat` opens a transaction, and every way out of it after a `BEGIN` that
has succeeded goes through a `COMMIT` or a `ROLLBACK`. The result of the `ROLLBACK` is not looked
at: where it fails the call returns, and the transaction stays open with nobody in it. No call
ends it then, since every later `BEGIN` is rejected and those who are rejected roll nothing back.
After some errors of a statement, of whichever call, sqlite rolls the open transaction back by
itself, and the call inside goes on without one.
-/

namespace Cvcn

open Atomic Machine Sqlite3

/-! ## What a method does inside its transaction -/

namespace Transaction

/-- The sqlite3 calls that a method makes between its `BEGIN` and the end of it. -/
def inside : SqlOp → Bool
  | .exec .begin => false
  | .exec _ => true
  | .lastInsertRowid => true
  | .prepare (.insertMember _ _) => true
  | .step (.insertMember _ _) => true
  | _ => false

/-- The three statements that open and end one are executed by `sqlite3_exec`. -/
def proper : SqlOp → Bool
  | .step .begin | .step .commit | .step .rollback => false
  | _ => true

def allowed (own : Bool) (o : SqlOp) : Prop := inside o = own ∧ proper o = true

/-- Whether the method has a transaction after the call has been answered. -/
def after (own : Bool) : (o : SqlOp) → o.Res → Bool
  | .exec .begin, began => began
  | .exec .commit, committed => !committed
  | .exec .rollback, _ => false
  | _, _ => own

/-- It makes these calls inside its transaction and no others, and has none at its end. -/
def Ends {α : Type} (own : Bool) (p : SqlProg α) : Prop :=
  p.Keeps allowed after own fun _ own => own = false

variable {α : Type} {own : Bool}

theorem ends_call {o : SqlOp} {f : o.Res → SqlProg α} (may : allowed own o)
    (rest : ∀ r, Ends (after own o r) (f r)) : Ends own (Prog.call o >>= f) := ⟨may, rest⟩

theorem ends_done (a : α) : Ends false (.done a : SqlProg α) := rfl

/-- The first call tells where the method is. -/
theorem Ends.own_eq {p : SqlProg α} (h : Ends own p) : p.first.any inside = own := by
  cases p with
  | done a => exact h.symm
  | op o rest => exact h.1.1

/-- A call, and what is left then. -/
theorem Ends.next {p p' : SqlProg α} (h : Ends own p) {fails : Bool} {c c' : Conn} {o : SqlOp}
    (first : p.first = some o) (moves : p.next (Conn.attempt fails) c = some (p', c')) :
    allowed own o ∧ c' = (c.attempt fails o).2 ∧
      Ends (after own o (c.attempt fails o).1) p' := by
  cases p with
  | done a => cases first
  | op o' rest =>
    cases first
    cases moves
    exact ⟨h.1, rfl, h.2 _⟩

theorem ends_prepare {sql : Stmt} {failed : α} {p : SqlProg α} (may : allowed false (.prepare sql))
    (rest : Ends false p) :
    Ends false (do if !(← prepare sql) then return failed else p : SqlProg α) := by
  apply ends_call may
  intro prepared
  cases prepared with
  | true => exact rest
  | false => exact ends_done failed

theorem ends_rollback (failed : α) :
    Ends true (do let _ ← exec .rollback; return failed : SqlProg α) :=
  ends_call ⟨rfl, rfl⟩ fun _ => ends_done failed

/-- A member who cannot be added ends the transaction. -/
theorem insertMembers_keeps (chatID : Int) (userIDs : List Int) :
    (ChatRepository.insertMembers chatID userIDs).Keeps allowed after true
      fun joined own => own = joined := by
  induction userIDs with
  | nil => rfl
  | cons userID rest ih =>
    refine ⟨⟨rfl, rfl⟩, fun prepared => ?_⟩
    cases prepared with
    | false => exact ⟨⟨rfl, rfl⟩, fun _ => rfl⟩
    | true =>
      refine ⟨⟨rfl, rfl⟩, fun rc => ?_⟩
      cases rc with
      | done => exact ih
      | row r => exact ⟨⟨rfl, rfl⟩, fun _ => rfl⟩
      | error => exact ⟨⟨rfl, rfl⟩, fun _ => rfl⟩

theorem createDirectChat_ends (user1ID user2ID : Int) :
    Ends false (ChatRepository.createDirectChat user1ID user2ID) := by
  refine ends_call ⟨rfl, rfl⟩ fun began => ?_
  cases began with
  | false => exact ends_done _
  | true =>
    refine ends_call ⟨rfl, rfl⟩ fun inserted => ?_
    cases inserted with
    | false => exact ends_rollback _
    | true =>
      refine ends_call ⟨rfl, rfl⟩ fun rowid => Prog.Keeps.bind ?_
      apply (insertMembers_keeps (toInt32 rowid) [user1ID, user2ID]).mono
      rintro _ joined rfl
      cases joined with
      | false => exact ends_done _
      | true =>
        refine ends_call ⟨rfl, rfl⟩ fun committed => ?_
        cases committed with
        | true => exact ends_done _
        | false => exact ends_rollback _

end Transaction

open Transaction in
/-- Every method ends what it has begun. -/
theorem RepoOp.prog_ends (o : RepoOp) : Ends false o.prog := by
  have hash (username : Bytes) : Ends false (UserRepository.getUserPasswordHash username) := by
    apply ends_prepare ⟨rfl, rfl⟩
    refine ends_call ⟨rfl, rfl⟩ fun r => ?_
    cases r <;> exact ends_done _
  cases o with
  | userExists username => exact Prog.Keeps.bind ((hash username).mono fun _ _ own => own)
  | getUserPasswordHash username => exact hash username
  | addUser | saveMessage | findUsers | getUserChats | getChatMemberIDs =>
    apply ends_prepare ⟨rfl, rfl⟩
    exact ends_call ⟨rfl, rfl⟩ fun _ => ends_done _
  | getUserID username =>
    apply ends_prepare ⟨rfl, rfl⟩
    refine ends_call ⟨rfl, rfl⟩ fun r => ?_
    cases r <;> exact ends_done _
  | deleteUser username passwordHash =>
    apply ends_prepare ⟨rfl, rfl⟩
    refine ends_call ⟨rfl, rfl⟩ fun rc => ?_
    cases rc with
    | done => exact ends_call ⟨rfl, rfl⟩ fun _ => ends_done _
    | row r => exact ends_done _
    | error => exact ends_done _
  | findOrCreateDirectChat user1ID user2ID =>
    apply ends_prepare ⟨rfl, rfl⟩
    refine ends_call ⟨rfl, rfl⟩ fun r => ?_
    dsimp only
    split
    · split
      · exact ends_done _
      · exact createDirectChat_ends user1ID user2ID
    · exact createDirectChat_ends user1ID user2ID

/-! ## What a sqlite3 call does to the transaction -/

namespace Conn

variable {c : Conn} {fails : Bool} {o : SqlOp}

/-- Only the three statements of a transaction open or end one. -/
theorem saved_write {sql : Stmt} {c' : Conn} (hw : c.write sql = some c')
    (other : sql ≠ .begin ∧ sql ≠ .commit ∧ sql ≠ .rollback) : c'.saved = c.saved := by
  cases sql with
  | begin => exact absurd rfl other.1
  | commit => exact absurd rfl other.2.1
  | rollback => exact absurd rfl other.2.2
  | insertUser | insertMember =>
    simp only [write] at hw
    split at hw <;> cases hw
    rfl
  | _ =>
    cases hw
    rfl

/-- Any other call leaves the transaction as it is, open or not, and the method where it is. -/
theorem attempt_other (fails : Bool) (proper : Transaction.proper o = true)
    (other : o ≠ .exec .begin ∧ o ≠ .exec .commit ∧ o ≠ .exec .rollback) :
    (c.attempt fails o).2.saved = c.saved ∧ ∀ own r, Transaction.after own o r = own := by
  have statement : ∀ sql, o.statement = some sql →
      sql ≠ .begin ∧ sql ≠ .commit ∧ sql ≠ .rollback := by
    intro sql executes
    cases o with
    | step sql' =>
      cases executes
      refine ⟨?_, ?_, ?_⟩ <;> rintro rfl <;> cases proper
    | exec sql' =>
      cases executes
      simpa using other
    | _ => cases executes
  constructor
  · rcases attempt_cases fails o c with ⟨same, -⟩ | ⟨-, sql, executes, hw⟩
    · rw [same, SqlOp.failed_saved]
    · exact saved_write hw (statement sql executes)
  · intro own r
    cases o with
    | exec sql => cases sql <;> first | rfl | simp at other
    | _ => rfl

/-- With its answer the method is in a transaction that is open, or in none and none is open, as
before; only a `ROLLBACK` that fails leaves one open. -/
theorem saved_attempt (fails : Bool) (proper : Transaction.proper o = true)
    (own : Transaction.inside o = true → c.saved.isSome = true)
    (ends : fails = true → o ≠ .exec .rollback) :
    (Transaction.inside o).toNat + (c.attempt fails o).2.saved.isSome.toNat =
      (Transaction.after (Transaction.inside o) o (c.attempt fails o).1).toNat +
        c.saved.isSome.toNat := by
  by_cases transaction : o = .exec .begin ∨ o = .exec .commit ∨ o = .exec .rollback
  · obtain ⟨tables, saved, rowid, changes⟩ := c
    rcases transaction with rfl | rfl | rfl
    · cases fails <;> cases saved <;> rfl
    · cases saved with
      | none => cases own rfl
      | some base => cases fails <;> rfl
    · cases saved with
      | none => cases own rfl
      | some base =>
        cases fails with
        | true => exact absurd rfl (ends rfl)
        | false => rfl
  · simp only [not_or] at transaction
    obtain ⟨saved, stays⟩ := attempt_other fails proper transaction
    rw [saved, stays]

/-- From outside an open transaction is not ended, and no second one is begun. -/
theorem attempt_outside {base : Tables} (fails : Bool) (proper : Transaction.proper o = true)
    (outside : Transaction.inside o = false) (saved : c.saved = some base) :
    (c.attempt fails o).2.saved = some base ∧
      Transaction.after false o (c.attempt fails o).1 = false := by
  by_cases begins : o = .exec .begin
  · subst begins
    obtain ⟨tables, _, rowid, changes⟩ := c
    cases saved
    cases fails <;> exact ⟨rfl, rfl⟩
  · have other : o ≠ .exec .begin ∧ o ≠ .exec .commit ∧ o ≠ .exec .rollback := by
      refine ⟨begins, ?_, ?_⟩ <;> rintro rfl <;> cases outside
    obtain ⟨same, stays⟩ := attempt_other (c := c) fails proper other
    exact ⟨same.trans saved, stays false _⟩

end Conn

namespace Writers

/-- The call stands between its `BEGIN` and the end of its transaction. -/
def Call.inTransaction (k : Call) : Bool := k.rest.first.any Transaction.inside

/-- A transaction is open exactly while one call is inside its own, and it is one call only. -/
def Attended (s : State) : Prop := s.calls.countP (·.inTransaction) = s.conn.saved.isSome.toNat

/-- The step is a `ROLLBACK` that fails. -/
def rollbackFails (s : State) : Action → Bool
  | .step i true => (s.calls[i]?).any fun k => k.rest.first == some (.exec .rollback)
  | _ => false

/-- Every call ends its own transaction, from where it stands. -/
def Ending (s : State) : Prop := ∀ k ∈ s.calls, Transaction.Ends k.inTransaction k.rest

variable {s t : State} {a : Action}

/-- What a step does to the call that makes it, and to the transaction. -/
theorem step_call (h : Ending s) {i : Nat} {fails : Bool} {k : Call} {sql : SqlOp}
    {rest : SqlProg k.op.Res} {conn : Conn} (here : s.calls[i]? = some k) (row : Option Int)
    (first : k.rest.first = some sql)
    (moves : k.rest.next (Conn.attempt fails) s.conn = some (rest, conn)) :
    let k' : Call := ⟨k.op, rest, row⟩
    Transaction.allowed k.inTransaction sql ∧ conn = (s.conn.attempt fails sql).2 ∧
      Transaction.Ends k'.inTransaction rest ∧
      k'.inTransaction =
        Transaction.after k.inTransaction sql (s.conn.attempt fails sql).1 := by
  intro k'
  obtain ⟨allowed, left, ends⟩ := (h k (List.mem_of_getElem? here)).next first moves
  have own : k'.inTransaction = _ := ends.own_eq
  refine ⟨allowed, left, ?_, own⟩
  rw [own]
  exact ends

theorem Ending.step (h : Ending s) (hs : step s a = some t) : Ending t := by
  intro k hk
  cases next_cases hs with
  | call o =>
    cases List.mem_append.mp hk with
    | inl old => exact h k old
    | inr new =>
      obtain rfl := List.mem_singleton.mp new
      have ends := o.prog_ends
      rwa [← ends.own_eq] at ends
  | step i fails l sql rest conn here first left moves =>
    rcases mem_set_cases hk with rfl | ⟨j, _, hj⟩
    · obtain ⟨-, -, ends, -⟩ := step_call h here none first moves
      exact ends
    · exact h k (List.mem_of_getElem? hj)

/-- One of the calls is inside if the one that is about to move is. -/
theorem inTransaction_le {i : Nat} {k : Call} (here : s.calls[i]? = some k) :
    k.inTransaction.toNat ≤ s.calls.countP (·.inTransaction) := by
  cases own : k.inTransaction with
  | false => exact Nat.zero_le _
  | true => exact List.countP_pos_iff.mpr ⟨k, List.mem_of_getElem? here, own⟩

/-- A call that starts is outside. -/
theorem countP_call (o : RepoOp) :
    (s.calls ++ [(⟨o, o.prog, none⟩ : Call)]).countP (·.inTransaction) =
      s.calls.countP (·.inTransaction) := by
  have outside : (⟨o, o.prog, none⟩ : Call).inTransaction = false := o.prog_ends.own_eq
  simp [List.countP_append, outside]

structure TransactionInv (s : State) : Prop where
  ending : Ending s
  attended : Attended s

/-- A call inside has the transaction that is open. -/
theorem Attended.isSome (h : Attended s) {i : Nat} {k : Call} (here : s.calls[i]? = some k)
    (own : k.inTransaction = true) : s.conn.saved.isSome = true := by
  have one := inTransaction_le here
  rw [own, h] at one
  cases present : s.conn.saved.isSome with
  | true => rfl
  | false =>
    rw [present] at one
    contradiction

theorem TransactionInv.step (h : TransactionInv s) (ends : rollbackFails s a = false)
    (hs : step s a = some t) : TransactionInv t := by
  refine ⟨h.ending.step hs, ?_⟩
  have attended : s.calls.countP Call.inTransaction = s.conn.saved.isSome.toNat := h.attended
  cases next_cases hs with
  | call o => exact (countP_call o).trans attended
  | step i fails k sql rest conn here first left moves =>
    let row := madeRow fails sql conn k.chatRow
    obtain ⟨⟨own, proper⟩, conn_eq, -, after⟩ := step_call h.ending here row first moves
    have count := countP_set_add Call.inTransaction here (x := ⟨k.op, rest, row⟩)
    have saved := Conn.saved_attempt (c := s.conn) fails proper
      (fun within => h.attended.isSome here (own.symm.trans within)) (by
        rintro rfl rfl
        simp [rollbackFails, here, first] at ends)
    rw [own, ← conn_eq, ← after] at saved
    show (s.calls.set i ⟨k.op, rest, row⟩).countP Call.inTransaction = conn.saved.isSome.toNat
    omega

/-! ## A transaction that nobody ends -/

/-- Since it stays open, and no call is inside. -/
structure Abandoned (base : Tables) (s : State) : Prop where
  saved : s.conn.saved = some base
  nobody : s.calls.countP (·.inTransaction) = 0
  ending : Ending s

theorem Abandoned.step {base : Tables} (h : Abandoned base s) (hs : step s a = some t) :
    Abandoned base t := by
  have ending := h.ending.step hs
  cases next_cases hs with
  | call o => exact ⟨h.saved, (countP_call o).trans h.nobody, ending⟩
  | step i fails k sql rest conn here first left moves =>
    let row := madeRow fails sql conn k.chatRow
    obtain ⟨⟨own, proper⟩, conn_eq, -, after⟩ := step_call h.ending here row first moves
    have count := countP_set_add Call.inTransaction here (x := ⟨k.op, rest, row⟩)
    have outside : k.inTransaction = false := by
      have none := inTransaction_le here
      rw [h.nobody] at none
      cases within : k.inTransaction with
      | false => rfl
      | true =>
        rw [within] at none
        contradiction
    obtain ⟨saved, stays⟩ := Conn.attempt_outside fails proper (own.trans outside) h.saved
    rw [← conn_eq] at saved
    rw [← outside, ← after] at stays
    refine ⟨saved, ?_, ending⟩
    show (s.calls.set i ⟨k.op, rest, row⟩).countP Call.inTransaction = 0
    have nobody : s.calls.countP Call.inTransaction = 0 := h.nobody
    rw [stays] at count
    omega

/-- A `ROLLBACK` that fails: its call was the one inside. -/
theorem TransactionInv.abandons (h : TransactionInv s) (fails : ¬ rollbackFails s a = false)
    (hs : Writers.step s a = some t) : ∃ base, Abandoned base t := by
  have ending := h.ending.step hs
  cases next_cases hs with
  | call o => exact absurd rfl fails
  | step i failed k sql rest conn here first left moves =>
    let row := madeRow failed sql conn k.chatRow
    obtain ⟨⟨own, proper⟩, conn_eq, -, after⟩ := step_call h.ending here row first moves
    have count := countP_set_add Call.inTransaction here (x := ⟨k.op, rest, row⟩)
    cases failed with
    | false => exact absurd rfl fails
    | true =>
      have rolls : sql = .exec .rollback := by
        by_contra other
        apply fails
        simp [rollbackFails, here, first, other]
      subst rolls
      have within : k.inTransaction = true := own.symm
      obtain ⟨base, saved⟩ := Option.isSome_iff_exists.mp (h.attended.isSome here within)
      refine ⟨base, conn_eq ▸ saved, ?_, ending⟩
      show (s.calls.set i ⟨k.op, rest, row⟩).countP Call.inTransaction = 0
      have attended : s.calls.countP Call.inTransaction = s.conn.saved.isSome.toNat := h.attended
      have out : (⟨k.op, rest, row⟩ : Call).inTransaction = false := after
      rw [out, within] at count
      rw [saved] at attended
      simp only [Option.isSome_some, Bool.toNat_true, Bool.toNat_false] at count attended
      omega

theorem Abandoned.not_attended {base : Tables} (h : Abandoned base s) : ¬ Attended s := by
  intro attended
  rw [Attended, h.nobody, h.saved] at attended
  cases attended

theorem transactionInv_start (tables : Tables) : TransactionInv (start tables) := ⟨nofun, rfl⟩

/-! ## Transactions that sqlite rolls back by itself -/

/-- A step of the calls, or a statement of call `i` that fails and has the open transaction
rolled back by sqlite. -/
inductive Event where
  | act (a : Action)
  | undone (i : Nat)

/-- The calls of sqlite3 that run a statement. -/
def runsStatement : SqlOp → Bool
  | .step _ | .rows _ | .exec _ => true
  | _ => false

def happen (s : State) : Event → Option State
  | .act a => step s a
  | .undone i =>
    match s.calls[i]?, s.conn.saved with
    | some ⟨o, .op sql rest, chatRow⟩, some base =>
      if runsStatement sql then
        some { s with
          conn := { sql.failed s.conn with tables := base, saved := none }
          calls := s.calls.set i ⟨o, rest (sql.failure s.conn), chatRow⟩ }
      else none
    | _, _ => none

/-- The transaction that is open is then no longer that of the call inside: its `ROLLBACK` fails,
or sqlite rolls back at any other of the statements. -/
def separates (s : State) : Event → Bool
  | .act a => rollbackFails s a
  | .undone i => s.calls[i]?.any fun k => k.rest.first != some (.exec .rollback)

/-- What sqlite does by itself. -/
structure Undone (s : State) (i : Nat) (t : State) where
  call : Call
  sql : SqlOp
  rest : SqlProg call.op.Res
  base : Tables
  here : s.calls[i]? = some call
  first : call.rest.first = some sql
  saved : s.conn.saved = some base
  closed : t.conn.saved = none
  calls : t.calls = s.calls.set i ⟨call.op, rest, call.chatRow⟩
  moves : call.rest.next (Conn.attempt true) s.conn = some (rest, sql.failed s.conn)

theorem undone_cases {i : Nat} (h : happen s (.undone i) = some t) : Nonempty (Undone s i t) := by
  simp only [happen] at h
  split at h
  · rename_i o sql rest chatRow base here saved
    split at h
    · cases h
      exact ⟨⟨⟨o, .op sql rest, chatRow⟩, sql, _, base, here, rfl, saved, rfl, rfl, rfl⟩⟩
    · cases h
  · cases h

theorem after_failure {o : SqlOp} {own : Bool} (may : Transaction.allowed own o)
    (other : o ≠ .exec .rollback) (c : Conn) : Transaction.after own o (o.failure c) = own := by
  cases o with
  | exec sql =>
    cases sql with
    | begin => exact may.1
    | commit => exact may.1
    | rollback => exact absurd rfl other
    | _ => rfl
  | _ => rfl

/-- The call whose statement has failed stands as after any other failure. -/
theorem Undone.inTransaction {i : Nat} (u : Undone s i t) (h : Ending s) :
    let k' : Call := ⟨u.call.op, u.rest, u.call.chatRow⟩
    Transaction.Ends k'.inTransaction u.rest ∧
      (u.sql ≠ .exec .rollback → k'.inTransaction = u.call.inTransaction) ∧
      (u.sql = .exec .rollback → u.call.inTransaction = true ∧ k'.inTransaction = false) := by
  obtain ⟨allowed, -, ends, after⟩ := step_call h u.here u.call.chatRow u.first u.moves
  refine ⟨ends, fun other => after.trans (after_failure allowed other s.conn), fun rolls => ?_⟩
  generalize u.sql = sql at allowed after rolls
  subst rolls
  exact ⟨allowed.1.symm, after⟩

theorem Undone.ending {i : Nat} (u : Undone s i t) (h : Ending s) : Ending t := by
  intro k hk
  rw [u.calls] at hk
  rcases mem_set_cases hk with rfl | ⟨j, _, hj⟩
  · exact (u.inTransaction h).1
  · exact h k (List.mem_of_getElem? hj)

/-- It takes the transaction from the call inside, unless that one was to roll it back. -/
theorem Undone.attended_iff {i : Nat} (u : Undone s i t) (h : TransactionInv s) :
    Attended t ↔ u.sql = .exec .rollback := by
  let x : Call := ⟨u.call.op, u.rest, u.call.chatRow⟩
  obtain ⟨-, stays, leaves⟩ := u.inTransaction h.ending
  have count := countP_set_add Call.inTransaction u.here (x := x)
  have attended : s.calls.countP Call.inTransaction = 1 := by
    rw [h.attended, u.saved]
    rfl
  rw [Attended, u.calls, u.closed]
  constructor
  · intro none
    by_contra other
    rw [stays other] at count
    simp only [Option.isSome_none, Bool.toNat_false] at none
    change (s.calls.set i x).countP Call.inTransaction = 0 at none
    omega
  · intro rolls
    obtain ⟨within, out⟩ := leaves rolls
    have outside : x.inTransaction = false := out
    rw [within, outside] at count
    change (s.calls.set i x).countP Call.inTransaction = 0
    simp only [Bool.toNat_true, Bool.toNat_false] at count
    omega

theorem Undone.separates_iff {i : Nat} (u : Undone s i t) :
    separates s (.undone i) = false ↔ u.sql = .exec .rollback := by
  simp [separates, u.here, u.first]

theorem Ending.happen {e : Event} (h : Ending s) (hs : happen s e = some t) : Ending t := by
  cases e with
  | act a => exact h.step hs
  | undone i =>
    obtain ⟨u⟩ := undone_cases hs
    exact u.ending h

theorem TransactionInv.happen {e : Event} (h : TransactionInv s) (ends : separates s e = false)
    (hs : happen s e = some t) : TransactionInv t := by
  cases e with
  | act a => exact h.step ends hs
  | undone i =>
    obtain ⟨u⟩ := undone_cases hs
    exact ⟨u.ending h.ending, (u.attended_iff h).mpr (u.separates_iff.mp ends)⟩

theorem TransactionInv.separated {e : Event} (h : TransactionInv s)
    (apart : ¬ separates s e = false) (hs : Writers.happen s e = some t) : ¬ Attended t := by
  cases e with
  | act a =>
    obtain ⟨base, abandoned⟩ := h.abandons apart hs
    exact abandoned.not_attended
  | undone i =>
    obtain ⟨u⟩ := undone_cases hs
    exact fun attended => apart (u.separates_iff.mpr ((u.attended_iff h).mp attended))

theorem ending_run {tables : Tables} {es : List Event}
    (run : Machine.exec happen (start tables) es = some s) : Ending s :=
  invariant (fun _ _ _ h hs => h.happen hs) (transactionInv_start tables).ending run

/-- Until sqlite rolls it back itself. -/
theorem Abandoned.along {base : Tables} {as : List Action} (h : Abandoned base s)
    (run : Machine.exec happen s (as.map .act) = some t) : Abandoned base t := by
  induction as generalizing s with
  | nil =>
    cases run
    exact h
  | cons a as ih =>
    obtain ⟨m, hm, run⟩ := exec_cons.mp run
    exact ih (h.step hm) run

/-- **Transactions.** Throughout a run of any calls beside each other, of which any sqlite3 call
may fail, and any statement so that sqlite rolls back by itself, a transaction is open exactly
while one call is inside its own, if and only if no `ROLLBACK` of the run fails and sqlite rolls
back by itself at no other statement. A transaction that is open while nobody is inside stays open
until sqlite rolls it back itself, and nobody is ever inside one before, whatever is called. -/
theorem transactions_ended_iff (tables : Tables) (es : List Event) (s : State)
    (run : Machine.exec happen (start tables) es = some s) :
    (Throughout happen Attended (start tables) es ↔
      Along happen (separates · · = false) (start tables) es) ∧
    ∀ base, s.conn.saved = some base → s.calls.countP (·.inTransaction) = 0 →
      ∀ (as : List Action) t, Machine.exec happen s (as.map .act) = some t →
        t.conn.saved = some base ∧ t.calls.countP (·.inTransaction) = 0 := by
  refine ⟨?_, ?_⟩
  · exact throughout_iff_along (fun _ h => h.attended)
      (fun _ _ _ h ends hs => h.happen ends hs) (fun _ _ _ h apart hs => h.separated apart hs)
      (transactionInv_start tables) run
  · intro base saved nobody as t later
    have last : Abandoned base t := Abandoned.along ⟨saved, nobody, ending_run run⟩ later
    exact ⟨last.saved, last.nobody⟩

/-- The call has inserted its chat when the statement of the first member cannot be prepared, and
its `ROLLBACK` fails too. -/
def failingRollback : List Event :=
  ([Action.call (.findOrCreateDirectChat 1 2)] ++ List.replicate 5 (Action.step 0 false) ++
    [Action.step 0 true, Action.step 0 true]).map .act

theorem transaction_abandoned :
    ∃ s base, Machine.exec happen (start {}) failingRollback = some s ∧
      s.calls.all (·.rest.isDone) = true ∧ s.conn.saved = some base ∧
      ¬ Throughout happen Attended (start {}) failingRollback ∧
      ∀ (as : List Action) t, Machine.exec happen s (as.map .act) = some t →
        t.conn.saved = some base := by
  obtain ⟨s, run, finished, saved, nobody⟩ : ∃ s,
      Machine.exec happen (start {}) failingRollback = some s ∧
      s.calls.all (·.rest.isDone) = true ∧ s.conn.saved = some {} ∧
      s.calls.countP (·.inTransaction) = 0 := ⟨_, rfl, rfl, rfl, rfl⟩
  obtain ⟨ends, forever⟩ := transactions_ended_iff {} failingRollback s run
  refine ⟨s, {}, run, finished, saved, fun attended => ?_, fun as t later => ?_⟩
  · exact absurd (ends.mp attended) (by decide)
  · exact (forever {} saved nobody as t later).1

end Writers

end Cvcn
