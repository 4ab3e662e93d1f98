import Cvcn.Storage.Writers

/-!
# What a delete says of itself

`deleteUser` asks the connection how many rows were deleted, in a call of its own and after its
statement is over. The connection answers for the last statement of anyone, which is none when
that one has failed. Beside each call this model keeps the rows that it has removed itself, and the
count that another call's statement has left since.
-/

namespace Cvcn

open Atomic Machine

theorem Conn.write_changes {c c' : Conn} {sql : Stmt} (quiet : sql.counts = false)
    (hw : c.write sql = some c') : c'.changes = c.changes := by
  cases sql with
  | insertUser | deleteUser | insertChat | insertMember | insertMessage => cases quiet
  | begin | commit =>
    simp only [write] at hw
    split at hw
    · cases hw <;> rfl
    · cases hw <;> rfl
  | rollback =>
    simp only [write] at hw
    split at hw
    · cases hw
      rfl
    · cases hw
  | _ =>
    cases hw
    rfl

namespace RowCounts

/-- A call with what is left of its program. -/
structure Call where
  op : RepoOp
  rest : SqlProg op.Res
  /-- The rows of `users` that it has removed. -/
  removed : Nat := 0
  /-- The row count of another call's statement, if one was stepped after the last of its own. -/
  overwritten : Option Nat := none

structure State where
  conn : Conn
  calls : List Call := []

inductive Action where
  | call (o : RepoOp)
  | step (i : Nat) (fails : Bool)

/-- The row count that this call of sqlite3 leaves, if its statement leaves one. -/
def completed (fails : Bool) (sql : SqlOp) (c : Conn) : Option Nat :=
  (sql.statement.filter (·.counts)).map fun stmt =>
    if fails then 0 else ((c.write stmt).map (·.changes)).getD 0

def Call.sees (k : Call) (count : Option Nat) : Call :=
  { k with overwritten := count.or k.overwritten }

def step (s : State) : Action → Option State
  | .call o => some { s with calls := s.calls ++ [{ op := o, rest := o.prog }] }
  | .step i fails =>
    match s.calls[i]? with
    | some ⟨o, .op sql rest, removed, overwritten⟩ =>
      let (answer, conn) := s.conn.attempt fails sql
      let count := completed fails sql s.conn
      let gone := s.conn.tables.users.length - conn.tables.users.length
      let own := ⟨o, rest answer, removed + gone, if count.isSome then none else overwritten⟩
      some ⟨conn, (s.calls.map (·.sees count)).set i own⟩
    | _ => none

/-- A delete that is over has returned true exactly if its statement has removed a row. -/
def Call.Reports : Call → Prop
  | ⟨.deleteUser _ _, .done success, removed, _⟩ => success = true ↔ 0 < removed
  | _ => True

def Reports (s : State) : Prop := ∀ k ∈ s.calls, k.Reports

/-- A delete that is about to ask for the row count gets its own, or one that is 0 exactly if
its own is. -/
def Call.undisturbed : Call → Bool
  | ⟨.deleteUser _ _, .op .changes _, removed, some count⟩ => decide (0 < count ↔ 0 < removed)
  | _ => true

def undisturbed (s : State) : Action → Bool
  | .call _ => true
  | .step i _ => s.calls[i]?.all Call.undisturbed

/-! ## The points of a delete -/

def countThen : SqlProg Bool := .op .changes fun changed => .done (decide (changed > 0))

def deleteThen (username passwordHash : Bytes) : SqlProg Bool :=
  .op (.step (.deleteUser (cStr username) (cStr passwordHash))) fun rc =>
    if rc != .done then .done false else countThen

theorem deleteUser_prog (username passwordHash : Bytes) :
    (RepoOp.deleteUser username passwordHash).prog =
      .op (.prepare (.deleteUser (cStr username) (cStr passwordHash))) fun prepared =>
        if !prepared then .done false else deleteThen username passwordHash := rfl

/-- Where a delete stands. Once its statement is over the connection's count is its own or the
one that it was overwritten with. -/
inductive DeleteAt (c : Conn) (username passwordHash : Bytes) :
    SqlProg Bool → Nat → Option Nat → Prop where
  | begins (overwritten : Option Nat) : DeleteAt c username passwordHash
    (RepoOp.deleteUser username passwordHash).prog 0 overwritten
  | prepared (overwritten : Option Nat) : DeleteAt c username passwordHash
    (deleteThen username passwordHash) 0 overwritten
  | deleted (removed : Nat) (overwritten : Option Nat)
    (last : c.changes = overwritten.getD removed) :
    DeleteAt c username passwordHash countThen removed overwritten
  | finished (success : Bool) (removed : Nat) (overwritten : Option Nat)
    (reports : success = true ↔ 0 < removed) :
    DeleteAt c username passwordHash (.done success) removed overwritten

def Call.At (c : Conn) : Call → Prop
  | ⟨.deleteUser username passwordHash, rest, removed, overwritten⟩ =>
    DeleteAt c username passwordHash rest removed overwritten
  | _ => True

def Inv (s : State) : Prop := ∀ k ∈ s.calls, k.At s.conn

variable {c : Conn} {fails : Bool} {sql : SqlOp}

/-- The connection's row count is that of the last statement that leaves one. -/
theorem changes_attempt (c : Conn) (fails : Bool) (sql : SqlOp) :
    (c.attempt fails sql).2.changes = (completed fails sql c).getD c.changes := by
  rcases c.attempt_cases fails sql with ⟨same, rejected⟩ | ⟨rfl, stmt, executes, hw⟩
  · rw [same, SqlOp.failed, completed]
    cases executes : sql.statement with
    | none => rfl
    | some stmt =>
      cases counts : stmt.counts with
      | false => simp [Conn.failed, Option.filter, counts]
      | true =>
        cases fails with
        | true => simp [Conn.failed, Option.filter, counts]
        | false => simp [Conn.failed, Option.filter, counts, rejected rfl stmt executes]
  · cases counts : stmt.counts with
    | true => simp [completed, Option.filter, executes, counts, hw]
    | false =>
      rw [Conn.write_changes counts hw]
      simp [completed, Option.filter, executes, counts]

/-- What another call does. -/
theorem DeleteAt.sees {username passwordHash : Bytes} {rest : SqlProg Bool} {removed : Nat}
    {overwritten count : Option Nat} {c' : Conn}
    (h : DeleteAt c username passwordHash rest removed overwritten)
    (changes : c'.changes = count.getD c.changes) :
    DeleteAt c' username passwordHash rest removed (count.or overwritten) := by
  cases h with
  | begins => exact .begins _
  | prepared => exact .prepared _
  | deleted _ _ last =>
    refine .deleted _ _ ?_
    rw [changes, last]
    cases count <;> rfl
  | finished _ _ _ reports => exact .finished _ _ _ reports

theorem countP_eq_removed {α : Type} (hit : α → Bool) (l : List α) :
    l.countP hit = l.length - (l.filter (!hit ·)).length := by
  have parts : l.length = l.countP hit + l.countP (!hit ·) := by
    rw [l.length_eq_countP_add_countP hit]
    simp only [Bool.not_eq_true, Bool.decide_eq_false]
  rw [← List.countP_eq_length_filter]
  omega

theorem removed_nothing (c : Conn) (removed : Nat) :
    removed + (c.tables.users.length - c.tables.users.length) = removed := by
  rw [Nat.sub_self, Nat.add_zero]

/-- Its own next step. The one that asks for the row count is where it goes wrong. -/
theorem DeleteAt.moves {username passwordHash : Bytes} {rest : sql.Res → SqlProg Bool}
    {removed : Nat} {overwritten : Option Nat}
    (h : DeleteAt c username passwordHash (.op sql rest) removed overwritten)
    (undisturbed : Call.undisturbed
      ⟨.deleteUser username passwordHash, .op sql rest, removed, overwritten⟩ = true) :
    DeleteAt (c.attempt fails sql).2 username passwordHash (rest (c.attempt fails sql).1)
      (removed + (c.tables.users.length - (c.attempt fails sql).2.tables.users.length))
      (if (completed fails sql c).isSome then none else overwritten) := by
  generalize same : Prog.op sql rest = p at h
  cases h with
  | begins =>
    rw [deleteUser_prog] at same
    cases same
    cases fails with
    | true => exact (removed_nothing c 0).symm ▸ .finished false 0 _ (by simp)
    | false => exact (removed_nothing c 0).symm ▸ .prepared _
  | prepared =>
    unfold deleteThen at same
    cases same
    cases fails with
    | true => exact (removed_nothing c 0).symm ▸ .finished false 0 _ (by simp)
    | false =>
      refine .deleted _ none ?_
      rw [Option.getD_none, Nat.zero_add]
      exact countP_eq_removed _ _
  | deleted _ _ last =>
    unfold countThen at same
    cases same
    have reports : decide (c.changes > 0) = true ↔ 0 < removed := by
      rw [decide_eq_true_iff, last]
      cases overwritten with
      | none => exact Iff.rfl
      | some count => exact of_decide_eq_true undisturbed
    cases fails <;> exact (removed_nothing c removed).symm ▸ .finished _ removed _ reports
  | finished => cases same

theorem Call.At.sees {k : Call} {c' : Conn} {count : Option Nat} (h : k.At c)
    (changes : c'.changes = count.getD c.changes) : (k.sees count).At c' := by
  obtain ⟨op, rest, removed, overwritten⟩ := k
  cases op with
  | deleteUser username passwordHash => exact DeleteAt.sees h changes
  | _ => trivial

/-- All that a step can do. -/
inductive Next (s : State) : Action → State → Prop where
  | call (o : RepoOp) :
    Next s (.call o) { s with calls := s.calls ++ [{ op := o, rest := o.prog }] }
  | step (i : Nat) (fails : Bool) (o : RepoOp) (sql : SqlOp) (rest : sql.Res → SqlProg o.Res)
    (removed : Nat) (overwritten : Option Nat)
    (here : s.calls[i]? = some ⟨o, .op sql rest, removed, overwritten⟩) :
    Next s (.step i fails) ⟨(s.conn.attempt fails sql).2,
      (s.calls.map (·.sees (completed fails sql s.conn))).set i
        ⟨o, rest (s.conn.attempt fails sql).1,
          removed + (s.conn.tables.users.length -
            (s.conn.attempt fails sql).2.tables.users.length),
          if (completed fails sql s.conn).isSome then none else overwritten⟩⟩

theorem next_cases {s t : State} {a : Action} (h : step s a = some t) : Next s a t := by
  cases a with
  | call o =>
    cases h
    exact .call o
  | step i fails =>
    simp only [step] at h
    split at h
    · rename_i o sql rest removed overwritten here
      cases h
      exact .step i fails o sql rest removed overwritten here
    · cases h

/-- A step that is not disturbed keeps every delete where it stands. -/
theorem step_inv {s t : State} {a : Action} (h : Inv s) (clear : undisturbed s a = true)
    (hs : step s a = some t) : Inv t := by
  intro k hk
  cases next_cases hs with
  | call o =>
    cases List.mem_append.mp hk with
    | inl old => exact h k old
    | inr new =>
      obtain rfl := List.mem_singleton.mp new
      cases o with
      | deleteUser username passwordHash => exact .begins none
      | _ => trivial
  | step i fails o sql rest removed overwritten here =>
    rcases mem_set_cases hk with rfl | ⟨j, _, hj⟩
    · have stands := h _ (List.mem_of_getElem? here)
      cases o with
      | deleteUser username passwordHash =>
        rw [undisturbed, here] at clear
        exact DeleteAt.moves stands clear
      | _ => trivial
    · rw [List.getElem?_map, Option.map_eq_some_iff] at hj
      obtain ⟨old, there, rfl⟩ := hj
      exact (h old (List.mem_of_getElem? there)).sees (changes_attempt s.conn fails sql)

theorem DeleteAt.reports {username passwordHash : Bytes} {success : Bool} {removed : Nat}
    {overwritten : Option Nat}
    (h : DeleteAt c username passwordHash (.done success) removed overwritten) :
    success = true ↔ 0 < removed := by
  generalize same : Prog.done success = p at h
  cases h with
  | finished _ _ _ reports =>
    cases same
    exact reports
  | begins => cases same
  | prepared => cases same
  | deleted => cases same

theorem Inv.reports {s : State} (h : Inv s) : Reports s := by
  intro k hk
  have stands := h k hk
  obtain ⟨op, rest, removed, overwritten⟩ := k
  cases op with
  | deleteUser username passwordHash =>
    cases rest with
    | done success => exact DeleteAt.reports stands
    | op sql rest => trivial
  | _ => trivial

/-- A delete that asks for the row count and is about to get the wrong one. -/
theorem disturbed_cases {k : Call} (disturbed : ¬ k.undisturbed = true) :
    ∃ username passwordHash rest removed count,
      k = ⟨.deleteUser username passwordHash, .op .changes rest, removed, some count⟩ ∧
        ¬ (0 < count ↔ 0 < removed) := by
  obtain ⟨op, rest, removed, overwritten⟩ := k
  cases op with
  | deleteUser username passwordHash =>
    cases rest with
    | done success => exact absurd rfl disturbed
    | op sql rest =>
      cases sql with
      | changes =>
        cases overwritten with
        | none => exact absurd rfl disturbed
        | some count =>
          refine ⟨username, passwordHash, rest, removed, count, rfl, fun same => ?_⟩
          exact disturbed (decide_eq_true same)
      | _ => exact absurd rfl disturbed
  | _ => exact absurd rfl disturbed

/-- It reports what another call's statement has done. -/
theorem step_disturbed {s t : State} {a : Action} (h : Inv s) (disturbed : ¬ undisturbed s a = true)
    (hs : step s a = some t) : ¬ Reports t := by
  cases next_cases hs with
  | call o => exact absurd rfl disturbed
  | step i fails o sql rest removed overwritten here =>
    have wrong : ¬ Call.undisturbed ⟨o, .op sql rest, removed, overwritten⟩ = true := by
      rw [undisturbed, here] at disturbed
      exact disturbed
    obtain ⟨username, passwordHash, asks, removed, count, same, differ⟩ := disturbed_cases wrong
    cases same
    have stands : DeleteAt s.conn username passwordHash (.op .changes asks) removed (some count) :=
      h _ (List.mem_of_getElem? here)
    generalize point : Prog.op SqlOp.changes asks = p at stands
    cases stands with
    | deleted _ _ last =>
      unfold countThen at point
      cases point
      intro reports
      have bound := (List.getElem?_eq_some_iff.mp here).1
      have said : (decide (s.conn.changes > 0) = true ↔
          0 < removed + (s.conn.tables.users.length - s.conn.tables.users.length)) := by
        have own := reports _ (List.mem_of_getElem? (List.getElem?_set_self (by simpa using bound)))
        cases fails <;> exact own
      rw [decide_eq_true_iff, last, Option.getD_some, removed_nothing] at said
      exact differ said
    | begins => cases point
    | prepared => cases point
    | finished => cases point

/-- A delete reports its own effect in every state of a run exactly if, whenever one asks for
the row count, no other call has stepped an insert or a delete since its own, or the last of them
has left a count that is 0 exactly if its own was. -/
theorem deletes_report_iff {c : Conn} {s : State} {actions : List Action}
    (run : exec step ⟨c, []⟩ actions = some s) :
    Throughout step Reports ⟨c, []⟩ actions ↔
      Along step (undisturbed · · = true) ⟨c, []⟩ actions :=
  throughout_iff_along (fun _ h => h.reports) (fun _ _ _ h clear hs => step_inv h clear hs)
    (fun _ _ _ h disturbed hs => step_disturbed h disturbed hs)
    (fun _ hk => absurd hk List.not_mem_nil) run

/-- One account. -/
def oneAccount : Tables := { users := [⟨1, [97], [104]⟩], userSeq := 1 }

/-- Deletes with the right and with a wrong password. Before the statement of the first a message
is saved, and after that of the second the insert of a user fails. -/
def deletesBetween : List Action :=
  [.call (.deleteUser [97] [104]), .call (.saveMessage 1 1 [109]), .call (.addUser [98] [105]),
    .call (.deleteUser [97] [120]), .step 0 false, .step 1 false, .step 1 false, .step 0 false,
    .step 2 false, .step 0 false, .step 3 false, .step 3 false, .step 2 true, .step 3 false]

theorem deletes_report_between : Throughout step Reports ⟨{ tables := oneAccount }, []⟩
    deletesBetween := by
  have run : ∃ s, exec step ⟨{ tables := oneAccount }, []⟩ deletesBetween = some s := ⟨_, rfl⟩
  obtain ⟨s, run⟩ := run
  exact (deletes_report_iff run).mpr (by decide)

/-- With the wrong password nothing is deleted, but meanwhile a message is saved. -/
def messageBetween : List Action :=
  [.call (.deleteUser [97] [120]), .call (.saveMessage 1 1 [109]), .step 0 false, .step 0 false,
    .step 1 false, .step 1 false, .step 0 false]

theorem delete_reports_foreign_insert :
    ¬ Throughout step Reports ⟨{ tables := oneAccount }, []⟩ messageBetween := by
  have run : ∃ conn removed overwritten calls,
      exec step ⟨{ tables := oneAccount }, []⟩ messageBetween =
        some ⟨conn, ⟨.deleteUser [97] [120], .done true, removed, overwritten⟩ :: calls⟩ ∧
      removed = 0 ∧ conn.tables.users = oneAccount.users := ⟨_, _, _, _, rfl, rfl, rfl⟩
  obtain ⟨conn, removed, overwritten, calls, run, nothing, _⟩ := run
  intro reports
  have said : true = true ↔ 0 < removed := reports.last run _ List.mem_cons_self
  exact absurd (said.mp rfl) (by omega)

end RowCounts

end Cvcn
