import Cvcn.Lib.Threads
import Cvcn.Net.Effects
import Cvcn.Services.Protocol

/-!
# Who is logged in

`handleAuthRequest` asks for the password hash of a name and then, in a query of its own, for
its id. Between the two another worker may delete the user, and register the name again with
another password. The id is the one of the password verified as long as the row that the second
query finds still has it, and has an id that is an `int`.
-/

namespace Cvcn

open Atomic Machine

/-- What the task logs in with, if it is an `AuthRequest`. -/
def Task.credentials (t : Task) : Option AuthRequestData :=
  match PacketType.ofCode t.header.type with
  | some .authRequest => PacketParser.authRequest t.body
  | _ => none

/-- The row of a user with this name and password. -/
def AuthRequestData.row (data : AuthRequestData) (userID : Int) : UserRow :=
  ⟨userID, data.username, config.PASSWORD_HASH_PREFIX ++ data.password⟩

/-- The server, and for each worker the `users` tables that there were since it took its task
up, the last one first. -/
structure Watched where
  server : Server
  seen : Nat → List (List UserRow)

namespace Watched

def start (s : Server) : Watched := ⟨s, fun _ => []⟩

/-- Worker `i` takes a task up. -/
def takesUp (w : Watched) (a : Action) (i : Nat) : Bool :=
  match w.server.pool.workers[i]? with
  | some .waiting => a == .worker i
  | _ => false

def step (w : Watched) (a : Action) : Option Watched :=
  (w.server.step a).map fun s =>
    { server := s
      seen := fun i => s.shared.conn.tables.users :: if w.takesUp a i then [] else w.seen i }

/-- A worker that is about to authenticate its session has an id and a name that some table
since it took its task up had, with the password of the request. -/
def Authentic (w : Watched) : Prop :=
  ∀ i job x userID username rest,
    w.server.pool.workers[i]? =
      some (.running ⟨job, .op (.session x (.setAuthenticated userID username)) rest⟩) →
    ∃ data, job.task.credentials = some data ∧ username = data.username ∧ 0 < userID ∧
      ∃ users ∈ w.seen i, data.row userID ∈ users

/-- The row that an `AuthRequest`'s query for the id finds has the password of the request, and
an id that the query can return. -/
def idQuerySafe (w : Watched) : Action → Bool
  | .worker i =>
    match w.server.pool.workers[i]? with
    | some (.running ⟨job, .op (.repo (.getUserID _)) _⟩) =>
      match job.task.credentials with
      | some data =>
        match w.server.shared.conn.tables.users.find? (·.username == data.username) with
        | some u =>
          u.passwordHash == config.PASSWORD_HASH_PREFIX ++ data.password && decide (IsInt u.id)
        | none => false
      | none => true
    | _ => true
  | _ => true

end Watched

/-! ## What the tasks do -/

/-- A session is authenticated right after the query for the id, with its answer. -/
def mayLogin (t : Task) (last : Option (Bytes × Int)) : Op → Prop
  | .session _ (.setAuthenticated userID username) =>
    last = some (username, userID) ∧ cStr username = username ∧
      ∃ data, t.credentials = some data ∧ username = data.username
  | _ => True

/-- The last operation was a query for an id. -/
def lastQuery (_ : Option (Bytes × Int)) : (o : Op) → o.Res → Option (Bytes × Int)
  | .repo (.getUserID username), userID => some (username, userID)
  | _, _ => none

def LogsIn (t : Task) (last : Option (Bytes × Int)) (p : ServerProg Unit) : Prop :=
  p.Keeps (mayLogin t) lastQuery last fun _ _ => True

/-- A task that may not log in. -/
theorem LogsIn.of_follows {t : Task} {own : SessionId} {p : ServerProg Unit}
    (h : Follows own false p) (last : Option (Bytes × Int)) : LogsIn t last p := by
  refine (h.simulate (fun _ _ => True) ?_ trivial).mono fun _ _ _ => trivial
  intro stage last o _ ok
  refine ⟨?_, fun _ => trivial⟩
  cases o with
  | session x o =>
    cases o with
    | setAuthenticated userID username =>
      cases stage with
      | free => cases ok.2
      | authenticated u => cases ok
      | holding recipient => cases ok
    | _ => trivial
  | _ => trivial

theorem handleAuthRequest_logsIn {t : Task} {data : AuthRequestData}
    (credentials : t.credentials = some data) (name : cStr data.username = data.username)
    (last : Option (Bytes × Int)) :
    LogsIn t last (AuthService.handleAuthRequest t.header data t.session) := by
  simp only [LogsIn, AuthService.handleAuthRequest, Repo.getUserPasswordHash_eq, Prog.op_bind,
    Prog.done_bind, Prog.keeps_op]
  refine ⟨trivial, fun storedHash => ?_⟩
  split
  · simp only [AuthService.authenticate, Repo.getUserID_eq, IClientSession.setAuthenticated_eq,
      ISessionRegistry.registerUser_eq, IClientSession.sendRaw_eq, Prog.op_bind, Prog.done_bind,
      Prog.keeps_op, Prog.keeps_done]
    exact ⟨trivial, fun userID => ⟨⟨rfl, name, data, credentials, rfl⟩,
      fun _ => ⟨trivial, fun _ => ⟨trivial, fun _ => trivial⟩⟩⟩⟩
  · exact ⟨trivial, fun _ => trivial⟩

theorem taskBody_logsIn (t : Task) (last : Option (Bytes × Int)) : LogsIn t last (taskBody t) := by
  by_cases type : PacketType.ofCode t.header.type = some .authRequest
  · simp only [LogsIn, taskBody, IClientSession.isClosed_eq, Prog.op_bind, Prog.done_bind,
      Prog.keeps_op]
    refine ⟨trivial, fun closed => ?_⟩
    cases closed with
    | true => trivial
    | false =>
      have credentials : t.credentials = PacketParser.authRequest t.body := by
        simp only [Task.credentials, type]
      simp only [Bool.false_eq_true, ↓reduceIte, PacketDispatcher.dispatch, type]
      refine validated_keeps (fun data parsed valid => ?_) trivial
      rw [Bool.and_eq_true] at valid
      exact handleAuthRequest_logsIn (credentials.trans parsed)
        (Validator.cStr_of_bounded valid.1 rfl) _
  · exact LogsIn.of_follows (taskBody_follows t (.inr type)) last

/-! ## The users table -/

/-- Ids are given out from 1 on. -/
structure Tables.IdsPositive (t : Tables) : Prop where
  seq : 0 ≤ t.userSeq
  users : ∀ u ∈ t.users, 0 < u.id

structure Conn.IdsPositive (c : Conn) : Prop where
  now : c.tables.IdsPositive
  saved : ∀ t, c.saved = some t → t.IdsPositive

theorem Conn.IdsPositive.write {c c' : Conn} {sql : Stmt} (h : c.IdsPositive)
    (hw : c.write sql = some c') : c'.IdsPositive := by
  cases sql with
  | insertUser username passwordHash =>
    simp only [Conn.write] at hw
    split at hw
    · cases hw
    · cases hw
      have seq := h.now.seq
      refine ⟨⟨?_, fun u hu => ?_⟩, h.saved⟩
      · simp only [Conn.inserted]
        omega
      · cases List.mem_append.mp hu with
        | inl old => exact h.now.users u old
        | inr new =>
          rw [List.mem_singleton.mp new]
          simp only
          omega
  | deleteUser username passwordHash =>
    cases hw
    exact ⟨⟨h.now.seq, fun u hu => h.now.users u (List.mem_of_mem_filter hu)⟩, h.saved⟩
  | insertChat =>
    cases hw
    exact ⟨⟨h.now.seq, h.now.users⟩, h.saved⟩
  | insertMember chatID userID =>
    simp only [Conn.write] at hw
    split at hw
    · cases hw
    · cases hw
      exact ⟨⟨h.now.seq, h.now.users⟩, h.saved⟩
  | insertMessage chatID senderID text =>
    cases hw
    exact ⟨⟨h.now.seq, h.now.users⟩, h.saved⟩
  | begin =>
    simp only [Conn.write] at hw
    split at hw
    · cases hw
    · cases hw
      exact ⟨h.now, fun t ht => by cases ht; exact h.now⟩
  | commit =>
    simp only [Conn.write] at hw
    split at hw
    · cases hw
      exact ⟨h.now, fun t ht => by cases ht⟩
    · cases hw
  | rollback =>
    simp only [Conn.write] at hw
    split at hw
    · rename_i t ht
      cases hw
      exact ⟨h.saved t ht, fun t' ht' => by cases ht'⟩
    · cases hw
  | _ =>
    cases hw
    exact h

theorem Conn.IdsPositive.failed {c : Conn} (h : c.IdsPositive) (sql : Stmt) :
    (c.failed sql).IdsPositive where
  now := c.failed_tables sql ▸ h.now
  saved t ht := h.saved t (c.failed_saved sql ▸ ht)

theorem Conn.IdsPositive.call {c : Conn} (h : c.IdsPositive) (o : SqlOp) :
    (Conn.call o c).2.IdsPositive := by
  cases o with
  | step sql =>
    simp only [Conn.call, Conn.stepStmt]
    split
    · split <;> exact h
    · split
      · rename_i hw
        exact h.write hw
      · exact h.failed sql
  | exec sql =>
    simp only [Conn.call]
    split
    · rename_i hw
      exact h.write hw
    · exact h.failed sql
  | _ => exact h

theorem Conn.IdsPositive.exec {c : Conn} (h : c.IdsPositive) (o : RepoOp) :
    (o.exec c).2.IdsPositive :=
  Prog.run_invariant (I := Conn.IdsPositive) (fun o _ h => h.call o) o.prog h

/-! ## Runs -/

namespace Watched

variable {w w' : Watched} {a : Action}

/-- The task of worker `i`: after a query for the id of its own name it knows an id that goes
with its password. -/
def TaskOk (w : Watched) (i : Nat) (r : Running) : Prop :=
  ∃ last, LogsIn r.job.task last r.rest ∧
    ∀ data userID, r.job.task.credentials = some data → last = some (data.username, userID) →
      cStr data.username = data.username →
      0 < userID ∧ ∃ users ∈ w.seen i, data.row userID ∈ users

structure AuthInv (w : Watched) : Prop where
  ids : w.server.shared.conn.IdsPositive
  running : ∀ i r, w.server.pool.workers[i]? = some (.running r) → TaskOk w i r

theorem AuthInv.authentic (h : AuthInv w) : Authentic w := by
  intro i job x userID username rest hw
  obtain ⟨last, logs, known⟩ := h.running i _ hw
  obtain ⟨⟨answer, name, data, credentials, same⟩, _⟩ := logs
  subst same
  obtain ⟨positive, table⟩ := known data userID credentials answer name
  exact ⟨data, credentials, rfl, positive, table⟩

theorem TaskOk.mono {i : Nat} {r : Running} (h : TaskOk w i r)
    (grows : ∀ users ∈ w.seen i, users ∈ w'.seen i) : TaskOk w' i r := by
  obtain ⟨last, logs, known⟩ := h
  refine ⟨last, logs, fun data userID credentials answer name => ?_⟩
  obtain ⟨positive, users, hu, row⟩ := known data userID credentials answer name
  exact ⟨positive, users, grows users hu, row⟩

/-- The tables that a worker has seen are not forgotten while its task runs. -/
theorem step_seen {i : Nat} {r : Running} (hs : w.step a = some w')
    (hw : w.server.pool.workers[i]? = some (.running r)) :
    w'.seen i = w'.server.shared.conn.tables.users :: w.seen i := by
  obtain ⟨s, _, rfl⟩ := Option.map_eq_some_iff.mp hs
  simp [takesUp, hw]

/-- The query for the id, and all other operations of a task. -/
theorem TaskOk.next {i : Nat} {job : Job} {o : Op} {rest : o.Res → ServerProg Unit}
    (h : TaskOk w i ⟨job, .op o rest⟩) (ids : w.server.shared.conn.IdsPositive)
    (safe : w.idQuerySafe (.worker i) = true)
    (hw : w.server.pool.workers[i]? = some (.running ⟨job, .op o rest⟩))
    (now : w'.server.shared = (Shared.exec o w.server.shared).2)
    (seen : w'.server.shared.conn.tables.users ∈ w'.seen i) :
    TaskOk w' i ⟨job, rest (Shared.exec o w.server.shared).1⟩ := by
  obtain ⟨last, logs, _⟩ := h
  refine ⟨_, logs.2 _, fun data userID credentials answer name => ?_⟩
  cases o with
  | repo o =>
    cases o with
    | getUserID username =>
      simp only [lastQuery, Shared.exec, Option.some.injEq, Prod.mk.injEq] at answer
      obtain ⟨same, id⟩ := answer
      subst same
      simp only [idQuerySafe, hw, credentials] at safe
      split at safe
      · rename_i u found
        obtain ⟨hash, int⟩ : u.passwordHash = config.PASSWORD_HASH_PREFIX ++ data.password ∧
            IsInt u.id := by simpa using safe
        have username : u.username = data.username := by simpa using List.find?_some found
        have id : u.id = userID := by
          rw [← id, RepoOp.getUserID_exec, name, found]
          exact int.toInt32_eq.symm
        have row : data.row userID = u := by
          simp only [AuthRequestData.row, ← id, ← hash, ← username]
        have mem := List.mem_of_find?_eq_some found
        have users : w'.server.shared.conn.tables.users = w.server.shared.conn.tables.users := by
          rw [now]
          simp only [Shared.exec, RepoOp.getUserID_exec]
        refine ⟨by rw [← id]; exact ids.now.users u mem, _, seen, ?_⟩
        rw [row, users]
        exact mem
      · cases safe
    | _ => cases answer
  | _ => cases answer

theorem exec_ids {sh : Shared} (h : sh.conn.IdsPositive) (o : Op) :
    (Shared.exec o sh).2.conn.IdsPositive := by
  cases o with
  | repo o => exact h.exec o
  | findByUserID userID => exact h
  | registerUser userID x =>
    simp only [Shared.exec, Shared.registerUser]
    split <;> exact h
  | session x o => cases o <;> exact h

theorem step_auth (h : AuthInv w) (safe : w.idQuerySafe a = true) (hs : w.step a = some w') :
    AuthInv w' := by
  have kept : ∀ j r, w.server.pool.workers[j]? = some (.running r) → TaskOk w' j r := by
    intro j r hj
    apply (h.running j r hj).mono
    rw [step_seen hs hj]
    exact fun users => List.mem_cons_of_mem _
  obtain ⟨s, step, same⟩ := Option.map_eq_some_iff.mp hs
  have server : w'.server = s := by rw [← same]
  cases Server.step_cases step with
  | worker i b is work =>
    subst is
    -- the worker's own task; the others are as they were
    cases Backend.worker_task work with
    | begins job tasks =>
      refine ⟨by rw [server]; exact h.ids, fun j r hr => ?_⟩
      rw [server] at hr
      rcases getElem?_set_cases hr with ⟨_, new⟩ | ⟨_, old⟩
      · cases new
        exact ⟨none, taskBody_logsIn job.task none, nofun⟩
      · exact kept j r old
    | executes job o rest running =>
      have seen := step_seen hs running
      refine ⟨by rw [server]; exact exec_ids h.ids o, fun j r hr => ?_⟩
      rw [server] at hr
      rcases getElem?_set_cases hr with ⟨rfl, new⟩ | ⟨_, old⟩
      · cases new
        apply (h.running j _ running).next h.ids safe running (by rw [server])
        rw [seen]
        exact List.mem_cons_self
      · exact kept j r old
    | between v pool queue idle workers =>
      refine ⟨by rw [server]; exact h.ids, fun j r hr => ?_⟩
      have hr : pool.workers[j]? = some (.running r) := by
        rw [server] at hr
        exact hr
      rw [workers] at hr
      exact kept j r (running_of_set hr idle).2
  | connects =>
    refine ⟨by rw [server]; exact h.ids, fun j r hr => kept j r ?_⟩
    rw [server] at hr
    exact hr
  | deletes deletes =>
    have frame := deletes.frame
    refine ⟨by rw [server, frame.conn]; exact h.ids, fun j r hr => kept j r ?_⟩
    rw [server, frame.workers] at hr
    exact hr

/-- **Authentication.** In every run in which the row found by an `AuthRequest`'s query for the
id still has the password of the request, and an id that is an `int`, a session is authenticated
only with an id and a name that the table had, with that password, while the request was
handled. -/
theorem authentic_of_rows (tables : Tables) (ids : tables.IdsPositive) (numThreads : Nat)
    (listenFd eventFd : Fd) (as : List Action)
    (safe : Along step (idQuerySafe · · = true)
      (start (.start tables numThreads listenFd eventFd)) as) :
    Throughout step Authentic (start (.start tables numThreads listenFd eventFd)) as := by
  apply safe.throughout (J := AuthInv)
  · exact fun w h => h.authentic
  · exact fun w a w' => step_auth
  · refine ⟨⟨ids, nofun⟩, fun i r hr => ?_⟩
    have waiting := List.eq_of_mem_replicate (List.mem_of_getElem? hr)
    cases waiting

/-- Two clients. The password of user `a` has been verified for the first; the second deletes
the user and registers the name with a password of its own. -/
def nameTaken : List Action :=
  [.epollWait [{ fd := 3, readable := true }], .main { accepted := some 5 },
    .epollWait [{ fd := 3, readable := true }], .main { accepted := some 6 },
    .epollWait [{ fd := 5, readable := true }, { fd := 6, readable := true }],
    .main { recvs := [.bytes (PacketBuilder.authRequest 1 5 ⟨[97], [112]⟩)] },
    .main { recvs := [.bytes (PacketBuilder.deleteRequest 1 6 ⟨[97], [112]⟩ ++
      PacketBuilder.registerRequest 2 6 ⟨[97], [113]⟩)] },
    .worker 0, .worker 0, .worker 0] ++
  List.replicate 10 (.worker 1) ++ [.worker 0]

def oneUser : Tables where
  users := [⟨1, [97], config.PASSWORD_HASH_PREFIX ++ [112]⟩]
  userSeq := 1

/-- The first client, who gave the old password, is about to be logged in as the new user. -/
theorem wrong_user_authenticated :
    ∃ w, exec step (start (.start oneUser 2 3 4)) nameTaken = some w ∧
      w.server.pool.workers[0]?.bind Worker.nextOp = some (.session 0 (.setAuthenticated 2 [97])) ∧
      ¬ Authentic w := by
  refine ⟨_, rfl, rfl, fun h => ?_⟩
  obtain ⟨data, credentials, _, _, users, seen, row⟩ := h 0 _ _ _ _ _ rfl
  cases credentials
  revert users
  decide

/-- The same login with the name left alone. -/
theorem authentic_alone :
    Throughout step Authentic (start (.start oneUser 2 3 4))
      (nameTaken.take 9 ++ [.worker 0, .worker 0, .worker 0]) :=
  authentic_of_rows oneUser ⟨by decide, by decide⟩ 2 3 4 _ (by decide +kernel)

end Watched

end Cvcn
