import Cvcn.Net.Effects
import Cvcn.Services.Protocol

/-!
# Requests handled one at a time

The server with its concurrency taken away: a client connects, a packet of a session is
handled from its first operation to its last, or a session is closed. Only an
`AuthRequest` with the right password changes a session or the registry.
-/

namespace Cvcn

open Atomic Machine

/-- A packet handled alone. -/
def Shared.handle (sh : Shared) (t : Task) : Shared := ((taskBody t).run Shared.exec sh).2

/-- The id and the name that the task's session is authenticated with, if the task is an
`AuthRequest` with the right password. -/
def Shared.login (sh : Shared) (t : Task) : Option (Int × Bytes) :=
  if (sh.objects t.session).closed then none
  else
    match PacketType.ofCode t.header.type, PacketParser.authRequest t.body with
    | some .authRequest, some data =>
      let storedHash := ((RepoOp.getUserPasswordHash data.username).exec sh.conn).1
      if Validator.validateUsername data.username && Validator.validatePassword data.password &&
        (!storedHash.isEmpty && storedHash == config.PASSWORD_HASH_PREFIX ++ data.password)
      then some (((RepoOp.getUserID data.username).exec
        ((RepoOp.getUserPasswordHash data.username).exec sh.conn).2).1, data.username)
      else none
    | _, _ => none

/-- What happens to the server from outside. -/
inductive ClientEvent where
  | connect (fd : Fd)
  | packet (x : SessionId) (header : PacketHeaderRaw) (body : Bytes)
  | close (fd : Fd)
  deriving DecidableEq, Repr

/-- The packet with these bytes. -/
def ClientEvent.received (x : SessionId) (data : Bytes) : ClientEvent :=
  .packet x ((PacketParser.parseHeader data).getD ⟨0, 0, 0, 0⟩) (data.drop PacketHeaderRaw.size)

namespace Server

instance (s : Server) (x : SessionId) : Decidable (s.Alive x) := inferInstanceAs (Decidable (_ ∧ _))

def serve (s : Server) : ClientEvent → Option Server
  | .connect fd => s.accept (some fd)
  | .packet x header body =>
    if s.Alive x then some { s with shared := s.shared.handle ⟨x, header, body⟩ } else none
  | .close fd => some (s.closeClient fd)

end Server

namespace Shared

/-- The sessions and the registry are the same. -/
structure SameUsers (sh sh' : Shared) : Prop where
  objects : sh'.objects = sh.objects
  byUserID : sh'.byUserID = sh.byUserID
  next : sh'.next = sh.next

theorem SameUsers.refl (sh : Shared) : SameUsers sh sh := ⟨rfl, rfl, rfl⟩

/-- An operation that is allowed to a task that may not log in. -/
theorem sameUsers_exec {sh sh' : Shared} {own : SessionId} {stage : Stage} {o : Op}
    (h : allowed own false stage o) (quiet : ∀ userID, stage ≠ .authenticated userID)
    (same : SameUsers sh sh') : SameUsers sh (exec o sh').2 := by
  cases o with
  | repo o => exact ⟨same.objects, same.byUserID, same.next⟩
  | findByUserID userID => exact same
  | registerUser userID session =>
    cases stage with
    | authenticated u => exact absurd rfl (quiet u)
    | free => cases h
    | holding recipient => cases h
  | session x o =>
    cases o with
    | setAuthenticated userID username =>
      cases stage with
      | authenticated u => cases h
      | free => cases h.2
      | holding recipient => cases h
    | _ => exact ⟨same.objects, same.byUserID, same.next⟩

theorem after_quiet {own : SessionId} {stage : Stage} {o : Op} (r : o.Res)
    (h : allowed own false stage o) (quiet : ∀ userID, stage ≠ .authenticated userID) :
    ∀ userID, after stage o r ≠ .authenticated userID := by
  intro u e
  cases stage with
  | authenticated v => exact quiet v rfl
  | free =>
    cases o with
    | session x o => cases o <;> first | cases h.2 | cases e
    | findByUserID v => cases r <;> cases e
    | _ => cases e
  | holding recipient =>
    cases o with
    | session x o => cases o <;> cases e
    | _ => cases e

/-- A task that may not log in leaves the sessions and the registry alone. -/
theorem sameUsers_run {own : SessionId} {p : ServerProg Unit} (h : Follows own false p)
    (sh : Shared) : SameUsers sh (p.run exec sh).2 := by
  have keep : ∀ (stage : Stage) (o : Op) (sh' : Shared), allowed own false stage o →
      SameUsers sh sh' ∧ (∀ userID, stage ≠ .authenticated userID) →
      SameUsers sh (exec o sh').2 ∧
        ∀ userID, after stage o (exec o sh').1 ≠ .authenticated userID :=
    fun stage o sh' ok inv => ⟨sameUsers_exec ok inv.2 inv.1, after_quiet _ ok inv.2⟩
  have start : SameUsers sh sh ∧ ∀ userID, Stage.free ≠ .authenticated userID := ⟨.refl sh, nofun⟩
  obtain ⟨_, _, same, _⟩ := h.run
    (I := fun stage sh' => SameUsers sh sh' ∧ ∀ userID, stage ≠ .authenticated userID) keep start
  exact same

/-- A login sets the session's user and registers it. -/
def loggedIn (sh : Shared) (x : SessionId) (userID : Int) (username : Bytes) : Shared :=
  (sh.setSession x { sh.objects x with userID := userID, username := username }).registerUser
    userID x

section

variable (sh : Shared) (x : SessionId) (userID : Int) (username : Bytes)

theorem loggedIn_objects : (sh.loggedIn x userID username).objects =
    Function.update sh.objects x { sh.objects x with userID := userID, username := username } := by
  unfold loggedIn registerUser
  split <;> rfl

theorem loggedIn_conn : (sh.loggedIn x userID username).conn = sh.conn := by
  unfold loggedIn registerUser
  split <;> rfl

theorem loggedIn_next : (sh.loggedIn x userID username).next = sh.next := by
  unfold loggedIn registerUser
  split <;> rfl

/-- An entry after a login is the new one or was there. -/
theorem loggedIn_entry {v : Int} {y : SessionId}
    (entry : (sh.loggedIn x userID username).byUserID v = some y) :
    (v = userID ∧ 0 < userID ∧ y = x) ∨ sh.byUserID v = some y := by
  unfold loggedIn registerUser at entry
  split at entry
  · exact .inr entry
  · rename_i positive
    simp only [Function.update_apply] at entry
    split at entry
    · rename_i own
      cases entry
      exact .inl ⟨own, by omega, rfl⟩
    · exact .inr entry

end

theorem handleAuthRequest_run (header : PacketHeaderRaw) (data : AuthRequestData) (x : SessionId)
    (sh : Shared) :
    let result := ((AuthService.handleAuthRequest header data x).run exec sh).2
    let storedHash := ((RepoOp.getUserPasswordHash data.username).exec sh.conn).1
    if !storedHash.isEmpty && storedHash == config.PASSWORD_HASH_PREFIX ++ data.password then
      SameUsers (sh.loggedIn x ((RepoOp.getUserID data.username).exec
        ((RepoOp.getUserPasswordHash data.username).exec sh.conn).2).1 data.username) result
    else SameUsers sh result := by
  simp only [AuthService.handleAuthRequest, Repo.getUserPasswordHash_eq, Prog.op_bind,
    Prog.done_bind, Prog.run_op]
  simp only [exec]
  split
  · rename_i right
    simp only [right, ↓reduceIte]
    simp only [AuthService.authenticate, Repo.getUserID_eq, IClientSession.setAuthenticated_eq,
      ISessionRegistry.registerUser_eq, IClientSession.sendRaw_eq, Prog.op_bind, Prog.done_bind,
      Prog.run_op, Prog.run_done, exec, sessionOp]
    unfold loggedIn registerUser
    split <;> exact ⟨rfl, rfl, rfl⟩
  · rename_i wrong
    simp only [wrong]
    exact ⟨rfl, rfl, rfl⟩

theorem handle_eq (sh : Shared) (t : Task) :
    sh.handle t = if (sh.objects t.session).closed then sh
      else ((PacketDispatcher.dispatch t.header t.body t.session).run exec sh).2 := by
  simp only [handle, taskBody, IClientSession.isClosed_eq, Prog.op_bind, Prog.done_bind,
    Prog.run_op]
  simp only [exec, sessionOp]
  by_cases closed : (sh.objects t.session).closed = true
  · simp only [closed, ↓reduceIte]
    rfl
  · simp only [closed]
    rfl

/-- A packet changes the users of sessions as `login` says. -/
theorem handle_users (sh : Shared) (t : Task) :
    match sh.login t with
    | some (userID, username) => SameUsers (sh.loggedIn t.session userID username) (sh.handle t)
    | none => SameUsers sh (sh.handle t) := by
  by_cases closed : (sh.objects t.session).closed = true
  · simp only [login, handle_eq, closed, ↓reduceIte]
    exact .refl sh
  by_cases type : PacketType.ofCode t.header.type = some .authRequest
  · have dispatch : PacketDispatcher.dispatch t.header t.body t.session =
        PacketDispatcher.validated (PacketParser.authRequest t.body)
          (fun data => Validator.validateUsername data.username &&
            Validator.validatePassword data.password)
          fun data => AuthService.handleAuthRequest t.header data t.session := by
      simp only [PacketDispatcher.dispatch, type]
    simp only [login, handle_eq, closed, dispatch, type]
    cases PacketParser.authRequest t.body with
    | none => exact .refl sh
    | some data =>
      simp only [PacketDispatcher.validated]
      cases Validator.validateUsername data.username &&
        Validator.validatePassword data.password with
      | false => exact .refl sh
      | true =>
        have run := handleAuthRequest_run t.header data t.session sh
        simp only at run
        simp only [Bool.true_and, Bool.false_eq_true, ↓reduceIte]
        split at run <;> rename_i right
        · simp only [right, ↓reduceIte]
          exact run
        · simp only [right]
          exact run
  · have none : sh.login t = none := by
      unfold login
      rw [if_neg closed]
      split
      · rename_i h _
        exact absurd h type
      · rfl
    rw [none]
    exact sameUsers_run (taskBody_follows t (.inr type)) sh

end Shared

end Cvcn
