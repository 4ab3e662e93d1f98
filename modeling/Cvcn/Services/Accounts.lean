import Cvcn.Net.Framing
import Cvcn.Services.Requests
import Cvcn.Services.Sequential

/-!
# The users table as a map of passwords

`AuthService` on the users table, with requests handled one at a time, answers as a machine over
a partial map from usernames to passwords. The map is in the table: each key has one row, whose
hash is the prefix and the password.
-/

namespace Cvcn

open Atomic

/-! ## The handlers of `AuthService` -/

/-- The connection after a name that is taken has been refused: before the insert, or by it if
the hash that is stored is empty. -/
def Conn.refuses (c : Conn) (username : Bytes) : Conn :=
  if ((RepoOp.userExists username).exec c).1 then c else { c with changes := 0 }

@[simp] theorem Conn.refuses_tables (c : Conn) (username : Bytes) :
    (c.refuses username).tables = c.tables := by
  unfold refuses
  split <;> rfl

@[simp] theorem Conn.refuses_saved (c : Conn) (username : Bytes) :
    (c.refuses username).saved = c.saved := by
  unfold refuses
  split <;> rfl

namespace Shared

variable {sh : Shared} {x : SessionId}

/-- The command that `sendRaw` of the session pushes. -/
def reply (sh : Shared) (x : SessionId) (data : Bytes) : Queued :=
  ⟨⟨.sendRaw, (sh.objects x).fileDescriptor, data⟩, x⟩

/-- A user is added unless the name is taken; an existing user with an empty hash is not found
but refused by the table. -/
theorem handleRegisterRequest_run (header : PacketHeaderRaw) (data : RegisterRequestData) :
    let answer := fun success =>
      PacketBuilder.registerResponse header.messageID header.sessionID ⟨success⟩
    let t := sh.conn.tables
    ((AuthService.handleRegisterRequest header data x).run exec sh).2 =
      if t.users.any (·.username == cStr data.username) then
        { sh with
          conn := sh.conn.refuses data.username
          queue := sh.queue ++ [sh.reply x (answer false)] }
      else
        { sh with
          conn := sh.conn.inserted { t with
            users := t.users ++ [⟨t.userSeq + 1, cStr data.username,
              cStr (config.PASSWORD_HASH_PREFIX ++ data.password)⟩]
            userSeq := t.userSeq + 1 } (t.userSeq + 1)
          queue := sh.queue ++ [sh.reply x (answer true)] } := by
  simp only [AuthService.handleRegisterRequest, Repo.userExists_eq, Prog.op_bind, Prog.done_bind,
    Prog.run_op, Conn.refuses]
  simp only [exec, RepoOp.userExists_exec, RepoOp.getUserPasswordHash_exec]
  split
  · rename_i found
    have taken : sh.conn.tables.users.any (·.username == cStr data.username) = true := by
      cases e : sh.conn.tables.users.find? (·.username == cStr data.username) with
      | none => simp [e] at found
      | some u =>
        have named := List.find?_some e
        exact List.any_eq_true.mpr ⟨u, List.mem_of_find?_eq_some e, named⟩
    rw [if_pos taken]
    rfl
  · simp only [Repo.addUser_eq, Prog.op_bind, Prog.done_bind, Prog.run_op, exec,
      RepoOp.addUser_exec]
    by_cases taken : sh.conn.tables.users.any (·.username == cStr data.username) = true
    · simp only [taken, if_true]
      rfl
    · simp only [taken]
      rfl

theorem handleDeleteRequest_run (header : PacketHeaderRaw) (data : DeleteRequestData) :
    let hit := fun u : UserRow => u.username == cStr data.username &&
      u.passwordHash == cStr (config.PASSWORD_HASH_PREFIX ++ data.password)
    let t := sh.conn.tables
    ((AuthService.handleDeleteRequest header data x).run exec sh).2 =
      { sh with
        conn := { sh.conn with
          tables := { t with users := t.users.filter (!hit ·) }
          changes := t.users.countP hit }
        queue := sh.queue ++ [sh.reply x (PacketBuilder.deleteResponse header.messageID
          header.sessionID ⟨decide (t.users.countP hit > 0)⟩)] } := rfl

/-- The session is logged in if the stored hash is that of the password. -/
theorem handleAuthRequest_eq (header : PacketHeaderRaw) (data : AuthRequestData) :
    let answer := fun success =>
      PacketBuilder.authResponse header.messageID header.sessionID ⟨success⟩
    let storedHash := ((RepoOp.getUserPasswordHash data.username).exec sh.conn).1
    let userID := ((RepoOp.getUserID data.username).exec sh.conn).1
    ((AuthService.handleAuthRequest header data x).run exec sh).2 =
      if !storedHash.isEmpty && storedHash == config.PASSWORD_HASH_PREFIX ++ data.password then
        { sh.loggedIn x userID data.username with
          queue := sh.queue ++ [sh.reply x (answer true)] }
      else { sh with queue := sh.queue ++ [sh.reply x (answer false)] } := by
  have same : ((RepoOp.getUserPasswordHash data.username).exec sh.conn).2 = sh.conn := by
    rw [RepoOp.getUserPasswordHash_exec]
  simp only [AuthService.handleAuthRequest, Repo.getUserPasswordHash_eq, Prog.op_bind,
    Prog.done_bind, Prog.run_op]
  simp only [exec, same]
  split
  · simp only [AuthService.authenticate, Repo.getUserID_eq, IClientSession.setAuthenticated_eq,
      ISessionRegistry.registerUser_eq, IClientSession.sendRaw_eq, Prog.op_bind, Prog.done_bind,
      Prog.run_op, Prog.run_done, exec, sessionOp]
    have conn : ((RepoOp.getUserID data.username).exec sh.conn).2 = sh.conn := by
      rw [RepoOp.getUserID_exec]
    simp only [conn]
    unfold loggedIn registerUser
    split <;> simp [push, reply, setSession]
  · rfl

/-- The task of a valid request is the run of its handler. -/
theorem handle_request (opened : (sh.objects x).closed = false) {r : Request} (valid : r.Valid)
    (messageID sessionID : UInt32) :
    let p := PacketBuilder.packetOf messageID sessionID r.payload
    sh.handle (toTask x p) = ((r.handle p.1 x).run exec sh).2 := by
  intro p
  have runs : PacketDispatcher.dispatch p.1 p.2 x = r.handle p.1 x :=
    (PacketDispatcher.dispatch_eq_handle_iff r rfl p.2 x).mpr ⟨r.encoding_eq.symm, valid⟩
  rw [handle_eq]
  simp only [toTask, opened, Bool.false_eq_true, if_false, runs]

end Shared

/-! ## The reference machine -/

inductive AccountOp where
  | register
  | auth
  | delete
  deriving DecidableEq, Repr

structure AccountRequest where
  op : AccountOp
  username : Bytes
  password : Bytes
  deriving DecidableEq, Repr

/-- What the accounts are: the password of each username that is taken. -/
abbrev Accounts := Bytes → Option Bytes

namespace Accounts

/-- Whether the request succeeds. -/
def answer (m : Accounts) (r : AccountRequest) : Bool :=
  match r.op with
  | .register => (m r.username).isNone
  | .auth | .delete => m r.username == some r.password

def after (m : Accounts) (r : AccountRequest) : Accounts :=
  if m.answer r then
    match r.op with
    | .register => Function.update m r.username (some r.password)
    | .auth => m
    | .delete => Function.update m r.username none
  else m

/-- The answers to a sequence of requests. -/
def answers : Accounts → List AccountRequest → List Bool
  | _, [] => []
  | m, r :: rs => m.answer r :: (m.after r).answers rs

end Accounts

/-! ## The requests as packets -/

def AccountRequest.request : AccountRequest → Request
  | ⟨.register, username, password⟩ => .register ⟨username, password⟩
  | ⟨.auth, username, password⟩ => .auth ⟨username, password⟩
  | ⟨.delete, username, password⟩ => .delete ⟨username, password⟩

/-- A request as a session receives it, under any ids. -/
structure AccountCall where
  session : SessionId
  messageID : UInt32
  sessionID : UInt32
  request : AccountRequest
  deriving DecidableEq, Repr

namespace AccountCall

def packet (c : AccountCall) : RawPacket :=
  PacketBuilder.packetOf c.messageID c.sessionID c.request.request.payload

def task (c : AccountCall) : Task := toTask c.session c.packet

/-- The response of the service. -/
def response (c : AccountCall) (success : Bool) : Bytes :=
  match c.request.op with
  | .register => PacketBuilder.registerResponse c.messageID c.sessionID ⟨success⟩
  | .auth => PacketBuilder.authResponse c.messageID c.sessionID ⟨success⟩
  | .delete => PacketBuilder.deleteResponse c.messageID c.sessionID ⟨success⟩

end AccountCall

/-! ## The table refines the map -/

/-- Each username that is taken has one row, with the hash of its password, and the others have
none. -/
structure Tables.Holds (t : Tables) (m : Accounts) : Prop where
  rows : ∀ n, (t.users.filter (·.username == n)).map (·.passwordHash) =
    ((m n).map (config.PASSWORD_HASH_PREFIX ++ ·)).toList
  clean : ∀ u ∈ t.users, cStr u.passwordHash = u.passwordHash

namespace Tables.Holds

variable {t : Tables} {m : Accounts}

theorem of_empty (empty : t.users = []) : t.Holds fun _ => none :=
  ⟨fun n => by rw [empty]; rfl, fun u hu => by rw [empty] at hu; cases hu⟩

/-- The hash that is found for a name. -/
theorem stored (h : t.Holds m) (n : Bytes) :
    (t.users.find? (·.username == n)).map (fun u => cStr u.passwordHash) =
      (m n).map (config.PASSWORD_HASH_PREFIX ++ ·) := by
  have clean : (t.users.find? (·.username == n)).map (fun u => cStr u.passwordHash) =
      (t.users.find? (·.username == n)).map (·.passwordHash) :=
    Option.map_congr fun u hu => h.clean u (List.mem_of_find?_eq_some hu)
  have first := congrArg List.head? (h.rows n)
  rw [List.head?_map, List.head?_filter, Option.head?_toList] at first
  exact clean.trans first

theorem taken (h : t.Holds m) (n : Bytes) : t.users.any (·.username == n) = (m n).isSome := by
  have found := congrArg Option.isSome (h.stored n)
  rwa [Option.isSome_map, Option.isSome_map, List.isSome_find?] at found

/-- The rows of a name, split into those with the hash of a password and the others. -/
theorem hits (h : t.Holds m) (n p : Bytes) :
    (t.users.filter (·.username == n)).map
        (fun u => u.passwordHash == config.PASSWORD_HASH_PREFIX ++ p) =
      ((m n).map (· == p)).toList := by
  have rows := congrArg (List.map (· == config.PASSWORD_HASH_PREFIX ++ p)) (h.rows n)
  rw [List.map_map, ← Option.toList_map, Option.map_map] at rows
  have cancel : (· == config.PASSWORD_HASH_PREFIX ++ p) ∘ (config.PASSWORD_HASH_PREFIX ++ ·) =
      (· == p) := by
    funext q
    rw [Function.comp_apply, Bool.eq_iff_iff, beq_iff_eq, beq_iff_eq, List.append_cancel_left_eq]
  rw [cancel] at rows
  exact rows

theorem register (h : t.Holds m) {n p : Bytes} (free : m n = none)
    (clean : cStr (config.PASSWORD_HASH_PREFIX ++ p) = config.PASSWORD_HASH_PREFIX ++ p)
    (id : Int) :
    ({ t with
      users := t.users ++ [⟨id, n, config.PASSWORD_HASH_PREFIX ++ p⟩]
      userSeq := id } : Tables).Holds (Function.update m n (some p)) where
  rows k := by
    have rows := h.rows k
    by_cases same : k = n
    · subst same
      rw [free] at rows
      simp only [Option.map_none, Option.toList_none, List.map_eq_nil_iff] at rows
      simp [rows]
    · rw [Function.update_of_ne same, ← rows]
      simp [Ne.symm same]
  clean u hu := by
    cases List.mem_append.mp hu with
    | inl old => exact h.clean u old
    | inr new =>
      rw [List.mem_singleton.mp new]
      exact clean

/-- A deletion removes the row of the name if the password is the right one, and nothing else. -/
theorem delete (h : t.Holds m) (n p : Bytes) :
    let hit := fun u : UserRow =>
      u.username == n && u.passwordHash == config.PASSWORD_HASH_PREFIX ++ p
    decide (t.users.countP hit > 0) = (m n == some p) ∧
      ({ t with users := t.users.filter (!hit ·) } : Tables).Holds
        (if m n = some p then Function.update m n none else m) := by
  intro hit
  have hits := h.hits n p
  have count : t.users.countP hit =
      (t.users.filter (·.username == n)).countP
        (·.passwordHash == config.PASSWORD_HASH_PREFIX ++ p) := by
    rw [List.countP_filter]
    exact List.countP_congr fun u _ => by simp [hit, and_comm]
  have number : t.users.countP hit = ((m n).map (· == p)).toList.countP id := by
    rw [count, ← hits, List.countP_map]
    rfl
  refine ⟨?_, ?_, fun u hu => h.clean u (List.mem_of_mem_filter hu)⟩
  · rw [number]
    cases m n with
    | none => rfl
    | some q => by_cases same : q = p <;> simp [same]
  · intro k
    have swap : (t.users.filter (!hit ·)).filter (·.username == k) =
        (t.users.filter (·.username == k)).filter (!hit ·) := List.filter_comm _ _ _
    rw [swap]
    by_cases same : k = n
    · subst same
      have rows := h.rows k
      cases password : m k with
      | none =>
        rw [password] at rows
        rw [List.map_eq_nil_iff.mp rows, if_neg (by simp), password]
        rfl
      | some q =>
        rw [password] at rows
        obtain ⟨u, only, hash⟩ := List.map_eq_singleton_iff.mp rows
        have named : u.username = k := by
          have hu : u ∈ t.users.filter (·.username == k) := only ▸ List.mem_singleton_self u
          simpa using (List.mem_filter.mp hu).2
        rw [only]
        by_cases right : q = p
        · rw [if_pos (congrArg some right), Function.update_self]
          have removed : hit u = true := by simp [hit, named, hash, right]
          simp [removed]
        · rw [if_neg fun e => right (Option.some.inj e), password]
          have stays : hit u = false := by simp [hit, hash, right]
          simp [stays, hash]
    · have other : (t.users.filter (·.username == k)).filter (!hit ·) =
          t.users.filter (·.username == k) := by
        apply List.filter_eq_self.mpr
        intro u hu
        have named : u.username = k := by simpa using (List.mem_filter.mp hu).2
        simp [hit, named, same]
      have unchanged : (if m n = some p then Function.update m n none else m) k = m k := by
        split
        · exact Function.update_of_ne same _ _
        · rfl
      rw [other, unchanged]
      exact h.rows k

end Tables.Holds

/-! ## Runs -/

/-- The service has answered the request, and nothing else has been pushed. -/
structure Answered (sh sh' : Shared) (c : AccountCall) (success : Bool) : Prop where
  queue : sh'.queue = sh.queue ++ [sh.reply c.session (c.response success)]
  closed : ∀ y, (sh'.objects y).closed = (sh.objects y).closed
  fd : ∀ y, (sh'.objects y).fileDescriptor = (sh.objects y).fileDescriptor

section

variable {sh : Shared} {m : Accounts} {x : SessionId} {messageID sessionID : UInt32} {n p : Bytes}

theorem register_account (holds : sh.conn.tables.Holds m)
    (opened : (sh.objects x).closed = false) (name : cStr n = n)
    (hash : cStr (config.PASSWORD_HASH_PREFIX ++ p) = config.PASSWORD_HASH_PREFIX ++ p)
    (valid : (Request.register ⟨n, p⟩).Valid) :
    let c : AccountCall := ⟨x, messageID, sessionID, ⟨.register, n, p⟩⟩
    Answered sh (sh.handle c.task) c (m.answer c.request) ∧
      (sh.handle c.task).conn.tables.Holds (m.after c.request) := by
  intro c
  have handled : sh.handle c.task = _ :=
    (Shared.handle_request opened valid messageID sessionID).trans
      (Shared.handleRegisterRequest_run _ ⟨n, p⟩)
  rw [handled]
  simp only [name, hash, holds.taken n]
  cases free : m n with
  | none =>
    have answer : m.answer c.request = true := by
      simp [Accounts.answer, c, free]
    have after : m.after c.request = Function.update m n (some p) := by
      simp [Accounts.after, answer, c]
    rw [answer, after]
    exact ⟨⟨rfl, fun _ => rfl, fun _ => rfl⟩, holds.register free hash _⟩
  | some q =>
    have answer : m.answer c.request = false := by
      simp [Accounts.answer, c, free]
    have after : m.after c.request = m := by
      simp [Accounts.after, answer]
    rw [answer, after]
    refine ⟨⟨rfl, fun _ => rfl, fun _ => rfl⟩, ?_⟩
    simpa using holds

theorem auth_account (holds : sh.conn.tables.Holds m) (opened : (sh.objects x).closed = false)
    (name : cStr n = n) (valid : (Request.auth ⟨n, p⟩).Valid) :
    let c : AccountCall := ⟨x, messageID, sessionID, ⟨.auth, n, p⟩⟩
    Answered sh (sh.handle c.task) c (m.answer c.request) ∧
      (sh.handle c.task).conn.tables.Holds (m.after c.request) := by
  intro c
  have handled : sh.handle c.task = _ :=
    (Shared.handle_request opened valid messageID sessionID).trans
      (Shared.handleAuthRequest_eq _ ⟨n, p⟩)
  have stored := holds.stored n
  have after : m.after c.request = m := by
    simp [Accounts.after, c]
  rw [handled, after]
  simp only [RepoOp.getUserPasswordHash_exec, name, stored]
  by_cases right : m n = some p
  · have answer : m.answer c.request = true := by
      simp [Accounts.answer, c, right]
    have found : (!(config.PASSWORD_HASH_PREFIX ++ p).isEmpty) = true := rfl
    rw [answer]
    simp only [right, Option.map_some, Option.getD_some, beq_self_eq_true, Bool.and_true, found,
      if_true, Shared.loggedIn_conn]
    refine ⟨⟨rfl, fun y => ?_, fun y => ?_⟩, holds⟩
    · rw [Shared.loggedIn_objects]
      apply Server.update_field (·.closed)
      rfl
    · rw [Shared.loggedIn_objects]
      apply Server.update_field (·.fileDescriptor)
      rfl
  · have answer : m.answer c.request = false := by
      simp [Accounts.answer, c, right]
    have wrong : (!(((m n).map (config.PASSWORD_HASH_PREFIX ++ ·)).getD []).isEmpty &&
        ((m n).map (config.PASSWORD_HASH_PREFIX ++ ·)).getD [] ==
          config.PASSWORD_HASH_PREFIX ++ p) = false := by
      cases password : m n with
      | none => rfl
      | some q =>
        have other : q ≠ p := fun e => right (password.trans (congrArg some e))
        simp [other]
    rw [answer]
    simp only [wrong, Bool.false_eq_true, if_false]
    exact ⟨⟨rfl, fun _ => rfl, fun _ => rfl⟩, holds⟩

theorem delete_account (holds : sh.conn.tables.Holds m) (opened : (sh.objects x).closed = false)
    (name : cStr n = n)
    (hash : cStr (config.PASSWORD_HASH_PREFIX ++ p) = config.PASSWORD_HASH_PREFIX ++ p)
    (valid : (Request.delete ⟨n, p⟩).Valid) :
    let c : AccountCall := ⟨x, messageID, sessionID, ⟨.delete, n, p⟩⟩
    Answered sh (sh.handle c.task) c (m.answer c.request) ∧
      (sh.handle c.task).conn.tables.Holds (m.after c.request) := by
  intro c
  have handled : sh.handle c.task = _ :=
    (Shared.handle_request opened valid messageID sessionID).trans
      (Shared.handleDeleteRequest_run _ ⟨n, p⟩)
  rw [handled]
  obtain ⟨flag, left⟩ := holds.delete n p
  have answer : m.answer c.request = (m n == some p) := rfl
  have after : m.after c.request = if m n = some p then Function.update m n none else m := by
    simp [Accounts.after, answer, c]
  simp only [name, hash, flag]
  rw [answer, after]
  exact ⟨⟨rfl, fun _ => rfl, fun _ => rfl⟩, left⟩

end

/-- A request that passes the dispatcher is answered as the reference machine answers it, and the
table follows the map. -/
theorem handle_account {sh : Shared} {m : Accounts} {c : AccountCall}
    (holds : sh.conn.tables.Holds m) (valid : c.request.request.Valid)
    (opened : (sh.objects c.session).closed = false) :
    Answered sh (sh.handle c.task) c (m.answer c.request) ∧
      (sh.handle c.task).conn.tables.Holds (m.after c.request) := by
  obtain ⟨x, messageID, sessionID, ⟨op, n, p⟩⟩ := c
  have clean (allowed : Validator.Within 64 Validator.isCredentialChar n ∧
      Validator.Within 127 Validator.isCredentialChar p) : cStr n = n ∧
      cStr (config.PASSWORD_HASH_PREFIX ++ p) = config.PASSWORD_HASH_PREFIX ++ p := by
    refine ⟨Validator.cStr_of_bounded (Validator.bounded_iff.mpr allowed.1) rfl, ?_⟩
    have rest : cStr p = p := Validator.cStr_of_bounded (Validator.bounded_iff.mpr allowed.2) rfl
    have front : cStr (config.PASSWORD_HASH_PREFIX ++ p) = config.PASSWORD_HASH_PREFIX ++ cStr p :=
      rfl
    rw [front, rest]
  cases op with
  | register => exact register_account holds opened (clean valid).1 (clean valid).2 valid
  | auth => exact auth_account holds opened (clean valid).1 valid
  | delete => exact delete_account holds opened (clean valid).1 (clean valid).2 valid

/-- The requests handled one after another. -/
def Shared.handleAll (sh : Shared) (calls : List AccountCall) : Shared :=
  calls.foldl (fun sh c => sh.handle c.task) sh

/-- The map after a sequence of requests. -/
def Accounts.afterAll (m : Accounts) (rs : List AccountRequest) : Accounts :=
  rs.foldl Accounts.after m

/-- What is pushed for a sequence of requests with these answers. -/
def Shared.replies (sh : Shared) (calls : List AccountCall) (answers : List Bool) : List Queued :=
  List.zipWith (fun c success => sh.reply c.session (c.response success)) calls answers

theorem run_accounts {sh : Shared} {m : Accounts} {calls : List AccountCall}
    (holds : sh.conn.tables.Holds m) (valid : ∀ c ∈ calls, c.request.request.Valid)
    (opened : ∀ c ∈ calls, (sh.objects c.session).closed = false) :
    (sh.handleAll calls).queue =
        sh.queue ++ sh.replies calls (m.answers (calls.map (·.request))) ∧
      (sh.handleAll calls).conn.tables.Holds (m.afterAll (calls.map (·.request))) := by
  induction calls generalizing sh m with
  | nil => exact ⟨(List.append_nil _).symm, holds⟩
  | cons c calls ih =>
    obtain ⟨answered, after⟩ := handle_account holds (valid c List.mem_cons_self)
      (opened c List.mem_cons_self)
    have rest := ih after (fun d hd => valid d (List.mem_cons_of_mem c hd)) fun d hd =>
      (answered.closed d.session).trans (opened d (List.mem_cons_of_mem c hd))
    refine ⟨?_, rest.2⟩
    have same : (sh.handle c.task).replies calls ((m.after c.request).answers
        (calls.map (·.request))) =
          sh.replies calls ((m.after c.request).answers (calls.map (·.request))) := by
      simp only [Shared.replies, Shared.reply, answered.fd]
    apply rest.1.trans
    rw [same, answered.queue, List.append_assoc]
    rfl

/-- From an empty users table the service answers as the machine over passwords, and in the end,
as after each request before, the table has exactly one row for each key, whose hash is the prefix
and its password. -/
theorem accounts_refine {sh : Shared} (empty : sh.conn.tables.users = [])
    {calls : List AccountCall} (valid : ∀ c ∈ calls, c.request.request.Valid)
    (opened : ∀ c ∈ calls, (sh.objects c.session).closed = false) :
    let m : Accounts := fun _ => none
    let rs := calls.map (·.request)
    (sh.handleAll calls).queue = sh.queue ++ sh.replies calls (m.answers rs) ∧
      ∀ n, ((sh.handleAll calls).conn.tables.users.filter (·.username == n)).map
          (·.passwordHash) =
        ((m.afterAll rs n).map (config.PASSWORD_HASH_PREFIX ++ ·)).toList := by
  intro m rs
  obtain ⟨queue, holds⟩ := run_accounts (.of_empty empty) valid opened
  exact ⟨queue, holds.rows⟩

/-- A session under descriptor 5, and nothing in the database. -/
def Shared.oneSession : Shared where
  conn := {}
  objects := fun _ => { fileDescriptor := 5 }
  next := 1
  byUserID := fun _ => none
  queue := []

/-- A user registers, logs in with a wrong password, deletes the account and logs in again. -/
def oneAccount : List AccountCall :=
  [⟨0, 1, 5, ⟨.register, [97], [112]⟩⟩, ⟨0, 2, 5, ⟨.auth, [97], [113]⟩⟩,
    ⟨0, 3, 5, ⟨.delete, [97], [112]⟩⟩, ⟨0, 4, 5, ⟨.auth, [97], [112]⟩⟩]

theorem accounts_refine_one :
    let sh := Shared.oneSession
    (sh.handleAll oneAccount).queue = sh.replies oneAccount [true, false, true, false] ∧
      (sh.handleAll oneAccount).conn.tables.users.filter (·.username == [97]) = [] := by
  have refines := @accounts_refine Shared.oneSession rfl oneAccount
    (by simp [oneAccount, AccountRequest.request, Request.Valid, Validator.Within,
      Validator.isCredentialChar])
    (fun _ _ => rfl)
  exact ⟨refines.1, List.map_eq_nil_iff.mp (refines.2 [97])⟩

end Cvcn
