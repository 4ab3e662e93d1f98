import Cvcn.Services.Accounts
import Cvcn.Services.Execution
import Cvcn.Services.Registry
import Cvcn.Storage.Statements

/-!
# Who a session is

A login writes the id and the name of a row into the session and the id into the registry.
`DeleteRequest` removes the row and nothing else: a session that is logged in as its user stays
logged in as a user who no longer exists, until it is closed or logs in again. Apart from such
deletions, and from ids that are not `int`s, every identity is that of a row.
-/

namespace Cvcn

open Atomic Machine

/-! ## What a request does to the users -/

/-- The rows that the task removes, if it is a `DeleteRequest`. -/
def Shared.deleted (sh : Shared) (t : Task) : List UserRow :=
  if (sh.objects t.session).closed then []
  else
    match PacketType.ofCode t.header.type, PacketParser.deleteRequest t.body with
    | some .deleteRequest, some data =>
      if Validator.validateUsername data.username && Validator.validatePassword data.password then
        sh.conn.tables.users.filter fun u => u.username == cStr data.username &&
          u.passwordHash == cStr (config.PASSWORD_HASH_PREFIX ++ data.password)
      else []
    | _, _ => []

/-- Nothing, a row with the next id, or a deletion. -/
inductive UsersChange (t t' : Tables) : List UserRow → Prop where
  | none (users : t'.users = t.users) (userSeq : t'.userSeq = t.userSeq) : UsersChange t t' []
  | added (username passwordHash : Bytes) (fresh : username ∉ t.users.map (·.username))
      (users : t'.users = t.users ++ [⟨t.userSeq + 1, username, passwordHash⟩])
      (userSeq : t'.userSeq = t.userSeq + 1) : UsersChange t t' []
  | deleted (rows : List UserRow) (users : t'.users = t.users.filter fun u => !rows.contains u)
      (userSeq : t'.userSeq = t.userSeq) : UsersChange t t' rows

namespace Shared

variable {sh : Shared} {t : Task}

/-- A program that does not change the users, run alone. -/
theorem sameRows_run {α : Type} {p : ServerProg α} (calm : Calm False p)
    (closed : sh.conn.saved = none) : sh.conn.SameRows (p.run exec sh).2.conn := by
  have start : sh.conn.SameRows sh.conn := .refl closed
  refine calm.run (I := fun sh' : Shared => sh.conn.SameRows sh'.conn) ?_ start
  intro o sh' calm same
  cases o with
  | repo o => exact same.trans (RepoOp.exec_sameRows same.closed (calm.users.resolve_right id))
  | session x o => cases o <;> exact same
  | registerUser userID x =>
    simp only [exec, registerUser]
    split <;> exact same
  | findByUserID userID => exact same

theorem handleRegisterRequest_change (closed : sh.conn.saved = none) (header : PacketHeaderRaw)
    (data : RegisterRequestData) (x : SessionId) :
    let after := ((AuthService.handleRegisterRequest header data x).run exec sh).2
    after.conn.saved = none ∧ UsersChange sh.conn.tables after.conn.tables [] := by
  simp only [handleRegisterRequest_run]
  split
  · exact ⟨by simp [closed], .none (by simp) (by simp)⟩
  · rename_i free
    exact ⟨closed, .added _ _ (by simpa using free) rfl rfl⟩

theorem handleDeleteRequest_change (closed : sh.conn.saved = none) (header : PacketHeaderRaw)
    (data : DeleteRequestData) (x : SessionId) :
    let after := ((AuthService.handleDeleteRequest header data x).run exec sh).2
    after.conn.saved = none ∧ UsersChange sh.conn.tables after.conn.tables
      (sh.conn.tables.users.filter fun u => u.username == cStr data.username &&
        u.passwordHash == cStr (config.PASSWORD_HASH_PREFIX ++ data.password)) := by
  simp only [handleDeleteRequest_run]
  refine ⟨closed, .deleted _ (List.filter_congr fun u hu => ?_) rfl⟩
  rw [Bool.eq_iff_iff]
  simp [hu]

theorem handle_change (closed : sh.conn.saved = none) (t : Task) :
    (sh.handle t).conn.saved = none ∧
      UsersChange sh.conn.tables (sh.handle t).conn.tables (sh.deleted t) := by
  by_cases dropped : (sh.objects t.session).closed = true
  · rw [handle_eq, deleted, if_pos dropped, if_pos dropped]
    exact ⟨closed, .none rfl rfl⟩
  rw [handle_eq, deleted, if_neg dropped, if_neg dropped]
  by_cases register : PacketType.ofCode t.header.type = some .registerRequest
  · simp only [PacketDispatcher.dispatch, register, PacketDispatcher.validated]
    cases PacketParser.registerRequest t.body with
    | none => exact ⟨closed, .none rfl rfl⟩
    | some data =>
      simp only
      split
      · exact handleRegisterRequest_change closed _ _ _
      · exact ⟨closed, .none rfl rfl⟩
  by_cases delete : PacketType.ofCode t.header.type = some .deleteRequest
  · simp only [PacketDispatcher.dispatch, delete, PacketDispatcher.validated]
    cases PacketParser.deleteRequest t.body with
    | none => exact ⟨closed, .none rfl rfl⟩
    | some data =>
      simp only
      split
      · exact handleDeleteRequest_change closed _ _ _
      · exact ⟨closed, .none rfl rfl⟩
  · have calm : Calm False (PacketDispatcher.dispatch t.header t.body t.session) :=
      (dispatch_calm t.header t.body t.session).mono fun o calm =>
        ⟨calm.asks, calm.users.imp_right fun type => type.elim register delete⟩
    have same := sameRows_run calm closed
    refine ⟨same.closed, ?_⟩
    split
    · rename_i type _
      exact absurd type delete
    · exact .none same.users same.userSeq

/-- The row whose id, as an `int`, and name a login takes. -/
theorem login_row {t : Task} {userID : Int} {username : Bytes}
    (login : sh.login t = some (userID, username)) :
    ∃ u ∈ sh.conn.tables.users, toInt32 u.id = userID ∧ u.username = username := by
  unfold Shared.login at login
  split at login
  · cases login
  · split at login
    · rename_i data _ _
      simp only at login
      split at login
      · rename_i valid
        simp only [Option.some.injEq, Prod.mk.injEq] at login
        obtain ⟨id, rfl⟩ := login
        simp only [Bool.and_eq_true] at valid
        have clean : cStr data.username = data.username :=
          Validator.cStr_of_bounded valid.1.1 rfl
        rw [RepoOp.getUserPasswordHash_exec] at valid id
        rw [RepoOp.getUserID_exec, clean] at id
        rw [clean] at valid
        cases found : sh.conn.tables.users.find? (·.username == data.username) with
        | none =>
          rw [found] at valid
          exact absurd valid.2.1 (by simp)
        | some u =>
          rw [found] at id
          refine ⟨u, List.mem_of_find?_eq_some found, id, ?_⟩
          have named := List.find?_some found
          simpa using named
      · cases login
    · cases login

theorem mem_of_deleted {t : Task} {u : UserRow} (removed : u ∈ sh.deleted t) :
    u ∈ sh.conn.tables.users := by
  unfold Shared.deleted at removed
  split at removed
  · cases removed
  · split at removed
    · split at removed
      · exact List.mem_of_mem_filter removed
      · cases removed
    · cases removed

/-- A login removes no row. -/
theorem deleted_of_login {t : Task} {user : Int × Bytes} (login : sh.login t = some user) :
    sh.deleted t = [] := by
  unfold Shared.login at login
  unfold Shared.deleted
  split at login
  · cases login
  · rename_i opened
    rw [if_neg opened]
    split at login
    · rename_i type _
      simp only [type]
    · cases login

/-- The row is removed, the deletion answered, and all the rest is as it was. -/
def without (sh : Shared) (t : Task) (u : UserRow) : Shared :=
  { sh with
    conn := { sh.conn with
      tables := { sh.conn.tables with users := sh.conn.tables.users.erase u }
      changes := 1 }
    queue := sh.queue ++ [sh.reply t.session
      (PacketBuilder.deleteResponse t.header.messageID t.header.sessionID ⟨true⟩)] }

/-- A task that removes a row removes one, when no two users have one name, and does nothing
else. -/
theorem handle_deleted (names : (sh.conn.tables.users.map (·.username)).Nodup)
    (some : sh.deleted t ≠ []) :
    ∃ u, sh.deleted t = [u] ∧ sh.handle t = sh.without t u := by
  obtain ⟨u, removed⟩ := List.exists_mem_of_ne_nil _ some
  have nodup : sh.conn.tables.users.Nodup := names.of_map _
  simp only [deleted] at removed some ⊢
  split at removed
  · cases removed
  rename_i opened
  split at removed
  · rename_i data type parsed
    split at removed
    · rename_i valid
      have dispatch : PacketDispatcher.dispatch t.header t.body t.session =
          AuthService.handleDeleteRequest t.header data t.session := by
        simp only [PacketDispatcher.dispatch, type, PacketDispatcher.validated, parsed, valid,
          if_true]
      rw [if_neg opened, if_pos valid]
      generalize hit_eq : (fun u : UserRow => u.username == cStr data.username &&
        u.passwordHash == cStr (config.PASSWORD_HASH_PREFIX ++ data.password)) = hit at removed ⊢
      obtain ⟨here, hit_u⟩ := List.mem_filter.mp removed
      have named (v : UserRow) (hv : hit v = true) : v.username = cStr data.username := by
        rw [← hit_eq] at hv
        simp only [Bool.and_eq_true, beq_iff_eq] at hv
        exact hv.1
      have only (v : UserRow) (hv : v ∈ sh.conn.tables.users) : hit v = true ↔ v = u := by
        constructor
        · intro hit_v
          exact List.inj_on_of_nodup_map names hv here ((named v hit_v).trans (named u hit_u).symm)
        · rintro rfl
          exact hit_u
      have one : sh.conn.tables.users.filter hit = [u] := by
        rw [List.filter_congr (q := (· == u)) fun v hv => by rw [Bool.eq_iff_iff, only v hv]; simp]
        rw [List.filter_beq, nodup.count, if_pos here, List.replicate_one]
      have rest : sh.conn.tables.users.filter (!hit ·) = sh.conn.tables.users.erase u := by
        rw [nodup.erase_eq_filter]
        exact List.filter_congr fun v hv => by
          rw [Bool.eq_iff_iff, Bool.not_eq_true', ← Bool.not_eq_true, only v hv]
          simp
      have count : sh.conn.tables.users.countP hit = 1 := by
        rw [List.countP_eq_length_filter, one]
        rfl
      refine ⟨u, one, ?_⟩
      rw [handle_eq, if_neg opened, dispatch, handleDeleteRequest_run, hit_eq, rest, count]
      rfl
    · cases removed
  · cases removed

/-- It leaves the sessions and the registry alone. -/
theorem sameUsers_of_deleted {u : UserRow} (removed : u ∈ sh.deleted t) :
    sh.SameUsers (sh.handle t) := by
  have users := sh.handle_users t
  cases login : sh.login t with
  | none =>
    rw [login] at users
    exact users
  | some user =>
    rw [deleted_of_login login] at removed
    cases removed

end Shared

/-! ## The rows -/

/-- Ids are given out from 1 on, and none of them twice, as no name is. -/
structure Tables.Keyed (t : Tables) : Prop where
  nodup : (t.users.map (·.id)).Nodup
  names : (t.users.map (·.username)).Nodup
  positive : ∀ u ∈ t.users, 0 < u.id
  bound : ∀ u ∈ t.users, u.id ≤ t.userSeq
  seq : 0 ≤ t.userSeq

theorem Tables.Keyed.unique {t : Tables} (h : t.Keyed) {u v : UserRow} (hu : u ∈ t.users)
    (hv : v ∈ t.users) (same : u.id = v.id) : u = v :=
  List.inj_on_of_nodup_map h.nodup hu hv same

theorem Tables.Keyed.named {t : Tables} (h : t.Keyed) {u v : UserRow} (hu : u ∈ t.users)
    (hv : v ∈ t.users) (same : u.username = v.username) : u = v :=
  List.inj_on_of_nodup_map h.names hu hv same

namespace UsersChange

variable {t t' : Tables} {rows : List UserRow}

theorem keyed (h : UsersChange t t' rows) (keys : t.Keyed) : t'.Keyed := by
  obtain ⟨nodup, names, positive, bound, seq⟩ := keys
  cases h with
  | none users userSeq =>
    constructor
    · rw [users]
      exact nodup
    · rw [users]
      exact names
    · rw [users]
      exact positive
    · rw [users, userSeq]
      exact bound
    · rw [userSeq]
      exact seq
  | added username passwordHash fresh users userSeq =>
    have next : t.userSeq + 1 ∉ t.users.map (·.id) := by
      intro old
      obtain ⟨u, hu, id⟩ := List.mem_map.mp old
      have le := bound u hu
      omega
    have more := nodup.concat next
    have named := names.concat fresh
    rw [List.concat_eq_append] at more named
    constructor
    · rw [users, List.map_append]
      exact more
    · rw [users, List.map_append]
      exact named
    · rw [users]
      intro u hu
      rcases List.mem_append.mp hu with old | new
      · exact positive u old
      · rw [List.mem_singleton.mp new]
        simp only
        omega
    · rw [users, userSeq]
      intro u hu
      rcases List.mem_append.mp hu with old | new
      · have le := bound u old
        omega
      · rw [List.mem_singleton.mp new]
    · omega
  | deleted rows users userSeq =>
    constructor
    · rw [users]
      exact nodup.sublist (List.filter_sublist.map _)
    · rw [users]
      exact names.sublist (List.filter_sublist.map _)
    · rw [users]
      exact fun u hu => positive u (List.mem_of_mem_filter hu)
    · rw [users, userSeq]
      exact fun u hu => bound u (List.mem_of_mem_filter hu)
    · rw [userSeq]
      exact seq

/-- A row that is not deleted stays. -/
theorem stays (h : UsersChange t t' rows) {u : UserRow} (hu : u ∈ t.users) (kept : u ∉ rows) :
    u ∈ t'.users := by
  cases h with
  | none users userSeq => rwa [users]
  | added username passwordHash fresh users userSeq =>
    rw [users]
    exact List.mem_append_left _ hu
  | deleted rows users userSeq =>
    rw [users, List.mem_filter]
    exact ⟨hu, by simpa using kept⟩

/-- The id of a row that is deleted is free. -/
theorem gone (h : UsersChange t t' rows) (keys : t.Keyed) {u v : UserRow} (hu : u ∈ t.users)
    (removed : u ∈ rows) (hv : v ∈ t'.users) : v.id ≠ u.id := by
  cases h with
  | none users userSeq => cases removed
  | added username passwordHash fresh users userSeq => cases removed
  | deleted rows users userSeq =>
    rw [users, List.mem_filter] at hv
    intro same
    obtain rfl := keys.unique hv.1 hu same
    simp [removed] at hv

end UsersChange

namespace Server

variable {s t : Server} {e : ClientEvent}

/-- Every session that is logged in, and every entry of the registry, is that of a row. -/
structure Identified (s : Server) : Prop where
  sessions : ∀ x, s.Alive x → (s.obj x).userID ≠ -1 →
    ∃ u ∈ s.shared.conn.tables.users, u.id = (s.obj x).userID ∧ u.username = (s.obj x).username
  registry : ∀ userID x, s.shared.byUserID userID = some x →
    ∃ u ∈ s.shared.conn.tables.users, u.id = userID

/-- No session is logged in as the user, and the registry has no entry for the id. -/
structure Unused (s : Server) (userID : Int) : Prop where
  sessions : ∀ x, s.Alive x → (s.obj x).userID ≠ userID
  registry : s.shared.byUserID userID = none

/-- The rows that the event removes are those of users who are not logged in. -/
def removesUnused (s : Server) : ClientEvent → Prop
  | .packet x header body => ∀ u ∈ s.shared.deleted ⟨x, header, body⟩, s.Unused u.id
  | .connect _ | .close _ => True

/-- The user who logs in has an id that is an `int`, or one that is cast to -1. -/
def logsInAsRow (s : Server) : ClientEvent → Prop
  | .packet x header body => ∀ u ∈ s.shared.conn.tables.users,
      s.shared.login ⟨x, header, body⟩ = some (toInt32 u.id, u.username) →
      toInt32 u.id = u.id ∨ toInt32 u.id = -1
  | .connect _ | .close _ => True

/-- The event leaves every identity that of a row. -/
def keepsIdentities (s : Server) (e : ClientEvent) : Prop := s.removesUnused e ∧ s.logsInAsRow e

structure RowsInv (s : Server) : Prop where
  keyed : s.shared.conn.tables.Keyed
  closed : s.shared.conn.saved = none

structure IdentityInv (s : Server) : Prop extends Identified s, RowsInv s

theorem RowsInv.deletes {o : Option SessionId} (h : RowsInv s) (deletes : Deletes s t o) :
    RowsInv t := by
  have frame := deletes.frame
  constructor
  · rw [frame.conn]
    exact h.keyed
  · rw [frame.conn]
    exact h.closed

theorem RowsInv.packet (h : RowsInv s) (task : Task) :
    RowsInv { s with shared := s.shared.handle task } := by
  obtain ⟨closed, change⟩ := s.shared.handle_change h.closed task
  exact ⟨change.keyed h.keyed, closed⟩

theorem serve_rows (h : RowsInv s) (hs : s.serve e = some t) : RowsInv t := by
  cases e with
  | connect fd =>
    simp only [serve, accept] at hs
    split at hs
    · cases hs
    · cases hs
      exact ⟨h.keyed, h.closed⟩
  | close fd =>
    cases hs
    exact h.deletes (closeClient_trims s fd).deletes
  | packet x header body =>
    simp only [serve] at hs
    split at hs
    · cases hs
      exact h.packet ⟨x, header, body⟩
    · cases hs

theorem IdentityInv.deletes {o : Option SessionId} (h : IdentityInv s) (deletes : Deletes s t o) :
    IdentityInv t := by
  have frame := deletes.frame
  refine ⟨⟨fun x here user => ?_, fun userID x entry => ?_⟩, h.toRowsInv.deletes deletes⟩
  · rw [frame.conn, frame.user, frame.username]
    rw [frame.user] at user
    exact h.sessions x (deletes.alive here) user
  · rw [frame.conn]
    exact h.registry userID x (deletes.entry entry)

theorem IdentityInv.connect (h : IdentityInv s) (fd : Fd) : IdentityInv (s.onNewConnection fd) := by
  refine ⟨⟨fun x here user => ?_, h.registry⟩, ⟨h.keyed, h.closed⟩⟩
  rw [onNewConnection_obj] at user ⊢
  by_cases new : x = s.shared.next
  · rw [if_pos new] at user
    exact absurd rfl user
  · rw [if_neg new] at user ⊢
    exact h.sessions x (((onNewConnection_alive s fd x).mp here).resolve_left new) user

/-- A packet that logs in takes the identity of a row; the others change no identity. -/
theorem IdentityInv.packet (h : IdentityInv s) {x : SessionId} {header : PacketHeaderRaw}
    {body : Bytes} (unused : s.removesUnused (.packet x header body))
    (fits : s.logsInAsRow (.packet x header body)) :
    IdentityInv { s with shared := s.shared.handle ⟨x, header, body⟩ } := by
  have change := (s.shared.handle_change h.closed ⟨x, header, body⟩).2
  have users := s.shared.handle_users ⟨x, header, body⟩
  refine ⟨?_, h.toRowsInv.packet ⟨x, header, body⟩⟩
  cases login : s.shared.login ⟨x, header, body⟩ with
  | none =>
    rw [login] at users
    have kept : ∀ {u}, u ∈ s.shared.conn.tables.users → ¬ s.Unused u.id →
        u ∈ (s.shared.handle ⟨x, header, body⟩).conn.tables.users :=
      fun hu used => change.stays hu fun removed => used (unused _ removed)
    constructor
    · intro y here user
      simp only [Alive, obj, users.objects, users.next] at here user ⊢
      obtain ⟨u, hu, id, name⟩ := h.sessions y here user
      exact ⟨u, kept hu fun unused => unused.sessions y here id.symm, id, name⟩
    · intro userID y entry
      simp only [users.byUserID] at entry
      obtain ⟨u, hu, id⟩ := h.registry userID y entry
      refine ⟨u, kept hu fun unused => ?_, id⟩
      have none := unused.registry
      rw [id, entry] at none
      cases none
  | some user =>
    obtain ⟨userID, username⟩ := user
    rw [login] at users
    have kept : ∀ {u}, u ∈ s.shared.conn.tables.users →
        u ∈ (s.shared.handle ⟨x, header, body⟩).conn.tables.users := by
      intro u hu
      apply change.stays hu
      rw [Shared.deleted_of_login login]
      exact List.not_mem_nil
    obtain ⟨u, hu, rfl, rfl⟩ := Shared.login_row login
    have own_id := fits u hu login
    constructor
    · intro y here user
      simp only [Alive, obj, users.objects, users.next, Shared.loggedIn_objects,
        Shared.loggedIn_next] at here user ⊢
      by_cases own : y = x
      · subst own
        simp only [Function.update_self] at user ⊢
        exact ⟨u, kept hu, (own_id.resolve_right user).symm, rfl⟩
      · simp only [Function.update_of_ne own] at here user ⊢
        obtain ⟨v, hv, id, name⟩ := h.sessions y here user
        exact ⟨v, kept hv, id, name⟩
    · intro v y entry
      rw [users.byUserID] at entry
      rcases s.shared.loggedIn_entry x _ _ entry with ⟨rfl, positive, _⟩ | old
      · exact ⟨u, kept hu, (own_id.resolve_right (by omega)).symm⟩
      · obtain ⟨w, hw, id⟩ := h.registry v y old
        exact ⟨w, kept hw, id⟩

theorem serve_identity (h : IdentityInv s) (keeps : s.keepsIdentities e)
    (hs : s.serve e = some t) : IdentityInv t := by
  cases e with
  | connect fd =>
    simp only [serve, accept] at hs
    split at hs
    · cases hs
    · cases hs
      have opened : IdentityInv { s with
          openFds := Function.update s.openFds fd true
          epoll := Function.update s.epoll fd (some .read) } :=
        ⟨⟨h.sessions, h.registry⟩, ⟨h.keyed, h.closed⟩⟩
      exact opened.connect fd
  | close fd =>
    cases hs
    exact h.deletes (closeClient_trims s fd).deletes
  | packet x header body =>
    simp only [serve] at hs
    split at hs
    · cases hs
      exact h.packet keeps.1 keeps.2
    · cases hs

/-- A session, or an entry of the registry, is left whose row is gone. -/
theorem packet_forgets (h : IdentityInv s) {x : SessionId} {header : PacketHeaderRaw}
    {body : Bytes} (used : ¬ s.removesUnused (.packet x header body)) :
    ¬ Identified { s with shared := s.shared.handle ⟨x, header, body⟩ } := by
  simp only [removesUnused, not_forall] at used
  obtain ⟨u, removed, used⟩ := used
  have hu := Shared.mem_of_deleted removed
  have same := Shared.sameUsers_of_deleted removed
  have change := (s.shared.handle_change h.closed ⟨x, header, body⟩).2
  intro identified
  apply used
  constructor
  · intro y here user
    have positive := h.keyed.positive u hu
    have after := identified.sessions y
    simp only [Alive, obj, same.objects, same.next] at after
    obtain ⟨v, hv, id, _⟩ := after here (by
      have user : (s.shared.objects y).userID = u.id := user
      omega)
    exact change.gone h.keyed hu removed hv (id.trans user)
  · cases entry : s.shared.byUserID u.id with
    | none => rfl
    | some y =>
      obtain ⟨v, hv, id⟩ := identified.registry u.id y (by
        simp only [same.byUserID]
        exact entry)
      exact absurd id (change.gone h.keyed hu removed hv)

/-- The session has an id that is not that of the row with its name. -/
theorem packet_mistaken (h : IdentityInv s) {x : SessionId} {header : PacketHeaderRaw}
    {body : Bytes} (alive : s.Alive x) (wrong : ¬ s.logsInAsRow (.packet x header body)) :
    ¬ Identified { s with shared := s.shared.handle ⟨x, header, body⟩ } := by
  simp only [logsInAsRow, not_forall, not_or] at wrong
  obtain ⟨u, hu, login, other, some⟩ := wrong
  have users := s.shared.handle_users ⟨x, header, body⟩
  rw [login] at users
  have change := (s.shared.handle_change h.closed ⟨x, header, body⟩).2
  have stays := change.stays hu (by
    rw [Shared.deleted_of_login login]
    exact List.not_mem_nil)
  intro identified
  have after := identified.sessions x
  simp only [Alive, obj, users.objects, users.next, Shared.loggedIn_objects,
    Shared.loggedIn_next, Function.update_self] at after
  obtain ⟨v, hv, id, name⟩ := after alive some
  obtain rfl := (change.keyed h.keyed).named hv stays name
  exact other id.symm

/-- An event after which not every identity is that of a row. -/
theorem serve_mistakes (h : IdentityInv s) (wrong : ¬ s.keepsIdentities e)
    (hs : s.serve e = some t) : ¬ Identified t := by
  cases e with
  | connect fd => exact absurd ⟨trivial, trivial⟩ wrong
  | close fd => exact absurd ⟨trivial, trivial⟩ wrong
  | packet x header body =>
    simp only [serve] at hs
    split at hs
    · rename_i alive
      cases hs
      rcases not_and_or.mp wrong with used | mistaken
      · exact packet_forgets h used
      · exact packet_mistaken h alive mistaken
    · cases hs

theorem identityInv_start {tables : Tables} (keyed : tables.Keyed) (numThreads : Nat)
    (listenFd eventFd : Fd) : IdentityInv (start tables numThreads listenFd eventFd) where
  sessions x here := absurd here.1 (Nat.not_lt_zero x)
  registry userID x entry := by cases entry
  keyed := keyed
  closed := rfl

/-- With requests handled one at a time, every identity of a session and every entry of the
registry is that of a row throughout a run, if and only if no request of the run deletes a user
who is logged in and none logs in a user whose id the cast to `int` makes another one, -1 apart. A
request that deletes a user removes that user's row and sends its answer, and does nothing else. -/
theorem identified_iff (tables : Tables) (keyed : tables.Keyed) (numThreads : Nat)
    (listenFd eventFd : Fd) (events : List ClientEvent) (t : Server)
    (run : exec serve (start tables numThreads listenFd eventFd) events = some t) :
    (Throughout serve Identified (start tables numThreads listenFd eventFd) events ↔
      Along serve keepsIdentities (start tables numThreads listenFd eventFd) events) ∧
    ∀ x header body, t.shared.deleted ⟨x, header, body⟩ ≠ [] →
      ∀ t', t.serve (.packet x header body) = some t' →
        ∃ u, t.shared.deleted ⟨x, header, body⟩ = [u] ∧
          t' = { t with shared := t.shared.without ⟨x, header, body⟩ u } := by
  have first := identityInv_start keyed numThreads listenFd eventFd
  constructor
  · exact throughout_iff_along (fun _ h => h.toIdentified) (fun _ _ _ => serve_identity)
      (fun _ _ _ => serve_mistakes) first run
  · intro x header body some t' served
    have rows : RowsInv t := invariant (fun _ _ _ => serve_rows) first.toRowsInv run
    obtain ⟨u, one, handled⟩ := Shared.handle_deleted rows.keyed.names some
    refine ⟨u, one, ?_⟩
    simp only [serve, handled] at served
    split at served
    · cases served
      rfl
    · cases served

/-- A client registers as `a`, logs in, deletes its account and goes on. -/
def deletesItself : List ClientEvent :=
  [.connect 5,
    .received 0 (PacketBuilder.registerRequest 1 5 ⟨[97], [112]⟩),
    .received 0 (PacketBuilder.authRequest 2 5 ⟨[97], [112]⟩),
    .received 0 (PacketBuilder.deleteRequest 3 5 ⟨[97], [112]⟩),
    .received 0 (PacketBuilder.messageSend 4 5 ⟨1, [104, 105]⟩)]

/-- The account is gone, but the session has its id and name, the registry has its entry, and a
message is stored from it. -/
theorem deleted_account_goes_on :
    ∃ s, exec serve (start {} 1 3 4) deletesItself = some s ∧ s.shared.conn.tables.users = [] ∧
      (s.obj 0).userID = 1 ∧ (s.obj 0).username = [97] ∧ s.shared.byUserID 1 = some 0 ∧
      s.shared.conn.tables.messages = [⟨1, 1, 1, [104, 105]⟩] ∧ ¬ Identified s := by
  refine ⟨_, rfl, rfl, rfl, rfl, rfl, rfl, fun h => ?_⟩
  obtain ⟨u, hu, _⟩ := h.registry 1 0 rfl
  cases hu

instance (s : Server) (userID : Int) : Decidable (s.Unused userID) :=
  decidable_of_iff
    ((∀ x < s.shared.next, (s.obj x).freed = false → (s.obj x).userID ≠ userID) ∧
      s.shared.byUserID userID = none)
    ⟨fun h => ⟨fun x here => h.1 x here.1 here.2, h.2⟩,
      fun h => ⟨fun x old here => h.1 x ⟨old, here⟩, h.2⟩⟩

instance (s : Server) : (e : ClientEvent) → Decidable (s.keepsIdentities e)
  | .connect _ | .close _ => isTrue ⟨trivial, trivial⟩
  | .packet x header body =>
    inferInstanceAs (Decidable ((∀ u ∈ s.shared.deleted ⟨x, header, body⟩, s.Unused u.id) ∧
      ∀ u ∈ s.shared.conn.tables.users,
        s.shared.login ⟨x, header, body⟩ = some (toInt32 u.id, u.username) →
        toInt32 u.id = u.id ∨ toInt32 u.id = -1))

/-- The same client, which closes its session first and deletes its account from another. -/
theorem identified_after_closing :
    let events := deletesItself.take 3 ++ [.close 5, .connect 6,
      .received 1 (PacketBuilder.deleteRequest 1 6 ⟨[97], [112]⟩)]
    Throughout serve Identified (start {} 1 3 4) events :=
  (identified_iff {} ⟨List.nodup_nil, List.nodup_nil, by simp, by simp, Int.le_refl 0⟩ 1 3 4 _ _
    rfl).1.mpr (by decide +kernel)

end Server

end Cvcn
