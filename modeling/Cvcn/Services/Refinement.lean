import Cvcn.Lib.Simulation
import Cvcn.Services.Accounts
import Cvcn.Services.CommunityTables

/-!
# The server is the service

With requests handled one at a time, the server with its tables, its session objects and its
registry behaves as the machine over the community and its guests: whatever bytes its clients
send, it puts into the queue what the service answers to the requests that they encode.
-/

namespace Cvcn

open Atomic Machine

/-! ## What a packet asks for -/

instance Validator.decidableWithin (limit : Nat) (allowed : UInt8 → Bool) (s : Bytes) :
    Decidable (Within limit allowed s) :=
  decidable_of_iff _ bounded_iff

namespace Request

instance decidableValid : (r : Request) → Decidable r.Valid
  | register _ | auth _ | delete _ | findUser _ | messageSend _ =>
    inferInstanceAs (Decidable (_ ∧ _))
  | createChat data => Validator.decidableWithin 64 Validator.isCredentialChar data.peerUsername

def ofPayload : Payload → Option Request
  | .registerRequest data => some (.register data)
  | .authRequest data => some (.auth data)
  | .deleteRequest data => some (.delete data)
  | .findUserRequest data => some (.findUser data)
  | .createChatRequest data => some (.createChat data)
  | .messageSend data => some (.messageSend data)
  | _ => none

end Request

/-- The valid request whose encoding the body is, or one of those without a body. -/
def asked (header : PacketHeaderRaw) (body : Bytes) : Option Asked :=
  match PacketType.ofCode header.type with
  | some .connectRequest => some .connect
  | some .disconnectRequest => some .disconnect
  | some .chatListRequest => some .chatList
  | some t =>
    match (PacketParser.parseData t body).bind Request.ofPayload with
    | some r => if valid : r.Valid then some (.request r valid) else none
    | none => none
  | none => none

/-- The handler of what is asked. -/
def Asked.program (header : PacketHeaderRaw) (x : SessionId) : Asked → ServerProg Unit
  | connect => PacketDispatcher.handleConnectRequest header x
  | disconnect => PacketDispatcher.handleDisconnectRequest x
  | chatList => ChatService.handleChatListRequest header x
  | request r _ => r.handle header x

section

variable {header : PacketHeaderRaw} {body : Bytes} {x : SessionId}

end

/-! ## The states -/

def Output.queued (o : Output) : Queued :=
  match o.notice with
  | .packet messageID sessionID payload =>
    ⟨⟨.sendRaw, o.number, PacketBuilder.ofPayload messageID sessionID payload⟩, o.guest⟩
  | .close => ⟨⟨.close, o.number, []⟩, o.guest⟩

/-- The session object of a guest. -/
structure Guest.Is (g : Guest) (o : ClientSession) : Prop where
  number : o.fileDescriptor = g.number
  user : (o.userID, o.username) = g.user.getD (-1, [])
  closed : o.closed = !g.here
  freed : o.freed = !g.here

/-- What the workers share is the community, the guests and who can be reached. -/
structure Shared.Shows (sh : Shared) (s : Service) : Prop where
  tables : sh.conn.tables = s.community.tables
  saved : sh.conn.saved = none
  objects : ∀ x, (s.guests x).Is (sh.objects x)
  next : sh.next = s.next
  registry : sh.byUserID = s.reached

structure Server.Shows (t : Server) (s : Service) : Prop where
  shared : t.shared.Shows s
  sessions : t.sessions = s.numbers
  grown : s.Grown

namespace Service

/-- An event of the server, as the service sees it. -/
def serve (s : Service) : ClientEvent → Service × List Output
  | .connect number => (s.connect number, [])
  | .packet x header body =>
    match asked header body with
    | some a => s.respond x header.messageID header.sessionID a
    | none => (s, [])
  | .close number => (s.leave number, [])

end Service

namespace Shared.Shows

variable {sh : Shared} {s : Service} {x : SessionId} {header : PacketHeaderRaw}

theorem userID_iff (h : sh.Shows s) (grown : s.Grown) :
    (sh.objects x).userID = -1 ↔ (s.guests x).user = none := by
  have its := (h.objects x).user
  cases user : (s.guests x).user with
  | none =>
    rw [user] at its
    have none : (sh.objects x).userID = -1 := congrArg Prod.fst its
    simp [none]
  | some u =>
    rw [user] at its
    have id : (sh.objects x).userID = u.1 := congrArg Prod.fst its
    have := (grown.users x u user).1
    simp only [reduceCtorEq, iff_false]
    omega

theorem user_eq (h : sh.Shows s) {u : Int × Bytes} (user : (s.guests x).user = some u) :
    (sh.objects x).userID = u.1 ∧ (sh.objects x).username = u.2 := by
  have its := (h.objects x).user
  rw [user, Option.getD_some] at its
  exact ⟨congrArg Prod.fst its, congrArg Prod.snd its⟩

theorem tell_queued (h : sh.Shows s) (x : SessionId) (messageID sessionID : UInt32) (p : Payload) :
    (s.tell x messageID sessionID p).queued =
      sh.reply x (PacketBuilder.ofPayload messageID sessionID p) := by
  rw [Shared.reply, (h.objects x).number]
  rfl

/-- Only the database and the queue have changed. -/
theorem commit (h : sh.Shows s) {sh' : Shared} {c : Community}
    (tables : sh'.conn.tables = c.tables) (saved : sh'.conn.saved = none)
    (same : SameUsers sh sh') : sh'.Shows { s with community := c } where
  tables := tables
  saved := saved
  objects x := by
    rw [same.objects]
    exact h.objects x
  next := same.next.trans h.next
  registry := same.byUserID.trans h.registry

end Shared.Shows

/-! ## The handlers -/

/-- The state and the queue after what the service does and answers. -/
structure Shared.Fulfils (sh : Shared) (answer : Service × List Output) (sh' : Shared) : Prop where
  shows : sh'.Shows answer.1
  queue : sh'.queue = sh.queue ++ answer.2.map Output.queued

namespace Shared.Shows

variable {sh : Shared} {s : Service} {x : SessionId} {header : PacketHeaderRaw}

theorem register (h : sh.Shows s) {data : RegisterRequestData}
    (valid : (Request.register data).Valid) :
    sh.Fulfils (s.fulfil x header.messageID header.sessionID (.register data) valid)
      ((AuthService.handleRegisterRequest header data x).run exec sh).2 := by
  obtain ⟨name, hash⟩ := Community.credentials_clean valid
  obtain ⟨taken, free⟩ := s.community.register_tables valid
  have answer : s.fulfil x header.messageID header.sessionID (.register data) valid =
      let made := s.community.register data.username data.password valid
      ({ s with community := made.1 },
        [s.tell x header.messageID header.sessionID (.registerResponse ⟨made.2⟩)]) := rfl
  rw [handleRegisterRequest_run, answer]
  simp only [name, hash, h.tables]
  split
  · rename_i any
    obtain ⟨same, refused⟩ := taken any
    have tables : (sh.conn.refuses data.username).tables =
        (s.community.register data.username data.password valid).1.tables := by
      rw [Conn.refuses_tables, same, h.tables]
    refine ⟨h.commit tables ((Conn.refuses_saved _ _).trans h.saved) ⟨rfl, rfl, rfl⟩, ?_⟩
    rw [List.map_singleton, h.tell_queued, refused]
    rfl
  · rename_i any
    obtain ⟨accepted, tables⟩ := free (Bool.eq_false_of_not_eq_true any)
    refine ⟨h.commit tables.symm h.saved ⟨rfl, rfl, rfl⟩, ?_⟩
    rw [List.map_singleton, h.tell_queued, accepted]
    rfl

theorem logIn (h : sh.Shows s) (x : SessionId) {p : Person} (mem : p ∈ s.community.people) :
    (sh.loggedIn x p.id p.name).Shows (s.logIn x p) := by
  have positive := (s.community.range p mem).1
  have registered : sh.loggedIn x p.id p.name =
      { sh.setSession x { sh.objects x with userID := p.id, username := p.name } with
        byUserID := Function.update sh.byUserID p.id (some x) } := by
    rw [loggedIn, registerUser, if_neg (by omega)]
    rfl
  rw [registered]
  refine ⟨h.tables, h.saved, fun y => ?_, h.next, ?_⟩
  · by_cases own : y = x
    · subst own
      have old := h.objects y
      simp only [Service.logIn, Service.setGuest, setSession, Function.update_self]
      exact ⟨old.number, rfl, old.closed, old.freed⟩
    · simp only [Service.logIn, Service.setGuest, setSession, Function.update_of_ne own]
      exact h.objects y
  · simp only [Service.logIn, h.registry]

theorem pushed (h : sh.Shows s) (queue : List Queued) : Shared.Shows { sh with queue := queue } s :=
  ⟨h.tables, h.saved, h.objects, h.next, h.registry⟩

theorem auth (h : sh.Shows s) (small : s.community.Small) {data : AuthRequestData}
    (valid : (Request.auth data).Valid) :
    sh.Fulfils (s.fulfil x header.messageID header.sessionID (.auth data) valid)
      ((AuthService.handleAuthRequest header data x).run exec sh).2 := by
  obtain ⟨name, hash⟩ := Community.credentials_clean valid
  have stored := s.community.stored_hash data.username data.password
  rw [handleAuthRequest_eq]
  simp only [RepoOp.getUserPasswordHash_exec, RepoOp.getUserID_exec, name, h.tables,
    Community.find_users, stored]
  cases right : s.community.authenticate data.username data.password with
  | none =>
    simp only [Option.isSome_none, Bool.false_eq_true, if_false, Service.fulfil, right]
    refine ⟨h.pushed _, ?_⟩
    rw [List.map_singleton, h.tell_queued]
    rfl
  | some p =>
    obtain ⟨mem, named, -⟩ := Community.authenticate_eq_some.mp right
    have id : toInt32 p.row.id = p.id := small.toInt32_id mem
    simp only [Option.isSome_some, if_true, Service.fulfil, right,
      Community.named_of_authenticate right, Option.map_some, Option.getD_some, id]
    rw [← named]
    refine ⟨(h.logIn x mem).pushed _, ?_⟩
    rw [List.map_singleton, h.tell_queued]
    rfl

theorem delete (h : sh.Shows s) {data : DeleteRequestData}
    (valid : (Request.delete data).Valid) :
    sh.Fulfils (s.fulfil x header.messageID header.sessionID (.delete data) valid)
      ((AuthService.handleDeleteRequest header data x).run exec sh).2 := by
  obtain ⟨name, hash⟩ := Community.credentials_clean valid
  obtain ⟨success, tables⟩ := s.community.delete_tables data.username data.password
  have answer : s.fulfil x header.messageID header.sessionID (.delete data) valid =
      let left := s.community.delete data.username data.password
      ({ s with community := left.1 },
        [s.tell x header.messageID header.sessionID (.deleteResponse ⟨left.2⟩)]) := rfl
  rw [handleDeleteRequest_run, answer]
  simp only [name, hash, h.tables, success]
  refine ⟨h.commit tables.symm h.saved ⟨rfl, rfl, rfl⟩, ?_⟩
  rw [List.map_singleton, h.tell_queued]
  rfl

theorem findUser (h : sh.Shows s) (grown : s.Grown) {data : FindUserRequestData}
    (valid : (Request.findUser data).Valid) :
    sh.Fulfils (s.fulfil x header.messageID header.sessionID (.findUser data) valid)
      ((ChatService.handleFindUserRequest header data x).run exec sh).2 := by
  simp only [ChatService.handleFindUserRequest, IClientSession.getUserID_eq, Prog.op_bind,
    Prog.done_bind, Prog.run_op, exec, sessionOp, beq_iff_eq, h.userID_iff grown, Service.fulfil]
  cases logged : (s.guests x).user with
  | none =>
    refine ⟨h.pushed _, ?_⟩
    rw [List.map_singleton, h.tell_queued]
    rfl
  | some user =>
    have found := Community.findUsers_exec h.tables data.query user.1
    simp only [reduceCtorEq, if_false, Repo.findUsers_eq, Prog.op_bind, Prog.done_bind,
      Prog.run_op, exec, (h.user_eq logged).1, found]
    refine ⟨h.pushed _, ?_⟩
    rw [List.map_singleton, h.tell_queued]
    rfl

theorem chatList (h : sh.Shows s) (grown : s.Grown) (small : s.community.Small) :
    sh.Fulfils (s.respond x header.messageID header.sessionID .chatList)
      ((ChatService.handleChatListRequest header x).run exec sh).2 := by
  simp only [ChatService.handleChatListRequest, IClientSession.getUserID_eq, Prog.op_bind,
    Prog.done_bind, Prog.run_op, exec, sessionOp, bne_iff_ne, ne_eq, h.userID_iff grown,
    Service.respond, Service.chatListOf]
  cases logged : (s.guests x).user with
  | none =>
    refine ⟨h.pushed _, ?_⟩
    rw [List.map_singleton, h.tell_queued]
    rfl
  | some user =>
    have found := Community.getUserChats_exec h.tables small user.1
    simp only [reduceCtorEq, not_false_eq_true, if_true, Repo.getUserChats_eq, Prog.op_bind,
      Prog.done_bind, Prog.run_op, exec, (h.user_eq logged).1, found]
    refine ⟨h.pushed _, ?_⟩
    rw [List.map_singleton, h.tell_queued]
    rfl

theorem connect (h : sh.Shows s) :
    sh.Fulfils (s.respond x header.messageID header.sessionID .connect)
      ((PacketDispatcher.handleConnectRequest header x).run exec sh).2 := by
  by_cases fresh : header.sessionID = 0
  · simp only [PacketDispatcher.handleConnectRequest, fresh, bne_self_eq_false, Bool.false_eq_true,
      if_false, IClientSession.getFileDescriptor_eq, Prog.op_bind, Prog.done_bind, Prog.run_op,
      exec, sessionOp, Service.respond, ne_eq, not_true_eq_false, (h.objects x).number]
    refine ⟨h.pushed _, ?_⟩
    rw [List.map_singleton, h.tell_queued]
    rfl
  · have given : (header.sessionID != 0) = true := bne_iff_ne.mpr fresh
    simp only [PacketDispatcher.handleConnectRequest, given, if_true, Service.respond, ne_eq, fresh,
      not_false_eq_true]
    refine ⟨h.pushed _, ?_⟩
    rw [List.map_singleton, h.tell_queued]
    rfl

theorem disconnect (h : sh.Shows s) :
    sh.Fulfils (s.respond x header.messageID header.sessionID .disconnect)
      ((PacketDispatcher.handleDisconnectRequest x).run exec sh).2 := by
  refine ⟨h.pushed _, ?_⟩
  simp only [Service.respond, List.map_singleton, Output.queued, ← (h.objects x).number]
  rfl

theorem createChat (h : sh.Shows s) (grown : s.Grown) {data : CreateChatRequestData}
    (valid : (Request.createChat data).Valid) (small : (s.fulfil x header.messageID
      header.sessionID (.createChat data) valid).1.community.Small) :
    sh.Fulfils (s.fulfil x header.messageID header.sessionID (.createChat data) valid)
      ((ChatService.handleCreateChatRequest header data x).run exec sh).2 := by
  have name : cStr data.peerUsername = data.peerUsername :=
    Validator.cStr_of_bounded (Validator.bounded_iff.mpr valid) rfl
  have before : s.community.Small := 
    small.before (s.respond_grows x header.messageID header.sessionID (.request _ valid))
  simp only [Service.fulfil] at small
  simp only [ChatService.handleCreateChatRequest, IClientSession.getUserID_eq, Prog.op_bind,
    Prog.done_bind, Prog.run_op, exec, sessionOp, ChatService.createChat, beq_iff_eq,
    h.userID_iff grown, Service.fulfil]
  cases logged : (s.guests x).user with
  | none =>
    refine ⟨h.pushed _, ?_⟩
    rw [List.map_singleton, h.tell_queued]
    rfl
  | some user =>
    simp only [reduceCtorEq, if_false, Repo.getUserID_eq, Prog.op_bind, Prog.done_bind,
      Prog.run_op, exec, RepoOp.getUserID_exec, name, h.tables, Community.find_users,
      (h.user_eq logged).1]
    cases found : s.community.named data.peerUsername with
    | none =>
      refine ⟨h.pushed _, ?_⟩
      rw [List.map_singleton, h.tell_queued]
      rfl
    | some peer =>
      have mem : peer ∈ s.community.people := List.mem_of_find?_eq_some found
      have positive := (s.community.range peer mem).1
      have real : peer.id ≠ -1 := by omega
      have id : ((Option.map (fun u => toInt32 u.id)
          (Option.map Person.row (some peer))).getD (-1)) = peer.id := before.toInt32_id mem
      simp only [id, Bool.or_eq_true, beq_iff_eq, real, false_or]
      by_cases self : peer.id = user.1
      · simp only [self, if_true, ne_eq, not_true_eq_false, dite_false]
        refine ⟨h.pushed _, ?_⟩
        rw [List.map_singleton, h.tell_queued]
        rfl
      · have different : user.1 ≠ peer.id := Ne.symm self
        simp only [logged, found, ne_eq, different, not_false_eq_true, dite_true] at small
        obtain ⟨answer, tables, saved⟩ :=
          Community.findOrCreateDirectChat_exec h.tables h.saved different small
        simp only [self, if_false, Repo.findOrCreateDirectChat_eq, Prog.op_bind, Prog.done_bind]
        have made := s.community.openChat_pos different
        have positive : ((s.community.openChat user.1 peer.id different).2 : Int) > 0 := by omega
        simp only [Prog.run_op, exec, answer, positive, if_true, Community.ofInt_natCast]
        simp only [ne_eq, different, not_false_eq_true, dite_true]
        refine ⟨h.commit tables saved ⟨rfl, rfl, rfl⟩, ?_⟩
        rw [List.map_singleton, h.tell_queued]
        rfl

theorem messageSend (h : sh.Shows s) (grown : s.Grown) (opened : (sh.objects x).closed = false)
    {data : MessageSendData} (valid : (Request.messageSend data).Valid)
    (small : s.community.Small) :
    sh.Fulfils (s.fulfil x header.messageID header.sessionID (.messageSend data) valid)
      ((MessageService.handleMessageSend data x).run exec sh).2 := by
  have checked : (Validator.validateChatID data.chatID && Validator.validateMessage data.text) =
      true := by
    rw [Bool.and_eq_true]
    exact ⟨decide_eq_true valid.1, Validator.bounded_iff.mpr valid.2⟩
  obtain ⟨_, parsed, same⟩ := Option.map_eq_some_iff.mp
    ((valid.parseData_iff _).mpr (Request.encoding_eq _).symm)
  cases same
  have run := (handle_request opened valid 0 0).symm.trans
    (sh.handle_messageSend rfl parsed checked opened)
  rw [Request.handle] at run
  rw [run]
  simp only [toTask, h.userID_iff grown, Service.fulfil]
  cases logged : (s.guests x).user with
  | none =>
    simp only [if_true]
    exact ⟨h, (List.append_nil _).symm⟩
  | some user =>
    obtain ⟨id, username⟩ := h.user_eq logged
    have members := Community.members_tables small data.chatID
    have tables := s.community.post_tables data.chatID user.1 data.text
    simp only [reduceCtorEq, if_false, id, username, recipients, stored, h.tables, members,
      Community.members_toInt32 small grown.owners, h.registry]
    refine ⟨h.commit tables.symm h.saved ⟨rfl, h.registry.symm, rfl⟩, ?_⟩
    simp only [pushEach, Service.announce, List.map_map]
    congr 1
    apply List.map_congr_left
    intro y _
    exact (h.tell_queued y 0 0 (.messageReceive ⟨user.2, data.chatID, data.text⟩)).symm

theorem respond (h : sh.Shows s) (grown : s.Grown) (header : PacketHeaderRaw)
    (opened : (sh.objects x).closed = false) (a : Asked)
    (small : (s.respond x header.messageID header.sessionID a).1.community.Small) :
    sh.Fulfils (s.respond x header.messageID header.sessionID a)
      ((a.program header x).run exec sh).2 := by
  have before := small.before (s.respond_grows x header.messageID header.sessionID a)
  cases a with
  | connect => exact h.connect
  | disconnect => exact h.disconnect
  | chatList => exact h.chatList grown before
  | request r valid =>
    cases r with
    | register data => exact h.register valid
    | auth data => exact h.auth before valid
    | delete data => exact h.delete valid
    | findUser data => exact h.findUser grown valid
    | createChat data => exact h.createChat grown valid small
    | messageSend data => exact @messageSend sh s x header h grown opened data valid before

end Shared.Shows

/-! ## The runs -/

namespace Server.Shows

variable {t t' : Server} {s : Service}

theorem connect (h : t.Shows s) (number : Fd) :
    (t.onNewConnection number).Shows (s.connect number) where
  shared := {
    tables := h.shared.tables
    saved := h.shared.saved
    next := congrArg (· + 1) h.shared.next
    registry := h.shared.registry
    objects := by
      intro x
      simp only [onNewConnection, Service.connect, Service.setGuest, Shared.setSession,
        h.shared.next]
      by_cases new : x = s.next
      · subst new
        simp only [Function.update_self]
        exact ⟨rfl, rfl, rfl, rfl⟩
      · simp only [Function.update_of_ne new]
        exact h.shared.objects x }
  sessions := by
    simp only [onNewConnection, Service.connect, h.sessions, h.shared.next]
  grown := Service.connect_grown h.grown number

theorem registryWithout_eq (h : t.Shows s) (x : SessionId) :
    t.registryWithout x = match (s.guests x).user with
      | some user =>
        if s.reached user.1 = some x then Function.update s.reached user.1 none else s.reached
      | none => s.reached := by
  unfold registryWithout
  rw [h.shared.registry]
  cases logged : (s.guests x).user with
  | none =>
    have absent : (t.obj x).userID = -1 := (h.shared.userID_iff h.grown).mpr logged
    rw [if_neg fun both => both.1 absent]
  | some user =>
    have id : (t.obj x).userID = user.1 := (h.shared.user_eq logged).1
    have positive := (h.grown.users x user logged).1
    have real : user.1 ≠ -1 := by omega
    simp only [id, ne_eq, real, not_false_eq_true, true_and]

theorem leave (h : t.Shows s) (number : Fd) : (t.closeClient number).Shows (s.leave number) := by
  cases found : t.sessions number with
  | none =>
    have absent : s.numbers number = none := h.sessions ▸ found
    simpa only [closeClient, found, Service.leave, absent] using h
  | some x =>
    have present : s.numbers number = some x := h.sessions ▸ found
    obtain ⟨epoll, openFds, closed⟩ := closeClient_eq found
    have left : s.leave number = { s.setGuest x { s.guests x with here := false } with
        numbers := Function.update s.numbers number none
        reached := t.registryWithout x } := by
      unfold Service.leave
      rewrite [present, h.registryWithout_eq]
      rfl
    rw [closed, left]
    refine ⟨⟨h.shared.tables, h.shared.saved, fun y => ?_, h.shared.next, rfl⟩, ?_,
      left ▸ Service.leave_grown h.grown number⟩
    · have old := h.shared.objects y
      by_cases own : y = x
      · subst own
        simp only [Service.setGuest, Function.update_self]
        exact ⟨old.number, old.user, rfl, rfl⟩
      · simp only [Service.setGuest, Function.update_of_ne own]
        exact old
    · simp only [h.sessions]

end Server.Shows

namespace Server

end Server

end Cvcn
