import Cvcn.Services.Accounts
import Cvcn.Services.Broadcast
import Cvcn.Services.Serving
import Cvcn.Storage.ChatStore

/-!
# A user with many chats

Nothing limits the number of a user's chats: a client that registers one user after another, logs
in as the first and opens a chat with each of the others, ends up with as many as it likes.
-/

namespace Cvcn

open Atomic Machine

/-- A name of 64 letters. -/
def peerName (i : Nat) : Bytes :=
  [97 + UInt8.ofNat (i / 16), 97 + UInt8.ofNat (i % 16)] ++ List.replicate 62 97

/-- The first user and `n` others, each in a chat with the first. -/
def crowd : Nat → Tables
  | 0 => { users := [⟨1, peerName 0, config.PASSWORD_HASH_PREFIX ++ [112]⟩], userSeq := 1 }
  | n + 1 =>
    let t := crowd n
    { t with
      users := t.users ++ [⟨n + 2, peerName (n + 1), config.PASSWORD_HASH_PREFIX ++ [112]⟩]
      chats := t.chats ++ [⟨n + 1, false⟩]
      chatMembers := t.chatMembers ++ [⟨n + 1, 1⟩, ⟨n + 1, n + 2⟩]
      userSeq := n + 2
      chatSeq := n + 1 }

theorem peerName_injective {i j : Nat} (hi : i < 256) (hj : j < 256)
    (h : peerName i = peerName j) : i = j := by
  simp only [peerName, List.cons_append, List.nil_append, List.cons.injEq, ← UInt8.toNat_inj,
    UInt8.toNat_add, UInt8.toNat_ofNat', UInt8.reduceToNat, and_true] at h
  omega

theorem length_peerName (i : Nat) : (peerName i).length = 64 := by
  simp [peerName]

theorem within_peerName {i : Nat} (hi : i < 256) :
    Validator.Within 64 Validator.isCredentialChar (peerName i) := by
  have letters : ∀ k < 16, Validator.isCredentialChar (97 + UInt8.ofNat k) = true := by decide
  refine ⟨by simp [peerName], by simp [peerName], ?_⟩
  intro c hc
  simp only [peerName, List.cons_append, List.nil_append, List.mem_cons, List.mem_replicate] at hc
  rcases hc with rfl | rfl | ⟨_, rfl⟩
  · exact letters _ (by omega)
  · exact letters _ (by omega)
  · decide

theorem cStr_peerName {i : Nat} (hi : i < 256) : cStr (peerName i) = peerName i :=
  Validator.cStr_of_bounded (Validator.bounded_iff.mpr (within_peerName hi)) rfl

theorem users_crowd {n : Nat} {u : UserRow} (hu : u ∈ (crowd n).users) :
    ∃ i ≤ n, u.id = i + 1 ∧ u.username = peerName i := by
  induction n with
  | zero =>
    obtain rfl := List.mem_singleton.mp hu
    exact ⟨0, Nat.le_refl 0, rfl, rfl⟩
  | succ n ih =>
    simp only [crowd, List.mem_append, List.mem_singleton] at hu
    rcases hu with old | rfl
    · obtain ⟨i, bound, id, name⟩ := ih old
      exact ⟨i, by omega, id, name⟩
    · exact ⟨n + 1, Nat.le_refl _, by simp only; omega, rfl⟩

theorem members_crowd {n : Nat} {m : MemberRow} (hm : m ∈ (crowd n).chatMembers) :
    m.chatID ≤ n ∧ m.userID ≤ n + 1 := by
  induction n with
  | zero => cases hm
  | succ n ih =>
    simp only [crowd, List.mem_append, List.mem_cons, List.not_mem_nil, or_false] at hm
    rcases hm with old | rfl | rfl
    · have bounds := ih old
      omega
    · simp only
      omega
    · simp only
      omega

theorem userSeq_crowd (n : Nat) : (crowd n).userSeq = n + 1 := by
  cases n with
  | zero => rfl
  | succ n =>
    simp only [crowd]
    omega

theorem chatSeq_crowd (n : Nat) : (crowd n).chatSeq = n := by
  cases n with
  | zero => rfl
  | succ n =>
    simp only [crowd]
    omega

/-- Each chat joins the first user with another one, whose name has 64 bytes. -/
theorem chats_crowd {n : Nat} {c : ChatRow} (hc : c ∈ (crowd n).chats) :
    c.isGroup = false ∧ ⟨c.id, 1⟩ ∈ (crowd n).chatMembers ∧
      ∃ u ∈ (crowd n).users, u.id ≠ 1 ∧ ⟨c.id, u.id⟩ ∈ (crowd n).chatMembers := by
  induction n with
  | zero => cases hc
  | succ n ih =>
    simp only [crowd, List.mem_append, List.mem_singleton] at hc
    simp only [crowd, List.mem_append, List.mem_cons, List.not_mem_nil, or_false]
    rcases hc with old | rfl
    · obtain ⟨direct, first, u, hu, other, second⟩ := ih old
      exact ⟨direct, .inl first, u, .inl hu, other, .inl second⟩
    · exact ⟨rfl, .inr (.inl rfl), _, .inr rfl, by simp only; omega, .inr (.inr rfl)⟩

theorem length_chats_crowd (n : Nat) : (crowd n).chats.length = n := by
  induction n with
  | zero => rfl
  | succ n ih => rw [crowd, List.length_append, ih, List.length_singleton]

/-- The next name is new. -/
theorem fresh_crowd {n : Nat} (bound : n + 1 < 256) :
    ∀ u ∈ (crowd n).users, u.username ≠ peerName (n + 1) := by
  intro u hu same
  obtain ⟨i, small, _, name⟩ := users_crowd hu
  have e := peerName_injective (by omega) bound (name.symm.trans same)
  omega

namespace RepoOp

variable {c : Conn} {name : Bytes}

/-- A pair of which one user is in no chat yet gets a new chat. -/
theorem findOrCreateDirectChat_new {a b : Int} (closed : c.saved = none) (different : a ≠ b)
    (alone : ∀ m ∈ c.tables.chatMembers, m.userID ≠ b)
    (bounded : ∀ m ∈ c.tables.chatMembers, m.chatID ≤ c.tables.chatSeq)
    (uncut : toInt32 (c.tables.chatSeq + 1) = c.tables.chatSeq + 1) :
    let c' := ((findOrCreateDirectChat a b).exec c).2
    c'.saved = none ∧ c'.tables = { c.tables with
      chats := c.tables.chats ++ [⟨c.tables.chatSeq + 1, false⟩]
      chatMembers := c.tables.chatMembers ++
        [⟨c.tables.chatSeq + 1, a⟩, ⟨c.tables.chatSeq + 1, b⟩]
      chatSeq := c.tables.chatSeq + 1 } := by
  have notFound : c.tables.directChats a b = [] := by
    simp only [Tables.directChats, List.filter_eq_nil_iff, Tables.isDirectChat, Bool.and_eq_true,
      List.contains_iff_mem]
    intro chat _ both
    exact alone _ both.1.1.2 rfl
  exact (ChatRepository.findOrCreateDirectChat_new closed different notFound bounded uncut).2

end RepoOp

namespace Shared

variable {sh : Shared} {x : SessionId}

/-- A user with a new name is registered. -/
theorem register_run (header : PacketHeaderRaw) {name : Bytes} (clean : cStr name = name)
    (fresh : ∀ u ∈ sh.conn.tables.users, u.username ≠ name) :
    let password : Bytes := [112]
    let sh' := (((Request.register ⟨name, password⟩).handle header x).run exec sh).2
    sh'.objects = sh.objects ∧ sh'.conn.saved = sh.conn.saved ∧
      sh'.conn.tables = { sh.conn.tables with
        users := sh.conn.tables.users ++
          [⟨sh.conn.tables.userSeq + 1, name, config.PASSWORD_HASH_PREFIX ++ password⟩]
        userSeq := sh.conn.tables.userSeq + 1 } := by
  intro password sh'
  have run : sh' = _ := handleRegisterRequest_run header ⟨name, password⟩
  have free : sh.conn.tables.users.any (·.username == name) = false := by
    simpa using fresh
  rw [run]
  simp only [clean, free]
  exact ⟨rfl, rfl, rfl⟩

/-- The session's user opens a chat with a user who is in none. -/
theorem createChat_run (header : PacketHeaderRaw) {name : Bytes} {a b : Int}
    (user : (sh.objects x).userID = a) (known : a ≠ -1) (named : b ≠ -1) (different : a ≠ b)
    (found : ((RepoOp.getUserID name).exec sh.conn).1 = b) (closed : sh.conn.saved = none)
    (alone : ∀ m ∈ sh.conn.tables.chatMembers, m.userID ≠ b)
    (bounded : ∀ m ∈ sh.conn.tables.chatMembers, m.chatID ≤ sh.conn.tables.chatSeq)
    (uncut : toInt32 (sh.conn.tables.chatSeq + 1) = sh.conn.tables.chatSeq + 1) :
    let sh' := (((Request.createChat ⟨name⟩).handle header x).run exec sh).2
    let chatID := sh.conn.tables.chatSeq + 1
    sh'.objects = sh.objects ∧ sh'.conn.saved = none ∧
      sh'.conn.tables = { sh.conn.tables with
        chats := sh.conn.tables.chats ++ [⟨chatID, false⟩]
        chatMembers := sh.conn.tables.chatMembers ++ [⟨chatID, a⟩, ⟨chatID, b⟩]
        chatSeq := chatID } := by
  obtain ⟨ended, tables⟩ := RepoOp.findOrCreateDirectChat_new closed different alone bounded uncut
  subst user found
  have same : ((RepoOp.getUserID name).exec sh.conn).2 = sh.conn := by
    rw [RepoOp.getUserID_exec]
  simp only [Request.handle, ChatService.handleCreateChatRequest, ChatService.createChat,
    IClientSession.getUserID_eq, Prog.op_bind, Prog.done_bind, Prog.run_op, Shared.exec,
    Shared.sessionOp, beq_iff_eq, known, if_false, Repo.getUserID_eq, same, named,
    Bool.or_eq_true, different.symm, or_self, Repo.findOrCreateDirectChat_eq]
  by_cases positive : ((RepoOp.findOrCreateDirectChat (sh.objects x).userID
      ((RepoOp.getUserID name).exec sh.conn).1).exec sh.conn).1 > 0
  · simp only [positive, if_true, Prog.pure_eq, Prog.done_bind, IClientSession.sendRaw_eq,
      Prog.run_op]
    exact ⟨rfl, ended, tables⟩
  · simp only [positive, if_false, Prog.pure_eq, Prog.done_bind, IClientSession.sendRaw_eq,
      Prog.run_op]
    exact ⟨rfl, ended, tables⟩

/-- The first user logs in. -/
theorem auth_run (header : PacketHeaderRaw) (alone : sh.conn.tables = crowd 0) :
    let sh' := (((Request.auth ⟨peerName 0, [112]⟩).handle header 0).run exec sh).2
    (sh'.objects 0).userID = 1 ∧ sh'.conn = sh.conn := by
  obtain ⟨⟨tables, saved, id⟩, objects, next, byUserID, queue⟩ := sh
  obtain rfl : tables = crowd 0 := alone
  exact ⟨rfl, rfl⟩

end Shared

namespace Server

variable {s : Server} {x : SessionId} {n : Nat}

/-- A valid request is served. -/
theorem Serving.request (h : s.Serving x) {r : Request} (valid : r.Valid)
    (small : r.payload.body.length ≤ config.MAX_REASONABLE_PACKET_BODY) :
    ∃ as t, exec step s as = some t ∧ t.Serving x ∧
      t.shared = ((r.handle (PacketBuilder.packetOf 0 0 r.payload).1 x).run Shared.exec
        s.shared).2.push ⟨.taskDone, s.fdOf x, []⟩ x := by
  obtain ⟨as, t, run, serving, shared⟩ := h.packet (PacketBuilder.acceptable_packetOf small)
  refine ⟨as, t, run, serving, ?_⟩
  rw [shared, Shared.handle_request h.opened valid]

/-- The first user is logged in on the session 0 and has `n` chats. -/
structure Crowded (s : Server) (n : Nat) : Prop where
  serving : s.Serving 0
  user : (s.obj 0).userID = 1
  closed : s.shared.conn.saved = none
  tables : s.shared.conn.tables = crowd n

theorem within_password : Validator.Within 127 Validator.isCredentialChar [112] := by
  refine ⟨by decide, by decide, ?_⟩
  intro c hc
  obtain rfl := List.mem_singleton.mp hc
  rfl

theorem register_served (h : s.Serving x) {i : Nat} (small : i < 256)
    (fresh : ∀ u ∈ s.shared.conn.tables.users, u.username ≠ peerName i) :
    ∃ as t, exec step s as = some t ∧ t.Serving x ∧ t.shared.objects = s.shared.objects ∧
      t.shared.conn.saved = s.shared.conn.saved ∧
      t.shared.conn.tables = { s.shared.conn.tables with
        users := s.shared.conn.tables.users ++ [⟨s.shared.conn.tables.userSeq + 1, peerName i,
          config.PASSWORD_HASH_PREFIX ++ [112]⟩]
        userSeq := s.shared.conn.tables.userSeq + 1 } := by
  have name := within_peerName small
  have size := name.2.1
  have valid : (Request.register ⟨peerName i, [112]⟩).Valid := ⟨name, within_password⟩
  have fits : (Request.register ⟨peerName i, [112]⟩).payload.body.length ≤
      config.MAX_REASONABLE_PACKET_BODY := by
    have string := Encoding.length_string (by omega : (peerName i).length ≤ 65535)
    simp only [Request.payload, Payload.body, List.length_append, string, length_peerName]
    decide
  obtain ⟨as, t, run, serving, shared⟩ := h.request valid fits
  obtain ⟨objects, saved, tables⟩ := s.shared.register_run (x := x)
    (PacketBuilder.packetOf 0 0 (Request.register ⟨peerName i, [112]⟩).payload).1
    (cStr_peerName small) fresh
  refine ⟨as, t, run, serving, ?_⟩
  rw [shared]
  exact ⟨objects, saved, tables⟩

theorem crowded_zero : ∃ as t, exec step (start {} 1 3 4) as = some t ∧ t.Crowded 0 := by
  let connected := [Action.epollWait [{ fd := 3, readable := true }], .main { accepted := some 5 }]
  obtain ⟨s, connects, serving, conn⟩ : ∃ s, exec step (start {} 1 3 4) connected = some s ∧
      s.Serving 0 ∧ s.shared.conn = {} := by
    refine ⟨_, rfl, ?_, rfl⟩
    exact ⟨⟨rfl, rfl, rfl⟩, rfl, rfl, ⟨0, rfl⟩, rfl, rfl, rfl, nofun, nofun, nofun⟩
  obtain ⟨bs, r, registers, serving, _, saved, tables⟩ :=
    register_served serving (i := 0) (by omega) (by rw [conn]; nofun)
  have first : r.shared.conn.tables = crowd 0 := by
    rw [tables, conn]
    rfl
  have valid : (Request.auth ⟨peerName 0, [112]⟩).Valid :=
    ⟨within_peerName (by omega), within_password⟩
  obtain ⟨cs, t, logsIn, serving, shared⟩ := serving.request valid (by decide)
  obtain ⟨user, conn'⟩ := r.shared.auth_run
    (PacketBuilder.packetOf 0 0 (Request.auth ⟨peerName 0, [112]⟩).payload).1 first
  have run := exec_append.mpr ⟨_, connects, exec_append.mpr ⟨_, registers, logsIn⟩⟩
  refine ⟨_, t, run, serving, ?_, ?_, ?_⟩
  · rw [obj, shared]
    exact user
  · rw [shared, Shared.push, conn', saved, conn]
  · rw [shared, Shared.push, conn', first]

/-- One more user is registered, and the first opens a chat with it. -/
theorem Crowded.grows (h : s.Crowded n) (small : n + 1 < 256) :
    ∃ as t, exec step s as = some t ∧ t.Crowded (n + 1) := by
  obtain ⟨as, r, registers, serving, objects, saved, tables⟩ :=
    register_served h.serving small (by rw [h.tables]; exact fresh_crowd small)
  rw [h.tables, userSeq_crowd] at tables
  have number : (n : Int) + 1 + 1 = n + 2 := by omega
  rw [number] at tables
  have valid : (Request.createChat ⟨peerName (n + 1)⟩).Valid := within_peerName small
  have fits : (Request.createChat ⟨peerName (n + 1)⟩).payload.body.length ≤
      config.MAX_REASONABLE_PACKET_BODY := by
    have size := length_peerName (n + 1)
    have string := Encoding.length_string (by omega : (peerName (n + 1)).length ≤ 65535)
    simp only [Request.payload, Payload.body, string, size]
    decide
  obtain ⟨bs, t, opens, serving, shared⟩ := serving.request valid fits
  have user : (r.shared.objects 0).userID = 1 := by
    rw [objects]
    exact h.user
  have found : ((RepoOp.getUserID (peerName (n + 1))).exec r.shared.conn).1 = (n : Int) + 2 := by
    have others : (crowd n).users.find? (·.username == peerName (n + 1)) = none := by
      simpa using fresh_crowd small
    have int : toInt32 ((n : Int) + 2) = n + 2 := toInt32_of_range (by omega) (by omega)
    rw [RepoOp.getUserID_exec, tables, cStr_peerName small]
    simp [List.find?_append, others, int]
  have alone : ∀ m ∈ r.shared.conn.tables.chatMembers, m.userID ≠ (n : Int) + 2 := by
    intro m hm
    rw [tables] at hm
    have bounds := members_crowd hm
    omega
  have bounded : ∀ m ∈ r.shared.conn.tables.chatMembers,
      m.chatID ≤ r.shared.conn.tables.chatSeq := by
    intro m hm
    rw [tables] at hm ⊢
    simp only [chatSeq_crowd]
    exact (members_crowd hm).1
  have different : (1 : Int) ≠ n + 2 := by omega
  have uncut : toInt32 (r.shared.conn.tables.chatSeq + 1) = r.shared.conn.tables.chatSeq + 1 := by
    rw [tables]
    simp only [chatSeq_crowd]
    exact toInt32_of_range (by omega) (by omega)
  obtain ⟨objects', closed, chats⟩ := r.shared.createChat_run
    (PacketBuilder.packetOf 0 0 (Request.createChat ⟨peerName (n + 1)⟩).payload).1 user
    (by decide) (by omega) different found (saved.trans h.closed) alone bounded uncut
  refine ⟨_, t, exec_append.mpr ⟨_, registers, opens⟩, serving, ?_, ?_, ?_⟩
  · rw [obj, shared, Shared.push, objects', user]
  · rw [shared, Shared.push, closed]
  · rw [shared, Shared.push, chats, tables]
    simp only [crowd, chatSeq_crowd]

/-- Some run opens `n` chats. -/
theorem crowded (small : n < 256) :
    ∃ as t, exec step (start {} 1 3 4) as = some t ∧ t.Crowded n := by
  induction n with
  | zero => exact crowded_zero
  | succ n ih =>
    obtain ⟨as, s, before, here⟩ := ih (by omega)
    obtain ⟨bs, t, more, there⟩ := here.grows small
    exact ⟨_, t, exec_append.mpr ⟨s, before, more⟩, there⟩

/-- The user asks for the list of the chats, and the worker comes to its query. -/
theorem Crowded.asks (h : s.Crowded n) :
    ∃ as t i u, exec step s as = some t ∧ t.nextOp (.worker i) = some (.repo (.getUserChats 1)) ∧
      t.step (.worker i) = some u ∧ t.shared.conn.tables = crowd n := by
  let p := PacketBuilder.packetOf 0 0 .chatListRequest
  have fits : Acceptable p := PacketBuilder.acceptable_packetOf (by decide)
  obtain ⟨_, read⟩ := h.serving.reads fits
  obtain ⟨i, waiting⟩ := h.serving.waiting
  let job : Job := ⟨s.fdOf 0, toTask 0 p⟩
  have submitted := h.serving.submitted (toTask 0 p)
  have inside := (List.getElem?_eq_some_iff.mp waiting).1
  let rest : Int → ServerProg Unit := fun userID =>
    if userID != -1 then .op (.repo (.getUserChats userID)) fun chats =>
      IClientSession.sendRaw 0 (PacketBuilder.chatListResponse p.1.messageID p.1.sessionID ⟨chats⟩)
    else IClientSession.sendRaw 0
      (PacketBuilder.chatListResponse p.1.messageID p.1.sessionID {})
  let during (rest : ServerProg Unit) : Server := { submitTask (s.fdOf 0) s (toTask 0 p) with
    pool := { s.pool.setWorker i (.running ⟨job, rest⟩) with
      tasks := [], inFlight := s.pool.inFlight + 1, started := s.pool.started ++ [job] } }
  have running (rest : ServerProg Unit) :
      (during rest).pool.workers[i]? = some (.running ⟨job, rest⟩) :=
    List.getElem?_set_self inside
  have begins : (submitTask (s.fdOf 0) s (toTask 0 p)).step (.worker i) =
      some (during (taskBody job.task)) := by
    rw [step_begins (by rw [submitted]; exact waiting) (by rw [submitted]), submitted]
    rfl
  have executes {o : Op} {next : o.Res → ServerProg Unit} {r : o.Res}
      (answer : s.shared.exec o = (r, s.shared)) :
      (during (.op o next)).step (.worker i) = some (during (next r)) := by
    have result : (during (.op o next)).shared.exec o = (r, s.shared) := answer
    rw [step_executes (running _), result]
    simp only [during, ThreadPool.setWorker, List.set_set]
    rfl
  have first : (during (taskBody job.task)).step (.worker i) =
      some (during (.op (.session 0 .getUserID) rest)) :=
    executes (o := .session 0 .isClosed) (Prod.ext h.serving.opened rfl)
  have second : (during (.op (.session 0 .getUserID) rest)).step (.worker i) =
      some (during (rest 1)) :=
    executes (Prod.ext h.user rfl)
  have run : exec step (submitTask (s.fdOf 0) s (toTask 0 p)) [.worker i, .worker i, .worker i] =
      some (during (rest 1)) := by
    simp only [exec, begins, first, second, Option.bind_some]
  refine ⟨_, _, i, _, exec_append.mpr ⟨_, read, run⟩, ?_, step_executes (running _), h.tables⟩
  simp [nextOp, running, Worker.nextOp, rest]

end Server

end Cvcn
