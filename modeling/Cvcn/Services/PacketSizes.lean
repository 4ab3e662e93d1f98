import Mathlib.Algebra.Order.BigOperators.Group.List
import Mathlib.Algebra.Order.Ring.Nat
import Cvcn.Client.Connection
import Cvcn.Services.Crowd
import Cvcn.Storage.Statements

/-!
# The size of what the server sends

The client refuses a body of more than 5120 bytes. Names in the tables have at most 64 bytes,
and with the limits on a message and on the names found every answer fits, except one: the
chat list has an entry for each direct chat of the user, and nothing bounds their number.
-/

namespace Cvcn

open Atomic Machine

/-- The client finds the packet's end and does not refuse it. -/
def ClientAccepts (data : Bytes) : Prop :=
  ∃ header, PacketParser.parseHeader data = some header ∧
    header.messageLen.toNat = data.length - 12 ∧
    header.messageLen ≤ Connection.MAX_REASONABLE_LEN

theorem clientAccepts_buildPacket {type : PacketType} {messageID sessionID : UInt32}
    {body : Bytes} :
    ClientAccepts (PacketBuilder.buildPacket type messageID sessionID body) ↔
      body.length ≤ 5120 := by
  have parsed := PacketBuilder.parseHeader_buildPacket type messageID sessionID body []
  rw [List.append_nil] at parsed
  have length := PacketBuilder.length_buildPacket type messageID sessionID body
  rw [PacketHeaderRaw.size] at length
  have limit : Connection.MAX_REASONABLE_LEN.toNat = 5120 := rfl
  constructor
  · rintro ⟨header, found, exact, le⟩
    have le := UInt16.le_iff_toNat_le.mp le
    omega
  · intro le
    have size : (UInt16.ofNat body.length).toNat = body.length := Encoding.toNat_ofNat (by omega)
    refine ⟨_, parsed, ?_, UInt16.le_iff_toNat_le.mpr ?_⟩
    · simp only [size]
      omega
    · simp only [size]
      omega

/-- The body of the list, entry by entry: a chat id and a name with its length. -/
def chatListSize (chats : List ChatListEntry) : Nat :=
  2 + (chats.map fun e => 6 + e.peerUsername.length).sum

namespace Payload

open Encoding

theorem length_body_chatListResponse {chats : List ChatListEntry}
    (names : ∀ e ∈ chats, e.peerUsername.length ≤ 64) :
    (body (.chatListResponse ⟨chats⟩)).length = chatListSize chats := by
  have entries : (chats.flatMap entry).length =
      (chats.map fun e => 6 + e.peerUsername.length).sum := by
    rw [List.length_flatMap]
    congr 1
    apply List.map_congr_left
    intro e he
    have name := names e he
    rw [entry, List.length_append, length_uint32BE, length_string (by omega)]
    omega
  rw [body, List.length_append, length_uint16BE, entries, chatListSize]

theorem length_flatMap_le {α : Type} {encode : α → Bytes} {k : Nat} {values : List α}
    (each : ∀ a ∈ values, (encode a).length ≤ k) :
    (values.flatMap encode).length ≤ values.length * k := by
  induction values with
  | nil => exact Nat.zero_le _
  | cons a values ih =>
    have first := each a List.mem_cons_self
    have others := ih fun b hb => each b (List.mem_cons_of_mem a hb)
    rw [List.flatMap_cons, List.length_append, List.length_cons, Nat.succ_mul]
    omega

theorem le_length_flatMap {α β : Type} {entries : α → List β} {k : Nat} {values : List α}
    (each : ∀ a ∈ values, k ≤ (entries a).length) :
    values.length * k ≤ (values.flatMap entries).length := by
  induction values with
  | nil => simp
  | cons a values ih =>
    have first := each a List.mem_cons_self
    have others := ih fun b hb => each b (List.mem_cons_of_mem a hb)
    rw [List.flatMap_cons, List.length_append, List.length_cons, Nat.succ_mul]
    omega

theorem length_body_findUserResponse {usernames : List Bytes} (few : usernames.length ≤ 20)
    (names : ∀ n ∈ usernames, n.length ≤ 64) :
    (body (.findUserResponse ⟨usernames⟩)).length ≤ 5120 := by
  have each : ∀ n ∈ usernames, (string n).length ≤ 66 := by
    intro n hn
    have short := names n hn
    rw [length_string (by omega)]
    omega
  have all := length_flatMap_le each
  have product : usernames.length * 66 ≤ 20 * 66 := Nat.mul_le_mul_right 66 few
  rw [body, List.length_append, length_uint16BE]
  exact (Nat.add_le_add_left (all.trans product) 2).trans (by decide)

end Payload

/-! ## The names in the tables -/

def Tables.NamesFit (t : Tables) : Prop := ∀ u ∈ t.users, u.username.length ≤ 64

structure Conn.NamesFit (c : Conn) : Prop where
  now : c.tables.NamesFit
  saved : ∀ t, c.saved = some t → t.NamesFit

/-- A user after a write was there before, in the tables or in those saved, or is inserted. -/
theorem Conn.write_users {c c' : Conn} {sql : Stmt} (hw : c.write sql = some c') :
    (∀ u ∈ c'.tables.users, u ∈ c.tables.users ∨ (∃ t, c.saved = some t ∧ u ∈ t.users) ∨
      ∃ hash, sql = .insertUser u.username hash) ∧
    ∀ t, c'.saved = some t → c.saved = some t ∨ t = c.tables := by
  cases sql with
  | insertUser username passwordHash =>
    simp only [Conn.write] at hw
    split at hw
    · cases hw
    · cases hw
      refine ⟨fun u hu => ?_, fun t => .inl⟩
      rcases List.mem_append.mp hu with old | new
      · exact .inl old
      · rw [List.mem_singleton.mp new]
        exact .inr (.inr ⟨_, rfl⟩)
  | deleteUser username passwordHash =>
    cases hw
    exact ⟨fun u hu => .inl (List.mem_of_mem_filter hu), fun t => .inl⟩
  | insertMember chatID userID =>
    simp only [Conn.write] at hw
    split at hw
    · cases hw
    · cases hw
      exact ⟨fun u => .inl, fun t => .inl⟩
  | begin =>
    simp only [Conn.write] at hw
    split at hw
    · cases hw
    · cases hw
      exact ⟨fun u => .inl, fun t ht => .inr (Option.some.inj ht).symm⟩
  | commit =>
    simp only [Conn.write] at hw
    split at hw
    · cases hw
      exact ⟨fun u => .inl, by simp⟩
    · cases hw
  | rollback =>
    simp only [Conn.write] at hw
    split at hw
    · rename_i t ht
      cases hw
      exact ⟨fun u hu => .inr (.inl ⟨t, ht, hu⟩), by simp⟩
    · cases hw
  | _ =>
    cases hw
    exact ⟨fun u => .inl, fun t => .inl⟩

/-- No long name is inserted. -/
def Stmt.NamesFit : Stmt → Prop
  | insertUser username _ => username.length ≤ 64
  | _ => True

theorem Conn.NamesFit.write {c c' : Conn} {sql : Stmt} (h : c.NamesFit) (short : sql.NamesFit)
    (hw : c.write sql = some c') : c'.NamesFit := by
  obtain ⟨users, saved⟩ := Conn.write_users hw
  constructor
  · intro u hu
    rcases users u hu with old | ⟨t, ht, old⟩ | ⟨hash, rfl⟩
    · exact h.now u old
    · exact h.saved t ht u old
    · exact short
  · intro t ht
    rcases saved t ht with old | rfl
    · exact h.saved t old
    · exact h.now

theorem Conn.NamesFit.failed {c : Conn} (h : c.NamesFit) (sql : Stmt) :
    (c.failed sql).NamesFit where
  now := c.failed_tables sql ▸ h.now
  saved t ht := h.saved t (c.failed_saved sql ▸ ht)

/-- The statement of a call that may write. -/
def SqlOp.NamesFit : SqlOp → Prop
  | step sql => sql.NamesFit
  | exec sql => sql.NamesFit
  | _ => True

theorem Conn.NamesFit.call {c : Conn} (h : c.NamesFit) {o : SqlOp} (short : o.NamesFit) :
    (Conn.call o c).2.NamesFit := by
  cases o with
  | step sql =>
    simp only [Conn.call, Conn.stepStmt]
    split
    · split <;> exact h
    · split
      · rename_i hw
        exact h.write short hw
      · exact h.failed sql
  | exec sql =>
    simp only [Conn.call]
    split
    · rename_i hw
      exact h.write short hw
    · exact h.failed sql
  | _ => exact h

/-- `addUser` is given a name within the limit. -/
def RepoOp.NamesFit : RepoOp → Prop
  | addUser username _ => username.length ≤ 64
  | _ => True

theorem length_cStr_le (s : Bytes) : (cStr s).length ≤ s.length :=
  (List.takeWhile_prefix _).length_le

theorem RepoOp.NamesFit.performs {o : RepoOp} (short : o.NamesFit) {sql : SqlOp}
    (performs : o.Performs sql) : sql.NamesFit := by
  cases sql with
  | step sql | exec sql =>
    cases sql with
    | insertUser username passwordHash =>
      cases o with
      | addUser name hash =>
        obtain ⟨rfl, -⟩ := Stmt.insertUser.inj performs
        exact (length_cStr_le name).trans short
      | _ => cases performs
    | _ => trivial
  | _ => trivial

theorem Conn.NamesFit.exec {c : Conn} (h : c.NamesFit) {o : RepoOp} (short : o.NamesFit) :
    (o.exec c).2.NamesFit := by
  have keep (sql : SqlOp) (c : Conn) (performs : o.Performs sql) (h : c.NamesFit) :
      (Conn.call sql c).2.NamesFit := h.call (short.performs performs)
  exact o.prog_only.run keep h

/-! ## The answers of the repositories -/

namespace RepoOp

variable {c : Conn}

theorem findUsers_fits (h : c.NamesFit) (query : Bytes) (excludeUserID : Int) :
    ((findUsers query excludeUserID).exec c).1.length ≤ 20 ∧
      ∀ n ∈ ((findUsers query excludeUserID).exec c).1, n.length ≤ 64 := by
  simp only [exec, prog, ChatRepository.findUsers, Conn.prepare_run, Bool.not_true,
    Bool.false_eq_true, if_false, Conn.rows_run, Tables.query, Prog.pure_eq, Prog.run_done,
    List.length_map, List.map_map]
  refine ⟨(List.length_take_le _ _), fun n hn => ?_⟩
  obtain ⟨name, found, rfl⟩ := List.mem_map.mp hn
  have sorted := List.mem_of_mem_take found
  obtain ⟨u, hu, rfl⟩ := List.mem_map.mp ((List.mem_insertionSort _).mp sorted)
  exact (length_cStr_le _).trans (h.now u (List.mem_of_mem_filter hu))

/-- Each row has the name of a user. -/
theorem userChats_name {t : Tables} {userID : Int} {r : Row}
    (hr : r ∈ t.query (.userChats userID)) :
    ∃ u ∈ t.users, r.columnText 1 = u.username := by
  simp only [Tables.query, List.mem_map, List.mem_insertionSort, List.mem_flatMap,
    List.mem_filterMap] at hr
  obtain ⟨x, ⟨chat, _, other, _, u, hu, joined⟩, rfl⟩ := hr
  split at joined
  · cases joined
    exact ⟨u, List.mem_of_mem_filter hu, rfl⟩
  · cases joined

theorem getUserChats_fits (h : c.NamesFit) (userID : Int) :
    ∀ e ∈ ((getUserChats userID).exec c).1, e.peerUsername.length ≤ 64 := by
  rw [getUserChats_exec]
  intro e he
  obtain ⟨r, hr, rfl⟩ := List.mem_map.mp he
  obtain ⟨u, hu, name⟩ := userChats_name hr
  rw [name]
  exact (length_cStr_le _).trans (h.now u hu)

end RepoOp

/-- The size of the chat list that the query for a user's chats would make. -/
def Tables.chatListSize (t : Tables) (userID : Int) : Nat :=
  2 + ((t.query (.userChats userID)).map fun r => 6 + (cStr (r.columnText 1)).length).sum

theorem chatListSize_exec (c : Conn) (userID : Int) :
    chatListSize ((RepoOp.getUserChats userID).exec c).1 = c.tables.chatListSize userID := by
  rw [chatListSize, Tables.chatListSize, RepoOp.getUserChats_exec, List.map_map]
  rfl

/-- The chats of the first user of a crowd have an entry each, of 70 bytes. -/
theorem chatListSize_crowd {n : Nat} (bound : n < 256) :
    2 + n * 70 ≤ (crowd n).chatListSize 1 := by
  have entries : n ≤ ((crowd n).query (.userChats 1)).length := by
    simp only [Tables.query, List.length_map, List.length_insertionSort]
    have chats := length_chats_crowd n
    refine (Nat.le_of_eq (by omega)).trans (Payload.le_length_flatMap (k := 1) fun c hc => ?_)
    obtain ⟨direct, first, u, hu, other, second⟩ := chats_crowd hc
    apply List.length_pos_of_mem (a := (c.id, u.username))
    simp only [List.mem_flatMap, List.mem_filter, List.mem_filterMap]
    have inside := Tables.mem_membersOf.mpr second
    exact ⟨_, ⟨inside, by simpa using other⟩, u, ⟨hu, by simp⟩, by simp [first, direct]⟩
  have sizes : ∀ k ∈ ((crowd n).query (.userChats 1)).map fun r =>
      6 + (cStr (r.columnText 1)).length, 70 ≤ k := by
    intro k hk
    obtain ⟨r, hr, rfl⟩ := List.mem_map.mp hk
    obtain ⟨u, hu, name⟩ := RepoOp.userChats_name hr
    obtain ⟨i, small, _, same⟩ := users_crowd hu
    rw [name, same, cStr_peerName (by omega), length_peerName]
  have all := List.card_nsmul_le_sum _ 70 sizes
  rw [List.length_map, Nat.nsmul_eq_mul] at all
  rw [Tables.chatListSize]
  omega

/-! ## What the tasks send -/

/-- What a task has heard: whether all answers so far are within their bounds, or the chats
that it is about to send. -/
inductive Heard where
  | answers (within : Prop)
  | chats (list : List ChatListEntry)

def AnswerFits : (o : Op) → o.Res → Prop
  | .repo (.findUsers _ _), names => names.length ≤ 20 ∧ ∀ n ∈ names, n.length ≤ 64
  | .session _ .getUsername, name => name.length ≤ 64
  | _, _ => True

/-- With such answers the client accepts what is sent, and no long name is stored. -/
def mayDo : Heard → Op → Prop
  | .answers within, .session _ (.sendRaw data) => within → ClientAccepts data
  | .answers _, .session _ (.setAuthenticated _ username) => username.length ≤ 64
  | .answers _, .repo o => o.NamesFit
  | .answers _, _ => True
  | .chats list, o => ∃ x messageID sessionID,
    o = .session x (.sendRaw (PacketBuilder.chatListResponse messageID sessionID ⟨list⟩))

def hears : Heard → (o : Op) → o.Res → Heard
  | .answers _, .repo (.getUserChats _), list => .chats list
  | .answers within, o, r => .answers (within ∧ AnswerFits o r)
  | .chats _, _, _ => .answers True

/-- The chats asked for have been sent. -/
def Heard.Settled : Heard → Prop
  | answers _ => True
  | chats _ => False

def Fits (p : ServerProg Unit) (h : Heard) : Prop := p.Keeps mayDo hears h fun _ h => h.Settled

section

variable {within : Prop} {header : PacketHeaderRaw} {x : SessionId}

theorem sendRaw_fits {data : Bytes} (small : within → ClientAccepts data) :
    Fits (IClientSession.sendRaw x data) (.answers within) :=
  ⟨small, fun _ => trivial⟩

theorem fits_of_small {d : Payload} {messageID sessionID : UInt32} (small : d.body.length ≤ 5120) :
    ClientAccepts (PacketBuilder.ofPayload messageID sessionID d) := by
  rw [PacketBuilder.ofPayload_eq]
  exact clientAccepts_buildPacket.mpr small

theorem register_small (success : Bool) : ClientAccepts
    (PacketBuilder.registerResponse header.messageID header.sessionID ⟨success⟩) :=
  fits_of_small (d := .registerResponse ⟨success⟩) (by cases success <;> decide)

theorem auth_small (success : Bool) : ClientAccepts
    (PacketBuilder.authResponse header.messageID header.sessionID ⟨success⟩) :=
  fits_of_small (d := .authResponse ⟨success⟩) (by cases success <;> decide)

theorem delete_small (success : Bool) : ClientAccepts
    (PacketBuilder.deleteResponse header.messageID header.sessionID ⟨success⟩) :=
  fits_of_small (d := .deleteResponse ⟨success⟩) (by cases success <;> decide)

theorem handleRegisterRequest_fits {data : RegisterRequestData} (name : data.username.length ≤ 64) :
    Fits (AuthService.handleRegisterRequest header data x) (.answers within) := by
  simp only [Fits, AuthService.handleRegisterRequest, Repo.userExists_eq, Prog.op_bind,
    Prog.done_bind, Prog.keeps_op]
  refine ⟨trivial, fun found => ?_⟩
  cases found with
  | true => exact sendRaw_fits fun _ => register_small false
  | false => exact ⟨name, fun success => sendRaw_fits fun _ => register_small success⟩

theorem handleAuthRequest_fits {data : AuthRequestData} (name : data.username.length ≤ 64) :
    Fits (AuthService.handleAuthRequest header data x) (.answers within) := by
  simp only [Fits, AuthService.handleAuthRequest, Repo.getUserPasswordHash_eq, Prog.op_bind,
    Prog.done_bind, Prog.keeps_op]
  refine ⟨trivial, fun storedHash => ?_⟩
  split
  · exact ⟨trivial, fun userID => ⟨name, fun _ => ⟨trivial, fun _ =>
      sendRaw_fits fun _ => auth_small true⟩⟩⟩
  · exact sendRaw_fits fun _ => auth_small false

theorem handleDeleteRequest_fits (data : DeleteRequestData) :
    Fits (AuthService.handleDeleteRequest header data x) (.answers within) :=
  ⟨trivial, fun success => sendRaw_fits fun _ => delete_small success⟩

theorem handleFindUserRequest_fits (data : FindUserRequestData) :
    Fits (ChatService.handleFindUserRequest header data x) (.answers within) := by
  simp only [Fits, ChatService.handleFindUserRequest, IClientSession.getUserID_eq, Prog.op_bind,
    Prog.done_bind, Prog.keeps_op]
  refine ⟨trivial, fun userID => ?_⟩
  split
  · exact sendRaw_fits fun _ => fits_of_small (d := .findUserResponse {}) (by decide)
  · refine ⟨trivial, fun usernames => sendRaw_fits fun heard => ?_⟩
    obtain ⟨_, few, names⟩ := heard
    exact fits_of_small (d := .findUserResponse ⟨usernames⟩)
      (Payload.length_body_findUserResponse few names)

theorem createChatResponse_small {resp : CreateChatResponseData}
    (name : resp.peerUsername.length ≤ 64) : ClientAccepts
      (PacketBuilder.createChatResponse header.messageID header.sessionID resp) := by
  apply fits_of_small (d := .createChatResponse resp)
  have peer : (Encoding.string resp.peerUsername).length = _ :=
    Encoding.length_string (by omega)
  have flag : (Encoding.bool resp.success).length = 1 := rfl
  simp only [Payload.body, List.length_append, Encoding.length_uint32BE, peer, flag]
  omega

/-- Only the repositories are asked, and the answer names the peer or nobody. -/
theorem createChat_fits {data : CreateChatRequestData} (name : data.peerUsername.length ≤ 64)
    (userID : Int) :
    (ChatService.createChat data userID).Keeps mayDo hears (.answers within) fun resp h =>
      resp.peerUsername.length ≤ 64 ∧ ∃ within, h = .answers within := by
  unfold ChatService.createChat
  split
  · exact ⟨Nat.zero_le _, _, rfl⟩
  · simp only [Repo.getUserID_eq, Prog.op_bind, Prog.done_bind, Prog.keeps_op]
    refine ⟨trivial, fun peerID => ?_⟩
    split
    · exact ⟨Nat.zero_le _, _, rfl⟩
    · simp only [Repo.findOrCreateDirectChat_eq, Prog.op_bind, Prog.done_bind, Prog.keeps_op]
      refine ⟨trivial, fun chatID => ?_⟩
      split
      · exact ⟨name, _, rfl⟩
      · exact ⟨Nat.zero_le _, _, rfl⟩

theorem handleCreateChatRequest_fits {data : CreateChatRequestData}
    (name : data.peerUsername.length ≤ 64) :
    Fits (ChatService.handleCreateChatRequest header data x) (.answers within) := by
  simp only [Fits, ChatService.handleCreateChatRequest, IClientSession.getUserID_eq, Prog.op_bind,
    Prog.done_bind, Prog.keeps_op]
  refine ⟨trivial, fun userID => Prog.Keeps.bind ((createChat_fits name userID).mono ?_)⟩
  rintro resp h ⟨short, within, rfl⟩
  exact sendRaw_fits fun _ => createChatResponse_small short

theorem handleChatListRequest_fits :
    Fits (ChatService.handleChatListRequest header x) (.answers within) := by
  simp only [Fits, ChatService.handleChatListRequest, IClientSession.getUserID_eq, Prog.op_bind,
    Prog.done_bind, Prog.keeps_op]
  refine ⟨trivial, fun userID => ?_⟩
  split
  · exact ⟨trivial, fun list => ⟨⟨x, _, _, rfl⟩, fun _ => trivial⟩⟩
  · exact sendRaw_fits fun _ => fits_of_small (d := .chatListResponse {}) (by decide)

theorem broadcastLoop_fits {excludeUserID : Int} {packet : Bytes} {memberIDs : List Int}
    (small : within → ClientAccepts packet) :
    Fits (MessageService.broadcastLoop excludeUserID packet memberIDs) (.answers within) := by
  induction memberIDs generalizing within with
  | nil => trivial
  | cons userID memberIDs ih =>
    unfold MessageService.broadcastLoop
    split
    · exact ih small
    · simp only [Fits, ISessionRegistry.findByUserID_eq, Prog.op_bind, Prog.done_bind,
        Prog.keeps_op]
      refine ⟨trivial, fun found => ?_⟩
      cases found with
      | none => exact ih fun heard => small heard.1
      | some recipient =>
        exact ⟨fun heard => small heard.1, fun _ => ⟨trivial, fun _ =>
          ih fun heard => small heard.1.1.1⟩⟩

theorem handleMessageSend_fits {data : MessageSendData} (text : data.text.length ≤ 4096) :
    Fits (MessageService.handleMessageSend data x) (.answers within) := by
  simp only [Fits, MessageService.handleMessageSend, IClientSession.getUserID_eq, Prog.op_bind,
    Prog.done_bind, Prog.keeps_op]
  refine ⟨trivial, fun senderID => ?_⟩
  split
  · trivial
  · simp only [Repo.saveMessage_eq, IClientSession.getUsername_eq, Repo.getChatMemberIDs_eq,
      Prog.op_bind, Prog.done_bind, Prog.keeps_op]
    refine ⟨trivial, fun _ => ⟨trivial, fun name => ⟨trivial, fun members => ?_⟩⟩⟩
    apply broadcastLoop_fits
    intro heard
    have short : name.length ≤ 64 := heard.1.2
    apply fits_of_small (d := .messageReceive ⟨name, data.chatID, data.text⟩)
    have sender : (Encoding.string name).length = _ := Encoding.length_string (by omega)
    have body : (Encoding.string data.text).length = _ := Encoding.length_string (by omega)
    simp only [Payload.body, List.length_append, Encoding.length_uint32BE, sender, body]
    omega

end

theorem handleConnectRequest_fits {within : Prop} {header : PacketHeaderRaw} {x : SessionId} :
    Fits (PacketDispatcher.handleConnectRequest header x) (.answers within) := by
  have small (sessionID : UInt32) :
      ClientAccepts (PacketBuilder.connectResponse header.messageID sessionID) :=
    fits_of_small (d := .connectResponse) (by decide)
  unfold PacketDispatcher.handleConnectRequest
  split
  · exact sendRaw_fits fun _ => small header.sessionID
  · exact ⟨trivial, fun fd => sendRaw_fits fun _ => small _⟩

theorem dispatch_fits {within : Prop} (header : PacketHeaderRaw) (body : Bytes) (x : SessionId) :
    Fits (PacketDispatcher.dispatch header body x) (.answers within) := by
  have short {s : Bytes} (h : Validator.validateUsername s = true) : s.length ≤ 64 :=
    (Validator.bounded_iff.mp h).2.1
  unfold PacketDispatcher.dispatch
  split
  · exact handleConnectRequest_fits
  · exact ⟨trivial, fun _ => trivial⟩
  · refine validated_keeps (fun data _ valid => ?_) trivial
    exact handleRegisterRequest_fits (short (Bool.and_eq_true_iff.mp valid).1)
  · refine validated_keeps (fun data _ valid => ?_) trivial
    exact handleAuthRequest_fits (short (Bool.and_eq_true_iff.mp valid).1)
  · exact validated_keeps (fun data _ _ => handleDeleteRequest_fits data) trivial
  · exact validated_keeps (fun data _ _ => handleFindUserRequest_fits data) trivial
  · exact validated_keeps (fun data _ valid => handleCreateChatRequest_fits (short valid)) trivial
  · exact handleChatListRequest_fits
  · refine validated_keeps (fun data _ valid => ?_) trivial
    exact handleMessageSend_fits (Validator.bounded_iff.mp (Bool.and_eq_true_iff.mp valid).2).2.1
  · trivial

theorem taskBody_fits (t : Task) : Fits (taskBody t) (.answers True) := by
  simp only [Fits, taskBody, IClientSession.isClosed_eq, Prog.op_bind, Prog.done_bind,
    Prog.keeps_op]
  refine ⟨trivial, fun closed => ?_⟩
  cases closed with
  | true => trivial
  | false => exact dispatch_fits t.header t.body t.session

/-! ## Runs -/

namespace Server

variable {s t : Server} {a : Action}

/-- The client accepts every packet that a worker is about to send. -/
def PacketsFit (s : Server) : Prop :=
  ∀ w ∈ s.pool.workers, ∀ x data, w.nextOp = some (.session x (.sendRaw data)) →
    ClientAccepts data

/-- A chat list that is asked for is small enough. -/
def chatListFits (s : Server) (a : Action) : Bool :=
  match s.nextOp a with
  | some (.repo (.getUserChats userID)) => s.shared.conn.tables.chatListSize userID ≤ 5120
  | _ => true

/-- What a task has heard is within the bounds; `small` is the one of a chat list. -/
def Within (small : List ChatListEntry → Prop) : Heard → Prop
  | .answers within => within
  | .chats list => (∀ e ∈ list, e.peerUsername.length ≤ 64) ∧ small list

structure SizeInv (small : List ChatListEntry → Prop) (s : Server) : Prop where
  stored : s.shared.conn.NamesFit
  names : ∀ x, (s.obj x).username.length ≤ 64
  running : ∀ r, Worker.running r ∈ s.pool.workers → ∃ h, Within small h ∧ Fits r.rest h

/-- The list that the client accepts. -/
def SmallList (list : List ChatListEntry) : Prop := Cvcn.chatListSize list ≤ 5120

variable {small : List ChatListEntry → Prop}

theorem clientAccepts_chatList {list : List ChatListEntry} {messageID sessionID : UInt32}
    (names : ∀ e ∈ list, e.peerUsername.length ≤ 64) :
    ClientAccepts (PacketBuilder.chatListResponse messageID sessionID ⟨list⟩) ↔
      SmallList list := by
  have built := PacketBuilder.ofPayload_eq messageID sessionID (.chatListResponse ⟨list⟩)
  rw [PacketBuilder.ofPayload] at built
  rw [built, clientAccepts_buildPacket, Payload.length_body_chatListResponse names, SmallList]

theorem SizeInv.packetsFit (h : SizeInv SmallList s) : PacketsFit s := by
  intro w hw x data next
  cases w with
  | running r =>
    obtain ⟨job, rest⟩ := r
    cases rest with
    | done a => cases next
    | op o rest =>
      cases next
      obtain ⟨heard, within, may, _⟩ := h.running _ hw
      cases heard with
      | answers good => exact may within
      | chats list =>
        obtain ⟨y, messageID, sessionID, e⟩ := may
        cases e
        exact (clientAccepts_chatList within.1).mpr within.2
  | _ => cases next

/-- An operation that a task may do keeps the names in the tables and in the sessions short. -/
theorem SizeInv.afterOp (h : SizeInv small s) {o : Op} {heard : Heard} (may : mayDo heard o) :
    (s.afterOp o).shared.conn.NamesFit ∧ ∀ x, ((s.afterOp o).obj x).username.length ≤ 64 := by
  cases o with
  | repo o =>
    have short : o.NamesFit := by
      cases heard with
      | answers good => exact may
      | chats list =>
        obtain ⟨_, _, _, e⟩ := may
        cases e
    exact ⟨h.stored.exec short, h.names⟩
  | findByUserID userID => exact ⟨h.stored, h.names⟩
  | registerUser userID x =>
    simp only [Server.afterOp, Shared.exec, Shared.registerUser]
    split <;> exact ⟨h.stored, h.names⟩
  | session x o =>
    cases o with
    | setAuthenticated userID username =>
      have short : username.length ≤ 64 := by
        cases heard with
        | answers good => exact may
        | chats list =>
          obtain ⟨_, _, _, e⟩ := may
          cases e
      refine ⟨h.stored, fun y => ?_⟩
      simp only [Server.afterOp, Shared.exec, Shared.sessionOp, Shared.setSession, obj]
      by_cases hy : y = x
      · subst hy
        rw [Function.update_self]
        exact short
      · rw [Function.update_of_ne hy]
        exact h.names y
    | _ => exact ⟨h.stored, h.names⟩

/-- Its answer is within the bounds. -/
theorem SizeInv.hears (h : SizeInv small s) {o : Op} {heard : Heard} (within : Within small heard)
    (fits : ∀ userID, o = .repo (.getUserChats userID) →
      small ((RepoOp.getUserChats userID).exec s.shared.conn).1) :
    Within small (Cvcn.hears heard o (Shared.exec o s.shared).1) := by
  cases heard with
  | chats list => trivial
  | answers good =>
    cases o with
    | repo o =>
      cases o with
      | findUsers query excludeUserID =>
        exact ⟨within, RepoOp.findUsers_fits h.stored query excludeUserID⟩
      | getUserChats userID =>
        exact ⟨RepoOp.getUserChats_fits h.stored userID, fits userID rfl⟩
      | _ => exact ⟨within, trivial⟩
    | session x o =>
      cases o with
      | getUsername => exact ⟨within, h.names x⟩
      | _ => exact ⟨within, trivial⟩
    | _ => exact ⟨within, trivial⟩

theorem SizeInv.worker {i : Nat} {b : Backend} (h : SizeInv small s)
    (work : s.toBackend.worker i = some b)
    (fits : ∀ userID, s.nextOp (.worker i) = some (.repo (.getUserChats userID)) →
      small ((RepoOp.getUserChats userID).exec s.shared.conn).1) :
    SizeInv small { s with toBackend := b } := by
  cases Backend.worker_task work with
  | begins job tasks =>
    refine ⟨h.stored, h.names, fun r hr => ?_⟩
    rcases mem_set_cases hr with new | ⟨j, _, old⟩
    · cases new
      exact ⟨.answers True, trivial, taskBody_fits job.task⟩
    · exact h.running r (List.mem_of_getElem? old)
  | executes job o rest running =>
    obtain ⟨heard, within, may, keeps⟩ := h.running _ (List.mem_of_getElem? running)
    obtain ⟨stored, names⟩ := h.afterOp may
    refine ⟨stored, names, fun r hr => ?_⟩
    rcases mem_set_cases hr with new | ⟨j, _, old⟩
    · cases new
      refine ⟨_, h.hears within fun userID e => fits userID ?_, keeps _⟩
      simp [nextOp, running, Worker.nextOp, e]
    · exact h.running r (List.mem_of_getElem? old)
  | between w pool queue idle workers =>
    refine ⟨h.stored, h.names, fun r hr => ?_⟩
    have hr : Worker.running r ∈ pool.workers := hr
    rw [workers] at hr
    rcases mem_set_cases hr with new | ⟨j, _, old⟩
    · exact absurd new.symm (idle r)
    · exact h.running r (List.mem_of_getElem? old)

theorem step_size (h : SizeInv small s)
    (fits : ∀ userID, s.nextOp a = some (.repo (.getUserChats userID)) →
      small ((RepoOp.getUserChats userID).exec s.shared.conn).1)
    (hs : s.step a = some t) : SizeInv small t := by
  cases step_cases hs with
  | worker i b is work =>
    subst is
    exact h.worker work fits
  | connects fd batch openFds epoll =>
    refine ⟨h.stored, fun x => ?_, h.running⟩
    rw [onNewConnection_obj]
    split
    · exact Nat.zero_le _
    · exact h.names x
  | deletes deletes =>
    have frame := deletes.frame
    exact ⟨by rw [frame.conn]; exact h.stored, fun x => by rw [frame.username]; exact h.names x,
      fun r hr => h.running r (by rw [← frame.workers]; exact hr)⟩

theorem sizeInv_start {tables : Tables} (stored : tables.NamesFit) (numThreads : Nat)
    (listenFd eventFd : Fd) : SizeInv small (start tables numThreads listenFd eventFd) where
  stored := ⟨stored, nofun⟩
  names _ := Nat.zero_le _
  running r hr := by
    have waiting := List.eq_of_mem_replicate hr
    cases waiting

/-- A worker whose next operation is `o`, and the state when it has executed it. -/
theorem step_of_nextOp {o : Op} (next : s.nextOp a = some o) (hs : s.step a = some t) :
    ∃ i job rest, s.pool.workers[i]? = some (.running ⟨job, .op o rest⟩) ∧
      t.pool.workers = s.pool.workers.set i (.running ⟨job, rest (Shared.exec o s.shared).1⟩) := by
  cases a with
  | epollWait events => cases next
  | main k => cases next
  | worker i =>
    obtain ⟨w, running, next⟩ := Option.bind_eq_some_iff.mp next
    cases w with
    | running r =>
      obtain ⟨job, rest⟩ := r
      cases rest with
      | done a => cases next
      | op o' rest =>
        cases next
        obtain ⟨b, work, rfl⟩ := Option.map_eq_some_iff.mp hs
        simp only [Backend.worker, running, Option.some.injEq] at work
        subst work
        exact ⟨i, job, rest, running, rfl⟩
    | _ => cases next

/-- A chat list that is too large is sent next. -/
theorem step_exceeds (h : SizeInv small s) (large : ¬ s.chatListFits a = true)
    (hs : s.step a = some t) : ¬ PacketsFit t := by
  intro packetsFit
  unfold chatListFits at large
  split at large
  · rename_i userID next
    obtain ⟨i, job, rest, running, workers⟩ := step_of_nextOp next hs
    obtain ⟨heard, _, may, keeps⟩ := h.running _ (List.mem_of_getElem? running)
    cases heard with
    | chats list =>
      obtain ⟨_, _, _, e⟩ := may
      cases e
    | answers good =>
      set list := (Shared.exec (.repo (.getUserChats userID)) s.shared).1 with answer
      have sends := keeps list
      have mem : Worker.running ⟨job, rest list⟩ ∈ t.pool.workers := by
        rw [workers]
        exact mem_set_new running
      cases told : rest list with
      | done a =>
        simp only [told] at sends
        exact sends
      | op o more =>
        simp only [told] at sends mem
        obtain ⟨⟨x, messageID, sessionID, rfl⟩, _⟩ := sends
        have accepted := packetsFit _ mem x _ rfl
        have names := RepoOp.getUserChats_fits h.stored userID
        have fits : SmallList list := (clientAccepts_chatList names).mp accepted
        rw [SmallList, answer, Shared.exec, chatListSize_exec] at fits
        exact large (decide_eq_true fits)
  · exact large rfl

/-- The tables that runs of the server can leave behind, each on what the one before has left. -/
inductive Content : Tables → Prop
  | empty : Content {}
  | after {tables : Tables} {numThreads : Nat} {listenFd eventFd : Fd} {as : List Action}
      {s : Server} (before : Content tables)
      (run : exec step (start tables numThreads listenFd eventFd) as = some s) :
      Content s.shared.conn.tables

theorem Content.namesFit {tables : Tables} (content : Content tables) : tables.NamesFit := by
  induction content with
  | empty => nofun
  | @after tables numThreads listenFd eventFd as s before run ih =>
    have last := invariant (I := SizeInv fun _ => True)
      (fun s a t h hs => step_size h (fun _ _ => trivial) hs)
      (sizeInv_start ih numThreads listenFd eventFd) run
    exact last.stored.now

/-- **Sizes, exactly when.** On whatever content earlier runs have left in the database, the client
accepts all the packets that workers are about to send, throughout a run, if and only if every
chat list that is asked for in it is small enough. -/
theorem packets_fit_iff (tables : Tables) (content : Content tables) (numThreads : Nat)
    (listenFd eventFd : Fd) (as : List Action) (t : Server)
    (run : exec step (start tables numThreads listenFd eventFd) as = some t) :
    Throughout step PacketsFit (start tables numThreads listenFd eventFd) as ↔
      Along step (chatListFits · · = true) (start tables numThreads listenFd eventFd) as := by
  apply throughout_iff_along (J := SizeInv SmallList)
  · exact fun s h => h.packetsFit
  · intro s a t h fits hs
    refine step_size h (fun userID next => ?_) hs
    rw [SmallList, chatListSize_exec]
    simpa [chatListFits, next] using fits
  · exact fun s a t h large hs => step_exceeds h large hs
  · exact sizeInv_start content.namesFit numThreads listenFd eventFd
  · exact run

/-- A user registers, logs in and asks for the chats, of which there are none. -/
def listAsked : List Action :=
  [Action.epollWait [{ fd := 3, readable := true }], .main { accepted := some 5 },
    .epollWait [{ fd := 5, readable := true }],
    .main { recvs := [.bytes (PacketBuilder.registerRequest 1 5 ⟨[97], [112]⟩ ++
      PacketBuilder.authRequest 2 5 ⟨[97], [112]⟩ ++ PacketBuilder.chatListRequest 3 5),
      .again] }] ++
    List.replicate 21 (Action.worker 0)

theorem packets_fit_for_one_user :
    Throughout step PacketsFit (start {} 1 3 4) listAsked :=
  (packets_fit_iff {} .empty 1 3 4 listAsked _ rfl).mpr (by decide +kernel)

/-- A user with 74 chats is sent a list that the client refuses. -/
theorem large_list_sent :
    ∃ as t, exec step (start {} 1 3 4) as = some t ∧ ¬ PacketsFit t := by
  obtain ⟨as, s, grows, crowded⟩ := crowded (n := 74) (by decide)
  obtain ⟨bs, t, i, u, asks, next, executes, tables⟩ := crowded.asks
  have run := exec_append.mpr ⟨s, grows, asks⟩
  have large : ¬ t.chatListFits (.worker i) = true := by
    have size := chatListSize_crowd (n := 74) (by decide)
    simp only [chatListFits, next, tables, decide_eq_true_eq]
    omega
  have inv : SizeInv (fun _ => True) t :=
    invariant (fun s a t h hs => step_size h (fun _ _ => trivial) hs)
      (sizeInv_start Content.empty.namesFit 1 3 4) run
  have last : exec step t [.worker i] = some u := exec_cons.mpr ⟨u, executes, rfl⟩
  exact ⟨_, u, exec_append.mpr ⟨t, run, last⟩, step_exceeds inv large executes⟩

end Server

end Cvcn
