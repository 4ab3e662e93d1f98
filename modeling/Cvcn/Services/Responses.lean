import Cvcn.Services.PacketSizes
import Cvcn.Services.Requests

/-!
# One answer for each request

A client that waits for an answer has no timeout. Each request of a client but a message is
answered once, whatever the repositories say: every branch of every handler ends with one
`sendRaw`, and `DisconnectRequest` with one `requestClose`.
-/

namespace Cvcn

open Atomic

/-- The type of the answer to a request, for those that are answered. -/
def PacketType.response : PacketType → Option PacketType
  | connectRequest => some connectResponse
  | registerRequest => some registerResponse
  | authRequest => some authResponse
  | deleteRequest => some deleteResponse
  | findUserRequest => some findUserResponse
  | createChatRequest => some createChatResponse
  | chatListRequest => some chatListResponse
  | _ => none

namespace PacketDispatcher

/-- The body of a request is parsed and passes the validators; some requests have none that
counts. -/
def Accepts (t : PacketType) (body : Bytes) : Prop :=
  t ∈ requestTypes → ∃ r : Request, r.payload.type = t ∧
    PacketParser.parseData t body = some r.payload ∧ r.Valid

/-- The session id of an answer: a client that connects without one gets its descriptor. -/
def answeredSession (t : PacketType) (header : PacketHeaderRaw) (fd : Fd) : UInt32 :=
  if t = .connectRequest ∧ header.sessionID = 0 then UInt32.ofNat fd else header.sessionID

end PacketDispatcher

/-- The names among the results of a repository are not longer than those it is given. -/
def RepoOp.ShortNames : (o : RepoOp) → o.Res → Prop
  | findUsers _ _, usernames => ∀ n ∈ usernames, n.length ≤ 64
  | getUserChats _, chats => ∀ e ∈ chats, e.peerUsername.length ≤ 64
  | _, _ => True

namespace Payload

open Encoding

/-- Each element of a list takes two bytes at least, those of its length. -/
theorem elements_le_length_body (d : Payload) : d.elements ≤ d.body.length := by
  have string_length (s : Bytes) : 1 ≤ (string s).length := by
    simp only [string, ByteWriter.writeString, List.length_append]
    exact Nat.le_add_right_of_le (Nat.le_succ 1)
  cases d with
  | findUserResponse data =>
    have each := le_length_flatMap (k := 1) fun s (_ : s ∈ data.usernames) => string_length s
    simp only [elements, body, List.length_append]
    omega
  | chatListResponse data =>
    have entry_length (e : ChatListEntry) : 1 ≤ (entry e).length := by
      have name := string_length e.peerUsername
      rw [entry, List.length_append]
      omega
    have each := le_length_flatMap (k := 1) fun e (_ : e ∈ data.chats) => entry_length e
    simp only [elements, body, List.length_append]
    omega
  | _ => exact Nat.zero_le _

end Payload

namespace Shared

/-- One operation of a service over repositories that may answer anything but long names, and
may do anything to the database. -/
def Allows : (o : Op) → Shared → o.Res → Shared → Prop
  | .repo o, sh, r, sh' => o.ShortNames r ∧ ∃ conn, sh' = { sh with conn }
  | .session s o, sh, r, sh' => sessionOp s o sh = (r, sh')
  | .registerUser userID session, sh, _, sh' => sh' = sh.registerUser userID session
  | .findByUserID userID, sh, r, sh' => r = sh.byUserID userID ∧ sh' = sh

/-- The answer with this data is all that is pushed. -/
def Answered (x : SessionId) (messageID sessionID : UInt32) (sh sh' : Shared) (d : Payload) :
    Prop :=
  sh'.queue = sh.queue ++ [⟨⟨.sendRaw, (sh.objects x).fileDescriptor,
    PacketBuilder.ofPayload messageID sessionID d⟩, x⟩]

/-- The program ends after one answer of this type, without long names in it. -/
def Answers (x : SessionId) (messageID sessionID : UInt32) (t : PacketType)
    (p : ServerProg Unit) : Prop :=
  ∀ sh, p.Ensures Allows sh fun _ sh' => ∃ d : Payload, d.type = t ∧
    (∀ s ∈ d.strings, s.length ≤ 64) ∧ Answered x messageID sessionID sh sh' d

variable {x : SessionId} {messageID sessionID : UInt32}

theorem answers_sendRaw {d : Payload} (short : ∀ s ∈ d.strings, s.length ≤ 64) {data : Bytes}
    (built : data = PacketBuilder.ofPayload messageID sessionID d) :
    Answers x messageID sessionID d.type (IClientSession.sendRaw x data) := by
  rintro sh r sh' step
  subst built
  cases step
  exact ⟨d, rfl, short, rfl⟩

/-- The operation pushes nothing and leaves the session its descriptor. -/
def Quiet (x : SessionId) (o : Op) : Prop :=
  ∀ sh r sh', Allows o sh r sh' → sh'.queue = sh.queue ∧
    (sh'.objects x).fileDescriptor = (sh.objects x).fileDescriptor

/-- What is asked before the answer does not matter. -/
theorem Answers.op {o : Op} {rest : o.Res → ServerProg Unit} {t : PacketType} (quiet : Quiet x o)
    (go : ∀ sh r sh', Allows o sh r sh' → Answers x messageID sessionID t (rest r)) :
    Answers x messageID sessionID t (.op o rest) := by
  intro sh r sh' step
  obtain ⟨queue, fd⟩ := quiet sh r sh' step
  refine (go sh r sh' step sh').mono fun _ after ⟨d, type, short, answered⟩ => ?_
  refine ⟨d, type, short, ?_⟩
  rw [Answered, ← queue, ← fd]
  exact answered

theorem repo_quiet (o : RepoOp) : Quiet x (.repo o) := by
  rintro sh r sh' ⟨-, conn, rfl⟩
  exact ⟨rfl, rfl⟩

theorem getUserID_quiet : Quiet x (.session x .getUserID) := by
  intro sh r sh' step
  cases step
  exact ⟨rfl, rfl⟩

theorem setAuthenticated_quiet (userID : Int) (username : Bytes) :
    Quiet x (.session x (.setAuthenticated userID username)) := by
  intro sh r sh' step
  cases step
  refine ⟨rfl, ?_⟩
  simp only [setSession, Function.update_self]

theorem registerUser_quiet (userID : Int) : Quiet x (.registerUser userID x) := by
  intro sh r sh' step
  cases step
  unfold registerUser
  split <;> exact ⟨rfl, rfl⟩

section

variable (header : PacketHeaderRaw)

theorem handleRegisterRequest_answers (data : RegisterRequestData) :
    Answers x header.messageID header.sessionID .registerResponse
      (AuthService.handleRegisterRequest header data x) := by
  have answer (success : Bool) : Answers x header.messageID header.sessionID .registerResponse
      (IClientSession.sendRaw x
        (PacketBuilder.registerResponse header.messageID header.sessionID ⟨success⟩)) :=
    answers_sendRaw (d := .registerResponse ⟨success⟩) (by simp [Payload.strings]) rfl
  refine Answers.op (repo_quiet _) fun sh found sh' _ => ?_
  cases found with
  | true => exact answer false
  | false => exact Answers.op (repo_quiet _) fun sh success sh' _ => answer success

theorem handleAuthRequest_answers (data : AuthRequestData) :
    Answers x header.messageID header.sessionID .authResponse
      (AuthService.handleAuthRequest header data x) := by
  have answer (success : Bool) : Answers x header.messageID header.sessionID .authResponse
      (IClientSession.sendRaw x
        (PacketBuilder.authResponse header.messageID header.sessionID ⟨success⟩)) :=
    answers_sendRaw (d := .authResponse ⟨success⟩) (by simp [Payload.strings]) rfl
  refine Answers.op (repo_quiet _) fun sh storedHash sh' _ => ?_
  simp only [Prog.bind]
  split
  · refine Answers.op (repo_quiet _) fun sh userID sh' _ => ?_
    refine Answers.op (setAuthenticated_quiet _ _) fun sh _ sh' _ => ?_
    exact Answers.op (registerUser_quiet _) fun sh _ sh' _ => answer true
  · exact answer false

theorem handleDeleteRequest_answers (data : DeleteRequestData) :
    Answers x header.messageID header.sessionID .deleteResponse
      (AuthService.handleDeleteRequest header data x) := by
  refine Answers.op (repo_quiet _) fun sh success sh' _ => ?_
  exact answers_sendRaw (d := .deleteResponse ⟨success⟩) (by simp [Payload.strings]) rfl

theorem handleFindUserRequest_answers (data : FindUserRequestData) :
    Answers x header.messageID header.sessionID .findUserResponse
      (ChatService.handleFindUserRequest header data x) := by
  refine Answers.op getUserID_quiet fun sh userID sh' _ => ?_
  simp only [Prog.bind]
  split
  · exact answers_sendRaw (d := .findUserResponse {}) (by simp [Payload.strings]) rfl
  · refine Answers.op (repo_quiet _) fun sh usernames sh' step => ?_
    exact answers_sendRaw (d := .findUserResponse ⟨usernames⟩) step.1 rfl

theorem handleChatListRequest_answers :
    Answers x header.messageID header.sessionID .chatListResponse
      (ChatService.handleChatListRequest header x) := by
  refine Answers.op getUserID_quiet fun sh userID sh' _ => ?_
  simp only [Prog.bind]
  split
  · refine Answers.op (repo_quiet _) fun sh chats sh' step => ?_
    refine answers_sendRaw (d := .chatListResponse ⟨chats⟩) (fun s hs => ?_) rfl
    obtain ⟨e, he, rfl⟩ := List.mem_map.mp hs
    exact step.1 e he
  · exact answers_sendRaw (d := .chatListResponse {}) (by simp [Payload.strings]) rfl

theorem handleCreateChatRequest_answers {data : CreateChatRequestData}
    (name : data.peerUsername.length ≤ 64) :
    Answers x header.messageID header.sessionID .createChatResponse
      (ChatService.handleCreateChatRequest header data x) := by
  have answer {resp : CreateChatResponseData} (short : resp.peerUsername.length ≤ 64) :
      Answers x header.messageID header.sessionID .createChatResponse (IClientSession.sendRaw x
        (PacketBuilder.createChatResponse header.messageID header.sessionID resp)) :=
    answers_sendRaw (d := .createChatResponse resp) (by simpa [Payload.strings] using short) rfl
  refine Answers.op getUserID_quiet fun sh userID sh' _ => ?_
  simp only [Prog.bind, ChatService.createChat]
  split
  · exact answer (Nat.zero_le _)
  · refine Answers.op (repo_quiet _) fun sh peerID sh' _ => ?_
    simp only [Prog.bind]
    split
    · exact answer (Nat.zero_le _)
    · refine Answers.op (repo_quiet _) fun sh chatID sh' _ => ?_
      simp only [Prog.bind]
      split
      · exact answer name
      · exact answer (Nat.zero_le _)

/-- `handleConnectRequest` may ask for the descriptor first. -/
theorem handleConnectRequest_answers (sh : Shared) :
    (PacketDispatcher.handleConnectRequest header x).Ensures Allows sh fun _ sh' =>
      Answered x header.messageID (PacketDispatcher.answeredSession .connectRequest header
        (sh.objects x).fileDescriptor) sh sh' .connectResponse := by
  unfold PacketDispatcher.handleConnectRequest PacketDispatcher.answeredSession
  by_cases none : header.sessionID = 0
  · rw [if_neg (by simp [none]), if_pos ⟨rfl, none⟩]
    intro fd sh₁ asked r sh₂ sent
    cases asked
    cases sent
    rfl
  · rw [if_pos (by simpa using none), if_neg (by simp [none])]
    intro r sh₁ sent
    cases sent
    rfl

/-- The answers of the handlers that `dispatch` calls. -/
theorem dispatch_answers {t t' : PacketType} (type : header.type = t.code)
    (answers : t.response = some t') (other : t ≠ .connectRequest) {body : Bytes}
    (accepted : PacketDispatcher.Accepts t body) :
    Answers x header.messageID header.sessionID t'
      (PacketDispatcher.dispatch header body x) := by
  by_cases request : t ∈ PacketDispatcher.requestTypes
  · obtain ⟨r, same, read, valid⟩ := accepted request
    subst same
    have handled := (PacketDispatcher.dispatch_eq_handle_iff r type body x).mpr
      ⟨(valid.parseData_iff body).mp read, valid⟩
    rw [handled]
    cases r with
    | register data => cases answers; exact handleRegisterRequest_answers header data
    | auth data => cases answers; exact handleAuthRequest_answers header data
    | delete data => cases answers; exact handleDeleteRequest_answers header data
    | findUser data => cases answers; exact handleFindUserRequest_answers header data
    | createChat data => cases answers; exact handleCreateChatRequest_answers header valid.2.1
    | messageSend data => cases answers
  · have list : t = .chatListRequest := by
      cases t with
      | chatListRequest => rfl
      | connectRequest => exact absurd rfl other
      | registerRequest | authRequest | deleteRequest | findUserRequest | createChatRequest =>
        exact absurd (by decide) request
      | _ => cases answers
    subst list
    cases answers
    simp only [PacketDispatcher.dispatch, type, PacketType.ofCode_code]
    exact handleChatListRequest_answers header

/-- An answer without long names is read back by the client, if its body can be announced. -/
theorem answer_read {d : Payload} (short : ∀ s ∈ d.strings, s.length ≤ 64) :
    PacketParser.parseHeader (PacketBuilder.ofPayload messageID sessionID d) =
        some ⟨d.type.code, messageID, sessionID, UInt16.ofNat d.body.length⟩ ∧
      (d.body.length ≤ 65535 → PacketParser.parseData d.type
        ((PacketBuilder.ofPayload messageID sessionID d).drop PacketHeaderRaw.size) = some d) := by
  have parsed := PacketBuilder.parseHeader_buildPacket d.type messageID sessionID d.body []
  rw [List.append_nil] at parsed
  rw [PacketBuilder.ofPayload_eq, PacketBuilder.drop_buildPacket]
  refine ⟨parsed, fun fits => PacketParser.parseData_body d (fun s hs => ?_) ?_⟩
  · exact (short s hs).trans (by decide)
  · exact d.elements_le_length_body.trans fits

end

/-- The repositories of the server do not answer with long names, if there are none in the
database. -/
theorem allows_exec {h : Heard} {o : Op} {sh : Shared} (may : mayDo h o)
    (names : sh.conn.NamesFit) :
    Allows o sh (exec o sh).1 (exec o sh).2 ∧ (exec o sh).2.conn.NamesFit := by
  cases o with
  | repo o =>
    have short : o.NamesFit := by
      cases h with
      | answers within => exact may
      | chats list =>
        obtain ⟨x, messageID, sessionID, same⟩ := may
        cases same
    refine ⟨⟨?_, _, rfl⟩, names.exec short⟩
    cases o with
    | findUsers query excludeUserID => exact (RepoOp.findUsers_fits names query excludeUserID).2
    | getUserChats userID => exact RepoOp.getUserChats_fits names userID
    | _ => trivial
  | session s o => cases o <;> exact ⟨rfl, names⟩
  | registerUser userID session =>
    refine ⟨rfl, ?_⟩
    simp only [exec, registerUser]
    split <;> exact names
  | findByUserID userID => exact ⟨⟨rfl, rfl⟩, names⟩

/-- So what `dispatch` ensures over all repositories it does over those of the server. -/
theorem run_of_ensures {header : PacketHeaderRaw} {body : Bytes} {sh : Shared}
    {Q : Unit → Shared → Prop}
    (h : (PacketDispatcher.dispatch header body x).Ensures Allows sh Q)
    (names : sh.conn.NamesFit) :
    Q () ((PacketDispatcher.dispatch header body x).run exec sh).2 :=
  h.run (I := fun _ sh => sh.conn.NamesFit) (fun _ _ _ may names => allows_exec may names)
    (@dispatch_fits True header body x) names

/-- Whatever the repositories answer, a request that is parsed and valid is answered by one
command: the packet of the response, for the session that asked and with the header's ids, which
the client reads back; `DisconnectRequest` closes the session. -/
theorem one_answer_per_request (sh : Shared) (x : SessionId) (header : PacketHeaderRaw)
    (body : Bytes) {t : PacketType} (type : header.type = t.code)
    (accepted : PacketDispatcher.Accepts t body) :
    let fd := (sh.objects x).fileDescriptor
    let sessionID := PacketDispatcher.answeredSession t header fd
    let dispatched := PacketDispatcher.dispatch header body x
    (∀ t', t.response = some t' → dispatched.Ensures Allows sh fun _ sh' =>
      ∃ d : Payload, d.type = t' ∧
        let packet := PacketBuilder.ofPayload header.messageID sessionID d
        sh'.queue = sh.queue ++ [⟨⟨.sendRaw, fd, packet⟩, x⟩] ∧
        PacketParser.parseHeader packet =
          some ⟨t'.code, header.messageID, sessionID, UInt16.ofNat d.body.length⟩ ∧
        (d.body.length ≤ 65535 →
          PacketParser.parseData t' (packet.drop PacketHeaderRaw.size) = some d)) ∧
    (t = .disconnectRequest → dispatched.Ensures Allows sh fun _ sh' =>
      sh'.queue = sh.queue ++ [⟨⟨.close, fd, []⟩, x⟩]) := by
  dsimp only
  constructor
  · intro t' answers
    by_cases connect : t = .connectRequest
    · subst connect
      cases answers
      simp only [PacketDispatcher.dispatch, type, PacketType.ofCode_code]
      refine (handleConnectRequest_answers header sh).mono fun _ sh' answered => ?_
      exact ⟨.connectResponse, rfl, answered, answer_read (by simp [Payload.strings])⟩
    · have own : PacketDispatcher.answeredSession t header (sh.objects x).fileDescriptor =
          header.sessionID := if_neg fun both => connect both.1
      rw [own]
      refine (dispatch_answers header type answers connect accepted sh).mono ?_
      rintro _ sh' ⟨d, rfl, short, answered⟩
      exact ⟨d, rfl, answered, answer_read short⟩
  · intro disconnect
    subst disconnect
    simp only [PacketDispatcher.dispatch, type, PacketType.ofCode_code]
    intro r sh' step
    cases step
    rfl

/-- A server with one session and nothing in its database. -/
def idle : Shared := ⟨{}, fun _ => { fileDescriptor := 5 }, 1, fun _ => none, []⟩

theorem one_answer_per_request_search :
    ∃ d : Payload, d.type = .findUserResponse ∧
      ((PacketDispatcher.dispatch ⟨PacketType.findUserRequest.code, 7, 1, 3⟩ [0, 1, 65] 0).run exec
        idle).2.queue = [⟨⟨.sendRaw, 5, PacketBuilder.ofPayload 7 1 d⟩, 0⟩] := by
  have accepted : PacketDispatcher.Accepts .findUserRequest [0, 1, 65] :=
    fun _ => ⟨.findUser ⟨[65]⟩, rfl, rfl, by decide, by decide⟩
  have ensured := (one_answer_per_request idle 0
    ⟨PacketType.findUserRequest.code, 7, 1, 3⟩ [0, 1, 65] rfl accepted).1 .findUserResponse rfl
  have names : idle.conn.NamesFit :=
    ⟨fun u hu => absurd hu List.not_mem_nil, fun t none => by cases none⟩
  obtain ⟨d, type, answered, -⟩ := run_of_ensures ensured names
  exact ⟨d, type, answered⟩

end Shared

end Cvcn
