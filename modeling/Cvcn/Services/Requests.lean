import Cvcn.Codec
import Cvcn.Services.Dispatcher

/-!
# The requests that reach a service

The parser accepts bodies with gaps, but a gap reads as 0 or as an empty string, and the
dispatcher's validators refuse both. What is left are the bodies that `PacketBuilder` writes
for valid data.
-/

namespace Cvcn

open Atomic

/-- A request whose data goes to a service. -/
inductive Request where
  | register (data : RegisterRequestData)
  | auth (data : AuthRequestData)
  | delete (data : DeleteRequestData)
  | findUser (data : FindUserRequestData)
  | createChat (data : CreateChatRequestData)
  | messageSend (data : MessageSendData)
  deriving DecidableEq, Repr

namespace Request

def payload : Request → Payload
  | register data => .registerRequest data
  | auth data => .authRequest data
  | delete data => .deleteRequest data
  | findUser data => .findUserRequest data
  | createChat data => .createChatRequest data
  | messageSend data => .messageSend data

def Valid : Request → Prop
  | register data => Validator.Within 64 Validator.isCredentialChar data.username ∧
      Validator.Within 127 Validator.isCredentialChar data.password
  | auth data => Validator.Within 64 Validator.isCredentialChar data.username ∧
      Validator.Within 127 Validator.isCredentialChar data.password
  | delete data => Validator.Within 64 Validator.isCredentialChar data.username ∧
      Validator.Within 127 Validator.isCredentialChar data.password
  | findUser data => 1 ≤ data.query.length ∧ data.query.length ≤ 64
  | createChat data => Validator.Within 64 Validator.isCredentialChar data.peerUsername
  | messageSend data => 0 < data.chatID ∧
      Validator.Within 4096 Validator.isMessageChar data.text

/-- The handler of the service, called with the request's data. -/
def handle (header : PacketHeaderRaw) (session : SessionId) : Request → ServerProg Unit
  | register data => AuthService.handleRegisterRequest header data session
  | auth data => AuthService.handleAuthRequest header data session
  | delete data => AuthService.handleDeleteRequest header data session
  | findUser data => ChatService.handleFindUserRequest header data session
  | createChat data => ChatService.handleCreateChatRequest header data session
  | messageSend data => MessageService.handleMessageSend data session

/-- The body of the request as `PacketBuilder` writes it. -/
def encoding (r : Request) : Bytes := (PacketBuilder.ofPayload 0 0 r.payload).drop 12

theorem encoding_eq (r : Request) : r.encoding = r.payload.body := by
  rw [encoding, PacketBuilder.ofPayload_eq]
  exact PacketBuilder.drop_buildPacket _ _ _ _

theorem payload_injective {r r' : Request} (h : r.payload = r'.payload) : r = r' := by
  cases r <;> cases r' <;> cases h <;> rfl

theorem Valid.strings {r : Request} (h : r.Valid) : ∀ s ∈ r.payload.strings, s.length ≤ 65535 := by
  cases r with
  | register data | auth data | delete data =>
    have first := h.1.2.1
    have second := h.2.2.1
    simp only [payload, Payload.strings, List.mem_cons, List.not_mem_nil, or_false]
    rintro s (rfl | rfl) <;> omega
  | findUser data =>
    have only := h.2
    simp only [payload, Payload.strings, List.mem_cons, List.not_mem_nil, or_false]
    rintro s rfl
    omega
  | createChat data =>
    have only := h.2.1
    simp only [payload, Payload.strings, List.mem_cons, List.not_mem_nil, or_false]
    rintro s rfl
    omega
  | messageSend data =>
    have only := h.2.2.1
    simp only [payload, Payload.strings, List.mem_cons, List.not_mem_nil, or_false]
    rintro s rfl
    omega

theorem eq_of_credentials {body username password : Bytes}
    (h : PacketParser.credentials body = ((username, password), [])) (first : username ≠ [])
    (second : password ≠ []) : body = Encoding.string username ++ Encoding.string password := by
  rcases h1 : ByteReader.readString body with ⟨username', rest⟩
  rcases h2 : ByteReader.readString rest with ⟨password', last⟩
  simp only [PacketParser.credentials, h1, h2, Prod.mk.injEq] at h
  obtain ⟨⟨rfl, rfl⟩, rfl⟩ := h
  rw [(Encoding.eq_of_readString h1 first).1, (Encoding.eq_of_readString h2 second).1,
    List.append_nil]

/-- No field of a valid request is 0 or empty, so its reader found it complete. -/
theorem Valid.body_of_parseData {r : Request} (h : r.Valid) {body : Bytes}
    (read : PacketParser.parseData r.payload.type body = some r.payload) :
    body = r.payload.body := by
  cases r with
  | register data | auth data | delete data =>
    obtain ⟨data', read, same⟩ := Option.map_eq_some_iff.mp read
    cases same
    rcases parsed : PacketParser.credentials body with ⟨⟨username, password⟩, rest⟩
    simp only [PacketParser.registerRequest, PacketParser.authRequest, PacketParser.deleteRequest,
      parsed, PacketParser.finish_eq_some] at read
    obtain ⟨rfl, rfl⟩ := read
    exact eq_of_credentials parsed h.1.nonempty h.2.nonempty
  | findUser data =>
    obtain ⟨data', read, same⟩ := Option.map_eq_some_iff.mp read
    cases same
    rcases parsed : ByteReader.readString body with ⟨query, rest⟩
    simp only [PacketParser.findUserRequest, parsed, PacketParser.finish_eq_some] at read
    obtain ⟨rfl, rfl⟩ := read
    have nonempty : query ≠ [] := List.length_pos_iff.mp h.1
    exact (Encoding.eq_of_readString parsed nonempty).1.trans (List.append_nil _)
  | createChat data =>
    obtain ⟨data', read, same⟩ := Option.map_eq_some_iff.mp read
    cases same
    rcases parsed : ByteReader.readString body with ⟨peerUsername, rest⟩
    simp only [PacketParser.createChatRequest, parsed, PacketParser.finish_eq_some] at read
    obtain ⟨rfl, rfl⟩ := read
    exact (Encoding.eq_of_readString parsed h.nonempty).1.trans (List.append_nil _)
  | messageSend data =>
    obtain ⟨data', read, same⟩ := Option.map_eq_some_iff.mp read
    cases same
    rcases h1 : ByteReader.readUint32BE body with ⟨chatID, rest⟩
    rcases h2 : ByteReader.readString rest with ⟨text, last⟩
    simp only [PacketParser.messageSend, h1, h2, PacketParser.finish_eq_some] at read
    obtain ⟨rfl, rfl⟩ := read
    have nonzero : chatID ≠ 0 := by
      rintro rfl
      exact absurd h.1 (by simp)
    have front := Encoding.eq_of_readUint32BE (Encoding.long_of_readUint32BE h1 nonzero) h1
    have back := (Encoding.eq_of_readString h2 h.2.nonempty).1
    rw [front, back, List.append_nil]
    rfl

/-- The parser reads a valid request from its encoding and from no other body. -/
theorem Valid.parseData_iff {r : Request} (h : r.Valid) (body : Bytes) :
    PacketParser.parseData r.payload.type body = some r.payload ↔ body = r.encoding := by
  rw [encoding_eq]
  refine ⟨h.body_of_parseData, ?_⟩
  rintro rfl
  apply PacketParser.parseData_body _ h.strings
  cases r <;> exact Nat.zero_le _

/-- The program of a handler tells the data that it was called with. -/
theorem handle_injective {header : PacketHeaderRaw} {session : SessionId} {r r' : Request}
    (type : r.payload.type = r'.payload.type)
    (h : r.handle header session = r'.handle header session) : r = r' := by
  cases r <;> cases r' <;> cases type <;> rename_i data data'
  case register =>
    obtain ⟨username, password⟩ := data
    obtain ⟨username', password'⟩ := data'
    obtain rfl : username = username' := by simpa using Prog.first_eq h
    have second := Prog.first_eq (Prog.rest_eq h false)
    simpa using second
  case auth =>
    obtain ⟨username, password⟩ := data
    obtain ⟨username', password'⟩ := data'
    obtain rfl : username = username' := by simpa using Prog.first_eq h
    -- the stored hash of one password lets in that password only
    have after := Prog.rest_eq h (config.PASSWORD_HASH_PREFIX ++ password)
    by_contra ne
    have other : password ≠ password' := fun same => ne (by rw [same])
    simp only [Prog.bind] at after
    rw [if_pos (by simp [config.PASSWORD_HASH_PREFIX]), if_neg (by simp [other])] at after
    cases Prog.first_eq after
  case delete =>
    obtain ⟨username, password⟩ := data
    obtain ⟨username', password'⟩ := data'
    simpa using Prog.first_eq h
  case findUser =>
    obtain ⟨query⟩ := data
    obtain ⟨query'⟩ := data'
    simpa using Prog.first_eq (Prog.rest_eq h 0)
  case createChat =>
    obtain ⟨peerUsername⟩ := data
    obtain ⟨peerUsername'⟩ := data'
    simpa using Prog.first_eq (Prog.rest_eq h 0)
  case messageSend =>
    obtain ⟨chatID, text⟩ := data
    obtain ⟨chatID', text'⟩ := data'
    have second := Prog.first_eq (Prog.rest_eq h 0)
    simpa using second

theorem handle_ne_done (header : PacketHeaderRaw) (session : SessionId) (r : Request) :
    r.handle header session ≠ .done () := by
  cases r <;> intro h <;> cases h

end Request

namespace PacketDispatcher

section

variable {α : Type} {parsed : Option α} {valid : α → Bool} {handle : α → ServerProg Unit}

/-- The handler runs with data that was parsed and is valid, or nothing runs. -/
theorem validated_cases (parsed : Option α) (valid : α → Bool) (handle : α → ServerProg Unit) :
    (∃ d, parsed = some d ∧ valid d = true ∧ validated parsed valid handle = handle d) ∨
      ((∀ d, parsed = some d → valid d = false) ∧ validated parsed valid handle = .done ()) := by
  cases parsed with
  | none => exact .inr ⟨fun d h => (by cases h), rfl⟩
  | some d =>
    cases pass : valid d with
    | true =>
      have handled : validated (some d) valid handle = handle d := by simp [validated, pass]
      exact .inl ⟨d, rfl, pass, handled⟩
    | false =>
      have dropped : validated (some d) valid handle = .done () := by simp [validated, pass]
      exact .inr ⟨fun d' h => by cases h; exact pass, dropped⟩

end

/-- The types of the requests that go to a service with data. -/
def requestTypes : List PacketType :=
  [.registerRequest, .authRequest, .deleteRequest, .findUserRequest, .createChatRequest,
    .messageSend]

/-- The types that `dispatch` has a case for. -/
def handledTypes : List PacketType :=
  [.connectRequest, .disconnectRequest, .chatListRequest] ++ requestTypes

/-- A type without a case of its own is only logged. -/
theorem dispatch_unknown {header : PacketHeaderRaw}
    (unknown : ∀ t ∈ handledTypes, header.type ≠ t.code) (body : Bytes) (session : SessionId) :
    dispatch header body session = .done () := by
  cases named : PacketType.ofCode header.type with
  | none => simp [dispatch, named]
  | some t =>
    have code := PacketType.code_of_ofCode named
    cases t with
    | connectResponse | registerResponse | authResponse | deleteResponse | findUserResponse
    | createChatResponse | chatListResponse | messageReceive => simp [dispatch, named]
    | connectRequest | disconnectRequest | chatListRequest | registerRequest | authRequest
    | deleteRequest | findUserRequest | createChatRequest | messageSend =>
      exact absurd code (unknown _ (by decide))

theorem credentials_valid {username password : Bytes} :
    (Validator.validateUsername username && Validator.validatePassword password) = true ↔
      Validator.Within 64 Validator.isCredentialChar username ∧
        Validator.Within 127 Validator.isCredentialChar password := by
  rw [Bool.and_eq_true]
  exact and_congr Validator.bounded_iff Validator.bounded_iff

/-- What `dispatch` does with the body of a request of type `t`. -/
def Outcome (t : PacketType) (header : PacketHeaderRaw) (body : Bytes) (session : SessionId)
    (p : ServerProg Unit) : Prop :=
  (∃ r : Request, r.payload.type = t ∧ PacketParser.parseData t body = some r.payload ∧
    r.Valid ∧ p = r.handle header session) ∨
  ((∀ r : Request, r.payload.type = t → PacketParser.parseData t body = some r.payload →
    ¬ r.Valid) ∧ p = .done ())

theorem outcome_of_validated {α : Type} (make : α → Request) {t : PacketType}
    {header : PacketHeaderRaw} {body : Bytes} {session : SessionId} {parsed : Option α}
    {valid : α → Bool} (type : ∀ d, (make d).payload.type = t)
    (parse : PacketParser.parseData t body = parsed.map fun d => (make d).payload)
    (pass : ∀ d, valid d = true ↔ (make d).Valid) :
    Outcome t header body session
      (validated parsed valid fun d => (make d).handle header session) := by
  rcases validated_cases parsed valid (fun d => (make d).handle header session) with
    ⟨d, read, ok, runs⟩ | ⟨refused, nothing⟩
  · exact .inl ⟨make d, type d, by rw [parse, read]; rfl, (pass d).mp ok, runs⟩
  · refine .inr ⟨fun r _ read ok => ?_, nothing⟩
    rw [parse] at read
    obtain ⟨d, parsed, same⟩ := Option.map_eq_some_iff.mp read
    obtain rfl := Request.payload_injective same
    rw [← pass d, refused d parsed] at ok
    cases ok

/-- A request is parsed, valid and handled, or nothing happens. -/
theorem dispatch_cases {t : PacketType} (request : t ∈ requestTypes) {header : PacketHeaderRaw}
    (type : header.type = t.code) (body : Bytes) (session : SessionId) :
    Outcome t header body session (dispatch header body session) := by
  have query (s : Bytes) : (!(s.isEmpty || s.length > config.MAX_USERNAME_LENGTH)) = true ↔
      1 ≤ s.length ∧ s.length ≤ 64 := by
    cases s <;> simp [config.MAX_USERNAME_LENGTH]
  have message (d : MessageSendData) :
      (Validator.validateChatID d.chatID && Validator.validateMessage d.text) = true ↔
        (Request.messageSend d).Valid := by
    rw [Bool.and_eq_true]
    exact and_congr decide_eq_true_iff Validator.bounded_iff
  simp only [dispatch, type, PacketType.ofCode_code]
  simp only [requestTypes, List.mem_cons, List.not_mem_nil, or_false] at request
  rcases request with rfl | rfl | rfl | rfl | rfl | rfl
  · exact outcome_of_validated .register (fun _ => rfl) rfl fun _ => credentials_valid
  · exact outcome_of_validated .auth (fun _ => rfl) rfl fun _ => credentials_valid
  · exact outcome_of_validated .delete (fun _ => rfl) rfl fun _ => credentials_valid
  · exact outcome_of_validated .findUser (fun _ => rfl) rfl fun d => query d.query
  · exact outcome_of_validated .createChat (fun _ => rfl) rfl fun _ => Validator.bounded_iff
  · exact outcome_of_validated .messageSend (fun _ => rfl) rfl message

theorem type_mem (r : Request) : r.payload.type ∈ requestTypes := by
  cases r <;> simp [requestTypes, Request.payload, Payload.type]

/-- The service's handler runs with the data of a request exactly on the encoding of that
request, when it is valid. -/
theorem dispatch_eq_handle_iff (r : Request) {header : PacketHeaderRaw}
    (type : header.type = r.payload.type.code) (body : Bytes) (session : SessionId) :
    dispatch header body session = r.handle header session ↔ body = r.encoding ∧ r.Valid := by
  have outcome := dispatch_cases (type_mem r) type body session
  constructor
  · intro runs
    rcases outcome with ⟨r', same, read, valid, runs'⟩ | ⟨_, nothing⟩
    · obtain rfl := Request.handle_injective same.symm (runs.symm.trans runs')
      exact ⟨(valid.parseData_iff body).mp read, valid⟩
    · exact absurd (runs.symm.trans nothing) (r.handle_ne_done header session)
  · rintro ⟨encoded, valid⟩
    have read := (valid.parseData_iff body).mpr encoded
    rcases outcome with ⟨r', _, read', _, runs⟩ | ⟨refused, _⟩
    · obtain rfl := Request.payload_injective (Option.some.inj (read.symm.trans read'))
      exact runs
    · exact absurd valid (refused r rfl read)

/-- Only canonical and valid requests reach a service: on the encoding of a valid request
`dispatch` is the service's handler with that data, and on no other body; any other body of a
request, and any type without a case of its own, does nothing at all. -/
theorem only_valid_requests (header : PacketHeaderRaw) (body : Bytes) (session : SessionId) :
    (∀ r : Request, header.type = r.payload.type.code →
      (dispatch header body session = r.handle header session ↔
        body = r.encoding ∧ r.Valid)) ∧
    (∀ t ∈ requestTypes, header.type = t.code →
      (∀ r : Request, r.payload.type = t → ¬ (body = r.encoding ∧ r.Valid)) →
        dispatch header body session = .done ()) ∧
    ((∀ t ∈ handledTypes, header.type ≠ t.code) → dispatch header body session = .done ()) := by
  refine ⟨fun r type => dispatch_eq_handle_iff r type body session, ?_, ?_⟩
  · intro t request type other
    rcases dispatch_cases request type body session with ⟨r, same, read, valid, _⟩ | ⟨_, nothing⟩
    · subst same
      exact absurd ⟨(valid.parseData_iff body).mp read, valid⟩ (other r rfl)
    · exact nothing
  · exact fun unknown => dispatch_unknown unknown body session

end PacketDispatcher

end Cvcn
