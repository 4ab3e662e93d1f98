import Cvcn.Client.Controllers

/-!
# What the user types, and the server's limit

`AuthController` and `MessageController` validate what they send. `ChatController` sends a
search as it was typed: one of more than 5118 bytes is the only way to a packet that the server
refuses, or that does not carry its text.
-/

namespace Cvcn

open Framing Machine

def Effect.packet : Effect → Option Bytes
  | send packet => some packet
  | showInformation _ _ | showWarning _ _ => none

/-- The packets that are handed to `Connection::send`. -/
def Effect.packets (effects : List Effect) : List Bytes := effects.filterMap Effect.packet

/-- The packet announces the size of its body, which is within the server's limit, and the
parser finds these texts in it. -/
def Carries (texts : List QString) (packet : Bytes) : Prop :=
  ∃ header d, PacketParser.parseHeader packet = some header ∧
    header.messageLen.toNat = (packet.drop PacketHeaderRaw.size).length ∧
    header.messageLen.toNat ≤ config.MAX_REASONABLE_PACKET_BODY ∧
    header.type = d.type.code ∧
    PacketParser.parseData d.type (packet.drop PacketHeaderRaw.size) = some d ∧
    d.strings = texts.map QString.toStdString

namespace MainController

/-- The texts of the request that an event asks for, as the windows hand them on. -/
def texts (c : MainController) : Event → List QString
  | .slotClickedAuthButton username password => [username, password]
  | .slotClickedRegButton username password => [username, password]
  | .slotClickedDelButton username password => [username, password]
  | .slotClickedFindButton searchLineEdit => [searchLineEdit.trimmed]
  | .slotClickedSendButton messageLineEdit => [messageLineEdit.trimmed]
  | .getItem row => (c.chosen row).toList
  | _ => []

/-- A text that is sent without validation fits into a packet with the two bytes of its
length. -/
def fits (c : MainController) : Event → Prop
  | .slotClickedFindButton searchLineEdit =>
    2 + searchLineEdit.trimmed.toStdString.length ≤ config.MAX_REASONABLE_PACKET_BODY
  | .getItem row => ∀ name, c.chosen row = some name →
    2 + name.toStdString.length ≤ config.MAX_REASONABLE_PACKET_BODY
  | _ => True

variable (fromStdString : Bytes → QString)

def next (c : MainController) (e : Event) : Option MainController := some (c.step fromStdString e).1

/-- The packets of a run, in order. -/
def sent : List Event → MainController → List Bytes
  | [], _ => []
  | e :: events, c =>
    let (c, effects) := c.step fromStdString e
    Effect.packets effects ++ sent events c

/-- Every packet of the run carries what was typed, and whichever of them the socket takes and
however their bytes arrive, the server does not close the session. -/
structure KeepsLimit (c : MainController) (events : List Event) : Prop where
  carries : Along (next fromStdString)
    (fun c e => ∀ packet ∈ Effect.packets (c.step fromStdString e).2, Carries (c.texts e) packet)
    c events
  stays : ∀ written : List Bytes, written.Sublist (sent fromStdString events c) →
    ∀ (session : SessionId) (calls : List (List Bytes)),
      (∀ chunks ∈ calls, ∀ chunk ∈ chunks, chunk ≠ []) →
      calls.flatten.flatten <+: written.flatten →
      (ClientSession.readCalls session calls {}).2.2 = false

end MainController

/-! What the server does with packets that carry their texts. -/

/-- The packet as the server reads it. -/
theorem Carries.acceptable {texts : List QString} {packet : Bytes} (h : Carries texts packet) :
    ∃ p, frame p = packet ∧ Acceptable p := by
  obtain ⟨header, d, parsed, size, small, _⟩ := h
  obtain ⟨body, rfl⟩ := Encoding.parseHeader_eq_some.mp parsed
  rw [PacketHeaderRaw.size, List.drop_left' (Encoding.length_header header)] at size
  exact ⟨(header, body), rfl, size.symm, decide_eq_false (Nat.not_lt.mpr small)⟩

theorem refuses_frames {written : List Bytes}
    (acceptable : ∀ packet ∈ written, ∃ p, frame p = packet ∧ Acceptable p) :
    packets.refuses tooLarge written.flatten = false := by
  induction written with
  | nil => rfl
  | cons packet written ih =>
    obtain ⟨p, rfl, ok⟩ := acceptable packet List.mem_cons_self
    have rest := ih fun packet hp => acceptable packet (List.mem_cons_of_mem _ hp)
    rw [List.flatten_cons, Cutter.refuses_append, ok.refuses, ok.split]
    exact rest

/-- A session that has received a part of such packets is open. -/
theorem stays_open {written : List Bytes}
    (acceptable : ∀ packet ∈ written, ∃ p, frame p = packet ∧ Acceptable p)
    {session : SessionId} {calls : List (List Bytes)}
    (nonempty : ∀ chunks ∈ calls, ∀ chunk ∈ chunks, chunk ≠ [])
    (arrived : calls.flatten.flatten <+: written.flatten) :
    (ClientSession.readCalls session calls {}).2.2 = false := by
  have serves : ClientSession.Serves session _ false (ClientSession.readCalls session calls {}) :=
    ClientSession.readCalls_serves (a := {}) nonempty rfl
  obtain ⟨ahead, stream⟩ := arrived
  have none := refuses_frames acceptable
  rw [← stream, Cutter.refuses_append_eq_false] at none
  rw [serves.close, Bool.or_false]
  exact none.1

/-! Which packets carry their texts. -/

theorem carries_ofPayload {texts : List QString} {d : Payload} {messageID sessionID : UInt32}
    (same : d.strings = texts.map QString.toStdString) (none : d.elements = 0)
    (short : ∀ s ∈ d.strings, s.length ≤ 65535)
    (small : d.body.length ≤ config.MAX_REASONABLE_PACKET_BODY) :
    Carries texts (PacketBuilder.ofPayload messageID sessionID d) := by
  have limit : config.MAX_REASONABLE_PACKET_BODY = 5120 := rfl
  have parsed := PacketBuilder.parseHeader_buildPacket d.type messageID sessionID d.body []
  have size : (UInt16.ofNat d.body.length).toNat = d.body.length :=
    Encoding.toNat_ofNat (by omega)
  have read := PacketParser.parseData_body d short (by omega)
  rw [List.append_nil] at parsed
  rw [PacketBuilder.ofPayload_eq]
  refine ⟨_, d, parsed, ?_, ?_, rfl, ?_, same⟩
  · rw [PacketBuilder.drop_buildPacket]
    exact size
  · simp only [size]
    exact small
  · rw [PacketBuilder.drop_buildPacket]
    exact read

/-- A string that is read from a body fits into it with its length. -/
theorem length_of_readString {body text rest : Bytes}
    (read : ByteReader.readString body = (text, rest)) :
    text = [] ∨ 2 + text.length ≤ body.length := by
  by_cases empty : text = []
  · exact .inl empty
  · obtain ⟨whole, short⟩ := Encoding.eq_of_readString read empty
    apply Or.inr
    rw [whole, List.length_append, Encoding.length_string short]
    omega

/-- A search and a request for a chat, which are sent as they are. -/
inductive Unvalidated : Bytes → Payload → Prop
  | findUser (text : Bytes) : Unvalidated text (.findUserRequest ⟨text⟩)
  | createChat (text : Bytes) : Unvalidated text (.createChatRequest ⟨text⟩)

theorem Unvalidated.strings {text : Bytes} {d : Payload} (h : Unvalidated text d) :
    d.strings = [text] := by
  cases h <;> rfl

theorem Unvalidated.elements {text : Bytes} {d : Payload} (h : Unvalidated text d) :
    d.elements = 0 := by
  cases h <;> rfl

theorem Unvalidated.body {text : Bytes} {d : Payload} (h : Unvalidated text d) :
    d.body = Encoding.string text := by
  cases h <;> rfl

/-- Such a packet holds one string. -/
theorem Unvalidated.parsed {text : Bytes} {d d' : Payload} (h : Unvalidated text d) {body : Bytes}
    (same : d'.type = d.type) (read : PacketParser.parseData d.type body = some d') :
    ∃ text' rest, ByteReader.readString body = (text', rest) ∧ d'.strings = [text'] := by
  cases h with
  | findUser =>
    simp only [Payload.type, PacketParser.parseData, Option.map_eq_some_iff] at read
    obtain ⟨data, found, rfl⟩ := read
    obtain ⟨rfl, _⟩ := PacketParser.finish_eq_some.mp found
    exact ⟨_, _, rfl, rfl⟩
  | createChat =>
    simp only [Payload.type, PacketParser.parseData, Option.map_eq_some_iff] at read
    obtain ⟨data, found, rfl⟩ := read
    obtain ⟨rfl, _⟩ := PacketParser.finish_eq_some.mp found
    exact ⟨_, _, rfl, rfl⟩

/-- It carries the text exactly if the text and its length are within the limit. -/
theorem Unvalidated.carries_iff {text : QString} {d : Payload} {messageID sessionID : UInt32}
    (h : Unvalidated text.toStdString d) :
    Carries [text] (PacketBuilder.ofPayload messageID sessionID d) ↔
      2 + text.toStdString.length ≤ config.MAX_REASONABLE_PACKET_BODY := by
  have limit : config.MAX_REASONABLE_PACKET_BODY = 5120 := rfl
  constructor
  · rintro ⟨header, d', parsed, size, small, type, read, same⟩
    have built := PacketBuilder.parseHeader_buildPacket d.type messageID sessionID d.body []
    rw [List.append_nil, ← PacketBuilder.ofPayload_eq, parsed] at built
    obtain rfl := Option.some.inj built
    have sameType : d'.type = d.type := PacketType.code_injective type.symm
    rw [sameType] at read
    obtain ⟨text', rest, found, strings⟩ := h.parsed sameType read
    rw [strings] at same
    obtain rfl := List.singleton_inj.mp same
    have inside := length_of_readString found
    rw [← size] at inside
    rcases inside with empty | inside
    · rw [empty, List.length_nil]
      omega
    · omega
  · intro small
    have short : text.toStdString.length ≤ 65535 := by omega
    apply carries_ofPayload h.strings h.elements
    · rw [h.strings]
      intro s hs
      obtain rfl := List.mem_singleton.mp hs
      exact short
    · rw [h.body, Encoding.length_string short]
      exact small

/-! What each event sends. -/

namespace MainController

variable {fromStdString : Bytes → QString} {c : MainController}

/-- The packets among the effects carry these texts, if `small`. -/
def Hands (effects : List Effect) (texts : List QString) (small : Prop) : Prop :=
  ∀ packet ∈ Effect.packets effects, small → Carries texts packet

theorem hands_nothing {effects : List Effect} {texts : List QString} {small : Prop}
    (none : Effect.packets effects = []) : Hands effects texts small := by
  intro packet hp
  rw [none] at hp
  cases hp

theorem packets_send (sent : ProtocolClient × Bytes) :
    Effect.packets (c.send sent).2 = [sent.2] := rfl

theorem hands_send {sent : ProtocolClient × Bytes} {d : Payload} {messageID sessionID : UInt32}
    {texts : List QString} {small : Prop}
    (built : sent.2 = PacketBuilder.ofPayload messageID sessionID d)
    (carried : small → Carries texts (PacketBuilder.ofPayload messageID sessionID d)) :
    Hands (c.send sent).2 texts small := by
  intro packet hp fits
  rw [packets_send, List.mem_singleton] at hp
  rw [hp, built]
  exact carried fits

/-- Names and passwords that pass are far below the limit. -/
theorem credentials_carried {username password : QString} {d : Payload}
    {messageID sessionID : UInt32} (valid : validCredentials username password = true)
    (strings : d.strings = [username.toStdString, password.toStdString])
    (body : d.body = Encoding.string username.toStdString ++ Encoding.string password.toStdString)
    (none : d.elements = 0) :
    Carries [username, password] (PacketBuilder.ofPayload messageID sessionID d) := by
  rw [validCredentials, Bool.and_eq_true] at valid
  have name : username.toStdString.length ≤ 64 := (Validator.bounded_iff.mp valid.1).2.1
  have word : password.toStdString.length ≤ 127 := (Validator.bounded_iff.mp valid.2).2.1
  have limit : config.MAX_REASONABLE_PACKET_BODY = 5120 := rfl
  apply carries_ofPayload strings none
  · rw [strings]
    simp only [List.mem_cons, List.not_mem_nil, or_false]
    rintro s (rfl | rfl) <;> omega
  · rw [body, List.length_append, Encoding.length_string (by omega),
      Encoding.length_string (by omega)]
    omega

theorem message_carried {chatID : UInt32} {text : QString} {messageID sessionID : UInt32}
    (valid : Validator.validateMessage text.toStdString = true) :
    Carries [text]
      (PacketBuilder.ofPayload messageID sessionID (.messageSend ⟨chatID, text.toStdString⟩)) := by
  have bound : text.toStdString.length ≤ 4096 := (Validator.bounded_iff.mp valid).2.1
  have limit : config.MAX_REASONABLE_PACKET_BODY = 5120 := rfl
  apply carries_ofPayload rfl rfl
  · simp only [Payload.strings, List.mem_singleton]
    rintro s rfl
    omega
  · have short : text.toStdString.length ≤ 65535 := by omega
    have size := Encoding.length_string short
    rw [Payload.body, List.length_append, Encoding.length_uint32BE, size]
    omega

/-- A request without data. -/
theorem bare_carried {d : Payload} {messageID sessionID : UInt32} (strings : d.strings = [])
    (none : d.elements = 0) (body : d.body = []) :
    Carries [] (PacketBuilder.ofPayload messageID sessionID d) := by
  apply carries_ofPayload strings none
  · rw [strings]
    intro s hs
    cases hs
  · rw [body]
    exact Nat.zero_le _

/-- Of the server's packets only a successful login makes the client send one. -/
theorem slot_hands {signal : Signal} {small : Prop} :
    Hands (c.slot fromStdString signal).2 [] small := by
  cases signal with
  | signalRegistrationFinished success => exact hands_nothing rfl
  | signalDeleteFinished success => exact hands_nothing rfl
  | signalAuthFinished success sessionID =>
    cases success with
    | true => exact hands_send (d := .chatListRequest) rfl fun _ => bare_carried rfl rfl rfl
    | false => exact hands_nothing rfl
  | signalUsersFound usernames =>
    apply hands_nothing
    simp only [slot, slotUsersFound]
    split <;> rfl
  | signalChatCreated success chatID peerUsername =>
    cases success <;> exact hands_nothing rfl
  | signalChatListReceived chats => exact hands_nothing rfl
  | signalMessageReceived senderUsername chatID text => exact hands_nothing rfl
  | signalErrorOccurred kind errorString => exact hands_nothing rfl

/-- What an event hands to the connection carries its texts, if those that nobody validates
fit. -/
theorem step_hands (c : MainController) (e : Event) :
    Hands (c.step fromStdString e).2 (c.texts e) (c.fits e) := by
  cases e with
  | slotClickedAuthButton username password =>
    simp only [step, slotAuthRequested]
    split
    · exact hands_nothing rfl
    · split
      · exact hands_nothing rfl
      · rename_i valid
        rw [Bool.not_eq_true', Bool.not_eq_false] at valid
        exact hands_send (d := .authRequest ⟨_, _⟩) rfl fun _ =>
          credentials_carried valid rfl rfl rfl
  | slotClickedRegButton username password =>
    simp only [step, slotRegRequested]
    split
    · exact hands_nothing rfl
    · rename_i valid
      rw [Bool.not_eq_true', Bool.not_eq_false] at valid
      exact hands_send (d := .registerRequest ⟨_, _⟩) rfl fun _ =>
        credentials_carried valid rfl rfl rfl
  | slotClickedDelButton username password =>
    simp only [step, slotDelRequested]
    split
    · exact hands_nothing rfl
    · rename_i valid
      rw [Bool.not_eq_true', Bool.not_eq_false] at valid
      exact hands_send (d := .deleteRequest ⟨_, _⟩) rfl fun _ =>
        credentials_carried valid rfl rfl rfl
  | slotClickedFindButton searchLineEdit =>
    simp only [step, slotClickedFindButton]
    split
    · exact hands_nothing rfl
    · exact hands_send (d := .findUserRequest ⟨_⟩) rfl (Unvalidated.findUser _).carries_iff.mpr
  | slotClickedSendButton messageLineEdit =>
    simp only [step, slotClickedSendButton]
    split
    · exact hands_nothing rfl
    · split
      · exact hands_nothing rfl
      · simp only [slotMessageSendRequested]
        split
        · exact hands_nothing rfl
        · rename_i valid
          rw [Bool.not_eq_true', Bool.not_eq_false] at valid
          exact hands_send (d := .messageSend ⟨_, _⟩) rfl fun _ => message_carried valid
  | slotChatSelectionChanged row => exact hands_nothing rfl
  | getItem row =>
    simp only [step, slotUsersFoundAnswer, texts, fits]
    cases answer : c.chosen row with
    | none => exact hands_nothing rfl
    | some name =>
      simp only [Option.toList_some]
      split
      · exact hands_nothing rfl
      · exact hands_send (d := .createChatRequest ⟨_⟩) rfl fun fits =>
          (Unvalidated.createChat _).carries_iff.mpr (fits name rfl)
  | slotAboutToQuit =>
    exact hands_send (d := .disconnectRequest) rfl fun _ => bare_carried rfl rfl rfl
  | slotConnected => exact hands_nothing rfl
  | slotDisconnected => exact hands_nothing rfl
  | slotTransportError kind => exact hands_nothing rfl
  | slotRawPacketReceived header body => exact slot_hands

/-- A text that is too long is sent all the same. -/
theorem step_exceeds {c : MainController} {e : Event} (large : ¬ c.fits e) :
    ∃ packet ∈ Effect.packets (c.step fromStdString e).2, ¬ Carries (c.texts e) packet := by
  cases e with
  | slotClickedFindButton searchLineEdit =>
    rw [fits] at large
    have typed : searchLineEdit.trimmed.isEmpty = false := by
      by_contra empty
      rw [Bool.not_eq_false, List.isEmpty_iff] at empty
      exact large (empty ▸ by decide)
    simp only [step, slotClickedFindButton, typed]
    exact ⟨_, List.mem_singleton.mpr rfl, fun carries =>
      large ((Unvalidated.findUser _).carries_iff.mp carries)⟩
  | getItem row =>
    simp only [fits, not_forall] at large
    obtain ⟨name, answer, large⟩ := large
    have named : name.isEmpty = false := by
      by_contra empty
      rw [Bool.not_eq_false, List.isEmpty_iff] at empty
      exact large (empty ▸ by decide)
    simp only [step, slotUsersFoundAnswer, texts, answer, named, Option.toList_some]
    exact ⟨_, List.mem_singleton.mpr rfl, fun carries =>
      large ((Unvalidated.createChat _).carries_iff.mp carries)⟩
  | _ => exact absurd trivial large

theorem mem_sent {events : List Event} {P : MainController → Event → Prop}
    (along : Along (next fromStdString) P c events) {packet : Bytes}
    (sends : packet ∈ sent fromStdString events c) :
    ∃ c e, P c e ∧ packet ∈ Effect.packets (c.step fromStdString e).2 := by
  induction events generalizing c with
  | nil => cases sends
  | cons e events ih =>
    rcases List.mem_append.mp sends with now | later
    · exact ⟨c, e, along.1, now⟩
    · exact ih (along.2 _ rfl) later

/-- The client keeps to the server's limit, and its packets carry what the user typed, in
exactly the runs in which no search and no name chosen for a chat is larger than the limit with
the two bytes of its length. -/
theorem packets_kept_iff (fromStdString : Bytes → QString) (c : MainController)
    (events : List Event) :
    KeepsLimit fromStdString c events ↔ Along (next fromStdString) fits c events := by
  constructor
  · intro keeps
    apply keeps.carries.mono
    intro c e carries
    by_contra large
    obtain ⟨packet, sends, fails⟩ : ∃ packet ∈ Effect.packets (c.step fromStdString e).2,
      ¬ Carries (c.texts e) packet := step_exceeds large
    exact fails (carries packet sends)
  · intro small
    have carries : Along (next fromStdString) (fun c e => ∀ packet ∈ Effect.packets
        (c.step fromStdString e).2, Carries (c.texts e) packet) c events :=
      small.mono fun c e fits packet sends => step_hands c e packet sends fits
    constructor
    · exact carries
    · intro written some session calls nonempty arrived
      apply stays_open _ nonempty arrived
      intro packet hp
      obtain ⟨c, e, carries, sends⟩ := mem_sent carries (some.subset hp)
      exact (carries packet sends).acceptable

/-- A text of the letter `a`. -/
theorem trimmed_replicate (n : Nat) :
    QString.trimmed (List.replicate n 'a') = List.replicate n 'a' := by
  have letter : QString.isSpace 'a' = false := by decide
  simp [QString.trimmed, letter]

theorem toStdString_replicate (n : Nat) :
    QString.toStdString (List.replicate n 'a') = List.replicate n 97 := by
  have letter : String.utf8EncodeChar 'a' = [97] := by decide
  rw [QString.toStdString, List.flatMap_replicate, letter, List.flatten_replicate_singleton]

/-- The user `a` logs in and searches. -/
def search (searchLineEdit : QString) : List Event :=
  [.slotConnected, .slotClickedAuthButton ['a'] ['p'],
    .slotRawPacketReceived ⟨PacketType.authResponse.code, 0, 7, 1⟩ [1],
    .slotClickedFindButton searchLineEdit]

theorem sent_search {query : QString} (typed : query.trimmed.isEmpty = false) :
    sent fromStdString (search query) {} =
      [PacketBuilder.authRequest 0 0 ⟨[97], [112]⟩, PacketBuilder.chatListRequest 1 7,
        PacketBuilder.findUserRequest 2 7 ⟨query.trimmed.toStdString⟩] := by
  have found (c : MainController) : c.step fromStdString (.slotClickedFindButton query) =
      c.slotFindUserRequested query.trimmed := by
    simp only [step, slotClickedFindButton, typed]
    rfl
  simp only [sent, search, found]
  rfl

/-- The name and the text are ASCII, which Qt takes byte by byte. -/
def ascii (s : Bytes) : QString := s.map fun b => Char.ofNat b.toNat

/-- The server refuses the packet of a text that is too large, as far as 16 bits can say it. -/
theorem refuses_large {messageID sessionID : UInt32} {d : Payload}
    (large : config.MAX_REASONABLE_PACKET_BODY < d.body.length) (short : d.body.length ≤ 65535) :
    packets.refuses tooLarge (PacketBuilder.ofPayload messageID sessionID d) = true := by
  have size := Encoding.toNat_ofNat short
  have front : packets.cut (frame (PacketBuilder.packetOf messageID sessionID d)) =
      some (PacketBuilder.packetOf messageID sessionID d, []) :=
    frontPacket_eq_some.mpr ⟨(List.append_nil _).symm, size.symm⟩
  have refused : tooLarge (PacketBuilder.packetOf messageID sessionID d) = true :=
    decide_eq_true (size.symm ▸ large)
  rw [← PacketBuilder.frame_packetOf, Cutter.refuses_of_some front, refused]
  rfl

/-- The search for a text of letters is behind two packets that are accepted. -/
theorem refuses_search {n : Nat} (large : 5118 < n) (short : n ≤ 65533) :
    packets.refuses tooLarge (sent ascii (search (List.replicate n 'a')) {}).flatten = true := by
  have typed : (QString.trimmed (List.replicate n 'a')).isEmpty = false := by
    rw [trimmed_replicate, List.isEmpty_eq_false_iff]
    intro empty
    have none := congrArg List.length empty
    rw [List.length_replicate, List.length_nil] at none
    omega
  have stream : sent ascii (search (List.replicate n 'a')) {} =
      [PacketBuilder.ofPayload 0 0 (.authRequest ⟨[97], [112]⟩),
        PacketBuilder.ofPayload 1 7 .chatListRequest,
        PacketBuilder.ofPayload 2 7 (.findUserRequest ⟨List.replicate n 97⟩)] := by
    rw [sent_search typed, trimmed_replicate, toStdString_replicate]
    rfl
  have size : (Payload.findUserRequest ⟨List.replicate n 97⟩).body.length = 2 + n := by
    have fits : (List.replicate n (97 : UInt8)).length ≤ 65535 := by
      rw [List.length_replicate]
      omega
    rw [Payload.body, Encoding.length_string fits, List.length_replicate]
  have limit : config.MAX_REASONABLE_PACKET_BODY = 5120 := rfl
  have last : packets.refuses tooLarge
      (PacketBuilder.ofPayload 2 7 (.findUserRequest ⟨List.replicate n 97⟩)) = true :=
    refuses_large (by omega) (by omega)
  have first : Acceptable (PacketBuilder.packetOf 0 0 (.authRequest ⟨[97], [112]⟩)) :=
    PacketBuilder.acceptable_packetOf (by decide)
  have second : Acceptable (PacketBuilder.packetOf 1 7 .chatListRequest) :=
    PacketBuilder.acceptable_packetOf (by decide)
  rw [stream, ← PacketBuilder.frame_packetOf 0 0, ← PacketBuilder.frame_packetOf 1 7]
  simp only [List.flatten_cons, List.flatten_nil, List.append_nil, Cutter.refuses_append,
    first.split, first.refuses, second.split, second.refuses, List.nil_append, last, Bool.or_true]

/-- A stream with a packet that is refused closes the session, also in one piece. -/
theorem closes_of_refuses (session : SessionId) {stream : Bytes}
    (refuses : packets.refuses tooLarge stream = true) :
    (∀ chunks ∈ [[stream]], ∀ chunk ∈ chunks, chunk ≠ []) ∧
      (ClientSession.readCalls session [[stream]] {}).2.2 = true := by
  have nonempty : ∀ chunks ∈ [[stream]], ∀ chunk ∈ chunks, chunk ≠ [] := by
    simp only [List.mem_singleton]
    rintro chunks rfl chunk hc rfl
    obtain rfl := List.mem_singleton.mp hc
    cases refuses
  have serves : ClientSession.Serves session _ false
      (ClientSession.readCalls session [[stream]] {}) :=
    ClientSession.readCalls_serves (a := {}) nonempty rfl
  refine ⟨nonempty, ?_⟩
  rw [serves.close]
  simp only [List.flatten_cons, List.flatten_nil, List.append_nil, List.nil_append, refuses,
    Bool.true_or]

/-- A search for 5119 letters: the server closes the session. -/
theorem long_search_refused :
    (ClientSession.readCalls 0
        [[(sent ascii (search (List.replicate 5119 'a')) {}).flatten]] {}).2.2 = true ∧
      ¬ KeepsLimit ascii {} (search (List.replicate 5119 'a')) := by
  obtain ⟨nonempty, closed⟩ := closes_of_refuses 0
    (refuses_search (n := 5119) (by omega) (by omega))
  refine ⟨closed, fun keeps => ?_⟩
  have stays := keeps.stays _ (List.Sublist.refl _) 0 _ nonempty (by
    simp only [List.flatten_cons, List.flatten_nil, List.append_nil]
    exact List.prefix_refl _)
  rw [closed] at stays
  cases stays

end MainController

end Cvcn
