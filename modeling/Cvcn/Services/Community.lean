import Mathlib.Data.Sym.Sym2
import Cvcn.Net.ClientSession
import Cvcn.Services.Requests
import Cvcn.Storage.UserSearch

/-!
# What the server is for

People register, find each other, open chats of two and post to them. Here the service is a
machine over the people, the pairs that have a chat and the posts, without tables, statements,
bytes or objects; `Refinement` shows that the server is this machine.
-/

namespace Cvcn

/-! ## The community -/

/-- An account: the name is its own, the id was never another's. -/
structure Person where
  id : Int
  name : Bytes
  password : Bytes
  valid : Validator.Within 64 Validator.isCredentialChar name ∧
    Validator.Within 127 Validator.isCredentialChar password
  deriving DecidableEq

structure Post where
  chat : UInt32
  author : Int
  text : Bytes
  deriving DecidableEq

/-- The people in the order they came, the pairs with a chat in the order of their chats, the
first of which is chat 1, and the posts. -/
structure Community where
  people : List Person := []
  /-- The last id that was given out. -/
  issued : Int := 0
  chats : List (Int × Int) := []
  posts : List Post := []
  start : 0 ≤ issued := by decide
  names : (people.map (·.name)).Nodup := by decide
  ascending : people.Pairwise (·.id < ·.id) := by decide
  range : ∀ p ∈ people, 0 < p.id ∧ p.id ≤ issued := by decide
  /-- No pair has two chats, whichever of the two is named first. -/
  pairs : (chats.map fun c => s(c.1, c.2)).Nodup := by decide
  proper : ∀ c ∈ chats, c.1 ≠ c.2 := by decide

namespace Community

variable (c : Community)

def named (name : Bytes) : Option Person := c.people.find? (·.name == name)

def withID (id : Int) : Option Person := c.people.find? (·.id == id)

/-- A name that is free gets the next id. -/
def register (name password : Bytes) (valid : Validator.Within 64 Validator.isCredentialChar name ∧
    Validator.Within 127 Validator.isCredentialChar password) : Community × Bool :=
  if free : (c.people.map (·.name)).contains name = false then
    ({ c with
      people := c.people ++ [⟨c.issued + 1, name, password, valid⟩]
      issued := c.issued + 1
      start := by have := c.start; omega
      names := by
        rw [List.map_append, List.map_singleton, List.nodup_append]
        refine ⟨c.names, List.nodup_singleton _, fun n hn m hm => ?_⟩
        rw [List.mem_singleton.mp hm]
        rintro rfl
        rw [List.contains_eq_mem, decide_eq_false_iff_not] at free
        exact free hn
      ascending := by
        refine List.pairwise_append.mpr ⟨c.ascending, List.pairwise_singleton _ _, ?_⟩
        intro p hp q hq
        have := (c.range p hp).2
        rw [List.mem_singleton.mp hq]
        simp only
        omega
      range := by
        intro p hp
        have start := c.start
        cases List.mem_append.mp hp with
        | inl old =>
          have := c.range p old
          omega
        | inr new =>
          rw [List.mem_singleton.mp new]
          simp only
          omega }, true)
  else (c, false)

/-- The person with this name, if the password is right. -/
def authenticate (name password : Bytes) : Option Person :=
  (c.named name).filter (·.password == password)

/-- The account goes; the chats and the posts stay. -/
def delete (name password : Bytes) : Community × Bool :=
  match c.authenticate name password with
  | none => (c, false)
  | some p =>
    ({ c with
      people := c.people.filter (· != p)
      names := c.names.sublist (List.filter_sublist.map _)
      ascending := c.ascending.filter _
      range := fun q hq => c.range q (List.mem_of_mem_filter hq) }, true)

/-- Twenty names of other people at most, in order. -/
def search (query : Bytes) (me : Int) : List Bytes :=
  ((((c.people.filter (·.id != me)).map (·.name)).filter
    (like (searchPattern query))).insertionSort (· ≤ ·)).take 20

/-- The number of the pair's chat, if it has one. -/
def chatOf (a b : Int) : Option Nat :=
  (c.chats.findIdx? fun p => s(p.1, p.2) == s(a, b)).map (· + 1)

/-- The chat of two people, which is a new one the first time. -/
def openChat (a b : Int) (different : a ≠ b) : Community × Nat :=
  match h : c.chatOf a b with
  | some n => (c, n)
  | none =>
    ({ c with
      chats := c.chats ++ [(a, b)]
      pairs := by
        rw [chatOf, Option.map_eq_none_iff, List.findIdx?_eq_none_iff] at h
        rw [List.map_append, List.map_singleton, List.nodup_append]
        refine ⟨c.pairs, List.nodup_singleton _, fun x hx y hy => ?_⟩
        obtain ⟨p, hp, rfl⟩ := List.mem_map.mp hx
        rw [List.mem_singleton.mp hy]
        have other := h p hp
        rwa [beq_eq_false_iff_ne] at other
      proper := by
        intro p hp
        cases List.mem_append.mp hp with
        | inl old => exact c.proper p old
        | inr new =>
          rw [List.mem_singleton.mp new]
          exact different }, c.chats.length + 1)

/-- The other one of a pair. -/
def peerOf (me : Int) (p : Int × Int) : Option Int :=
  if p.1 = me then some p.2 else if p.2 = me then some p.1 else none

/-- The entry of a chat in a person's list: its number, and the name of a peer who still has an
account. -/
def entryOf (me : Int) (x : (Int × Int) × Nat) : Option (Nat × Bytes) :=
  (peerOf me x.1).bind fun peer => (c.withID peer).map fun q => (x.2, q.name)

/-- The chats of a person, from the last to the first. -/
def chatList (me : Int) : List (Nat × Bytes) :=
  (c.chats.zipIdx 1).reverse.filterMap (c.entryOf me)

/-- The two of a chat, the lower id first; a number without a chat has nobody. -/
def members (chat : UInt32) : List Int :=
  if chat = 0 then [] else
    match c.chats[chat.toNat - 1]? with
    | some p => [min p.1 p.2, max p.1 p.2]
    | none => []

/-- Whoever is somebody may post to whatever chat. -/
def post (chat : UInt32) (author : Int) (text : Bytes) : Community :=
  { c with posts := c.posts ++ [⟨chat, author, text⟩] }

end Community

/-! No id is taken back, and chats are never closed. -/

namespace Community

/-- The id has been given out. -/
def Issued (c : Community) (id : Int) : Prop := 0 < id ∧ id ≤ c.issued

/-- The ids that have been given out are values of an `int`. -/
structure Small (c : Community) : Prop where
  people : c.issued < 2 ^ 31
  chats : c.chats.length < 2 ^ 31

structure Grows (c d : Community) : Prop where
  issued : c.issued ≤ d.issued
  chats : c.chats <+: d.chats

theorem Grows.same {c d : Community} (issued : d.issued = c.issued) (chats : d.chats = c.chats) :
    Grows c d :=
  ⟨issued.ge, chats ▸ List.prefix_refl _⟩

theorem Small.before {c d : Community} (h : d.Small) (grows : Grows c d) : c.Small :=
  ⟨grows.issued.trans_lt h.people, grows.chats.length_le.trans_lt h.chats⟩

theorem Issued.later {c d : Community} {id : Int} (h : c.Issued id) (grows : Grows c d) :
    d.Issued id :=
  ⟨h.1, h.2.trans grows.issued⟩

variable (c : Community)

theorem register_chats {name password : Bytes}
    (valid : Validator.Within 64 Validator.isCredentialChar name ∧
      Validator.Within 127 Validator.isCredentialChar password) :
    (c.register name password valid).1.chats = c.chats := by
  unfold register
  split <;> rfl

theorem register_grows {name password : Bytes}
    (valid : Validator.Within 64 Validator.isCredentialChar name ∧
      Validator.Within 127 Validator.isCredentialChar password) :
    Grows c (c.register name password valid).1 := by
  refine ⟨?_, (c.register_chats valid).symm ▸ List.prefix_refl _⟩
  unfold register
  split
  · exact Int.le_add_one (Int.le_refl _)
  · exact Int.le_refl _

theorem delete_same (name password : Bytes) :
    (c.delete name password).1.issued = c.issued ∧
      (c.delete name password).1.chats = c.chats := by
  unfold delete
  split <;> exact ⟨rfl, rfl⟩

theorem openChat_chats {a b : Int} (different : a ≠ b) :
    (c.openChat a b different).1.issued = c.issued ∧
      ((c.openChat a b different).1.chats = c.chats ∨
        (c.openChat a b different).1.chats = c.chats ++ [(a, b)]) := by
  unfold openChat
  split
  · exact ⟨rfl, .inl rfl⟩
  · exact ⟨rfl, .inr rfl⟩

theorem openChat_grows {a b : Int} (different : a ≠ b) :
    Grows c (c.openChat a b different).1 := by
  obtain ⟨issued, chats⟩ := c.openChat_chats different
  refine ⟨issued.ge, ?_⟩
  rcases chats with old | new
  · exact old ▸ List.prefix_refl _
  · exact new ▸ List.prefix_append _ _

end Community

/-! ## The service -/

/-- What a packet can ask for. -/
inductive Asked where
  | connect
  | disconnect
  | chatList
  | request (r : Request) (valid : r.Valid)

/-- A client: the number it has, and the id and the name it has logged in with. -/
structure Guest where
  number : Fd
  user : Option (Int × Bytes) := none
  here : Bool := true
  deriving DecidableEq

/-- What is put into the queue for a client. -/
inductive Notice where
  | packet (messageID sessionID : UInt32) (payload : Payload)
  | close
  deriving DecidableEq

structure Output where
  guest : SessionId
  number : Fd
  notice : Notice
  deriving DecidableEq

/-- The community, and who is there. -/
structure Service where
  community : Community := {}
  guests : SessionId → Guest := fun _ => { number := 0 }
  /-- Guests `0 … next - 1` have come; those who are not `here` have left. -/
  next : SessionId := 0
  numbers : Fd → Option SessionId := fun _ => none
  /-- Where the posts for a person are sent: the last login, until that guest leaves. -/
  reached : Int → Option SessionId := fun _ => none

namespace Service

variable (s : Service)

def setGuest (x : SessionId) (g : Guest) : Service :=
  { s with guests := Function.update s.guests x g }

def tell (x : SessionId) (messageID sessionID : UInt32) (payload : Payload) : Output :=
  ⟨x, (s.guests x).number, .packet messageID sessionID payload⟩

def connect (number : Fd) : Service :=
  { s.setGuest s.next { number := number } with
    next := s.next + 1
    numbers := Function.update s.numbers number (some s.next) }

/-- A guest leaves. The entry of its person goes, the one it has last logged in as. -/
def leave (number : Fd) : Service :=
  match s.numbers number with
  | none => s
  | some x =>
    let g := s.guests x
    { s.setGuest x { g with here := false } with
      numbers := Function.update s.numbers number none
      reached := match g.user with
        | some user =>
          if s.reached user.1 = some x then Function.update s.reached user.1 none else s.reached
        | none => s.reached }

def logIn (x : SessionId) (p : Person) : Service :=
  { s.setGuest x { s.guests x with user := some (p.id, p.name) } with
    reached := Function.update s.reached p.id (some x) }

/-- The posts to a chat go to its members but the author, as far as they can be reached. -/
def announce (chat : UInt32) (author : Int) (name text : Bytes) : List Output :=
  (((s.community.members chat).filter (· != author)).filterMap s.reached).map fun y =>
    s.tell y 0 0 (.messageReceive ⟨name, chat, text⟩)

/-- What a request does and what is answered. Without a login a search and the list of chats
are empty, no chat is opened, and a post is dropped. -/
def fulfil (x : SessionId) (messageID sessionID : UInt32) :
    (r : Request) → r.Valid → Service × List Output
  | .register data, valid =>
    let (community, success) := s.community.register data.username data.password valid
    ({ s with community := community },
      [s.tell x messageID sessionID (.registerResponse ⟨success⟩)])
  | .auth data, _ =>
    match s.community.authenticate data.username data.password with
    | some p => (s.logIn x p, [s.tell x messageID sessionID (.authResponse ⟨true⟩)])
    | none => (s, [s.tell x messageID sessionID (.authResponse ⟨false⟩)])
  | .delete data, _ =>
    let (community, success) := s.community.delete data.username data.password
    ({ s with community := community },
      [s.tell x messageID sessionID (.deleteResponse ⟨success⟩)])
  | .findUser data, _ =>
    let usernames := match (s.guests x).user with
      | some user => s.community.search data.query user.1
      | none => []
    (s, [s.tell x messageID sessionID (.findUserResponse ⟨usernames⟩)])
  | .createChat data, _ =>
    match (s.guests x).user, s.community.named data.peerUsername with
    | some user, some peer =>
      if different : user.1 ≠ peer.id then
        let (community, chat) := s.community.openChat user.1 peer.id different
        ({ s with community := community }, [s.tell x messageID sessionID
          (.createChatResponse ⟨true, UInt32.ofNat chat, data.peerUsername⟩)])
      else (s, [s.tell x messageID sessionID (.createChatResponse {})])
    | _, _ => (s, [s.tell x messageID sessionID (.createChatResponse {})])
  | .messageSend data, _ =>
    match (s.guests x).user with
    | some user =>
      ({ s with community := s.community.post data.chatID user.1 data.text },
        s.announce data.chatID user.1 user.2 data.text)
    | none => (s, [])

def chatListOf (x : SessionId) : List ChatListEntry :=
  match (s.guests x).user with
  | some user => (s.community.chatList user.1).map fun e => ⟨UInt32.ofNat e.1, e.2⟩
  | none => []

/-- A connection without a session id is given its number. -/
def respond (x : SessionId) (messageID sessionID : UInt32) : Asked → Service × List Output
  | .connect =>
    let id := if sessionID ≠ 0 then sessionID else UInt32.ofNat (s.guests x).number
    (s, [s.tell x messageID id .connectResponse])
  | .disconnect => (s, [⟨x, (s.guests x).number, .close⟩])
  | .chatList => (s, [s.tell x messageID sessionID (.chatListResponse ⟨s.chatListOf x⟩)])
  | .request r valid => s.fulfil x messageID sessionID r valid

variable {s} {x : SessionId} {messageID sessionID : UInt32}

/-- The users and the owners of chats have been given their ids. -/
structure Grown (s : Service) : Prop where
  users : ∀ x user, (s.guests x).user = some user → s.community.Issued user.1
  owners : ∀ p ∈ s.community.chats, s.community.Issued p.1 ∧ s.community.Issued p.2

/-- Nobody has logged in and no chat has been opened since. -/
theorem Grown.later (h : s.Grown) {t : Service} (grows : s.community.Grows t.community)
    (guests : ∀ y, (t.guests y).user = (s.guests y).user ∨ (t.guests y).user = none)
    (chats : t.community.chats = s.community.chats) : t.Grown where
  users y user logged := by
    rcases guests y with same | none
    · exact (h.users y user (same ▸ logged)).later grows
    · rw [none] at logged
      cases logged
  owners p hp := by
    obtain ⟨first, second⟩ := h.owners p (chats ▸ hp)
    exact ⟨first.later grows, second.later grows⟩

theorem Grown.logIn (h : s.Grown) (x : SessionId) {p : Person} (mem : p ∈ s.community.people) :
    (s.logIn x p).Grown where
  users y user logged := by
    by_cases own : y = x
    · subst own
      simp only [Service.logIn, setGuest, Function.update_self, Option.some.injEq] at logged
      rw [← logged]
      exact s.community.range p mem
    · simp only [Service.logIn, setGuest, Function.update_of_ne own] at logged
      exact h.users y user logged
  owners := h.owners

theorem Grown.openChat (h : s.Grown) {a b : Int} (different : a ≠ b)
    (first : s.community.Issued a) (second : s.community.Issued b) :
    Grown { s with community := (s.community.openChat a b different).1 } := by
  obtain ⟨issued, chats⟩ := s.community.openChat_chats different
  have later (id : Int) (known : s.community.Issued id) :
      (s.community.openChat a b different).1.Issued id := ⟨known.1, issued ▸ known.2⟩
  refine ⟨fun y user logged => later _ (h.users y user logged), fun p hp => ?_⟩
  have old : p ∈ s.community.chats ∨ p = (a, b) := by
    rcases chats with same | more
    · exact .inl (same ▸ hp)
    · rw [more, List.mem_append, List.mem_singleton] at hp
      exact hp
  rcases old with old | rfl
  · exact ⟨later _ (h.owners p old).1, later _ (h.owners p old).2⟩
  · exact ⟨later _ first, later _ second⟩

/-- No answer takes an id or a chat back. -/
theorem respond_grows (s : Service) (x : SessionId) (messageID sessionID : UInt32) (a : Asked) :
    s.community.Grows (s.respond x messageID sessionID a).1.community := by
  have same : s.community.Grows s.community := .same rfl rfl
  cases a with
  | request r valid =>
    cases r with
    | register data => exact s.community.register_grows valid
    | delete data =>
      obtain ⟨issued, chats⟩ := s.community.delete_same data.username data.password
      exact .same issued chats
    | auth data =>
      simp only [respond, fulfil]
      split <;> exact same
    | createChat data =>
      simp only [respond, fulfil]
      split
      · split
        · exact s.community.openChat_grows _
        · exact same
      · exact same
    | messageSend data =>
      simp only [respond, fulfil]
      split
      · exact .same rfl rfl
      · exact same
    | findUser data => exact same
  | connect | disconnect | chatList => exact same

theorem connect_grown (h : s.Grown) (number : Fd) : (s.connect number).Grown := by
  refine h.later (.same rfl rfl) (fun y => ?_) rfl
  simp only [connect, setGuest, Function.update_apply]
  split
  · exact .inr rfl
  · exact .inl rfl

theorem leave_grown (h : s.Grown) (number : Fd) : (s.leave number).Grown := by
  unfold leave
  split
  · exact h
  · refine h.later (.same rfl rfl) (fun y => .inl ?_) rfl
    simp only [setGuest, Function.update_apply]
    split
    · rename_i e
      rw [e]
    · rfl

end Service

end Cvcn
