import Cvcn.Lib.Machine
import Cvcn.Services.Authorisation
import Cvcn.Storage.Writers

/-!
# Messages delivered and messages stored

`handleMessageSend` logs that a message could not be saved, and then broadcasts it as if it had
been. Any `saveMessage` may fail here: a request with a recipient is in the history that the
recipient will read only if its own `saveMessage` has succeeded.
-/

namespace Cvcn

open Atomic Machine

/-- A `saveMessage` any of whose sqlite3 calls may fail inserts its row and returns true, or it
returns false and leaves the tables as they were. -/
theorem MessageRepository.saveMessage_attempt (fails : SqlOp → Bool) (chatID : UInt32)
    (senderID : Int) (text : Bytes) (c : Conn) :
    let sql := Stmt.insertMessage (ChatRepository.toInt chatID) senderID (cStr text)
    (saveMessage chatID senderID text).run (fun o c => c.attempt (fails o) o) c =
      if fails (.prepare sql) then (false, c)
      else if fails (.step sql) then (false, { c with changes := 0 })
      else (RepoOp.saveMessage chatID senderID text).exec c := by
  intro sql
  simp only [saveMessage, Sqlite3.prepare, Sqlite3.step, Prog.call, Prog.op_bind, Prog.done_bind,
    Prog.run_op]
  cases prepared : fails (.prepare sql) with
  | true =>
    simp only [sql] at prepared
    simp [Conn.attempt, SqlOp.failure, SqlOp.failed, SqlOp.statement]
  | false =>
    simp only [sql] at prepared
    cases stepped : fails (.step sql) with
    | true =>
      simp only [sql] at stepped
      simp [Conn.attempt, stepped, SqlOp.failure, Conn.call, SqlOp.failed, SqlOp.statement,
        Conn.failed, Stmt.counts]
    | false =>
      simp only [sql] at stepped
      simp [Conn.attempt, stepped, Conn.call, RepoOp.saveMessage_exec, Conn.stepStmt,
        Stmt.isQuery, Conn.write]

/-- A packet of type `MessageSend` as a session receives it, and which sqlite3 calls fail of the
`saveMessage` that it leads to. -/
structure MessageCall where
  session : SessionId
  messageID : UInt32
  sessionID : UInt32
  body : Bytes
  prepareFails : Bool := false
  stepFails : Bool := false
  deriving DecidableEq, Repr

namespace MessageCall

def task (c : MessageCall) : Task :=
  ⟨c.session,
    ⟨PacketType.messageSend.code, c.messageID, c.sessionID, UInt16.ofNat c.body.length⟩, c.body⟩

/-- What the dispatcher passes on to the service. -/
def data (c : MessageCall) : Option MessageSendData :=
  (PacketParser.messageSend c.body).filter fun data =>
    Validator.validateChatID data.chatID && Validator.validateMessage data.text

def failing (c : MessageCall) : SqlOp → Bool
  | .prepare _ => c.prepareFails
  | .step _ => c.stepFails
  | _ => false

/-- Its `saveMessage` fails. -/
def fails (c : MessageCall) : Bool := c.prepareFails || c.stepFails

end MessageCall

/-- A push as it is observed: the number of its request, and the messages that are stored at that
time. -/
structure Push where
  request : Nat
  recipient : SessionId
  packet : Bytes
  messages : List MessageRow
  deriving DecidableEq, Repr

/-- The requests handled so far, and the pushes made. -/
structure MessageRun where
  shared : Shared
  handled : List MessageCall := []
  pushes : List Push := []

namespace MessageRun

/-- An operation of the request that is being handled. -/
def exec (c : MessageCall) : (o : Op) → MessageRun → o.Res × MessageRun
  | .session x (.sendRaw packet), r =>
    ((), { r with
      shared := (Shared.exec (.session x (.sendRaw packet)) r.shared).2
      pushes := r.pushes ++ [⟨r.handled.length, x, packet, r.shared.conn.tables.messages⟩] })
  | .repo (.saveMessage chatID senderID text), r =>
    let (saved, conn) := (MessageRepository.saveMessage chatID senderID text).run
      (fun o d => d.attempt (c.failing o) o) r.shared.conn
    (saved, { r with shared := { r.shared with conn := conn } })
  | o, r => ((Shared.exec o r.shared).1, { r with shared := (Shared.exec o r.shared).2 })

def handle (r : MessageRun) (c : MessageCall) : MessageRun :=
  let after := ((taskBody c.task).run (exec c) r).2
  { after with handled := after.handled ++ [c] }

def step (r : MessageRun) (c : MessageCall) : Option MessageRun := some (r.handle c)

/-- A `saveMessage` that does not fail is that of the server. -/
theorem exec_saves {c : MessageCall} (saves : c.fails = false) (chatID : UInt32) (senderID : Int)
    (text : Bytes) (r : MessageRun) :
    exec c (.repo (.saveMessage chatID senderID text)) r =
      let result := Shared.exec (.repo (.saveMessage chatID senderID text)) r.shared
      (result.1, { r with shared := result.2 }) := by
  rw [MessageCall.fails, Bool.or_eq_false_iff] at saves
  simp [exec, Shared.exec, MessageRepository.saveMessage_attempt, MessageCall.failing, saves]

/-- When nothing fails the state is that of the server. -/
theorem handle_shared (r : MessageRun) {c : MessageCall} (saves : c.fails = false) :
    (r.handle c).shared = r.shared.handle c.task := by
  have same (o : Op) (r : MessageRun) :
      Shared.exec o r.shared = ((exec c o r).1, (exec c o r).2.shared) := by
    cases o with
    | repo o =>
      cases o with
      | saveMessage chatID senderID text => rw [exec_saves saves]
      | _ => rfl
    | session x o => cases o <;> rfl
    | _ => rfl
  have run := Prog.run_project (·.shared) same (taskBody c.task) r
  exact (congrArg Prod.snd run).symm

/-! ## One request -/

/-- The data of a request that is stored and broadcast. -/
def accepts (r : MessageRun) (c : MessageCall) : Option MessageSendData :=
  let session := r.shared.objects c.session
  if session.closed || session.userID == -1 then none else c.data

/-- The sessions that the message is pushed to. -/
def reached (r : MessageRun) (c : MessageCall) (data : MessageSendData) : List SessionId :=
  r.shared.recipients (ChatRepository.toInt data.chatID) (r.shared.objects c.session).userID

/-- The connection after `saveMessage`. -/
def saved (r : MessageRun) (c : MessageCall) (data : MessageSendData) : Conn :=
  if c.prepareFails then r.shared.conn
  else if c.stepFails then { r.shared.conn with changes := 0 }
  else r.shared.conn.inserted
    (r.shared.stored (ChatRepository.toInt data.chatID) (r.shared.objects c.session).userID
      data.text)
    (r.shared.conn.tables.messageSeq + 1)

def packet (r : MessageRun) (c : MessageCall) (data : MessageSendData) : Bytes :=
  PacketBuilder.messageReceive 0 0 ⟨(r.shared.objects c.session).username, data.chatID, data.text⟩

/-- A message that could not be saved leaves the tables as they were. -/
theorem saved_of_fails {r : MessageRun} {c : MessageCall} (fails : c.fails = true)
    (data : MessageSendData) : (r.saved c data).tables = r.shared.conn.tables := by
  rw [MessageCall.fails, Bool.or_eq_true] at fails
  unfold saved
  split
  · rfl
  · rw [if_pos (fails.resolve_left ‹_›)]

theorem saved_membersOf (r : MessageRun) (c : MessageCall) (data : MessageSendData)
    (chatID : Int) :
    (r.saved c data).tables.membersOf chatID = r.shared.conn.tables.membersOf chatID := by
  unfold saved
  split
  · rfl
  · split <;> rfl

/-- The packet pushed by each of the sessions. -/
def pushEach (r : MessageRun) (packet : Bytes) (recipients : List SessionId) : MessageRun :=
  { r with
    shared := r.shared.pushEach packet recipients
    pushes := r.pushes ++ recipients.map fun x =>
      ⟨r.handled.length, x, packet, r.shared.conn.tables.messages⟩ }

theorem broadcastLoop_run (c : MessageCall) (excludeUserID : Int) (packet : Bytes)
    (memberIDs : List Int) (r : MessageRun) :
    ((MessageService.broadcastLoop excludeUserID packet memberIDs).run (exec c) r).2 =
      r.pushEach packet ((memberIDs.filter (· != excludeUserID)).filterMap r.shared.byUserID) := by
  induction memberIDs generalizing r with
  | nil => simp [MessageService.broadcastLoop, pushEach]
  | cons userID memberIDs ih =>
    unfold MessageService.broadcastLoop
    by_cases self : userID = excludeUserID
    · subst self
      simp [ih]
    · simp only [beq_iff_eq, self, if_false, ISessionRegistry.findByUserID_eq, Prog.op_bind,
        Prog.done_bind, Prog.run_op]
      cases found : r.shared.byUserID userID with
      | none => simp [exec, Shared.exec, found, self, ih]
      | some x =>
        simp only [exec, Shared.exec, found, IClientSession.sendRaw_eq,
          IClientSession.getUsername_eq, Prog.op_bind, Prog.done_bind, Prog.run_op,
          Shared.sessionOp, ih]
        simp only [List.filter_cons, bne_iff_ne, ne_eq, self, not_false_eq_true, if_true,
          List.filterMap_cons, found, pushEach, Shared.pushEach_cons, List.map_cons]
        simp [Shared.push]

theorem handleMessageSend_run (r : MessageRun) (c : MessageCall) {data : MessageSendData}
    (text : cStr data.text = data.text) :
    let saved := { r with shared := { r.shared with conn := r.saved c data } }
    ((MessageService.handleMessageSend data c.session).run (exec c) r).2 =
      if (r.shared.objects c.session).userID = -1 then r
      else saved.pushEach (r.packet c data) (r.reached c data) := by
  simp only [MessageService.handleMessageSend, IClientSession.getUserID_eq, Prog.op_bind,
    Prog.done_bind, Prog.run_op, exec, Shared.exec, Shared.sessionOp, beq_iff_eq]
  by_cases none : (r.shared.objects c.session).userID = -1
  · simp only [none, if_true]
    rfl
  · simp only [none, if_false, Repo.saveMessage_eq, IClientSession.getUsername_eq,
      Repo.getChatMemberIDs_eq, Prog.op_bind, Prog.done_bind, Prog.run_op,
      MessageService.broadcastToChat, broadcastLoop_run]
    have saves : exec c (.repo (.saveMessage data.chatID (r.shared.objects c.session).userID
        data.text)) r =
        (!c.fails, { r with shared := { r.shared with conn := r.saved c data } }) := by
      simp only [exec, MessageRepository.saveMessage_attempt, MessageCall.failing, saved,
        MessageCall.fails]
      cases c.prepareFails with
      | true => rfl
      | false =>
        cases c.stepFails with
        | true => rfl
        | false =>
          simp only [Bool.false_eq_true, if_false, RepoOp.saveMessage_exec, text]
          rfl
    simp only [exec] at saves
    simp only [exec, saves, Shared.exec, Shared.sessionOp, RepoOp.getChatMemberIDs_exec,
      saved_membersOf]
    rfl

/-- A request that is accepted is saved or not, and pushed in either case. -/
theorem handle_eq (r : MessageRun) (c : MessageCall) :
    r.handle c =
      match r.accepts c with
      | none => { r with handled := r.handled ++ [c] }
      | some data =>
        let saved := { r with shared := { r.shared with conn := r.saved c data } }
        { saved.pushEach (r.packet c data) (r.reached c data) with
          handled := r.handled ++ [c] } := by
  have asked : (taskBody c.task).run (exec c) r =
      (if (r.shared.objects c.session).closed then return ()
        else PacketDispatcher.validated (PacketParser.messageSend c.body)
          (fun data => Validator.validateChatID data.chatID && Validator.validateMessage data.text)
          fun data => MessageService.handleMessageSend data c.session : ServerProg Unit).run
        (exec c) r := rfl
  simp only [handle, asked, PacketDispatcher.validated]
  by_cases closed : (r.shared.objects c.session).closed = true
  · have dropped : r.accepts c = none := by simp [accepts, closed]
    rw [dropped, if_pos closed]
    rfl
  rw [if_neg closed]
  cases parsed : PacketParser.messageSend c.body with
  | none =>
    have dropped : r.accepts c = none := by simp [accepts, MessageCall.data, parsed]
    rw [dropped]
    rfl
  | some data =>
    by_cases valid : (Validator.validateChatID data.chatID &&
        Validator.validateMessage data.text) = true
    · have text : cStr data.text = data.text := by
        rw [Bool.and_eq_true] at valid
        exact Validator.cStr_of_bounded valid.2 rfl
      have run := handleMessageSend_run r c text
      simp only at run
      simp only [valid, if_true, run]
      by_cases none : (r.shared.objects c.session).userID = -1
      · have dropped : r.accepts c = Option.none := by simp [accepts, none]
        rw [dropped, if_pos none]
      · have accepted : r.accepts c = some data := by
          simp [accepts, MessageCall.data, parsed, closed, none, Option.filter, valid]
        rw [accepted, if_neg none]
        rfl
    · have dropped : r.accepts c = none := by
        simp [accepts, MessageCall.data, parsed, Option.filter, valid]
      rw [dropped]
      simp only [valid]
      rfl

/-! ## Every run -/

/-- The message with this id is stored at the time of the push, and it is the one pushed. -/
def Matches (r : MessageRun) (p : Push) (id : Int) : Prop :=
  ∃ c data, r.handled[p.request]? = some c ∧ c.data = some data ∧
    p.packet = r.packet c data ∧
    ⟨id, ChatRepository.toInt data.chatID, (r.shared.objects c.session).userID, data.text⟩ ∈
      p.messages

/-- What has been pushed is stored, each broadcast in a row of its own, and nothing has been pushed
for a request whose `saveMessage` has failed. -/
structure Delivered (r : MessageRun) : Prop where
  stored : ∃ row : Nat → Int,
    (∀ p ∈ r.pushes, Matches r p (row p.request)) ∧
    ∀ p ∈ r.pushes, ∀ q ∈ r.pushes, row p.request = row q.request → p.request = q.request
  failed : ∀ p ∈ r.pushes, ∀ c, r.handled[p.request]? = some c → c.fails = false

/-- A request whose `saveMessage` fails has no recipient. -/
def failsUnheard (r : MessageRun) (c : MessageCall) : Bool :=
  match r.accepts c with
  | none => true
  | some data => !c.fails || (r.reached c data).isEmpty

/-- The rows of the broadcasts are those with the ids that their saves were given. -/
structure DeliveredInv (r : MessageRun) (row : Nat → Int) : Prop where
  numbered : ∀ p ∈ r.pushes, p.request < r.handled.length
  matching : ∀ p ∈ r.pushes, Matches r p (row p.request)
  distinct : ∀ p ∈ r.pushes, ∀ q ∈ r.pushes, row p.request = row q.request → p.request = q.request
  earlier : ∀ p ∈ r.pushes, row p.request ≤ r.shared.conn.tables.messageSeq
  failed : ∀ p ∈ r.pushes, ∀ c, r.handled[p.request]? = some c → c.fails = false

variable {r t : MessageRun} {c : MessageCall} {row : Nat → Int}

theorem DeliveredInv.delivered (h : DeliveredInv r row) : Delivered r :=
  ⟨⟨row, h.matching, h.distinct⟩, h.failed⟩

theorem Matches.later {p : Push} {id : Int} (h : Matches r p id) (more : List MessageCall)
    (handled : t.handled = r.handled ++ more) (objects : t.shared.objects = r.shared.objects) :
    Matches t p id := by
  obtain ⟨c, data, found, parsed, packet, stored⟩ := h
  refine ⟨c, data, ?_, parsed, ?_, ?_⟩
  · rw [handled, List.getElem?_append_left (List.getElem?_eq_some_iff.mp found).1]
    exact found
  · rw [packet, MessageRun.packet, MessageRun.packet, objects]
  · rw [objects]
    exact stored

/-- A request that pushes nothing. -/
theorem DeliveredInv.quiet (h : DeliveredInv r row) (handled : t.handled = r.handled ++ [c])
    (pushes : t.pushes = r.pushes) (objects : t.shared.objects = r.shared.objects)
    (seq : r.shared.conn.tables.messageSeq ≤ t.shared.conn.tables.messageSeq) :
    DeliveredInv t row where
  numbered p hp := by
    rw [pushes] at hp
    have := h.numbered p hp
    rw [handled, List.length_append]
    omega
  matching p hp := by
    rw [pushes] at hp
    exact (h.matching p hp).later [c] handled objects
  distinct := by
    rw [pushes]
    exact h.distinct
  earlier p hp := by
    rw [pushes] at hp
    exact (h.earlier p hp).trans seq
  failed p hp d hd := by
    rw [pushes] at hp
    rw [handled, List.getElem?_append_left (h.numbered p hp)] at hd
    exact h.failed p hp d hd

/-- A request that is accepted, in its parts. -/
theorem handle_accepted {data : MessageSendData} (accepted : r.accepts c = some data) :
    (r.handle c).handled = r.handled ++ [c] ∧
    (r.handle c).shared.objects = r.shared.objects ∧
    (r.handle c).shared.conn = r.saved c data ∧
    (r.handle c).pushes = r.pushes ++ (r.reached c data).map fun x =>
      ⟨r.handled.length, x, r.packet c data, (r.saved c data).tables.messages⟩ := by
  rw [handle_eq, accepted]
  exact ⟨rfl, rfl, rfl, rfl⟩

/-- A message that is saved and then pushed. -/
theorem DeliveredInv.send (h : DeliveredInv r row) {data : MessageSendData}
    (accepted : r.accepts c = some data) (saves : c.fails = false) :
    DeliveredInv (r.handle c)
      (Function.update row r.handled.length (r.shared.conn.tables.messageSeq + 1)) := by
  obtain ⟨handled, objects, conn, pushes⟩ := handle_accepted accepted
  have parsed : c.data = some data := by
    simp only [accepts] at accepted
    split at accepted
    · cases accepted
    · exact accepted
  obtain ⟨prepares, steps⟩ := Bool.or_eq_false_iff.mp saves
  simp only [saved, prepares, steps, Bool.false_eq_true, if_false] at conn pushes
  have cases_of : ∀ p ∈ (r.handle c).pushes, p ∈ r.pushes ∧ p.request ≠ r.handled.length ∨
      p.request = r.handled.length ∧ p.packet = r.packet c data ∧
        p.messages = (r.shared.stored (ChatRepository.toInt data.chatID)
          (r.shared.objects c.session).userID data.text).messages := by
    intro p hp
    rw [pushes] at hp
    cases List.mem_append.mp hp with
    | inl old => exact .inl ⟨old, Nat.ne_of_lt (h.numbered p old)⟩
    | inr new =>
      obtain ⟨x, -, rfl⟩ := List.mem_map.mp new
      exact .inr ⟨rfl, rfl, rfl⟩
  have seq : (r.handle c).shared.conn.tables.messageSeq = r.shared.conn.tables.messageSeq + 1 := by
    rw [conn]
    rfl
  constructor
  · intro p hp
    rw [handled, List.length_append, List.length_singleton]
    rcases cases_of p hp with ⟨old, -⟩ | ⟨new, -⟩
    · have := h.numbered p old
      omega
    · omega
  · intro p hp
    rcases cases_of p hp with ⟨old, earlier⟩ | ⟨new, packet, messages⟩
    · rw [Function.update_of_ne earlier]
      exact (h.matching p old).later [c] handled objects
    · rw [new, Function.update_self]
      refine ⟨c, data, ?_, parsed, ?_, ?_⟩
      · rw [handled, new]
        exact List.getElem?_concat_length
      · rw [packet, MessageRun.packet, MessageRun.packet, objects]
      · rw [messages, objects]
        exact List.mem_append_right _ (List.mem_singleton_self _)
  · intro p hp q hq same
    rcases cases_of p hp with ⟨oldp, p'⟩ | ⟨newp, -⟩ <;>
      rcases cases_of q hq with ⟨oldq, q'⟩ | ⟨newq, -⟩
    · rw [Function.update_of_ne p', Function.update_of_ne q'] at same
      exact h.distinct p oldp q oldq same
    · rw [Function.update_of_ne p', newq, Function.update_self] at same
      have := h.earlier p oldp
      omega
    · rw [Function.update_of_ne q', newp, Function.update_self] at same
      have := h.earlier q oldq
      omega
    · rw [newp, newq]
  · intro p hp
    rw [seq]
    rcases cases_of p hp with ⟨old, earlier⟩ | ⟨new, -⟩
    · rw [Function.update_of_ne earlier]
      have := h.earlier p old
      omega
    · rw [new, Function.update_self]
  · intro p hp d hd
    rcases cases_of p hp with ⟨old, -⟩ | ⟨new, -⟩
    · rw [handled, List.getElem?_append_left (h.numbered p old)] at hd
      exact h.failed p old d hd
    · rw [handled, new, List.getElem?_concat_length] at hd
      cases hd
      exact saves

theorem step_delivered (h : ∃ row, DeliveredInv r row) (unheard : r.failsUnheard c = true)
    (taken : r.step c = some t) : ∃ row, DeliveredInv t row := by
  cases taken
  obtain ⟨row, h⟩ := h
  unfold failsUnheard at unheard
  cases accepted : r.accepts c with
  | none =>
    have same : r.handle c = { r with handled := r.handled ++ [c] } := by
      rw [handle_eq, accepted]
    rw [same]
    exact ⟨row, h.quiet rfl rfl rfl (Int.le_refl _)⟩
  | some data =>
    rw [accepted] at unheard
    cases fails : c.fails with
    | false => exact ⟨_, h.send accepted fails⟩
    | true =>
      simp only [fails, Bool.not_true, Bool.false_or, List.isEmpty_iff] at unheard
      obtain ⟨handled, objects, conn, pushes⟩ := handle_accepted accepted
      rw [unheard, List.map_nil, List.append_nil] at pushes
      exact ⟨row, h.quiet handled pushes objects (by rw [conn, saved_of_fails fails])⟩

/-- A message that could not be saved reaches a recipient. -/
theorem step_unsaved (heard : ¬ r.failsUnheard c = true) (taken : r.step c = some t) :
    ¬ Delivered t := by
  cases taken
  intro delivered
  unfold failsUnheard at heard
  cases accepted : r.accepts c with
  | none =>
    rw [accepted] at heard
    exact heard rfl
  | some data =>
    simp only [accepted, Bool.or_eq_true, Bool.not_eq_true', List.isEmpty_iff, not_or,
      Bool.not_eq_false] at heard
    obtain ⟨fails, reached⟩ := heard
    obtain ⟨handled, -, -, pushes⟩ := handle_accepted accepted
    obtain ⟨x, hx⟩ := List.exists_mem_of_ne_nil _ reached
    have pushed : ⟨r.handled.length, x, r.packet c data, (r.saved c data).tables.messages⟩ ∈
        (r.handle c).pushes := by
      rw [pushes]
      exact List.mem_append_right _ (List.mem_map.mpr ⟨x, hx, rfl⟩)
    have saved := delivered.failed _ pushed c (by
      rw [handled]
      exact List.getElem?_concat_length)
    rw [fails] at saved
    cases saved

/-- No request has been handled yet. -/
def start (sh : Shared) : MessageRun := { shared := sh }

theorem deliveredInv_start (sh : Shared) : ∃ row, DeliveredInv (start sh) row := by
  refine ⟨fun _ => 0, ?_⟩
  constructor <;> intro p hp <;> cases hp

/-- Without failures a run is that of the server. -/
theorem run_shared {s t : MessageRun} {calls : List MessageCall}
    (run : Machine.exec step s calls = some t) (saves : ∀ c ∈ calls, c.fails = false) :
    t.shared = calls.foldl (fun sh c => sh.handle c.task) s.shared := by
  induction calls generalizing s with
  | nil =>
    cases run
    rfl
  | cons c calls ih =>
    obtain ⟨m, hm, run⟩ := exec_cons.mp run
    cases hm
    obtain ⟨first, rest⟩ := List.forall_mem_cons.mp saves
    rw [List.foldl_cons, ← handle_shared s first]
    exact ih run rest

/-- What recipients are shown is stored, each broadcast in a row of its own, in every state of a
run of `MessageSend` requests, exactly if no request with a recipient fails to be saved. When none
fails the run is that of the server. -/
theorem delivered_stored_iff (sh : Shared) (calls : List MessageCall) :
    (Throughout step Delivered (start sh) calls ↔
      Along step (failsUnheard · · = true) (start sh) calls) ∧
    ∀ t, Machine.exec step (start sh) calls = some t → (∀ c ∈ calls, c.fails = false) →
      t.shared = calls.foldl (fun sh c => sh.handle c.task) sh := by
  have total (r : MessageRun) (c : MessageCall) : ∃ t, r.step c = some t := ⟨r.handle c, rfl⟩
  obtain ⟨t, run⟩ := exec_total total (start sh) calls
  refine ⟨?_, fun t run saves => run_shared run saves⟩
  exact throughout_iff_along (J := fun r => ∃ row, DeliveredInv r row)
    (fun _ ⟨_, h⟩ => h.delivered) (fun _ _ _ => step_delivered) (fun _ _ _ _ => step_unsaved)
    (deliveredInv_start sh) run

/-- Users `a` and `b`, who have a chat, are logged in. -/
def twoInChat : Shared where
  conn := { tables := {
    users := [⟨1, [97], config.PASSWORD_HASH_PREFIX ++ [112]⟩,
      ⟨2, [98], config.PASSWORD_HASH_PREFIX ++ [113]⟩]
    chats := [⟨1, false⟩]
    chatMembers := [⟨1, 1⟩, ⟨1, 2⟩]
    userSeq := 2
    chatSeq := 1 } }
  objects x :=
    if x = 0 then { fileDescriptor := 5, userID := 1, username := [97] }
    else { fileDescriptor := 6, userID := 2, username := [98] }
  next := 2
  byUserID u := if u = 1 then some 0 else if u = 2 then some 1 else none
  queue := []

/-- `a` sends `hi` and it is not saved. -/
def unsavedMessage : MessageCall where
  session := 0
  messageID := 1
  sessionID := 5
  body := (PacketBuilder.messageSend 1 5 ⟨1, [104, 105]⟩).drop PacketHeaderRaw.size
  stepFails := true

/-- `b` receives it, and there is no message in the table. -/
theorem unsaved_message_pushed :
    ((start twoInChat).handle unsavedMessage).pushes =
        [⟨0, 1, PacketBuilder.messageReceive 0 0 ⟨[97], 1, [104, 105]⟩, []⟩] ∧
      ¬ Throughout step Delivered (start twoInChat) [unsavedMessage] := by
  refine ⟨by decide, fun h => ?_⟩
  have last : Delivered ((start twoInChat).handle unsavedMessage) := h.2 _ rfl
  exact step_unsaved (by decide) rfl last

end MessageRun

end Cvcn
