import Cvcn.Net.Deletion
import Cvcn.Net.Framing

/-!
# Which packets are executed

Every complete packet of a session becomes one task. The worker that takes it asks once
whether the session is closed, and dispatches the packet if it is not; the packets of a session
that has been closed meanwhile are dropped. So a packet is dispatched once or dropped once,
and none is dropped while its session is open.
-/

namespace Cvcn

open Atomic Machine Framing

/-- The question that a task begins with. -/
def Op.asksClosed : Op → Bool
  | .session _ .isClosed => true
  | _ => false

def Op.writesUsers : Op → Bool
  | .repo o => o.writesUsers
  | _ => false

/-! ## What comes after the question -/

/-- Not that question again, and a change of the users only if `accounts`. -/
structure Op.Calm (accounts : Prop) (o : Op) : Prop where
  asks : o.asksClosed = false
  users : o.writesUsers = false ∨ accounts

section Dispatch

variable {α : Type} {accounts : Prop} {header : PacketHeaderRaw} {x : SessionId}

/-- The program does not ask whether a session is closed. -/
abbrev NeverAsks (p : ServerProg α) : Prop := p.Only fun o => o.asksClosed = false

abbrev Calm (accounts : Prop) (p : ServerProg α) : Prop := p.Only (Op.Calm accounts)

theorem calm_then {o : Op} {rest : o.Res → ServerProg α} (asks : o.asksClosed = false)
    (reads : o.writesUsers = false) (h : ∀ r, Calm accounts (rest r)) :
    Calm accounts (.op o rest) :=
  ⟨⟨asks, .inl reads⟩, h⟩

theorem sendRaw_calm (data : Bytes) : Calm accounts (IClientSession.sendRaw x data) :=
  calm_then rfl rfl fun _ => trivial

theorem handleRegisterRequest_calm (data : RegisterRequestData) (mayWrite : accounts) :
    Calm accounts (AuthService.handleRegisterRequest header data x) := by
  simp only [AuthService.handleRegisterRequest, Repo.userExists_eq, Prog.op_bind, Prog.done_bind]
  apply calm_then rfl rfl
  intro found
  cases found with
  | true => exact sendRaw_calm _
  | false => exact ⟨⟨rfl, .inr mayWrite⟩, fun _ => sendRaw_calm _⟩

theorem handleAuthRequest_calm (data : AuthRequestData) :
    Calm accounts (AuthService.handleAuthRequest header data x) := by
  simp only [AuthService.handleAuthRequest, Repo.getUserPasswordHash_eq, Prog.op_bind,
    Prog.done_bind]
  apply calm_then rfl rfl
  intro storedHash
  split
  · simp only [AuthService.authenticate, Repo.getUserID_eq, IClientSession.setAuthenticated_eq,
      ISessionRegistry.registerUser_eq, Prog.op_bind, Prog.done_bind]
    apply calm_then rfl rfl
    intro userID
    apply calm_then rfl rfl
    intro _
    apply calm_then rfl rfl
    exact fun _ => sendRaw_calm _
  · exact sendRaw_calm _

theorem handleDeleteRequest_calm (data : DeleteRequestData) (mayWrite : accounts) :
    Calm accounts (AuthService.handleDeleteRequest header data x) :=
  ⟨⟨rfl, .inr mayWrite⟩, fun _ => sendRaw_calm _⟩

theorem handleFindUserRequest_calm (data : FindUserRequestData) :
    Calm accounts (ChatService.handleFindUserRequest header data x) := by
  simp only [ChatService.handleFindUserRequest, IClientSession.getUserID_eq, Prog.op_bind,
    Prog.done_bind]
  apply calm_then rfl rfl
  intro userID
  split
  · exact sendRaw_calm _
  · exact calm_then rfl rfl fun _ => sendRaw_calm _

theorem createChat_calm (data : CreateChatRequestData) (userID : Int) :
    Calm accounts (ChatService.createChat data userID) := by
  unfold ChatService.createChat
  split
  · trivial
  · simp only [Repo.getUserID_eq, Prog.op_bind, Prog.done_bind]
    apply calm_then rfl rfl
    intro peerID
    split
    · trivial
    · simp only [Repo.findOrCreateDirectChat_eq, Prog.op_bind, Prog.done_bind]
      apply calm_then rfl rfl
      intro chatID
      split <;> trivial

theorem handleCreateChatRequest_calm (data : CreateChatRequestData) :
    Calm accounts (ChatService.handleCreateChatRequest header data x) := by
  simp only [ChatService.handleCreateChatRequest, IClientSession.getUserID_eq, Prog.op_bind,
    Prog.done_bind]
  apply calm_then rfl rfl
  exact fun userID => (createChat_calm data userID).bind fun _ => sendRaw_calm _

theorem handleChatListRequest_calm :
    Calm accounts (ChatService.handleChatListRequest header x) := by
  simp only [ChatService.handleChatListRequest, IClientSession.getUserID_eq, Prog.op_bind,
    Prog.done_bind]
  apply calm_then rfl rfl
  intro userID
  split
  · exact calm_then rfl rfl fun _ => sendRaw_calm _
  · exact sendRaw_calm _

theorem broadcastLoop_calm (excludeUserID : Int) (packet : Bytes) (memberIDs : List Int) :
    Calm accounts (MessageService.broadcastLoop excludeUserID packet memberIDs) := by
  induction memberIDs with
  | nil => trivial
  | cons userID memberIDs ih =>
    unfold MessageService.broadcastLoop
    split
    · exact ih
    · simp only [ISessionRegistry.findByUserID_eq, Prog.op_bind, Prog.done_bind]
      apply calm_then rfl rfl
      intro found
      cases found with
      | none => exact ih
      | some recipient => exact calm_then rfl rfl fun _ => calm_then rfl rfl fun _ => ih

theorem handleMessageSend_calm (data : MessageSendData) :
    Calm accounts (MessageService.handleMessageSend data x) := by
  simp only [MessageService.handleMessageSend, IClientSession.getUserID_eq, Prog.op_bind,
    Prog.done_bind]
  apply calm_then rfl rfl
  intro senderID
  split
  · trivial
  · simp only [Repo.saveMessage_eq, IClientSession.getUsername_eq, Repo.getChatMemberIDs_eq,
      Prog.op_bind, Prog.done_bind]
    apply calm_then rfl rfl
    intro _
    apply calm_then rfl rfl
    intro senderUsername
    apply calm_then rfl rfl
    exact fun members => broadcastLoop_calm _ _ _

theorem handleConnectRequest_calm :
    Calm accounts (PacketDispatcher.handleConnectRequest header x) := by
  unfold PacketDispatcher.handleConnectRequest
  split
  · exact sendRaw_calm _
  · exact calm_then rfl rfl fun _ => sendRaw_calm _

theorem validated_calm {parsed : Option α} {valid : α → Bool} {handle : α → ServerProg Unit}
    (h : ∀ data, Calm accounts (handle data)) :
    Calm accounts (PacketDispatcher.validated parsed valid handle) := by
  unfold PacketDispatcher.validated
  split
  · split
    · exact h _
    · trivial
  · trivial

/-- Only the requests to register and to delete an account change the users. -/
theorem dispatch_calm (header : PacketHeaderRaw) (body : Bytes) (x : SessionId) :
    Calm (PacketType.ofCode header.type = some .registerRequest ∨
      PacketType.ofCode header.type = some .deleteRequest)
      (PacketDispatcher.dispatch header body x) := by
  unfold PacketDispatcher.dispatch
  split
  · exact handleConnectRequest_calm
  · exact calm_then rfl rfl fun _ => trivial
  · rename_i type
    exact validated_calm fun data => handleRegisterRequest_calm data (.inl type)
  · exact validated_calm handleAuthRequest_calm
  · rename_i type
    exact validated_calm fun data => handleDeleteRequest_calm data (.inr type)
  · exact validated_calm handleFindUserRequest_calm
  · exact validated_calm handleCreateChatRequest_calm
  · exact handleChatListRequest_calm
  · exact validated_calm handleMessageSend_calm
  · trivial

theorem dispatch_neverAsks (header : PacketHeaderRaw) (body : Bytes) (x : SessionId) :
    NeverAsks (PacketDispatcher.dispatch header body x) :=
  (dispatch_calm header body x).mono fun _ calm => calm.asks

end Dispatch

/-- A task asks about its own session; what follows is the dispatch, or nothing. -/
theorem taskBody_eq (t : Task) : taskBody t = .op (.session t.session .isClosed) fun closed =>
    if closed then .done () else PacketDispatcher.dispatch t.header t.body t.session := rfl

/-- The task about which the worker is about to ask. -/
def Worker.asking : Worker Running → Option Task
  | .running ⟨job, .op (.session _ .isClosed) _⟩ => some job.task
  | _ => none

/-- A task is at its beginning, or has asked. -/
def Running.Tasked (r : Running) : Prop := r.rest = taskBody r.job.task ∨ NeverAsks r.rest

theorem asking_begin (job : Job) : (Worker.running job.begin_).asking = some job.task := rfl

theorem asking_of_neverAsks {r : Running} (h : NeverAsks r.rest) :
    (Worker.running r).asking = none := by
  obtain ⟨job, p⟩ := r
  cases p with
  | done => rfl
  | op o rest =>
    cases o with
    | session x o =>
      cases o with
      | isClosed => exact nomatch h.1
      | _ => rfl
    | _ => rfl

/-- The server, with what it has received for each session and what each task was told when
it asked whether its session is closed. -/
structure Observed where
  server : Server
  received : SessionId → Bytes := fun _ => []
  asked : List (Task × Bool) := []

/-- The packets of the session whose task has not asked yet. -/
def Server.waiting (s : Server) (x : SessionId) : List Task :=
  (s.pool.tasks.map (·.task) ++ s.pool.workers.filterMap Worker.asking).filter (·.session == x)

namespace Observed

def hears (w : Observed) (a : Action) : SessionId → Bytes :=
  match w.server.reads a with
  | none => w.received
  | some (fd, recvs) =>
    match w.server.sessions fd with
    | none => w.received
    | some x => Function.update w.received x (w.received x ++ ClientSession.received recvs)

def asks (s : Server) : Action → List (Task × Bool)
  | .worker i =>
    match s.pool.workers[i]? with
    | some (.running ⟨job, .op (.session x .isClosed) _⟩) => [(job.task, (s.obj x).closed)]
    | _ => []
  | _ => []

def step (w : Observed) (a : Action) : Option Observed :=
  (w.server.step a).map fun s =>
    { server := s, received := w.hears a, asked := w.asked ++ asks w.server a }

/-- The packets of the session that were dispatched, and those that were dropped. -/
def dispatched (w : Observed) (x : SessionId) : List Task :=
  (w.asked.filter fun e => e.1.session == x && !e.2).map (·.1)

def dropped (w : Observed) (x : SessionId) : List Task :=
  (w.asked.filter fun e => e.1.session == x && e.2).map (·.1)

/-- Every packet received is dispatched once, dropped once or still to come; it is dropped
only if the session was closed. -/
def Executed (w : Observed) (x : SessionId) : Prop :=
  packets.refuses tooLarge (w.received x) = false →
    (w.dispatched x ++ w.dropped x ++ w.server.waiting x).Perm
      ((packets.split (w.received x)).1.map (toTask x)) ∧
    ((w.server.obj x).closed = false → w.dropped x = [])

end Observed

namespace Server

variable {s t m : Server} {fd : Fd} {x : SessionId}

/-- The tasks and what the sessions have read stay; sessions may be closed or leave the map. -/
structure Still (s t : Server) : Prop where
  pool : t.pool = s.pool
  phase : t.phase = s.phase
  next : t.shared.next = s.shared.next
  sessions : ∀ fd x, t.sessions fd = some x → s.sessions fd = some x
  assembler : ∀ x, (t.obj x).assembler = (s.obj x).assembler
  closed : ∀ x, (t.obj x).closed = false → (s.obj x).closed = false

theorem Still.of_backend (backend : t.toBackend = s.toBackend) (phase : t.phase = s.phase)
    (sessions : t.sessions = s.sessions) : Still s t where
  pool := by rw [backend]
  phase := phase
  next := by rw [backend]
  sessions fd x hx := sessions ▸ hx
  assembler x := by rw [obj, obj, backend]
  closed x := by rw [obj, obj, backend]; exact id

theorem Still.refl (s : Server) : Still s s := .of_backend rfl rfl rfl

theorem Still.trans (h : Still s m) (h' : Still m t) : Still s t where
  pool := h'.pool.trans h.pool
  phase := h'.phase.trans h.phase
  next := h'.next.trans h.next
  sessions fd x hx := h.sessions fd x (h'.sessions fd x hx)
  assembler x := (h'.assembler x).trans (h.assembler x)
  closed x hx := h.closed x (h'.closed x hx)

/-- An update of one object that does not read and does not open it again. -/
theorem still_setSession (c : ClientSession) (epoll : Fd → Option EpollMask) (openFds : Fd → Bool)
    (assembler : c.assembler = (s.obj x).assembler)
    (closed : c.closed = false → (s.obj x).closed = false) :
    Still s { s with shared := s.shared.setSession x c, epoll := epoll, openFds := openFds } where
  pool := rfl
  phase := rfl
  next := rfl
  sessions _ _ hx := hx
  assembler := update_field (·.assembler) assembler
  closed y hy := by
    by_cases e : y = x
    · subst e
      exact closed (by simpa [obj, Shared.setSession] using hy)
    · simpa [obj, Shared.setSession, e] using hy

theorem closeClient_still (s : Server) (fd : Fd) : Still s (s.closeClient fd) := by
  cases hx : s.sessions fd with
  | none =>
    rw [closeClient_none hx]
    exact .refl s
  | some x =>
    obtain ⟨epoll, openFds, e⟩ := closeClient_eq hx
    rw [e]
    refine ⟨rfl, rfl, rfl, fun g y hy => ?_, update_field (·.assembler) rfl, fun y hy => ?_⟩
    · simp only [Function.update_apply] at hy
      split at hy
      · cases hy
      · exact hy
    · by_cases e : y = x
      · simp [obj, e] at hy
      · simpa [obj, e] using hy

theorem deferClose_still (s : Server) (fd : Fd) : Still s (s.deferClose fd) := by
  cases hx : s.sessions fd with
  | none =>
    simp only [deferClose, hx]
    exact .of_backend rfl rfl rfl
  | some x =>
    obtain ⟨epoll, openFds, e⟩ := deferClose_eq hx
    rw [e]
    have closes := still_setSession (s := s) (x := x) { s.obj x with closed := true } epoll openFds
      rfl (by simp)
    exact closes.trans (.of_backend rfl rfl rfl)

theorem closeOrDefer_still (s : Server) (fd : Fd) : Still s (s.closeOrDefer fd) := by
  unfold closeOrDefer
  split
  · exact s.deferClose_still fd
  · exact s.closeClient_still fd

theorem onWrite_still (s : Server) (fd : Fd) (sends : List SendResult) :
    Still s (s.onWrite fd sends) := by
  unfold onWrite
  cases hx : s.sessions fd with
  | none => exact .refl s
  | some x =>
    obtain ⟨sender, epoll, e⟩ := handleWrite_eq s x sends
    have written : Still s (s.handleWrite x sends) := by
      rw [e]
      exact still_setSession _ epoll s.openFds rfl id
    simp only
    split
    · exact written.trans (closeClient_still _ fd)
    · exact written

theorem requestCloseClient_still (s : Server) (fd : Fd) (origin : SessionId) :
    Still s (s.requestCloseClient fd origin) := by
  unfold requestCloseClient
  cases hx : s.sessions fd with
  | none => exact .refl s
  | some x =>
    simp only
    split
    · refine Still.trans ?_ ((deferClose_still { s with
        record := { s.record with closed := s.record.closed ++ [(origin, x)] } } fd).trans ?_)
      · exact .of_backend rfl rfl rfl
      · exact .of_backend rfl rfl rfl
    · refine Still.trans ?_ (closeClient_still _ fd)
      exact .of_backend rfl rfl rfl

theorem onTaskDone_still (s : Server) (fd : Fd) : Still s (s.onTaskDone fd) := by
  unfold onTaskDone
  split
  · exact .refl s
  · simp only
    split
    · refine Still.trans ?_ (closeClient_still _ fd)
      exact .of_backend rfl rfl rfl
    · exact .of_backend rfl rfl rfl

theorem processCommand_still (s : Server) (k : Kernel) (q : Queued) :
    Still s (s.processCommand k q) := by
  unfold processCommand
  split
  · split
    · exact .refl s
    · split
      · exact .refl s
      · rename_i x _ _
        obtain ⟨sender, epoll, e⟩ := sendRawDirect_eq s x q.cmd.data k.sends
        have kept := still_setSession (s := s) (x := x) { s.obj x with sender := sender } epoll
          s.openFds rfl id
        rw [e]
        exact kept.trans (.of_backend rfl rfl rfl)
  · exact s.requestCloseClient_still _ _
  · exact s.onTaskDone_still _

/-- The tasks of a read are submitted before anything is closed. -/
theorem onRead_still (hx : s.sessions fd = some x) (running : s.pool.stopping = false)
    (recvs : List RecvResult) :
    let (assembler, tasks, close) := ClientSession.handleRead x recvs (s.obj x).assembler
    ∃ m : Server, Still m (s.onRead fd recvs) ∧
      m.pool = { s.pool with tasks := s.pool.tasks ++ tasks.map (⟨fd, ·⟩) } ∧
      m.shared.next = s.shared.next ∧ m.sessions = s.sessions ∧
      m.shared.objects = Function.update s.shared.objects x
        { s.obj x with assembler := assembler, closed := (s.obj x).closed || close } := by
  obtain ⟨epoll, openFds, read⟩ := handleRead_eq s x recvs
  simp only [onRead, hx, read]
  generalize ClientSession.handleRead x recvs (s.obj x).assembler = result
  obtain ⟨assembler, tasks, close⟩ := result
  let reading : Server := { s with
    shared := s.shared.setSession x
      { s.obj x with assembler := assembler, closed := (s.obj x).closed || close }
    epoll := epoll
    openFds := openFds }
  obtain ⟨inFlight, pool, e, -⟩ := submitAll_pool fd reading tasks
  have going : reading.pool.stopping = false := running
  have submitted : (tasks.foldl (submitTask fd) reading).pool = _ := submitAll_tasks going tasks
  generalize tasks.foldl (submitTask fd) reading = m at e submitted
  refine ⟨m, ?_, submitted, ?_, ?_, ?_⟩
  · split
    · exact m.closeOrDefer_still fd
    · exact .refl m
  · rw [e]
    rfl
  · rw [e]
  · rw [e]
    rfl

end Server

namespace Observed

open Server

/-- The packets of the session about which a worker has asked. -/
def askedOf (w : Observed) (x : SessionId) : List Task :=
  (w.asked.map (·.1)).filter (·.session == x)

structure ExecInv (w : Observed) : Prop where
  going : w.server.pool.stopping = true → w.server.phase = .stopped
  known : ∀ fd x, w.server.sessions fd = some x → x < w.server.shared.next
  fresh : ∀ x, w.server.shared.next ≤ x → w.received x = []
  tasks : ∀ (i : Nat) (r : Running), w.server.pool.workers[i]? = some (.running r) → r.Tasked
  rest : ∀ x, packets.refuses tooLarge (w.received x) = false →
    (w.server.obj x).assembler.readBuffer = (packets.split (w.received x)).2
  counted : ∀ x, packets.refuses tooLarge (w.received x) = false →
    (w.askedOf x ++ w.server.waiting x).Perm ((packets.split (w.received x)).1.map (toTask x))
  told : ∀ e ∈ w.asked, e.2 = true → (w.server.obj e.1.session).closed = true

variable {s t : Server} {x : SessionId} {received : SessionId → Bytes} {asked : List (Task × Bool)}

theorem waiting_of_pool (same : t.pool = s.pool) (x : SessionId) :
    t.waiting x = s.waiting x := by
  simp only [Server.waiting, same]

theorem ExecInv.still (h : ExecInv ⟨s, received, asked⟩) (same : Still s t) :
    ExecInv ⟨t, received, asked⟩ where
  going stopping := same.phase.trans (h.going (same.pool ▸ stopping))
  known fd x hx := by
    have := h.known fd x (same.sessions fd x hx)
    simp only [same.next]
    exact this
  fresh x hx := h.fresh x (same.next ▸ hx)
  tasks i r hr := h.tasks i r (same.pool ▸ hr)
  rest x fits := (congrArg PacketAssembler.readBuffer (same.assembler x)).trans (h.rest x fits)
  counted x fits := by
    rw [waiting_of_pool same.pool]
    exact h.counted x fits
  told e he closed := by
    by_contra reopened
    exact absurd (h.told e he closed) (by simp [same.closed _ (by simpa using reopened)])

/-- Nothing has been received for a session that is new. -/
theorem ExecInv.nothing_yet (h : ExecInv ⟨s, received, asked⟩) {x : SessionId}
    (new : s.shared.next ≤ x) : askedOf ⟨s, received, asked⟩ x = [] := by
  have empty := h.fresh x new
  simp only at empty
  have none : packets.refuses tooLarge (received x) = false := by rw [empty]; rfl
  have counted := h.counted x none
  simp only [empty] at counted
  exact (List.append_eq_nil_iff.mp (List.perm_nil.mp counted)).1

theorem ExecInv.accept (h : ExecInv ⟨s, received, asked⟩) (fd : Fd) :
    ExecInv ⟨s.onNewConnection fd, received, asked⟩ where
  going := h.going
  known g x hx := by
    simp only [onNewConnection, Function.update_apply] at hx ⊢
    split at hx
    · cases hx
      exact Nat.lt_succ_self _
    · exact Nat.lt_succ_of_lt (h.known g x hx)
  fresh x hx := h.fresh x (Nat.le_of_succ_le hx)
  tasks := h.tasks
  rest x fits := by
    simp only [onNewConnection, obj, Shared.setSession, Function.update_apply]
    split
    · rename_i new
      have empty := h.fresh x (by simp only [new, Nat.le_refl])
      simp only at empty
      rw [empty]
      rfl
    · exact h.rest x fits
  counted := h.counted
  told e he closed := by
    simp only [onNewConnection, obj, Shared.setSession, Function.update_apply]
    split
    · rename_i new
      have none := h.nothing_yet (x := e.1.session) (by rw [new])
      have here : e.1 ∈ askedOf ⟨s, received, asked⟩ e.1.session :=
        List.mem_filter.mpr ⟨List.mem_map_of_mem he, by simp⟩
      rw [none] at here
      cases here
    · exact h.told e he closed

/-- The tasks that are new are those of the session that was read. -/
theorem waiting_read (fd : Fd) {tasks : List Task} (own : ∀ task ∈ tasks, task.session = x)
    (pool : t.pool = { s.pool with tasks := s.pool.tasks ++ tasks.map (⟨fd, ·⟩) })
    (y : SessionId) : (t.waiting y).Perm (s.waiting y ++ if y = x then tasks else []) := by
  have new : tasks.filter (·.session == y) = if y = x then tasks else [] := by
    split
    · rename_i e
      exact List.filter_eq_self.mpr fun task h => by simp [own task h, e]
    · rename_i e
      exact List.filter_eq_nil_iff.mpr fun task h => by simp [own task h, Ne.symm e]
  simp only [Server.waiting, pool, List.map_append, List.map_map, List.filter_append, ← new]
  have same : tasks.map (Job.task ∘ fun task => ⟨fd, task⟩) = tasks := List.map_id' tasks
  rw [same, List.append_assoc, List.append_assoc]
  exact List.perm_append_comm.append_left _

/-- What had been received is not refused if it is not refused with more behind it. -/
theorem fits_before {more : Bytes} {y : SessionId} (fits : packets.refuses tooLarge
    (Function.update received x (received x ++ more) y) = false) :
    packets.refuses tooLarge (received y) = false := by
  by_cases e : y = x
  · subst e
    rw [Function.update_self, Cutter.refuses_append_eq_false] at fits
    exact fits.1
  · rwa [Function.update_of_ne e] at fits

theorem fits_behind {more : Bytes} (fits : packets.refuses tooLarge
    (Function.update received x (received x ++ more) x) = false) :
    packets.refuses tooLarge ((packets.split (received x)).2 ++ more) = false := by
  rw [Function.update_self, Cutter.refuses_append_eq_false] at fits
  exact fits.2

theorem ExecInv.read (h : ExecInv ⟨s, received, asked⟩) (running : s.pool.stopping = false)
    {fd : Fd} (hx : s.sessions fd = some x) (recvs : List RecvResult) :
    ExecInv ⟨s.onRead fd recvs,
      Function.update received x (received x ++ ClientSession.received recvs), asked⟩ := by
  have own := handleRead_session x recvs (s.obj x).assembler
  have serve (fits : packets.refuses tooLarge (received x) = false) :
      ClientSession.Serves x ((packets.split (received x)).2 ++ ClientSession.received recvs)
        (ClientSession.hangsUp recvs)
        (ClientSession.handleRead x recvs (s.obj x).assembler) := by
    have buffer := h.rest x fits
    have idle : frontPacket (s.obj x).assembler.readBuffer = none := by
      rw [buffer]
      exact packets.cut_rest _
    rw [← buffer]
    exact ClientSession.handleRead_serves idle
  obtain ⟨m, still, pool, next, sessions, objects⟩ := onRead_still hx running recvs
  generalize ClientSession.handleRead x recvs (s.obj x).assembler = result at *
  obtain ⟨assembler, tasks, close⟩ := result
  have stays : m.pool.stopping = false := by
    rw [pool]
    exact running
  have inv : ExecInv ⟨m,
      Function.update received x (received x ++ ClientSession.received recvs), asked⟩ := by
    constructor
    · intro stopping
      exact absurd (stays.symm.trans stopping) (by decide)
    · intro g y hy
      simp only [next]
      exact h.known g y (sessions ▸ hy)
    · intro y hy
      simp only [next] at hy
      have ne : y ≠ x := by
        rintro rfl
        exact absurd (h.known fd y hx) (Nat.not_lt.mpr hy)
      simp only [Function.update_of_ne ne]
      exact h.fresh y hy
    · intro i r hr
      simp only [pool] at hr
      exact h.tasks i r hr
    · intro y fits
      by_cases e : y = x
      · subst e
        have serves := serve (fits_before fits)
        simp only [obj, objects, Function.update_self]
        rw [Cutter.split_append]
        exact serves.rest (fits_behind fits)
      · have fits' := fits_before fits
        simp only [obj, objects, Function.update_of_ne e]
        exact h.rest y fits'
    · intro y fits
      have fits' := fits_before fits
      apply ((waiting_read fd own pool y).append_left _).trans
      rw [← List.append_assoc]
      have old : askedOf ⟨m, Function.update received x (received x ++
        ClientSession.received recvs), asked⟩ y = askedOf ⟨s, received, asked⟩ y := rfl
      rw [old]
      by_cases e : y = x
      · subst e
        have serves := serve fits'
        simp only [Function.update_self, if_true]
        rw [Cutter.split_append, List.map_append]
        apply (h.counted y fits').append
        have accepted : tasks = _ := serves.tasks
        rw [accepted, Cutter.accepted_eq_split (fits_behind fits)]
      · simp only [Function.update_of_ne e, if_neg e, List.append_nil]
        exact h.counted y fits'
    · intro e he closed
      have old := h.told e he closed
      simp only [obj, objects, Function.update_apply] at old ⊢
      split
      · rename_i e'
        rw [e'] at old
        simp [old]
      · exact old
  exact inv.still still

/-! ## The step of a worker -/

theorem asks_of_asking {i : Nat} {w : Worker Running} (here : s.pool.workers[i]? = some w)
    (quiet : w.asking = none) : asks s (.worker i) = [] := by
  simp only [asks, here]
  split
  · rename_i e
    cases e
    cases quiet
  · rfl

/-- A task that a worker lets go of or takes up. -/
theorem waiting_set {i : Nat} {w w' : Worker Running} (here : s.pool.workers[i]? = some w)
    (workers : t.pool.workers = s.pool.workers.set i w') (tasks : t.pool.tasks = s.pool.tasks)
    (y : SessionId) :
    (w.asking.toList.filter (·.session == y) ++ t.waiting y).Perm
      (w'.asking.toList.filter (·.session == y) ++ s.waiting y) := by
  have moved := (filterMap_set_perm Worker.asking (x := w') here).filter (·.session == y)
  simp only [List.filter_append] at moved
  simp only [Server.waiting, workers, tasks, List.filter_append]
  apply (List.perm_append_comm_assoc _ _ _).trans
  apply (moved.append_left _).trans
  exact List.perm_append_comm_assoc _ _ _

theorem waiting_begin {i : Nat} {job : Job} {rest : List Job}
    (here : s.pool.workers[i]? = some .waiting)
    (workers : t.pool.workers = s.pool.workers.set i (.running job.begin_))
    (head : s.pool.tasks = job :: rest) (tasks : t.pool.tasks = rest) (y : SessionId) :
    (t.waiting y).Perm (s.waiting y) := by
  have moved := filterMap_set_perm Worker.asking (x := .running job.begin_) here
  simp only [asking_begin, Option.toList_some] at moved
  simp only [Server.waiting, workers, tasks, head, List.map_cons]
  refine List.Perm.filter _ ((moved.append_left _).trans ?_)
  exact List.perm_append_comm_assoc _ _ _

/-- Neither before nor after the step is the worker about to ask. -/
theorem ExecInv.quiet (h : ExecInv ⟨s, received, asked⟩) {i : Nat} {w w' : Worker Running}
    {b : Backend} (here : s.pool.workers[i]? = some w) (before : w.asking = none)
    (after : w'.asking = none) (workers : b.pool.workers = s.pool.workers.set i w')
    (tasks : b.pool.tasks = s.pool.tasks) (stopping : b.pool.stopping = s.pool.stopping)
    (tasked : ∀ r, w' = .running r → r.Tasked) (next : b.shared.next = s.shared.next)
    (objects : ∀ x, (b.shared.objects x).assembler = (s.obj x).assembler ∧
      (b.shared.objects x).closed = (s.obj x).closed) :
    ExecInv ⟨{ s with toBackend := b }, received, asked ++ asks s (.worker i)⟩ := by
  rw [asks_of_asking here before, List.append_nil]
  constructor
  · intro stops
    exact h.going (stopping ▸ stops)
  · intro fd x hx
    simp only [next]
    exact h.known fd x hx
  · intro x hx
    simp only [next] at hx
    exact h.fresh x hx
  · intro j r hr
    simp only [workers] at hr
    rcases getElem?_set_cases hr with ⟨_, e⟩ | ⟨_, old⟩
    · exact tasked r e.symm
    · exact h.tasks j r old
  · intro x fits
    exact (congrArg PacketAssembler.readBuffer (objects x).1).trans (h.rest x fits)
  · intro x fits
    have same := waiting_set (t := { s with toBackend := b }) here workers tasks x
    rw [before, after] at same
    exact (same.append_left _).trans (h.counted x fits)
  · intro e he closed
    exact (objects e.1.session).2.trans (h.told e he closed)

/-- A task that asks is told whether its session is closed, and asks no more. -/
theorem ExecInv.asks (h : ExecInv ⟨s, received, asked⟩) {i : Nat} {job : Job} {x : SessionId}
    {rest : Bool → ServerProg Unit}
    (here : s.pool.workers[i]? = some (.running ⟨job, .op (.session x .isClosed) rest⟩)) :
    ExecInv ⟨{ s with
      pool := s.pool.setWorker i (.running ⟨job, rest (s.obj x).closed⟩) }, received,
      asked ++ [(job.task, (s.obj x).closed)]⟩ := by
  have fresh : Prog.op (.session x .isClosed) rest = taskBody job.task := by
    rcases h.tasks i _ here with fresh | never
    · exact fresh
    · exact nomatch never.1
  obtain rfl : x = job.task.session := by
    have first := Prog.first_eq (fresh.trans (taskBody_eq job.task))
    cases first
    rfl
  have goes := Prog.rest_eq (fresh.trans (taskBody_eq job.task)) (s.obj job.task.session).closed
  have never : NeverAsks (rest (s.obj job.task.session).closed) := by
    rw [goes]
    split
    · trivial
    · exact dispatch_neverAsks _ _ _
  refine ⟨h.going, h.known, h.fresh, fun j r hr => ?_, h.rest, fun y fits => ?_,
    fun e he closed => ?_⟩
  · rcases getElem?_set_cases hr with ⟨_, e⟩ | ⟨_, old⟩
    · cases e
      exact .inr never
    · exact h.tasks j r old
  · have moved := waiting_set (t := { s with
      pool := s.pool.setWorker i (.running ⟨job, rest (s.obj job.task.session).closed⟩) })
      here rfl rfl y
    have settled : (Worker.running ⟨job, rest (s.obj job.task.session).closed⟩).asking = none :=
      asking_of_neverAsks never
    rw [settled] at moved
    simp only [askedOf, List.map_append, List.filter_append, List.append_assoc]
    exact (moved.append_left _).trans (h.counted y fits)
  · cases List.mem_append.mp he with
    | inl old => exact h.told e old closed
    | inr new =>
      rw [List.mem_singleton.mp new] at closed ⊢
      exact closed

theorem ExecInv.worker (h : ExecInv ⟨s, received, asked⟩) {i : Nat} {b : Backend}
    (work : s.toBackend.worker i = some b) :
    ExecInv ⟨{ s with toBackend := b }, received, asked ++ Observed.asks s (.worker i)⟩ := by
  cases Backend.worker_cases work with
  | begins job tasks here head =>
    rw [asks_of_asking here rfl, List.append_nil]
    refine { h with going := h.going, tasks := fun j r hr => ?_, counted := fun x fits => ?_ }
    · rcases getElem?_set_cases hr with ⟨_, e⟩ | ⟨_, old⟩
      · cases e
        exact .inl rfl
      · exact h.tasks j r old
    · exact ((waiting_begin here rfl head rfl x).append_left _).trans (h.counted x fits)
  | exits here empty stopping =>
    exact h.quiet here rfl rfl rfl rfl rfl nofun rfl fun _ => ⟨rfl, rfl⟩
  | ends job here =>
    exact h.quiet here rfl rfl rfl rfl rfl nofun rfl fun _ => ⟨rfl, rfl⟩
  | rests here =>
    exact h.quiet here rfl rfl rfl rfl rfl nofun rfl fun _ => ⟨rfl, rfl⟩
  | executes job o rest here =>
    have tasked := h.tasks i _ here
    by_cases question : o.asksClosed = true
    · match o with
      | .session x .isClosed =>
        have told : Observed.asks s (.worker i) = [(job.task, (s.obj x).closed)] := by
          simp only [Observed.asks, here]
        rw [told]
        exact h.asks here
    · have never : NeverAsks (.op o rest) := by
        rcases tasked with fresh | never
        · have first := Prog.first_eq (fresh.trans (taskBody_eq job.task))
          exact absurd (by rw [first]; rfl) question
        · exact never
      refine h.quiet here (asking_of_neverAsks never) (asking_of_neverAsks (never.2 _)) rfl rfl rfl
        ?_ (Shared.exec_next s.shared o) fun x => ?_
      · rintro r e
        cases e
        exact .inr (never.2 _)
      · obtain ⟨userID, username, e⟩ := Shared.exec_objects s.shared o x
        rw [e]
        exact ⟨rfl, rfl⟩

/-! ## Every run -/

theorem ExecInv.step {w w' : Observed} {a : Action} (h : ExecInv w) (hs : w.step a = some w') :
    ExecInv w' := by
  obtain ⟨s, received, asked⟩ := w
  obtain ⟨t, moved, rfl⟩ := Option.map_eq_some_iff.mp hs
  have quiet (unread : s.reads a = none) (silent : Observed.asks s a = []) (inv : ExecInv
      ⟨t, received, asked⟩) :
      ExecInv ⟨t, hears ⟨s, received, asked⟩ a, asked ++ Observed.asks s a⟩ := by
    simp only [hears, unread, silent, List.append_nil]
    exact inv
  have planned (batch : List Item) (phase : Phase) (live : s.phase ≠ .stopped) :
      ExecInv ⟨{ s with batch := batch, phase := phase }, received, asked⟩ :=
    { h with going := fun stopping => absurd (h.going stopping) live }
  by_cases own : ∃ i, a = .worker i
  · obtain ⟨i, rfl⟩ := own
    obtain ⟨b, work, rfl⟩ := Option.map_eq_some_iff.mp moved
    exact h.worker work
  · have silent : Observed.asks s a = [] := by
      cases a with
      | worker i => exact absurd ⟨i, rfl⟩ own
      | _ => rfl
    cases step_effect moved with
    | worker i b is => exact absurd ⟨i, is⟩ own
    | plan batch phase live nothing unread => exact quiet unread silent (planned batch phase live)
    | stop nothing unread =>
      refine quiet unread silent { h with going := fun _ => rfl, tasks := h.tasks }
    | drain batch phase live empty nothing unread =>
      refine quiet unread silent { h with going := fun stopping => ?_ }
      exact absurd (h.going stopping) live
    | accept fd batch openFds epoll number free nothing unread =>
      refine quiet unread silent (ExecInv.accept ?_ fd)
      exact h.still (.of_backend rfl rfl rfl)
    | write fd batch sends number same unread =>
      refine quiet unread silent (ExecInv.still ?_ (onWrite_still _ fd sends))
      exact h.still (.of_backend rfl rfl rfl)
    | error fd batch same unread =>
      refine quiet unread silent (ExecInv.still ?_ (closeOrDefer_still _ fd))
      exact h.still (.of_backend rfl rfl rfl)
    | command k q commands head same unread =>
      refine quiet unread silent (ExecInv.still ?_ (processCommand_still _ k q))
      exact h.still (.of_backend rfl rfl rfl)
    | read fd batch recvs loop same reads =>
      have taken : ExecInv ⟨{ s with batch := batch }, received, asked⟩ :=
        h.still (.of_backend rfl rfl rfl)
      have running : s.pool.stopping = false := by
        cases stopping : s.pool.stopping with
        | false => rfl
        | true => exact nomatch loop.symm.trans (h.going stopping)
      simp only [hears, reads, silent, List.append_nil]
      cases hx : s.sessions fd with
      | none =>
        have nobody : ({ s with batch := batch } : Server).onRead fd recvs =
            { s with batch := batch } := by simp only [onRead, hx]
        rw [nobody]
        exact taken
      | some x => exact taken.read running hx recvs

/-- Each task that has asked was dispatched or dropped. -/
theorem dispatched_dropped (w : Observed) (x : SessionId) :
    (w.dispatched x ++ w.dropped x).Perm (w.askedOf x) := by
  have parts := (List.filter_append_perm (fun e : Task × Bool => !e.2)
    (w.asked.filter fun e => e.1.session == x)).map (·.1)
  simp only [List.filter_filter, List.map_append, Bool.not_not] at parts
  simp only [dispatched, dropped, askedOf, List.filter_map, Function.comp_def]
  simpa only [Bool.and_comm] using parts

theorem ExecInv.executed {w : Observed} (h : ExecInv w) (x : SessionId) : w.Executed x := by
  intro fits
  refine ⟨((w.dispatched_dropped x).append_right _).trans (h.counted x fits), fun opened => ?_⟩
  simp only [dropped, List.map_eq_nil_iff, List.filter_eq_nil_iff]
  intro e he closed
  simp only [Bool.and_eq_true, beq_iff_eq] at closed
  have told := h.told e he closed.2
  rw [closed.1, opened] at told
  cases told

/-- The server before anything has happened. -/
def start (tables : Tables) (numThreads : Nat) (listenFd eventFd : Fd) : Observed :=
  { server := Server.start tables numThreads listenFd eventFd }

theorem execInv_start (tables : Tables) (numThreads : Nat) (listenFd eventFd : Fd) :
    ExecInv (start tables numThreads listenFd eventFd) where
  going := nofun
  known := nofun
  fresh _ _ := rfl
  tasks i r hr := by
    have := List.eq_of_mem_replicate (List.mem_of_getElem? hr)
    cases this
  rest _ _ := rfl
  counted x _ := by
    have none : (List.replicate (max numThreads 1) (Worker.waiting : Worker Running)).filterMap
        Worker.asking = [] := by simp [List.filterMap_replicate, Worker.asking]
    simp only [askedOf, Server.waiting, start, Server.start, ThreadPool.start, none]
    exact .refl _
  told := nofun

end Observed

end Cvcn
