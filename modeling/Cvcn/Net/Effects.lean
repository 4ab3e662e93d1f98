import Cvcn.Net.EventLoop

/-!
# What the operations of the session manager do

One equation for each operation that branches inside: its result as an update of the
state it was called in. The registrations with epoll and the kernel's table of open numbers
are left as they come out, since nothing that follows depends on them.
-/

namespace Cvcn

namespace Server

variable {s t : Server} {fd : Fd} {x : SessionId}

/-- The number the session was created with. -/
def fdOf (s : Server) (x : SessionId) : Fd := (s.obj x).fileDescriptor

/-- The registry once the session has been unregistered under its user. -/
def registryWithout (s : Server) (x : SessionId) : Int → Option SessionId :=
  if (s.obj x).userID ≠ -1 ∧ s.shared.byUserID (s.obj x).userID = some x then
    Function.update s.shared.byUserID (s.obj x).userID none
  else s.shared.byUserID

theorem modifyFileDescriptorEvents_eq (s : Server) (fd : Fd) (mask : Option EpollMask) :
    ∃ epoll, s.modifyFileDescriptorEvents fd mask = { s with epoll := epoll } := by
  unfold modifyFileDescriptorEvents
  split
  · exact ⟨_, rfl⟩
  · exact ⟨s.epoll, rfl⟩

theorem closeSession_eq (s : Server) (x : SessionId) :
    ∃ epoll openFds, s.closeSession x = { s with
      shared := s.shared.setSession x { s.obj x with closed := true }
      epoll := epoll
      openFds := openFds } := by
  unfold closeSession
  split
  · rename_i closed
    have same : ({ s.obj x with closed := true } : ClientSession) = s.shared.objects x := by
      rw [← closed]
      rfl
    refine ⟨s.epoll, s.openFds, ?_⟩
    rw [same, Shared.setSession, Function.update_eq_self]
  · exact ⟨_, _, rfl⟩

theorem sendRawDirect_eq (s : Server) (x : SessionId) (data : Bytes) (sends : List SendResult) :
    ∃ sender epoll, s.sendRawDirect x data sends = { s with
      shared := s.shared.setSession x { s.obj x with sender := sender }
      epoll := epoll } := by
  obtain ⟨epoll, h⟩ := modifyFileDescriptorEvents_eq
    (s.setSession x { s.obj x with sender := ((s.obj x).sender.sendPacket data sends).1 })
    (s.obj x).fileDescriptor ((s.obj x).sender.sendPacket data sends).2
  exact ⟨_, epoll, h⟩

theorem handleWrite_eq (s : Server) (x : SessionId) (sends : List SendResult) :
    ∃ sender epoll, s.handleWrite x sends = { s with
      shared := s.shared.setSession x { s.obj x with sender := sender }
      epoll := epoll } := by
  obtain ⟨epoll, h⟩ := modifyFileDescriptorEvents_eq
    (s.setSession x { s.obj x with sender := ((s.obj x).sender.handleWrite sends).1 })
    (s.obj x).fileDescriptor ((s.obj x).sender.handleWrite sends).2
  exact ⟨_, epoll, h⟩

theorem extractTasks_session (x : SessionId) (rounds : Nat) (a : PacketAssembler) :
    ∀ task ∈ (ClientSession.extractTasks x rounds a).2.1, task.session = x := by
  induction rounds generalizing a with
  | zero => simp [ClientSession.extractTasks]
  | succ rounds ih =>
    unfold ClientSession.extractTasks
    cases a.extractPacket with
    | none => simp
    | some packet =>
      obtain ⟨header, body, a'⟩ := packet
      simp only
      split
      · simp
      · simp only [List.mem_cons, forall_eq_or_imp, true_and]
        exact ih a'

/-- The tasks of a read are the session's own. -/
theorem handleRead_session (x : SessionId) (recvs : List RecvResult) (a : PacketAssembler) :
    ∀ task ∈ (ClientSession.handleRead x recvs a).2.1, task.session = x := by
  induction recvs generalizing a with
  | nil => simp [ClientSession.handleRead]
  | cons r recvs ih =>
    cases r with
    | again => simp [ClientSession.handleRead]
    | error => simp [ClientSession.handleRead]
    | bytes data =>
      cases data with
      | nil => simp [ClientSession.handleRead]
      | cons b data =>
        have first := extractTasks_session x (a.appendData (b :: data)).readBuffer.length
          (a.appendData (b :: data))
        simp only [ClientSession.handleRead]
        split
        · exact first
        · intro task h
          cases List.mem_append.mp h with
          | inl h => exact first task h
          | inr h => exact ih _ task h

theorem handleRead_eq (s : Server) (x : SessionId) (recvs : List RecvResult) :
    ∃ epoll openFds, s.handleRead x recvs = ({ s with
        shared := s.shared.setSession x { s.obj x with
          assembler := (ClientSession.handleRead x recvs (s.obj x).assembler).1
          closed := (s.obj x).closed || (ClientSession.handleRead x recvs (s.obj x).assembler).2.2 }
        epoll := epoll
        openFds := openFds }, (ClientSession.handleRead x recvs (s.obj x).assembler).2.1) := by
  simp only [handleRead]
  generalize ClientSession.handleRead x recvs (s.obj x).assembler = result
  obtain ⟨assembler, tasks, close⟩ := result
  cases close with
  | false =>
    refine ⟨s.epoll, s.openFds, ?_⟩
    simp only [Bool.or_false]
    rfl
  | true =>
    obtain ⟨epoll, openFds, h⟩ :=
      (s.setSession x { s.obj x with assembler := assembler }).closeSession_eq x
    refine ⟨epoll, openFds, ?_⟩
    simp only [↓reduceIte, h]
    simp [setSession, Shared.setSession, obj]

theorem closeClient_none (h : s.sessions fd = none) : s.closeClient fd = s := by
  simp only [closeClient, h]

theorem closeClient_eq (h : s.sessions fd = some x) :
    ∃ epoll openFds, s.closeClient fd = { s with
      shared := { s.shared with
        objects := Function.update s.shared.objects x { s.obj x with closed := true, freed := true }
        byUserID := s.registryWithout x }
      epoll := epoll
      openFds := openFds
      sessions := Function.update s.sessions fd none
      inFlight := Function.update s.inFlight fd none
      record := { s.record with
        deleted := s.record.deleted ++ [(x, (s.inFlight fd).getD 0)] } } := by
  have unregister : (if (s.obj x).userID != -1 then s.unregisterUser (s.obj x).userID x else s) =
      { s with shared := { s.shared with byUserID := s.registryWithout x } } := by
    unfold registryWithout unregisterUser Shared.unregisterUser
    by_cases hu : (s.obj x).userID = -1
    · simp [hu]
    · by_cases hr : s.shared.byUserID (s.obj x).userID = some x <;> simp [hu, hr]
  obtain ⟨epoll, openFds, close⟩ := closeSession_eq
    { s with shared := { s.shared with byUserID := s.registryWithout x } } x
  refine ⟨epoll, openFds, ?_⟩
  simp only [closeClient, h, unregister, close]
  simp [deleteSession, setSession, Shared.setSession, obj]

/-- The session that is deleted is closed too. -/
theorem closeClient_obj_self (h : s.sessions fd = some x) :
    (s.closeClient fd).obj x = { s.obj x with closed := true, freed := true } := by
  obtain ⟨epoll, openFds, e⟩ := closeClient_eq h
  rw [e]
  simp [obj]

theorem closeClient_obj_of_ne (h : s.sessions fd = some x) {y : SessionId} (ne : y ≠ x) :
    (s.closeClient fd).obj y = s.obj y := by
  obtain ⟨epoll, openFds, e⟩ := closeClient_eq h
  rw [e]
  simp [obj, ne]

theorem closeClient_alive (h : s.sessions fd = some x) (y : SessionId) :
    (s.closeClient fd).Alive y ↔ y ≠ x ∧ s.Alive y := by
  have next : (s.closeClient fd).shared.next = s.shared.next := by
    obtain ⟨epoll, openFds, e⟩ := closeClient_eq h
    rw [e]
  by_cases hy : y = x
  · subst hy
    simp [Alive, closeClient_obj_self h]
  · simp [Alive, next, closeClient_obj_of_ne h hy, hy]

theorem deferClose_eq (h : s.sessions fd = some x) :
    ∃ epoll openFds, s.deferClose fd = { s with
      pendingDelete := Function.update s.pendingDelete fd true
      shared := s.shared.setSession x { s.obj x with closed := true }
      epoll := epoll
      openFds := openFds } := by
  obtain ⟨epoll, openFds, close⟩ := closeSession_eq
    { s with pendingDelete := Function.update s.pendingDelete fd true } x
  refine ⟨epoll, openFds, ?_⟩
  simp only [deferClose, h, close]
  rfl

/-- The loop over the tasks of a read. -/
theorem submitAll_eq (running : s.pool.stopping = false) {n : Nat} (hn : s.inFlight fd = some n)
    (tasks : List Task) :
    tasks.foldl (submitTask fd) s = { s with
      inFlight := Function.update s.inFlight fd (some (n + tasks.length))
      pool := { s.pool with tasks := s.pool.tasks ++ tasks.map (⟨fd, ·⟩) } } := by
  induction tasks generalizing s n with
  | nil =>
    have same : Function.update s.inFlight fd (some (n + 0)) = s.inFlight := by
      rw [Nat.add_zero, ← hn, Function.update_eq_self]
    simp only [List.foldl_nil, List.length_nil, same, List.map_nil, List.append_nil]
  | cons task tasks ih =>
    have first : s.submitTask fd task = { s with
        inFlight := Function.update s.inFlight fd (some (n + 1))
        pool := { s.pool with tasks := s.pool.tasks ++ [⟨fd, task⟩] } } := by
      simp [submitTask, hn, Backend.submit, ThreadPool.submit, running]
    rw [List.foldl_cons, first, ih (n := n + 1)]
    · simp [Nat.add_comm, Nat.add_left_comm]
    · exact running
    · simp

theorem submitAll_pool (fd : Fd) (s : Server) (tasks : List Task) :
    ∃ inFlight pool, tasks.foldl (submitTask fd) s = { s with inFlight := inFlight, pool := pool } ∧
      pool.workers = s.pool.workers ∧
      (∀ job ∈ pool.tasks, job ∈ s.pool.tasks ∨ job.task ∈ tasks) ∧
      (inFlight fd).getD 0 = (s.inFlight fd).getD 0 + tasks.length := by
  induction tasks generalizing s with
  | nil => exact ⟨_, _, rfl, rfl, fun _ => .inl, rfl⟩
  | cons task tasks ih =>
    obtain ⟨inFlight, pool, e, workers, queued, count⟩ := ih (s.submitTask fd task)
    refine ⟨inFlight, pool, ?_, ?_, ?_, ?_⟩
    · rw [List.foldl_cons, e]
      rfl
    · rw [workers]
      simp only [submitTask, Backend.submit, ThreadPool.submit]
      split <;> rfl
    · intro job hj
      cases queued job hj with
      | inl old =>
        simp only [submitTask, Backend.submit, ThreadPool.submit] at old
        split at old
        · exact .inl old
        · cases List.mem_append.mp old with
          | inl old => exact .inl old
          | inr new =>
            rw [List.mem_singleton.mp new]
            exact .inr List.mem_cons_self
      | inr new => exact .inr (List.mem_cons_of_mem task new)
    · have first : ((s.submitTask fd task).inFlight fd).getD 0 = (s.inFlight fd).getD 0 + 1 := by
        simp [submitTask]
      rw [count, first, List.length_cons]
      omega

theorem submitAll_tasks (running : s.pool.stopping = false) (tasks : List Task) :
    (tasks.foldl (submitTask fd) s).pool =
      { s.pool with tasks := s.pool.tasks ++ tasks.map (⟨fd, ·⟩) } := by
  induction tasks generalizing s with
  | nil => simp
  | cons task tasks ih =>
    have first : (s.submitTask fd task).pool =
        { s.pool with tasks := s.pool.tasks ++ [⟨fd, task⟩] } := by
      simp [submitTask, Backend.submit, ThreadPool.submit, running]
    rw [List.foldl_cons, ih (by rw [first]; exact running), first]
    simp

/-! ## Which session they delete -/

/-- The session that `closeOrDefer` deletes, if it does not defer. -/
def closing (s : Server) (fd : Fd) : Option SessionId :=
  if (s.inFlight fd).getD 0 > 0 then none else s.sessions fd

/-- A read that brings no task and leaves the session closed. -/
def readDeletes (s : Server) (fd : Fd) (recvs : List RecvResult) : Option SessionId :=
  match s.sessions fd with
  | none => none
  | some x =>
    let (_, tasks, close) := ClientSession.handleRead x recvs (s.obj x).assembler
    if ((s.obj x).closed || close) && tasks.isEmpty then s.closing fd else none

def writeDeletes (s : Server) (fd : Fd) : Option SessionId :=
  (s.sessions fd).filter fun x => (s.obj x).closed

/-- The last `TaskDone` of a number in `pendingDelete`. -/
def taskDoneDeletes (s : Server) (fd : Fd) : Option SessionId :=
  match s.inFlight fd with
  | none => none
  | some n => if n - 1 = 0 ∧ s.pendingDelete fd then s.sessions fd else none

def commandDeletes (s : Server) (q : Queued) : Option SessionId :=
  match q.cmd.type with
  | .sendRaw => none
  | .close => s.closing q.cmd.fd
  | .taskDone => s.taskDoneDeletes q.cmd.fd

def itemDeletes (s : Server) (k : Kernel) : Item → Option SessionId
  | .writable fd => s.writeDeletes fd
  | .event e =>
    if e.failed then if e.fd = s.listenFd then none else s.closing e.fd
    else if e.readable && e.fd != s.listenFd && e.fd != s.eventFd then s.readDeletes e.fd k.recvs
    else none

/-- The session that the next step deletes. -/
def deletes (s : Server) : Action → Option SessionId
  | .main k =>
    match s.commands, s.phase, s.batch with
    | q :: _, _, _ => s.commandDeletes q
    | [], .eventLoop, item :: _ => s.itemDeletes k item
    | _, _, _ => none
  | _ => none

/-! ## A new session -/

theorem onNewConnection_obj (s : Server) (fd : Fd) (y : SessionId) :
    (s.onNewConnection fd).obj y =
      if y = s.shared.next then { fileDescriptor := fd } else s.obj y := by
  simp [onNewConnection, obj, Shared.setSession, Function.update_apply]

theorem onNewConnection_alive (s : Server) (fd : Fd) (y : SessionId) :
    (s.onNewConnection fd).Alive y ↔ y = s.shared.next ∨ s.Alive y := by
  have next : (s.onNewConnection fd).shared.next = s.shared.next + 1 := rfl
  unfold Alive
  rw [onNewConnection_obj, next]
  split
  · rename_i e
    simp [e]
  · rename_i e
    simp only [e, false_or]
    constructor
    · rintro ⟨h, freed⟩
      exact ⟨Nat.lt_of_le_of_ne (Nat.le_of_lt_succ h) e, freed⟩
    · rintro ⟨h, freed⟩
      exact ⟨Nat.lt_succ_of_lt h, freed⟩

theorem Alive.onNewConnection_obj {y : SessionId} (h : s.Alive y) (fd : Fd) :
    (s.onNewConnection fd).obj y = s.obj y := by
  rw [Server.onNewConnection_obj, if_neg]
  exact Nat.ne_of_lt h.1

theorem Alive.onNewConnection_fdOf {y : SessionId} (h : s.Alive y) (fd : Fd) :
    (s.onNewConnection fd).fdOf y = s.fdOf y :=
  congrArg ClientSession.fileDescriptor (h.onNewConnection_obj fd)

/-! ## What they leave alone -/

/-- The workers, the database and the identities of the sessions are as they were; a task that
is new is for a session in the map. -/
structure Frame (s t : Server) : Prop where
  workers : t.pool.workers = s.pool.workers
  tasks : ∀ job ∈ t.pool.tasks, job ∈ s.pool.tasks ∨ ∃ fd, s.sessions fd = some job.task.session
  conn : t.shared.conn = s.shared.conn
  next : t.shared.next = s.shared.next
  user : ∀ x, (t.obj x).userID = (s.obj x).userID
  username : ∀ x, (t.obj x).username = (s.obj x).username
  fdOf : ∀ x, t.fdOf x = s.fdOf x

/-- No session is deleted. -/
structure Kept (s t : Server) : Prop extends Frame s t where
  sessions : t.sessions = s.sessions
  byUserID : t.shared.byUserID = s.shared.byUserID
  freed : ∀ x, (t.obj x).freed = (s.obj x).freed

/-- The session of the number is deleted, and it has been unregistered. -/
structure Removed (s t : Server) (fd : Fd) (x : SessionId) : Prop extends Frame s t where
  here : s.sessions fd = some x
  sessions : t.sessions = Function.update s.sessions fd none
  byUserID : t.shared.byUserID = s.registryWithout x
  freed : ∀ y, (t.obj y).freed = if y = x then true else (s.obj y).freed

/-- The session that is deleted from one state to the next. -/
inductive Deletes (s t : Server) : Option SessionId → Prop where
  | nothing (kept : Kept s t) : Deletes s t none
  | session {fd : Fd} {x : SessionId} (removed : Removed s t fd x) : Deletes s t (some x)

/-- The commands and what has been recorded of them are as they were. -/
structure SameCommands (s t : Server) : Prop where
  queue : t.shared.queue = s.shared.queue
  commands : t.commands = s.commands
  sent : t.record.sent = s.record.sent
  closed : t.record.closed = s.record.closed
  deferredBy : t.deferredBy = s.deferredBy

/-- All that is left of a state when a session is deleted. -/
structure Trims (s t : Server) (o : Option SessionId) : Prop extends SameCommands s t where
  deletes : Deletes s t o

variable {o : Option SessionId}

theorem Deletes.frame (h : Deletes s t o) : Frame s t := by
  cases h with
  | nothing kept => exact kept.toFrame
  | session removed => exact removed.toFrame

theorem Deletes.entry (h : Deletes s t o) {userID : Int} {x : SessionId}
    (entry : t.shared.byUserID userID = some x) : s.shared.byUserID userID = some x := by
  cases h with
  | nothing kept => rwa [kept.byUserID] at entry
  | session removed =>
    rw [removed.byUserID, registryWithout] at entry
    split at entry
    · rw [Function.update_apply] at entry
      split at entry
      · cases entry
      · exact entry
    · exact entry

theorem Deletes.freed (h : Deletes s t o) (x : SessionId) :
    (t.obj x).freed = if o = some x then true else (s.obj x).freed := by
  cases h with
  | nothing kept => exact kept.freed x
  | session removed =>
    rw [removed.freed]
    simp only [Option.some.injEq, eq_comm]

theorem Deletes.alive (h : Deletes s t o) {x : SessionId} (here : t.Alive x) : s.Alive x := by
  have freed := h.freed x
  rw [here.2] at freed
  refine ⟨by rw [← h.frame.next]; exact here.1, ?_⟩
  split at freed
  · cases freed
  · exact freed.symm

/-- A session that is not the one deleted stays. -/
theorem Deletes.stays (h : Deletes s t o) {x : SessionId} (here : s.Alive x) (other : o ≠ some x) :
    t.Alive x := by
  constructor
  · rw [h.frame.next]
    exact here.1
  · rw [h.freed, if_neg other]
    exact here.2

/-- The numbers, the batch and the record are nothing to it. -/
theorem Kept.of_backend (backend : t.toBackend = s.toBackend) (sessions : t.sessions = s.sessions) :
    Kept s t where
  workers := by rw [backend]
  tasks job hj := .inl (by rwa [backend] at hj)
  conn := by rw [backend]
  next := by rw [backend]
  user x := by rw [obj, obj, backend]
  username x := by rw [obj, obj, backend]
  fdOf x := by rw [Server.fdOf, Server.fdOf, obj, obj, backend]
  sessions := sessions
  byUserID := by rw [backend]
  freed x := by rw [obj, obj, backend]

theorem Kept.refl (s : Server) : Kept s s := .of_backend rfl rfl

theorem Trims.refl (s : Server) : Trims s s none :=
  ⟨⟨rfl, rfl, rfl, rfl, rfl⟩, .nothing (.refl s)⟩

theorem Frame.trans {m : Server} (h : Frame s m) (h' : Frame m t)
    (sessions : m.sessions = s.sessions) : Frame s t where
  workers := h'.workers.trans h.workers
  tasks job hj := by
    cases h'.tasks job hj with
    | inl old => exact h.tasks job old
    | inr new =>
      rw [sessions] at new
      exact .inr new
  conn := h'.conn.trans h.conn
  next := h'.next.trans h.next
  user x := (h'.user x).trans (h.user x)
  username x := (h'.username x).trans (h.username x)
  fdOf x := (h'.fdOf x).trans (h.fdOf x)

theorem Kept.trans {m : Server} (h : Kept s m) (h' : Kept m t) : Kept s t where
  toFrame := h.toFrame.trans h'.toFrame h.sessions
  sessions := h'.sessions.trans h.sessions
  byUserID := h'.byUserID.trans h.byUserID
  freed x := (h'.freed x).trans (h.freed x)

theorem Kept.deletes {m : Server} (h : Kept s m) (h' : Deletes m t o) : Deletes s t o := by
  cases h' with
  | nothing kept => exact .nothing (h.trans kept)
  | @session fd x removed =>
    have here : Removed s t fd x := by
      refine ⟨h.toFrame.trans removed.toFrame h.sessions, ?_, ?_, ?_, fun y => ?_⟩
      · rw [← h.sessions]
        exact removed.here
      · rw [removed.sessions, h.sessions]
      · rw [removed.byUserID, registryWithout, registryWithout, h.user, h.byUserID]
      · rw [removed.freed, h.freed]
    exact .session here

theorem SameCommands.trans {m : Server} (h : SameCommands s m) (h' : SameCommands m t) :
    SameCommands s t where
  queue := h'.queue.trans h.queue
  commands := h'.commands.trans h.commands
  sent := h'.sent.trans h.sent
  closed := h'.closed.trans h.closed
  deferredBy := h'.deferredBy.trans h.deferredBy

/-- What is done before a deletion. -/
theorem Trims.andThen {m : Server} (h : Trims s m none) (h' : Trims m t o) : Trims s t o := by
  refine ⟨h.toSameCommands.trans h'.toSameCommands, ?_⟩
  cases h.deletes with
  | nothing kept => exact kept.deletes h'.deletes

theorem update_field {β : Type} (f : ClientSession → β) {objects : SessionId → ClientSession}
    {c : ClientSession} (hf : f c = f (objects x)) (y : SessionId) :
    f (Function.update objects x c y) = f (objects y) := by
  by_cases hy : y = x
  · subst hy
    rw [Function.update_self, hf]
  · rw [Function.update_of_ne hy]

/-- An update of one object that leaves its identity and its life alone. -/
theorem kept_setSession (c : ClientSession) (epoll : Fd → Option EpollMask) (openFds : Fd → Bool)
    (number : c.fileDescriptor = (s.obj x).fileDescriptor) (user : c.userID = (s.obj x).userID)
    (name : c.username = (s.obj x).username) (freed : c.freed = (s.obj x).freed) :
    Kept s { s with shared := s.shared.setSession x c, epoll := epoll, openFds := openFds } :=
  ⟨⟨rfl, fun _ => .inl, rfl, rfl, update_field (·.userID) user, update_field (·.username) name,
    update_field (·.fileDescriptor) number⟩, rfl, rfl, update_field (·.freed) freed⟩

theorem closeClient_trims (s : Server) (fd : Fd) :
    Trims s (s.closeClient fd) (s.sessions fd) := by
  cases hx : s.sessions fd with
  | none =>
    rw [closeClient_none hx]
    exact .refl s
  | some x =>
    obtain ⟨epoll, openFds, e⟩ := closeClient_eq hx
    rw [e]
    refine ⟨⟨rfl, rfl, rfl, rfl, rfl⟩, .session ⟨⟨rfl, fun _ => .inl, rfl, rfl,
      update_field (·.userID) rfl, update_field (·.username) rfl,
      update_field (·.fileDescriptor) rfl⟩, hx, rfl, rfl, fun y => ?_⟩⟩
    by_cases hy : y = x
    · simp [obj, hy]
    · simp [obj, hy]

theorem deferClose_kept (s : Server) (fd : Fd) : Kept s (s.deferClose fd) := by
  cases hx : s.sessions fd with
  | none =>
    simp only [deferClose, hx]
    exact .of_backend rfl rfl
  | some x =>
    obtain ⟨epoll, openFds, e⟩ := deferClose_eq hx
    have kept := kept_setSession (s := s) (x := x) { s.obj x with closed := true } epoll openFds
      rfl rfl rfl rfl
    rw [e]
    exact kept.trans (.of_backend rfl rfl)

theorem deferClose_trims (s : Server) (fd : Fd) : Trims s (s.deferClose fd) none := by
  refine ⟨?_, .nothing (s.deferClose_kept fd)⟩
  cases hx : s.sessions fd with
  | none =>
    simp only [deferClose, hx]
    exact ⟨rfl, rfl, rfl, rfl, rfl⟩
  | some x =>
    obtain ⟨epoll, openFds, e⟩ := deferClose_eq hx
    rw [e]
    exact ⟨rfl, rfl, rfl, rfl, rfl⟩

theorem closeOrDefer_trims (s : Server) (fd : Fd) :
    Trims s (s.closeOrDefer fd) (s.closing fd) := by
  unfold closeOrDefer closing
  split
  · exact s.deferClose_trims fd
  · exact s.closeClient_trims fd

theorem onWrite_trims (s : Server) (fd : Fd) (sends : List SendResult) :
    Trims s (s.onWrite fd sends) (s.writeDeletes fd) := by
  unfold onWrite writeDeletes
  cases hx : s.sessions fd with
  | none => exact .refl s
  | some x =>
    obtain ⟨sender, epoll, e⟩ := handleWrite_eq s x sends
    have written : Trims s (s.handleWrite x sends) none := by
      rw [e]
      exact ⟨⟨rfl, rfl, rfl, rfl, rfl⟩,
        .nothing (kept_setSession _ epoll s.openFds rfl rfl rfl rfl)⟩
    have sessions : (s.handleWrite x sends).sessions fd = some x := by
      rw [e]
      exact hx
    have closed : ((s.handleWrite x sends).obj x).closed = (s.obj x).closed := by
      rw [e]
      simp [obj, Shared.setSession]
    simp only [closed, Option.filter_some]
    split
    · have last := (s.handleWrite x sends).closeClient_trims fd
      rw [sessions] at last
      exact written.andThen last
    · exact written

/-- The state of `onRead` before it looks whether the session is closed. -/
theorem onRead_eq (hx : s.sessions fd = some x) (recvs : List RecvResult) :
    let (_, tasks, close) := ClientSession.handleRead x recvs (s.obj x).assembler
    ∃ m, s.onRead fd recvs = (if (s.obj x).closed || close then m.closeOrDefer fd else m) ∧
      Trims s m none ∧ m.sessions fd = some x ∧
      (m.inFlight fd).getD 0 = (s.inFlight fd).getD 0 + tasks.length := by
  obtain ⟨epoll, openFds, read⟩ := handleRead_eq s x recvs
  have own := handleRead_session x recvs (s.obj x).assembler
  simp only [onRead, hx, read]
  generalize ClientSession.handleRead x recvs (s.obj x).assembler = result at own
  obtain ⟨assembler, tasks, close⟩ := result
  obtain ⟨inFlight, pool, e, workers, queued, count⟩ := submitAll_pool fd { s with
    shared := s.shared.setSession x
      { s.obj x with assembler := assembler, closed := (s.obj x).closed || close }
    epoll := epoll, openFds := openFds } tasks
  have kept := kept_setSession (s := s) (x := x)
    { s.obj x with assembler := assembler, closed := (s.obj x).closed || close } epoll openFds
    rfl rfl rfl rfl
  generalize tasks.foldl (submitTask fd) { s with
    shared := s.shared.setSession x
      { s.obj x with assembler := assembler, closed := (s.obj x).closed || close }
    epoll := epoll, openFds := openFds } = m at e
  have closed : (m.obj x).closed = ((s.obj x).closed || close) := by
    rw [e]
    simp [obj, Shared.setSession]
  refine ⟨m, by rw [closed], ?_, ?_, ?_⟩
  · rw [e]
    have new : ∀ job ∈ pool.tasks, job ∈ s.pool.tasks ∨
        ∃ fd, s.sessions fd = some job.task.session := by
      intro job hj
      cases queued job hj with
      | inl old => exact .inl old
      | inr new => exact .inr ⟨fd, by rw [own job.task new]; exact hx⟩
    exact ⟨⟨rfl, rfl, rfl, rfl, rfl⟩,
      .nothing
        ⟨⟨workers, new, rfl, rfl, kept.user, kept.username, kept.fdOf⟩, rfl, rfl, kept.freed⟩⟩
  · rw [e]
    exact hx
  · rw [e]
    exact count

theorem onRead_trims (s : Server) (fd : Fd) (recvs : List RecvResult) :
    Trims s (s.onRead fd recvs) (s.readDeletes fd recvs) := by
  cases hx : s.sessions fd with
  | none =>
    simp only [onRead, readDeletes, hx]
    exact .refl s
  | some x =>
    have read := onRead_eq hx recvs
    simp only [readDeletes, hx]
    generalize ClientSession.handleRead x recvs (s.obj x).assembler = result at read
    obtain ⟨assembler, tasks, close⟩ := result
    obtain ⟨m, e, submitted, sessions, count⟩ := read
    rw [e]
    cases (s.obj x).closed || close with
    | false => exact submitted
    | true =>
      have last := m.closeOrDefer_trims fd
      have same : m.closing fd = if tasks.isEmpty then s.closing fd else none := by
        unfold closing
        rw [count, sessions, hx]
        cases tasks with
        | nil => simp
        | cons task tasks => simp
      rw [same] at last
      exact submitted.andThen last

theorem requestCloseClient_deletes (s : Server) (fd : Fd) (origin : SessionId) :
    Deletes s (s.requestCloseClient fd origin) (s.closing fd) := by
  unfold requestCloseClient closing
  cases hx : s.sessions fd with
  | none =>
    simp only [ite_self]
    exact .nothing (.refl s)
  | some x =>
    have recorded : Kept s
        { s with record := { s.record with closed := s.record.closed ++ [(origin, x)] } } :=
      .of_backend rfl rfl
    simp only
    split
    · have kept := deferClose_kept
        { s with record := { s.record with closed := s.record.closed ++ [(origin, x)] } } fd
      exact .nothing ((recorded.trans kept).trans (.of_backend rfl rfl))
    · have last := closeClient_trims
        { s with record := { s.record with closed := s.record.closed ++ [(origin, x)] } } fd
      simp only [hx] at last
      exact recorded.deletes last.deletes

theorem onTaskDone_deletes (s : Server) (fd : Fd) :
    Deletes s (s.onTaskDone fd) (s.taskDoneDeletes fd) := by
  unfold onTaskDone taskDoneDeletes
  cases hn : s.inFlight fd with
  | none => exact .nothing (.refl s)
  | some n =>
    simp only
    split
    · refine Kept.deletes ?_ (closeClient_trims _ fd).deletes
      exact .of_backend rfl rfl
    · exact .nothing (.of_backend rfl rfl)

theorem processCommand_deletes (s : Server) (k : Kernel) (q : Queued) :
    Deletes s (s.processCommand k q) (s.commandDeletes q) := by
  unfold processCommand commandDeletes
  cases q.cmd.type with
  | close => exact s.requestCloseClient_deletes q.cmd.fd q.origin
  | taskDone => exact s.onTaskDone_deletes q.cmd.fd
  | sendRaw =>
    simp only
    split
    · exact .nothing (.refl s)
    · split
      · exact .nothing (.refl s)
      · rename_i x _ _
        obtain ⟨sender, epoll, e⟩ := sendRawDirect_eq s x q.cmd.data k.sends
        have kept := kept_setSession (s := s) (x := x) { s.obj x with sender := sender } epoll
          s.openFds rfl rfl rfl rfl
        rw [e]
        exact .nothing (kept.trans (.of_backend rfl rfl))

/-! ## Where the main thread stands -/

/-- The main thread stands where it stood and has the same in hand; the workers run on. -/
structure SameLoop (s t : Server) : Prop where
  phase : t.phase = s.phase
  batch : t.batch = s.batch
  commands : t.commands = s.commands
  queue : t.shared.queue = s.shared.queue
  workers : t.pool.workers = s.pool.workers
  inFlight : t.pool.inFlight = s.pool.inFlight

theorem SameLoop.refl (s : Server) : SameLoop s s := ⟨rfl, rfl, rfl, rfl, rfl, rfl⟩

theorem SameLoop.trans {m : Server} (h : SameLoop s m) (h' : SameLoop m t) : SameLoop s t where
  phase := h'.phase.trans h.phase
  batch := h'.batch.trans h.batch
  commands := h'.commands.trans h.commands
  queue := h'.queue.trans h.queue
  workers := h'.workers.trans h.workers
  inFlight := h'.inFlight.trans h.inFlight

theorem closeClient_sameLoop (s : Server) (fd : Fd) : SameLoop s (s.closeClient fd) := by
  cases here : s.sessions fd with
  | none =>
    rw [closeClient_none here]
    exact .refl s
  | some x =>
    obtain ⟨epoll, openFds, e⟩ := closeClient_eq here
    rw [e]
    exact ⟨rfl, rfl, rfl, rfl, rfl, rfl⟩

theorem deferClose_sameLoop (s : Server) (fd : Fd) : SameLoop s (s.deferClose fd) := by
  cases here : s.sessions fd with
  | none =>
    simp only [deferClose, here]
    exact ⟨rfl, rfl, rfl, rfl, rfl, rfl⟩
  | some x =>
    obtain ⟨epoll, openFds, e⟩ := deferClose_eq here
    rw [e]
    exact ⟨rfl, rfl, rfl, rfl, rfl, rfl⟩

theorem closeOrDefer_sameLoop (s : Server) (fd : Fd) : SameLoop s (s.closeOrDefer fd) := by
  unfold closeOrDefer
  split
  · exact deferClose_sameLoop s fd
  · exact closeClient_sameLoop s fd

theorem submitAll_sameLoop (fd : Fd) (s : Server) (tasks : List Task) :
    SameLoop s (tasks.foldl (submitTask fd) s) := by
  induction tasks generalizing s with
  | nil => exact .refl s
  | cons task tasks ih =>
    have one : SameLoop s (submitTask fd s task) := by
      unfold submitTask Backend.submit ThreadPool.submit
      split <;> exact ⟨rfl, rfl, rfl, rfl, rfl, rfl⟩
    exact one.trans (ih _)

theorem onRead_sameLoop (s : Server) (fd : Fd) (recvs : List RecvResult) :
    SameLoop s (s.onRead fd recvs) := by
  unfold onRead
  split
  · exact .refl s
  · rename_i x _
    obtain ⟨epoll, openFds, e⟩ := handleRead_eq s x recvs
    have reads : SameLoop s (s.handleRead x recvs).1 := by
      rw [e]
      exact ⟨rfl, rfl, rfl, rfl, rfl, rfl⟩
    have submits := reads.trans (submitAll_sameLoop fd _ (s.handleRead x recvs).2)
    dsimp only
    split
    · exact submits.trans (closeOrDefer_sameLoop _ fd)
    · exact submits

theorem onWrite_sameLoop (s : Server) (fd : Fd) (sends : List SendResult) :
    SameLoop s (s.onWrite fd sends) := by
  unfold onWrite
  split
  · exact .refl s
  · rename_i x _
    obtain ⟨sender, epoll, e⟩ := handleWrite_eq s x sends
    have writes : SameLoop s (s.handleWrite x sends) := by
      rw [e]
      exact ⟨rfl, rfl, rfl, rfl, rfl, rfl⟩
    dsimp only
    split
    · exact writes.trans (closeClient_sameLoop _ fd)
    · exact writes

theorem requestCloseClient_sameLoop (s : Server) (fd : Fd) (origin : SessionId) :
    SameLoop s (s.requestCloseClient fd origin) := by
  unfold requestCloseClient
  split
  · exact .refl s
  · rename_i x _
    have noted : SameLoop s
        { s with record := { s.record with closed := s.record.closed ++ [(origin, x)] } } :=
      ⟨rfl, rfl, rfl, rfl, rfl, rfl⟩
    dsimp only
    split
    · have defers := noted.trans (deferClose_sameLoop _ fd)
      exact defers.trans ⟨rfl, rfl, rfl, rfl, rfl, rfl⟩
    · exact noted.trans (closeClient_sameLoop _ fd)

theorem onTaskDone_sameLoop (s : Server) (fd : Fd) : SameLoop s (s.onTaskDone fd) := by
  unfold onTaskDone
  split
  · exact .refl s
  · rename_i n _
    have counted : SameLoop s
        { s with inFlight := Function.update s.inFlight fd (some (n - 1)) } :=
      ⟨rfl, rfl, rfl, rfl, rfl, rfl⟩
    dsimp only
    split
    · have closes : SameLoop s (closeDeferred
          { s with inFlight := Function.update s.inFlight fd (some (n - 1)) } fd) :=
        ⟨rfl, rfl, rfl, rfl, rfl, rfl⟩
      exact closes.trans (closeClient_sameLoop _ fd)
    · exact counted

theorem processCommand_sameLoop (s : Server) (k : Kernel) (q : Queued) :
    SameLoop s (s.processCommand k q) := by
  unfold processCommand
  split
  · split
    · exact .refl s
    · rename_i x _
      split
      · exact .refl s
      · obtain ⟨sender, epoll, e⟩ := sendRawDirect_eq s x q.cmd.data k.sends
        rw [e]
        exact ⟨rfl, rfl, rfl, rfl, rfl, rfl⟩
  · exact requestCloseClient_sameLoop s q.cmd.fd q.origin
  · exact onTaskDone_sameLoop s q.cmd.fd

/-- An event may leave its `EPOLLOUT` behind, and one that failed end the event loop. -/
theorem handleItem_loop {k : Kernel} {item : Item} (h : s.handleItem k item = some t) :
    (∃ e, item = .event e ∧ (e.failed = true ∧ e.fd = s.listenFd) ∧
        t = { s with phase := .shutdown, batch := [] }) ∨
      t.phase = s.phase ∧ (t.batch = s.batch ∨ ∃ fd, t.batch = .writable fd :: s.batch) := by
  have same {u : Server} (h : SameLoop s u) :
      u.phase = s.phase ∧ (u.batch = s.batch ∨ ∃ fd, u.batch = .writable fd :: s.batch) :=
    ⟨h.phase, .inl h.batch⟩
  cases item with
  | writable fd =>
    cases h
    exact .inr (same (onWrite_sameLoop s fd k.sends))
  | event e =>
    simp only [handleItem, handleEvent] at h
    split at h
    · rename_i failed
      split at h
      · rename_i listen
        cases h
        exact .inl ⟨e, rfl, ⟨failed, listen⟩, rfl⟩
      · cases h
        exact .inr (same (closeOrDefer_sameLoop s e.fd))
    · have left : ∃ batch, (if e.writable then { s with batch := .writable e.fd :: s.batch }
          else s) = { s with batch := batch } ∧
          (batch = s.batch ∨ ∃ fd, batch = .writable fd :: s.batch) := by
        split
        · exact ⟨_, rfl, .inr ⟨e.fd, rfl⟩⟩
        · exact ⟨_, rfl, .inl rfl⟩
      obtain ⟨batch, left, behind⟩ := left
      rw [left] at h
      split at h
      · cases h
        exact .inr ⟨rfl, behind⟩
      · split at h
        · cases accepted : k.accepted with
          | none =>
            rw [accepted] at h
            cases h
            exact .inr ⟨rfl, behind⟩
          | some fd =>
            rw [accepted] at h
            simp only [accept] at h
            split at h
            · cases h
            · cases h
              exact .inr ⟨rfl, behind⟩
        · split at h
          · cases h
            exact .inr ⟨rfl, behind⟩
          · cases h
            have reads := onRead_sameLoop { s with batch := batch } e.fd k.recvs
            exact .inr ⟨reads.phase, by rw [reads.batch]; exact behind⟩

/-! ## The steps of the server -/

/-- The number that the step is given by `accept`. -/
def accepted (s : Server) : Action → Option Fd
  | .main k =>
    match s.commands, s.phase, s.batch with
    | [], .eventLoop, .event e :: _ =>
      if !e.failed && e.readable && e.fd == s.listenFd then k.accepted else none
    | _, _, _ => none
  | _ => none

/-- The number that the step calls `onWrite` for. -/
def written (s : Server) : Action → Option Fd
  | .main _ =>
    match s.commands, s.phase, s.batch with
    | [], .eventLoop, .writable fd :: _ => some fd
    | _, _, _ => none
  | _ => none

/-- The number that the step calls `onRead` for, and what `recv` answers there. -/
def reads (s : Server) : Action → Option (Fd × List RecvResult)
  | .main k =>
    match s.commands, s.phase, s.batch with
    | [], .eventLoop, .event e :: _ =>
      if !e.failed && e.readable && e.fd != s.listenFd && e.fd != s.eventFd then
        some (e.fd, k.recvs)
      else none
    | _, _, _ => none
  | _ => none

/-- All that a step of the server can do, in terms of the session manager's operations. -/
inductive Effect (s : Server) (a : Action) : Server → Prop where
  | plan (batch : List Item) (phase : Phase) (live : s.phase ≠ .stopped)
    (nothing : s.deletes a = none) (unread : s.reads a = none) :
    Effect s a { s with batch := batch, phase := phase }
  | stop (nothing : s.deletes a = none) (unread : s.reads a = none) :
    Effect s a { s with phase := .stopped, pool := s.pool.stop }
  | drain (batch : List Item) (phase : Phase) (live : s.phase ≠ .stopped)
    (empty : s.commands = []) (nothing : s.deletes a = none) (unread : s.reads a = none) :
    Effect s a { s with
      batch := batch
      phase := phase
      shared := { s.shared with queue := [] }
      commands := s.shared.queue }
  | accept (fd : Fd) (batch : List Item) (openFds : Fd → Bool) (epoll : Fd → Option EpollMask)
    (number : s.accepted a = some fd) (free : s.openFds fd = false) (nothing : s.deletes a = none)
    (unread : s.reads a = none) :
    Effect s a
      ({ s with batch := batch, openFds := openFds, epoll := epoll }.onNewConnection fd)
  | read (fd : Fd) (batch : List Item) (recvs : List RecvResult) (loop : s.phase = .eventLoop)
    (same : s.deletes a = s.readDeletes fd recvs) (reads : s.reads a = some (fd, recvs)) :
    Effect s a ({ s with batch := batch }.onRead fd recvs)
  | write (fd : Fd) (batch : List Item) (sends : List SendResult) (number : s.written a = some fd)
    (same : s.deletes a = s.writeDeletes fd) (unread : s.reads a = none) :
    Effect s a ({ s with batch := batch }.onWrite fd sends)
  | error (fd : Fd) (batch : List Item) (same : s.deletes a = s.closing fd)
    (unread : s.reads a = none) :
    Effect s a ({ s with batch := batch }.onError fd)
  | command (k : Kernel) (q : Queued) (commands : List Queued) (head : s.commands = q :: commands)
    (same : s.deletes a = s.commandDeletes q) (unread : s.reads a = none) :
    Effect s a ({ s with commands := commands }.processCommand k q)
  | worker (i : Nat) (b : Backend) (is : a = .worker i) (work : s.toBackend.worker i = some b)
    (unread : s.reads a = none) :
    Effect s a { s with toBackend := b }

theorem handleEvent_effect {k : Kernel} {e : EpollEvent} {batch : List Item}
    (empty : s.commands = []) (loop : s.phase = .eventLoop) (head : s.batch = .event e :: batch)
    (h : { s with batch := batch }.handleEvent k e = some t) : Effect s (.main k) t := by
  have live : s.phase ≠ .stopped := by rw [loop]; decide
  have same : s.deletes (.main k) = s.itemDeletes k (.event e) := by
    simp only [deletes, empty, loop, head]
  have reads : s.reads (.main k) =
      if !e.failed && e.readable && e.fd != s.listenFd && e.fd != s.eventFd then
        some (e.fd, k.recvs)
      else none := by
    simp only [Server.reads, empty, loop, head]
  unfold handleEvent at h
  split at h
  · rename_i failed
    split at h
    · rename_i listening
      cases h
      exact .plan [] .shutdown live (by simp [same, itemDeletes, failed, listening])
        (by simp [reads, failed])
    · rename_i notListening
      cases h
      exact .error e.fd batch (by simp [same, itemDeletes, failed, notListening])
        (by simp [reads, failed])
  · rename_i notFailed
    -- `EPOLLOUT` of the event stays behind in the batch
    have rest : ∃ batch', (if e.writable then
        { s with batch := .writable e.fd :: batch } else { s with batch := batch }) =
        { s with batch := batch' } := by
      split
      · exact ⟨_, rfl⟩
      · exact ⟨_, rfl⟩
    obtain ⟨batch', rest⟩ := rest
    simp only [rest] at h
    split at h
    · rename_i notReadable
      simp only [Bool.not_eq_true, Bool.not_eq_true'] at notFailed notReadable
      cases h
      exact .plan batch' s.phase live (by simp [same, itemDeletes, notFailed, notReadable])
        (by simp [reads, notReadable])
    · rename_i readable
      simp only [Bool.not_eq_true, Bool.not_eq_true', Bool.not_eq_false] at notFailed readable
      split at h
      · rename_i listening
        cases ha : k.accepted with
        | none =>
          rw [ha] at h
          cases h
          exact .plan batch' s.phase live (by simp [same, itemDeletes, notFailed, listening])
            (by simp [reads, listening])
        | some fd =>
          rw [ha] at h
          simp only [Server.accept] at h
          split at h
          · cases h
          · rename_i free
            cases h
            refine .accept fd batch' _ _ ?_ (by simpa using free)
              (by simp [same, itemDeletes, notFailed, listening]) (by simp [reads, listening])
            simp [accepted, empty, loop, head, notFailed, readable, listening, ha]
      · rename_i notListening
        split at h
        · rename_i waking
          cases h
          exact .drain batch' s.phase live empty (by simp [same, itemDeletes, notFailed, waking])
            (by simp [reads, waking])
        · rename_i client
          cases h
          refine .read e.fd batch' k.recvs loop ?_ ?_
          · simp only [Server.itemDeletes] at same
            simp [same, notFailed, readable, notListening, client]
          · simp [reads, notFailed, readable, notListening, client]

theorem step_effect {a : Action} (h : s.step a = some t) : Effect s a t := by
  cases a with
  | epollWait events =>
    simp only [step, epollWait] at h
    split at h
    · rename_i ready
      simp only [Bool.and_eq_true, beq_iff_eq] at ready
      cases h
      exact .plan (events.map .event) s.phase (by rw [ready.1.1.1.1]; nofun) rfl rfl
    · cases h
  | worker i =>
    obtain ⟨b, hb, rfl⟩ := Option.map_eq_some_iff.mp h
    exact .worker i b rfl hb rfl
  | main k =>
    obtain ⟨backend, sessions, inFlight, pendingDelete, openFds, epoll, listenFd, eventFd, phase,
      batch, commands, record, deferredBy⟩ := s
    cases commands with
    | cons q commands =>
      cases h
      exact .command k q commands rfl rfl rfl
    | nil =>
      cases phase with
      | eventLoop =>
        cases batch with
        | nil =>
          simp only [step, main] at h
          split at h
          · cases h
            exact .plan [] .shutdown nofun rfl rfl
          · cases h
        | cons item batch =>
          cases item with
          | event e => exact handleEvent_effect rfl rfl rfl h
          | writable fd =>
            cases h
            exact .write fd batch k.sends rfl rfl rfl
      | shutdown =>
        simp only [step, main] at h
        split at h
        · cases h
          exact .plan batch .draining nofun rfl rfl
        · cases h
          exact .stop rfl rfl
      | draining =>
        cases h
        exact .drain batch .shutdown nofun rfl rfl rfl
      | stopped => cases h

/-- A step is a worker's, accepts a connection, or deletes what `deletes` says. -/
inductive Outcome (s : Server) (a : Action) : Server → Prop where
  | worker (i : Nat) (b : Backend) (is : a = .worker i) (work : s.toBackend.worker i = some b) :
    Outcome s a { s with toBackend := b }
  | connects (fd : Fd) (batch : List Item) (openFds : Fd → Bool) (epoll : Fd → Option EpollMask)
    (nothing : s.deletes a = none) :
    Outcome s a
      ({ s with batch := batch, openFds := openFds, epoll := epoll }.onNewConnection fd)
  | deletes {t : Server} (deletes : Deletes s t (s.deletes a)) : Outcome s a t

theorem step_cases {a : Action} (h : s.step a = some t) : Outcome s a t := by
  have planned (batch : List Item) : Kept s { s with batch := batch } := .of_backend rfl rfl
  cases step_effect h with
  | worker i b is work => exact .worker i b is work
  | accept fd batch openFds epoll number free nothing =>
    exact .connects fd batch openFds epoll nothing
  | plan batch phase live nothing =>
    apply Outcome.deletes
    rw [nothing]
    exact .nothing (.of_backend rfl rfl)
  | stop nothing =>
    apply Outcome.deletes
    rw [nothing]
    exact .nothing
      ⟨⟨rfl, fun _ => .inl, rfl, rfl, fun _ => rfl, fun _ => rfl, fun _ => rfl⟩, rfl, rfl,
        fun _ => rfl⟩
  | drain batch phase live empty nothing =>
    apply Outcome.deletes
    rw [nothing]
    exact .nothing
      ⟨⟨rfl, fun _ => .inl, rfl, rfl, fun _ => rfl, fun _ => rfl, fun _ => rfl⟩, rfl, rfl,
        fun _ => rfl⟩
  | read fd batch recvs loop same =>
    apply Outcome.deletes
    rw [same]
    exact (planned batch).deletes (onRead_trims _ fd recvs).deletes
  | write fd batch sends number same =>
    apply Outcome.deletes
    rw [same]
    exact (planned batch).deletes (onWrite_trims _ fd sends).deletes
  | error fd batch same =>
    apply Outcome.deletes
    rw [same]
    exact (planned batch).deletes (closeOrDefer_trims _ fd).deletes
  | command k q commands head same =>
    have taken : Kept s { s with commands := commands } := .of_backend rfl rfl
    apply Outcome.deletes
    rw [same]
    exact taken.deletes (processCommand_deletes _ k q)

/-- A step that calls `onWrite`. -/
theorem step_written {a : Action} (hw : s.written a = some fd) (h : s.step a = some t) :
    ∃ batch sends, t = { s with batch := batch }.onWrite fd sends := by
  cases a with
  | epollWait events => cases hw
  | worker i => cases hw
  | main k =>
    simp only [written] at hw
    split at hw
    · rename_i batch empty loop head
      simp only [step, main, empty, loop, head] at h
      cases hw
      cases h
      exact ⟨batch, k.sends, by rw [empty, loop]⟩
    · cases hw

end Server

end Cvcn
