import Cvcn.Net.Deletion
import Cvcn.Services.Registry

/-!
# The recipients of a broadcast

A worker looks a recipient up in one operation and uses it in the next two. Tasks in flight
protect their own session only: between two of these operations the main thread may delete
the recipient. With sessions that log in as one user, and registered only while they exist,
nothing else can make a worker use a session that has been deleted.
-/

namespace Cvcn

open Atomic Machine

/-- The session whose method the worker calls next, if it is not its own task's. -/
def Worker.recipient : Worker Running → Option SessionId
  | .running ⟨job, .op (.session x _) _⟩ => if x = job.task.session then none else some x
  | _ => none

namespace Server

variable {s t : Server} {a : Action}

/-- Every recipient that a worker is about to use exists. -/
def RecipientsAlive (s : Server) : Prop :=
  ∀ w ∈ s.pool.workers, ∀ x, w.recipient = some x → s.Alive x

def nextOp (s : Server) : Action → Option Op
  | .worker i => (s.pool.workers[i]?).bind Worker.nextOp
  | _ => none

/-- No session is authenticated as a second user. -/
def authOnce (s : Server) (a : Action) : Bool :=
  match s.nextOp a with
  | some (.session x (.setAuthenticated userID _)) =>
    (s.obj x).userID == -1 || (s.obj x).userID == userID
  | _ => true

def registersAlive (s : Server) (a : Action) : Bool :=
  match s.nextOp a with
  | some (.registerUser userID x) => decide (userID ≤ 0) || decide (s.Alive x)
  | _ => true

/-- The session that the step deletes is no worker's recipient. -/
def deletesUnused (s : Server) (a : Action) : Bool :=
  match s.deletes a with
  | some x => s.pool.workers.all fun w => w.recipient != some x
  | none => true

/-- What a stage of a task for session `own` says about the sessions. -/
def StageOk (s : Server) (own : SessionId) : Stage → Prop
  | .free => True
  | .authenticated userID => 0 < userID → (s.obj own).userID = userID
  | .holding recipient => recipient ≠ own → s.Alive recipient

def Sound (s : Server) (r : Running) : Prop :=
  ∃ stage, StageOk s r.job.task.session stage ∧
    r.rest.Keeps (allowed r.job.task.session true) after stage fun _ stage => stage = .free

/-- The sessions in the map and those of the tasks have been created. -/
structure Created (s : Server) : Prop where
  mapped : ∀ fd x, s.sessions fd = some x → x < s.shared.next
  queued : ∀ job ∈ s.pool.tasks, job.task.session < s.shared.next
  running : ∀ r, Worker.running r ∈ s.pool.workers → r.job.task.session < s.shared.next

/-- Sessions in use have been created, the registry is coherent, and each worker follows the
protocol from a stage that is as it should be. -/
structure BroadcastInv (s : Server) : Prop where
  registry : RegistryInv s
  mapped : ∀ fd x, s.sessions fd = some x → x < s.shared.next
  queued : ∀ job ∈ s.pool.tasks, job.task.session < s.shared.next
  running : ∀ r, Worker.running r ∈ s.pool.workers →
    r.job.task.session < s.shared.next ∧ Sound s r

/-! ## The sessions in use -/

theorem BroadcastInv.created (h : BroadcastInv s) : Created s :=
  ⟨h.mapped, h.queued, fun r hr => (h.running r hr).1⟩

theorem Created.deletes {o : Option SessionId} (h : Created s) (deletes : Deletes s t o) :
    Created t := by
  have frame := deletes.frame
  constructor
  · intro fd x hx
    rw [frame.next]
    cases deletes with
    | nothing kept =>
      rw [kept.sessions] at hx
      exact h.mapped fd x hx
    | session removed =>
      rw [removed.sessions, Function.update_apply] at hx
      split at hx
      · cases hx
      · exact h.mapped fd x hx
  · intro job hj
    rw [frame.next]
    rcases frame.tasks job hj with old | ⟨fd, new⟩
    · exact h.queued job old
    · exact h.mapped fd _ new
  · intro r hr
    rw [frame.workers] at hr
    rw [frame.next]
    exact h.running r hr

theorem Created.connect (h : Created s) (fd : Fd) : Created (s.onNewConnection fd) := by
  have later : ∀ {x}, x < s.shared.next → x < (s.onNewConnection fd).shared.next :=
    fun lt => Nat.lt_succ_of_lt lt
  constructor
  · intro g x hx
    simp only [onNewConnection, Function.update_apply] at hx
    split at hx
    · cases hx
      exact Nat.lt_succ_self _
    · exact later (h.mapped g x hx)
  · exact fun job hj => later (h.queued job hj)
  · exact fun r hr => later (h.running r hr)

theorem Created.worker {i : Nat} {b : Backend} (h : Created s)
    (work : s.toBackend.worker i = some b) : Created { s with toBackend := b } := by
  cases Backend.worker_task work with
  | begins job tasks waiting head =>
    refine ⟨h.mapped, fun job' hj => ?_, fun r hr => ?_⟩
    · exact h.queued job' (by rw [head]; exact List.mem_cons_of_mem job hj)
    · rcases mem_set_cases hr with new | ⟨j, _, old⟩
      · cases new
        exact h.queued job (by rw [head]; exact List.mem_cons_self)
      · exact h.running r (List.mem_of_getElem? old)
  | executes job o rest running =>
    have next : (Shared.exec o s.shared).2.next = s.shared.next := s.shared.exec_next o
    refine ⟨fun fd x hx => ?_, fun job' hj => ?_, fun r hr => ?_⟩
    · rw [next]
      exact h.mapped fd x hx
    · rw [next]
      exact h.queued job' hj
    · rw [next]
      rcases mem_set_cases hr with new | ⟨j, _, old⟩
      · cases new
        have its := h.running _ (List.mem_of_getElem? running)
        exact its
      · exact h.running r (List.mem_of_getElem? old)
  | between w pool queue idle workers queued =>
    refine ⟨h.mapped, fun job hj => h.queued job (queued ▸ hj), fun r hr => ?_⟩
    have hr : Worker.running r ∈ pool.workers := hr
    rw [workers] at hr
    rcases mem_set_cases hr with new | ⟨j, _, old⟩
    · exact absurd new.symm (idle r)
    · exact h.running r (List.mem_of_getElem? old)

/-! ## A task and its recipient -/

/-- Another session's method is called on a recipient only. -/
theorem holding_of_allowed {own x : SessionId} {auth : Bool} {stage : Stage} {o : SessionOp}
    (h : allowed own auth stage (.session x o)) (hne : x ≠ own) : stage = .holding x := by
  cases stage with
  | free =>
    cases o with
    | setAuthenticated userID username => exact absurd h.1 hne
    | _ => exact absurd h hne
  | authenticated userID => cases h
  | holding recipient =>
    cases o with
    | sendRaw data => rw [show x = recipient from h]
    | getUsername => rw [show x = recipient from h]
    | _ => cases h

/-- A task that holds a recipient is about to use it. -/
theorem recipient_of_holding {r : Running} {x : SessionId} {auth : Bool}
    (keeps : r.rest.Keeps (allowed r.job.task.session auth) after (.holding x)
      fun _ stage => stage = .free) (hne : x ≠ r.job.task.session) :
    (Worker.running r).recipient = some x := by
  obtain ⟨job, rest⟩ := r
  cases rest with
  | done a => cases keeps
  | op o rest =>
    have next := keeps.1
    cases o with
    | session y o =>
      have same : y = x := by
        cases o with
        | sendRaw data => exact next
        | getUsername => exact next
        | _ => cases next
      subst same
      simp only [Worker.recipient]
      exact if_neg hne
    | _ => cases next

theorem BroadcastInv.recipientsAlive (h : BroadcastInv s) : RecipientsAlive s := by
  intro w hw x hx
  cases w with
  | running r =>
    obtain ⟨job, rest⟩ := r
    cases rest with
    | done a => cases hx
    | op o rest =>
      cases o with
      | session y o =>
        simp only [Worker.recipient] at hx
        split at hx
        · cases hx
        · rename_i hne
          cases hx
          obtain ⟨_, stage, ok, keeps⟩ := h.running _ hw
          have holding := holding_of_allowed keeps.1 hne
          subst holding
          exact ok hne
      | _ => cases hx
  | _ => cases hx

theorem StageOk.mono {own : SessionId} {stage : Stage} (h : StageOk s own stage)
    (users : ∀ u, 0 < u → (s.obj own).userID = u → (t.obj own).userID = u)
    (alive : ∀ x, stage = .holding x → x ≠ own → s.Alive x → t.Alive x) : StageOk t own stage := by
  cases stage with
  | free => trivial
  | authenticated userID => exact fun positive => users userID positive (h positive)
  | holding recipient => exact fun hne => alive recipient rfl hne (h hne)

/-! ## The main thread -/

theorem BroadcastInv.deletes {o : Option SessionId} (h : BroadcastInv s) (deletes : Deletes s t o)
    (unused : ∀ x, o = some x → ∀ w ∈ s.pool.workers, w.recipient ≠ some x) : BroadcastInv t := by
  have frame := deletes.frame
  have created := h.created.deletes deletes
  refine ⟨h.registry.deletes deletes, created.mapped, created.queued, fun r hr => ?_⟩
  have lt := created.running r hr
  rw [frame.workers] at hr
  obtain ⟨_, stage, ok, keeps⟩ := h.running r hr
  refine ⟨lt, stage, ok.mono ?_ ?_, keeps⟩
  · intro u _ user
    rw [frame.user]
    exact user
  · intro x holding hne here
    apply deletes.stays here
    intro e
    subst holding
    exact unused x e _ hr (recipient_of_holding keeps hne)

theorem BroadcastInv.connect (h : BroadcastInv s) (fd : Fd) :
    BroadcastInv (s.onNewConnection fd) := by
  have created := h.created.connect fd
  refine ⟨h.registry.connect fd, created.mapped, created.queued, fun r hr => ?_⟩
  obtain ⟨lt, stage, ok, keeps⟩ := h.running r hr
  refine ⟨created.running r hr, stage, ok.mono ?_ ?_, keeps⟩
  · intro u _ user
    rw [onNewConnection_obj, if_neg (Nat.ne_of_lt lt)]
    exact user
  · exact fun x _ _ here => (onNewConnection_alive s fd x).mpr (.inr here)

/-! ## The workers -/

/-- The state after an operation of a worker. -/
def afterOp (s : Server) (o : Op) : Server := { s with shared := (Shared.exec o s.shared).2 }

theorem afterOp_alive {x : SessionId} (here : s.Alive x) (o : Op) : (s.afterOp o).Alive x := by
  obtain ⟨userID, username, e⟩ := s.shared.exec_objects o x
  constructor
  · simp only [afterOp, Shared.exec_next]
    exact here.1
  · simp only [afterOp, obj, e]
    exact here.2

/-- The conditions of a run, for the operation that is executed. -/
structure OpOk (s : Server) (o : Op) : Prop where
  once : ∀ x userID username, o = .session x (.setAuthenticated userID username) →
    (s.obj x).userID = -1 ∨ (s.obj x).userID = userID
  alive : ∀ userID x, o = .registerUser userID x → userID ≤ 0 ∨ s.Alive x

/-- A session that is logged in stays logged in as its user. -/
theorem afterOp_user {o : Op}
    (once : ∀ x userID username, o = .session x (.setAuthenticated userID username) →
      (s.obj x).userID = -1 ∨ (s.obj x).userID = userID)
    {x : SessionId} {userID : Int} (positive : 0 < userID) (user : (s.obj x).userID = userID) :
    ((s.afterOp o).obj x).userID = userID := by
  cases o with
  | repo o => exact user
  | findByUserID u => exact user
  | registerUser u y =>
    simp only [afterOp, Shared.exec, Shared.registerUser]
    split <;> exact user
  | session y o =>
    cases o with
    | setAuthenticated u username =>
      simp only [afterOp, Shared.exec, Shared.sessionOp, Shared.setSession, obj]
      by_cases hy : x = y
      · subst hy
        rw [Function.update_self]
        cases once x u username rfl with
        | inl e => omega
        | inr e => exact e.symm.trans user
      · rw [Function.update_of_ne hy]
        exact user
    | _ => exact user

/-- What an operation leaves of the registry, and the stage it leads its task to. -/
theorem afterOp_registry {own : SessionId} {stage : Stage} {o : Op} (h : RegistryInv s)
    (ok : StageOk s own stage) (next : allowed own true stage o) (op : OpOk s o) :
    RegistryInv (s.afterOp o) ∧
      StageOk (s.afterOp o) own (after stage o (Shared.exec o s.shared).1) := by
  cases stage with
  | free =>
    cases o with
    | repo o => exact ⟨h.quiet ⟨rfl, rfl, rfl⟩, trivial⟩
    | findByUserID u =>
      refine ⟨h, ?_⟩
      cases found : s.shared.byUserID u with
      | none =>
        simp only [Shared.exec, found]
        trivial
      | some recipient =>
        simp only [Shared.exec, found]
        exact fun _ => (h.coherent u recipient found).1
    | registerUser u x => cases next
    | session x o =>
      cases o with
      | setAuthenticated u username =>
        obtain ⟨own, _⟩ := next
        subst own
        have safe : (s.obj x).userID = u ∨ s.shared.byUserID (s.obj x).userID ≠ some x := by
          cases op.once x u username rfl with
          | inl e =>
            refine .inr fun entry => ?_
            have := h.positive _ _ entry
            omega
          | inr e => exact .inl e
        refine ⟨h.authenticate username safe, fun _ => ?_⟩
        simp only [afterOp, Shared.exec, Shared.sessionOp, Shared.setSession, obj,
          Function.update_self]
      | _ => exact ⟨h.quiet ⟨rfl, rfl, rfl⟩, trivial⟩
  | authenticated userID =>
    cases o with
    | registerUser u x =>
      obtain ⟨user, own⟩ := next
      subst user own
      refine ⟨h.register fun positive => ⟨?_, ok positive⟩, trivial⟩
      cases op.alive u x rfl with
      | inl e => omega
      | inr here => exact here
    | repo o => cases next
    | findByUserID u => cases next
    | session x o => cases o <;> cases next
  | holding recipient =>
    cases o with
    | session x o =>
      cases o with
      | sendRaw data => exact ⟨h.quiet ⟨rfl, rfl, rfl⟩, ok⟩
      | getUsername => exact ⟨h, trivial⟩
      | _ => cases next
    | _ => cases next

theorem taskBody_sound (s : Server) (job : Job) : Sound s job.begin_ :=
  ⟨.free, trivial, taskBody_follows job.task (.inl rfl)⟩

theorem BroadcastInv.worker {i : Nat} {b : Backend} (h : BroadcastInv s)
    (work : s.toBackend.worker i = some b) (op : ∀ o, s.nextOp (.worker i) = some o → OpOk s o) :
    BroadcastInv { s with toBackend := b } := by
  have created := h.created.worker work
  cases Backend.worker_task work with
  | begins job tasks waiting head =>
    refine ⟨⟨h.registry.coherent, h.registry.positive⟩, created.mapped, created.queued,
      fun r hr => ⟨created.running r hr, ?_⟩⟩
    rcases mem_set_cases hr with new | ⟨j, _, old⟩
    · cases new
      exact taskBody_sound _ job
    · exact (h.running r (List.mem_of_getElem? old)).2
  | executes job o rest running =>
    have ok := op o (by simp [nextOp, running, Worker.nextOp])
    obtain ⟨_, stage, stageOk, keeps⟩ := h.running _ (List.mem_of_getElem? running)
    obtain ⟨registry, stageOk'⟩ := afterOp_registry h.registry stageOk keeps.1 ok
    refine ⟨⟨registry.coherent, registry.positive⟩, created.mapped, created.queued,
      fun r hr => ⟨created.running r hr, ?_⟩⟩
    rcases mem_set_cases hr with new | ⟨j, _, old⟩
    · cases new
      exact ⟨_, stageOk', keeps.2 _⟩
    · obtain ⟨_, stage, old, keeps⟩ := h.running r (List.mem_of_getElem? old)
      refine ⟨stage, old.mono ?_ ?_, keeps⟩
      · exact fun u positive user => afterOp_user ok.once positive user
      · exact fun x _ _ here => afterOp_alive here o
  | between w pool queue idle workers queued =>
    refine ⟨⟨h.registry.coherent, h.registry.positive⟩, created.mapped, created.queued,
      fun r hr => ⟨created.running r hr, ?_⟩⟩
    have hr : Worker.running r ∈ pool.workers := hr
    rw [workers] at hr
    rcases mem_set_cases hr with new | ⟨j, _, old⟩
    · exact absurd new.symm (idle r)
    · exact (h.running r (List.mem_of_getElem? old)).2

/-! ## Runs -/

theorem opOk_of {o : Op} (once : s.authOnce a = true) (alive : s.registersAlive a = true)
    (next : s.nextOp a = some o) : OpOk s o := by
  constructor
  · intro x userID username e
    simpa [authOnce, next, e] using once
  · intro userID x e
    simpa [registersAlive, next, e] using alive

theorem step_broadcast (h : BroadcastInv s) (once : s.authOnce a = true)
    (alive : s.registersAlive a = true) (unused : s.deletesUnused a = true)
    (hs : s.step a = some t) : BroadcastInv t := by
  cases step_cases hs with
  | worker i b is work =>
    subst is
    exact h.worker work fun o next => opOk_of once alive next
  | connects fd batch openFds epoll =>
    have moved : BroadcastInv { s with batch := batch, openFds := openFds, epoll := epoll } :=
      ⟨⟨h.registry.coherent, h.registry.positive⟩, h.mapped, h.queued, h.running⟩
    exact moved.connect fd
  | deletes deletes =>
    apply h.deletes deletes
    intro x hx w hw
    simp only [deletesUnused, hx, List.all_eq_true, bne_iff_ne] at unused
    exact unused w hw

/-- A recipient that is deleted is used all the same. -/
theorem step_dangles (used : ¬ s.deletesUnused a = true) (hs : s.step a = some t) :
    ¬ RecipientsAlive t := by
  intro recipients
  simp only [deletesUnused] at used
  split at used
  · rename_i x hx
    simp only [List.all_eq_true, bne_iff_ne, not_forall, not_not] at used
    obtain ⟨w, hw, recipient⟩ := used
    cases step_cases hs with
    | worker i b is =>
      rw [is] at hx
      cases hx
    | connects _ _ _ _ nothing =>
      rw [hx] at nothing
      cases nothing
    | deletes deletes =>
      have alive := (recipients w (by rw [deletes.frame.workers]; exact hw) x recipient).2
      rw [deletes.freed, if_pos hx] at alive
      cases alive
  · exact used rfl

theorem broadcastInv_start (tables : Tables) (numThreads : Nat) (listenFd eventFd : Fd) :
    BroadcastInv (start tables numThreads listenFd eventFd) where
  registry := registryInv_start tables numThreads listenFd eventFd
  mapped := nofun
  queued := nofun
  running r hr := by
    have waiting := List.eq_of_mem_replicate hr
    cases waiting

/-- **Recipients, exactly when.** In a run in which no session is authenticated as a second user
and none is registered after its deletion, the recipients that workers are about to use exist
throughout if and only if no step deletes a session that a worker has looked up and is about to
use. -/
theorem recipients_alive_iff (tables : Tables) (numThreads : Nat) (listenFd eventFd : Fd)
    (as : List Action) (t : Server)
    (ordinary : Along step (fun s a => (s.authOnce a && s.registersAlive a) = true)
      (start tables numThreads listenFd eventFd) as)
    (run : exec step (start tables numThreads listenFd eventFd) as = some t) :
    Throughout step RecipientsAlive (start tables numThreads listenFd eventFd) as ↔
      Along step (deletesUnused · · = true) (start tables numThreads listenFd eventFd) as := by
  apply ordinary.throughout_iff (J := BroadcastInv)
  · exact fun s h => h.recipientsAlive
  · intro s a t h ordinary unused hs
    simp only [Bool.and_eq_true] at ordinary
    exact step_broadcast h ordinary.1 ordinary.2 unused hs
  · exact fun s a t _ used hs => step_dangles used hs
  · exact broadcastInv_start tables numThreads listenFd eventFd
  · exact run

/-- Users 1 and 2, with a chat of the two. -/
def twoUsers : Tables where
  users := [⟨1, [97], config.PASSWORD_HASH_PREFIX ++ [112]⟩,
    ⟨2, [98], config.PASSWORD_HASH_PREFIX ++ [113]⟩]
  chats := [⟨1, false⟩]
  chatMembers := [⟨1, 1⟩, ⟨1, 2⟩]
  userSeq := 2
  chatSeq := 1

/-- Both users log in; the worker is sending a message of user 1 and has looked user 2 up. -/
def recipientFound : List Action :=
  [.epollWait [{ fd := 3, readable := true }], .main { accepted := some 5 },
    .epollWait [{ fd := 3, readable := true }], .main { accepted := some 6 },
    .epollWait [{ fd := 6, readable := true }],
    .main { recvs := [.bytes (PacketBuilder.authRequest 1 6 ⟨[98], [113]⟩)] }] ++
  List.replicate 9 (.worker 0) ++
  [.epollWait [{ fd := 4, readable := true }], .main {}, .main { sends := [.sent 18] }, .main {},
    .epollWait [{ fd := 5, readable := true }],
    .main { recvs := [.bytes (PacketBuilder.authRequest 1 5 ⟨[97], [112]⟩ ++
      PacketBuilder.messageSend 2 5 ⟨1, [104, 105]⟩)] }] ++
  List.replicate 16 (.worker 0)

/-- User 2 leaves before the message is pushed. -/
def recipientLeaves : List Action :=
  recipientFound ++ [.epollWait [{ fd := 6, readable := true }], .main { recvs := [.bytes []] }]

/-- The worker is about to call `sendRaw` of a session that has been deleted. -/
theorem recipient_deleted :
    ∃ s, exec step (start twoUsers 1 3 4) recipientLeaves = some s ∧
      s.pool.workers.map Worker.recipient = [some 1] ∧ (s.obj 1).freed = true ∧
      Along step (fun s a => (s.authOnce a && s.registersAlive a) = true) (start twoUsers 1 3 4)
        recipientLeaves ∧ ¬ RecipientsAlive s := by
  refine ⟨_, rfl, rfl, rfl, by decide +kernel, fun h => ?_⟩
  exact absurd (h _ List.mem_cons_self 1 rfl).2 (by decide)

/-- The same message with the recipient still connected. -/
theorem recipients_alive_while_connected :
    Throughout step RecipientsAlive (start twoUsers 1 3 4)
      (recipientFound ++ [.worker 0, .worker 0]) :=
  (recipients_alive_iff twoUsers 1 3 4 _ _ (by decide +kernel) rfl).mpr (by decide +kernel)

end Server

end Cvcn
