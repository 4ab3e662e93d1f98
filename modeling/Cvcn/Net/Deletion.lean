import Cvcn.Lib.Threads
import Cvcn.Net.Lifecycle

/-!
# Deletion in the running server

The representation invariant along the runs of the whole server. An outstanding task is in
the pool's queue, with a worker, or a `TaskDone` in the queue or among the commands drained;
no step but the processing of its `TaskDone` takes it from there. Hence a session is deleted
with its tasks over, except by an `onWrite` that meets a closed session with tasks in flight.
-/

namespace Cvcn

open Atomic List Machine

def Worker.ticket : Worker Running → Option Ticket
  | .running r => some r.job.ticket
  | _ => none

def Queued.ticket (q : Queued) : Option Ticket :=
  match q.cmd.type with
  | .taskDone => some ⟨q.cmd.fd, q.origin⟩
  | _ => none

namespace Shared

variable (sh : Shared)

/-- No operation of a service creates, deletes or closes a session. -/
theorem exec_objects (o : Op) (x : SessionId) :
    ∃ userID username, (exec o sh).2.objects x =
      { sh.objects x with userID := userID, username := username } := by
  cases o with
  | repo o => exact ⟨_, _, rfl⟩
  | findByUserID userID => exact ⟨_, _, rfl⟩
  | registerUser userID session =>
    simp only [exec, registerUser]
    split <;> exact ⟨_, _, rfl⟩
  | session s o =>
    cases o with
    | setAuthenticated userID username =>
      simp only [exec, sessionOp, setSession]
      by_cases hx : x = s
      · subst hx
        exact ⟨userID, username, by rw [Function.update_self]⟩
      · exact ⟨_, _, by rw [Function.update_of_ne hx]⟩
    | _ => exact ⟨_, _, rfl⟩

theorem exec_next (o : Op) : (exec o sh).2.next = sh.next := by
  cases o with
  | registerUser userID session =>
    simp only [exec, registerUser]
    split <;> rfl
  | session s o => cases o <;> rfl
  | _ => rfl

/-- The commands that the services push are no `TaskDone`. -/
theorem exec_queue (o : Op) :
    ∃ pushed, (exec o sh).2.queue = sh.queue ++ pushed ∧ ∀ q ∈ pushed, q.ticket = none := by
  cases o with
  | registerUser userID session =>
    refine ⟨[], ?_, by simp⟩
    simp only [exec, registerUser]
    split <;> simp
  | session s o =>
    cases o with
    | sendRaw data => exact ⟨[_], rfl, by simp [Queued.ticket]⟩
    | requestClose => exact ⟨[_], rfl, by simp [Queued.ticket]⟩
    | _ => exact ⟨[], (List.append_nil _).symm, by simp⟩
  | _ => exact ⟨[], (List.append_nil _).symm, by simp⟩

end Shared

namespace Backend

/-- The tasks that have not been over yet, and the announcements of those that have. -/
def tickets (b : Backend) : List Ticket :=
  b.pool.tasks.map Job.ticket ++ b.pool.workers.filterMap Worker.ticket ++
    b.shared.queue.filterMap Queued.ticket

/-- A worker hands its task on until the `TaskDone` is in the queue. -/
theorem worker_tickets {b b' : Backend} {i : Nat} (h : b.worker i = some b') :
    b'.tickets.Perm b.tickets := by
  cases worker_cases h with
  | begins job tasks waiting head =>
    have moved := filterMap_set_perm Worker.ticket (x := .running job.begin_) waiting
    simp only [tickets, ThreadPool.setWorker, head, List.map_cons]
    apply List.Perm.append_right _
    exact (moved.append_left _).trans List.perm_middle
  | exits waiting =>
    have moved := filterMap_set_perm Worker.ticket (x := .exited) waiting
    exact (moved.append_left _).append_right _
  | executes job o rest running =>
    have moved := filterMap_set_perm Worker.ticket
      (x := .running ⟨job, rest (b.shared.exec o).1⟩) running
    obtain ⟨pushed, hq, none⟩ := b.shared.exec_queue o
    have nothing : pushed.filterMap Queued.ticket = [] := List.filterMap_eq_nil_iff.mpr none
    simp only [tickets, ThreadPool.setWorker, hq, List.filterMap_append, nothing, List.append_nil]
    exact (moved.cons_inv.append_left _).append_right _
  | ends job running =>
    have moved := filterMap_set_perm Worker.ticket (x := .finishing) running
    have done : (b.shared.push job.done job.task.session).queue.filterMap Queued.ticket =
        b.shared.queue.filterMap Queued.ticket ++ [job.ticket] := by
      simp [Shared.push, Queued.ticket, Job.done, Job.ticket]
    simp only [tickets, ThreadPool.setWorker, done, List.append_assoc]
    apply List.Perm.append_left _
    calc
      _ ~ [job.ticket] ++ ((b.pool.workers.set i .finishing).filterMap Worker.ticket ++
          b.shared.queue.filterMap Queued.ticket) := by
        rw [← List.append_assoc]
        exact List.perm_append_comm
      _ ~ _ := by
        rw [← List.append_assoc]
        exact moved.append_right _
  | rests finishing =>
    have moved := filterMap_set_perm Worker.ticket (x := .waiting) finishing
    exact (moved.append_left _).append_right _

end Backend

namespace Server

variable {s t : Server} {a : Action}

def tickets (s : Server) : List Ticket := s.toBackend.tickets ++ s.commands.filterMap Queued.ticket

/-- What the steps of the server keep. The pool is stopped last of all. -/
structure LifeInv (s : Server) : Prop where
  rep : RepInv s s.tickets
  settled : Settled s none
  last : s.pool.stopping = true → s.phase = .stopped

/-- A number that the step accepts is no longer in the map. -/
def acceptFree (s : Server) (a : Action) : Bool :=
  match s.accepted a with
  | some fd => (s.sessions fd).isNone
  | none => true

/-- The step's `onWrite`, if it is one, is safe. -/
def stepSafe (s : Server) (a : Action) : Bool :=
  match s.written a with
  | some fd => s.writeSafe fd
  | none => true

theorem Quiet.tickets (h : Quiet s t) : t.tickets = s.tickets := by
  simp only [Server.tickets, Backend.tickets, h.pool, h.queue, h.commands]

theorem Keeps.lifeInv (h : Keeps s t s.tickets)
    (last : s.pool.stopping = true → s.phase = .stopped) : LifeInv t where
  rep := by
    rw [h.quiet.tickets]
    exact h.rep
  settled := h.settled
  last := by
    rw [h.quiet.pool, h.quiet.phase]
    exact last

/-- The steps that touch none of what the invariant speaks of. -/
theorem LifeInv.same (h : LifeInv s) (same : SameLife s t)
    (closed : ∀ x, (t.obj x).closed = (s.obj x).closed) (perm : s.tickets.Perm t.tickets)
    (last : t.pool.stopping = true → t.phase = .stopped) : LifeInv t where
  rep := (h.rep.perm perm).same same
  settled := by
    intro fd x hne hx hc
    rw [same.sessions] at hx
    rw [closed] at hc
    rw [same.pendingDelete]
    exact h.settled fd x hne hx hc
  last := last

theorem worker_sameLife {i : Nat} {b : Backend} (work : s.toBackend.worker i = some b) :
    SameLife s { s with toBackend := b } ∧
      (∀ x, (b.shared.objects x).closed = (s.obj x).closed) ∧
      b.pool.stopping = s.pool.stopping := by
  cases Backend.worker_cases work with
  | executes job o rest =>
    have objects := s.shared.exec_objects o
    refine ⟨⟨rfl, rfl, rfl, rfl, s.shared.exec_next o, ?_, ?_, ?_⟩, ?_, rfl⟩
    · intro x
      obtain ⟨_, _, e⟩ := objects x
      simp only [fdOf, obj, e]
    · intro x
      obtain ⟨_, _, e⟩ := objects x
      simp only [obj, e]
    · intro x hc
      obtain ⟨_, _, e⟩ := objects x
      simpa only [obj, e] using hc
    · intro x
      obtain ⟨_, _, e⟩ := objects x
      simp only [obj, e]
  | _ => exact ⟨.of_life rfl, fun _ => rfl, rfl⟩

theorem command_lifeInv {k : Kernel} {q : Queued} {commands : List Queued} (h : LifeInv s)
    (head : s.commands = q :: commands) :
    LifeInv ({ s with commands := commands }.processCommand k q) := by
  obtain ⟨rep, settled, last⟩ := h
  -- a command that is no `TaskDone` stands for no task
  have other (none : q.ticket = none) : LifeInv { s with commands := commands } := by
    refine LifeInv.same ⟨rep, settled, last⟩ (.of_life rfl) (fun _ => rfl) ?_ last
    simp [tickets, head, none]
  unfold processCommand
  cases hq : q.cmd.type with
  | sendRaw =>
    have inv := other (by simp [Queued.ticket, hq])
    simp only
    split
    · exact inv
    · rename_i x hx
      split
      · exact inv
      · obtain ⟨sender, epoll, e⟩ :=
          sendRawDirect_eq { s with commands := commands } x q.cmd.data k.sends
        have same := sameLife_setSession (s := { s with commands := commands }) (x := x)
          { s.obj x with sender := sender } epoll s.openFds rfl rfl id
        rw [e]
        refine inv.same ⟨rfl, rfl, rfl, rfl, rfl, same.fdOf, same.freed, same.closed⟩ ?_
          (.refl _) last
        intro y
        by_cases hy : y = x
        · subst hy
          simp [obj, Shared.setSession]
        · simp [obj, Shared.setSession, hy]
  | close =>
    have inv := other (by simp [Queued.ticket, hq])
    exact (inv.rep.requestCloseClient inv.settled q.origin).lifeInv last
  | taskDone =>
    have here : q.ticket = some ⟨q.cmd.fd, q.origin⟩ := by simp [Queued.ticket, hq]
    have perm : s.tickets.Perm
        (⟨q.cmd.fd, q.origin⟩ :: { s with commands := commands }.tickets) := by
      simp only [tickets, head, List.filterMap_cons_some here]
      exact List.perm_middle
    have rep' := (rep.perm perm).same (t := { s with commands := commands }) (.of_life rfl)
    exact (rep'.onTaskDone settled).lifeInv last

theorem step_lifeInv (h : LifeInv s) (free : s.acceptFree a = true) (safe : s.stepSafe a = true)
    (hs : s.step a = some t) : LifeInv t := by
  obtain ⟨rep, settled, last⟩ := h
  cases step_effect hs with
  | plan batch phase live =>
    refine LifeInv.same ⟨rep, settled, last⟩ (.of_life rfl) (fun _ => rfl) (.refl _) ?_
    exact fun stopping => absurd (last stopping) live
  | stop =>
    exact LifeInv.same ⟨rep, settled, last⟩ (.of_life rfl) (fun _ => rfl) (.refl _) fun _ => rfl
  | drain batch phase live empty =>
    refine LifeInv.same ⟨rep, settled, last⟩ (.of_life rfl) (fun _ => rfl) ?_ ?_
    · simp [tickets, Backend.tickets, empty]
    · exact fun stopping => absurd (last stopping) live
  | accept fd batch openFds epoll number _ =>
    have free : s.sessions fd = none := by
      simpa [acceptFree, number, Option.isNone_iff_eq_none] using free
    have rep' := rep.same (t := { s with batch := batch, openFds := openFds, epoll := epoll })
      (.of_life rfl)
    exact ⟨rep'.accept free, rep'.settled_accept settled fd, last⟩
  | read fd batch recvs loop =>
    have running : s.pool.stopping = false := by
      cases e : s.pool.stopping with
      | false => rfl
      | true =>
        rw [last e] at loop
        cases loop
    have rep' := rep.same (t := { s with batch := batch }) (.of_life rfl)
    obtain ⟨jobs, read, settled', quiet⟩ := rep'.onRead settled running fd recvs
    refine ⟨read.perm ?_, settled', ?_⟩
    · rw [quiet.tickets]
      have moved : ∀ rest : List Ticket, (rest ++ jobs.map Job.ticket).Perm
          (jobs.map Job.ticket ++ rest) := fun _ => List.perm_append_comm
      have moved := moved (s.pool.workers.filterMap Worker.ticket ++
        (s.shared.queue.filterMap Queued.ticket ++ s.commands.filterMap Queued.ticket))
      simp only [tickets, Backend.tickets, List.map_append, List.append_assoc] at moved ⊢
      exact moved.append_left _
    · rw [quiet.pool, quiet.phase]
      exact last
  | write fd batch sends number =>
    have safe : s.writeSafe fd = true := by simpa [stepSafe, number] using safe
    have rep' := rep.same (t := { s with batch := batch }) (.of_life rfl)
    exact (rep'.onWrite settled safe sends).lifeInv last
  | error fd batch =>
    have rep' := rep.same (t := { s with batch := batch }) (.of_life rfl)
    exact (rep'.onError settled).lifeInv last
  | command k q commands head => exact command_lifeInv ⟨rep, settled, last⟩ head
  | worker i b _ work =>
    obtain ⟨same, closed, stopping⟩ := worker_sameLife work
    refine LifeInv.same ⟨rep, settled, last⟩ same closed ?_ (stopping ▸ last)
    exact (Backend.worker_tickets work).symm.append_right _

theorem lifeInv_start (tables : Tables) (numThreads : Nat) (listenFd eventFd : Fd) :
    LifeInv (start tables numThreads listenFd eventFd) where
  rep :=
    { mapped := fun x hx => absurd hx.1 (Nat.not_lt_zero x)
      alive := fun fd x hx => by cases hx
      counted := fun fd x hx => by cases hx
      unkeyed := fun _ _ => rfl
      pending := fun fd hf => by cases hf
      outstanding := fun t ht => by
        have idle : (start tables numThreads listenFd eventFd).tickets = [] := by
          simp [tickets, Backend.tickets, start, ThreadPool.start, Worker.ticket]
        rw [idle] at ht
        cases ht
      deleted := fun e he => by cases he }
  settled := fun fd x _ hx => by cases hx
  last := fun h => by cases h

/-! ## With numbers that are never used twice -/

def neverUsed (s : Server) (fd : Fd) : Bool :=
  (List.range s.shared.next).all fun x => s.fdOf x != fd

/-- The server on a kernel that gives out each number once. -/
def stepFresh (s : Server) (a : Action) : Option Server :=
  match s.accepted a with
  | some fd => if s.neverUsed fd then s.step a else none
  | none => s.step a

/-- Each session was deleted with its counter at zero, and no task of it is queued or with a
worker. -/
structure DeletedIdle (s : Server) : Prop where
  counter : ∀ e ∈ s.record.deleted, e.2 = 0
  queued : ∀ e ∈ s.record.deleted, ∀ job ∈ s.pool.tasks, job.task.session ≠ e.1
  finished : ∀ e ∈ s.record.deleted, ∀ r, Worker.running r ∈ s.pool.workers →
    r.job.task.session ≠ e.1

theorem LifeInv.deletedIdle (h : LifeInv s) : DeletedIdle s := by
  have gone : ∀ e ∈ s.record.deleted, ∀ t ∈ s.tickets, t.session ≠ e.1 := by
    intro e he t ht same
    have freed := (h.rep.deleted e he).2.2
    rw [← same, (h.rep.outstanding t ht).1.2] at freed
    cases freed
  refine ⟨fun e he => (h.rep.deleted e he).1, fun e he job hj => ?_, fun e he r hr => ?_⟩
  · apply gone e he job.ticket
    simp only [tickets, Backend.tickets, List.mem_append]
    exact .inl (.inl (.inl (List.mem_map_of_mem hj)))
  · apply gone e he r.job.ticket
    simp only [tickets, Backend.tickets, List.mem_append]
    exact .inl (.inl (.inr (List.mem_filterMap.mpr ⟨_, hr, rfl⟩)))

theorem stepFresh_step (hs : s.stepFresh a = some t) : s.step a = some t := by
  unfold stepFresh at hs
  split at hs
  · split at hs
    · exact hs
    · cases hs
  · exact hs

/-- A number that was never used is not in the map. -/
theorem stepFresh_acceptFree (h : LifeInv s) (hs : s.stepFresh a = some t) :
    s.acceptFree a = true := by
  unfold stepFresh at hs
  unfold acceptFree
  split at hs
  · rename_i fd number
    split at hs
    · rename_i fresh
      rw [Option.isNone_iff_eq_none]
      cases hx : s.sessions fd with
      | none => rfl
      | some x =>
        obtain ⟨here, hfd⟩ := h.rep.alive fd x hx
        have := List.all_eq_true.mp fresh x (List.mem_range.mpr here.1)
        simp [hfd] at this
    · cases hs
  · rfl

theorem stepFresh_breaks (late : ¬ s.stepSafe a = true)
    (hs : s.stepFresh a = some t) : ¬ DeletedIdle t := by
  unfold stepSafe at late
  split at late
  · rename_i fd number
    obtain ⟨batch, sends, rfl⟩ := step_written number (stepFresh_step hs)
    unfold writeSafe at late
    split at late
    · rename_i x hx
      simp only [Bool.or_eq_true, Bool.not_eq_true', beq_iff_eq, not_or, Bool.not_eq_false] at late
      obtain ⟨closed, busy⟩ := late
      obtain ⟨sender, epoll, e⟩ := handleWrite_eq { s with batch := batch } x sends
      have still : (({ s with batch := batch }.handleWrite x sends).obj x).closed = true := by
        rw [e]
        simpa [obj, Shared.setSession] using closed
      have hx' : ({ s with batch := batch }.handleWrite x sends).sessions fd = some x := by
        rw [e]
        exact hx
      obtain ⟨epoll', openFds, e'⟩ := closeClient_eq hx'
      intro idle
      simp only [onWrite, hx, still, ↓reduceIte, e'] at idle
      refine busy (idle.counter (x, _) ?_)
      rw [e]
      exact List.mem_append_right _ List.mem_cons_self
    · exact absurd rfl late
  · exact absurd rfl late

/-- **No deletion under a running task, exactly when.** On a kernel that never reuses a number,
every session deleted in a run has no task in flight, queued or running if and only if no
`onWrite` of the run meets a closed session with tasks in flight. -/
theorem deleted_idle_iff (tables : Tables) (numThreads : Nat) (listenFd eventFd : Fd)
    (as : List Action) (t : Server)
    (run : exec stepFresh (start tables numThreads listenFd eventFd) as = some t) :
    Throughout stepFresh DeletedIdle (start tables numThreads listenFd eventFd) as ↔
      Along stepFresh (stepSafe · · = true) (start tables numThreads listenFd eventFd) as :=
  throughout_iff_along (fun _ => LifeInv.deletedIdle)
    (fun _ _ _ h safe hs => step_lifeInv h (stepFresh_acceptFree h hs) safe (stepFresh_step hs))
    (fun _ _ _ _ => stepFresh_breaks) (lifeInv_start tables numThreads listenFd eventFd) run

/-- A client connects and is answered, but takes no bytes for now. Then it sends a second
packet and shuts its side down, and epoll reports both directions at once. -/
def lateWrite : List Action :=
  let connect := PacketBuilder.buildPacket .connectRequest 1 0
  [.epollWait [{ fd := 3, readable := true }], .main { accepted := some 5 },
    .epollWait [{ fd := 5, readable := true }], .main { recvs := [.bytes connect] }] ++
    List.replicate 6 (.worker 0) ++
  [.epollWait [{ fd := 4, readable := true }], .main {}, .main { sends := [.again] }, .main {},
    .epollWait [{ fd := 5, readable := true, writable := true }],
    .main { recvs := [.bytes connect, .bytes []] }, .main { sends := [.error] }]

/-- The session is deleted with a task in flight, which is still in the queue. -/
theorem deleted_under_task :
    ∃ s, exec stepFresh (start {} 1 3 4) lateWrite = some s ∧ s.record.deleted = [(0, 1)] ∧
      (s.pool.tasks.map (·.task.session)) = [0] ∧ ¬ DeletedIdle s := by
  refine ⟨_, rfl, rfl, rfl, fun h => ?_⟩
  exact absurd (h.counter (0, 1) List.mem_cons_self) (by decide)

/-- A client asks and shuts its side down while a worker prepares the answer. Its session is closed
at once, and deleted when the answer has been dropped and the `TaskDone` processed. -/
def deletedAfterTask : List Action :=
  let connect := PacketBuilder.buildPacket .connectRequest 1 0
  [.epollWait [{ fd := 3, readable := true }], .main { accepted := some 5 },
    .epollWait [{ fd := 5, readable := true }], .main { recvs := [.bytes connect] },
    .worker 0, .worker 0,
    .epollWait [{ fd := 5, readable := true }], .main { recvs := [.bytes []] }] ++
    List.replicate 4 (.worker 0) ++
  [.epollWait [{ fd := 4, readable := true }], .main {}, .main {}, .main {}]

theorem deleted_idle_before_write :
    Throughout stepFresh DeletedIdle (start {} 1 3 4) deletedAfterTask ∧
      ∃ s, exec stepFresh (start {} 1 3 4) deletedAfterTask = some s ∧
        s.record.deleted = [(0, 0)] :=
  ⟨(deleted_idle_iff {} 1 3 4 _ _ rfl).mpr (by decide +kernel), _, rfl, rfl⟩

end Server

end Cvcn
