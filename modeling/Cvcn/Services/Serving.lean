import Mathlib.Data.List.Dedup
import Cvcn.Net.Effects
import Cvcn.Net.Framing
import Cvcn.Services.Sequential

/-!
# A packet served by the running server

That packets can be handled one at a time is no assumption about the server: what `Shared.handle`
does to the shared state, some run of the event loop and one worker does.
-/

namespace Cvcn

open Atomic Framing Machine

namespace Backend

/-- The first task is taken from the queue, run to its end and reported done. -/
def serveNext (b : Backend) : Option Backend :=
  match b.pool.tasks with
  | [] => none
  | job :: tasks =>
    some { pool := { b.pool with tasks := tasks, started := b.pool.started ++ [job] }
           shared := (b.shared.handle job.task).push job.done job.task.session }

end Backend

namespace Server

variable {s t : Server} {x : SessionId} {p : RawPacket}

/-- A worker that waits takes the first task. -/
theorem step_begins {i : Nat} {job : Job} {tasks : List Job}
    (waiting : s.pool.workers[i]? = some .waiting) (head : s.pool.tasks = job :: tasks) :
    s.step (.worker i) = some { s with
      pool := { s.pool.setWorker i (.running ⟨job, taskBody job.task⟩) with
        tasks := tasks
        inFlight := s.pool.inFlight + 1
        started := s.pool.started ++ [job] } } := by
  simp only [Server.step, Backend.worker, waiting, ThreadPool.dequeue, head]
  rfl

/-- A worker executes the next operation of its task. -/
theorem step_executes {i : Nat} {job : Job} {o : Op} {rest : o.Res → ServerProg Unit}
    (running : s.pool.workers[i]? = some (.running ⟨job, .op o rest⟩)) :
    s.step (.worker i) = some { s with
      pool := s.pool.setWorker i (.running ⟨job, rest (s.shared.exec o).1⟩)
      shared := (s.shared.exec o).2 } := by
  simp only [Server.step, Backend.worker, running]
  rfl

/-- A worker runs what is left of its task while nobody else does anything. -/
theorem worker_runs {i : Nat} {job : Job} {rest : ServerProg Unit}
    (running : s.pool.workers[i]? = some (.running ⟨job, rest⟩)) :
    ∃ as, exec step s as = some { s with
      pool := s.pool.setWorker i (.running ⟨job, .done ()⟩)
      shared := (rest.run Shared.exec s.shared).2 } := by
  induction rest generalizing s with
  | done a =>
    refine ⟨[], ?_⟩
    obtain ⟨inside, here⟩ := List.getElem?_eq_some_iff.mp running
    have same : s.pool.workers.set i (.running ⟨job, .done ()⟩) = s.pool.workers := by
      rw [← here]
      exact List.set_getElem_self inside
    simp only [exec_nil, Prog.run_done, ThreadPool.setWorker, same]
  | op o rest ih =>
    let next : Server := { s with
      pool := s.pool.setWorker i (.running ⟨job, rest (s.shared.exec o).1⟩)
      shared := (s.shared.exec o).2 }
    have inside := (List.getElem?_eq_some_iff.mp running).1
    have here : next.pool.workers[i]? =
        some (.running ⟨job, rest (s.shared.exec o).1⟩) := by
      simp only [next, ThreadPool.setWorker]
      exact List.getElem?_set_self inside
    obtain ⟨as, run⟩ := ih (s.shared.exec o).1 here
    refine ⟨.worker i :: as, exec_cons.mpr ⟨next, step_executes running, run.trans ?_⟩⟩
    simp only [next, ThreadPool.setWorker, List.set_set, Prog.run_op]

/-- A worker that waits serves the first task. -/
theorem worker_serves {i : Nat} {b : Backend} (waiting : s.pool.workers[i]? = some .waiting)
    (served : s.serveNext = some b) :
    ∃ as, exec step s as = some { s with toBackend := b } := by
  unfold Backend.serveNext at served
  split at served
  · cases served
  · rename_i job tasks head
    cases served
    let begun : Server := { s with
      pool := { s.pool.setWorker i (.running ⟨job, taskBody job.task⟩) with
        tasks := tasks, inFlight := s.pool.inFlight + 1, started := s.pool.started ++ [job] } }
    obtain ⟨inside, here⟩ := List.getElem?_eq_some_iff.mp waiting
    have running : begun.pool.workers[i]? = some (.running ⟨job, taskBody job.task⟩) :=
      List.getElem?_set_self inside
    obtain ⟨as, run⟩ := worker_runs running
    refine ⟨.worker i :: (as ++ [.worker i, .worker i]), ?_⟩
    refine exec_cons.mpr ⟨begun, step_begins waiting head, exec_append.mpr ⟨_, run, ?_⟩⟩
    have last : s.pool.workers.set i .waiting = s.pool.workers := by
      rw [← here]
      exact List.set_getElem_self inside
    simp only [exec, Server.step, Backend.worker, begun, ThreadPool.setWorker, List.set_set,
      List.getElem?_set_self inside, Option.map_some, Option.bind_some,
      ThreadPool.finish, last, Nat.add_sub_cancel]
    rfl

/-- The main thread waits for events. -/
structure Waits (s : Server) : Prop where
  phase : s.phase = .eventLoop
  batch : s.batch = []
  commands : s.commands = []

/-- One event is reported, and the main thread comes to it. -/
theorem wakes (waits : s.Waits) {event : EpollEvent} (possible : s.possible event = true) :
    s.step (.epollWait [event]) = some { s with batch := [.event event] } := by
  simp [step, epollWait, waits.phase, waits.batch, waits.commands, possible]

theorem Waits.same (waits : s.Waits) :
    { s with phase := .eventLoop, batch := [], commands := [] } = s := by
  rw [← waits.phase, ← waits.batch, ← waits.commands]

theorem possible_readable {fd : Fd} :
    s.possible { fd := fd, readable := true } = true ↔ s.epoll fd ≠ none := by
  cases found : s.epoll fd <;> simp [possible, found]

theorem possible_writable {fd : Fd} :
    s.possible { fd := fd, writable := true } = true ↔ s.epoll fd = some .write := by
  cases found : s.epoll fd <;> simp [possible, found]

/-- The number is reported, and the session reads. -/
theorem reads_steps (waits : s.Waits) {fd : Fd} (known : s.epoll fd ≠ none)
    (notListen : fd ≠ s.listenFd) (notEvent : fd ≠ s.eventFd) (recvs : List RecvResult) :
    exec step s [.epollWait [{ fd := fd, readable := true }], .main { recvs := recvs }] =
      some (s.onRead fd recvs) := by
  have wake := wakes waits (possible_readable.mpr known)
  have handles : ({ s with batch := [.event { fd := fd, readable := true }] } : Server).step
      (.main { recvs := recvs }) = some (s.onRead fd recvs) := by
    simp [step, main, handleItem, handleEvent, waits.phase, waits.commands, notListen, notEvent,
      waits.same]
  simp only [exec, wake, handles, Option.bind_some]

/-- The eventfd is reported, and the commands are drained. -/
theorem drains_steps (waits : s.Waits) (known : s.epoll s.eventFd ≠ none)
    (apart : s.eventFd ≠ s.listenFd) :
    exec step s [.epollWait [{ fd := s.eventFd, readable := true }], .main {}] =
      some s.drain := by
  have wake := wakes waits (possible_readable.mpr known)
  have handles : ({ s with batch := [.event { fd := s.eventFd, readable := true }] } : Server).step
      (.main {}) = some s.drain := by
    simp [step, main, handleItem, handleEvent, waits.phase, waits.commands, apart, waits.same]
  simp only [exec, wake, handles, Option.bind_some]

/-- The number is reported as ready, and the session sends. -/
theorem writes_steps (waits : s.Waits) {fd : Fd} (asked : s.epoll fd = some .write)
    (sends : List SendResult) :
    exec step s [.epollWait [{ fd := fd, writable := true }], .main {}, .main { sends := sends }] =
      some (s.onWrite fd sends) := by
  have wake := wakes waits (possible_writable.mpr asked)
  have moves : ({ s with batch := [.event { fd := fd, writable := true }] } : Server).step
      (.main {}) = some { s with batch := [.writable fd] } := by
    simp [step, main, handleItem, handleEvent, waits.phase, waits.commands]
  have handles : ({ s with batch := [.writable fd] } : Server).step (.main { sends := sends }) =
      some (s.onWrite fd sends) := by
    simp [step, main, handleItem, waits.phase, waits.commands, waits.same]
  simp only [exec, wake, moves, handles, Option.bind_some]

/-- The session reads what arrives and stays open. -/
theorem onRead_of_open {fd : Fd} (here : s.sessions fd = some x) (opened : (s.obj x).closed = false)
    {recvs : List RecvResult} {a : PacketAssembler} {tasks : List Task}
    (read : ClientSession.handleRead x recvs (s.obj x).assembler = (a, tasks, false)) :
    s.onRead fd recvs =
      tasks.foldl (submitTask fd) (s.setSession x { s.obj x with assembler := a }) := by
  have closed : ((tasks.foldl (submitTask fd)
      (s.setSession x { s.obj x with assembler := a })).obj x).closed = false := by
    obtain ⟨inFlight, pool, e, _⟩ :=
      submitAll_pool fd (s.setSession x { s.obj x with assembler := a }) tasks
    rw [e]
    simpa [obj, setSession, Shared.setSession] using opened
  simp only [onRead, here, handleRead, read, Bool.false_eq_true, if_false, closed]

/-- What is in the session's buffer after chunks that are all accepted, and the tasks. -/
theorem handleRead_chunks {chunks : List Bytes} (full : ∀ chunk ∈ chunks, chunk ≠ [])
    {buffer : Bytes} (part : packets.cut buffer = none)
    (small : packets.refuses tooLarge (buffer ++ chunks.flatten) = false) :
    ClientSession.handleRead x (chunks.map .bytes ++ [.again]) ⟨buffer⟩ =
      (⟨(packets.split (buffer ++ chunks.flatten)).2⟩,
        (packets.accepted tooLarge (buffer ++ chunks.flatten)).map (toTask x), false) := by
  have serves : ClientSession.Serves x (buffer ++ ClientSession.received
      (chunks.map .bytes ++ [.again])) (ClientSession.hangsUp (chunks.map .bytes ++ [.again]))
      (ClientSession.handleRead x (chunks.map .bytes ++ [.again]) ⟨buffer⟩) :=
    ClientSession.handleRead_serves part
  obtain ⟨all, stays⟩ := ClientSession.received_chunks full
  rw [all, stays] at serves
  rcases read : ClientSession.handleRead x (chunks.map .bytes ++ [.again]) ⟨buffer⟩ with
    ⟨⟨rest⟩, tasks, close⟩
  rw [read] at serves
  obtain rfl : close = false := serves.close.trans (by rw [small]; rfl)
  obtain rfl : tasks = _ := serves.tasks
  obtain rfl : rest = _ := serves.rest small
  exact read

/-- The session reads a part of a packet. -/
theorem onRead_part {fd : Fd} (here : s.sessions fd = some x) (opened : (s.obj x).closed = false)
    {buffer : Bytes} (assembler : (s.obj x).assembler = ⟨buffer⟩) {chunks : List Bytes}
    (full : ∀ chunk ∈ chunks, chunk ≠ []) (part : packets.cut (buffer ++ chunks.flatten) = none) :
    s.onRead fd (chunks.map .bytes ++ [.again]) =
      s.setSession x { s.obj x with assembler := ⟨buffer ++ chunks.flatten⟩ } := by
  have read := handleRead_chunks (x := x) full (Cutter.cut_of_append part)
    (Cutter.refuses_of_none part)
  rw [Cutter.split_of_none part, Cutter.accepted_of_none part, ← assembler] at read
  exact onRead_of_open here opened read

/-- The session reads the rest of a packet, which becomes a task. -/
theorem onRead_whole {fd : Fd} (here : s.sessions fd = some x) (opened : (s.obj x).closed = false)
    {buffer : Bytes} (assembler : (s.obj x).assembler = ⟨buffer⟩) {chunks : List Bytes}
    (full : ∀ chunk ∈ chunks, chunk ≠ []) (part : packets.cut buffer = none)
    (fits : Acceptable p) (whole : buffer ++ chunks.flatten = frame p) :
    s.onRead fd (chunks.map .bytes ++ [.again]) =
      submitTask fd (s.setSession x { s.obj x with assembler := {} }) (toTask x p) := by
  have read := handleRead_chunks (x := x) full part (by rw [whole, fits.refuses])
  rw [whole, fits.split, fits.accepted, ← assembler] at read
  exact onRead_of_open here opened read

/-- The main thread waits for events and a worker for tasks, and the session for its next packet. -/
structure Serving (s : Server) (x : SessionId) : Prop extends Waits s where
  tasks : s.pool.tasks = []
  going : s.pool.stopping = false
  waiting : ∃ i : Nat, s.pool.workers[i]? = some .waiting
  here : s.sessions (s.fdOf x) = some x
  opened : (s.obj x).closed = false
  assembler : (s.obj x).assembler = {}
  known : s.epoll (s.fdOf x) ≠ none
  notListen : s.fdOf x ≠ s.listenFd
  notEvent : s.fdOf x ≠ s.eventFd

/-- A packet that arrives in one piece becomes a task. -/
theorem Serving.onRead (h : s.Serving x) (fits : Acceptable p) :
    s.onRead (s.fdOf x) [.bytes (frame p), .again] =
      submitTask (s.fdOf x) s (toTask x p) := by
  have full : ∀ chunk ∈ [frame p], chunk ≠ [] := by
    intro chunk hc
    rw [List.mem_singleton.mp hc]
    exact frame_ne_nil p
  have read := onRead_whole h.here h.opened h.assembler full rfl fits
    (List.append_nil (frame p))
  have same : s.setSession x { s.obj x with assembler := {} } = s := by
    rw [← h.assembler]
    simp [setSession, Shared.setSession, obj]
  rw [same] at read
  exact read

theorem Serving.submitted (h : s.Serving x) (task : Task) :
    (submitTask (s.fdOf x) s task).pool = { s.pool with tasks := [⟨s.fdOf x, task⟩] } := by
  simp [submitTask, Backend.submit, ThreadPool.submit, h.going, h.tasks]

theorem Serving.reads (h : s.Serving x) (fits : Acceptable p) :
    ∃ as, exec step s as = some (submitTask (s.fdOf x) s (toTask x p)) := by
  have read := reads_steps h.toWaits h.known h.notListen h.notEvent [.bytes (frame p), .again]
  rw [h.onRead fits] at read
  exact ⟨_, read⟩

end Server

namespace Shared

/-- A task changes at most the user of a session. -/
theorem handle_object (sh : Shared) (t : Task) (x : SessionId) :
    ∃ userID username, (sh.handle t).objects x =
      { sh.objects x with userID := userID, username := username } := by
  have users := sh.handle_users t
  cases login : sh.login t with
  | none =>
    rw [login] at users
    exact ⟨_, _, by rw [users.objects]⟩
  | some user =>
    rw [login] at users
    have objects : (sh.handle t).objects = Function.update sh.objects t.session
        { sh.objects t.session with userID := user.1, username := user.2 } := by
      rw [users.objects]
      unfold loggedIn registerUser
      split <;> rfl
    rw [objects]
    by_cases e : x = t.session
    · subst e
      exact ⟨_, _, Function.update_self _ _ _⟩
    · exact ⟨_, _, by rw [Function.update_of_ne e]⟩

end Shared

namespace Server

variable {s t : Server} {x : SessionId} {p : RawPacket}

/-- **A packet served.** From a server that waits, some run of it reads the packet, handles its
task and waits again. -/
theorem Serving.packet (h : s.Serving x) (fits : Acceptable p) :
    ∃ as t, exec step s as = some t ∧ t.Serving x ∧
      t.shared = (s.shared.handle (toTask x p)).push ⟨.taskDone, s.fdOf x, []⟩ x := by
  obtain ⟨_, read⟩ := h.reads fits
  obtain ⟨i, waiting⟩ := h.waiting
  let job : Job := ⟨s.fdOf x, toTask x p⟩
  have submitted := h.submitted (toTask x p)
  have served : (submitTask (s.fdOf x) s (toTask x p)).serveNext =
      some { pool := { s.pool with tasks := [], started := s.pool.started ++ [job] }
             shared := (s.shared.handle (toTask x p)).push job.done x } := by
    simp only [Backend.serveNext, submitted]
    rfl
  have waits : (submitTask (s.fdOf x) s (toTask x p)).pool.workers[i]? = some .waiting := by
    rw [submitted]
    exact waiting
  obtain ⟨as, run⟩ := worker_serves waits served
  let t : Server := { submitTask (s.fdOf x) s (toTask x p) with
    pool := { s.pool with tasks := [], started := s.pool.started ++ [job] }
    shared := (s.shared.handle (toTask x p)).push job.done x }
  refine ⟨_ ++ as, t, exec_append.mpr ⟨_, read, run⟩, ?_, rfl⟩
  obtain ⟨userID, username, object⟩ := s.shared.handle_object (toTask x p) x
  have obj : t.obj x = { s.obj x with userID := userID, username := username } := object
  have number : t.fdOf x = s.fdOf x := by
    rw [fdOf, obj]
    rfl
  constructor
  · exact ⟨h.phase, h.batch, h.commands⟩
  · rfl
  · exact h.going
  · exact ⟨i, waiting⟩
  · rw [number]
    exact h.here
  · rw [obj]
    exact h.opened
  · rw [obj]
    exact h.assembler
  · rw [number]
    exact h.known
  · rw [number]
    exact h.notListen
  · rw [number]
    exact h.notEvent

end Server

end Cvcn
