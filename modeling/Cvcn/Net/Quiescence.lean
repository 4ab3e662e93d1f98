import Cvcn.Net.Readiness
import Cvcn.Services.Shutdown

/-!
# The server at rest

Where only something outside the program can happen next, nothing is left to do: no connection
waits to be accepted, every open session that epoll watches has read all that has arrived and
dispatched it, and what it has not sent the kernel would not take, unless its last flush ended with
an error. The commands of the workers have been processed,
unless a notification was lost while `drain` read the eventfd.
-/

namespace Cvcn

open Machine Readiness Framing

namespace Server

variable {s t : Server} {a : Action}

/-- There are workers, and none leaves before the main thread stops the pool. -/
structure Staffed (s : Server) : Prop where
  manned : s.pool.workers ≠ []
  stay : Worker.exited ∈ s.pool.workers → s.phase = .stopped

theorem step_staffed (h : s.Staffed) (going : s.pool.stopping = true → s.phase = .stopped)
    (hs : s.step a = some t) : t.Staffed := by
  have same {u v : Server} (loop : SameLoop u v) (pool : u.pool = s.pool)
      (phase : u.phase = s.phase) : v.Staffed := by
    refine ⟨?_, fun left => ?_⟩
    · rw [loop.workers, pool]
      exact h.manned
    · rw [loop.workers, pool] at left
      rw [loop.phase, phase]
      exact h.stay left
  have set {i : Nat} {w : Worker Running} (stays : w ≠ .exited ∨ s.pool.stopping = true) :
      s.pool.workers.set i w ≠ [] ∧
        (Worker.exited ∈ s.pool.workers.set i w → s.phase = .stopped) := by
    refine ⟨fun none => h.manned ?_, fun left => ?_⟩
    · have size := congrArg List.length none
      rw [List.length_set] at size
      exact List.length_eq_zero_iff.mp size
    · rcases List.mem_or_eq_of_mem_set left with old | new
      · exact h.stay old
      · exact going (stays.resolve_left fun other => other new.symm)
  cases step_effect hs with
  | plan batch phase live => exact ⟨h.manned, fun left => absurd (h.stay left) live⟩
  | drain batch phase live => exact ⟨h.manned, fun left => absurd (h.stay left) live⟩
  | accept => exact ⟨h.manned, h.stay⟩
  | stop => exact ⟨h.manned, fun _ => rfl⟩
  | read fd batch recvs => exact same (onRead_sameLoop _ fd recvs) rfl rfl
  | write fd batch sends => exact same (onWrite_sameLoop _ fd sends) rfl rfl
  | error fd batch => exact same (closeOrDefer_sameLoop _ fd) rfl rfl
  | command k q commands => exact same (processCommand_sameLoop _ k q) rfl rfl
  | worker i b _ work =>
    cases Backend.worker_cases work with
    | begins job tasks waiting head =>
      have staffed := set (i := i) (w := .running job.begin_) (.inl nofun)
      exact ⟨staffed.1, staffed.2⟩
    | exits waiting empty stopping =>
      have staffed := set (i := i) (w := .exited) (.inr stopping)
      exact ⟨staffed.1, staffed.2⟩
    | executes job o rest =>
      have staffed := set (i := i) (w := .running ⟨job, rest (s.shared.exec o).1⟩) (.inl nofun)
      exact ⟨staffed.1, staffed.2⟩
    | ends job =>
      have staffed := set (i := i) (w := .finishing) (.inl nofun)
      exact ⟨staffed.1, staffed.2⟩
    | rests =>
      have staffed := set (i := i) (w := .waiting) (.inl nofun)
      exact ⟨staffed.1, staffed.2⟩

theorem staffed_start (tables : Tables) (numThreads : Nat) (listenFd eventFd : Fd) :
    (start tables numThreads listenFd eventFd).Staffed := by
  refine ⟨?_, fun left => ?_⟩
  · intro none
    have size := congrArg List.length none
    simp only [start, ThreadPool.start, List.length_replicate, List.length_nil] at size
    omega
  · cases List.eq_of_mem_replicate left

/-- Where no worker can go on and the pool has not been stopped, there is no task. -/
theorem Staffed.tasks (h : s.Staffed) (loop : s.phase ≠ .stopped)
    (stuck : ∀ i, s.toBackend.worker i = none) :
    s.pool.tasks = [] ∧ ∀ w ∈ s.pool.workers, w = .waiting := by
  have waiting (w : Worker Running) (here : w ∈ s.pool.workers) : w = .waiting := by
    obtain ⟨i, found⟩ := List.mem_iff_getElem?.mp here
    have still := stuck i
    unfold Backend.worker at still
    rw [found] at still
    match w with
    | .waiting => rfl
    | .running ⟨_, .op _ _⟩ | .running ⟨_, .done ()⟩ | .finishing => cases still
    | .exited => exact absurd (h.stay here) loop
  refine ⟨?_, waiting⟩
  obtain ⟨w, workers, staff⟩ := List.exists_cons_of_ne_nil h.manned
  have first : s.pool.workers[0]? = some .waiting := by
    rw [staff, List.getElem?_cons_zero]
    exact congrArg some (waiting w (staff ▸ List.mem_cons_self))
  have still := stuck 0
  unfold Backend.worker ThreadPool.dequeue at still
  rw [first] at still
  cases tasks : s.pool.tasks with
  | nil => rfl
  | cons job tasks =>
    simp only [tasks] at still
    cases still

/-- The main thread can go on with what it has in hand. -/
theorem main_goes_on {k : Kernel} (loop : s.phase = .eventLoop)
    (free : ∀ fd, k.accepted = some fd → s.openFds fd = false) (stuck : s.main k = none) :
    s.commands = [] ∧ s.batch = [] := by
  unfold main at stuck
  split at stuck
  · cases stuck
  · rename_i empty
    refine ⟨empty, ?_⟩
    rw [loop] at stuck
    cases batch : s.batch with
    | nil => rfl
    | cons item rest =>
      rw [batch] at stuck
      cases item with
      | writable fd => cases stuck
      | event e =>
        have goes (s' : Server) (same : s'.openFds = s.openFds) :
            s'.accept k.accepted k.addFails ≠ none := by
          cases given : k.accepted with
          | none => exact nofun
          | some fd => simp [Server.accept, same, free fd given]
        simp only [handleItem, handleEvent] at stuck
        repeat' split at stuck
        all_goals first | cases stuck | exact absurd stuck (goes _ rfl)

end Server

namespace Host

/-- Only something outside the program can happen next: the main thread is in `epoll_wait`, which
has nothing to report, and no worker has anything to do. -/
structure AtRest (h : Host) : Prop where
  loop : h.server.phase = .eventLoop
  main : ∀ m, m.leaves = false → h.main m = none
  reports : (harvest h.poll MAX_EVENTS h.ready).1 = []
  workers : ∀ i, h.worker i = none
  written : h.write = none

/-- The session has been served: all that has arrived has been read and dispatched, and what has
been answered has been sent, as far as the kernel takes it and the last flush met no error. -/
structure Served (h : Host) (fd : Fd) (x : SessionId) : Prop where
  goesOn : (h.sockets fd).ended = false ∧ (h.sockets fd).failed = false
  unread : (h.sockets fd).unread = []
  fits : packets.refuses tooLarge (h.sockets fd).arrived = false
  dispatched : (h.observed.dispatched x).Perm
    ((packets.split (h.sockets fd).arrived).1.map (toTask x))
  dropped : h.observed.dropped x = []
  output : (h.sockets fd).accepted ++ (h.server.obj x).sender.sendQueue.flatten =
    (h.server.packetsSent x).flatten
  sent : (h.sockets fd).stalled = false →
    (h.server.obj x).sender.sendQueue = [] ∨ (h.sockets fd).writable = false

variable {lfd efd fd : Fd} {x : SessionId} {h h' : Host}

/-- The main thread waits, with nothing in its hands. -/
theorem AtRest.idle (rest : h.AtRest) :
    h.resetting = false ∧ h.server.commands = [] ∧ h.server.batch = [] := by
  have stuck := rest.main {} rfl
  unfold Host.main at stuck
  by_cases reset : h.resetting = true
  · rw [if_pos reset] at stuck
    cases stuck
  · rw [if_neg reset] at stuck
    have given : (h.kernel {}).accepted = none := by
      simp only [kernel]
      split <;> rfl
    have free (fd : Fd) (number : (h.kernel {}).accepted = some fd) :
        h.server.openFds fd = false := by
      cases given.symm.trans number
    have still : h.server.main (h.kernel {}) = none :=
      Option.map_eq_none_iff.mp (Option.map_eq_none_iff.mp stuck)
    exact ⟨Bool.eq_false_iff.mpr reset, Server.main_goes_on rest.loop free still⟩

/-- Nothing that epoll could report has been left on the list. -/
theorem AtRest.silent (rest : h.AtRest) (here : fd ∈ h.ready) : h.poll fd = none :=
  harvest_quiet (Nat.succ_pos _) rest.reports fd here

/-- No client needs anything. -/
theorem AtRest.content (rest : h.AtRest) (inv : HostInv lfd efd h) (k : Kind) : ¬ h.Needs fd k := by
  intro needs
  obtain ⟨e, polled, -⟩ := needs.polled
  rcases inv.clients rest.loop fd k needs with here | ⟨item, here, -⟩
  · cases (rest.silent here).symm.trans polled
  · rw [rest.idle.2.2] at here
    cases here

/-- No connection waits to be accepted. -/
theorem AtRest.accepted (rest : h.AtRest) (inv : HostInv lfd efd h) : h.backlog = [] := by
  by_contra some
  have polled := poll_listening inv some
  rw [rest.silent (inv.listening some)] at polled
  cases polled

theorem AtRest.served (rest : h.AtRest) (inv : HostInv lfd efd h) (staffed : h.server.Staffed)
    (holds : h.server.Holds fd x) (watched : x ∉ h.unwatched) : h.Served fd x := by
  have flows := inv.flows fd x holds
  have executed := inv.exec.executed x
  obtain ⟨listening, waking⟩ := inv.held.apart fd x holds.here
  have client := And.intro listening (And.intro waking (holds.registered inv.held watched))
  have sound : (h.sockets fd).failed = false := by
    by_contra broken
    exact rest.content inv .failed ⟨client, Bool.eq_true_of_not_eq_false broken⟩
  have ended : (h.sockets fd).ended = false := by
    by_contra closes
    exact rest.content inv .readable ⟨client, sound, .inr (Bool.eq_true_of_not_eq_false closes)⟩
  have unread : (h.sockets fd).unread = [] := by
    by_contra some
    exact rest.content inv .readable ⟨client, sound, .inl some⟩
  have received : h.observed.received x = (h.sockets fd).arrived := by
    have input := flows.input
    rwa [unread, List.append_nil] at input
  have nobody : h.server.waiting x = [] := by
    have stuck (i : Nat) : h.server.toBackend.worker i = none :=
      Option.map_eq_none_iff.mp (Option.map_eq_none_iff.mp (Option.map_eq_none_iff.mp
        (rest.workers i)))
    obtain ⟨tasks, waiting⟩ := staffed.tasks (by rw [rest.loop]; decide) stuck
    have asking : h.server.pool.workers.filterMap Worker.asking = [] := by
      refine List.filterMap_eq_nil_iff.mpr fun w here => ?_
      rw [waiting w here]
      rfl
    simp only [Server.waiting, tasks, asking, List.map_nil, List.append_nil, List.filter_nil]
  obtain ⟨counted, kept⟩ := executed flows.fits
  have dropped := kept holds.opened
  constructor
  · exact ⟨ended, sound⟩
  · exact unread
  · rw [← received]
    exact flows.fits
  · have nobody : h.observed.server.waiting x = [] := nobody
    rwa [dropped, nobody, List.append_nil, List.append_nil, received] at counted
  · exact dropped
  · exact flows.output
  · intro goes
    by_contra held
    obtain ⟨left, room⟩ := not_or.mp held
    have armed := flows.armed sound goes watched
    have mask : h.server.epoll fd = some .write := by
      rw [armed.mask, List.isEmpty_eq_false_iff.mpr left]
      rfl
    exact rest.content inv .writable
      ⟨client, ⟨sound, goes⟩, mask, Bool.eq_true_of_not_eq_false room⟩

/-- The test for a state at rest. -/
def idle (h : Host) : Bool :=
  h.server.phase == .eventLoop && !h.resetting && h.server.commands.isEmpty &&
    h.server.batch.isEmpty && (harvest h.poll MAX_EVENTS h.ready).1.isEmpty &&
    h.server.pool.workers.all (fun | .waiting => true | _ => false) &&
    h.server.pool.tasks.isEmpty && !h.server.pool.stopping && h.unwritten == 0

theorem atRest_of_idle (idle : h.idle = true) : h.AtRest := by
  simp only [Host.idle, server, Bool.and_eq_true, beq_iff_eq, Bool.not_eq_true',
    List.isEmpty_iff, List.all_eq_true] at idle
  obtain ⟨⟨⟨⟨⟨⟨⟨⟨loop, reset⟩, commands⟩, batch⟩, reports⟩, workers⟩, tasks⟩, stopping⟩,
    written⟩ := idle
  constructor
  · exact loop
  · intro m stays
    have stays : (h.kernel m).leaves = false := stays
    have still : h.observed.server.main (h.kernel m) = none := by
      simp [Server.main, commands, loop, batch, stays]
    simp [Host.main, reset, Observed.step, Server.step, still]
  · exact reports
  · intro i
    have still : h.observed.server.toBackend.worker i = none := by
      unfold Backend.worker
      cases found : h.observed.server.pool.workers[i]? with
      | none => rfl
      | some w =>
        have waits := workers w (List.mem_of_getElem? found)
        cases w with
        | waiting => simp [ThreadPool.dequeue, tasks, stopping]
        | _ => cases waits
    simp [worker, Observed.step, Server.step, still]
  · simp [write, written]

/-! ## Lost notifications -/

/-- While there are commands in the queue, the eventfd has been or will be written. -/
def Woken (h : Host) : Prop :=
  h.server.shared.queue ≠ [] → h.notified = true ∨ 0 < h.unwritten

/-- `drain` reads the eventfd after a push whose command it has not taken. -/
def losesNotification (h : Host) : HostAction → Bool
  | .main _ => h.resetting && !h.server.shared.queue.isEmpty && h.unwritten == 0
  | _ => false

/-- A step of the main thread takes all commands or none. -/
theorem main_queue {s t : Server} {k : Kernel} (step : s.step (.main k) = some t) :
    t.shared.queue = s.shared.queue ∨ t.shared.queue = [] := by
  cases Server.step_effect step with
  | plan | stop | accept => exact .inl rfl
  | drain => exact .inr rfl
  | read fd batch recvs => exact .inl (Server.onRead_sameLoop _ fd recvs).queue
  | write fd batch sends => exact .inl (Server.onWrite_sameLoop _ fd sends).queue
  | error fd batch => exact .inl (Server.closeOrDefer_sameLoop _ fd).queue
  | command k q commands => exact .inl (Server.processCommand_sameLoop _ k q).queue
  | worker i b is => cases is

theorem settled_notified (m : Moment) (o : Observed) :
    (h.settled (h.kernel m) o).server = o.server ∧
      (h.settled (h.kernel m) o).notified = h.notified ∧
      (h.settled (h.kernel m) o).unwritten = h.unwritten := by
  obtain ⟨fd, reason, signals, -⟩ := h.settled_signals (h.kernel m) o
  rw [signals.same]
  exact ⟨rfl, rfl, rfl⟩

theorem step_woken {a : HostAction} (woken : h.Woken) (kept : ¬ h.losesNotification a = true)
    (hs : h.step a = some h') : h'.Woken := by
  cases a with
  | outside e =>
    have out := happens_outside hs
    rw [Woken, server, out.observed, out.notified, out.unwritten]
    exact woken
  | epollWait =>
    simp only [step, epollWait] at hs
    split at hs
    · cases hs
    · obtain ⟨o, watched, rfl⟩ := Option.map_eq_some_iff.mp hs
      obtain ⟨t, moved, rfl⟩ := Option.map_eq_some_iff.mp watched
      simp only [Server.step, Server.epollWait] at moved
      split at moved
      · cases moved
        exact woken
      · cases moved
  | write =>
    simp only [step, write] at hs
    split at hs
    · cases hs
    · cases hs
      rw [(signals_signal _ _).same]
      exact fun _ => .inl rfl
  | worker i =>
    obtain ⟨o, watched, rfl⟩ := Option.map_eq_some_iff.mp hs
    obtain ⟨t, moved, rfl⟩ := Option.map_eq_some_iff.mp watched
    obtain ⟨b, work, rfl⟩ := Option.map_eq_some_iff.mp moved
    obtain ⟨pushed, queue⟩ := Logged.worker_queue work
    have grown : b.shared.queue.length = h.server.shared.queue.length + pushed.length := by
      rw [queue, List.length_append]
      rfl
    intro some
    simp only [server] at some woken grown ⊢
    by_cases none : pushed = []
    · rw [queue, none, List.append_nil] at some
      refine (woken some).imp_right fun before => ?_
      exact Nat.lt_of_lt_of_le before (Nat.le_add_right _ _)
    · have positive := List.length_pos_iff.mpr none
      right
      omega
  | main m =>
    simp only [step, main] at hs
    split at hs
    · rename_i reset
      cases hs
      intro some
      simp only [losesNotification, reset, Bool.true_and, Bool.and_eq_true, Bool.not_eq_true',
        beq_iff_eq, not_and] at kept
      have unwritten : h.unwritten ≠ 0 := kept (List.isEmpty_eq_false_iff.mpr some)
      exact .inr (Nat.pos_of_ne_zero unwritten)
    · obtain ⟨o, watched, rfl⟩ := Option.map_eq_some_iff.mp hs
      obtain ⟨t, moved, rfl⟩ := Option.map_eq_some_iff.mp watched
      obtain ⟨server, notified, unwritten⟩ := h.settled_notified m
        ⟨t, h.observed.hears (.main (h.kernel m)),
          h.observed.asked ++ Observed.asks h.observed.server (.main (h.kernel m))⟩
      rw [Woken, server, notified, unwritten]
      intro some
      rcases main_queue moved with queue | none
      · exact woken fun empty => some (queue.trans empty)
      · exact absurd none some

theorem AtRest.woken (rest : h.AtRest) (inv : HostInv lfd efd h) (woken : h.Woken) :
    h.server.shared.queue = [] := by
  by_contra some
  have unwritten : h.unwritten = 0 := by
    by_contra some
    have stuck := rest.written
    rw [write, if_neg some] at stuck
    cases stuck
  have notified := (woken some).resolve_right (by rw [unwritten]; exact Nat.lt_irrefl 0)
  have polled := poll_waking inv notified
  rw [rest.silent (inv.waking notified)] at polled
  cases polled

/-! ## Every run -/

variable (tables : Tables) (numThreads : Nat) {listenFd eventFd : Fd}

theorem run_staffed {as : List HostAction}
    (run : exec step (start tables numThreads listenFd eventFd) as = some h) :
    h.server.Staffed := by
  obtain ⟨as', run⟩ := run_observed run
  have both : Observed.ExecInv h.observed ∧ h.observed.server.Staffed := by
    refine invariant (I := fun o => Observed.ExecInv o ∧ o.server.Staffed) ?_ ?_ run
    · intro o a o' ⟨exec, staffed⟩ hs
      refine ⟨exec.step hs, ?_⟩
      obtain ⟨t, moved, rfl⟩ := Option.map_eq_some_iff.mp hs
      exact Server.step_staffed staffed exec.going moved
    · exact ⟨Observed.execInv_start tables numThreads listenFd eventFd,
        Server.staffed_start tables numThreads listenFd eventFd⟩
  exact both.2

/-- **Nothing is forgotten.** In every state of every run, as long as the event loop runs,
whatever a session that epoll watches has to read or to be told of an error is on epoll's list or
in the batch that the main thread works off; so is what it has to resume, unless its last flush
ended with an error of `send`; and so are connections that have not been accepted and an eventfd
that has been written. -/
theorem nothing_forgotten (apart : listenFd ≠ eventFd) (as : List HostAction)
    (run : exec step (start tables numThreads listenFd eventFd) as = some h) : h.Remembered :=
  (run_inv apart run).toRemembered

/-- **Streams.** In every state of every run and for every open session, what has been read and
what is left in the socket are what has arrived, what the kernel has taken and what is queued are
the packets that the session was given to send. Unless the connection is broken, epoll has never
been told of it or the last flush ended with an error, epoll is asked for `EPOLLOUT` exactly while
something is queued. -/
theorem streams_in_order (apart : listenFd ≠ eventFd) (as : List HostAction)
    (run : exec step (start tables numThreads listenFd eventFd) as = some h) (fd : Fd)
    (x : SessionId) (holds : h.server.Holds fd x) : h.Flows fd x :=
  (run_inv apart run).flows fd x holds

/-- **Rest.** When a run comes to a state in which only something outside the program can happen
next, no connection waits to be accepted, every open session that epoll watches has been served,
and if no notification has been lost every command of the workers has been processed. -/
theorem served_at_rest (apart : listenFd ≠ eventFd) (as : List HostAction)
    (run : exec step (start tables numThreads listenFd eventFd) as = some h) (rest : h.AtRest) :
    h.backlog = [] ∧ (∀ fd x, h.server.Holds fd x → x ∉ h.unwatched → h.Served fd x) ∧
      (Along step (fun h a => ¬ h.losesNotification a = true)
          (start tables numThreads listenFd eventFd) as →
        h.server.commands = [] ∧ h.server.shared.queue = []) := by
  have inv := run_inv apart run
  have staffed := run_staffed tables numThreads run
  refine ⟨rest.accepted inv, fun fd x holds watched => rest.served inv staffed holds watched,
    fun kept => ?_⟩
  have woken : h.Woken := by
    refine Along.invariant (I := Woken) ?_ kept (fun some => absurd rfl some) run
    exact fun s a t before safe hs => step_woken before safe hs
  exact ⟨rest.idle.2.1, rest.woken inv woken⟩

/-- A request arrives in pieces, and the kernel takes its answer in two parts. -/
def servedInParts : List HostAction :=
  let request := PacketBuilder.buildPacket .connectRequest 1 0
  [.outside (.connect { room := 5 }), .epollWait, .main { accepted := some 5 },
    .outside (.receive 5 (request.take 5)), .epollWait, .main { counts := [2, 2] },
    .outside (.receive 5 (request.drop 5)), .epollWait, .main {},
    .worker 0, .worker 0, .worker 0, .worker 0, .worker 0, .write, .write, .worker 0,
    .epollWait, .main {}, .main {}, .main {}, .main {},
    .epollWait, .outside (.sent 5 20), .epollWait, .main {}, .main {}, .epollWait]

/-- The rest of the answer is queued, and the number of the client is on the list. -/
theorem nothing_forgotten_half_sent :
    ∃ h, exec step (start {} 1 3 4) (servedInParts.take 24) = some h ∧ h.Remembered ∧
      h.ready = [5] ∧ (h.server.obj 0).sender.sendQueue.map (·.length) = [7] := by
  have ran : (exec step (start {} 1 3 4) (servedInParts.take 24)).map (fun h =>
      (h.ready, (h.server.obj 0).sender.sendQueue.map (·.length))) = some ([5], [7]) := by
    decide +kernel
  obtain ⟨h, run, state⟩ := Option.map_eq_some_iff.mp ran
  exact ⟨h, run, nothing_forgotten {} 1 (by decide) _ run, Prod.mk.inj state⟩

/-- The answer stays in the queue when its `send` fails, and epoll is not asked for `EPOLLOUT`. -/
theorem streams_in_order_stalled :
    ∃ h, exec step (start {} 1 3 4)
        (servedInParts.take 20 ++ [.main { sendFails := some 0 }]) = some h ∧
      h.server.Holds 5 0 ∧ h.Flows 5 0 ∧ (h.sockets 5).stalled = true ∧
      (h.server.obj 0).sender.sendQueue.map (·.length) = [12] ∧
      h.server.epoll 5 = some .read := by
  have ran : (exec step (start {} 1 3 4)
      (servedInParts.take 20 ++ [.main { sendFails := some 0 }])).map (fun h =>
        (h.server.sessions 5, (h.server.obj 0).closed, (h.sockets 5).stalled,
          (h.server.obj 0).sender.sendQueue.map (·.length), h.server.epoll 5)) =
        some (some 0, false, true, [12], some .read) := by
    decide +kernel
  obtain ⟨h, run, state⟩ := Option.map_eq_some_iff.mp ran
  obtain ⟨here, opened, state⟩ : _ ∧ _ ∧ _ := by simpa only [Prod.mk.injEq] using state
  have holds : h.server.Holds 5 0 := ⟨here, opened⟩
  exact ⟨h, run, holds, streams_in_order {} 1 (by decide) _ run 5 0 holds, state⟩

/-- At the end of the run the client has the whole answer, in two parts. -/
theorem served_at_rest_in_parts :
    ∃ h, exec step (start {} 1 3 4) servedInParts = some h ∧ h.AtRest ∧ h.Served 5 0 := by
  have ran : (exec step (start {} 1 3 4) servedInParts).map (fun h =>
      (h.idle, h.unwatched, h.server.sessions 5, (h.server.obj 0).closed)) =
        some (true, [], some 0, false) := by
    decide +kernel
  obtain ⟨h, run, state⟩ := Option.map_eq_some_iff.mp ran
  obtain ⟨idle, watched, here, opened⟩ : _ ∧ _ ∧ _ ∧ _ := by simpa only [Prod.mk.injEq] using state
  have rest := atRest_of_idle idle
  have served := served_at_rest {} 1 (by decide) servedInParts run rest
  exact ⟨h, run, rest, served.2.1 5 0 ⟨here, opened⟩ (by rw [watched]; exact List.not_mem_nil)⟩

end Host

end Cvcn
