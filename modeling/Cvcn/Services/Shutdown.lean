import Cvcn.Net.WorkerLoop
import Cvcn.Services.Addressed
import Cvcn.Services.Execution
import Cvcn.Services.Network

/-!
# The results that a shutdown leaves behind

When the event loop has been left, `main` drains and processes what the workers push as long as
the pool has pending tasks. A worker pushes its last commands before it is counted out, so
between the last drain and the test that ends the loop commands may still come in; they stay in
the queue. Nothing else is lost.
-/

namespace Cvcn

open Atomic Machine

namespace Server

variable {s t : Server} {a : Action} {fd : Fd}

/-! ## What the main thread does to the pool -/

/-- The main thread stays where it is, and the workers are as they were. -/
structure SameWorkers (s t : Server) : Prop where
  phase : t.phase = s.phase
  workers : t.pool.workers = s.pool.workers
  inFlight : t.pool.inFlight = s.pool.inFlight

theorem SameLoop.sameWorkers (h : SameLoop s t) : SameWorkers s t :=
  ⟨h.phase, h.workers, h.inFlight⟩

theorem step_counted (h : s.pool.Counted) (step : s.step a = some t) : t.pool.Counted := by
  have same {u v : Server} (workers : SameWorkers u v) (pool : u.pool = s.pool) :
      v.pool.Counted := by
    unfold ThreadPool.Counted at h ⊢
    rw [workers.inFlight, workers.workers, pool]
    exact h
  cases step_effect step with
  | plan | stop | drain | accept => exact h
  | read fd batch recvs => exact same (onRead_sameLoop _ fd recvs).sameWorkers rfl
  | write fd batch sends => exact same (onWrite_sameLoop _ fd sends).sameWorkers rfl
  | error fd batch => exact same (closeOrDefer_sameLoop _ fd).sameWorkers rfl
  | command k q commands => exact same (processCommand_sameLoop _ k q).sameWorkers rfl
  | worker i b _ work =>
    cases Backend.worker_cases work with
    | begins job tasks waiting head =>
      refine ThreadPool.dequeue_counted h waiting (?_ : s.pool.dequeue Job.begin_ i = _)
      simp only [ThreadPool.dequeue, head]
    | exits waiting => exact ThreadPool.setWorker_counted h waiting rfl
    | executes job o rest running => exact ThreadPool.setWorker_counted h running rfl
    | ends job running => exact ThreadPool.setWorker_counted h running rfl
    | rests finishing => exact ThreadPool.finish_counted h finishing

/-! ## Where the main thread goes -/

/-- The step takes the main thread out of the event loop. -/
def leavesLoop (s : Server) (k : Kernel) : Bool :=
  s.commands.isEmpty && s.phase == .eventLoop &&
    match s.batch with
    | [] => k.leaves
    | .event e :: _ => e.failed && e.fd == s.listenFd
    | .writable _ :: _ => false

/-- What a step does to the phase, the pool and the result queue, once the loop is left. -/
inductive Moves (s : Server) : Action → Server → Prop where
  | loop {a : Action} {t : Server} (before : s.phase = .eventLoop)
    (after : t.phase = .eventLoop) : Moves s a t
  | leaves (k : Kernel) (batch : List Item) (leaves : s.leavesLoop k = true) :
    Moves s (.main k) { s with phase := .shutdown, batch := batch }
  | command {t : Server} (k : Kernel) (q : Queued) (commands : List Queued)
    (head : s.commands = q :: commands) (phase : t.phase = s.phase) (pool : t.pool = s.pool)
    (queue : t.shared.queue = s.shared.queue) : Moves s (.main k) t
  | drains (k : Kernel) (pending : s.pool.hasPendingTasks = true) :
    Moves s (.main k) { s with phase := .draining }
  | stops (k : Kernel) (empty : s.commands = []) (phase : s.phase = .shutdown)
    (idle : s.pool.hasPendingTasks = false) :
    Moves s (.main k) { s with phase := .stopped, pool := s.pool.stop }
  | drained (k : Kernel) (phase : s.phase = .draining) :
    Moves s (.main k) { s.drain with phase := .shutdown }
  | worker (i : Nat) (b : Backend) (work : s.toBackend.worker i = some b) :
    Moves s (.worker i) { s with toBackend := b }

theorem main_moves {k : Kernel} (step : s.main k = some t) : Moves s (.main k) t := by
  unfold main at step
  split at step
  · rename_i q commands head
    obtain rfl := Option.some.inj step
    have still := processCommand_still { s with commands := commands } k q
    have same := processCommand_sameLoop { s with commands := commands } k q
    exact .command k q commands head still.phase still.pool same.queue
  · rename_i empty
    split at step
    · rename_i phase batch
      split at step
      · rename_i leaves
        obtain rfl := Option.some.inj step
        exact .leaves k s.batch (by simp [leavesLoop, empty, phase, batch, leaves])
      · cases step
    · rename_i item batch phase head
      rcases handleItem_loop step with ⟨e, rfl, listen, rfl⟩ | ⟨same, -⟩
      · exact .leaves k [] (by simp [leavesLoop, empty, phase, head, listen])
      · exact .loop phase (same.trans phase)
    · rename_i phase
      split at step
      · rename_i pending
        obtain rfl := Option.some.inj step
        exact .drains k pending
      · rename_i idle
        obtain rfl := Option.some.inj step
        exact .stops k empty phase (Bool.eq_false_iff.mpr idle)
    · rename_i phase
      obtain rfl := Option.some.inj step
      exact .drained k phase
    · cases step

theorem step_moves (step : s.step a = some t) : Moves s a t := by
  cases a with
  | main k => exact main_moves step
  | worker i =>
    obtain ⟨b, work, rfl⟩ := Option.map_eq_some_iff.mp step
    exact .worker i b work
  | epollWait events =>
    simp only [Server.step, epollWait] at step
    split at step
    · rename_i ready
      obtain rfl := Option.some.inj step
      have loop : s.phase = .eventLoop := by
        simp only [Bool.and_eq_true, beq_iff_eq] at ready
        exact ready.1.1.1.1
      exact .loop loop loop
    · cases step

/-! ## Results that come too late -/

/-- Something is in the queue, nobody will push anything more, and `main` will not drain. -/
structure Late (s : Server) : Prop where
  phase : s.phase = .shutdown ∨ s.phase = .stopped
  idle : s.pool.hasPendingTasks = false
  left : s.shared.queue ≠ []

/-- Worker `i` is about to be counted out, and there is no other task. -/
def lastOut (s : Server) (i : Nat) : Bool :=
  match s.pool.workers[i]? with
  | some .finishing => s.pool.tasks.isEmpty && s.pool.inFlight == 1
  | _ => false

/-- The result queue is empty when the event loop is left with no pending task, and when the last
task is counted out while `main` is not between its test and its drain. -/
def InTime (s : Server) : Action → Prop
  | .main k => s.leavesLoop k = true → s.pool.hasPendingTasks = false → s.shared.queue = []
  | .worker i => s.phase = .shutdown → s.lastOut i = true → s.shared.queue = []
  | .epollWait _ => True

instance (s : Server) (a : Action) : Decidable (s.InTime a) := by
  cases a <;> unfold InTime <;> infer_instance

/-- With no pending task there is nothing to push. -/
theorem worker_silent {b b' : Backend} {i : Nat} (work : b.worker i = some b')
    (counted : b.pool.Counted) (none : b.pool.hasPendingTasks = false) :
    b'.shared = b.shared ∧ b'.pool.hasPendingTasks = false := by
  have idle {w : Worker Running} (here : b.pool.workers[i]? = some w) : w.busy = false :=
    counted.none_busy none (List.mem_of_getElem? here)
  cases Backend.worker_cases work with
  | begins job tasks waiting head =>
    have empty := (ThreadPool.hasPendingTasks_false.mp none).1
    rw [head] at empty
    cases empty
  | exits => exact ⟨rfl, none⟩
  | executes job o rest running => cases idle running
  | ends job running => cases idle running
  | rests finishing => cases idle finishing

/-- The last worker to be counted out leaves no pending task. -/
theorem worker_lastOut {i : Nat} {b : Backend} (work : s.toBackend.worker i = some b)
    (pending : s.pool.hasPendingTasks = true) :
    b.pool.hasPendingTasks = false ↔ s.lastOut i = true ∧ b.shared.queue = s.shared.queue := by
  have busy : ¬ (s.pool.tasks = [] ∧ s.pool.inFlight = 0) := by
    rw [← ThreadPool.hasPendingTasks_false, pending]
    exact Bool.noConfusion
  rw [ThreadPool.hasPendingTasks_false]
  cases Backend.worker_cases work with
  | begins job tasks waiting head => simp [lastOut, waiting]
  | exits waiting => simpa [lastOut, waiting, ThreadPool.setWorker] using busy
  | executes job o rest running => simpa [lastOut, running, ThreadPool.setWorker] using busy
  | ends job running => simpa [lastOut, running, ThreadPool.setWorker] using busy
  | rests finishing =>
    simp only [lastOut, finishing, ThreadPool.finish, ThreadPool.setWorker, and_true,
      Bool.and_eq_true, List.isEmpty_iff, beq_iff_eq]
    refine and_congr_right fun empty => ?_
    have some : s.pool.inFlight ≠ 0 := fun zero => busy ⟨empty, zero⟩
    omega

/-- What is late stays where it is. -/
theorem Late.step (h : s.Late) (counted : s.pool.Counted) (step : s.step a = some t) :
    t.Late := by
  cases step_moves step with
  | loop before =>
    rcases h.phase with phase | phase <;> cases before.symm.trans phase
  | leaves k batch leaves =>
    simp only [leavesLoop, Bool.and_eq_true, beq_iff_eq] at leaves
    rcases h.phase with phase | phase <;> cases leaves.1.2.symm.trans phase
  | command k q commands head phase pool queue =>
    exact ⟨by rw [phase]; exact h.phase, by rw [pool]; exact h.idle, by rw [queue]; exact h.left⟩
  | drains k pending => cases h.idle.symm.trans pending
  | stops => exact ⟨.inr rfl, h.idle, h.left⟩
  | drained k draining =>
    rcases h.phase with phase | phase <;> cases draining.symm.trans phase
  | worker i b work =>
    obtain ⟨shared, idle⟩ := worker_silent work counted h.idle
    refine ⟨h.phase, idle, ?_⟩
    simp only [shared]
    exact h.left

/-- A step in time makes nothing late. -/
theorem step_inTime (early : ¬ s.Late) (counted : s.pool.Counted)
    (ended : s.phase = .stopped → s.pool.hasPendingTasks = false) (inTime : s.InTime a)
    (step : s.step a = some t) : ¬ t.Late := by
  intro late
  cases step_moves step with
  | loop before after =>
    rcases late.phase with phase | phase <;> cases after.symm.trans phase
  | leaves k batch leaves => exact late.left (inTime leaves late.idle)
  | command k q commands head phase pool queue =>
    exact early ⟨phase ▸ late.phase, pool ▸ late.idle, queue ▸ late.left⟩
  | drains => rcases late.phase with phase | phase <;> cases phase
  | stops k empty phase idle => exact early ⟨.inl phase, idle, late.left⟩
  | drained => exact late.left rfl
  | worker i b work =>
    cases pending : s.pool.hasPendingTasks with
    | false =>
      obtain ⟨shared, -⟩ := worker_silent work counted pending
      exact early ⟨late.phase, pending, fun none => late.left ((congrArg _ shared).trans none)⟩
    | true =>
      obtain ⟨last, queue⟩ := (worker_lastOut work pending).mp late.idle
      cases late.phase with
      | inl phase => exact late.left (queue.trans (inTime phase last))
      | inr phase => cases (ended phase).symm.trans pending

theorem leavesLoop_main {k : Kernel} (leaves : s.leavesLoop k = true) (step : s.main k = some t) :
    t.phase = .shutdown ∧ t.pool = s.pool ∧ t.shared = s.shared := by
  simp only [leavesLoop, Bool.and_eq_true, List.isEmpty_iff, beq_iff_eq] at leaves
  obtain ⟨⟨empty, phase⟩, leaves⟩ := leaves
  cases batch : s.batch with
  | nil =>
    simp only [batch] at leaves
    simp only [main, empty, phase, batch, leaves, if_true] at step
    obtain rfl := Option.some.inj step
    exact ⟨rfl, rfl, rfl⟩
  | cons item rest =>
    cases item with
    | writable fd => simp [batch] at leaves
    | event e =>
      simp only [batch, Bool.and_eq_true, beq_iff_eq] at leaves
      simp only [main, empty, phase, batch, handleItem, handleEvent, leaves, if_true] at step
      obtain rfl := Option.some.inj step
      exact ⟨rfl, rfl, rfl⟩

/-- Any other makes what is in the queue late. -/
theorem step_late (late : ¬ s.InTime a) (step : s.step a = some t) : t.Late := by
  cases a with
  | epollWait => exact absurd trivial late
  | main k =>
    simp only [InTime, Classical.not_imp] at late
    obtain ⟨leaves, idle, left⟩ := late
    obtain ⟨phase, pool, shared⟩ := leavesLoop_main leaves step
    exact ⟨.inl phase, by rw [pool]; exact idle, by rw [shared]; exact left⟩
  | worker i =>
    simp only [InTime, Classical.not_imp] at late
    obtain ⟨phase, last, left⟩ := late
    obtain ⟨b, work, rfl⟩ := Option.map_eq_some_iff.mp step
    have pending : s.pool.hasPendingTasks = true := by
      unfold lastOut at last
      split at last
      · simp only [Bool.and_eq_true, beq_iff_eq] at last
        simp [ThreadPool.hasPendingTasks, last.2]
      · cases last
    have queue : b.shared.queue = s.shared.queue := by
      unfold lastOut at last
      split at last
      · rename_i finishing
        simp only [Backend.worker, finishing] at work
        obtain rfl := Option.some.inj work
        rfl
      · cases last
    refine ⟨.inl phase, (worker_lastOut work pending).mpr ⟨last, queue⟩, ?_⟩
    rw [queue]
    exact left

end Server

/-! ## What is pushed and what is processed -/

/-- A command that the main thread has processed, with the session that pushed it. -/
structure ProcessedCommand where
  command : Queued
  /-- The session was open when its command's turn came. -/
  opened : Bool
  /-- What `send` answered meanwhile. -/
  sends : List SendResult
  /-- The session's sender, before and after. -/
  before : PacketSender
  after : PacketSender

/-- The server with a record of its commands, which the code does not keep. -/
structure Logged where
  server : Server
  /-- The commands that the workers have pushed, in order. -/
  pushed : List Queued
  processed : List ProcessedCommand

namespace Logged

/-- The server as `main` starts it. -/
def start (tables : Tables) (numThreads : Nat) (listenFd eventFd : Fd) : Logged :=
  ⟨Server.start tables numThreads listenFd eventFd, [], []⟩

/-- What a step from `s` to `t` pushes. -/
def pushes (s t : Server) : Action → List Queued
  | .worker _ => t.shared.queue.drop s.shared.queue.length
  | _ => []

/-- What a step from `s` to `t` processes: the first of the commands drained. -/
def processes (s t : Server) : Action → List ProcessedCommand
  | .main k => s.commands.head?.toList.map fun q =>
    { command := q
      opened := !(s.obj q.origin).closed
      sends := k.sends
      before := (s.obj q.origin).sender
      after := (t.obj q.origin).sender }
  | _ => []

def step (m : Logged) (a : Action) : Option Logged :=
  (m.server.step a).map fun t =>
    { server := t
      pushed := m.pushed ++ pushes m.server t a
      processed := m.processed ++ processes m.server t a }

/-- The bytes of a `SendRaw` have gone to the sender of the session that pushed it, if that was
still open. -/
def HandedOver (e : ProcessedCommand) : Prop :=
  e.command.cmd.type = .sendRaw → e.opened = true →
    e.after = (e.before.sendPacket e.command.cmd.data e.sends).1

/-- When the shutdown is over, every command pushed has been processed, in order; and each `SendRaw`
processed was handed to its own session's sender. -/
structure Graceful (m : Logged) : Prop where
  processed : m.server.phase = .stopped → m.processed.map (·.command) = m.pushed
  handed : ∀ e ∈ m.processed, HandedOver e

/-- A command that has been pushed is in the queue, drained or processed. -/
structure Tracked (m : Logged) : Prop where
  counted : m.server.pool.Counted
  addressed : m.server.Addressed
  held : ∃ lfd efd missing, Server.Held lfd efd missing m.server
  all : m.pushed = m.processed.map (·.command) ++ m.server.commands ++ m.server.shared.queue
  ended : m.server.phase = .stopped →
    m.server.pool.hasPendingTasks = false ∧ m.server.commands = []
  handed : ∀ e ∈ m.processed, HandedOver e

theorem Tracked.graceful {m : Logged} (h : m.Tracked) (early : ¬ m.server.Late) : m.Graceful where
  processed stopped := by
    obtain ⟨idle, commands⟩ := h.ended stopped
    have queue : m.server.shared.queue = [] := by
      by_contra left
      exact early ⟨.inr stopped, idle, left⟩
    rw [h.all, commands, queue, List.append_nil, List.append_nil]
  handed := h.handed

/-- What is late at the end has not been processed. -/
theorem Tracked.not_graceful {m : Logged} (h : m.Tracked) (stopped : m.server.phase = .stopped)
    (late : m.server.Late) : ¬ m.Graceful := by
  intro graceful
  have all := graceful.processed stopped
  rw [h.all, (h.ended stopped).2, List.append_nil] at all
  exact late.left (List.self_eq_append_right.mp all)

theorem tracked_start (tables : Tables) (numThreads : Nat) (listenFd eventFd : Fd) :
    (start tables numThreads listenFd eventFd).Tracked where
  counted := ThreadPool.start_counted numThreads
  addressed := Server.addressed_start tables numThreads listenFd eventFd
  held := ⟨listenFd, eventFd, [], Server.held_start tables numThreads listenFd eventFd⟩
  all := rfl
  ended stopped := by cases stopped
  handed _ none := absurd none List.not_mem_nil

/-- A worker pushes at the end of the queue. -/
theorem worker_queue {b b' : Backend} {i : Nat} (work : b.worker i = some b') :
    ∃ pushed, b'.shared.queue = b.shared.queue ++ pushed := by
  cases Backend.worker_cases work with
  | executes job o rest =>
    obtain ⟨pushed, queue, -⟩ := b.shared.exec_queue o
    exact ⟨pushed, queue⟩
  | ends job => exact ⟨_, rfl⟩
  | begins | exits | rests => exact ⟨[], (List.append_nil _).symm⟩

/-- An open session has the number on its commands, and its sender gets their bytes. -/
theorem command_handed {s : Server} {q : Queued} {commands : List Queued} (addressed : s.Addressed)
    (held : ∃ lfd efd missing, Server.Held lfd efd missing s) (head : s.commands = q :: commands)
    (k : Kernel) :
    HandedOver
      { command := q
        opened := !(s.obj q.origin).closed
        sends := k.sends
        before := (s.obj q.origin).sender
        after := (({ s with commands := commands }.processCommand k q).obj q.origin).sender } := by
  intro type opened
  have opened : (s.obj q.origin).closed = false := by simpa using opened
  have type : q.cmd.type = .sendRaw := type
  obtain ⟨known, number⟩ := addressed.numbered q (.inl (head ▸ List.mem_cons_self)) (by simp [type])
  obtain ⟨_, _, _, held⟩ := held
  have mapped : s.sessions q.cmd.fd = some q.origin := number ▸ held.mapped q.origin known opened
  cases Server.processCommand_hands { s with commands := commands } k q with
  | packet _ here _ _ sender =>
    obtain rfl := Option.some.inj (here.symm.trans mapped)
    exact sender
  | nothing dropped =>
    have closed : (s.obj q.origin).closed = true := dropped type q.origin mapped
    cases closed.symm.trans opened

/-- With no command left to process a step of the main thread only moves commands. -/
theorem main_keeps {s t : Server} {k : Kernel} (step : s.step (.main k) = some t)
    (empty : s.commands = []) : t.commands ++ t.shared.queue = s.shared.queue := by
  have same {u : Server} {o : Option SessionId} (trims : Server.Trims u t o)
      (commands : u.commands = s.commands) (queue : u.shared.queue = s.shared.queue) :
      t.commands ++ t.shared.queue = s.shared.queue := by
    rw [trims.commands, trims.queue, commands, queue, empty]
    rfl
  cases Server.step_effect step with
  | plan | stop | accept => exact congrArg (· ++ s.shared.queue) empty
  | drain => exact List.append_nil _
  | read fd batch recvs => exact same (Server.onRead_trims _ fd recvs) rfl rfl
  | write fd batch sends => exact same (Server.onWrite_trims _ fd sends) rfl rfl
  | error fd batch => exact same (Server.closeOrDefer_trims _ fd) rfl rfl
  | command k q commands head => exact absurd (empty.symm.trans head) (by simp)
  | worker i b is => cases is

/-- When the shutdown is over nothing is pending, and nothing comes. -/
theorem step_ended {s t : Server} {a : Action} (step : s.step a = some t)
    (counted : s.pool.Counted)
    (ended : s.phase = .stopped → s.pool.hasPendingTasks = false ∧ s.commands = [])
    (stopped : t.phase = .stopped) : t.pool.hasPendingTasks = false ∧ t.commands = [] := by
  cases Server.step_moves step with
  | loop before after => cases after.symm.trans stopped
  | leaves | drains | drained => cases stopped
  | command k q commands head phase =>
    cases (ended (phase.symm.trans stopped)).2.symm.trans head
  | stops k empty phase idle => exact ⟨idle, empty⟩
  | worker i b work =>
    obtain ⟨idle, empty⟩ := ended stopped
    exact ⟨(Server.worker_silent work counted idle).2, empty⟩

theorem step_tracked {m m' : Logged} {a : Action} (h : m.Tracked) (taken : m.step a = some m') :
    m'.Tracked := by
  obtain ⟨t, step, rfl⟩ := Option.map_eq_some_iff.mp taken
  obtain ⟨lfd, efd, missing, held⟩ := h.held
  refine ⟨Server.step_counted h.counted step, Server.step_addressed h.addressed step,
    ⟨lfd, efd, _, held.step step⟩, ?_, step_ended step h.counted h.ended, ?_⟩
  · cases a with
    | epollWait events =>
      simp only [Server.step, Server.epollWait] at step
      split at step
      · obtain rfl := Option.some.inj step
        simp only [pushes, processes, List.append_nil]
        exact h.all
      · cases step
    | worker i =>
      obtain ⟨b, work, rfl⟩ := Option.map_eq_some_iff.mp step
      obtain ⟨pushed, queue⟩ := worker_queue work
      simp only [pushes, processes, queue, List.drop_left, List.append_nil]
      rw [h.all, List.append_assoc]
    | main k =>
      cases commands : m.server.commands with
      | nil =>
        simp only [pushes, processes, commands, List.append_nil]
        rw [h.all, commands, List.append_nil, List.append_assoc, main_keeps step commands]
        simp
      | cons q rest =>
        have processed : ({ m.server with commands := rest } : Server).processCommand k q = t := by
          simp only [Server.step, Server.main, commands] at step
          exact Option.some.inj step
        have same := Server.processCommand_sameLoop { m.server with commands := rest } k q
        rw [processed] at same
        simp only [pushes, processes, commands, same.commands, same.queue, List.append_nil]
        rw [h.all, commands]
        simp
  · intro e he
    cases List.mem_append.mp he with
    | inl old => exact h.handed e old
    | inr new =>
      cases a with
      | epollWait | worker => cases new
      | main k =>
        cases commands : m.server.commands with
        | nil =>
          simp only [processes, commands] at new
          cases new
        | cons q rest =>
          simp only [Server.step, Server.main, commands] at step
          obtain rfl := Option.some.inj step
          simp only [processes, commands] at new
          obtain rfl := List.mem_singleton.mp new
          exact command_handed h.addressed h.held commands k

/-- No result is lost in the shutdown if its steps are in time, and if it is over, only then. -/
theorem shutdown_graceful_iff (tables : Tables) (numThreads : Nat) (listenFd eventFd : Fd)
    {as : List Action} {m : Logged}
    (run : exec step (start tables numThreads listenFd eventFd) as = some m) :
    (Along step (fun m a => m.server.InTime a) (start tables numThreads listenFd eventFd) as →
        Throughout step Graceful (start tables numThreads listenFd eventFd) as) ∧
      (m.server.phase = .stopped → (m.Graceful ↔
        Along step (fun m a => m.server.InTime a)
          (start tables numThreads listenFd eventFd) as)) := by
  have tracked := tracked_start tables numThreads listenFd eventFd
  have early : ¬ (start tables numThreads listenFd eventFd).server.Late := fun late => late.left rfl
  have inTime (timely : Along step (fun m a => m.server.InTime a)
      (start tables numThreads listenFd eventFd) as) :
      Throughout step Graceful (start tables numThreads listenFd eventFd) as := by
    refine timely.throughout (J := fun m => m.Tracked ∧ ¬ m.server.Late)
      (fun m h => h.1.graceful h.2) (fun m a m' h ok taken => ?_) ⟨tracked, early⟩
    obtain ⟨t, step, rfl⟩ := Option.map_eq_some_iff.mp taken
    exact ⟨step_tracked h.1 taken, Server.step_inTime h.2 h.1.counted
      (fun stopped => (h.1.ended stopped).1) ok step⟩
  refine ⟨inTime, fun stopped => ⟨fun graceful => ?_, fun timely => (inTime timely).last run⟩⟩
  refine Along.of_lasting (J := Tracked) (B := fun m => m.server.Late)
    (fun m a m' h taken => step_tracked h taken) (fun m a m' h late taken => ?_)
    (fun m a m' h late taken => ?_) tracked run fun late =>
      (invariant (fun m a m' h taken => step_tracked h taken) tracked run).not_graceful
        stopped late graceful
  · obtain ⟨t, step, rfl⟩ := Option.map_eq_some_iff.mp taken
    exact Server.step_late late step
  · obtain ⟨t, step, rfl⟩ := Option.map_eq_some_iff.mp taken
    exact late.step h.counted step

/-- The event loop is left while a worker runs a request; the shutdown drains a first time. -/
def workerAtShutdown : List Action :=
  [.epollWait [{ fd := 3, readable := true }], .main { accepted := some 5 },
    .epollWait [{ fd := 5, readable := true }],
    .main { recvs := [.bytes (PacketBuilder.buildPacket .connectRequest 1 0)] },
    .worker 0, .main { leaves := true }, .main {}, .main {}]

/-- The worker pushes its response after the last drain, and is counted out before the test. -/
def lateResponse : List Action :=
  workerAtShutdown ++ List.replicate 5 (.worker 0) ++ [.main {}]

/-- The response stays in the queue, though its session is open. -/
theorem response_lost :
    ∃ m, exec step (start {} 1 3 4) lateResponse = some m ∧ m.server.phase = .stopped ∧
      (m.server.obj 0).closed = false ∧ m.processed.map (·.command) = [] ∧ ¬ m.Graceful := by
  refine ⟨_, rfl, rfl, rfl, rfl, fun h => ?_⟩
  exact absurd (h.processed rfl) (by decide)

/-- The same response with one more drain in between. -/
def drainedResponse : List Action :=
  workerAtShutdown ++ List.replicate 4 (.worker 0) ++
    [.main {}, .main {}, .main { sends := [.sent 16] }, .main {}, .worker 0, .main {}]

theorem response_sent_in_time :
    Throughout step Graceful (start {} 1 3 4) drainedResponse ∧
      ∃ m, exec step (start {} 1 3 4) drainedResponse = some m ∧ m.server.phase = .stopped ∧
        m.processed.map (·.command.cmd.type) = [.sendRaw, .taskDone] ∧
        m.processed.map (·.opened) = [true, true] :=
  ⟨(shutdown_graceful_iff {} 1 3 4 rfl).1 (by decide +kernel), _, rfl, rfl, rfl, rfl⟩

end Logged

end Cvcn
