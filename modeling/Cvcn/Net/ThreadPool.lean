import Cvcn.Lib.Threads
import Cvcn.Services.Dispatcher

/-!
# The worker pool

`ThreadPool` keeps its queue of tasks and its workers; `Backend` is the pool at work on the
shared state. A worker executes one operation of its task's program per step, so the steps
of several workers interleave in any order.
-/

namespace Cvcn

open Atomic

/-- A worker of the pool; `ρ` is what is left of the task it runs. -/
inductive Worker (ρ : Type) where
  | waiting
  | running (rest : ρ)
  /-- The task is over and `inFlight_` not yet decremented. -/
  | finishing
  | exited

structure ThreadPool (τ ρ : Type) where
  tasks : List τ
  workers : List (Worker ρ)
  stopping : Bool
  inFlight : Nat
  /-- The tasks taken from the queue so far, in order; the code keeps no such record. -/
  started : List τ

namespace ThreadPool

variable {τ ρ : Type}

/-- At least one worker, and all of them waiting. -/
def start (numThreads : Nat) : ThreadPool τ ρ :=
  ⟨[], List.replicate (max numThreads 1) .waiting, false, 0, []⟩

def submit (p : ThreadPool τ ρ) (task : τ) : ThreadPool τ ρ :=
  if p.stopping then p else { p with tasks := p.tasks ++ [task] }

def setWorker (p : ThreadPool τ ρ) (i : Nat) (w : Worker ρ) : ThreadPool τ ρ :=
  { p with workers := p.workers.set i w }

/-- Worker `i` wakes up: it takes the first task, or exits when the pool is stopping. -/
def dequeue (begin_ : τ → ρ) (p : ThreadPool τ ρ) (i : Nat) : Option (ThreadPool τ ρ) :=
  match p.tasks with
  | task :: tasks =>
    some { p.setWorker i (.running (begin_ task)) with
      tasks := tasks, inFlight := p.inFlight + 1, started := p.started ++ [task] }
  | [] => if p.stopping then some (p.setWorker i .exited) else none

def finish (p : ThreadPool τ ρ) (i : Nat) : ThreadPool τ ρ :=
  { p.setWorker i .waiting with inFlight := p.inFlight - 1 }

def hasPendingTasks (p : ThreadPool τ ρ) : Bool := !p.tasks.isEmpty || p.inFlight > 0

def stop (p : ThreadPool τ ρ) : ThreadPool τ ρ := { p with stopping := true }

end ThreadPool

/-- What the lambda of `onRead` captures: the descriptor and the task's fields. -/
structure Job where
  fd : Fd
  task : Task
  deriving DecidableEq, Repr

structure Running where
  job : Job
  rest : ServerProg Unit

/-- The operation that the worker executes next. -/
def Worker.nextOp : Worker Running → Option Op
  | .running ⟨_, .op o _⟩ => some o
  | _ => none

def Job.begin_ (job : Job) : Running := ⟨job, taskBody job.task⟩

/-- `TaskDone`, which the lambda pushes whatever the dispatch did. -/
def Job.done (job : Job) : SessionCommand := ⟨.taskDone, job.fd, []⟩

/-- The pool at work on the shared state. -/
structure Backend where
  pool : ThreadPool Job Running
  shared : Shared

/-- A worker that runs after another has come to rest was running before. -/
theorem running_of_set {workers : List (Worker Running)} {i j : Nat} {w : Worker Running}
    {r : Running} (h : (workers.set i w)[j]? = some (.running r))
    (idle : ∀ r, w ≠ .running r) :
    j ≠ i ∧ workers[j]? = some (.running r) := by
  rcases getElem?_set_cases h with ⟨_, new⟩ | old
  · exact absurd new.symm (idle r)
  · exact old

namespace Backend

/-- The next step of worker `i`. -/
def worker (b : Backend) (i : Nat) : Option Backend :=
  match b.pool.workers[i]? with
  | some .waiting => (b.pool.dequeue Job.begin_ i).map fun pool => { b with pool := pool }
  | some (.running ⟨job, .op o rest⟩) =>
    some { pool := b.pool.setWorker i (.running ⟨job, rest (b.shared.exec o).1⟩)
           shared := (b.shared.exec o).2 }
  | some (.running ⟨job, .done ()⟩) =>
    some { pool := b.pool.setWorker i .finishing
           shared := b.shared.push job.done job.task.session }
  | some .finishing => some { b with pool := b.pool.finish i }
  | _ => none

def submit (b : Backend) (job : Job) : Backend := { b with pool := b.pool.submit job }

/-- All that a worker's step can do. -/
inductive WorkerStep (b : Backend) (i : Nat) : Backend → Prop where
  | begins (job : Job) (tasks : List Job) (waiting : b.pool.workers[i]? = some .waiting)
    (head : b.pool.tasks = job :: tasks) :
    WorkerStep b i { b with pool := { b.pool.setWorker i (.running job.begin_) with
      tasks := tasks, inFlight := b.pool.inFlight + 1, started := b.pool.started ++ [job] } }
  | exits (waiting : b.pool.workers[i]? = some .waiting) (empty : b.pool.tasks = [])
    (stopping : b.pool.stopping = true) :
    WorkerStep b i { b with pool := b.pool.setWorker i .exited }
  | executes (job : Job) (o : Op) (rest : o.Res → ServerProg Unit)
    (running : b.pool.workers[i]? = some (.running ⟨job, .op o rest⟩)) :
    WorkerStep b i
      { pool := b.pool.setWorker i (.running ⟨job, rest (b.shared.exec o).1⟩)
        shared := (b.shared.exec o).2 }
  | ends (job : Job) (running : b.pool.workers[i]? = some (.running ⟨job, .done ()⟩)) :
    WorkerStep b i
      { pool := b.pool.setWorker i .finishing
        shared := b.shared.push job.done job.task.session }
  | rests (finishing : b.pool.workers[i]? = some .finishing) :
    WorkerStep b i { b with pool := b.pool.finish i }

theorem worker_cases {b b' : Backend} {i : Nat} (h : b.worker i = some b') :
    WorkerStep b i b' := by
  unfold worker at h
  split at h
  · rename_i waiting
    simp only [ThreadPool.dequeue] at h
    split at h
    · rename_i job tasks head
      cases h
      exact .begins job tasks waiting head
    · rename_i empty
      split at h
      · rename_i stopping
        cases h
        exact .exits waiting empty stopping
      · cases h
  · rename_i job o rest running
    cases h
    exact .executes job o rest running
  · rename_i job running
    cases h
    exact .ends job running
  · rename_i finishing
    cases h
    exact .rests finishing
  · cases h

/-- What a worker's step does to its task: it begins one, executes its next operation, or is
between two tasks. -/
inductive TaskStep (b : Backend) (i : Nat) : Backend → Prop where
  | begins (job : Job) (tasks : List Job) (waiting : b.pool.workers[i]? = some .waiting)
    (head : b.pool.tasks = job :: tasks) :
    TaskStep b i { b with pool := { b.pool.setWorker i (.running job.begin_) with
      tasks := tasks, inFlight := b.pool.inFlight + 1, started := b.pool.started ++ [job] } }
  | executes (job : Job) (o : Op) (rest : o.Res → ServerProg Unit)
    (running : b.pool.workers[i]? = some (.running ⟨job, .op o rest⟩)) :
    TaskStep b i
      { pool := b.pool.setWorker i (.running ⟨job, rest (b.shared.exec o).1⟩)
        shared := (b.shared.exec o).2 }
  | between (w : Worker Running) (pool : ThreadPool Job Running) (queue : List Queued)
    (idle : ∀ r, w ≠ .running r) (workers : pool.workers = b.pool.workers.set i w)
    (tasks : pool.tasks = b.pool.tasks) :
    TaskStep b i { pool := pool, shared := { b.shared with queue := queue } }

theorem worker_task {b b' : Backend} {i : Nat} (h : b.worker i = some b') : TaskStep b i b' := by
  cases worker_cases h with
  | begins job tasks waiting head => exact .begins job tasks waiting head
  | exits => exact .between .exited (b.pool.setWorker i .exited) _ nofun rfl rfl
  | executes job o rest running => exact .executes job o rest running
  | ends job => exact .between .finishing (b.pool.setWorker i .finishing) _ nofun rfl rfl
  | rests => exact .between .waiting (b.pool.finish i) _ nofun rfl rfl

end Backend

end Cvcn
