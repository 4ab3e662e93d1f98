import Cvcn.Net.ThreadPool

/-!
# The worker loop and its condition variable

`ThreadPool` with the waits of `cvNewTask_`: a worker that finds nothing to do falls asleep, and
`submit` and `stop` wake it up after they have left the lock. What the pool of `Net.ThreadPool`
calls a waiting worker is one that is awake or asleep.

Every task accepted is executed once and in its turn, whatever it throws; no wakeup is lost, so
the workers come to rest only with no task left.
-/

namespace Cvcn

open Atomic Machine List

/-- The worker has taken a task and not counted it out yet. -/
def Worker.busy {ρ : Type} : Worker ρ → Bool
  | .running _ | .finishing => true
  | _ => false

namespace ThreadPool

variable {τ ρ : Type} {p q : ThreadPool τ ρ} {i : Nat}

/-- `inFlight_` counts the workers between dequeue and decrement. -/
def Counted (p : ThreadPool τ ρ) : Prop := p.inFlight = p.workers.countP Worker.busy

theorem hasPendingTasks_false : p.hasPendingTasks = false ↔ p.tasks = [] ∧ p.inFlight = 0 := by
  simp [hasPendingTasks]

theorem start_counted (numThreads : Nat) : (start numThreads : ThreadPool τ ρ).Counted := by
  have none :
      (List.replicate (max numThreads 1) (Worker.waiting (ρ := ρ))).countP Worker.busy = 0 :=
    List.countP_eq_zero.mpr fun w hw => by
      rw [List.eq_of_mem_replicate hw]
      exact Bool.false_ne_true
  exact none.symm

theorem submit_counted (h : p.Counted) (task : τ) : (p.submit task).Counted := by
  unfold submit
  split <;> exact h

theorem setWorker_counted (h : p.Counted) {v w : Worker ρ} (here : p.workers[i]? = some v)
    (same : v.busy = w.busy) : (p.setWorker i w).Counted := by
  have change := countP_set_add Worker.busy (x := w) here
  rw [same] at change
  unfold Counted setWorker at *
  simp only
  omega

theorem dequeue_counted {begin_ : τ → ρ} (h : p.Counted) (waiting : p.workers[i]? = some .waiting)
    (taken : p.dequeue begin_ i = some q) : q.Counted := by
  unfold dequeue at taken
  split at taken
  · rename_i task tasks head
    obtain rfl := Option.some.inj taken
    have change := countP_set_add Worker.busy (x := .running (begin_ task)) waiting
    simp only [Worker.busy, Bool.toNat_false, Bool.toNat_true] at change
    unfold Counted setWorker at *
    simp only
    omega
  · split at taken
    · obtain rfl := Option.some.inj taken
      exact setWorker_counted h waiting rfl
    · cases taken

theorem finish_counted (h : p.Counted) (finishing : p.workers[i]? = some .finishing) :
    (p.finish i).Counted := by
  have change := countP_set_add Worker.busy (x := .waiting) finishing
  simp only [Worker.busy, Bool.toNat_false, Bool.toNat_true] at change
  unfold Counted finish setWorker at *
  simp only
  omega

/-- With no pending task no worker is busy. -/
theorem Counted.none_busy (h : p.Counted) (none : p.hasPendingTasks = false) {w : Worker ρ}
    (hw : w ∈ p.workers) : w.busy = false := by
  have zero := (hasPendingTasks_false.mp none).2
  rw [h] at zero
  exact Bool.eq_false_iff.mpr (List.countP_eq_zero.mp zero w hw)

end ThreadPool

/-- A thread of the pool in `workerLoop`. -/
inductive WorkerThread (τ : Type) where
  /-- It holds the lock next, to test what it waits for. -/
  | awake
  /-- In `cvNewTask_.wait`. -/
  | asleep
  | running (task : τ)
  /-- The task is over and `inFlight_` not yet decremented. -/
  | finishing (task : τ)
  | exited
  deriving DecidableEq

namespace WorkerThread

variable {τ : Type}

/-- What the pool without condition variables sees of a thread. -/
def worker : WorkerThread τ → Worker τ
  | .awake | .asleep => .waiting
  | .running task => .running task
  | .finishing _ => .finishing
  | .exited => .exited

def runs : WorkerThread τ → Option τ
  | .running task => some task
  | _ => none

def finishes : WorkerThread τ → Option τ
  | .finishing task => some task
  | _ => none

def sleeps : WorkerThread τ → Bool
  | .asleep => true
  | _ => false

def wake : WorkerThread τ → WorkerThread τ
  | .asleep => .awake
  | w => w

end WorkerThread

/-- How a task ends: `workerLoop` catches what it throws. -/
inductive TaskEnd where
  | returns
  | throwsException
  | throwsOther
  deriving DecidableEq

/-- The pool with its condition variable. The last three fields the code does not keep. -/
structure PoolState (τ : Type) where
  tasks : List τ
  threads : List (WorkerThread τ)
  stopping : Bool
  inFlight : Nat
  /-- The calls of `submit` that have left the lock and still notify one worker. -/
  notifyOne : Nat
  /-- `stop` has left the lock and still notifies all workers. -/
  notifyAll : Bool
  started : List τ
  /-- The tasks that are over, in the order in which they ended. -/
  executed : List τ
  /-- The tasks that their workers have counted out. -/
  finished : List τ

inductive LoopAction (τ : Type) where
  | submit (task : τ)
  /-- `notify_one`, which wakes up the thread given, or nobody when none is asleep. -/
  | notifyOne (thread : Option Nat)
  | stop
  | notifyAll
  /-- A wakeup without a notification. -/
  | wake (i : Nat)
  | thread (i : Nat) (ends : TaskEnd)

namespace PoolState

variable {τ : Type}

def start (numThreads : Nat) : PoolState τ :=
  ⟨[], List.replicate (max numThreads 1) .awake, false, 0, 0, false, [], [], []⟩

/-- What the pool is without its condition variable. -/
def pool (s : PoolState τ) : ThreadPool τ τ :=
  ⟨s.tasks, s.threads.map WorkerThread.worker, s.stopping, s.inFlight, s.started⟩

def setThread (s : PoolState τ) (i : Nat) (w : WorkerThread τ) : PoolState τ :=
  { s with threads := s.threads.set i w }

/-- The first locked section of `workerLoop`. -/
def awaits (s : PoolState τ) (i : Nat) : PoolState τ :=
  match s.tasks with
  | task :: tasks =>
    { s.setThread i (.running task) with
      tasks := tasks, inFlight := s.inFlight + 1, started := s.started ++ [task] }
  | [] => s.setThread i (if s.stopping then .exited else .asleep)

/-- The call of the task, within the `try`. -/
def calls (s : PoolState τ) (i : Nat) (task : τ) : TaskEnd → PoolState τ
  | .returns | .throwsException | .throwsOther =>
    { s.setThread i (.finishing task) with executed := s.executed ++ [task] }

/-- The second locked section of `workerLoop`. -/
def decrements (s : PoolState τ) (i : Nat) (task : τ) : PoolState τ :=
  { s.setThread i .awake with inFlight := s.inFlight - 1, finished := s.finished ++ [task] }

def step (s : PoolState τ) : LoopAction τ → Option (PoolState τ)
  | .submit task =>
    if s.stopping then some s
    else some { s with tasks := s.tasks ++ [task], notifyOne := s.notifyOne + 1 }
  | .notifyOne thread =>
    if s.notifyOne = 0 then none
    else
      match thread with
      | some i =>
        match s.threads[i]? with
        | some .asleep => some { s.setThread i .awake with notifyOne := s.notifyOne - 1 }
        | _ => none
      | none =>
        if s.threads.all fun w => !w.sleeps then some { s with notifyOne := s.notifyOne - 1 }
        else none
  | .stop => if s.stopping then some s else some { s with stopping := true, notifyAll := true }
  | .notifyAll =>
    if s.notifyAll then
      some { s with threads := s.threads.map WorkerThread.wake, notifyAll := false }
    else none
  | .wake i =>
    match s.threads[i]? with
    | some .asleep => some (s.setThread i .awake)
    | _ => none
  | .thread i ends =>
    match s.threads[i]? with
    | some .awake => some (s.awaits i)
    | some (.running task) => some (s.calls i task ends)
    | some (.finishing task) => some (s.decrements i task)
    | _ => none

/-- All that a step can do. -/
inductive PoolStep (s : PoolState τ) : LoopAction τ → PoolState τ → Prop where
  | refuses (task : τ) (stopping : s.stopping = true) : PoolStep s (.submit task) s
  | submits (task : τ) (running : s.stopping = false) :
    PoolStep s (.submit task) { s with tasks := s.tasks ++ [task], notifyOne := s.notifyOne + 1 }
  | notifiesOne (i : Nat) (due : s.notifyOne ≠ 0) (asleep : s.threads[i]? = some .asleep) :
    PoolStep s (.notifyOne (some i)) { s.setThread i .awake with notifyOne := s.notifyOne - 1 }
  | notifiesNobody (due : s.notifyOne ≠ 0) (nobody : .asleep ∉ s.threads) :
    PoolStep s (.notifyOne none) { s with notifyOne := s.notifyOne - 1 }
  | stopsAgain (stopping : s.stopping = true) : PoolStep s .stop s
  | stops (running : s.stopping = false) :
    PoolStep s .stop { s with stopping := true, notifyAll := true }
  | notifiesAll (due : s.notifyAll = true) :
    PoolStep s .notifyAll { s with threads := s.threads.map WorkerThread.wake, notifyAll := false }
  | wakes (i : Nat) (asleep : s.threads[i]? = some .asleep) :
    PoolStep s (.wake i) (s.setThread i .awake)
  | takes (i : Nat) (ends : TaskEnd) (task : τ) (tasks : List τ)
    (awake : s.threads[i]? = some .awake) (head : s.tasks = task :: tasks) :
    PoolStep s (.thread i ends) { s.setThread i (.running task) with
      tasks := tasks, inFlight := s.inFlight + 1, started := s.started ++ [task] }
  | exits (i : Nat) (ends : TaskEnd) (awake : s.threads[i]? = some .awake) (empty : s.tasks = [])
    (stopping : s.stopping = true) : PoolStep s (.thread i ends) (s.setThread i .exited)
  | fallsAsleep (i : Nat) (ends : TaskEnd) (awake : s.threads[i]? = some .awake)
    (empty : s.tasks = []) (running : s.stopping = false) :
    PoolStep s (.thread i ends) (s.setThread i .asleep)
  | runs (i : Nat) (ends : TaskEnd) (task : τ) (running : s.threads[i]? = some (.running task)) :
    PoolStep s (.thread i ends)
      { s.setThread i (.finishing task) with executed := s.executed ++ [task] }
  | counts (i : Nat) (ends : TaskEnd) (task : τ)
    (finishing : s.threads[i]? = some (.finishing task)) :
    PoolStep s (.thread i ends) (s.decrements i task)

theorem step_cases {s t : PoolState τ} {a : LoopAction τ} (h : s.step a = some t) :
    PoolStep s a t := by
  cases a with
  | submit task =>
    simp only [step] at h
    split at h
    · cases h
      exact .refuses task ‹_›
    · cases h
      exact .submits task (Bool.eq_false_iff.mpr ‹_›)
  | notifyOne thread =>
    simp only [step] at h
    split at h
    · cases h
    · rename_i due
      cases thread with
      | some i =>
        simp only at h
        split at h
        · cases h
          exact .notifiesOne i due ‹_›
        · cases h
      | none =>
        simp only at h
        split at h
        · rename_i awake
          cases h
          exact .notifiesNobody due fun asleep => absurd (List.all_eq_true.mp awake _ asleep) nofun
        · cases h
  | stop =>
    simp only [step] at h
    split at h
    · cases h
      exact .stopsAgain ‹_›
    · cases h
      exact .stops (Bool.eq_false_iff.mpr ‹_›)
  | notifyAll =>
    simp only [step] at h
    split at h
    · cases h
      exact .notifiesAll ‹_›
    · cases h
  | wake i =>
    simp only [step] at h
    split at h
    · cases h
      exact .wakes i ‹_›
    · cases h
  | thread i ends =>
    simp only [step] at h
    split at h
    · rename_i awake
      obtain rfl := Option.some.inj h
      unfold awaits
      split
      · exact .takes i ends _ _ awake ‹_›
      · rename_i empty
        by_cases stopping : s.stopping = true
        · rw [if_pos stopping]
          exact .exits i ends awake empty stopping
        · rw [if_neg stopping]
          exact .fallsAsleep i ends awake empty (Bool.eq_false_iff.mpr stopping)
    · rename_i task running
      obtain rfl := Option.some.inj h
      cases ends <;> exact .runs i _ task running
    · rename_i task finishing
      obtain rfl := Option.some.inj h
      exact .counts i ends task finishing
    · cases h

/-- What a step does to the pool without its condition variable: a worker that falls asleep or
wakes up has nothing to do there. -/
inductive Refines (p : ThreadPool τ τ) : LoopAction τ → ThreadPool τ τ → Prop where
  | submit (task : τ) : Refines p (.submit task) (p.submit task)
  | stop : Refines p .stop p.stop
  | notifyOne (thread : Option Nat) : Refines p (.notifyOne thread) p
  | notifyAll : Refines p .notifyAll p
  | wake (i : Nat) : Refines p (.wake i) p
  | dequeue (i : Nat) (ends : TaskEnd) (waiting : p.workers[i]? = some .waiting)
    (q : ThreadPool τ τ) (taken : p.dequeue id i = some q) : Refines p (.thread i ends) q
  | waits (i : Nat) (ends : TaskEnd) (waiting : p.workers[i]? = some .waiting)
    (nothing : p.dequeue id i = none) : Refines p (.thread i ends) p
  | ran (i : Nat) (ends : TaskEnd) (task : τ) (running : p.workers[i]? = some (.running task)) :
    Refines p (.thread i ends) (p.setWorker i .finishing)
  | finish (i : Nat) (ends : TaskEnd) (finishing : p.workers[i]? = some .finishing) :
    Refines p (.thread i ends) (p.finish i)

theorem Refines.counted {p q : ThreadPool τ τ} {a : LoopAction τ} (h : Refines p a q)
    (counted : p.Counted) : q.Counted := by
  cases h with
  | submit task => exact ThreadPool.submit_counted counted task
  | stop | notifyOne | notifyAll | wake | waits => exact counted
  | dequeue i _ waiting _ taken => exact ThreadPool.dequeue_counted counted waiting taken
  | ran i _ task running => exact ThreadPool.setWorker_counted counted running rfl
  | finish i _ finishing => exact ThreadPool.finish_counted counted finishing

theorem worker_at {s : PoolState τ} {i : Nat} {w : WorkerThread τ} (here : s.threads[i]? = some w) :
    s.pool.workers[i]? = some w.worker := by
  simp only [pool, List.getElem?_map, here, Option.map_some]

theorem setThread_pool (s : PoolState τ) (i : Nat) (w : WorkerThread τ) :
    (s.setThread i w).pool = s.pool.setWorker i w.worker := by
  simp only [setThread, pool, ThreadPool.setWorker, List.map_set]

/-- A thread that changes to one that the pool does not tell from it. -/
theorem setThread_same {s : PoolState τ} {i : Nat} {v w : WorkerThread τ}
    (here : s.threads[i]? = some v) (same : w.worker = v.worker) :
    (s.setThread i w).pool = s.pool := by
  obtain ⟨lt, e⟩ := List.getElem?_eq_some_iff.mp (worker_at here)
  rw [setThread_pool, ThreadPool.setWorker, same, ← e, List.set_getElem_self]

theorem wake_worker (w : WorkerThread τ) : w.wake.worker = w.worker := by
  cases w <;> rfl

/-- The pool with its condition variable refines the one without. -/
theorem step_refines {s t : PoolState τ} {a : LoopAction τ} (h : s.step a = some t) :
    Refines s.pool a t.pool := by
  cases step_cases h with
  | refuses task stopping =>
    have submitted : Refines s.pool (.submit task) (s.pool.submit task) := .submit task
    have refused : s.pool.stopping = true := stopping
    rwa [ThreadPool.submit, if_pos refused] at submitted
  | submits task running =>
    have submitted : Refines s.pool (.submit task) (s.pool.submit task) := .submit task
    have open_ : ¬ s.pool.stopping = true := Bool.eq_false_iff.mp running
    rwa [ThreadPool.submit, if_neg open_] at submitted
  | notifiesOne i due asleep =>
    have same : (s.setThread i .awake).pool = s.pool := setThread_same asleep rfl
    exact same ▸ .notifyOne _
  | notifiesNobody => exact .notifyOne none
  | stopsAgain stopping =>
    have same : s.pool.stop = s.pool := by
      simp only [ThreadPool.stop, pool, stopping]
    exact same ▸ .stop
  | stops => exact .stop
  | notifiesAll due =>
    have same : (s.threads.map WorkerThread.wake).map WorkerThread.worker =
        s.threads.map WorkerThread.worker := by
      rw [List.map_map]
      exact List.map_congr_left fun w _ => wake_worker w
    have pools : { s with threads := s.threads.map WorkerThread.wake, notifyAll := false }.pool =
        s.pool := by
      simp only [pool, same]
    rw [pools]
    exact .notifyAll
  | wakes i asleep =>
    rw [setThread_same (w := .awake) asleep rfl]
    exact .wake i
  | takes i ends task tasks awake head =>
    apply Refines.dequeue i ends (worker_at awake)
    simp only [ThreadPool.dequeue, pool, head, ThreadPool.setWorker, setThread, List.map_set]
    rfl
  | exits i ends awake empty stopping =>
    apply Refines.dequeue i ends (worker_at awake)
    have exits : s.pool.dequeue id i = some (s.pool.setWorker i .exited) := by
      simp only [ThreadPool.dequeue, pool, empty, stopping, if_true]
    rw [exits, setThread_pool]
    rfl
  | fallsAsleep i ends awake empty running =>
    rw [setThread_same (w := .asleep) awake rfl]
    apply Refines.waits i ends (worker_at awake)
    simp [ThreadPool.dequeue, pool, empty, running]
  | runs i ends task running =>
    have ran : ({ s.setThread i (.finishing task) with executed := s.executed ++ [task] }).pool =
        s.pool.setWorker i .finishing := setThread_pool s i (.finishing task)
    rw [ran]
    exact .ran i ends task (worker_at running)
  | counts i ends task finishing =>
    have counted : (s.decrements i task).pool = s.pool.finish i := by
      simp only [decrements, pool, ThreadPool.finish, ThreadPool.setWorker, setThread, List.map_set]
      rfl
    rw [counted]
    exact .finish i ends (worker_at finishing)

/-- The tasks that are submitted before the pool is stopped. -/
def accepted : List (LoopAction τ) → List τ
  | [] => []
  | .stop :: _ => []
  | .submit task :: as => task :: accepted as
  | _ :: as => accepted as

/-- The task that the step adds to those accepted. -/
def accepts (s : PoolState τ) : LoopAction τ → List τ
  | .submit task => if s.stopping then [] else [task]
  | _ => []

def running (s : PoolState τ) : List τ := s.threads.filterMap WorkerThread.runs

def finishing (s : PoolState τ) : List τ := s.threads.filterMap WorkerThread.finishes

/-- Where the tasks accepted so far are. -/
structure Tasks (acc : List τ) (s : PoolState τ) : Prop where
  order : acc = s.started ++ s.tasks
  ran : (s.executed ++ s.running).Perm s.started
  ended : (s.finished ++ s.finishing).Perm s.executed

/-- A thread changes that neither before nor after has a task in its hands. -/
theorem Tasks.setThread {acc : List τ} {s : PoolState τ} (h : Tasks acc s) {i : Nat}
    {v w : WorkerThread τ} (here : s.threads[i]? = some v) (runs : w.runs = v.runs)
    (finishes : w.finishes = v.finishes) : Tasks acc (s.setThread i w) := by
  have running := filterMap_set_perm WorkerThread.runs (x := w) here
  have finishing := filterMap_set_perm WorkerThread.finishes (x := w) here
  rw [runs] at running
  rw [finishes] at finishing
  have running := (List.perm_append_left_iff _).mp running
  have finishing := (List.perm_append_left_iff _).mp finishing
  exact ⟨h.order, (running.append_left _).trans h.ran, (finishing.append_left _).trans h.ended⟩

theorem wake_runs (w : WorkerThread τ) : w.wake.runs = w.runs := by
  cases w <;> rfl

theorem wake_finishes (w : WorkerThread τ) : w.wake.finishes = w.finishes := by
  cases w <;> rfl

/-- A thread takes one more task in its hands. -/
theorem perm_of_taken {past hands hands' all : List τ} {task : τ}
    (taken : hands'.Perm (task :: hands)) (h : (past ++ hands).Perm all) :
    (past ++ hands').Perm (all ++ [task]) :=
  calc
    past ++ hands' ~ past ++ (task :: hands) := taken.append_left _
    _ ~ past ++ hands ++ [task] := by
      rw [List.append_assoc]
      exact (List.perm_append_singleton task hands).symm.append_left _
    _ ~ all ++ [task] := h.append_right _

/-- A thread is through with a task. -/
theorem perm_of_passed {past hands hands' all : List τ} {task : τ}
    (passed : (task :: hands').Perm hands) (h : (past ++ hands).Perm all) :
    (past ++ [task] ++ hands').Perm all := by
  apply List.Perm.trans _ h
  rw [List.append_assoc]
  exact passed.append_left _

theorem step_tasks {acc : List τ} {s t : PoolState τ} {a : LoopAction τ} (h : Tasks acc s)
    (step : s.step a = some t) : Tasks (acc ++ s.accepts a) t := by
  cases step_cases step with
  | refuses task stopping =>
    simp only [accepts, stopping, if_true, List.append_nil]
    exact h
  | submits task running =>
    simp only [accepts, running, Bool.false_eq_true, if_false]
    exact ⟨by rw [h.order, List.append_assoc], h.ran, h.ended⟩
  | notifiesOne i due asleep =>
    simp only [accepts, List.append_nil]
    have woken := h.setThread (w := .awake) asleep rfl rfl
    exact ⟨woken.order, woken.ran, woken.ended⟩
  | notifiesNobody | stopsAgain | stops =>
    simp only [accepts, List.append_nil]
    exact ⟨h.order, h.ran, h.ended⟩
  | notifiesAll due =>
    simp only [accepts, List.append_nil]
    have runs : (s.threads.map WorkerThread.wake).filterMap WorkerThread.runs = s.running := by
      rw [List.filterMap_map]
      exact congrArg (List.filterMap · s.threads) (funext wake_runs)
    have finishes : (s.threads.map WorkerThread.wake).filterMap WorkerThread.finishes =
        s.finishing := by
      rw [List.filterMap_map]
      exact congrArg (List.filterMap · s.threads) (funext wake_finishes)
    refine ⟨h.order, ?_, ?_⟩
    · rw [running, runs]
      exact h.ran
    · rw [finishing, finishes]
      exact h.ended
  | wakes i asleep =>
    simp only [accepts, List.append_nil]
    exact h.setThread asleep rfl rfl
  | takes i ends task tasks awake head =>
    simp only [accepts, List.append_nil]
    have runs := filterMap_set_perm WorkerThread.runs (x := .running task) awake
    have finishes := filterMap_set_perm WorkerThread.finishes (x := .running task) awake
    refine ⟨?_, perm_of_taken runs h.ran, (finishes.append_left _).trans h.ended⟩
    rw [h.order, head, List.append_assoc]
    rfl
  | exits i ends awake =>
    simp only [accepts, List.append_nil]
    exact h.setThread awake rfl rfl
  | fallsAsleep i ends awake =>
    simp only [accepts, List.append_nil]
    exact h.setThread awake rfl rfl
  | runs i ends task running =>
    simp only [accepts, List.append_nil]
    have runs := filterMap_set_perm WorkerThread.runs (x := .finishing task) running
    have finishes := filterMap_set_perm WorkerThread.finishes (x := .finishing task) running
    exact ⟨h.order, perm_of_passed runs h.ran, perm_of_taken finishes h.ended⟩
  | counts i ends task finishing =>
    simp only [accepts, List.append_nil]
    have runs := filterMap_set_perm WorkerThread.runs (x := .awake) finishing
    have finishes := filterMap_set_perm WorkerThread.finishes (x := .awake) finishing
    exact ⟨h.order, (runs.append_left _).trans h.ran, perm_of_passed finishes h.ended⟩

theorem step_stopping {s t : PoolState τ} {a : LoopAction τ} (step : s.step a = some t) :
    t.stopping = true ↔ s.stopping = true ∨ a = .stop := by
  cases step_cases step with
  | refuses | submits | notifiesOne | notifiesNobody | notifiesAll | wakes | takes | exits
  | fallsAsleep | runs | counts => exact ⟨.inl, fun h => h.resolve_right (by simp)⟩
  | stopsAgain stopping => exact ⟨.inl, fun _ => stopping⟩
  | stops => exact ⟨fun _ => .inr rfl, fun _ => rfl⟩

theorem accepts_append {s t : PoolState τ} {a : LoopAction τ} (step : s.step a = some t)
    (as : List (LoopAction τ)) :
    (s.accepts a ++ if t.stopping then [] else accepted as) =
      if s.stopping then [] else accepted (a :: as) := by
  have stops := step_stopping step
  by_cases stopping : s.stopping = true
  · rw [if_pos (stops.mpr (.inl stopping)), if_pos stopping]
    cases a <;> simp [accepts, stopping]
  · rw [if_neg stopping]
    by_cases stop : a = .stop
    · rw [if_pos (stops.mpr (.inr stop)), stop]
      rfl
    · rw [if_neg fun after => (stops.mp after).elim stopping stop]
      cases a with
      | stop => exact absurd rfl stop
      | submit task =>
        simp only [accepts, stopping, accepted]
        rfl
      | notifyOne | notifyAll | wake | thread => rfl

theorem run_tasks {acc : List τ} {s t : PoolState τ} {as : List (LoopAction τ)} (h : Tasks acc s)
    (run : exec step s as = some t) :
    Tasks (acc ++ if s.stopping then [] else accepted as) t := by
  induction as generalizing acc s with
  | nil =>
    cases run
    have none : ∀ b : Bool, (if b then [] else accepted ([] : List (LoopAction τ))) = [] := by
      intro b
      cases b <;> rfl
    rw [none, List.append_nil]
    exact h
  | cons a as ih =>
    obtain ⟨m, first, run⟩ := exec_cons.mp run
    have after := ih (step_tasks h first) run
    rwa [List.append_assoc, accepts_append first] at after

/-- Nobody sleeps on a task or on the end of the pool. -/
structure Wakeful (s : PoolState τ) : Prop where
  manned : s.threads ≠ []
  exited : .exited ∈ s.threads → s.stopping = true ∧ s.tasks = []
  wakeups : s.tasks ≠ [] → s.notifyOne ≠ 0 ∨ ∃ w ∈ s.threads, w ≠ .asleep ∧ w ≠ .exited
  told : s.stopping = true → .asleep ∈ s.threads → s.notifyAll = true

theorem start_wakeful (numThreads : Nat) : (start numThreads : PoolState τ).Wakeful where
  manned := by
    intro none
    have none := congrArg List.length none
    simp [start] at none
  exited h := by
    have awake := List.eq_of_mem_replicate h
    cases awake
  wakeups h := absurd rfl h
  told h := by cases h

/-- A thread that comes out awake, running or finishing takes care of the tasks. -/
theorem Wakeful.setThread {s t : PoolState τ} (h : s.Wakeful) {i : Nat} {v w : WorkerThread τ}
    (here : s.threads[i]? = some v) (threads : t.threads = s.threads.set i w)
    (stopping : t.stopping = s.stopping) (notifyAll : t.notifyAll = s.notifyAll)
    (tasks : s.tasks = [] → t.tasks = []) (awake : w ≠ .asleep ∧ w ≠ .exited) : t.Wakeful where
  manned := by
    rw [threads]
    exact List.ne_nil_of_mem (mem_set_new here)
  exited exited := by
    rw [threads] at exited
    have old := (List.mem_or_eq_of_mem_set exited).resolve_right fun e => awake.2 e.symm
    have before := h.exited old
    exact ⟨stopping.trans before.1, tasks before.2⟩
  wakeups _ := .inr ⟨w, threads ▸ mem_set_new here, awake⟩
  told stops asleep := by
    rw [threads] at asleep
    rw [notifyAll]
    exact h.told (stopping ▸ stops)
      ((List.mem_or_eq_of_mem_set asleep).resolve_right fun e => awake.1 e.symm)

theorem step_wakeful {s t : PoolState τ} {a : LoopAction τ} (h : s.Wakeful)
    (step : s.step a = some t) : t.Wakeful := by
  cases step_cases step with
  | refuses | stopsAgain => exact h
  | submits task running =>
    refine ⟨h.manned, fun exited => ?_, fun _ => .inl (Nat.succ_ne_zero _), h.told⟩
    exact absurd (running.symm.trans (h.exited exited).1) (by simp)
  | notifiesOne i due asleep =>
    exact h.setThread asleep rfl rfl rfl id (by simp)
  | notifiesNobody due nobody =>
    refine ⟨h.manned, h.exited, fun left => .inr ?_, h.told⟩
    obtain ⟨w, hw⟩ := List.exists_mem_of_ne_nil _ h.manned
    exact ⟨w, hw, fun e => nobody (e ▸ hw), fun e => left (h.exited (e ▸ hw)).2⟩
  | stops => exact ⟨h.manned, fun exited => ⟨rfl, (h.exited exited).2⟩, h.wakeups, fun _ _ => rfl⟩
  | notifiesAll due =>
    have awake : .asleep ∉ s.threads.map WorkerThread.wake := by
      intro asleep
      obtain ⟨w, _, e⟩ := List.mem_map.mp asleep
      cases w <;> cases e
    have exited : .exited ∈ s.threads.map WorkerThread.wake → .exited ∈ s.threads := by
      intro exited
      obtain ⟨w, hw, e⟩ := List.mem_map.mp exited
      cases w <;> cases e
      exact hw
    refine ⟨fun none => h.manned (List.map_eq_nil_iff.mp none), fun e => h.exited (exited e),
      fun left => .inr ?_, fun _ asleep => absurd asleep awake⟩
    obtain ⟨w, hw⟩ := List.exists_mem_of_ne_nil _ h.manned
    have woken := List.mem_map_of_mem (f := WorkerThread.wake) hw
    exact ⟨w.wake, woken, fun e => awake (e ▸ woken),
      fun e => left (h.exited (exited (e ▸ woken))).2⟩
  | wakes i asleep => exact h.setThread asleep rfl rfl rfl id (by simp)
  | takes i ends task tasks awake head =>
    exact h.setThread awake rfl rfl rfl (fun empty => absurd (head.symm.trans empty) (by simp))
      (by simp)
  | exits i ends awake empty stopping =>
    refine ⟨List.ne_nil_of_mem (mem_set_new awake), fun _ => ⟨stopping, empty⟩,
      fun left => absurd empty left, fun stops asleep => ?_⟩
    exact h.told stops ((List.mem_or_eq_of_mem_set asleep).resolve_right (by simp))
  | fallsAsleep i ends awake empty running =>
    refine ⟨List.ne_nil_of_mem (mem_set_new awake), fun exited => ?_,
      fun left => absurd empty left, fun stops => absurd (running.symm.trans stops) (by simp)⟩
    exact h.exited ((List.mem_or_eq_of_mem_set exited).resolve_right (by simp))
  | runs i ends task running => exact h.setThread running rfl rfl rfl id (by simp)
  | counts i ends task finishing => exact h.setThread finishing rfl rfl rfl id (by simp)

/-- The steps of the threads and the notifications that are due: what happens without a call
from outside and without a spurious wakeup. -/
def internal (s : PoolState τ) : LoopAction τ → Option (PoolState τ)
  | .submit _ | .stop | .wake _ => none
  | a => s.step a

/-- How many of its own steps a thread has before it. -/
def weight : WorkerThread τ → Nat
  | .asleep | .exited => 0
  | .awake => 1
  | .finishing _ => 2
  | .running _ => 3

/-- A bound on the internal steps. -/
def rank (s : PoolState τ) : Nat :=
  3 * s.tasks.length + (s.threads.map weight).sum + 2 * s.notifyOne +
    if s.notifyAll then s.threads.length + 1 else 0

theorem wake_weight (threads : List (WorkerThread τ)) :
    ((threads.map WorkerThread.wake).map weight).sum ≤
      (threads.map weight).sum + threads.length := by
  induction threads with
  | nil => exact Nat.le_refl _
  | cons w threads ih =>
    have one : weight w.wake ≤ weight w + 1 := by
      cases w <;> simp [WorkerThread.wake, weight]
    simp only [List.map_cons, List.sum_cons, List.length_cons]
    omega

theorem internal_step {s t : PoolState τ} {a : LoopAction τ} (h : s.internal a = some t) :
    s.step a = some t ∧ s.accepts a = [] ∧ t.stopping = s.stopping ∧ t.rank < s.rank := by
  have step : s.step a = some t := by
    cases a with
    | submit | stop | wake => cases h
    | notifyOne | notifyAll | thread => exact h
  refine ⟨step, ?_⟩
  cases step_cases step with
  | refuses | submits | stopsAgain | stops | wakes => cases h
  | notifiesOne i due asleep =>
    have weights := sum_map_set_add weight (x := .awake) asleep
    refine ⟨rfl, rfl, ?_⟩
    simp only [rank, setThread, List.length_set, weight] at weights ⊢
    omega
  | notifiesNobody due =>
    refine ⟨rfl, rfl, ?_⟩
    simp only [rank]
    omega
  | notifiesAll due =>
    have weights := wake_weight s.threads
    refine ⟨rfl, rfl, ?_⟩
    simp only [rank, due, if_true, Bool.false_eq_true, if_false]
    omega
  | takes i ends task tasks awake head =>
    have weights := sum_map_set_add weight (x := .running task) awake
    refine ⟨rfl, rfl, ?_⟩
    simp only [rank, setThread, List.length_set, weight, head, List.length_cons] at weights ⊢
    omega
  | exits i ends awake =>
    have weights := sum_map_set_add weight (x := .exited) awake
    refine ⟨rfl, rfl, ?_⟩
    simp only [rank, setThread, List.length_set, weight] at weights ⊢
    omega
  | fallsAsleep i ends awake =>
    have weights := sum_map_set_add weight (x := .asleep) awake
    refine ⟨rfl, rfl, ?_⟩
    simp only [rank, setThread, List.length_set, weight] at weights ⊢
    omega
  | runs i ends task running =>
    have weights := sum_map_set_add weight (x := .finishing task) running
    refine ⟨rfl, rfl, ?_⟩
    simp only [rank, setThread, List.length_set, weight] at weights ⊢
    omega
  | counts i ends task finishing =>
    have weights := sum_map_set_add weight (x := .awake) finishing
    refine ⟨rfl, rfl, ?_⟩
    simp only [rank, decrements, setThread, List.length_set, weight] at weights ⊢
    omega

/-- Where no internal step is possible, every thread sleeps or has exited, and nothing is due. -/
theorem at_rest {s : PoolState τ} (stuck : ∀ a, s.internal a = none) :
    (∀ w ∈ s.threads, w = .asleep ∨ w = .exited) ∧ s.notifyOne = 0 ∧ s.notifyAll = false := by
  refine ⟨fun w hw => ?_, ?_, ?_⟩
  · obtain ⟨i, here⟩ := List.mem_iff_getElem?.mp hw
    have step := stuck (.thread i .returns)
    simp only [internal, PoolState.step, here] at step
    cases w with
    | asleep => exact .inl rfl
    | exited => exact .inr rfl
    | awake | running | finishing => cases step
  · by_contra due
    by_cases asleep : .asleep ∈ s.threads
    · obtain ⟨i, here⟩ := List.mem_iff_getElem?.mp asleep
      have step := stuck (.notifyOne (some i))
      simp [internal, PoolState.step, due, here] at step
    · have step := stuck (.notifyOne none)
      have nobody : (s.threads.all fun w => !w.sleeps) = true := by
        apply List.all_eq_true.mpr
        intro w hw
        cases w with
        | asleep => exact absurd hw asleep
        | awake | running | finishing | exited => rfl
      simp [internal, PoolState.step, due, nobody] at step
  · have step := stuck .notifyAll
    by_contra due
    simp [internal, PoolState.step, due] at step

theorem none_busy {s : PoolState τ} (counted : s.pool.Counted)
    (rest : ∀ w ∈ s.threads, w = .asleep ∨ w = .exited) : s.inFlight = 0 := by
  apply counted.trans
  apply List.countP_eq_zero.mpr
  intro v hv
  obtain ⟨w, hw, rfl⟩ := List.mem_map.mp hv
  cases rest w hw with
  | inl asleep => simp [asleep, WorkerThread.worker, Worker.busy]
  | inr exited => simp [exited, WorkerThread.worker, Worker.busy]

/-- Left to itself the pool works off its tasks, and its threads exit once it is stopped. -/
theorem comes_to_rest {s : PoolState τ} (wakeful : s.Wakeful) (counted : s.pool.Counted)
    {acc : List τ} (tasks : Tasks acc s) :
    Inevitable internal (fun t => Tasks acc t ∧ t.pool.Counted ∧ t.pool.hasPendingTasks = false ∧
      (s.stopping = true → ∀ w ∈ t.threads, w = .exited)) s := by
  apply Inevitable.of_rank (R := fun k t => t.rank = k ∧ t.Wakeful ∧ t.pool.Counted ∧ Tasks acc t ∧
    t.stopping = s.stopping) (k := s.rank)
  · exact ⟨rfl, wakeful, counted, tasks, rfl⟩
  · rintro k t a u ⟨rfl, wakeful, counted, tasks, stopping⟩ step
    obtain ⟨step, none, same, lower⟩ := internal_step step
    have tasks := step_tasks tasks step
    rw [none, List.append_nil] at tasks
    exact ⟨u.rank, lower, rfl, step_wakeful wakeful step, (step_refines step).counted counted,
      tasks, same.trans stopping⟩
  · rintro k t ⟨_, wakeful, counted, tasks, stopping⟩ stuck
    obtain ⟨rest, one, all⟩ := at_rest stuck
    have empty : t.tasks = [] := by
      by_contra left
      cases wakeful.wakeups left with
      | inl due => exact due one
      | inr awake =>
        obtain ⟨w, hw, notAsleep, notExited⟩ := awake
        exact (rest w hw).elim notAsleep notExited
    have nothing : t.pool.hasPendingTasks = false :=
      ThreadPool.hasPendingTasks_false.mpr ⟨empty, none_busy counted rest⟩
    refine ⟨tasks, counted, nothing, ?_⟩
    intro stops w hw
    apply (rest w hw).resolve_left
    intro asleep
    have told := wakeful.told (stopping.trans stops) (asleep ▸ hw)
    rw [all] at told
    cases told

theorem busy_length (s : PoolState τ) :
    s.pool.workers.countP Worker.busy = s.running.length + s.finishing.length := by
  simp only [pool, running, finishing]
  induction s.threads with
  | nil => rfl
  | cons w threads ih =>
    rw [List.map_cons, List.countP_cons, ih]
    cases w with
    | running task | finishing task =>
      simp only [WorkerThread.worker, Worker.busy, List.filterMap_cons, WorkerThread.runs,
        WorkerThread.finishes, List.length_cons, if_true]
      omega
    | awake | asleep | exited => rfl

/-- No task is pending exactly when every accepted one has been executed and counted out. -/
theorem Tasks.pending_iff {acc : List τ} {s : PoolState τ} (h : Tasks acc s)
    (counted : s.pool.Counted) : s.pool.hasPendingTasks = false ↔ s.finished.Perm acc := by
  have busy : s.inFlight = s.running.length + s.finishing.length := counted.trans (busy_length s)
  have ran := h.ran.length_eq
  have ended := h.ended.length_eq
  have order := congrArg List.length h.order
  simp only [List.length_append] at ran ended order
  rw [ThreadPool.hasPendingTasks_false]
  constructor
  · rintro ⟨empty, zero⟩
    have empty : s.tasks = [] := empty
    have zero : s.inFlight = 0 := zero
    have running : s.running = [] := List.length_eq_zero_iff.mp (by omega)
    have finishing : s.finishing = [] := List.length_eq_zero_iff.mp (by omega)
    have ran := h.ran
    have ended := h.ended
    rw [running, List.append_nil] at ran
    rw [finishing, List.append_nil] at ended
    rw [h.order, empty, List.append_nil]
    exact ended.trans ran
  · intro all
    have size := all.length_eq
    refine ⟨List.length_eq_zero_iff.mp ?_, ?_⟩
    · show s.tasks.length = 0
      omega
    · show s.inFlight = 0
      omega

/-- With no task pending every accepted one has been executed, and exactly once. -/
theorem Tasks.executed {acc : List τ} {s : PoolState τ} (h : Tasks acc s)
    (counted : s.pool.Counted) (none : s.pool.hasPendingTasks = false) : s.executed.Perm acc := by
  have all := (h.pending_iff counted).mp none
  have zero := (ThreadPool.hasPendingTasks_false.mp none).2
  have busy : s.inFlight = s.running.length + s.finishing.length := counted.trans (busy_length s)
  have zero : s.inFlight = 0 := zero
  have finishing : s.finishing = [] := List.length_eq_zero_iff.mp (by omega)
  have ended := h.ended
  rw [finishing, List.append_nil] at ended
  exact ended.symm.trans all

/-- The pool over any run. The tasks submitted before it was stopped, and no others, start in their
order and are executed once each; `inFlight_` counts the workers between dequeue and decrement;
no task is pending exactly when every accepted one has been counted out; when all threads have
exited nothing is left; and the threads get there by themselves. -/
theorem tasks_run_once (numThreads : Nat) {as : List (LoopAction τ)} {s : PoolState τ}
    (run : exec step (start numThreads) as = some s) :
    accepted as = s.started ++ s.tasks ∧
      (s.executed ++ s.running).Perm s.started ∧
      s.inFlight = s.running.length + s.finishing.length ∧
      (s.pool.hasPendingTasks = false ↔ s.finished.Perm (accepted as)) ∧
      ((∀ w ∈ s.threads, w = .exited) →
        s.tasks = [] ∧ s.inFlight = 0 ∧ s.executed.Perm (accepted as)) ∧
      Inevitable internal (fun t => t.executed.Perm (accepted as) ∧
        t.pool.hasPendingTasks = false ∧
        (s.stopping = true → ∀ w ∈ t.threads, w = .exited)) s := by
  have idle : ∀ f : WorkerThread τ → Option τ, f .awake = none →
      (start numThreads : PoolState τ).threads.filterMap f = [] := by
    intro f none
    apply List.filterMap_eq_nil_iff.mpr
    intro w hw
    rw [List.eq_of_mem_replicate hw]
    exact none
  have first : Tasks [] (start numThreads : PoolState τ) := by
    refine ⟨rfl, ?_, ?_⟩
    · rw [PoolState.running, idle _ rfl]
      exact .nil
    · rw [PoolState.finishing, idle _ rfl]
      exact .nil
  have tasks : Tasks (accepted as) s := run_tasks first run
  have wakeful : s.Wakeful := invariant (fun _ _ _ => step_wakeful) (start_wakeful numThreads) run
  have counted : s.pool.Counted := by
    apply invariant (I := fun s : PoolState τ => s.pool.Counted)
      (fun _ _ _ counted step => (step_refines step).counted counted) _ run
    have same : (start numThreads : PoolState τ).pool = ThreadPool.start numThreads := by
      simp only [start, pool, ThreadPool.start, List.map_replicate]
      rfl
    rw [same]
    exact ThreadPool.start_counted numThreads
  refine ⟨tasks.order, tasks.ran, counted.trans (busy_length s), tasks.pending_iff counted, ?_, ?_⟩
  · intro exited
    obtain ⟨w, hw⟩ := List.exists_mem_of_ne_nil _ wakeful.manned
    have empty := (wakeful.exited (exited w hw ▸ hw)).2
    have zero := none_busy counted fun w hw => .inr (exited w hw)
    exact ⟨empty, zero,
      tasks.executed counted (ThreadPool.hasPendingTasks_false.mpr ⟨empty, zero⟩)⟩
  · obtain ⟨bound, rest⟩ := comes_to_rest wakeful counted tasks
    refine ⟨bound, fun bs t run => ?_⟩
    obtain ⟨short, done⟩ := rest bs t run
    refine ⟨short, fun stuck => ?_⟩
    obtain ⟨tasks, counted, none, exited⟩ := done stuck
    exact ⟨tasks.executed counted none, none, exited⟩

/-- A task is running when the pool is stopped, and throws; another one comes too late. -/
def stopRace : List (LoopAction Nat) :=
  [.submit 1, .notifyOne none, .thread 0 .returns, .stop, .submit 2, .notifyAll,
    .thread 0 .throwsException, .thread 0 .returns, .thread 0 .returns, .thread 1 .returns]

/-- The first task is executed once, the other one not at all. -/
theorem tasks_run_once_when_stopped :
    ∃ s, exec step (start 2) stopRace = some s ∧ s.tasks = [] ∧ s.inFlight = 0 ∧
      s.executed.Perm [1] := by
  refine ⟨_, rfl, ?_⟩
  have exited := (@tasks_run_once Nat 2 stopRace _ rfl).2.2.2.2.1
  exact exited (by decide)

end PoolState

end Cvcn
