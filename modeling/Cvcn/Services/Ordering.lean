import Cvcn.Lib.Machine
import Cvcn.Lib.Threads
import Cvcn.Services.Sequential

/-!
# In what order packets take effect

The pool takes tasks up in the order in which they were submitted. Nothing more is promised:
a worker may take up a packet of a session while another still handles an earlier one, and then
their operations mix. Where no two tasks of a session overlap, its packets take effect one after
another; where no two tasks overlap at all, as with a single worker, the shared state is the one
that handling the packets in turn leaves.
-/

namespace Cvcn

open Atomic Machine

/-- A task is submitted, or a worker takes its next step. -/
inductive PoolAction where
  | submit (job : Job)
  | worker (i : Nat)
  deriving DecidableEq, Repr

/-- An operation that was executed, with the number of its task in the order of arrival. -/
structure Executed where
  number : Nat
  session : SessionId
  op : Op
  deriving DecidableEq, Repr

/-- The session whose packet the worker handles. -/
def Worker.session : Worker Running → Option SessionId
  | .running r => some r.job.task.session
  | _ => none

/-- The pool at work, with what was submitted, the number of the task that each worker has
taken up last, and the operations executed so far. -/
structure Traced where
  backend : Backend
  submitted : List Job
  number : Nat → Nat
  trace : List Executed

/-- The packets handled one after another, each with its `TaskDone`. -/
def Shared.inTurn (sh : Shared) (jobs : List Job) : Shared :=
  jobs.foldl (fun sh job => (sh.handle job.task).push job.done job.task.session) sh

namespace Traced

def start (numThreads : Nat) (sh : Shared) : Traced :=
  ⟨⟨ThreadPool.start numThreads, sh⟩, [], fun _ => 0, []⟩

def step (w : Traced) : PoolAction → Option Traced
  | .submit job =>
    some { w with backend := w.backend.submit job, submitted := w.submitted ++ [job] }
  | .worker i =>
    (w.backend.worker i).map fun b =>
      match w.backend.pool.workers[i]? with
      | some .waiting =>
        { w with backend := b, number := Function.update w.number i w.backend.pool.started.length }
      | some (.running ⟨job, .op o _⟩) =>
        { w with backend := b, trace := w.trace ++ [⟨w.number i, job.task.session, o⟩] }
      | _ => { w with backend := b }

/-- The packets of a session have taken effect in the order of arrival. -/
def InOrder (w : Traced) (x : SessionId) : Prop :=
  w.trace.Pairwise fun e e' => e.session = x → e'.session = x → e.number ≤ e'.number

instance (w : Traced) (x : SessionId) : Decidable (w.InOrder x) :=
  inferInstanceAs (Decidable (List.Pairwise _ _))

/-- Worker `i` is in the middle of a task. -/
def Runs (w : Traced) (i : Nat) (r : Running) : Prop :=
  w.backend.pool.workers[i]? = some (.running r)

def Idle (w : Traced) : Prop := ∀ i r, ¬ w.Runs i r

/-- No packet of the session is taken up while another one of it is handled. -/
def apart (x : SessionId) (w : Traced) : PoolAction → Bool
  | .worker i =>
    match w.backend.pool.workers[i]?, w.backend.pool.tasks with
    | some .waiting, job :: _ =>
      job.task.session != x || w.backend.pool.workers.all fun v => v.session != some x
    | _, _ => true
  | .submit _ => true

/-- No packet is taken up while another one is handled. -/
def alone (w : Traced) : PoolAction → Bool
  | .worker i =>
    match w.backend.pool.workers[i]? with
    | some .waiting => w.backend.pool.workers.all fun v => v.session.isNone
    | _ => true
  | .submit _ => true

variable {w w' : Traced} {a : PoolAction} {x : SessionId} {sh : Shared}

/-- All that a step can do while the pool is not stopped. -/
inductive Move (w : Traced) : PoolAction → Traced → Prop where
  | submits (job : Job) :
    Move w (.submit job)
      { w with
        backend := { w.backend with
          pool := { w.backend.pool with tasks := w.backend.pool.tasks ++ [job] } }
        submitted := w.submitted ++ [job] }
  | begins (i : Nat) (job : Job) (tasks : List Job)
    (waiting : w.backend.pool.workers[i]? = some .waiting)
    (head : w.backend.pool.tasks = job :: tasks) :
    Move w (.worker i)
      { w with
        backend := { w.backend with pool := { w.backend.pool.setWorker i (.running job.begin_) with
          tasks := tasks
          inFlight := w.backend.pool.inFlight + 1
          started := w.backend.pool.started ++ [job] } }
        number := Function.update w.number i w.backend.pool.started.length }
  | executes (i : Nat) (job : Job) (o : Op) (rest : o.Res → ServerProg Unit)
    (running : w.Runs i ⟨job, .op o rest⟩) :
    Move w (.worker i)
      { w with
        backend :=
          { pool := w.backend.pool.setWorker i (.running ⟨job, rest (w.backend.shared.exec o).1⟩)
            shared := (w.backend.shared.exec o).2 }
        trace := w.trace ++ [⟨w.number i, job.task.session, o⟩] }
  | ends (i : Nat) (job : Job) (running : w.Runs i ⟨job, .done ()⟩) :
    Move w (.worker i)
      { w with
        backend :=
          { pool := w.backend.pool.setWorker i .finishing
            shared := w.backend.shared.push job.done job.task.session } }
  | rests (i : Nat) (finishing : w.backend.pool.workers[i]? = some .finishing) :
    Move w (.worker i)
      { w with backend := { w.backend with pool := w.backend.pool.finish i } }

theorem step_cases (going : w.backend.pool.stopping = false) (hs : w.step a = some w') :
    Move w a w' := by
  cases a with
  | submit job =>
    have queued : w.backend.submit job = { w.backend with
        pool := { w.backend.pool with tasks := w.backend.pool.tasks ++ [job] } } := by
      simp [Backend.submit, ThreadPool.submit, going]
    cases hs
    rw [queued]
    exact .submits job
  | worker i =>
    obtain ⟨b, work, rfl⟩ := Option.map_eq_some_iff.mp hs
    cases Backend.worker_cases work with
    | begins job tasks waiting head =>
      simp only [waiting]
      exact .begins i job tasks waiting head
    | exits _ _ stopping =>
      rw [going] at stopping
      cases stopping
    | executes job o rest running =>
      simp only [running]
      exact .executes i job o rest running
    | ends job running =>
      simp only [running]
      exact .ends i job running
    | rests finishing =>
      simp only [finishing]
      exact .rests i finishing

/-! ## Tasks are taken up in the order of arrival -/

structure Fifo (w : Traced) : Prop where
  order : w.backend.pool.started ++ w.backend.pool.tasks = w.submitted
  going : w.backend.pool.stopping = false

theorem step_fifo (h : Fifo w) (hs : w.step a = some w') : Fifo w' := by
  obtain ⟨order, going⟩ := h
  cases step_cases going hs with
  | submits job =>
    refine ⟨?_, going⟩
    simp only
    rw [← order, List.append_assoc]
  | begins i job tasks _ head =>
    refine ⟨?_, going⟩
    rw [head] at order
    simpa using order
  | executes => exact ⟨order, going⟩
  | ends => exact ⟨order, going⟩
  | rests => exact ⟨order, going⟩

/-! ## The tasks of one session do not overlap -/

/-- One worker at most handles a packet of the session, and it is the latest that operations
have been executed for. -/
structure Orderly (x : SessionId) (w : Traced) : Prop where
  fifo : Fifo w
  known : ∀ e ∈ w.trace, e.number < w.backend.pool.started.length
  taken : ∀ i r, w.Runs i r → w.number i < w.backend.pool.started.length
  latest : ∀ i r, w.Runs i r → r.job.task.session = x →
    ∀ e ∈ w.trace, e.session = x → e.number ≤ w.number i
  single : ∀ i j r r', w.Runs i r → w.Runs j r' → r.job.task.session = x →
    r'.job.task.session = x → i = j
  sorted : w.InOrder x

/-- The steps that execute no operation and take no task up: no worker is running that was not
before. -/
theorem Orderly.same (h : Orderly x w) (fifo : Fifo w') (trace : w'.trace = w.trace)
    (number : w'.number = w.number) (started : w'.backend.pool.started = w.backend.pool.started)
    (running : ∀ i r, w'.Runs i r → w.Runs i r) : Orderly x w' where
  fifo := fifo
  known := by
    rw [trace, started]
    exact h.known
  taken i r hi := by
    rw [number, started]
    exact h.taken i r (running i r hi)
  latest i r hi := by
    rw [number, trace]
    exact h.latest i r (running i r hi)
  single i j r r' hi hj := h.single i j r r' (running i r hi) (running j r' hj)
  sorted := by
    unfold InOrder
    rw [trace]
    exact h.sorted

/-- A worker that handles a packet of the session, for the condition `apart`. -/
theorem session_of_running {i : Nat} {r : Running} (hi : w.Runs i r)
    (own : r.job.task.session = x) :
    ∃ v ∈ w.backend.pool.workers, v.session = some x :=
  ⟨_, List.mem_of_getElem? hi, congrArg some own⟩

theorem Orderly.dequeue {i : Nat} {job : Job} {tasks : List Job} (h : Orderly x w)
    (apart : job.task.session = x → ∀ v ∈ w.backend.pool.workers, v.session ≠ some x)
    (hw : w' = { w with
        backend := { w.backend with pool := { w.backend.pool.setWorker i (.running job.begin_) with
          tasks := tasks
          inFlight := w.backend.pool.inFlight + 1
          started := w.backend.pool.started ++ [job] } }
        number := Function.update w.number i w.backend.pool.started.length })
    (fifo : Fifo w') : Orderly x w' := by
  subst hw
  have later : ∀ n, n < w.backend.pool.started.length →
      n < (w.backend.pool.started ++ [job]).length := by
    intro n lt
    rw [List.length_append]
    omega
  -- the other workers are as they were, with the same numbers
  have other : ∀ j r, (w.backend.pool.workers.set i (.running job.begin_))[j]? = some (.running r) →
      (j = i ∧ r = job.begin_) ∨ (j ≠ i ∧ w.Runs j r) := by
    intro j r hj
    rcases getElem?_set_cases hj with ⟨e, new⟩ | old
    · cases new
      exact .inl ⟨e, rfl⟩
    · exact .inr old
  constructor
  · exact fifo
  · exact fun e he => later _ (h.known e he)
  · intro j r hj
    rcases other j r hj with ⟨rfl, rfl⟩ | ⟨hne, old⟩
    · simp [Function.update_self]
    · simp only [Function.update_of_ne hne]
      exact later _ (h.taken j r old)
  · intro j r hj own e he session
    rcases other j r hj with ⟨rfl, rfl⟩ | ⟨hne, old⟩
    · simp only [Function.update_self]
      exact Nat.le_of_lt (h.known e he)
    · simp only [Function.update_of_ne hne]
      exact h.latest j r old own e he session
  · intro j k r r' hj hk own own'
    rcases other j r hj with ⟨rfl, rfl⟩ | ⟨_, old⟩
    · rcases other k r' hk with ⟨rfl, rfl⟩ | ⟨_, old'⟩
      · rfl
      · obtain ⟨v, hv, session⟩ := session_of_running old' own'
        exact absurd session (apart own v hv)
    · rcases other k r' hk with ⟨rfl, rfl⟩ | ⟨_, old'⟩
      · obtain ⟨v, hv, session⟩ := session_of_running old own
        exact absurd session (apart own' v hv)
      · exact h.single j k r r' old old' own own'
  · exact h.sorted

theorem Orderly.execute {i : Nat} {job : Job} {o : Op} {rest : o.Res → ServerProg Unit}
    (h : Orderly x w) (hi : w.Runs i ⟨job, .op o rest⟩)
    (hw : w' = { w with
        backend :=
          { pool := w.backend.pool.setWorker i (.running ⟨job, rest (w.backend.shared.exec o).1⟩)
            shared := (w.backend.shared.exec o).2 }
        trace := w.trace ++ [⟨w.number i, job.task.session, o⟩] })
    (fifo : Fifo w') : Orderly x w' := by
  subst hw
  -- a running worker was running before, the same task
  have before : ∀ j r, (w.backend.pool.workers.set i
      (.running ⟨job, rest (w.backend.shared.exec o).1⟩))[j]? = some (.running r) →
      ∃ r', w.Runs j r' ∧ r'.job = r.job := by
    intro j r hj
    rcases getElem?_set_cases hj with ⟨rfl, new⟩ | ⟨_, old⟩
    · cases new
      exact ⟨_, hi, rfl⟩
    · exact ⟨r, old, rfl⟩
  constructor
  · exact fifo
  · intro e he
    cases List.mem_append.mp he with
    | inl old => exact h.known e old
    | inr new =>
      rw [List.mem_singleton.mp new]
      exact h.taken i _ hi
  · intro j r hj
    obtain ⟨r', old, _⟩ := before j r hj
    exact h.taken j r' old
  · intro j r hj own e he session
    obtain ⟨r', old, same⟩ := before j r hj
    rw [← same] at own
    cases List.mem_append.mp he with
    | inl he => exact h.latest j r' old own e he session
    | inr new =>
      rw [List.mem_singleton.mp new] at session ⊢
      rw [h.single i j _ r' hi old session own]
  · intro j k r r' hj hk own own'
    obtain ⟨_, old, same⟩ := before j r hj
    obtain ⟨_, old', same'⟩ := before k r' hk
    rw [← same] at own
    rw [← same'] at own'
    exact h.single j k _ _ old old' own own'
  · apply List.pairwise_append.mpr
    refine ⟨h.sorted, List.pairwise_singleton _ _, fun e he e' he' session session' => ?_⟩
    rw [List.mem_singleton.mp he'] at session' ⊢
    exact h.latest i _ hi session' e he session

theorem step_orderly (h : Orderly x w) (apart : apart x w a = true) (hs : w.step a = some w') :
    Orderly x w' := by
  have fifo := step_fifo h.fifo hs
  cases step_cases h.fifo.going hs with
  | submits job => exact h.same fifo rfl rfl rfl fun _ _ => id
  | begins i job tasks waiting head =>
    refine h.dequeue ?_ rfl fifo
    intro own v hv
    simp only [Traced.apart, waiting, head, Bool.or_eq_true, bne_iff_ne, List.all_eq_true] at apart
    exact apart.resolve_left (fun hne => hne own) v hv
  | executes i job o rest running => exact h.execute running rfl fifo
  | ends i job =>
    exact h.same fifo rfl rfl rfl fun j r hj => (running_of_set hj nofun).2
  | rests i =>
    exact h.same fifo rfl rfl rfl fun j r hj => (running_of_set hj nofun).2

/-! ## No two tasks overlap -/

/-- Between two tasks the shared state is that of the packets handled in turn; in a task it is
on the way there. -/
structure InTurn (sh : Shared) (w : Traced) : Prop where
  fifo : Fifo w
  idle : w.Idle → w.backend.shared = sh.inTurn w.backend.pool.started
  busy : ∀ i r, w.Runs i r → (∀ j r', w.Runs j r' → j = i) ∧
    ∃ front, w.backend.pool.started = front ++ [r.job] ∧
      (r.rest.run Shared.exec w.backend.shared).2 = (sh.inTurn front).handle r.job.task

theorem inTurn_append (sh : Shared) (jobs : List Job) (job : Job) :
    sh.inTurn (jobs ++ [job]) =
      ((sh.inTurn jobs).handle job.task).push job.done job.task.session := by
  simp only [Shared.inTurn, List.foldl_append, List.foldl_cons, List.foldl_nil]

/-- The steps that change neither the shared state nor what the workers run. -/
theorem InTurn.same (h : InTurn sh w) (fifo : Fifo w')
    (shared : w'.backend.shared = w.backend.shared)
    (started : w'.backend.pool.started = w.backend.pool.started)
    (running : ∀ i r, w'.Runs i r ↔ w.Runs i r) : InTurn sh w' where
  fifo := fifo
  idle idle := by
    rw [shared, started]
    exact h.idle fun i r hi => idle i r ((running i r).mpr hi)
  busy i r hi := by
    obtain ⟨only, front, last, rest⟩ := h.busy i r ((running i r).mp hi)
    rw [shared, started]
    exact ⟨fun j r' hj => only j r' ((running j r').mp hj), front, last, rest⟩

theorem step_inTurn (h : InTurn sh w) (alone : w.alone a = true) (hs : w.step a = some w') :
    InTurn sh w' := by
  have fifo := step_fifo h.fifo hs
  cases step_cases h.fifo.going hs with
  | submits job => exact h.same fifo rfl rfl fun _ _ => Iff.rfl
  | begins i job tasks waiting head =>
    -- nobody is running, and worker `i` begins
    have idle : w.Idle := by
      intro j r hj
      simp only [Traced.alone, waiting, List.all_eq_true] at alone
      have := alone _ (List.mem_of_getElem? hj)
      cases this
    have begins : ∀ j r, (w.backend.pool.workers.set i (.running job.begin_))[j]? =
        some (.running r) → j = i ∧ r = job.begin_ := by
      intro j r hj
      rcases getElem?_set_cases hj with ⟨same, new⟩ | ⟨_, old⟩
      · cases new
        exact ⟨same, rfl⟩
      · exact absurd old (idle j r)
    refine ⟨fifo, fun none => ?_, fun j r hj => ?_⟩
    · refine absurd ?_ (none i job.begin_)
      exact List.getElem?_set_self (List.getElem?_eq_some_iff.mp waiting).1
    · obtain ⟨rfl, rfl⟩ := begins j r hj
      refine ⟨fun k r' hk => (begins k r' hk).1, w.backend.pool.started, rfl, ?_⟩
      rw [← h.idle idle]
      rfl
  | executes i job o rest running =>
    obtain ⟨only, front, last, run⟩ := h.busy i _ running
    have goesOn : ∀ j r, (w.backend.pool.workers.set i
        (.running ⟨job, rest (w.backend.shared.exec o).1⟩))[j]? = some (.running r) →
        j = i ∧ r = ⟨job, rest (w.backend.shared.exec o).1⟩ := by
      intro j r hj
      rcases getElem?_set_cases hj with ⟨same, new⟩ | ⟨hne, old⟩
      · cases new
        exact ⟨same, rfl⟩
      · exact absurd (only j r old) hne
    refine ⟨fifo, fun none => ?_, fun j r hj => ?_⟩
    · refine absurd ?_ (none i ⟨job, rest (w.backend.shared.exec o).1⟩)
      exact List.getElem?_set_self (List.getElem?_eq_some_iff.mp running).1
    · obtain ⟨rfl, rfl⟩ := goesOn j r hj
      exact ⟨fun k r' hk => (goesOn k r' hk).1, front, last, run⟩
  | ends i job running =>
    obtain ⟨only, front, last, run⟩ := h.busy i _ running
    refine ⟨fifo, fun _ => ?_, fun j r hj => ?_⟩
    · calc
        w.backend.shared.push job.done job.task.session = sh.inTurn (front ++ [job]) := by
          rw [inTurn_append, ← run]
          rfl
        _ = sh.inTurn w.backend.pool.started := by rw [last]
    · -- nobody is left running
      obtain ⟨hne, old⟩ := running_of_set hj nofun
      exact absurd (only j r old) hne
  | rests i finishing =>
    apply h.same fifo rfl rfl
    intro j r
    constructor
    · exact fun hj => (running_of_set hj nofun).2
    · intro hj
      have hne : i ≠ j := by
        rintro rfl
        rw [Runs, finishing] at hj
        cases hj
      simp only [Runs, ThreadPool.finish, ThreadPool.setWorker, List.getElem?_set_ne hne]
      exact hj

/-! ## A single worker -/

theorem worker_length {b b' : Backend} {i : Nat} (work : b.worker i = some b') :
    b'.pool.workers.length = b.pool.workers.length := by
  cases Backend.worker_cases work
  all_goals simp only [ThreadPool.setWorker, ThreadPool.finish, List.length_set]

theorem step_workers (h : w.backend.pool.workers.length ≤ 1) (hs : w.step a = some w') :
    w'.backend.pool.workers.length ≤ 1 := by
  cases a with
  | submit job =>
    cases hs
    simp only [Backend.submit, ThreadPool.submit]
    split <;> exact h
  | worker i =>
    obtain ⟨b, work, rfl⟩ := Option.map_eq_some_iff.mp hs
    rw [← worker_length work] at h
    split <;> exact h

/-- The one worker is waiting when it takes a task up. -/
theorem alone_of_single (h : w.backend.pool.workers.length ≤ 1) (a : PoolAction) :
    w.alone a = true := by
  cases a with
  | submit job => rfl
  | worker i =>
    simp only [alone]
    split
    · rename_i hi
      rw [List.all_eq_true]
      intro v hv
      obtain ⟨j, hj⟩ := List.mem_iff_getElem?.mp hv
      have lt := (List.getElem?_eq_some_iff.mp hi).1
      have lt' := (List.getElem?_eq_some_iff.mp hj).1
      obtain rfl : i = j := by omega
      obtain rfl : Worker.waiting = v := Option.some.inj (hi.symm.trans hj)
      rfl
    · rfl

theorem apart_of_alone (h : w.alone a = true) (x : SessionId) : apart x w a = true := by
  cases a with
  | submit job => rfl
  | worker i =>
    simp only [apart]
    split
    · rename_i job tasks hi ht
      simp only [alone, hi, List.all_eq_true] at h
      simp only [Bool.or_eq_true, List.all_eq_true, bne_iff_ne]
      refine .inr fun v hv session => ?_
      have none := h v hv
      rw [session] at none
      cases none
    · rfl

/-! ## Runs -/

theorem start_idle (numThreads : Nat) (sh : Shared) : (start numThreads sh).Idle := by
  intro i r hi
  have waiting := List.eq_of_mem_replicate (List.mem_of_getElem? hi)
  cases waiting

theorem fifo_start (numThreads : Nat) (sh : Shared) : Fifo (start numThreads sh) := ⟨rfl, rfl⟩

theorem orderly_start (numThreads : Nat) (sh : Shared) (x : SessionId) :
    Orderly x (start numThreads sh) where
  fifo := fifo_start numThreads sh
  known := nofun
  taken i r hi := absurd hi (start_idle numThreads sh i r)
  latest i r hi := absurd hi (start_idle numThreads sh i r)
  single i _ r _ hi := absurd hi (start_idle numThreads sh i r)
  sorted := .nil

theorem inTurn_start (numThreads : Nat) (sh : Shared) : InTurn sh (start numThreads sh) where
  fifo := fifo_start numThreads sh
  idle _ := rfl
  busy i r hi := absurd hi (start_idle numThreads sh i r)

theorem alone_along {numThreads : Nat} (single : numThreads ≤ 1) (sh : Shared)
    (as : List PoolAction) : Along step (alone · · = true) (start numThreads sh) as := by
  apply Along.of_invariant (I := fun w => w.backend.pool.workers.length ≤ 1)
  · exact fun w a w' => step_workers
  · exact fun w a h => alone_of_single h a
  · simp only [start, ThreadPool.start, List.length_replicate]
    omega

/-- **Order.** With any number of workers, in every run: tasks are taken up in the order in which
they were submitted; the packets of a session take effect in that order if none of them is taken
up while another is handled; and if no task at all is taken up while another is handled, the
shared state between two tasks is that of the packets handled in turn. A single worker meets
both conditions. -/
theorem effects_in_order (numThreads : Nat) (sh : Shared) (as : List PoolAction) (w : Traced)
    (run : exec step (start numThreads sh) as = some w) :
    w.backend.pool.started ++ w.backend.pool.tasks = w.submitted ∧
    (∀ x, numThreads ≤ 1 ∨ Along step (apart x · · = true) (start numThreads sh) as →
      w.InOrder x) ∧
    (numThreads ≤ 1 ∨ Along step (alone · · = true) (start numThreads sh) as → w.Idle →
      w.backend.shared = sh.inTurn w.backend.pool.started) := by
  refine ⟨?_, fun x cond => ?_, fun cond => ?_⟩
  · have fifo := Machine.invariant (I := Fifo) (fun _ _ _ => step_fifo)
      (fifo_start numThreads sh) run
    exact fifo.order
  · have apart : Along step (apart x · · = true) (start numThreads sh) as := by
      cases cond with
      | inl single => exact (alone_along single sh as).mono fun _ _ h => apart_of_alone h x
      | inr apart => exact apart
    have orderly := apart.invariant (I := Orderly x) (fun _ _ _ => step_orderly)
      (orderly_start numThreads sh x) run
    exact orderly.sorted
  · have alone : Along step (alone · · = true) (start numThreads sh) as := by
      cases cond with
      | inl single => exact alone_along single sh as
      | inr alone => exact alone
    have inTurn := alone.invariant (I := InTurn sh) (fun _ _ _ => step_inTurn)
      (inTurn_start numThreads sh) run
    exact inTurn.idle

/-- A server to which one client has connected; user 1 has a chat. -/
def oneClient : Shared :=
  ((Server.start
    { users := [⟨1, [97], config.PASSWORD_HASH_PREFIX ++ [112]⟩], chats := [⟨1, false⟩]
      chatMembers := [⟨1, 1⟩, ⟨1, 2⟩], userSeq := 1, chatSeq := 1 } 2 3 4).onNewConnection 5).shared

def packet (data : Bytes) : PoolAction :=
  .submit ⟨5, ⟨0, (PacketParser.parseHeader data).getD ⟨0, 0, 0, 0⟩,
    data.drop PacketHeaderRaw.size⟩⟩

/-- The client logs in and sends `x` and then `y`. Two workers take the messages up, and the
second is faster. -/
def overtaken : List PoolAction :=
  [packet (PacketBuilder.authRequest 1 5 ⟨[97], [112]⟩),
    packet (PacketBuilder.messageSend 2 5 ⟨1, [120]⟩),
    packet (PacketBuilder.messageSend 3 5 ⟨1, [121]⟩)] ++
  List.replicate 10 (.worker 0) ++ List.replicate 4 (.worker 1) ++ List.replicate 3 (.worker 0)

/-- The second message is stored before the first. -/
theorem messages_overtaken :
    ∃ w, exec step (start 2 oneClient) overtaken = some w ∧
      w.backend.shared.conn.tables.messages = [⟨1, 1, 1, [121]⟩, ⟨2, 1, 1, [120]⟩] ∧
      ¬ w.InOrder 0 := by
  refine ⟨_, rfl, rfl, ?_⟩
  decide

/-- The same packets with a single worker. -/
theorem messages_in_order :
    let run := overtaken.take 3 ++ List.replicate 27 (.worker 0)
    ∃ w, exec step (start 1 oneClient) run = some w ∧
      w.backend.shared.conn.tables.messages = [⟨1, 1, 1, [120]⟩, ⟨2, 1, 1, [121]⟩] ∧
      w.InOrder 0 := by
  intro run
  obtain ⟨w, hw, stored⟩ : ∃ w, exec step (start 1 oneClient) run = some w ∧
      w.backend.shared.conn.tables.messages = [⟨1, 1, 1, [120]⟩, ⟨2, 1, 1, [121]⟩] := ⟨_, rfl, rfl⟩
  exact ⟨w, hw, stored, (effects_in_order 1 oneClient run w hw).2.1 0 (.inl (by decide))⟩

end Traced

end Cvcn
