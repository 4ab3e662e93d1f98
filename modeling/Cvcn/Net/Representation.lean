import Cvcn.Net.Lifecycle

/-!
# The session manager alone

Any sequence of calls of `SessionManager`, with the kernel free to answer them: a number that
is not open may be accepted, and a submitted task may be over at any time. The maps stay in
step exactly as long as no number is accepted that a closed session still occupies and
`onWrite` meets no closed session with tasks in flight.
-/

namespace Cvcn

open Machine

/-- A call, with what the kernel answers in it. `onTaskDone` is called for a task. -/
inductive ManagerCall where
  | onNewConnection (fd : Fd)
  | onRead (fd : Fd) (recvs : List RecvResult)
  | onWrite (fd : Fd) (sends : List SendResult)
  | onError (fd : Fd)
  | requestCloseClient (fd : Fd) (origin : SessionId)
  | onTaskDone (job : Job)
  deriving DecidableEq, Repr

namespace Server

/-- The tasks stay in the pool until their `TaskDone` is processed. -/
def call (s : Server) : ManagerCall → Option Server
  | .onNewConnection fd => s.accept (some fd)
  | .onRead fd recvs => some (s.onRead fd recvs)
  | .onWrite fd sends => some (s.onWrite fd sends)
  | .onError fd => some (s.onError fd)
  | .requestCloseClient fd origin => some (s.requestCloseClient fd origin)
  | .onTaskDone job =>
    if job ∈ s.pool.tasks then
      some ({ s with pool := { s.pool with tasks := s.pool.tasks.erase job } }.onTaskDone job.fd)
    else none

/-- The four parts of the representation invariant, in the words of the three maps. -/
structure Represented (s : Server) : Prop where
  mapped : ∀ x, s.Alive x → s.sessions (s.fdOf x) = some x
  sameKeys : ∀ fd, (s.sessions fd).isSome ↔ (s.inFlight fd).isSome
  counted : ∀ fd x, s.sessions fd = some x →
    s.inFlight fd = some (s.pool.tasks.countP (·.task.session = x))
  pending : ∀ fd, s.pendingDelete fd = true →
    ∃ x n, s.sessions fd = some x ∧ (s.obj x).closed = true ∧ s.inFlight fd = some n ∧ 0 < n

/-- The number accepted is no longer in the map, and no closed session is written to while
it has tasks in flight. -/
def callSafe (s : Server) : ManagerCall → Bool
  | .onNewConnection fd => (s.sessions fd).isNone
  | .onWrite fd _ => s.writeSafe fd
  | _ => true

/-- What the calls keep: the invariant over the tasks in the pool. -/
structure CallInv (s : Server) : Prop where
  rep : RepInv s (s.pool.tasks.map Job.ticket)
  settled : Settled s none
  running : s.pool.stopping = false

variable {s t : Server} {c : ManagerCall}

theorem load_tasks (jobs : List Job) (x : SessionId) :
    load (jobs.map Job.ticket) x = jobs.countP (·.task.session = x) := by
  unfold load
  rw [List.countP_map]
  rfl

theorem CallInv.represented (h : CallInv s) : Represented s where
  mapped := h.rep.mapped
  sameKeys fd := by
    cases hx : s.sessions fd with
    | none => simp [h.rep.unkeyed fd hx]
    | some x => simp [h.rep.counted fd x hx]
  counted fd x hx := by
    rw [h.rep.counted fd x hx, load_tasks]
  pending fd hf := by
    obtain ⟨x, hx, closed, busy⟩ := h.rep.pending fd hf
    exact ⟨x, _, hx, closed, h.rep.counted fd x hx, busy⟩

theorem Keeps.callInv {tickets : List Ticket} (h : Keeps s t tickets)
    (running : s.pool.stopping = false) (tasks : s.pool.tasks.map Job.ticket = tickets) :
    CallInv t where
  rep := by
    rw [h.quiet.pool, tasks]
    exact h.rep
  settled := h.settled
  running := by rw [h.quiet.pool]; exact running

theorem call_inv (h : CallInv s) (safe : s.callSafe c = true) (hc : s.call c = some t) :
    CallInv t := by
  obtain ⟨rep, settled, running⟩ := h
  cases c with
  | onNewConnection fd =>
    simp only [call, Server.accept] at hc
    split at hc
    · cases hc
    · cases hc
      have free : s.sessions fd = none := Option.isNone_iff_eq_none.mp safe
      have rep' := rep.same (t := { s with
        openFds := Function.update s.openFds fd true
        epoll := Function.update s.epoll fd (some .read) }) (.of_life rfl)
      exact ⟨rep'.accept free, rep'.settled_accept settled fd, running⟩
  | onRead fd recvs =>
    cases hc
    obtain ⟨jobs, rep', settled', quiet⟩ := rep.onRead settled running fd recvs
    refine ⟨?_, settled', by rw [quiet.pool]; exact running⟩
    rw [quiet.pool, List.map_append]
    exact rep'
  | onWrite fd sends =>
    cases hc
    exact (rep.onWrite settled safe sends).callInv running rfl
  | onError fd =>
    cases hc
    exact (rep.onError settled).callInv running rfl
  | requestCloseClient fd origin =>
    cases hc
    exact (rep.requestCloseClient settled origin).callInv running rfl
  | onTaskDone job =>
    simp only [call] at hc
    split at hc
    · rename_i mem
      cases hc
      have perm : (s.pool.tasks.map Job.ticket).Perm
          (job.ticket :: (s.pool.tasks.erase job).map Job.ticket) :=
        (List.perm_cons_erase mem).map Job.ticket
      have rep' := (rep.perm perm).same (.of_life rfl)
        (t := { s with pool := { s.pool with tasks := s.pool.tasks.erase job } })
      exact (rep'.onTaskDone settled).callInv running rfl
    · cases hc

/-- A number accepted over a closed session leaks it, and a closed session deleted with tasks
in flight stays in `pendingDelete`. -/
theorem call_breaks (h : CallInv s) (unsafe_ : ¬ s.callSafe c = true) (hc : s.call c = some t) :
    ¬ Represented t := by
  intro represented
  cases c with
  | onNewConnection fd =>
    simp only [call, Server.accept] at hc
    split at hc
    · cases hc
    · cases hc
      obtain ⟨x, hx⟩ : ∃ x, s.sessions fd = some x := by
        simpa [callSafe, Option.isNone_iff_eq_none, Option.ne_none_iff_exists'] using unsafe_
      obtain ⟨here, hfd⟩ := h.rep.alive fd x hx
      have lt : x ≠ s.shared.next := Nat.ne_of_lt here.1
      have := represented.mapped x ((onNewConnection_alive _ fd x).mpr (.inr here))
      simp only [fdOf, onNewConnection_obj, addFileDescriptor, if_neg lt] at this
      have e : (s.obj x).fileDescriptor = fd := hfd
      simp only [onNewConnection, obj] at this e
      rw [e, Function.update_self] at this
      exact lt (Option.some.inj this).symm
  | onWrite fd sends =>
    cases hc
    simp only [callSafe, writeSafe] at unsafe_
    split at unsafe_
    · rename_i x hx
      simp only [Bool.or_eq_true, Bool.not_eq_true', beq_iff_eq, not_or, Bool.not_eq_false]
        at unsafe_
      obtain ⟨closed, busy⟩ := unsafe_
      obtain ⟨sender, epoll, e⟩ := handleWrite_eq s x sends
      have still : ((s.handleWrite x sends).obj x).closed = true := by
        rw [e]
        simpa [obj, Shared.setSession] using closed
      have hx' : (s.handleWrite x sends).sessions fd = some x := by
        rw [e]
        exact hx
      have waiting : (s.handleWrite x sends).pendingDelete fd = true := by
        rw [e]
        exact h.settled fd x (by simp) hx closed
      simp only [Server.onWrite, hx, still, ↓reduceIte] at represented
      obtain ⟨epoll', openFds, e'⟩ := closeClient_eq hx'
      obtain ⟨y, n, hy, _⟩ := represented.pending fd (by rw [e']; exact waiting)
      rw [e'] at hy
      simp at hy
    · exact absurd rfl unsafe_
  | onRead fd recvs => exact unsafe_ rfl
  | onError fd => exact unsafe_ rfl
  | requestCloseClient fd origin => exact unsafe_ rfl
  | onTaskDone job => exact unsafe_ rfl

theorem callInv_start (tables : Tables) (numThreads : Nat) (listenFd eventFd : Fd) :
    CallInv (start tables numThreads listenFd eventFd) where
  rep :=
    { mapped := fun x hx => absurd hx.1 (Nat.not_lt_zero x)
      alive := fun fd x hx => by cases hx
      counted := fun fd x hx => by cases hx
      unkeyed := fun _ _ => rfl
      pending := fun fd hf => by cases hf
      outstanding := fun t ht => by cases ht
      deleted := fun e he => by cases he }
  settled := fun fd x _ hx => by cases hx
  running := rfl

/-- **The representation invariant, exactly when.** The maps of the session manager stay in
step with its sessions and tasks throughout a sequence of calls if and only if every number is
accepted free of the map and every `onWrite` is safe. -/
theorem represented_iff (tables : Tables) (numThreads : Nat) (listenFd eventFd : Fd)
    (calls : List ManagerCall) (t : Server)
    (run : exec call (start tables numThreads listenFd eventFd) calls = some t) :
    Throughout call Represented (start tables numThreads listenFd eventFd) calls ↔
      Along call (callSafe · · = true) (start tables numThreads listenFd eventFd) calls :=
  throughout_iff_along (fun _ => CallInv.represented) (fun _ _ _ => call_inv)
    (fun _ _ _ => call_breaks) (callInv_start tables numThreads listenFd eventFd) run

/-- A client asks for its chats, is closed while the answer is prepared, and its number, free
in the kernel, is accepted again. -/
def numberReused : List ManagerCall :=
  [.onNewConnection 5, .onRead 5 [.bytes (PacketBuilder.buildPacket .chatListRequest 1 0)],
    .requestCloseClient 5 0, .onNewConnection 5]

/-- The first session exists and is no longer in the map. -/
theorem session_leaked :
    ∃ s, exec call (start {} 1 3 4) numberReused = some s ∧ s.Alive 0 ∧ s.fdOf 0 = 5 ∧
      s.sessions 5 = some 1 ∧ ¬ Represented s := by
  refine ⟨_, rfl, ⟨by decide, rfl⟩, rfl, rfl, fun h => ?_⟩
  have := h.mapped 0 ⟨by decide, rfl⟩
  exact absurd this (by decide)

/-- The same calls with the task over before the number is accepted again. -/
theorem represented_after_done :
    let task : Task := ⟨0, ⟨PacketType.chatListRequest.code, 1, 0, 0⟩, []⟩
    let calls : List ManagerCall :=
      [.onNewConnection 5, .onRead 5 [.bytes (PacketBuilder.buildPacket .chatListRequest 1 0)],
        .requestCloseClient 5 0, .onTaskDone ⟨5, task⟩, .onNewConnection 5]
    Throughout call Represented (start {} 1 3 4) calls :=
  (represented_iff {} 1 3 4 _ _ rfl).mpr (by decide +kernel)

end Server

end Cvcn
