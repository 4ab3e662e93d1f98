import Cvcn.Net.Effects

/-!
# The life of a session

The representation invariant of `SessionManager`: the three maps agree with each other, with
the session objects, and with the tasks that are outstanding, that is submitted and with a
`TaskDone` that has not been processed. It is stated over a list of these tasks, so that it
serves the session manager alone as well as the whole server.
-/

namespace Cvcn

open Machine

/-- An outstanding task: the number and the session it was submitted for. -/
structure Ticket where
  fd : Fd
  session : SessionId
  deriving DecidableEq, Repr

/-- The outstanding tasks of a session. -/
def load (tickets : List Ticket) (x : SessionId) : Nat := tickets.countP (·.session = x)

def Job.ticket (job : Job) : Ticket := ⟨job.fd, job.task.session⟩

namespace Server

structure RepInv (s : Server) (tickets : List Ticket) : Prop where
  mapped : ∀ x, s.Alive x → s.sessions (s.fdOf x) = some x
  alive : ∀ fd x, s.sessions fd = some x → s.Alive x ∧ s.fdOf x = fd
  counted : ∀ fd x, s.sessions fd = some x → s.inFlight fd = some (load tickets x)
  unkeyed : ∀ fd, s.sessions fd = none → s.inFlight fd = none
  pending : ∀ fd, s.pendingDelete fd = true →
    ∃ x, s.sessions fd = some x ∧ (s.obj x).closed = true ∧ 0 < load tickets x
  outstanding : ∀ t ∈ tickets, s.Alive t.session ∧ s.fdOf t.session = t.fd
  deleted : ∀ e ∈ s.record.deleted, e.2 = 0 ∧ e.1 < s.shared.next ∧ (s.obj e.1).freed = true

/-- The fields that it speaks of. -/
def life (s : Server) :=
  (s.shared.objects, s.shared.next, s.sessions, s.inFlight, s.pendingDelete, s.record.deleted)

/-- A closed session waits for its deletion, at every number but `except`. -/
def Settled (s : Server) (except : Option Fd) : Prop :=
  ∀ fd x, some fd ≠ except → s.sessions fd = some x → (s.obj x).closed = true →
    s.pendingDelete fd = true

/-- The step leaves the pool, the queue and the main thread's place alone. -/
structure Quiet (s t : Server) : Prop where
  pool : t.pool = s.pool
  queue : t.shared.queue = s.shared.queue
  commands : t.commands = s.commands
  phase : t.phase = s.phase

/-- Nothing that the invariant speaks of changes, except that sessions may close. -/
structure SameLife (s t : Server) : Prop where
  sessions : t.sessions = s.sessions
  inFlight : t.inFlight = s.inFlight
  pendingDelete : t.pendingDelete = s.pendingDelete
  deleted : t.record.deleted = s.record.deleted
  next : t.shared.next = s.shared.next
  fdOf : ∀ x, t.fdOf x = s.fdOf x
  freed : ∀ x, (t.obj x).freed = (s.obj x).freed
  closed : ∀ x, (s.obj x).closed = true → (t.obj x).closed = true

variable {s t : Server} {fd : Fd} {x : SessionId} {tickets : List Ticket}

theorem SameLife.of_life (h : t.life = s.life) : SameLife s t := by
  simp only [life, Prod.mk.injEq] at h
  obtain ⟨objects, next, sessions, inFlight, pendingDelete, deleted⟩ := h
  have obj : ∀ x, t.obj x = s.obj x := fun x => congrFun objects x
  exact
    { sessions, inFlight, pendingDelete, deleted, next
      fdOf := fun x => congrArg ClientSession.fileDescriptor (obj x)
      freed := fun x => congrArg ClientSession.freed (obj x)
      closed := fun x h => by rwa [obj] }

theorem SameLife.alive (h : SameLife s t) (x : SessionId) : t.Alive x ↔ s.Alive x := by
  simp only [Alive, h.next, h.freed]

theorem RepInv.same (h : RepInv s tickets) (same : SameLife s t) : RepInv t tickets where
  mapped x hx := by
    rw [same.sessions, same.fdOf]
    exact h.mapped x ((same.alive x).mp hx)
  alive fd x hx := by
    rw [same.sessions] at hx
    rw [same.alive, same.fdOf]
    exact h.alive fd x hx
  counted fd x hx := by
    rw [same.sessions] at hx
    rw [same.inFlight]
    exact h.counted fd x hx
  unkeyed fd hx := by
    rw [same.sessions] at hx
    rw [same.inFlight]
    exact h.unkeyed fd hx
  pending fd hf := by
    rw [same.pendingDelete] at hf
    obtain ⟨x, hx, closed, busy⟩ := h.pending fd hf
    exact ⟨x, by rw [same.sessions]; exact hx, same.closed x closed, busy⟩
  outstanding t ht := by
    rw [same.alive, same.fdOf]
    exact h.outstanding t ht
  deleted e he := by
    rw [same.deleted] at he
    rw [same.next, same.freed]
    exact h.deleted e he

/-- An update of one object that may close it and leaves its number and its life alone. -/
theorem sameLife_setSession (c : ClientSession) (epoll : Fd → Option EpollMask)
    (openFds : Fd → Bool) (number : c.fileDescriptor = (s.obj x).fileDescriptor)
    (freed : c.freed = (s.obj x).freed) (closed : (s.obj x).closed = true → c.closed = true) :
    SameLife s
      { s with shared := s.shared.setSession x c, epoll := epoll, openFds := openFds } where
  sessions := rfl
  inFlight := rfl
  pendingDelete := rfl
  deleted := rfl
  next := rfl
  fdOf := update_field (·.fileDescriptor) number
  freed := update_field (·.freed) freed
  closed y := by
    by_cases hy : y = x
    · subst hy
      simpa [obj, Shared.setSession] using closed
    · simp [obj, Shared.setSession, hy]

theorem RepInv.perm {other : List Ticket} (h : RepInv s tickets) (perm : tickets.Perm other) :
    RepInv s other := by
  have same : load other = load tickets := funext fun x => perm.symm.countP_eq _
  exact
    { h with
      counted := fun fd x hx => same ▸ h.counted fd x hx
      pending := fun fd hf => same ▸ h.pending fd hf
      outstanding := fun t ht => h.outstanding t (perm.mem_iff.mpr ht) }

/-- Two sessions that exist have different numbers. -/
theorem RepInv.fdOf_ne (h : RepInv s tickets) {y : SessionId} (hx : s.sessions fd = some x)
    (hy : s.Alive y) (hne : y ≠ x) : s.fdOf y ≠ fd := by
  rintro rfl
  exact hne (Option.some.inj ((h.mapped y hy).symm.trans hx))

/-! ## One operation at a time -/

theorem RepInv.load_next (h : RepInv s tickets) : load tickets s.shared.next = 0 := by
  apply List.countP_eq_zero.mpr
  intro t ht e
  exact absurd (of_decide_eq_true e) (Nat.ne_of_lt (h.outstanding t ht).1.1)

theorem RepInv.accept (h : RepInv s tickets) (free : s.sessions fd = none) :
    RepInv (s.onNewConnection fd) tickets where
  mapped y hy := by
    rcases (onNewConnection_alive s fd y).mp hy with rfl | old
    · simp [onNewConnection, fdOf, obj, Shared.setSession]
    · have := h.mapped y old
      have hne : s.fdOf y ≠ fd := by
        intro e
        rw [e, free] at this
        cases this
      rw [old.onNewConnection_fdOf]
      simpa [onNewConnection, Function.update_apply, hne] using this
  alive g y hy := by
    simp only [onNewConnection, Function.update_apply] at hy
    split at hy
    · rename_i e
      cases hy
      refine ⟨(onNewConnection_alive s fd _).mpr (.inl rfl), ?_⟩
      rw [fdOf, onNewConnection_obj, if_pos rfl, e]
    · obtain ⟨old, hfd⟩ := h.alive g y hy
      exact ⟨(onNewConnection_alive s fd _).mpr (.inr old), (old.onNewConnection_fdOf fd).trans hfd⟩
  counted g y hy := by
    simp only [onNewConnection, Function.update_apply] at hy ⊢
    split at hy
    · rename_i e
      cases hy
      rw [if_pos e, h.load_next]
    · rename_i e
      rw [if_neg e]
      exact h.counted g y hy
  unkeyed g hg := by
    simp only [onNewConnection, Function.update_apply] at hg ⊢
    split at hg
    · cases hg
    · rename_i e
      rw [if_neg e]
      exact h.unkeyed g hg
  pending g hg := by
    obtain ⟨y, hy, closed, busy⟩ := h.pending g hg
    have hne : g ≠ fd := by
      rintro rfl
      rw [free] at hy
      cases hy
    refine ⟨y, ?_, ?_, busy⟩
    · simpa [onNewConnection, Function.update_apply, hne] using hy
    · rw [(h.alive g y hy).1.onNewConnection_obj]
      exact closed
  outstanding t ht := by
    obtain ⟨old, hfd⟩ := h.outstanding t ht
    exact ⟨(onNewConnection_alive s fd _).mpr (.inr old), (old.onNewConnection_fdOf fd).trans hfd⟩
  deleted e he := by
    obtain ⟨zero, lt, freed⟩ := h.deleted e he
    refine ⟨zero, Nat.lt_succ_of_lt lt, ?_⟩
    rw [onNewConnection_obj, if_neg (Nat.ne_of_lt lt)]
    exact freed

theorem RepInv.settled_accept (h : RepInv s tickets) (settled : Settled s none) (fd : Fd) :
    Settled (s.onNewConnection fd) none := by
  intro g y _ hy closed
  simp only [Server.onNewConnection, Function.update_apply] at hy
  split at hy
  · cases hy
    rw [Server.onNewConnection_obj, if_pos rfl] at closed
    cases closed
  · rw [(h.alive g y hy).1.onNewConnection_obj] at closed
    exact settled g y (by simp) hy closed

theorem RepInv.delete (h : RepInv s tickets) (hx : s.sessions fd = some x)
    (idle : load tickets x = 0) : RepInv (s.closeClient fd) tickets := by
  obtain ⟨epoll, openFds, e⟩ := closeClient_eq hx
  obtain ⟨here, hfd⟩ := h.alive fd x hx
  have obj_ne : ∀ y, y ≠ x → (s.closeClient fd).obj y = s.obj y := fun y =>
    closeClient_obj_of_ne hx
  have fdOf_ne : ∀ y, y ≠ x → (s.closeClient fd).fdOf y = s.fdOf y := fun y hy =>
    congrArg ClientSession.fileDescriptor (obj_ne y hy)
  have alive := closeClient_alive hx
  have sessions : (s.closeClient fd).sessions = Function.update s.sessions fd none := by rw [e]
  have inFlight : (s.closeClient fd).inFlight = Function.update s.inFlight fd none := by rw [e]
  -- another session is at another number
  have other : ∀ {g y}, (s.closeClient fd).sessions g = some y →
      g ≠ fd ∧ y ≠ x ∧ s.sessions g = some y := by
    intro g y hy
    rw [sessions, Function.update_apply] at hy
    split at hy
    · cases hy
    · rename_i hg
      refine ⟨hg, ?_, hy⟩
      rintro rfl
      exact hg ((h.alive g y hy).2.symm.trans hfd)
  constructor
  · intro y hy
    obtain ⟨hne, old⟩ := (alive y).mp hy
    rw [fdOf_ne y hne, sessions, Function.update_of_ne (h.fdOf_ne hx old hne)]
    exact h.mapped y old
  · intro g y hy
    obtain ⟨hg, hne, hy⟩ := other hy
    obtain ⟨old, hgy⟩ := h.alive g y hy
    exact ⟨(alive y).mpr ⟨hne, old⟩, (fdOf_ne y hne).trans hgy⟩
  · intro g y hy
    obtain ⟨hg, hne, hy⟩ := other hy
    rw [inFlight, Function.update_of_ne hg]
    exact h.counted g y hy
  · intro g hg
    rw [sessions, Function.update_apply] at hg
    rw [inFlight, Function.update_apply]
    split
    · rfl
    · rename_i hne
      rw [if_neg hne] at hg
      exact h.unkeyed g hg
  · intro g hg
    have hg : s.pendingDelete g = true := by rw [e] at hg; exact hg
    obtain ⟨y, hy, closed, busy⟩ := h.pending g hg
    have hne : y ≠ x := by
      rintro rfl
      omega
    have hgf : g ≠ fd := by
      rintro rfl
      exact hne (Option.some.inj (hy.symm.trans hx))
    refine ⟨y, ?_, by rw [obj_ne y hne]; exact closed, busy⟩
    rw [sessions, Function.update_of_ne hgf]
    exact hy
  · intro t ht
    obtain ⟨old, hft⟩ := h.outstanding t ht
    have hne : t.session ≠ x := by
      intro e
      have := List.countP_eq_zero.mp idle t ht
      simp [e] at this
    exact ⟨(alive _).mpr ⟨hne, old⟩, (fdOf_ne _ hne).trans hft⟩
  · intro d hd
    have records : (s.closeClient fd).record.deleted =
        s.record.deleted ++ [(x, (s.inFlight fd).getD 0)] := by rw [e]
    have next : (s.closeClient fd).shared.next = s.shared.next := by rw [e]
    rw [records] at hd
    rw [next]
    cases List.mem_append.mp hd with
    | inl old =>
      obtain ⟨zero, lt, freed⟩ := h.deleted d old
      refine ⟨zero, lt, ?_⟩
      rw [obj_ne _ (by rintro e; rw [e, here.2] at freed; cases freed)]
      exact freed
    | inr new =>
      obtain rfl := List.mem_singleton.mp new
      refine ⟨?_, here.1, by rw [closeClient_obj_self hx]⟩
      rw [h.counted fd x hx, idle, Option.getD_some]

theorem RepInv.mark (h : RepInv s tickets) (hx : s.sessions fd = some x)
    (closed : (s.obj x).closed = true) (busy : 0 < load tickets x) :
    RepInv { s with pendingDelete := Function.update s.pendingDelete fd true } tickets :=
  { h with
    pending := by
      intro g hg
      simp only [Function.update_apply] at hg
      split at hg
      · rename_i e
        subst e
        exact ⟨x, hx, closed, busy⟩
      · exact h.pending g hg }

theorem RepInv.defer (h : RepInv s tickets) (hx : s.sessions fd = some x)
    (busy : 0 < load tickets x) : RepInv (s.deferClose fd) tickets := by
  obtain ⟨epoll, openFds, e⟩ := deferClose_eq hx
  have same := sameLife_setSession (s := s) (x := x) { s.obj x with closed := true } epoll openFds
    rfl rfl fun _ => rfl
  rw [e]
  refine (h.same same).mark hx ?_ busy
  simp [obj, Shared.setSession]

theorem Quiet.refl (s : Server) : Quiet s s := ⟨rfl, rfl, rfl, rfl⟩

theorem closeClient_quiet (hx : s.sessions fd = some x) : Quiet s (s.closeClient fd) := by
  obtain ⟨epoll, openFds, e⟩ := closeClient_eq hx
  rw [e]
  exact ⟨rfl, rfl, rfl, rfl⟩

theorem deferClose_quiet (hx : s.sessions fd = some x) : Quiet s (s.deferClose fd) := by
  obtain ⟨epoll, openFds, e⟩ := deferClose_eq hx
  rw [e]
  exact ⟨rfl, rfl, rfl, rfl⟩

theorem RepInv.settled_delete (h : RepInv s tickets) (hx : s.sessions fd = some x)
    (settled : Settled s (some fd)) : Settled (s.closeClient fd) none := by
  obtain ⟨epoll, openFds, e⟩ := closeClient_eq hx
  intro g y _ hy closed
  rw [e] at hy closed ⊢
  simp only [Function.update_apply] at hy
  split at hy
  · cases hy
  · rename_i hg
    have hne : y ≠ x := by
      rintro rfl
      exact hg ((h.alive g y hy).2.symm.trans (h.alive fd y hx).2)
    simp only [obj, Function.update_of_ne hne] at closed
    exact settled g y (by simpa using hg) hy closed

theorem RepInv.settled_defer (h : RepInv s tickets) (hx : s.sessions fd = some x)
    (settled : Settled s (some fd)) : Settled (s.deferClose fd) none := by
  obtain ⟨epoll, openFds, e⟩ := deferClose_eq hx
  intro g y _ hy closed
  rw [e] at hy closed ⊢
  simp only [Function.update_apply]
  split
  · rfl
  · rename_i hg
    have hne : y ≠ x := by
      rintro rfl
      exact hg ((h.alive g y hy).2.symm.trans (h.alive fd y hx).2)
    simp only [obj, Shared.setSession, Function.update_of_ne hne] at closed
    exact settled g y (by simpa using hg) hy closed

/-- The result of an operation that keeps the representation, and the outstanding tasks
after it. -/
structure Keeps (s t : Server) (tickets : List Ticket) : Prop where
  rep : RepInv t tickets
  settled : Settled t none
  quiet : Quiet s t

theorem RepInv.closeOrDefer (h : RepInv s tickets) (fd : Fd) (settled : Settled s (some fd)) :
    Keeps s (s.closeOrDefer fd) tickets := by
  unfold Server.closeOrDefer
  cases hx : s.sessions fd with
  | none =>
    rw [h.unkeyed fd hx, Option.getD_none, if_neg (Nat.lt_irrefl 0), closeClient_none hx]
    refine ⟨h, fun g y _ hy closed => settled g y ?_ hy closed, .refl s⟩
    rintro e
    cases e
    rw [hx] at hy
    cases hy
  | some x =>
    rw [h.counted fd x hx, Option.getD_some]
    split
    · rename_i busy
      exact ⟨h.defer hx busy, h.settled_defer hx settled, deferClose_quiet hx⟩
    · rename_i idle
      exact ⟨h.delete hx (Nat.eq_zero_of_not_pos idle), h.settled_delete hx settled,
        closeClient_quiet hx⟩

theorem Settled.weaken (h : Settled s none) (except : Option Fd) : Settled s except :=
  fun g y _ hy closed => h g y (by simp) hy closed

theorem RepInv.onError (h : RepInv s tickets) (settled : Settled s none) :
    Keeps s (s.onError fd) tickets :=
  h.closeOrDefer fd (settled.weaken _)

/-- The entries of the record that speak of commands are not part of the invariant. -/
theorem RepInv.ghost (h : RepInv s tickets) (closed : List (SessionId × SessionId))
    (deferredBy : Fd → List SessionId) :
    RepInv { s with record := { s.record with closed := closed }, deferredBy := deferredBy }
      tickets :=
  h.same (.of_life rfl)

/-- `requestCloseClient` is `closeOrDefer` but for what it records. -/
theorem requestCloseClient_eq (hx : s.sessions fd = some x) (origin : SessionId) :
    ∃ closed deferredBy, s.requestCloseClient fd origin =
      { { s with record := { s.record with closed := closed } }.closeOrDefer fd with
        deferredBy := deferredBy } := by
  refine ⟨s.record.closed ++ [(origin, x)], ?_⟩
  unfold Server.closeOrDefer
  simp only [requestCloseClient, hx]
  split
  · exact ⟨_, rfl⟩
  · exact ⟨_, rfl⟩

theorem RepInv.requestCloseClient (h : RepInv s tickets) (settled : Settled s none)
    (origin : SessionId) : Keeps s (s.requestCloseClient fd origin) tickets := by
  cases hx : s.sessions fd with
  | none =>
    simp only [Server.requestCloseClient, hx]
    exact ⟨h, settled, .refl s⟩
  | some x =>
    obtain ⟨closed, deferredBy, e⟩ := requestCloseClient_eq hx origin
    obtain ⟨rep, settled, quiet⟩ :=
      (h.ghost closed s.deferredBy).closeOrDefer fd (settled.weaken _)
    rw [e]
    exact ⟨rep.ghost _ deferredBy, settled, ⟨quiet.pool, quiet.queue, quiet.commands, quiet.phase⟩⟩

/-- `onWrite` for the number does not meet a closed session with tasks in flight. -/
def writeSafe (s : Server) (fd : Fd) : Bool :=
  match s.sessions fd with
  | some x => !(s.obj x).closed || (s.inFlight fd).getD 0 == 0
  | none => true

/-- A closed session that is still in the map has tasks in flight. -/
theorem RepInv.closed_busy (h : RepInv s tickets) (settled : Settled s none)
    (hx : s.sessions fd = some x) (closed : (s.obj x).closed = true) : 0 < load tickets x := by
  obtain ⟨y, hy, _, busy⟩ := h.pending fd (settled fd x (by simp) hx closed)
  cases hx.symm.trans hy
  exact busy

theorem RepInv.onWrite (h : RepInv s tickets) (settled : Settled s none)
    (safe : s.writeSafe fd = true) (sends : List SendResult) :
    Keeps s (s.onWrite fd sends) tickets := by
  cases hx : s.sessions fd with
  | none =>
    simp only [Server.onWrite, hx]
    exact ⟨h, settled, .refl s⟩
  | some x =>
    have isOpen : (s.obj x).closed = false := by
      cases closed : (s.obj x).closed with
      | false => rfl
      | true =>
        have busy := h.closed_busy settled hx closed
        simp only [writeSafe, hx, closed, h.counted fd x hx, Option.getD_some] at safe
        simp only [Bool.not_true, Bool.false_or, beq_iff_eq] at safe
        omega
    obtain ⟨sender, epoll, e⟩ := handleWrite_eq s x sends
    have stays : ((s.handleWrite x sends).obj x).closed = false := by
      rw [e]
      simpa [obj, Shared.setSession] using isOpen
    simp only [Server.onWrite, hx, stays, Bool.false_eq_true, ↓reduceIte]
    rw [e]
    refine ⟨h.same (sameLife_setSession _ epoll s.openFds rfl rfl id), ?_, rfl, rfl, rfl, rfl⟩
    intro g y hg hy closed
    apply settled g y hg hy
    by_cases hne : y = x
    · subst hne
      simpa [obj, Shared.setSession] using closed
    · simpa [obj, Shared.setSession, hne] using closed

theorem load_append (a b : List Ticket) (x : SessionId) :
    load (a ++ b) x = load a x + load b x := List.countP_append

theorem load_own (fd : Fd) (tasks : List Task) (own : ∀ task ∈ tasks, task.session = x)
    (y : SessionId) :
    load (tasks.map fun task => (⟨fd, task⟩ : Job).ticket) y =
      if y = x then tasks.length else 0 := by
  unfold load
  rw [List.countP_map]
  split
  · rename_i e
    subst e
    apply List.countP_eq_length.mpr
    intro task ht
    simpa [Job.ticket] using own task ht
  · rename_i e
    apply List.countP_eq_zero.mpr
    intro task ht
    simpa [Job.ticket, own task ht] using Ne.symm e

/-- The session reads, perhaps closes, and submits its tasks. -/
theorem RepInv.submit (h : RepInv s tickets) (fd : Fd) (hx : s.sessions fd = some x)
    (tasks : List Task) (own : ∀ task ∈ tasks, task.session = x) (pool : ThreadPool Job Running) :
    RepInv { s with
      inFlight := Function.update s.inFlight fd (some (load tickets x + tasks.length))
      pool := pool } (tickets ++ tasks.map fun task => (⟨fd, task⟩ : Job).ticket) := by
  obtain ⟨here, hfd⟩ := h.alive fd x hx
  exact
    { h with
      counted := by
        intro g y hy
        rw [load_append, load_own fd tasks own]
        by_cases hg : g = fd
        · subst hg
          cases hx.symm.trans hy
          simp
        · have hne : y ≠ x := by
            rintro rfl
            exact hg ((h.alive g y hy).2.symm.trans hfd)
          simpa [Function.update_of_ne hg, hne] using h.counted g y hy
      unkeyed := by
        intro g hg
        have hne : g ≠ fd := by
          rintro rfl
          rw [hx] at hg
          cases hg
        simp only [Function.update_of_ne hne]
        exact h.unkeyed g hg
      pending := by
        intro g hg
        obtain ⟨y, hy, closed, busy⟩ := h.pending g hg
        exact ⟨y, hy, closed, by rw [load_append]; omega⟩
      outstanding := by
        intro t ht
        cases List.mem_append.mp ht with
        | inl old => exact h.outstanding t old
        | inr new =>
          obtain ⟨task, hm, rfl⟩ := List.mem_map.mp new
          have : (⟨fd, task⟩ : Job).ticket.session = x := own task hm
          rw [this]
          exact ⟨here, hfd⟩ }

theorem RepInv.onRead (h : RepInv s tickets) (settled : Settled s none)
    (running : s.pool.stopping = false) (fd : Fd) (recvs : List RecvResult) :
    ∃ jobs : List Job, RepInv (s.onRead fd recvs) (tickets ++ jobs.map Job.ticket) ∧
      Settled (s.onRead fd recvs) none ∧
      Quiet { s with pool := { s.pool with tasks := s.pool.tasks ++ jobs } }
        (s.onRead fd recvs) := by
  cases hx : s.sessions fd with
  | none =>
    refine ⟨[], ?_⟩
    simp only [Server.onRead, hx, List.map_nil, List.append_nil]
    exact ⟨h, settled, .refl s⟩
  | some x =>
    obtain ⟨epoll, openFds, read⟩ := handleRead_eq s x recvs
    have own := handleRead_session x recvs (s.obj x).assembler
    generalize ClientSession.handleRead x recvs (s.obj x).assembler = result at read own
    obtain ⟨assembler, tasks, close⟩ := result
    have hn := h.counted fd x hx
    have grows : (s.obj x).closed = true → ((s.obj x).closed || close) = true :=
      fun closed => by rw [closed, Bool.true_or]
    simp only at read own
    generalize ((s.obj x).closed || close) = closed at read grows
    have same := sameLife_setSession (s := s) (x := x)
      { s.obj x with assembler := assembler, closed := closed } epoll openFds rfl rfl grows
    refine ⟨tasks.map (⟨fd, ·⟩), ?_⟩
    simp only [Server.onRead, hx, read]
    rw [submitAll_eq (s := { s with
      shared := s.shared.setSession x { s.obj x with assembler := assembler, closed := closed }
      epoll := epoll, openFds := openFds }) running hn tasks]
    have rep := (h.same same).submit fd hx tasks own
      { s.pool with tasks := s.pool.tasks ++ tasks.map (⟨fd, ·⟩) }
    rw [List.map_map]
    -- the other sessions are as they were
    have others : ∀ g y, some g ≠ some fd → s.sessions g = some y →
        (Function.update s.shared.objects x
          { s.obj x with assembler := assembler, closed := closed } y).closed = true →
        s.pendingDelete g = true := by
      intro g y hg hy hc
      have hne : y ≠ x := by
        rintro rfl
        exact hg (congrArg some ((h.alive g y hy).2.symm.trans (h.alive fd y hx).2))
      rw [Function.update_of_ne hne] at hc
      exact settled g y (by simp) hy hc
    split
    · obtain ⟨rep', settled', quiet⟩ := rep.closeOrDefer fd others
      exact ⟨rep', settled', ⟨quiet.pool, quiet.queue, quiet.commands, quiet.phase⟩⟩
    · rename_i stays
      refine ⟨rep, ?_, rfl, rfl, rfl, rfl⟩
      intro g y hg hy hc
      by_cases e : g = fd
      · subst e
        cases hx.symm.trans hy
        exact absurd hc stays
      · exact others g y (by simpa using e) hy hc

theorem load_cons (t : Ticket) (tickets : List Ticket) (y : SessionId) :
    load (t :: tickets) y = load tickets y + if t.session = y then 1 else 0 := by
  simp [load, List.countP_cons]

/-- One task less; the number leaves `pendingDelete` with the last one. -/
theorem RepInv.countDown {ticket : Ticket} (h : RepInv s (ticket :: tickets))
    (pendingDelete : Fd → Bool)
    (sub : ∀ g, pendingDelete g = true → s.pendingDelete g = true)
    (last : pendingDelete ticket.fd = true → 0 < load tickets ticket.session) :
    RepInv { s with
      inFlight := Function.update s.inFlight ticket.fd (some (load tickets ticket.session))
      pendingDelete := pendingDelete } tickets := by
  obtain ⟨here, hfd⟩ := h.outstanding ticket List.mem_cons_self
  have hx : s.sessions ticket.fd = some ticket.session := hfd ▸ h.mapped _ here
  have same : ∀ {g y}, s.sessions g = some y → g ≠ ticket.fd →
      load (ticket :: tickets) y = load tickets y := by
    intro g y hy hg
    have hne : ticket.session ≠ y := by
      rintro rfl
      exact hg ((h.alive g _ hy).2.symm.trans hfd)
    rw [load_cons, if_neg hne, Nat.add_zero]
  exact
    { h with
      counted := by
        intro g y hy
        by_cases hg : g = ticket.fd
        · subst hg
          cases hx.symm.trans hy
          simp
        · simp only [Function.update_of_ne hg]
          rw [← same hy hg]
          exact h.counted g y hy
      unkeyed := by
        intro g hg
        have hne : g ≠ ticket.fd := by
          rintro rfl
          rw [hx] at hg
          cases hg
        simp only [Function.update_of_ne hne]
        exact h.unkeyed g hg
      pending := by
        intro g hg
        obtain ⟨y, hy, closed, busy⟩ := h.pending g (sub g hg)
        refine ⟨y, hy, closed, ?_⟩
        by_cases e : g = ticket.fd
        · subst e
          cases hx.symm.trans hy
          exact last hg
        · rw [← same hy e]
          exact busy
      outstanding := fun t ht => h.outstanding t (List.mem_cons_of_mem _ ht) }

theorem RepInv.onTaskDone {ticket : Ticket} (h : RepInv s (ticket :: tickets))
    (settled : Settled s none) : Keeps s (s.onTaskDone ticket.fd) tickets := by
  obtain ⟨here, hfd⟩ := h.outstanding ticket List.mem_cons_self
  have hx : s.sessions ticket.fd = some ticket.session := hfd ▸ h.mapped _ here
  have hn : s.inFlight ticket.fd = some (load tickets ticket.session + 1) := by
    rw [h.counted _ _ hx, load_cons, if_pos rfl]
  simp only [Server.onTaskDone, hn, Nat.add_sub_cancel]
  split
  · rename_i last
    obtain ⟨idle, pending⟩ := last
    have rep := h.countDown (Function.update s.pendingDelete ticket.fd false)
      (fun g hg => by
        by_cases e : g = ticket.fd
        · subst e
          simp at hg
        · rwa [Function.update_of_ne e] at hg)
      (fun hg => by simp at hg)
    have settled' : Settled { s with
        inFlight := Function.update s.inFlight ticket.fd (some (load tickets ticket.session))
        pendingDelete := Function.update s.pendingDelete ticket.fd false } (some ticket.fd) := by
      intro g y hg hy hc
      have hne : g ≠ ticket.fd := fun e => hg (congrArg some e)
      simp only [Function.update_of_ne hne]
      exact settled g y (by simp) hy hc
    have ghost := rep.ghost (s.record.closed ++
      (s.deferredBy ticket.fd).map fun origin => (origin, ticket.session))
      (Function.update s.deferredBy ticket.fd [])
    simp only [closeDeferred, hx]
    have quiet := closeClient_quiet (s := { s with
      inFlight := Function.update s.inFlight ticket.fd (some (load tickets ticket.session))
      pendingDelete := Function.update s.pendingDelete ticket.fd false
      deferredBy := Function.update s.deferredBy ticket.fd []
      record := { s.record with closed := s.record.closed ++
        (s.deferredBy ticket.fd).map fun origin => (origin, ticket.session) } }) hx
    exact ⟨ghost.delete hx idle, ghost.settled_delete hx settled',
      ⟨quiet.pool, quiet.queue, quiet.commands, quiet.phase⟩⟩
  · rename_i more
    refine ⟨h.countDown s.pendingDelete (fun _ => id) fun hg => ?_, settled, rfl, rfl, rfl, rfl⟩
    exact Nat.pos_of_ne_zero fun idle => more ⟨idle, hg⟩

end Server

end Cvcn
