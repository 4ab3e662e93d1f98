import Cvcn.Net.Closing
import Cvcn.Services.Broadcast

/-!
# Who can be reached

The registry has one session for each user: a login replaces the one before. When that session is
closed the user is gone from the registry, whether or not an older session of the same user is
still open. As long as no session is closed, or registered after it has been closed, while another
one of its user is open, every user with an open session is found.
-/

namespace Cvcn

open Atomic Machine

namespace Server

variable {s t : Server} {a : Action}

/-- The session exists and has not been closed. -/
def Open (s : Server) (x : SessionId) : Prop := s.Alive x ∧ (s.obj x).closed = false

instance (s : Server) (x : SessionId) : Decidable (s.Open x) := inferInstanceAs (Decidable (_ ∧ _))

/-- The registry finds an open session of the user. -/
def Found (s : Server) (userID : Int) : Prop :=
  ∃ x, s.shared.byUserID userID = some x ∧ s.Open x ∧ (s.obj x).userID = userID

/-- Every user with an open session is found. -/
def Present (s : Server) : Prop :=
  ∀ userID, 0 < userID → ∀ x, s.Open x → (s.obj x).userID = userID → s.Found userID

/-- No request is in progress. -/
def AtRest (s : Server) : Prop := ∀ r, Worker.running r ∉ s.pool.workers

/-- A worker is about to register the session. -/
def Registering (s : Server) (userID : Int) (x : SessionId) : Prop :=
  ∃ w ∈ s.pool.workers, w.nextOp = some (.registerUser userID x)

instance (s : Server) (userID : Int) (x : SessionId) : Decidable (s.Registering userID x) :=
  inferInstanceAs (Decidable (∃ w ∈ s.pool.workers, w.nextOp = some (.registerUser userID x)))

/-- Another open session is logged in as the user, and is not about to be registered. -/
def elsewhere (s : Server) (x : SessionId) (userID : Int) : Bool :=
  (List.range s.shared.next).any fun y => y != x && decide (s.Open y) &&
    (s.obj y).userID == userID && !decide (s.Registering userID y)

/-- A session that is closed is not registered for a user who is logged in elsewhere. -/
def closesUnneeded (s : Server) (a : Action) : Bool :=
  match s.closes a with
  | some x =>
    s.shared.byUserID (s.obj x).userID != some x || !s.elsewhere x (s.obj x).userID
  | none => true

/-- A session that is registered is open, or its user is not logged in elsewhere. -/
def registersOpen (s : Server) (a : Action) : Bool :=
  match s.nextOp a with
  | some (.registerUser userID x) =>
    decide (userID ≤ 0) || decide (s.Open x) || !s.elsewhere x userID
  | _ => true

/-- A task that has authenticated its session is at the registration of that user. -/
def Follows (s : Server) (r : Running) : Prop :=
  ∃ stage, (∀ userID, stage = .authenticated userID → 0 < userID →
      (s.obj r.job.task.session).userID = userID) ∧
    r.rest.Keeps (allowed r.job.task.session true) after stage fun _ stage => stage = .free

/-- A user with an open session is found, or a worker is about to register that session. -/
structure PresenceInv (s : Server) : Prop extends Created s where
  follows : ∀ r, Worker.running r ∈ s.pool.workers → s.Follows r
  present : ∀ userID, 0 < userID → ∀ x, s.Open x → (s.obj x).userID = userID →
    s.Found userID ∨ s.Registering userID x

theorem PresenceInv.atRest (h : PresenceInv s) (rest : s.AtRest) : s.Present := by
  intro userID positive x isOpen user
  cases h.present userID positive x isOpen user with
  | inl found => exact found
  | inr registering =>
    obtain ⟨w, hw, next⟩ := registering
    cases w with
    | running r => exact absurd hw (rest r)
    | _ => cases next

theorem elsewhere_of {x y : SessionId} {userID : Int} (other : y ≠ x) (isOpen : s.Open y)
    (user : (s.obj y).userID = userID) (settled : ¬ s.Registering userID y) :
    s.elsewhere x userID = true := by
  apply List.any_eq_true.mpr
  refine ⟨y, List.mem_range.mpr isOpen.1.1, ?_⟩
  simp [other, isOpen, user, settled]

/-! ## The main thread -/

theorem PresenceInv.closes {o : Option SessionId} (h : PresenceInv s) (deletes : Deletes s t o)
    (closing : StepCloses s a t) (deleted : ∀ x, o = some x → s.closes a = some x)
    (unneeded : s.closesUnneeded a = true) : PresenceInv t := by
  have frame := deletes.frame
  have openBefore : ∀ {y}, t.Open y → s.Open y ∧ s.closes a ≠ some y := by
    intro y isOpen
    have alive := deletes.alive isOpen.1
    have closed := closing y alive.1
    rw [isOpen.2] at closed
    have closed := Bool.or_eq_false_iff.mp closed.symm
    exact ⟨⟨alive, closed.1⟩, by simpa using closed.2⟩
  have openAfter : ∀ {y}, s.Open y → s.closes a ≠ some y → t.Open y := by
    intro y isOpen stays
    refine ⟨deletes.stays isOpen.1 fun e => stays (deleted y e), ?_⟩
    rw [closing y isOpen.1.1, isOpen.2]
    simpa using stays
  refine ⟨h.toCreated.deletes deletes, ?_, ?_⟩
  · intro r hr
    rw [frame.workers] at hr
    obtain ⟨stage, user, keeps⟩ := h.follows r hr
    exact ⟨stage, fun u e positive => (frame.user _).trans (user u e positive), keeps⟩
  · intro userID positive y isOpen user
    rw [frame.user] at user
    obtain ⟨before, stays⟩ := openBefore isOpen
    by_cases registering : s.Registering userID y
    · obtain ⟨w, hw, next⟩ := registering
      exact .inr ⟨w, by rw [frame.workers]; exact hw, next⟩
    · obtain ⟨z, entry, zOpen, zUser⟩ :=
        (h.present userID positive y before user).resolve_right registering
      -- the session that is closed is not the one that the registry has
      have other : s.closes a ≠ some z := by
        intro e
        have elsewhere : s.elsewhere z userID = true := by
          apply elsewhere_of _ before user registering
          rintro rfl
          exact stays e
        simp [closesUnneeded, e, zUser, entry, elsewhere] at unneeded
      refine .inl ⟨z, ?_, openAfter zOpen other, (frame.user z).trans zUser⟩
      cases deletes with
      | nothing kept =>
        rw [kept.byUserID]
        exact entry
      | @session fd x removed =>
        rw [removed.byUserID, registryWithout]
        split
        · rename_i registered
          rw [Function.update_of_ne]
          · exact entry
          · rintro rfl
            rw [entry] at registered
            exact other ((deleted x rfl).trans registered.2.symm)
        · exact entry

theorem PresenceInv.connect (h : PresenceInv s) (fd : Fd) : PresenceInv (s.onNewConnection fd) := by
  have same : ∀ {y}, y < s.shared.next → (s.onNewConnection fd).obj y = s.obj y := by
    intro y old
    rw [onNewConnection_obj, if_neg (Nat.ne_of_lt old)]
  have openIff : ∀ {y}, y < s.shared.next → ((s.onNewConnection fd).Open y ↔ s.Open y) := by
    intro y old
    simp only [Open, onNewConnection_alive, same old, Nat.ne_of_lt old, false_or]
  refine ⟨h.toCreated.connect fd, fun r hr => ?_, fun userID positive y isOpen user => ?_⟩
  · obtain ⟨stage, user, keeps⟩ := h.follows r hr
    refine ⟨stage, fun u e positive => ?_, keeps⟩
    rw [same (h.running r hr)]
    exact user u e positive
  · by_cases new : y = s.shared.next
    · -- a new session has no user
      rw [onNewConnection_obj, if_pos new] at user
      simp only at user
      omega
    · have old : y < s.shared.next := Nat.lt_of_le_of_ne (Nat.le_of_lt_succ isOpen.1.1) new
      rw [same old] at user
      cases h.present userID positive y ((openIff old).mp isOpen) user with
      | inl found =>
        obtain ⟨z, entry, zOpen, zUser⟩ := found
        refine .inl ⟨z, entry, (openIff zOpen.1.1).mpr zOpen, ?_⟩
        rw [same zOpen.1.1]
        exact zUser
      | inr registering => exact .inr registering

/-! ## The workers -/

theorem afterOp_open (s : Server) (o : Op) (x : SessionId) : (s.afterOp o).Open x ↔ s.Open x := by
  obtain ⟨userID, username, e⟩ := s.shared.exec_objects o x
  simp only [Open, Alive, afterOp, obj, e, Shared.exec_next]

/-- The operations other than the two of a login. -/
def loginStep : Op → Bool
  | .session _ (.setAuthenticated _ _) => true
  | .registerUser _ _ => true
  | _ => false

theorem afterOp_quiet {o : Op} (quiet : loginStep o = false) :
    (∀ x, ((s.afterOp o).obj x).userID = (s.obj x).userID) ∧
      (s.afterOp o).shared.byUserID = s.shared.byUserID := by
  cases o with
  | registerUser userID x => cases quiet
  | session x o =>
    cases o with
    | setAuthenticated userID username => cases quiet
    | _ => exact ⟨fun _ => rfl, rfl⟩
  | _ => exact ⟨fun _ => rfl, rfl⟩

/-- A worker at one place of the list that is not the one that moves. -/
theorem registering_stays {workers : List (Worker Running)} {i : Nat} {w : Worker Running}
    (w' : Worker Running) {o : Op} (here : workers[i]? = some w) (other : w.nextOp ≠ some o)
    (next : ∃ v ∈ workers, v.nextOp = some o) : ∃ v ∈ workers.set i w', v.nextOp = some o := by
  obtain ⟨v, hv, next⟩ := next
  obtain ⟨j, hj⟩ := List.mem_iff_getElem?.mp hv
  refine ⟨v, mem_set_of_ne ?_ hj, next⟩
  rintro rfl
  rw [here] at hj
  cases hj
  exact other next

/-- After `setAuthenticated` comes the registration. -/
theorem next_of_authenticated {own : SessionId} {auth : Bool} {userID : Int} {p : ServerProg Unit}
    (keeps : p.Keeps (allowed own auth) after (.authenticated userID)
      fun _ stage => stage = .free) :
    ∃ rest, p = .op (.registerUser userID own) rest := by
  cases p with
  | done a => cases keeps
  | op o rest =>
    have next := keeps.1
    cases o with
    | registerUser u x =>
      obtain ⟨rfl, rfl⟩ := next
      exact ⟨rest, rfl⟩
    | session x o => cases o <;> cases next
    | _ => cases next

section Executes

variable {i : Nat} {job : Job} {o : Op} {rest : o.Res → ServerProg Unit}

theorem quiet_present (h : PresenceInv s) (quiet : loginStep o = false)
    (running : s.pool.workers[i]? = some (.running ⟨job, .op o rest⟩)) (w : Worker Running)
    {userID : Int} (positive : 0 < userID) {x : SessionId} (isOpen : s.Open x)
    (user : ((s.afterOp o).obj x).userID = userID) :
    (s.afterOp o).Found userID ∨
      ∃ v ∈ s.pool.workers.set i w, v.nextOp = some (.registerUser userID x) := by
  obtain ⟨users, byUserID⟩ := s.afterOp_quiet quiet
  rw [users] at user
  cases h.present userID positive x isOpen user with
  | inl found =>
    obtain ⟨z, entry, zOpen, zUser⟩ := found
    exact .inl ⟨z, by rw [byUserID]; exact entry, (afterOp_open s o z).mpr zOpen,
      (users z).trans zUser⟩
  | inr registering =>
    refine .inr (registering_stays _ running ?_ registering)
    intro e
    cases e
    cases quiet

theorem authenticate_present (h : PresenceInv s) {y : SessionId} {u : Int} {name : Bytes}
    {rest : Unit → ServerProg Unit}
    (running : s.pool.workers[i]? =
      some (.running ⟨job, .op (.session y (.setAuthenticated u name)) rest⟩))
    (once : (s.obj y).userID = -1 ∨ (s.obj y).userID = u)
    {userID : Int} (positive : 0 < userID) {x : SessionId} (isOpen : s.Open x)
    (user : ((s.afterOp (.session y (.setAuthenticated u name))).obj x).userID = userID) :
    (s.afterOp (.session y (.setAuthenticated u name))).Found userID ∨
      ∃ v ∈ s.pool.workers.set i (.running ⟨job, rest ()⟩),
        v.nextOp = some (.registerUser userID x) := by
  obtain ⟨stage, -, keeps⟩ := h.follows _ (List.mem_of_getElem? running)
  have own : stage = .free ∧ y = job.task.session := by
    have next := keeps.1
    cases stage with
    | free => exact ⟨rfl, next.1⟩
    | authenticated v => cases next
    | holding recipient => cases next
  obtain ⟨rfl, rfl⟩ := own
  have users : ∀ z, ((s.afterOp (.session job.task.session (.setAuthenticated u name))).obj
      z).userID = if z = job.task.session then u else (s.obj z).userID := by
    intro z
    simp only [afterOp, Shared.exec, Shared.sessionOp, Shared.setSession, obj]
    by_cases same : z = job.task.session
    · rw [if_pos same, same, Function.update_self]
    · rw [if_neg same, Function.update_of_ne same]
  rw [users] at user
  split at user
  · rename_i same
    subst same user
    obtain ⟨later, next⟩ := next_of_authenticated (keeps.2 ())
    refine .inr ⟨_, mem_set_new running, ?_⟩
    rw [next]
    rfl
  · cases h.present userID positive x isOpen user with
    | inl found =>
      obtain ⟨z, entry, zOpen, zUser⟩ := found
      refine .inl ⟨z, entry, (afterOp_open s _ z).mpr zOpen, ?_⟩
      rw [users]
      split
      · rename_i same
        subst same
        cases once with
        | inl none => omega
        | inr again => exact again.symm.trans zUser
      · exact zUser
    | inr registering =>
      refine .inr (registering_stays _ running ?_ registering)
      intro e
      cases e

theorem register_present (h : PresenceInv s) {y : SessionId} {u : Int}
    {rest : Unit → ServerProg Unit}
    (running : s.pool.workers[i]? = some (.running ⟨job, .op (.registerUser u y) rest⟩))
    (opens : u ≤ 0 ∨ s.Open y ∨ s.elsewhere y u = false) (w : Worker Running)
    {userID : Int} (positive : 0 < userID) {x : SessionId} (isOpen : s.Open x)
    (user : (s.obj x).userID = userID) :
    (s.afterOp (.registerUser u y)).Found userID ∨
      ∃ v ∈ s.pool.workers.set i w, v.nextOp = some (.registerUser userID x) := by
  obtain ⟨stage, claimed, keeps⟩ := h.follows _ (List.mem_of_getElem? running)
  have own : stage = .authenticated u ∧ y = job.task.session := by
    have next := keeps.1
    cases stage with
    | free => cases next
    | authenticated v => exact ⟨congrArg Stage.authenticated next.1.symm, next.2⟩
    | holding recipient => cases next
  obtain ⟨rfl, rfl⟩ := own
  have objects : (s.afterOp (.registerUser u job.task.session)).shared.objects =
      s.shared.objects := by
    simp only [afterOp, Shared.exec, Shared.registerUser]
    split <;> rfl
  have entries : (s.afterOp (.registerUser u job.task.session)).shared.byUserID userID =
      if userID = u then some job.task.session else s.shared.byUserID userID := by
    simp only [afterOp, Shared.exec, Shared.registerUser]
    split
    · rw [if_neg (by omega)]
    · simp only [Function.update_apply]
  by_cases same : userID = u
  · -- the entry is the session that is registered now
    subst same
    have its : (s.obj job.task.session).userID = userID := claimed userID rfl positive
    have found (stillOpen : s.Open job.task.session) :
        (s.afterOp (.registerUser userID job.task.session)).Found userID := by
      refine ⟨job.task.session, by rw [entries, if_pos rfl], (afterOp_open s _ _).mpr stillOpen, ?_⟩
      rw [obj, objects]
      exact its
    by_cases own : x = job.task.session
    · exact .inl (found (own ▸ isOpen))
    · by_cases registering : s.Registering userID x
      · refine .inr (registering_stays _ running ?_ registering)
        intro e
        cases e
        exact own rfl
      · rcases opens with none | stillOpen | alone
        · omega
        · exact .inl (found stillOpen)
        · rw [elsewhere_of own isOpen user registering] at alone
          cases alone
  · cases h.present userID positive x isOpen user with
    | inl found =>
      obtain ⟨z, entry, zOpen, zUser⟩ := found
      refine .inl ⟨z, by rw [entries, if_neg same]; exact entry, (afterOp_open s _ z).mpr zOpen, ?_⟩
      rw [obj, objects]
      exact zUser
    | inr registering =>
      refine .inr (registering_stays _ running ?_ registering)
      intro e
      cases e
      exact same rfl

/-- A worker that authenticates its session is at the registration next. -/
theorem follows_after {stage : Stage} {x : SessionId} {r : o.Res} {u : Int}
    (ok : allowed x true stage o) (next : after stage o r = .authenticated u) :
    ∃ name, o = .session x (.setAuthenticated u name) := by
  cases stage with
  | free =>
    cases o with
    | session y o =>
      cases o with
      | setAuthenticated v name =>
        cases next
        obtain ⟨rfl, -⟩ := ok
        exact ⟨name, rfl⟩
      | _ => cases next
    | findByUserID v =>
      cases r with
      | none => cases next
      | some recipient => cases next
    | _ => cases next
  | authenticated v => cases next
  | holding recipient =>
    cases o with
    | session y o => cases o <;> cases next
    | _ => cases next

theorem PresenceInv.executes (h : PresenceInv s)
    (running : s.pool.workers[i]? = some (.running ⟨job, .op o rest⟩))
    (once : ∀ x userID username, o = .session x (.setAuthenticated userID username) →
      (s.obj x).userID = -1 ∨ (s.obj x).userID = userID)
    (opens : ∀ userID x, o = .registerUser userID x →
      userID ≤ 0 ∨ s.Open x ∨ s.elsewhere x userID = false)
    {b : Backend} (created : Created { s with toBackend := b })
    (executed : b =
      ⟨s.pool.setWorker i (.running ⟨job, rest (s.shared.exec o).1⟩), (s.shared.exec o).2⟩) :
    PresenceInv { s with toBackend := b } := by
  subst executed
  refine ⟨created, ?_, ?_⟩
  · intro r hr
    rcases mem_set_cases hr with new | ⟨j, _, old⟩
    · cases new
      obtain ⟨stage, -, keeps⟩ := h.follows _ (List.mem_of_getElem? running)
      refine ⟨_, fun u e _ => ?_, keeps.2 _⟩
      obtain ⟨name, is⟩ : ∃ name, o = .session job.task.session (.setAuthenticated u name) :=
        follows_after keeps.1 e
      subst is
      simp only [Shared.exec, Shared.sessionOp, Shared.setSession, obj, Function.update_self]
    · obtain ⟨stage, user, keeps⟩ := h.follows r (List.mem_of_getElem? old)
      exact ⟨stage, fun u e positive => afterOp_user once positive (user u e positive), keeps⟩
  · intro userID positive x isOpen user
    have before : s.Open x := (afterOp_open s o x).mp isOpen
    by_cases quiet : loginStep o = false
    · exact quiet_present h quiet running _ positive before user
    · cases o with
      | registerUser u y =>
        have same : ((s.afterOp (.registerUser u y)).obj x).userID = (s.obj x).userID := by
          simp only [afterOp, Shared.exec, Shared.registerUser, obj]
          split <;> rfl
        exact register_present h running (opens u y rfl) _ positive before (same.symm.trans user)
      | session y o =>
        cases o with
        | setAuthenticated u name =>
          exact authenticate_present h running (once y u name rfl) positive before user
        | _ => exact absurd rfl quiet
      | _ => exact absurd rfl quiet

/-- A worker between two tasks. -/
theorem PresenceInv.idles (h : PresenceInv s) {w w' : Worker Running}
    (here : s.pool.workers[i]? = some w) (quiet : w.nextOp = none) (idle : ∀ r, w' ≠ .running r)
    {pool : ThreadPool Job Running} {queue : List Queued}
    (workers : pool.workers = s.pool.workers.set i w')
    (created : Created { s with toBackend :=
      { pool := pool, shared := { s.shared with queue := queue } } }) :
    PresenceInv { s with toBackend :=
      { pool := pool, shared := { s.shared with queue := queue } } } := by
  refine ⟨created, fun r hr => ?_, ?_⟩
  · have hr : Worker.running r ∈ pool.workers := hr
    rw [workers] at hr
    rcases mem_set_cases hr with new | ⟨j, _, old⟩
    · exact absurd new.symm (idle r)
    · exact h.follows r (List.mem_of_getElem? old)
  · intro userID positive x isOpen user
    cases h.present userID positive x isOpen user with
    | inl found => exact .inl found
    | inr registering =>
      have stays := registering_stays w' here (by rw [quiet]; intro e; cases e) registering
      rw [← workers] at stays
      exact .inr stays

end Executes

theorem PresenceInv.worker {i : Nat} {b : Backend} (h : PresenceInv s)
    (work : s.toBackend.worker i = some b) (once : s.authOnce (.worker i) = true)
    (opens : s.registersOpen (.worker i) = true) : PresenceInv { s with toBackend := b } := by
  have created := h.toCreated.worker work
  cases Backend.worker_cases work with
  | begins job tasks waiting head =>
    refine ⟨created, fun r hr => ?_, ?_⟩
    · rcases mem_set_cases hr with new | ⟨j, _, old⟩
      · cases new
        exact ⟨.free, fun u e => (by cases e), taskBody_follows job.task (.inl rfl)⟩
      · exact h.follows r (List.mem_of_getElem? old)
    · intro userID positive x isOpen user
      cases h.present userID positive x isOpen user with
      | inl found => exact .inl found
      | inr registering =>
        exact .inr (registering_stays _ waiting (by intro e; cases e) registering)
  | executes job o rest running =>
    have next : s.nextOp (.worker i) = some o := by simp [nextOp, running, Worker.nextOp]
    apply h.executes running ?_ ?_ created rfl
    · intro x userID username e
      simpa [authOnce, next, e] using once
    · intro userID x e
      simpa [registersOpen, next, e, or_assoc] using opens
  | exits waiting => exact h.idles waiting rfl (fun r e => by cases e) rfl created
  | ends job running => exact h.idles running rfl (fun r e => by cases e) rfl created
  | rests finishing => exact h.idles finishing rfl (fun r e => by cases e) rfl created

/-! ## Every run -/

theorem step_presence (h : PresenceInv s) (once : s.authOnce a = true)
    (unneeded : s.closesUnneeded a = true) (opens : s.registersOpen a = true)
    (hs : s.step a = some t) : PresenceInv t := by
  by_cases worker : ∃ i, a = .worker i
  · obtain ⟨i, rfl⟩ := worker
    obtain ⟨b, work, rfl⟩ := Option.map_eq_some_iff.mp hs
    exact h.worker work once opens
  · have main : ∀ i, a ≠ .worker i := fun i e => worker ⟨i, e⟩
    cases step_cases hs with
    | worker i b is => exact absurd is (main i)
    | connects fd batch openFds epoll =>
      have moved : PresenceInv { s with batch := batch, openFds := openFds, epoll := epoll } :=
        ⟨⟨h.mapped, h.queued, h.running⟩, h.follows, h.present⟩
      exact moved.connect fd
    | deletes deletes =>
      exact h.closes deletes (step_closing hs main) (fun x e => deletes_closes e) unneeded

theorem presenceInv_start (tables : Tables) (numThreads : Nat) (listenFd eventFd : Fd) :
    PresenceInv (start tables numThreads listenFd eventFd) where
  mapped := nofun
  queued := nofun
  running r hr := by
    have waiting := List.eq_of_mem_replicate hr
    cases waiting
  follows r hr := by
    have waiting := List.eq_of_mem_replicate hr
    cases waiting
  present userID positive x isOpen := absurd isOpen.1.1 (Nat.not_lt_zero x)

/-- Users who are logged in are found, whenever no request is in progress, as long as no session
authenticates as a second user and none is closed, or registered when it has been closed, while
another session of its user is open. -/
theorem present_of_closes_unneeded (tables : Tables) (numThreads : Nat) (listenFd eventFd : Fd)
    (as : List Action)
    (ordinary : Along step (fun s a => s.authOnce a = true ∧
      s.closesUnneeded a = true ∧ s.registersOpen a = true)
      (start tables numThreads listenFd eventFd) as) :
    Throughout step (fun s => s.AtRest → s.Present)
      (start tables numThreads listenFd eventFd) as := by
  apply ordinary.throughout (fun _ => PresenceInv.atRest)
  · intro s a t h ok hs
    exact step_presence h ok.1 ok.2.1 ok.2.2 hs
  · exact presenceInv_start tables numThreads listenFd eventFd

/-- User `a` logs in on two sessions; both answers have been sent. -/
def loggedInTwice : List Action :=
  [.epollWait [{ fd := 3, readable := true }], .main { accepted := some 5 },
    .epollWait [{ fd := 3, readable := true }], .main { accepted := some 6 },
    .epollWait [{ fd := 5, readable := true }],
    .main { recvs := [.bytes (PacketBuilder.authRequest 1 5 ⟨[97], [112]⟩)] }] ++
  List.replicate 9 (.worker 0) ++
  [.epollWait [{ fd := 6, readable := true }],
    .main { recvs := [.bytes (PacketBuilder.authRequest 1 6 ⟨[97], [112]⟩)] }] ++
  List.replicate 9 (.worker 0) ++
  [.epollWait [{ fd := 4, readable := true }], .main {}, .main {}, .main {}, .main {}, .main {}]

/-- The session that reads the end of its stream is closed. -/
def leaves (fd : Fd) : List Action :=
  [.epollWait [{ fd := fd, readable := true }], .main { recvs := [.bytes []] }]

/-- The newer session leaves: the older one is open, and its user is not found. -/
theorem unreachable_after_newer_leaves :
    ∃ s, exec step (start twoUsers 1 3 4) (loggedInTwice ++ leaves 6) = some s ∧ s.Open 0 ∧
      (s.obj 0).userID = 1 ∧ s.shared.byUserID 1 = none ∧ s.AtRest ∧ ¬ s.Present := by
  refine ⟨_, rfl, by decide, rfl, rfl, ?_, fun present => ?_⟩
  · intro r hr
    cases List.mem_singleton.mp hr
  · obtain ⟨x, entry, -⟩ := present 1 (by decide) 0 (by decide) rfl
    cases entry

/-- The older session leaves. -/
theorem present_after_older_leaves :
    Throughout step (fun s => s.AtRest → s.Present) (start twoUsers 1 3 4)
      (loggedInTwice ++ leaves 5) :=
  present_of_closes_unneeded twoUsers 1 3 4 _ (by decide +kernel)

end Server

end Cvcn
