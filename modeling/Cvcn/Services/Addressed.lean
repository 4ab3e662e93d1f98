import Cvcn.Net.Delivery
import Cvcn.Net.Descriptors
import Cvcn.Services.Broadcast

/-!
# The number on a command

A session puts the number that it was created with on every command that it pushes. A worker calls
the methods of sessions that have been created, so the number stays that session's from then on,
whatever becomes of it.
-/

namespace Cvcn

open Atomic Machine

namespace Server

variable {s t : Server} {a : Action}

/-- The sessions that the registry and the workers know have been created, and every `SendRaw` and
`Close` has the number of the session that pushed it. -/
structure Addressed (s : Server) : Prop extends Created s where
  registered : ∀ userID x, s.shared.byUserID userID = some x → x < s.shared.next
  follows : ∀ r, Worker.running r ∈ s.pool.workers →
    ∃ stage, (∀ x, stage = .holding x → x < s.shared.next) ∧
      r.rest.Keeps (allowed r.job.task.session true) after stage fun _ stage => stage = .free
  numbered : ∀ q, q ∈ s.commands ∨ q ∈ s.shared.queue → q.cmd.type ≠ .taskDone →
    q.origin < s.shared.next ∧ q.cmd.fd = s.fdOf q.origin

/-! ## The main thread -/

/-- The main thread pushes nothing. -/
theorem step_unpushed (main : ∀ i, a ≠ .worker i) (hs : s.step a = some t) {q : Queued}
    (hq : q ∈ t.commands ∨ q ∈ t.shared.queue) : q ∈ s.commands ∨ q ∈ s.shared.queue := by
  cases step_effect hs with
  | plan | stop | accept => exact hq
  | drain =>
    cases hq with
    | inl drained => exact .inr drained
    | inr queued => cases queued
  | read fd batch recvs =>
    have same := onRead_trims { s with batch := batch } fd recvs
    rw [same.commands, same.queue] at hq
    exact hq
  | write fd batch sends =>
    have same := onWrite_trims { s with batch := batch } fd sends
    rw [same.commands, same.queue] at hq
    exact hq
  | error fd batch =>
    have same := closeOrDefer_trims { s with batch := batch } fd
    rw [onError, same.commands, same.queue] at hq
    exact hq
  | command k p commands head =>
    have same := processCommand_sameLoop { s with commands := commands } k p
    rw [same.commands, same.queue] at hq
    exact hq.imp_left fun left => head ▸ List.mem_cons_of_mem p left
  | worker i b is => exact absurd is (main i)

theorem Addressed.deletes {o : Option SessionId} (h : Addressed s) (deletes : Deletes s t o) :
    Created t ∧ (∀ userID x, t.shared.byUserID userID = some x → x < t.shared.next) ∧
      ∀ r, Worker.running r ∈ t.pool.workers →
        ∃ stage, (∀ x, stage = .holding x → x < t.shared.next) ∧
          r.rest.Keeps (allowed r.job.task.session true) after stage
            fun _ stage => stage = .free := by
  have frame := deletes.frame
  rw [frame.next, frame.workers]
  exact ⟨h.toCreated.deletes deletes, fun userID x hx => h.registered userID x (deletes.entry hx),
    h.follows⟩

theorem Addressed.main (h : Addressed s) (main : ∀ i, a ≠ .worker i) (hs : s.step a = some t) :
    Addressed t := by
  have numbered : ∀ q, q ∈ t.commands ∨ q ∈ t.shared.queue → q.cmd.type ≠ .taskDone →
      q.origin < t.shared.next ∧ q.cmd.fd = t.fdOf q.origin := by
    intro q hq type
    obtain ⟨known, number⟩ := h.numbered q (step_unpushed main hs hq) type
    exact ⟨Nat.lt_of_lt_of_le known (step_next hs), number.trans (step_fdOf hs known).symm⟩
  cases step_cases hs with
  | worker i b is => exact absurd is (main i)
  | connects fd batch openFds epoll =>
    have later : ∀ {x}, x < s.shared.next → x < s.shared.next + 1 := Nat.lt_succ_of_lt
    have created := h.toCreated.connect fd
    refine ⟨⟨created.mapped, created.queued, created.running⟩,
      fun userID x hx => later (h.registered userID x hx), fun r hr => ?_, numbered⟩
    obtain ⟨stage, known, keeps⟩ := h.follows r hr
    exact ⟨stage, fun x holding => later (known x holding), keeps⟩
  | deletes deletes =>
    obtain ⟨created, registered, follows⟩ := h.deletes deletes
    exact ⟨created, registered, follows, numbered⟩

/-! ## The workers -/

section Executes

variable {i : Nat} {job : Job} {o : Op} {rest : o.Res → ServerProg Unit}

/-- The session whose method a worker calls has been created. -/
theorem Addressed.caller (h : Addressed s)
    (running : s.pool.workers[i]? = some (.running ⟨job, .op o rest⟩)) {x : SessionId}
    {call : SessionOp} (is : o = .session x call) : x < s.shared.next := by
  subst is
  have here := List.mem_of_getElem? running
  by_cases own : x = job.task.session
  · exact own ▸ h.running _ here
  · obtain ⟨stage, known, keeps⟩ := h.follows _ here
    exact known x (holding_of_allowed keeps.1 own)

/-- So has the session that is registered. -/
theorem Addressed.registers (h : Addressed s)
    (running : s.pool.workers[i]? = some (.running ⟨job, .op o rest⟩)) {userID : Int}
    {x : SessionId} (is : o = .registerUser userID x) : x < s.shared.next := by
  subst is
  have here := List.mem_of_getElem? running
  obtain ⟨stage, known, keeps⟩ := h.follows _ here
  cases stage with
  | authenticated user =>
    obtain ⟨-, own⟩ := keeps.1
    exact own ▸ h.running _ here
  | free | holding => cases keeps.1

/-- A recipient comes from the registry. -/
theorem holding_after {stage : Stage} {own x : SessionId} (ok : allowed own true stage o)
    (next : after stage o (s.shared.exec o).1 = .holding x) :
    stage = .holding x ∨ ∃ userID, s.shared.byUserID userID = some x := by
  cases stage with
  | free =>
    cases o with
    | findByUserID userID =>
      cases found : s.shared.byUserID userID with
      | none =>
        simp only [Shared.exec, found] at next
        cases next
      | some y =>
        simp only [Shared.exec, found] at next
        cases next
        exact .inr ⟨userID, found⟩
    | session y call => cases call <;> cases next
    | _ => cases next
  | authenticated userID => cases next
  | holding recipient =>
    cases o with
    | session y call =>
      cases call with
      | sendRaw data =>
        cases next
        exact .inl rfl
      | _ => cases next
    | _ => cases next

theorem afterOp_registered (h : Addressed s)
    (running : s.pool.workers[i]? = some (.running ⟨job, .op o rest⟩)) {userID : Int}
    {x : SessionId} (hx : (s.afterOp o).shared.byUserID userID = some x) : x < s.shared.next := by
  cases o with
  | registerUser user y =>
    simp only [afterOp, Shared.exec, Shared.registerUser] at hx
    split at hx
    · exact h.registered userID x hx
    · simp only [Function.update_apply] at hx
      split at hx
      · cases hx
        exact h.registers running rfl
      · exact h.registered userID x hx
  | session y call => cases call <;> exact h.registered userID x hx
  | _ => exact h.registered userID x hx

theorem Addressed.executes (h : Addressed s)
    (running : s.pool.workers[i]? = some (.running ⟨job, .op o rest⟩)) {b : Backend}
    (created : Created { s with toBackend := b })
    (executed : b =
      ⟨s.pool.setWorker i (.running ⟨job, rest (s.shared.exec o).1⟩), (s.shared.exec o).2⟩) :
    Addressed { s with toBackend := b } := by
  subst executed
  have next : (s.shared.exec o).2.next = s.shared.next := s.shared.exec_next o
  have number : ∀ x, ((s.shared.exec o).2.objects x).fileDescriptor = s.fdOf x := by
    intro x
    obtain ⟨userID, username, e⟩ := s.shared.exec_objects o x
    rw [e]
    rfl
  refine ⟨created, ?_, ?_, ?_⟩
  · intro userID x hx
    rw [next]
    exact afterOp_registered h running hx
  · intro r hr
    rw [next]
    rcases mem_set_cases hr with new | ⟨j, _, old⟩
    · cases new
      obtain ⟨stage, known, keeps⟩ := h.follows _ (List.mem_of_getElem? running)
      refine ⟨_, fun x holding => ?_, keeps.2 _⟩
      rcases holding_after keeps.1 holding with before | ⟨userID, found⟩
      · exact known x before
      · exact h.registered userID x found
    · exact h.follows r (List.mem_of_getElem? old)
  · intro q hq type
    have goal : q.origin < (s.shared.exec o).2.next ∧
        q.cmd.fd = ((s.shared.exec o).2.objects q.origin).fileDescriptor := by
      rw [next, number]
      cases hq with
      | inl drained => exact h.numbered q (.inl drained) type
      | inr queued =>
        rcases exec_pushed queued with old | ⟨fd, ⟨data, is⟩ | is⟩
        · exact h.numbered q (.inr old) type
        · exact ⟨h.caller running is, fd⟩
        · exact ⟨h.caller running is, fd⟩
    exact goal

end Executes

theorem Addressed.worker {i : Nat} {b : Backend} (h : Addressed s)
    (work : s.toBackend.worker i = some b) : Addressed { s with toBackend := b } := by
  have created := h.toCreated.worker work
  have others {w : Worker Running} (idle : ∀ r, w ≠ .running r) {r : Running}
      (hr : Worker.running r ∈ s.pool.workers.set i w) : Worker.running r ∈ s.pool.workers := by
    rcases mem_set_cases hr with new | ⟨j, _, old⟩
    · exact absurd new.symm (idle r)
    · exact List.mem_of_getElem? old
  cases Backend.worker_cases work with
  | begins job tasks waiting head =>
    refine ⟨created, h.registered, fun r hr => ?_, h.numbered⟩
    rcases mem_set_cases hr with new | ⟨j, _, old⟩
    · cases new
      exact ⟨.free, fun x e => (by cases e), taskBody_follows job.task (.inl rfl)⟩
    · exact h.follows r (List.mem_of_getElem? old)
  | executes job o rest running => exact h.executes running created rfl
  | exits | rests =>
    refine ⟨created, h.registered, fun r hr => h.follows r (others (fun r e => ?_) hr), h.numbered⟩
    cases e
  | ends job =>
    refine ⟨created, h.registered,
      fun r hr => h.follows r (others (fun r e => by cases e) hr), fun q hq type => ?_⟩
    cases hq with
    | inl drained => exact h.numbered q (.inl drained) type
    | inr queued =>
      cases List.mem_append.mp queued with
      | inl old => exact h.numbered q (.inr old) type
      | inr new =>
        rw [List.mem_singleton.mp new] at type
        exact absurd rfl type

/-! ## Every run -/

theorem step_addressed (h : Addressed s) (hs : s.step a = some t) : Addressed t := by
  by_cases worker : ∃ i, a = .worker i
  · obtain ⟨i, rfl⟩ := worker
    obtain ⟨b, work, rfl⟩ := Option.map_eq_some_iff.mp hs
    exact h.worker work
  · exact h.main (fun i e => worker ⟨i, e⟩) hs

theorem addressed_start (tables : Tables) (numThreads : Nat) (listenFd eventFd : Fd) :
    Addressed (start tables numThreads listenFd eventFd) where
  mapped := nofun
  queued := nofun
  running r hr := by
    have waiting := List.eq_of_mem_replicate hr
    cases waiting
  registered := nofun
  follows r hr := by
    have waiting := List.eq_of_mem_replicate hr
    cases waiting
  numbered q hq := hq.elim nofun nofun

end Server

end Cvcn
