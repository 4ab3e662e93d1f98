import Cvcn.Net.Descriptors

/-!
# Objects that are lost

A session object is deleted through its entry in the map, by the session manager while it runs or
by its destructor. A number that is accepted while a closed session still waits under it takes the
entry over, and that is the only way to lose an object.
-/

namespace Cvcn

open Machine

namespace Server

variable {s t : Server} {lfd efd fd : Fd} {x : SessionId} {a : Action} {missing : List SessionId}

/-- The object exists and the map has no entry for it. -/
def Lost (s : Server) (x : SessionId) : Prop := s.Alive x ∧ s.sessions (s.fdOf x) ≠ some x

/-- A step of the main thread that creates a session has accepted its number. -/
theorem step_accepted (hs : s.step a = some t) : t.shared.next = s.shared.next ∨
    ∃ fd, s.accepted a = some fd ∧ t.sessions = Function.update s.sessions fd (some s.shared.next) ∧
      ∀ x, t.obj x = if x = s.shared.next then { fileDescriptor := fd } else s.obj x := by
  cases step_effect hs with
  | accept fd batch openFds epoll number free nothing unread =>
    exact .inr ⟨fd, number, rfl, onNewConnection_obj _ fd⟩
  | plan | stop | drain => exact .inl rfl
  | read fd batch recvs => exact .inl (onRead_trims _ fd recvs).deletes.frame.next
  | write fd batch sends => exact .inl (onWrite_trims _ fd sends).deletes.frame.next
  | error fd batch => exact .inl (closeOrDefer_trims _ fd).deletes.frame.next
  | command k q commands => exact .inl (processCommand_deletes _ k q).frame.next
  | worker i b is work => exact .inl (worker_sameNumbers work).next

theorem next_of_accepted (number : s.accepted a = some fd) (hs : s.step a = some t) :
    t.shared.next = s.shared.next + 1 := by
  cases a with
  | epollWait events => cases number
  | worker i => cases number
  | main k =>
    simp only [accepted] at number
    split at number
    · rename_i e batch empty loop head
      split at number
      · rename_i reads
        simp only [Bool.and_eq_true, Bool.not_eq_true', beq_iff_eq] at reads
        obtain ⟨⟨failed, readable⟩, listening⟩ := reads
        have accepts : ∃ m : Server, m.shared = s.shared ∧
            m.accept (some fd) k.addFails = some t := by
          simp only [step, main, empty, loop, head, handleItem, handleEvent, failed, readable,
            listening, number, Bool.false_eq_true, if_false, Bool.not_true] at hs
          cases writable : e.writable with
          | false =>
            simp only [writable, Bool.false_eq_true, if_false, if_true] at hs
            refine ⟨_, ?_, hs⟩
            rfl
          | true =>
            simp only [writable, if_true] at hs
            refine ⟨_, ?_, hs⟩
            rfl
        obtain ⟨m, same, accepts⟩ := accepts
        simp only [Server.accept] at accepts
        split at accepts
        · cases accepts
        · cases accepts
          rw [← same]
          rfl
      · cases number
    · cases number

theorem step_lost (h : Held lfd efd missing s) (lost : s.Lost x) (hs : s.step a = some t) :
    t.Lost x := by
  obtain ⟨⟨known, alive⟩, gone⟩ := lost
  have number := step_fdOf hs known
  refine ⟨⟨Nat.lt_of_lt_of_le known (step_next hs), ?_⟩, ?_⟩
  · cases step_cases hs with
    | worker i b is work => exact ((worker_sameNumbers work).freed x).trans alive
    | connects fd batch openFds epoll nothing =>
      rw [onNewConnection_obj, if_neg (Nat.ne_of_lt known)]
      exact alive
    | deletes deletes =>
      rw [deletes.freed, if_neg, alive]
      generalize s.deletes a = o at deletes
      cases deletes with
      | nothing kept => exact nofun
      | session removed =>
        rintro ⟨⟩
        apply gone
        rw [(h.numbered _ _ removed.here).2.1]
        exact removed.here
  · rw [number]
    cases step_cases hs with
    | worker i b is work => exact gone
    | connects fd batch openFds epoll nothing =>
      intro found
      simp only [onNewConnection, Function.update_apply] at found
      split at found
      · exact absurd (Option.some.inj found) (Nat.ne_of_gt known)
      · exact gone found
    | deletes deletes =>
      intro found
      generalize s.deletes a = o at deletes
      cases deletes with
      | nothing kept => exact gone (kept.sessions ▸ found)
      | session removed =>
        rw [removed.sessions, Function.update_apply] at found
        split at found
        · cases found
        · exact gone found

/-- The object that a step loses is the one found under the number that it accepts. -/
theorem Held.step_loses (h : Held lfd efd missing s) (hs : s.step a = some t) :
    t.Lost x ↔ s.Lost x ∨ ∃ fd, s.accepted a = some fd ∧ s.sessions fd = some x := by
  constructor
  · rintro ⟨⟨known, alive⟩, gone⟩
    rcases step_accepted hs with same | ⟨fd, number, sessions, obj⟩
    · rw [same] at known
      left
      rw [step_fdOf hs known] at gone
      cases step_cases hs with
      | worker i b is work =>
        exact ⟨⟨known, ((worker_sameNumbers work).freed x).symm.trans alive⟩, gone⟩
      | connects fd batch openFds epoll nothing => exact absurd same (Nat.succ_ne_self _)
      | deletes deletes =>
        generalize s.deletes a = o at deletes
        cases deletes with
        | nothing kept =>
          rw [kept.freed] at alive
          rw [kept.sessions] at gone
          exact ⟨⟨known, alive⟩, gone⟩
        | @session fd y removed =>
          rw [removed.freed] at alive
          rw [removed.sessions] at gone
          split at alive
          · cases alive
          · rename_i ne
            refine ⟨⟨known, alive⟩, fun found => gone ?_⟩
            rwa [Function.update_of_ne]
            intro number
            rw [number, removed.here] at found
            exact ne (Option.some.inj found).symm
    · by_cases new : x = s.shared.next
      · rw [sessions, fdOf, obj, if_pos new, new] at gone
        exact absurd (Function.update_self _ _ _) gone
      · rw [obj, if_neg new] at alive
        have number' : t.fdOf x = s.fdOf x := by rw [fdOf, obj, if_neg new]; rfl
        rw [number', sessions] at gone
        have known : x < s.shared.next := by
          rw [next_of_accepted number hs] at known
          exact Nat.lt_of_le_of_ne (Nat.le_of_lt_succ known) new
        by_cases here : s.sessions (s.fdOf x) = some x
        · right
          refine ⟨fd, number, ?_⟩
          by_cases e : s.fdOf x = fd
          · rw [← e]
            exact here
          · rw [Function.update_of_ne e] at gone
            exact absurd here gone
        · exact .inl ⟨⟨known, alive⟩, here⟩
  · rintro (lost | ⟨fd, number, found⟩)
    · exact step_lost h lost hs
    · obtain ⟨known, here, alive⟩ := h.numbered fd x found
      rcases step_accepted hs with same | ⟨g, number', sessions, obj⟩
      · have grows := next_of_accepted number hs
        exact absurd (grows.symm.trans same) (Nat.succ_ne_self _)
      · cases number.symm.trans number'
        have old := Nat.ne_of_lt known
        refine ⟨⟨Nat.lt_of_lt_of_le known (step_next hs), by rw [obj, if_neg old]; exact alive⟩, ?_⟩
        rw [step_fdOf hs known, sessions, here, Function.update_self]
        exact fun e => old (Option.some.inj e).symm

theorem acceptFree_iff : s.acceptFree a = true ↔
    ∀ x, ¬ ∃ fd, s.accepted a = some fd ∧ s.sessions fd = some x := by
  cases number : s.accepted a with
  | none => simp [acceptFree, number]
  | some fd => simp [acceptFree, number, Option.eq_none_iff_forall_ne_some]

/-- Once an object is lost it stays so, and a run loses none exactly if no step does. -/
theorem Held.run_loses (h : Held lfd efd missing s) {as : List Action}
    (run : exec Server.step s as = some t) : (∀ x, ¬ t.Lost x) ↔
      (∀ x, ¬ s.Lost x) ∧ Along Server.step (fun s a => s.acceptFree a = true) s as := by
  induction as generalizing s missing with
  | nil =>
    cases run
    exact (and_iff_left trivial).symm
  | cons a as ih =>
    obtain ⟨m, hm, run⟩ := exec_cons.mp run
    have loses (x : SessionId) := h.step_loses (x := x) hm
    rw [ih (h.step hm) run]
    constructor
    · rintro ⟨none, along⟩
      have before (x : SessionId) := not_or.mp (mt (loses x).mpr (none x))
      refine ⟨fun x => (before x).1, acceptFree_iff.mpr fun x => (before x).2, fun n hn => ?_⟩
      cases hm.symm.trans hn
      exact along
    · rintro ⟨none, free, along⟩
      refine ⟨fun x lost => ?_, along m hm⟩
      cases (loses x).mp lost with
      | inl old => exact none x old
      | inr new => exact acceptFree_iff.mp free x new

/-- What has been deleted at the end of the program is all that is not lost. -/
theorem Held.exit_deleted (h : Held lfd efd missing s) {entries : List (Fd × SessionId)}
    (lists : s.Lists entries) (known : x < s.shared.next) :
    x ∈ (s.exit entries).deleted ↔ ¬ s.Lost x := by
  have all : (s.exit entries).deleted = s.deleted ++ entries.map (·.2) :=
    (h.destroySessions lists).2
  have listed : x ∈ entries.map (·.2) ↔ s.sessions (s.fdOf x) = some x := by
    constructor
    · intro found
      obtain ⟨⟨fd, y⟩, here, rfl⟩ := List.mem_map.mp found
      have hy := (lists.all fd y).mp here
      rw [(h.numbered fd y hy).2.1]
      exact hy
    · intro found
      exact List.mem_map.mpr ⟨_, (lists.all _ x).mpr found, rfl⟩
  rw [all, List.mem_append, h.deleted, listed]
  cases freed : (s.obj x).freed with
  | true => simp [Lost, Alive, freed, known]
  | false => simp [Lost, Alive, freed, known]

/-- **Lost objects, exactly when.** At the end of the program every session object has been deleted,
if and only if no number was ever accepted while the map still had an entry under it. -/
theorem all_deleted_iff (tables : Tables) (numThreads : Nat) (listenFd eventFd : Fd)
    (as : List Action) (t : Server)
    (run : exec step (start tables numThreads listenFd eventFd) as = some t)
    (entries : List (Fd × SessionId)) (lists : t.Lists entries) :
    (∀ x < t.shared.next, x ∈ (t.exit entries).deleted) ↔
      Along step (fun s a => s.acceptFree a = true)
        (start tables numThreads listenFd eventFd) as := by
  have fresh (x : SessionId) : ¬ (start tables numThreads listenFd eventFd).Lost x :=
    fun lost => Nat.not_lt_zero _ lost.1.1
  have loses := (held_start tables numThreads listenFd eventFd).run_loses run
  rw [and_iff_right fresh] at loses
  rw [← loses]
  have exit (x : SessionId) (known : x < t.shared.next) := (run_held run).exit_deleted lists known
  constructor
  · intro all x lost
    exact (exit x lost.1.1).mp (all x lost.1.1) lost
  · intro none x known
    exact (exit x known).mpr (none x)

/-- The next client is given the number of the one that has left. -/
def takenOver : List Action :=
  leaving ++ [.epollWait [{ fd := 3, readable := true }], .main { accepted := some 5 }]

/-- The object of the one that has left is lost. -/
theorem object_lost_under_reused_number : ∃ t, exec step (start {} 1 3 4) takenOver = some t ∧
    t.Lists [(5, 1)] ∧ ¬ ∀ x < t.shared.next, x ∈ (t.exit [(5, 1)]).deleted := by
  obtain ⟨t, run, sessions⟩ : ∃ t, exec step (start {} 1 3 4) takenOver = some t ∧ t.sessions =
      Function.update (Function.update (fun _ => none) 5 (some 0)) 5 (some 1) := ⟨_, rfl, rfl⟩
  have lists : t.Lists [(5, 1)] := by
    refine ⟨fun fd x => ?_, by decide⟩
    rw [sessions]
    by_cases e : fd = 5
    · simp [e, eq_comm]
    · simp [e]
  refine ⟨t, run, lists, ?_⟩
  rw [all_deleted_iff {} 1 3 4 takenOver t run [(5, 1)] lists]
  decide

end Server

end Cvcn
