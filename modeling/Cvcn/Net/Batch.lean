import Cvcn.Net.Quiescence

/-!
# What is in the batch

The batch has one item for each number at most, and the reports of the two numbers that `main`
opens say what the main thread takes them for: a connection to accept, or commands to drain. So
what an item leaves behind is not in the batch already.
-/

namespace Cvcn

open Machine Readiness

namespace Item

/-- The number that an item of the batch is about. -/
def fd : Item → Fd
  | .event e => e.fd
  | .writable fd => fd

def isEvent (fd : Fd) : Item → Bool
  | .event e => e.fd == fd
  | .writable _ => false

end Item

section

variable {e : EpollEvent} {batch : List Item}

theorem leftBy_fds : ((Server.leftBy e batch).map Item.fd).Sublist
    ((Item.event e :: batch).map Item.fd) := by
  unfold Server.leftBy
  split
  · exact .refl _
  · exact List.sublist_cons_self _ _

theorem mem_leftBy {e' : EpollEvent} (here : .event e' ∈ Server.leftBy e batch) :
    .event e' ∈ batch := by
  unfold Server.leftBy at here
  split at here
  · exact (List.mem_cons.mp here).resolve_left nofun
  · exact here

theorem leftBy_any (fd : Fd) :
    (Server.leftBy e batch).any (·.isEvent fd) = batch.any (·.isEvent fd) := by
  unfold Server.leftBy
  split
  · rfl
  · rfl

theorem any_of_ne {fd : Fd} (other : e.fd ≠ fd) :
    (Item.event e :: batch).any (·.isEvent fd) = batch.any (·.isEvent fd) := by
  simp [Item.isEvent, other]

end

namespace Host

variable {lfd efd fd : Fd} {x : SessionId} {h h' : Host} {m : Moment} {o : Observed}

/-- Epoll has reported the number, and the main thread has not come to the report. -/
def reported (h : Host) (fd : Fd) : Bool := h.server.batch.any (·.isEvent fd)

/-- The batch has an item for each number at most, and reports of `main`'s own two numbers say
that they can be read; when the eventfd is about to be read it has no report left. -/
structure Planned (lfd efd : Fd) (h : Host) : Prop where
  distinct : (h.server.batch.map Item.fd).Nodup
  own : ∀ e, .event e ∈ h.server.batch → e.fd = lfd ∨ e.fd = efd →
    e.failed = false ∧ e.readable = true
  taken : h.resetting = true → h.reported efd = false

/-- The batch gets shorter. -/
theorem Planned.shrinks (planned : h.Planned lfd efd)
    (fds : (h'.server.batch.map Item.fd).Sublist (h.server.batch.map Item.fd))
    (events : ∀ e, .event e ∈ h'.server.batch → .event e ∈ h.server.batch)
    (taken : h'.resetting = true → h'.reported efd = false) : h'.Planned lfd efd where
  distinct := planned.distinct.sublist fds
  own e here := planned.own e (events e here)
  taken := taken

/-- What epoll says of the numbers that `main` opens. -/
theorem poll_own (held : Server.Held lfd efd h.unwatched h.server) {e : EpollEvent}
    (polled : h.poll fd = some e) (own : fd = lfd ∨ fd = efd) :
    e.failed = false ∧ e.readable = true ∧
      (fd = lfd → h.backlog ≠ []) ∧ (fd ≠ lfd → h.notified = true) := by
  simp only [poll] at polled
  split at polled
  · rename_i told
    cases polled
    by_cases listening : fd = lfd
    · have found : h.look fd = { fd := fd, readable := !h.backlog.isEmpty } :=
        if_pos (listening.trans held.listening.symm)
      rw [found] at told ⊢
      simp_all
    · have found : h.look fd = { fd := fd, readable := h.notified } :=
        (if_neg (fun same => listening (same.trans held.listening))).trans
          (if_pos ((own.resolve_left listening).trans held.waking.symm))
      rw [found] at told ⊢
      simp_all
  · cases polled

/-- A step of the main thread is one of the server, and epoll looks at one number at most. -/
theorem main_settles (idle : ¬ h.resetting = true) (hs : h.main m = some h') :
    ∃ o fd reason, h.server.main (h.kernel m) = some o.server ∧
      h.observed.step (.main (h.kernel m)) = some o ∧ h' = h.settled (h.kernel m) o ∧
      Signals (h.changed (h.kernel m) o) h' fd reason ∧
      (reason → h.rechecked (h.kernel m) = some fd ∧
        ((h.changed (h.kernel m) o).poll fd).isSome = true) := by
  rw [main, if_neg idle] at hs
  obtain ⟨o, watched, settles⟩ := Option.map_eq_some_iff.mp hs
  obtain ⟨t, moved, same⟩ := Option.map_eq_some_iff.mp watched
  obtain ⟨fd, reason, signals, looked⟩ := h.settled_signals (h.kernel m) o
  rw [settles] at signals
  refine ⟨o, fd, reason, ?_, watched, settles.symm, signals, looked⟩
  rw [← same]
  exact moved

/-- The batch is as it was. -/
theorem Planned.stays (planned : h.Planned lfd efd) (batch : h'.server.batch = h.server.batch)
    (resetting : h'.resetting = true → h.resetting = true) : h'.Planned lfd efd := by
  refine planned.shrinks ?_ ?_ ?_
  · rw [batch]
  · rw [batch]
    exact fun _ => id
  · intro resets
    rw [reported, batch]
    exact planned.taken (resetting resets)

/-- The first item is done, and may have left its `EPOLLOUT`. -/
theorem Planned.handled (planned : h.Planned lfd efd) {item : Item} {batch : List Item}
    (head : h.server.batch = item :: batch)
    (left : h'.server.batch = batch ∨
      ∃ e, item = .event e ∧ h'.server.batch = Server.leftBy e batch)
    (taken : h'.resetting = true → h'.reported efd = false) : h'.Planned lfd efd := by
  refine planned.shrinks ?_ (fun e here => ?_) taken
  · rw [head]
    rcases left with rest | ⟨e, rfl, rest⟩
    · rw [rest]
      exact List.sublist_cons_self _ _
    · rw [rest]
      exact leftBy_fds
  · rw [head]
    apply List.mem_cons_of_mem
    rcases left with rest | ⟨e', rfl, rest⟩
    · exact rest ▸ here
    · exact mem_leftBy (rest ▸ here)

/-- Each number on the list is reported once, and those of `main` only if they can be read. -/
theorem epollWait_planned (inv : HostInv lfd efd h) (hs : h.epollWait = some h') :
    h'.Planned lfd efd := by
  simp only [epollWait] at hs
  split at hs
  · cases hs
  · rename_i idle
    obtain ⟨o, watched, rfl⟩ := Option.map_eq_some_iff.mp hs
    obtain ⟨t, moved, rfl⟩ := Option.map_eq_some_iff.mp watched
    simp only [Server.step, Server.epollWait] at moved
    split at moved
    · cases moved
      constructor
      · have fds : ∀ p ∈ (harvest h.poll MAX_EVENTS h.ready).1, p.2.fd = p.1 :=
          fun p here => poll_fd (harvest_polled here).1
        have listed := (inv.nodup.sublist h.harvested_sublist).of_append_left
        simp only [server, List.map_map]
        rw [List.map_congr_left (g := (·.1)) fds]
        exact listed
      · intro e here own
        obtain ⟨e', told, same⟩ := List.mem_map.mp here
        cases same
        obtain ⟨p, taken, rfl⟩ := List.mem_map.mp told
        have polled := (harvest_polled taken).1
        rw [poll_fd polled] at own
        obtain ⟨fine, readable, -⟩ := poll_own inv.held polled own
        exact ⟨fine, readable⟩
      · exact fun resets => absurd resets idle
    · cases moved

/-- The eventfd has been reported, and this was its only report. -/
theorem Planned.drained (planned : h.Planned lfd efd) {e : EpollEvent} {rest : List Item}
    (head : h.server.batch = .event e :: rest) (waking : e.fd = efd)
    (left : h'.server.batch = Server.leftBy e rest) : h'.reported efd = false := by
  have distinct := planned.distinct
  rw [head, List.map_cons, List.nodup_cons] at distinct
  rw [reported, left, leftBy_any, List.any_eq_false]
  intro item here event
  apply distinct.1
  rw [show (Item.event e).fd = efd from waking]
  cases item with
  | writable fd => cases event
  | event e' => exact List.mem_map.mpr ⟨_, here, beq_iff_eq.mp event⟩

/-- Where the event loop goes on, the main thread has handled the first item of the batch, or a
command. -/
theorem main_planned (inv : HostInv lfd efd h)
    (planned : h.server.phase = .eventLoop → h.Planned lfd efd) (idle : ¬ h.resetting = true)
    (hs : h.main m = some h') (loop : h'.server.phase = .eventLoop) : h'.Planned lfd efd := by
  obtain ⟨o, fd, reason, moved, -, -, signals, -⟩ := main_settles idle hs
  have server' : h'.server = o.server := congrArg Host.server signals.same
  have resetting : h'.resetting = h.server.drains := congrArg Host.resetting signals.same
  generalize o.server = t at moved server'
  have taken (drains : h.server.drains = false) :
      h'.resetting = true → h'.reported efd = false := by
    rw [resetting, drains]
    exact nofun
  rw [server'] at loop
  cases Server.main_step moved with
  | command q commands head plain =>
    have same := Server.processCommand_sameLoop { h.server with commands := commands }
      (h.kernel m) q
    refine (planned (same.phase ▸ loop)).stays (by rw [server']; exact same.batch) ?_
    rw [resetting, plain.drains]
    exact nofun
  | leaves batch phase pool workers last => exact absurd loop last
  | failed e batch head before fails plain =>
    refine (planned before).handled head (.inl ?_) (taken plain.drains)
    rw [server']
    exact (Server.closeOrDefer_sameLoop _ _).batch
  | skips e batch head before fine nothing plain =>
    exact (planned before).handled head (.inr ⟨e, rfl, by rw [server']⟩) (taken plain.drains)
  | accepts e batch head before fine listening fd given number free unread drains =>
    refine (planned before).handled head (.inr ⟨e, rfl, ?_⟩) (taken drains)
    rw [server']
    rfl
  | reads e batch head before fine other quiet accepted read drains =>
    refine (planned before).handled head (.inr ⟨e, rfl, ?_⟩) (taken drains)
    rw [server']
    exact (Server.onRead_sameLoop _ _ _).batch
  | writes fd batch head before plain =>
    refine (planned before).handled head (.inl ?_) (taken plain.drains)
    rw [server']
    exact (Server.onWrite_sameLoop _ _ _).batch
  | drains batch phase goes =>
    obtain ⟨before, -, e, rest, head, fine, waking, rfl⟩ :=
      goes.resolve_left fun ends => ends.2 loop
    have left : h'.server.batch = Server.leftBy e rest := by rw [server']
    refine (planned before).handled head (.inr ⟨e, rfl, left⟩) fun _ => ?_
    exact (planned before).drained head (waking.trans inv.held.waking) left

theorem step_planned {a : HostAction} (inv : HostInv lfd efd h)
    (planned : h.server.phase = .eventLoop → h.Planned lfd efd) (hs : h.step a = some h')
    (loop : h'.server.phase = .eventLoop) : h'.Planned lfd efd := by
  cases a with
  | outside e =>
    have out := happens_outside hs
    have server' : h'.server = h.server := by rw [server, out.observed, server]
    rw [server'] at loop
    exact (planned loop).stays (by rw [server']) (by rw [out.resetting]; exact id)
  | write =>
    simp only [step, write] at hs
    split at hs
    · cases hs
    · cases hs
      have same := (signals_signal { h with
        notified := true, unwritten := h.unwritten - 1 } h.server.eventFd).same
      rw [same] at loop ⊢
      exact (planned loop).stays rfl id
  | worker i =>
    obtain ⟨o, watched, rfl⟩ := Option.map_eq_some_iff.mp hs
    obtain ⟨t, moved, rfl⟩ := Option.map_eq_some_iff.mp watched
    obtain ⟨b, -, rfl⟩ := Option.map_eq_some_iff.mp moved
    exact (planned loop).stays rfl id
  | epollWait => exact epollWait_planned inv hs
  | main m =>
    by_cases reset : h.resetting = true
    · rw [step, main, if_pos reset] at hs
      cases hs
      exact (planned loop).stays rfl fun again => by cases again
    · exact main_planned inv planned reset hs loop

/-- An `EPOLLOUT` is for some room at least. -/
structure Marked (h : Host) : Prop where
  sockets : ∀ fd, 0 < (h.sockets fd).lowWater
  backlog : ∀ c ∈ h.backlog, 0 < c.lowWater

/-- A step of the main thread changes one socket at most. -/
theorem socketsAfter_cases (h : Host) (k : Kernel) : h.socketsAfter k = h.sockets ∨
    ∃ fd c, h.socketsAfter k = Function.update h.sockets fd c ∧
      (c = h.backlog.headD {} ∨ c = (h.sockets fd).read ∨
        ∃ p call, c = (h.sockets fd).called p call) := by
  unfold socketsAfter
  split
  · exact .inr ⟨_, _, rfl, .inl rfl⟩
  · exact .inr ⟨_, _, rfl, .inr (.inl rfl)⟩
  · split
    · exact .inl rfl
    · exact .inr ⟨_, _, rfl, .inr (.inr ⟨_, _, rfl⟩)⟩
  · exact .inl rfl

theorem step_marked {a : HostAction} (marked : h.Marked)
    (connects : ∀ c, a = .outside (.connect c) → 0 < c.lowWater) (hs : h.step a = some h') :
    h'.Marked := by
  have same (sockets : h'.sockets = h.sockets) (backlog : h'.backlog = h.backlog) : h'.Marked :=
    ⟨sockets ▸ marked.sockets, backlog ▸ marked.backlog⟩
  cases a with
  | outside e =>
    have out := happens_outside hs
    constructor
    · intro fd
      rw [out.lowWater]
      exact marked.sockets fd
    · intro c here
      rcases out.backlog c here with old | ⟨c', rfl, mark⟩
      · exact marked.backlog c old
      · rw [mark]
        exact connects c' rfl
  | epollWait =>
    simp only [step, epollWait] at hs
    split at hs
    · cases hs
    · obtain ⟨o, watched, rfl⟩ := Option.map_eq_some_iff.mp hs
      exact same rfl rfl
  | worker i =>
    obtain ⟨o, watched, rfl⟩ := Option.map_eq_some_iff.mp hs
    exact same rfl rfl
  | write =>
    simp only [step, write] at hs
    split at hs
    · cases hs
    · cases hs
      have signals := (signals_signal { h with
        notified := true, unwritten := h.unwritten - 1 } h.server.eventFd).same
      apply same
      · rw [signals]
      · rw [signals]
  | main m =>
    by_cases reset : h.resetting = true
    · rw [step, main, if_pos reset] at hs
      cases hs
      exact same rfl rfl
    · obtain ⟨o, fd, reason, -, -, -, signals, -⟩ := main_settles reset hs
      rw [signals.same]
      constructor
      · intro g
        show 0 < (h.socketsAfter (h.kernel m) g).lowWater
        rcases h.socketsAfter_cases (h.kernel m) with same | ⟨fd, c, update, changed⟩
        · rw [same]
          exact marked.sockets g
        · rw [update, Function.update_apply]
          split
          · rcases changed with rfl | rfl | ⟨p, call, rfl⟩
            · cases waits : h.backlog with
              | nil => exact Nat.one_pos
              | cons c backlog => exact marked.backlog c (by rw [waits]; exact List.mem_cons_self)
            · exact marked.sockets fd
            · exact marked.sockets fd
          · exact marked.sockets g
      · intro c here
        simp only [changed] at here
        split at here
        · exact marked.backlog c (List.mem_of_mem_tail here)
        · exact marked.backlog c here

end Host

end Cvcn
