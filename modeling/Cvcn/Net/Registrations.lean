import Cvcn.Net.Host

/-!
# What a step does to the registrations

A step of the main thread calls one sender, adds one number to epoll, or leaves the masks and the
senders alone but for the sessions that it closes.
-/

namespace Cvcn

open Machine

namespace Server

variable {s t m : Server} {fd : Fd} {x : SessionId}

/-- Sessions may be closed or deleted; the masks and senders of the others are left alone. -/
structure Spares (s t : Server) : Prop where
  epoll : ∀ fd, t.epoll fd = s.epoll fd ∨ t.epoll fd = none
  sender : ∀ x, (t.obj x).closed = false → (t.obj x).sender = (s.obj x).sender
  sessions : ∀ fd x, t.sessions fd = some x → s.sessions fd = some x
  closed : ∀ x, (t.obj x).closed = false → (s.obj x).closed = false
  sent : t.record.sent = s.record.sent

theorem Spares.of_shared (shared : t.shared = s.shared) (sessions : t.sessions = s.sessions)
    (epoll : t.epoll = s.epoll) (sent : t.record.sent = s.record.sent) : Spares s t where
  epoll fd := .inl (by rw [epoll])
  sender x _ := by rw [obj, obj, shared]
  sessions fd x hx := sessions ▸ hx
  closed x hx := by rwa [obj, shared] at hx
  sent := sent

theorem Spares.refl (s : Server) : Spares s s := .of_shared rfl rfl rfl rfl

theorem Spares.trans (h : Spares s m) (h' : Spares m t) : Spares s t where
  epoll fd := by
    rcases h'.epoll fd with same | none
    · rw [same]
      exact h.epoll fd
    · exact .inr none
  sender x hx := (h'.sender x hx).trans (h.sender x (h'.closed x hx))
  sessions fd x hx := h.sessions fd x (h'.sessions fd x hx)
  closed x hx := h.closed x (h'.closed x hx)
  sent := h'.sent.trans h.sent

/-- An update of one object that keeps its sender, unless it is closed, and does not open it
again. -/
theorem spares_setSession (c : ClientSession)
    (sender : c.closed = false → c.sender = (s.obj x).sender)
    (closed : c.closed = false → (s.obj x).closed = false) : Spares s (s.setSession x c) where
  epoll _ := .inl rfl
  sender y hy := by
    by_cases e : y = x
    · subst e
      simp only [obj, setSession, Shared.setSession, Function.update_self] at hy ⊢
      exact sender hy
    · simp [obj, setSession, Shared.setSession, e]
  sessions _ _ hx := hx
  closed y hy := by
    by_cases e : y = x
    · subst e
      exact closed (by simpa [obj, setSession, Shared.setSession] using hy)
    · simpa [obj, setSession, Shared.setSession, e] using hy
  sent := rfl

theorem closeSession_spares (s : Server) (x : SessionId) : Spares s (s.closeSession x) := by
  unfold closeSession
  split
  · exact .refl s
  · have closes := spares_setSession (s := s) (x := x) { s.obj x with closed := true } nofun nofun
    refine closes.trans ⟨fun fd => ?_, fun _ _ => rfl, fun _ _ hx => hx, fun _ hx => hx, rfl⟩
    by_cases e : fd = (s.obj x).fileDescriptor
    · subst e
      exact .inr (Function.update_self _ _ _)
    · exact .inl (Function.update_of_ne e _ _)

theorem unregister_spares (s : Server) (x : SessionId) : Spares s
    (if (s.obj x).userID != -1 then s.unregisterUser (s.obj x).userID x else s) := by
  split
  · unfold unregisterUser Shared.unregisterUser
    split
    · exact ⟨fun _ => .inl rfl, fun _ _ => rfl, fun _ _ hx => hx, fun _ hx => hx, rfl⟩
    · exact .of_shared rfl rfl rfl rfl
  · exact .refl s

theorem closeClient_spares (s : Server) (fd : Fd) : Spares s (s.closeClient fd) := by
  cases hx : s.sessions fd with
  | none =>
    rw [closeClient_none hx]
    exact .refl s
  | some x =>
    have unregister := s.unregister_spares x
    simp only [closeClient, hx]
    generalize (if (s.obj x).userID != -1 then s.unregisterUser (s.obj x).userID x else s) = m
      at unregister
    have closes := unregister.trans (m.closeSession_spares x)
    have deletes := closes.trans (spares_setSession (x := x)
      { (m.closeSession x).obj x with freed := true } (fun _ => rfl) id)
    refine deletes.trans ⟨fun _ => .inl rfl, fun _ _ => rfl, fun g y hy => ?_, fun _ hy => hy, rfl⟩
    simp only [Function.update_apply] at hy
    split at hy
    · cases hy
    · exact hy

theorem deferClose_spares (s : Server) (fd : Fd) : Spares s (s.deferClose fd) := by
  have noted : Spares s { s with pendingDelete := Function.update s.pendingDelete fd true } :=
    .of_shared rfl rfl rfl rfl
  cases hx : s.sessions fd with
  | none =>
    simp only [deferClose, hx]
    exact noted
  | some x =>
    simp only [deferClose, hx]
    exact noted.trans (closeSession_spares _ x)

theorem closeOrDefer_spares (s : Server) (fd : Fd) : Spares s (s.closeOrDefer fd) := by
  unfold closeOrDefer
  split
  · exact s.deferClose_spares fd
  · exact s.closeClient_spares fd

theorem requestCloseClient_spares (s : Server) (fd : Fd) (origin : SessionId) :
    Spares s (s.requestCloseClient fd origin) := by
  cases hx : s.sessions fd with
  | none =>
    simp only [requestCloseClient, hx]
    exact .refl s
  | some x =>
    obtain ⟨closed, deferredBy, e⟩ := requestCloseClient_eq hx origin
    rw [e]
    have noted : Spares s { s with record := { s.record with closed := closed } } :=
      .of_shared rfl rfl rfl rfl
    exact (noted.trans (closeOrDefer_spares _ fd)).trans (.of_shared rfl rfl rfl rfl)

theorem onTaskDone_spares (s : Server) (fd : Fd) : Spares s (s.onTaskDone fd) := by
  unfold onTaskDone
  cases s.inFlight fd with
  | none => exact .refl s
  | some n =>
    simp only
    split
    · have undone : Spares s (closeDeferred { s with
          inFlight := Function.update s.inFlight fd (some (n - 1)) } fd) :=
        .of_shared rfl rfl rfl rfl
      exact undone.trans (closeClient_spares _ fd)
    · exact .of_shared rfl rfl rfl rfl

theorem onRead_spares (s : Server) (fd : Fd) (recvs : List RecvResult) :
    Spares s (s.onRead fd recvs) := by
  unfold onRead
  cases hx : s.sessions fd with
  | none => exact .refl s
  | some x =>
    have read : Spares s (s.handleRead x recvs).1 := by
      unfold handleRead
      have got := spares_setSession (s := s) (x := x) { s.obj x with
        assembler := (ClientSession.handleRead x recvs (s.obj x).assembler).1 } (fun _ => rfl) id
      simp only
      split
      · exact got.trans (closeSession_spares _ x)
      · exact got
    obtain ⟨inFlight, pool, e, -⟩ := submitAll_pool fd (s.handleRead x recvs).1
      (s.handleRead x recvs).2
    have submitted : Spares s ((s.handleRead x recvs).2.foldl (submitTask fd)
        (s.handleRead x recvs).1) := by
      rw [e]
      exact read.trans (.of_shared rfl rfl rfl rfl)
    simp only
    split
    · exact submitted.trans (closeOrDefer_spares _ fd)
    · exact submitted

/-- A session that has been closed flushes its queue and is deleted. -/
theorem onWrite_spares (here : s.sessions fd = some x) (closed : (s.obj x).closed = true)
    (unwatched : s.epoll (s.fdOf x) = none) (sends : List SendResult) :
    Spares s (s.onWrite fd sends) := by
  have written : s.handleWrite x sends = s.setSession x { s.obj x with
      sender := ((s.obj x).sender.handleWrite sends).1 } := by
    have none : (s.setSession x { s.obj x with
        sender := ((s.obj x).sender.handleWrite sends).1 }).epoll (s.obj x).fileDescriptor =
          none := unwatched
    simp only [handleWrite, modifyFileDescriptorEvents, none]
    cases ((s.obj x).sender.handleWrite sends).2 <;> rfl
  have flushed : Spares s (s.handleWrite x sends) := by
    rw [written]
    exact spares_setSession _ (fun opened => absurd (closed.symm.trans opened) (by decide)) id
  have still : ((s.handleWrite x sends).obj x).closed = true := by
    rw [written]
    simpa [obj, setSession, Shared.setSession] using closed
  simp only [onWrite, here, still, if_true]
  exact flushed.trans (closeClient_spares _ fd)

/-- A command for whose session no sender is called. -/
theorem processCommand_spares {q : Queued} {commands : List Queued}
    (head : s.commands = q :: commands) (calls : s.calls = none) (k : Kernel) :
    Spares s ({ s with commands := commands }.processCommand k q) := by
  have taken : Spares s { s with commands := commands } := .of_shared rfl rfl rfl rfl
  simp only [Server.calls, head] at calls
  unfold processCommand
  cases type : q.cmd.type with
  | close => exact taken.trans (requestCloseClient_spares _ q.cmd.fd q.origin)
  | taskDone => exact taken.trans (onTaskDone_spares _ q.cmd.fd)
  | sendRaw =>
    simp only
    cases here : s.sessions q.cmd.fd with
    | none => exact taken
    | some x =>
      simp only [type, here] at calls
      simp only
      by_cases closed : (s.obj x).closed = true
      · rw [if_pos]
        · exact taken
        · exact closed
      · rw [if_neg closed] at calls
        cases calls

/-- A command for which a sender is called sends to an open session. -/
theorem command_calls {q : Queued} {commands : List Queued} {packet : Option Bytes}
    (head : s.commands = q :: commands) (calls : s.calls = some (x, packet)) :
    q.cmd.type = .sendRaw ∧ s.sessions q.cmd.fd = some x ∧ (s.obj x).closed = false ∧
      some q.cmd.data = packet := by
  simp only [Server.calls, head] at calls
  split at calls
  · rename_i type here
    split at calls
    · cases calls
    · rename_i opened
      cases calls
      exact ⟨type, here, Bool.not_eq_true _ ▸ opened, rfl⟩
  · cases calls

/-- Only a step that accepts a number misses one. -/
theorem missed_eq (s : Server) (k : Kernel) : s.missed (.main k) =
    if (s.accepted (.main k)).isSome && k.addFails then [s.shared.next] else [] := by
  cases commands : s.commands with
  | cons q rest => simp [missed, accepted, commands]
  | nil =>
    cases phase : s.phase with
    | shutdown | draining | stopped => simp [missed, accepted, commands, phase]
    | eventLoop =>
      cases batch : s.batch with
      | nil => simp [missed, accepted, commands, phase, batch]
      | cons item rest =>
        cases item with
        | writable fd => simp [missed, missedBy, accepted, commands, phase, batch]
        | event e =>
          simp only [missed, missedBy, accepted, commands, phase, batch]
          by_cases accepts : (!e.failed && e.readable && e.fd == s.listenFd) = true
          · simp [accepts]
          · simp [accepts]

/-! ## The cases of a step -/

/-- What is left of a batch once its first event has been handled. -/
def leftBy (e : EpollEvent) (batch : List Item) : List Item :=
  if e.writable then .writable e.fd :: batch else batch

/-- The step neither accepts nor reads, nor does it drain the result queue. -/
structure Plain (s : Server) (k : Kernel) : Prop where
  accepted : s.accepted (.main k) = none
  reads : s.reads (.main k) = none
  drains : s.drains = false

/-- All that a step of the main thread can do. -/
inductive MainStep (s : Server) (k : Kernel) : Server → Prop where
  | command (q : Queued) (commands : List Queued) (head : s.commands = q :: commands)
    (plain : Plain s k) :
    MainStep s k ({ s with commands := commands }.processCommand k q)
  | leaves (batch : List Item) (phase : Phase) (pool : ThreadPool Job Running)
    (workers : pool.workers = s.pool.workers) (last : phase ≠ .eventLoop)
    (reason : s.phase ≠ .eventLoop ∨ k.leaves = true ∨
      ∃ e ∈ s.batch.head?, ∃ e', e = .event e' ∧ e'.failed = true ∧ e'.fd = s.listenFd)
    (plain : Plain s k) (calls : s.calls = none) :
    MainStep s k { s with batch := batch, phase := phase, pool := pool }
  | failed (e : EpollEvent) (batch : List Item) (head : s.batch = .event e :: batch)
    (loop : s.phase = .eventLoop) (fails : e.failed = true) (plain : Plain s k)
    (calls : s.calls = none) :
    MainStep s k ({ s with batch := batch }.closeOrDefer e.fd)
  | skips (e : EpollEvent) (batch : List Item) (head : s.batch = .event e :: batch)
    (loop : s.phase = .eventLoop) (fine : e.failed = false)
    (nothing : e.readable = false ∨ e.fd = s.listenFd ∧ k.accepted = none) (plain : Plain s k)
    (calls : s.calls = none) :
    MainStep s k { s with batch := leftBy e batch }
  | accepts (e : EpollEvent) (batch : List Item) (head : s.batch = .event e :: batch)
    (loop : s.phase = .eventLoop) (fine : e.failed = false) (listening : e.fd = s.listenFd)
    (fd : Fd) (given : k.accepted = some fd) (number : s.accepted (.main k) = some fd)
    (free : s.openFds fd = false) (unread : s.reads (.main k) = none) (drains : s.drains = false)
    (calls : s.calls = none) :
    MainStep s k (({ s with
      batch := leftBy e batch
      openFds := Function.update s.openFds fd true }.addFileDescriptor fd .read
        k.addFails).onNewConnection fd)
  | drains (batch : List Item) (phase : Phase)
    (loop : s.phase ≠ .eventLoop ∧ phase ≠ .eventLoop ∨
      s.phase = .eventLoop ∧ phase = .eventLoop ∧ ∃ e rest, s.batch = .event e :: rest ∧
        e.failed = false ∧ e.fd = s.eventFd ∧ batch = leftBy e rest)
    (empty : s.commands = []) (accepted : s.accepted (.main k) = none)
    (unread : s.reads (.main k) = none) (draining : s.drains = true) (calls : s.calls = none) :
    MainStep s k { s.drain with batch := batch, phase := phase }
  | reads (e : EpollEvent) (batch : List Item) (head : s.batch = .event e :: batch)
    (loop : s.phase = .eventLoop) (fine : e.failed = false) (other : e.fd ≠ s.listenFd)
    (quiet : e.fd ≠ s.eventFd) (accepted : s.accepted (.main k) = none)
    (read : s.reads (.main k) = some (e.fd, k.recvs)) (drains : s.drains = false)
    (calls : s.calls = none) :
    MainStep s k ({ s with batch := leftBy e batch }.onRead e.fd k.recvs)
  | writes (fd : Fd) (batch : List Item) (head : s.batch = .writable fd :: batch)
    (loop : s.phase = .eventLoop) (plain : Plain s k)
    (calls : s.calls = (s.sessions fd).map fun x => (x, none)) :
    MainStep s k ({ s with batch := batch }.onWrite fd k.sends)

theorem handleEvent_step {k : Kernel} {e : EpollEvent} {batch : List Item}
    (empty : s.commands = []) (loop : s.phase = .eventLoop) (head : s.batch = .event e :: batch)
    (h : { s with batch := batch }.handleEvent k e = some t) : MainStep s k t := by
  have accepted : s.accepted (.main k) =
      if !e.failed && e.readable && e.fd == s.listenFd then k.accepted else none := by
    simp only [Server.accepted, empty, loop, head]
  have reads : s.reads (.main k) =
      if !e.failed && e.readable && e.fd != s.listenFd && e.fd != s.eventFd then
        some (e.fd, k.recvs)
      else none := by
    simp only [Server.reads, empty, loop, head]
  have drains : s.drains =
      (!e.failed && e.readable && e.fd != s.listenFd && e.fd == s.eventFd) := by
    simp only [Server.drains, empty, loop, head]
  have calls : s.calls = none := by simp only [Server.calls, empty, loop, head]
  unfold handleEvent at h
  split at h
  · rename_i fails
    have plain : Plain s k :=
      ⟨by simp [accepted, fails], by simp [reads, fails], by simp [drains, fails]⟩
    split at h
    · rename_i listening
      cases h
      refine .leaves [] .shutdown s.pool rfl (by decide) (.inr (.inr ?_)) plain calls
      exact ⟨_, by rw [head]; rfl, e, rfl, fails, listening⟩
    · cases h
      exact .failed e batch head loop fails plain calls
  · rename_i fine
    simp only [Bool.not_eq_true] at fine
    have left : (if e.writable then { s with batch := .writable e.fd :: batch }
        else { s with batch := batch }) = { s with batch := leftBy e batch } := by
      unfold leftBy
      split <;> rfl
    simp only [left] at h
    split at h
    · rename_i unreadable
      simp only [Bool.not_eq_true'] at unreadable
      cases h
      exact .skips e batch head loop fine (.inl unreadable) ⟨by simp [accepted, unreadable],
        by simp [reads, unreadable], by simp [drains, unreadable]⟩ calls
    · rename_i readable
      simp only [Bool.not_eq_true', Bool.not_eq_false] at readable
      split at h
      · rename_i listening
        cases given : k.accepted with
        | none =>
          rw [given] at h
          cases h
          exact .skips e batch head loop fine (.inr ⟨listening, given⟩) ⟨by simp [accepted, given],
            by simp [reads, listening], by simp [drains, listening]⟩ calls
        | some fd =>
          rw [given] at h
          simp only [Server.accept] at h
          split at h
          · cases h
          · rename_i free
            cases h
            refine .accepts e batch head loop fine listening fd given ?_ ?_ ?_ ?_ calls
            · simp [accepted, given, fine, readable, listening]
            · simpa using free
            · simp [reads, listening]
            · simp [drains, listening]
      · rename_i other
        split at h
        · rename_i waking
          cases h
          have apart : s.eventFd ≠ s.listenFd := waking ▸ other
          have rest := MainStep.drains (s := s) (k := k) (leftBy e batch) .eventLoop
            (.inr ⟨loop, rfl, e, batch, head, fine, waking, rfl⟩) empty (by simp [accepted, other])
            (by simp [reads, waking]) (by simp [drains, fine, readable, waking, apart]) calls
          rw [← loop] at rest
          exact rest
        · rename_i quiet
          cases h
          refine .reads e batch head loop fine other quiet ?_ ?_ ?_ calls
          · simp [accepted, other]
          · simp [reads, fine, readable, other, quiet]
          · simp [drains, quiet]

theorem main_step {k : Kernel} (h : s.main k = some t) : MainStep s k t := by
  obtain ⟨backend, sessions, inFlight, pendingDelete, openFds, epoll, listenFd, eventFd, phase,
    batch, commands, record, deferredBy⟩ := s
  cases commands with
  | cons q commands =>
    cases h
    exact .command q commands rfl ⟨rfl, rfl, rfl⟩
  | nil =>
    cases phase with
    | shutdown =>
      simp only [main] at h
      split at h
      · cases h
        exact .leaves batch .draining backend.pool rfl (by decide) (.inl (by simp))
          ⟨rfl, rfl, rfl⟩ rfl
      · cases h
        exact .leaves batch .stopped backend.pool.stop rfl (by decide) (.inl (by simp))
          ⟨rfl, rfl, rfl⟩ rfl
    | draining =>
      cases h
      exact .drains batch .shutdown (.inl ⟨by simp, by decide⟩) rfl rfl rfl rfl rfl
    | stopped => cases h
    | eventLoop =>
      cases batch with
      | nil =>
        simp only [main] at h
        split at h
        · rename_i leaves
          cases h
          exact .leaves [] .shutdown backend.pool rfl (by decide) (.inr (.inl leaves))
            ⟨rfl, rfl, rfl⟩ rfl
        · cases h
      | cons item batch =>
        cases item with
        | writable fd =>
          cases h
          exact .writes fd batch rfl rfl ⟨rfl, rfl, rfl⟩ rfl
        | event e => exact handleEvent_step rfl rfl rfl h

end Server

end Cvcn
