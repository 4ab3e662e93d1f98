import Cvcn.Net.Deletion

/-!
# Who owns a descriptor

`close` is called in one place, behind `closed_.exchange`, with the number that the session was
created with; the kernel gives a closed number out again at once. The numbers that are open are
those of the sessions that are not closed, one each, and the two that `main` opens itself, in
every run: the races between a deferred deletion and a number in use again cost objects, never
descriptors.
-/

namespace Cvcn

open Machine

namespace Server

/-- A session that is still open when the session manager is destroyed. -/
def retire (s : Server) (x : SessionId) : Server :=
  if (s.obj x).closed then s
  else
    let s := if (s.obj x).userID != -1 then s.unregisterUser (s.obj x).userID x else s
    s.closeSession x

/-- `SessionManager::~SessionManager` at one entry of its map. -/
def destroySession (s : Server) (entry : Fd × SessionId) : Server :=
  let (fd, x) := entry
  let s := (s.retire x).deleteSession x
  { s with record := { s.record with
      deleted := s.record.deleted ++ [(x, (s.inFlight fd).getD 0)] } }

/-- `SessionManager::~SessionManager`, which visits the entries of its map in some order. -/
def destroySessions (s : Server) (entries : List (Fd × SessionId)) : Server :=
  { entries.foldl destroySession s with sessions := fun _ => none }

/-- The destructors of what `main` has on its stack: the session manager's is the first, those of
the result queue and the listening socket close what `main` opened. -/
def exit (s : Server) (entries : List (Fd × SessionId)) : Server :=
  let s := s.destroySessions entries
  { s with
    openFds := Function.update (Function.update s.openFds s.eventFd false) s.listenFd false
    epoll := fun _ => none
    pool := s.pool.stop }

/-- The entries of the map, each of them once. -/
structure Lists (s : Server) (entries : List (Fd × SessionId)) : Prop where
  all : ∀ fd x, (fd, x) ∈ entries ↔ s.sessions fd = some x
  nodup : entries.Nodup

/-- The sessions that have been deleted, in order. -/
def deleted (s : Server) : List SessionId := s.record.deleted.map (·.1)

/-- What is open, who has it, what epoll watches of it, and what has been deleted. `missing` are the
sessions that epoll was to watch and does not. -/
structure Held (lfd efd : Fd) (missing : List SessionId) (s : Server) : Prop where
  listening : s.listenFd = lfd
  waking : s.eventFd = efd
  numbered : ∀ fd x, s.sessions fd = some x →
    x < s.shared.next ∧ s.fdOf x = fd ∧ (s.obj x).freed = false
  mapped : ∀ x < s.shared.next, (s.obj x).closed = false → s.sessions (s.fdOf x) = some x
  numbers : ∀ fd, s.openFds fd = true ↔
    fd = s.listenFd ∨ fd = s.eventFd ∨ ∃ x, s.sessions fd = some x ∧ (s.obj x).closed = false
  apart : ∀ fd x, s.sessions fd = some x → fd ≠ s.listenFd ∧ fd ≠ s.eventFd
  registered : ∀ fd, (s.epoll fd).isSome = true ↔ fd = s.listenFd ∨ fd = s.eventFd ∨
    ∃ x, s.sessions fd = some x ∧ (s.obj x).closed = false ∧ x ∉ missing
  created : ∀ x ∈ missing, x < s.shared.next
  deleted : ∀ x, x ∈ s.deleted ↔ x < s.shared.next ∧ (s.obj x).freed = true
  once : s.deleted.Nodup

variable {s t : Server} {lfd efd fd : Fd} {x : SessionId} {a : Action} {missing : List SessionId}

/-- Nothing changes of what is open, who has it, and what has been deleted. -/
structure SameNumbers (s t : Server) : Prop where
  sessions : t.sessions = s.sessions
  next : t.shared.next = s.shared.next
  fdOf : ∀ x, t.fdOf x = s.fdOf x
  closed : ∀ x, (t.obj x).closed = (s.obj x).closed
  freed : ∀ x, (t.obj x).freed = (s.obj x).freed
  openFds : t.openFds = s.openFds
  registered : ∀ fd, (t.epoll fd).isSome = (s.epoll fd).isSome
  listenFd : t.listenFd = s.listenFd
  eventFd : t.eventFd = s.eventFd
  deleted : t.deleted = s.deleted

theorem SameNumbers.of_shared (shared : t.shared = s.shared) (sessions : t.sessions = s.sessions)
    (openFds : t.openFds = s.openFds) (epoll : t.epoll = s.epoll)
    (listenFd : t.listenFd = s.listenFd) (eventFd : t.eventFd = s.eventFd)
    (deleted : t.record.deleted = s.record.deleted) : SameNumbers s t where
  sessions := sessions
  next := by rw [shared]
  fdOf x := by rw [Server.fdOf, Server.fdOf, obj, obj, shared]
  closed x := by rw [obj, obj, shared]
  freed x := by rw [obj, obj, shared]
  openFds := openFds
  registered fd := by rw [epoll]
  listenFd := listenFd
  eventFd := eventFd
  deleted := by rw [Server.deleted, Server.deleted, deleted]

theorem SameNumbers.trans {m : Server} (h : SameNumbers s m) (h' : SameNumbers m t) :
    SameNumbers s t where
  sessions := h'.sessions.trans h.sessions
  next := h'.next.trans h.next
  fdOf x := (h'.fdOf x).trans (h.fdOf x)
  closed x := (h'.closed x).trans (h.closed x)
  freed x := (h'.freed x).trans (h.freed x)
  openFds := h'.openFds.trans h.openFds
  registered fd := (h'.registered fd).trans (h.registered fd)
  listenFd := h'.listenFd.trans h.listenFd
  eventFd := h'.eventFd.trans h.eventFd
  deleted := h'.deleted.trans h.deleted

theorem Held.same (h : Held lfd efd missing s) (same : SameNumbers s t) :
    Held lfd efd missing t where
  listening := same.listenFd.trans h.listening
  waking := same.eventFd.trans h.waking
  numbered fd x hx := by
    rw [same.sessions] at hx
    rw [same.next, same.fdOf, same.freed]
    exact h.numbered fd x hx
  mapped x known opened := by
    rw [same.next] at known
    rw [same.closed] at opened
    rw [same.sessions, same.fdOf]
    exact h.mapped x known opened
  numbers fd := by
    rw [same.openFds, same.listenFd, same.eventFd, same.sessions]
    simp only [same.closed]
    exact h.numbers fd
  apart fd x hx := by
    rw [same.sessions] at hx
    rw [same.listenFd, same.eventFd]
    exact h.apart fd x hx
  registered fd := by
    rw [same.registered, same.listenFd, same.eventFd, same.sessions]
    simp only [same.closed]
    exact h.registered fd
  created x hx := by
    rw [same.next]
    exact h.created x hx
  deleted x := by
    rw [same.deleted, same.next, same.freed]
    exact h.deleted x
  once := by
    rw [same.deleted]
    exact h.once

/-- An update of one object that leaves its number, and whether it is closed and deleted. -/
theorem sameNumbers_setSession (c : ClientSession)
    (number : c.fileDescriptor = (s.obj x).fileDescriptor) (closed : c.closed = (s.obj x).closed)
    (freed : c.freed = (s.obj x).freed) : SameNumbers s (s.setSession x c) where
  sessions := rfl
  next := rfl
  fdOf := update_field (·.fileDescriptor) number
  closed := update_field (·.closed) closed
  freed := update_field (·.freed) freed
  openFds := rfl
  registered _ := rfl
  listenFd := rfl
  eventFd := rfl
  deleted := rfl

/-- `EPOLL_CTL_MOD` neither adds a number nor takes one off. -/
theorem modifyFileDescriptorEvents_registered (s : Server) (fd : Fd) (mask : Option EpollMask)
    (g : Fd) : ((s.modifyFileDescriptorEvents fd mask).epoll g).isSome = (s.epoll g).isSome := by
  unfold modifyFileDescriptorEvents
  split
  · rename_i found
    by_cases e : g = fd
    · subst e
      simp [found]
    · simp [e]
  · rfl

theorem modifyFileDescriptorEvents_sameNumbers (s : Server) (fd : Fd) (mask : Option EpollMask) :
    SameNumbers s (s.modifyFileDescriptorEvents fd mask) := by
  have registered := s.modifyFileDescriptorEvents_registered fd mask
  obtain ⟨epoll, e⟩ := s.modifyFileDescriptorEvents_eq fd mask
  rw [e] at registered ⊢
  exact ⟨rfl, rfl, fun _ => rfl, fun _ => rfl, fun _ => rfl, rfl, registered, rfl, rfl, rfl⟩

theorem sendRawDirect_sameNumbers (s : Server) (x : SessionId) (data : Bytes)
    (sends : List SendResult) : SameNumbers s (s.sendRawDirect x data sends) := by
  have sent := sameNumbers_setSession (s := s) (x := x)
    { s.obj x with sender := ((s.obj x).sender.sendPacket data sends).1 } rfl rfl rfl
  exact sent.trans (modifyFileDescriptorEvents_sameNumbers _ _ _)

theorem handleWrite_sameNumbers (s : Server) (x : SessionId) (sends : List SendResult) :
    SameNumbers s (s.handleWrite x sends) := by
  have sent := sameNumbers_setSession (s := s) (x := x)
    { s.obj x with sender := ((s.obj x).sender.handleWrite sends).1 } rfl rfl rfl
  exact sent.trans (modifyFileDescriptorEvents_sameNumbers _ _ _)

theorem unregisterUser_sameNumbers (s : Server) (userID : Int) (x : SessionId) :
    SameNumbers s (s.unregisterUser userID x) := by
  unfold unregisterUser Shared.unregisterUser
  split
  · exact ⟨rfl, rfl, fun _ => rfl, fun _ => rfl, fun _ => rfl, rfl, fun _ => rfl, rfl, rfl, rfl⟩
  · exact .of_shared rfl rfl rfl rfl rfl rfl rfl

theorem unregister_sameNumbers (s : Server) (x : SessionId) : SameNumbers s
    (if (s.obj x).userID != -1 then s.unregisterUser (s.obj x).userID x else s) := by
  split
  · exact s.unregisterUser_sameNumbers _ x
  · exact .of_shared rfl rfl rfl rfl rfl rfl rfl

/-! ## Closing, deleting, accepting -/

theorem closeSession_closed (s : Server) (x : SessionId) :
    ((s.closeSession x).obj x).closed = true := by
  obtain ⟨epoll, openFds, e⟩ := s.closeSession_eq x
  rw [e]
  simp [obj, Shared.setSession]

theorem closeSession_of_closed (closed : (s.obj x).closed = true) : s.closeSession x = s :=
  if_pos closed

/-- Two entries of the map with one session are one entry. -/
theorem Held.entry_unique (h : Held lfd efd missing s) {fd g : Fd} (hx : s.sessions fd = some x)
    (hg : s.sessions g = some x) : g = fd := by
  rw [← (h.numbered fd x hx).2.1, (h.numbered g x hg).2.1]

theorem Held.other (h : Held lfd efd missing s) {fd g : Fd} {y : SessionId}
    (hx : s.sessions fd = some x) (ne : g ≠ fd) (hy : s.sessions g = some y) : y ≠ x := by
  rintro rfl
  exact ne (h.entry_unique hx hy)

/-- The session of the number closes, and the number with it. -/
structure Shut (s t : Server) (fd : Fd) (x : SessionId) : Prop where
  sessions : t.sessions = s.sessions
  next : t.shared.next = s.shared.next
  fdOf : ∀ y, t.fdOf y = s.fdOf y
  closed : ∀ y, (t.obj y).closed = if y = x then true else (s.obj y).closed
  freed : ∀ y, (t.obj y).freed = (s.obj y).freed
  openFds : t.openFds = Function.update s.openFds fd false
  epoll : t.epoll = Function.update s.epoll fd none
  listenFd : t.listenFd = s.listenFd
  eventFd : t.eventFd = s.eventFd
  deleted : t.deleted = s.deleted

theorem closeSession_shut (number : s.fdOf x = fd) (opened : (s.obj x).closed = false) :
    Shut s (s.closeSession x) fd x := by
  have number : (s.obj x).fileDescriptor = fd := number
  have shut : s.closeSession x = { s.setSession x { s.obj x with closed := true } with
      epoll := Function.update s.epoll fd none
      openFds := Function.update s.openFds fd false } := by
    rw [← number]
    exact if_neg (by rw [opened]; exact Bool.false_ne_true)
  rw [shut]
  refine ⟨rfl, rfl, update_field (·.fileDescriptor) rfl, fun y => ?_, update_field (·.freed) rfl,
    rfl, rfl, rfl, rfl, rfl⟩
  by_cases e : y = x
  · simp [obj, setSession, Shared.setSession, e]
  · simp [obj, setSession, Shared.setSession, e]

/-- A session of the map closes: its number is free, and it was nobody else's. -/
theorem Held.shut (h : Held lfd efd missing s) (hx : s.sessions fd = some x)
    (shut : Shut s t fd x) : Held lfd efd missing t where
  listening := shut.listenFd.trans h.listening
  waking := shut.eventFd.trans h.waking
  numbered g y hy := by
    rw [shut.sessions] at hy
    rw [shut.next, shut.fdOf, shut.freed]
    exact h.numbered g y hy
  mapped y known opened := by
    rw [shut.next] at known
    rw [shut.closed] at opened
    rw [shut.sessions, shut.fdOf]
    split at opened
    · cases opened
    · exact h.mapped y known opened
  numbers g := by
    rw [shut.openFds, shut.listenFd, shut.eventFd, shut.sessions]
    simp only [shut.closed]
    by_cases e : g = fd
    · subst e
      obtain ⟨listening, waking⟩ := h.apart g x hx
      simp [listening, waking, hx]
    · rw [Function.update_of_ne e, h.numbers g]
      refine or_congr_right (or_congr_right (exists_congr fun y => and_congr_right fun hy => ?_))
      rw [if_neg (h.other hx e hy)]
  apart g y hy := by
    rw [shut.sessions] at hy
    rw [shut.listenFd, shut.eventFd]
    exact h.apart g y hy
  registered g := by
    rw [shut.epoll, shut.listenFd, shut.eventFd, shut.sessions]
    simp only [shut.closed]
    by_cases e : g = fd
    · subst e
      obtain ⟨listening, waking⟩ := h.apart g x hx
      simp [listening, waking, hx]
    · rw [Function.update_of_ne e, h.registered g]
      refine or_congr_right (or_congr_right (exists_congr fun y => and_congr_right fun hy => ?_))
      rw [if_neg (h.other hx e hy)]
  created y hy := by
    rw [shut.next]
    exact h.created y hy
  deleted y := by
    rw [shut.deleted, shut.next, shut.freed]
    exact h.deleted y
  once := by
    rw [shut.deleted]
    exact h.once

theorem Held.closeSession (h : Held lfd efd missing s) (hx : s.sessions fd = some x) :
    Held lfd efd missing (s.closeSession x) := by
  by_cases closed : (s.obj x).closed = true
  · rw [closeSession_of_closed closed]
    exact h
  · have number := (h.numbered fd x hx).2.1
    exact h.shut hx (closeSession_shut number (Bool.eq_false_iff.mpr closed))

/-- A closed session leaves the map and is deleted. -/
structure Erased (s t : Server) (fd : Fd) (x : SessionId) : Prop where
  sessions : t.sessions = Function.update s.sessions fd none
  next : t.shared.next = s.shared.next
  fdOf : ∀ y, t.fdOf y = s.fdOf y
  closed : ∀ y, (t.obj y).closed = (s.obj y).closed
  freed : ∀ y, (t.obj y).freed = if y = x then true else (s.obj y).freed
  openFds : t.openFds = s.openFds
  epoll : t.epoll = s.epoll
  listenFd : t.listenFd = s.listenFd
  eventFd : t.eventFd = s.eventFd
  deleted : t.deleted = s.deleted ++ [x]

theorem Held.erased (h : Held lfd efd missing s) (hx : s.sessions fd = some x)
    (closed : (s.obj x).closed = true) (erased : Erased s t fd x) : Held lfd efd missing t := by
  obtain ⟨known, number, alive⟩ := h.numbered fd x hx
  have other {g : Fd} {y : SessionId} (hy : t.sessions g = some y) :
      s.sessions g = some y ∧ y ≠ x := by
    rw [erased.sessions, Function.update_apply] at hy
    split at hy
    · cases hy
    · rename_i ne
      refine ⟨hy, ?_⟩
      rintro rfl
      exact ne (h.entry_unique hx hy)
  constructor
  · exact erased.listenFd.trans h.listening
  · exact erased.eventFd.trans h.waking
  · intro g y hy
    obtain ⟨hy, ne⟩ := other hy
    rw [erased.next, erased.fdOf, erased.freed, if_neg ne]
    exact h.numbered g y hy
  · intro y old opened
    rw [erased.next] at old
    rw [erased.closed] at opened
    have hy := h.mapped y old opened
    have ne : s.fdOf y ≠ fd := by
      intro e
      rw [e, hx] at hy
      cases hy
      rw [closed] at opened
      cases opened
    rw [erased.sessions, erased.fdOf, Function.update_of_ne ne]
    exact hy
  · intro g
    rw [erased.openFds, erased.listenFd, erased.eventFd, erased.sessions, h.numbers g]
    simp only [erased.closed]
    by_cases e : g = fd
    · subst e
      simp [hx, closed]
    · rw [Function.update_of_ne e]
  · intro g y hy
    rw [erased.listenFd, erased.eventFd]
    exact h.apart g y (other hy).1
  · intro g
    rw [erased.epoll, erased.listenFd, erased.eventFd, erased.sessions, h.registered g]
    simp only [erased.closed]
    by_cases e : g = fd
    · subst e
      simp [hx, closed]
    · rw [Function.update_of_ne e]
  · intro y hy
    rw [erased.next]
    exact h.created y hy
  · intro y
    rw [erased.deleted, erased.next, erased.freed, List.mem_append, h.deleted]
    by_cases e : y = x
    · simp [e, known]
    · simp [e]
  · rw [erased.deleted]
    have new : x ∉ s.deleted := fun found => by
      rw [h.deleted, alive] at found
      cases found.2
    exact h.once.append (List.nodup_singleton x) (by simpa using new)

theorem Held.closeClient (h : Held lfd efd missing s) (fd : Fd) :
    Held lfd efd missing (s.closeClient fd) := by
  cases hx : s.sessions fd with
  | none =>
    rw [closeClient_none hx]
    exact h
  | some x =>
    -- unregistered, closed, and then erased
    have unregister := s.unregister_sameNumbers x
    have left : s.closeClient fd = (let m := ((if (s.obj x).userID != -1 then
        s.unregisterUser (s.obj x).userID x else s).closeSession x)
        { m.deleteSession x with
          sessions := Function.update m.sessions fd none
          inFlight := Function.update m.inFlight fd none
          record := { m.record with
            deleted := m.record.deleted ++ [(x, (s.inFlight fd).getD 0)] } }) := by
      simp only [Server.closeClient, hx]
      rfl
    generalize (if (s.obj x).userID != -1 then s.unregisterUser (s.obj x).userID x else s) = u
      at unregister left
    have here : u.sessions fd = some x := by
      rw [unregister.sessions]
      exact hx
    have shut := (h.same unregister).closeSession here
    have closed := u.closeSession_closed x
    have sessions : (u.closeSession x).sessions = u.sessions := by
      obtain ⟨epoll, openFds, e⟩ := u.closeSession_eq x
      rw [e]
    generalize u.closeSession x = m at shut closed sessions left
    rw [left]
    refine shut.erased (by rw [sessions]; exact here) closed ⟨rfl, rfl,
      update_field (·.fileDescriptor) rfl, update_field (·.closed) rfl, fun y => ?_, rfl, rfl, rfl,
      rfl, ?_⟩
    · by_cases e : y = x
      · simp [obj, deleteSession, setSession, Shared.setSession, e]
      · simp [obj, deleteSession, setSession, Shared.setSession, e]
    · simp [Server.deleted]

theorem Held.deferClose (h : Held lfd efd missing s) (fd : Fd) :
    Held lfd efd missing (s.deferClose fd) := by
  have noted : Held lfd efd missing
      { s with pendingDelete := Function.update s.pendingDelete fd true } :=
    h.same (.of_shared rfl rfl rfl rfl rfl rfl rfl)
  cases hx : s.sessions fd with
  | none =>
    simp only [Server.deferClose, hx]
    exact noted
  | some x =>
    simp only [Server.deferClose, hx]
    exact noted.closeSession hx

theorem Held.closeOrDefer (h : Held lfd efd missing s) (fd : Fd) :
    Held lfd efd missing (s.closeOrDefer fd) := by
  unfold Server.closeOrDefer
  split
  · exact h.deferClose fd
  · exact h.closeClient fd

theorem Held.requestCloseClient (h : Held lfd efd missing s) (fd : Fd) (origin : SessionId) :
    Held lfd efd missing (s.requestCloseClient fd origin) := by
  cases hx : s.sessions fd with
  | none =>
    simp only [Server.requestCloseClient, hx]
    exact h
  | some x =>
    obtain ⟨closed, deferredBy, e⟩ := requestCloseClient_eq hx origin
    rw [e]
    have noted : Held lfd efd missing { s with record := { s.record with closed := closed } } :=
      h.same (.of_shared rfl rfl rfl rfl rfl rfl rfl)
    exact (noted.closeOrDefer fd).same (.of_shared rfl rfl rfl rfl rfl rfl rfl)

theorem Held.onTaskDone (h : Held lfd efd missing s) (fd : Fd) :
    Held lfd efd missing (s.onTaskDone fd) := by
  unfold Server.onTaskDone
  cases s.inFlight fd with
  | none => exact h
  | some n =>
    have counted : Held lfd efd missing
        { s with inFlight := Function.update s.inFlight fd (some (n - 1)) } :=
      h.same (.of_shared rfl rfl rfl rfl rfl rfl rfl)
    simp only
    split
    · have undone : Held lfd efd missing (closeDeferred { s with
          inFlight := Function.update s.inFlight fd (some (n - 1)) } fd) :=
        counted.same (.of_shared rfl rfl rfl rfl rfl rfl rfl)
      exact undone.closeClient fd
    · exact counted

theorem Held.processCommand (h : Held lfd efd missing s) (k : Kernel) (q : Queued) :
    Held lfd efd missing (s.processCommand k q) := by
  unfold Server.processCommand
  cases q.cmd.type with
  | close => exact h.requestCloseClient q.cmd.fd q.origin
  | taskDone => exact h.onTaskDone q.cmd.fd
  | sendRaw =>
    simp only
    split
    · exact h
    · split
      · exact h
      · rename_i x _ _
        have sent := s.sendRawDirect_sameNumbers x q.cmd.data k.sends
        exact (h.same sent).same (.of_shared rfl rfl rfl rfl rfl rfl rfl)

theorem Held.onWrite (h : Held lfd efd missing s) (fd : Fd) (sends : List SendResult) :
    Held lfd efd missing (s.onWrite fd sends) := by
  unfold Server.onWrite
  cases s.sessions fd with
  | none => exact h
  | some x =>
    have wrote := h.same (s.handleWrite_sameNumbers x sends)
    simp only
    split
    · exact wrote.closeClient fd
    · exact wrote

theorem submitAll_sameNumbers (s : Server) (fd : Fd) (tasks : List Task) :
    SameNumbers s (tasks.foldl (submitTask fd) s) := by
  obtain ⟨inFlight, pool, e, -⟩ := submitAll_pool fd s tasks
  rw [e]
  exact .of_shared rfl rfl rfl rfl rfl rfl rfl

theorem Held.onRead (h : Held lfd efd missing s) (fd : Fd) (recvs : List RecvResult) :
    Held lfd efd missing (s.onRead fd recvs) := by
  unfold Server.onRead
  cases hx : s.sessions fd with
  | none => exact h
  | some x =>
    have read : Held lfd efd missing (s.handleRead x recvs).1 := by
      unfold Server.handleRead
      have got := h.same (sameNumbers_setSession { s.obj x with
        assembler := (ClientSession.handleRead x recvs (s.obj x).assembler).1 } rfl rfl rfl)
      simp only
      split
      · exact got.closeSession hx
      · exact got
    have submitted := read.same (submitAll_sameNumbers _ fd (s.handleRead x recvs).2)
    simp only
    split
    · exact submitted.closeOrDefer fd
    · exact submitted

/-- A new session gets a number that was not open. Epoll may fail to watch it. -/
structure Added (s t : Server) (fd : Fd) (fails : Bool) : Prop where
  sessions : t.sessions = Function.update s.sessions fd (some s.shared.next)
  next : t.shared.next = s.shared.next + 1
  obj : ∀ y, t.obj y = if y = s.shared.next then { fileDescriptor := fd } else s.obj y
  openFds : t.openFds = Function.update s.openFds fd true
  epoll : t.epoll = if fails then s.epoll else Function.update s.epoll fd (some .read)
  listenFd : t.listenFd = s.listenFd
  eventFd : t.eventFd = s.eventFd
  deleted : t.deleted = s.deleted

theorem accept_added {fails : Bool} (accepts : s.accept (some fd) fails = some t) :
    s.openFds fd = false ∧ Added s t fd fails := by
  simp only [Server.accept] at accepts
  split at accepts
  · cases accepts
  · rename_i free
    cases accepts
    exact ⟨Bool.eq_false_iff.mpr free, rfl, rfl, fun y => onNewConnection_obj _ fd y, rfl, rfl, rfl,
      rfl, rfl⟩

section

variable {fails : Bool} {g : Fd} {y : SessionId}

/-- An entry of the map is the new one, or an old one of another number. -/
theorem Added.entry (added : Added s t fd fails) (h : Held lfd efd missing s)
    (hy : t.sessions g = some y) :
    (g = fd ∧ y = s.shared.next) ∨ (g ≠ fd ∧ y ≠ s.shared.next ∧ s.sessions g = some y) := by
  rw [added.sessions] at hy
  by_cases e : g = fd
  · subst e
    rw [Function.update_self] at hy
    exact .inl ⟨rfl, (Option.some.inj hy).symm⟩
  · rw [Function.update_of_ne e] at hy
    exact .inr ⟨e, Nat.ne_of_lt (h.numbered g y hy).1, hy⟩

/-- The sessions of the other numbers are the old ones, and as they were. -/
theorem Added.others (added : Added s t fd fails) (h : Held lfd efd missing s) (ne : g ≠ fd)
    (P : SessionId → Prop) : (∃ y, t.sessions g = some y ∧ (t.obj y).closed = false ∧ P y) ↔
      ∃ y, s.sessions g = some y ∧ (s.obj y).closed = false ∧ P y := by
  rw [added.sessions, Function.update_of_ne ne]
  refine exists_congr fun y => and_congr_right fun hy => ?_
  rw [added.obj, if_neg (Nat.ne_of_lt (h.numbered g y hy).1)]

theorem Added.numbered (added : Added s t fd fails) (h : Held lfd efd missing s)
    (hy : t.sessions g = some y) :
    y < t.shared.next ∧ t.fdOf y = g ∧ (t.obj y).freed = false := by
  rw [added.next, fdOf, added.obj]
  rcases added.entry h hy with ⟨rfl, rfl⟩ | ⟨-, old, hy⟩
  · rw [if_pos rfl]
    exact ⟨Nat.lt_succ_self _, rfl, rfl⟩
  · obtain ⟨known, number, alive⟩ := h.numbered g y hy
    rw [if_neg old]
    exact ⟨Nat.lt_succ_of_lt known, number, alive⟩

theorem Added.mapped (added : Added s t fd fails) (h : Held lfd efd missing s)
    (free : s.openFds fd = false) (known : y < t.shared.next) (opened : (t.obj y).closed = false) :
    t.sessions (t.fdOf y) = some y := by
  rw [added.next] at known
  rw [fdOf, added.sessions]
  rw [added.obj] at opened ⊢
  by_cases e : y = s.shared.next
  · rw [if_pos e, e]
    exact Function.update_self _ _ _
  · rw [if_neg e] at opened ⊢
    have hy := h.mapped y (Nat.lt_of_le_of_ne (Nat.le_of_lt_succ known) e) opened
    have ne : s.fdOf y ≠ fd := by
      rintro rfl
      cases free.symm.trans ((h.numbers _).mpr (.inr (.inr ⟨y, hy, opened⟩)))
    exact (Function.update_of_ne ne _ _).trans hy

/-- The new number is watched unless epoll has failed to. -/
theorem Added.watched (added : Added s t fd fails) (h : Held lfd efd missing s)
    (free : s.openFds fd = false) : (t.epoll fd).isSome = true ↔ fails = false := by
  rw [added.epoll]
  cases fails with
  | false => simp
  | true =>
    have unwatched : ¬ (s.epoll fd).isSome = true := by
      rw [h.registered]
      rintro (own | own | ⟨y, hy, opened, -⟩)
      · cases free.symm.trans ((h.numbers fd).mpr (.inl own))
      · cases free.symm.trans ((h.numbers fd).mpr (.inr (.inl own)))
      · cases free.symm.trans ((h.numbers fd).mpr (.inr (.inr ⟨y, hy, opened⟩)))
    simp [unwatched]

theorem Added.mask (added : Added s t fd fails) (h : Held lfd efd missing s)
    (free : s.openFds fd = false) (known : (t.epoll fd).isSome = true) :
    t.epoll fd = some .read := by
  have watched := (added.watched h free).mp known
  rw [added.epoll, watched]
  exact Function.update_self _ _ _

theorem Added.epoll_of_ne (added : Added s t fd fails) (ne : g ≠ fd) : t.epoll g = s.epoll g := by
  rw [added.epoll]
  split
  · rfl
  · exact Function.update_of_ne ne _ _

/-- A number that is not open is given to a new session, whatever its entry in the map was. -/
theorem Held.added (h : Held lfd efd missing s) (free : s.openFds fd = false)
    (added : Added s t fd fails) :
    Held lfd efd (missing ++ if fails then [s.shared.next] else []) t := by
  have listening : fd ≠ s.listenFd := fun e => by
    cases free.symm.trans ((h.numbers fd).mpr (.inl e))
  have waking : fd ≠ s.eventFd := fun e => by
    cases free.symm.trans ((h.numbers fd).mpr (.inr (.inl e)))
  have new : s.shared.next ∉ missing := fun old => Nat.lt_irrefl _ (h.created _ old)
  have here : t.sessions fd = some s.shared.next := by
    rw [added.sessions, Function.update_self]
  have opened : (t.obj s.shared.next).closed = false := by
    rw [added.obj, if_pos rfl]
  constructor
  · exact added.listenFd.trans h.listening
  · exact added.eventFd.trans h.waking
  · exact fun g y hy => added.numbered h hy
  · exact fun y known opened => added.mapped h free known opened
  · intro g
    rw [added.openFds, added.listenFd, added.eventFd]
    by_cases e : g = fd
    · subst e
      rw [Function.update_self]
      exact ⟨fun _ => .inr (.inr ⟨_, here, opened⟩), fun _ => rfl⟩
    · have others := added.others h e fun _ => True
      simp only [and_true] at others
      rw [Function.update_of_ne e, others]
      exact h.numbers g
  · intro g y hy
    rw [added.listenFd, added.eventFd]
    rcases added.entry h hy with ⟨rfl, -⟩ | ⟨-, -, hy⟩
    · exact ⟨listening, waking⟩
    · exact h.apart g y hy
  · intro g
    rw [added.listenFd, added.eventFd]
    by_cases e : g = fd
    · subst e
      rw [added.watched h free]
      cases fails <;> simp [listening, waking, here, opened, new]
    · have others := added.others h e (· ∉ missing ++ if fails then [s.shared.next] else [])
      rw [added.epoll_of_ne e, others, h.registered g]
      refine or_congr_right (or_congr_right (exists_congr fun y => and_congr_right fun hy =>
        and_congr_right fun _ => ?_))
      have old : y ≠ s.shared.next := Nat.ne_of_lt (h.numbered g y hy).1
      cases fails <;> simp [old]
  · intro y hy
    rw [added.next]
    rcases List.mem_append.mp hy with old | hy
    · exact Nat.lt_succ_of_lt (h.created y old)
    · cases fails with
      | false => cases hy
      | true =>
        rw [List.mem_singleton.mp hy]
        exact Nat.lt_succ_self _
  · intro y
    rw [added.deleted, added.next, added.obj, h.deleted]
    by_cases e : y = s.shared.next
    · simp [e]
    · rw [if_neg e]
      exact and_congr_left fun _ => ⟨Nat.lt_succ_of_lt, fun known =>
        Nat.lt_of_le_of_ne (Nat.le_of_lt_succ known) e⟩
  · rw [added.deleted]
    exact h.once

end

/-- The session that an item of the batch creates although epoll does not watch its number. -/
def missedBy (s : Server) (k : Kernel) : Item → List SessionId
  | .event e =>
    if !e.failed && e.readable && e.fd == s.listenFd && k.accepted.isSome && k.addFails then
      [s.shared.next]
    else []
  | .writable _ => []

/-- The session that a step creates although epoll does not watch its number. -/
def missed (s : Server) : Action → List SessionId
  | .main k =>
    match s.commands, s.phase, s.batch with
    | [], .eventLoop, item :: _ => s.missedBy k item
    | _, _, _ => []
  | .epollWait _ | .worker _ => []

theorem Held.handleItem (h : Held lfd efd missing s) {k : Kernel} {item : Item}
    (hs : s.handleItem k item = some t) : Held lfd efd (missing ++ s.missedBy k item) t := by
  cases item with
  | writable fd =>
    cases hs
    rw [missedBy, List.append_nil]
    exact h.onWrite fd k.sends
  | event e =>
    simp only [Server.handleItem, handleEvent] at hs
    split at hs
    · rename_i failed
      have none : s.missedBy k (.event e) = [] := by simp [missedBy, failed]
      rw [none, List.append_nil]
      split at hs
      · cases hs
        exact h.same (.of_shared rfl rfl rfl rfl rfl rfl rfl)
      · cases hs
        exact h.closeOrDefer e.fd
    · rename_i fine
      have left : SameNumbers s
          (if e.writable then { s with batch := .writable e.fd :: s.batch } else s) := by
        split <;> exact .of_shared rfl rfl rfl rfl rfl rfl rfl
      generalize (if e.writable then { s with batch := .writable e.fd :: s.batch } else s) = m
        at hs left
      have taken := h.same left
      split at hs
      · rename_i unreadable
        cases hs
        have none : s.missedBy k (.event e) = [] := by
          simp only [Bool.not_eq_true'] at unreadable
          simp [missedBy, unreadable]
        rw [none, List.append_nil]
        exact taken
      · rename_i readable
        split at hs
        · rename_i listening
          rw [left.listenFd] at listening
          simp only [Bool.not_eq_true, Bool.not_eq_true', Bool.not_eq_false] at fine readable
          cases given : k.accepted with
          | none =>
            rw [given] at hs
            cases hs
            have none : s.missedBy k (.event e) = [] := by simp [missedBy, given]
            rw [none, List.append_nil]
            exact taken
          | some fd =>
            rw [given] at hs
            obtain ⟨free, added⟩ := accept_added hs
            have missed : s.missedBy k (.event e) = if k.addFails then [m.shared.next] else [] := by
              simp [missedBy, fine, readable, listening, given, left.next]
            rw [missed]
            exact taken.added free added
        · rename_i other
          rw [left.listenFd] at other
          have none : s.missedBy k (.event e) = [] := by simp [missedBy, other]
          rw [none, List.append_nil]
          split at hs
          · cases hs
            exact taken.same ⟨rfl, rfl, fun _ => rfl, fun _ => rfl, fun _ => rfl, rfl,
              fun _ => rfl, rfl, rfl, rfl⟩
          · cases hs
            exact taken.onRead e.fd k.recvs

theorem worker_sameNumbers {i : Nat} {b : Backend} (work : s.toBackend.worker i = some b) :
    SameNumbers s { s with toBackend := b } := by
  cases Backend.worker_cases work with
  | executes job o rest running =>
    refine ⟨rfl, s.shared.exec_next o, fun x => ?_, fun x => ?_, fun x => ?_, rfl, fun _ => rfl,
      rfl, rfl, rfl⟩
    all_goals
      obtain ⟨userID, username, e⟩ := s.shared.exec_objects o x
      simp only [fdOf, obj, e]
  | ends =>
    exact ⟨rfl, rfl, fun _ => rfl, fun _ => rfl, fun _ => rfl, rfl, fun _ => rfl, rfl, rfl, rfl⟩
  | begins | exits | rests => exact .of_shared rfl rfl rfl rfl rfl rfl rfl

theorem Held.step (h : Held lfd efd missing s) (hs : s.step a = some t) :
    Held lfd efd (missing ++ s.missed a) t := by
  cases a with
  | epollWait events =>
    rw [missed, List.append_nil]
    simp only [Server.step, epollWait] at hs
    split at hs
    · cases hs
      exact h.same (.of_shared rfl rfl rfl rfl rfl rfl rfl)
    · cases hs
  | worker i =>
    rw [missed, List.append_nil]
    obtain ⟨b, work, rfl⟩ := Option.map_eq_some_iff.mp hs
    exact h.same (worker_sameNumbers work)
  | main k =>
    simp only [Server.step, main] at hs
    split at hs
    · rename_i q commands head
      cases hs
      have taken : Held lfd efd missing { s with commands := commands } :=
        h.same (.of_shared rfl rfl rfl rfl rfl rfl rfl)
      simp only [missed, head, List.append_nil]
      exact taken.processCommand k q
    · rename_i empty
      split at hs
      · rename_i loop head
        simp only [missed, empty, loop, head, List.append_nil]
        split at hs
        · cases hs
          exact h.same (.of_shared rfl rfl rfl rfl rfl rfl rfl)
        · cases hs
      · rename_i item batch loop head
        have taken : Held lfd efd missing { s with batch := batch } :=
          h.same (.of_shared rfl rfl rfl rfl rfl rfl rfl)
        simp only [missed, empty, loop, head]
        exact taken.handleItem hs
      · rename_i phase
        simp only [missed, empty, phase, List.append_nil]
        split at hs
        · cases hs
          exact h.same (.of_shared rfl rfl rfl rfl rfl rfl rfl)
        · cases hs
          exact h.same (.of_shared rfl rfl rfl rfl rfl rfl rfl)
      · rename_i phase
        simp only [missed, empty, phase, List.append_nil]
        cases hs
        exact h.same ⟨rfl, rfl, fun _ => rfl, fun _ => rfl, fun _ => rfl, rfl, fun _ => rfl, rfl,
          rfl, rfl⟩
      · cases hs

/-- The sessions that epoll has failed to watch in a run. -/
def unwatched (s : Server) : List Action → List SessionId
  | [] => []
  | a :: as => s.missed a ++ ((s.step a).map (·.unwatched as)).getD []

theorem Held.run (h : Held lfd efd missing s) {as : List Action}
    (run : exec Server.step s as = some t) : Held lfd efd (missing ++ s.unwatched as) t := by
  induction as generalizing s missing with
  | nil =>
    cases run
    rw [unwatched, List.append_nil]
    exact h
  | cons a as ih =>
    obtain ⟨m, hs, rest⟩ := exec_cons.mp run
    rw [unwatched, hs, Option.map_some, Option.getD_some, ← List.append_assoc]
    exact ih (h.step hs) rest

theorem held_start (tables : Tables) (numThreads : Nat) (listenFd eventFd : Fd) :
    Held listenFd eventFd [] (start tables numThreads listenFd eventFd) where
  listening := rfl
  waking := rfl
  numbered := nofun
  mapped _ known := absurd known (Nat.not_lt_zero _)
  numbers fd := by simp [start]
  apart := nofun
  registered fd := by
    by_cases listening : fd = listenFd
    · simp [start, listening]
    · by_cases waking : fd = eventFd <;> simp [start, listening, waking]
  created := nofun
  deleted x := by simp [Server.deleted, start]
  once := List.nodup_nil

theorem run_held {tables : Tables} {numThreads : Nat} {listenFd eventFd : Fd} {as : List Action}
    (run : exec step (start tables numThreads listenFd eventFd) as = some t) :
    Held listenFd eventFd ((start tables numThreads listenFd eventFd).unwatched as) t :=
  (held_start tables numThreads listenFd eventFd).run run

/-! ## The end of the program -/

theorem Held.retire (h : Held lfd efd missing s) (hx : s.sessions fd = some x) :
    Held lfd efd missing (s.retire x) := by
  unfold Server.retire
  split
  · exact h
  · have unregister := s.unregister_sameNumbers x
    have here := unregister.sessions
    generalize (if (s.obj x).userID != -1 then s.unregisterUser (s.obj x).userID x else s) = m
      at unregister here
    exact (h.same unregister).closeSession (by rw [here]; exact hx)

theorem retire_closed (s : Server) (x : SessionId) : ((s.retire x).obj x).closed = true := by
  unfold Server.retire
  split
  · assumption
  · exact closeSession_closed _ x

/-- The map is left alone, and nothing depends on it. -/
theorem retire_sessions (s : Server) (sessions : Fd → Option SessionId) (x : SessionId) :
    { s with sessions := sessions }.retire x = { s.retire x with sessions := sessions } := by
  have obj : ({ s with sessions := sessions } : Server).obj x = s.obj x := rfl
  unfold retire
  rw [obj]
  by_cases closed : (s.obj x).closed = true
  · rw [if_pos closed, if_pos closed]
  · rw [if_neg closed, if_neg closed]
    have same : (if (s.obj x).userID != -1 then
        ({ s with sessions := sessions } : Server).unregisterUser (s.obj x).userID x
        else { s with sessions := sessions }) = { (if (s.obj x).userID != -1 then
        s.unregisterUser (s.obj x).userID x else s) with sessions := sessions } := by
      split <;> rfl
    simp only [same]
    generalize (if (s.obj x).userID != -1 then s.unregisterUser (s.obj x).userID x else s) = m
    unfold Server.closeSession
    have obj : ({ m with sessions := sessions } : Server).obj x = m.obj x := rfl
    rw [obj]
    split <;> rfl

theorem retire_deleted (s : Server) (x : SessionId) : (s.retire x).deleted = s.deleted := by
  unfold Server.retire
  split
  · rfl
  · have unregister := s.unregister_sameNumbers x
    have same := unregister.deleted
    generalize (if (s.obj x).userID != -1 then s.unregisterUser (s.obj x).userID x else s) = m
      at same
    obtain ⟨epoll, openFds, e⟩ := m.closeSession_eq x
    simp only [e]
    exact same

/-- An entry is dealt with as if it were taken off the map. -/
theorem Held.destroySession (h : Held lfd efd missing s) (hx : s.sessions fd = some x) :
    Held lfd efd missing
      { s.destroySession (fd, x) with sessions := Function.update s.sessions fd none } := by
  have retired := h.retire hx
  have closed := s.retire_closed x
  have sessions : (s.retire x).sessions = s.sessions := by
    have same := s.retire_sessions s.sessions x
    rw [same]
  refine retired.erased (by rw [sessions]; exact hx) closed ⟨?_, rfl,
    update_field (·.fileDescriptor) rfl, update_field (·.closed) rfl, fun y => ?_, rfl, rfl, rfl,
    rfl, ?_⟩
  · rw [sessions]
  · by_cases e : y = x
    · simp [Server.destroySession, obj, deleteSession, setSession, Shared.setSession, e]
    · simp [Server.destroySession, obj, deleteSession, setSession, Shared.setSession, e]
  · simp [Server.destroySession, Server.deleted, deleteSession, setSession]

theorem destroySession_sessions (s : Server) (sessions : Fd → Option SessionId)
    (entry : Fd × SessionId) : { s with sessions := sessions }.destroySession entry =
      { s.destroySession entry with sessions := sessions } := by
  obtain ⟨fd, x⟩ := entry
  simp only [Server.destroySession, retire_sessions]
  rfl

theorem foldl_destroySession_sessions (s : Server) (sessions : Fd → Option SessionId)
    (entries : List (Fd × SessionId)) :
    { entries.foldl Server.destroySession s with sessions := sessions } =
      entries.foldl Server.destroySession { s with sessions := sessions } := by
  induction entries generalizing s with
  | nil => rfl
  | cons entry entries ih =>
    have first := s.destroySession_sessions sessions entry
    rw [List.foldl_cons, List.foldl_cons, first]
    exact ih _

theorem destroySessions_cons (s : Server) (entry : Fd × SessionId)
    (entries : List (Fd × SessionId)) : s.destroySessions (entry :: entries) =
      { s.destroySession entry with
        sessions := Function.update s.sessions entry.1 none }.destroySessions entries := by
  have all := s.foldl_destroySession_sessions (fun _ => none) (entry :: entries)
  have rest := ({ s.destroySession entry with
    sessions := Function.update s.sessions entry.1 none } : Server).foldl_destroySession_sessions
      (fun _ => none) entries
  have first := s.destroySession_sessions (fun _ => none) entry
  unfold Server.destroySessions
  rw [all, rest, List.foldl_cons, first]

theorem Lists.tail {entries : List (Fd × SessionId)} (lists : s.Lists ((fd, x) :: entries))
    (sessions : t.sessions = Function.update s.sessions fd none) : t.Lists entries where
  all g y := by
    have fresh := (List.nodup_cons.mp lists.nodup).1
    rw [sessions, Function.update_apply]
    split
    · rename_i e
      subst e
      refine ⟨fun found => ?_, nofun⟩
      have here := (lists.all g x).mp List.mem_cons_self
      have also := (lists.all g y).mp (List.mem_cons_of_mem _ found)
      cases here.symm.trans also
      exact absurd found fresh
    · rename_i ne
      rw [← lists.all, List.mem_cons]
      refine ⟨.inr, fun found => found.resolve_left ?_⟩
      rintro ⟨⟩
      exact ne rfl
  nodup := (List.nodup_cons.mp lists.nodup).2

/-- All that the map holds is closed and deleted, and nothing else. -/
theorem Held.destroySessions (h : Held lfd efd missing s) {entries : List (Fd × SessionId)}
    (lists : s.Lists entries) : Held lfd efd missing (s.destroySessions entries) ∧
      (s.destroySessions entries).deleted = s.deleted ++ entries.map (·.2) := by
  induction entries generalizing s with
  | nil =>
    have nobody (fd : Fd) : s.sessions fd = none := by
      rw [Option.eq_none_iff_forall_ne_some]
      intro x hx
      cases (lists.all fd x).mpr hx
    have same : s.destroySessions [] = s := by
      have empty : s.sessions = fun _ => none := funext nobody
      unfold Server.destroySessions
      rw [List.foldl_nil, ← empty]
    rw [same, List.map_nil, List.append_nil]
    exact ⟨h, rfl⟩
  | cons entry entries ih =>
    obtain ⟨fd, x⟩ := entry
    have hx := (lists.all fd x).mp List.mem_cons_self
    obtain ⟨held, deleted⟩ := ih (h.destroySession hx) (lists.tail rfl)
    rw [destroySessions_cons]
    refine ⟨held, ?_⟩
    have first : (s.destroySession (fd, x)).deleted = s.deleted ++ [x] := by
      have retired := s.retire_deleted x
      unfold Server.deleted at retired
      rw [Server.deleted, Server.deleted, ← retired]
      exact List.map_append
    refine deleted.trans ?_
    rw [List.map_cons, List.append_cons]
    exact congrArg (· ++ entries.map (·.2)) first

/-- The numbers that are open, whose they are, and which of them epoll watches. -/
structure OwnNumbers (missing : List SessionId) (s : Server) : Prop where
  numbers : ∀ fd, s.openFds fd = true ↔ fd = s.listenFd ∨ fd = s.eventFd ∨
    ∃ x < s.shared.next, (s.obj x).closed = false ∧ s.fdOf x = fd
  unique : ∀ x < s.shared.next, ∀ y < s.shared.next, (s.obj x).closed = false →
    (s.obj y).closed = false → s.fdOf x = s.fdOf y → x = y
  own : ∀ x < s.shared.next, (s.obj x).closed = false →
    s.fdOf x ≠ s.listenFd ∧ s.fdOf x ≠ s.eventFd ∧ s.sessions (s.fdOf x) = some x
  registered : ∀ fd, (s.epoll fd).isSome = true ↔ fd = s.listenFd ∨ fd = s.eventFd ∨
    ∃ x < s.shared.next, (s.obj x).closed = false ∧ s.fdOf x = fd ∧ x ∉ missing

theorem Held.ownNumbers (h : Held lfd efd missing s) : OwnNumbers missing s where
  numbers fd := by
    rw [h.numbers fd]
    refine or_congr_right (or_congr_right ⟨?_, ?_⟩)
    · rintro ⟨x, hx, opened⟩
      obtain ⟨known, number, -⟩ := h.numbered fd x hx
      exact ⟨x, known, opened, number⟩
    · rintro ⟨x, known, opened, rfl⟩
      exact ⟨x, h.mapped x known opened, opened⟩
  unique x hx y hy openX openY same := by
    have found := h.mapped x hx openX
    rw [same, h.mapped y hy openY] at found
    exact (Option.some.inj found).symm
  own x known opened := by
    have found := h.mapped x known opened
    obtain ⟨listening, waking⟩ := h.apart _ x found
    exact ⟨listening, waking, found⟩
  registered fd := by
    rw [h.registered fd]
    refine or_congr_right (or_congr_right ⟨?_, ?_⟩)
    · rintro ⟨x, hx, opened, watched⟩
      obtain ⟨known, number, -⟩ := h.numbered fd x hx
      exact ⟨x, known, opened, number, watched⟩
    · rintro ⟨x, known, opened, rfl, watched⟩
      exact ⟨x, h.mapped x known opened, opened, watched⟩

/-- A step leaves the number of a session alone that it does not create. -/
theorem step_fdOf (hs : s.step a = some t) (known : x < s.shared.next) : t.fdOf x = s.fdOf x := by
  cases step_cases hs with
  | worker i b is work => exact (worker_sameNumbers work).fdOf x
  | connects fd batch openFds epoll nothing =>
    rw [fdOf, onNewConnection_obj, if_neg (Nat.ne_of_lt known)]
    rfl
  | deletes deletes => exact deletes.frame.fdOf x

theorem step_next (hs : s.step a = some t) : s.shared.next ≤ t.shared.next := by
  cases step_cases hs with
  | worker i b is work => exact Nat.le_of_eq (worker_sameNumbers work).next.symm
  | connects fd batch openFds epoll nothing => exact Nat.le_succ _
  | deletes deletes => exact Nat.le_of_eq deletes.frame.next.symm

/-- A number is closed with the session whose it is. -/
theorem Held.step_closes (h : Held lfd efd missing s) (hs : s.step a = some t)
    (before : s.openFds fd = true) (after : t.openFds fd = false) :
    ∃ x < s.shared.next, s.fdOf x = fd ∧ (s.obj x).closed = false ∧ (t.obj x).closed = true := by
  have h' := h.step hs
  have shut : ¬ t.openFds fd = true := by
    rw [after]
    exact Bool.false_ne_true
  rcases (h.ownNumbers.numbers fd).mp before with main | main | ⟨x, known, opened, number⟩
  · exact absurd ((h'.numbers fd).mpr (.inl (by rw [h'.listening, ← h.listening, main]))) shut
  · exact absurd ((h'.numbers fd).mpr (.inr (.inl (by rw [h'.waking, ← h.waking, main])))) shut
  · refine ⟨x, known, number, opened, ?_⟩
    by_contra still
    have still := Bool.eq_false_iff.mpr still
    have same := (step_fdOf hs known).trans number
    have grows : x < t.shared.next := Nat.lt_of_lt_of_le known (step_next hs)
    exact shut ((h'.ownNumbers.numbers fd).mpr (.inr (.inr ⟨x, grows, still, same⟩)))

theorem Held.exit (h : Held lfd efd missing s) {entries : List (Fd × SessionId)}
    (lists : s.Lists entries) :
    (∀ fd, (s.exit entries).openFds fd = false) ∧ (s.exit entries).deleted.Nodup := by
  obtain ⟨held, -⟩ := h.destroySessions lists
  refine ⟨fun fd => ?_, held.once⟩
  show Function.update (Function.update (s.destroySessions entries).openFds
    (s.destroySessions entries).eventFd false) (s.destroySessions entries).listenFd false fd = false
  rw [held.listening, held.waking]
  by_cases listening : fd = lfd
  · rw [listening, Function.update_self]
  · rw [Function.update_of_ne listening]
    by_cases waking : fd = efd
    · rw [waking, Function.update_self]
    · rw [Function.update_of_ne waking]
      have nobody : (s.destroySessions entries).sessions fd = none := rfl
      have numbers := held.numbers fd
      rw [nobody, held.listening, held.waking] at numbers
      simpa [listening, waking] using numbers

/-- **Descriptors.** In every state of every run exactly these numbers are open: the two that
`main` opens, and one of its own for each session that is not closed, which is found under it.
Exactly these are registered with epoll, but for those of the sessions that `EPOLL_CTL_ADD` has
failed for. A number is closed with the session whose it is, so never twice and never somebody
else's; and at the end of the program none is left open, and no object has been deleted twice. -/
theorem descriptors_disciplined (tables : Tables) (numThreads : Nat) (listenFd eventFd : Fd)
    (as : List Action) (t : Server)
    (run : exec step (start tables numThreads listenFd eventFd) as = some t) :
    t.OwnNumbers ((start tables numThreads listenFd eventFd).unwatched as) ∧
      (∀ a u fd, t.step a = some u → t.openFds fd = true → u.openFds fd = false →
        ∃ x < t.shared.next, t.fdOf x = fd ∧ (t.obj x).closed = false ∧ (u.obj x).closed = true) ∧
      ∀ entries, t.Lists entries →
        (∀ fd, (t.exit entries).openFds fd = false) ∧ (t.exit entries).deleted.Nodup := by
  have held := run_held run
  refine ⟨held.ownNumbers, ?_, fun entries lists => held.exit lists⟩
  intro a u fd hs before after
  exact held.step_closes hs before after

/-- A client connects and disconnects with a request in flight. -/
def leaving : List Action :=
  let request := PacketBuilder.buildPacket .connectRequest 1 0
  [.epollWait [{ fd := 3, readable := true }], .main { accepted := some 5 },
    .epollWait [{ fd := 5, readable := true }], .main { recvs := [.bytes request, .bytes []] }]

/-- Another one connects, and epoll does not take its number. -/
def leavingUnwatched : List Action :=
  leaving ++ [.epollWait [{ fd := 3, readable := true }],
    .main { accepted := some 6, addFails := true }]

/-- The first number is free before its session is deleted, the second one is open and not
registered, and at the end nothing is left. -/
theorem descriptors_disciplined_leaving :
    ∃ t, exec step (start {} 1 3 4) leavingUnwatched = some t ∧
      t.openFds 5 = false ∧ t.sessions 5 = some 0 ∧ t.openFds 6 = true ∧ t.epoll 6 = none ∧
      t.OwnNumbers [1] ∧
      ∀ entries, t.Lists entries → (∀ fd, (t.exit entries).openFds fd = false) := by
  refine ⟨_, rfl, by decide, rfl, by decide, by decide, ?_⟩
  have disciplined := descriptors_disciplined {} 1 3 4 leavingUnwatched _ rfl
  exact ⟨disciplined.1, fun entries lists => (disciplined.2.2 entries lists).1⟩

end Server

end Cvcn
