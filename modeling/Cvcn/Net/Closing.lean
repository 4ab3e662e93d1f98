import Cvcn.Net.Effects

/-!
# Which session the main thread closes

A step of the main thread closes at most one session: the one that it reads the end of, or that an
error, a `Close` or the last `TaskDone` is about. It may also be deleted, now or later.
-/

namespace Cvcn

namespace Server

variable {s t : Server} {fd : Fd} {a : Action}

/-- A read that leaves the session closed. -/
def readCloses (s : Server) (fd : Fd) (recvs : List RecvResult) : Option SessionId :=
  (s.sessions fd).filter fun x =>
    (s.obj x).closed || (ClientSession.handleRead x recvs (s.obj x).assembler).2.2

def commandCloses (s : Server) (q : Queued) : Option SessionId :=
  match q.cmd.type with
  | .sendRaw => none
  | .close => s.sessions q.cmd.fd
  | .taskDone => s.taskDoneDeletes q.cmd.fd

def itemCloses (s : Server) (k : Kernel) : Item → Option SessionId
  | .writable fd => s.writeDeletes fd
  | .event e =>
    if e.failed then if e.fd = s.listenFd then none else s.sessions e.fd
    else if e.readable && e.fd != s.listenFd && e.fd != s.eventFd then s.readCloses e.fd k.recvs
    else none

/-- The session that the next step closes, or finds closed and deletes. -/
def closes (s : Server) : Action → Option SessionId
  | .main k =>
    match s.commands, s.phase, s.batch with
    | q :: _, _, _ => s.commandCloses q
    | [], .eventLoop, item :: _ => s.itemCloses k item
    | _, _, _ => none
  | _ => none

/-- A session is closed from one state to the next, and no other one. -/
def Closing (s t : Server) (o : Option SessionId) : Prop :=
  ∀ y, (t.obj y).closed = ((s.obj y).closed || o == some y)

theorem Closing.of_objects (same : ∀ y, (t.obj y).closed = (s.obj y).closed) :
    Closing s t none := by
  intro y
  rw [same]
  simp

theorem closing_setSession (closes : Bool) {x : SessionId} {c : ClientSession}
    (objects : t.shared.objects = Function.update s.shared.objects x c)
    (closed : c.closed = ((s.obj x).closed || closes)) :
    Closing s t (if closes then some x else none) := by
  intro y
  rw [obj, obj, objects]
  by_cases same : y = x
  · subst same
    rw [Function.update_self, closed]
    cases closes <;> simp [obj]
  · rw [Function.update_of_ne same]
    cases closes <;> simp [Ne.symm same]

theorem closeClient_closing (s : Server) (fd : Fd) :
    Closing s (s.closeClient fd) (s.sessions fd) := by
  cases hx : s.sessions fd with
  | none =>
    rw [closeClient_none hx]
    exact .of_objects fun _ => rfl
  | some x =>
    obtain ⟨epoll, openFds, e⟩ := closeClient_eq hx
    exact closing_setSession true (by rw [e]) (by simp)

theorem deferClose_closing (s : Server) (fd : Fd) :
    Closing s (s.deferClose fd) (s.sessions fd) := by
  cases hx : s.sessions fd with
  | none =>
    simp only [deferClose, hx]
    exact .of_objects fun _ => rfl
  | some x =>
    obtain ⟨epoll, openFds, e⟩ := deferClose_eq hx
    exact closing_setSession true (by rw [e]; rfl) (by simp)

theorem closeOrDefer_closing (s : Server) (fd : Fd) :
    Closing s (s.closeOrDefer fd) (s.sessions fd) := by
  unfold closeOrDefer
  split
  · exact s.deferClose_closing fd
  · exact s.closeClient_closing fd

theorem onWrite_closing (s : Server) (fd : Fd) (sends : List SendResult) :
    Closing s (s.onWrite fd sends) (s.writeDeletes fd) := by
  unfold onWrite writeDeletes
  cases hx : s.sessions fd with
  | none => exact .of_objects fun _ => rfl
  | some x =>
    obtain ⟨sender, epoll, e⟩ := handleWrite_eq s x sends
    have written : ∀ y, ((s.handleWrite x sends).obj y).closed = (s.obj y).closed := by
      rw [e]
      exact update_field (·.closed) rfl
    have sessions : (s.handleWrite x sends).sessions fd = some x := by
      rw [e]
      exact hx
    simp only [written x, Option.filter_some]
    split
    · have last := (s.handleWrite x sends).closeClient_closing fd
      rw [sessions] at last
      intro y
      rw [last, written]
    · exact .of_objects written

theorem onRead_closing (s : Server) (fd : Fd) (recvs : List RecvResult) :
    Closing s (s.onRead fd recvs) (s.readCloses fd recvs) := by
  unfold onRead readCloses
  cases hx : s.sessions fd with
  | none => exact .of_objects fun _ => rfl
  | some x =>
    obtain ⟨epoll, openFds, read⟩ := handleRead_eq s x recvs
    simp only [read, Option.filter_some]
    generalize ClientSession.handleRead x recvs (s.obj x).assembler = result
    obtain ⟨assembler, tasks, close⟩ := result
    obtain ⟨inFlight, pool, e, -⟩ := submitAll_pool fd { s with
      shared := s.shared.setSession x
        { s.obj x with assembler := assembler, closed := (s.obj x).closed || close }
      epoll := epoll
      openFds := openFds } tasks
    generalize tasks.foldl (submitTask fd) { s with
      shared := s.shared.setSession x
        { s.obj x with assembler := assembler, closed := (s.obj x).closed || close }
      epoll := epoll
      openFds := openFds } = m at e
    have first : Closing s m (if (s.obj x).closed || close then some x else none) :=
      closing_setSession _ (by rw [e]; rfl) (by simp)
    have sessions : m.sessions fd = some x := by
      rw [e]
      exact hx
    have closed : (m.obj x).closed = ((s.obj x).closed || close) := by
      rw [first x]
      cases (s.obj x).closed <;> cases close <;> simp
    simp only [closed]
    by_cases ended : ((s.obj x).closed || close) = true
    · rw [if_pos ended] at first
      rw [if_pos ended, if_pos ended]
      have last := m.closeOrDefer_closing fd
      rw [sessions] at last
      intro y
      rw [last, first, Bool.or_assoc, Bool.or_self]
    · rw [if_neg ended] at first
      rw [if_neg ended, if_neg ended]
      exact first

theorem requestCloseClient_closing (s : Server) (fd : Fd) (origin : SessionId) :
    Closing s (s.requestCloseClient fd origin) (s.sessions fd) := by
  unfold requestCloseClient
  cases hx : s.sessions fd with
  | none => exact .of_objects fun _ => rfl
  | some x =>
    simp only
    split
    · have closing := deferClose_closing
        { s with record := { s.record with closed := s.record.closed ++ [(origin, x)] } } fd
      simp only [hx] at closing
      exact closing
    · have closing := closeClient_closing
        { s with record := { s.record with closed := s.record.closed ++ [(origin, x)] } } fd
      simp only [hx] at closing
      exact closing

theorem onTaskDone_closing (s : Server) (fd : Fd) :
    Closing s (s.onTaskDone fd) (s.taskDoneDeletes fd) := by
  unfold onTaskDone taskDoneDeletes
  cases s.inFlight fd with
  | none => exact .of_objects fun _ => rfl
  | some n =>
    simp only
    split
    · exact closeClient_closing _ fd
    · exact .of_objects fun _ => rfl

theorem processCommand_closing (s : Server) (k : Kernel) (q : Queued) :
    Closing s (s.processCommand k q) (s.commandCloses q) := by
  unfold processCommand commandCloses
  cases q.cmd.type with
  | close => exact s.requestCloseClient_closing q.cmd.fd q.origin
  | taskDone => exact s.onTaskDone_closing q.cmd.fd
  | sendRaw =>
    simp only
    split
    · exact .of_objects fun _ => rfl
    · split
      · exact .of_objects fun _ => rfl
      · rename_i x _ _
        obtain ⟨sender, epoll, e⟩ := sendRawDirect_eq s x q.cmd.data k.sends
        rw [e]
        exact .of_objects (update_field (·.closed) rfl)

theorem sessions_of_closing {x : SessionId} (h : s.closing fd = some x) :
    s.sessions fd = some x := by
  unfold closing at h
  split at h
  · cases h
  · exact h

theorem commandDeletes_closes {q : Queued} {x : SessionId} (deleted : s.commandDeletes q = some x) :
    s.commandCloses q = some x := by
  unfold commandDeletes at deleted
  unfold commandCloses
  cases type : q.cmd.type with
  | sendRaw => simp [type] at deleted
  | close =>
    simp only [type] at deleted
    exact sessions_of_closing deleted
  | taskDone =>
    simp only [type] at deleted
    exact deleted

theorem readDeletes_closes {recvs : List RecvResult} {x : SessionId}
    (deleted : s.readDeletes fd recvs = some x) : s.readCloses fd recvs = some x := by
  unfold readDeletes at deleted
  unfold readCloses
  cases hy : s.sessions fd with
  | none => simp [hy] at deleted
  | some y =>
    simp only [hy] at deleted
    split at deleted
    · rename_i ended
      have same := sessions_of_closing deleted
      rw [hy] at same
      cases same
      simp only [Bool.and_eq_true] at ended
      rw [Option.filter_some, if_pos ended.1]
    · cases deleted

theorem itemDeletes_closes {k : Kernel} {item : Item} {x : SessionId}
    (deleted : s.itemDeletes k item = some x) : s.itemCloses k item = some x := by
  cases item with
  | writable fd => exact deleted
  | event e =>
    simp only [itemDeletes] at deleted
    simp only [itemCloses]
    split at deleted
    · rename_i failed
      rw [if_pos failed]
      split at deleted
      · cases deleted
      · rename_i client
        rw [if_neg client]
        exact sessions_of_closing deleted
    · rename_i failed
      rw [if_neg failed]
      split at deleted
      · rename_i reads
        rw [if_pos reads]
        exact readDeletes_closes deleted
      · cases deleted

/-- A session that is deleted is closed. -/
theorem deletes_closes {x : SessionId} (deleted : s.deletes a = some x) : s.closes a = some x := by
  cases a with
  | epollWait events => cases deleted
  | worker i => cases deleted
  | main k =>
    obtain ⟨backend, sessions, inFlight, pendingDelete, openFds, epoll, listenFd, eventFd, phase,
      batch, commands, record, deferredBy⟩ := s
    cases commands with
    | cons q commands => exact commandDeletes_closes deleted
    | nil =>
      cases phase with
      | eventLoop =>
        cases batch with
        | nil => cases deleted
        | cons item batch => exact itemDeletes_closes deleted
      | _ => cases deleted

/-- What a step closes of the sessions that exist before it. -/
def StepCloses (s : Server) (a : Action) (t : Server) : Prop :=
  ∀ y < s.shared.next, (t.obj y).closed = ((s.obj y).closed || s.closes a == some y)

/-- What the batch and the commands have been set to before does not matter. -/
theorem Closing.stepCloses {m : Server} {o : Option SessionId} (h : Closing m t o)
    (objects : m.shared.objects = s.shared.objects) (same : s.closes a = o) : StepCloses s a t := by
  intro y _
  rw [same, h y, obj, obj, objects]

theorem onNewConnection_closes (same : s.closes a = none) (batch : List Item) (openFds : Fd → Bool)
    (epoll : Fd → Option EpollMask) : StepCloses s a
      ({ s with batch := batch, openFds := openFds, epoll := epoll }.onNewConnection fd) := by
  intro y old
  rw [same]
  simp [onNewConnection, obj, Shared.setSession, Nat.ne_of_lt old]

theorem handleEvent_closing {k : Kernel} {e : EpollEvent} {batch : List Item}
    (same : s.closes a = s.itemCloses k (.event e))
    (hs : { s with batch := batch }.handleEvent k e = some t) : StepCloses s a t := by
  unfold handleEvent at hs
  simp only [itemCloses] at same
  split at hs
  · rename_i failed
    rw [if_pos failed] at same
    split at hs
    · rename_i listening
      cases hs
      rw [if_pos listening] at same
      exact Closing.stepCloses (.of_objects fun _ => rfl) rfl same
    · rename_i client
      cases hs
      rw [if_neg client] at same
      exact Closing.stepCloses (closeOrDefer_closing _ e.fd) rfl same
  · rename_i failed
    rw [if_neg failed] at same
    have rest : ∃ batch', (if e.writable then
        { s with batch := .writable e.fd :: batch } else { s with batch := batch }) =
        { s with batch := batch' } := by
      split
      · exact ⟨_, rfl⟩
      · exact ⟨_, rfl⟩
    obtain ⟨batch', rest⟩ := rest
    simp only [rest] at hs
    split at hs
    · rename_i unreadable
      cases hs
      simp only [Bool.not_eq_true'] at unreadable
      exact Closing.stepCloses (.of_objects fun _ => rfl) rfl (by simpa [unreadable] using same)
    · rename_i readable
      split at hs
      · rename_i listening
        have nothing : s.closes a = none := by simpa [listening] using same
        cases accepted : k.accepted with
        | none =>
          rw [accepted] at hs
          cases hs
          exact Closing.stepCloses (.of_objects fun _ => rfl) rfl nothing
        | some fd =>
          rw [accepted] at hs
          simp only [Server.accept] at hs
          split at hs
          · cases hs
          · cases hs
            exact onNewConnection_closes nothing _ _ _
      · rename_i client
        split at hs
        · rename_i waking
          cases hs
          exact Closing.stepCloses (.of_objects fun _ => rfl) rfl (by simpa [waking] using same)
        · rename_i other
          cases hs
          simp only [Bool.not_eq_true', Bool.not_eq_false] at readable
          have read : s.closes a = s.readCloses e.fd k.recvs := by
            simpa [readable, client, other] using same
          exact Closing.stepCloses (onRead_closing _ e.fd k.recvs) rfl read

/-- A step of the main thread closes what `closes` says. -/
theorem main_closing {k : Kernel} (hs : s.step (.main k) = some t) :
    StepCloses s (.main k) t := by
  obtain ⟨backend, sessions, inFlight, pendingDelete, openFds, epoll, listenFd, eventFd, phase,
    batch, commands, record, deferredBy⟩ := s
  cases commands with
  | cons q commands =>
    cases hs
    exact Closing.stepCloses (processCommand_closing _ k q) rfl rfl
  | nil =>
    cases phase with
    | eventLoop =>
      cases batch with
      | nil =>
        simp only [step, main] at hs
        split at hs
        · cases hs
          exact Closing.stepCloses (.of_objects fun _ => rfl) rfl rfl
        · cases hs
      | cons item batch =>
        cases item with
        | event e => exact handleEvent_closing rfl hs
        | writable fd =>
          cases hs
          exact Closing.stepCloses (onWrite_closing _ fd k.sends) rfl rfl
    | shutdown =>
      simp only [step, main] at hs
      split at hs
      · cases hs
        exact Closing.stepCloses (.of_objects fun _ => rfl) rfl rfl
      · cases hs
        exact Closing.stepCloses (.of_objects fun _ => rfl) rfl rfl
    | draining =>
      cases hs
      exact Closing.stepCloses (.of_objects fun _ => rfl) rfl rfl
    | stopped => cases hs

theorem step_closing (hs : s.step a = some t) (main : ∀ i, a ≠ .worker i) : StepCloses s a t := by
  cases a with
  | main k => exact main_closing hs
  | worker i => exact absurd rfl (main i)
  | epollWait events =>
    simp only [step, epollWait] at hs
    split at hs
    · cases hs
      exact Closing.stepCloses (.of_objects fun _ => rfl) rfl rfl
    · cases hs

end Server

end Cvcn
