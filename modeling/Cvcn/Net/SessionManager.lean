import Cvcn.Net.ThreadPool

/-!
# The session manager

`SessionManager` with the parts of `EventPoller` and of the kernel that its methods touch.
All of it belongs to the main thread, except the shared state and the pool's queue.
-/

namespace Cvcn

/-- What the code does not keep: a record for stating what happened. -/
structure Record where
  /-- The session that pushed a `SendRaw`, and the one whose sender got its bytes. -/
  sent : List (SessionId × SessionId × Bytes) := []
  /-- The session that pushed a `Close`, and the one closed for it. -/
  closed : List (SessionId × SessionId) := []
  /-- Each session deleted, with its counter of tasks in flight at that moment. -/
  deleted : List (SessionId × Nat) := []

structure EpollEvent where
  fd : Fd
  readable : Bool := false
  writable : Bool := false
  failed : Bool := false
  deriving DecidableEq, Repr

/-- What is left of a batch of events; a readable event may leave its `EPOLLOUT` behind. -/
inductive Item where
  | event (e : EpollEvent)
  | writable (fd : Fd)
  deriving DecidableEq, Repr

/-- Where `main` is: in the event loop, or at one of the points of its shutdown. -/
inductive Phase where
  | eventLoop
  | shutdown
  | draining
  | stopped
  deriving DecidableEq, Repr

structure Server extends Backend where
  sessions : Fd → Option SessionId
  inFlight : Fd → Option Nat
  pendingDelete : Fd → Bool
  openFds : Fd → Bool
  epoll : Fd → Option EpollMask
  listenFd : Fd
  eventFd : Fd
  phase : Phase
  batch : List Item
  /-- The commands drained and not yet processed. -/
  commands : List Queued
  record : Record
  /-- The sessions whose `Close` was deferred under a number in `pendingDelete`. -/
  deferredBy : Fd → List SessionId

namespace Server

def obj (s : Server) (x : SessionId) : ClientSession := s.shared.objects x

def setSession (s : Server) (x : SessionId) (c : ClientSession) : Server :=
  { s with shared := s.shared.setSession x c }

/-- The object exists: it has been created and not deleted. -/
def Alive (s : Server) (x : SessionId) : Prop := x < s.shared.next ∧ (s.obj x).freed = false

/-- `epoll_ctl(EPOLL_CTL_MOD)`, which fails on a number that is not registered. -/
def modifyFileDescriptorEvents (s : Server) (fd : Fd) (mask : Option EpollMask) : Server :=
  match mask, s.epoll fd with
  | some mask, some _ => { s with epoll := Function.update s.epoll fd (some mask) }
  | _, _ => s

/-- `ClientSession::closeSession`: from here on the kernel may give the number out again. -/
def closeSession (s : Server) (x : SessionId) : Server :=
  if (s.obj x).closed then s
  else
    let fd := (s.obj x).fileDescriptor
    { s.setSession x { s.obj x with closed := true } with
      epoll := Function.update s.epoll fd none
      openFds := Function.update s.openFds fd false }

def sendRawDirect (s : Server) (x : SessionId) (data : Bytes) (sends : List SendResult) : Server :=
  let (sender, mask) := (s.obj x).sender.sendPacket data sends
  (s.setSession x { s.obj x with sender := sender }).modifyFileDescriptorEvents
    (s.obj x).fileDescriptor mask

def handleWrite (s : Server) (x : SessionId) (sends : List SendResult) : Server :=
  let (sender, mask) := (s.obj x).sender.handleWrite sends
  (s.setSession x { s.obj x with sender := sender }).modifyFileDescriptorEvents
    (s.obj x).fileDescriptor mask

/-- The session reads; its tasks are returned, and it may close itself. -/
def handleRead (s : Server) (x : SessionId) (recvs : List RecvResult) : Server × List Task :=
  let (assembler, tasks, close) := ClientSession.handleRead x recvs (s.obj x).assembler
  let s := s.setSession x { s.obj x with assembler := assembler }
  (if close then s.closeSession x else s, tasks)

/-- `delete session` after it has been unregistered and closed. -/
def deleteSession (s : Server) (x : SessionId) : Server :=
  s.setSession x { s.obj x with freed := true }

def unregisterUser (s : Server) (userID : Int) (x : SessionId) : Server :=
  { s with shared := s.shared.unregisterUser userID x }

def closeClient (s : Server) (fd : Fd) : Server :=
  match s.sessions fd with
  | none => s
  | some x =>
    let found := (s.inFlight fd).getD 0
    let s := if (s.obj x).userID != -1 then s.unregisterUser (s.obj x).userID x else s
    let s := (s.closeSession x).deleteSession x
    { s with sessions := Function.update s.sessions fd none
             inFlight := Function.update s.inFlight fd none
             record := { s.record with deleted := s.record.deleted ++ [(x, found)] } }

/-- Deferred: the number waits in `pendingDelete`, and the session is closed at once. -/
def deferClose (s : Server) (fd : Fd) : Server :=
  let s := { s with pendingDelete := Function.update s.pendingDelete fd true }
  match s.sessions fd with
  | some x => s.closeSession x
  | none => s

def closeOrDefer (s : Server) (fd : Fd) : Server :=
  if (s.inFlight fd).getD 0 > 0 then s.deferClose fd else s.closeClient fd

def onNewConnection (s : Server) (fd : Fd) : Server :=
  let x := s.shared.next
  { s with shared := { s.shared.setSession x { fileDescriptor := fd } with next := x + 1 }
           sessions := Function.update s.sessions fd (some x)
           inFlight := Function.update s.inFlight fd (some 0) }

def submitTask (fd : Fd) (s : Server) (task : Task) : Server :=
  { s with inFlight := Function.update s.inFlight fd (some ((s.inFlight fd).getD 0 + 1))
           toBackend := s.toBackend.submit ⟨fd, task⟩ }

def onRead (s : Server) (fd : Fd) (recvs : List RecvResult) : Server :=
  match s.sessions fd with
  | none => s
  | some x =>
    let (s, tasks) := s.handleRead x recvs
    let s := tasks.foldl (submitTask fd) s
    if (s.obj x).closed then s.closeOrDefer fd else s

/-- A closed session is deleted here without a look at its counter. -/
def onWrite (s : Server) (fd : Fd) (sends : List SendResult) : Server :=
  match s.sessions fd with
  | none => s
  | some x =>
    let s := s.handleWrite x sends
    if (s.obj x).closed then s.closeClient fd else s

def onError (s : Server) (fd : Fd) : Server := s.closeOrDefer fd

/-- `Close` of `origin`, which the code does not know. -/
def requestCloseClient (s : Server) (fd : Fd) (origin : SessionId) : Server :=
  match s.sessions fd with
  | none => s
  | some x =>
    let s := { s with record := { s.record with closed := s.record.closed ++ [(origin, x)] } }
    if (s.inFlight fd).getD 0 > 0 then
      { s.deferClose fd with
        deferredBy := Function.update s.deferredBy fd (origin :: s.deferredBy fd) }
    else s.closeClient fd

/-- The sessions that deferred a `Close` under `fd` get what they asked for. -/
def closeDeferred (s : Server) (fd : Fd) : Server :=
  let hit := match s.sessions fd with
    | some x => (s.deferredBy fd).map fun origin => (origin, x)
    | none => []
  { s with pendingDelete := Function.update s.pendingDelete fd false
           deferredBy := Function.update s.deferredBy fd []
           record := { s.record with closed := s.record.closed ++ hit } }

def onTaskDone (s : Server) (fd : Fd) : Server :=
  match s.inFlight fd with
  | none => s
  | some n =>
    let s := { s with inFlight := Function.update s.inFlight fd (some (n - 1)) }
    if n - 1 = 0 ∧ s.pendingDelete fd then (s.closeDeferred fd).closeClient fd else s

end Server

end Cvcn
