import Cvcn.Lib.Machine
import Cvcn.Net.SessionManager

/-!
# The running server

The main thread is a sequential program: it waits for a batch of events and handles them one
by one, with the commands it drains in between, before it waits again. When the loop is
left it drains and processes commands as long as the pool has work. The workers run at the
same time: between any two steps of the main thread any worker may execute any number of
operations.
-/

namespace Cvcn

open Machine

/-- What the kernel answers to the calls of one step of the main thread. -/
structure Kernel where
  accepted : Option Fd := none
  /-- `EPOLL_CTL_ADD` fails for the number accepted. -/
  addFails : Bool := false
  recvs : List RecvResult := []
  sends : List SendResult := []
  /-- A shutdown was requested by a signal, or `epoll_wait` failed. -/
  leaves : Bool := false
  deriving DecidableEq, Repr

inductive Action where
  | epollWait (events : List EpollEvent)
  | main (k : Kernel)
  | worker (i : Nat)
  deriving DecidableEq, Repr

namespace Server

/-- An event that `epoll_wait` can report: the number is registered, and `EPOLLOUT` only if
it is asked for. -/
def possible (s : Server) (e : EpollEvent) : Bool :=
  match s.epoll e.fd with
  | some mask => (e.readable || e.writable || e.failed) && (!e.writable || mask == .write)
  | none => false

/-- `EventPoller::addFileDescriptor`, whose failure is only logged. -/
def addFileDescriptor (s : Server) (fd : Fd) (mask : EpollMask) (fails : Bool) : Server :=
  { s with epoll := if fails then s.epoll else Function.update s.epoll fd (some mask) }

/-- `accept`, whose result is a number that is not open, and the registration with epoll. -/
def accept (s : Server) (accepted : Option Fd) (addFails : Bool := false) : Option Server :=
  match accepted with
  | none => some s
  | some fd =>
    if s.openFds fd then none
    else
      let s := { s with openFds := Function.update s.openFds fd true }
      some ((s.addFileDescriptor fd .read addFails).onNewConnection fd)

/-- `ResultQueue::drain`. -/
def drain (s : Server) : Server :=
  { s with shared := { s.shared with queue := [] }, commands := s.shared.queue }

def processCommand (s : Server) (k : Kernel) (q : Queued) : Server :=
  match q.cmd.type with
  | .sendRaw =>
    match s.sessions q.cmd.fd with
    | none => s
    | some x =>
      if (s.obj x).closed then s
      else
        let s := s.sendRawDirect x q.cmd.data k.sends
        { s with record := { s.record with sent := s.record.sent ++ [(q.origin, x, q.cmd.data)] } }
  | .close => s.requestCloseClient q.cmd.fd q.origin
  | .taskDone => s.onTaskDone q.cmd.fd

/-- The body of the event loop for one event. `EPOLLOUT` of a readable one comes next. -/
def handleEvent (s : Server) (k : Kernel) (e : EpollEvent) : Option Server :=
  if e.failed then
    if e.fd = s.listenFd then some { s with phase := .shutdown, batch := [] }
    else some (s.onError e.fd)
  else
    let s := if e.writable then { s with batch := .writable e.fd :: s.batch } else s
    if !e.readable then some s
    else if e.fd = s.listenFd then s.accept k.accepted k.addFails
    else if e.fd = s.eventFd then some s.drain
    else some (s.onRead e.fd k.recvs)

def handleItem (s : Server) (k : Kernel) : Item → Option Server
  | .event e => s.handleEvent k e
  | .writable fd => some (s.onWrite fd k.sends)

/-- The next step of the main thread: the commands it has drained come first. -/
def main (s : Server) (k : Kernel) : Option Server :=
  match s.commands with
  | q :: commands => some ({ s with commands := commands }.processCommand k q)
  | [] =>
    match s.phase, s.batch with
    | .eventLoop, [] => if k.leaves then some { s with phase := .shutdown } else none
    | .eventLoop, item :: batch => { s with batch := batch }.handleItem k item
    | .shutdown, _ =>
      if s.pool.hasPendingTasks then some { s with phase := .draining }
      else some { s with phase := .stopped, pool := s.pool.stop }
    | .draining, _ => some { s.drain with phase := .shutdown }
    | .stopped, _ => none

/-- `epoll_wait` reports each descriptor once. -/
def epollWait (s : Server) (events : List EpollEvent) : Option Server :=
  if s.phase == .eventLoop && s.commands.isEmpty && s.batch.isEmpty && events.all s.possible &&
    (events.map (·.fd)).dedup.length == events.length
  then some { s with batch := events.map .event }
  else none

def step (s : Server) : Action → Option Server
  | .epollWait events => s.epollWait events
  | .main k => s.main k
  | .worker i => (s.toBackend.worker i).map fun b => { s with toBackend := b }

/-- The server as `main` starts it: the tables found in the database, no session, and two
numbers open and registered. -/
def start (tables : Tables) (numThreads : Nat) (listenFd eventFd : Fd) : Server where
  pool := ThreadPool.start numThreads
  shared :=
    { conn := { tables := tables }, objects := fun _ => { fileDescriptor := 0 }, next := 0
      byUserID := fun _ => none, queue := [] }
  sessions := fun _ => none
  inFlight := fun _ => none
  pendingDelete := fun _ => false
  openFds := fun fd => fd = listenFd || fd = eventFd
  epoll := fun fd => if fd = listenFd ∨ fd = eventFd then some .read else none
  listenFd := listenFd
  eventFd := eventFd
  phase := .eventLoop
  batch := []
  commands := []
  record := {}
  deferredBy := fun _ => []

end Server

end Cvcn
