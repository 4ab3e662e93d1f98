import Cvcn.Lib.Readiness
import Cvcn.Net.Descriptors
import Cvcn.Net.Pipe
import Cvcn.Net.ReceiveBuffer
import Cvcn.Services.Execution

/-!
# The server on its kernel

The server's sockets as the kernel has them, and its epoll instance: what arrives and what is sent
goes through a socket, clients are watched for edges (`EPOLLET`), the listening socket and the
eventfd for their levels. The answers of `recv` and `epoll_wait` are no longer arbitrary, nor those
of `send` but that it may fail at any call; `EPOLL_CTL_ADD` may fail, and `accept`.

A change of a socket may signal its number to epoll when there is nothing new to report, but not
the other way round. While a session reads or flushes its queue more may arrive or be sent: this
comes to the same as if it had before the first call, since `recv` need not give all at once.
-/

namespace Cvcn

open Machine Readiness

/-- A connected socket, with all that has arrived and all that the send buffer has taken. -/
structure Socket where
  unread : Bytes := []
  /-- The other side has ended its stream, or the connection is broken. -/
  ended : Bool := false
  failed : Bool := false
  /-- How much the send buffer takes, and how much it must take for an `EPOLLOUT`. -/
  room : Nat := 0
  lowWater : Nat := 1
  arrived : Bytes := []
  accepted : Bytes := []
  /-- The last flush of the session's queue ended with an error of `send`. -/
  stalled : Bool := false
  deriving DecidableEq, Repr

namespace Socket

def readable (c : Socket) : Bool := !c.unread.isEmpty || c.ended || c.failed

def writable (c : Socket) : Bool := c.lowWater ≤ c.room

/-- What successive calls of `recv` give, if each has as many bytes to give as `counts` says, but
one at least and not more than the buffer has space for. -/
def pieces : Nat → List Nat → Bytes → List Bytes
  | 0, _, _ | _, _, [] => []
  | calls + 1, counts, b :: data =>
    let size := max 1 (min (counts.headD config.SESSION_READ_BUFFER_SIZE)
      config.SESSION_READ_BUFFER_SIZE)
    (b :: data).take size :: pieces calls counts.tail ((b :: data).drop size)

/-- The answers of `recv` until all has been read. -/
def recvs (c : Socket) (counts : List Nat) : List RecvResult :=
  (pieces c.unread.length counts c.unread).map .bytes ++
    [if c.failed then .error else if c.ended then .bytes [] else .again]

/-- The answers of `send` for the buffers of a queue, with so much room, if it fails after so many
calls. -/
def sendsInto : Option Nat → Nat → List Bytes → List SendResult
  | _, _, [] => []
  | some 0, _, _ :: _ => [.error]
  | fails, room, buffer :: queue =>
    if buffer.length ≤ room then
      .sent buffer.length :: sendsInto (fails.map (· - 1)) (room - buffer.length) queue
    else if room = 0 then [.again]
    else [.sent room]

def sends (c : Socket) (fails : Option Nat) (queue : List Bytes) : List SendResult :=
  if c.failed then [.error] else sendsInto fails c.room queue

def read (c : Socket) : Socket := { c with unread := [] }

/-- The send buffer takes some bytes. -/
def take (c : Socket) (data : Bytes) : Socket :=
  { c with room := c.room - data.length, accepted := c.accepted ++ data }

end Socket

namespace Server

/-- The session whose sender the next step of the main thread calls, and the packet that it gives
it, if it does not resume a flush. -/
def calls (s : Server) : Option (SessionId × Option Bytes) :=
  match s.commands, s.phase, s.batch with
  | q :: _, _, _ =>
    match q.cmd.type, s.sessions q.cmd.fd with
    | .sendRaw, some x => if (s.obj x).closed then none else some (x, some q.cmd.data)
    | _, _ => none
  | [], .eventLoop, .writable fd :: _ => (s.sessions fd).map fun x => (x, none)
  | _, _, _ => none

/-- The next step of the main thread drains the result queue. -/
def drains (s : Server) : Bool :=
  match s.commands, s.phase, s.batch with
  | [], .eventLoop, .event e :: _ =>
    !e.failed && e.readable && e.fd != s.listenFd && e.fd == s.eventFd
  | [], .draining, _ => true
  | _, _, _ => false

end Server

/-- The call, once the answers of `send` are known. -/
def SenderCall.make (packet : Option Bytes) (sends : List SendResult) : SenderCall :=
  match packet with
  | some data => .sendPacket data sends
  | none => .handleWrite sends

/-- The last flush has met an error, once the call has been made. -/
def PacketSender.stalls (p : PacketSender) (before : Bool) : SenderCall → Bool
  | .sendPacket data sends =>
    if p.writePending then before else decide (ErrorReached (p.sendQueue ++ [data]) sends)
  | .handleWrite sends => decide (ErrorReached p.sendQueue sends)

/-- The socket after a call of its sender. -/
def Socket.called (c : Socket) (p : PacketSender) (call : SenderCall) : Socket :=
  { c.take (p.takenByCall call) with stalled := p.stalls c.stalled call }

/-- What is left to the kernel in one step of the main thread. -/
structure Moment where
  accepted : Option Fd := none
  addFails : Bool := false
  counts : List Nat := []
  /-- After so many calls `send` fails, though the connection is sound. -/
  sendFails : Option Nat := none
  leaves : Bool := false
  deriving DecidableEq, Repr

/-- The ways in which a number needs attention. -/
inductive Kind where
  | readable
  | writable
  | failed
  deriving DecidableEq, Repr

structure Host where
  observed : Observed
  sockets : Fd → Socket
  /-- The connections that have not been accepted yet. -/
  backlog : List Socket
  /-- The numbers that something has happened to since `epoll_wait` last reported them. -/
  ready : List Fd
  /-- The counter of the eventfd is positive. -/
  notified : Bool
  /-- The pushes to the result queue that have not written to the eventfd yet. -/
  unwritten : Nat
  /-- `drain` has taken the commands and not yet read the eventfd. -/
  resetting : Bool
  /-- The sessions that epoll does not watch, since `EPOLL_CTL_ADD` failed. -/
  unwatched : List SessionId

/-- What happens outside the program. -/
inductive Happening where
  | connect (c : Socket)
  | receive (fd : Fd) (data : Bytes)
  | finish (fd : Fd)
  | fail (fd : Fd)
  /-- The send buffer has room for some more bytes. -/
  | sent (fd : Fd) (n : Nat)
  /-- A number is signalled for nothing. -/
  | signal (fd : Fd)
  deriving DecidableEq, Repr

inductive HostAction where
  | outside (e : Happening)
  | epollWait
  | main (m : Moment)
  | worker (i : Nat)
  /-- A worker writes to the eventfd, after its push. -/
  | write
  deriving DecidableEq, Repr

namespace Host

/-- `EventPoller::MAX_EVENTS`. -/
def MAX_EVENTS : Nat := 1024

def server (h : Host) : Server := h.observed.server

/-- What epoll finds when it looks at a number, as far as its mask asks for it. -/
def look (h : Host) (fd : Fd) : EpollEvent :=
  if fd = h.server.listenFd then { fd := fd, readable := !h.backlog.isEmpty }
  else if fd = h.server.eventFd then { fd := fd, readable := h.notified }
  else
    let c := h.sockets fd
    { fd := fd
      readable := c.readable
      writable := h.server.epoll fd == some .write && (c.writable || c.failed)
      failed := c.failed }

def poll (h : Host) (fd : Fd) : Option EpollEvent :=
  let e := h.look fd
  if (h.server.epoll fd).isSome && (e.readable || e.writable || e.failed) then some e else none

def levelTriggered (h : Host) (fd : Fd) : Bool := fd == h.server.listenFd || fd == h.server.eventFd

/-- Something happens to a number that is registered. -/
def signal (h : Host) (fd : Fd) : Host :=
  if (h.server.epoll fd).isSome then { h with ready := Readiness.signal fd h.ready } else h

/-- `EPOLL_CTL_ADD` and `EPOLL_CTL_MOD` look at the number at once. -/
def recheck (h : Host) (fd : Fd) : Host := if (h.poll fd).isSome then h.signal fd else h

def setSocket (h : Host) (fd : Fd) (c : Socket) : Host :=
  { h with sockets := Function.update h.sockets fd c }

/-- The number is a client's: it is open, and not one of the two that `main` opens. -/
def client (h : Host) (fd : Fd) : Bool :=
  h.server.openFds fd && fd != h.server.listenFd && fd != h.server.eventFd

def happens (h : Host) : Happening → Option Host
  | .connect c =>
    let c := { c with arrived := c.unread, accepted := [], stalled := false }
    some ({ h with backlog := h.backlog ++ [c] }.signal h.server.listenFd)
  | .receive fd data =>
    let c := h.sockets fd
    if h.client fd && !c.ended && !c.failed then
      some ((h.setSocket fd { c with
        unread := c.unread ++ data, arrived := c.arrived ++ data }).signal fd)
    else none
  | .finish fd =>
    if h.client fd then some ((h.setSocket fd { h.sockets fd with ended := true }).signal fd)
    else none
  | .fail fd =>
    if h.client fd then some ((h.setSocket fd { h.sockets fd with failed := true }).signal fd)
    else none
  | .sent fd n =>
    let c := h.sockets fd
    if h.client fd then some ((h.setSocket fd { c with room := c.room + n }).recheck fd) else none
  | .signal fd => some (h.signal fd)

/-- `epoll_wait`: numbers watched for their level stay on the list. -/
def epollWait (h : Host) : Option Host :=
  if h.resetting then none
  else
    let (reports, ready) := harvest h.poll MAX_EVENTS h.ready
    (h.observed.step (.epollWait (reports.map (·.2)))).map fun o =>
      { h with observed := o, ready := ready ++ (reports.map (·.1)).filter h.levelTriggered }

/-- The queue that a call of a sender flushes. -/
def flushed (h : Host) (x : SessionId) (packet : Option Bytes) : List Bytes :=
  (h.server.obj x).sender.sendQueue ++ packet.toList

/-- The answers of the kernel to the calls of the next step of the main thread. -/
def kernel (h : Host) (m : Moment) : Kernel where
  accepted := if h.backlog.isEmpty then none else m.accepted
  addFails := m.addFails
  recvs :=
    match h.server.reads (.main {}) with
    | some (fd, _) => if h.client fd then (h.sockets fd).recvs m.counts else [.error]
    | none => []
  sends :=
    match h.server.calls with
    | some (x, packet) =>
      if (h.server.obj x).closed then [.error]
      else (h.sockets (h.server.fdOf x)).sends m.sendFails (h.flushed x packet)
    | none => []
  leaves := m.leaves

/-- The sockets after a step of the main thread. -/
def socketsAfter (h : Host) (k : Kernel) : Fd → Socket :=
  match h.server.accepted (.main k), h.server.reads (.main k), h.server.calls with
  | some fd, _, _ => Function.update h.sockets fd (h.backlog.headD {})
  | none, some (fd, _), _ => Function.update h.sockets fd (h.sockets fd).read
  | none, none, some (x, packet) =>
    if (h.server.obj x).closed then h.sockets
    else
      let fd := h.server.fdOf x
      Function.update h.sockets fd
        ((h.sockets fd).called (h.server.obj x).sender (.make packet k.sends))
  | none, none, none => h.sockets

/-- The number that a step of the main thread adds to epoll or modifies there. -/
def rechecked (h : Host) (k : Kernel) : Option Fd :=
  match h.server.accepted (.main k), h.server.calls with
  | some fd, _ => some fd
  | none, some (x, packet) =>
    if ((h.server.obj x).sender.call (.make packet k.sends)).2.isSome then some (h.server.fdOf x)
    else none
  | none, none => none

/-- What a step of the main thread has changed. A number that has been closed is off the list. -/
def changed (h : Host) (k : Kernel) (o : Observed) : Host where
  observed := o
  sockets := h.socketsAfter k
  backlog := if (h.server.accepted (.main k)).isSome then h.backlog.tail else h.backlog
  ready := h.ready.filter fun fd => (o.server.epoll fd).isSome
  notified := h.notified
  unwritten := h.unwritten
  resetting := h.server.drains
  unwatched := h.unwatched ++ h.server.missed (.main k)

/-- What a step of the main thread leads to, once epoll has looked where it was told to. -/
def settled (h : Host) (k : Kernel) (o : Observed) : Host :=
  match h.rechecked k with
  | some fd => (h.changed k o).recheck fd
  | none => h.changed k o

def main (h : Host) (m : Moment) : Option Host :=
  if h.resetting then some { h with notified := false, resetting := false }
  else (h.observed.step (.main (h.kernel m))).map (h.settled (h.kernel m))

/-- A step of a worker, which may push a command. -/
def worker (h : Host) (i : Nat) : Option Host :=
  (h.observed.step (.worker i)).map fun o =>
    { h with
      observed := o
      unwritten := h.unwritten + (o.server.shared.queue.length - h.server.shared.queue.length) }

/-- The second half of `ResultQueue::push`. -/
def write (h : Host) : Option Host :=
  if h.unwritten = 0 then none
  else
    some ({ h with notified := true, unwritten := h.unwritten - 1 }.signal h.server.eventFd)

def step (h : Host) : HostAction → Option Host
  | .outside e => h.happens e
  | .epollWait => h.epollWait
  | .main m => h.main m
  | .worker i => h.worker i
  | .write => h.write

/-- The server as `main` starts it, on a kernel that has no connection for it yet. -/
def start (tables : Tables) (numThreads : Nat) (listenFd eventFd : Fd) : Host where
  observed := Observed.start tables numThreads listenFd eventFd
  sockets := fun _ => {}
  backlog := []
  ready := []
  notified := false
  unwritten := 0
  resetting := false
  unwatched := []

end Host

end Cvcn
