import Cvcn.Packet
import Cvcn.Validator

/-!
# One client session

`PacketAssembler`, `PacketSender` and `ClientSession`. What the kernel answers to `recv`
and `send` is an argument; a list of answers that ends early goes on with `EAGAIN`.
-/

namespace Cvcn

abbrev Fd := Nat

/-- A session object: its address, never used for a second object. -/
abbrev SessionId := Nat

structure Task where
  session : SessionId
  header : PacketHeaderRaw
  body : Bytes
  deriving DecidableEq, Repr

structure PacketAssembler where
  readBuffer : Bytes := []
  deriving DecidableEq, Repr

namespace PacketAssembler

def appendData (a : PacketAssembler) (data : Bytes) : PacketAssembler := ⟨a.readBuffer ++ data⟩

/-- The first packet of the buffer, if all of it has arrived, and the assembler without it. -/
def extractPacket (a : PacketAssembler) : Option (PacketHeaderRaw × Bytes × PacketAssembler) :=
  match PacketParser.parseHeader a.readBuffer with
  | none => none
  | some header =>
    let totalSize := PacketHeaderRaw.size + header.messageLen.toNat
    if a.readBuffer.length < totalSize then none
    else some (header, (a.readBuffer.take totalSize).drop PacketHeaderRaw.size,
      ⟨a.readBuffer.drop totalSize⟩)

end PacketAssembler

/-- An answer of `recv`; no bytes are the end of the stream. -/
inductive RecvResult where
  | bytes (data : Bytes)
  | again
  | error
  deriving DecidableEq, Repr

/-- An answer of `send`. -/
inductive SendResult where
  | sent (n : Nat)
  | again
  | error
  deriving DecidableEq, Repr

/-- `CLIENT_EVENTS_READ` and `CLIENT_EVENTS_WRITE`. -/
inductive EpollMask where
  | read
  | write
  deriving DecidableEq, Repr

structure PacketSender where
  sendQueue : List Bytes := []
  writePending : Bool := false
  deriving DecidableEq, Repr

namespace PacketSender

/-- The exits of the flush loop: the queue is empty, the kernel takes no more for now, or
`send` failed. -/
inductive FlushExit where
  | emptied
  | blocked
  | failed
  deriving DecidableEq, Repr

def flushLoop : List Bytes → List SendResult → List Bytes × FlushExit
  | [], _ => ([], .emptied)
  | buffer :: queue, .sent n :: sends =>
    if n < buffer.length then (buffer.drop n :: queue, .blocked) else flushLoop queue sends
  | buffer :: queue, .error :: _ => (buffer :: queue, .failed)
  | buffer :: queue, _ => (buffer :: queue, .blocked)

/-- The sender after the flush, and the epoll registration it asks for. -/
def flushSendQueue (p : PacketSender) (sends : List SendResult) : PacketSender × Option EpollMask :=
  match flushLoop p.sendQueue sends with
  | (queue, .emptied) => ({ sendQueue := queue, writePending := false }, some .read)
  | (queue, .blocked) => ({ sendQueue := queue, writePending := true }, some .write)
  | (queue, .failed) => ({ p with sendQueue := queue }, none)

def sendPacket (p : PacketSender) (data : Bytes) (sends : List SendResult) :
    PacketSender × Option EpollMask :=
  let p := { p with sendQueue := p.sendQueue ++ [data] }
  if p.writePending then (p, none) else p.flushSendQueue sends

def handleWrite (p : PacketSender) (sends : List SendResult) : PacketSender × Option EpollMask :=
  flushSendQueue { p with writePending := false } sends

end PacketSender

structure ClientSession where
  fileDescriptor : Fd
  closed : Bool := false
  userID : Int := -1
  username : Bytes := []
  assembler : PacketAssembler := {}
  sender : PacketSender := {}
  /-- The object has been deleted: what is left is a dangling pointer's memory. -/
  freed : Bool := false
  deriving DecidableEq, Repr

namespace ClientSession

/-- The loop over `extractPacket`: the tasks of the packets extracted, and whether it ended
at a packet that is too large. Each round takes a header off the buffer, so the buffer's
length bounds the rounds. -/
def extractTasks (session : SessionId) :
    Nat → PacketAssembler → PacketAssembler × List Task × Bool
  | 0, a => (a, [], false)
  | rounds + 1, a =>
    match a.extractPacket with
    | none => (a, [], false)
    | some (header, body, a) =>
      if header.messageLen.toNat > config.MAX_REASONABLE_PACKET_BODY then (a, [], true)
      else
        let (a, tasks, tooLarge) := extractTasks session rounds a
        (a, ⟨session, header, body⟩ :: tasks, tooLarge)

/-- `handleRead` on the answers of `recv`: the tasks, and whether it closes the session. -/
def handleRead (session : SessionId) :
    List RecvResult → PacketAssembler → PacketAssembler × List Task × Bool
  | .bytes [] :: _, a => (a, [], true)
  | .bytes data :: recvs, a =>
    let a := a.appendData data
    let (a, tasks, tooLarge) := extractTasks session a.readBuffer.length a
    if tooLarge then (a, tasks, true)
    else
      let (a, more, close) := handleRead session recvs a
      (a, tasks ++ more, close)
  | .error :: _, a => (a, [], true)
  | .again :: _, a | [], a => (a, [], false)

end ClientSession

inductive CommandType where
  | sendRaw
  | close
  | taskDone
  deriving DecidableEq, Repr

structure SessionCommand where
  type : CommandType
  fd : Fd
  data : Bytes := []
  deriving DecidableEq, Repr

end Cvcn
