import Cvcn.Client.ProtocolClient
import Cvcn.Net.Sending
import Cvcn.Services.Serving

/-!
# The server with its clients

The bytes on their way between the server and the clients at the other ends of its sessions. TCP
keeps their order and hands them over in pieces of any size; no `send` fails. A worker handles
a task from its first operation to its last.
-/

namespace Cvcn

open Atomic Machine

structure Network where
  server : Server
  clients : SessionId → Client
  /-- What each client has sent and the server has not read. -/
  toServer : SessionId → Bytes
  /-- What the server has sent to each client and it has not read. -/
  toClient : SessionId → Bytes
  /-- What each client has signalled. -/
  signals : SessionId → List Signal

/-- One step of a party. -/
inductive Transfer where
  /-- The session receives chunks, until there is no more for now. -/
  | read (x : SessionId) (chunks : List Bytes)
  | handle
  | drain
  | command (sends : List SendResult)
  /-- The session's number is ready, and takes at least a byte. -/
  | write (x : SessionId) (size : Nat) (sends : List SendResult)
  | readyRead (x : SessionId) (size : Nat)
  deriving DecidableEq, Repr

namespace Server

/-- The session that the number of a command is looked up to, if the command sends. -/
def addressee (s : Server) (q : Queued) : Option SessionId :=
  match q.cmd.type with
  | .sendRaw => (s.sessions q.cmd.fd).filter fun x => !(s.obj x).closed
  | _ => none

end Server

namespace Network

/-- The session is in the map, and epoll may report its number so. -/
def ready (n : Network) (x : SessionId) (readable writable : Bool) : Bool :=
  n.server.sessions (n.server.fdOf x) == some x &&
    n.server.possible { fd := n.server.fdOf x, readable := readable, writable := writable }

/-- The main thread waits for events when it has processed all commands. -/
def transfer (n : Network) : Transfer → Option Network
  | .read x chunks =>
    if n.server.commands.isEmpty && n.ready x true false && !chunks.isEmpty &&
        chunks.all (!·.isEmpty) && chunks.flatten.isPrefixOf (n.toServer x) then
      some { n with
        server := n.server.onRead (n.server.fdOf x) (chunks.map .bytes ++ [.again])
        toServer := Function.update n.toServer x
          ((n.toServer x).drop chunks.flatten.length) }
    else none
  | .handle => n.server.serveNext.map fun b => { n with server := { n.server with toBackend := b } }
  | .drain =>
    if n.server.commands.isEmpty && !n.server.shared.queue.isEmpty then
      some { n with server := n.server.drain }
    else none
  | .command sends =>
    match n.server.commands with
    | [] => none
    | q :: commands =>
      if sends.contains .error then none
      else
        let s := { n.server with commands := commands }
        let server := s.processCommand { sends := sends } q
        match s.addressee q with
        | none => some { n with server := server }
        | some x =>
          some { n with
            server := server
            toClient := Function.update n.toClient x
              (n.toClient x ++ (s.obj x).sender.takenBySend q.cmd.data sends) }
  | .write x size sends =>
    if n.server.commands.isEmpty && n.ready x false true && size > 0 && !sends.contains .error then
      some { n with
        server := n.server.onWrite (n.server.fdOf x) (.sent size :: sends)
        toClient := Function.update n.toClient x (n.toClient x ++
          PacketSender.taken (n.server.obj x).sender.sendQueue (.sent size :: sends)) }
    else none
  | .readyRead x size =>
    if size > 0 && !(n.toClient x).isEmpty then
      let (client, signals) := (n.clients x).readyRead ((n.toClient x).take size)
      some { n with
        clients := Function.update n.clients x client
        toClient := Function.update n.toClient x ((n.toClient x).drop size)
        signals := Function.update n.signals x (n.signals x ++ signals) }
    else none

/-- The user of a client sends a message. -/
def sendMessage (n : Network) (x : SessionId) (chatID : UInt32) (text : Bytes) : Network :=
  let (protocol, packet) := (n.clients x).protocol.sendMessage chatID text
  { n with
    clients := Function.update n.clients x { n.clients x with protocol := protocol }
    toServer := Function.update n.toServer x (n.toServer x ++ packet) }

/-- All that a step can do. -/
inductive Moves (n : Network) : Network → Prop where
  | read (x : SessionId) (chunks : List Bytes) (ahead : Bytes) (idle : n.server.commands = [])
    (here : n.server.sessions (n.server.fdOf x) = some x)
    (known : n.server.epoll (n.server.fdOf x) ≠ none) (nonempty : chunks ≠ [])
    (full : ∀ chunk ∈ chunks, chunk ≠ []) (stream : n.toServer x = chunks.flatten ++ ahead) :
    Moves n { n with
      server := n.server.onRead (n.server.fdOf x) (chunks.map .bytes ++ [.again])
      toServer := Function.update n.toServer x ahead }
  | handle (job : Job) (tasks : List Job) (head : n.server.pool.tasks = job :: tasks) :
    Moves n { n with server := { n.server with
      pool := { n.server.pool with
        tasks := tasks, started := n.server.pool.started ++ [job] }
      shared := (n.server.shared.handle job.task).push job.done job.task.session } }
  | drain (idle : n.server.commands = []) (queued : n.server.shared.queue ≠ []) :
    Moves n { n with server := n.server.drain }
  | command (q : Queued) (commands : List Queued) (sends : List SendResult)
    (head : n.server.commands = q :: commands)
    (none : { n.server with commands := commands }.addressee q = none) :
    Moves n { n with
      server := { n.server with commands := commands }.processCommand { sends := sends } q }
  | sends (q : Queued) (commands : List Queued) (sends : List SendResult) (x : SessionId)
    (head : n.server.commands = q :: commands)
    (goes : { n.server with commands := commands }.addressee q = some x) (ok : .error ∉ sends) :
    Moves n { n with
      server := { n.server with commands := commands }.processCommand { sends := sends } q
      toClient := Function.update n.toClient x (n.toClient x ++
        (n.server.obj x).sender.takenBySend q.cmd.data sends) }
  | write (x : SessionId) (size : Nat) (sends : List SendResult) (idle : n.server.commands = [])
    (here : n.server.sessions (n.server.fdOf x) = some x)
    (asked : n.server.epoll (n.server.fdOf x) = some .write) (positive : 0 < size)
    (ok : .error ∉ sends) :
    Moves n { n with
      server := n.server.onWrite (n.server.fdOf x) (.sent size :: sends)
      toClient := Function.update n.toClient x (n.toClient x ++
        PacketSender.taken (n.server.obj x).sender.sendQueue (.sent size :: sends)) }
  | readyRead (x : SessionId) (chunk ahead : Bytes) (nonempty : chunk ≠ [])
    (stream : n.toClient x = chunk ++ ahead) :
    Moves n { n with
      clients := Function.update n.clients x ((n.clients x).readyRead chunk).1
      toClient := Function.update n.toClient x ahead
      signals := Function.update n.signals x
        (n.signals x ++ ((n.clients x).readyRead chunk).2) }

theorem transfer_cases {n m : Network} {e : Transfer} (h : n.transfer e = some m) :
    n.Moves m := by
  cases e with
  | read x chunks =>
    simp only [transfer, ready, Bool.and_eq_true, Option.ite_none_right_eq_some,
      Option.some.injEq, beq_iff_eq, List.isPrefixOf_iff_prefix] at h
    obtain ⟨⟨⟨⟨⟨idle, here, known⟩, nonempty⟩, full⟩, ahead, stream⟩, rfl⟩ := h
    rw [← stream, List.drop_left]
    apply Moves.read x chunks ahead (List.isEmpty_iff.mp idle) here
      (Server.possible_readable.mp known)
    · simpa using nonempty
    · simpa using full
    · exact stream.symm
  | handle =>
    obtain ⟨b, served, rfl⟩ := Option.map_eq_some_iff.mp h
    unfold Backend.serveNext at served
    split at served
    · cases served
    · rename_i job tasks head
      cases served
      exact .handle job tasks head
  | drain =>
    simp only [transfer, Option.ite_none_right_eq_some, Option.some.injEq, Bool.and_eq_true,
      Bool.not_eq_true', List.isEmpty_iff, List.isEmpty_eq_false_iff] at h
    obtain ⟨⟨idle, queued⟩, rfl⟩ := h
    exact .drain idle queued
  | command sends =>
    simp only [transfer] at h
    split at h
    · cases h
    · rename_i q commands head
      split at h
      · cases h
      · rename_i ok
        split at h
        · rename_i none
          cases h
          exact .command q commands sends head none
        · rename_i x goes
          cases h
          exact .sends q commands sends x head goes (by simpa using ok)
  | write x size sends =>
    simp only [transfer, ready, Bool.and_eq_true, Option.ite_none_right_eq_some,
      Option.some.injEq, beq_iff_eq, decide_eq_true_iff] at h
    obtain ⟨⟨⟨⟨idle, here, asked⟩, positive⟩, ok⟩, rfl⟩ := h
    exact .write x size sends (List.isEmpty_iff.mp idle) here
      (Server.possible_writable.mp asked) positive (by simpa using ok)
  | readyRead x size =>
    simp only [transfer, Option.ite_none_right_eq_some, Option.some.injEq, Bool.and_eq_true,
      decide_eq_true_iff, Bool.not_eq_true', List.isEmpty_eq_false_iff] at h
    obtain ⟨⟨positive, some⟩, rfl⟩ := h
    apply Moves.readyRead x ((n.toClient x).take size) ((n.toClient x).drop size)
    · intro none
      rcases List.take_eq_nil_iff.mp none with zero | nothing
      · omega
      · exact some nothing
    · exact (List.take_append_drop _ _).symm

/-- The main thread is in its loop, and a worker waits for tasks. -/
structure Loops (s : Server) : Prop where
  phase : s.phase = .eventLoop
  batch : s.batch = []
  waiting : ∃ i : Nat, s.pool.workers[i]? = some .waiting
  announced : s.epoll s.eventFd ≠ none
  apart : s.eventFd ≠ s.listenFd
  clients : ∀ fd x, s.sessions fd = some x → fd ≠ s.listenFd ∧ fd ≠ s.eventFd

/-- What a transfer does to the server some run of the server does. -/
theorem transfer_steps {n m : Network} {e : Transfer} (loops : Loops n.server)
    (step : n.transfer e = some m) : ∃ as, exec Server.step n.server as = some m.server := by
  cases transfer_cases step with
  | read x chunks ahead idle here known =>
    obtain ⟨notListen, notEvent⟩ := loops.clients _ x here
    exact ⟨_, Server.reads_steps ⟨loops.phase, loops.batch, idle⟩ known notListen notEvent _⟩
  | handle job tasks head =>
    obtain ⟨i, waiting⟩ := loops.waiting
    have served : n.server.serveNext = some
        { pool := { n.server.pool with
            tasks := tasks, started := n.server.pool.started ++ [job] }
          shared := (n.server.shared.handle job.task).push job.done job.task.session } := by
      simp only [Backend.serveNext, head]
    exact Server.worker_serves waiting served
  | drain idle queued =>
    exact ⟨_, Server.drains_steps ⟨loops.phase, loops.batch, idle⟩ loops.announced loops.apart⟩
  | command q commands sends head =>
    have main : n.server.step (.main { sends := sends }) = some
        ({ n.server with commands := commands }.processCommand { sends := sends } q) := by
      simp only [Server.step, Server.main, head]
    exact ⟨[_], exec_cons.mpr ⟨_, main, rfl⟩⟩
  | sends q commands sends x head =>
    have main : n.server.step (.main { sends := sends }) = some
        ({ n.server with commands := commands }.processCommand { sends := sends } q) := by
      simp only [Server.step, Server.main, head]
    exact ⟨[_], exec_cons.mpr ⟨_, main, rfl⟩⟩
  | write x size sends idle _ asked =>
    exact ⟨_, Server.writes_steps ⟨loops.phase, loops.batch, idle⟩ asked _⟩
  | readyRead => exact ⟨[], rfl⟩

/-- Nothing is left to do for anyone. -/
structure AtRest (n : Network) : Prop where
  commands : n.server.commands = []
  queue : n.server.shared.queue = []
  tasks : n.server.pool.tasks = []
  toClient : ∀ x, n.toClient x = []
  toServer : ∀ x, n.server.sessions (n.server.fdOf x) = some x →
    n.server.epoll (n.server.fdOf x) ≠ none → n.toServer x = []
  sent : ∀ x, n.server.sessions (n.server.fdOf x) = some x →
    n.server.epoll (n.server.fdOf x) ≠ some .write

theorem atRest_of_stuck {n : Network} (stuck : ∀ e, n.transfer e = none) : n.AtRest := by
  have commands : n.server.commands = [] := by
    have step := stuck (.command [])
    simp only [transfer] at step
    split at step
    · assumption
    · split at step
      · rename_i failed
        cases failed
      · split at step <;> cases step
  constructor
  · exact commands
  · have step := stuck .drain
    simpa [transfer, commands] using step
  · have step := stuck .handle
    simp only [transfer, Backend.serveNext, Option.map_eq_none_iff] at step
    split at step
    · assumption
    · cases step
  · intro x
    have step := stuck (.readyRead x 1)
    simpa [transfer] using step
  · intro x here known
    have step := stuck (.read x [n.toServer x])
    have readable := Server.possible_readable.mpr known
    simpa [transfer, ready, commands, here, readable] using step
  · intro x here asked
    have step := stuck (.write x 1 [])
    have writable := Server.possible_writable.mpr asked
    simp [transfer, ready, commands, here, writable] at step

theorem chunks_ne_nil {chunks : List Bytes} (nonempty : chunks ≠ [])
    (full : ∀ chunk ∈ chunks, chunk ≠ []) (ahead : Bytes) : chunks.flatten ++ ahead ≠ [] := by
  intro none
  obtain ⟨chunk, chunks, rfl⟩ := List.exists_cons_of_ne_nil nonempty
  have first := (List.append_eq_nil_iff.mp none).1
  rw [List.flatten_cons] at first
  exact full chunk List.mem_cons_self (List.append_eq_nil_iff.mp first).1

theorem AtRest.stuck {n : Network} (h : n.AtRest) (e : Transfer) : n.transfer e = none := by
  by_contra some
  obtain ⟨m, step⟩ := Option.ne_none_iff_exists'.mp some
  cases transfer_cases step with
  | read x chunks ahead _ here known nonempty full stream =>
    rw [h.toServer x here known] at stream
    exact chunks_ne_nil nonempty full ahead stream.symm
  | handle job tasks head => exact absurd (h.tasks.symm.trans head) nofun
  | drain _ queued => exact queued h.queue
  | command _ _ _ head => exact absurd (h.commands.symm.trans head) nofun
  | sends _ _ _ _ head => exact absurd (h.commands.symm.trans head) nofun
  | write x _ _ _ here asked => exact h.sent x here asked
  | readyRead x chunk ahead nonempty stream =>
    rw [h.toClient x] at stream
    exact nonempty (List.append_eq_nil_iff.mp stream.symm).1

/-- The network stops only when nothing is left to do, and then it does. -/
theorem atRest_iff {n : Network} : n.AtRest ↔ ∀ e, n.transfer e = none :=
  ⟨AtRest.stuck, atRest_of_stuck⟩

end Network

end Cvcn
