import Cvcn.Net.Closing
import Cvcn.Net.Registrations
import Cvcn.Net.Sockets

/-!
# What needs attention

A client's number is reported once for what happens to it. The server drains a socket until `recv`
has nothing more and flushes a queue until `send` takes no more, and it changes the mask, which
makes epoll look again, before it relies on `EPOLLOUT`. So whatever an open session still has to
read, to resume or to find out is on epoll's list or in the batch that the main thread works off,
unless epoll has never been told of it or a flush has ended with an error.
-/

namespace Cvcn

open Machine Readiness Framing

/-- The item is about the number, and it will make the server attend to this. -/
def Item.tells : Item → Fd → Kind → Prop
  | .event e, fd, k => e.fd = fd ∧ (e.failed = true ∨
      match k with
      | .readable => e.readable = true
      | .writable => e.writable = true
      | .failed => False)
  | .writable fd', fd, k => fd' = fd ∧ k = .writable

/-- The packets that the session's sender has been given. -/
def Server.packetsSent (s : Server) (x : SessionId) : List Bytes :=
  (s.record.sent.filter (·.2.1 == x)).map (·.2.2)

namespace Server

/-- The session is in the map under the number and is not closed. -/
structure Holds (s : Server) (fd : Fd) (x : SessionId) : Prop where
  here : s.sessions fd = some x
  opened : (s.obj x).closed = false

variable {s t : Server} {lfd efd fd : Fd} {x : SessionId} {missing : List SessionId}

/-- A client's number that epoll watches is that of an open session. -/
theorem Held.holds (held : Held lfd efd missing s) (listening : fd ≠ s.listenFd)
    (waking : fd ≠ s.eventFd) (known : (s.epoll fd).isSome = true) : ∃ x, s.Holds fd x := by
  rw [held.registered] at known
  rcases known with e | e | ⟨x, here, opened, -⟩
  · exact absurd e listening
  · exact absurd e waking
  · exact ⟨x, here, opened⟩

theorem Holds.watched (holds : s.Holds fd x) (held : Held lfd efd missing s)
    (known : (s.epoll fd).isSome = true) : x ∉ missing := by
  rw [held.registered] at known
  obtain ⟨listening, waking⟩ := held.apart fd x holds.here
  rcases known with e | e | ⟨y, here, -, watched⟩
  · exact absurd e listening
  · exact absurd e waking
  · rwa [Option.some.inj (holds.here.symm.trans here)]

theorem Holds.registered (holds : s.Holds fd x) (held : Held lfd efd missing s)
    (watched : x ∉ missing) : (s.epoll fd).isSome = true := by
  rw [held.registered]
  exact .inr (.inr ⟨x, holds.here, holds.opened, watched⟩)

/-- The number is that of no client. -/
theorem Held.main_registered (held : Held lfd efd missing s)
    (main : fd = s.listenFd ∨ fd = s.eventFd) : (s.epoll fd).isSome = true := by
  rw [held.registered]
  rcases main with e | e
  · exact .inl e
  · exact .inr (.inl e)

/-- An open session that is spared was open before and is watched as it was. -/
theorem Spares.holds (spares : Spares s t) (holds : t.Holds fd x) : s.Holds fd x where
  here := spares.sessions fd x holds.here
  opened := spares.closed x holds.opened

theorem Spares.mask (spares : Spares s t) (known : (t.epoll fd).isSome = true) :
    t.epoll fd = s.epoll fd := by
  rcases spares.epoll fd with same | none
  · exact same
  · rw [none] at known
    cases known

theorem Spares.packetsSent (spares : Spares s t) (x : SessionId) :
    t.packetsSent x = s.packetsSent x := by
  rw [Server.packetsSent, Server.packetsSent, spares.sent]

end Server

namespace Host

/-- The number is a client's that epoll watches, and there is something to do for it. A flush that
has ended with an error of `send` need not be resumed. -/
def Needs (h : Host) (fd : Fd) (k : Kind) : Prop :=
  (fd ≠ h.server.listenFd ∧ fd ≠ h.server.eventFd ∧ (h.server.epoll fd).isSome = true) ∧
    match k with
    | .failed => (h.sockets fd).failed = true
    | .readable => (h.sockets fd).failed = false ∧
        ((h.sockets fd).unread ≠ [] ∨ (h.sockets fd).ended = true)
    | .writable => ((h.sockets fd).failed = false ∧ (h.sockets fd).stalled = false) ∧
        h.server.epoll fd = some .write ∧ (h.sockets fd).writable = true

/-- The main thread will come to it in its batch. -/
def InHand (h : Host) (fd : Fd) (k : Kind) : Prop := ∃ item ∈ h.server.batch, item.tells fd k

/-- Whatever there is to do is on epoll's list or in the batch, as long as the event loop runs. -/
structure Remembered (h : Host) : Prop where
  clients : h.server.phase = .eventLoop → Covered h.Needs h.ready h.InHand
  listening : h.backlog ≠ [] → h.server.listenFd ∈ h.ready
  waking : h.notified = true → h.server.eventFd ∈ h.ready

/-- What goes through the socket of an open session, and what its sender waits for. -/
structure Flows (h : Host) (fd : Fd) (x : SessionId) : Prop where
  armed : (h.sockets fd).failed = false → (h.sockets fd).stalled = false → x ∉ h.unwatched →
    (h.server.obj x).sender.Armed (h.server.epoll fd)
  input : h.observed.received x ++ (h.sockets fd).unread = (h.sockets fd).arrived
  fits : packets.refuses tooLarge (h.observed.received x) = false
  output : (h.sockets fd).accepted ++ (h.server.obj x).sender.sendQueue.flatten =
    (h.server.packetsSent x).flatten

/-- What holds in every state of a run. -/
structure HostInv (lfd efd : Fd) (h : Host) : Prop extends Remembered h where
  held : Server.Held lfd efd h.unwatched h.server
  apart : lfd ≠ efd
  exec : Observed.ExecInv h.observed
  nodup : h.ready.Nodup
  listed : ∀ fd ∈ h.ready, (h.server.epoll fd).isSome = true
  waiting : ∀ c ∈ h.backlog, c.arrived = c.unread ∧ c.accepted = []
  flows : ∀ fd x, h.server.Holds fd x → h.Flows fd x
  unsent : ∀ x, h.server.shared.next ≤ x → h.server.packetsSent x = []

variable {lfd efd fd : Fd} {x : SessionId} {h h' : Host}

/-- From one state to the next an open session has read nothing, or all that had arrived. -/
def Passes (h h' : Host) (fd : Fd) (x : SessionId) : Prop :=
  (h'.sockets fd = h.sockets fd ∧ h'.observed.received x = h.observed.received x) ∨
  (h'.sockets fd = (h.sockets fd).read ∧
    h'.observed.received x = h.observed.received x ++ (h.sockets fd).unread ∧
    (h.sockets fd).ended = false ∧ (h.sockets fd).failed = false ∧
    packets.refuses tooLarge (h'.observed.received x) = false)

theorem Flows.spared (flows : h.Flows fd x) (spares : Server.Spares h.server h'.server)
    (unwatched : h'.unwatched = h.unwatched)
    (mask : x ∉ h'.unwatched → h'.server.epoll fd = h.server.epoll fd)
    (opened : (h'.server.obj x).closed = false) (passes : h.Passes h' fd x) : h'.Flows fd x := by
  have sender := spares.sender x opened
  have sent := spares.packetsSent x
  have armed (failed : (h'.sockets fd).failed = (h.sockets fd).failed)
      (stalled : (h'.sockets fd).stalled = (h.sockets fd).stalled) :
      (h'.sockets fd).failed = false → (h'.sockets fd).stalled = false → x ∉ h'.unwatched →
        (h'.server.obj x).sender.Armed (h'.server.epoll fd) := by
    intro sound goes watched
    rw [sender, mask watched]
    exact flows.armed (failed ▸ sound) (stalled ▸ goes) (unwatched ▸ watched)
  rcases passes with ⟨socket, received⟩ | ⟨socket, received, -, -, fits⟩
  · constructor
    · exact armed (by rw [socket]) (by rw [socket])
    · rw [socket, received]
      exact flows.input
    · rw [received]
      exact flows.fits
    · rw [socket, sender, sent]
      exact flows.output
  · constructor
    · exact armed (by rw [socket]; rfl) (by rw [socket]; rfl)
    · rw [socket, received, List.append_assoc]
      have all := flows.input
      simpa [Socket.read] using all
    · exact fits
    · rw [socket, sender, sent]
      exact flows.output

/-- A session that has read everything needs to read no more. -/
theorem Needs.spared {k : Kind} (needs : h'.Needs fd k)
    (spares : Server.Spares h.server h'.server) (held : Server.Held lfd efd h.unwatched h.server)
    (held' : Server.Held lfd efd h'.unwatched h'.server) (passes : h.Passes h' fd x) :
    h.Needs fd k := by
  obtain ⟨⟨listening, waking, known⟩, needs⟩ := needs
  have mask := spares.mask known
  refine ⟨⟨?_, ?_, ?_⟩, ?_⟩
  · rwa [held.listening, ← held'.listening]
  · rwa [held.waking, ← held'.waking]
  · rwa [← mask]
  · rcases passes with ⟨socket, -⟩ | ⟨socket, -, ended, failed, -⟩
    · rw [socket, mask] at needs
      exact needs
    · rw [socket, mask] at needs
      cases k with
      | failed => exact needs
      | writable => exact needs
      | readable =>
        rcases needs.2 with unread | end'
        · exact absurd rfl unread
        · cases ended.symm.trans end'

/-- A step that spares the masks and senders of open sessions. -/
theorem HostInv.spared (inv : HostInv lfd efd h) (spares : Server.Spares h.server h'.server)
    (unwatched : h'.unwatched = h.unwatched)
    (held : Server.Held lfd efd h'.unwatched h'.server) (exec : Observed.ExecInv h'.observed)
    (next : h.server.shared.next ≤ h'.server.shared.next) (backlog : h'.backlog = h.backlog)
    (nodup : h'.ready.Nodup) (listed : ∀ fd ∈ h'.ready, (h'.server.epoll fd).isSome = true)
    (kept : ∀ fd ∈ h.ready, (h'.server.epoll fd).isSome = true → fd ∈ h'.ready)
    (notified : h'.notified = true → h.notified = true ∨ efd ∈ h'.ready)
    (passes : ∀ fd x, h'.server.Holds fd x → h.Passes h' fd x)
    (hand : h'.server.phase = .eventLoop → h.server.phase = .eventLoop ∧
      ∀ fd x k, h'.server.Holds fd x → h'.Needs fd k → h.InHand fd k → h'.InHand fd k) :
    HostInv lfd efd h' := by
  constructor
  · constructor
    · intro loop
      obtain ⟨before, worked⟩ := hand loop
      refine (inv.clients before).handle ?_ ?_ ?_
      · intro fd k needs listed
        exact kept fd listed needs.1.2.2
      · intro fd k needs
        obtain ⟨x, holds⟩ := held.holds needs.1.1 needs.1.2.1 needs.1.2.2
        exact .inl (needs.spared spares inv.held held (passes fd x holds))
      · intro fd k needs inHand
        obtain ⟨x, holds⟩ := held.holds needs.1.1 needs.1.2.1 needs.1.2.2
        exact .inl (worked fd x k holds needs inHand)
    · intro some
      have here := inv.listening (backlog ▸ some)
      rw [inv.held.listening, ← held.listening] at here
      exact kept _ here (held.main_registered (.inl rfl))
    · intro some
      rcases notified some with before | here
      · have here := inv.waking before
        rw [inv.held.waking, ← held.waking] at here
        exact kept _ here (held.main_registered (.inr rfl))
      · rw [held.waking]
        exact here
  · exact held
  · exact inv.apart
  · exact exec
  · exact nodup
  · exact listed
  · rw [backlog]
    exact inv.waiting
  · intro fd x holds
    exact (inv.flows fd x (spares.holds holds)).spared spares unwatched
      (fun watched => spares.mask (holds.registered held watched)) holds.opened (passes fd x holds)
  · intro x new
    rw [spares.packetsSent]
    exact inv.unsent x (Nat.le_trans next new)

/-- The call of the session's sender, on what the kernel answers for its socket. -/
def callOn (h : Host) (fails : Option Nat) (fd : Fd) (x : SessionId) (packet : Option Bytes) :
    SenderCall :=
  .make packet ((h.sockets fd).sends fails (h.flushed x packet))

/-- What epoll is told once the call has been made, if it knows the number. -/
def asked (h : Host) (fails : Option Nat) (fd : Fd) (x : SessionId) (packet : Option Bytes) :
    Option EpollMask :=
  ((h.server.obj x).sender.call (h.callOn fails fd x packet)).2

/-- A step that calls the sender of an open session, and makes epoll look again if it modifies the
mask. -/
structure Calls (h h' : Host) (fails : Option Nat) (fd : Fd) (x : SessionId)
    (packet : Option Bytes) : Prop where
  holds : h.server.Holds fd x
  sender : ∀ y, (h'.server.obj y).sender =
    if y = x then ((h.server.obj x).sender.call (h.callOn fails fd x packet)).1
    else (h.server.obj y).sender
  closed : ∀ y, (h'.server.obj y).closed = (h.server.obj y).closed
  sessions : h'.server.sessions = h.server.sessions
  next : h'.server.shared.next = h.server.shared.next
  epoll : h'.server.epoll = Function.update h.server.epoll fd
    ((h.server.epoll fd).map (h.asked fails fd x packet).getD)
  unwatched : h'.unwatched = h.unwatched
  sent : ∀ y, h'.server.packetsSent y =
    h.server.packetsSent y ++ if y = x then packet.toList else []
  received : h'.observed.received = h.observed.received
  sockets : h'.sockets = Function.update h.sockets fd
    ((h.sockets fd).called (h.server.obj x).sender (h.callOn fails fd x packet))
  backlog : h'.backlog = h.backlog
  notified : h'.notified = h.notified
  kept : ∀ g ∈ h.ready, (h'.server.epoll g).isSome = true → g ∈ h'.ready
  looked : (h.asked fails fd x packet).isSome = true → (h'.poll fd).isSome = true → fd ∈ h'.ready

section

variable {fails : Option Nat} {packet : Option Bytes}

theorem Calls.holds_iff (calls : h.Calls h' fails fd x packet) (g : Fd) (y : SessionId) :
    h'.server.Holds g y ↔ h.server.Holds g y := by
  constructor
  · rintro ⟨here, opened⟩
    exact ⟨calls.sessions ▸ here, calls.closed y ▸ opened⟩
  · rintro ⟨here, opened⟩
    exact ⟨calls.sessions ▸ here, (calls.closed y).trans opened⟩

theorem Calls.registered (calls : h.Calls h' fails fd x packet) (g : Fd) :
    (h'.server.epoll g).isSome = (h.server.epoll g).isSome := by
  rw [calls.epoll]
  by_cases e : g = fd
  · rw [e, Function.update_self, Option.isSome_map]
  · rw [Function.update_of_ne e]

/-- What the sender called needs is what it needed before, or epoll has been made to look. -/
theorem Calls.covered (calls : h.Calls h' fails fd x packet) (inv : HostInv lfd efd h)
    (held : Server.Held lfd efd h'.unwatched h'.server)
    (before : Covered h.Needs h.ready h.InHand)
    (hand : ∀ g k, h.InHand g k →
      h'.InHand g k ∨ (g = fd ∧ k = .writable ∧ packet = none)) :
    Covered h'.Needs h'.ready h'.InHand := by
  have registered := calls.registered
  have client {g : Fd} {k : Kind} (needs : h'.Needs g k) : g ≠ h.server.listenFd ∧
      g ≠ h.server.eventFd ∧ (h.server.epoll g).isSome = true := by
    obtain ⟨⟨listening, waking, watched⟩, -⟩ := needs
    rw [held.listening, ← inv.held.listening] at listening
    rw [held.waking, ← inv.held.waking] at waking
    exact ⟨listening, waking, registered g ▸ watched⟩
  -- what was needed before is listed or in hand, unless it is this call that was in hand
  have old {g : Fd} {k : Kind} (needs : h'.Needs g k) (past : h.Needs g k)
      (other : g = fd → k = .writable → packet ≠ none) : g ∈ h'.ready ∨ h'.InHand g k := by
    rcases before g k past with listed | inHand
    · exact .inl (calls.kept g listed needs.1.2.2)
    · rcases hand g k inHand with inHand | ⟨e, kind, none⟩
      · exact .inr inHand
      · exact absurd none (other e kind)
  intro g k needs
  by_cases e : g = fd
  · subst e
    have socket : h'.sockets g = (h.sockets g).called (h.server.obj x).sender
        (h.callOn fails g x packet) := by
      rw [calls.sockets, Function.update_self]
    have state := needs.2
    rw [socket] at state
    cases k with
    | failed => exact old needs ⟨client needs, state⟩ nofun
    | readable => exact old needs ⟨client needs, state⟩ nofun
    | writable =>
      obtain ⟨⟨sound, goes⟩, mask, room⟩ := state
      cases asked : h.asked fails g x packet with
      | some m =>
        refine .inl (calls.looked (by rw [asked]; rfl) ?_)
        obtain ⟨⟨listening, waking, watched⟩, -⟩ := needs
        simp only [poll, look, if_neg listening, if_neg waking, socket, mask, room]
        simp
      | none =>
        obtain ⟨some, before, nothing⟩ := PacketSender.call_silent goes asked
        have none : packet ≠ none := by
          rintro rfl
          cases some
        have same : h'.server.epoll g = h.server.epoll g := by
          rw [calls.epoll, Function.update_self, asked]
          cases h.server.epoll g <;> rfl
        rw [same] at mask
        have taken : (h.server.obj x).sender.takenByCall (h.callOn fails g x packet) = [] := nothing
        rw [Socket.called, taken] at room
        exact old needs ⟨client needs, ⟨sound, before⟩, mask, room⟩ fun _ _ => none
  · have socket : h'.sockets g = h.sockets g := by rw [calls.sockets, Function.update_of_ne e]
    have mask : h'.server.epoll g = h.server.epoll g := by
      rw [calls.epoll, Function.update_of_ne e]
    have state := needs.2
    rw [socket, mask] at state
    exact old needs ⟨client needs, state⟩ fun same => absurd same e

theorem Calls.flows (calls : h.Calls h' fails fd x packet) (inv : HostInv lfd efd h) {g : Fd}
    {y : SessionId} (holds : h'.server.Holds g y) : h'.Flows g y := by
  have holds := (calls.holds_iff g y).mp holds
  have flows := inv.flows g y holds
  by_cases e : y = x
  · subst e
    obtain rfl : g = fd := inv.held.entry_unique calls.holds.here holds.here
    have socket : h'.sockets g = (h.sockets g).called (h.server.obj y).sender
        (h.callOn fails g y packet) := by
      rw [calls.sockets, Function.update_self]
    have sender := calls.sender y
    rw [if_pos rfl] at sender
    constructor
    · intro sound goes watched
      rw [calls.unwatched] at watched
      rw [socket] at sound goes
      have known := Option.isSome_iff_ne_none.mp (holds.registered inv.held watched)
      rw [sender, calls.epoll, Function.update_self, Server.map_getD_eq_or known]
      exact PacketSender.armed_call (fun before => flows.armed sound before watched) goes
    · rw [socket, calls.received]
      exact flows.input
    · rw [calls.received]
      exact flows.fits
    · have bytes := (h.server.obj y).sender.call_bytes (h.callOn fails g y packet)
      have output := flows.output
      rw [socket, sender, calls.sent, if_pos rfl, List.flatten_append, ← output]
      have given := PacketSender.given_make packet ((h.sockets g).sends fails (h.flushed y packet))
      rw [callOn, given] at bytes
      simp only [Socket.called, Socket.take, List.append_assoc]
      exact congrArg _ bytes
  · have ne : g ≠ fd := by
      rintro rfl
      exact e (Option.some.inj (holds.here.symm.trans calls.holds.here))
    have socket : h'.sockets g = h.sockets g := by rw [calls.sockets, Function.update_of_ne ne]
    have mask : h'.server.epoll g = h.server.epoll g := by
      rw [calls.epoll, Function.update_of_ne ne]
    have sender := calls.sender y
    rw [if_neg e] at sender
    constructor
    · rw [socket, sender, mask, calls.unwatched]
      exact flows.armed
    · rw [socket, calls.received]
      exact flows.input
    · rw [calls.received]
      exact flows.fits
    · rw [socket, sender, calls.sent, if_neg e, List.append_nil]
      exact flows.output

theorem HostInv.calls (inv : HostInv lfd efd h) (calls : h.Calls h' fails fd x packet)
    (held : Server.Held lfd efd h'.unwatched h'.server)
    (exec : Observed.ExecInv h'.observed) (nodup : h'.ready.Nodup)
    (listed : ∀ g ∈ h'.ready, (h'.server.epoll g).isSome = true)
    (phase : h'.server.phase = h.server.phase)
    (hand : ∀ g k, h.InHand g k →
      h'.InHand g k ∨ (g = fd ∧ k = .writable ∧ packet = none)) : HostInv lfd efd h' := by
  constructor
  · constructor
    · intro loop
      exact calls.covered inv held (inv.clients (phase ▸ loop)) hand
    · intro some
      have here := inv.listening (calls.backlog ▸ some)
      rw [inv.held.listening, ← held.listening] at here
      exact calls.kept _ here (held.main_registered (.inl rfl))
    · intro some
      have here := inv.waking (calls.notified ▸ some)
      rw [inv.held.waking, ← held.waking] at here
      exact calls.kept _ here (held.main_registered (.inr rfl))
  · exact held
  · exact inv.apart
  · exact exec
  · exact nodup
  · exact listed
  · rw [calls.backlog]
    exact inv.waiting
  · exact fun g y holds => calls.flows inv holds
  · intro y new
    rw [calls.next] at new
    have known := (inv.held.numbered fd x calls.holds.here).1
    have other : y ≠ x := by
      rintro rfl
      exact absurd known (Nat.not_lt.mpr new)
    rw [calls.sent, if_neg other, List.append_nil]
    exact inv.unsent y new

end

end Host

end Cvcn
