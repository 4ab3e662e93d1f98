import Cvcn.Net.Attention

/-!
# Nothing that is ready is forgotten

Every step of the server on its kernel, of the main thread, of a worker or outside the program,
leaves what needs attention on epoll's list or in the batch, and what goes through the sockets of
open sessions in order.
-/

namespace Cvcn

open Machine Readiness Framing

namespace Host

variable {lfd efd fd : Fd} {x : SessionId} {h h' : Host}

/-- Epoll watches a number that it has something to report of. -/
theorem poll_known (polled : (h.poll fd).isSome = true) : (h.server.epoll fd).isSome = true := by
  by_contra unknown
  simp [poll, unknown] at polled

/-- `h'` is `h`, but that the number has been put on the list if there was a reason. -/
structure Signals (h h' : Host) (fd : Fd) (reason : Prop) : Prop where
  same : h' = { h with ready := h'.ready }
  mem : ∀ g, g ∈ h'.ready ↔ g ∈ h.ready ∨ g = fd ∧ reason
  nodup : h.ready.Nodup → h'.ready.Nodup

theorem signals_signal (h : Host) (fd : Fd) :
    Signals h (h.signal fd) fd ((h.server.epoll fd).isSome = true) := by
  by_cases known : (h.server.epoll fd).isSome = true
  · rw [signal, if_pos known]
    refine ⟨rfl, fun g => ?_, nodup_signal⟩
    rw [mem_signal, or_comm]
    simp [known]
  · rw [signal, if_neg known]
    exact ⟨rfl, fun g => by simp [known], id⟩

theorem signals_recheck (h : Host) (fd : Fd) :
    Signals h (h.recheck fd) fd ((h.poll fd).isSome = true) := by
  by_cases polled : (h.poll fd).isSome = true
  · rw [recheck, if_pos polled]
    have known := poll_known polled
    have signals := h.signals_signal fd
    refine ⟨signals.same, fun g => ?_, signals.nodup⟩
    rw [signals.mem]
    simp [known, polled]
  · rw [recheck, if_neg polled]
    exact ⟨rfl, fun g => by simp [polled], id⟩

/-- Epoll looks at the number that it is told of, if it is told of any. -/
theorem settled_signals (h : Host) (k : Kernel) (o : Observed) :
    ∃ fd reason, Signals (h.changed k o) (h.settled k o) fd reason ∧
      (reason → h.rechecked k = some fd ∧ ((h.changed k o).poll fd).isSome = true) := by
  unfold settled
  cases told : h.rechecked k with
  | none => exact ⟨0, False, ⟨rfl, fun g => by simp, id⟩, False.elim⟩
  | some fd => exact ⟨fd, _, signals_recheck _ fd, fun polled => ⟨rfl, polled⟩⟩

/-! ## The steps of the main thread -/

/-- What is known of the server after a step of the main thread. -/
structure Leads (lfd efd : Fd) (h : Host) (k : Kernel) (o : Observed) : Prop where
  held : Server.Held lfd efd (h.unwatched ++ h.server.missed (.main k)) o.server
  exec : Observed.ExecInv o
  next : h.server.shared.next ≤ o.server.shared.next
  heard : o.received = h.observed.hears (.main k)

section

variable {k : Kernel} {o : Observed}

theorem changed_nodup (inv : HostInv lfd efd h) : (h.changed k o).ready.Nodup := inv.nodup.filter _

theorem changed_listed : ∀ g ∈ (h.changed k o).ready, (o.server.epoll g).isSome = true :=
  fun _ here => (List.mem_filter.mp here).2

theorem changed_unwatched (accepted : h.server.accepted (.main k) = none) :
    (h.changed k o).unwatched = h.unwatched := by
  simp only [changed, Server.missed_eq, accepted, Option.isSome_none, Bool.false_and,
    Bool.false_eq_true, if_false, List.append_nil]

theorem changed_kept {g : Fd} (here : g ∈ h.ready) (known : (o.server.epoll g).isSome = true) :
    g ∈ (h.changed k o).ready :=
  List.mem_filter.mpr ⟨here, known⟩

end

/-- A step that spares the masks and senders of open sessions, and makes epoll look at nothing. -/
theorem HostInv.sparing (inv : HostInv lfd efd h) {k : Kernel} {o : Observed}
    (accepted : h.server.accepted (.main k) = none)
    (quiet : h.settled k o = h.changed k o) (spares : Server.Spares h.server o.server)
    (leads : h.Leads lfd efd k o)
    (passes : ∀ fd x, o.server.Holds fd x → h.Passes (h.changed k o) fd x)
    (hand : o.server.phase = .eventLoop → h.server.phase = .eventLoop ∧
      ∀ fd x kind, o.server.Holds fd x → (h.changed k o).Needs fd kind → h.InHand fd kind →
        ∃ item ∈ o.server.batch, item.tells fd kind) : HostInv lfd efd (h.settled k o) := by
  rw [quiet]
  refine inv.spared spares (changed_unwatched accepted) leads.held leads.exec leads.next ?_
    (changed_nodup inv) changed_listed (fun _ => changed_kept) .inl passes hand
  simp only [changed, accepted, Option.isSome_none, Bool.false_eq_true, if_false]

/-- The step calls no sender and neither accepts nor reads. -/
theorem HostInv.idle (inv : HostInv lfd efd h) {k : Kernel} {o : Observed}
    (accepted : h.server.accepted (.main k) = none) (reads : h.server.reads (.main k) = none)
    (calls : h.server.calls = none) (spares : Server.Spares h.server o.server)
    (leads : h.Leads lfd efd k o)
    (hand : o.server.phase = .eventLoop → h.server.phase = .eventLoop ∧
      ∀ fd kind, (h.changed k o).Needs fd kind → h.InHand fd kind →
        ∃ item ∈ o.server.batch, item.tells fd kind) : HostInv lfd efd (h.settled k o) := by
  have quiet : h.settled k o = h.changed k o := by simp only [settled, rechecked, accepted, calls]
  have sockets : (h.changed k o).sockets = h.sockets := by
    simp only [changed, socketsAfter, accepted, reads, calls]
  have received : o.received = h.observed.received := by
    have reads' : h.observed.server.reads (.main k) = none := reads
    rw [leads.heard]
    simp only [Observed.hears, reads']
  refine inv.sparing accepted quiet spares leads ?_ ?_
  · exact fun fd x _ => .inl ⟨by rw [sockets], congrFun received x⟩
  · intro loop
    obtain ⟨before, worked⟩ := hand loop
    exact ⟨before, fun fd x kind _ => worked fd kind⟩

/-- What the first item of a batch told is done, and the rest is still in hand. -/
theorem InHand.cons {kind : Kind} (inHand : h.InHand fd kind) {item : Item} {batch : List Item}
    (head : h.server.batch = item :: batch) :
    item.tells fd kind ∨ ∃ item ∈ batch, item.tells fd kind := by
  obtain ⟨found, here, tells⟩ := inHand
  rw [head] at here
  rcases List.mem_cons.mp here with rfl | here
  · exact .inl tells
  · exact .inr ⟨found, here, tells⟩

/-- An event that does not report an error leaves all behind but its `EPOLLIN`. -/
theorem InHand.left {kind : Kind} (inHand : h.InHand fd kind) {e : EpollEvent}
    {batch : List Item} (head : h.server.batch = .event e :: batch) (fine : e.failed = false) :
    (∃ item ∈ Server.leftBy e batch, item.tells fd kind) ∨
      (e.fd = fd ∧ kind = .readable ∧ e.readable = true) := by
  rcases inHand.cons head with ⟨same, tells⟩ | ⟨item, here, tells⟩
  · have tells := tells.resolve_left (by rw [fine]; exact Bool.false_ne_true)
    cases kind with
    | readable => exact .inr ⟨same, rfl, tells⟩
    | failed => exact absurd tells id
    | writable =>
      refine .inl ⟨.writable e.fd, ?_, same, rfl⟩
      rw [Server.leftBy, if_pos tells]
      exact List.mem_cons_self
  · refine .inl ⟨item, ?_, tells⟩
    unfold Server.leftBy
    split
    · exact List.mem_cons_of_mem _ here
    · exact here

/-- A number whose error has been handled is watched no longer. -/
theorem failed_unwatched {s t : Server} {missing : List SessionId}
    (held : Server.Held lfd efd missing t)
    (closing : Server.Closing s t (s.sessions fd)) (spares : Server.Spares s t)
    (listening : fd ≠ t.listenFd) (waking : fd ≠ t.eventFd) : t.epoll fd = none := by
  by_contra known
  obtain ⟨x, holds⟩ := held.holds listening waking (Option.isSome_iff_ne_none.mpr known)
  have closed := closing x
  have before := spares.holds holds
  rw [holds.opened, before.here] at closed
  simp at closed

theorem reads_any {s : Server} {k : Kernel} {recvs : List RecvResult}
    (reads : s.reads (.main k) = some (fd, recvs)) (k' : Kernel) :
    s.reads (.main k') = some (fd, k'.recvs) := by
  simp only [Server.reads] at reads ⊢
  split at reads
  · split at reads
    · rename_i watched
      cases reads
      rw [if_pos watched]
    · cases reads
  · cases reads

/-- A session that a read leaves open has read all that had arrived, of a connection that goes
on. -/
theorem read_passes (inv : HostInv lfd efd h) {m : Moment} {t : Server}
    (reads : h.server.reads (.main (h.kernel m)) = some (fd, (h.kernel m).recvs))
    (holds : t.Holds fd x) (spares : Server.Spares h.server t)
    (closing : Server.Closing h.server t (h.server.readCloses fd (h.kernel m).recvs)) :
    (h.sockets fd).ended = false ∧ (h.sockets fd).failed = false ∧
      ClientSession.received (h.kernel m).recvs = (h.sockets fd).unread ∧
      packets.refuses tooLarge
        (h.observed.received x ++ ClientSession.received (h.kernel m).recvs) = false := by
  have before := spares.holds holds
  have flows := inv.flows fd x before
  have client : h.client fd = true := by
    have opened := (inv.held.numbers fd).mpr (.inr (.inr ⟨x, before.here, before.opened⟩))
    obtain ⟨listening, waking⟩ := inv.held.apart fd x before.here
    simp [Host.client, opened, listening, waking]
  have answers : (h.kernel m).recvs = (h.sockets fd).recvs m.counts := by
    simp only [kernel, reads_any reads, client, if_true]
  have stays : (ClientSession.handleRead x (h.kernel m).recvs
      (h.server.obj x).assembler).2.2 = false := by
    have closed := closing x
    rw [holds.opened, before.opened, Bool.false_or] at closed
    simp only [Server.readCloses, before.here, Option.filter_some, before.opened,
      Bool.false_or] at closed
    by_contra up
    rw [if_pos (Bool.eq_true_of_not_eq_false up)] at closed
    simp at closed
  obtain ⟨all, up⟩ := (h.sockets fd).recvs_received m.counts
  have idle : frontPacket (h.server.obj x).assembler.readBuffer = none := by
    have rest := inv.exec.rest x flows.fits
    have same : (h.server.obj x).assembler.readBuffer = (packets.split
      (h.observed.received x)).2 := rest
    rw [same]
    exact packets.cut_rest _
  have serves : ClientSession.Serves x _ _ (ClientSession.handleRead x (h.kernel m).recvs
      (h.server.obj x).assembler) := ClientSession.handleRead_serves idle
  have close := serves.close
  rw [stays, eq_comm, Bool.or_eq_false_iff, answers, up, Bool.or_eq_false_iff] at close
  obtain ⟨fits, ended, failed⟩ := close
  refine ⟨ended, failed, by rw [answers, all], ?_⟩
  have rest : (h.server.obj x).assembler.readBuffer = (packets.split
    (h.observed.received x)).2 := inv.exec.rest x flows.fits
  rw [Cutter.refuses_append, flows.fits, Bool.false_or, answers, ← rest]
  exact fits

theorem HostInv.reads (inv : HostInv lfd efd h) {m : Moment} {o : Observed} {e : EpollEvent}
    {batch : List Item} (head : h.server.batch = .event e :: batch)
    (loop : h.server.phase = .eventLoop) (fine : e.failed = false)
    (accepted : h.server.accepted (.main (h.kernel m)) = none)
    (reads : h.server.reads (.main (h.kernel m)) = some (e.fd, (h.kernel m).recvs))
    (calls : h.server.calls = none) (leads : h.Leads lfd efd (h.kernel m) o)
    (read : o.server = { h.server with batch := Server.leftBy e batch }.onRead e.fd
      (h.kernel m).recvs) :
    HostInv lfd efd (h.settled (h.kernel m) o) := by
  have quiet : h.settled (h.kernel m) o = h.changed (h.kernel m) o := by
    simp only [settled, rechecked, accepted, calls]
  have spares : Server.Spares h.server o.server := by
    rw [read]
    have taken : Server.Spares h.server { h.server with batch := Server.leftBy e batch } :=
      .of_shared rfl rfl rfl rfl
    exact taken.trans (Server.onRead_spares _ e.fd _)
  have closing : Server.Closing h.server o.server
      (h.server.readCloses e.fd (h.kernel m).recvs) := by
    rw [read]
    exact Server.onRead_closing { h.server with batch := Server.leftBy e batch } e.fd _
  have sockets : (h.changed (h.kernel m) o).sockets =
      Function.update h.sockets e.fd (h.sockets e.fd).read := by
    simp only [changed, socketsAfter, accepted, reads]
  have passes (fd : Fd) (x : SessionId) (holds : o.server.Holds fd x) :
      h.Passes (h.changed (h.kernel m) o) fd x := by
    by_cases same : fd = e.fd
    · subst same
      obtain ⟨ended, failed, all, fits⟩ := read_passes inv reads holds spares closing
      have here := (spares.holds holds).here
      have heard : o.received x = h.observed.received x ++
          ClientSession.received (h.kernel m).recvs := by
        have mine : h.observed.server.sessions e.fd = some x := here
        have read' : h.observed.server.reads (.main (h.kernel m)) =
          some (e.fd, (h.kernel m).recvs) := reads
        rw [leads.heard]
        simp only [Observed.hears, read', mine, Function.update_self]
      right
      refine ⟨by rw [sockets, Function.update_self], ?_, ended, failed, ?_⟩
      · exact heard.trans (by rw [all])
      · exact heard ▸ fits
    · left
      refine ⟨by rw [sockets, Function.update_of_ne same], ?_⟩
      have before := (spares.holds holds).here
      show o.received x = h.observed.received x
      rw [leads.heard]
      have read' : h.observed.server.reads (.main (h.kernel m)) =
        some (e.fd, (h.kernel m).recvs) := reads
      cases here : h.observed.server.sessions e.fd with
      | none => simp only [Observed.hears, read', here]
      | some y =>
        have other : x ≠ y := by
          rintro rfl
          exact same (inv.held.entry_unique here before)
        simp only [Observed.hears, read', here, Function.update_of_ne other]
  refine inv.sparing accepted quiet spares leads passes ?_
  · intro _
    refine ⟨loop, fun fd x kind holds needs inHand => ?_⟩
    have batch' : o.server.batch = Server.leftBy e batch := by
      rw [read]
      exact (Server.onRead_sameLoop _ e.fd _).batch
    rcases inHand.left head fine with ⟨item, here, tells⟩ | ⟨same, rfl, -⟩
    · exact ⟨item, by rw [batch']; exact here, tells⟩
    · subst same
      obtain ⟨ended, -⟩ := read_passes inv reads holds spares closing
      have state := needs.2
      rw [sockets, Function.update_self] at state
      rcases state.2 with unread | ended'
      · exact absurd rfl unread
      · cases ended.symm.trans ended'

/-- Epoll reports an error of a client's number, which is then closed. -/
theorem HostInv.fails (inv : HostInv lfd efd h) {k : Kernel} {o : Observed} {e : EpollEvent}
    {batch : List Item} (head : h.server.batch = .event e :: batch)
    (loop : h.server.phase = .eventLoop) (plain : Server.Plain h.server k)
    (calls : h.server.calls = none) (leads : h.Leads lfd efd k o)
    (closed : o.server = { h.server with batch := batch }.closeOrDefer e.fd) :
    HostInv lfd efd (h.settled k o) := by
  have spares : Server.Spares h.server o.server := by
    rw [closed]
    have taken : Server.Spares h.server { h.server with batch := batch } :=
      .of_shared rfl rfl rfl rfl
    exact taken.trans (Server.closeOrDefer_spares _ e.fd)
  have closing : Server.Closing h.server o.server (h.server.sessions e.fd) := by
    rw [closed]
    exact Server.closeOrDefer_closing { h.server with batch := batch } e.fd
  refine inv.idle plain.accepted plain.reads calls spares leads fun _ => ⟨loop, ?_⟩
  intro fd kind needs inHand
  have batch' : o.server.batch = batch := by
    rw [closed]
    exact (Server.closeOrDefer_sameLoop _ e.fd).batch
  rcases inHand.cons head with tells | left
  · have same : fd = e.fd := by
      cases kind <;> exact tells.1.symm
    subst same
    have unwatched := failed_unwatched leads.held closing spares needs.1.1 needs.1.2.1
    have known : (o.server.epoll e.fd).isSome = true := needs.1.2.2
    rw [unwatched] at known
    cases known
  · rw [batch']
    exact left

/-- An event that the main thread has nothing to do for, or one of its own numbers. -/
theorem HostInv.skips (inv : HostInv lfd efd h) {k : Kernel} {o : Observed} {e : EpollEvent}
    {batch : List Item} (head : h.server.batch = .event e :: batch) (fine : e.failed = false)
    (nothing : e.readable = false ∨ e.fd = h.server.listenFd ∨ e.fd = h.server.eventFd)
    (accepted : h.server.accepted (.main k) = none) (reads : h.server.reads (.main k) = none)
    (calls : h.server.calls = none) (leads : h.Leads lfd efd k o)
    (spares : Server.Spares h.server o.server)
    (loop : o.server.phase = .eventLoop → h.server.phase = .eventLoop ∧
      o.server.batch = Server.leftBy e batch) : HostInv lfd efd (h.settled k o) := by
  refine inv.idle accepted reads calls spares leads fun still => ?_
  obtain ⟨before, batch'⟩ := loop still
  refine ⟨before, fun fd kind needs inHand => ?_⟩
  rcases inHand.left head fine with left | ⟨same, -, readable⟩
  · rw [batch']
    exact left
  · obtain ⟨⟨listening, waking, -⟩, -⟩ := needs
    have listens : o.server.listenFd = h.server.listenFd := by
      rw [leads.held.listening, inv.held.listening]
    have wakes : o.server.eventFd = h.server.eventFd := by
      rw [leads.held.waking, inv.held.waking]
    rcases nothing with silent | accepts | wakened
    · rw [silent] at readable
      cases readable
    · exact absurd (same.symm.trans (accepts.trans listens.symm)) listening
    · exact absurd (same.symm.trans (wakened.trans wakes.symm)) waking

/-- A connection of the backlog becomes a session, and epoll looks at its number. -/
structure Connected (h h' : Host) (fd : Fd) (c : Socket) (fails : Bool) : Prop where
  added : Server.Added h.server h'.server fd fails
  free : h.server.openFds fd = false
  backlog : h.backlog = c :: h'.backlog
  sockets : h'.sockets = Function.update h.sockets fd c
  sent : ∀ y, h'.server.packetsSent y = h.server.packetsSent y
  received : h'.observed.received = h.observed.received
  notified : h'.notified = h.notified
  unwatched : h'.unwatched = h.unwatched ++ if fails then [h.server.shared.next] else []
  kept : ∀ g ∈ h.ready, (h'.server.epoll g).isSome = true → g ∈ h'.ready
  looked : (h'.poll fd).isSome = true → fd ∈ h'.ready

section

variable {c : Socket} {fails : Bool}

theorem Connected.held (conn : h.Connected h' fd c fails) (inv : HostInv lfd efd h) :
    Server.Held lfd efd h'.unwatched h'.server := by
  rw [conn.unwatched]
  exact inv.held.added conn.free conn.added

/-- What a number needs that is not the new one it needed before. -/
theorem Connected.past (conn : h.Connected h' fd c fails) {g : Fd} {k : Kind}
    (needs : h'.Needs g k) (ne : g ≠ fd) : h.Needs g k := by
  obtain ⟨⟨client, other, known⟩, state⟩ := needs
  rw [conn.added.listenFd] at client
  rw [conn.added.eventFd] at other
  rw [conn.added.epoll_of_ne ne] at known state
  rw [conn.sockets, Function.update_of_ne ne] at state
  exact ⟨⟨client, other, known⟩, state⟩

/-- Epoll has looked at the new number when it was told of it. -/
theorem Connected.listed (conn : h.Connected h' fd c fails) (inv : HostInv lfd efd h) {k : Kind}
    (needs : h'.Needs fd k) : fd ∈ h'.ready := by
  apply conn.looked
  obtain ⟨⟨client, other, known⟩, state⟩ := needs
  simp only [poll, look, if_neg client, if_neg other, known, Bool.true_and]
  cases k with
  | failed => simp [show (h'.sockets fd).failed = true from state]
  | readable =>
    rcases state.2 with some | ended
    · simp [Socket.readable, some]
    · simp [Socket.readable, ended]
  | writable =>
    have asked := state.2.1
    rw [conn.added.mask inv.held conn.free known] at asked
    cases asked

theorem Connected.covered (conn : h.Connected h' fd c fails) (inv : HostInv lfd efd h)
    (before : Covered h.Needs h.ready h.InHand)
    (hand : ∀ g k, h.InHand g k → h'.InHand g k ∨ g = h.server.listenFd) :
    Covered h'.Needs h'.ready h'.InHand := by
  intro g k needs
  by_cases e : g = fd
  · subst e
    exact .inl (conn.listed inv needs)
  · have past := conn.past needs e
    rcases before g k past with here | inHand
    · exact .inl (conn.kept g here needs.1.2.2)
    · exact .inr ((hand g k inHand).resolve_right past.1.1)

/-- Nothing has gone through the new session's socket. -/
theorem Connected.flows_new (conn : h.Connected h' fd c fails) (inv : HostInv lfd efd h) :
    h'.Flows fd h.server.shared.next := by
  have fresh : h.observed.received h.server.shared.next = [] := inv.exec.fresh _ (Nat.le_refl _)
  have here := inv.waiting c (by rw [conn.backlog]; exact List.mem_cons_self)
  have socket : h'.sockets fd = c := by rw [conn.sockets, Function.update_self]
  have obj := conn.added.obj h.server.shared.next
  rw [if_pos rfl] at obj
  constructor
  · intro _ _ watched
    have known : (h'.server.epoll fd).isSome = true := by
      rw [conn.added.watched inv.held conn.free]
      by_contra some
      rw [conn.unwatched, if_pos (Bool.eq_true_of_not_eq_false some)] at watched
      exact watched (List.mem_append_right _ List.mem_cons_self)
    rw [obj, conn.added.mask inv.held conn.free known]
    exact ⟨rfl, rfl⟩
  · rw [conn.received, fresh, socket]
    exact here.1.symm
  · rw [conn.received, fresh]
    rfl
  · rw [socket, here.2, obj, conn.sent, inv.unsent _ (Nat.le_refl _)]
    rfl

theorem Connected.flows (conn : h.Connected h' fd c fails) (inv : HostInv lfd efd h) {g : Fd}
    {y : SessionId} (holds : h'.server.Holds g y) : h'.Flows g y := by
  rcases conn.added.entry inv.held holds.here with ⟨rfl, rfl⟩ | ⟨ne, old, here⟩
  · exact conn.flows_new inv
  · have obj := conn.added.obj y
    rw [if_neg old] at obj
    have flows := inv.flows g y ⟨here, obj ▸ holds.opened⟩
    have socket : h'.sockets g = h.sockets g := by rw [conn.sockets, Function.update_of_ne ne]
    constructor
    · intro sound goes watched
      rw [conn.unwatched, List.mem_append, not_or] at watched
      rw [socket] at sound goes
      rw [obj, conn.added.epoll_of_ne ne]
      exact flows.armed sound goes watched.1
    · rw [conn.received, socket]
      exact flows.input
    · rw [conn.received]
      exact flows.fits
    · rw [socket, obj, conn.sent]
      exact flows.output

theorem HostInv.connected (inv : HostInv lfd efd h) (conn : h.Connected h' fd c fails)
    (exec : Observed.ExecInv h'.observed) (nodup : h'.ready.Nodup)
    (listed : ∀ g ∈ h'.ready, (h'.server.epoll g).isSome = true)
    (phase : h'.server.phase = h.server.phase)
    (hand : ∀ g k, h.InHand g k → h'.InHand g k ∨ g = h.server.listenFd) :
    HostInv lfd efd h' := by
  have held := conn.held inv
  constructor
  · constructor
    · exact fun loop => conn.covered inv (inv.clients (phase ▸ loop)) hand
    · intro _
      have here := inv.listening (by rw [conn.backlog]; exact List.cons_ne_nil _ _)
      rw [← conn.added.listenFd] at here
      exact conn.kept _ here (held.main_registered (.inl rfl))
    · intro some
      have here := inv.waking (conn.notified ▸ some)
      rw [← conn.added.eventFd] at here
      exact conn.kept _ here (held.main_registered (.inr rfl))
  · exact held
  · exact inv.apart
  · exact exec
  · exact nodup
  · exact listed
  · intro d here
    exact inv.waiting d (by rw [conn.backlog]; exact List.mem_cons_of_mem _ here)
  · exact fun g y holds => conn.flows inv holds
  · intro y new
    rw [conn.sent]
    rw [conn.added.next] at new
    exact inv.unsent y (Nat.le_of_succ_le new)

end

/-- The main thread accepts a connection. -/
theorem HostInv.accepts (inv : HostInv lfd efd h) {m : Moment} {o : Observed} {e : EpollEvent}
    {batch : List Item} (head : h.server.batch = .event e :: batch) (fine : e.failed = false)
    (listening : e.fd = h.server.listenFd) (given : (h.kernel m).accepted = some fd)
    (number : h.server.accepted (.main (h.kernel m)) = some fd)
    (free : h.server.openFds fd = false) (leads : h.Leads lfd efd (h.kernel m) o)
    (unread : h.server.reads (.main (h.kernel m)) = none)
    (server : o.server = ({ h.server with
      batch := Server.leftBy e batch
      openFds := Function.update h.server.openFds fd true }.addFileDescriptor fd .read
        m.addFails).onNewConnection fd) :
    HostInv lfd efd (h.settled (h.kernel m) o) := by
  have looks : h.settled (h.kernel m) o = (h.changed (h.kernel m) o).recheck fd := by
    simp only [settled, rechecked, number]
  have signals := (h.changed (h.kernel m) o).signals_recheck fd
  rw [← looks] at signals
  generalize h.settled (h.kernel m) o = h' at signals
  have server' : h'.server = o.server := congrArg Host.server signals.same
  obtain ⟨c, backlog, waits⟩ : ∃ c backlog, h.backlog = c :: backlog := by
    cases waits : h.backlog with
    | nil => simp [kernel, waits] at given
    | cons c backlog => exact ⟨c, backlog, rfl⟩
  have added : Server.Added h.server h'.server fd m.addFails := by
    rw [server', server]
    exact ⟨rfl, rfl, Server.onNewConnection_obj _ fd, rfl, rfl, rfl, rfl, rfl⟩
  have conn : h.Connected h' fd c m.addFails := by
    refine ⟨added, free, ?_, ?_, fun y => ?_, ?_, ?_, ?_, fun g here known => ?_, fun polled => ?_⟩
    · rw [waits, signals.same]
      simp only [changed, number, Option.isSome_some, if_true, waits, List.tail_cons]
    · rw [signals.same]
      simp only [changed, socketsAfter, number, waits, List.headD_cons]
    · rw [server', server]
      rfl
    · have reads' : h.observed.server.reads (.main (h.kernel m)) = none := unread
      rw [signals.same]
      show o.received = h.observed.received
      rw [leads.heard]
      simp only [Observed.hears, reads']
    · rw [signals.same]
      rfl
    · have fails : (h.kernel m).addFails = m.addFails := rfl
      rw [signals.same]
      simp only [changed, Server.missed_eq, number, fails, Option.isSome_some, Bool.true_and]
    · exact (signals.mem g).mpr (.inl (changed_kept here (server' ▸ known)))
    · rw [signals.same] at polled
      exact (signals.mem fd).mpr (.inr ⟨rfl, polled⟩)
  refine inv.connected conn ?_ (signals.nodup (changed_nodup inv)) ?_ ?_ ?_
  · rw [signals.same]
    exact leads.exec
  · intro g here
    rcases (signals.mem g).mp here with old | ⟨rfl, polled⟩
    · rw [server']
      exact changed_listed g old
    · rw [server']
      exact poll_known polled
  · rw [server', server]
    rfl
  · intro g k inHand
    have batch' : h'.server.batch = Server.leftBy e batch := by
      rw [server', server]
      rfl
    rcases inHand.left head fine with left | ⟨same, -⟩
    · exact .inl (by rw [InHand, batch']; exact left)
    · exact .inr (same.symm.trans listening)

/-- The kernel answers a call of the sender of an open session for its socket. -/
theorem kernel_call (inv : HostInv lfd efd h) {m : Moment} {packet : Option Bytes}
    (holds : h.server.Holds fd x) (calls : h.server.calls = some (x, packet)) :
    SenderCall.make packet (h.kernel m).sends = h.callOn m.sendFails fd x packet := by
  have number := (inv.held.numbered fd x holds.here).2.1
  simp only [kernel, calls, holds.opened, Bool.false_eq_true, if_false, number, callOn]

/-- The step of the main thread calls the sender of an open session. -/
structure Sends (lfd efd : Fd) (h : Host) (m : Moment) (o : Observed) (fd : Fd) (x : SessionId)
    (packet : Option Bytes) : Prop extends Leads lfd efd h (h.kernel m) o where
  holds : h.server.Holds fd x
  accepted : h.server.accepted (.main (h.kernel m)) = none
  reads : h.server.reads (.main (h.kernel m)) = none
  calls : h.server.calls = some (x, packet)
  shared : o.server.shared = h.server.shared.setSession x { h.server.obj x with
    sender := ((h.server.obj x).sender.call (h.callOn m.sendFails fd x packet)).1 }
  epoll : o.server.epoll = Function.update h.server.epoll fd
    ((h.server.epoll fd).map (h.asked m.sendFails fd x packet).getD)
  sessions : o.server.sessions = h.server.sessions
  phase : o.server.phase = h.server.phase
  sent : ∀ y, o.server.packetsSent y =
    h.server.packetsSent y ++ if y = x then packet.toList else []

/-- Epoll looks at the number of the session if the sender has asked for it. -/
theorem Sends.signals {m : Moment} {o : Observed} {packet : Option Bytes}
    (sends : h.Sends lfd efd m o fd x packet) (inv : HostInv lfd efd h) :
    ∃ reason, Signals (h.changed (h.kernel m) o) (h.settled (h.kernel m) o) fd reason ∧
      ((h.asked m.sendFails fd x packet).isSome = true →
        ((h.changed (h.kernel m) o).poll fd).isSome = true → reason) ∧
      (reason → ((h.changed (h.kernel m) o).poll fd).isSome = true) := by
  have make := kernel_call inv (m := m) sends.holds sends.calls
  have number := (inv.held.numbered fd x sends.holds.here).2.1
  simp only [settled, rechecked, sends.accepted, sends.calls, make, number]
  by_cases asks : (h.asked m.sendFails fd x packet).isSome = true
  · rw [asked] at asks
    simp only [asked, asks, if_true]
    exact ⟨_, signals_recheck _ fd, fun _ polled => polled, id⟩
  · rw [asked] at asks
    simp only [asked, asks]
    exact ⟨False, ⟨rfl, fun g => by simp, id⟩, nofun, False.elim⟩

theorem Sends.called {m : Moment} {o : Observed} {packet : Option Bytes}
    (sends : h.Sends lfd efd m o fd x packet) (inv : HostInv lfd efd h) :
    h.Calls (h.settled (h.kernel m) o) m.sendFails fd x packet := by
  have make := kernel_call inv (m := m) sends.holds sends.calls
  have number := (inv.held.numbered fd x sends.holds.here).2.1
  obtain ⟨reason, signals, looked, -⟩ := sends.signals inv
  generalize h.settled (h.kernel m) o = h' at signals
  have server' : h'.server = o.server := congrArg Host.server signals.same
  have obj (y : SessionId) : h'.server.obj y = if y = x then { h.server.obj x with
      sender := ((h.server.obj x).sender.call (h.callOn m.sendFails fd x packet)).1 }
      else h.server.obj y := by
    rw [server', Server.obj, sends.shared]
    exact Function.update_apply _ _ _ _
  constructor
  · exact sends.holds
  · intro y
    rw [obj]
    split <;> rfl
  · intro y
    rw [obj]
    split
    · rename_i same
      rw [same]
    · rfl
  · rw [server', sends.sessions]
  · rw [server', sends.shared]
    rfl
  · rw [server', sends.epoll]
  · rw [signals.same]
    exact changed_unwatched (o := o) sends.accepted
  · rw [server']
    exact sends.sent
  · have reads' : h.observed.server.reads (.main (h.kernel m)) = none := sends.reads
    rw [signals.same]
    show o.received = h.observed.received
    rw [sends.heard]
    simp only [Observed.hears, reads']
  · rw [signals.same]
    simp only [changed, socketsAfter, sends.accepted, sends.reads, sends.calls,
      sends.holds.opened, Bool.false_eq_true, if_false, make, number]
  · rw [signals.same]
    simp only [changed, sends.accepted, Option.isSome_none, Bool.false_eq_true, if_false]
  · rw [signals.same]
    rfl
  · intro g here watched
    exact (signals.mem g).mpr (.inl (changed_kept here (server' ▸ watched)))
  · intro asks polled
    rw [signals.same] at polled
    exact (signals.mem fd).mpr (.inr ⟨rfl, looked asks polled⟩)

theorem HostInv.sending (inv : HostInv lfd efd h) {m : Moment} {o : Observed}
    {packet : Option Bytes} (sends : h.Sends lfd efd m o fd x packet)
    (hand : ∀ g k, h.InHand g k → (∃ item ∈ o.server.batch, item.tells g k) ∨
      (g = fd ∧ k = .writable ∧ packet = none)) :
    HostInv lfd efd (h.settled (h.kernel m) o) := by
  have called := sends.called inv
  obtain ⟨reason, signals, -, needed⟩ := sends.signals inv
  generalize h.settled (h.kernel m) o = h' at signals called
  have server' : h'.server = o.server := congrArg Host.server signals.same
  refine inv.calls called ?_ ?_ (signals.nodup (changed_nodup inv)) ?_ (server' ▸ sends.phase) ?_
  · rw [signals.same]
    exact sends.held
  · rw [signals.same]
    exact sends.exec
  · intro g here
    rw [server']
    rcases (signals.mem g).mp here with old | ⟨rfl, why⟩
    · exact changed_listed g old
    · exact poll_known (needed why)
  · intro g k inHand
    rw [InHand, server']
    exact hand g k inHand

/-- `onWrite` of an open session is a call of its sender. -/
theorem writes_sends (inv : HostInv lfd efd h) {m : Moment} {o : Observed} {batch : List Item}
    (plain : Server.Plain h.server (h.kernel m)) (holds : h.server.Holds fd x)
    (calls : h.server.calls = some (x, none)) (leads : h.Leads lfd efd (h.kernel m) o)
    (written : o.server = { h.server with batch := batch }.onWrite fd (h.kernel m).sends) :
    h.Sends lfd efd m o fd x none := by
  have number := (inv.held.numbered fd x holds.here).2.1
  have make := kernel_call inv (m := m) holds calls
  have sends : o.server = { h.server with batch := batch }.sending x
      ((h.server.obj x).sender.call (h.callOn m.sendFails fd x none)).1
      ((h.server.epoll fd).map (h.asked m.sendFails fd x none).getD) := by
    rw [written, asked, ← make]
    have sending := Server.onWrite_map (s := { h.server with batch := batch }) (x := x)
      (number ▸ holds.here) holds.opened (h.kernel m).sends
    simp only [Server.fdOf, Server.obj] at sending number
    rw [number] at sending
    exact sending
  refine ⟨leads, holds, plain.accepted, plain.reads, calls, ?_, ?_, ?_, ?_, fun y => ?_⟩
  · rw [sends]
    rfl
  · rw [sends, ← number]
    rfl
  · rw [sends]
    rfl
  · rw [sends]
    rfl
  · rw [sends]
    simp [Server.packetsSent, Server.sending]

/-- A flush is resumed, or the session is closed for good, or there is none any more. -/
theorem HostInv.writes (inv : HostInv lfd efd h) {m : Moment} {o : Observed} {batch : List Item}
    (head : h.server.batch = .writable fd :: batch) (loop : h.server.phase = .eventLoop)
    (plain : Server.Plain h.server (h.kernel m))
    (calls : h.server.calls = (h.server.sessions fd).map fun x => (x, none))
    (leads : h.Leads lfd efd (h.kernel m) o)
    (written : o.server = { h.server with batch := batch }.onWrite fd (h.kernel m).sends) :
    HostInv lfd efd (h.settled (h.kernel m) o) := by
  have batch' : o.server.batch = batch := by
    rw [written]
    exact (Server.onWrite_sameLoop _ fd _).batch
  have done {g : Fd} {kind : Kind} (inHand : h.InHand g kind) :
      (g = fd ∧ kind = .writable) ∨ ∃ item ∈ o.server.batch, item.tells g kind := by
    rw [batch']
    exact (inHand.cons head).imp_left fun tells => ⟨tells.1.symm, tells.2⟩
  have taken : Server.Spares h.server { h.server with batch := batch } :=
    .of_shared rfl rfl rfl rfl
  cases here : h.server.sessions fd with
  | none =>
    rw [here] at calls
    have nothing : o.server = { h.server with batch := batch } := by
      rw [written]
      simp only [Server.onWrite, here]
    have spares : Server.Spares h.server o.server := nothing ▸ taken
    refine inv.idle plain.accepted plain.reads calls spares leads fun _ => ⟨loop, ?_⟩
    intro g kind needs inHand
    rcases done inHand with ⟨rfl, -⟩ | left
    · obtain ⟨x, holds⟩ := leads.held.holds needs.1.1 needs.1.2.1 needs.1.2.2
      cases here.symm.trans (spares.holds holds).here
    · exact left
  | some x =>
    rw [here] at calls
    have number := (inv.held.numbered fd x here).2.1
    cases opened : (h.server.obj x).closed with
    | false =>
      have sends := writes_sends inv plain ⟨here, opened⟩ calls leads written
      refine inv.sending sends fun g kind inHand => ?_
      rcases done inHand with ⟨same, kind'⟩ | left
      · exact .inr ⟨same, kind', rfl⟩
      · exact .inl left
    | true =>
      have unwatched : h.server.epoll (h.server.fdOf x) = none := by
        by_contra known
        obtain ⟨listening, waking⟩ := inv.held.apart fd x here
        rw [number] at known
        obtain ⟨y, holds⟩ := inv.held.holds listening waking (Option.isSome_iff_ne_none.mpr known)
        obtain rfl : x = y := Option.some.inj (here.symm.trans holds.here)
        cases opened.symm.trans holds.opened
      have spares : Server.Spares h.server o.server := by
        rw [written]
        exact taken.trans (Server.onWrite_spares (s := { h.server with batch := batch }) here
          opened unwatched _)
      have off : o.server.epoll fd = none := by
        rcases spares.epoll fd with same | none
        · rw [same, ← number]
          exact unwatched
        · exact none
      have silent : ¬ ((h.changed (h.kernel m) o).poll fd).isSome = true := by
        intro polled
        have known : (o.server.epoll fd).isSome = true := poll_known polled
        rw [off] at known
        cases known
      have quiet : h.settled (h.kernel m) o = h.changed (h.kernel m) o := by
        simp only [settled, rechecked, plain.accepted, calls, Option.map_some, number]
        split
        · rename_i fd' found
          split at found
          · cases found
            exact if_neg silent
          · cases found
        · rfl
      refine inv.sparing plain.accepted quiet spares leads ?_ fun _ => ⟨loop, ?_⟩
      · intro g y _
        refine .inl ⟨?_, ?_⟩
        · simp only [changed, socketsAfter, plain.accepted, plain.reads, calls, Option.map_some,
            opened, if_true]
        · have reads' : h.observed.server.reads (.main (h.kernel m)) = none := plain.reads
          show o.received y = h.observed.received y
          rw [leads.heard]
          simp only [Observed.hears, reads']
      · intro g y kind holds needs inHand
        rcases done inHand with ⟨rfl, -⟩ | left
        · have before := spares.holds holds
          obtain rfl : x = y := Option.some.inj (here.symm.trans before.here)
          cases opened.symm.trans before.opened
        · exact left

/-- A command that the main thread has drained. -/
theorem HostInv.command (inv : HostInv lfd efd h) {m : Moment} {o : Observed} {q : Queued}
    {commands : List Queued} (head : h.server.commands = q :: commands)
    (plain : Server.Plain h.server (h.kernel m)) (leads : h.Leads lfd efd (h.kernel m) o)
    (done : o.server = { h.server with commands := commands }.processCommand (h.kernel m) q) :
    HostInv lfd efd (h.settled (h.kernel m) o) := by
  have loop := Server.processCommand_sameLoop { h.server with commands := commands }
    (h.kernel m) q
  rw [← done] at loop
  have still (kind : Kind) (g : Fd) (inHand : h.InHand g kind) :
      ∃ item ∈ o.server.batch, item.tells g kind := by
    rw [loop.batch]
    exact inHand
  cases calls : h.server.calls with
  | none =>
    have spares : Server.Spares h.server o.server := by
      rw [done]
      exact Server.processCommand_spares head calls _
    refine inv.idle plain.accepted plain.reads calls spares leads fun loops => ?_
    exact ⟨loop.phase ▸ loops, fun g kind _ => still kind g⟩
  | some call =>
    obtain ⟨x, packet⟩ := call
    obtain ⟨type, here, opened, rfl⟩ := Server.command_calls head calls
    have number := (inv.held.numbered _ x here).2.1
    have holds : h.server.Holds q.cmd.fd x := ⟨here, opened⟩
    have make := kernel_call inv (m := m) holds calls
    have sends : ∃ record, o.server = { { h.server with commands := commands }.sending x
        ((h.server.obj x).sender.call (h.callOn m.sendFails q.cmd.fd x (some q.cmd.data))).1
        ((h.server.epoll q.cmd.fd).map
          (h.asked m.sendFails q.cmd.fd x (some q.cmd.data)).getD) with record := record } ∧
        record.sent = h.server.record.sent ++ [(q.origin, x, q.cmd.data)] := by
      rw [asked, ← make]
      have sending := { h.server with commands := commands }.sendRawDirect_map x q.cmd.data
        (h.kernel m).sends
      simp only [Server.fdOf, Server.obj] at sending number opened
      rw [number] at sending
      refine ⟨{ h.server.record with
        sent := h.server.record.sent ++ [(q.origin, x, q.cmd.data)] }, ?_, rfl⟩
      rw [done]
      simp only [Server.processCommand, type, here, Server.obj, opened, Bool.false_eq_true,
        if_false, sending]
      rfl
    obtain ⟨record, sends, sent⟩ := sends
    have called : h.Sends lfd efd m o q.cmd.fd x (some q.cmd.data) := by
      refine ⟨leads, holds, plain.accepted, plain.reads, calls, ?_, ?_, ?_, ?_, fun y => ?_⟩
      · rw [sends]
        rfl
      · rw [sends, ← number]
        rfl
      · rw [sends]
        rfl
      · rw [sends]
        rfl
      · rw [sends]
        simp only [Server.packetsSent, sent, List.filter_append, List.map_append]
        by_cases e : y = x
        · simp [e]
        · simp [e, Ne.symm e]
    exact inv.sending called fun g kind inHand => .inl (still kind g inHand)

theorem HostInv.leads (inv : HostInv lfd efd h) {k : Kernel} {o : Observed}
    (step : h.observed.step (.main k) = some o) : h.Leads lfd efd k o := by
  have exec := inv.exec.step step
  obtain ⟨t, moved, rfl⟩ := Option.map_eq_some_iff.mp step
  exact ⟨inv.held.step moved, exec, Server.step_next moved, rfl⟩

/-- A step of the main thread keeps the invariant. -/
theorem step_main (inv : HostInv lfd efd h) {m : Moment} (hs : h.main m = some h') :
    HostInv lfd efd h' := by
  unfold main at hs
  split at hs
  · cases hs
    exact inv.spared (.refl _) rfl inv.held inv.exec (Nat.le_refl _) rfl inv.nodup inv.listed
      (fun _ here _ => here) nofun (fun _ _ _ => .inl ⟨rfl, rfl⟩)
      fun loop => ⟨loop, fun _ _ _ _ _ inHand => inHand⟩
  · obtain ⟨o, step, rfl⟩ := Option.map_eq_some_iff.mp hs
    have leads := inv.leads step
    obtain ⟨t, moved, rfl⟩ := Option.map_eq_some_iff.mp step
    cases Server.main_step moved with
    | command q commands head plain => exact inv.command head plain leads rfl
    | leaves batch phase pool workers last reason plain calls =>
      refine inv.idle plain.accepted plain.reads calls ?_ leads fun loop => absurd loop last
      exact .of_shared rfl rfl rfl rfl
    | failed e batch head loop fails plain calls =>
      exact inv.fails head loop plain calls leads rfl
    | skips e batch head loop fine nothing plain calls =>
      refine inv.skips head fine (nothing.imp_right fun own => .inl own.1) plain.accepted
        plain.reads calls leads ?_ fun _ => ⟨loop, rfl⟩
      exact .of_shared rfl rfl rfl rfl
    | accepts e batch head loop fine listening fd given number free unread =>
      exact inv.accepts head fine listening given number free leads unread rfl
    | drains batch phase loop empty accepted unread draining calls =>
      have spares : Server.Spares h.server
          { h.server.drain with batch := batch, phase := phase } :=
        ⟨fun _ => .inl rfl, fun _ _ => rfl, fun _ _ hx => hx, fun _ hx => hx, rfl⟩
      rcases loop with ⟨-, last⟩ | ⟨before, -, e, rest, head, fine, waking, rfl⟩
      · exact inv.idle accepted unread calls spares leads fun loop => absurd loop last
      · exact inv.skips head fine (.inr (.inr waking)) accepted unread calls leads spares
          fun _ => ⟨before, rfl⟩
    | reads e batch head loop fine other quiet accepted read drains calls =>
      exact inv.reads head loop fine accepted read calls leads rfl
    | writes fd batch head loop plain calls => exact inv.writes head loop plain calls leads rfl

/-! ## The other steps -/

theorem poll_fd {e : EpollEvent} (polled : h.poll fd = some e) : e.fd = fd := by
  simp only [poll] at polled
  split at polled
  · cases polled
    unfold look
    split
    · rfl
    · split <;> rfl
  · cases polled

/-- Epoll has a report for each number that needs attention. -/
theorem Needs.polled {k : Kind} (needs : h.Needs fd k) :
    ∃ e, h.poll fd = some e ∧ (Item.event e).tells fd k := by
  obtain ⟨⟨client, other, known⟩, state⟩ := needs
  have looks : h.look fd = { fd := fd, readable := (h.sockets fd).readable
                             writable := h.server.epoll fd == some .write &&
                               ((h.sockets fd).writable || (h.sockets fd).failed)
                             failed := (h.sockets fd).failed } := by
    simp only [look, if_neg client, if_neg other]
  have told : (Item.event (h.look fd)).tells fd k := by
    rw [looks]
    cases k with
    | failed => exact ⟨rfl, .inl state⟩
    | readable =>
      refine ⟨rfl, .inr ?_⟩
      rcases state.2 with unread | ended
      · simp [Socket.readable, unread]
      · simp [Socket.readable, ended]
    | writable => exact ⟨rfl, .inr (by simp [state.2.1, state.2.2])⟩
  refine ⟨h.look fd, if_pos ?_, told⟩
  obtain ⟨-, failed | tells⟩ := told
  · simp [known, failed]
  · cases k with
    | failed => exact absurd tells id
    | readable => simp [known, show (h.look fd).readable = true from tells]
    | writable => simp [known, show (h.look fd).writable = true from tells]

theorem poll_listening (inv : HostInv lfd efd h) (some : h.backlog ≠ []) :
    (h.poll h.server.listenFd).isSome = true := by
  have known := inv.held.main_registered (.inl rfl)
  simp [poll, look, known, some]

theorem poll_waking (inv : HostInv lfd efd h) (some : h.notified = true) :
    (h.poll h.server.eventFd).isSome = true := by
  have known := inv.held.main_registered (.inr rfl)
  have other : h.server.eventFd ≠ h.server.listenFd := by
    rw [inv.held.waking, inv.held.listening]
    exact inv.apart.symm
  simp [poll, look, known, some, other]

/-- What `epoll_wait` leaves on the list: what it has not looked at, and what is watched for its
level. -/
def remaining (h : Host) : List Fd :=
  (harvest h.poll MAX_EVENTS h.ready).2 ++
    ((harvest h.poll MAX_EVENTS h.ready).1.map (·.1)).filter h.levelTriggered

/-- A number is reported or left on the list once if it was there once. -/
theorem harvested_sublist (h : Host) : (((harvest h.poll MAX_EVENTS h.ready).1.map (·.1)) ++
    (harvest h.poll MAX_EVENTS h.ready).2).Sublist h.ready :=
  harvest_sublist

theorem remaining_nodup (nodup : h.ready.Nodup) : h.remaining.Nodup := by
  have all := nodup.sublist h.harvested_sublist
  have shrunk := (List.filter_sublist (p := h.levelTriggered)
    (l := (harvest h.poll MAX_EVENTS h.ready).1.map (·.1))).append_right
      (harvest h.poll MAX_EVENTS h.ready).2
  exact List.nodup_append_comm.mp (all.sublist shrunk)

theorem remaining_listed (here : fd ∈ h.remaining) : fd ∈ h.ready := by
  have all := h.harvested_sublist
  rcases List.mem_append.mp here with left | taken
  · exact all.subset (List.mem_append_right _ left)
  · exact all.subset (List.mem_append_left _ (List.mem_filter.mp taken).1)

/-- A number that is watched for its level stays as long as epoll has a report for it. -/
theorem remaining_level (here : fd ∈ h.ready) (polled : (h.poll fd).isSome = true)
    (level : h.levelTriggered fd = true) : fd ∈ h.remaining := by
  obtain ⟨e, polled⟩ := Option.isSome_iff_exists.mp polled
  rcases harvest_complete (n := MAX_EVENTS) here polled with taken | left
  · exact List.mem_append_right _ (List.mem_filter.mpr ⟨List.mem_map_of_mem taken, level⟩)
  · exact List.mem_append_left _ left

/-- `epoll_wait` takes reports off the list. -/
theorem step_epollWait (inv : HostInv lfd efd h) (hs : h.epollWait = some h') :
    HostInv lfd efd h' := by
  unfold epollWait at hs
  split at hs
  · cases hs
  · obtain ⟨o, step, rfl⟩ := Option.map_eq_some_iff.mp hs
    have exec := inv.exec.step step
    obtain ⟨t, moved, rfl⟩ := Option.map_eq_some_iff.mp step
    have held : Server.Held lfd efd h.unwatched t := by
      have after := inv.held.step moved
      rwa [Server.missed, List.append_nil] at after
    simp only [Server.step, Server.epollWait] at moved
    split at moved
    · rename_i waits
      simp only [Bool.and_eq_true, beq_iff_eq] at waits
      obtain ⟨⟨⟨⟨loop, -⟩, idle⟩, -⟩, -⟩ := waits
      have idle : h.server.batch = [] := List.isEmpty_iff.mp idle
      have level : h.levelTriggered h.server.listenFd = true ∧
          h.levelTriggered h.server.eventFd = true := by simp [levelTriggered]
      cases moved
      constructor
      · constructor
        · intro _
          have told (g : Fd) (k : Kind) (needs : h.Needs g k) :
              ∃ e, h.poll g = some e ∧ (Item.event e).tells e.fd k := by
            obtain ⟨e, polled, tells⟩ := needs.polled
            exact ⟨e, polled, poll_fd polled ▸ tells⟩
          refine (inv.clients loop).harvest (n := MAX_EVENTS) ?_ told ?_ ?_
          · rintro g k ⟨item, here, -⟩
            rw [idle] at here
            cases here
          · exact fun g left => List.mem_append_left _ left
          · intro g e k taken tells
            obtain rfl := poll_fd (harvest_polled taken).1
            exact ⟨.event e, List.mem_map_of_mem (List.mem_map_of_mem taken), tells⟩
        · intro some
          exact remaining_level (inv.listening some) (poll_listening inv some) level.1
        · intro some
          exact remaining_level (inv.waking some) (poll_waking inv some) level.2
      · exact held
      · exact inv.apart
      · exact exec
      · exact remaining_nodup inv.nodup
      · exact fun g here => inv.listed g (remaining_listed here)
      · exact inv.waiting
      · intro g y holds
        have flows := inv.flows g y ⟨holds.here, holds.opened⟩
        exact flows.spared (.of_shared rfl rfl rfl rfl) rfl (fun _ => rfl) holds.opened
          (.inl ⟨rfl, rfl⟩)
      · exact inv.unsent
    · cases moved

theorem HostInv.signals {reason : Prop} (inv : HostInv lfd efd h)
    (signals : Signals h h' fd reason) (known : reason → (h.server.epoll fd).isSome = true) :
    HostInv lfd efd h' := by
  have kept (g : Fd) (here : g ∈ h.ready) : g ∈ h'.ready := (signals.mem g).mpr (.inl here)
  have listed (g : Fd) (here : g ∈ h'.ready) : (h.server.epoll g).isSome = true := by
    rcases (signals.mem g).mp here with old | ⟨rfl, why⟩
    · exact inv.listed g old
    · exact known why
  have nodup := signals.nodup inv.nodup
  rw [signals.same]
  exact inv.spared (.refl _) rfl inv.held inv.exec (Nat.le_refl _) rfl nodup listed
    (fun g here _ => kept g here) .inl (fun _ _ _ => .inl ⟨rfl, rfl⟩)
    fun loop => ⟨loop, fun _ _ _ _ _ inHand => inHand⟩

theorem worker_spares {s : Server} {i : Nat} {b : Backend}
    (work : s.toBackend.worker i = some b) : Server.Spares s { s with toBackend := b } := by
  have same : ∀ x, (b.shared.objects x).sender = (s.obj x).sender ∧
      (b.shared.objects x).closed = (s.obj x).closed := by
    cases Backend.worker_cases work with
    | executes job o rest running =>
      intro x
      obtain ⟨userID, username, e⟩ := s.shared.exec_objects o x
      simp only [Server.obj, e, and_self]
    | _ => exact fun _ => ⟨rfl, rfl⟩
  exact ⟨fun _ => .inl rfl, fun x _ => (same x).1, fun _ _ hx => hx,
    fun x opened => (same x).2 ▸ opened, rfl⟩

/-- The server goes on without the sockets, and the main thread may be woken. -/
structure Beside (lfd efd : Fd) (h : Host) (o : Observed) : Prop where
  spares : Server.Spares h.server o.server
  held : Server.Held lfd efd h.unwatched o.server
  exec : Observed.ExecInv o
  next : h.server.shared.next ≤ o.server.shared.next
  received : o.received = h.observed.received
  epoll : o.server.epoll = h.server.epoll
  phase : o.server.phase = h.server.phase
  batch : o.server.batch = h.server.batch

theorem HostInv.beside (inv : HostInv lfd efd h) {o : Observed} (beside : h.Beside lfd efd o)
    (unwritten : Nat) : HostInv lfd efd { h with observed := o, unwritten := unwritten } := by
  refine inv.spared beside.spares rfl beside.held beside.exec beside.next rfl inv.nodup ?_
    (fun _ here _ => here) .inl (fun _ x _ => .inl ⟨rfl, congrFun beside.received x⟩) ?_
  · intro fd here
    show (o.server.epoll fd).isSome = true
    rw [beside.epoll]
    exact inv.listed fd here
  · intro loop
    refine ⟨beside.phase ▸ loop, fun fd x k _ _ inHand => ?_⟩
    show ∃ item ∈ o.server.batch, item.tells fd k
    rw [beside.batch]
    exact inHand

/-- A worker's step leaves the sockets alone. -/
theorem step_worker (inv : HostInv lfd efd h) {i : Nat} (hs : h.worker i = some h') :
    HostInv lfd efd h' := by
  obtain ⟨o, step, rfl⟩ := Option.map_eq_some_iff.mp hs
  have exec := inv.exec.step step
  obtain ⟨t, moved, rfl⟩ := Option.map_eq_some_iff.mp step
  have held : Server.Held lfd efd h.unwatched t := by
    have after := inv.held.step moved
    rwa [Server.missed, List.append_nil] at after
  have next : h.server.shared.next ≤ t.shared.next := Server.step_next moved
  obtain ⟨b, work, rfl⟩ := Option.map_eq_some_iff.mp moved
  have beside : h.Beside lfd efd ⟨{ h.observed.server with toBackend := b }, _, _⟩ :=
    ⟨worker_spares work, held, exec, next, rfl, rfl, rfl, rfl⟩
  exact inv.beside beside _

/-- The eventfd is written, and epoll is told. -/
theorem step_write (inv : HostInv lfd efd h) (hs : h.write = some h') : HostInv lfd efd h' := by
  unfold write at hs
  split at hs
  · cases hs
  · cases hs
    have known : (h.server.epoll h.server.eventFd).isSome = true :=
      inv.held.main_registered (.inr rfl)
    generalize same : { h with notified := true, unwritten := h.unwritten - 1 } = m
    have signals := m.signals_signal h.server.eventFd
    generalize m.signal h.server.eventFd = h' at signals
    subst same
    have woken : efd ∈ h'.ready := (signals.mem efd).mpr (.inr ⟨inv.held.waking.symm, known⟩)
    have kept (g : Fd) (here : g ∈ h.ready) : g ∈ h'.ready := (signals.mem g).mpr (.inl here)
    have listed (g : Fd) (here : g ∈ h'.ready) : (h.server.epoll g).isSome = true := by
      rcases (signals.mem g).mp here with old | ⟨rfl, -⟩
      · exact inv.listed g old
      · exact known
    have nodup := signals.nodup inv.nodup
    rw [signals.same]
    exact inv.spared (.refl _) rfl inv.held inv.exec (Nat.le_refl _) rfl nodup listed
      (fun g here _ => kept g here) (fun _ => .inr woken) (fun _ _ _ => .inl ⟨rfl, rfl⟩)
      fun loop => ⟨loop, fun _ _ _ _ _ inHand => inHand⟩

/-- A socket changes outside the program: more may have arrived, and it may have ended or failed. If
this makes its number need anything, epoll is told. -/
structure Alters (h h' : Host) (fd : Fd) (c : Socket) (data : Bytes) : Prop where
  same : h' = { h with sockets := Function.update h.sockets fd c, ready := h'.ready }
  unread : c.unread = (h.sockets fd).unread ++ data
  arrived : c.arrived = (h.sockets fd).arrived ++ data
  accepted : c.accepted = (h.sockets fd).accepted
  stalled : c.stalled = (h.sockets fd).stalled
  failed : (h.sockets fd).failed = true → c.failed = true
  kept : ∀ g ∈ h.ready, g ∈ h'.ready
  told : ∀ k, h'.Needs fd k → h.Needs fd k ∨ fd ∈ h'.ready

section

variable {c : Socket} {data : Bytes}

theorem Alters.server (alters : h.Alters h' fd c data) : h'.server = h.server := by
  rw [alters.same]
  rfl

theorem Alters.sockets (alters : h.Alters h' fd c data) :
    h'.sockets = Function.update h.sockets fd c := by
  rw [alters.same]

theorem Alters.covered (alters : h.Alters h' fd c data)
    (before : Covered h.Needs h.ready h.InHand) : Covered h'.Needs h'.ready h'.InHand := by
  have same : Covered h.Needs h.ready h'.InHand := by
    intro g k needs
    refine (before g k needs).imp_right fun inHand => ?_
    rw [InHand, alters.server]
    exact inHand
  refine same.signal alters.kept ?_
  intro g k needs
  by_cases e : g = fd
  · subst e
    exact alters.told k needs
  · obtain ⟨client, state⟩ := needs
    rw [alters.server] at client state
    rw [alters.sockets, Function.update_of_ne e] at state
    exact .inl ⟨client, state⟩

theorem Alters.flows (alters : h.Alters h' fd c data) (inv : HostInv lfd efd h) {g : Fd}
    {y : SessionId} (holds : h'.server.Holds g y) : h'.Flows g y := by
  have flows := inv.flows g y (alters.server ▸ holds)
  have observed : h'.observed = h.observed := by rw [alters.same]
  have unwatched : h'.unwatched = h.unwatched := by rw [alters.same]
  by_cases e : g = fd
  · subst e
    have socket : h'.sockets g = c := by rw [alters.sockets, Function.update_self]
    constructor
    · rw [socket, alters.server, unwatched]
      intro sound goes
      refine flows.armed ?_ (alters.stalled ▸ goes)
      by_contra broken
      cases sound.symm.trans (alters.failed (Bool.eq_true_of_not_eq_false broken))
    · rw [socket, observed, alters.unread, alters.arrived, ← List.append_assoc, flows.input]
    · rw [observed]
      exact flows.fits
    · rw [socket, alters.accepted, alters.server]
      exact flows.output
  · have socket : h'.sockets g = h.sockets g := by rw [alters.sockets, Function.update_of_ne e]
    constructor
    · rw [socket, alters.server, unwatched]
      exact flows.armed
    · rw [socket, observed]
      exact flows.input
    · rw [observed]
      exact flows.fits
    · rw [socket, alters.server]
      exact flows.output

theorem HostInv.alters (inv : HostInv lfd efd h) (alters : h.Alters h' fd c data)
    (nodup : h'.ready.Nodup) (listed : ∀ g ∈ h'.ready, (h.server.epoll g).isSome = true) :
    HostInv lfd efd h' := by
  have server := alters.server
  constructor
  · constructor
    · exact fun loop => alters.covered (inv.clients (server ▸ loop))
    · intro some
      rw [server]
      rw [alters.same] at some
      exact alters.kept _ (inv.listening some)
    · intro some
      rw [server]
      rw [alters.same] at some
      exact alters.kept _ (inv.waking some)
  · rw [alters.same]
    exact inv.held
  · exact inv.apart
  · rw [alters.same]
    exact inv.exec
  · exact nodup
  · exact server ▸ listed
  · rw [alters.same]
    exact inv.waiting
  · exact fun g y holds => alters.flows inv holds
  · rw [server]
    exact inv.unsent

/-- A socket changes, and its number may be signalled. -/
theorem HostInv.changes (inv : HostInv lfd efd h) {reason : Prop}
    (unread : c.unread = (h.sockets fd).unread ++ data)
    (arrived : c.arrived = (h.sockets fd).arrived ++ data)
    (accepted : c.accepted = (h.sockets fd).accepted)
    (stalled : c.stalled = (h.sockets fd).stalled)
    (failed : (h.sockets fd).failed = true → c.failed = true)
    (signals : Signals (h.setSocket fd c) h' fd reason)
    (known : reason → (h.server.epoll fd).isSome = true)
    (told : ∀ k, (h.setSocket fd c).Needs fd k → h.Needs fd k ∨ reason) :
    HostInv lfd efd h' := by
  have alters : h.Alters h' fd c data := by
    refine ⟨signals.same, unread, arrived, accepted, stalled, failed, fun g here => ?_,
      fun k needs => ?_⟩
    · exact (signals.mem g).mpr (.inl here)
    · rw [signals.same] at needs
      exact (told k needs).imp_right fun why => (signals.mem fd).mpr (.inr ⟨rfl, why⟩)
  refine inv.alters alters (signals.nodup inv.nodup) fun g here => ?_
  rcases (signals.mem g).mp here with old | ⟨rfl, why⟩
  · exact inv.listed g old
  · exact known why

end

/-- A connection comes in. -/
theorem HostInv.connects (inv : HostInv lfd efd h) {c : Socket} (arrived : c.arrived = c.unread)
    (accepted : c.accepted = []) :
    HostInv lfd efd ({ h with backlog := h.backlog ++ [c] }.signal h.server.listenFd) := by
  have known : (h.server.epoll h.server.listenFd).isSome = true :=
    inv.held.main_registered (.inl rfl)
  have signals := signals_signal { h with backlog := h.backlog ++ [c] } h.server.listenFd
  generalize { h with backlog := h.backlog ++ [c] }.signal h.server.listenFd = h' at signals
  have listening : h.server.listenFd ∈ h'.ready := (signals.mem _).mpr (.inr ⟨rfl, known⟩)
  have kept (g : Fd) (here : g ∈ h.ready) : g ∈ h'.ready := (signals.mem g).mpr (.inl here)
  have listed (g : Fd) (here : g ∈ h'.ready) : (h.server.epoll g).isSome = true := by
    rcases (signals.mem g).mp here with old | ⟨rfl, -⟩
    · exact inv.listed g old
    · exact known
  have nodup := signals.nodup inv.nodup
  have told : HostInv lfd efd { h with ready := h'.ready } :=
    inv.spared (.refl _) rfl inv.held inv.exec (Nat.le_refl _) rfl nodup listed
      (fun g here _ => kept g here) .inl (fun _ _ _ => .inl ⟨rfl, rfl⟩)
      fun loop => ⟨loop, fun _ _ _ _ _ inHand => inHand⟩
  rw [signals.same]
  constructor
  · exact ⟨told.clients, fun _ => listening, told.waking⟩
  · exact told.held
  · exact told.apart
  · exact told.exec
  · exact told.nodup
  · exact told.listed
  · intro d here
    rcases List.mem_append.mp here with old | new
    · exact inv.waiting d old
    · rw [List.mem_singleton.mp new]
      exact ⟨arrived, accepted⟩
  · intro g y holds
    have flows := told.flows g y ⟨holds.here, holds.opened⟩
    exact ⟨flows.armed, flows.input, flows.fits, flows.output⟩
  · exact told.unsent

/-- What happens outside the program. -/
theorem step_happens (inv : HostInv lfd efd h) {e : Happening} (hs : h.happens e = some h') :
    HostInv lfd efd h' := by
  -- a change that epoll is told of in any case
  have signalled {fd : Fd} {c : Socket} (data : Bytes)
      (unread : c.unread = (h.sockets fd).unread ++ data)
      (arrived : c.arrived = (h.sockets fd).arrived ++ data)
      (accepted : c.accepted = (h.sockets fd).accepted)
      (stalled : c.stalled = (h.sockets fd).stalled)
      (failed : (h.sockets fd).failed = true → c.failed = true) :
      HostInv lfd efd ((h.setSocket fd c).signal fd) :=
    inv.changes unread arrived accepted stalled failed ((h.setSocket fd c).signals_signal fd) id
      fun _ needs => .inr needs.1.2.2
  cases e with
  | connect c =>
    cases hs
    exact inv.connects rfl rfl
  | receive fd data =>
    simp only [happens] at hs
    split at hs
    · cases hs
      exact signalled data rfl rfl rfl rfl id
    · cases hs
  | finish fd =>
    simp only [happens] at hs
    split at hs
    · cases hs
      exact signalled [] (List.append_nil _).symm (List.append_nil _).symm rfl rfl id
    · cases hs
  | fail fd =>
    simp only [happens] at hs
    split at hs
    · cases hs
      exact signalled [] (List.append_nil _).symm (List.append_nil _).symm rfl rfl
        fun _ => rfl
    · cases hs
  | sent fd n =>
    simp only [happens] at hs
    split at hs
    · cases hs
      generalize same : { h.sockets fd with room := (h.sockets fd).room + n } = c
      have known : ((h.setSocket fd c).poll fd).isSome = true →
          (h.server.epoll fd).isSome = true := poll_known
      have signals := (h.setSocket fd c).signals_recheck fd
      have unread : c.unread = (h.sockets fd).unread ++ [] := by rw [← same, List.append_nil]
      refine inv.changes unread ?_ ?_ ?_ ?_ signals known ?_
      · rw [← same, List.append_nil]
      · rw [← same]
      · rw [← same]
      · rw [← same]
        exact id
      · intro k needs
        obtain ⟨e, polled, -⟩ := needs.polled
        exact .inr (by rw [polled]; rfl)
    · cases hs
  | signal fd =>
    cases hs
    exact inv.signals (h.signals_signal fd) id

/-- The program and its eventfd are as they were before this happened. -/
structure Outside (h : Host) (e : Happening) (h' : Host) : Prop where
  observed : h'.observed = h.observed
  notified : h'.notified = h.notified
  unwritten : h'.unwritten = h.unwritten
  resetting : h'.resetting = h.resetting
  lowWater : ∀ fd, (h'.sockets fd).lowWater = (h.sockets fd).lowWater
  backlog : ∀ c ∈ h'.backlog, c ∈ h.backlog ∨ ∃ c', e = .connect c' ∧ c.lowWater = c'.lowWater

theorem happens_outside {e : Happening} (hs : h.happens e = some h') : Outside h e h' := by
  have changes {fd : Fd} {c : Socket} {reason : Prop}
      (signals : Signals (h.setSocket fd c) h' fd reason)
      (same : c.lowWater = (h.sockets fd).lowWater) : Outside h e h' := by
    rw [signals.same]
    refine ⟨rfl, rfl, rfl, rfl, fun g => ?_, fun c here => .inl here⟩
    simp only [setSocket, Function.update_apply]
    split
    · rename_i e
      rw [e]
      exact same
    · rfl
  cases e with
  | connect c =>
    cases hs
    rw [(signals_signal _ _).same]
    refine ⟨rfl, rfl, rfl, rfl, fun _ => rfl, fun d here => ?_⟩
    apply (List.mem_append.mp here).imp_right
    intro new
    rw [List.mem_singleton.mp new]
    exact ⟨c, rfl, rfl⟩
  | receive fd | finish fd | fail fd =>
    simp only [happens] at hs
    split at hs
    · cases hs
      exact changes (signals_signal _ _) rfl
    · cases hs
  | sent fd n =>
    simp only [happens] at hs
    split at hs
    · cases hs
      exact changes (signals_recheck _ _) rfl
    · cases hs
  | signal fd =>
    cases hs
    rw [(signals_signal _ _).same]
    exact ⟨rfl, rfl, rfl, rfl, fun _ => rfl, fun c here => .inl here⟩

/-! ## Every run -/

/-- The server takes a step of its own, or none. -/
theorem step_observed {a : HostAction} (hs : h.step a = some h') :
    h'.observed = h.observed ∨ ∃ a', h.observed.step a' = some h'.observed := by
  cases a with
  | outside e => exact .inl (happens_outside hs).observed
  | epollWait =>
    simp only [step, epollWait] at hs
    split at hs
    · cases hs
    · obtain ⟨o, moved, rfl⟩ := Option.map_eq_some_iff.mp hs
      exact .inr ⟨_, moved⟩
  | main m =>
    simp only [step, main] at hs
    split at hs
    · cases hs
      exact .inl rfl
    · obtain ⟨o, moved, rfl⟩ := Option.map_eq_some_iff.mp hs
      obtain ⟨fd, reason, signals, -⟩ := h.settled_signals (h.kernel m) o
      refine .inr ⟨.main (h.kernel m), moved.trans (congrArg some ?_)⟩
      rw [signals.same]
      rfl
  | worker i =>
    obtain ⟨o, moved, rfl⟩ := Option.map_eq_some_iff.mp hs
    exact .inr ⟨.worker i, moved⟩
  | write =>
    simp only [step, write] at hs
    split at hs
    · cases hs
    · cases hs
      rw [(signals_signal _ _).same]
      exact .inl rfl

/-- A run on the kernel is a run of the server against some answers of the kernel. -/
theorem run_observed {tables : Tables} {numThreads : Nat} {listenFd eventFd : Fd}
    {as : List HostAction}
    (run : exec step (start tables numThreads listenFd eventFd) as = some h) :
    ∃ as', exec Observed.step (Observed.start tables numThreads listenFd eventFd) as' =
      some h.observed := by
  refine invariant (I := fun h => ∃ as', exec Observed.step
    (Observed.start tables numThreads listenFd eventFd) as' = some h.observed) ?_ ⟨[], rfl⟩ run
  intro h a h' ⟨as', before⟩ hs
  rcases step_observed hs with same | ⟨a', moved⟩
  · exact ⟨as', same ▸ before⟩
  · exact ⟨as' ++ [a'], exec_append.mpr ⟨_, before, exec_cons.mpr ⟨_, moved, rfl⟩⟩⟩

theorem step_inv {a : HostAction} (inv : HostInv lfd efd h) (hs : h.step a = some h') :
    HostInv lfd efd h' := by
  cases a with
  | outside e => exact step_happens inv hs
  | epollWait => exact step_epollWait inv hs
  | main m => exact step_main inv hs
  | worker i => exact step_worker inv hs
  | write => exact step_write inv hs

theorem inv_start (tables : Tables) (numThreads : Nat) {listenFd eventFd : Fd}
    (apart : listenFd ≠ eventFd) :
    HostInv listenFd eventFd (start tables numThreads listenFd eventFd) := by
  have held := Server.held_start tables numThreads listenFd eventFd
  have nobody {fd : Fd} {x : SessionId}
      (holds : (Server.start tables numThreads listenFd eventFd).Holds fd x) : False :=
    nomatch holds.here
  constructor
  · refine ⟨fun _ fd k needs => ?_, fun some => absurd rfl some, nofun⟩
    obtain ⟨x, holds⟩ := held.holds needs.1.1 needs.1.2.1 needs.1.2.2
    exact (nobody holds).elim
  · exact held
  · exact apart
  · exact Observed.execInv_start tables numThreads listenFd eventFd
  · exact List.nodup_nil
  · exact nofun
  · exact nofun
  · exact fun _ _ holds => (nobody holds).elim
  · exact fun _ _ => rfl

theorem run_inv {tables : Tables} {numThreads : Nat} {listenFd eventFd : Fd}
    (apart : listenFd ≠ eventFd) {as : List HostAction}
    (run : exec step (start tables numThreads listenFd eventFd) as = some h) :
    HostInv listenFd eventFd h :=
  invariant (fun _ _ _ inv hs => step_inv inv hs) (inv_start tables numThreads apart) run

end Host

end Cvcn
