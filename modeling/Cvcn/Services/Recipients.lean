import Cvcn.Services.Carriage

/-!
# A packet from the queue to its recipients

One packet has been pushed to each of several open sessions. It goes behind what is on its way to
them already, so each client reads it after all that; nobody else is sent a byte.
-/

namespace Cvcn

open Framing Machine

theorem pending_none {number : SessionId → Fd} {y : SessionId} {sessions : List SessionId}
    (other : y ∉ sessions) (data : Bytes) (rest : List Queued) :
    pending y (sessions.map (fun z => ⟨⟨.sendRaw, number z, data⟩, z⟩) ++ rest) =
      pending y rest := by
  induction sessions with
  | nil => rfl
  | cons z sessions ih =>
    rw [List.mem_cons, not_or] at other
    rw [List.map_cons, List.cons_append, pending_other fun _ => Ne.symm other.1]
    exact ih other.2

/-- Of the packets pushed to different sessions one is for each of them. -/
theorem pending_pushed {number : SessionId → Fd} {sessions : List SessionId}
    (nodup : sessions.Nodup) (y : SessionId) (data : Bytes) {rest : List Queued}
    (none : pending y rest = []) :
    pending y (sessions.map (fun z => ⟨⟨.sendRaw, number z, data⟩, z⟩) ++ rest) =
      if y ∈ sessions then data else [] := by
  induction sessions with
  | nil => simpa using none
  | cons z sessions ih =>
    rw [List.nodup_cons] at nodup
    rw [List.map_cons, List.cons_append]
    by_cases first : z = y
    · subst first
      rw [if_pos List.mem_cons_self, pending_own (q := ⟨⟨.sendRaw, number z, data⟩, z⟩) rfl rfl,
        pending_none nodup.1, none, List.append_nil]
    · rw [pending_other fun _ => first, ih nodup.2]
      simp only [List.mem_cons, Ne.symm first, false_or]

namespace Network

/-- `p` has been pushed to each of `sessions`, and `fd` may still be reported done. -/
structure Carrying (n : Network) (x : SessionId) (fd : Fd) (sessions : List SessionId)
    (p : RawPacket) (tables : Tables) (m : Network) : Prop where
  flow : Flow n x (fun y => if y ∈ sessions then frame p else []) m
  tasks : m.server.pool.tasks = []
  toServer : m.toServer x = []
  tables : m.server.shared.conn.tables = tables
  commands : ∀ q ∈ m.server.commands ++ m.server.shared.queue, q.cmd = ⟨.taskDone, fd, []⟩ ∨
    ∃ y ∈ sessions, q = ⟨⟨.sendRaw, m.server.fdOf y, frame p⟩, y⟩
  opened : ∀ y ∈ sessions, m.server.sessions (m.server.fdOf y) = some y ∧
    (m.server.obj y).closed = false
  apart : ∀ y ∈ sessions, m.server.fdOf y ≠ fd

/-- What is on its way to the client, and what it has of it in its buffer. -/
def stream (n : Network) (y : SessionId) : Bytes :=
  (n.clients y).connection.receiveBuffer ++ n.outgoing y

/-- Whole packets are on their way to the client, and none that it refuses. -/
structure Takes (n : Network) (y : SessionId) : Prop where
  part : packets.cut (n.clients y).connection.receiveBuffer = none
  whole : (packets.split (n.stream y)).2 = []
  small : packets.refuses tooLarge (n.stream y) = false

/-- The packets that are on their way to the client. -/
def earlier (n : Network) (y : SessionId) : List RawPacket := (packets.split (n.stream y)).1

variable {n m m' : Network} {x y : SessionId} {fd : Fd} {sessions : List SessionId} {p : RawPacket}
  {tables : Tables}

theorem Carrying.beside (h : Carrying n x fd sessions p tables m)
    (flow : Flow n x (fun y => if y ∈ sessions then frame p else []) m') (b : Beside x m m') :
    Carrying n x fd sessions p tables m' where
  flow := flow
  tasks := b.pool ▸ h.tasks
  toServer := b.toServer.trans h.toServer
  tables := by
    rw [b.shared]
    exact h.tables
  commands q hq := by
    rw [b.commands, b.shared] at hq
    simp only [b.fdOf]
    exact h.commands q hq
  opened y hy := by
    rw [b.sessions, b.fdOf, b.obj]
    exact h.opened y hy
  apart y hy := by
    rw [b.fdOf]
    exact h.apart y hy

theorem Carrying.drain (h : Carrying n x fd sessions p tables m) (idle : m.server.commands = [])
    (queued : m.server.shared.queue ≠ []) :
    Carrying n x fd sessions p tables { m with server := m.server.drain } ∧
      work { m with server := m.server.drain } < work m := by
  have all : m.server.drain.commands ++ m.server.drain.shared.queue =
      m.server.commands ++ m.server.shared.queue := by
    rw [idle]
    exact List.append_nil _
  obtain ⟨flow, less⟩ := h.flow.drain idle queued
  exact ⟨⟨flow, h.tasks, h.toServer, h.tables, all ▸ h.commands, h.opened, h.apart⟩, less⟩

/-- The next command sends: the session that its number is looked up to is the one that the packet
was pushed to. -/
theorem Carrying.sends (h : Carrying n x fd sessions p tables m) {q : Queued}
    {commands : List Queued} (head : m.server.commands = q :: commands)
    (goes : { m.server with commands := commands }.addressee q = some y) {sends : List SendResult}
    (ok : .error ∉ sends) :
    let m' := { m with
      server := { m.server with commands := commands }.processCommand { sends := sends } q
      toClient := Function.update m.toClient y (m.toClient y ++
        (m.server.obj y).sender.takenBySend q.cmd.data sends) }
    Carrying n x fd sessions p tables m' ∧ work m' < work m := by
  have front : q ∈ m.server.commands ++ m.server.shared.queue :=
    List.mem_append_left _ (head ▸ List.mem_cons_self)
  rcases h.commands q front with done | ⟨z, hz, rfl⟩
  · rw [Server.addressee, done] at goes
    cases goes
  obtain ⟨here, opened⟩ := h.opened z hz
  obtain rfl : y = z := by
    have closed : (({ m.server with commands := commands } : Server).obj z).closed = false :=
      opened
    simp only [Server.addressee, here, Option.filter_some, closed] at goes
    exact (Option.some.inj goes).symm
  have armed := h.flow.armed here opened
  have known : m.server.epoll (m.server.fdOf y) ≠ none := by
    rw [armed.mask]
    exact Option.some_ne_none _
  have sent := Server.sendRawDirect_sending (s := { m.server with commands := commands })
    (x := y) known (frame p) sends
  have processed : ∃ record, ({ m.server with commands := commands } : Server).processCommand
      { sends := sends } ⟨⟨.sendRaw, m.server.fdOf y, frame p⟩, y⟩ =
        { m.server.sending y ((m.server.obj y).sender.sendPacket (frame p) sends).1
            (((m.server.obj y).sender.sendPacket (frame p) sends).2.or
              (m.server.epoll (m.server.fdOf y))) with
          commands := commands, record := record } := by
    have closed : (({ m.server with commands := commands } : Server).obj y).closed = false :=
      opened
    simp only [Server.processCommand, here, closed, sent]
    exact ⟨_, rfl⟩
  obtain ⟨record, e⟩ := processed
  simp only [e]
  have obj := Server.sending_obj m.server y
    ((m.server.obj y).sender.sendPacket (frame p) sends).1
    (((m.server.obj y).sender.sendPacket (frame p) sends).2.or
      (m.server.epoll (m.server.fdOf y)))
  have fdOf := Server.sending_fdOf m.server y
    ((m.server.obj y).sender.sendPacket (frame p) sends).1
    (((m.server.obj y).sender.sendPacket (frame p) sends).2.or
      (m.server.epoll (m.server.fdOf y)))
  constructor
  · constructor
    · have bytes := (m.server.obj y).sender.sendPacket_bytes (frame p) sends
      apply h.flow.sending here opened
        (armed.sendPacket _ (.inr fun reached => ok reached.mem))
      · rw [head, List.cons_append,
          pending_own (q := ⟨⟨.sendRaw, m.server.fdOf y, frame p⟩, y⟩) rfl rfl,
          ← List.append_assoc, ← List.append_assoc]
        exact congrArg (· ++ _) bytes
      · intro z ne
        rw [head, List.cons_append, pending_other fun _ => ne.symm]
    · exact h.tasks
    · exact h.toServer
    · exact h.tables
    · intro q hq
      have old : q ∈ m.server.commands ++ m.server.shared.queue := by
        rw [head]
        exact List.mem_cons_of_mem _ hq
      rcases h.commands q old with done | ⟨z, hz, same⟩
      · exact .inl done
      · exact .inr ⟨z, hz, by rw [same, ← fdOf z]; rfl⟩
    · intro z hz
      obtain ⟨there, closed⟩ := h.opened z hz
      refine ⟨(congrArg m.server.sessions (fdOf z)).trans there, ?_⟩
      refine (congrArg ClientSession.closed (obj z)).trans ?_
      split
      · exact opened
      · exact closed
    · exact fun z hz same => h.apart z hz ((fdOf z).symm.trans same)
  · apply work_sending (h.flow.mapped _ y here).2
    have less := (m.server.obj y).sender.weight_sendPacket (frame p) sends
    rw [head, List.map_cons, List.sum_cons]
    simp only
    omega

/-- The next command reports the task done. -/
theorem Carrying.command (h : Carrying n x fd sessions p tables m) {q : Queued}
    {commands : List Queued} (head : m.server.commands = q :: commands)
    (none : { m.server with commands := commands }.addressee q = none) (sends : List SendResult) :
    let m' := { m with
      server := { m.server with commands := commands }.processCommand { sends := sends } q }
    Carrying n x fd sessions p tables m' ∧ work m' < work m := by
  have front : q ∈ m.server.commands ++ m.server.shared.queue :=
    List.mem_append_left _ (head ▸ List.mem_cons_self)
  rcases h.commands q front with done | ⟨y, hy, rfl⟩
  · have type : q.cmd.type = .taskDone := by rw [done]
    have number : q.cmd.fd = fd := by rw [done]
    have processed : ({ m.server with commands := commands } : Server).processCommand
        { sends := sends } q = ({ m.server with commands := commands } : Server).onTaskDone fd := by
      simp only [Server.processCommand, type, number]
    simp only [processed]
    have rest := Server.onTaskDone_elsewhere
      (s := { m.server with commands := commands }) fun y hy => (h.flow.mapped fd y hy).1
    obtain ⟨flow, less⟩ := h.flow.elsewhere head (by rw [type]; nofun) rest
    refine ⟨⟨flow, ?_, h.toServer, ?_, ?_, ?_, ?_⟩, less⟩
    · rw [rest.pool]
      exact h.tasks
    · rw [rest.conn]
      exact h.tables
    · intro c hc
      rw [rest.commands, rest.queue] at hc
      have old : c ∈ m.server.commands ++ m.server.shared.queue := by
        rw [head]
        exact List.mem_cons_of_mem _ hc
      simp only [rest.fdOf]
      exact h.commands c old
    · intro y hy
      obtain ⟨here, opened⟩ := h.opened y hy
      have there : (({ m.server with commands := commands } : Server).onTaskDone fd).sessions
          (m.server.fdOf y) = some y := by
        cases rest.sessions (m.server.fdOf y) with
        | inl same => exact same.trans here
        | inr gone => exact absurd gone.1 (h.apart y hy)
      rw [rest.fdOf, rest.obj y there]
      exact ⟨there, opened⟩
    · intro y hy
      rw [rest.fdOf]
      exact h.apart y hy
  · -- a packet goes to an open session
    obtain ⟨here, opened⟩ := h.opened y hy
    have closed : (({ m.server with commands := commands } : Server).obj y).closed = false := opened
    simp [Server.addressee, here, closed] at none

/-- Whatever the next step is, less is left to do. -/
theorem step_carrying (h : Carrying n x fd sessions p tables m) {e : Transfer}
    (step : m.transfer e = some m') :
    Carrying n x fd sessions p tables m' ∧ work m' < work m := by
  cases transfer_cases step with
  | read y chunks ahead _ here known nonempty full stream =>
    by_cases own : y = x
    · subst own
      rw [h.toServer] at stream
      exact absurd stream.symm (chunks_ne_nil nonempty full ahead)
    · obtain ⟨flow, b, less⟩ := h.flow.readPart own here known nonempty full stream
      exact ⟨h.beside flow b, less⟩
  | handle _ _ head => exact absurd (h.tasks.symm.trans head) nofun
  | drain idle queued => exact h.drain idle queued
  | command q commands sends head none => exact h.command head none sends
  | sends q commands sends y head goes ok => exact h.sends head goes ok
  | write y _ _ _ here asked positive ok =>
    obtain ⟨flow, b, less⟩ := h.flow.write here asked positive ok
    exact ⟨h.beside flow b, less⟩
  | readyRead y chunk ahead nonempty stream =>
    obtain ⟨flow, b, less⟩ := h.flow.readyRead nonempty stream
    exact ⟨h.beside flow b, less⟩

/-- When nobody can go on, each recipient's client has signalled what was on its way to it, and
then the packet. -/
theorem Carrying.last (h : Carrying n x fd sessions p tables m) (fits : Acceptable p)
    (stuck : ∀ e, m.transfer e = none) (hy : y ∈ sessions) (takes : n.Takes y) :
    m.signals y = n.signals y ++
      ((n.clients y).protocol.receive (n.earlier y ++ [p])).2 := by
  have rest := atRest_iff.mpr stuck
  obtain ⟨here, opened⟩ := h.opened y hy
  have armed := h.flow.armed here opened
  have sent : (m.server.obj y).sender.sendQueue = [] := by
    by_contra some
    have asked := armed.mask
    rw [if_neg (by simpa using some)] at asked
    exact rest.sent y here asked
  obtain ⟨chunks, client, told, bytes⟩ := h.flow.carried y
  have all : (n.clients y).connection.receiveBuffer ++ chunks.flatten = n.stream y ++ frame p := by
    rw [stream, List.append_assoc]
    refine congrArg _ (Eq.trans ?_ (bytes.trans (congrArg _ (if_pos hy))))
    simp [outgoing, rest.toClient y, sent, rest.commands, rest.queue, pending]
  have split : packets.split (n.stream y ++ frame p) = (n.earlier y ++ [p], []) := by
    rw [Cutter.split_append, takes.whole, List.nil_append, fits.split]
    rfl
  have small : packets.refuses tooLarge (n.stream y ++ frame p) = false := by
    rw [Cutter.refuses_append_eq_false, takes.whole, List.nil_append]
    exact ⟨takes.small, fits.refuses⟩
  have received := (Client.Received.start takes.part).reads chunks
    (by rw [all, split]) (by rw [all, small])
  have slots := received.slots
  rw [all, split] at slots
  rw [told, ← slots, List.nil_append]

end Network

end Cvcn
