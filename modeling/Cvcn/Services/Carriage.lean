import Mathlib.Algebra.Order.BigOperators.Group.List
import Mathlib.Algebra.Order.Ring.Nat
import Cvcn.Services.Network

/-!
# Bytes on their way

What the server has for a client is on the wire, in the session's sender or in the queue of
commands, and the client reads it in this order. A session may have bytes of earlier packets on
their way when a new packet is pushed to it: they go on at any moment, beside all that the server
does for the new one.
-/

namespace Cvcn

open Framing Machine

namespace Server

variable {s t : Server} {x : SessionId}

theorem setSession_obj (s : Server) (x : SessionId) (c : ClientSession) (y : SessionId) :
    (s.setSession x c).obj y = if y = x then c else s.obj y := by
  simp only [obj, setSession, Shared.setSession, Function.update_apply]

/-- What a command for another number leaves alone: it may close the session of its own. -/
structure Elsewhere (s t : Server) (fd : Fd) : Prop where
  pool : t.pool = s.pool
  queue : t.shared.queue = s.shared.queue
  conn : t.shared.conn = s.shared.conn
  next : t.shared.next = s.shared.next
  commands : t.commands = s.commands
  phase : t.phase = s.phase
  batch : t.batch = s.batch
  listenFd : t.listenFd = s.listenFd
  eventFd : t.eventFd = s.eventFd
  fdOf : ∀ y, t.fdOf y = s.fdOf y
  sender : ∀ y, (t.obj y).sender = (s.obj y).sender
  assembler : ∀ y, (t.obj y).assembler = (s.obj y).assembler
  obj : ∀ y, t.sessions (s.fdOf y) = some y → t.obj y = s.obj y
  sessions : ∀ g, t.sessions g = s.sessions g ∨ (g = fd ∧ t.sessions g = none)
  epoll : ∀ g, t.epoll g = s.epoll g ∨ (g = fd ∧ s.sessions g ≠ none ∧ t.sessions g = none)

theorem Elsewhere.refl (s : Server) (fd : Fd) : Elsewhere s s fd :=
  ⟨rfl, rfl, rfl, rfl, rfl, rfl, rfl, rfl, rfl, fun _ => rfl, fun _ => rfl, fun _ => rfl,
    fun _ _ => rfl, fun _ => .inl rfl, fun _ => .inl rfl⟩

/-- A number that is still known is known as before. -/
theorem Elsewhere.known {fd g : Fd} (h : Elsewhere s t fd) (hx : t.sessions g = some x) :
    s.sessions g = some x ∧ t.epoll g = s.epoll g := by
  have there := h.sessions g
  have mask := h.epoll g
  rw [hx] at there mask
  constructor
  · cases there with
    | inl same => exact same.symm
    | inr gone => cases gone.2
  · cases mask with
    | inl same => exact same
    | inr gone => cases gone.2.2

theorem closeSession_epoll {g : Fd} (other : g ≠ s.fdOf x) :
    (s.closeSession x).epoll g = s.epoll g := by
  unfold closeSession
  split
  · rfl
  · exact Function.update_of_ne other _ _

theorem closeClient_epoll {fd g : Fd} (here : s.sessions fd = some x) (other : g ≠ s.fdOf x) :
    (s.closeClient fd).epoll g = s.epoll g := by
  simp only [closeClient, here]
  by_cases user : (s.obj x).userID = -1
  · simp only [user, bne_self_eq_false, Bool.false_eq_true, if_false]
    exact closeSession_epoll other
  · simp only [bne_iff_ne, ne_eq, user, not_false_eq_true, if_true]
    have number : (s.unregisterUser (s.obj x).userID x).fdOf x = s.fdOf x := by
      unfold unregisterUser Shared.unregisterUser
      split <;> rfl
    exact closeSession_epoll (s := s.unregisterUser (s.obj x).userID x) (by rwa [number])

theorem closeClient_elsewhere {fd : Fd} (number : ∀ x, s.sessions fd = some x → s.fdOf x = fd) :
    Elsewhere s (s.closeClient fd) fd := by
  cases hx : s.sessions fd with
  | none =>
    rw [closeClient_none hx]
    exact .refl s fd
  | some x =>
    have own := number x hx
    have gone : (s.closeClient fd).sessions fd = none := by
      obtain ⟨epoll, openFds, e⟩ := closeClient_eq hx
      rw [e]
      exact Function.update_self _ _ _
    have same : ∀ y, (s.closeClient fd).obj y =
        if y = x then { s.obj x with closed := true, freed := true } else s.obj y := by
      intro y
      split
      · rename_i e
        rw [e, closeClient_obj_self hx]
      · rename_i ne
        exact closeClient_obj_of_ne hx ne
    have epoll : ∀ g, (s.closeClient fd).epoll g = s.epoll g ∨
        (g = fd ∧ s.sessions g ≠ none ∧ (s.closeClient fd).sessions g = none) := by
      intro g
      by_cases hg : g = fd
      · exact .inr ⟨hg, hg ▸ Option.ne_none_iff_exists'.mpr ⟨x, hx⟩, hg ▸ gone⟩
      · exact .inl (closeClient_epoll hx (own.symm ▸ hg))
    have frame := (s.closeClient_trims fd).deletes.frame
    obtain ⟨_, _, e⟩ := closeClient_eq hx
    refine ⟨by rw [e], by rw [e], by rw [e], by rw [e], by rw [e], by rw [e], by rw [e],
      by rw [e], by rw [e], fun y => frame.fdOf y, fun y => ?_, fun y => ?_, fun y hy => ?_,
      fun g => ?_, epoll⟩
    · rw [same]
      split
      · rename_i e
        rw [e]
      · rfl
    · rw [same]
      split
      · rename_i e
        rw [e]
      · rfl
    · rw [same, if_neg]
      rintro rfl
      rw [own, gone] at hy
      cases hy
    · by_cases hg : g = fd
      · exact .inr ⟨hg, hg ▸ gone⟩
      · rw [e]
        exact .inl (Function.update_of_ne hg _ _)

/-- `TaskDone` may close the session of its own number only. -/
theorem onTaskDone_elsewhere {fd : Fd} (number : ∀ x, s.sessions fd = some x → s.fdOf x = fd) :
    Elsewhere s (s.onTaskDone fd) fd := by
  unfold onTaskDone
  split
  · exact .refl s fd
  · rename_i count _
    simp only
    split
    · let last := closeDeferred { s with
        inFlight := Function.update s.inFlight fd (some (count - 1)) } fd
      have closed : Elsewhere last (last.closeClient fd) fd := closeClient_elsewhere number
      exact ⟨closed.pool, closed.queue, closed.conn, closed.next, closed.commands, closed.phase,
        closed.batch, closed.listenFd, closed.eventFd, closed.fdOf, closed.sender,
        closed.assembler, closed.obj, closed.sessions, closed.epoll⟩
    · exact ⟨rfl, rfl, rfl, rfl, rfl, rfl, rfl, rfl, rfl, fun _ => rfl, fun _ => rfl,
        fun _ => rfl, fun _ _ => rfl, fun _ => .inl rfl, fun _ => .inl rfl⟩

end Server

/-- The bytes that the commands send for a session. -/
def pending (y : SessionId) (qs : List Queued) : Bytes :=
  (qs.filter fun q => q.cmd.type == .sendRaw && q.origin == y).flatMap (·.cmd.data)

theorem pending_own {q : Queued} {y : SessionId} (type : q.cmd.type = .sendRaw)
    (own : q.origin = y) (qs : List Queued) : pending y (q :: qs) = q.cmd.data ++ pending y qs := by
  simp [pending, type, own]

theorem pending_other {q : Queued} {y : SessionId}
    (other : q.cmd.type = .sendRaw → q.origin ≠ y) (qs : List Queued) :
    pending y (q :: qs) = pending y qs := by
  by_cases type : q.cmd.type = .sendRaw
  · simp [pending, type, other type]
  · simp [pending, type]

namespace Network

/-- What the server has for a client, and the client has not read. -/
def outgoing (n : Network) (y : SessionId) : Bytes :=
  n.toClient y ++ (n.server.obj y).sender.sendQueue.flatten

/-- The session is open and armed, or closed and not watched. -/
def Watched (s : Server) (y : SessionId) : Prop :=
  if (s.obj y).closed then s.epoll (s.fdOf y) = none
  else (s.obj y).sender.Armed (s.epoll (s.fdOf y))

/-- The clients' streams since `n`: each client has read a first part of what was on its way to it
and of what was `pushed`. Only the session `x` may have a whole packet to read. -/
structure Flow (n : Network) (x : SessionId) (pushed : SessionId → Bytes) (m : Network) :
    Prop where
  mapped : ∀ g y, m.server.sessions g = some y → m.server.fdOf y = g ∧ y < m.server.shared.next
  beyond : ∀ y, m.server.shared.next ≤ y → m.toClient y = []
  watched : ∀ y, m.server.sessions (m.server.fdOf y) = some y → Watched m.server y
  parts : ∀ y, y ≠ x →
    packets.cut ((m.server.obj y).assembler.readBuffer ++ m.toServer y) = none
  carried : ∀ y, ∃ chunks, m.clients y = ((n.clients y).reads chunks).1 ∧
    m.signals y = n.signals y ++ ((n.clients y).reads chunks).2 ∧
    chunks.flatten ++ (m.outgoing y ++ pending y (m.server.commands ++ m.server.shared.queue)) =
      n.outgoing y ++ pushed y
  loops : Loops n.server → Loops m.server

/-- What is left to do for a byte that is on its way to the server or to a client. -/
def bytesLeft (m : Network) (y : SessionId) : Nat :=
  (m.server.obj y).sender.weight + (m.toClient y).length + (m.toServer y).length

/-- The steps that are left: a command still has to be drained and executed, and its bytes sent
and received. -/
def work (m : Network) : Nat :=
  (m.server.commands.map fun q => 2 * q.cmd.data.length + 2).sum +
    (m.server.shared.queue.map fun q => 2 * q.cmd.data.length + 3).sum +
    ((List.range m.server.shared.next).map m.bytesLeft).sum

/-- A sum of which one term changes. -/
theorem sum_map_update {sessions : List SessionId} (nodup : sessions.Nodup) {x : SessionId}
    (hx : x ∈ sessions) {f g : SessionId → Nat} (same : ∀ y, y ≠ x → g y = f y) :
    (sessions.map g).sum + f x = (sessions.map f).sum + g x := by
  have rest : (sessions.erase x).map g = (sessions.erase x).map f :=
    List.map_congr_left fun y hy => same y (nodup.mem_erase_iff.mp hy).1
  rw [← List.sum_map_erase f hx, ← List.sum_map_erase g hx, rest]
  omega

variable {n m m' : Network} {x y : SessionId} {pushed : SessionId → Bytes}

/-- Less is left when less is left of the commands and of one session together. -/
theorem work_lt (next : m'.server.shared.next = m.server.shared.next)
    (queue : m'.server.shared.queue = m.server.shared.queue) (hy : y < m.server.shared.next)
    (others : ∀ z, z ≠ y → m'.bytesLeft z = m.bytesLeft z)
    (less : (m'.server.commands.map fun q => 2 * q.cmd.data.length + 2).sum + m'.bytesLeft y <
      (m.server.commands.map fun q => 2 * q.cmd.data.length + 2).sum + m.bytesLeft y) :
    m'.work < m.work := by
  have terms := sum_map_update List.nodup_range (List.mem_range.mpr hy) others
  rw [work, work, next, queue]
  omega

/-- What a step that only moves bytes leaves alone; `x` does not read. -/
structure Beside (x : SessionId) (m m' : Network) : Prop where
  shared : m'.server.shared = { m.server.shared with objects := m'.server.shared.objects }
  obj : ∀ y, m'.server.obj y = { m.server.obj y with
    sender := (m'.server.obj y).sender, assembler := (m'.server.obj y).assembler }
  assembler : (m'.server.obj x).assembler = (m.server.obj x).assembler
  toServer : m'.toServer x = m.toServer x
  pool : m'.server.pool = m.server.pool
  commands : m'.server.commands = m.server.commands
  sessions : m'.server.sessions = m.server.sessions

theorem Beside.fdOf (h : Beside x m m') (y : SessionId) :
    m'.server.fdOf y = m.server.fdOf y := by
  rw [Server.fdOf, h.obj]
  rfl

/-- Nothing that the loop needs is taken away. -/
theorem Loops.keep {s t : Server} (h : Loops s) (phase : t.phase = s.phase)
    (batch : t.batch = s.batch) (workers : t.pool.workers = s.pool.workers)
    (listenFd : t.listenFd = s.listenFd) (eventFd : t.eventFd = s.eventFd)
    (epoll : t.epoll s.eventFd ≠ none)
    (sessions : ∀ fd y, t.sessions fd = some y → s.sessions fd = some y) : Loops t where
  phase := phase.trans h.phase
  batch := batch.trans h.batch
  waiting := workers ▸ h.waiting
  announced := eventFd ▸ epoll
  apart := eventFd ▸ listenFd ▸ h.apart
  clients fd y hy := eventFd ▸ listenFd ▸ h.clients fd y (sessions fd y hy)

/-- An open session in the map is armed. -/
theorem Flow.armed (h : Flow n x pushed m) (here : m.server.sessions (m.server.fdOf y) = some y)
    (opened : (m.server.obj y).closed = false) :
    (m.server.obj y).sender.Armed (m.server.epoll (m.server.fdOf y)) := by
  have watched := h.watched y here
  rwa [Watched, opened, if_neg Bool.false_ne_true] at watched

/-- A session whose number epoll knows is open. -/
theorem Flow.opened (h : Flow n x pushed m) (here : m.server.sessions (m.server.fdOf y) = some y)
    (known : m.server.epoll (m.server.fdOf y) ≠ none) : (m.server.obj y).closed = false := by
  have watched := h.watched y here
  cases closed : (m.server.obj y).closed with
  | false => rfl
  | true =>
    rw [Watched, closed, if_pos rfl] at watched
    exact absurd watched known

theorem fdOf_ne {z : SessionId} (hy : m.server.sessions (m.server.fdOf y) = some y)
    (hz : m.server.sessions (m.server.fdOf z) = some z) (ne : z ≠ y) :
    m.server.fdOf z ≠ m.server.fdOf y := by
  intro same
  rw [same, hy] at hz
  exact ne (Option.some.inj hz).symm

/-- The session's sender goes on, with or without the next command. -/
theorem Flow.sending (h : Flow n x pushed m)
    (here : m.server.sessions (m.server.fdOf y) = some y)
    (opened : (m.server.obj y).closed = false) {sender : PacketSender} {mask : Option EpollMask}
    {bytes : Bytes} {commands : List Queued} {record : Record} (armed : sender.Armed mask)
    (own : bytes ++ (sender.sendQueue.flatten ++
        pending y (commands ++ m.server.shared.queue)) =
      (m.server.obj y).sender.sendQueue.flatten ++
        pending y (m.server.commands ++ m.server.shared.queue))
    (elsewhere : ∀ z, z ≠ y → pending z (commands ++ m.server.shared.queue) =
      pending z (m.server.commands ++ m.server.shared.queue)) :
    Flow n x pushed { m with
      server := { m.server.sending y sender mask with commands := commands, record := record }
      toClient := Function.update m.toClient y (m.toClient y ++ bytes) } := by
  have obj := Server.sending_obj m.server y sender mask
  have fdOf := Server.sending_fdOf m.server y sender mask
  have closed : ∀ z, ((m.server.sending y sender mask).obj z).closed =
      (m.server.obj z).closed := by
    intro z
    rw [obj]
    split
    · rename_i e
      rw [e]
    · rfl
  constructor
  · exact fun g z hz => ⟨(fdOf z).trans (h.mapped g z hz).1, (h.mapped g z hz).2⟩
  · intro z hz
    have ne : z ≠ y := by
      rintro rfl
      exact absurd (h.mapped _ z here).2 (Nat.not_lt.mpr hz)
    exact (Function.update_of_ne ne _ _).trans (h.beyond z hz)
  · intro z hz
    have there : m.server.sessions (m.server.fdOf z) = some z := by
      rw [← fdOf z]
      exact hz
    have watched := h.watched z there
    have goal : Watched (m.server.sending y sender mask) z := by
      rw [Watched, closed]
      rw [Watched] at watched
      by_cases shut : (m.server.obj z).closed = true
      · have ne : z ≠ y := by
          rintro rfl
          rw [opened] at shut
          cases shut
        rw [if_pos shut] at watched ⊢
        rw [fdOf]
        exact (Function.update_of_ne (fdOf_ne here there ne) _ _).trans watched
      · rw [if_neg shut] at watched ⊢
        exact Server.sending_armed armed fun ne => ⟨fdOf_ne here there ne, watched⟩
    exact goal
  · intro z hz
    have same : ((m.server.sending y sender mask).obj z).assembler =
        (m.server.obj z).assembler := by
      rw [obj]
      split
      · rename_i e
        rw [e]
      · rfl
    have part := h.parts z hz
    rw [← same] at part
    exact part
  · intro z
    obtain ⟨chunks, client, told, stream⟩ := h.carried z
    refine ⟨chunks, client, told, ?_⟩
    have goal : chunks.flatten ++ (Function.update m.toClient y (m.toClient y ++ bytes) z ++
        ((m.server.sending y sender mask).obj z).sender.sendQueue.flatten ++
          pending z (commands ++ m.server.shared.queue)) = n.outgoing z ++ pushed z := by
      rw [← stream, obj, outgoing, List.append_assoc, List.append_assoc]
      by_cases e : z = y
      · subst e
        rw [if_pos rfl, Function.update_self, List.append_assoc, own]
      · rw [if_neg e, Function.update_of_ne e, elsewhere z e]
    exact goal
  · intro loops
    have before := h.loops loops
    refine before.keep rfl rfl rfl rfl rfl ?_ fun _ _ => id
    intro none
    have asked : Function.update m.server.epoll (m.server.fdOf y) mask m.server.eventFd = .none :=
      none
    by_cases e : m.server.eventFd = m.server.fdOf y
    · rw [e, Function.update_self, armed.mask] at asked
      cases asked
    · rw [Function.update_of_ne e] at asked
      exact before.announced asked

theorem work_sending (hy : y < m.server.shared.next) {sender : PacketSender}
    {mask : Option EpollMask} {bytes : Bytes} {commands : List Queued} {record : Record}
    (lower : (commands.map fun q => 2 * q.cmd.data.length + 2).sum +
        (sender.weight + bytes.length) <
      (m.server.commands.map fun q => 2 * q.cmd.data.length + 2).sum +
        (m.server.obj y).sender.weight) :
    work { m with
      server := { m.server.sending y sender mask with commands := commands, record := record }
      toClient := Function.update m.toClient y (m.toClient y ++ bytes) } < work m := by
  have obj := Server.sending_obj m.server y sender mask
  refine work_lt (y := y) rfl rfl hy ?_ ?_
  · intro z ne
    have goal : ((m.server.sending y sender mask).obj z).sender.weight +
        (Function.update m.toClient y (m.toClient y ++ bytes) z).length +
        (m.toServer z).length = m.bytesLeft z := by
      rw [obj, if_neg ne, Function.update_of_ne ne, bytesLeft]
    exact goal
  · have own : ((m.server.sending y sender mask).obj y).sender.weight +
        (Function.update m.toClient y (m.toClient y ++ bytes) y).length +
        (m.toServer y).length = sender.weight + ((m.toClient y).length + bytes.length) +
          (m.toServer y).length := by
      rw [obj, if_pos rfl, Function.update_self, List.length_append]
    have goal : (commands.map fun q => 2 * q.cmd.data.length + 2).sum +
        (((m.server.sending y sender mask).obj y).sender.weight +
          (Function.update m.toClient y (m.toClient y ++ bytes) y).length +
          (m.toServer y).length) <
        (m.server.commands.map fun q => 2 * q.cmd.data.length + 2).sum + m.bytesLeft y := by
      rw [own, bytesLeft]
      omega
    exact goal

/-- The kernel takes more of what a session has queued. -/
theorem Flow.write (h : Flow n x pushed m) (here : m.server.sessions (m.server.fdOf y) = some y)
    (asked : m.server.epoll (m.server.fdOf y) = some .write) {size : Nat} (positive : 0 < size)
    {sends : List SendResult} (ok : .error ∉ sends) :
    let m' := { m with
      server := m.server.onWrite (m.server.fdOf y) (.sent size :: sends)
      toClient := Function.update m.toClient y (m.toClient y ++
        PacketSender.taken (m.server.obj y).sender.sendQueue (.sent size :: sends)) }
    Flow n x pushed m' ∧ Beside x m m' ∧ work m' < work m := by
  have known : m.server.epoll (m.server.fdOf y) ≠ none := by
    rw [asked]
    nofun
  have opened := h.opened here known
  have armed := h.armed here opened
  have ok : SendResult.error ∉ SendResult.sent size :: sends := by
    simpa using ok
  have unfailed : ¬ PacketSender.ErrorReached (m.server.obj y).sender.sendQueue
      (.sent size :: sends) := fun reached => ok reached.mem
  have nonempty : (m.server.obj y).sender.sendQueue ≠ [] := by
    intro empty
    have mask := armed.mask
    rw [asked, empty] at mask
    cases mask
  have wrote := Server.onWrite_sending here opened known (.sent size :: sends)
  simp only [wrote]
  refine ⟨?_, ?_, ?_⟩
  · have bytes := (m.server.obj y).sender.handleWrite_bytes (.sent size :: sends)
    apply h.sending here opened (PacketSender.armed_handleWrite _ unfailed)
    · rw [← List.append_assoc]
      exact congrArg (· ++ _) bytes
    · exact fun _ _ => rfl
  · refine ⟨rfl, fun z => ?_, ?_, rfl, rfl, rfl, rfl⟩ <;> simp only [Server.sending_obj]
    · split
      · rename_i e
        rw [e]
      · rfl
    · split
      · rename_i e
        rw [e]
      · rfl
  · apply work_sending (h.mapped _ y here).2
    have less := PacketSender.weight_handleWrite nonempty positive sends
    omega

/-- A client reads more of what is on the wire. -/
theorem Flow.readyRead (h : Flow n x pushed m) {chunk ahead : Bytes} (nonempty : chunk ≠ [])
    (stream : m.toClient y = chunk ++ ahead) :
    let m' := { m with
      clients := Function.update m.clients y ((m.clients y).readyRead chunk).1
      toClient := Function.update m.toClient y ahead
      signals := Function.update m.signals y
        (m.signals y ++ ((m.clients y).readyRead chunk).2) }
    Flow n x pushed m' ∧ Beside x m m' ∧ work m' < work m := by
  have inside : y < m.server.shared.next := by
    by_contra beyond
    rw [h.beyond y (Nat.le_of_not_lt beyond)] at stream
    exact nonempty (List.append_eq_nil_iff.mp stream.symm).1
  refine ⟨⟨h.mapped, fun z hz => ?_, h.watched, h.parts, fun z => ?_, h.loops⟩,
    ⟨rfl, fun _ => rfl, rfl, rfl, rfl, rfl, rfl⟩, ?_⟩
  · have ne : z ≠ y := by
      rintro rfl
      exact absurd inside (Nat.not_lt.mpr hz)
    exact (Function.update_of_ne ne _ _).trans (h.beyond z hz)
  · obtain ⟨chunks, client, told, bytes⟩ := h.carried z
    by_cases e : z = y
    · subst e
      refine ⟨chunks ++ [chunk], ?_, ?_, ?_⟩
      · simp only [Function.update_self, Client.reads_append, ← client, Client.reads]
      · simp only [Function.update_self, Client.reads_append, ← client, Client.reads, told,
          List.append_assoc, List.append_nil]
      · rw [← bytes]
        simp only [outgoing, Function.update_self, stream, List.flatten_append, List.flatten_cons,
          List.flatten_nil, List.append_assoc, List.append_nil]
    · refine ⟨chunks, ?_, ?_, ?_⟩
      · simpa only [Function.update_of_ne e] using client
      · simpa only [Function.update_of_ne e] using told
      · simpa only [outgoing, Function.update_of_ne e] using bytes
  · have some := List.length_pos_iff.mpr nonempty
    refine work_lt (y := y) rfl rfl inside ?_ ?_
    · intro z ne
      simp only [bytesLeft, Function.update_of_ne ne]
    · simp only [bytesLeft, Function.update_self, stream, List.length_append]
      omega

/-- A session has read a chunk and keeps `rest` of it; a task may have come of it. -/
theorem Flow.reading (h : Flow n x pushed m)
    (here : m.server.sessions (m.server.fdOf y) = some y) {chunk ahead : Bytes} (rest : Bytes)
    (pool : ThreadPool Job Running) (inFlight : Fd → Option Nat) (nonempty : chunk ≠ [])
    (stream : m.toServer y = chunk ++ ahead)
    (part : y ≠ x → packets.cut (rest ++ ahead) = none)
    (workers : pool.workers = m.server.pool.workers) :
    let m' := { m with
      server := { m.server.setSession y { m.server.obj y with assembler := ⟨rest⟩ } with
        pool := pool, inFlight := inFlight }
      toServer := Function.update m.toServer y ahead }
    Flow n x pushed m' ∧ work m' < work m := by
  let s := m.server.setSession y { m.server.obj y with assembler := ⟨rest⟩ }
  have obj : ∀ z, s.obj z =
      if z = y then { m.server.obj y with assembler := ⟨rest⟩ } else m.server.obj z :=
    m.server.setSession_obj y _
  have fdOf : ∀ z, s.fdOf z = m.server.fdOf z := by
    intro z
    rw [Server.fdOf, obj]
    split
    · rename_i e
      rw [e]
      rfl
    · rfl
  have sender : ∀ z, (s.obj z).sender = (m.server.obj z).sender := by
    intro z
    rw [obj]
    split
    · rename_i e
      rw [e]
    · rfl
  constructor
  · constructor
    · exact fun g z hz => ⟨(fdOf z).trans (h.mapped g z hz).1, (h.mapped g z hz).2⟩
    · exact h.beyond
    · intro z hz
      have there : m.server.sessions (m.server.fdOf z) = some z := fdOf z ▸ hz
      have watched := h.watched z there
      have goal : Watched s z := by
        rw [Watched] at watched ⊢
        rw [fdOf, obj]
        split
        · rename_i e
          subst e
          exact watched
        · exact watched
      exact goal
    · intro z hz
      have goal : packets.cut ((s.obj z).assembler.readBuffer ++
          Function.update m.toServer y ahead z) = none := by
        rw [obj]
        by_cases e : z = y
        · subst e
          rw [if_pos rfl, Function.update_self]
          exact part hz
        · rw [if_neg e, Function.update_of_ne e]
          exact h.parts z hz
      exact goal
    · intro z
      obtain ⟨received, client, told, bytes⟩ := h.carried z
      refine ⟨received, client, told, ?_⟩
      rw [← bytes, outgoing, outgoing, ← sender]
      rfl
    · intro loops
      have before := h.loops loops
      exact before.keep rfl rfl workers rfl rfl before.announced fun _ _ => id
  · have some := List.length_pos_iff.mpr nonempty
    refine work_lt (y := y) rfl rfl (h.mapped _ y here).2 ?_ ?_
    · intro z ne
      have goal : (s.obj z).sender.weight + (m.toClient z).length +
          (Function.update m.toServer y ahead z).length = m.bytesLeft z := by
        rw [sender, Function.update_of_ne ne, bytesLeft]
      exact goal
    · have goal : (m.server.commands.map fun q => 2 * q.cmd.data.length + 2).sum +
          ((s.obj y).sender.weight + (m.toClient y).length +
            (Function.update m.toServer y ahead y).length) <
          (m.server.commands.map fun q => 2 * q.cmd.data.length + 2).sum + m.bytesLeft y := by
        rw [sender, Function.update_self, bytesLeft, stream, List.length_append]
        omega
      exact goal

/-- Another session reads, and no whole packet comes of it. -/
theorem Flow.readPart (h : Flow n x pushed m) (other : y ≠ x)
    (here : m.server.sessions (m.server.fdOf y) = some y)
    (known : m.server.epoll (m.server.fdOf y) ≠ none) {chunks : List Bytes} {ahead : Bytes}
    (nonempty : chunks ≠ []) (full : ∀ chunk ∈ chunks, chunk ≠ [])
    (stream : m.toServer y = chunks.flatten ++ ahead) :
    let m' := { m with
      server := m.server.onRead (m.server.fdOf y) (chunks.map .bytes ++ [.again])
      toServer := Function.update m.toServer y ahead }
    Flow n x pushed m' ∧ Beside x m m' ∧ work m' < work m := by
  have part := h.parts y other
  rw [stream, ← List.append_assoc] at part
  have read := Server.onRead_part here (h.opened here known) rfl full (Cutter.cut_of_append part)
  have some : chunks.flatten ≠ [] := by
    have some := chunks_ne_nil nonempty full []
    rwa [List.append_nil] at some
  obtain ⟨flow, less⟩ := h.reading here ((m.server.obj y).assembler.readBuffer ++ chunks.flatten)
    m.server.pool m.server.inFlight some stream (fun _ => part) rfl
  simp only [read]
  refine ⟨flow, ⟨rfl, fun z => ?_, ?_, Function.update_of_ne other.symm _ _, rfl, rfl, rfl⟩, less⟩
  · rw [Server.setSession_obj]
    split
    · rename_i e
      rw [e]
    · rfl
  · rw [Server.setSession_obj, if_neg other.symm]

/-- The command that the next step executes is not for any of the open sessions. -/
theorem Flow.elsewhere (h : Flow n x pushed m) {q : Queued} {commands : List Queued}
    (head : m.server.commands = q :: commands) (silent : q.cmd.type ≠ .sendRaw) {t : Server}
    {fd : Fd} (rest : Server.Elsewhere { m.server with commands := commands } t fd) :
    Flow n x pushed { m with server := t } ∧ work { m with server := t } < work m := by
  have left : t.commands = commands := rest.commands
  have queue : t.shared.queue = m.server.shared.queue := rest.queue
  have fdOf : ∀ y, t.fdOf y = m.server.fdOf y := rest.fdOf
  have sender : ∀ y, (t.obj y).sender = (m.server.obj y).sender := rest.sender
  constructor
  · constructor
    · intro g y hy
      obtain ⟨number, inside⟩ := h.mapped g y (rest.known hy).1
      exact ⟨(fdOf y).trans number, rest.next ▸ inside⟩
    · intro y hy
      exact h.beyond y (rest.next ▸ hy)
    · intro y hy
      have there : t.sessions (m.server.fdOf y) = some y := fdOf y ▸ hy
      have watched := h.watched y (rest.known there).1
      rw [Watched] at watched ⊢
      have mask : t.epoll (m.server.fdOf y) = m.server.epoll (m.server.fdOf y) :=
        (rest.known there).2
      rw [fdOf, mask, rest.obj y there]
      exact watched
    · intro y hy
      simp only [rest.assembler]
      exact h.parts y hy
    · intro y
      obtain ⟨chunks, client, told, bytes⟩ := h.carried y
      refine ⟨chunks, client, told, ?_⟩
      rw [head, List.cons_append, pending_other fun send => absurd send silent] at bytes
      rw [← bytes]
      simp only [outgoing, sender, left, queue]
    · intro loops
      have before := h.loops loops
      apply before.keep rest.phase rest.batch (by rw [rest.pool]) rest.listenFd rest.eventFd
      · cases rest.epoll m.server.eventFd with
        | inl same => exact same.symm ▸ before.announced
        | inr gone =>
          obtain ⟨y, hy⟩ := Option.ne_none_iff_exists'.mp gone.2.1
          exact absurd rfl (before.clients _ y hy).2
      · exact fun g y hy => (rest.known hy).1
  · have each : ∀ y, bytesLeft { m with server := t } y = m.bytesLeft y := by
      intro y
      simp only [bytesLeft, sender]
    have next : t.shared.next = m.server.shared.next := rest.next
    have same : (List.range t.shared.next).map (bytesLeft { m with server := t }) =
        (List.range m.server.shared.next).map m.bytesLeft := by
      rw [next]
      exact List.map_congr_left fun y _ => each y
    unfold work
    rw [same, left, queue, head, List.map_cons, List.sum_cons]
    omega

/-- A task has been handled, and its commands are the first in the queue. -/
theorem Flow.queued (h : Flow n x (fun _ => []) m) (commands : m.server.commands = [])
    (empty : m.server.shared.queue = []) (pool : ThreadPool Job Running) (conn : Conn)
    (workers : pool.workers = m.server.pool.workers) (queue : List Queued) :
    let m' := { m with server := { m.server with
      pool := pool, shared := { m.server.shared with conn := conn, queue := queue } } }
    Flow n x (pending · queue) m' ∧
      work m' = work m + (queue.map fun q => 2 * q.cmd.data.length + 3).sum := by
  refine ⟨⟨h.mapped, h.beyond, h.watched, h.parts, fun y => ?_, fun loops => ?_⟩, ?_⟩
  · obtain ⟨chunks, client, told, bytes⟩ := h.carried y
    refine ⟨chunks, client, told, ?_⟩
    rw [commands, empty, List.append_nil] at bytes
    have before : chunks.flatten ++ m.outgoing y = n.outgoing y := by
      simpa [pending] using bytes
    rw [← before, List.append_assoc]
    simp only [commands, List.nil_append]
    rfl
  · have before := h.loops loops
    exact before.keep rfl rfl workers rfl rfl before.announced fun _ _ => id
  · simp only [work, commands, empty, List.map_nil, List.sum_nil, Nat.zero_add]
    exact Nat.add_comm _ _

theorem Flow.drain (h : Flow n x pushed m) (idle : m.server.commands = [])
    (queued : m.server.shared.queue ≠ []) :
    Flow n x pushed { m with server := m.server.drain } ∧
      work { m with server := m.server.drain } < work m := by
  have all : m.server.drain.commands ++ m.server.drain.shared.queue =
      m.server.commands ++ m.server.shared.queue := by
    rw [idle]
    exact List.append_nil _
  refine ⟨⟨h.mapped, h.beyond, h.watched, h.parts, fun y => ?_, fun loops => ?_⟩, ?_⟩
  · obtain ⟨chunks, client, told, bytes⟩ := h.carried y
    exact ⟨chunks, client, told, all ▸ bytes⟩
  · have before := h.loops loops
    exact before.keep rfl rfl rfl rfl rfl before.announced fun _ _ => id
  · obtain ⟨q, queue, e⟩ := List.exists_cons_of_ne_nil queued
    have each : (m.server.shared.queue.map fun q => 2 * q.cmd.data.length + 2).sum <
        (m.server.shared.queue.map fun q => 2 * q.cmd.data.length + 3).sum := by
      apply List.sum_lt_sum
      · intros
        omega
      · exact ⟨q, e ▸ List.mem_cons_self, Nat.lt_succ_self _⟩
    have same : bytesLeft { m with server := m.server.drain } = m.bytesLeft := rfl
    unfold work
    rw [same]
    simp only [Server.drain, idle, List.map_nil, List.sum_nil] at each ⊢
    omega

end Network

end Cvcn
