import Cvcn.Services.Carriage

/-!
# A packet from a client to a task

Requests are handled one at a time, and one client has sent the next. Its packet comes together in
its session's buffer, in whatever chunks, and becomes one task, and the task is handled. The bytes
of earlier packets may still be on their way to the clients.
-/

namespace Cvcn

open Framing Machine

namespace Network

/-- No request is under way, and the session `x` may send the next one. -/
structure Idle (n : Network) (x : SessionId) : Prop where
  going : n.server.pool.stopping = false
  tasks : n.server.pool.tasks = []
  queue : n.server.shared.queue = []
  commands : n.server.commands = []
  mapped : ∀ g y, n.server.sessions g = some y → n.server.fdOf y = g ∧ y < n.server.shared.next
  beyond : ∀ y, n.server.shared.next ≤ y → n.toClient y = []
  watched : ∀ y, n.server.sessions (n.server.fdOf y) = some y → Watched n.server y
  /-- The others may have sent the first part of a packet. -/
  parts : ∀ y, y ≠ x →
    packets.cut ((n.server.obj y).assembler.readBuffer ++ n.toServer y) = none
  here : n.server.sessions (n.server.fdOf x) = some x
  opened : (n.server.obj x).closed = false
  assembler : (n.server.obj x).assembler = {}

variable {n m m' : Network} {x : SessionId} {p : RawPacket} {buffer ahead : Bytes}

/-- Nothing has been handled since `n`. -/
structure Asking (n : Network) (x : SessionId) (m : Network) : Prop where
  flow : Flow n x (fun _ => []) m
  shared : m.server.shared = { n.server.shared with objects := m.server.shared.objects }
  obj : ∀ y, m.server.obj y = { n.server.obj y with
    sender := (m.server.obj y).sender, assembler := (m.server.obj y).assembler }
  sessions : m.server.sessions = n.server.sessions
  commands : m.server.commands = []

/-- The session has these bytes of the packet in its buffer, and `ahead` is still to come. -/
structure Arriving (n : Network) (x : SessionId) (p : RawPacket) (buffer ahead : Bytes)
    (m : Network) : Prop extends Asking n x m where
  pool : m.server.pool = n.server.pool
  assembler : (m.server.obj x).assembler = ⟨buffer⟩
  toServer : m.toServer x = ahead
  missing : ahead ≠ []
  whole : buffer ++ ahead = frame p

/-- The packet of the session is a task. -/
structure Waiting (n : Network) (x : SessionId) (p : RawPacket) (m : Network) : Prop
    extends Asking n x m where
  pool : m.server.pool = { n.server.pool with tasks := [⟨n.server.fdOf x, toTask x p⟩] }
  toServer : m.toServer x = []

/-- The task of the packet has been handled. -/
def handled (m : Network) (x : SessionId) (p : RawPacket) : Network :=
  let fd := m.server.fdOf x
  { m with
    server := { m.server with
      pool := { m.server.pool with
        tasks := [], started := m.server.pool.started ++ [⟨fd, toTask x p⟩] }
      shared := (m.server.shared.handle (toTask x p)).push ⟨.taskDone, fd, []⟩ x } }

theorem Asking.fdOf (h : Asking n x m) (y : SessionId) : m.server.fdOf y = n.server.fdOf y := by
  rw [Server.fdOf, h.obj]
  rfl

theorem Asking.queue (h : Asking n x m) (idle : n.Idle x) : m.server.shared.queue = [] := by
  rw [h.shared]
  exact idle.queue

theorem Asking.here (h : Asking n x m) (idle : n.Idle x) :
    m.server.sessions (m.server.fdOf x) = some x := by
  rw [h.sessions, h.fdOf]
  exact idle.here

theorem Asking.opened (h : Asking n x m) (idle : n.Idle x) :
    (m.server.obj x).closed = false := by
  rw [h.obj]
  exact idle.opened

theorem Asking.beside (h : Asking n x m) (flow : Flow n x (fun _ => []) m')
    (b : Beside x m m') : Asking n x m' where
  flow := flow
  shared := by
    rw [b.shared, h.shared]
  obj y := by
    rw [b.obj, h.obj]
  sessions := b.sessions.trans h.sessions
  commands := b.commands.trans h.commands

theorem Arriving.beside (h : Arriving n x p buffer ahead m) (flow : Flow n x (fun _ => []) m')
    (b : Beside x m m') : Arriving n x p buffer ahead m' where
  toAsking := h.toAsking.beside flow b
  pool := b.pool.trans h.pool
  assembler := b.assembler.trans h.assembler
  toServer := b.toServer.trans h.toServer
  missing := h.missing
  whole := h.whole

theorem Waiting.beside (h : Waiting n x p m) (flow : Flow n x (fun _ => []) m')
    (b : Beside x m m') : Waiting n x p m' where
  toAsking := h.toAsking.beside flow b
  pool := b.pool.trans h.pool
  toServer := b.toServer.trans h.toServer

/-- The session reads another part of its packet, or the rest of it. -/
theorem Arriving.read (h : Arriving n x p buffer ahead m) (idle : n.Idle x) (fits : Acceptable p)
    {chunks : List Bytes} {ahead' : Bytes} (nonempty : chunks ≠ [])
    (full : ∀ chunk ∈ chunks, chunk ≠ []) (stream : m.toServer x = chunks.flatten ++ ahead') :
    let m' := { m with
      server := m.server.onRead (m.server.fdOf x) (chunks.map .bytes ++ [.again])
      toServer := Function.update m.toServer x ahead' }
    (Waiting n x p m' ∨ ∃ buffer' ahead', Arriving n x p buffer' ahead' m') ∧
      work m' < work m := by
  have here := h.here idle
  have opened := h.opened idle
  have bytes : chunks.flatten ≠ [] := by
    have bytes := chunks_ne_nil nonempty full []
    rwa [List.append_nil] at bytes
  have whole := h.whole
  rw [← h.toServer, stream, ← List.append_assoc] at whole
  have part := fits.part h.whole h.missing
  have obj (rest : Bytes) (y : SessionId) : (m.server.setSession x
      { m.server.obj x with assembler := ⟨rest⟩ }).obj y = { n.server.obj y with
        sender := ((m.server.setSession x
          { m.server.obj x with assembler := ⟨rest⟩ }).obj y).sender
        assembler := ((m.server.setSession x
          { m.server.obj x with assembler := ⟨rest⟩ }).obj y).assembler } := by
    rw [Server.setSession_obj]
    split
    · rename_i e
      rw [e, h.obj x]
    · exact h.obj y
  by_cases more : ahead' = []
  · subst more
    rw [List.append_nil] at whole
    have read := Server.onRead_whole here opened h.assembler full part fits whole
    have submitted : m.server.pool.submit ⟨m.server.fdOf x, toTask x p⟩ =
        { n.server.pool with tasks := [⟨n.server.fdOf x, toTask x p⟩] } := by
      rw [h.pool, h.fdOf]
      simp [ThreadPool.submit, idle.going, idle.tasks]
    obtain ⟨flow, less⟩ := h.flow.reading here []
      (m.server.pool.submit ⟨m.server.fdOf x, toTask x p⟩)
      (Function.update m.server.inFlight (m.server.fdOf x)
        (some ((m.server.inFlight (m.server.fdOf x)).getD 0 + 1))) bytes stream
      (fun ne => absurd rfl ne) (by rw [submitted, h.pool])
    simp only [read]
    refine ⟨.inl ⟨⟨flow, ?_, obj [], h.sessions, h.commands⟩, submitted,
      Function.update_self _ _ _⟩, less⟩
    exact (congrArg (fun sh : Shared => { sh with objects := (m.server.setSession x
      { m.server.obj x with assembler := ⟨[]⟩ }).shared.objects }) h.shared :)
  · have unfinished := fits.part whole more
    have read := Server.onRead_part here opened h.assembler full unfinished
    obtain ⟨flow, less⟩ := h.flow.reading here (buffer ++ chunks.flatten) m.server.pool
      m.server.inFlight bytes stream (fun ne => absurd rfl ne) rfl
    simp only [read]
    refine ⟨.inr ⟨buffer ++ chunks.flatten, ahead', ⟨flow, ?_, obj _, h.sessions, h.commands⟩,
      h.pool, ?_, Function.update_self _ _ _, more, whole⟩, less⟩
    · exact (congrArg (fun sh : Shared => { sh with objects := (m.server.setSession x
        { m.server.obj x with assembler := ⟨buffer ++ chunks.flatten⟩ }).shared.objects })
        h.shared :)
    · rw [Server.setSession_obj, if_pos rfl]

/-- While the packet arrives. -/
theorem step_arriving (h : Arriving n x p buffer ahead m) (idle : n.Idle x) (fits : Acceptable p)
    {e : Transfer} (step : m.transfer e = some m') :
    (Waiting n x p m' ∨ ∃ buffer' ahead', Arriving n x p buffer' ahead' m') ∧
      work m' < work m := by
  cases transfer_cases step with
  | read y chunks ahead' _ here known nonempty full stream =>
    by_cases own : y = x
    · subst own
      exact h.read idle fits nonempty full stream
    · obtain ⟨flow, b, less⟩ := h.flow.readPart own here known nonempty full stream
      exact ⟨.inr ⟨buffer, ahead, h.beside flow b⟩, less⟩
  | handle job tasks head =>
    rw [h.pool, idle.tasks] at head
    cases head
  | drain _ queued => exact absurd (h.queue idle) queued
  | command _ _ _ head => exact absurd (h.commands.symm.trans head) nofun
  | sends _ _ _ _ head => exact absurd (h.commands.symm.trans head) nofun
  | write y _ _ _ here asked positive ok =>
    obtain ⟨flow, b, less⟩ := h.flow.write here asked positive ok
    exact ⟨.inr ⟨buffer, ahead, h.beside flow b⟩, less⟩
  | readyRead y chunk ahead' nonempty stream =>
    obtain ⟨flow, b, less⟩ := h.flow.readyRead nonempty stream
    exact ⟨.inr ⟨buffer, ahead, h.beside flow b⟩, less⟩

/-- While the task waits. -/
theorem step_waiting (h : Waiting n x p m) (idle : n.Idle x) {e : Transfer}
    (step : m.transfer e = some m') :
    (Waiting n x p m' ∧ work m' < work m) ∨ m' = handled m x p := by
  cases transfer_cases step with
  | read y chunks ahead _ here known nonempty full stream =>
    by_cases own : y = x
    · subst own
      rw [h.toServer] at stream
      exact absurd stream.symm (chunks_ne_nil nonempty full ahead)
    · obtain ⟨flow, b, less⟩ := h.flow.readPart own here known nonempty full stream
      exact .inl ⟨h.beside flow b, less⟩
  | handle job tasks head =>
    rw [h.pool] at head
    cases head
    rw [← h.fdOf]
    exact .inr rfl
  | drain _ queued => exact absurd (h.queue idle) queued
  | command _ _ _ head => exact absurd (h.commands.symm.trans head) nofun
  | sends _ _ _ _ head => exact absurd (h.commands.symm.trans head) nofun
  | write y _ _ _ here asked positive ok =>
    obtain ⟨flow, b, less⟩ := h.flow.write here asked positive ok
    exact .inl ⟨h.beside flow b, less⟩
  | readyRead y chunk ahead nonempty stream =>
    obtain ⟨flow, b, less⟩ := h.flow.readyRead nonempty stream
    exact .inl ⟨h.beside flow b, less⟩

/-- Neither phase is an end. -/
theorem Arriving.goes_on (h : Arriving n x p buffer ahead m) (idle : n.Idle x) :
    ¬ ∀ e, m.transfer e = none := by
  intro stuck
  have here := h.here idle
  have known : m.server.epoll (m.server.fdOf x) ≠ none := by
    rw [(h.flow.armed here (h.opened idle)).mask]
    exact Option.some_ne_none _
  have read := (atRest_iff.mpr stuck).toServer x here known
  rw [h.toServer] at read
  exact h.missing read

theorem Waiting.goes_on (h : Waiting n x p m) : ¬ ∀ e, m.transfer e = none := by
  intro stuck
  have rest := (atRest_iff.mpr stuck).tasks
  rw [h.pool] at rest
  cases rest

end Network

end Cvcn
