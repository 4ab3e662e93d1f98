import Cvcn.Lib.Threads
import Cvcn.Net.Effects

/-!
# Delivery of queued commands

A `SendRaw` or `Close` names a session by its number alone. It reaches the session that
pushed it, or nobody, as long as the number has not passed to another session: no number is
accepted while a command for it is waiting or a `Close` under it is deferred, and no worker
pushes a command from a session whose number another one occupies.
-/

namespace Cvcn

open Atomic Machine

namespace Server

variable {s t : Server} {a : Action}

/-- The number is the session's, or nobody's. -/
def Bound (s : Server) (fd : Fd) (x : SessionId) : Prop :=
  s.sessions fd = none ∨ s.sessions fd = some x

instance (s : Server) (fd : Fd) (x : SessionId) : Decidable (s.Bound fd x) :=
  inferInstanceAs (Decidable (_ ∨ _))

/-- The bytes of every `SendRaw` went to the session that pushed it, and every `Close`
closed the session that asked for it. -/
structure Delivered (s : Server) : Prop where
  sent : ∀ e ∈ s.record.sent, e.1 = e.2.1
  closed : ∀ e ∈ s.record.closed, e.1 = e.2

/-- No command for the number is waiting to be processed or deferred. -/
def numberClean (s : Server) (fd : Fd) : Bool :=
  ((s.shared.queue ++ s.commands).all fun q => q.cmd.type == .taskDone || q.cmd.fd != fd) &&
    (s.deferredBy fd).isEmpty

/-- The command that worker `i` pushes next, if any, comes from a session that no other
session has taken the number of. -/
def pushesBound (s : Server) (i : Nat) : Bool :=
  match s.pool.workers[i]? with
  | some (.running ⟨_, .op (.session x (.sendRaw _)) _⟩)
  | some (.running ⟨_, .op (.session x .requestClose) _⟩) => decide (s.Bound (s.fdOf x) x)
  | _ => true

def deliverySafe (s : Server) : Action → Bool
  | .worker i => s.pushesBound i
  | a =>
    match s.accepted a with
    | some fd => s.numberClean fd
    | none => true

/-- Every command that is still to be processed, or deferred, is bound. -/
structure DeliveryInv (s : Server) : Prop extends Delivered s where
  queued : ∀ q ∈ s.shared.queue, q.cmd.type ≠ .taskDone → s.Bound q.cmd.fd q.origin
  drained : ∀ q ∈ s.commands, q.cmd.type ≠ .taskDone → s.Bound q.cmd.fd q.origin
  deferred : ∀ fd, ∀ x ∈ s.deferredBy fd, s.Bound fd x

/-- A deletion sets numbers free. -/
theorem Deletes.bound {o : Option SessionId} (h : Deletes s t o) {fd : Fd} {x : SessionId}
    (hb : s.Bound fd x) : t.Bound fd x := by
  unfold Bound
  cases h with
  | nothing kept =>
    rw [kept.sessions]
    exact hb
  | session removed =>
    rw [removed.sessions, Function.update_apply]
    split
    · exact .inl rfl
    · exact hb

theorem DeliveryInv.trims {o : Option SessionId} (h : DeliveryInv s) (trims : Trims s t o) :
    DeliveryInv t where
  sent := by
    rw [trims.sent]
    exact h.sent
  closed := by
    rw [trims.closed]
    exact h.closed
  queued := by
    rw [trims.queue]
    exact fun q hq ht => trims.deletes.bound (h.queued q hq ht)
  drained := by
    rw [trims.commands]
    exact fun q hq ht => trims.deletes.bound (h.drained q hq ht)
  deferred := by
    rw [trims.deferredBy]
    exact fun fd x hx => trims.deletes.bound (h.deferred fd x hx)

/-- Every `Close` under a clean number is new. -/
theorem DeliveryInv.accept (h : DeliveryInv s) {fd : Fd} (clean : s.numberClean fd = true) :
    DeliveryInv (s.onNewConnection fd) := by
  simp only [numberClean, Bool.and_eq_true, List.all_eq_true, Bool.or_eq_true, beq_iff_eq,
    bne_iff_ne, List.mem_append, List.isEmpty_iff] at clean
  obtain ⟨waiting, none⟩ := clean
  have other : ∀ {g x}, g ≠ fd → s.Bound g x → (s.onNewConnection fd).Bound g x := by
    intro g x hg hb
    simpa [Bound, onNewConnection, Function.update_apply, hg] using hb
  have command : ∀ q, (q ∈ s.shared.queue ∨ q ∈ s.commands) → q.cmd.type ≠ .taskDone →
      q.cmd.fd ≠ fd := fun q hq ht => (waiting q hq).resolve_left ht
  refine ⟨⟨h.sent, h.closed⟩, ?_, ?_, ?_⟩
  · exact fun q hq ht => other (command q (.inl hq) ht) (h.queued q hq ht)
  · exact fun q hq ht => other (command q (.inr hq) ht) (h.drained q hq ht)
  · intro g x hx
    refine other ?_ (h.deferred g x hx)
    rintro rfl
    rw [show (s.onNewConnection g).deferredBy g = s.deferredBy g from rfl, none] at hx
    cases hx

theorem DeliveryInv.requestCloseClient (h : DeliveryInv s) {fd : Fd} {origin : SessionId}
    (bound : s.Bound fd origin) : DeliveryInv (s.requestCloseClient fd origin) := by
  unfold Server.requestCloseClient
  split
  · exact h
  · rename_i x hx
    have own : origin = x := by
      cases bound with
      | inl e =>
        rw [e] at hx
        cases hx
      | inr e => exact Option.some.inj (e.symm.trans hx)
    subst own
    have recorded : DeliveryInv
        { s with record := { s.record with closed := s.record.closed ++ [(origin, origin)] } } := by
      refine ⟨⟨h.sent, fun e he => ?_⟩, h.queued, h.drained, h.deferred⟩
      cases List.mem_append.mp he with
      | inl old => exact h.closed e old
      | inr new => rw [List.mem_singleton.mp new]
    simp only
    split
    · have inv := recorded.trims (deferClose_trims _ fd)
      refine ⟨⟨inv.sent, inv.closed⟩, inv.queued, inv.drained, fun g y hy => ?_⟩
      have deferred := (deferClose_trims
        { s with record := { s.record with closed := s.record.closed ++ [(origin, origin)] } }
        fd).deletes
      simp only [Function.update_apply] at hy
      split at hy
      · rename_i e
        subst e
        rcases List.mem_cons.mp hy with rfl | old
        · exact deferred.bound bound
        · exact deferred.bound (h.deferred g y old)
      · exact deferred.bound (h.deferred g y hy)
    · exact recorded.trims (closeClient_trims _ fd)

theorem DeliveryInv.onTaskDone (h : DeliveryInv s) (fd : Fd) : DeliveryInv (s.onTaskDone fd) := by
  unfold Server.onTaskDone
  split
  · exact h
  · simp only
    split
    · refine DeliveryInv.trims ?_ (closeClient_trims _ fd)
      refine ⟨⟨h.sent, fun e he => ?_⟩, h.queued, h.drained, fun g x hx => ?_⟩
      · cases List.mem_append.mp he with
        | inl old => exact h.closed e old
        | inr new =>
          split at new
          · rename_i x hx
            obtain ⟨origin, ho, rfl⟩ := List.mem_map.mp new
            cases h.deferred fd origin ho with
            | inl e =>
              have : s.sessions fd = some x := hx
              rw [e] at this
              cases this
            | inr e => exact Option.some.inj (e.symm.trans hx)
          · cases new
      · simp only [closeDeferred, Function.update_apply] at hx
        split at hx
        · cases hx
        · exact h.deferred g x hx
    · exact ⟨⟨h.sent, h.closed⟩, h.queued, h.drained, h.deferred⟩

/-- The command at the head of those drained is processed. -/
theorem DeliveryInv.command (h : DeliveryInv s) {k : Kernel} {q : Queued} {commands : List Queued}
    (head : s.commands = q :: commands) :
    DeliveryInv ({ s with commands := commands }.processCommand k q) := by
  have rest : DeliveryInv { s with commands := commands } :=
    ⟨⟨h.sent, h.closed⟩, h.queued,
      fun q' hq' => h.drained q' (head ▸ List.mem_cons_of_mem q hq'), h.deferred⟩
  have here : q.cmd.type ≠ .taskDone → s.Bound q.cmd.fd q.origin :=
    h.drained q (head ▸ List.mem_cons_self)
  unfold processCommand
  split
  · rename_i type
    split
    · exact rest
    · rename_i x hx
      split
      · exact rest
      · have own : q.origin = x := by
          cases here (by simp [type]) with
          | inl e =>
            have : s.sessions q.cmd.fd = some x := hx
            rw [e] at this
            cases this
          | inr e => exact Option.some.inj (e.symm.trans hx)
        obtain ⟨sender, epoll, e⟩ :=
          sendRawDirect_eq { s with commands := commands } x q.cmd.data k.sends
        rw [e]
        refine ⟨⟨fun e he => ?_, h.closed⟩, rest.queued, rest.drained, rest.deferred⟩
        cases List.mem_append.mp he with
        | inl old => exact h.sent e old
        | inr new =>
          rw [List.mem_singleton.mp new]
          exact own
  · rename_i type
    exact rest.requestCloseClient (here (by simp [type]))
  · exact rest.onTaskDone q.cmd.fd

/-- The commands that an operation pushes carry the number of the session they come from. -/
theorem exec_pushed {sh : Shared} {o : Op} {q : Queued} (hq : q ∈ (Shared.exec o sh).2.queue) :
    q ∈ sh.queue ∨ (q.cmd.fd = (sh.objects q.origin).fileDescriptor ∧
      ((∃ data, o = .session q.origin (.sendRaw data)) ∨ o = .session q.origin .requestClose)) := by
  cases o with
  | registerUser userID session =>
    simp only [Shared.exec, Shared.registerUser] at hq
    split at hq <;> exact .inl hq
  | session x o =>
    cases o with
    | sendRaw data =>
      cases List.mem_append.mp hq with
      | inl old => exact .inl old
      | inr new =>
        rw [List.mem_singleton.mp new]
        exact .inr ⟨rfl, .inl ⟨data, rfl⟩⟩
    | requestClose =>
      cases List.mem_append.mp hq with
      | inl old => exact .inl old
      | inr new =>
        rw [List.mem_singleton.mp new]
        exact .inr ⟨rfl, .inr rfl⟩
    | _ => exact .inl hq
  | _ => exact .inl hq

theorem DeliveryInv.worker (h : DeliveryInv s) {i : Nat} {b : Backend}
    (work : s.toBackend.worker i = some b) (bound : s.pushesBound i = true) :
    DeliveryInv { s with toBackend := b } := by
  refine ⟨⟨h.sent, h.closed⟩, fun q hq ht => ?_, h.drained, h.deferred⟩
  cases Backend.worker_cases work with
  | executes job o rest running =>
    rcases exec_pushed hq with old | ⟨number, pushed⟩
    · exact h.queued q old ht
    · rcases pushed with ⟨data, rfl⟩ | rfl
      · simp only [pushesBound, running, decide_eq_true_eq] at bound
        exact number ▸ bound
      · simp only [pushesBound, running, decide_eq_true_eq] at bound
        exact number ▸ bound
  | ends job =>
    cases List.mem_append.mp hq with
    | inl old => exact h.queued q old ht
    | inr new =>
      rw [List.mem_singleton.mp new] at ht
      exact absurd rfl ht
  | _ => exact h.queued q hq ht

theorem step_delivery (h : DeliveryInv s) (safe : s.deliverySafe a = true)
    (hs : s.step a = some t) : DeliveryInv t := by
  cases step_effect hs with
  | plan batch phase => exact ⟨⟨h.sent, h.closed⟩, h.queued, h.drained, h.deferred⟩
  | stop => exact ⟨⟨h.sent, h.closed⟩, h.queued, h.drained, h.deferred⟩
  | drain batch phase live empty =>
    exact ⟨⟨h.sent, h.closed⟩, nofun, h.queued, h.deferred⟩
  | accept fd batch openFds epoll number _ =>
    have moved : DeliveryInv { s with batch := batch, openFds := openFds, epoll := epoll } :=
      ⟨⟨h.sent, h.closed⟩, h.queued, h.drained, h.deferred⟩
    apply moved.accept
    cases a with
    | worker i => cases number
    | epollWait events => cases number
    | main k =>
      have clean : s.numberClean fd = true := by simpa [deliverySafe, number] using safe
      exact clean
  | read fd batch recvs =>
    have moved : DeliveryInv { s with batch := batch } :=
      ⟨⟨h.sent, h.closed⟩, h.queued, h.drained, h.deferred⟩
    exact moved.trims (onRead_trims _ fd recvs)
  | write fd batch sends =>
    have moved : DeliveryInv { s with batch := batch } :=
      ⟨⟨h.sent, h.closed⟩, h.queued, h.drained, h.deferred⟩
    exact moved.trims (onWrite_trims _ fd sends)
  | error fd batch =>
    have moved : DeliveryInv { s with batch := batch } :=
      ⟨⟨h.sent, h.closed⟩, h.queued, h.drained, h.deferred⟩
    exact moved.trims (closeOrDefer_trims _ fd)
  | command k q commands head => exact h.command head
  | worker i b is work =>
    subst is
    exact h.worker work safe

/-! ## What the senders get -/

/-- Nothing is recorded as sent, and no sender is called. -/
structure Silent (s t : Server) : Prop where
  sent : t.record.sent = s.record.sent
  sender : ∀ x, (t.obj x).sender = (s.obj x).sender

theorem Silent.refl (s : Server) : Silent s s := ⟨rfl, fun _ => rfl⟩

theorem Silent.trans {m : Server} (h : Silent s m) (h' : Silent m t) : Silent s t :=
  ⟨h'.sent.trans h.sent, fun x => (h'.sender x).trans (h.sender x)⟩

theorem closeSession_silent (s : Server) (x : SessionId) : Silent s (s.closeSession x) := by
  have same : ({ s.obj x with closed := true } : ClientSession).sender =
      (s.shared.objects x).sender := rfl
  obtain ⟨epoll, openFds, e⟩ := s.closeSession_eq x
  rw [e]
  exact ⟨rfl, update_field (·.sender) same⟩

theorem closeClient_silent (s : Server) (fd : Fd) : Silent s (s.closeClient fd) := by
  cases here : s.sessions fd with
  | none =>
    rw [closeClient_none here]
    exact .refl s
  | some x =>
    have same : ({ s.obj x with closed := true, freed := true } : ClientSession).sender =
        (s.shared.objects x).sender := rfl
    obtain ⟨epoll, openFds, e⟩ := closeClient_eq here
    rw [e]
    exact ⟨rfl, update_field (·.sender) same⟩

theorem deferClose_silent (s : Server) (fd : Fd) : Silent s (s.deferClose fd) := by
  let noted : Server := { s with pendingDelete := Function.update s.pendingDelete fd true }
  have same : Silent s noted := ⟨rfl, fun _ => rfl⟩
  unfold deferClose
  simp only
  split
  · rename_i x _
    exact same.trans (noted.closeSession_silent x)
  · exact same

theorem requestCloseClient_silent (s : Server) (fd : Fd) (origin : SessionId) :
    Silent s (s.requestCloseClient fd origin) := by
  unfold requestCloseClient
  split
  · exact .refl s
  · rename_i x _
    let noted : Server :=
      { s with record := { s.record with closed := s.record.closed ++ [(origin, x)] } }
    have same : Silent s noted := ⟨rfl, fun _ => rfl⟩
    simp only
    split
    · have deferred := same.trans (noted.deferClose_silent fd)
      exact ⟨deferred.sent, deferred.sender⟩
    · exact same.trans (noted.closeClient_silent fd)

theorem onTaskDone_silent (s : Server) (fd : Fd) : Silent s (s.onTaskDone fd) := by
  unfold onTaskDone
  split
  · exact .refl s
  · rename_i n _
    let done : Server := { s with inFlight := Function.update s.inFlight fd (some (n - 1)) }
    have same : Silent s (done.closeDeferred fd) := ⟨rfl, fun _ => rfl⟩
    simp only
    split
    · exact same.trans ((done.closeDeferred fd).closeClient_silent fd)
    · exact ⟨rfl, fun _ => rfl⟩

/-- The command's bytes go to the `sendPacket` of one open session, which is recorded; or to
nobody. -/
inductive Hands (s t : Server) (k : Kernel) (q : Queued) : Prop where
  | packet {x : SessionId} (type : q.cmd.type = .sendRaw) (here : s.sessions q.cmd.fd = some x)
      (opened : (s.obj x).closed = false)
      (sent : t.record.sent = s.record.sent ++ [(q.origin, x, q.cmd.data)])
      (sender : (t.obj x).sender = ((s.obj x).sender.sendPacket q.cmd.data k.sends).1)
      (others : ∀ y ≠ x, (t.obj y).sender = (s.obj y).sender)
  | nothing (dropped : q.cmd.type = .sendRaw → ∀ x, s.sessions q.cmd.fd = some x →
      (s.obj x).closed = true) (silent : Silent s t)

theorem sendRawDirect_sender (s : Server) (x : SessionId) (data : Bytes)
    (sends : List SendResult) (y : SessionId) : ((s.sendRawDirect x data sends).obj y).sender =
      if y = x then ((s.obj x).sender.sendPacket data sends).1 else (s.obj y).sender := by
  simp only [sendRawDirect]
  obtain ⟨epoll, e⟩ := modifyFileDescriptorEvents_eq
    (s.setSession x { s.obj x with sender := ((s.obj x).sender.sendPacket data sends).1 })
    (s.obj x).fileDescriptor ((s.obj x).sender.sendPacket data sends).2
  rw [e]
  by_cases own : y = x
  · subst own
    simp [obj, setSession, Shared.setSession]
  · simp [obj, setSession, Shared.setSession, own]

theorem processCommand_hands (s : Server) (k : Kernel) (q : Queued) :
    Hands s (s.processCommand k q) k q := by
  unfold processCommand
  cases type : q.cmd.type with
  | sendRaw =>
    simp only
    cases here : s.sessions q.cmd.fd with
    | none => exact .nothing (fun _ x hx => by cases here.symm.trans hx) (.refl s)
    | some x =>
      simp only
      split
      · rename_i closed
        refine .nothing (fun _ y hy => ?_) (.refl s)
        rw [← Option.some.inj (here.symm.trans hy)]
        exact closed
      · rename_i opened
        have sender := sendRawDirect_sender s x q.cmd.data k.sends
        refine .packet type here (Bool.eq_false_iff.mpr opened) ?_ ?_ ?_
        · obtain ⟨_, epoll, e⟩ := sendRawDirect_eq s x q.cmd.data k.sends
          rw [e]
        · exact (sender x).trans (if_pos rfl)
        · exact fun y other => (sender y).trans (if_neg other)
  | close =>
    have silent := requestCloseClient_silent s q.cmd.fd q.origin
    exact .nothing (fun send => by cases type.symm.trans send) silent
  | taskDone =>
    have silent := onTaskDone_silent s q.cmd.fd
    exact .nothing (fun send => by cases type.symm.trans send) silent

theorem deliveryInv_start (tables : Tables) (numThreads : Nat) (listenFd eventFd : Fd) :
    DeliveryInv (start tables numThreads listenFd eventFd) :=
  ⟨⟨nofun, nofun⟩, nofun, nofun, nofun⟩

/-- **Delivery.** In every run whose steps are safe, the bytes of every `SendRaw` processed went
to the session that pushed it, and every `Close` closed the session that asked for it. What is
recorded as sent is what the senders got. -/
theorem delivered_of_safe (tables : Tables) (numThreads : Nat) (listenFd eventFd : Fd)
    (as : List Action)
    (safe : Along step (deliverySafe · · = true) (start tables numThreads listenFd eventFd) as) :
    Throughout step Delivered (start tables numThreads listenFd eventFd) as ∧
      ∀ (s : Server) (k : Kernel) (q : Queued), Hands s (s.processCommand k q) k q :=
  ⟨safe.throughout (fun _ => DeliveryInv.toDelivered) (fun _ _ _ => step_delivery)
    (deliveryInv_start tables numThreads listenFd eventFd), processCommand_hands⟩

/-- A client connects and asks for its number. A worker is about to answer when the client
shuts its side down; the session is closed, and its number goes to the next client. -/
def numberPassedOn : List Action :=
  let connect := PacketBuilder.buildPacket .connectRequest 1 0
  [.epollWait [{ fd := 3, readable := true }], .main { accepted := some 5 },
    .epollWait [{ fd := 5, readable := true }], .main { recvs := [.bytes connect] },
    .worker 0, .worker 0,
    .epollWait [{ fd := 5, readable := true }], .main { recvs := [.bytes []] },
    .epollWait [{ fd := 3, readable := true }], .main { accepted := some 5 },
    .worker 0, .worker 0,
    .epollWait [{ fd := 4, readable := true }], .main {}, .main { sends := [.sent 16] }]

/-- The second client gets the answer to the first. -/
theorem answer_misdelivered :
    ∃ s, exec step (start {} 1 3 4) numberPassedOn = some s ∧
      s.record.sent = [(0, 1, PacketBuilder.connectResponse 1 5)] ∧ ¬ Delivered s := by
  refine ⟨_, rfl, rfl, fun h => ?_⟩
  exact absurd (h.sent _ List.mem_cons_self) (by decide)

/-- The same requests with the first client still connected. -/
theorem delivered_while_connected :
    let connect := PacketBuilder.buildPacket .connectRequest 1 0
    Throughout step Delivered (start {} 1 3 4)
      [.epollWait [{ fd := 3, readable := true }], .main { accepted := some 5 },
        .epollWait [{ fd := 5, readable := true }], .main { recvs := [.bytes connect] },
        .worker 0, .worker 0,
        .epollWait [{ fd := 3, readable := true }], .main { accepted := some 6 },
        .worker 0, .worker 0,
        .epollWait [{ fd := 4, readable := true }], .main {}, .main { sends := [.sent 16] }] :=
  (delivered_of_safe {} 1 3 4 _ (by decide +kernel)).1

end Server

end Cvcn
