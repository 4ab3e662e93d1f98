import Cvcn.Net.Effects

/-!
# Exceptions in the event loop

`EventPoller::startEventLoop` has its `try` around a whole batch, and the read callback works
off a drained list inside of it: a handler that throws ends both. The batch and the list are
local to the frames that are unwound. In the shutdown the next `catch` is that of `main`, after
which the process ends.
-/

namespace Cvcn

open Machine

/-! ## The loop with exceptions -/

def Item.event? : Item → Option EpollEvent
  | .event e => some e
  | .writable _ => none

/-- The server, with a record of what it has been given and of what it has taken in hand. -/
structure EventLoop where
  server : Server
  reported : List EpollEvent := []
  begun : List EpollEvent := []
  drained : List Queued := []
  processed : List Queued := []

namespace EventLoop

/-- A step of the server, or the main thread handles the next event or command and an exception
leaves it, when the handler has had this effect on the server. -/
inductive Turn where
  | goes (a : Action)
  | throws (effect : Server → Server)

/-- The events of a batch whose handling has not begun. -/
def pending (batch : List Item) : List EpollEvent := batch.filterMap Item.event?

/-- The main thread takes the next command or event in hand, if it has one. -/
def takeUp (l : EventLoop) : Option EventLoop :=
  match l.server.commands with
  | q :: _ => some { l with processed := l.processed ++ [q] }
  | [] =>
    match l.server.phase, l.server.batch with
    | .eventLoop, item :: _ => some { l with begun := l.begun ++ item.event?.toList }
    | _, _ => none

/-- The commands that a handler or the shutdown has drained are those it leaves to be
processed. -/
def drains (l : EventLoop) (t : Server) : List Queued :=
  if l.server.commands = [] then t.commands else []

def goes (l : EventLoop) (a : Action) (t : Server) : EventLoop :=
  match a with
  | .epollWait events => { l with server := t, reported := l.reported ++ events }
  | .main _ => { l.takeUp.getD l with server := t, drained := l.drained ++ l.drains t }
  | .worker _ => { l with server := t }

/-- The frames up to the next `catch` are gone, and what was left of the batch and of the
commands with them. In the event loop the `catch` is inside the `while`. -/
def unwind (s : Server) : Phase → Server
  | .eventLoop => { s with phase := .eventLoop, batch := [], commands := [] }
  | _ => { s with phase := .stopped, batch := [], commands := [] }

def step (l : EventLoop) : Turn → Option EventLoop
  | .goes a => (l.server.step a).map (l.goes a)
  | .throws effect =>
    l.takeUp.map fun b => { b with server := unwind (effect l.server) l.server.phase }

def start (tables : Tables) (numThreads : Nat) (listenFd eventFd : Fd) : EventLoop where
  server := Server.start tables numThreads listenFd eventFd

variable {edge : Fd → Bool} {l t : EventLoop}

/-! ## What is lost -/

/-- Every command drained has been processed or is in hand, and so is, in the event loop, every
event reported for the descriptors `edge`: all of them, or those that are edge-triggered, since
the kernel reports the others again. -/
def NothingLost (edge : Fd → Bool) (l : EventLoop) : Prop :=
  (l.server.phase = .eventLoop →
    l.reported.filter (edge ·.fd) = (l.begun ++ pending l.server.batch).filter (edge ·.fd)) ∧
  l.drained = l.processed ++ l.server.commands

/-- The events of the batch behind the command or the event that is handled. -/
def others (s : Server) : List EpollEvent :=
  pending (if s.commands = [] then s.batch.tail else s.batch)

/-- If a handler throws, then with nothing else in hand. -/
def ThrowsAlone (edge : Fd → Bool) (l : EventLoop) : Turn → Prop
  | .goes _ => True
  | .throws _ => l.server.commands.tail = [] ∧
      (l.server.phase = .eventLoop → (others l.server).filter (edge ·.fd) = [])

instance (edge : Fd → Bool) (l : EventLoop) (turn : Turn) : Decidable (ThrowsAlone edge l turn) :=
  match turn with
  | .goes _ => isTrue trivial
  | .throws _ => inferInstanceAs (Decidable (_ ∧ (_ → _)))

/-- A throw in the event loop leaves the server waiting for events. -/
def GoesOn (l : EventLoop) : Turn → Prop
  | .goes _ => True
  | .throws effect => l.server.phase = .eventLoop →
      ∀ t, l.step (.throws effect) = some t → (t.server.epollWait []).isSome

theorem pending_events (events : List EpollEvent) : pending (events.map .event) = events := by
  induction events with
  | nil => rfl
  | cons e rest ih => exact congrArg (e :: ·) ih

theorem pending_cons (item : Item) (rest : List Item) :
    pending (item :: rest) = item.event?.toList ++ pending rest := by
  cases item with
  | event e => rfl
  | writable fd => rfl

/-- The handling of an event leaves the other events of the batch where they are, unless it
stops the loop. -/
theorem handleItem_pending {s t : Server} {k : Kernel} {item : Item}
    (h : s.handleItem k item = some t) (loop : t.phase = .eventLoop) :
    pending t.batch = pending s.batch := by
  rcases Server.handleItem_loop h with ⟨e, -, -, rfl⟩ | ⟨-, same | ⟨fd, behind⟩⟩
  · cases loop
  · rw [same]
  · rw [behind]
    rfl

theorem goes_main {k : Kernel} {s : Server} (h : NothingLost edge l)
    (hs : l.server.main k = some s) : NothingLost edge (l.goes (.main k) s) := by
  unfold Server.main at hs
  cases commands : l.server.commands with
  | cons q rest =>
    rw [commands] at hs
    cases hs
    have same := Server.processCommand_sameLoop { l.server with commands := rest } k q
    have begins : l.takeUp = some { l with processed := l.processed ++ [q] } := by
      simp only [takeUp, commands]
    have none : l.drains (Server.processCommand { l.server with commands := rest } k q) = [] :=
      if_neg (by simp [commands])
    simp only [goes, begins, none, Option.getD_some, List.append_nil]
    refine ⟨fun loop => ?_, ?_⟩
    · rw [same.batch]
      exact h.1 (same.phase.symm.trans loop)
    · rw [same.commands, h.2, commands, List.append_assoc]
      rfl
  | nil =>
    rw [commands] at hs
    have drained : l.drained = l.processed := by rw [h.2, commands, List.append_nil]
    have drains : l.drains s = s.commands := if_pos commands
    have leaves (idle : l.takeUp = none) (stops : s.phase ≠ .eventLoop) :
        NothingLost edge (l.goes (.main k) s) := by
      simp only [goes, idle, drains, Option.getD_none]
      exact ⟨fun loop => absurd loop stops, by rw [drained]⟩
    cases phase : l.server.phase with
    | eventLoop =>
      cases batch : l.server.batch with
      | nil =>
        rw [phase, batch] at hs
        dsimp only at hs
        split at hs
        · cases hs
          exact leaves (by simp only [takeUp, commands, phase, batch]) nofun
        · cases hs
      | cons item rest =>
        rw [phase, batch] at hs
        have begins : l.takeUp = some { l with begun := l.begun ++ item.event?.toList } := by
          simp only [takeUp, commands, phase, batch]
        simp only [goes, begins, drains, Option.getD_some]
        refine ⟨fun loop => ?_, by rw [drained]⟩
        rw [handleItem_pending hs loop, h.1 phase, batch, pending_cons, List.append_assoc]
    | shutdown =>
      rw [phase] at hs
      refine leaves (by simp only [takeUp, commands, phase]) ?_
      dsimp only at hs
      split at hs
      · cases hs
        nofun
      · cases hs
        nofun
    | draining =>
      rw [phase] at hs
      cases hs
      exact leaves (by simp only [takeUp, commands, phase]) nofun
    | stopped =>
      rw [phase] at hs
      cases hs

theorem step_goes {a : Action} {s : Server} (h : NothingLost edge l)
    (hs : l.server.step a = some s) : NothingLost edge (l.goes a s) := by
  cases a with
  | epollWait events =>
    simp only [Server.step, Server.epollWait] at hs
    split at hs
    · rename_i ready
      simp only [Bool.and_eq_true, beq_iff_eq, List.isEmpty_iff] at ready
      obtain ⟨⟨⟨⟨loop, _⟩, batch⟩, _⟩, _⟩ := ready
      cases hs
      refine ⟨fun _ => ?_, h.2⟩
      have before := h.1 loop
      rw [batch] at before
      simp only [goes, pending_events, List.filter_append, before]
      simp [pending]
    · cases hs
  | worker i =>
    obtain ⟨b, _, rfl⟩ := Option.map_eq_some_iff.mp hs
    exact h
  | main k => exact goes_main h hs

/-- A throw loses nothing exactly if nothing else is in hand. -/
theorem throws_iff {effect : Server → Server} (h : NothingLost edge l)
    (hs : l.step (.throws effect) = some t) :
    NothingLost edge t ↔ ThrowsAlone edge l (.throws effect) := by
  obtain ⟨b, begins, rfl⟩ := Option.map_eq_some_iff.mp hs
  have unwound : ∀ s : Server, (unwind s l.server.phase).batch = [] ∧
      (unwind s l.server.phase).commands = [] ∧
      ((unwind s l.server.phase).phase = .eventLoop ↔ l.server.phase = .eventLoop) := by
    intro s
    cases l.server.phase <;> exact ⟨rfl, rfl, by simp [unwind]⟩
  obtain ⟨batch, commands, loop⟩ := unwound (effect l.server)
  simp only [NothingLost, batch, commands, loop, ThrowsAlone, List.append_nil]
  unfold takeUp at begins
  split at begins
  · rename_i q rest head
    cases begins
    have events : others l.server = pending l.server.batch := by
      simp [others, head]
    rw [and_comm]
    refine and_congr ?_ ?_
    · rw [h.2, head]
      simp
    · refine forall_congr' fun loop => ?_
      rw [h.1 loop, events]
      simp [pending]
  · rename_i empty
    split at begins
    · rename_i item rest loop head
      cases begins
      have events : others l.server = pending rest := by
        simp [others, empty, head]
      rw [and_comm]
      refine and_congr ?_ ?_
      · rw [h.2, empty]
        simp
      · refine forall_congr' fun loop => ?_
        rw [h.1 loop, events, head, pending_cons]
        simp [pending]
    · cases begins

theorem throws_goesOn (l : EventLoop) (turn : Turn) : GoesOn l turn := by
  cases turn with
  | goes a => trivial
  | throws effect =>
    intro loop t hs
    obtain ⟨b, _, rfl⟩ := Option.map_eq_some_iff.mp hs
    simp only [unwind, loop, Server.epollWait]
    rfl

theorem start_nothingLost (tables : Tables) (numThreads : Nat) (listenFd eventFd : Fd) :
    NothingLost edge (start tables numThreads listenFd eventFd) :=
  ⟨fun _ => rfl, rfl⟩

/-- **Exceptions lose nothing, exactly when.** In every run the event loop goes on after a throw,
and every event reported and every command drained is taken in hand if and only if a handler
throws only when it is the last of the batch and of the commands. -/
theorem exceptions_lose_nothing_iff (edge : Fd → Bool) (tables : Tables) (numThreads : Nat)
    (listenFd eventFd : Fd) {turns : List Turn}
    (run : exec step (start tables numThreads listenFd eventFd) turns = some t) :
    Along step GoesOn (start tables numThreads listenFd eventFd) turns ∧
      (Throughout step (NothingLost edge) (start tables numThreads listenFd eventFd) turns ↔
        Along step (ThrowsAlone edge) (start tables numThreads listenFd eventFd) turns) := by
  constructor
  · exact Along.of_invariant (I := fun _ => True) (fun _ _ _ _ _ => trivial)
      (fun l turn _ => throws_goesOn l turn) trivial turns
  · refine throughout_iff_along (J := NothingLost edge) (fun _ h => h) ?_ ?_
      (start_nothingLost tables numThreads listenFd eventFd) run
    · intro l turn t h alone hs
      cases turn with
      | goes a =>
        obtain ⟨s, moves, rfl⟩ := Option.map_eq_some_iff.mp hs
        exact step_goes h moves
      | throws effect => exact (throws_iff h hs).mpr alone
    · intro l turn t h other hs kept
      cases turn with
      | goes a => exact other trivial
      | throws effect => exact other ((throws_iff h hs).mp kept)

/-- A client connects and asks, and a worker answers. The queue of the answers and the next
packet of the client are reported together. -/
def answered : List Turn :=
  let before : List Action :=
    [.epollWait [{ fd := 3, readable := true }], .main { accepted := some 5 },
      .epollWait [{ fd := 5, readable := true }],
      .main { recvs := [.bytes (PacketBuilder.buildPacket .connectRequest 1 0)] }] ++
    List.replicate 6 (.worker 0) ++
    [.epollWait [{ fd := 4, readable := true }, { fd := 5, readable := true }], .main {}]
  before.map .goes

/-- Sending the answer throws: the packet of the client is not read, and its `TaskDone` is
gone, so that no task is left and the counter stays at one. -/
theorem throw_loses_taskDone : ∃ l, exec step (start {} 1 3 4) (answered ++ [.throws id]) = some l ∧
    l.server.phase = .eventLoop ∧ l.server.inFlight 5 = some 1 ∧ l.server.shared.queue = [] ∧
    l.server.pool.hasPendingTasks = false ∧
    l.reported.length = 4 ∧ l.begun.length = 3 ∧
    l.drained.map (·.cmd.type) = [.sendRaw, .taskDone] ∧
    l.processed.map (·.cmd.type) = [.sendRaw] ∧ ¬ NothingLost (· == 5) l := by
  refine ⟨_, rfl, rfl, rfl, rfl, rfl, rfl, rfl, rfl, rfl, fun h => ?_⟩
  exact absurd h.2 (by decide)

/-- The same turns with the answers reported alone, up to the `TaskDone`, whose handler throws. -/
def throwsLast : List Turn :=
  answered.take 10 ++ [.goes (.epollWait [{ fd := 4, readable := true }]), .goes (.main {}),
    .goes (.main { sends := [.sent 16] }), .throws id]

theorem exceptions_lose_nothing_answered :
    Along step GoesOn (start {} 1 3 4) throwsLast ∧
      Throughout step (NothingLost (· == 5)) (start {} 1 3 4) throwsLast :=
  have exact_ := exceptions_lose_nothing_iff (· == 5) {} 1 3 4
    (rfl : exec step (start {} 1 3 4) throwsLast = some _)
  ⟨exact_.1, exact_.2.mpr (by decide +kernel)⟩

end EventLoop

end Cvcn
