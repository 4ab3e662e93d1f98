import Cvcn.Lib.Machine
import Cvcn.Net.EventLoop
import Cvcn.Net.Sending

/-!
# A session's sender over a run of calls

What the kernel has accepted and what is still queued are the packets given to the sender, at
every round of the flush loop. The loop ends after at most one round for each queued buffer and
one more.

Whoever waits for `EPOLLOUT` is told exactly as long as no flush meets an error: `flushSendQueue`
only logs it, so the rest of the queue stays behind with nobody to resume it.
-/

namespace Cvcn

open Machine

/-- A call to a session's sender, with the answers of `send`. -/
inductive SenderCall where
  | sendPacket (data : Bytes) (sends : List SendResult)
  | handleWrite (sends : List SendResult)
  deriving DecidableEq, Repr

namespace PacketSender

/-- The sender after a call, and the epoll registration it asks for. -/
def call (p : PacketSender) : SenderCall → PacketSender × Option EpollMask
  | .sendPacket data sends => p.sendPacket data sends
  | .handleWrite sends => p.handleWrite sends

/-- The bytes that the kernel takes in a call. -/
def takenByCall (p : PacketSender) : SenderCall → Bytes
  | .sendPacket data sends => p.takenBySend data sends
  | .handleWrite sends => taken p.sendQueue sends

/-- The packets that a call hands over. -/
def given : SenderCall → List Bytes
  | .sendPacket data _ => [data]
  | .handleWrite _ => []

/-- The call's flush, if it makes one, meets no error other than `EAGAIN`. -/
def Unfailing (p : PacketSender) : SenderCall → Prop
  | .sendPacket data sends =>
    p.writePending = true ∨ ¬ ErrorReached (p.sendQueue ++ [data]) sends
  | .handleWrite sends => ¬ ErrorReached p.sendQueue sends

instance (p : PacketSender) (c : SenderCall) : Decidable (p.Unfailing c) := by
  cases c <;> unfold Unfailing <;> infer_instance

theorem call_bytes (p : PacketSender) (c : SenderCall) :
    p.takenByCall c ++ (p.call c).1.sendQueue.flatten =
      p.sendQueue.flatten ++ (given c).flatten := by
  cases c with
  | sendPacket data sends =>
    have one : (given (.sendPacket data sends)).flatten = data := by simp [given]
    rw [one]
    exact p.sendPacket_bytes data sends
  | handleWrite sends =>
    have none : (given (.handleWrite sends)).flatten = [] := rfl
    rw [none, List.append_nil]
    exact p.handleWrite_bytes sends

theorem Armed.call {p : PacketSender} {mask : Option EpollMask} (h : Armed p mask) {c : SenderCall}
    (ok : p.Unfailing c) : Armed (p.call c).1 ((p.call c).2.or mask) := by
  cases c with
  | sendPacket data sends => exact h.sendPacket data ok
  | handleWrite sends => exact armed_handleWrite p ok

/-- A call that fails leaves something in the queue, and no flush pending. -/
theorem call_failed {p : PacketSender} {c : SenderCall} (failed : ¬ p.Unfailing c) :
    (p.call c).1.sendQueue ≠ [] ∧ (p.call c).1.writePending = false := by
  cases c with
  | sendPacket data sends =>
    obtain ⟨idle, reached⟩ := not_or.mp failed
    have flushed : p.call (.sendPacket data sends) =
        flushSendQueue { p with sendQueue := p.sendQueue ++ [data] } sends := if_neg idle
    rw [flushed]
    have failed := flush_failed (p := { p with sendQueue := p.sendQueue ++ [data] })
      (Decidable.not_not.mp reached)
    exact ⟨failed.1, failed.2.trans (Bool.eq_false_iff.mpr idle)⟩
  | handleWrite sends =>
    exact flush_failed (p := { p with writePending := false }) (Decidable.not_not.mp failed)

/-- One round of the loop of `flushSendQueue`, and its exit if it leaves the loop. -/
def flushRound : List Bytes → SendResult → List Bytes × Option FlushExit
  | [], _ => ([], some .emptied)
  | buffer :: queue, .sent n =>
    if n < buffer.length then (buffer.drop n :: queue, some .blocked) else (queue, none)
  | buffer :: queue, .again => (buffer :: queue, some .blocked)
  | buffer :: queue, .error => (buffer :: queue, some .failed)

/-- The bytes that the kernel takes in one round. -/
def roundTaken : List Bytes → SendResult → Bytes
  | buffer :: _, .sent n => buffer.take n
  | _, _ => []

/-- The loop at a round: the bytes taken so far, the queue, and the exit if it has been left. -/
structure Loop where
  bytes : Bytes
  queue : List Bytes
  exit : Option FlushExit
  deriving DecidableEq, Repr

/-- The loop after a number of rounds, if `kernel` answers the calls of `send` in turn. -/
def flushRounds (kernel : Nat → SendResult) : Nat → List Bytes → Loop
  | 0, queue => ⟨[], queue, none⟩
  | rounds + 1, queue =>
    match flushRound queue (kernel 0) with
    | (rest, some exit) => ⟨roundTaken queue (kernel 0), rest, some exit⟩
    | (rest, none) =>
      let loop := flushRounds (fun i => kernel (i + 1)) rounds rest
      { loop with bytes := roundTaken queue (kernel 0) ++ loop.bytes }

/-- The answers as a list, which goes on with `EAGAIN`. -/
def answers (sends : List SendResult) (i : Nat) : SendResult := sends.getD i .again

theorem round_bytes (queue : List Bytes) (answer : SendResult) :
    roundTaken queue answer ++ (flushRound queue answer).1.flatten = queue.flatten := by
  match queue, answer with
  | [], .sent _ | [], .again | [], .error => rfl
  | _ :: _, .again | _ :: _, .error => rfl
  | buffer :: queue, .sent n =>
    simp only [roundTaken, flushRound]
    split
    · rw [List.flatten_cons, ← List.append_assoc, List.take_append_drop, List.flatten_cons]
    · rename_i whole
      rw [List.take_of_length_le (Nat.le_of_not_lt whole), List.flatten_cons]

/-- At every round what has been taken and what is left are the queue. -/
theorem rounds_bytes (kernel : Nat → SendResult) (rounds : Nat) (queue : List Bytes) :
    (flushRounds kernel rounds queue).bytes ++ (flushRounds kernel rounds queue).queue.flatten =
      queue.flatten := by
  induction rounds generalizing kernel queue with
  | zero => rfl
  | succ rounds ih =>
    have first := round_bytes queue (kernel 0)
    simp only [flushRounds]
    split
    · rename_i round
      rw [round] at first
      exact first
    · rename_i rest round
      rw [round] at first
      rw [List.append_assoc, ih]
      exact first

/-- A round that stays in the loop has taken a buffer off the queue. -/
theorem round_stays {queue rest : List Bytes} {answer : SendResult}
    (stays : flushRound queue answer = (rest, none)) : queue.length = rest.length + 1 := by
  match queue, answer with
  | [], _ => simp [flushRound] at stays
  | _ :: _, .again | _ :: _, .error => simp [flushRound] at stays
  | buffer :: queue, .sent n =>
    simp only [flushRound] at stays
    split at stays
    · simp at stays
    · simp only [Prod.mk.injEq, and_true] at stays
      rw [← stays, List.length_cons]

/-- The loop ends, whatever the kernel answers. -/
theorem rounds_end (kernel : Nat → SendResult) (queue : List Bytes) :
    (flushRounds kernel (queue.length + 1) queue).exit ≠ none := by
  generalize size : queue.length = n
  induction n generalizing kernel queue with
  | zero =>
    obtain rfl := List.length_eq_zero_iff.mp size
    simp [flushRounds, flushRound]
  | succ n ih =>
    rw [flushRounds]
    split
    · exact Option.some_ne_none _
    · rename_i rest round
      have shorter := round_stays round
      apply ih
      omega

/-- The loop, round by round, is the one of `flushSendQueue`. -/
theorem rounds_eq (queue : List Bytes) (sends : List SendResult) :
    flushRounds (answers sends) (queue.length + 1) queue =
      ⟨taken queue sends, (flushLoop queue sends).1, some (flushLoop queue sends).2⟩ := by
  induction queue generalizing sends with
  | nil => rfl
  | cons buffer queue ih =>
    match sends with
    | [] | .again :: _ | .error :: _ => rfl
    | .sent n :: sends =>
      have next : (fun i => answers (.sent n :: sends) (i + 1)) = answers sends := rfl
      have here : answers (.sent n :: sends) 0 = .sent n := rfl
      rw [List.length_cons, flushRounds, here, next]
      by_cases part : n < buffer.length
      · simp [flushRound, roundTaken, taken, flushLoop, part]
      · have whole : buffer.take n = buffer := List.take_of_length_le (Nat.le_of_not_lt part)
        simp [flushRound, roundTaken, taken, flushLoop, part, whole, ih]

end PacketSender

/-- A sender with what it has been given and what the kernel has accepted of it. -/
structure Pipe where
  sender : PacketSender := {}
  packets : List Bytes := []
  accepted : Bytes := []

namespace Pipe

open PacketSender

def call (p : Pipe) (c : SenderCall) : Pipe where
  sender := (p.sender.call c).1
  packets := p.packets ++ given c
  accepted := p.accepted ++ p.sender.takenByCall c

/-- Nothing is lost, duplicated or reordered between what went in and what came out. -/
def Conserved (p : Pipe) : Prop :=
  p.accepted ++ p.sender.sendQueue.flatten = p.packets.flatten

theorem call_conserved {p : Pipe} (h : p.Conserved) (c : SenderCall) : (p.call c).Conserved := by
  have bytes := p.sender.call_bytes c
  unfold Conserved call
  rw [List.append_assoc, bytes, ← List.append_assoc, h, List.flatten_append]

theorem calls_conserved {p : Pipe} (h : p.Conserved) (calls : List SenderCall) :
    (calls.foldl call p).Conserved := by
  induction calls generalizing p with
  | nil => exact h
  | cons c calls ih => exact ih (call_conserved h c)

/-- The sender is an exactly-once pipe of bytes: after any calls, and at any round of the flush of
a further one, what the kernel has accepted and what is queued are the packets in their order; and
every flush ends, with what `flushSendQueue` makes of the queue. -/
theorem bytes_in_order (calls : List SenderCall) :
    let p := calls.foldl call {}
    p.Conserved ∧
      (∀ kernel rounds,
        let loop := flushRounds kernel rounds p.sender.sendQueue
        p.accepted ++ loop.bytes ++ loop.queue.flatten = p.packets.flatten) ∧
      (∀ data kernel rounds,
        let loop := flushRounds kernel rounds (p.sender.sendQueue ++ [data])
        p.accepted ++ loop.bytes ++ loop.queue.flatten = (p.packets ++ [data]).flatten) ∧
      (∀ kernel queue, (flushRounds kernel (queue.length + 1) queue).exit ≠ none) ∧
      ∀ queue sends, flushRounds (answers sends) (queue.length + 1) queue =
        ⟨taken queue sends, (flushLoop queue sends).1, some (flushLoop queue sends).2⟩ := by
  have conserved : (calls.foldl call {}).Conserved := calls_conserved (p := {}) rfl calls
  generalize calls.foldl call {} = p at conserved
  have flush : ∀ kernel rounds queue,
      p.accepted ++ (flushRounds kernel rounds queue).bytes ++
        (flushRounds kernel rounds queue).queue.flatten = p.accepted ++ queue.flatten := by
    intro kernel rounds queue
    rw [List.append_assoc, rounds_bytes]
  refine ⟨conserved, ?_, ?_, rounds_end, rounds_eq⟩
  · intro kernel rounds
    exact (flush kernel rounds _).trans conserved
  · intro data kernel rounds
    apply (flush kernel rounds _).trans
    rw [List.flatten_append, ← List.append_assoc, conserved, List.flatten_append]

end Pipe

namespace Server

open PacketSender

/-- `ClientSession::sendRawDirect`, and `SessionManager::onWrite` for the session's number. -/
def senderCall (x : SessionId) (s : Server) : SenderCall → Option Server
  | .sendPacket data sends => some (s.sendRawDirect x data sends)
  | .handleWrite sends => some (s.onWrite (s.fdOf x) sends)

/-- An open session of the table, as it has been accepted: nothing queued, and registered for
reading. -/
structure Fresh (s : Server) (x : SessionId) : Prop where
  here : s.sessions (s.fdOf x) = some x
  opened : (s.obj x).closed = false
  sender : (s.obj x).sender = {}
  mask : s.epoll (s.fdOf x) = some .read

theorem accept_fresh {s t : Server} {fd : Fd} (h : s.accept (some fd) = some t) :
    t.Fresh s.shared.next := by
  simp only [accept] at h
  split at h
  · cases h
  · obtain rfl := Option.some.inj h
    constructor <;> simp [fdOf, obj, onNewConnection, addFileDescriptor, Shared.setSession]

/-- What is queued waits for `EPOLLOUT`, or the session is closed; and `EPOLLOUT` is asked for
only then. -/
structure Resumable (s : Server) (x : SessionId) : Prop where
  waits : (s.obj x).sender.sendQueue ≠ [] →
    (s.obj x).sender.writePending = true ∧ s.epoll (s.fdOf x) = some .write ∨
      (s.obj x).closed = true
  rests : (s.obj x).sender.sendQueue = [] →
    (s.obj x).sender.writePending = false ∧ s.epoll (s.fdOf x) ≠ some .write

/-- An open session of the table that asks epoll for what its sender needs. -/
structure Resuming (s : Server) (x : SessionId) : Prop where
  here : s.sessions (s.fdOf x) = some x
  opened : (s.obj x).closed = false
  armed : (s.obj x).sender.Armed (s.epoll (s.fdOf x))

theorem Resuming.resumable {s : Server} {x : SessionId} (h : s.Resuming x) : s.Resumable x := by
  have pending := h.armed.pending
  have mask := h.armed.mask
  constructor
  · intro queued
    have waiting : (s.obj x).sender.sendQueue.isEmpty = false :=
      List.isEmpty_eq_false_iff.mpr queued
    rw [waiting] at pending mask
    exact .inl ⟨pending, mask⟩
  · intro empty
    rw [empty] at pending mask
    refine ⟨pending, ?_⟩
    rw [mask]
    simp

theorem Fresh.resuming {s : Server} {x : SessionId} (h : s.Fresh x) : s.Resuming x where
  here := h.here
  opened := h.opened
  armed := by
    rw [h.sender, h.mask]
    exact ⟨rfl, rfl⟩

theorem Resuming.known {s : Server} {x : SessionId} (h : s.Resuming x) :
    s.epoll (s.fdOf x) ≠ none := by
  rw [h.armed.mask]
  exact Option.some_ne_none _

/-- A call leaves the session with the sender and the mask that it ends with. -/
theorem senderCall_sending {s t : Server} {x : SessionId} (h : s.Resuming x) {c : SenderCall}
    (step : s.senderCall x c = some t) :
    t = s.sending x ((s.obj x).sender.call c).1
      (((s.obj x).sender.call c).2.or (s.epoll (s.fdOf x))) := by
  cases c with
  | sendPacket data sends =>
    have sent := sendRawDirect_sending h.known data sends
    exact (Option.some.inj step).symm.trans sent
  | handleWrite sends =>
    have wrote := onWrite_sending h.here h.opened h.known sends
    exact (Option.some.inj step).symm.trans wrote

theorem sending_sender (s : Server) (x : SessionId) (p : PacketSender) (mask : Option EpollMask) :
    ((s.sending x p mask).obj x).sender = p := by
  rw [sending_obj, if_pos rfl]

theorem sending_closed (s : Server) (x : SessionId) (p : PacketSender) (mask : Option EpollMask) :
    ((s.sending x p mask).obj x).closed = (s.obj x).closed := by
  rw [sending_obj, if_pos rfl]

theorem step_resuming {s t : Server} {x : SessionId} (h : s.Resuming x) {c : SenderCall}
    (ok : (s.obj x).sender.Unfailing c) (step : s.senderCall x c = some t) : t.Resuming x := by
  obtain rfl := senderCall_sending h step
  constructor
  · rw [sending_fdOf]
    exact h.here
  · rw [sending_closed]
    exact h.opened
  · apply sending_armed
    · exact h.armed.call ok
    · intro other
      exact absurd rfl other

theorem step_stranded {s t : Server} {x : SessionId} (h : s.Resuming x) {c : SenderCall}
    (failed : ¬ (s.obj x).sender.Unfailing c) (step : s.senderCall x c = some t) :
    ¬ t.Resumable x := by
  obtain rfl := senderCall_sending h step
  obtain ⟨queued, idle⟩ := call_failed failed
  intro resumable
  have waits := resumable.waits
  rw [sending_sender, sending_closed, idle, h.opened] at waits
  cases waits queued with
  | inl waiting => cases waiting.1
  | inr closed => cases closed

/-- Over any calls on a fresh session, what is queued always waits for `EPOLLOUT` exactly if no
flush meets an error. -/
theorem output_resumable_iff {s : Server} {x : SessionId} (fresh : s.Fresh x)
    (calls : List SenderCall) :
    Throughout (senderCall x) (Resumable · x) s calls ↔
      Along (senderCall x) (fun s c => (s.obj x).sender.Unfailing c) s calls := by
  obtain ⟨t, run⟩ : ∃ t, exec (senderCall x) s calls = some t :=
    exec_total (fun s c => by cases c <;> exact ⟨_, rfl⟩) s calls
  exact throughout_iff_along (J := (Resuming · x)) (fun _ h => h.resumable)
    (fun _ _ _ h ok step => step_resuming h ok step)
    (fun _ _ _ h failed step => step_stranded h failed step) fresh.resuming run

/-- A server with one session. -/
def oneSession : Server := ((start {} 1 3 4).accept (some 5)).getD (start {} 1 3 4)

theorem oneSession_fresh : oneSession.Fresh 0 := by
  have accepted : (start {} 1 3 4).accept (some 5) = some oneSession := rfl
  exact accept_fresh accepted

/-- A packet that the kernel takes in two parts. -/
theorem output_resumable_in_parts :
    Throughout (senderCall 0) (Resumable · 0) oneSession
      [.sendPacket [1, 2] [.sent 1], .handleWrite [.sent 1]] :=
  (output_resumable_iff oneSession_fresh _).mpr (by decide)

/-- After an error of `send` the packet stays behind, and nobody is told to resume it. -/
theorem output_stranded_after_error :
    oneSession.Fresh 0 ∧
      ¬ Throughout (senderCall 0) (Resumable · 0) oneSession [.sendPacket [1] [.error]] := by
  refine ⟨oneSession_fresh, fun throughout => ?_⟩
  obtain ⟨_, after⟩ := throughout
  cases (after _ rfl).waits (by decide) with
  | inl waiting => exact absurd waiting.1 (by decide)
  | inr closed => exact absurd closed (by decide)

end Server

end Cvcn
