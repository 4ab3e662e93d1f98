import Cvcn.Net.Host

/-!
# What a socket answers

`recv` gives what has arrived, in any pieces, and then says what it is that comes after it. So a
session that has read and stays open has read everything, and a flush ends with an empty queue or
is resumed unless it meets an error of `send`.
-/

namespace Cvcn

namespace ClientSession

/-- The bytes of pieces that are not empty, and what comes behind them. -/
theorem received_pieces {pieces : List Bytes} (nonempty : ∀ piece ∈ pieces, piece ≠ [])
    (rest : List RecvResult) :
    received (pieces.map .bytes ++ rest) = pieces.flatten ++ received rest ∧
      hangsUp (pieces.map .bytes ++ rest) = hangsUp rest := by
  induction pieces with
  | nil => exact ⟨rfl, rfl⟩
  | cons piece pieces ih =>
    obtain ⟨all, up⟩ := ih fun p hp => nonempty p (List.mem_cons_of_mem _ hp)
    cases piece with
    | nil => exact absurd rfl (nonempty [] List.mem_cons_self)
    | cons b data =>
      refine ⟨?_, up⟩
      rw [List.flatten_cons, List.append_assoc, ← all]
      rfl

end ClientSession

namespace Socket

open ClientSession

theorem pieces_flatten {calls : Nat} {data : Bytes} (enough : data.length ≤ calls)
    (counts : List Nat) : (pieces calls counts data).flatten = data := by
  induction calls generalizing counts data with
  | zero =>
    obtain rfl := List.length_eq_zero_iff.mp (Nat.le_zero.mp enough)
    rfl
  | succ calls ih =>
    cases data with
    | nil => rfl
    | cons b data =>
      rw [List.length_cons] at enough
      rw [pieces, List.flatten_cons, ih, List.take_append_drop]
      rw [List.length_drop, List.length_cons]
      omega

theorem pieces_nonempty {calls : Nat} {counts : List Nat} {data : Bytes} :
    ∀ piece ∈ pieces calls counts data, piece ≠ [] := by
  induction calls generalizing counts data with
  | zero => exact nofun
  | succ calls ih =>
    cases data with
    | nil => exact nofun
    | cons b data =>
      intro piece here
      rw [pieces] at here
      rcases List.mem_cons.mp here with rfl | here
      · have size := List.length_take (i := max 1 (min
          (counts.headD config.SESSION_READ_BUFFER_SIZE) config.SESSION_READ_BUFFER_SIZE))
          (l := b :: data)
        rw [List.length_cons] at size
        intro none
        rw [none, List.length_nil] at size
        omega
      · exact ih piece here

/-- All that has arrived is read, and a connection that has ended or is broken is told apart. -/
theorem recvs_received (c : Socket) (counts : List Nat) :
    received (c.recvs counts) = c.unread ∧ hangsUp (c.recvs counts) = (c.ended || c.failed) := by
  have nonempty : ∀ piece ∈ pieces c.unread.length counts c.unread, piece ≠ [] := pieces_nonempty
  obtain ⟨all, up⟩ := received_pieces nonempty
    [if c.failed then .error else if c.ended then .bytes [] else .again]
  unfold recvs
  rw [all, up, pieces_flatten (Nat.le_refl _)]
  cases c.failed <;> cases c.ended <;> simp [received, hangsUp]

/-- What a flush leaves behind is behind a full buffer, or an error. -/
theorem taken_sendsInto {fails : Option Nat} {room : Nat} {queue : List Bytes}
    (ok : ¬ PacketSender.ErrorReached queue (sendsInto fails room queue))
    (left : (PacketSender.flushLoop queue (sendsInto fails room queue)).1 ≠ []) :
    (PacketSender.taken queue (sendsInto fails room queue)).length = room := by
  induction queue generalizing fails room with
  | nil => exact absurd rfl left
  | cons buffer queue ih =>
    have goes : fails ≠ some 0 := by
      rintro rfl
      exact ok trivial
    have sends : sendsInto fails room (buffer :: queue) = if buffer.length ≤ room then
        .sent buffer.length :: sendsInto (fails.map (· - 1)) (room - buffer.length) queue
        else if room = 0 then [.again] else [.sent room] := by
      match fails with
      | none | some (n + 1) => rfl
      | some 0 => exact absurd rfl goes
    rw [sends] at ok left ⊢
    by_cases fits : buffer.length ≤ room
    · rw [if_pos fits] at ok left ⊢
      have ok : ¬ PacketSender.ErrorReached queue _ := fun reached => ok ⟨Nat.le_refl _, reached⟩
      simp only [PacketSender.flushLoop, PacketSender.taken, Nat.lt_irrefl, if_false] at left ⊢
      rw [List.length_append, ih ok left]
      omega
    · by_cases full : room = 0
      · rw [if_neg fits, if_pos full, full]
        rfl
      · have partly : room < buffer.length := Nat.lt_of_not_le fits
        simp only [if_neg fits, if_neg full, PacketSender.taken, if_pos partly, List.length_take]
        omega

/-- A flush that is resumed and meets no error uses up the room if it does not end. -/
theorem take_full {c : Socket} {p : PacketSender} (sound : c.failed = false) (fails : Option Nat)
    (ok : ¬ PacketSender.ErrorReached p.sendQueue (c.sends fails p.sendQueue))
    (left : (p.call (.make none (c.sends fails p.sendQueue))).1.sendQueue ≠ []) :
    (c.take (p.takenByCall (.make none (c.sends fails p.sendQueue)))).room = 0 := by
  have sends : c.sends fails p.sendQueue = sendsInto fails c.room p.sendQueue := by
    rw [Socket.sends, sound, if_neg Bool.false_ne_true]
  have queue : (p.call (.make none (c.sends fails p.sendQueue))).1.sendQueue =
      (PacketSender.flushLoop p.sendQueue (c.sends fails p.sendQueue)).1 :=
    PacketSender.flush_queue { p with writePending := false } _
  rw [queue, sends] at left
  rw [sends] at ok
  have taken : (p.takenByCall (.make none (c.sends fails p.sendQueue))).length = c.room := by
    rw [sends]
    exact taken_sendsInto ok left
  simp only [Socket.take, taken, Nat.sub_self]

end Socket

namespace PacketSender

variable {p : PacketSender} {packet : Option Bytes} {sends : List SendResult}

theorem given_make (packet : Option Bytes) (sends : List SendResult) :
    given (.make packet sends) = packet.toList := by
  cases packet <;> rfl

/-- A sender that has not been stalled by its last flush is armed. -/
theorem armed_call {mask : Option EpollMask} {before : Bool} {c : SenderCall}
    (armed : before = false → p.Armed mask) (ok : p.stalls before c = false) :
    Armed (p.call c).1 ((p.call c).2.or mask) := by
  cases c with
  | handleWrite sends => exact armed_handleWrite p (of_decide_eq_false ok)
  | sendPacket data sends =>
    rw [stalls] at ok
    by_cases pending : p.writePending = true
    · rw [if_pos pending] at ok
      exact (armed ok).sendPacket data (.inl pending)
    · rw [if_neg pending] at ok
      have flushed : p.call (.sendPacket data sends) =
          flushSendQueue { p with sendQueue := p.sendQueue ++ [data] } sends := if_neg pending
      rw [flushed]
      exact armed_flush (of_decide_eq_false ok)

theorem flush_mask (ok : ¬ ErrorReached p.sendQueue sends) :
    (p.flushSendQueue sends).2.isSome = true := by
  have armed : Armed _ ((p.flushSendQueue sends).2.or none) := armed_flush ok
  rw [Option.or_none] at armed
  rw [armed.mask]
  rfl

/-- A call that asks epoll for nothing has only queued its packet behind others, or is stalled. -/
theorem call_silent {before : Bool} (ok : p.stalls before (.make packet sends) = false)
    (silent : (p.call (.make packet sends)).2 = none) :
    packet.isSome = true ∧ before = false ∧ p.takenByCall (.make packet sends) = [] := by
  cases packet with
  | none =>
    have asks : ((p.call (.make none sends)).2).isSome = true :=
      flush_mask (p := { p with writePending := false }) (of_decide_eq_false ok)
    rw [silent] at asks
    cases asks
  | some data =>
    have stalls : p.stalls before (.make (some data) sends) = if p.writePending then before
        else decide (ErrorReached (p.sendQueue ++ [data]) sends) := rfl
    rw [stalls] at ok
    by_cases pending : p.writePending = true
    · rw [if_pos pending] at ok
      exact ⟨rfl, ok, if_pos pending⟩
    · rw [if_neg pending] at ok
      have flushed : p.call (.make (some data) sends) =
          flushSendQueue { p with sendQueue := p.sendQueue ++ [data] } sends := if_neg pending
      have asks := flush_mask (p := { p with sendQueue := p.sendQueue ++ [data] })
        (of_decide_eq_false ok)
      rw [← flushed, silent] at asks
      cases asks

/-- A flush that epoll is told of has met no error. -/
theorem asks_unfailing (asks : (p.call (.make none sends)).2.isSome = true) :
    ¬ ErrorReached p.sendQueue sends := by
  intro reached
  obtain ⟨failed, -⟩ := flushLoop_failed reached
  have silent : (p.call (.make none sends)).2 = none := by
    simp only [SenderCall.make, call, handleWrite, flushSendQueue]
    generalize flushLoop p.sendQueue sends = out at failed
    obtain ⟨queue, exit⟩ := out
    subst failed
    rfl
  rw [silent] at asks
  cases asks

end PacketSender

end Cvcn
