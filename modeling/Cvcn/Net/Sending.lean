import Cvcn.Net.Effects

/-!
# The bytes that a session sends

What the kernel takes of a send queue and what stays in it are the queue. The session asks epoll
for `EPOLLOUT` exactly while something stays, as long as no `send` fails.
-/

namespace Cvcn

namespace PacketSender

/-- The bytes that the kernel takes while a queue is flushed. -/
def taken : List Bytes → List SendResult → Bytes
  | [], _ => []
  | buffer :: queue, .sent n :: sends =>
    if n < buffer.length then buffer.take n else buffer ++ taken queue sends
  | _, _ => []

/-- The bytes that the kernel takes in `sendPacket`. -/
def takenBySend (p : PacketSender) (data : Bytes) (sends : List SendResult) : Bytes :=
  if p.writePending then [] else taken (p.sendQueue ++ [data]) sends

theorem taken_append (queue : List Bytes) (sends : List SendResult) :
    taken queue sends ++ (flushLoop queue sends).1.flatten = queue.flatten := by
  induction queue generalizing sends with
  | nil => rfl
  | cons buffer queue ih =>
    match sends with
    | [] | .again :: _ | .error :: _ => rfl
    | .sent n :: sends =>
      simp only [taken, flushLoop]
      split
      · rw [List.flatten_cons, ← List.append_assoc, List.take_append_drop, List.flatten_cons]
      · rw [List.append_assoc, ih, List.flatten_cons]

/-- The kernel takes whole buffers of the queue until one `send` fails. -/
def ErrorReached : List Bytes → List SendResult → Prop
  | buffer :: queue, .sent n :: sends => buffer.length ≤ n ∧ ErrorReached queue sends
  | _ :: _, .error :: _ => True
  | _, _ => False

instance ErrorReached.decidable :
    ∀ (queue : List Bytes) (sends : List SendResult), Decidable (ErrorReached queue sends)
  | buffer :: queue, .sent n :: sends =>
    have := ErrorReached.decidable queue sends
    inferInstanceAs (Decidable (buffer.length ≤ n ∧ ErrorReached queue sends))
  | _ :: _, .error :: _ => isTrue trivial
  | _ :: _, .again :: _ | _ :: _, [] | [], _ => isFalse id

theorem ErrorReached.mem {queue : List Bytes} {sends : List SendResult}
    (h : ErrorReached queue sends) : .error ∈ sends := by
  induction queue generalizing sends with
  | nil => exact absurd h id
  | cons buffer queue ih =>
    match sends with
    | [] | .again :: _ => exact absurd h id
    | .error :: _ => exact List.mem_cons_self
    | .sent n :: sends => exact List.mem_cons_of_mem _ (ih h.2)

/-- The flush ends because the queue is empty, or with something in it. -/
theorem flushLoop_exit {sends : List SendResult} (queue : List Bytes)
    (ok : ¬ ErrorReached queue sends) :
    (flushLoop queue sends = ([], .emptied)) ∨
      ((flushLoop queue sends).2 = .blocked ∧ (flushLoop queue sends).1 ≠ []) := by
  induction queue generalizing sends with
  | nil => exact .inl rfl
  | cons buffer queue ih =>
    match sends with
    | [] | .again :: _ => exact .inr ⟨rfl, List.cons_ne_nil _ _⟩
    | .error :: _ => exact absurd trivial ok
    | .sent n :: sends =>
      simp only [flushLoop]
      split
      · exact .inr ⟨rfl, List.cons_ne_nil _ _⟩
      · rename_i whole
        exact ih fun reached => ok ⟨Nat.le_of_not_lt whole, reached⟩

/-- A flush that meets an error leaves the loop with something in the queue. -/
theorem flushLoop_failed {queue : List Bytes} {sends : List SendResult}
    (reached : ErrorReached queue sends) :
    (flushLoop queue sends).2 = .failed ∧ (flushLoop queue sends).1 ≠ [] := by
  induction queue generalizing sends with
  | nil => exact absurd reached id
  | cons buffer queue ih =>
    match sends with
    | [] | .again :: _ => exact absurd reached id
    | .error :: _ => exact ⟨rfl, List.cons_ne_nil _ _⟩
    | .sent n :: sends =>
      rw [flushLoop, if_neg (Nat.not_lt.mpr reached.1)]
      exact ih reached.2

theorem flushLoop_length (queue : List Bytes) (sends : List SendResult) :
    (flushLoop queue sends).1.length ≤ queue.length := by
  induction queue generalizing sends with
  | nil => exact Nat.le_refl _
  | cons buffer queue ih =>
    match sends with
    | [] | .again :: _ | .error :: _ => exact Nat.le_refl _
    | .sent n :: sends =>
      simp only [flushLoop]
      split
      · exact Nat.le_refl _
      · exact Nat.le_succ_of_le (ih sends)

/-- When the kernel takes something of a queue, it gets shorter or its first buffer does. -/
theorem flushLoop_progress {n : Nat} (positive : 0 < n) (buffer : Bytes) (queue : List Bytes)
    (sends : List SendResult) :
    (flushLoop (buffer :: queue) (.sent n :: sends)).1.length < (buffer :: queue).length ∨
      taken (buffer :: queue) (.sent n :: sends) ≠ [] := by
  simp only [flushLoop, taken]
  split
  · rename_i part
    refine .inr fun none => ?_
    have size := congrArg List.length none
    rw [List.length_take_of_le (Nat.le_of_lt part), List.length_nil] at size
    omega
  · exact .inl (Nat.lt_succ_of_le (flushLoop_length queue sends))

/-- A flush is pending, and epoll asked for it, while there is something to send. -/
structure Armed (p : PacketSender) (mask : Option EpollMask) : Prop where
  pending : p.writePending = !p.sendQueue.isEmpty
  mask : mask = some (if p.sendQueue.isEmpty then .read else .write)

theorem armed_flush {p : PacketSender} {mask : Option EpollMask} {sends : List SendResult}
    (ok : ¬ ErrorReached p.sendQueue sends) :
    Armed (p.flushSendQueue sends).1 ((p.flushSendQueue sends).2.or mask) := by
  unfold flushSendQueue
  rcases flushLoop_exit p.sendQueue ok with emptied | ⟨blocked, rest⟩
  · rw [emptied]
    exact ⟨rfl, rfl⟩
  · generalize flushLoop p.sendQueue sends = out at blocked rest
    obtain ⟨queue, exit⟩ := out
    subst blocked
    have nonempty : queue.isEmpty = false := List.isEmpty_eq_false_iff.mpr rest
    exact ⟨by rw [nonempty]; rfl, by simp [nonempty]⟩

/-- A flush that meets an error neither asks epoll for anything nor notes that it is pending. -/
theorem flush_failed {p : PacketSender} {sends : List SendResult}
    (reached : ErrorReached p.sendQueue sends) :
    (p.flushSendQueue sends).1.sendQueue ≠ [] ∧
      (p.flushSendQueue sends).1.writePending = p.writePending := by
  unfold flushSendQueue
  obtain ⟨failed, rest⟩ := flushLoop_failed reached
  generalize flushLoop p.sendQueue sends = out at failed rest
  obtain ⟨queue, exit⟩ := out
  subst failed
  exact ⟨rest, rfl⟩

theorem armed_handleWrite (p : PacketSender) {mask : Option EpollMask} {sends : List SendResult}
    (ok : ¬ ErrorReached p.sendQueue sends) :
    Armed (p.handleWrite sends).1 ((p.handleWrite sends).2.or mask) :=
  armed_flush ok

theorem Armed.sendPacket {p : PacketSender} {mask : Option EpollMask} (h : Armed p mask)
    (data : Bytes) {sends : List SendResult}
    (ok : p.writePending = true ∨ ¬ ErrorReached (p.sendQueue ++ [data]) sends) :
    Armed (p.sendPacket data sends).1 ((p.sendPacket data sends).2.or mask) := by
  unfold PacketSender.sendPacket
  by_cases pending : p.writePending = true
  · have waiting : p.sendQueue.isEmpty = false := by
      have same := h.pending
      rw [pending] at same
      simpa using same.symm
    have queued : (p.sendQueue ++ [data]).isEmpty = false := by simp
    have asked := h.mask
    rw [waiting] at asked
    simp only [pending, if_true]
    exact ⟨by rw [queued]; rfl, by rw [queued]; exact asked⟩
  · simp only [pending]
    exact armed_flush (ok.resolve_left pending)

theorem flush_queue (p : PacketSender) (sends : List SendResult) :
    (p.flushSendQueue sends).1.sendQueue = (flushLoop p.sendQueue sends).1 := by
  unfold flushSendQueue
  split <;> rename_i found <;> rw [found]

/-- What the kernel takes and what stays are the queue and the packet behind it. -/
theorem sendPacket_bytes (p : PacketSender) (data : Bytes) (sends : List SendResult) :
    p.takenBySend data sends ++ (p.sendPacket data sends).1.sendQueue.flatten =
      p.sendQueue.flatten ++ data := by
  have all : (p.sendQueue ++ [data]).flatten = p.sendQueue.flatten ++ data := by simp
  unfold takenBySend PacketSender.sendPacket
  by_cases pending : p.writePending = true
  · simp only [pending, if_true, List.nil_append]
    exact all
  · simp only [pending]
    exact (congrArg _ (congrArg List.flatten (flush_queue _ sends))).trans
      ((taken_append _ sends).trans all)

theorem handleWrite_bytes (p : PacketSender) (sends : List SendResult) :
    taken p.sendQueue sends ++ (p.handleWrite sends).1.sendQueue.flatten = p.sendQueue.flatten := by
  rw [PacketSender.handleWrite, flush_queue]
  exact taken_append p.sendQueue sends

/-- The steps that the sending of what is queued may still take: a byte counts twice, since it
has to be sent and received. -/
def weight (p : PacketSender) : Nat := 2 * p.sendQueue.flatten.length + p.sendQueue.length

theorem weight_sendPacket (p : PacketSender) (data : Bytes) (sends : List SendResult) :
    (p.sendPacket data sends).1.weight + (p.takenBySend data sends).length ≤
      p.weight + 2 * data.length + 1 := by
  have bytes := congrArg List.length (p.sendPacket_bytes data sends)
  simp only [List.length_append] at bytes
  have fewer : (p.sendPacket data sends).1.sendQueue.length ≤ p.sendQueue.length + 1 := by
    unfold PacketSender.sendPacket
    by_cases pending : p.writePending = true
    · simp [pending]
    · simp only [pending]
      apply Nat.le_trans (Nat.le_of_eq (congrArg List.length (flush_queue _ sends)))
      exact Nat.le_trans (flushLoop_length _ sends) (by simp)
  unfold weight
  omega

theorem weight_handleWrite {p : PacketSender} (nonempty : p.sendQueue ≠ []) {n : Nat}
    (positive : 0 < n) (sends : List SendResult) :
    (p.handleWrite (.sent n :: sends)).1.weight +
      (taken p.sendQueue (.sent n :: sends)).length < p.weight := by
  have bytes := congrArg List.length (p.handleWrite_bytes (.sent n :: sends))
  rw [List.length_append] at bytes
  have left : (p.handleWrite (.sent n :: sends)).1.sendQueue =
      (flushLoop p.sendQueue (.sent n :: sends)).1 := flush_queue _ _
  have fewer := flushLoop_length p.sendQueue (.sent n :: sends)
  obtain ⟨buffer, queue, e⟩ := List.exists_cons_of_ne_nil nonempty
  have progress := flushLoop_progress positive buffer queue sends
  rw [← e] at progress
  rw [left] at bytes
  rw [weight, weight, left]
  cases progress with
  | inl shorter => omega
  | inr some =>
    have some := List.length_pos_iff.mpr some
    omega

end PacketSender

namespace Server

variable {s : Server} {x : SessionId}

/-- `EPOLL_CTL_MOD` fails for a number that is not registered. -/
theorem modifyFileDescriptorEvents_map (s : Server) (fd : Fd) (mask : Option EpollMask) :
    s.modifyFileDescriptorEvents fd mask =
      { s with epoll := Function.update s.epoll fd ((s.epoll fd).map mask.getD) } := by
  cases found : s.epoll fd with
  | none =>
    have same : Function.update s.epoll fd none = s.epoll := by
      rw [← found, Function.update_eq_self]
    cases mask <;> simp only [modifyFileDescriptorEvents, found, Option.map_none, same]
  | some old =>
    cases mask with
    | none =>
      have same : Function.update s.epoll fd (some old) = s.epoll := by
        rw [← found, Function.update_eq_self]
      simp only [modifyFileDescriptorEvents, Option.map_some, Option.getD_none, same]
    | some mask => simp only [modifyFileDescriptorEvents, found, Option.map_some, Option.getD_some]

theorem map_getD_eq_or {old : Option EpollMask} (known : old ≠ none) (mask : Option EpollMask) :
    old.map mask.getD = mask.or old := by
  obtain ⟨old, rfl⟩ := Option.ne_none_iff_exists'.mp known
  cases mask <;> rfl

/-- The sender of the session goes on to `p`, and asks epoll for `mask`. -/
def sending (s : Server) (x : SessionId) (p : PacketSender) (mask : Option EpollMask) : Server :=
  { s with
    shared := s.shared.setSession x { s.obj x with sender := p }
    epoll := Function.update s.epoll (s.fdOf x) mask }

theorem sendRawDirect_map (s : Server) (x : SessionId) (data : Bytes) (sends : List SendResult) :
    s.sendRawDirect x data sends = s.sending x ((s.obj x).sender.sendPacket data sends).1
      ((s.epoll (s.fdOf x)).map ((s.obj x).sender.sendPacket data sends).2.getD) :=
  modifyFileDescriptorEvents_map (s.setSession x _) _ _

theorem onWrite_map (here : s.sessions (s.fdOf x) = some x) (opened : (s.obj x).closed = false)
    (sends : List SendResult) :
    s.onWrite (s.fdOf x) sends = s.sending x ((s.obj x).sender.handleWrite sends).1
      ((s.epoll (s.fdOf x)).map ((s.obj x).sender.handleWrite sends).2.getD) := by
  have written : s.handleWrite x sends = s.sending x ((s.obj x).sender.handleWrite sends).1
      ((s.epoll (s.fdOf x)).map ((s.obj x).sender.handleWrite sends).2.getD) :=
    modifyFileDescriptorEvents_map (s.setSession x _) _ _
  have closed : ((s.handleWrite x sends).obj x).closed = false := by
    rw [written]
    simpa [sending, obj, Shared.setSession] using opened
  simp only [onWrite, here, closed, Bool.false_eq_true, if_false]
  exact written

theorem sendRawDirect_sending (known : s.epoll (s.fdOf x) ≠ none) (data : Bytes)
    (sends : List SendResult) :
    let (p, mask) := (s.obj x).sender.sendPacket data sends
    s.sendRawDirect x data sends = s.sending x p (mask.or (s.epoll (s.fdOf x))) := by
  have sent := s.sendRawDirect_map x data sends
  rw [map_getD_eq_or known] at sent
  exact sent

theorem onWrite_sending (here : s.sessions (s.fdOf x) = some x) (opened : (s.obj x).closed = false)
    (known : s.epoll (s.fdOf x) ≠ none) (sends : List SendResult) :
    let (p, mask) := (s.obj x).sender.handleWrite sends
    s.onWrite (s.fdOf x) sends = s.sending x p (mask.or (s.epoll (s.fdOf x))) := by
  have written := onWrite_map here opened sends
  rw [map_getD_eq_or known] at written
  exact written

section

variable (s) (x) (p : PacketSender) (mask : Option EpollMask)

@[simp] theorem sending_obj (y : SessionId) : (s.sending x p mask).obj y =
    if y = x then { s.obj x with sender := p } else s.obj y := by
  simp only [sending, obj, Shared.setSession, Function.update_apply]

@[simp] theorem sending_fdOf (y : SessionId) : (s.sending x p mask).fdOf y = s.fdOf y := by
  rw [fdOf, sending_obj]
  split
  · rename_i e
    rw [e]
    rfl
  · rfl

end

/-- The session that sends is armed as its sender asks, and the others as before. -/
theorem sending_armed {p : PacketSender} {mask : Option EpollMask} {y : SessionId}
    (own : p.Armed mask)
    (other : y ≠ x → s.fdOf y ≠ s.fdOf x ∧ (s.obj y).sender.Armed (s.epoll (s.fdOf y))) :
    ((s.sending x p mask).obj y).sender.Armed
      ((s.sending x p mask).epoll ((s.sending x p mask).fdOf y)) := by
  rw [sending_fdOf, sending_obj]
  by_cases e : y = x
  · subst e
    have asked : (s.sending y p mask).epoll (s.fdOf y) = mask := Function.update_self _ _ _
    rw [if_pos rfl, asked]
    exact own
  · have asked : (s.sending x p mask).epoll (s.fdOf y) = s.epoll (s.fdOf y) :=
      Function.update_of_ne (other e).1 _ _
    rw [if_neg e, asked]
    exact (other e).2

end Server

end Cvcn
