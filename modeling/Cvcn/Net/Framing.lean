import Cvcn.Codec
import Cvcn.Lib.Framing
import Cvcn.Net.ClientSession

/-!
# The server's framing

`PacketAssembler` cuts packets off its buffer, and `ClientSession::handleRead` cuts all of
them after each `recv`. So the tasks of a session are the packets of the bytes received, in
whatever pieces these arrive, up to the first one that is too large.
-/

namespace Cvcn

open Framing

abbrev RawPacket := PacketHeaderRaw × Bytes

/-- The packet at the front of a stream, and the stream behind it: a 12-byte header and
`messageLen` bytes. -/
def frontPacket (s : Bytes) : Option (RawPacket × Bytes) :=
  match PacketParser.parseHeader s with
  | none => none
  | some header =>
    let behind := s.drop 12
    let size := header.messageLen.toNat
    if behind.length < size then none else some ((header, behind.take size), behind.drop size)

theorem frontPacket_eq_some {s : Bytes} {p : RawPacket} {rest : Bytes} :
    frontPacket s = some (p, rest) ↔
      s = Encoding.header p.1 ++ p.2 ++ rest ∧ p.2.length = p.1.messageLen.toNat := by
  constructor
  · intro h
    unfold frontPacket at h
    split at h
    · cases h
    · rename_i header parsed
      obtain ⟨behind, rfl⟩ := Encoding.parseHeader_eq_some.mp parsed
      simp only [List.drop_left' (Encoding.length_header header)] at h
      split at h
      · cases h
      · rename_i long
        cases h
        exact ⟨by rw [List.append_assoc, List.take_append_drop],
          List.length_take_of_le (Nat.le_of_not_lt long)⟩
  · rintro ⟨rfl, size⟩
    obtain ⟨header, body⟩ := p
    rw [List.append_assoc]
    have parsed : PacketParser.parseHeader (Encoding.header header ++ (body ++ rest)) =
        some header := Encoding.parseHeader_eq_some.mpr ⟨body ++ rest, rfl⟩
    have long : ¬ (body ++ rest).length < body.length := by
      rw [List.length_append]
      omega
    simp only [frontPacket, parsed, List.drop_left' (Encoding.length_header header), ← size,
      if_neg long, List.take_left, List.drop_left]

/-- The front packet by its total size, as the code computes it. -/
theorem frontPacket_of_parsed {s : Bytes} {header : PacketHeaderRaw}
    (parsed : PacketParser.parseHeader s = some header) :
    frontPacket s =
      let totalSize := PacketHeaderRaw.size + header.messageLen.toNat
      if s.length < totalSize then none
      else some ((header, (s.take totalSize).drop PacketHeaderRaw.size), s.drop totalSize) := by
  obtain ⟨behind, rfl⟩ := Encoding.parseHeader_eq_some.mp parsed
  have size : (Encoding.header header ++ behind).length = 12 + behind.length := by
    rw [List.length_append, Encoding.length_header]
  simp only [frontPacket, parsed, PacketHeaderRaw.size, size, List.drop_take, ← List.drop_drop,
    List.drop_left' (Encoding.length_header header), Nat.add_sub_cancel_left]
  by_cases few : behind.length < header.messageLen.toNat
  · rw [if_pos few, if_pos (by omega)]
  · rw [if_neg few, if_neg (by omega)]

/-- Streams cut into packets. -/
def packets : Cutter UInt8 RawPacket where
  cut := frontPacket
  shorter := by
    intro s p rest h
    rw [(frontPacket_eq_some.mp h).1, List.length_append, List.length_append,
      Encoding.length_header]
    omega
  stable := by
    intro s p rest more h
    obtain ⟨rfl, size⟩ := frontPacket_eq_some.mp h
    exact frontPacket_eq_some.mpr ⟨List.append_assoc _ _ _, size⟩

def frame (p : RawPacket) : Bytes := Encoding.header p.1 ++ p.2

/-- The packets of a stream and its rest are the stream. -/
theorem frames_append_rest (s : Bytes) : (packets.split s).1.flatMap frame ++
    (packets.split s).2 = s := by
  induction s using packets.induct with
  | last s h => rw [Cutter.split_of_none h]; rfl
  | more s p rest h ih =>
    rw [Cutter.split_of_some h, List.flatMap_cons, List.append_assoc, ih]
    exact (frontPacket_eq_some.mp h).1.symm

def tooLarge (p : RawPacket) : Bool := p.1.messageLen.toNat > config.MAX_REASONABLE_PACKET_BODY

def toTask (session : SessionId) (p : RawPacket) : Task := ⟨session, p.1, p.2⟩

/-- The packet that these are the bytes of. -/
def PacketBuilder.packetOf (messageID sessionID : UInt32) (d : Payload) : RawPacket :=
  (⟨d.type.code, messageID, sessionID, UInt16.ofNat d.body.length⟩, d.body)

theorem frame_ne_nil (p : RawPacket) : frame p ≠ [] := by
  intro none
  have size := congrArg List.length none
  rw [frame, List.length_append, Encoding.length_header, List.length_nil] at size
  omega

theorem PacketBuilder.frame_packetOf (messageID sessionID : UInt32) (d : Payload) :
    frame (packetOf messageID sessionID d) = ofPayload messageID sessionID d := by
  rw [ofPayload_eq, buildPacket_eq]
  simp only [frame, packetOf, Encoding.header, List.append_assoc]

/-- The packet is announced with its size, and neither end refuses it. -/
structure Acceptable (p : RawPacket) : Prop where
  size : p.2.length = p.1.messageLen.toNat
  small : tooLarge p = false

theorem PacketBuilder.acceptable_packetOf {messageID sessionID : UInt32} {d : Payload}
    (small : d.body.length ≤ config.MAX_REASONABLE_PACKET_BODY) :
    Acceptable (packetOf messageID sessionID d) := by
  have limit : config.MAX_REASONABLE_PACKET_BODY = 5120 := rfl
  have size : d.body.length = (UInt16.ofNat d.body.length).toNat :=
    (Encoding.toNat_ofNat (by omega)).symm
  refine ⟨size, decide_eq_false ?_⟩
  rw [packetOf, ← size]
  omega

namespace Acceptable

variable {p : RawPacket}

theorem front (h : Acceptable p) : packets.cut (frame p) = some (p, []) :=
  frontPacket_eq_some.mpr ⟨(List.append_nil _).symm, h.size⟩

theorem split (h : Acceptable p) : packets.split (frame p) = ([p], []) := by
  rw [Cutter.split_of_some h.front]
  rfl

theorem accepted (h : Acceptable p) : packets.accepted tooLarge (frame p) = [p] := by
  rw [Cutter.accepted_of_some h.front h.small]
  rfl

theorem refuses (h : Acceptable p) : packets.refuses tooLarge (frame p) = false := by
  rw [Cutter.refuses_of_some h.front, h.small]
  rfl

/-- No packet is complete while a part of this one is missing. -/
theorem part (h : Acceptable p) {buffer ahead : Bytes} (whole : buffer ++ ahead = frame p)
    (missing : ahead ≠ []) : packets.cut buffer = none := by
  cases cut : packets.cut buffer with
  | none => rfl
  | some found =>
    obtain ⟨p', rest⟩ := found
    have all := packets.stable ahead cut
    rw [whole, h.front] at all
    have nothing : [] = rest ++ ahead := congrArg Prod.snd (Option.some.inj all)
    exact absurd (List.append_eq_nil_iff.mp nothing.symm).2 missing

end Acceptable

namespace PacketAssembler

theorem extractPacket_eq (a : PacketAssembler) :
    a.extractPacket = (frontPacket a.readBuffer).map fun (p, rest) => (p.1, p.2, ⟨rest⟩) := by
  unfold extractPacket
  cases parsed : PacketParser.parseHeader a.readBuffer with
  | none => simp only [frontPacket, parsed, Option.map_none]
  | some header =>
    rw [frontPacket_of_parsed parsed]
    simp only
    split <;> rfl

end PacketAssembler

namespace ClientSession

/-- What is right to make of the bytes `s`: the tasks of the packets before the first that is
too large, a close for that one, or because the peer hangs up, and the rest in the buffer. -/
structure Serves (session : SessionId) (s : Bytes) (hangsUp : Bool)
    (out : PacketAssembler × List Task × Bool) : Prop where
  tasks : out.2.1 = (packets.accepted tooLarge s).map (toTask session)
  close : out.2.2 = (packets.refuses tooLarge s || hangsUp)
  rest : packets.refuses tooLarge s = false → out.1.readBuffer = (packets.split s).2

variable {session : SessionId}

/-- A buffer without a whole packet stays as it is. -/
theorem Serves.idle {a : PacketAssembler} (none : frontPacket a.readBuffer = none)
    (hangsUp : Bool) : Serves session a.readBuffer hangsUp (a, [], hangsUp) where
  tasks := by rw [Cutter.accepted_of_none none]; rfl
  close := by rw [Cutter.refuses_of_none none]; rfl
  rest _ := by rw [Cutter.split_of_none none]

/-- After a packet that is too large it does not matter what comes. -/
theorem Serves.stop {s t : Bytes} {out : PacketAssembler × List Task × Bool} {hangsUp : Bool}
    (h : Serves session s false out) (large : packets.refuses tooLarge s = true) :
    Serves session (s ++ t) hangsUp (out.1, out.2.1, true) where
  tasks := by rw [Cutter.accepted_append, large, if_pos rfl, List.append_nil]; exact h.tasks
  close := by rw [Cutter.refuses_append, large]; rfl
  rest none := by
    rw [Cutter.refuses_append, large] at none
    cases none

/-- Otherwise what comes is appended to the rest. -/
theorem Serves.go {s t : Bytes} {out next : PacketAssembler × List Task × Bool} {hangsUp : Bool}
    (h : Serves session s false out) (none : packets.refuses tooLarge s = false)
    (more : Serves session ((packets.split s).2 ++ t) hangsUp next) :
    Serves session (s ++ t) hangsUp (next.1, out.2.1 ++ next.2.1, next.2.2) where
  tasks := by
    rw [Cutter.accepted_append, none, List.map_append, ← h.tasks]
    exact congrArg (out.2.1 ++ ·) more.tasks
  close := by rw [Cutter.refuses_append, none, Bool.false_or]; exact more.close
  rest none' := by
    rw [Cutter.refuses_append, none, Bool.false_or] at none'
    rw [Cutter.split_append]
    exact more.rest none'

/-- The loop takes the packets of the buffer up to the first that is too large. -/
theorem extractTasks_serves {rounds : Nat} {a : PacketAssembler}
    (enough : a.readBuffer.length ≤ rounds) :
    Serves session a.readBuffer false (extractTasks session rounds a) := by
  induction rounds generalizing a with
  | zero =>
    obtain ⟨buffer⟩ := a
    obtain rfl : buffer = [] := List.length_eq_zero_iff.mp (Nat.le_zero.mp enough)
    exact .idle rfl false
  | succ rounds ih =>
    unfold extractTasks
    rw [PacketAssembler.extractPacket_eq]
    cases cut : frontPacket a.readBuffer with
    | none => exact .idle cut false
    | some found =>
      obtain ⟨⟨header, body⟩, rest⟩ := found
      have less := packets.shorter cut
      have fewer : rest.length ≤ rounds := by omega
      have loop := ih (a := ⟨rest⟩) fewer
      cases large : tooLarge (header, body) with
      | true =>
        have exceeds : header.messageLen.toNat > config.MAX_REASONABLE_PACKET_BODY :=
          of_decide_eq_true large
        have refused : packets.refuses tooLarge a.readBuffer = true := by
          rw [Cutter.refuses_of_some cut, large]
          rfl
        simp only [Option.map_some, if_pos exceeds]
        exact ⟨by rw [Cutter.accepted_of_refused cut large]; rfl, by rw [refused]; rfl,
          fun none => absurd (refused.symm.trans none) Bool.true_eq_false.mp⟩
      | false =>
        have fits : ¬ header.messageLen.toNat > config.MAX_REASONABLE_PACKET_BODY :=
          of_decide_eq_false large
        have same : packets.refuses tooLarge a.readBuffer = packets.refuses tooLarge rest := by
          rw [Cutter.refuses_of_some cut, large, Bool.false_or]
        simp only [Option.map_some, if_neg fits]
        refine ⟨?_, same ▸ loop.close, fun none => ?_⟩
        · rw [Cutter.accepted_of_some cut large, List.map_cons, ← loop.tasks]
          rfl
        · rw [Cutter.split_of_some cut]
          exact loop.rest (same ▸ none)

/-- The bytes that `recv` delivers before it answers anything else. -/
def received : List RecvResult → Bytes
  | .bytes [] :: _ | .error :: _ | .again :: _ | [] => []
  | .bytes data :: recvs => data ++ received recvs

/-- `recv` goes on until the end of the stream or an error. -/
def hangsUp : List RecvResult → Bool
  | .bytes [] :: _ | .error :: _ => true
  | .again :: _ | [] => false
  | .bytes _ :: recvs => hangsUp recvs

/-- A call of `handleRead` serves the buffer and the bytes that it receives. -/
theorem handleRead_serves {recvs : List RecvResult} {a : PacketAssembler}
    (idle : frontPacket a.readBuffer = none) :
    Serves session (a.readBuffer ++ received recvs) (hangsUp recvs)
      (handleRead session recvs a) := by
  induction recvs generalizing a with
  | nil =>
    rw [received, List.append_nil]
    exact .idle idle false
  | cons r recvs ih =>
    match r with
    | .bytes [] =>
      rw [received, List.append_nil]
      exact .idle idle true
    | .error =>
      rw [received, List.append_nil]
      exact .idle idle true
    | .again =>
      rw [received, List.append_nil]
      exact .idle idle false
    | .bytes (b :: bytes) =>
      have loop : Serves session (a.appendData (b :: bytes)).readBuffer false
          (extractTasks session _ (a.appendData (b :: bytes))) :=
        extractTasks_serves (Nat.le_refl _)
      have stream : a.readBuffer ++ received (.bytes (b :: bytes) :: recvs) =
          (a.appendData (b :: bytes)).readBuffer ++ received recvs :=
        (List.append_assoc _ _ _).symm
      have up : hangsUp (.bytes (b :: bytes) :: recvs) = hangsUp recvs := rfl
      rw [stream, up]
      have stopped := loop.close
      rw [Bool.or_false] at stopped
      simp only [handleRead, stopped]
      cases large : packets.refuses tooLarge (a.appendData (b :: bytes)).readBuffer with
      | true => exact loop.stop large
      | false =>
        have left := loop.rest large
        have next := ih (a := (extractTasks session (a.appendData (b :: bytes)).readBuffer.length
          (a.appendData (b :: bytes))).1) (by rw [left]; exact packets.cut_rest _)
        rw [left] at next
        exact loop.go large next

/-- Calls of `handleRead` on one session, each until `recv` has no more for now; a session that
has been closed is not read again. -/
def readCalls (session : SessionId) :
    List (List Bytes) → PacketAssembler → PacketAssembler × List Task × Bool
  | [], a => (a, [], false)
  | chunks :: calls, a =>
    let (a, tasks, close) := handleRead session (chunks.map .bytes ++ [.again]) a
    if close then (a, tasks, true)
    else
      let (a, more, close) := readCalls session calls a
      (a, tasks ++ more, close)

theorem received_chunks {chunks : List Bytes} (nonempty : ∀ chunk ∈ chunks, chunk ≠ []) :
    received (chunks.map .bytes ++ [.again]) = chunks.flatten ∧
      hangsUp (chunks.map .bytes ++ [.again]) = false := by
  induction chunks with
  | nil => exact ⟨rfl, rfl⟩
  | cons chunk chunks ih =>
    obtain ⟨all, stays⟩ := ih fun c hc => nonempty c (List.mem_cons_of_mem _ hc)
    cases chunk with
    | nil => exact absurd rfl (nonempty [] List.mem_cons_self)
    | cons b bytes => exact ⟨congrArg ((b :: bytes) ++ ·) all, stays⟩

theorem readCalls_serves {calls : List (List Bytes)} {a : PacketAssembler}
    (nonempty : ∀ chunks ∈ calls, ∀ chunk ∈ chunks, chunk ≠ [])
    (idle : frontPacket a.readBuffer = none) :
    Serves session (a.readBuffer ++ calls.flatten.flatten) false (readCalls session calls a) := by
  induction calls generalizing a with
  | nil =>
    rw [List.flatten_nil, List.flatten_nil, List.append_nil]
    exact .idle idle false
  | cons chunks calls ih =>
    obtain ⟨all, stays⟩ := received_chunks (nonempty chunks List.mem_cons_self)
    have call : Serves session _ _ (handleRead session (chunks.map .bytes ++ [.again]) a) :=
      handleRead_serves idle
    rw [all, stays] at call
    rw [List.flatten_cons, List.flatten_append, ← List.append_assoc]
    have closed := call.close
    rw [Bool.or_false] at closed
    simp only [readCalls, closed]
    cases large : packets.refuses tooLarge (a.readBuffer ++ chunks.flatten) with
    | true => exact call.stop large
    | false =>
      have left := call.rest large
      have next := ih (a := (handleRead session (chunks.map .bytes ++ [.again]) a).1)
        (fun cs hcs => nonempty cs (List.mem_cons_of_mem _ hcs))
        (by rw [left]; exact packets.cut_rest _)
      rw [left] at next
      exact call.go large next

/-- Framing does not depend on how the stream arrives: over any calls of `handleRead` the
tasks are the complete packets of the bytes received, up to the first that is too large; the
session is closed exactly when there is one; until then the buffer is the unconsumed rest. -/
theorem handleRead_any_chunks (session : SessionId) (calls : List (List Bytes))
    (nonempty : ∀ chunks ∈ calls, ∀ chunk ∈ chunks, chunk ≠ []) :
    let (assembler, tasks, closed) := readCalls session calls {}
    let (complete, rest) := packets.split calls.flatten.flatten
    tasks = (complete.takeWhile fun p => !tooLarge p).map (toTask session) ∧
      (closed = true ↔ ∃ p ∈ complete, p.1.messageLen.toNat > config.MAX_REASONABLE_PACKET_BODY) ∧
      (closed = false → assembler.readBuffer = rest) := by
  have all : Serves session calls.flatten.flatten false (readCalls session calls {}) :=
    readCalls_serves (a := {}) nonempty rfl
  have closed := all.close
  rw [Bool.or_false] at closed
  refine ⟨all.tasks, ?_, fun stays => all.rest (closed.symm.trans stays)⟩
  refine (iff_of_eq (congrArg (· = true) closed)).trans (List.any_eq_true.trans ?_)
  simp only [tooLarge, decide_eq_true_iff]
  exact Iff.rfl

theorem handleRead_any_chunks_split_header :
    (readCalls 0 [[[0, 0xF, 0], [0, 0, 1]], [[0, 0, 0, 0, 0, 0]]] {}).2.1 =
      [⟨0, ⟨0xF, 1, 0, 0⟩, []⟩] :=
  (handleRead_any_chunks 0 [[[0, 0xF, 0], [0, 0, 1]], [[0, 0, 0, 0, 0, 0]]] (by decide)).1

end ClientSession

end Cvcn
