import Cvcn.Lib.Machine
import Cvcn.Net.Framing

/-!
# The receive buffer

`PacketAssembler` declares a limit for its buffer and does not use it: `handleRead` compares
`messageLen` with its own limit after the packet has been cut off. Until then the buffer keeps
what comes of a packet, header and body, so the largest packets that can be announced exceed the
declared limit before they are refused.
-/

namespace Cvcn

open Framing Machine

/-- The size of the buffer that `recv` writes to. -/
def config.SESSION_READ_BUFFER_SIZE : Nat := 4096

/-- The limit that the class declares. -/
def PacketAssembler.MAX_BUFFER_SIZE : Nat := 64 * 1024

namespace ClientSession

/-- One call of `handleRead` on an open session, if it leaves the session open. -/
def readOpen (session : SessionId) (a : PacketAssembler) (recvs : List RecvResult) :
    Option PacketAssembler :=
  let (a, _, close) := handleRead session recvs a
  if close then none else some a

/-- The bytes that several calls receive. -/
def stream (calls : List (List RecvResult)) : Bytes := calls.flatMap received

/-- Whole packets that are served, and of the next one the header and more of the body than
the buffer has room for, but not all. -/
def Withholds (s : Bytes) : Prop :=
  ∃ (served : List RawPacket) (header : PacketHeaderRaw) (part : Bytes),
    (∀ p ∈ served, Acceptable p) ∧
    s = served.flatMap frame ++ (Encoding.header header ++ part) ∧
    PacketAssembler.MAX_BUFFER_SIZE < PacketHeaderRaw.size + part.length ∧
    part.length < header.messageLen.toNat

variable {session : SessionId}

/-- What a call leaves open has received nothing that is refused, and keeps the rest. -/
theorem readOpen_eq_some {a b : PacketAssembler} {recvs : List RecvResult}
    (idle : frontPacket a.readBuffer = none) :
    readOpen session a recvs = some b ↔ hangsUp recvs = false ∧
      packets.refuses tooLarge (a.readBuffer ++ received recvs) = false ∧
      b = ⟨(packets.split (a.readBuffer ++ received recvs)).2⟩ := by
  have call : Serves session _ _ (handleRead session recvs a) := handleRead_serves idle
  have close := call.close
  constructor
  · intro h
    simp only [readOpen, Option.ite_none_left_eq_some, Option.some.injEq, Bool.not_eq_true] at h
    obtain ⟨stays, rfl⟩ := h
    rw [close, Bool.or_eq_false_iff] at stays
    exact ⟨stays.2, stays.1, congrArg PacketAssembler.mk (call.rest stays.1)⟩
  · rintro ⟨up, none, rfl⟩
    rw [up, none] at close
    have rest := congrArg PacketAssembler.mk (call.rest none)
    simp only [readOpen, Option.ite_none_left_eq_some, Option.some.injEq, Bool.not_eq_true]
    exact ⟨close, rest⟩

/-- A session that is still open after several calls keeps what they received behind the
packets that it served. -/
theorem exec_readOpen {a b : PacketAssembler} {calls : List (List RecvResult)}
    (idle : frontPacket a.readBuffer = none) :
    exec (readOpen session) a calls = some b ↔ (∀ recvs ∈ calls, hangsUp recvs = false) ∧
      packets.refuses tooLarge (a.readBuffer ++ stream calls) = false ∧
      b = ⟨(packets.split (a.readBuffer ++ stream calls)).2⟩ := by
  induction calls generalizing a with
  | nil =>
    have none : packets.refuses tooLarge a.readBuffer = false := Cutter.refuses_of_none idle
    have rest : packets.split a.readBuffer = ([], a.readBuffer) := Cutter.split_of_none idle
    rw [stream, List.flatMap_nil, List.append_nil, none, rest, exec_nil]
    constructor
    · intro same
      cases same
      exact ⟨fun _ never => absurd never List.not_mem_nil, rfl, rfl⟩
    · rintro ⟨-, -, rfl⟩
      rfl
  | cons recvs calls ih =>
    let next : PacketAssembler := ⟨(packets.split (a.readBuffer ++ received recvs)).2⟩
    have idle' : frontPacket next.readBuffer = none := packets.cut_rest _
    have parts : a.readBuffer ++ stream (recvs :: calls) =
        a.readBuffer ++ received recvs ++ stream calls :=
      (List.append_assoc _ _ _).symm
    rw [exec_cons, parts, Cutter.refuses_append_eq_false,
      Cutter.split_append (a.readBuffer ++ received recvs), List.forall_mem_cons]
    constructor
    · rintro ⟨m, call, run⟩
      obtain ⟨up, none, rfl⟩ := (readOpen_eq_some idle).mp call
      obtain ⟨ups, none', rfl⟩ := (ih idle').mp run
      exact ⟨⟨up, ups⟩, ⟨none, none'⟩, rfl⟩
    · rintro ⟨⟨up, ups⟩, ⟨none, none'⟩, rfl⟩
      exact ⟨next, (readOpen_eq_some idle).mpr ⟨up, none, rfl⟩,
        (ih idle').mpr ⟨ups, none', rfl⟩⟩

/-- Cutting takes the packets served off the front. -/
theorem split_served {served : List RawPacket} (ok : ∀ p ∈ served, Acceptable p) (s : Bytes) :
    packets.split (served.flatMap frame ++ s) = (served ++ (packets.split s).1,
      (packets.split s).2) := by
  induction served with
  | nil => rfl
  | cons p served ih =>
    have front : packets.cut (frame p ++ (served.flatMap frame ++ s)) =
        some (p, served.flatMap frame ++ s) :=
      frontPacket_eq_some.mpr ⟨rfl, (ok p List.mem_cons_self).size⟩
    rw [List.flatMap_cons, List.append_assoc, Cutter.split_of_some front,
      ih fun q hq => ok q (List.mem_cons_of_mem _ hq)]
    rfl

/-- Every packet of a stream of which none is refused is served. -/
theorem acceptable_of_mem_split {s : Bytes} (none : packets.refuses tooLarge s = false) :
    ∀ p ∈ (packets.split s).1, Acceptable p := by
  induction s using packets.induct with
  | last s h =>
    rw [Cutter.split_of_none h]
    intro p hp
    exact absurd hp List.not_mem_nil
  | more s q rest h ih =>
    rw [Cutter.refuses_of_some h, Bool.or_eq_false_iff] at none
    rw [Cutter.split_of_some h]
    intro p hp
    cases List.mem_cons.mp hp with
    | inl same => exact same ▸ ⟨(frontPacket_eq_some.mp h).2, none.1⟩
    | inr hp => exact ih none.2 p hp

/-- What is kept of a packet is a part of its header, or the header and a part of its body. -/
theorem frontPacket_eq_none {s : Bytes} (long : PacketHeaderRaw.size ≤ s.length) :
    frontPacket s = none ↔ ∃ (header : PacketHeaderRaw) (part : Bytes),
      s = Encoding.header header ++ part ∧ part.length < header.messageLen.toNat := by
  constructor
  · intro h
    unfold frontPacket at h
    split at h
    · rename_i short
      unfold PacketParser.parseHeader at short
      rw [if_neg (Nat.not_lt.mpr long)] at short
      cases short
    · rename_i header parsed
      obtain ⟨part, rfl⟩ := Encoding.parseHeader_eq_some.mp parsed
      simp only [List.drop_left' (Encoding.length_header header)] at h
      split at h
      · exact ⟨header, part, rfl, by assumption⟩
      · cases h
  · rintro ⟨header, part, rfl, missing⟩
    have parsed : PacketParser.parseHeader (Encoding.header header ++ part) = some header :=
      Encoding.parseHeader_eq_some.mpr ⟨part, rfl⟩
    simp only [frontPacket, parsed, List.drop_left' (Encoding.length_header header), if_pos missing]

/-- The stream withholds the end of a packet exactly when its rest exceeds the limit. -/
theorem withholds_iff {s : Bytes} : Withholds s ↔ packets.refuses tooLarge s = false ∧
    PacketAssembler.MAX_BUFFER_SIZE < (packets.split s).2.length := by
  constructor
  · rintro ⟨served, header, part, ok, rfl, large, missing⟩
    have size : (Encoding.header header ++ part).length = PacketHeaderRaw.size + part.length := by
      rw [List.length_append, Encoding.length_header, PacketHeaderRaw.size]
    have none : packets.cut (Encoding.header header ++ part) = none :=
      (frontPacket_eq_none (by omega)).mpr ⟨header, part, rfl, missing⟩
    have split := split_served ok (Encoding.header header ++ part)
    rw [Cutter.split_of_none none, List.append_nil] at split
    refine ⟨?_, ?_⟩
    · rw [Cutter.refuses, split, List.any_eq_false]
      intro p hp
      simp [(ok p hp).small]
    · rw [split, size]
      exact large
  · rintro ⟨none, large⟩
    have limit : PacketAssembler.MAX_BUFFER_SIZE = 65536 := rfl
    have least : PacketHeaderRaw.size = 12 := rfl
    have long : PacketHeaderRaw.size ≤ (packets.split s).2.length := by omega
    obtain ⟨header, part, same, missing⟩ := (frontPacket_eq_none long).mp (packets.cut_rest s)
    refine ⟨(packets.split s).1, header, part, acceptable_of_mem_split none, ?_, ?_, missing⟩
    · rw [← same, frames_append_rest]
    · rw [same, List.length_append, Encoding.length_header] at large
      rwa [PacketHeaderRaw.size]

/-- The buffer of an open session always has room for one packet of the largest size that a
header can announce. -/
theorem readBuffer_length_lt (session : SessionId) (calls : List (List RecvResult)) :
    Throughout (readOpen session) (fun a => a.readBuffer.length < PacketHeaderRaw.size + 65535) {}
      calls := by
  refine throughout_iff_exec.mpr fun k b run => ?_
  obtain ⟨-, -, rfl⟩ := (exec_readOpen rfl).mp run
  have size : PacketHeaderRaw.size = 12 := rfl
  by_cases long : PacketHeaderRaw.size ≤ (packets.split (stream (calls.take k))).2.length
  · have rest : frontPacket (packets.split (stream (calls.take k))).2 = none := packets.cut_rest _
    obtain ⟨header, part, same, missing⟩ := (frontPacket_eq_none long).mp rest
    have bound := header.messageLen.toNat_lt
    have sum := congrArg List.length same
    rw [List.length_append, Encoding.length_header] at sum
    show (packets.split (stream (calls.take k))).2.length < _
    omega
  · show (packets.split (stream (calls.take k))).2.length < _
    omega

/-- The peer gets the session to keep the part of a packet that it has sent. -/
theorem exceeds_of_withholds {calls : List (List RecvResult)}
    (up : ∀ recvs ∈ calls, hangsUp recvs = false) (withheld : Withholds (stream calls)) :
    ∃ b, exec (readOpen session) {} calls = some b ∧
      PacketAssembler.MAX_BUFFER_SIZE < b.readBuffer.length := by
  obtain ⟨none, large⟩ := withholds_iff.mp withheld
  exact ⟨⟨(packets.split (stream calls)).2⟩, (exec_readOpen rfl).mpr ⟨up, none, rfl⟩, large⟩

/-- The buffer of a session stays within the declared limit exactly if, whenever the session is
read, the peer does not withhold the end of a packet that exceeds it. -/
theorem readBuffer_within_limit_iff (session : SessionId) (calls : List (List RecvResult)) :
    Throughout (readOpen session)
        (fun a => a.readBuffer.length ≤ PacketAssembler.MAX_BUFFER_SIZE) {} calls ↔
      ∀ k, (∀ recvs ∈ calls.take k, hangsUp recvs = false) →
        ¬ Withholds (stream (calls.take k)) := by
  rw [throughout_iff_exec]
  constructor
  · intro within k up withheld
    obtain ⟨b, run, large⟩ := exceeds_of_withholds up withheld
    exact absurd (within k b run) (Nat.not_le.mpr large)
  · intro never k b run
    obtain ⟨up, none, rfl⟩ := (exec_readOpen rfl).mp run
    refine Nat.le_of_not_lt fun large => never k up ?_
    exact withholds_iff.mpr ⟨none, large⟩

/-- The largest packet that a header can announce, without the last byte of its body. -/
def withheldPacket : List Bytes :=
  [0, 7, 0, 0, 0, 0, 0, 0, 0, 0, 255, 255] ::
    (List.replicate 15 (List.replicate config.SESSION_READ_BUFFER_SIZE 0) ++
      [List.replicate 4094 0])

theorem readBuffer_exceeds_limit : ¬ Throughout (readOpen 0)
    (fun a => a.readBuffer.length ≤ PacketAssembler.MAX_BUFFER_SIZE) {}
    [withheldPacket.map .bytes ++ [.again]] := by
  intro within
  have nonempty : ∀ chunk ∈ withheldPacket, chunk ≠ [] := by
    intro chunk hc none
    rw [withheldPacket, List.mem_cons, List.mem_append, List.mem_replicate,
      List.mem_singleton] at hc
    obtain hc | ⟨-, hc⟩ | hc := hc <;>
      exact absurd (congrArg List.length (hc.symm.trans none)) (by
        simp only [List.length_replicate, List.length_cons, List.length_nil]
        decide)
  obtain ⟨bytes, up⟩ := received_chunks nonempty
  have withheld : Withholds (stream [withheldPacket.map .bytes ++ [.again]]) := by
    refine ⟨[], ⟨7, 0, 0, 65535⟩, List.replicate 65534 0, by simp, ?_, ?_, ?_⟩
    · rw [stream, List.flatMap_singleton, bytes, withheldPacket, List.flatten_cons,
        List.flatten_append, config.SESSION_READ_BUFFER_SIZE, List.flatten_replicate_replicate,
        List.flatten_singleton, List.replicate_append_replicate]
      rfl
    · rw [List.length_replicate]
      decide
    · rw [List.length_replicate]
      decide
  have ups : ∀ recvs ∈ [withheldPacket.map .bytes ++ [.again]], hangsUp recvs = false :=
    fun recvs hr => List.mem_singleton.mp hr ▸ up
  obtain ⟨b, run, large⟩ := exceeds_of_withholds ups withheld
  exact absurd (within.last run) (Nat.not_le.mpr large)

end ClientSession

end Cvcn
