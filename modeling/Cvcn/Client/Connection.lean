import Mathlib.Logic.Relation
import Cvcn.Net.Framing

/-!
# The client's framing

`Connection::slotReadyRead`. A packet above the limit is refused as soon as its header is
there: the buffer is cleared, but the connection stays open and the rest of the refused body is
still to come. What arrives next is read as a header.
-/

namespace Cvcn

open Framing

/-- `config::MAX_MESSAGE_LENGTH + 1024`, cast to 16 bits. -/
def Connection.MAX_REASONABLE_LEN : UInt16 := UInt16.ofNat (config.MAX_MESSAGE_LENGTH + 1024)

/-- The code has the buffer only; `start` is the place in the stream where the buffer begins. -/
structure Connection where
  receiveBuffer : Bytes := []
  start : Nat := 0
  deriving DecidableEq, Repr

namespace Connection

/-- The signals, and between them the places of the stream that were read as a header. -/
inductive Event where
  | parseHeader (start : Nat)
  | signalRawPacketReceived (start : Nat) (packet : RawPacket)
  | signalErrorOccurred (messageLen : UInt16)
  deriving DecidableEq, Repr

/-- The loop of `slotReadyRead`. Each round takes a header off the buffer, so the buffer's
length bounds the rounds. -/
def readLoop : Nat → Connection → Connection × List Event
  | 0, c => (c, [])
  | rounds + 1, c =>
    match PacketParser.parseHeader c.receiveBuffer with
    | none => (c, [])
    | some header =>
      if header.messageLen > MAX_REASONABLE_LEN then
        (⟨[], c.start + c.receiveBuffer.length⟩,
          [.parseHeader c.start, .signalErrorOccurred header.messageLen])
      else
        let totalSize := PacketHeaderRaw.size + header.messageLen.toNat
        if c.receiveBuffer.length < totalSize then (c, [.parseHeader c.start])
        else
          let body := (c.receiveBuffer.take totalSize).drop PacketHeaderRaw.size
          let (next, events) :=
            readLoop rounds ⟨c.receiveBuffer.drop totalSize, c.start + totalSize⟩
          (next, .parseHeader c.start :: .signalRawPacketReceived c.start (header, body) :: events)

def slotReadyRead (c : Connection) (chunk : Bytes) : Connection × List Event :=
  let receiveBuffer := c.receiveBuffer ++ chunk
  readLoop receiveBuffer.length { c with receiveBuffer }

/-- The chunks of a stream, one `readyRead` after another. -/
def receive : List Bytes → Connection → Connection × List Event
  | [], c => (c, [])
  | chunk :: chunks, c =>
    let (c, events) := c.slotReadyRead chunk
    let (c, more) := receive chunks c
    (c, events ++ more)

def Event.packet : Event → Option RawPacket
  | signalRawPacketReceived _ packet => some packet
  | _ => none

/-- The packets of the events, in order. -/
def packetsIn (events : List Event) : List RawPacket := events.filterMap Event.packet

/-- The place where a header or a packet was found. -/
def Event.place : Event → Option Nat
  | parseHeader start => some start
  | signalRawPacketReceived start _ => some start
  | signalErrorOccurred _ => none

/-- From one packet of the stream to the next. -/
def Skips (stream : Bytes) (b b' : Nat) : Prop :=
  ∃ header, PacketParser.parseHeader (stream.drop b) = some header ∧
    b' = b + 12 + header.messageLen.toNat

/-- The packet boundaries of a stream, from its start. -/
def Boundary (stream : Bytes) : Nat → Prop := Relation.ReflTransGen (Skips stream) 0

/-- However the stream is split into chunks, the same packets are signalled, and no place but
a packet boundary is read as a header or signalled as a packet. -/
def KeepsInStep (stream : Bytes) : Prop :=
  (∀ chunks chunks' : List Bytes, chunks.flatten = stream → chunks'.flatten = stream →
    packetsIn (receive chunks {}).2 = packetsIn (receive chunks' {}).2) ∧
  ∀ chunks : List Bytes, chunks.flatten = stream →
    ∀ e ∈ (receive chunks {}).2, ∀ start, e.place = some start → Boundary stream start

/-- Fewer than 12 bytes follow the header of a packet that is refused. -/
def EndsWithRefused (stream : Bytes) : Prop :=
  ∀ b header, Boundary stream b → PacketParser.parseHeader (stream.drop b) = some header →
    header.messageLen > MAX_REASONABLE_LEN → stream.length < b + 24

/-- The client's limit refuses the packets that are too large for the server. -/
theorem refused_iff {header : PacketHeaderRaw} {body : Bytes} :
    header.messageLen > MAX_REASONABLE_LEN ↔ tooLarge (header, body) = true := by
  rw [tooLarge, decide_eq_true_iff]
  exact Iff.rfl

/-- What the loop does with a buffer, round by round. -/
inductive Reads : Connection → Connection → List Event → Prop
  | wait {c : Connection} (short : PacketParser.parseHeader c.receiveBuffer = none) : Reads c c []
  | refuse {c : Connection} {header : PacketHeaderRaw}
      (parsed : PacketParser.parseHeader c.receiveBuffer = some header)
      (large : header.messageLen > MAX_REASONABLE_LEN) :
      Reads c ⟨[], c.start + c.receiveBuffer.length⟩
        [.parseHeader c.start, .signalErrorOccurred header.messageLen]
  | incomplete {c : Connection} {header : PacketHeaderRaw}
      (parsed : PacketParser.parseHeader c.receiveBuffer = some header)
      (fits : ¬ header.messageLen > MAX_REASONABLE_LEN)
      (none : frontPacket c.receiveBuffer = none) : Reads c c [.parseHeader c.start]
  | packet {c next : Connection} {events : List Event} {header : PacketHeaderRaw}
      {body rest : Bytes} (front : frontPacket c.receiveBuffer = some ((header, body), rest))
      (fits : ¬ header.messageLen > MAX_REASONABLE_LEN)
      (more : Reads ⟨rest, c.start + 12 + header.messageLen.toNat⟩ next events) :
      Reads c next
        (.parseHeader c.start :: .signalRawPacketReceived c.start (header, body) :: events)

theorem readLoop_reads {rounds : Nat} {c : Connection} (enough : c.receiveBuffer.length ≤ rounds) :
    Reads c (readLoop rounds c).1 (readLoop rounds c).2 := by
  induction rounds generalizing c with
  | zero =>
    obtain ⟨buffer, start⟩ := c
    obtain rfl : buffer = [] := List.length_eq_zero_iff.mp (Nat.le_zero.mp enough)
    exact .wait rfl
  | succ rounds ih =>
    unfold readLoop
    cases parsed : PacketParser.parseHeader c.receiveBuffer with
    | none => exact .wait parsed
    | some header =>
      by_cases large : header.messageLen > MAX_REASONABLE_LEN
      · simp only [if_pos large]
        exact .refuse parsed large
      · have front := frontPacket_of_parsed parsed
        simp only [if_neg large]
        split
        · rename_i few
          rw [if_pos few] at front
          exact .incomplete parsed large front
        · rename_i whole
          rw [if_neg whole] at front
          have less := packets.shorter front
          exact .packet front large (Nat.add_assoc _ _ _ ▸ ih (by simp only; omega))

theorem slotReadyRead_reads (c : Connection) (chunk : Bytes) :
    Reads ⟨c.receiveBuffer ++ chunk, c.start⟩ (c.slotReadyRead chunk).1
      (c.slotReadyRead chunk).2 :=
  readLoop_reads (Nat.le_refl _)

theorem parseHeader_append {s : Bytes} {header : PacketHeaderRaw}
    (parsed : PacketParser.parseHeader s = some header) (more : Bytes) :
    PacketParser.parseHeader (s ++ more) = some header := by
  obtain ⟨behind, rfl⟩ := Encoding.parseHeader_eq_some.mp parsed
  exact Encoding.parseHeader_eq_some.mpr ⟨behind ++ more, List.append_assoc _ _ _⟩

theorem length_of_parsed {s : Bytes} {header : PacketHeaderRaw}
    (parsed : PacketParser.parseHeader s = some header) : 12 ≤ s.length := by
  obtain ⟨behind, rfl⟩ := Encoding.parseHeader_eq_some.mp parsed
  rw [List.length_append, Encoding.length_header]
  omega

theorem parsed_of_front {s rest : Bytes} {p : RawPacket} (front : frontPacket s = some (p, rest)) :
    PacketParser.parseHeader s = some p.1 := by
  obtain ⟨rfl, _⟩ := frontPacket_eq_some.mp front
  exact Encoding.parseHeader_eq_some.mpr ⟨p.2 ++ rest, List.append_assoc _ _ _⟩

/-- Nothing is accepted from a stream that begins with a refused header. -/
theorem accepted_of_large {s : Bytes} {header : PacketHeaderRaw}
    (parsed : PacketParser.parseHeader s = some header)
    (large : header.messageLen > MAX_REASONABLE_LEN) : packets.accepted tooLarge s = [] := by
  cases front : frontPacket s with
  | none => exact Cutter.accepted_of_none front
  | some found =>
    obtain ⟨⟨header', body⟩, rest⟩ := found
    obtain rfl := Option.some.inj (parsed.symm.trans (parsed_of_front front))
    exact Cutter.accepted_of_refused front (refused_iff.mp large)

/-- The buffer is the stream from a packet boundary on, as far as it has arrived. -/
structure InStep (stream : Bytes) (c : Connection) (ahead : Bytes) : Prop where
  boundary : Boundary stream c.start
  stream : stream.drop c.start = c.receiveBuffer ++ ahead

theorem InStep.header {stream ahead : Bytes} {c : Connection} (h : InStep stream c ahead)
    {header : PacketHeaderRaw} (parsed : PacketParser.parseHeader c.receiveBuffer = some header) :
    PacketParser.parseHeader (stream.drop c.start) = some header :=
  h.stream ▸ parseHeader_append parsed ahead

/-- Behind the packet that is taken off the buffer is the next boundary. -/
theorem InStep.behind {stream ahead : Bytes} {c : Connection} (h : InStep stream c ahead)
    {header : PacketHeaderRaw} {body rest : Bytes}
    (front : frontPacket c.receiveBuffer = some ((header, body), rest)) :
    InStep stream ⟨rest, c.start + 12 + header.messageLen.toNat⟩ ahead := by
  obtain ⟨bytes, size⟩ := frontPacket_eq_some.mp (packets.stable ahead front)
  have total : (Encoding.header header ++ body).length = 12 + header.messageLen.toNat := by
    rw [List.length_append, Encoding.length_header, size]
  have skips : Skips stream c.start (c.start + 12 + header.messageLen.toNat) :=
    ⟨header, h.header (parsed_of_front front), rfl⟩
  refine ⟨h.boundary.tail skips, ?_⟩
  rw [Nat.add_assoc, ← List.drop_drop, h.stream, bytes, List.drop_left' total]

/-- A call of the slot on a buffer that is in step reads headers at packet boundaries only. It
stays in step, or it has refused a packet that so little follows that no header fits any more. -/
theorem Reads.in_step {stream : Bytes} (ends : EndsWithRefused stream) {c c' : Connection}
    {events : List Event} (reads : Reads c c' events) {ahead : Bytes}
    (h : InStep stream c ahead) :
    (∀ e ∈ events, ∀ start, e.place = some start → Boundary stream start) ∧
      ((InStep stream c' ahead ∧ frontPacket c'.receiveBuffer = none ∧
          packets.accepted tooLarge (c.receiveBuffer ++ ahead) =
            packetsIn events ++ packets.accepted tooLarge (c'.receiveBuffer ++ ahead)) ∨
        (c'.receiveBuffer.length + ahead.length < 12 ∧
          packets.accepted tooLarge (c.receiveBuffer ++ ahead) = packetsIn events)) := by
  induction reads with
  | @wait c short =>
    refine ⟨fun e he => (by cases he), .inl ⟨h, ?_, rfl⟩⟩
    simp only [frontPacket, short]
  | @refuse c header parsed large =>
    have all := parseHeader_append parsed ahead
    refine ⟨?_, .inr ⟨?_, accepted_of_large all large⟩⟩
    · simp only [List.mem_cons, List.not_mem_nil, or_false]
      rintro e (rfl | rfl) start place
      · cases place
        exact h.boundary
      · cases place
    · have near := ends c.start header h.boundary (h.stream ▸ all) large
      have size := congrArg List.length h.stream
      rw [List.length_drop, List.length_append] at size
      have long := length_of_parsed parsed
      simp only [List.length_nil]
      omega
  | @incomplete c header parsed fits none =>
    refine ⟨?_, .inl ⟨h, none, rfl⟩⟩
    simp only [List.mem_cons, List.not_mem_nil, or_false]
    rintro e rfl start place
    cases place
    exact h.boundary
  | @packet c next events header body rest front fits _ ih =>
    have all := packets.stable ahead front
    have ok : tooLarge (header, body) = false := by
      rw [← Bool.not_eq_true, ← refused_iff]
      exact fits
    have first := Cutter.accepted_of_some all ok
    obtain ⟨places, outcome⟩ := ih (h.behind front)
    refine ⟨?_, ?_⟩
    · simp only [List.mem_cons]
      rintro e (rfl | rfl | he) start place
      · cases place
        exact h.boundary
      · cases place
        exact h.boundary
      · exact places e he start place
    · rw [first]
      rcases outcome with ⟨step, idle, same⟩ | ⟨few, same⟩
      · exact .inl ⟨step, idle, congrArg ((header, body) :: ·) same⟩
      · exact .inr ⟨few, congrArg ((header, body) :: ·) same⟩

/-- No header fits into what is left of the stream. -/
theorem receive_rest {chunks : List Bytes} {c : Connection}
    (few : c.receiveBuffer.length + chunks.flatten.length < 12) : (receive chunks c).2 = [] := by
  induction chunks generalizing c with
  | nil => rfl
  | cons chunk chunks ih =>
    rw [List.flatten_cons, List.length_append] at few
    have reads := slotReadyRead_reads c chunk
    have short : (c.receiveBuffer ++ chunk).length < 12 := by
      rw [List.length_append]
      omega
    simp only [receive]
    generalize c.slotReadyRead chunk = out at reads ⊢
    obtain ⟨c', events⟩ := out
    cases reads with
    | wait =>
      exact ih (by simp only [List.length_append]; omega)
    | refuse parsed | incomplete parsed =>
      exact absurd (length_of_parsed parsed) (by simp only; omega)
    | packet front => exact absurd (length_of_parsed (parsed_of_front front)) (by simp only; omega)

theorem receive_in_step {stream : Bytes} (ends : EndsWithRefused stream) {chunks : List Bytes}
    {c : Connection} (h : InStep stream c chunks.flatten)
    (idle : frontPacket c.receiveBuffer = none) :
    (∀ e ∈ (receive chunks c).2, ∀ start, e.place = some start → Boundary stream start) ∧
      packetsIn (receive chunks c).2 =
        packets.accepted tooLarge (c.receiveBuffer ++ chunks.flatten) := by
  induction chunks generalizing c with
  | nil =>
    rw [List.flatten_nil, List.append_nil, Cutter.accepted_of_none idle]
    exact ⟨fun e he => (by cases he), rfl⟩
  | cons chunk chunks ih =>
    have reads := slotReadyRead_reads c chunk
    have here : InStep stream ⟨c.receiveBuffer ++ chunk, c.start⟩ chunks.flatten :=
      ⟨h.boundary, h.stream.trans (by rw [List.flatten_cons, List.append_assoc])⟩
    obtain ⟨places, outcome⟩ := reads.in_step ends here
    simp only [receive, List.flatten_cons, ← List.append_assoc]
    rcases outcome with ⟨step, idle', same⟩ | ⟨few, same⟩
    · obtain ⟨places', same'⟩ := ih step idle'
      refine ⟨fun e he => ?_, ?_⟩
      · rcases List.mem_append.mp he with he | he
        · exact places e he
        · exact places' e he
      · rw [same, ← same']
        exact List.filterMap_append
    · rw [receive_rest few, List.append_nil]
      exact ⟨places, same.symm⟩

/-! The first chunk ends right behind the header of a refused packet, and 12 bytes or more
follow. -/

theorem Boundary.skips_le {stream : Bytes} {b b' : Nat}
    (path : Relation.ReflTransGen (Skips stream) b b') : b ≤ b' := by
  induction path with
  | refl => exact Nat.le_refl _
  | tail _ skips ih =>
    obtain ⟨header, _, rfl⟩ := skips
    omega

/-- No boundary lies within a packet. -/
theorem Boundary.not_within {stream : Bytes} {b x : Nat} {header : PacketHeaderRaw}
    (hb : Boundary stream b) (parsed : PacketParser.parseHeader (stream.drop b) = some header)
    (hx : Boundary stream x) : x ≤ b ∨ b + 12 + header.messageLen.toNat ≤ x := by
  have unique : Relator.RightUnique (Skips stream) := by
    rintro a m n ⟨hm, pm, rfl⟩ ⟨hn, pn, rfl⟩
    rw [Option.some.inj (pm.symm.trans pn)]
  rcases Relation.ReflTransGen.total_of_right_unique unique hb hx with path | path
  · cases path.cases_head with
    | inl same => exact .inl (Nat.le_of_eq same.symm)
    | inr found =>
      obtain ⟨m, ⟨header', parsed', rfl⟩, path⟩ := found
      obtain rfl := Option.some.inj (parsed.symm.trans parsed')
      exact .inr (skips_le path)
  · exact .inl (skips_le path)

theorem parsed_of_length {s : Bytes} (long : 12 ≤ s.length) :
    PacketParser.parseHeader s ≠ none := by
  unfold PacketParser.parseHeader
  rw [if_neg (by rw [PacketHeaderRaw.size]; omega)]
  simp

/-- On a chunk that ends behind a refused header, the loop ends there with an empty buffer. -/
theorem Reads.refused {stream : Bytes} {b : Nat} {header : PacketHeaderRaw}
    (parsed : PacketParser.parseHeader (stream.drop b) = some header)
    (large : header.messageLen > MAX_REASONABLE_LEN) {c c' : Connection} {events : List Event}
    (reads : Reads c c' events) (h : InStep stream c (stream.drop (b + 12)))
    (path : Relation.ReflTransGen (Skips stream) c.start b) : c' = ⟨[], b + 12⟩ := by
  have long := length_of_parsed parsed
  rw [List.length_drop] at long
  have length (c : Connection) (h : InStep stream c (stream.drop (b + 12)))
      (le : c.start ≤ b) : c.receiveBuffer.length = b + 12 - c.start := by
    have size := congrArg List.length h.stream
    simp only [List.length_drop, List.length_append] at size
    omega
  induction reads with
  | @wait c short =>
    have le := Boundary.skips_le path
    exact absurd short (parsed_of_length (by rw [length c h le]; omega))
  | @refuse c _ _ _ =>
    have le := Boundary.skips_le path
    rw [length c h le, Nat.add_sub_of_le (by omega)]
  | @incomplete c header' parsed' fits none =>
    have le := Boundary.skips_le path
    cases path.cases_head with
    | inl same =>
      have here := h.header parsed'
      rw [same, parsed] at here
      obtain rfl := Option.some.inj here
      exact absurd large fits
    | inr found =>
      obtain ⟨m, ⟨header'', here, rfl⟩, path⟩ := found
      obtain rfl := Option.some.inj (here.symm.trans (h.header parsed'))
      have le' := Boundary.skips_le path
      have enough : ¬ c.receiveBuffer.length <
          PacketHeaderRaw.size + header''.messageLen.toNat := by
        rw [length c h le, PacketHeaderRaw.size]
        omega
      simp only [frontPacket_of_parsed parsed', if_neg enough, reduceCtorEq] at none
  | @packet c next events header' body rest front fits _ ih =>
    have here := h.header (parsed_of_front front)
    cases path.cases_head with
    | inl same =>
      rw [same, parsed] at here
      obtain rfl := Option.some.inj here
      exact absurd large fits
    | inr found =>
      obtain ⟨m, ⟨header'', here', rfl⟩, path⟩ := found
      obtain rfl := Option.some.inj (here'.symm.trans here)
      exact ih (h.behind front) path

/-- Twelve bytes or more are always read as a header. -/
theorem Reads.reads_header {c c' : Connection} {events : List Event} (reads : Reads c c' events)
    (long : 12 ≤ c.receiveBuffer.length) : .parseHeader c.start ∈ events := by
  cases reads with
  | wait short => exact absurd short (parsed_of_length long)
  | refuse | incomplete | packet => exact List.mem_cons_self

theorem receive_two (first second : Bytes) :
    (receive [first, second] {}).2 =
      (({} : Connection).slotReadyRead first).2 ++
        ((({} : Connection).slotReadyRead first).1.slotReadyRead second).2 := by
  simp only [receive, List.append_nil]

/-- The client keeps in step with a stream, whatever the chunks, exactly when fewer than 12
bytes follow the header of any packet that it refuses. -/
theorem keepsInStep_iff (stream : Bytes) : KeepsInStep stream ↔ EndsWithRefused stream := by
  constructor
  · rintro ⟨_, places⟩ b header boundary parsed large
    by_contra far
    have long := length_of_parsed parsed
    rw [List.length_drop] at long
    have whole := List.take_append_drop (b + 12) stream
    have start : InStep stream ⟨stream.take (b + 12), 0⟩ (stream.drop (b + 12)) :=
      ⟨.refl, whole.symm⟩
    have first := (slotReadyRead_reads {} (stream.take (b + 12))).refused parsed large start
      boundary
    have second := slotReadyRead_reads ⟨[], b + 12⟩ (stream.drop (b + 12))
    have header := second.reads_header (by simp only [List.nil_append, List.length_drop]; omega)
    have read : Event.parseHeader (b + 12) ∈
        (receive [stream.take (b + 12), stream.drop (b + 12)] {}).2 := by
      rw [receive_two, first]
      exact List.mem_append_right _ header
    have within := places _ (by simp) _ read _ rfl
    have exceeds : MAX_REASONABLE_LEN.toNat < _ := UInt16.lt_iff_toNat_lt.mp large
    rcases boundary.not_within parsed within with before | behind <;> omega
  · intro ends
    have run (chunks : List Bytes) (flat : chunks.flatten = stream) :=
      receive_in_step ends (c := {}) (⟨.refl, flat.symm⟩ : InStep stream {} chunks.flatten) rfl
    refine ⟨fun chunks chunks' flat flat' => ?_, fun chunks flat => (run chunks flat).1⟩
    rw [(run chunks flat).2, (run chunks' flat').2, flat, flat']

/-- A header that announces 5121 bytes, and the first twelve of them. -/
def longPacket : Bytes := Encoding.header ⟨0x10, 0, 0, 5121⟩ ++ List.replicate 12 0

/-- In one chunk they are dropped, in two chunks they become a packet. -/
theorem body_read_as_header :
    packetsIn (receive [longPacket] {}).2 = [] ∧
      packetsIn (receive [longPacket.take 12, longPacket.drop 12] {}).2 = [(⟨0, 0, 0, 0⟩, [])] ∧
      ¬ KeepsInStep longPacket := by
  have once : packetsIn (receive [longPacket] {}).2 = [] := by decide
  have twice : packetsIn (receive [longPacket.take 12, longPacket.drop 12] {}).2 =
      [(⟨0, 0, 0, 0⟩, [])] := by decide
  refine ⟨once, twice, fun h => ?_⟩
  have same := h.1 [longPacket] [longPacket.take 12, longPacket.drop 12] (by simp) (by simp)
  rw [once, twice] at same
  cases same

end Connection

end Cvcn
