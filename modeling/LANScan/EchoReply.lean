import LANScan.SimplePing

/-!
# How a host answers

A host that gets an echo request sends its ICMP message back as a reply, behind an
IPv4 header of its own.  The header is arbitrary except for what makes it one.

## Main definitions

* `IPv4Header`, `sourceAddress`.
* `echoReply`, `IsReply`.

## Main results

* `icmpHeaderOffset_append` — the ICMP message is found behind the header.
* `CarriesIdentifier.reply` — a reply carries the identifier of its request.
* `acceptable_reply`, `validatePing4ResponsePacket_reply` — **a reply is accepted by
  whoever has the identifier of the request and has sent its sequence number.**
-/

namespace LANScan

/-! ### The IPv4 header -/

/-- The IPv4 header of an ICMP packet, with its options. -/
structure IPv4Header where
  bytes : List UInt8
  versionAndHeaderLength : UInt8
  head_eq : bytes[0]? = some versionAndHeaderLength
  version : versionAndHeaderLength &&& 0xF0 = 0x40
  length_eq : bytes.length = (versionAndHeaderLength &&& 0x0F).toNat * 4
  length_ge : sizeofIPv4Header ≤ bytes.length
  protocol_eq : bytes[9]? = some protocolICMP

/-- The field `sourceAddress` of the header a packet starts with. -/
def sourceAddress (packet : List UInt8) : List UInt8 := (packet.drop 12).take 4

/-- What follows the header does not matter to the source address. -/
@[simp] theorem sourceAddress_append (header : IPv4Header) (icmp : List UInt8) :
    sourceAddress (header.bytes ++ icmp) = sourceAddress header.bytes := by
  have hlen := header.length_ge
  simp only [sizeofIPv4Header] at hlen
  rw [sourceAddress, sourceAddress, List.drop_append_of_le_length (by omega),
    List.take_append_of_le_length (by rw [List.length_drop]; omega)]

/-- **The ICMP message is found behind the header.** -/
theorem icmpHeaderOffset_append (header : IPv4Header) {icmp : List UInt8}
    (hlen : sizeofICMPHeader ≤ icmp.length) :
    icmpHeaderOffsetInIPv4Packet (header.bytes ++ icmp) = .ok (some header.bytes.length) := by
  have hge := header.length_ge
  have hfits : header.bytes.length + sizeofICMPHeader ≤ (header.bytes ++ icmp).length := by
    rw [List.length_append]
    omega
  have hlong : sizeofIPv4Header + sizeofICMPHeader ≤ (header.bytes ++ icmp).length := by omega
  have hread : ∀ {i : ℕ} {b : UInt8}, header.bytes[i]? = some b →
      readByte (header.bytes ++ icmp) i = .ok b := by
    intro i b hb
    have hi : i < header.bytes.length := (List.getElem?_eq_some_iff.mp hb).1
    rw [readByte, List.getElem?_append_left hi, hb]
  rw [icmpHeaderOffsetInIPv4Packet, if_pos hlong, hread header.head_eq, hread header.protocol_eq,
    ok_bind, ok_bind, if_pos ⟨header.version, rfl⟩]
  dsimp only
  rw [← header.length_eq, if_pos hfits]
  rfl

/-- Whatever offset is found behind a header is the length of the header. -/
theorem icmpHeaderOffset_unique (header : IPv4Header) {icmp : List UInt8} {offset : ℕ}
    (h : icmpHeaderOffsetInIPv4Packet (header.bytes ++ icmp) = .ok (some offset)) :
    offset = header.bytes.length := by
  rcases icmpHeaderOffsetInIPv4Packet_spec (header.bytes ++ icmp) with
    hnone | ⟨offset', hoff, -, b, hb, hoffset⟩
  · rw [hnone] at h
    cases h
  · rw [hoff] at h
    have hhead : header.bytes[0]? = some b := by
      have hge := header.length_ge
      simp only [sizeofIPv4Header] at hge
      rw [← List.getElem?_append_left (by omega), ← List.head?_eq_getElem?]
      exact hb
    obtain rfl := Option.some.inj (header.head_eq.symm.trans hhead)
    rw [header.length_eq, ← hoffset]
    exact (Option.some.inj (Except.ok.inj h)).symm

/-! ### The reply -/

/-- The ICMP message of a reply, before its checksum is filled in. -/
def uncheckedReply (request : List UInt8) : List UInt8 :=
  [SimplePing.icmpv4TypeEchoReply, 0, 0, 0] ++ request.drop 4

/-- The reply of a host to an echo request, with its checksum. -/
def echoReply (order : ByteOrder) (request : List UInt8) : Except Fault (List UInt8) := do
  let packet := uncheckedReply request
  let checksum ← inCksum order packet packet.length
  write16 order packet 2 checksum

/-- A datagram with which a host at the source address answers a request; the byte
order is the one of the host. -/
def IsReply (source request datagram : List UInt8) : Prop :=
  ∃ (order : ByteOrder) (header : IPv4Header) (reply : List UInt8),
    echoReply order request = .ok reply ∧ sourceAddress header.bytes = source ∧
      datagram = header.bytes ++ reply

/-- What is done when a reply is built. -/
theorem echoReply_eq_ok {order : ByteOrder} {request reply : List UInt8}
    (h : echoReply order request = .ok reply) :
    ∃ checksum, inCksum order (uncheckedReply request) (uncheckedReply request).length =
        .ok checksum ∧
      reply = [SimplePing.icmpv4TypeEchoReply, 0, (store16 order checksum).1,
        (store16 order checksum).2] ++ request.drop 4 := by
  obtain ⟨checksum, hsum, hwrite⟩ := bind_eq_ok.mp h
  rw [write16_eq _ (by simp [uncheckedReply])] at hwrite
  exact ⟨checksum, hsum, (Except.ok.inj hwrite).symm⟩

/-- A request that fits in a datagram can be answered. -/
theorem exists_echoReply (order : ByteOrder) {request : List UInt8}
    (hmax : request.length ≤ 65531) : ∃ reply, echoReply order request = .ok reply := by
  have hlen : (uncheckedReply request).length ≤ 65535 := by
    rw [uncheckedReply, List.length_append, List.length_drop]
    simp only [List.length_cons, List.length_nil]
    omega
  rw [echoReply, inCksum_eq order hlen, ok_bind, write16_eq _ (by simp [uncheckedReply])]
  exact ⟨_, rfl⟩

/-- Behind the checksum a reply is its request. -/
theorem echoReply_getElem? {order : ByteOrder} {request reply : List UInt8}
    (h : echoReply order request = .ok reply) (i : ℕ) : reply[4 + i]? = request[4 + i]? := by
  obtain ⟨checksum, -, rfl⟩ := echoReply_eq_ok h
  rw [List.getElem?_append_right (by simp), List.getElem?_drop]
  simp

theorem length_echoReply {order : ByteOrder} {request reply : List UInt8}
    (h : echoReply order request = .ok reply) (hlen : 4 ≤ request.length) :
    reply.length = request.length := by
  obtain ⟨checksum, -, rfl⟩ := echoReply_eq_ok h
  rw [List.length_append, List.length_drop]
  simp only [List.length_cons, List.length_nil]
  omega

namespace SimplePing

theorem CarriesIdentifier.reply {order : ByteOrder} {identifier : UInt16}
    {request reply : List UInt8} (hid : CarriesIdentifier identifier request)
    (h : echoReply order request = .ok reply) : CarriesIdentifier identifier reply :=
  hid.congr (echoReply_getElem? h 0) (echoReply_getElem? h 1)

theorem CarriesSequenceNumber.reply {order : ByteOrder} {sequenceNumber : UInt16}
    {request reply : List UInt8} (hseq : CarriesSequenceNumber sequenceNumber request)
    (h : echoReply order request = .ok reply) : CarriesSequenceNumber sequenceNumber reply :=
  hseq.congr (echoReply_getElem? h 2) (echoReply_getElem? h 3)

/-- A reply is long enough for an ICMP header. -/
theorem sizeofICMPHeader_le_reply {order : ByteOrder} {sequenceNumber : UInt16}
    {request reply : List UInt8} (h : echoReply order request = .ok reply)
    (hseq : CarriesSequenceNumber sequenceNumber request) : sizeofICMPHeader ≤ reply.length := by
  obtain ⟨b₆, b₇, -, h₇, -⟩ := hseq.reply h
  exact (List.getElem?_eq_some_iff.mp h₇).1

/-- **A reply is acceptable** to a pinger that has the identifier of the request and has
sent its sequence number. -/
theorem acceptable_reply {order : ByteOrder} {ping : SimplePing} {request reply : List UInt8}
    (h : echoReply order request = .ok reply) (hmax : reply.length ≤ 65535)
    (hid : CarriesIdentifier ping.identifier request) {sequenceNumber : UInt16}
    (hseq : CarriesSequenceNumber sequenceNumber request)
    (hvalid : ping.validateSequenceNumber sequenceNumber = true) :
    ping.Acceptable sequenceNumber reply := by
  have hidReply := hid.reply h
  have hseqReply := hseq.reply h
  obtain ⟨checksum, hsum, rfl⟩ := echoReply_eq_ok h
  rw [inCksum_eq order (show (uncheckedReply request).length ≤ 65535 from hmax)] at hsum
  obtain rfl := Except.ok.inj hsum
  refine ⟨rfl, rfl, ⟨_, _, rfl, rfl, ?_⟩, hidReply, hseqReply, hvalid⟩
  rw [store16_swapHostToBig, load16_store16]
  rfl

/-- **A reply is accepted**, and nothing but the ICMP message is left of it. -/
theorem validatePing4ResponsePacket_reply {order : ByteOrder} {ping : SimplePing}
    (header : IPv4Header) {request reply : List UInt8} (h : echoReply order request = .ok reply)
    (hmax : (header.bytes ++ reply).length ≤ 65535)
    (hid : CarriesIdentifier ping.identifier request) {sequenceNumber : UInt16}
    (hseq : CarriesSequenceNumber sequenceNumber request)
    (hvalid : ping.validateSequenceNumber sequenceNumber = true) :
    ping.validatePing4ResponsePacket order (header.bytes ++ reply) =
      .ok ⟨reply, some sequenceNumber⟩ := by
  have hoff := icmpHeaderOffset_append header (sizeofICMPHeader_le_reply h hseq)
  have hlen : reply.length ≤ 65535 := by
    rw [List.length_append] at hmax
    omega
  have hanswer : ping.Acceptable sequenceNumber
      ((header.bytes ++ reply).drop header.bytes.length) := by
    rw [List.drop_left]
    exact acceptable_reply h hlen hid hseq hvalid
  rw [validatePing4ResponsePacket_of_acceptable order hmax hoff hanswer, List.drop_left]

end SimplePing

end LANScan
