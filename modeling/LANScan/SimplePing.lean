import LANScan.InternetChecksum

/-!
# Pinging one host

The state of a `SimplePing` object and what it does to packets: building an echo
request, and deciding whether an incoming packet answers one.

## Main definitions

* `Address`, `SimplePing`.
* `pingPacketWithType`, `defaultPayload`.
* `validateSequenceNumber`, `validatePingResponsePacket`.
* `Carries`, `Acceptable` — the fields of an ICMP message, and what makes it an answer.

## Main results

* `exists_pingPacketWithType` — a short packet is built without a fault, with the
  identifier in network byte order.
* `acceptedSequenceNumber_eq` — the checks on the ICMP header in closed form.
* `validatePing4ResponsePacket_cases`, `validatePing4ResponsePacket_spec` — **no fault, a
  rejected packet is as it was received, and exactly the acceptable ones are accepted.**
-/

namespace LANScan

/-! ### Addresses -/

/-- The family of a socket address. -/
inductive AddressFamily
  | unspec
  | inet
  | inet6
  /-- Any other family. -/
  | other
  deriving DecidableEq, Repr

/-- The data of a socket address. -/
structure Address where
  family : AddressFamily
  length : ℕ
  deriving DecidableEq, Repr

/-- The length of a `sockaddr`. -/
def sizeofSockaddr : ℕ := 16

/-- The kinds of addresses that a pinger takes. -/
inductive AddressStyle
  | any
  | icmpv4
  | icmpv6
  deriving DecidableEq, Repr

/-- The properties of a pinger. -/
structure SimplePing where
  hostName : String
  identifier : UInt16
  addressStyle : AddressStyle
  hostAddress : Option Address
  nextSequenceNumber : UInt16
  nextSequenceNumberHasWrapped : Bool
  /-- A host object is installed: name resolution is in progress. -/
  host : Bool
  /-- A valid socket is installed. -/
  socket : Bool
  /-- The packets handed to the kernel in full. -/
  sent : List (List UInt8)
  /-- The datagrams read from the socket. -/
  received : List (List UInt8)
  deriving DecidableEq, Repr

namespace SimplePing

/-- `initWithHostName:`, where `identifier` is the random number. -/
def new (hostName : String) (identifier : UInt16) : SimplePing where
  hostName := hostName
  identifier := identifier
  addressStyle := .any
  hostAddress := none
  nextSequenceNumber := 0
  nextSequenceNumberHasWrapped := false
  host := false
  socket := false
  sent := []
  received := []

/-- The family of the address, if there is one that is long enough to have it. -/
def hostAddressFamily (ping : SimplePing) : AddressFamily :=
  match ping.hostAddress with
  | none => .unspec
  | some address => if address.length ≥ sizeofSockaddr then address.family else .unspec

/-- Nothing is resolved any more. -/
def stopHostResolution (ping : SimplePing) : SimplePing := { ping with host := false }

/-- The socket is closed. -/
def stopSocket (ping : SimplePing) : SimplePing := { ping with socket := false }

/-- `stop`: the resolution, the socket and the address are dropped. -/
def stop (ping : SimplePing) : SimplePing :=
  { ping.stopHostResolution.stopSocket with hostAddress := none }

@[simp] theorem stop_identifier (ping : SimplePing) : ping.stop.identifier = ping.identifier := rfl
@[simp] theorem stop_addressStyle (ping : SimplePing) :
    ping.stop.addressStyle = ping.addressStyle := rfl
@[simp] theorem stop_hostAddress (ping : SimplePing) : ping.stop.hostAddress = none := rfl
@[simp] theorem stop_host (ping : SimplePing) : ping.stop.host = false := rfl
@[simp] theorem stop_socket (ping : SimplePing) : ping.stop.socket = false := rfl
@[simp] theorem stop_sent (ping : SimplePing) : ping.stop.sent = ping.sent := rfl
@[simp] theorem stop_received (ping : SimplePing) : ping.stop.received = ping.received := rfl

/-- The log of the datagrams read. -/
def logReceived (ping : SimplePing) (packet : List UInt8) : SimplePing :=
  { ping with received := ping.received ++ [packet] }

/-- The end of `sendPingWithData:`. -/
def countPing (ping : SimplePing) : SimplePing :=
  let nextSequenceNumber := ping.nextSequenceNumber + 1
  { ping with
    nextSequenceNumber := nextSequenceNumber
    nextSequenceNumberHasWrapped :=
      if nextSequenceNumber = 0 then true else ping.nextSequenceNumberHasWrapped }

/-! ### Building packets -/

/-- The type of an ICMP echo request. -/
def icmpv4TypeEchoRequest : UInt8 := 8

/-- The type of an ICMP echo reply. -/
def icmpv4TypeEchoReply : UInt8 := 0

/-- The type of an ICMPv6 echo request. -/
def icmpv6TypeEchoRequest : UInt8 := 128

/-- The type of an ICMPv6 echo reply. -/
def icmpv6TypeEchoReply : UInt8 := 129

/-- The text `"%28zd bottles of beer on the wall"` in ASCII. -/
def defaultPayload (nextSequenceNumber : UInt16) : List UInt8 :=
  let digits := (toString (99 - nextSequenceNumber.toNat % 100)).toList
  let text := List.replicate (28 - digits.length) ' ' ++ digits
    ++ " bottles of beer on the wall".toList
  text.map fun c => UInt8.ofNat c.toNat

/-- The ICMP header before its checksum is filled in, and the payload. -/
def uncheckedPacket (order : ByteOrder) (ping : SimplePing) (type : UInt8)
    (payload : List UInt8) : List UInt8 :=
  let identifier := store16 order (swapHostToBig order ping.identifier)
  let sequenceNumber := store16 order (swapHostToBig order ping.nextSequenceNumber)
  [type, 0, 0, 0, identifier.1, identifier.2, sequenceNumber.1, sequenceNumber.2] ++ payload

/-- An echo request for a payload, with a checksum if the kernel does not add one. -/
def pingPacketWithType (order : ByteOrder) (ping : SimplePing) (type : UInt8)
    (payload : List UInt8) (requiresChecksum : Bool) : Except Fault (List UInt8) := do
  let packet := uncheckedPacket order ping type payload
  if requiresChecksum then
    let checksum ← inCksum order packet packet.length
    write16 order packet 2 checksum
  else
    return packet

/-- The switch over the address family in `sendPingWithData:`. -/
def pingPacket (order : ByteOrder) (ping : SimplePing) (payload : List UInt8) :
    Except Fault (List UInt8) :=
  match ping.hostAddressFamily with
  | .inet => pingPacketWithType order ping icmpv4TypeEchoRequest payload true
  | .inet6 => pingPacketWithType order ping icmpv6TypeEchoRequest payload false
  | _ => .error .assertion

/-- Whether the loop of `hostResolutionDone` takes an address. -/
def isAppropriate (addressStyle : AddressStyle) (address : Address) : Bool :=
  address.length ≥ sizeofSockaddr && match address.family with
    | .inet => addressStyle ≠ .icmpv6
    | .inet6 => addressStyle ≠ .icmpv4
    | _ => false

/-- The host address after that loop, and whether it is resolved. -/
def latchAddress (ping : SimplePing) (resolved : Bool) (addresses : Option (List Address)) :
    Option Address × Bool :=
  match resolved, addresses with
  | true, some addresses =>
    match addresses.find? (isAppropriate ping.addressStyle) with
    | some address => (some address, true)
    | none => (ping.hostAddress, false)
  | resolved, _ => (ping.hostAddress, resolved)

/-! ### Recognising answers -/

/-- The number may be that of a ping: any number below the next one before the counter wraps, and
then the next one or one of the 119 before it. -/
def validateSequenceNumber (ping : SimplePing) (sequenceNumber : UInt16) : Bool :=
  if ping.nextSequenceNumberHasWrapped then ping.nextSequenceNumber - sequenceNumber < 120
  else sequenceNumber < ping.nextSequenceNumber

/-- The checks on the ICMP header that IPv4 and IPv6 share, and the sequence number
if they pass. -/
def acceptedSequenceNumber (order : ByteOrder) (ping : SimplePing) (replyType : UInt8)
    (packet : List UInt8) (icmpPtr : ℕ) : Except Fault (Option UInt16) := do
  let type ← readByte packet icmpPtr
  let code ← readByte packet (icmpPtr + 1)
  if type = replyType ∧ code = 0 then
    let identifier ← read16 order packet (icmpPtr + 4)
    if swapBigToHost order identifier = ping.identifier then
      let sequenceNumber ← read16 order packet (icmpPtr + 6)
      let sequenceNumber := swapBigToHost order sequenceNumber
      if ping.validateSequenceNumber sequenceNumber then
        return some sequenceNumber
  return none

/-- What is left of a packet, and the sequence number of an accepted one; a rejected
one does not write it. -/
structure Validation where
  packet : List UInt8
  sequenceNumber : Option UInt16
  deriving DecidableEq, Repr

/-- The checks on an IPv4 packet, and the ICMP message in it. -/
def validatePing4ResponsePacket (order : ByteOrder) (ping : SimplePing) (packet : List UInt8) :
    Except Fault Validation := do
  match ← icmpHeaderOffsetInIPv4Packet packet with
  | none => return ⟨packet, none⟩
  | some icmpHeaderOffset =>
    let receivedChecksum ← read16 order packet (icmpHeaderOffset + 2)
    -- the checksum field is zeroed for the computation and restored
    let zeroed ← write16 order packet (icmpHeaderOffset + 2) 0
    let calculatedChecksum ←
      inCksum order (zeroed.drop icmpHeaderOffset) (zeroed.length - icmpHeaderOffset)
    let packet ← write16 order zeroed (icmpHeaderOffset + 2) receivedChecksum
    if receivedChecksum = calculatedChecksum then
      match ← ping.acceptedSequenceNumber order icmpv4TypeEchoReply packet icmpHeaderOffset with
      | none => return ⟨packet, none⟩
      | some sequenceNumber => return ⟨packet.drop icmpHeaderOffset, some sequenceNumber⟩
    else
      return ⟨packet, none⟩

/-- The checks on an ICMPv6 message, which comes without a header in front. -/
def validatePing6ResponsePacket (order : ByteOrder) (ping : SimplePing) (packet : List UInt8) :
    Except Fault Validation := do
  if packet.length ≥ sizeofICMPHeader then
    let sequenceNumber ← ping.acceptedSequenceNumber order icmpv6TypeEchoReply packet 0
    return ⟨packet, sequenceNumber⟩
  else
    return ⟨packet, none⟩

/-- The checks for the family of the address. -/
def validatePingResponsePacket (order : ByteOrder) (ping : SimplePing) (packet : List UInt8) :
    Except Fault Validation :=
  match ping.hostAddressFamily with
  | .inet => ping.validatePing4ResponsePacket order packet
  | .inet6 => ping.validatePing6ResponsePacket order packet
  | _ => .error .assertion

/-! ### What a request looks like -/

/-- The payload makes the packet 64 bytes long. -/
@[simp] theorem length_defaultPayload (n : UInt16) : (defaultPayload n).length = 56 := by
  have hdigits : (toString (99 - n.toNat % 100)).toList.length ≤ 28 := by
    rw [show (toString (99 - n.toNat % 100)).toList = Nat.toDigits 10 (99 - n.toNat % 100) from
      Nat.toList_repr]
    exact (Nat.length_toDigits_le_iff (by decide) (by decide)).mpr (by omega)
  have htail : " bottles of beer on the wall".toList.length = 28 := by decide
  simp only [defaultPayload, List.length_map, List.length_append, List.length_replicate, htail]
  omega

@[simp] theorem length_uncheckedPacket (order : ByteOrder) (ping : SimplePing) (type : UInt8)
    (payload : List UInt8) :
    (uncheckedPacket order ping type payload).length = payload.length + 8 := by
  simp [uncheckedPacket]

/-- The 16-bit field at an offset of an ICMP message, in network byte order. -/
def Carries (offset : ℕ) (value : UInt16) (icmp : List UInt8) : Prop :=
  ∃ b₀ b₁, icmp[offset]? = some b₀ ∧ icmp[offset + 1]? = some b₁ ∧ load16 .big b₀ b₁ = value

/-- The identifier field of an ICMP message. -/
def CarriesIdentifier : UInt16 → List UInt8 → Prop := Carries 4

/-- The sequence number field of an ICMP message. -/
def CarriesSequenceNumber : UInt16 → List UInt8 → Prop := Carries 6

/-- A field has one value. -/
theorem Carries.unique {offset : ℕ} {m n : UInt16} {icmp : List UInt8} (hm : Carries offset m icmp)
    (hn : Carries offset n icmp) : m = n := by
  obtain ⟨b₀, b₁, h₀, h₁, rfl⟩ := hm
  obtain ⟨b₀', b₁', h₀', h₁', rfl⟩ := hn
  obtain rfl := Option.some.inj (h₀.symm.trans h₀')
  obtain rfl := Option.some.inj (h₁.symm.trans h₁')
  rfl

/-- Two messages with the same bytes in a field have the same value there. -/
theorem Carries.congr {offset : ℕ} {value : UInt16} {icmp icmp' : List UInt8}
    (h : Carries offset value icmp) (h₀ : icmp'[offset]? = icmp[offset]?)
    (h₁ : icmp'[offset + 1]? = icmp[offset + 1]?) : Carries offset value icmp' := by
  obtain ⟨b₀, b₁, hb₀, hb₁, hload⟩ := h
  exact ⟨b₀, b₁, h₀.trans hb₀, h₁.trans hb₁, hload⟩

theorem carriesIdentifier_uncheckedPacket (order : ByteOrder) (ping : SimplePing) (type : UInt8)
    (payload : List UInt8) :
    CarriesIdentifier ping.identifier (uncheckedPacket order ping type payload) := by
  refine ⟨_, _, rfl, rfl, ?_⟩
  rw [store16_swapHostToBig, load16_store16]

theorem carriesSequenceNumber_uncheckedPacket (order : ByteOrder) (ping : SimplePing)
    (type : UInt8) (payload : List UInt8) :
    CarriesSequenceNumber ping.nextSequenceNumber
      (uncheckedPacket order ping type payload) := by
  refine ⟨_, _, rfl, rfl, ?_⟩
  rw [store16_swapHostToBig, load16_store16]

/-- **What is built**: the ICMP header with some checksum, and the payload. -/
theorem pingPacketWithType_eq_ok {order : ByteOrder} {ping : SimplePing} {type : UInt8}
    {payload packet : List UInt8} {requiresChecksum : Bool}
    (h : pingPacketWithType order ping type payload requiresChecksum = .ok packet) :
    ∃ b₂ b₃, packet = [type, 0, b₂, b₃] ++ (uncheckedPacket order ping type payload).drop 4 := by
  unfold pingPacketWithType at h
  cases requiresChecksum with
  | false =>
    obtain rfl := Except.ok.inj h
    exact ⟨0, 0, rfl⟩
  | true =>
    obtain ⟨checksum, -, hwrite⟩ := bind_eq_ok.mp h
    rw [write16_eq checksum (by simp)] at hwrite
    exact ⟨_, _, (Except.ok.inj hwrite).symm⟩

theorem pingPacket_eq_ok {order : ByteOrder} {ping : SimplePing} {payload packet : List UInt8}
    (h : ping.pingPacket order payload = .ok packet) :
    ∃ type b₂ b₃,
      packet = [type, 0, b₂, b₃] ++ (uncheckedPacket order ping type payload).drop 4 := by
  unfold pingPacket at h
  split at h
  next => exact ⟨_, pingPacketWithType_eq_ok h⟩
  next => exact ⟨_, pingPacketWithType_eq_ok h⟩
  next => cases h

/-- Whatever is built carries the identifier. -/
theorem carriesIdentifier_of_pingPacket {order : ByteOrder} {ping : SimplePing}
    {payload packet : List UInt8} (h : ping.pingPacket order payload = .ok packet) :
    CarriesIdentifier ping.identifier packet := by
  obtain ⟨type, b₂, b₃, rfl⟩ := pingPacket_eq_ok h
  exact (carriesIdentifier_uncheckedPacket order ping type payload).congr rfl rfl

/-- Whatever is built carries the next sequence number. -/
theorem carriesSequenceNumber_of_pingPacket {order : ByteOrder} {ping : SimplePing}
    {payload packet : List UInt8} (h : ping.pingPacket order payload = .ok packet) :
    CarriesSequenceNumber ping.nextSequenceNumber packet := by
  obtain ⟨type, b₂, b₃, rfl⟩ := pingPacket_eq_ok h
  exact (carriesSequenceNumber_uncheckedPacket order ping type payload).congr rfl rfl

/-- **A packet that fits in a datagram is built without a fault**, and carries the
identifier of the pinger and its next sequence number. -/
theorem exists_pingPacketWithType (order : ByteOrder) (ping : SimplePing) (type : UInt8)
    {payload : List UInt8} (requiresChecksum : Bool) (hlen : payload.length + 8 ≤ 65535) :
    ∃ packet, pingPacketWithType order ping type payload requiresChecksum = .ok packet ∧
      packet.length = payload.length + 8 ∧ CarriesIdentifier ping.identifier packet ∧
      CarriesSequenceNumber ping.nextSequenceNumber packet := by
  have hlength := length_uncheckedPacket order ping type payload
  have hbuilt : ∃ packet, pingPacketWithType order ping type payload requiresChecksum =
      .ok packet := by
    unfold pingPacketWithType
    cases requiresChecksum with
    | false => exact ⟨_, rfl⟩
    | true =>
      rw [if_pos rfl, inCksum_eq order (by omega), ok_bind, write16_eq _ (by omega)]
      exact ⟨_, rfl⟩
  obtain ⟨packet, hpacket⟩ := hbuilt
  obtain ⟨b₂, b₃, rfl⟩ := pingPacketWithType_eq_ok hpacket
  refine ⟨_, hpacket, ?_, (carriesIdentifier_uncheckedPacket order ping type payload).congr rfl rfl,
    (carriesSequenceNumber_uncheckedPacket order ping type payload).congr rfl rfl⟩
  rw [List.length_append, List.length_drop, hlength]
  simp only [List.length_cons, List.length_nil]
  omega

/-- The request to an IPv4 host is built without a fault. -/
theorem exists_pingPacket (order : ByteOrder) {ping : SimplePing}
    (hfamily : ping.hostAddressFamily = .inet) :
    ∃ packet, ping.pingPacket order (defaultPayload ping.nextSequenceNumber) = .ok packet ∧
      packet.length = 64 ∧ CarriesIdentifier ping.identifier packet ∧
      CarriesSequenceNumber ping.nextSequenceNumber packet := by
  have hpayload := length_defaultPayload ping.nextSequenceNumber
  unfold pingPacket
  rw [hfamily]
  obtain ⟨packet, hpacket, hlen, hcarries⟩ := exists_pingPacketWithType order ping
    icmpv4TypeEchoRequest true (by rw [hpayload]; decide)
  exact ⟨packet, hpacket, by rw [hlen, hpayload], hcarries⟩

/-! ### What is accepted -/

/-- **The checks on the ICMP header in closed form.** -/
theorem acceptedSequenceNumber_eq (order : ByteOrder) (ping : SimplePing) (replyType : UInt8)
    {packet : List UInt8} {icmpPtr : ℕ} (h : icmpPtr + sizeofICMPHeader ≤ packet.length) :
    ∃ b₀ b₁ b₄ b₅ b₆ b₇,
      packet[icmpPtr]? = some b₀ ∧ packet[icmpPtr + 1]? = some b₁ ∧
      packet[icmpPtr + 4]? = some b₄ ∧ packet[icmpPtr + 5]? = some b₅ ∧
      packet[icmpPtr + 6]? = some b₆ ∧ packet[icmpPtr + 7]? = some b₇ ∧
      ping.acceptedSequenceNumber order replyType packet icmpPtr =
        .ok (if (b₀ = replyType ∧ b₁ = 0) ∧ load16 .big b₄ b₅ = ping.identifier ∧
            ping.validateSequenceNumber (load16 .big b₆ b₇) = true then
          some (load16 .big b₆ b₇) else none) := by
  simp only [sizeofICMPHeader] at h
  refine ⟨_, _, _, _, _, _, List.getElem?_eq_getElem (by omega),
    List.getElem?_eq_getElem (by omega), List.getElem?_eq_getElem (by omega),
    List.getElem?_eq_getElem (by omega), List.getElem?_eq_getElem (by omega),
    List.getElem?_eq_getElem (by omega), ?_⟩
  rw [acceptedSequenceNumber, readByte_eq (by omega), readByte_eq (by omega), ok_bind, ok_bind]
  split
  next htype =>
    rw [read16_eq (by omega), ok_bind, swapBigToHost_load16]
    split
    next hid =>
      rw [read16_eq (by omega), ok_bind]
      simp only [swapBigToHost_load16, htype, hid]
      split
      next hseq => simp [hseq]; rfl
      next hseq => simp [hseq]; rfl
    next hid => simp [hid]; rfl
  next htype => simp [htype]; rfl

/-- An ICMP message with its checksum field zeroed. -/
def zeroChecksum (icmp : List UInt8) : List UInt8 := (icmp.set 2 0).set 3 0

/-- An ICMP message that a pinger takes for an answer, with its sequence number. -/
structure Acceptable (ping : SimplePing) (sequenceNumber : UInt16) (icmp : List UInt8) :
    Prop where
  type_eq : icmp[0]? = some icmpv4TypeEchoReply
  code_eq : icmp[1]? = some 0
  checksum : Carries 2 (internetChecksum (zeroChecksum icmp)) icmp
  identifier : CarriesIdentifier ping.identifier icmp
  sequenceNumber_eq : CarriesSequenceNumber sequenceNumber icmp
  valid : ping.validateSequenceNumber sequenceNumber = true

/-- Zeroing the checksum field of the message behind an offset. -/
theorem write16_zero (order : ByteOrder) {packet : List UInt8} {offset : ℕ}
    (h : offset + 2 + 1 < packet.length) :
    ∃ zeroed, write16 order packet (offset + 2) 0 = .ok zeroed ∧
      zeroed.length = packet.length ∧ zeroed.drop offset = zeroChecksum (packet.drop offset) ∧
      write16 order zeroed (offset + 2) (load16 order packet[offset + 2] packet[offset + 2 + 1]) =
        .ok packet := by
  have hstore : store16 order 0 = (0, 0) := by cases order <;> rfl
  refine ⟨_, write16_eq 0 h, by simp, ?_, write16_load16 _ _ h⟩
  rw [hstore, List.drop_set, if_neg (by omega), List.drop_set, if_neg (by omega), zeroChecksum,
    Nat.add_sub_cancel_left, show offset + 2 + 1 - offset = 3 by omega]

/-- Behind a correct checksum, exactly the acceptable messages pass the checks on the
ICMP header. -/
theorem acceptedSequenceNumber_cases (order : ByteOrder) (ping : SimplePing)
    {packet : List UInt8} {offset : ℕ} (hfits : offset + sizeofICMPHeader ≤ packet.length)
    (hchecksum : Carries 2 (internetChecksum (zeroChecksum (packet.drop offset)))
      (packet.drop offset)) :
    (∃ n, ping.Acceptable n (packet.drop offset) ∧
      ping.acceptedSequenceNumber order icmpv4TypeEchoReply packet offset = .ok (some n)) ∨
    ((∀ n, ¬ping.Acceptable n (packet.drop offset)) ∧
      ping.acceptedSequenceNumber order icmpv4TypeEchoReply packet offset = .ok none) := by
  have hat : ∀ i, (packet.drop offset)[i]? = packet[offset + i]? := fun i => List.getElem?_drop
  obtain ⟨b₀, b₁, b₄, b₅, b₆, b₇, h₀, h₁, h₄, h₅, h₆, h₇, heq⟩ :=
    acceptedSequenceNumber_eq order ping icmpv4TypeEchoReply hfits
  have hid : CarriesIdentifier (load16 .big b₄ b₅) (packet.drop offset) :=
    ⟨b₄, b₅, (hat 4).trans h₄, (hat 5).trans h₅, rfl⟩
  have hseq : CarriesSequenceNumber (load16 .big b₆ b₇) (packet.drop offset) :=
    ⟨b₆, b₇, (hat 6).trans h₆, (hat 7).trans h₇, rfl⟩
  rw [heq]
  split_ifs with haccept
  · obtain ⟨⟨rfl, rfl⟩, hown, hvalid⟩ := haccept
    exact Or.inl ⟨_, ⟨(hat 0).trans h₀, (hat 1).trans h₁, hchecksum, by rw [← hown]; exact hid,
      hseq, hvalid⟩, rfl⟩
  · refine Or.inr ⟨fun n h => haccept ⟨⟨?_, ?_⟩, hid.unique h.identifier, ?_⟩, rfl⟩
    · exact Option.some.inj (h₀.symm.trans ((hat 0).symm.trans h.type_eq))
    · exact Option.some.inj (h₁.symm.trans ((hat 1).symm.trans h.code_eq))
    · rw [hseq.unique h.sequenceNumber_eq]
      exact h.valid

/-- **What `validatePing4ResponsePacket` does to a datagram**: no fault; what it accepts
is an acceptable message, and loses its IPv4 header; everything else is rejected, and
left as it was received. -/
theorem validatePing4ResponsePacket_cases (order : ByteOrder) (ping : SimplePing)
    {packet : List UInt8} (hmax : packet.length ≤ 65535) :
    (icmpHeaderOffsetInIPv4Packet packet = .ok none ∧
      ping.validatePing4ResponsePacket order packet = .ok ⟨packet, none⟩) ∨
    ∃ offset, icmpHeaderOffsetInIPv4Packet packet = .ok (some offset) ∧
      ((∃ n, ping.Acceptable n (packet.drop offset) ∧
        ping.validatePing4ResponsePacket order packet = .ok ⟨packet.drop offset, some n⟩) ∨
      ((∀ n, ¬ping.Acceptable n (packet.drop offset)) ∧
        ping.validatePing4ResponsePacket order packet = .ok ⟨packet, none⟩)) := by
  unfold validatePing4ResponsePacket
  rcases icmpHeaderOffsetInIPv4Packet_spec packet with hoff | ⟨offset, hoff, hfits, -⟩
  · rw [hoff]
    exact Or.inl ⟨rfl, rfl⟩
  refine Or.inr ⟨offset, hoff, ?_⟩
  have hfield : offset + 2 + 1 < packet.length := by
    simp only [sizeofICMPHeader] at hfits
    omega
  have hreceived : Carries 2 (load16 .big packet[offset + 2] packet[offset + 2 + 1])
      (packet.drop offset) :=
    ⟨_, _, List.getElem?_drop.trans (List.getElem?_eq_getElem (by omega)),
      List.getElem?_drop.trans (List.getElem?_eq_getElem hfield), rfl⟩
  -- zeroing the checksum field is undone
  obtain ⟨zeroed, hzeroed, hlen, hdrop, hrestored⟩ := write16_zero order hfield
  have hsum : inCksum order (zeroed.drop offset) (zeroed.length - offset) =
      .ok (swapHostToBig order (internetChecksum (zeroChecksum (packet.drop offset)))) := by
    rw [← List.length_drop, inCksum_eq order (by rw [List.length_drop]; omega), hdrop]
  rw [hoff, ok_bind]
  dsimp only
  rw [read16_eq hfield, ok_bind, hzeroed, ok_bind, hsum, ok_bind, hrestored, ok_bind]
  split
  next hchecksum =>
    rw [load16_eq_swapHostToBig.mp hchecksum] at hreceived
    rcases acceptedSequenceNumber_cases order ping hfits hreceived with
      ⟨n, hn, haccepted⟩ | ⟨hnone, haccepted⟩
    · rw [haccepted]
      exact Or.inl ⟨n, hn, rfl⟩
    · rw [haccepted]
      exact Or.inr ⟨hnone, rfl⟩
  next hchecksum =>
    refine Or.inr ⟨fun n h => hchecksum (load16_eq_swapHostToBig.mpr ?_), rfl⟩
    exact hreceived.unique h.checksum

/-- **An acceptable message is accepted.** -/
theorem validatePing4ResponsePacket_of_acceptable (order : ByteOrder) {ping : SimplePing}
    {packet : List UInt8} (hmax : packet.length ≤ 65535) {offset : ℕ}
    (hoff : icmpHeaderOffsetInIPv4Packet packet = .ok (some offset)) {sequenceNumber : UInt16}
    (h : ping.Acceptable sequenceNumber (packet.drop offset)) :
    ping.validatePing4ResponsePacket order packet =
      .ok ⟨packet.drop offset, some sequenceNumber⟩ := by
  rcases validatePing4ResponsePacket_cases order ping hmax with
    ⟨hnone, -⟩ | ⟨offset', hoff', hcases⟩
  · rw [hoff] at hnone
    cases hnone
  · obtain rfl := Option.some.inj (Except.ok.inj (hoff.symm.trans hoff'))
    rcases hcases with ⟨n, hn, hv⟩ | ⟨hrejected, -⟩
    · rw [hv, hn.sequenceNumber_eq.unique h.sequenceNumber_eq]
    · exact absurd h (hrejected sequenceNumber)

/-- What a rejected and an accepted datagram are. -/
theorem validatePing4ResponsePacket_spec (order : ByteOrder) (ping : SimplePing)
    {packet : List UInt8} (hmax : packet.length ≤ 65535) :
    ∃ v, ping.validatePing4ResponsePacket order packet = .ok v ∧
      (v.sequenceNumber = none → v.packet = packet) ∧
      ∀ n, v.sequenceNumber = some n → ∃ offset,
        icmpHeaderOffsetInIPv4Packet packet = .ok (some offset) ∧
        v.packet = packet.drop offset ∧ ping.Acceptable n (packet.drop offset) := by
  rcases validatePing4ResponsePacket_cases order ping hmax with
    ⟨-, hv⟩ | ⟨offset, hoff, ⟨n, hn, hv⟩ | ⟨-, hv⟩⟩
  · exact ⟨_, hv, fun _ => rfl, fun n h => by cases h⟩
  · refine ⟨_, hv, (fun h => by cases h), fun n' h => ⟨offset, hoff, rfl, ?_⟩⟩
    obtain rfl := Option.some.inj h
    exact hn
  · exact ⟨_, hv, fun _ => rfl, fun n h => by cases h⟩

end SimplePing

end LANScan
