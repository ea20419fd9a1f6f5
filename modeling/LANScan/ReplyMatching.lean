import LANScan.LiveAnswers
import LANScan.PingClient

/-!
# Replies and the sends they answer

A client may send any number of pings, start and stop the pinger in between, and be
answered late.  An echo reply is matched to a send by its identifier and its sequence
number, over IPv4 and over IPv6, where no checksum is looked at.

## Main definitions

* `Delivers` — a datagram in which the kernel delivers an echo reply.
* `Client.Recognises` — the sends whose numbers the pinger still takes.

## Main results

* `handle_delivers` — what a pinger does with an echo reply.
* `sender_of_client` — the pinger of a client is a sender.
* `replies_matched_iff` — **an echo reply is reported as an answer just when it has the
  identifier of the pinger and the number of a send that is recognised.**
* `pings_echoed` — **what is sent comes back**: the answer to such a send is reported with
  the number and the payload of the send.
-/

namespace LANScan

open SimplePing

variable {order : ByteOrder} {hostName : String} {identifier : UInt16} {c c' : Client}

/-! ### Echo replies -/

/-- A datagram in which the kernel delivers an echo reply, and its ICMP message: behind an
IPv4 header and with a checksum that is right, or by itself over IPv6. -/
inductive Delivers : AddressFamily → List UInt8 → List UInt8 → Prop
  | inet (header : IPv4Header) {icmp : List UInt8} (hlen : sizeofICMPHeader ≤ icmp.length)
    (htype : icmp[0]? = some icmpv4TypeEchoReply) (hcode : icmp[1]? = some 0)
    (hchecksum : Carries 2 (internetChecksum (zeroChecksum icmp)) icmp) :
    Delivers .inet (header.bytes ++ icmp) icmp
  | inet6 {icmp : List UInt8} (hlen : sizeofICMPHeader ≤ icmp.length)
    (htype : icmp[0]? = some icmpv6TypeEchoReply) (hcode : icmp[1]? = some 0) :
    Delivers .inet6 icmp icmp

/-- **What a pinger makes of an echo reply** depends on the identifier and the sequence
number only. -/
theorem validatePingResponsePacket_delivers (order : ByteOrder) {ping : SimplePing}
    {datagram icmp : List UInt8} (h : Delivers ping.hostAddressFamily datagram icmp)
    (hmax : datagram.length ≤ 65535) {id number : UInt16} (hid : CarriesIdentifier id icmp)
    (hseq : CarriesSequenceNumber number icmp) :
    ping.validatePingResponsePacket order datagram =
      .ok (if id = ping.identifier ∧ ping.validateSequenceNumber number = true then
        ⟨icmp, some number⟩ else ⟨datagram, none⟩) := by
  rw [validatePingResponsePacket]
  generalize hfamily : ping.hostAddressFamily = family at h
  cases h with
  | inet header hlen htype hcode hchecksum =>
    have hoff := icmpHeaderOffset_append header hlen
    show ping.validatePing4ResponsePacket order (header.bytes ++ icmp) = _
    split
    next haccepted =>
      obtain ⟨rfl, hvalid⟩ := haccepted
      have hanswer : ping.Acceptable number
          ((header.bytes ++ icmp).drop header.bytes.length) := by
        rw [List.drop_left]
        exact ⟨htype, hcode, hchecksum, hid, hseq, hvalid⟩
      rw [validatePing4ResponsePacket_of_acceptable order hmax hoff hanswer, List.drop_left]
    next hrejected =>
      rcases validatePing4ResponsePacket_cases order ping hmax with
        ⟨-, hv⟩ | ⟨offset, hoff', ⟨n, hn, -⟩ | ⟨-, hv⟩⟩
      · exact hv
      · -- another identifier or number cannot be in the message
        obtain rfl := Option.some.inj (Except.ok.inj (hoff'.symm.trans hoff))
        rw [List.drop_left] at hn
        refine absurd ⟨hid.unique hn.identifier, ?_⟩ hrejected
        rw [hseq.unique hn.sequenceNumber_eq]
        exact hn.valid
      · exact hv
  | inet6 hlen htype hcode =>
    show ping.validatePing6ResponsePacket order datagram = _
    rw [validatePing6ResponsePacket, if_pos hlen]
    obtain ⟨b₀, b₁, b₄, b₅, b₆, b₇, h₀, h₁, h₄, h₅, h₆, h₇, heq⟩ :=
      acceptedSequenceNumber_eq order ping icmpv6TypeEchoReply
        (show 0 + sizeofICMPHeader ≤ datagram.length by omega)
    obtain rfl := Option.some.inj (h₀.symm.trans htype)
    obtain rfl := Option.some.inj (h₁.symm.trans hcode)
    rw [heq, ok_bind, hid.unique ⟨b₄, b₅, h₄, h₅, rfl⟩, hseq.unique ⟨b₆, b₇, h₆, h₇, rfl⟩]
    split
    next haccepted => rw [if_pos haccepted.2]; rfl
    next hrejected => rw [if_neg fun hboth => hrejected ⟨⟨rfl, rfl⟩, hboth⟩]; rfl

/-- **What a started pinger does with an echo reply.** -/
theorem handle_delivers (order : ByteOrder) (hsocket : c.ping.socket = true)
    {datagram icmp : List UInt8} (h : Delivers c.ping.hostAddressFamily datagram icmp)
    (hmax : datagram.length ≤ 65535) {id number : UInt16} (hid : CarriesIdentifier id icmp)
    (hseq : CarriesSequenceNumber number icmp) :
    c.handle order (.socketReadCallback (.ok datagram)) =
      .ok ({ c with ping := c.ping.logReceived datagram }.call
        (if id = c.ping.identifier ∧ c.ping.validateSequenceNumber number = true then
          .didReceivePingResponsePacket icmp number
        else .didReceiveUnexpectedPacket datagram)) := by
  have hne : datagram ≠ [] := by
    rintro rfl
    generalize c.ping.hostAddressFamily = family at h
    generalize hempty : ([] : List UInt8) = datagram at h
    cases h with
    | inet header hlen =>
      have hnil := (List.append_eq_nil_iff.mp hempty.symm).2
      subst hnil
      simp [sizeofICMPHeader] at hlen
    | inet6 hlen =>
      subst hempty
      simp [sizeofICMPHeader] at hlen
  have hvalidated : (c.ping.logReceived datagram).validatePingResponsePacket order datagram =
      .ok (if id = c.ping.identifier ∧ c.ping.validateSequenceNumber number = true then
        ⟨icmp, some number⟩ else ⟨datagram, none⟩) :=
    validatePingResponsePacket_delivers order h hmax hid hseq
  obtain ⟨b, rest, rfl⟩ := List.exists_cons_of_ne_nil hne
  show c.socketReadCallback order (.ok (b :: rest)) = _
  rw [Client.socketReadCallback, assert_eq hsocket, ok_bind, Client.readData, Except.map,
    List.take_of_length_le (show (b :: rest).length ≤ PingWrapper.kBufferSize from hmax)]
  dsimp only
  rw [Client.processPacket]
  dsimp only
  rw [hvalidated, ok_bind]
  by_cases haccepted : id = c.ping.identifier ∧ c.ping.validateSequenceNumber number = true
  · rw [if_pos haccepted, if_pos haccepted]
    rfl
  · rw [if_neg haccepted, if_neg haccepted]
    rfl

/-! ### The pinger of a client -/

/-- What happens to the pinger of a client besides sends. -/
def Keeps (c c' : Client) : Prop :=
  ∃ changes : List Change,
    c'.toSender = { c.toSender with ping := changes.foldl apply c.ping }

theorem Keeps.trans {c₁ c₂ c₃ : Client} (h₁ : Keeps c₁ c₂) (h₂ : Keeps c₂ c₃) : Keeps c₁ c₃ := by
  obtain ⟨changes₁, h₁⟩ := h₁
  obtain ⟨changes₂, h₂⟩ := h₂
  refine ⟨changes₁ ++ changes₂, ?_⟩
  rw [h₂, h₁, List.foldl_append]

theorem keeps_didFailWithError (c : Client) (error : PingError) :
    Keeps c (c.didFailWithError error) := ⟨[.stop], rfl⟩

theorem keeps_startWithHostAddress {socket : Except Errno Unit}
    (h : c.startWithHostAddress socket = .ok c') : Keeps c c' := by
  unfold Client.startWithHostAddress at h
  split at h
  next => cases h
  next =>
    dsimp only at h
    split at h
    next =>
      obtain rfl := Except.ok.inj h
      exact keeps_didFailWithError c _
    next =>
      obtain rfl := Except.ok.inj h
      exact ⟨[.openSocket], rfl⟩

theorem keeps_hostResolutionDone {resolved : Bool} {addresses : Option (List Address)}
    {socket : Except Errno Unit} (h : c.hostResolutionDone resolved addresses socket = .ok c') :
    Keeps c c' := by
  have hlatched : ∀ ping, ping = (apply (apply c.ping (.latchAddress resolved addresses))
      .stopHostResolution) → Keeps c { c with ping := ping } := by
    rintro ping rfl
    exact ⟨[.latchAddress resolved addresses, .stopHostResolution], rfl⟩
  unfold Client.hostResolutionDone at h
  generalize hlatch : c.ping.latchAddress resolved addresses = latched at h
  obtain ⟨hostAddress, resolved'⟩ := latched
  have hping : stopHostResolution { c.ping with hostAddress := hostAddress } =
      apply (apply c.ping (.latchAddress resolved addresses)) .stopHostResolution := by
    rw [apply, apply, hlatch]
  dsimp only at h
  split at h
  · exact (hlatched _ hping).trans (keeps_startWithHostAddress h)
  · obtain rfl := Except.ok.inj h
    exact (hlatched _ hping).trans (keeps_didFailWithError _ _)

theorem keeps_start {streamError : Option StreamError} (h : c.start streamError = .ok c') :
    Keeps c c' := by
  obtain ⟨_, -, h⟩ := bind_eq_ok.mp h
  obtain ⟨_, -, h⟩ := bind_eq_ok.mp h
  have hstarted : Keeps c { c with ping := { c.ping with host := true } } :=
    ⟨[.startHostResolution], rfl⟩
  split at h
  next =>
    obtain rfl := Except.ok.inj h
    exact hstarted
  next =>
    obtain rfl := Except.ok.inj h
    exact hstarted.trans (keeps_didFailWithError _ _)

theorem keeps_hostResolveCallback {error : Option StreamError} {resolved : Bool}
    {addresses : Option (List Address)} {socket : Except Errno Unit}
    (h : c.hostResolveCallback error resolved addresses socket = .ok c') : Keeps c c' := by
  obtain ⟨_, -, h⟩ := bind_eq_ok.mp h
  split at h
  next => exact keeps_hostResolutionDone h
  next =>
    split at h
    · obtain rfl := Except.ok.inj h
      exact keeps_didFailWithError c _
    · exact keeps_hostResolutionDone h

theorem keeps_readData {recvfrom : Except Errno (List UInt8)}
    (h : c.readData order recvfrom = .ok c') : Keeps c c' := by
  unfold Client.readData at h
  split at h
  next =>
    obtain rfl := Except.ok.inj h
    exact keeps_didFailWithError c _
  next =>
    obtain rfl := Except.ok.inj h
    exact keeps_didFailWithError c _
  next packet _ _ =>
    obtain ⟨v, -, h⟩ := bind_eq_ok.mp h
    split at h
    next =>
      obtain rfl := Except.ok.inj h
      exact ⟨[.logReceived packet], rfl⟩
    next =>
      obtain rfl := Except.ok.inj h
      exact ⟨[.logReceived packet], rfl⟩

/-- **The pinger of a client is a sender**, and its sends do not nest where those of the
client do not. -/
theorem sender_of_client
    (h : (client order hostName identifier).ReachWhile Client.OneAtATime c) :
    (sender order hostName identifier).ReachWhile Sender.OneAtATime c.toSender := by
  apply h.invariant (I := fun c =>
    (sender order hostName identifier).ReachWhile Sender.OneAtATime c.toSender)
  · exact .init
  · rintro c e c' hs hone ⟨hen, hstep⟩
    have hkept : Keeps c c' →
        (sender order hostName identifier).ReachWhile Sender.OneAtATime c'.toSender := by
      rintro ⟨changes, heq⟩
      rw [heq]
      exact reachWhile_changes changes hs
    cases e with
    | setAddressStyle addressStyle =>
      obtain rfl := Except.ok.inj hstep
      exact hkept ⟨[.setAddressStyle addressStyle], rfl⟩
    | start streamError => exact hkept (keeps_start (c := c.call .start) hstep)
    | stop =>
      obtain rfl := Except.ok.inj hstep
      exact hkept ⟨[.stop], rfl⟩
    | beginSend data sendto errno =>
      obtain ⟨⟨ping, packet⟩, hbegin, hstep⟩ := bind_eq_ok.mp hstep
      obtain rfl := Except.ok.inj hstep
      exact reachWhile_beginSend hs hone hbegin
    | endSend =>
      obtain rfl := Except.ok.inj hstep
      exact reachWhile_endSend hs hen
    | hostResolveCallback error resolved addresses socket =>
      exact hkept (keeps_hostResolveCallback hstep)
    | socketReadCallback recvfrom =>
      obtain ⟨_, -, hstep⟩ := bind_eq_ok.mp hstep
      exact hkept (keeps_readData hstep)

/-! ### Sends that are recognised -/

/-- The send at a position has returned, and its number is still taken: before the counter
wraps those of all sends are, and then those of the last 119. -/
structure Client.Recognises (c : Client) (i : ℕ) : Prop where
  returned : i + c.pending < c.pings.length
  recent : c.pings.length ≤ 65535 + c.pending ∨ c.pings.length < i + 120 + c.pending

/-- **The numbers that pass the check** are those of the sends that are recognised, and
after a wrap the one that the next ping will have. -/
theorem validateSequenceNumber_recognised
    (h : (client order hostName identifier).ReachWhile Client.OneAtATime c) (number : UInt16) :
    c.ping.validateSequenceNumber number = true ↔
      (∃ i request, c.pings[i]? = some request ∧ c.Recognises i ∧
        CarriesSequenceNumber number request) ∨
      65535 + c.pending < c.pings.length ∧ number = c.ping.nextSequenceNumber := by
  have hsender := sender_of_client h
  obtain ⟨n, hn⟩ := counted_of_reachable hsender.reachable
  have horder := inOrder_of_reachWhile hsender
  have hlength : c.pings.length = n + c.pending := hn.length_eq
  have hnumber := number.toNat_lt
  have hcarries : ∀ {i request}, c.pings[i]? = some request →
      (CarriesSequenceNumber number request ↔ number.toNat = i % 65536) := by
    intro i request hi
    have hposition := horder.carries i request hi
    constructor
    · intro hseq
      rw [hseq.unique hposition, UInt16.toNat_ofNat']
    · intro heq
      have hsame : number = UInt16.ofNat i := by
        rw [← UInt16.toNat_inj, UInt16.toNat_ofNat', heq]
      rw [hsame]
      exact hposition
  have hnext : number = c.ping.nextSequenceNumber ↔ number.toNat = n % 65536 := by
    rw [← UInt16.toNat_inj, hn.next_eq, UInt16.toNat_ofNat']
  rw [validateSequenceNumber_iff hn, hnext]
  constructor
  · intro hvalid
    -- the position is the latest one whose number this is
    have hposition : ∃ i, i < n ∧ number.toNat = i % 65536 ∧ (n ≤ 65535 ∨ n < i + 120) ∨
        65535 < n ∧ number.toNat = n % 65536 := by
      split at hvalid
      next hfew => exact ⟨number.toNat, by omega⟩
      next hmany => exact ⟨n - (65536 - number.toNat + n % 65536) % 65536, by omega⟩
    obtain ⟨i, ⟨hi, heq, hrecent⟩ | ⟨hmany, heq⟩⟩ := hposition
    · have hget : c.pings[i]? = some c.pings[i] := List.getElem?_eq_getElem (by omega)
      exact Or.inl ⟨i, _, hget, ⟨by omega, by omega⟩, (hcarries hget).mpr heq⟩
    · exact Or.inr ⟨by omega, heq⟩
  · rintro (⟨i, request, hget, ⟨hreturned, hrecent⟩, hseq⟩ | ⟨hmany, heq⟩)
    · have heq := (hcarries hget).mp hseq
      split
      next => omega
      next => omega
    · rw [if_neg (by omega)]
      omega

/-- **Which echo replies are reported as answers**, in runs where sends do not nest: those
with the identifier of the pinger and the number of a send that is recognised, or after a
wrap of the next one.  The delegate gets their ICMP message; any other echo reply it gets
as it was received. -/
theorem replies_matched_iff
    (h : (client order hostName identifier).ReachWhile Client.OneAtATime c)
    (hsocket : c.ping.socket = true) {datagram icmp : List UInt8}
    (hdelivers : Delivers c.ping.hostAddressFamily datagram icmp)
    (hmax : datagram.length ≤ 65535) {id number : UInt16} (hid : CarriesIdentifier id icmp)
    (hseq : CarriesSequenceNumber number icmp) :
    ∃ c', c.handle order (.socketReadCallback (.ok datagram)) = .ok c' ∧
      (c'.calls = c.calls ++ [.didReceivePingResponsePacket icmp number] ↔
        id = identifier ∧ ((∃ i request, c.pings[i]? = some request ∧ c.Recognises i ∧
            CarriesSequenceNumber number request) ∨
          65535 + c.pending < c.pings.length ∧ number = c.ping.nextSequenceNumber)) ∧
      (c'.calls = c.calls ++ [.didReceivePingResponsePacket icmp number] ∨
        c'.calls = c.calls ++ [.didReceiveUnexpectedPacket datagram]) := by
  obtain ⟨n, hn⟩ := counted_of_reachable (sender_of_client h).reachable
  have hidentifier : c.ping.identifier = identifier := hn.identifier_eq
  rw [handle_delivers order hsocket hdelivers hmax hid hseq, hidentifier,
    ← validateSequenceNumber_recognised h]
  refine ⟨_, rfl, ?_⟩
  by_cases haccepted : id = identifier ∧ c.ping.validateSequenceNumber number = true
  · rw [if_pos haccepted]
    exact ⟨⟨fun _ => haccepted, fun _ => rfl⟩, Or.inl rfl⟩
  · rw [if_neg haccepted]
    refine ⟨⟨fun hcalls => ?_, fun h => absurd h haccepted⟩, Or.inr rfl⟩
    have hlast := List.append_cancel_left hcalls
    cases (List.cons.inj hlast).1

/-- A pinger that was stopped after two pings over IPv6 and started anew. -/
def restarted : Client where
  ping := { SimplePing.new "fe80::1" 0x1234 with
    hostAddress := some ⟨.inet6, 28⟩
    nextSequenceNumber := 2
    socket := true
    sent := [[128, 0, 0, 0, 0x12, 0x34, 0, 0, 1], [128, 0, 0, 0, 0x12, 0x34, 0, 1, 2]] }
  pings := [[128, 0, 0, 0, 0x12, 0x34, 0, 0, 1], [128, 0, 0, 0, 0x12, 0x34, 0, 1, 2]]
  pending := 0
  calls := [.start, .didStartWithAddress ⟨.inet6, 28⟩,
    .didSendPacket [128, 0, 0, 0, 0x12, 0x34, 0, 0, 1] 0,
    .didSendPacket [128, 0, 0, 0, 0x12, 0x34, 0, 1, 2] 1, .stop, .start,
    .didStartWithAddress ⟨.inet6, 28⟩]

theorem reachWhile_restarted :
    (client .little "fe80::1" 0x1234).ReachWhile Client.OneAtATime restarted :=
  Machine.reachWhile_of_guarded (m := client .little "fe80::1" 0x1234)
    (fun _ _ _ hen hs => ⟨hen, handle_toOption hs⟩)
    [.start none, .hostResolveCallback none true (some [⟨.inet6, 28⟩]) (.ok ()),
      .beginSend (some [1]) 9 .ebadf, .endSend, .beginSend (some [2]) 9 .ebadf, .endSend, .stop,
      .start none, .hostResolveCallback none true (some [⟨.inet6, 28⟩]) (.ok ())] rfl

/-- A reply with the number of the second ping is reported, one with the number of a third
ping is not. -/
theorem replies_matched_iff_restarted :
    (∃ c', restarted.handle .little
          (.socketReadCallback (.ok [129, 0, 7, 7, 0x12, 0x34, 0, 1])) = .ok c' ∧
        c'.calls = restarted.calls ++
          [.didReceivePingResponsePacket [129, 0, 7, 7, 0x12, 0x34, 0, 1] 1]) ∧
      ∃ c', restarted.handle .little
          (.socketReadCallback (.ok [129, 0, 7, 7, 0x12, 0x34, 0, 2])) = .ok c' ∧
        c'.calls = restarted.calls ++
          [.didReceiveUnexpectedPacket [129, 0, 7, 7, 0x12, 0x34, 0, 2]] := by
  constructor
  · obtain ⟨c', hc', hiff, -⟩ := replies_matched_iff reachWhile_restarted rfl
      (.inet6 (by decide) rfl rfl) (by decide)
      (show CarriesIdentifier 0x1234 [129, 0, 7, 7, 0x12, 0x34, 0, 1] from ⟨_, _, rfl, rfl, rfl⟩)
      (show CarriesSequenceNumber 1 _ from ⟨_, _, rfl, rfl, rfl⟩)
    exact ⟨c', hc', hiff.mpr ⟨rfl, Or.inl ⟨1, _, rfl, ⟨by decide, by decide⟩,
      ⟨_, _, rfl, rfl, rfl⟩⟩⟩⟩
  · obtain ⟨c', hc', hiff, hcalls⟩ := replies_matched_iff reachWhile_restarted rfl
      (.inet6 (by decide) rfl rfl) (by decide)
      (show CarriesIdentifier 0x1234 [129, 0, 7, 7, 0x12, 0x34, 0, 2] from ⟨_, _, rfl, rfl, rfl⟩)
      (show CarriesSequenceNumber 2 _ from ⟨_, _, rfl, rfl, rfl⟩)
    refine ⟨c', hc', hcalls.resolve_left fun hreported => ?_⟩
    obtain ⟨-, ⟨i, request, hi, -, hseq⟩ | ⟨hmany, -⟩⟩ := hiff.mp hreported
    · -- the only numbers are `0` and `1`
      match i, hi with
      | 0, hi =>
        obtain rfl := Option.some.inj hi
        exact absurd (hseq.unique ⟨_, _, rfl, rfl, rfl⟩) (by decide)
      | 1, hi =>
        obtain rfl := Option.some.inj hi
        exact absurd (hseq.unique ⟨_, _, rfl, rfl, rfl⟩) (by decide)
      | i + 2, hi => cases hi
    · exact absurd hmany (by decide)

/-! ### What comes back -/

/-- A datagram with which a host answers a request, and its ICMP message; over IPv6 the
bytes of the checksum are whatever they are. -/
inductive Echoes (request : List UInt8) : AddressFamily → List UInt8 → List UInt8 → Prop
  | inet (header : IPv4Header) :
    Echoes request .inet (header.bytes ++ answerTo request) (answerTo request)
  | inet6 (b₂ b₃ : UInt8) {icmp : List UInt8}
    (hicmp : icmp = [icmpv6TypeEchoReply, 0, b₂, b₃] ++ request.drop 4) :
    Echoes request .inet6 icmp icmp

/-- The answer to what a pinger has built is an echo reply with its identifier, number
and payload. -/
theorem Echoes.delivers {ping ping' : SimplePing} {payload request datagram icmp : List UInt8}
    (hbuilt : ping'.pingPacket order payload = .ok request) {family : AddressFamily}
    (h : Echoes request family datagram icmp) (hmax : datagram.length ≤ 65535)
    {number : UInt16} (hid : CarriesIdentifier ping.identifier request)
    (hseq : CarriesSequenceNumber number request)
    (hvalid : ping.validateSequenceNumber number = true) :
    Delivers family datagram icmp ∧ CarriesIdentifier ping.identifier icmp ∧
      CarriesSequenceNumber number icmp ∧
      icmp.drop sizeofICMPHeader = request.drop sizeofICMPHeader := by
  obtain ⟨type, b₂, b₃, hrequest⟩ := pingPacket_eq_ok hbuilt
  cases h with
  | inet header =>
    have hlen : (answerTo request).length ≤ 65535 := by
      rw [List.length_append] at hmax
      omega
    have hreply : echoReply order request = .ok (answerTo request) :=
      (answerTo_pingPacket hbuilt (by rw [← length_answerTo]; exact hlen)).1
    have hanswer := acceptable_reply hreply hlen hid hseq hvalid
    refine ⟨.inet header (sizeofICMPHeader_le_reply hreply hseq) hanswer.type_eq hanswer.code_eq
      hanswer.checksum, hanswer.identifier, hanswer.sequenceNumber_eq, ?_⟩
    rw [hrequest]
    rfl
  | inet6 b₂' b₃' hicmp =>
    subst hrequest hicmp
    refine ⟨.inet6 ?_ rfl rfl, hid.congr rfl rfl, hseq.congr rfl rfl, rfl⟩
    simp [uncheckedPacket, sizeofICMPHeader]

/-- **What is sent comes back**: where sends do not nest, the answer to a send that is
recognised, however many others there are and however often the pinger was stopped and
started meanwhile, is reported as an answer to just that send, with the payload that was
sent. -/
theorem pings_echoed (h : (client order hostName identifier).ReachWhile Client.OneAtATime c)
    (hsocket : c.ping.socket = true) {i : ℕ} {request : List UInt8}
    (hi : c.pings[i]? = some request) (hrecognised : c.Recognises i) {datagram icmp : List UInt8}
    (hechoes : Echoes request c.ping.hostAddressFamily datagram icmp)
    (hmax : datagram.length ≤ 65535) :
    ∃ c', c.handle order (.socketReadCallback (.ok datagram)) = .ok c' ∧
      c'.calls = c.calls ++ [.didReceivePingResponsePacket icmp (UInt16.ofNat i)] ∧
      icmp.drop sizeofICMPHeader = request.drop sizeofICMPHeader := by
  have hsender := sender_of_client h
  obtain ⟨n, hn⟩ := counted_of_reachable hsender.reachable
  have hseq := (inOrder_of_reachWhile hsender).carries i request hi
  have hvalid := (validateSequenceNumber_recognised h (UInt16.ofNat i)).mpr
    (Or.inl ⟨i, request, hi, hrecognised, hseq⟩)
  obtain ⟨ping, payload, hbuilt, hid⟩ := hn.built request (List.mem_of_getElem? hi)
  have hcarries := carriesIdentifier_of_pingPacket hbuilt
  rw [hid, ← hn.identifier_eq] at hcarries
  obtain ⟨hdelivers, hid', hseq', hpayload⟩ :=
    hechoes.delivers hbuilt hmax hcarries hseq hvalid
  rw [handle_delivers order hsocket hdelivers hmax hid' hseq', if_pos ⟨rfl, hvalid⟩]
  exact ⟨_, rfl, rfl, hpayload⟩

/-- The answer to the first ping, after the new start. -/
theorem pings_echoed_restarted :
    ∃ c', restarted.handle .little
        (.socketReadCallback (.ok [129, 0, 7, 7, 0x12, 0x34, 0, 0, 1])) = .ok c' ∧
      c'.calls = restarted.calls ++
        [.didReceivePingResponsePacket [129, 0, 7, 7, 0x12, 0x34, 0, 0, 1] 0] := by
  obtain ⟨c', hc', hcalls, -⟩ := pings_echoed reachWhile_restarted rfl
    (show restarted.pings[0]? = some [128, 0, 0, 0, 0x12, 0x34, 0, 0, 1] from rfl)
    ⟨by decide, by decide⟩ (.inet6 7 7 rfl) (by decide)
  exact ⟨c', hc', hcalls⟩

end LANScan
