import LANScan.PingAnswer
import LANScan.SequenceNumbers
import LANScan.WrapperSends

/-!
# The answers of live hosts

A host answers an echo request by changing its type and computing the checksum anew.
Whatever the identifier, the sequence number and the payload of the request and the
options of the header before the answer are, the pinger takes it for an answer.

## Main definitions

* `answerTo` — the ICMP message a host sends back.

## Main results

* `echoReply_eq_answerTo` — the reply a host of either byte order computes is that.
* `answer_to_latest_accepted` — the answer to the latest send is accepted.
* `answer_finishes_ping` — the answer to what a wrapper sent finishes its ping.
* `live_host_recognised` — **the answer of a live host is always recognised.**
-/

namespace LANScan

open SimplePing

variable {order : ByteOrder} {hostName : String} {identifier : UInt16} {w : PingWrapper}

/-! ### The answer to a request -/

/-- A request with its type changed to that of a reply, and the Internet checksum of the
result in its checksum field. -/
def answerTo (request : List UInt8) : List UInt8 :=
  let unchecked := zeroChecksum (request.set 0 icmpv4TypeEchoReply)
  let checksum := store16 .big (internetChecksum unchecked)
  (unchecked.set 2 checksum.1).set 3 checksum.2

/-- The answer to a message with code `0`. -/
theorem answerTo_eq (type b₂ b₃ : UInt8) (rest : List UInt8) :
    answerTo ([type, 0, b₂, b₃] ++ rest) =
      [icmpv4TypeEchoReply, 0,
        (store16 .big (internetChecksum (uncheckedReply ([type, 0, b₂, b₃] ++ rest)))).1,
        (store16 .big (internetChecksum (uncheckedReply ([type, 0, b₂, b₃] ++ rest)))).2] ++ rest :=
  rfl

/-- **A host of either byte order computes this answer.** -/
theorem echoReply_eq_answerTo (order : ByteOrder) (type b₂ b₃ : UInt8) {rest : List UInt8}
    (hmax : rest.length + 4 ≤ 65535) :
    echoReply order ([type, 0, b₂, b₃] ++ rest) = .ok (answerTo ([type, 0, b₂, b₃] ++ rest)) := by
  have hlen : (uncheckedReply ([type, 0, b₂, b₃] ++ rest)).length ≤ 65535 := by
    show rest.length + 4 ≤ 65535
    exact hmax
  rw [echoReply, inCksum_eq order hlen, ok_bind, write16_eq _ (by simp [uncheckedReply]),
    store16_swapHostToBig, answerTo_eq]
  rfl

theorem length_answerTo (request : List UInt8) : (answerTo request).length = request.length := by
  simp [answerTo, zeroChecksum]

/-- The answer to what a pinger builds can be computed, and has the same payload. -/
theorem answerTo_pingPacket {ping : SimplePing} {payload packet : List UInt8}
    (h : ping.pingPacket order payload = .ok packet) (hmax : packet.length ≤ 65535) :
    echoReply order packet = .ok (answerTo packet) ∧
      (answerTo packet).length = sizeofICMPHeader + payload.length ∧
      (answerTo packet).drop sizeofICMPHeader = payload := by
  obtain ⟨type, b₂, b₃, rfl⟩ := pingPacket_eq_ok h
  have hlen : (uncheckedPacket order ping type payload).length = payload.length + 8 :=
    length_uncheckedPacket order ping type payload
  refine ⟨echoReply_eq_answerTo order type b₂ b₃ ?_, ?_, rfl⟩
  · rw [List.length_append] at hmax
    simp only [List.length_cons, List.length_nil] at hmax
    omega
  · rw [length_answerTo, List.length_append, List.length_drop, hlen]
    simp only [List.length_cons, List.length_nil, sizeofICMPHeader]
    omega

/-! ### The latest send -/

/-- **The answer to the latest send is accepted** once the send has returned, whatever
has happened since, and leaves the ICMP header and the payload. -/
theorem answer_to_latest_accepted (order : ByteOrder) {ping : SimplePing}
    (hfamily : ping.hostAddressFamily = .inet) (data : Option (List UInt8)) (sendto : Int)
    (changes later : List Change) (header : IPv4Header) {payload : List UInt8}
    (hpayload : payload = data.getD (defaultPayload ping.nextSequenceNumber))
    (hmax : header.bytes.length + (sizeofICMPHeader + payload.length) ≤ 65535) :
    ∃ ping' packet, ping.sendPingWithData order data sendto changes = .ok (ping', packet) ∧
      pingPacketWithType order ping icmpv4TypeEchoRequest payload true = .ok packet ∧
      (later.foldl apply ping').validatePing4ResponsePacket order
          (header.bytes ++ answerTo packet) =
        .ok ⟨answerTo packet, some ping.nextSequenceNumber⟩ ∧
      (answerTo packet).length = sizeofICMPHeader + payload.length ∧
      (answerTo packet).drop sizeofICMPHeader = payload := by
  subst hpayload
  have hfits : (data.getD (defaultPayload ping.nextSequenceNumber)).length + 8 ≤ 65535 := by
    simp only [sizeofICMPHeader] at hmax
    omega
  obtain ⟨packet, hpacket, hlen, -⟩ :=
    exists_pingPacketWithType order ping icmpv4TypeEchoRequest true hfits
  obtain ⟨ping', packet', hsend⟩ := exists_sendPingWithData order hfamily data hfits sendto changes
  obtain ⟨hbuilt, hid, hvalid⟩ := sendPingWithData_spec hsend
  have hsame : packet' = packet := by
    rw [pingPacket, hfamily] at hbuilt
    exact Except.ok.inj (hbuilt.symm.trans hpacket)
  subst hsame
  obtain ⟨hreply, hanswer, hdrop⟩ := answerTo_pingPacket hbuilt (by omega)
  refine ⟨ping', packet', hsend, hpacket, ?_, hanswer, hdrop⟩
  -- what happens later does not matter to the checks
  obtain ⟨hid', -, hvalid'⟩ := foldl_apply_eq later ping'
  apply validatePing4ResponsePacket_reply header hreply
  · rw [List.length_append, hanswer]
    exact hmax
  · rw [hid', hid]
    exact carriesIdentifier_of_pingPacket hbuilt
  · exact carriesSequenceNumber_of_pingPacket hbuilt
  · rw [hvalid', hvalid]

/-! ### The wrapper -/

/-- A wrapper that has sent a request and given no verdict is pinging. -/
theorem pinging_of_sent (h : (pinger order hostName identifier).Reachable w)
    (hverdicts : w.verdicts = []) {s : Sender} (htracks : Tracks w s) (hpings : s.pings ≠ []) :
    Pinging w := by
  obtain ⟨-, hphase⟩ := phase_of_reachable h
  cases hphase with
  | fresh h => exact absurd (htracks.idle (Or.inl h.completion)) hpings
  | resolving h => exact absurd (htracks.idle (Or.inr h.host)) hpings
  | pinging h => exact h
  | finished h =>
    obtain ⟨found, hverdict, -⟩ := h.verdict
    rw [hverdicts] at hverdict
    cases hverdict

/-- **The answer to a request that was sent finishes the ping** with the verdict that
the host was found, if there is none yet. -/
theorem answer_finishes_ping (h : (pinger order hostName identifier).Reachable w)
    (hverdicts : w.verdicts = []) {request : List UInt8} (hsent : request ∈ w.ping.sent)
    (header : IPv4Header) (hmax : header.bytes.length + request.length ≤ 65535) :
    w.Enabled (.socketReadable (some (header.bytes ++ answerTo request))) ∧
      ∃ w', w.handle order (.socketReadable (some (header.bytes ++ answerTo request))) = .ok w' ∧
        w'.verdicts = [(hostName, true)] := by
  obtain ⟨s, hs, htracks⟩ := exists_tracks h
  obtain ⟨n, hn⟩ := counted_of_reachable hs.reachable
  obtain ⟨hours, -⟩ := phase_of_reachable h
  rw [← htracks.ping_eq] at hsent
  -- the request is the only ping, the one with the number `0`
  have hmem := hn.sent request hsent
  have hpings : s.pings = [request] := by
    obtain ⟨packet, hone⟩ := List.length_eq_one_iff.mp
      (Nat.le_antisymm htracks.length_le (List.length_pos_of_mem hmem))
    rw [hone, List.mem_singleton] at hmem
    rw [hone, hmem]
  have hcount : n = 1 := by
    have hlength := hn.length_eq
    rw [hpings, htracks.pending_eq] at hlength
    exact hlength.symm
  obtain ⟨ping, payload, hbuilt, hid⟩ := hn.built request hmem
  have hcarriesSeq := (inOrder_of_reachWhile hs).carries 0 request (by rw [hpings]; rfl)
  have hvalid : w.ping.validateSequenceNumber 0 = true := by
    rw [← htracks.ping_eq, validateSequenceNumber_iff hn, hcount]
    decide
  have hpinging := pinging_of_sent h hverdicts htracks (by rw [hpings]; exact List.cons_ne_nil _ _)
  obtain ⟨hreply, -⟩ := answerTo_pingPacket hbuilt (by omega)
  have hcarriesId := carriesIdentifier_of_pingPacket hbuilt
  rw [hid, ← hours.identifier_eq] at hcarriesId
  obtain ⟨w', hw', hverdict, -⟩ :=
    PingWrapper.exists_answered hpinging header hreply hcarriesId hcarriesSeq hvalid
      (by rw [List.length_append, length_answerTo]; exact hmax)
  rw [hours.hostName_eq] at hverdict
  exact ⟨hpinging.socket, w', hw', hverdict⟩

/-- **The answer of a live host is always recognised**: by a pinger in any state that
has an IPv4 address, and so by a wrapper, which reports that the host was found. -/
theorem live_host_recognised (order : ByteOrder) (header : IPv4Header) :
    (∀ (ping : SimplePing) (data : Option (List UInt8)) (sendto : Int)
        (changes later : List Change) (payload : List UInt8),
      ping.hostAddressFamily = .inet →
      payload = data.getD (defaultPayload ping.nextSequenceNumber) →
      header.bytes.length + (sizeofICMPHeader + payload.length) ≤ 65535 →
      ∃ ping' packet, ping.sendPingWithData order data sendto changes = .ok (ping', packet) ∧
        pingPacketWithType order ping icmpv4TypeEchoRequest payload true = .ok packet ∧
        (later.foldl apply ping').validatePing4ResponsePacket order
            (header.bytes ++ answerTo packet) =
          .ok ⟨answerTo packet, some ping.nextSequenceNumber⟩ ∧
        (answerTo packet).length = sizeofICMPHeader + payload.length ∧
        (answerTo packet).drop sizeofICMPHeader = payload) ∧
    ∀ (hostName : String) (identifier : UInt16) (w : PingWrapper) (request : List UInt8),
      (pinger order hostName identifier).Reachable w → w.verdicts = [] →
      request ∈ w.ping.sent → header.bytes.length + request.length ≤ 65535 →
      w.Enabled (.socketReadable (some (header.bytes ++ answerTo request))) ∧
        ∃ w', w.handle order (.socketReadable (some (header.bytes ++ answerTo request))) =
            .ok w' ∧
          w'.verdicts = [(hostName, true)] :=
  ⟨fun _ data sendto changes later _ hfamily hpayload hmax =>
      answer_to_latest_accepted order hfamily data sendto changes later header hpayload hmax,
    fun _ _ _ _ h hverdicts hsent hmax => answer_finishes_ping h hverdicts hsent header hmax⟩

/-- A header with four bytes of options. -/
def headerWithOptions : IPv4Header where
  bytes := [0x46, 0, 0, 35, 0, 0, 0, 0, 64, protocolICMP, 0, 0, 192, 168, 1, 7, 192, 168, 1, 2,
    1, 1, 1, 0]
  versionAndHeaderLength := 0x46
  head_eq := rfl
  version := rfl
  length_eq := rfl
  length_ge := by decide
  protocol_eq := rfl

/-- A payload of odd length sent under the last number before the counter wraps, and the
request of a wrapper. -/
theorem live_host_recognised_odd :
    (∃ ping' packet,
      SimplePing.sendPingWithData .little
          { SimplePing.new "192.168.1.7" 0xFFFE with
            hostAddress := some ⟨.inet, 16⟩
            nextSequenceNumber := 0xFFFF } (some [1, 2, 3]) 11 [] = .ok (ping', packet) ∧
        ping'.validatePing4ResponsePacket .little (headerWithOptions.bytes ++ answerTo packet) =
          .ok ⟨answerTo packet, some 0xFFFF⟩) ∧
    ∃ w w' datagram, (pinger .little "192.168.1.7" 0xFFFE).Reachable w ∧
      w.handle .little (.socketReadable (some datagram)) = .ok w' ∧
      w'.verdicts = [("192.168.1.7", true)] := by
  obtain ⟨hping, hwrapper⟩ := live_host_recognised .little headerWithOptions
  constructor
  · obtain ⟨ping', packet, hsend, -, haccepted, -⟩ :=
      hping { SimplePing.new "192.168.1.7" 0xFFFE with
        hostAddress := some ⟨.inet, 16⟩
        nextSequenceNumber := 0xFFFF } (some [1, 2, 3]) 11 [] [] [1, 2, 3] rfl rfl (by decide)
    exact ⟨ping', packet, hsend, haccepted⟩
  · obtain ⟨packet, hrequest, hlen, -⟩ :=
      PingWrapper.exists_requested .little "192.168.1.7" 0xFFFE
    have hreach := (Machine.Reachable.init.step
      (PingWrapper.startPing_started .little "192.168.1.7" 0xFFFE)).step hrequest
    obtain ⟨-, w', hw', hverdict⟩ := hwrapper _ _ _ packet hreach rfl
      (List.mem_singleton.mpr rfl) (by rw [hlen]; decide)
    exact ⟨_, w', _, hreach, hw', hverdict⟩

end LANScan
