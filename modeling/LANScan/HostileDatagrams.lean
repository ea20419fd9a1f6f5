import LANScan.PingWrapper

/-!
# Datagrams from anywhere

Whoever reaches the socket can send it any bytes, with any length in the header.  The
parser takes the offset of the ICMP message from the datagram and zeroes two bytes
behind it before it knows whether it will accept it.

## Main results

* `readData_validated` — a datagram is reported as what the validation takes it for.
* `readData_safe` — **every datagram is handled inside its bounds, a rejected one is
  left as it was received, and an accepted one is an answer.**
-/

namespace LANScan

namespace PingWrapper

variable {order : ByteOrder} {w : PingWrapper}

/-- The delegate hears of a datagram what the validation says. -/
theorem readData_validated (hfamily : w.ping.hostAddressFamily = .inet) {packet : List UInt8}
    (hne : packet ≠ []) (hmax : packet.length ≤ kBufferSize) {v : SimplePing.Validation}
    (hv : w.ping.validatePing4ResponsePacket order packet = .ok v) :
    readData order w (some packet) =
      .ok (if v.sequenceNumber.isSome then
        delegateDidReceiveResponse { w with ping := w.ping.logReceived packet }
      else delegateDidReceiveUnexpected { w with ping := w.ping.logReceived packet }) := by
  have hfamily' : (w.ping.logReceived packet).hostAddressFamily = .inet := hfamily
  have hv' : (w.ping.logReceived packet).validatePing4ResponsePacket order packet = .ok v := hv
  rw [readData_eq hne hmax, processPacket, SimplePing.validatePingResponsePacket, hfamily']
  dsimp only
  rw [hv', ok_bind]
  cases v.sequenceNumber with
  | none => rfl
  | some n => rfl

/-- **Every datagram is handled safely**: no access leaves the packet; a rejected one is
what was received, and no sequence number is reported; an accepted one is what was
received from the offset on, and is an answer. -/
theorem readData_safe (order : ByteOrder) (w : PingWrapper) {packet : List UInt8}
    (hmin : 1 ≤ packet.length) (hmax : packet.length ≤ 65535) :
    (∃ offset, icmpHeaderOffsetInIPv4Packet packet = .ok offset) ∧
    ∃ v, w.ping.validatePing4ResponsePacket order packet = .ok v ∧
      (w.ping.hostAddressFamily = .inet → readData order w (some packet) =
        .ok (if v.sequenceNumber.isSome then
          delegateDidReceiveResponse { w with ping := w.ping.logReceived packet }
        else delegateDidReceiveUnexpected { w with ping := w.ping.logReceived packet })) ∧
      (v.sequenceNumber = none → v.packet = packet) ∧
      ∀ n, v.sequenceNumber = some n →
        (∃ offset, icmpHeaderOffsetInIPv4Packet packet = .ok (some offset) ∧
          v.packet = packet.drop offset) ∧
        w.ping.Acceptable n v.packet := by
  have hoffset : ∃ offset, icmpHeaderOffsetInIPv4Packet packet = .ok offset := by
    rcases icmpHeaderOffsetInIPv4Packet_spec packet with hoff | ⟨offset, hoff, -⟩
    · exact ⟨none, hoff⟩
    · exact ⟨some offset, hoff⟩
  obtain ⟨v, hv, hrejected, haccepted⟩ :=
    SimplePing.validatePing4ResponsePacket_spec order w.ping hmax
  refine ⟨hoffset, v, hv, fun hfamily => ?_, hrejected, fun n hn => ?_⟩
  · exact readData_validated hfamily (List.ne_nil_of_length_pos hmin) hmax hv
  · obtain ⟨offset, hoff, hpacket, hanswer⟩ := haccepted n hn
    rw [← hpacket] at hanswer
    exact ⟨⟨offset, hoff, hpacket⟩, hanswer⟩

/-- A datagram of 28 bytes that is an answer. -/
theorem readData_safe_answer :
    ∃ w : PingWrapper, ∃ packet : List UInt8,
      w.ping.identifier = 0x1234 ∧ w.ping.nextSequenceNumber = 1 ∧ packet.length = 28 ∧
      ∃ v, w.ping.validatePing4ResponsePacket .little packet = .ok v ∧
        v.sequenceNumber = some 0 ∧ w.ping.Acceptable 0 v.packet ∧
        v.packet = [0, 0, 0xED, 0xCB, 0x12, 0x34, 0, 0] := by
  obtain ⟨-, v, hv, -, -, haccepted⟩ := @readData_safe .little
    { PingWrapper.new "192.168.1.7" 0x1234 with
      ping := { SimplePing.new "192.168.1.7" 0x1234 with
        hostAddress := some ⟨.inet, 16⟩
        nextSequenceNumber := 1
        socket := true } }
    [0x45, 0, 0, 28, 0, 0, 0, 0, 64, 1, 0, 0, 192, 168, 1, 7, 192, 168, 1, 2,
      0, 0, 0xED, 0xCB, 0x12, 0x34, 0, 0] (by decide) (by decide)
  have heq : v = ⟨[0, 0, 0xED, 0xCB, 0x12, 0x34, 0, 0], some 0⟩ := by
    apply Except.ok.inj
    rw [← hv]
    decide +kernel
  rw [heq] at hv haccepted
  exact ⟨_, _, rfl, rfl, rfl, _, hv, rfl, (haccepted 0 rfl).2, rfl⟩

end PingWrapper

end LANScan
