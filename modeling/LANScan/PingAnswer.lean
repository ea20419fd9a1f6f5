import LANScan.HostileDatagrams
import LANScan.WrapperSends

/-!
# Pings that are answered

A pinger that reads a reply to a request with its identifier reports that its host was
found.

## Main results

* `exists_requested` — the request of a pinger can go out.
* `exists_answered` — **a reply to a request with the identifier of the pinger
  finishes the ping.**
-/

namespace LANScan

variable {hostName : String} {identifier : UInt16} {order : ByteOrder} {w : PingWrapper}

namespace PingWrapper

/-- A resolution to an IPv4 address leads to a request once the socket opens. -/
theorem hostResolutionDone_opens (hstyle : w.ping.addressStyle = .icmpv4) (sendto : Int) :
    hostResolutionDone order w true (some [⟨.inet, sizeofSockaddr⟩]) true sendto =
      sendPingWithData order
        { w with
          ping := { w.ping with
            hostAddress := some ⟨.inet, sizeofSockaddr⟩
            host := false
            socket := true }
          timeoutTimer := some true } none sendto := by
  have hlatch : w.ping.latchAddress true (some [⟨.inet, sizeofSockaddr⟩]) =
      (some ⟨.inet, sizeofSockaddr⟩, true) := by
    rw [SimplePing.latchAddress, hstyle]
    rfl
  rw [hostResolutionDone, hlatch]
  dsimp only
  rw [if_pos rfl, startWithHostAddress_eq rfl, if_pos rfl]
  rfl

/-- A pinger whose name is being resolved. -/
def started (hostName : String) (identifier : UInt16) : PingWrapper where
  hostName := hostName
  ping := { SimplePing.new hostName identifier with addressStyle := .icmpv4, host := true }
  timeoutTimer := none
  completion := true
  verdicts := []

/-- A pinger that has sent its request. -/
def requested (hostName : String) (identifier : UInt16) (packet : List UInt8) : PingWrapper where
  hostName := hostName
  ping :=
    { SimplePing.new hostName identifier with
      addressStyle := .icmpv4
      hostAddress := some ⟨.inet, sizeofSockaddr⟩
      nextSequenceNumber := 1
      socket := true
      sent := [packet] }
  timeoutTimer := some true
  completion := true
  verdicts := []

theorem startPing_started (order : ByteOrder) (hostName : String) (identifier : UInt16) :
    (pinger order hostName identifier).Step (.new hostName identifier) (.startPing true)
      (started hostName identifier) := ⟨rfl, rfl⟩

/-- **The request of a pinger can go out.** -/
theorem exists_requested (order : ByteOrder) (hostName : String) (identifier : UInt16) :
    ∃ packet,
      (pinger order hostName identifier).Step (started hostName identifier)
        (.hostResolved true (some [⟨.inet, sizeofSockaddr⟩]) true 64)
        (requested hostName identifier packet) ∧
      packet.length = 64 ∧ SimplePing.CarriesIdentifier identifier packet ∧
      SimplePing.CarriesSequenceNumber 0 packet := by
  obtain ⟨packet, hsent, hlen, hcarries⟩ := exists_sendPingWithData order
    (w := { started hostName identifier with
      ping := { SimplePing.new hostName identifier with
        addressStyle := .icmpv4
        hostAddress := some ⟨.inet, sizeofSockaddr⟩
        socket := true }
      timeoutTimer := some true }) rfl 64
  refine ⟨packet, ⟨⟨rfl, fun _ => by simp⟩, ?_⟩, hlen, hcarries⟩
  rw [handle, hostResolutionDone_opens rfl]
  apply Eq.trans hsent
  -- the kernel takes the whole packet
  rw [if_pos rfl, reportSend, if_pos (by rw [hlen]; decide)]
  rfl

theorem hostFound_verdicts (h : Waiting w) (found : Bool) :
    (w.hostFound found).verdicts = [(w.hostName, found)] := by
  rw [hostFound, if_pos (by simpa using h.completion)]
  simp [h.verdicts]

/-- **A reply to a request with the identifier of the pinger finishes the ping** with
the verdict that the host was found. -/
theorem exists_answered (h : Pinging w) (header : IPv4Header)
    {request reply : List UInt8} (hreply : echoReply order request = .ok reply)
    (hid : SimplePing.CarriesIdentifier w.ping.identifier request) {sequenceNumber : UInt16}
    (hseq : SimplePing.CarriesSequenceNumber sequenceNumber request)
    (hvalid : w.ping.validateSequenceNumber sequenceNumber = true)
    (hmax : (header.bytes ++ reply).length ≤ kBufferSize) :
    ∃ w', w.handle order (.socketReadable (some (header.bytes ++ reply))) = .ok w' ∧
      w'.verdicts = [(w.hostName, true)] ∧
      w'.ping.received = w.ping.received ++ [header.bytes ++ reply] := by
  have hne : header.bytes ++ reply ≠ [] := by
    intro hnil
    have hge := header.length_ge
    rw [(List.append_eq_nil_iff.mp hnil).1] at hge
    exact absurd hge (by decide)
  have hwaiting := (h.logReceived (header.bytes ++ reply)).toWaiting
  have haccept : w.ping.validatePing4ResponsePacket order (header.bytes ++ reply) =
      .ok ⟨reply, some sequenceNumber⟩ :=
    SimplePing.validatePing4ResponsePacket_reply header hreply hmax hid hseq hvalid
  rw [handle, socketReadCallback, assert_eq h.socket, ok_bind,
    readData_validated h.hostAddressFamily hne hmax haccept]
  refine ⟨_, rfl, hostFound_verdicts hwaiting true, ?_⟩
  show (hostFound _ true).ping.received = _
  rw [hostFound_ping]
  rfl

end PingWrapper

end LANScan
